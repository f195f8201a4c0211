import TreeQuery.PackageScope

/-!
What type references stand for.

A reference is a path with a name, a nickname with a name or a bare name. `Denotes` has one rule for
each, told apart by the characters of the whole reference, and resolving finds what a rule allows.
The types that are found are written as a path with a name, and where their package reads as a path
this reference stands for the same type.
-/

namespace TreeQuery

namespace PackageScope

variable {scope : PackageScope} {text package nickname name : String} {reference : TypeName}

/-- A package or a nickname and a name, with the only colon between them. -/
structure IsQualified (text package name : String) : Prop where
  spelled : text = package ++ ":" ++ name
  hasPackage : package ≠ ""
  hasName : name ≠ ""
  noColonBefore : ':' ∉ package.toList
  noColonAfter : ':' ∉ name.toList

/-- Whether a package is the one of the scope or the target of an alias. -/
def Names (scope : PackageScope) (package : String) : Prop :=
  package = scope.home ∨ ∃ entry ∈ scope.aliases, entry.2 = package

/-- What a reference stands for. A slash makes it a path with a name, whether it stands before the
colon or behind it. -/
inductive Denotes (scope : PackageScope) : String → TypeName → Prop where
  | path {text package name : String} (isPath : '/' ∈ text.toList)
      (isQualified : IsQualified text package name) (isNamed : scope.Names package) :
      Denotes scope text ⟨package, name⟩
  | nickname {text nickname package name : String} (noSlash : '/' ∉ text.toList)
      (isQualified : IsQualified text nickname name)
      (target : scope.aliases.lookup nickname = some package) : Denotes scope text ⟨package, name⟩
  | bare {name : String} (noSlash : '/' ∉ name.toList) (noColon : ':' ∉ name.toList)
      (notEmpty : name ≠ "") : Denotes scope name ⟨scope.home, name⟩

theorem IsQualified.toList_eq (isQualified : IsQualified text package name) :
    text.toList = package.toList ++ ':' :: name.toList := by
  rw [isQualified.spelled, String.toList_append, String.toList_append, List.append_assoc]
  rfl

theorem IsQualified.colon_mem (isQualified : IsQualified text package name) :
    ':' ∈ text.toList := by
  rw [isQualified.toList_eq]
  exact List.mem_append_right _ List.mem_cons_self

theorem IsQualified.mem_of_mem_package {c : Char} (isQualified : IsQualified text package name)
    (member : c ∈ package.toList) : c ∈ text.toList := by
  rw [isQualified.toList_eq]
  exact List.mem_append_left _ member

theorem eq_append_of_dropWhile {chars behind : List Char} {first : Char}
    (isBehind : chars.dropWhile (· != ':') = first :: behind) :
    chars = chars.takeWhile (· != ':') ++ ':' :: behind := by
  have isColon := List.head?_dropWhile_not (· != ':') chars
  rw [isBehind] at isColon
  obtain rfl : first = ':' := bne_eq_false_iff_eq.mp isColon
  rw [← isBehind, List.takeWhile_append_dropWhile]

theorem takeWhile_append_colon {before : List Char} (noColon : ':' ∉ before)
    (behind : List Char) :
    (before ++ ':' :: behind).takeWhile (· != ':') = before ∧
      (before ++ ':' :: behind).dropWhile (· != ':') = ':' :: behind := by
  have passes : ∀ c ∈ before, (c != ':') = true := fun c member =>
    bne_iff_ne.mpr fun isColon => noColon (isColon ▸ member)
  rw [List.takeWhile_append_of_pos passes, List.dropWhile_append_of_pos passes]
  exact ⟨List.append_nil before, rfl⟩

theorem splitQualified?_eq_some_iff :
    splitQualified? text = some (package, name) ↔ IsQualified text package name := by
  constructor
  · intro isSplit
    simp only [splitQualified?] at isSplit
    split at isSplit
    · cases isSplit
    · rename_i _ behind isBehind
      split at isSplit
      · cases isSplit
      · rename_i notMissing
        cases isSplit
        simp only [Bool.or_eq_true, List.isEmpty_iff, List.contains_iff_mem, not_or] at notMissing
        obtain ⟨⟨hasPackage, hasName⟩, noColonAfter⟩ := notMissing
        have noColonBefore : ':' ∉ text.toList.takeWhile (· != ':') := fun member =>
          bne_iff_ne.mp (List.all_eq_true.mp (List.all_takeWhile (p := (· != ':'))) _ member) rfl
        refine ⟨String.toList_injective ?_, ?_, ?_, ?_, ?_⟩
        · simpa using eq_append_of_dropWhile isBehind
        · simpa using hasPackage
        · simpa using hasName
        · rwa [String.toList_ofList]
        · rwa [String.toList_ofList]
  · intro isQualified
    obtain ⟨isBefore, isBehind⟩ :=
      takeWhile_append_colon isQualified.noColonBefore name.toList
    simp [splitQualified?, isQualified.toList_eq, isBefore, isBehind, isQualified.hasPackage,
      isQualified.hasName, isQualified.noColonAfter]

theorem knows_iff : scope.knows package = true ↔ scope.Names package := by
  simp only [knows, Names, Bool.or_eq_true, decide_eq_true_eq, List.any_eq_true]

/-- Resolving finds what a reference stands for. -/
theorem resolve_eq_ok_iff : scope.resolve text = .ok reference ↔ scope.Denotes text reference := by
  constructor
  · intro resolved
    unfold resolve at resolved
    split at resolved
    · rename_i isPath
      split at resolved
      · cases resolved
      · rename_i package name isSplit
        split at resolved
        · rename_i isKnown
          cases resolved
          exact .path (List.contains_iff_mem.mp isPath) (splitQualified?_eq_some_iff.mp isSplit)
            (knows_iff.mp isKnown)
        · cases resolved
    · rename_i noSlash
      rw [List.contains_iff_mem] at noSlash
      split at resolved
      · split at resolved
        · cases resolved
        · rename_i nickname name isSplit
          split at resolved
          · cases resolved
          · rename_i package target
            cases resolved
            exact .nickname noSlash (splitQualified?_eq_some_iff.mp isSplit) target
      · rename_i noColon
        rw [List.contains_iff_mem] at noColon
        split at resolved
        · cases resolved
        · rename_i notEmpty
          cases resolved
          exact .bare noSlash noColon fun isEmpty => notEmpty (isEmpty ▸ rfl)
  · intro denotes
    cases denotes with
    | path isPath isQualified isNamed =>
        simp [resolve, isPath, splitQualified?_eq_some_iff.mpr isQualified,
          knows_iff.mpr isNamed]
    | nickname noSlash isQualified target =>
        simp [resolve, noSlash, isQualified.colon_mem, splitQualified?_eq_some_iff.mpr isQualified,
          target]
    | bare noSlash noColon notEmpty =>
        simp [resolve, noSlash, noColon, notEmpty]

theorem mem_aliases_of_lookup (target : scope.aliases.lookup nickname = some package) :
    (nickname, package) ∈ scope.aliases := by
  obtain ⟨before, after, isSplit, _⟩ := List.lookup_eq_some_iff.mp target
  rw [isSplit]
  exact List.mem_append_right before List.mem_cons_self

theorem names_of_lookup (target : scope.aliases.lookup nickname = some package) :
    scope.Names package :=
  .inr ⟨(nickname, package), mem_aliases_of_lookup target, rfl⟩

/-- A type that a reference stands for has a package that the scope names and a proper name. -/
theorem Denotes.isProper (denotes : scope.Denotes text reference) :
    scope.Names reference.package ∧ reference.name ≠ "" ∧ ':' ∉ reference.name.toList := by
  cases denotes with
  | path _ isQualified isNamed =>
      exact ⟨isNamed, isQualified.hasName, isQualified.noColonAfter⟩
  | nickname _ isQualified target =>
      exact ⟨names_of_lookup target, isQualified.hasName, isQualified.noColonAfter⟩
  | bare _ noColon notEmpty => exact ⟨.inl rfl, notEmpty, noColon⟩

/-- The text of a type with a path as its package is a reference to it. -/
theorem denotes_text (isNamed : scope.Names reference.package) (hasName : reference.name ≠ "")
    (noColonAfter : ':' ∉ reference.name.toList) (isPath : '/' ∈ reference.package.toList)
    (noColonBefore : ':' ∉ reference.package.toList) :
    scope.Denotes reference.text reference := by
  have hasPackage : reference.package ≠ "" := fun isEmpty => by simp [isEmpty] at isPath
  have isQualified : IsQualified reference.text reference.package reference.name :=
    ⟨rfl, hasPackage, hasName, noColonBefore, noColonAfter⟩
  exact .path (isQualified.mem_of_mem_package isPath) isQualified isNamed

/-- A type that a reference resolves to is in the package of the scope or of an alias and has a
name without a colon. If its package has a slash and no colon, its text resolves to it again,
however the reference was spelled. -/
theorem resolve_canonical (resolved : scope.resolve text = .ok reference) :
    (reference.package = scope.home ∨ ∃ entry ∈ scope.aliases, entry.2 = reference.package) ∧
      reference.name ≠ "" ∧ ':' ∉ reference.name.toList ∧
      ('/' ∈ reference.package.toList → ':' ∉ reference.package.toList →
        scope.resolve reference.text = .ok reference) := by
  obtain ⟨isNamed, hasName, noColon⟩ := (resolve_eq_ok_iff.mp resolved).isProper
  refine ⟨isNamed, hasName, noColon, fun isPath noColonBefore => ?_⟩
  exact resolve_eq_ok_iff.mpr (denotes_text isNamed hasName noColon isPath noColonBefore)

/-- A nickname, a bare name and a path all lead to the text of the type. -/
theorem resolve_canonical_spellings :
    let scope : PackageScope := ⟨"example.com/zoo", [("pets", "example.com/pets")]⟩
    scope.resolve "pets:dog" = .ok ⟨"example.com/pets", "dog"⟩ ∧
      scope.resolve "example.com/pets:dog" = .ok ⟨"example.com/pets", "dog"⟩ ∧
      scope.resolve "cage" = .ok ⟨"example.com/zoo", "cage"⟩ ∧
      scope.resolve "example.com/zoo:cage" = .ok ⟨"example.com/zoo", "cage"⟩ := by
  intro scope
  have byNickname : scope.resolve "pets:dog" = .ok ⟨"example.com/pets", "dog"⟩ := rfl
  have byName : scope.resolve "cage" = .ok ⟨"example.com/zoo", "cage"⟩ := rfl
  refine ⟨byNickname, ?_, byName, ?_⟩
  · exact (resolve_canonical byNickname).2.2.2 (by decide +kernel) (by decide +kernel)
  · exact (resolve_canonical byName).2.2.2 (by decide +kernel) (by decide +kernel)

end PackageScope

end TreeQuery
