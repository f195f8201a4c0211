import TreeQuery.Proofs.Token.Tiling
import TreeQuery.Selector.Level

/-!
Units: what the readers of a level take off.

A unit is one token, or a function and its argument, and it has a category. A level takes units of
ascending categories for as long as it can, and what it reads does not depend on the positions of
the tokens.
-/

namespace TreeQuery

namespace Level

/-- The categories of units, in the order in which a level reads them. -/
inductive Category where
  | native
  | declared
  | key
  | pseudoClass
  | nth
  | function
  | universal
  deriving DecidableEq, Repr

namespace Category

def all : List Category :=
  [.native, .declared, .key, .pseudoClass, .nth, .function, .universal]

def rank : Category → Nat
  | .native => 0
  | .declared => 1
  | .key => 2
  | .pseudoClass => 3
  | .nth => 4
  | .function => 5
  | .universal => 6

def reader : Category → Reader
  | .native => Level.native
  | .declared => Level.declared
  | .key => Level.key
  | .pseudoClass => Level.pseudoClass
  | .nth => Level.nth
  | .function => Level.function
  | .universal => Level.universal

/-- Whether a token starts a unit of a category. -/
def starts (category : Category) (token : Token) : Bool :=
  match category with
  | .native => token.kind = .nativeKind
  | .declared => token.kind = .declaredType
  | .key => token.kind = .identifier
  | .pseudoClass => token.kind = .pseudoClass
  | .nth => token.kind = .nthFunction
  | .function => token.kind = .pseudoClassFunction
  | .universal => token.isOperator "*"

theorem readers_eq : readers = all.map reader := rfl

theorem mem_all (category : Category) : category ∈ all := by
  cases category <;> decide

theorem pairwise_all : all.Pairwise fun first second => first.rank < second.rank := by
  decide

/-- A token starts units of one category at most. -/
theorem starts_unique {first second : Category} {token : Token}
    (isFirst : first.starts token = true) (isSecond : second.starts token = true) :
    first = second := by
  cases first <;> cases second <;> simp_all [starts, Token.isOperator]

theorem starts_congr {category : Category} {token other : Token}
    (same : token.content = other.content) : category.starts token = category.starts other := by
  obtain ⟨sameKind, sameValue⟩ := Token.content_eq_iff.mp same
  cases category <;> simp [starts, Token.isOperator, sameKind, sameValue]

end Category

/-- The tokens of a unit, with the test that it stands for. -/
inductive IsUnit (scope : PackageScope) : Category → List Token → Test → Prop where
  | native {token : Token} {kind : Kind} (isNative : token.kind = .nativeKind)
      (isWord : Kind.ofWord? token.value = some kind) :
      IsUnit scope .native [token] (.native kind)
  | declared {token : Token} {reference : TypeName} (isDeclared : token.kind = .declaredType)
      (resolves : scope.resolve token.value = .ok reference) :
      IsUnit scope .declared [token] (.declared reference)
  | key {token : Token} (isName : token.kind = .identifier) :
      IsUnit scope .key [token] (.key token.value)
  | pseudoClass {token : Token} {which : PseudoClass} (isPseudoClass : token.kind = .pseudoClass)
      (isWord : PseudoClass.ofWord? token.value = some which) :
      IsUnit scope .pseudoClass [token] (.pseudoClass which)
  | nth {token blob : Token} {test : Test} (isNth : token.kind = .nthFunction)
      (isBlob : blob.kind = .arguments) (reads : nthTest token.value blob.value = .ok test) :
      IsUnit scope .nth [token, blob] test
  | function {token blob : Token} {test : Test} (isFunction : token.kind = .pseudoClassFunction)
      (isBlob : blob.kind = .arguments)
      (reads : functionTest token.value (innerText blob.value) = .ok test) :
      IsUnit scope .function [token, blob] test
  | universal {token : Token} (isStar : token.isOperator "*" = true) :
      IsUnit scope .universal [token] .universal

section

variable {scope : PackageScope} {category : Category} {tokens rest unit others : List Token}
  {test : Test}

theorem IsUnit.starts (isUnit : IsUnit scope category unit test) :
    ∃ first behind, unit = first :: behind ∧ category.starts first = true := by
  cases isUnit with
  | native isNative => exact ⟨_, _, rfl, by simpa [Category.starts] using isNative⟩
  | declared isDeclared => exact ⟨_, _, rfl, by simpa [Category.starts] using isDeclared⟩
  | key isName => exact ⟨_, _, rfl, by simpa [Category.starts] using isName⟩
  | pseudoClass isPseudo => exact ⟨_, _, rfl, by simpa [Category.starts] using isPseudo⟩
  | nth isNth => exact ⟨_, _, rfl, by simpa [Category.starts] using isNth⟩
  | function isFunction => exact ⟨_, _, rfl, by simpa [Category.starts] using isFunction⟩
  | universal isStar => exact ⟨_, _, rfl, isStar⟩

theorem exists_of_map_content {token : Token}
    (same : [token.content] = others.map Token.content) :
    ∃ other, others = [other] ∧ other.kind = token.kind ∧ other.value = token.value := by
  obtain ⟨other, rfl, sameContent⟩ := List.map_eq_singleton_iff.mp same.symm
  exact ⟨other, rfl, Token.content_eq_iff.mp sameContent⟩

theorem exists_of_map_content_pair {token blob : Token}
    (same : [token.content, blob.content] = others.map Token.content) :
    ∃ other otherBlob, others = [other, otherBlob] ∧ other.kind = token.kind ∧
      other.value = token.value ∧ otherBlob.kind = blob.kind ∧ otherBlob.value = blob.value := by
  obtain ⟨other, behind, rfl, sameToken, sameBehind⟩ := List.map_eq_cons_iff.mp same.symm
  obtain ⟨otherBlob, rfl, sameKind, sameValue⟩ := exists_of_map_content sameBehind.symm
  obtain ⟨tokenKind, tokenValue⟩ := Token.content_eq_iff.mp sameToken
  exact ⟨other, otherBlob, rfl, tokenKind, tokenValue, sameKind, sameValue⟩

/-- Tokens that say the same make the same unit. -/
theorem IsUnit.congr (isUnit : IsUnit scope category unit test)
    (same : unit.map Token.content = others.map Token.content) :
    IsUnit scope category others test := by
  cases isUnit with
  | native isNative isWord =>
      obtain ⟨other, rfl, sameKind, sameValue⟩ := exists_of_map_content same
      exact .native (sameKind.trans isNative) (sameValue ▸ isWord)
  | declared isDeclared resolves =>
      obtain ⟨other, rfl, sameKind, sameValue⟩ := exists_of_map_content same
      exact .declared (sameKind.trans isDeclared) (sameValue ▸ resolves)
  | key isName =>
      obtain ⟨other, rfl, sameKind, sameValue⟩ := exists_of_map_content same
      exact sameValue ▸ .key (sameKind.trans isName)
  | pseudoClass isPseudo isWord =>
      obtain ⟨other, rfl, sameKind, sameValue⟩ := exists_of_map_content same
      exact .pseudoClass (sameKind.trans isPseudo) (sameValue ▸ isWord)
  | nth isNth isBlob reads =>
      obtain ⟨other, blob, rfl, sameKind, sameValue, blobKind, blobValue⟩ :=
        exists_of_map_content_pair same
      exact .nth (sameKind.trans isNth) (blobKind.trans isBlob) (sameValue ▸ blobValue ▸ reads)
  | function isFunction isBlob reads =>
      obtain ⟨other, blob, rfl, sameKind, sameValue, blobKind, blobValue⟩ :=
        exists_of_map_content_pair same
      exact .function (sameKind.trans isFunction) (blobKind.trans isBlob)
        (sameValue ▸ blobValue ▸ reads)
  | universal isStar =>
      obtain ⟨other, rfl, sameKind, sameValue⟩ := exists_of_map_content same
      refine .universal ?_
      simpa [Token.isOperator, sameKind, sameValue] using isStar

theorem argument_ok_iff {name text : String} :
    argument name tokens = .ok (text, rest) ↔
      ∃ blob, tokens = blob :: rest ∧ blob.kind = .arguments ∧ blob.value = text := by
  cases tokens with
  | nil => simp [argument]
  | cons blob behind =>
      by_cases isBlob : blob.kind = .arguments
      · simp only [argument, isBlob, if_true, Except.ok.injEq, Prod.mk.injEq, List.cons.injEq]
        constructor
        · rintro ⟨sameValue, sameRest⟩
          exact ⟨blob, ⟨rfl, sameRest⟩, isBlob, sameValue⟩
        · rintro ⟨_, ⟨same, sameRest⟩, _, sameValue⟩
          exact ⟨same ▸ sameValue, sameRest⟩
      · simp only [argument, isBlob, if_false, reduceCtorEq, false_iff]
        rintro ⟨_, spelled, isArguments, _⟩
        cases spelled
        exact isBlob isArguments

theorem exists_of_nthTest {name text : String} (reads : nthTest name text = .ok test) :
    ∃ nth, test = .nth nth := by
  unfold nthTest at reads
  split at reads
  · cases reads
  · split at reads <;> cases reads
    exact ⟨_, rfl⟩

/-- Only `:has(…)` has an inner selector, whose tokens are those of the argument. -/
theorem lexed_of_functionTest {name text : String} {inner : List Token}
    (reads : functionTest name text = .ok (.has inner)) :
    name = "has" ∧ tokenize .selector text = .ok inner := by
  unfold functionTest at reads
  split at reads
  · unfold hasTest at reads
    split at reads
    · cases reads
    · rename_i lexed
      cases reads
      unfold selectorTokens at lexed
      split at lexed <;> cases lexed
      rename_i tokenized
      exact ⟨rfl, tokenized⟩
    · cases reads
  · cases found : literal "contains" text <;> rw [found] at reads <;> cases reads
  · cases found : literal "val" text <;> rw [found] at reads <;> cases reads
  · split at reads <;> cases reads
  · cases reads

theorem reader_pass {token : Token} (absent : category.starts token = false) :
    category.reader scope (token :: rest) = .ok none := by
  cases category <;> simp only [Category.starts, decide_eq_false_iff_not] at absent <;>
    simp [Category.reader, native, declared, key, pseudoClass, nth, function, universal, absent]

theorem reader_unit (isUnit : IsUnit scope category unit test) :
    category.reader scope (unit ++ rest) = .ok (some (test, rest)) := by
  cases isUnit with
  | native isNative isWord => simp [Category.reader, native, isNative, isWord]
  | declared isDeclared resolves => simp [Category.reader, declared, isDeclared, resolves]
  | key isName => simp [Category.reader, key, isName]
  | pseudoClass isPseudo isWord => simp [Category.reader, pseudoClass, isPseudo, isWord]
  | nth isNth isBlob reads => simp [Category.reader, nth, isNth, argument, isBlob, reads]
  | function isFunction isBlob reads =>
      simp [Category.reader, function, isFunction, argument, isBlob, reads]
  | universal isStar => simp [Category.reader, universal, isStar]

theorem isUnit_of_reader {token : Token} {behind : List Token} {found : Option (Test × List Token)}
    (starts : category.starts token = true)
    (wasRead : category.reader scope (token :: behind) = .ok found) :
    ∃ unit test rest, found = some (test, rest) ∧ IsUnit scope category unit test ∧
      token :: behind = unit ++ rest := by
  cases category with
  | native =>
      simp only [Category.starts, decide_eq_true_eq] at starts
      simp only [Category.reader, native, starts, if_true] at wasRead
      cases isWord : Kind.ofWord? token.value with
      | none => simp [isWord] at wasRead
      | some kind =>
          simp only [isWord, Except.ok.injEq] at wasRead
          exact ⟨_, _, _, wasRead.symm, .native starts isWord, rfl⟩
  | declared =>
      simp only [Category.starts, decide_eq_true_eq] at starts
      simp only [Category.reader, declared, starts, if_true] at wasRead
      cases resolves : scope.resolve token.value with
      | error error => simp [resolves] at wasRead
      | ok reference =>
          simp only [resolves, Except.ok.injEq] at wasRead
          exact ⟨_, _, _, wasRead.symm, .declared starts resolves, rfl⟩
  | key =>
      simp only [Category.starts, decide_eq_true_eq] at starts
      simp only [Category.reader, key, starts, if_true, Except.ok.injEq] at wasRead
      exact ⟨_, _, _, wasRead.symm, .key starts, rfl⟩
  | pseudoClass =>
      simp only [Category.starts, decide_eq_true_eq] at starts
      simp only [Category.reader, pseudoClass, starts, if_true] at wasRead
      cases isWord : PseudoClass.ofWord? token.value with
      | none => simp [isWord] at wasRead
      | some which =>
          simp only [isWord, Except.ok.injEq] at wasRead
          exact ⟨_, _, _, wasRead.symm, .pseudoClass starts isWord, rfl⟩
  | nth =>
      simp only [Category.starts, decide_eq_true_eq] at starts
      simp only [Category.reader, nth, starts, if_true] at wasRead
      cases taken : argument token.value behind with
      | error error => simp [taken] at wasRead
      | ok pair =>
          obtain ⟨text, rest⟩ := pair
          obtain ⟨blob, rfl, isBlob, rfl⟩ := argument_ok_iff.mp taken
          cases reads : nthTest token.value blob.value with
          | error error => simp [taken, reads] at wasRead
          | ok test =>
              simp only [taken, reads, Except.ok.injEq] at wasRead
              exact ⟨_, _, _, wasRead.symm, .nth starts isBlob reads, rfl⟩
  | function =>
      simp only [Category.starts, decide_eq_true_eq] at starts
      simp only [Category.reader, function, starts, if_true] at wasRead
      cases taken : argument token.value behind with
      | error error => simp [taken] at wasRead
      | ok pair =>
          obtain ⟨text, rest⟩ := pair
          obtain ⟨blob, rfl, isBlob, rfl⟩ := argument_ok_iff.mp taken
          cases reads : functionTest token.value (innerText blob.value) with
          | error error => simp [taken, reads] at wasRead
          | ok test =>
              simp only [taken, reads, Except.ok.injEq] at wasRead
              exact ⟨_, _, _, wasRead.symm, .function starts isBlob reads, rfl⟩
  | universal =>
      simp only [Category.starts] at starts
      simp only [Category.reader, universal, starts, if_true, Except.ok.injEq] at wasRead
      exact ⟨_, _, _, wasRead.symm, .universal starts, rfl⟩

/-- A reader passes when the next token starts no unit of its category. -/
theorem reader_none_iff :
    category.reader scope tokens = .ok none ↔
      ∀ token ∈ tokens.head?, category.starts token = false := by
  cases tokens with
  | nil => cases category <;> exact iff_of_true rfl (by simp)
  | cons token behind =>
      simp only [List.head?_cons, Option.mem_def, Option.some.injEq, forall_eq']
      cases starts : category.starts token with
      | false => simp [reader_pass starts]
      | true =>
          have notPassed : category.reader scope (token :: behind) ≠ .ok none := by
            intro passed
            obtain ⟨_, _, _, taken, _⟩ := isUnit_of_reader starts passed
            cases taken
          simp [notPassed]

/-- A reader takes a unit of its category. -/
theorem reader_some_iff :
    category.reader scope tokens = .ok (some (test, rest)) ↔
      ∃ unit, IsUnit scope category unit test ∧ tokens = unit ++ rest := by
  constructor
  · intro wasRead
    cases tokens with
    | nil => cases category <;> cases wasRead
    | cons token behind =>
        cases starts : category.starts token with
        | false =>
            rw [reader_pass starts] at wasRead
            cases wasRead
        | true =>
            obtain ⟨unit, _, _, taken, isUnit, spelled⟩ := isUnit_of_reader starts wasRead
            cases taken
            exact ⟨unit, isUnit, spelled⟩
  · rintro ⟨unit, isUnit, spelled⟩
    rw [spelled]
    exact reader_unit isUnit

end

/-! ## Compounds -/

/-- A unit that a level takes, with its category and its test. -/
structure Part where
  category : Category
  tokens : List Token
  test : Test

/-- Parts of ascending categories are all that readers of some categories take off the front. -/
structure IsCompound (scope : PackageScope) (categories : List Category) (parts : List Part)
    (tokens rest : List Token) : Prop where
  units : ∀ part ∈ parts, IsUnit scope part.category part.tokens part.test
  listed : ∀ part ∈ parts, part.category ∈ categories
  ascending : parts.Pairwise fun first second => first.category.rank < second.category.rank
  spelled : tokens = parts.flatMap Part.tokens ++ rest
  /-- The next token starts no unit of a category that is still to come. -/
  maximal : ∀ category ∈ categories, (∀ part ∈ parts, part.category.rank < category.rank) →
    ∀ token ∈ rest.head?, category.starts token = false

section

variable {scope : PackageScope} {category : Category} {categories : List Category}
  {tokens rest others unit : List Token} {test : Test} {tests : List Test} {parts : List Part}

theorem IsCompound.done : IsCompound scope [] [] rest rest where
  units := by simp
  listed := by simp
  ascending := .nil
  spelled := rfl
  maximal := by simp

theorem IsCompound.pass (compound : IsCompound scope categories parts tokens rest)
    (before : ∀ later ∈ categories, category.rank < later.rank)
    (absent : ∀ token ∈ tokens.head?, category.starts token = false) :
    IsCompound scope (category :: categories) parts tokens rest where
  units := compound.units
  listed part isPart := List.mem_cons_of_mem _ (compound.listed part isPart)
  ascending := compound.ascending
  spelled := compound.spelled
  maximal other isOther passed := by
    rcases List.mem_cons.mp isOther with rfl | isLater
    · cases parts with
      | nil =>
          have nothingTaken : tokens = rest := compound.spelled
          exact nothingTaken ▸ absent
      | cons part parts =>
          have isBefore := passed part List.mem_cons_self
          have isAfter := before _ (compound.listed part List.mem_cons_self)
          omega
    · exact compound.maximal other isLater passed

theorem IsCompound.take (compound : IsCompound scope categories parts tokens rest)
    (before : ∀ later ∈ categories, category.rank < later.rank)
    (isUnit : IsUnit scope category unit test) :
    IsCompound scope (category :: categories) (⟨category, unit, test⟩ :: parts) (unit ++ tokens)
      rest where
  units := List.forall_mem_cons.mpr ⟨isUnit, compound.units⟩
  listed := List.forall_mem_cons.mpr ⟨List.mem_cons_self, fun part isPart =>
    List.mem_cons_of_mem _ (compound.listed part isPart)⟩
  ascending := .cons (fun part isPart => before _ (compound.listed part isPart)) compound.ascending
  spelled := by simp [compound.spelled]
  maximal other isOther passed := by
    rcases List.mem_cons.mp isOther with rfl | isLater
    · exact absurd (passed _ List.mem_cons_self) (Nat.lt_irrefl _)
    · exact compound.maximal other isLater fun part isPart =>
        passed part (List.mem_cons_of_mem _ isPart)

/-- The first category either has the first part, or it is passed. -/
theorem IsCompound.first (compound : IsCompound scope (category :: categories) parts tokens rest)
    (before : ∀ later ∈ categories, category.rank < later.rank) :
    ((∀ token ∈ tokens.head?, category.starts token = false) ∧
        IsCompound scope categories parts tokens rest) ∨
      ∃ unit test laterParts laterTokens, parts = ⟨category, unit, test⟩ :: laterParts ∧
        tokens = unit ++ laterTokens ∧ IsUnit scope category unit test ∧
          IsCompound scope categories laterParts laterTokens rest := by
  obtain ⟨units, listed, ascending, spelled, maximal⟩ := compound
  cases parts with
  | nil =>
      have nothingTaken : tokens = rest := spelled
      refine .inl ⟨nothingTaken ▸ maximal category List.mem_cons_self (by simp), ?_⟩
      exact ⟨by simp, by simp, .nil, spelled, fun other isOther _ =>
        maximal other (List.mem_cons_of_mem _ isOther) (by simp)⟩
  | cons part parts =>
      obtain ⟨ascends, laterAscend⟩ := List.pairwise_cons.mp ascending
      obtain ⟨isUnit, laterUnits⟩ := List.forall_mem_cons.mp units
      obtain ⟨isListed, laterListed⟩ := List.forall_mem_cons.mp listed
      rw [List.flatMap_cons, List.append_assoc] at spelled
      have inTail : ∀ other ∈ parts, category.rank ≤ part.category.rank →
          other.category ∈ categories := by
        intro other isOther notBefore
        rcases List.mem_cons.mp (laterListed other isOther) with same | isLater
        · have := ascends other isOther
          rw [same] at this
          omega
        · exact isLater
      rcases List.mem_cons.mp isListed with same | isLater
      · obtain ⟨_, partTokens, partTest⟩ := part
        cases same
        refine .inr ⟨partTokens, partTest, parts, _, rfl, spelled, isUnit, laterUnits, ?_,
          laterAscend, rfl, ?_⟩
        · exact fun other isOther => inTail other isOther (Nat.le_refl _)
        · intro other isOther passed
          exact maximal other (List.mem_cons_of_mem _ isOther)
            (List.forall_mem_cons.mpr ⟨before other isOther, passed⟩)
      · have later := before _ isLater
        refine .inl ⟨?_, units, ?_, ascending, ?_, ?_⟩
        · intro token isHead
          obtain ⟨first, behind, unitIs, starts⟩ := isUnit.starts
          rw [spelled, unitIs, List.cons_append, List.head?_cons] at isHead
          cases startsFirst : category.starts token with
          | false => rfl
          | true =>
              rw [Option.some.inj isHead] at starts
              rw [Category.starts_unique startsFirst starts] at later
              exact absurd later (Nat.lt_irrefl _)
        · exact List.forall_mem_cons.mpr ⟨isLater, fun other isOther =>
            inTail other isOther (Nat.le_of_lt later)⟩
        · rw [spelled, List.flatMap_cons, List.append_assoc]
        · intro other isOther passed
          exact maximal other (List.mem_cons_of_mem _ isOther) passed

/-- Readers of ascending categories collect a compound. -/
theorem collect_ok_iff
    (ascending : categories.Pairwise fun first second => first.rank < second.rank) :
    collect scope (categories.map Category.reader) tokens = .ok (tests, rest) ↔
      ∃ parts : List Part, tests = parts.map Part.test ∧
        IsCompound scope categories parts tokens rest := by
  induction categories generalizing tokens tests with
  | nil =>
      constructor
      · intro collected
        cases collected
        exact ⟨[], rfl, .done⟩
      · rintro ⟨parts, testsAre, compound⟩
        cases parts with
        | nil => rw [testsAre, compound.spelled]; rfl
        | cons part parts => cases compound.listed part List.mem_cons_self
  | cons category categories induction =>
      obtain ⟨before, later⟩ := List.pairwise_cons.mp ascending
      rw [List.map_cons, collect]
      constructor
      · intro collected
        cases wasRead : category.reader scope tokens with
        | error error => simp [wasRead] at collected
        | ok found =>
            cases found with
            | none =>
                rw [wasRead] at collected
                obtain ⟨parts, testsAre, compound⟩ := (induction later).mp collected
                exact ⟨parts, testsAre, compound.pass before (reader_none_iff.mp wasRead)⟩
            | some taken =>
                obtain ⟨test, behind⟩ := taken
                obtain ⟨unit, isUnit, rfl⟩ := reader_some_iff.mp wasRead
                cases others : collect scope (categories.map Category.reader) behind with
                | error error => simp [wasRead, others] at collected
                | ok found =>
                    simp only [wasRead, others, Except.ok.injEq, Prod.mk.injEq] at collected
                    obtain ⟨rfl, rfl⟩ := collected
                    obtain ⟨parts, testsAre, compound⟩ := (induction later).mp others
                    exact ⟨_, congrArg _ testsAre, compound.take before isUnit⟩
      · rintro ⟨parts, testsAre, compound⟩
        rcases compound.first before with ⟨absent, compound⟩ | taken
        · rw [reader_none_iff.mpr absent]
          exact (induction later).mpr ⟨parts, testsAre, compound⟩
        · obtain ⟨unit, test, laterParts, laterTokens, rfl, rfl, isUnit, compound⟩ := taken
          have others := (induction later).mpr ⟨laterParts, rfl, compound⟩
          simp only [reader_unit isUnit, others, testsAre, List.map_cons]

theorem read_ok_iff_collect :
    read scope tokens = .ok (tests, rest) ↔
      collect scope readers tokens = .ok (tests, rest) ∧ tests ≠ [] := by
  rw [read]
  cases collect scope readers tokens with
  | error error => simp
  | ok found =>
      obtain ⟨foundTests, foundRest⟩ := found
      cases foundTests with
      | nil =>
          simp only [reduceCtorEq, false_iff, not_and, Except.ok.injEq, Prod.mk.injEq]
          exact fun same nonempty => nonempty same.1.symm
      | cons test foundTests =>
          simp only [Except.ok.injEq, Prod.mk.injEq, iff_self_and]
          exact fun same => same.1 ▸ List.cons_ne_nil _ _

/-- A level is the compound of all categories, which has to have a part. -/
theorem read_ok_iff :
    read scope tokens = .ok (tests, rest) ↔
      ∃ parts : List Part, parts ≠ [] ∧ tests = parts.map Part.test ∧
        IsCompound scope Category.all parts tokens rest := by
  rw [read_ok_iff_collect, Category.readers_eq, collect_ok_iff Category.pairwise_all]
  constructor
  · rintro ⟨⟨parts, testsAre, compound⟩, nonempty⟩
    refine ⟨parts, ?_, testsAre, compound⟩
    intro noParts
    exact nonempty (by rw [testsAre, noParts, List.map_nil])
  · rintro ⟨parts, nonempty, testsAre, compound⟩
    refine ⟨⟨parts, testsAre, compound⟩, ?_⟩
    simpa [testsAre] using nonempty

/-- What a level leaves of its tokens is their end. -/
theorem suffix_of_read (level : read scope tokens = .ok (tests, rest)) : rest <:+ tokens := by
  obtain ⟨parts, _, _, compound⟩ := read_ok_iff.mp level
  rw [compound.spelled]
  exact List.suffix_append _ _

/-- A level takes only one unit if what follows starts no unit of a later category. -/
theorem read_unit (isUnit : IsUnit scope category unit test) (rest : List Token)
    (absent : ∀ token ∈ rest.head?, ∀ later : Category, category.rank < later.rank →
      later.starts token = false) : read scope (unit ++ rest) = .ok ([test], rest) := by
  refine read_ok_iff.mpr ⟨[⟨category, unit, test⟩], by simp, rfl, ?_⟩
  refine ⟨by simpa using isUnit, by simpa using Category.mem_all category, by simp, by simp, ?_⟩
  intro later _ passed token isHead
  exact absent token isHead later (passed _ List.mem_cons_self)

/-- A compound stays one before tokens that start no unit. -/
theorem IsCompound.append (compound : IsCompound scope categories parts tokens rest)
    (apart : ∀ token ∈ others.head?, ∀ category ∈ categories, category.starts token = false) :
    IsCompound scope categories parts (tokens ++ others) (rest ++ others) where
  units := compound.units
  listed := compound.listed
  ascending := compound.ascending
  spelled := by rw [compound.spelled, List.append_assoc]
  maximal category isCategory passed token isHead := by
    cases rest with
    | nil => exact apart token isHead category isCategory
    | cons first behind => exact compound.maximal category isCategory passed token isHead

/-- Tokens that say the same have the same compound at their front. -/
theorem IsCompound.congr (compound : IsCompound scope categories parts tokens rest)
    (ascending : categories.Pairwise fun first second => first.rank < second.rank)
    (same : tokens.map Token.content = others.map Token.content) :
    ∃ otherParts otherRest, otherParts.map Part.test = parts.map Part.test ∧
      rest.map Token.content = otherRest.map Token.content ∧
        IsCompound scope categories otherParts others otherRest := by
  induction categories generalizing parts tokens others with
  | nil =>
      cases parts with
      | nil =>
          refine ⟨[], others, rfl, ?_, .done⟩
          rw [← same, compound.spelled]
          rfl
      | cons part parts => cases compound.listed part List.mem_cons_self
  | cons category categories induction =>
      obtain ⟨before, later⟩ := List.pairwise_cons.mp ascending
      rcases compound.first before with ⟨absent, compound⟩ | taken
      · obtain ⟨otherParts, otherRest, testsAre, restAre, otherCompound⟩ :=
          induction compound later same
        refine ⟨otherParts, otherRest, testsAre, restAre, otherCompound.pass before ?_⟩
        intro other isHead
        obtain ⟨behind, rfl⟩ := List.head?_eq_some_iff.mp isHead
        obtain ⟨token, _, rfl, sameToken, _⟩ := List.map_eq_cons_iff.mp same
        rw [← Category.starts_congr sameToken]
        exact absent token rfl
      · obtain ⟨unit, test, laterParts, laterTokens, rfl, rfl, isUnit, compound⟩ := taken
        rw [List.map_append] at same
        obtain ⟨otherUnit, otherTokens, rfl, unitSame, tokensSame⟩ :=
          List.append_eq_map_iff.mp same
        obtain ⟨otherParts, otherRest, testsAre, restAre, otherCompound⟩ :=
          induction compound later tokensSame.symm
        refine ⟨_, otherRest, ?_, restAre, otherCompound.take before (isUnit.congr unitSame.symm)⟩
        rw [List.map_cons, List.map_cons, testsAre]

theorem read_append (wasRead : read scope tokens = .ok (tests, rest)) (others : List Token)
    (apart : ∀ token ∈ others.head?, ∀ category : Category, category.starts token = false) :
    read scope (tokens ++ others) = .ok (tests, rest ++ others) := by
  obtain ⟨parts, nonempty, testsAre, compound⟩ := read_ok_iff.mp wasRead
  refine read_ok_iff.mpr ⟨parts, nonempty, testsAre, compound.append ?_⟩
  exact fun token isHead category _ => apart token isHead category

theorem read_congr (wasRead : read scope tokens = .ok (tests, rest))
    (same : tokens.map Token.content = others.map Token.content) :
    ∃ otherRest, rest.map Token.content = otherRest.map Token.content ∧
      read scope others = .ok (tests, otherRest) := by
  obtain ⟨parts, nonempty, testsAre, compound⟩ := read_ok_iff.mp wasRead
  obtain ⟨otherParts, otherRest, otherTests, restAre, otherCompound⟩ :=
    compound.congr Category.pairwise_all same
  refine ⟨otherRest, restAre, read_ok_iff.mpr ⟨otherParts, ?_, ?_, otherCompound⟩⟩
  · intro noParts
    rw [noParts, List.map_nil] at otherTests
    exact nonempty (List.map_eq_nil_iff.mp otherTests.symm)
  · rw [testsAre, otherTests]

end

end Level

end TreeQuery
