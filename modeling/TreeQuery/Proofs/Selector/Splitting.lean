import TreeQuery.Proofs.Selector.ClosedForm
import TreeQuery.Proofs.Selector.Units

/-!
How the tokens of a selector are split into levels.

A level takes units of ascending categories for as long as it can: it ends before a token that
starts no unit of a category later than that of its last unit. There is one way only to take a level
off a row of tokens, and level by level, with the operators between them, an accepted selector uses
each of its tokens once.
-/

namespace TreeQuery

namespace Level

variable {scope : PackageScope} {category otherCategory : Category} {categories : List Category}
  {tokens rest otherRest unit other : List Token} {test otherTest : Test} {tests : List Test}
  {parts others : List Part}

/-- The unit at the front of a row is the only one there. -/
theorem IsUnit.unique (isUnit : IsUnit scope category unit test)
    (isOther : IsUnit scope otherCategory other otherTest)
    (same : unit ++ rest = other ++ otherRest) :
    otherCategory = category ∧ other = unit ∧ otherTest = test ∧ otherRest = rest := by
  obtain ⟨first, behind, unitIs, starts⟩ := isUnit.starts
  obtain ⟨otherFirst, otherBehind, otherIs, otherStarts⟩ := isOther.starts
  have sameFirst : first = otherFirst := by
    rw [unitIs, otherIs] at same
    exact (List.cons.inj same).1
  obtain rfl := Category.starts_unique (sameFirst ▸ starts) otherStarts
  have wasRead : category.reader scope (unit ++ rest) = .ok (some (test, rest)) :=
    reader_unit isUnit
  rw [same, reader_unit isOther] at wasRead
  simp only [Except.ok.injEq, Option.some.injEq, Prod.mk.injEq] at wasRead
  obtain ⟨rfl, rfl⟩ := wasRead
  exact ⟨rfl, (List.append_cancel_right same).symm, rfl, rfl⟩

theorem IsUnit.ne_absent (isUnit : IsUnit scope category unit test)
    (absent : ∀ token ∈ (unit ++ rest).head?, category.starts token = false) : False := by
  obtain ⟨first, behind, rfl, starts⟩ := isUnit.starts
  cases starts.symm.trans (absent first rfl)

/-- Readers of ascending categories take parts off a row in one way. -/
theorem IsCompound.unique
    (ascending : categories.Pairwise fun first second => first.rank < second.rank)
    (compound : IsCompound scope categories parts tokens rest)
    (isOther : IsCompound scope categories others tokens otherRest) :
    others = parts ∧ otherRest = rest := by
  induction categories generalizing parts others tokens with
  | nil =>
      have empty {parts : List Part} {rest : List Token}
          (compound : IsCompound scope [] parts tokens rest) : parts = [] ∧ tokens = rest := by
        cases parts with
        | nil => exact ⟨rfl, compound.spelled⟩
        | cons part parts => cases compound.listed part List.mem_cons_self
      obtain ⟨rfl, rfl⟩ := empty compound
      obtain ⟨rfl, rfl⟩ := empty isOther
      exact ⟨rfl, rfl⟩
  | cons category categories induction =>
      obtain ⟨before, later⟩ := List.pairwise_cons.mp ascending
      rcases compound.first before with ⟨absent, passed⟩ | taken
      · rcases isOther.first before with ⟨_, otherPassed⟩ | otherTaken
        · exact induction later passed otherPassed
        · obtain ⟨unit, test, _, _, _, rfl, isUnit, _⟩ := otherTaken
          exact absurd absent isUnit.ne_absent
      · obtain ⟨unit, test, laterParts, laterTokens, rfl, rfl, isUnit, others⟩ := taken
        rcases isOther.first before with ⟨absent, _⟩ | otherTaken
        · exact absurd absent isUnit.ne_absent
        · obtain ⟨_, _, otherParts, _, rfl, same, isOtherUnit, otherOthers⟩ := otherTaken
          obtain ⟨_, rfl, rfl, rfl⟩ := isUnit.unique isOtherUnit same
          obtain ⟨rfl, rfl⟩ := induction later others otherOthers
          exact ⟨rfl, rfl⟩

/-- Parts are what a level takes off the front of a row, as much as it can. -/
structure IsGreedy (scope : PackageScope) (parts : List Part) (tokens rest : List Token) :
    Prop where
  nonempty : parts ≠ []
  units : ∀ part ∈ parts, IsUnit scope part.category part.tokens part.test
  ascending : parts.Pairwise fun first second => first.category.rank < second.category.rank
  spelled : tokens = parts.flatMap Part.tokens ++ rest
  /-- The next token starts no unit of a category later than that of the last part. -/
  maximal : ∀ last ∈ parts.getLast?, ∀ category : Category, last.category.rank < category.rank →
    ∀ token ∈ rest.head?, category.starts token = false

theorem rank_le_of_getLast? {part last : Part}
    (ascending : parts.Pairwise fun first second => first.category.rank < second.category.rank)
    (isLast : last ∈ parts.getLast?) (isPart : part ∈ parts) :
    part.category.rank ≤ last.category.rank := by
  obtain ⟨front, rfl⟩ := List.getLast?_eq_some_iff.mp isLast
  rcases List.mem_append.mp isPart with inFront | isLast
  · have before := (List.pairwise_append.mp ascending).2.2 part inFront last (by simp)
    exact Nat.le_of_lt before
  · obtain rfl := List.mem_singleton.mp isLast
    exact Nat.le_refl _

theorem isGreedy_iff : IsGreedy scope parts tokens rest ↔
    parts ≠ [] ∧ IsCompound scope Category.all parts tokens rest := by
  constructor
  · intro greedy
    refine ⟨greedy.nonempty, greedy.units, fun part _ => part.category.mem_all, greedy.ascending,
      greedy.spelled, ?_⟩
    intro category _ passed
    have isLast := List.getLast?_eq_some_getLast greedy.nonempty
    exact greedy.maximal _ isLast category (passed _ (List.getLast_mem greedy.nonempty))
  · rintro ⟨nonempty, compound⟩
    refine ⟨nonempty, compound.units, compound.ascending, compound.spelled, ?_⟩
    intro last isLast category passed
    refine compound.maximal category category.mem_all fun part isPart => ?_
    exact Nat.lt_of_le_of_lt (rank_le_of_getLast? compound.ascending isLast isPart) passed

theorem read_ok_iff_isGreedy : read scope tokens = .ok (tests, rest) ↔
    ∃ parts : List Part, tests = parts.map Part.test ∧ IsGreedy scope parts tokens rest := by
  rw [read_ok_iff]
  constructor
  · rintro ⟨parts, nonempty, testsAre, compound⟩
    exact ⟨parts, testsAre, isGreedy_iff.mpr ⟨nonempty, compound⟩⟩
  · rintro ⟨parts, testsAre, greedy⟩
    obtain ⟨nonempty, compound⟩ := isGreedy_iff.mp greedy
    exact ⟨parts, nonempty, testsAre, compound⟩

theorem IsGreedy.unique (greedy : IsGreedy scope parts tokens rest)
    (isOther : IsGreedy scope others tokens otherRest) : others = parts ∧ otherRest = rest :=
  IsCompound.unique Category.pairwise_all (isGreedy_iff.mp greedy).2 (isGreedy_iff.mp isOther).2

theorem IsGreedy.consumes (greedy : IsGreedy scope parts tokens rest) :
    parts.flatMap Part.tokens ≠ [] := by
  obtain ⟨part, later, rfl⟩ := List.exists_cons_of_ne_nil greedy.nonempty
  obtain ⟨first, behind, unitIs, _⟩ := (greedy.units part List.mem_cons_self).starts
  simp [unitIs]

end Level

/-! ## Level by level -/

open Level

/-- A level of a selector, with the operator that joins it to the next one, if there is one. -/
structure Stretch where
  parts : List Part
  sign : Option Token

namespace Stretch

def tokens (stretch : Stretch) : List Token :=
  stretch.parts.flatMap Part.tokens ++ stretch.sign.toList

def tests (stretch : Stretch) : List Level.Test :=
  stretch.parts.map Part.test

end Stretch

/-- Levels that are read one after another, each off what the one before it leaves. -/
inductive Splits (scope : PackageScope) : List Token → List Stretch → Prop where
  | last {tokens : List Token} {parts : List Part} (greedy : IsGreedy scope parts tokens []) :
      Splits scope tokens [⟨parts, none⟩]
  | operator {tokens rest : List Token} {parts : List Part} {sign : Token}
      {levels : List Stretch} (greedy : IsGreedy scope parts tokens (sign :: rest))
      (isCombinator : sign.kind = .operator ∧ (Combinator.ofSign? sign.value).isSome)
      (others : Splits scope rest levels) : Splits scope tokens (⟨parts, some sign⟩ :: levels)
  | adjacent {tokens rest : List Token} {parts : List Part} {first : Token}
      {levels : List Stretch} (greedy : IsGreedy scope parts tokens (first :: rest))
      (notOperator : first.kind ≠ .operator) (others : Splits scope (first :: rest) levels) :
      Splits scope tokens (⟨parts, none⟩ :: levels)

/-- Nothing is lost between levels, and nothing is read twice. -/
theorem Splits.spelled {scope : PackageScope} {tokens : List Token} {levels : List Stretch}
    (splits : Splits scope tokens levels) : tokens = levels.flatMap Stretch.tokens := by
  induction splits with
  | last greedy => simp [greedy.spelled, Stretch.tokens]
  | operator greedy _ _ induction => simp [greedy.spelled, Stretch.tokens, ← induction]
  | adjacent greedy _ _ induction =>
      rw [List.flatMap_cons, ← induction, greedy.spelled]
      simp [Stretch.tokens]

/-- A chain is read off its tokens in levels that are as long as they can be. -/
theorem Chain.Reads.splits {scope : PackageScope} {tokens : List Token} {chain : Chain}
    (reads : Chain.Reads scope tokens chain) :
    ∃ levels, Splits scope tokens levels ∧
      levels.map Stretch.tests = chain.steps.map Step.tests ++ [chain.final] := by
  induction reads with
  | final level =>
      obtain ⟨parts, rfl, greedy⟩ := read_ok_iff_isGreedy.mp level
      exact ⟨_, .last greedy, rfl⟩
  | operator level isOperator isSign _ induction =>
      obtain ⟨parts, rfl, greedy⟩ := read_ok_iff_isGreedy.mp level
      obtain ⟨levels, splits, testsAre⟩ := induction
      exact ⟨_, .operator greedy ⟨isOperator, by rw [isSign]; rfl⟩ splits,
        congrArg (parts.map Part.test :: ·) testsAre⟩
  | adjacent level notOperator _ induction =>
      obtain ⟨parts, rfl, greedy⟩ := read_ok_iff_isGreedy.mp level
      obtain ⟨levels, splits, testsAre⟩ := induction
      exact ⟨_, .adjacent greedy notOperator splits,
        congrArg (parts.map Part.test :: ·) testsAre⟩

namespace Query

/-- A level is read just where it is the greedy row of units at the front of the tokens. There is
one such row at most, it takes some tokens off, and all others are left. A row of tokens on which a
run succeeds is made of such levels and the operators between them, and the answer is that of the
tests of these levels. -/
theorem run_splits (query : Query) :
    (∀ tokens tests rest, Level.read query.scope tokens = .ok (tests, rest) ↔
      ∃ parts : List Part, tests = parts.map Part.test ∧
        IsGreedy query.scope parts tokens rest) ∧
    (∀ tokens parts rest, IsGreedy query.scope parts tokens rest →
      parts.flatMap Part.tokens ≠ [] ∧ ∀ others otherRest,
        IsGreedy query.scope others tokens otherRest → others = parts ∧ otherRest = rest) ∧
    (∀ tokens nodes depth selected,
      (query.matchesAmong tokens nodes depth).outcome = .ok selected →
        ∃ levels chain, Splits query.scope tokens levels ∧
          tokens = levels.flatMap Stretch.tokens ∧
            levels.map Stretch.tests = chain.steps.map Step.tests ++ [chain.final] ∧
              Chain.Reads query.scope tokens chain ∧ selected = query.answers chain nodes) ∧
    ∀ selector selected, (query.select selector).outcome = .ok selected →
      ∃ tokens, tokenize .selector selector = .ok tokens ∧
        (query.matchesAmong tokens query.document.all 0).outcome = .ok selected := by
  refine ⟨fun _ _ _ => read_ok_iff_isGreedy, fun tokens parts rest greedy => ?_, ?_, ?_⟩
  · exact ⟨greedy.consumes, fun others otherRest isOther => greedy.unique isOther⟩
  · intro tokens nodes depth selected succeeded
    obtain ⟨chain, reads, selectedAre⟩ := reads_of_run_ok succeeded
    obtain ⟨levels, splits, testsAre⟩ := reads.splits
    exact ⟨levels, chain, splits, splits.spelled, testsAre, reads, selectedAre⟩
  · intro selector selected succeeded
    rw [select] at succeeded
    split at succeeded
    · cases succeeded
    · rename_i tokens lexed
      exact ⟨tokens, lexed, succeeded⟩

/-- A name behind a pseudo-class is a level of its own, because names come first in a level. -/
theorem run_splits_adjacent :
    let query : Query :=
      ⟨.ofTree (.array none [.keyed none .object [("a", .scalar none (.string "p"))]]), ⟨"", []⟩⟩
    let word : Token := ⟨.pseudoClass, "first-child", 0⟩
    let name : Token := ⟨.identifier, "a", 12⟩
    Level.read query.scope [word, name] = .ok ([.pseudoClass .firstChild], [name]) ∧
      (∃ parts : List Part, [Predicate.pseudoClass .firstChild] = parts.map Part.test ∧
        IsGreedy query.scope parts [word, name] [name]) ∧
      tokenize .selector ":first-child.a" = .ok [word, name] ∧
      (query.select ":first-child.a").outcome = .ok [2] ∧
      ∃ levels chain, Splits query.scope [word, name] levels ∧
        [word, name] = levels.flatMap Stretch.tokens ∧
          levels.map Stretch.tests = chain.steps.map Step.tests ++ [chain.final] ∧
            Chain.Reads query.scope [word, name] chain ∧
              [2] = query.answers chain query.document.all := by
  intro query word name
  have level : Level.read query.scope [word, name] = .ok ([.pseudoClass .firstChild], [name]) :=
    rfl
  have lexed : tokenize .selector ":first-child.a" = .ok [word, name] := by decide +kernel
  have succeeded : (query.select ":first-child.a").outcome = .ok [2] := by
    rw [select, lexed]
    decide +kernel
  obtain ⟨isRead, _, runs, accepted⟩ := run_splits query
  obtain ⟨tokens, isTokens, ran⟩ := accepted _ _ succeeded
  obtain rfl := Except.ok.inj (lexed.symm.trans isTokens)
  exact ⟨level, (isRead _ _ _).mp level, lexed, succeeded, runs _ _ _ _ ran⟩

end Query

end TreeQuery
