/-!
Regular patterns over characters, and the longest prefix of a text that a pattern matches.

`Pattern.Matches` says which texts a pattern stands for. Matching goes by derivatives: the pattern
`p.after c` stands for what may follow the character `c` in a text of `p`, so a text is matched by
taking one derivative per character and asking at the end whether nothing more is needed.
-/

namespace TreeQuery

inductive Pattern where
  | never
  | done
  | one (accepts : Char → Bool)
  | seq (first second : Pattern)
  | either (left right : Pattern)
  /-- Any number of texts of a pattern, one after another. -/
  | many (pattern : Pattern)

namespace Pattern

/-- The texts that a pattern stands for. -/
inductive Matches : Pattern → List Char → Prop where
  | done : Matches .done []
  | one {accepts : Char → Bool} {c : Char} (accepted : accepts c = true) :
      Matches (.one accepts) [c]
  | seq {first second : Pattern} {front back : List Char}
      (front_matches : Matches first front) (back_matches : Matches second back) :
      Matches (.seq first second) (front ++ back)
  | left {left right : Pattern} {text : List Char} (text_matches : Matches left text) :
      Matches (.either left right) text
  | right {left right : Pattern} {text : List Char} (text_matches : Matches right text) :
      Matches (.either left right) text
  | manyNil {pattern : Pattern} : Matches (.many pattern) []
  | manyCons {pattern : Pattern} {front back : List Char}
      (front_matches : Matches pattern front) (back_matches : Matches (.many pattern) back) :
      Matches (.many pattern) (front ++ back)

def nullable : Pattern → Bool
  | .never => false
  | .done => true
  | .one _ => false
  | .seq first second => first.nullable && second.nullable
  | .either left right => left.nullable || right.nullable
  | .many _ => true

/-- A sequence, without parts that cannot match or match only the empty text. -/
def join : Pattern → Pattern → Pattern
  | .never, _ => .never
  | .done, second => second
  | first, second => .seq first second

/-- A choice, without alternatives that cannot match. -/
def orElse : Pattern → Pattern → Pattern
  | .never, right => right
  | left, .never => left
  | left, right => .either left right

/-- What may follow a character in a text of the pattern. -/
def after (c : Char) : Pattern → Pattern
  | .never => .never
  | .done => .never
  | .one accepts => if accepts c then .done else .never
  | .seq first second =>
      if first.nullable then
        orElse (join (first.after c) second) (second.after c)
      else
        join (first.after c) second
  | .either left right => orElse (left.after c) (right.after c)
  | .many pattern => join (pattern.after c) (.many pattern)

/-- The length of the longest prefix that matches. -/
def longest? : Pattern → List Char → Option Nat
  | .never, _ => none
  | pattern, [] => if pattern.nullable then some 0 else none
  | pattern, c :: rest =>
      match longest? (pattern.after c) rest with
      | some length => some (length + 1)
      | none => if pattern.nullable then some 0 else none

/-! ## Building patterns -/

def char (c : Char) : Pattern :=
  .one (· == c)

def text (word : String) : Pattern :=
  word.toList.foldr (fun c rest => .seq (char c) rest) .done

def oneOf (patterns : List Pattern) : Pattern :=
  patterns.foldr .either .never

def all (patterns : List Pattern) : Pattern :=
  patterns.foldr .seq .done

def optional (pattern : Pattern) : Pattern :=
  .either pattern .done

def atLeastOnce (pattern : Pattern) : Pattern :=
  .seq pattern (.many pattern)

/-! ## Laws -/

theorem not_matches_never {word : List Char} : ¬ Matches .never word := by
  rintro ⟨⟩

theorem matches_done_iff {word : List Char} : Matches .done word ↔ word = [] := by
  constructor
  · rintro ⟨⟩
    rfl
  · rintro rfl
    exact .done

theorem matches_one_iff {accepts : Char → Bool} {word : List Char} :
    Matches (.one accepts) word ↔ ∃ c, word = [c] ∧ accepts c = true := by
  constructor
  · rintro (_ | accepted)
    exact ⟨_, rfl, accepted⟩
  · rintro ⟨c, rfl, accepted⟩
    exact .one accepted

theorem matches_seq_iff {first second : Pattern} {word : List Char} :
    Matches (.seq first second) word ↔
      ∃ front back, word = front ++ back ∧ Matches first front ∧ Matches second back := by
  constructor
  · rintro (_ | _ | ⟨front, back⟩)
    exact ⟨_, _, rfl, front, back⟩
  · rintro ⟨front, back, rfl, frontMatches, backMatches⟩
    exact .seq frontMatches backMatches

theorem matches_either_iff {left right : Pattern} {word : List Char} :
    Matches (.either left right) word ↔ Matches left word ∨ Matches right word := by
  constructor
  · rintro (_ | _ | _ | found | found)
    · exact .inl found
    · exact .inr found
  · rintro (found | found)
    · exact .left found
    · exact .right found

theorem nullable_iff {pattern : Pattern} : pattern.nullable = true ↔ Matches pattern [] := by
  induction pattern with
  | never => simp [nullable, not_matches_never]
  | done => simp [nullable, matches_done_iff]
  | one accepts => simp [nullable, matches_one_iff]
  | seq first second firstNullable secondNullable =>
      rw [matches_seq_iff]
      simp only [nullable, Bool.and_eq_true, firstNullable, secondNullable]
      constructor
      · rintro ⟨frontMatches, backMatches⟩
        exact ⟨[], [], rfl, frontMatches, backMatches⟩
      · rintro ⟨front, back, spelled, frontMatches, backMatches⟩
        obtain ⟨rfl, rfl⟩ := List.append_eq_nil_iff.mp spelled.symm
        exact ⟨frontMatches, backMatches⟩
  | either left right leftNullable rightNullable =>
      simp [nullable, matches_either_iff, leftNullable, rightNullable]
  | many pattern => simpa [nullable] using .manyNil

theorem matches_join_iff {first second : Pattern} {word : List Char} :
    Matches (join first second) word ↔ Matches (.seq first second) word := by
  unfold join
  split
  · simp [matches_seq_iff, not_matches_never]
  · rw [matches_seq_iff]
    constructor
    · intro found
      exact ⟨[], word, rfl, .done, found⟩
    · rintro ⟨front, back, rfl, frontMatches, backMatches⟩
      rw [matches_done_iff.mp frontMatches]
      exact backMatches
  · rfl

theorem matches_orElse_iff {left right : Pattern} {word : List Char} :
    Matches (orElse left right) word ↔ Matches left word ∨ Matches right word := by
  unfold orElse
  split
  · simp [not_matches_never]
  · simp [not_matches_never]
  · exact matches_either_iff

/-- A nonempty text of repetitions starts with a nonempty repetition. -/
theorem exists_of_matches_many {pattern : Pattern} {word : List Char}
    (found : Matches (.many pattern) word) {c : Char} {rest : List Char}
    (spelled : word = c :: rest) :
    ∃ front back, rest = front ++ back ∧ Matches pattern (c :: front) ∧
      Matches (.many pattern) back := by
  generalize repeated : Pattern.many pattern = whole at found
  induction found with
  | @manyCons _ front back frontMatches backMatches _ backInduction =>
      cases repeated
      cases front with
      | nil => exact backInduction spelled rfl
      | cons first front =>
          obtain ⟨rfl, rfl⟩ := List.cons.inj spelled
          exact ⟨front, back, rfl, frontMatches, backMatches⟩
  | manyNil => cases spelled
  | _ => cases repeated

theorem matches_many_one_iff {accepts : Char → Bool} {word : List Char} :
    Matches (.many (.one accepts)) word ↔ ∀ c ∈ word, accepts c = true := by
  induction word with
  | nil => simp [Matches.manyNil]
  | cons c rest induction =>
      rw [List.forall_mem_cons, ← induction]
      constructor
      · intro found
        obtain ⟨front, back, rfl, frontMatches, backMatches⟩ := exists_of_matches_many found rfl
        obtain ⟨d, isSingle, accepted⟩ := matches_one_iff.mp frontMatches
        cases isSingle
        exact ⟨accepted, backMatches⟩
      · intro ⟨accepted, restMatches⟩
        exact .manyCons (.one accepted) restMatches

theorem all_of_matches_atLeastOnce {accepts : Char → Bool} {word : List Char}
    (found : Matches (.atLeastOnce (.one accepts)) word) : ∀ c ∈ word, accepts c = true := by
  obtain ⟨front, back, rfl, frontMatches, backMatches⟩ := matches_seq_iff.mp found
  exact matches_many_one_iff.mp (.manyCons frontMatches backMatches)

theorem matches_seq_cons_iff {first second : Pattern} {c : Char} {rest : List Char} :
    Matches (.seq first second) (c :: rest) ↔
      (∃ front back, rest = front ++ back ∧ Matches first (c :: front) ∧ Matches second back) ∨
        (Matches first [] ∧ Matches second (c :: rest)) := by
  rw [matches_seq_iff]
  constructor
  · rintro ⟨front, back, spelled, frontMatches, backMatches⟩
    cases front with
    | nil =>
        cases spelled
        exact .inr ⟨frontMatches, backMatches⟩
    | cons head front =>
        obtain ⟨rfl, rfl⟩ := List.cons.inj spelled
        exact .inl ⟨front, back, rfl, frontMatches, backMatches⟩
  · rintro (⟨front, back, rfl, frontMatches, backMatches⟩ | ⟨frontMatches, backMatches⟩)
    · exact ⟨c :: front, back, rfl, frontMatches, backMatches⟩
    · exact ⟨[], c :: rest, rfl, frontMatches, backMatches⟩

/-- The derivative stands for what may follow the character. -/
theorem matches_after_iff {pattern : Pattern} {c : Char} {rest : List Char} :
    Matches (pattern.after c) rest ↔ Matches pattern (c :: rest) := by
  induction pattern generalizing rest with
  | never => simp [after, not_matches_never]
  | done => simp [after, not_matches_never, matches_done_iff]
  | one accepts =>
      simp only [after]
      split
      · rename_i accepted
        rw [matches_done_iff, matches_one_iff]
        constructor
        · rintro rfl
          exact ⟨c, rfl, accepted⟩
        · rintro ⟨d, spelled, _⟩
          exact (List.cons.inj spelled).2
      · rename_i rejected
        simp [not_matches_never, matches_one_iff, rejected]
  | seq first second firstInduction secondInduction =>
      simp only [after]
      split
      · rename_i firstNullable
        rw [matches_orElse_iff, matches_join_iff, matches_seq_iff, matches_seq_cons_iff]
        simp only [firstInduction, secondInduction, nullable_iff.mp firstNullable, true_and]
      · rename_i firstNotNullable
        have notEmpty : ¬ Matches first [] := fun found => firstNotNullable (nullable_iff.mpr found)
        rw [matches_join_iff, matches_seq_iff, matches_seq_cons_iff]
        simp only [firstInduction, notEmpty, false_and, or_false]
  | either left right leftInduction rightInduction =>
      simp only [after]
      rw [matches_orElse_iff, matches_either_iff, leftInduction, rightInduction]
  | many pattern induction =>
      simp only [after]
      rw [matches_join_iff, matches_seq_iff]
      constructor
      · rintro ⟨front, back, rfl, frontMatches, backMatches⟩
        exact .manyCons (induction.mp frontMatches) backMatches
      · intro found
        obtain ⟨front, back, rfl, frontMatches, backMatches⟩ := exists_of_matches_many found rfl
        exact ⟨front, back, rfl, induction.mpr frontMatches, backMatches⟩

/-- The answer of `longest?` is the length of a prefix that matches. -/
theorem matches_take_of_longest? {pattern : Pattern} {word : List Char} {length : Nat}
    (found : pattern.longest? word = .some length) :
    length ≤ word.length ∧ Matches pattern (word.take length) := by
  fun_induction longest? pattern word generalizing length with
  | case1 => cases found
  | case2 _ _ accepts =>
      cases found
      exact ⟨Nat.le_refl _, nullable_iff.mp accepts⟩
  | case3 => cases found
  | case4 _ _ _ _ _ equation induction =>
      cases found
      obtain ⟨inside, prefixMatches⟩ := induction equation
      exact ⟨Nat.succ_le_succ inside, matches_after_iff.mp prefixMatches⟩
  | case5 _ _ _ _ _ accepts =>
      cases found
      exact ⟨Nat.zero_le _, nullable_iff.mp accepts⟩
  | case6 => cases found

/-- No longer prefix matches than the answer of `longest?`, and none at all without an answer. -/
theorem longest?_ge_of_matches_take {pattern : Pattern} {word : List Char} {length : Nat}
    (inside : length ≤ word.length) (prefixMatches : Matches pattern (word.take length)) :
    ∃ longest, pattern.longest? word = .some longest ∧ length ≤ longest := by
  fun_induction longest? pattern word generalizing length with
  | case1 => cases prefixMatches
  | case2 _ _ accepts => exact ⟨0, rfl, inside⟩
  | case3 _ _ rejects =>
      simp only [List.take_nil] at prefixMatches
      exact absurd (nullable_iff.mpr prefixMatches) rejects
  | case4 _ _ _ _ longest equation induction =>
      cases length with
      | zero => exact ⟨longest + 1, rfl, Nat.zero_le _⟩
      | succ length =>
          obtain ⟨found, equal, bound⟩ :=
            induction (Nat.le_of_succ_le_succ inside) (matches_after_iff.mpr prefixMatches)
          rw [equation] at equal
          cases equal
          exact ⟨longest + 1, rfl, Nat.succ_le_succ bound⟩
  | case5 _ _ _ _ equation accepts induction =>
      cases length with
      | zero => exact ⟨0, rfl, Nat.le_refl _⟩
      | succ length =>
          obtain ⟨found, equal, _⟩ :=
            induction (Nat.le_of_succ_le_succ inside) (matches_after_iff.mpr prefixMatches)
          rw [equation] at equal
          cases equal
  | case6 _ _ _ _ equation rejects induction =>
      cases length with
      | zero => exact absurd (nullable_iff.mpr prefixMatches) rejects
      | succ length =>
          obtain ⟨found, equal, _⟩ :=
            induction (Nat.le_of_succ_le_succ inside) (matches_after_iff.mpr prefixMatches)
          rw [equation] at equal
          cases equal

end Pattern

end TreeQuery
