import TreeQuery.Text.Pattern

/-!
The order of a backtracking search.

A backtracking search tries the left alternative before the right one, and one more repetition
before none, and it ends with the first match that it comes to. That match is the longest one if
the search comes to longer matches first. A sequence does so if its second part takes nothing
wherever the first part could have gone on.
-/

namespace TreeQuery

namespace Pattern

/-- What is left of a text after repetitions of a step. A repetition takes some text. -/
def repeated (step : List Char → List (List Char)) (text : List Char) : List (List Char) :=
  ((step text).flatMap fun rest =>
    if _shorter : rest.length < text.length then repeated step rest else []) ++ [text]
  termination_by text.length

/-- What is left of a text after a match, for each match in the order of the search. -/
def rests : Pattern → List Char → List (List Char)
  | .never, _ => []
  | .done, text => [text]
  | .one _, [] => []
  | .one accepts, c :: rest => if accepts c then [rest] else []
  | .seq first second, text => (first.rests text).flatMap second.rests
  | .either left right, text => left.rests text ++ right.rests text
  | .many pattern, text => repeated pattern.rests text

/-- The length of the match with which the search ends. -/
def preferred? (pattern : Pattern) (text : List Char) : Option Nat :=
  (pattern.rests text).head?.map fun rest => text.length - rest.length

variable {pattern first second left right : Pattern} {accepts : Char → Bool} {c : Char}
  {text rest : List Char}

theorem rests_one_cons :
    (Pattern.one accepts).rests (c :: rest) = if accepts c then [rest] else [] := rfl

theorem rests_seq :
    (Pattern.seq first second).rests text = (first.rests text).flatMap second.rests := rfl

theorem rests_either :
    (Pattern.either left right).rests text = left.rests text ++ right.rests text := rfl

theorem rests_many : (Pattern.many pattern).rests text = repeated pattern.rests text := rfl

/-! ## The search finds every match -/

theorem mem_repeated_iff {step : List Char → List (List Char)} :
    rest ∈ repeated step text ↔
      (∃ middle ∈ step text, middle.length < text.length ∧ rest ∈ repeated step middle) ∨
        rest = text := by
  rw [repeated, List.mem_append, List.mem_flatMap, List.mem_singleton]
  refine or_congr_left (exists_congr fun middle => and_congr_right fun _ => ?_)
  by_cases shorter : middle.length < text.length
  · simp [shorter]
  · simp [shorter]

theorem mem_repeated_rests_iff
    (finds : ∀ {text rest : List Char}, rest ∈ pattern.rests text ↔
      ∃ front, text = front ++ rest ∧ Matches pattern front) :
    rest ∈ repeated pattern.rests text ↔
      ∃ front, text = front ++ rest ∧ Matches (.many pattern) front := by
  induction length : text.length using Nat.strongRecOn generalizing text with
  | ind count induction =>
      subst length
      rw [mem_repeated_iff]
      constructor
      · intro found
        rcases found with ⟨middle, isMiddle, shorter, isRest⟩ | rfl
        · obtain ⟨front, rfl, frontMatches⟩ := finds.mp isMiddle
          obtain ⟨back, rfl, backMatches⟩ := (induction middle.length shorter rfl).mp isRest
          exact ⟨front ++ back, by rw [List.append_assoc], .manyCons frontMatches backMatches⟩
        · exact ⟨[], rfl, .manyNil⟩
      · -- A search skips repetitions of the empty text, so the first one has to take a character.
        intro ⟨front, split, repeats⟩
        cases front with
        | nil => exact .inr split.symm
        | cons c behind =>
            obtain ⟨front, back, rfl, frontMatches, backMatches⟩ :=
              exists_of_matches_many repeats rfl
            have shorter : (back ++ rest).length < text.length := by
              rw [split]
              simp only [List.cons_append, List.append_assoc, List.length_cons, List.length_append]
              omega
            refine .inl ⟨back ++ rest, finds.mpr ⟨c :: front, ?_, frontMatches⟩, shorter, ?_⟩
            · rw [split]
              simp
            · exact (induction _ shorter rfl).mpr ⟨back, rfl, backMatches⟩

theorem mem_rests_iff :
    rest ∈ pattern.rests text ↔ ∃ front, text = front ++ rest ∧ Matches pattern front := by
  induction pattern generalizing text rest with
  | never => simp [rests, not_matches_never]
  | done => simp [rests, matches_done_iff, eq_comm]
  | one accepts =>
      cases text with
      | nil => simp [rests, matches_one_iff]
      | cons c behind =>
          rw [rests_one_cons]
          constructor
          · intro isRest
            by_cases accepted : accepts c = true
            · rw [if_pos accepted, List.mem_singleton] at isRest
              exact ⟨[c], by rw [isRest]; rfl, .one accepted⟩
            · rw [if_neg accepted] at isRest
              cases isRest
          · intro ⟨front, split, frontMatches⟩
            obtain ⟨d, rfl, accepted⟩ := matches_one_iff.mp frontMatches
            cases split
            rw [if_pos accepted]
            exact List.mem_singleton_self _
  | seq first second onFirst onSecond =>
      rw [rests_seq, List.mem_flatMap]
      constructor
      · intro ⟨middle, isMiddle, isRest⟩
        obtain ⟨front, rfl, frontMatches⟩ := onFirst.mp isMiddle
        obtain ⟨back, rfl, backMatches⟩ := onSecond.mp isRest
        exact ⟨front ++ back, by rw [List.append_assoc], .seq frontMatches backMatches⟩
      · intro ⟨whole, split, wholeMatches⟩
        obtain ⟨front, back, rfl, frontMatches, backMatches⟩ := matches_seq_iff.mp wholeMatches
        rw [List.append_assoc] at split
        exact ⟨back ++ rest, onFirst.mpr ⟨front, split, frontMatches⟩,
          onSecond.mpr ⟨back, rfl, backMatches⟩⟩
  | either left right onLeft onRight =>
      rw [rests_either, List.mem_append, onLeft, onRight, ← exists_or]
      refine exists_congr fun front => ?_
      rw [matches_either_iff, and_or_left]
  | many pattern induction => exact mem_repeated_rests_iff induction

/-! ## Orders in which the longest match comes first -/

/-- Each rest that the search comes to later is no shorter, and stands where the pattern could have
gone on. -/
def Orderly (pattern : Pattern) (resumes : List Char → Prop) : Prop :=
  ∀ text, (pattern.rests text).Pairwise fun earlier later =>
    earlier.length ≤ later.length ∧ resumes later

theorem preferred?_eq_longest? {resumes : List Char → Prop} (orderly : Orderly pattern resumes)
    (text : List Char) : pattern.preferred? text = pattern.longest? text := by
  have isRest : ∀ {length : Nat}, pattern.longest? text = some length →
      length ≤ text.length ∧ text.drop length ∈ pattern.rests text := by
    intro length found
    obtain ⟨inside, frontMatches⟩ := matches_take_of_longest? found
    exact ⟨inside, mem_rests_iff.mpr ⟨_, (List.take_append_drop length text).symm, frontMatches⟩⟩
  unfold preferred?
  cases inOrder : pattern.rests text with
  | nil =>
      cases found : pattern.longest? text with
      | none => rfl
      | some length =>
          have isMember := (isRest found).2
          rw [inOrder] at isMember
          cases isMember
  | cons best others =>
      have isBest : best ∈ pattern.rests text := by
        rw [inOrder]
        exact List.mem_cons_self
      obtain ⟨front, split, frontMatches⟩ := mem_rests_iff.mp isBest
      have isTake : text.take front.length = front := by rw [split, List.take_left]
      have lengths : front.length + best.length = text.length := by
        rw [split, List.length_append]
      obtain ⟨longest, found, isLonger⟩ :=
        longest?_ge_of_matches_take (by omega) (isTake.symm ▸ frontMatches)
      obtain ⟨inside, isMember⟩ := isRest found
      have isShorter : best.length ≤ (text.drop longest).length := by
        have ordered := orderly text
        rw [inOrder, List.pairwise_cons] at ordered
        rw [inOrder, List.mem_cons] at isMember
        rcases isMember with isBest | isOther
        · exact Nat.le_of_eq (congrArg List.length isBest.symm)
        · exact (ordered.1 _ isOther).1
      rw [List.length_drop] at isShorter
      have sameLength : text.length - best.length = longest := by omega
      rw [found, List.head?_cons, Option.map_some, sameLength]

/-- There is at most one match. -/
def Single (pattern : Pattern) : Prop :=
  ∀ text, (pattern.rests text).length ≤ 1

/-- Nothing but the empty text matches at the start of a text. -/
def Stalls (pattern : Pattern) (text : List Char) : Prop :=
  ∀ rest ∈ pattern.rests text, rest = text

section Orders

variable {resumes further : List Char → Prop}

theorem pairwise_of_length_le_one {α : Type} {order : α → α → Prop} {items : List α}
    (few : items.length ≤ 1) : items.Pairwise order := by
  match items with
  | [] => exact .nil
  | [item] => exact List.pairwise_singleton _ _
  | _ :: _ :: _ =>
      simp only [List.length_cons] at few
      omega

theorem Single.orderly (single : Single pattern) : Orderly pattern resumes :=
  fun text => pairwise_of_length_le_one (single text)

theorem Orderly.mono (orderly : Orderly pattern resumes)
    (weaker : ∀ text, resumes text → further text) : Orderly pattern further := by
  intro text
  refine (orderly text).imp ?_
  intro earlier later ⟨noShorter, isResumed⟩
  exact ⟨noShorter, weaker later isResumed⟩

theorem length_le_of_mem_rests (isRest : rest ∈ pattern.rests text) :
    rest.length ≤ text.length := by
  obtain ⟨front, rfl, _⟩ := mem_rests_iff.mp isRest
  rw [List.length_append]
  exact Nat.le_add_left _ _

/-- A sequence is searched in order if its second part stalls wherever the first part could have
gone on. -/
theorem Orderly.seq (onFirst : Orderly first resumes) (onSecond : Orderly second further)
    (stalls : ∀ text, resumes text → Stalls second text) :
    Orderly (.seq first second) fun text => resumes text ∨ further text := by
  intro text
  rw [rests_seq, List.pairwise_flatMap]
  constructor
  · intro middle _
    exact (onSecond.mono fun _ => .inr) middle
  · refine (onFirst text).imp ?_
    intro earlier later ⟨noShorter, isResumed⟩ rest isRest other isOther
    have isLater : other = later := stalls later isResumed other isOther
    rw [isLater]
    exact ⟨Nat.le_trans (length_le_of_mem_rests isRest) noShorter, .inl isResumed⟩

theorem Single.seq (onFirst : Single first) (onSecond : Single second) :
    Single (.seq first second) := by
  intro text
  rw [rests_seq]
  match found : first.rests text with
  | [] => exact Nat.zero_le _
  | [middle] =>
      rw [List.flatMap_singleton]
      exact onSecond middle
  | _ :: _ :: _ =>
      have few := onFirst text
      rw [found] at few
      simp only [List.length_cons] at few
      omega

/-- A single first part leaves the order to the second part. -/
theorem Orderly.afterSingle (single : Single first) (orderly : Orderly second resumes) :
    Orderly (.seq first second) resumes := by
  have none : Orderly first fun _ => False := single.orderly
  refine (none.seq orderly fun _ impossible => impossible.elim).mono ?_
  intro text isResumed
  exact isResumed.resolve_left id

theorem stalls_done : Stalls .done text := by
  intro rest isRest
  exact List.mem_singleton.mp isRest

theorem Orderly.beforeDone (orderly : Orderly pattern resumes) :
    Orderly (.seq pattern .done) resumes := by
  have single : Single .done := fun _ => Nat.le_refl 1
  have none : Orderly .done fun _ => False := single.orderly
  refine (orderly.seq none fun _ _ => stalls_done).mono ?_
  intro text isResumed
  exact isResumed.resolve_right id

theorem single_one (accepts : Char → Bool) : Single (.one accepts) := by
  intro text
  cases text with
  | nil => exact Nat.zero_le 1
  | cons c behind =>
      rw [rests_one_cons]
      split
      · exact Nat.le_refl 1
      · exact Nat.zero_le 1

theorem Single.either (onLeft : Single left) (onRight : Single right)
    (disjoint : ∀ text, left.rests text = [] ∨ right.rests text = []) :
    Single (.either left right) := by
  intro text
  rw [rests_either, List.length_append]
  have few := onLeft text
  have fewer := onRight text
  rcases disjoint text with isNone | isNone
  · rw [isNone] at few ⊢
    simpa using fewer
  · rw [isNone] at fewer ⊢
    simpa using few

/-- Repetitions of a single pattern go on as long as they can. -/
theorem Single.many (single : Single pattern) :
    Orderly (.many pattern) fun text => pattern.rests text ≠ [] := by
  intro text
  induction length : text.length using Nat.strongRecOn generalizing text with
  | ind count induction =>
      subst length
      rw [rests_many, repeated]
      match found : pattern.rests text with
      | [] => exact List.pairwise_singleton _ _
      | [middle] =>
          rw [List.flatMap_singleton]
          by_cases shorter : middle.length < text.length
          · rw [dif_pos shorter, List.pairwise_append]
            refine ⟨induction middle.length shorter middle rfl, List.pairwise_singleton _ _, ?_⟩
            intro rest isRest last isLast
            have isLeft : rest ∈ (Pattern.many pattern).rests middle := isRest
            have bound := length_le_of_mem_rests isLeft
            rw [List.mem_singleton.mp isLast]
            refine ⟨by omega, ?_⟩
            intro isNone
            rw [found] at isNone
            cases isNone
          · rw [dif_neg shorter]
            exact List.pairwise_singleton _ _
      | _ :: _ :: _ =>
          have few := single text
          rw [found] at few
          simp only [List.length_cons] at few
          omega

theorem Single.atLeastOnce (single : Single pattern) :
    Orderly (atLeastOnce pattern) fun text => pattern.rests text ≠ [] :=
  .afterSingle single single.many

theorem Orderly.optional (orderly : Orderly pattern resumes) :
    Orderly (optional pattern) fun text => resumes text ∨ pattern.rests text ≠ [] := by
  intro text
  rw [Pattern.optional, rests_either, List.pairwise_append]
  refine ⟨(orderly.mono fun _ => .inl) text, List.pairwise_singleton _ _, ?_⟩
  intro rest isRest last isLast
  rw [List.mem_singleton.mp isLast]
  exact ⟨length_le_of_mem_rests isRest, .inr (List.ne_nil_of_mem isRest)⟩

theorem Single.optional (single : Single pattern) :
    Orderly (optional pattern) fun text => pattern.rests text ≠ [] := by
  have none : Orderly pattern fun _ => False := single.orderly
  refine none.optional.mono ?_
  intro text isResumed
  exact isResumed.resolve_left id

end Orders

end Pattern

end TreeQuery
