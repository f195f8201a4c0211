import TreeQuery.Proofs.Token.Tiling

/-!
Steps of a lexer, one after another.

A step that makes a token takes some text, and so does one that fails at the value of a string,
whose text it has passed. Every other step leaves the cursor at a place from which all later steps
are the same. So a lexer that goes on after failures takes text for a while and then settles.
-/

namespace TreeQuery

/-- A part stands in a text, behind so many bytes. -/
def StandsAt (text : List Char) (position : Nat) (part : List Char) : Prop :=
  ∃ front back, text = front ++ part ++ back ∧ byteLength front = position

namespace StandsAt

variable {whole text part : List Char} {start position : Nat}

theorem itself : StandsAt text 0 text :=
  ⟨[], [], by simp, rfl⟩

theorem trans (outside : StandsAt whole start text) (inside : StandsAt text position part) :
    StandsAt whole (start + position) part := by
  obtain ⟨before, behind, rfl, rfl⟩ := outside
  obtain ⟨front, back, rfl, rfl⟩ := inside
  exact ⟨before ++ front, back ++ behind, by simp, by simp⟩

end StandsAt

namespace LexStep

/-- The cursor that a step leaves. -/
def after : LexStep → Cursor
  | .finished after => after
  | .token _ after => after
  | .failed _ after => after

/-- Whether a step takes text: it makes a token, or it has passed a string that has no value. -/
def takes : LexStep → Bool
  | .token _ _ => true
  | .failed (.invalidString _) _ => true
  | _ => false

end LexStep

namespace Cursor

variable {cursor : Cursor} {text : List Char} {kind : TokenKind} {length count : Nat}

/-- A cursor stands in a text: what is left stands in the text at the position. -/
def StandsIn (cursor : Cursor) (text : List Char) : Prop :=
  StandsAt text cursor.position cursor.rest

theorem start_standsIn (grammar : Grammar) (text : List Char) :
    (start grammar text).StandsIn text := by
  obtain ⟨front, back, spelled, _, position⟩ := grammar.trims_start text
  exact ⟨front, back, spelled, position.symm⟩

/-- A cursor comes from another one over a text that it passes. -/
structure Passes (cursor : Cursor) (passed : List Char) (after : Cursor) : Prop where
  spelled : cursor.rest = passed ++ after.rest
  position : after.position = cursor.position + byteLength passed

namespace Passes

variable {passed others : List Char} {middle after : Cursor}

theorem nothing : Passes cursor [] cursor :=
  ⟨rfl, rfl⟩

theorem trans (first : Passes cursor passed middle) (second : Passes middle others after) :
    Passes cursor (passed ++ others) after where
  spelled := by rw [first.spelled, second.spelled, List.append_assoc]
  position := by rw [second.position, first.position, byteLength_append, Nat.add_assoc]

theorem advance (cursor : Cursor) (length : Nat) :
    Passes cursor (cursor.rest.take length) (cursor.advance length) :=
  ⟨(List.take_append_drop length cursor.rest).symm, rfl⟩

theorem standsIn (passes : Passes cursor passed after) (stands : cursor.StandsIn text) :
    after.StandsIn text := by
  have behindPassed : StandsAt cursor.rest (byteLength passed) after.rest :=
    ⟨passed, [], by rw [passes.spelled, List.append_nil], rfl⟩
  rw [StandsIn, passes.position]
  exact stands.trans behindPassed

theorem position_lt (passes : Passes cursor passed after) (nonempty : passed ≠ []) :
    cursor.position < after.position := by
  have positive := byteLength_pos nonempty
  rw [passes.position]
  omega

theorem shorter (passes : Passes cursor passed after) (nonempty : passed ≠ []) :
    after.rest.length < cursor.rest.length := by
  have positive := List.length_pos_iff.mpr nonempty
  rw [passes.spelled, List.length_append]
  omega

end Passes

/-! ## One step -/

theorem readString_error {text : List Char} {position : Nat} {error : LexError}
    (failed : readString text position = .error error) : error = .invalidString position := by
  unfold readString at failed
  split at failed <;> cases failed
  rfl

/-- Only a string can have no value. -/
theorem readValue_error {text : List Char} {position : Nat} {error : LexError}
    (failed : readValue kind text position = .error error) : error = .invalidString position := by
  have readName : ∀ name : List Char,
      (if name.head? = some '"' then readString name position else .ok (String.ofList name)) =
          .error error → error = .invalidString position := by
    intro name failed
    by_cases isQuoted : name.head? = some '"'
    · rw [if_pos isQuoted] at failed
      exact readString_error failed
    · rw [if_neg isQuoted] at failed
      cases failed
  cases kind with
  | identifier => exact readName _ failed
  | string => exact readString_error failed
  | _ => cases failed

theorem nextOfRule_takes (cursor : Cursor) (kind : TokenKind) (length : Nat) :
    (cursor.nextOfRule kind length).takes = true ∧
      (cursor.nextOfRule kind length).after = cursor.advance length := by
  unfold nextOfRule
  split
  · exact ⟨rfl, rfl⟩
  · rename_i error failed
    rw [readValue_error failed]
    exact ⟨rfl, rfl⟩

/-- A step passes a part of what is left, and some of it if it takes text. -/
theorem exists_passes (cursor : Cursor) :
    ∃ passed, Passes cursor passed cursor.next.after ∧
      (cursor.next.takes = true → passed ≠ []) := by
  fun_induction next cursor with
  | case1 cursor => exact ⟨[], .nothing, fun takes => by cases takes⟩
  | case2 cursor =>
      unfold nextArguments
      split
      · rename_i span remaining split
        refine ⟨span, ⟨(Arguments.append_of_split? split).symm, rfl⟩, fun _ isNil => ?_⟩
        rw [isNil] at split
        exact Arguments.splitFrom?_ne_nil split
      · exact ⟨[], .nothing, fun takes => by cases takes⟩
  | case3 cursor c =>
      refine ⟨[], .nothing, fun takes => ?_⟩
      by_cases isQuote : c = '"' <;> simp [LexStep.takes, isQuote] at takes
  | case4 cursor _ _ _ _ _ length _ _ induction =>
      obtain ⟨passed, passes, nonempty⟩ := induction
      refine ⟨_, (Passes.advance cursor length).trans passes, fun takes isNil => ?_⟩
      exact nonempty takes (List.append_eq_nil_iff.mp isNil).2
  | case5 cursor _ _ _ _ rule length matched kind _ =>
      rw [(nextOfRule_takes cursor kind length).2]
      exact ⟨_, .advance cursor length, fun _ => (TokenRule.takes_of_longest? matched).nonempty⟩

/-- A step that takes no text is made again wherever it leaves the cursor. -/
theorem next_after (settles : cursor.next.takes = false) :
    cursor.next.after.next = cursor.next := by
  fun_induction next cursor with
  | case1 cursor left => exact next_of_nil left
  | case2 cursor c behind left isBlob =>
      obtain ⟨rfl, isSelector⟩ := isBlob
      have again := next_of_opening left isSelector
      unfold nextArguments at settles again ⊢
      split at settles
      · cases settles
      · rename_i unclosed
        rw [unclosed] at again
        exact again
  | case3 cursor c behind left notBlob noRule => exact next_of_noRule left notBlob noRule
  | case4 cursor _ _ _ _ _ length _ _ induction => exact induction settles
  | case5 cursor _ _ _ _ _ length _ kind _ =>
      rw [(nextOfRule_takes cursor kind length).1] at settles
      cases settles

/-! ## Many steps -/

theorem steps_succ (count : Nat) (cursor : Cursor) :
    steps (count + 1) cursor = cursor.next :: steps count cursor.next.after := by
  rw [steps]
  cases cursor.next <;> rfl

theorem length_steps (count : Nat) (cursor : Cursor) : (steps count cursor).length = count := by
  induction count generalizing cursor with
  | zero => rfl
  | succ count induction => rw [steps_succ, List.length_cons, induction]

/-- Behind a step that takes no text there is only that step. -/
theorem eq_of_mem_steps (settles : cursor.next.takes = false) :
    ∀ later ∈ steps count cursor.next.after, later = cursor.next := by
  induction count with
  | zero => simp [steps]
  | succ count induction =>
      rw [steps_succ, next_after settles]
      exact List.forall_mem_cons.mpr ⟨rfl, induction⟩

theorem countP_takes_le (count : Nat) (cursor : Cursor) :
    (steps count cursor).countP LexStep.takes ≤ cursor.rest.length := by
  induction count generalizing cursor with
  | zero => exact Nat.zero_le _
  | succ count induction =>
      obtain ⟨passed, passes, nonempty⟩ := exists_passes cursor
      have later := induction cursor.next.after
      rw [steps_succ, List.countP_cons]
      cases takes : cursor.next.takes with
      | true =>
          have shorter := passes.shorter (nonempty takes)
          rw [if_pos rfl]
          omega
      | false =>
          have notLonger : cursor.next.after.rest.length ≤ cursor.rest.length := by
            rw [passes.spelled, List.length_append]
            omega
          simp only [Bool.false_eq_true, if_false]
          omega

/-- The cursor behind a row of steps. -/
def behind (cursor : Cursor) (steps : List LexStep) : Cursor :=
  steps.foldl (fun _ step => step.after) cursor

@[simp] theorem behind_nil (cursor : Cursor) : cursor.behind [] = cursor := rfl

@[simp] theorem behind_cons (cursor : Cursor) (step : LexStep) (steps : List LexStep) :
    cursor.behind (step :: steps) = step.after.behind steps := rfl

/-- Each step is made where the steps before it end, and the later ones where it ends. -/
theorem steps_split {before later : List LexStep} {step : LexStep}
    (stands : cursor.StandsIn text) (split : steps count cursor = before ++ step :: later) :
    (cursor.behind before).StandsIn text ∧ step = (cursor.behind before).next ∧
      ∃ left, later = steps left step.after := by
  induction before generalizing count cursor with
  | nil =>
      cases count with
      | zero => cases split
      | succ left =>
          rw [steps_succ] at split
          obtain ⟨rfl, rfl⟩ := List.cons.inj split
          exact ⟨stands, rfl, left, rfl⟩
  | cons first before induction =>
      cases count with
      | zero => cases split
      | succ left =>
          rw [steps_succ] at split
          obtain ⟨rfl, others⟩ := List.cons.inj split
          obtain ⟨passed, passes, _⟩ := exists_passes cursor
          exact induction (passes.standsIn stands) others

/-- However often a lexer is asked for a step: each step leaves it at a character of the text or at
its end, and a step that takes text leaves it behind the place where it was made, so that there are
no more of these than the text has characters. Any other step is followed by itself only. -/
theorem steps_settle (grammar : Grammar) (text : List Char) (count : Nat) :
    (steps count (start grammar text)).length = count ∧
      (steps count (start grammar text)).countP LexStep.takes ≤ text.length ∧
        ∀ before step later, steps count (start grammar text) = before ++ step :: later →
          step = ((start grammar text).behind before).next ∧ step.after.StandsIn text ∧
            (step.takes = true →
              ((start grammar text).behind before).position < step.after.position) ∧
              (step.takes = false → ∀ other ∈ later, other = step) := by
  have stands := start_standsIn grammar text
  refine ⟨length_steps count _, ?_, ?_⟩
  · obtain ⟨front, back, spelled, _⟩ := stands
    have bound := countP_takes_le count (start grammar text)
    have lengths := congrArg List.length spelled
    simp only [List.length_append] at lengths
    omega
  · intro before step later split
    obtain ⟨standsHere, rfl, left, rfl⟩ := steps_split stands split
    obtain ⟨passed, passes, nonempty⟩ := exists_passes ((start grammar text).behind before)
    exact ⟨rfl, passes.standsIn standsHere, fun takes => passes.position_lt (nonempty takes),
      eq_of_mem_steps⟩

/-- A string with an escape that does not exist is passed, and a sign of no rule is not. -/
theorem steps_settle_string :
    let cursor := start .expression " x \"\\q\" @".toList
    let name := LexStep.token ⟨.current, "x", 1⟩ ⟨.expression, 2, " \"\\q\" @".toList⟩
    let string := LexStep.failed (.invalidString 3) ⟨.expression, 7, " @".toList⟩
    let sign := LexStep.failed (.unexpectedChar '@' 8) ⟨.expression, 8, "@".toList⟩
    steps 4 cursor = [name] ++ string :: [sign, sign] ∧
      steps 4 cursor = [name, string] ++ sign :: [sign] ∧ string.takes = true ∧
        (cursor.behind [name]).position < string.after.position ∧ sign.takes = false ∧
          ∀ other ∈ [sign], other = sign := by
  intro cursor name string sign
  have stepsAre : steps 4 cursor = [name, string, sign, sign] := by decide +kernel
  obtain ⟨_, _, each⟩ := steps_settle .expression " x \"\\q\" @".toList 4
  exact ⟨stepsAre, stepsAre, rfl, (each [name] string [sign, sign] stepsAre).2.2.1 rfl, rfl,
    (each [name, string] sign [sign] stepsAre).2.2.2 rfl⟩

end Cursor

end TreeQuery
