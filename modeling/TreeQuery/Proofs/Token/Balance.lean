import Mathlib.Data.Nat.PSub
import TreeQuery.Proofs.Token.StringExtent

/-!
Balanced arguments.

An argument in parentheses is a text of a recursive grammar, in which parentheses are nested to any
depth. The scan for its end has a counter and a flag only, and yet it finds just the texts of the
grammar: it crosses every item as a whole, and where it comes to a closing parenthesis, it has come
there over items.
-/

namespace TreeQuery

namespace Arguments

mutual

/-- A text in parentheses, with items between them. -/
inductive Balanced : List Char → Prop where
  | enclosed {items : List (List Char)} (each : ∀ item ∈ items, BalancedItem item) :
      Balanced ('(' :: (items.flatten ++ [')']))

/-- A balanced text, a quoted string, or a single character that is neither a parenthesis nor a
quote. -/
inductive BalancedItem : List Char → Prop where
  | nested {text : List Char} (balanced : Balanced text) : BalancedItem text
  | quoted {body : List Char} (isBody : StringBody body) : BalancedItem ('"' :: body)
  | plain {c : Char} (notOpening : c ≠ '(') (notClosing : c ≠ ')') (notQuote : c ≠ '"') :
      BalancedItem [c]

end

/-- The scan with a counter that is checked: there is no answer at all where a parenthesis would
be closed and none is open. -/
def checkedFrom? (depth : Nat) (quoting : Quoting) :
    List Char → Option (Option (List Char × List Char))
  | [] => some none
  | c :: rest =>
      let continued (depth : Nat) : Option (Option (List Char × List Char)) :=
        (checkedFrom? depth (quoting.turn c) rest).map fun found =>
          found.map fun (front, after) => (c :: front, after)
      if quoting = .outside ∧ c = ')' then
        depth.ppred.bind fun outer =>
          if outer = 0 then some (some ([c], rest)) else continued outer
      else
        continued (quoting.deepen depth c)

variable {depth : Nat} {quoting start stop : Quoting}
  {text item blob other behind after rest : List Char}

/-! ## From the grammar to the scan -/

theorem Crosses.flatten {items : List (List Char)}
    (each : ∀ item ∈ items, Crosses start start item) : Crosses start start items.flatten := by
  rw [← List.flatMap_id]
  exact .flatMap each

mutual

theorem Balanced.crosses : ∀ {text : List Char}, Balanced text → Crosses .outside .outside text
  | _, .enclosed each => .of_group (.flatten fun item isMember => (each item isMember).crosses)

theorem BalancedItem.crosses :
    ∀ {item : List Char}, BalancedItem item → Crosses .outside .outside item
  | _, .nested balanced => balanced.crosses
  | _, .quoted isBody => .of_string isBody
  | _, .plain notOpening notClosing notQuote => by
      apply Crosses.of_plain
      intro c isMember
      rw [List.mem_singleton.mp isMember]
      exact ⟨notQuote, notOpening, notClosing⟩

end

theorem split?_of_balanced (balanced : Balanced blob) (after : List Char) :
    split? (blob ++ after) = some (blob, after) := by
  cases balanced with
  | @enclosed items each =>
      have crosses : Crosses .outside .outside items.flatten :=
        .flatten fun item isMember => (each item isMember).crosses
      have spelled : '(' :: (items.flatten ++ [')']) ++ after =
          '(' :: (items.flatten ++ ')' :: after) := by simp
      rw [spelled]
      exact split?_of_crosses crosses after

/-- No balanced text goes on to another one. -/
theorem Balanced.unique (first : Balanced blob) (second : Balanced other)
    (same : blob ++ after = other ++ rest) : blob = other := by
  have found := split?_of_balanced first after
  rw [same, split?_of_balanced second rest] at found
  cases found
  rfl

/-! ## From the scan to the grammar -/

/-- A text has items up to a closing parenthesis. -/
def HasClosing (text : List Char) : Prop :=
  ∃ (items : List (List Char)) (rest : List Char), text = items.flatten ++ ')' :: rest ∧
    ∀ item ∈ items, BalancedItem item

theorem HasClosing.behind_item (isItem : BalancedItem item) (closes : HasClosing text) :
    HasClosing (item ++ text) := by
  obtain ⟨items, rest, spelled, each⟩ := closes
  refine ⟨item :: items, rest, ?_, List.forall_mem_cons.mpr ⟨isItem, each⟩⟩
  rw [List.flatten_cons, List.append_assoc, spelled]

theorem Crosses.isSome_iff (crosses : Crosses start stop text) (inside : 1 ≤ depth) :
    (splitFrom? depth start (text ++ rest)).isSome = true ↔
      (splitFrom? depth stop rest).isSome = true := by
  rw [crosses depth rest inside, Option.isSome_map]

/-- A string in which a scan finds the end of an argument is closed. -/
theorem exists_stringBody_of_splitFrom?
    (found : (splitFrom? depth .inside text).isSome = true) :
    ∃ body rest, text = body ++ rest ∧ StringBody body := by
  by_cases closed : ∃ body, body <+: text ∧ LeavesString body
  · obtain ⟨body, ⟨rest, spelled⟩, leaves⟩ := closed
    exact ⟨body, rest, spelled.symm, leaves.stringBody⟩
  · have unclosed : ∀ body, body <+: text → ¬ LeavesString body :=
      fun body isPrefix leaves => closed ⟨body, isPrefix, leaves⟩
    rw [splitFrom?_inside_none unclosed] at found
    cases found

/-- Where a scan finds the end of an argument, it comes over items to a closing parenthesis. -/
theorem hasClosing_of_splitFrom? (inside : 1 ≤ depth)
    (found : (splitFrom? depth .outside text).isSome = true) : HasClosing text := by
  -- A group is an item of many characters, so the induction is on the length.
  induction size : text.length using Nat.strongRecOn generalizing depth text with
  | ind size shorter =>
      subst size
      have behindItem : ∀ item rest, text = item ++ rest → item ≠ [] → BalancedItem item →
          HasClosing text := by
        intro item rest spelled nonempty isItem
        have positive := List.length_pos_iff.mpr nonempty
        rw [spelled, isItem.crosses.isSome_iff inside] at found
        rw [spelled]
        apply HasClosing.behind_item isItem
        exact shorter rest.length (by rw [spelled, List.length_append]; omega) inside found rfl
      cases text with
      | nil => cases found
      | cons c text =>
          by_cases closes : c = ')'
          · exact ⟨[], text, by rw [closes]; rfl, by simp⟩
          by_cases quotes : c = '"'
          · subst quotes
            have inString : (splitFrom? depth .inside text).isSome = true := by
              rwa [splitFrom?_cons, if_neg (by simp), Option.isSome_map] at found
            obtain ⟨body, rest, rfl, isBody⟩ := exists_stringBody_of_splitFrom? inString
            exact behindItem ('"' :: body) rest rfl (by simp) (.quoted isBody)
          by_cases opens : c = '('
          · subst opens
            have inGroup : (splitFrom? (depth + 1) .outside text).isSome = true := by
              rwa [splitFrom?_opening, Option.isSome_map] at found
            obtain ⟨items, rest, spelled, each⟩ :=
              shorter text.length (by simp) (Nat.le_add_left 1 depth) inGroup rfl
            apply behindItem ('(' :: (items.flatten ++ [')'])) rest
            · rw [spelled]
              simp
            · simp
            · exact .nested (.enclosed each)
          exact behindItem [c] text rfl (by simp) (.plain opens closes quotes)

/-- The scan splits a text off just if it is balanced. -/
theorem split?_eq_some_iff : split? ('(' :: behind) = some (blob, after) ↔
    '(' :: behind = blob ++ after ∧ Balanced blob := by
  constructor
  · intro found
    have goesOn : (splitFrom? 1 .outside behind).isSome = true := by
      have closes : (split? ('(' :: behind)).isSome = true := by rw [found]; rfl
      rwa [split?_opening, Option.isSome_map] at closes
    obtain ⟨items, rest, spelled, each⟩ := hasClosing_of_splitFrom? (Nat.le_refl 1) goesOn
    have balanced : Balanced ('(' :: (items.flatten ++ [')'])) := .enclosed each
    have whole : '(' :: behind = '(' :: (items.flatten ++ [')']) ++ rest := by
      rw [spelled]
      simp
    rw [whole, split?_of_balanced balanced] at found
    cases found
    exact ⟨whole, balanced⟩
  · intro isSplit
    rw [isSplit.1]
    exact split?_of_balanced isSplit.2 after

theorem balanced_iff : Balanced text ↔ text.head? = some '(' ∧ split? text = some (text, []) := by
  constructor
  · intro balanced
    have found := split?_of_balanced balanced []
    rw [List.append_nil] at found
    cases balanced with
    | enclosed each => exact ⟨rfl, found⟩
  · intro found
    obtain ⟨behind, rfl⟩ := List.head?_eq_some_iff.mp found.1
    exact (split?_eq_some_iff.mp found.2).2

instance : DecidablePred Balanced :=
  fun _ => decidable_of_iff _ balanced_iff.symm

/-! ## The counter -/

/-- A scan that goes on stays inside its argument. -/
theorem checkedFrom?_eq (inside : 1 ≤ depth) :
    checkedFrom? depth quoting text = some (splitFrom? depth quoting text) := by
  induction text generalizing depth quoting with
  | nil => rfl
  | cons c text induction =>
      rw [checkedFrom?, splitFrom?_cons]
      obtain ⟨outer, rfl⟩ := Nat.exists_eq_add_of_le' inside
      by_cases closes : quoting = .outside ∧ c = ')'
      · rw [if_pos closes, Nat.ppred_succ, Option.bind_some]
        by_cases last : outer = 0
        · rw [if_pos last, if_pos ⟨closes.1, closes.2, by omega⟩]
        · have oneLess : quoting.deepen (outer + 1) c = outer := by simp [Quoting.deepen, closes]
          rw [if_neg last, if_neg fun stops => last (by omega), oneLess]
          dsimp only
          rw [induction (Nat.pos_of_ne_zero last)]
          rfl
      · have staysInside : 1 ≤ quoting.deepen (outer + 1) c :=
          Quoting.one_le_deepen inside fun last => closes ⟨last.1, last.2.1⟩
        rw [if_neg closes, if_neg fun last => closes ⟨last.1, last.2.1⟩]
        dsimp only
        rw [induction staysInside]
        rfl

/-- Behind the parenthesis that opens an argument, the counter never falls below zero. -/
theorem checkedFrom?_of_opening :
    checkedFrom? 0 .outside ('(' :: behind) = some (split? ('(' :: behind)) := by
  have oneOpen : Quoting.outside.deepen 0 '(' = 1 := rfl
  rw [checkedFrom?, if_neg (by simp), oneOpen, split?_opening]
  dsimp only
  rw [checkedFrom?_eq (Nat.le_refl 1)]
  rfl

/-- A text that starts with a closing parenthesis would bring it there. -/
example : checkedFrom? 0 .outside [')'] = none := rfl

end Arguments

namespace Cursor

open Arguments

/-- Before an opening parenthesis, a selector's lexer takes the balanced text that starts there as
one token and moves behind it. There is one such text at most, and if there is none, the lexer
fails and stays where it is. The counter of the scan never falls below zero. -/
theorem nextArguments_balanced (grammar : Grammar) (position : Nat) (behind : List Char) :
    let cursor : Cursor := ⟨grammar, position, '(' :: behind⟩
    (grammar = .selector → cursor.next = cursor.nextArguments) ∧
      (∀ blob after, cursor.rest = blob ++ after → Balanced blob →
        cursor.nextArguments = .token ⟨.arguments, String.ofList blob, position⟩
          ⟨grammar, position + byteLength blob, after⟩) ∧
      (∀ blob other, blob <+: cursor.rest → other <+: cursor.rest → Balanced blob →
        Balanced other → blob = other) ∧
      ((∀ blob, blob <+: cursor.rest → ¬ Balanced blob) →
        cursor.nextArguments = .failed (.unbalancedParens position) cursor) ∧
      checkedFrom? 0 .outside cursor.rest = some (split? cursor.rest) := by
  intro cursor
  refine ⟨fun isSelector => next_of_opening rfl isSelector, ?_, ?_, ?_, checkedFrom?_of_opening⟩
  · intro blob after spelled balanced
    have found := split?_of_balanced balanced after
    rw [← spelled] at found
    rw [nextArguments, found]
  · intro blob other isPrefix otherPrefix balanced otherBalanced
    obtain ⟨after, spelled⟩ := isPrefix
    obtain ⟨rest, otherSpelled⟩ := otherPrefix
    exact balanced.unique otherBalanced (spelled.trans otherSpelled.symm)
  · intro noneBalanced
    have noSplit : split? cursor.rest = none := by
      apply Option.eq_none_iff_forall_ne_some.mpr
      intro found closes
      obtain ⟨spelled, balanced⟩ := split?_eq_some_iff.mp closes
      exact noneBalanced found.1 ⟨found.2, spelled.symm⟩ balanced
    rw [nextArguments, noSplit]

/-- A parenthesis in a string closes nothing, and neither does a quote behind a backslash. -/
theorem nextArguments_balanced_nested :
    Balanced "(é:has(\")\\\"(\"))".toList ∧
      (Cursor.mk .selector 4 "(é:has(\")\\\"(\"))x".toList).nextArguments =
        .token ⟨.arguments, "(é:has(\")\\\"(\"))", 4⟩ ⟨.selector, 20, ['x']⟩ ∧
      (∀ blob, blob <+: "(\")".toList → ¬ Balanced blob) ∧
      (Cursor.mk .selector 4 "(\")".toList).nextArguments =
        .failed (.unbalancedParens 4) ⟨.selector, 4, "(\")".toList⟩ := by
  have balanced : Balanced "(é:has(\")\\\"(\"))".toList := by decide +kernel
  have noneBalanced : ∀ blob, blob <+: "(\")".toList → ¬ Balanced blob := by
    intro blob isPrefix balanced
    obtain ⟨after, spelled⟩ := isPrefix
    have found := split?_of_balanced balanced after
    have noSplit : split? "(\")".toList = none := by decide +kernel
    rw [spelled, noSplit] at found
    cases found
  obtain ⟨_, takes, _⟩ := nextArguments_balanced .selector 4 "é:has(\")\\\"(\"))x".toList
  obtain ⟨_, _, _, fails, _⟩ := nextArguments_balanced .selector 4 "\")".toList
  exact ⟨balanced, takes _ ['x'] rfl balanced, noneBalanced, fails noneBalanced⟩

end Cursor

end TreeQuery
