/-!
The text of an argument in parentheses.

The argument ends at the parenthesis that closes its first one. Parentheses inside quoted strings
do not count, and in a string a backslash takes the next character with it, whatever it is.
-/

namespace TreeQuery

namespace Arguments

/-- Where a scan stands with regard to quoted strings. -/
inductive Quoting where
  | outside
  | inside
  /-- Inside a string, after a backslash. -/
  | escaped
  deriving DecidableEq, Repr

/-- Splits a text after the parenthesis that closes the `depth` open ones and those that the text
opens itself. -/
def splitFrom? (depth : Nat) (quoting : Quoting) : List Char → Option (List Char × List Char)
  | [] => none
  | c :: rest =>
      let continued (depth : Nat) (quoting : Quoting) : Option (List Char × List Char) :=
        (splitFrom? depth quoting rest).map fun (front, after) => (c :: front, after)
      match quoting with
      | .escaped => continued depth .inside
      | .inside =>
          if c = '\\' then continued depth .escaped
          else if c = '"' then continued depth .outside
          else continued depth .inside
      | .outside =>
          if c = '"' then continued depth .inside
          else if c = '(' then continued (depth + 1) .outside
          else if c = ')' then
            if depth = 1 then some ([c], rest) else continued (depth - 1) .outside
          else continued depth .outside

/-- Splits a text that starts with a parenthesis after the one that closes it. -/
def split? (text : List Char) : Option (List Char × List Char) :=
  splitFrom? 0 .outside text

theorem append_of_splitFrom? {depth : Nat} {quoting : Quoting} {text front after : List Char}
    (found : splitFrom? depth quoting text = some (front, after)) : front ++ after = text := by
  induction text generalizing depth quoting front with
  | nil => simp [splitFrom?] at found
  | cons c rest induction =>
      have step : ∀ {depth : Nat} {quoting : Quoting},
          (splitFrom? depth quoting rest).map (fun split => (c :: split.1, split.2)) =
            some (front, after) → front ++ after = c :: rest := by
        intro depth quoting mapped
        obtain ⟨⟨tail, remaining⟩, split, spelled⟩ := Option.map_eq_some_iff.mp mapped
        cases spelled
        simp [induction split]
      simp only [splitFrom?] at found
      split at found
      · exact step found
      · split at found
        · exact step found
        · split at found <;> exact step found
      · split at found
        · exact step found
        · split at found
          · exact step found
          · split at found
            · split at found
              · cases found
                rfl
              · exact step found
            · exact step found

theorem splitFrom?_ne_nil {depth : Nat} {quoting : Quoting} {text after : List Char} :
    splitFrom? depth quoting text ≠ some ([], after) := by
  intro found
  cases text with
  | nil => simp [splitFrom?] at found
  | cons c rest =>
      simp only [splitFrom?] at found
      split at found
      · simp at found
      · split at found
        · simp at found
        · split at found <;> simp at found
      · split at found
        · simp at found
        · split at found
          · simp at found
          · split at found
            · split at found <;> simp at found
            · simp at found

theorem append_of_split? {text front after : List Char}
    (found : split? text = some (front, after)) : front ++ after = text :=
  append_of_splitFrom? found

def stripOpening : List Char → List Char
  | '(' :: rest => rest
  | text => text

def stripClosing (text : List Char) : List Char :=
  if text.getLast? = some ')' then text.dropLast else text

/-- The argument without its outer parentheses. -/
def strip (text : List Char) : List Char :=
  stripClosing (stripOpening text)

theorem strip_length_le (text : List Char) : (strip text).length ≤ text.length := by
  have opening : (stripOpening text).length ≤ text.length := by
    unfold stripOpening
    split <;> simp
  unfold strip stripClosing
  split
  · rw [List.length_dropLast]
    omega
  · exact opening

end Arguments

end TreeQuery
