import TreeQuery.Proofs.Token.Tiling

/-!
Scans for a closing parenthesis.

A selector that can be lexed closes its own parentheses and quotes, so a scan for the end of an
argument crosses it and goes on as before. Hence a selector in the parentheses of a function is
the whole argument.
-/

namespace TreeQuery

namespace Pattern

/-- Whether no text of a pattern has a character. -/
def avoids (c : Char) : Pattern → Bool
  | .never => true
  | .done => true
  | .one accepts => !accepts c
  | .seq first second => first.avoids c && second.avoids c
  | .either left right => left.avoids c && right.avoids c
  | .many pattern => pattern.avoids c

theorem not_mem_of_avoids {pattern : Pattern} {c : Char} {text : List Char}
    (avoids : pattern.avoids c = true) (found : pattern.Matches text) : c ∉ text := by
  induction found with
  | done => simp
  | one accepted =>
      simp only [Pattern.avoids, Bool.not_eq_true'] at avoids
      intro isMember
      rw [List.mem_singleton.mp isMember, accepted] at avoids
      cases avoids
  | seq _ _ first second =>
      simp only [Pattern.avoids, Bool.and_eq_true] at avoids
      simp [first avoids.1, second avoids.2]
  | left _ induction =>
      simp only [Pattern.avoids, Bool.and_eq_true] at avoids
      exact induction avoids.1
  | right _ induction =>
      simp only [Pattern.avoids, Bool.and_eq_true] at avoids
      exact induction avoids.2
  | manyNil => simp
  | manyCons _ _ first others => simp [first avoids, others avoids]

/-- What may follow a text in the texts of a pattern. -/
def afterAll (pattern : Pattern) (front : List Char) : Pattern :=
  front.foldl (fun pattern c => pattern.after c) pattern

theorem longest?_never (text : List Char) : Pattern.never.longest? text = none := by
  rw [longest?]

/-- Behind a text that no text of the pattern goes on from, nothing counts. -/
theorem longest?_append {pattern : Pattern} {front : List Char} (behind : List Char)
    (ended : pattern.afterAll front = .never) :
    pattern.longest? (front ++ behind) = pattern.longest? front := by
  induction front generalizing pattern with
  | nil =>
      have isNever : pattern = .never := ended
      rw [isNever, longest?_never, longest?_never]
  | cons c front induction =>
      have later : (pattern.after c).longest? (front ++ behind) =
          (pattern.after c).longest? front := induction ended
      cases pattern with
      | never => rw [longest?_never, longest?_never]
      | _ => rw [List.cons_append, longest?, longest?, later] <;> simp

end Pattern

/-! ## Quoted strings -/

/-- The text of a quoted string behind its first quote. -/
inductive StringBody : List Char → Prop where
  | closed : StringBody ['"']
  | plain {c : Char} {body : List Char} (notQuote : c ≠ '"') (notEscape : c ≠ '\\')
      (others : StringBody body) : StringBody (c :: body)
  | escaped {c : Char} {body : List Char} (others : StringBody body) :
      StringBody ('\\' :: c :: body)

namespace StringBody

theorem getLast? {body : List Char} (isBody : StringBody body) : body.getLast? = some '"' := by
  induction isBody with
  | closed => rfl
  | plain _ _ _ last => simp [List.getLast?_cons, last]
  | escaped _ last => simp [List.getLast?_cons, last]

/-- A string ends at one place only. -/
theorem unique {body other rest behind : List Char} (first : StringBody body)
    (second : StringBody other) (same : body ++ rest = other ++ behind) : body = other := by
  induction first generalizing other with
  | closed =>
      cases second with
      | closed => rfl
      | plain notQuote => exact absurd (List.cons.inj same).1.symm notQuote
      | escaped => cases (List.cons.inj same).1
  | plain notQuote notEscape _ induction =>
      cases second with
      | closed => exact absurd (List.cons.inj same).1 notQuote
      | plain _ _ others =>
          obtain ⟨rfl, sameBody⟩ := List.cons.inj same
          rw [induction others sameBody]
      | escaped => exact absurd (List.cons.inj same).1 notEscape
  | escaped _ induction =>
      cases second with
      | closed => cases (List.cons.inj same).1
      | plain _ notEscape => exact absurd (List.cons.inj same).1.symm notEscape
      | escaped others =>
          obtain ⟨_, sameRest⟩ := List.cons.inj same
          obtain ⟨rfl, sameBody⟩ := List.cons.inj sameRest
          rw [induction others sameBody]

end StringBody

namespace TokenRule

open Pattern

/-- A character of a quoted string, or an escape. -/
def stringItem : Pattern :=
  .either (.one fun c => c != '"' && c != '\\') (.seq (.char '\\') (.one fun c => c != '\n'))

theorem matches_stringItem_iff {item : List Char} : stringItem.Matches item ↔
    (∃ c, item = [c] ∧ c ≠ '"' ∧ c ≠ '\\') ∨ ∃ c, item = ['\\', c] ∧ c ≠ '\n' := by
  rw [stringItem, matches_either_iff, matches_one_iff, matches_seq_iff]
  refine or_congr (by simp) ?_
  constructor
  · rintro ⟨first, second, rfl, isFirst, isSecond⟩
    obtain ⟨c, rfl, isBackslash⟩ := matches_one_iff.mp isFirst
    obtain ⟨d, rfl, notLineFeed⟩ := matches_one_iff.mp isSecond
    exact ⟨d, by rw [beq_iff_eq.mp isBackslash]; rfl, bne_iff_ne.mp notLineFeed⟩
  · rintro ⟨c, rfl, notLineFeed⟩
    exact ⟨['\\'], [c], rfl, .one rfl, .one (bne_iff_ne.mpr notLineFeed)⟩

/-- A quoted string has items between its quotes. -/
theorem matches_quoted_iff_items {text : List Char} : quoted.Matches text ↔
    ∃ items, text = '"' :: (items ++ ['"']) ∧ (Pattern.many stringItem).Matches items := by
  have asItems : quoted = .seq (.char '"') (.seq (.many stringItem) (.seq (.char '"') .done)) := rfl
  rw [asItems]
  constructor
  · intro found
    obtain ⟨opening, behind, rfl, isOpening, behindMatches⟩ := matches_seq_iff.mp found
    obtain ⟨items, closing, rfl, itemsMatch, closingMatches⟩ := matches_seq_iff.mp behindMatches
    obtain ⟨last, ended, rfl, isLast, isEnd⟩ := matches_seq_iff.mp closingMatches
    obtain ⟨c, rfl, isQuote⟩ := matches_one_iff.mp isOpening
    obtain ⟨d, rfl, isClosing⟩ := matches_one_iff.mp isLast
    rw [beq_iff_eq.mp isQuote, beq_iff_eq.mp isClosing, matches_done_iff.mp isEnd]
    exact ⟨items, rfl, itemsMatch⟩
  · rintro ⟨items, rfl, itemsMatch⟩
    have closing : (Pattern.seq (.char '"') .done).Matches ['"'] := .seq (.one rfl) .done
    exact .seq (.one rfl) (.seq itemsMatch closing)

theorem stringBody_of_matches {items body : List Char}
    (itemsMatch : (Pattern.many stringItem).Matches items) (others : StringBody body) :
    StringBody (items ++ body) := by
  generalize repeated : Pattern.many stringItem = whole at itemsMatch
  induction itemsMatch with
  | manyNil => exact others
  | @manyCons _ front back itemMatches _ _ induction =>
      cases repeated
      have later := induction rfl
      rw [List.append_assoc]
      rcases matches_stringItem_iff.mp itemMatches with ⟨c, rfl, notQuote, notEscape⟩ | ⟨c, rfl, _⟩
      · exact .plain notQuote notEscape later
      · exact .escaped later
  | _ => cases repeated

theorem exists_of_matches_quoted {text : List Char} (found : quoted.Matches text) :
    ∃ body, text = '"' :: body ∧ StringBody body := by
  obtain ⟨items, rfl, itemsMatch⟩ := matches_quoted_iff_items.mp found
  exact ⟨items ++ ['"'], rfl, stringBody_of_matches itemsMatch .closed⟩

theorem exists_of_matches_dotted {name : Pattern} {text : List Char}
    (found : (dotted name).Matches text) :
    ∃ front behind, text = front ++ behind ∧ (front = [] ∨ front = ['.']) ∧
      name.Matches behind := by
  obtain ⟨front, behind, rfl, isDot, isName⟩ := matches_seq_iff.mp found
  refine ⟨front, behind, rfl, ?_, isName⟩
  rcases matches_either_iff.mp isDot with isDot | isEmpty
  · obtain ⟨c, rfl, accepted⟩ := matches_one_iff.mp isDot
    exact .inr (by rw [beq_iff_eq.mp accepted])
  · exact .inl (matches_done_iff.mp isEmpty)

/-- Only the rule of quoted names has quotes and parentheses in its texts. -/
theorem quoted_or_avoids {rule : TokenRule} (isRule : rule ∈ selectorRules) :
    rule = ⟨dotted quoted, some .identifier⟩ ∨
      ∀ c ∈ ['"', '(', ')'], rule.pattern.avoids c = true := by
  simp only [selectorRules, List.mem_cons, List.not_mem_nil, or_false] at isRule
  rcases isRule with rfl | rfl | rfl | rfl | rfl | rfl | rfl | rfl | rfl | rfl | rfl | rfl | rfl
  case inr.inr.inr.inr.inr.inr.inr.inr.inl => exact .inl rfl
  all_goals exact .inr (List.all_eq_true.mp (by decide))

end TokenRule

/-! ## Crossing a text -/

namespace Arguments

/-- The quoting behind a character. -/
def Quoting.turn : Quoting → Char → Quoting
  | .escaped, _ => .inside
  | .inside, c => if c = '\\' then .escaped else if c = '"' then .outside else .inside
  | .outside, c => if c = '"' then .inside else .outside

/-- The number of open parentheses behind a character. -/
def Quoting.deepen (quoting : Quoting) (depth : Nat) (c : Char) : Nat :=
  if quoting = .outside ∧ c = '(' then depth + 1
  else if quoting = .outside ∧ c = ')' then depth - 1
  else depth

variable {depth outer : Nat} {quoting start middle stop : Quoting} {c : Char}
  {text front after other rest tail : List Char}

/-- A scan stops at the last closing parenthesis and goes on behind every other character. -/
theorem splitFrom?_cons : splitFrom? depth quoting (c :: rest) =
    if quoting = .outside ∧ c = ')' ∧ depth = 1 then some ([c], rest)
    else (splitFrom? (quoting.deepen depth c) (quoting.turn c) rest).map fun (front, after) =>
      (c :: front, after) := by
  cases quoting with
  | escaped => simp [splitFrom?, Quoting.deepen, Quoting.turn]
  | inside =>
      simp only [splitFrom?, Quoting.deepen, Quoting.turn]
      by_cases escapes : c = '\\'
      · simp [escapes]
      · by_cases closes : c = '"' <;> simp [escapes, closes]
  | outside =>
      simp only [splitFrom?, Quoting.deepen, Quoting.turn]
      by_cases quotes : c = '"'
      · simp [quotes]
      · by_cases opens : c = '('
        · simp [opens]
        · by_cases closes : c = ')' <;> by_cases last : depth = 1 <;>
            simp [quotes, opens, closes, last]

/-- What stands behind a closed argument has no part in it. -/
theorem splitFrom?_before (found : splitFrom? depth quoting (front ++ after) = some (front, after))
    (tail : List Char) : splitFrom? depth quoting (front ++ tail) = some (front, tail) := by
  induction front generalizing depth quoting with
  | nil => exact absurd found splitFrom?_ne_nil
  | cons c front induction =>
      rw [List.cons_append, splitFrom?_cons] at found ⊢
      split at found
      · rename_i closes
        cases found
        rw [if_pos closes, List.nil_append]
      · rename_i goesOn
        obtain ⟨⟨others, remaining⟩, split, spelled⟩ := Option.map_eq_some_iff.mp found
        cases spelled
        rw [if_neg goesOn, induction split]
        rfl

theorem getLast?_of_splitFrom? (found : splitFrom? depth quoting text = some (front, after)) :
    front.getLast? = some ')' := by
  induction text generalizing depth quoting front with
  | nil => cases found
  | cons c text induction =>
      rw [splitFrom?_cons] at found
      split at found
      · rename_i closes
        cases found
        rw [closes.2.1]
        rfl
      · obtain ⟨⟨others, remaining⟩, split, spelled⟩ := Option.map_eq_some_iff.mp found
        cases spelled
        simp [List.getLast?_cons, induction split]

theorem splitFrom?_opening : splitFrom? depth .outside ('(' :: text) =
    (splitFrom? (depth + 1) .outside text).map fun (front, after) => ('(' :: front, after) := by
  rw [splitFrom?_cons, if_neg (by simp)]
  rfl

/-- Behind the parenthesis that opens it, an argument is scanned with this one open. -/
theorem split?_opening : split? ('(' :: text) =
    (splitFrom? 1 .outside text).map fun (front, after) => ('(' :: front, after) :=
  splitFrom?_opening

/-- A scan that does not stop is still inside its argument. -/
theorem Quoting.one_le_deepen (inside : 1 ≤ depth)
    (goesOn : ¬ (quoting = .outside ∧ c = ')' ∧ depth = 1)) : 1 ≤ quoting.deepen depth c := by
  unfold Quoting.deepen
  split
  · exact Nat.le_add_left 1 depth
  · split
    · rename_i closes
      have notLast : depth ≠ 1 := fun last => goesOn ⟨closes.1, closes.2, last⟩
      omega
    · exact inside

theorem Quoting.deepen_add (inside : 1 ≤ depth) (outer : Nat) :
    quoting.deepen (depth + outer) c = quoting.deepen depth c + outer := by
  unfold Quoting.deepen
  split
  · omega
  · split
    · omega
    · rfl

/-- Whether a scan at any depth of open parentheses reads a text to its end, from one quoting to
another, and does not stop in it. -/
def Crosses (start stop : Quoting) (text : List Char) : Prop :=
  ∀ depth rest, 1 ≤ depth → splitFrom? depth start (text ++ rest) =
    (splitFrom? depth stop rest).map fun (front, after) => (text ++ front, after)

namespace Crosses

theorem nil : Crosses start start [] := by
  simp [Crosses]

theorem append (first : Crosses start middle text) (second : Crosses middle stop other) :
    Crosses start stop (text ++ other) := by
  intro depth rest inside
  rw [List.append_assoc, first depth _ inside, second depth rest inside, Option.map_map]
  simp [Function.comp_def]

theorem of_plain (plain : ∀ c ∈ text, c ≠ '"' ∧ c ≠ '(' ∧ c ≠ ')') :
    Crosses .outside .outside text := by
  induction text with
  | nil => exact nil
  | cons c text induction =>
      have ⟨⟨notQuote, notOpening, notClosing⟩, others⟩ := List.forall_mem_cons.mp plain
      have first : Crosses .outside .outside [c] := by
        intro depth rest inside
        simp [splitFrom?, notQuote, notOpening, notClosing]
      exact first.append (induction others)

theorem of_stringBody {body : List Char} (isBody : StringBody body) :
    Crosses .inside .outside body := by
  induction isBody with
  | closed =>
      intro depth rest inside
      simp [splitFrom?]
  | @plain c body notQuote notEscape _ induction =>
      have first : Crosses .inside .inside [c] := by
        intro depth rest inside
        simp [splitFrom?, notQuote, notEscape]
      exact first.append induction
  | @escaped c body _ induction =>
      have first : Crosses .inside .inside ['\\', c] := by
        intro depth rest inside
        simp [splitFrom?, Function.comp_def]
      exact first.append induction

theorem of_string {body : List Char} (isBody : StringBody body) :
    Crosses .outside .outside ('"' :: body) := by
  have opening : Crosses .outside .inside ['"'] := by
    intro depth rest inside
    simp [splitFrom?]
  exact opening.append (of_stringBody isBody)

theorem of_quoted (found : TokenRule.quoted.Matches text) : Crosses .outside .outside text := by
  obtain ⟨body, rfl, isBody⟩ := TokenRule.exists_of_matches_quoted found
  exact of_string isBody

/-- What a scan reads up to its closing parenthesis is read in the same way inside others. -/
theorem of_splitFrom? (found : splitFrom? depth quoting text = some (front, after))
    (inside : 1 ≤ depth) (outside : 1 ≤ outer) (rest : List Char) :
    splitFrom? (depth + outer) quoting (front ++ rest) =
      (splitFrom? outer .outside rest).map fun (later, behind) => (front ++ later, behind) := by
  induction text generalizing depth quoting front with
  | nil => cases found
  | cons c text induction =>
      have notLast : ¬ (quoting = .outside ∧ c = ')' ∧ depth + outer = 1) := by omega
      rw [splitFrom?_cons] at found
      split at found
      · rename_i closes
        obtain ⟨rfl, rfl, rfl⟩ := closes
        cases found
        rw [List.singleton_append, splitFrom?_cons, if_neg notLast]
        simp [Quoting.deepen, Quoting.turn]
      · rename_i goesOn
        obtain ⟨⟨others, remaining⟩, split, spelled⟩ := Option.map_eq_some_iff.mp found
        cases spelled
        have stillInside : 1 ≤ quoting.deepen depth c := Quoting.one_le_deepen inside goesOn
        rw [List.cons_append, splitFrom?_cons, if_neg notLast, Quoting.deepen_add inside,
          induction split stillInside, Option.map_map]
        rfl

theorem of_blob (opens : front.head? = some '(') (closes : split? (front ++ after) =
    some (front, after)) : Crosses .outside .outside front := by
  intro depth rest inside
  obtain ⟨behind, rfl⟩ := List.head?_eq_some_iff.mp opens
  rw [List.cons_append, split?_opening] at closes
  obtain ⟨⟨others, remaining⟩, split, spelled⟩ := Option.map_eq_some_iff.mp closes
  cases spelled
  have nested := of_splitFrom? split (Nat.le_refl 1) inside rest
  rw [List.cons_append, splitFrom?_opening, Nat.add_comm depth 1, nested, Option.map_map]
  rfl

theorem flatMap {Item : Type} {spell : Item → List Char} {items : List Item}
    (cross : ∀ item ∈ items, Crosses start start (spell item)) :
    Crosses start start (items.flatMap spell) := by
  induction items with
  | nil => exact nil
  | cons item items induction =>
      have ⟨first, others⟩ := List.forall_mem_cons.mp cross
      exact first.append (induction others)

theorem of_blank (blank : ∀ c ∈ text, isBlank c = true) : Crosses .outside .outside text := by
  refine of_plain fun c isMember => ?_
  have isBlank := blank c isMember
  refine ⟨?_, ?_, ?_⟩ <;> rintro rfl <;> exact absurd isBlank (by decide)

end Crosses

/-- A text that is crossed is the whole argument in the parentheses around it. -/
theorem split?_of_crosses (crosses : Crosses .outside .outside text) (after : List Char) :
    split? ('(' :: (text ++ ')' :: after)) = some ('(' :: (text ++ [')']), after) := by
  have inside := crosses 1 (')' :: after) (Nat.le_refl 1)
  have last : splitFrom? 1 .outside (')' :: after) = some ([')'], after) := rfl
  rw [last] at inside
  rw [split?_opening, inside]
  rfl

end Arguments

/-! ## Texts with tokens -/

theorem Token.ReadFrom.crosses {position : Nat} {span after : List Char} {token : Token}
    (read : token.ReadFrom .selector position span after) :
    Arguments.Crosses .outside .outside span := by
  cases read with
  | blob _ opens closes => exact .of_blob opens closes
  | @rule rule kind value notBlob takes isKind reads =>
      have spanMatches := takes.spanMatches
      rcases TokenRule.quoted_or_avoids takes.isRule with rfl | avoids
      · obtain ⟨dot, name, rfl, isDot, nameMatches⟩ :=
          TokenRule.exists_of_matches_dotted spanMatches
        have plainDot : Arguments.Crosses .outside .outside dot := by
          refine .of_plain fun c isMember => ?_
          rcases isDot with rfl | rfl
          · cases isMember
          · rw [List.mem_singleton.mp isMember]
            decide
        exact plainDot.append (.of_quoted nameMatches)
      · refine .of_plain fun c isMember => ?_
        refine ⟨?_, ?_, ?_⟩ <;> rintro rfl <;>
          exact Pattern.not_mem_of_avoids (avoids _ (by simp)) spanMatches isMember

/-- A selector that can be lexed is crossed as a whole. -/
theorem crosses_of_tokenize {text : String} {tokens : List Token}
    (lexed : tokenize .selector text = .ok tokens) :
    Arguments.Crosses .outside .outside text.toList := by
  obtain ⟨front, back, spelled, ⟨frontBlank, backBlank, _⟩, _⟩ :=
    Grammar.trims_start .selector text.toList
  obtain ⟨pieces, tail, _, tiling⟩ := Cursor.tokens_isTiling lexed
  obtain ⟨rfl, noGaps⟩ := tiling.adjacent rfl
  have body : Arguments.Crosses .outside .outside (Cursor.start .selector text.toList).rest := by
    rw [← tiling.spelled, List.append_nil]
    refine .flatMap fun piece isPiece => ?_
    obtain ⟨before, behind, split⟩ := List.append_of_mem isPiece
    rw [noGaps piece isPiece, List.nil_append]
    exact (tiling.reads before piece behind split).crosses
  rw [spelled]
  exact ((Arguments.Crosses.of_blank frontBlank).append body).append (.of_blank backBlank)

/-! ## The argument of a function -/

section

variable {front body back text : List Char}

theorem dropWhile_takeWhile_of_kept (kept : ∀ c ∈ text.head?, isBlank c = false) :
    text.dropWhile isBlank = text ∧ text.takeWhile isBlank = [] := by
  cases text with
  | nil => exact ⟨rfl, rfl⟩
  | cons c text =>
      have notBlank := kept c rfl
      simp [notBlank]

theorem head?_append_kept (kept : ∀ c ∈ body.head?, isBlank c = false) (nonempty : body ≠ [])
    (back : List Char) : ∀ c ∈ (body ++ back).head?, isBlank c = false := by
  cases body with
  | nil => exact absurd rfl nonempty
  | cons first body => exact kept

theorem trimBlank_of_blank (blank : ∀ c ∈ text, isBlank c = true) : trimBlank text = [] := by
  have dropped : (text ++ []).dropWhile isBlank = [].dropWhile isBlank :=
    List.dropWhile_append_of_pos blank
  rw [List.append_nil] at dropped
  rw [trimBlank, trimBlankStart, trimBlankEnd, dropped]
  rfl

theorem trimBlank_of_trims (trims : Grammar.selector.Trims front body back) (nonempty : body ≠ []) :
    trimBlank (front ++ body ++ back) = body := by
  have headKept := head?_append_kept trims.2.2.1 nonempty back
  obtain ⟨frontBlank, backBlank, _, lastKept⟩ := trims
  have lastFirst : ∀ c ∈ body.reverse.head?, isBlank c = false := by
    rw [List.head?_reverse]
    exact lastKept
  have backReversed : ∀ c ∈ back.reverse, isBlank c = true := fun c isMember =>
    backBlank c (List.mem_reverse.mp isMember)
  rw [List.append_assoc, trimBlank, trimBlankStart, trimBlankEnd,
    List.dropWhile_append_of_pos frontBlank, (dropWhile_takeWhile_of_kept headKept).1,
    List.reverse_append, List.dropWhile_append_of_pos backReversed,
    (dropWhile_takeWhile_of_kept lastFirst).1, List.reverse_reverse]

/-- The lexer starts behind the white space at the front of a selector. -/
theorem Cursor.start_of_trims (trims : Grammar.selector.Trims front body back)
    (nonempty : body ≠ []) :
    Cursor.start .selector (front ++ body ++ back) = ⟨.selector, byteLength front, body⟩ := by
  rw [start, trimBlank_of_trims trims nonempty, List.append_assoc,
    List.takeWhile_append_of_pos trims.1,
    (dropWhile_takeWhile_of_kept (head?_append_kept trims.2.2.1 nonempty back)).2, List.append_nil]

end

namespace Cursor

variable {after : Cursor} {token : Token} {rule : TokenRule} {kind : TokenKind}
  {length position : Nat} {span text behind : List Char}

theorem next_of_split? (cursor : Cursor) (left : cursor.rest = '(' :: behind)
    (isSelector : cursor.grammar = .selector)
    (closes : Arguments.split? cursor.rest = some (span, text)) :
    cursor.next = .token ⟨.arguments, String.ofList span, cursor.position⟩
      ⟨.selector, cursor.position + byteLength span, text⟩ := by
  rw [next_of_opening left isSelector, nextArguments, closes, isSelector]

theorem next_of_longest? (cursor : Cursor) (notBlob : cursor.rest.head? ≠ some '(')
    (matched : TokenRule.longest? cursor.grammar.rules cursor.rest = some (rule, length))
    (isKind : rule.kind = some kind) : cursor.next = cursor.nextOfRule kind length := by
  rw [next]
  split
  · rename_i ended
    rw [ended] at matched
    have isPrefix := (TokenRule.takes_of_longest? matched).isPrefix
    have nonempty := (TokenRule.takes_of_longest? matched).nonempty
    exact absurd (List.prefix_nil.mp isPrefix) nonempty
  · rename_i c behind spelled
    have notOpening : ¬ (c = '(' ∧ cursor.grammar = .selector) := by
      rintro ⟨rfl, _⟩
      exact notBlob (by rw [spelled, List.head?_cons])
    rw [if_neg notOpening]
    split
    · rename_i found
      cases matched.symm.trans found
    · rename_i found
      cases matched.symm.trans found
      rw [isKind]

theorem tokens_of_next {cursor : Cursor} (step : cursor.next = .token token after) :
    cursor.tokens = after.tokens.map (token :: ·) := by
  rw [tokens]
  split
  · rename_i found
    cases step.symm.trans found
  · rename_i found
    cases step.symm.trans found
  · rename_i found
    cases step.symm.trans found
    rfl

theorem tokens_of_finished {cursor : Cursor} (step : cursor.next = .finished after) :
    cursor.tokens = .ok [] := by
  rw [tokens]
  split
  · rfl
  · rename_i found
    cases step.symm.trans found
  · rename_i found
    cases step.symm.trans found

theorem tokens_nil : (Cursor.mk .selector position []).tokens = .ok [] :=
  tokens_of_finished (next_of_nil rfl)

end Cursor

namespace TokenRule

theorem longest?_congr {rules : List TokenRule} {text other : List Char}
    (same : ∀ rule ∈ rules, rule.pattern.longest? text = rule.pattern.longest? other) :
    longest? rules text = longest? rules other := by
  induction rules with
  | nil => rfl
  | cons rule rules induction =>
      have ⟨first, others⟩ := List.forall_mem_cons.mp same
      rw [longest?, longest?, first, induction others]

/-- A word that takes an argument, with the kind of its tokens. -/
inductive IsCallWord : String → TokenKind → Prop where
  | function {name : String} (isName : name ∈ ["has", "expr", "val", "contains"]) :
      IsCallWord name .pseudoClassFunction
  | nth {name : String} (isName : name ∈ ["nth-child", "nth-last-child"]) :
      IsCallWord name .nthFunction

/-- The colon and the word of a function are taken as one token before its argument. -/
theorem exists_longest?_call {name : String} {kind : TokenKind} (isWord : IsCallWord name kind)
    (behind : List Char) :
    ∃ rule : TokenRule, rule.kind = some kind ∧
      longest? selectorRules (':' :: (name.toList ++ '(' :: behind)) =
        some (rule, name.toList.length + 1) := by
  have split : ':' :: (name.toList ++ '(' :: behind) =
      ':' :: (name.toList ++ ['(']) ++ behind := by simp
  have noRuleGoesOn : ∀ rule ∈ selectorRules,
      rule.pattern.longest? (':' :: (name.toList ++ ['(']) ++ behind) =
        rule.pattern.longest? (':' :: (name.toList ++ ['('])) := by
    intro rule isRule
    refine Pattern.longest?_append behind ?_
    simp only [selectorRules, List.mem_cons, List.not_mem_nil, or_false] at isRule
    cases isWord with
    | function isName =>
        simp only [List.mem_cons, List.not_mem_nil, or_false] at isName
        rcases isName with rfl | rfl | rfl | rfl <;>
          rcases isRule with
            rfl | rfl | rfl | rfl | rfl | rfl | rfl | rfl | rfl | rfl | rfl | rfl | rfl <;> rfl
    | nth isName =>
        simp only [List.mem_cons, List.not_mem_nil, or_false] at isName
        rcases isName with rfl | rfl <;>
          rcases isRule with
            rfl | rfl | rfl | rfl | rfl | rfl | rfl | rfl | rfl | rfl | rfl | rfl | rfl <;> rfl
  rw [split, longest?_congr noRuleGoesOn]
  cases isWord with
  | function isName =>
      simp only [List.mem_cons, List.not_mem_nil, or_false] at isName
      refine ⟨⟨colonWord ["has", "expr", "val", "contains"], some .pseudoClassFunction⟩, rfl, ?_⟩
      rcases isName with rfl | rfl | rfl | rfl <;> rfl
  | nth isName =>
      simp only [List.mem_cons, List.not_mem_nil, or_false] at isName
      refine ⟨⟨colonWord ["nth-child", "nth-last-child"], some .nthFunction⟩, rfl, ?_⟩
      rcases isName with rfl | rfl <;> rfl

/-- The value of a word is the word without the colon. -/
theorem readValue_call {name : String} {kind : TokenKind} (isWord : IsCallWord name kind)
    (position : Nat) : readValue kind (':' :: name.toList) position = .ok name := by
  cases isWord <;> simp [readValue]

end TokenRule

/-- The selector of a function with an argument. -/
def functionSelector (name inner : String) : String :=
  ":" ++ name ++ "(" ++ inner ++ ")"

/-- The selector with another one in the parentheses of a `:has(…)`. -/
def hasSelector (inner : String) : String :=
  ":has(" ++ inner ++ ")"

theorem hasSelector_eq (inner : String) : hasSelector inner = functionSelector "has" inner := rfl

/-- A text that is crossed is the argument of a function around it. -/
theorem tokenize_call {name inner : String} {kind : TokenKind}
    (isWord : TokenRule.IsCallWord name kind)
    (crosses : Arguments.Crosses .outside .outside inner.toList) :
    tokenize .selector (functionSelector name inner) =
      .ok [⟨kind, name, 0⟩,
        ⟨.arguments, "(" ++ inner ++ ")", 1 + byteLength name.toList⟩] := by
  generalize isBlob : '(' :: (inner.toList ++ [')']) = blob
  have blobText : "(" ++ inner ++ ")" = String.ofList blob := by
    simp [← isBlob, ← String.toList_inj]
  have closes : Arguments.split? blob = some (blob, []) := by
    rw [← isBlob]
    exact Arguments.split?_of_crosses crosses []
  generalize isFront : ':' :: name.toList = front
  have frontLength : byteLength front = 1 + byteLength name.toList := by
    rw [← isFront, byteLength_cons]
    rfl
  have spelled : (functionSelector name inner).toList = [] ++ (front ++ blob) ++ [] := by
    simp [functionSelector, ← isBlob, ← isFront]
  have trims : Grammar.selector.Trims [] (front ++ blob) [] := by
    refine ⟨by simp, by simp, ?_, ?_⟩
    · intro c isHead
      rw [← isFront] at isHead
      cases isHead
      decide
    · intro c isLast
      rw [← isBlob, ← List.cons_append, ← List.append_assoc, List.getLast?_append] at isLast
      cases isLast
      decide
  have word : (Cursor.mk .selector 0 (front ++ blob)).next =
      .token ⟨kind, name, 0⟩ ⟨.selector, 1 + byteLength name.toList, blob⟩ := by
    obtain ⟨rule, isKind, matched⟩ := TokenRule.exists_longest?_call isWord (inner.toList ++ [')'])
    rw [isBlob, ← List.cons_append, isFront] at matched
    have notOpening : (front ++ blob).head? ≠ some '(' := by simp [← isFront]
    have length : name.toList.length + 1 = front.length := by simp [← isFront]
    rw [length] at matched
    have value := TokenRule.readValue_call isWord 0
    rw [isFront] at value
    rw [Cursor.next_of_longest? ⟨.selector, 0, front ++ blob⟩ notOpening matched isKind,
      Cursor.nextOfRule]
    simp only [Cursor.advance, List.take_left, List.drop_left, value, frontLength]
    simp
  have argument := Cursor.next_of_split? ⟨.selector, 1 + byteLength name.toList, blob⟩
    isBlob.symm rfl closes
  rw [tokenize, spelled, Cursor.start_of_trims trims (by simp [← isFront]), byteLength_nil,
    Cursor.tokens_of_next word, Cursor.tokens_of_next argument, Cursor.tokens_nil, blobText]
  rfl

theorem tokenize_functionSelector {name inner : String}
    (isName : name ∈ ["has", "expr", "val", "contains"])
    (crosses : Arguments.Crosses .outside .outside inner.toList) :
    tokenize .selector (functionSelector name inner) =
      .ok [⟨.pseudoClassFunction, name, 0⟩,
        ⟨.arguments, "(" ++ inner ++ ")", 1 + byteLength name.toList⟩] :=
  tokenize_call (.function isName) crosses

end TreeQuery
