import TreeQuery.Proofs.Token.RuleTexts

/-!
Where operators and quoted names end.

A sign takes all white space around it, and white space alone is an operator unless a sign or a
name takes it. A quoted name ends at its quote, whatever follows.
-/

namespace TreeQuery

namespace TokenRule

open Pattern

variable {rule taker : TokenRule} {sign c : Char}
  {word other span text run before behind back : List Char}

/-! ## Quoted names -/

theorem quoted_unique (wordMatches : (dotted quoted).Matches word)
    (otherMatches : (dotted quoted).Matches other) (isPrefix : word <+: text)
    (otherPrefix : other <+: text) : word = other := by
  obtain ⟨dot, name, rfl, isDot, nameMatches⟩ := exists_of_matches_dotted wordMatches
  obtain ⟨otherDot, otherName, rfl, isOtherDot, otherNameMatches⟩ :=
    exists_of_matches_dotted otherMatches
  obtain ⟨body, rfl, isBody⟩ := exists_of_matches_quoted nameMatches
  obtain ⟨otherBody, rfl, isOtherBody⟩ := exists_of_matches_quoted otherNameMatches
  obtain ⟨rest, rfl⟩ := isPrefix
  obtain ⟨behind, same⟩ := otherPrefix
  rcases isDot with rfl | rfl <;> rcases isOtherDot with rfl | rfl <;>
    simp only [List.nil_append, List.cons_append, List.cons.injEq, true_and] at same ⊢
  · exact isBody.unique isOtherBody same.symm
  · exact absurd same.1 (by decide)
  · exact absurd same.1 (by decide)
  · exact isBody.unique isOtherBody same.symm

theorem not_matches_dot (isRule : rule ∈ selectorRules) : ¬ rule.pattern.Matches ['.'] := by
  rw [← matches_after_iff, ← nullable_iff]
  simp only [selectorRules, List.mem_cons, List.not_mem_nil, or_false] at isRule
  rcases isRule with rfl | rfl | rfl | rfl | rfl | rfl | rfl | rfl | rfl | rfl | rfl | rfl | rfl
  all_goals decide

/-- Where a quoted name can start, only the rule of quoted names takes a token. -/
theorem quoted_of_takes (isTaker : taker ∈ selectorRules) (spanMatches : taker.pattern.Matches span)
    (nonempty : span ≠ []) (spanPrefix : span <+: text) (wordMatches : (dotted quoted).Matches word)
    (isPrefix : word <+: text) : taker = ⟨dotted quoted, some .identifier⟩ := by
  have hasNoQuote : '"' ∉ span ∨ taker = ⟨dotted quoted, some .identifier⟩ := by
    rcases quoted_or_avoids isTaker with isQuoted | avoids
    · exact .inr isQuoted
    · exact .inl (not_mem_of_avoids (avoids '"' (by simp)) spanMatches)
  rcases hasNoQuote with noQuote | isQuoted
  · obtain ⟨dot, name, rfl, isDot, nameMatches⟩ := exists_of_matches_dotted wordMatches
    obtain ⟨body, rfl, _⟩ := exists_of_matches_quoted nameMatches
    obtain ⟨rest, rfl⟩ := isPrefix
    obtain ⟨behind, same⟩ := spanPrefix
    cases span with
    | nil => exact absurd rfl nonempty
    | cons first span =>
        rcases isDot with rfl | rfl
        · cases (List.cons.inj same).1
          exact absurd List.mem_cons_self noQuote
        · obtain ⟨rfl, sameRest⟩ := List.cons.inj same
          cases span with
          | nil => exact absurd spanMatches (not_matches_dot isTaker)
          | cons second span =>
              cases (List.cons.inj sameRest).1
              exact absurd (List.mem_cons_of_mem _ List.mem_cons_self) noQuote
  · exact isQuoted

/-! ## Signs -/

theorem not_blank_of_mem_signs (isSign : sign ∈ signs) : isBlank sign = false := by
  simp only [signs, List.mem_cons, List.not_mem_nil, or_false] at isSign
  rcases isSign with rfl | rfl | rfl <;> decide

theorem not_name_of_mem_signs (isSign : sign ∈ signs) :
    sign ≠ '.' ∧ startsName sign = false ∧ continuesName sign = false := by
  simp only [signs, List.mem_cons, List.not_mem_nil, or_false] at isSign
  rcases isSign with rfl | rfl | rfl <;> decide

theorem eq_of_blank_append {others rest : List Char} (beforeBlank : ∀ c ∈ before, isBlank c = true)
    (othersBlank : ∀ c ∈ others, isBlank c = true) (notBlank : isBlank c = false)
    (same : before ++ c :: rest = others ++ c :: behind) : before = others ∧ rest = behind := by
  have sameFront := congrArg (List.takeWhile isBlank) same
  rw [List.takeWhile_append_of_pos beforeBlank, List.takeWhile_append_of_pos othersBlank]
    at sameFront
  simp only [List.takeWhile_cons, notBlank, Bool.false_eq_true, if_false, List.append_nil]
    at sameFront
  subst sameFront
  exact ⟨rfl, (List.cons.inj (List.append_cancel_left same)).2⟩

theorem trimBlank_sign (isSign : sign ∈ signs) (beforeBlank : ∀ c ∈ before, isBlank c = true)
    (behindBlank : ∀ c ∈ behind, isBlank c = true) :
    trimBlank (before ++ sign :: behind) = [sign] := by
  have notBlank := not_blank_of_mem_signs isSign
  have trims : Grammar.selector.Trims before [sign] behind :=
    ⟨beforeBlank, behindBlank, by simpa using notBlank, by simpa using notBlank⟩
  have trimmed := trimBlank_of_trims trims (by simp)
  rw [List.append_assoc] at trimmed
  exact trimmed

theorem head?_before_sign (beforeBlank : ∀ c ∈ before, isBlank c = true)
    (isHead : (before ++ sign :: behind).head? = some c) : isBlank c = true ∨ c = sign := by
  cases before with
  | nil => exact .inr (Option.some.inj isHead).symm
  | cons first before =>
      cases isHead
      exact .inl (beforeBlank _ List.mem_cons_self)

theorem not_gap_of_quoted (found : (dotted quoted).Matches word) (isHead : word.head? = some c) :
    ¬ IsGap c := by
  obtain ⟨dot, name, rfl, isDot, nameMatches⟩ := exists_of_matches_dotted found
  obtain ⟨body, rfl, _⟩ := exists_of_matches_quoted nameMatches
  intro isGap
  rcases isDot with rfl | rfl
  · cases isHead
    exact absurd isGap (by simp only [IsGap]; decide)
  · cases isHead
    exact absurd isGap (by simp only [IsGap]; decide)

theorem not_mem_bareName_of_sign (isSign : sign ∈ signs) (found : bareName.Matches word) :
    sign ∉ word := by
  obtain ⟨notDot, notStart, notName⟩ := not_name_of_mem_signs isSign
  obtain ⟨dot, first, rest, rfl, isDot, starts, continues⟩ := matches_bareName_iff.mp found
  intro isMember
  rcases List.mem_append.mp isMember with inDot | inName
  · rcases isDot with rfl | rfl
    · cases inDot
    · exact notDot (List.mem_singleton.mp inDot)
  · rcases List.mem_cons.mp inName with rfl | inRest
    · cases notStart.symm.trans starts
    · cases notName.symm.trans (continues _ inRest)

/-- Only the rule of a sign takes a text with the sign behind white space. -/
theorem sign_of_matches (isTaker : taker ∈ selectorRules) (isSign : sign ∈ signs)
    (spanMatches : taker.pattern.Matches (before ++ sign :: behind))
    (beforeBlank : ∀ c ∈ before, isBlank c = true) :
    taker = ⟨spaced sign, some .operator⟩ ∧ ∀ c ∈ behind, isBlank c = true := by
  have isMember : sign ∈ before ++ sign :: behind := by simp
  have notBlank := not_blank_of_mem_signs isSign
  rcases rule_of_gap isTaker spanMatches isMember (.inr isSign) with
    isSpaced | rfl | rfl | rfl
  · obtain ⟨other, _, rfl⟩ := isSpaced
    obtain ⟨front, rest, spelled, frontBlank, restBlank⟩ := matches_spaced_iff.mp spanMatches
    rw [spelled, List.mem_append, List.mem_cons] at isMember
    rcases isMember with isFront | isSame | isRest
    · cases notBlank.symm.trans (frontBlank _ isFront)
    · rw [← isSame] at spelled ⊢
      obtain ⟨rfl, rfl⟩ := eq_of_blank_append beforeBlank frontBlank notBlank spelled
      exact ⟨rfl, restBlank⟩
    · cases notBlank.symm.trans (restBlank _ isRest)
  · cases notBlank.symm.trans (all_of_matches_atLeastOnce spanMatches sign isMember)
  · exact absurd isMember (not_mem_bareName_of_sign isSign spanMatches)
  · obtain ⟨first, rest, spelled⟩ :=
      List.exists_cons_of_ne_nil (List.ne_nil_of_mem isMember)
    have isHead : (before ++ sign :: behind).head? = some first := by rw [spelled]; rfl
    refine absurd ?_ (not_gap_of_quoted spanMatches isHead)
    rcases head?_before_sign beforeBlank isHead with blank | rfl
    · exact .inl blank
    · exact .inr isSign

/-- A sign is taken with all white space around it. -/
theorem longest?_sign (isSign : sign ∈ signs) (beforeBlank : ∀ c ∈ before, isBlank c = true)
    (behindBlank : ∀ c ∈ behind, isBlank c = true) (kept : ∀ c ∈ back.head?, isBlank c = false) :
    longest? selectorRules (before ++ sign :: behind ++ back) =
      some (⟨spaced sign, some .operator⟩, (before ++ sign :: behind).length) := by
  refine longest?_of_unique (IsSelectorRule.sign isSign).mem (List.prefix_append _ back) (by simp)
    (matches_spaced_iff.mpr ⟨before, behind, rfl, beforeBlank, behindBlank⟩) ?_
  intro taker isTaker more isPrefix moreMatches
  rw [List.append_assoc, List.cons_append] at moreMatches
  obtain ⟨isRule, allBlank⟩ := sign_of_matches isTaker isSign moreMatches beforeBlank
  refine ⟨isRule, ?_⟩
  cases more with
  | nil => rfl
  | cons first more =>
      obtain ⟨rest, rfl⟩ := (List.prefix_append_right_inj _).mp isPrefix
      cases (kept first rfl).symm.trans (allBlank first (by simp))

/-! ## White space -/

/-- Nothing goes on behind white space but a gap, and a name that the white space starts. -/
theorem eq_nil_of_blanks {more : List Char} (nonempty : run ≠ [])
    (blank : ∀ c ∈ run, isBlank c = true) (kept : ∀ c ∈ back.head?, ¬ IsGap c)
    (apart : (∀ c ∈ run, continuesName c = true) → ∀ c ∈ back.head?, continuesName c = false)
    (isRule : rule ∈ selectorRules) (isPrefix : more <+: back)
    (found : rule.pattern.Matches (run ++ more)) : more = [] := by
  obtain ⟨first, rest, rfl⟩ := List.exists_cons_of_ne_nil nonempty
  have firstBlank := blank first List.mem_cons_self
  cases more with
  | nil => rfl
  | cons c more =>
      obtain ⟨behind, rfl⟩ := isPrefix
      have notGap := kept c rfl
      have isMember : c ∈ first :: rest ++ c :: more := by simp
      rcases rule_of_gap isRule found List.mem_cons_self (.inl firstBlank) with
        isSpaced | rfl | rfl | rfl
      · obtain ⟨sign, isSign, rfl⟩ := isSpaced
        exact absurd (isGap_of_spaced isSign found c isMember) notGap
      · exact absurd (.inl (all_of_matches_atLeastOnce found c isMember)) notGap
      · have notDot : (first :: rest ++ c :: more).head? ≠ some '.' := by
          intro isDot
          cases isDot
          exact absurd firstBlank (by decide)
        have continues : ∀ d ∈ first :: rest ++ c :: more, continuesName d = true :=
          fun _ isMember => continuesName_of_mem_bareName found isMember notDot
        have inRun : ∀ d ∈ first :: rest, continuesName d = true :=
          fun d isRun => continues d (List.mem_append_left _ isRun)
        cases (apart inRun c rfl).symm.trans (continues c isMember)
      · exact absurd (.inl firstBlank) (not_gap_of_quoted found rfl)

theorem not_matches_of_blanks (nonempty : run ≠ []) (blank : ∀ c ∈ run, isBlank c = true)
    (isBefore : rule ∈ selectorRules.take 4) : ¬ rule.pattern.Matches run := by
  intro found
  have isStarOrSign : rule = ⟨.char '*', some .operator⟩ ∨
      ∃ sign ∈ signs, rule = ⟨spaced sign, some .operator⟩ := by
    simpa [selectorRules, signs] using isBefore
  rcases isStarOrSign with rfl | ⟨sign, isSign, rfl⟩
  · obtain ⟨c, rfl, isStar⟩ := matches_one_iff.mp found
    have starBlank := blank c List.mem_cons_self
    rw [beq_iff_eq.mp isStar] at starBlank
    exact absurd starBlank (by decide)
  · obtain ⟨before, after, rfl, _⟩ := matches_spaced_iff.mp found
    have signBlank := blank sign (by simp)
    cases (not_blank_of_mem_signs isSign).symm.trans signBlank

/-- White space is taken as an operator before a text that neither it nor a name takes with it. -/
theorem longest?_blanks (nonempty : run ≠ []) (blank : ∀ c ∈ run, isBlank c = true)
    (kept : ∀ c ∈ back.head?, ¬ IsGap c)
    (apart : (∀ c ∈ run, continuesName c = true) → ∀ c ∈ back.head?, continuesName c = false) :
    longest? selectorRules (run ++ back) =
      some (⟨.atLeastOnce (.one isBlank), some .operator⟩, run.length) := by
  have split : selectorRules = selectorRules.take 4 ++
      ⟨.atLeastOnce (.one isBlank), some .operator⟩ :: selectorRules.drop 5 := rfl
  have blanksMatch := matches_atLeastOnce_one_iff.mpr ⟨nonempty, blank⟩
  rw [split]
  refine longest?_of_ends nonempty blanksMatch ?_ ?_
  · rw [← split]
    exact fun _ isRule _ => eq_nil_of_blanks nonempty blank kept apart isRule
  · exact fun _ => not_matches_of_blanks nonempty blank

/-! ## Before a gap -/

/-- Whether no name and no operator goes on from a text into a gap behind it. -/
structure Apart (front back : List Char) : Prop where
  isGap : ∀ c ∈ back.head?, IsGap c
  noName : ∀ c more, c :: more <+: back → ¬ bareName.Matches (front ++ c :: more)
  noBlanks : ∀ c more, c :: more <+: back →
    ¬ (Pattern.atLeastOnce (.one isBlank)).Matches (front ++ c :: more)
  noSign : ∀ sign ∈ signs, ∀ c more, c :: more <+: back →
    ¬ (spaced sign).Matches (front ++ c :: more)

/-- No match goes from a span that is taken into a gap that is apart. -/
theorem Apart.eq_nil {middle after more : List Char} (apart : Apart (span ++ middle) back)
    (takes : Takes selectorRules taker span (span ++ (middle ++ after)))
    (isRule : rule ∈ selectorRules) (isPrefix : more <+: middle ++ back)
    (found : rule.pattern.Matches (span ++ more)) : more = [] := by
  rcases Nat.le_total more.length middle.length with inside | longer
  · have isMiddle : more <+: middle :=
      List.prefix_of_prefix_length_le isPrefix (List.prefix_append middle back) inside
    exact takes.eq_nil isRule (isMiddle.trans (List.prefix_append middle after)) found
  · obtain ⟨tail, rfl⟩ :=
      List.prefix_of_prefix_length_le (List.prefix_append middle back) isPrefix longer
    have isBack : tail <+: back := (List.prefix_append_right_inj middle).mp isPrefix
    cases tail with
    | nil =>
        rw [List.append_nil] at found ⊢
        exact takes.eq_nil isRule (List.prefix_append middle after) found
    | cons c tail =>
        have isGap : IsGap c := by
          obtain ⟨behind, rfl⟩ := isBack
          exact apart.isGap c rfl
        rw [← List.append_assoc] at found
        have isMember : c ∈ span ++ middle ++ c :: tail := by simp
        rcases rule_of_gap isRule found isMember isGap with isSpaced | rfl | rfl | rfl
        · obtain ⟨sign, isSign, rfl⟩ := isSpaced
          exact absurd found (apart.noSign sign isSign c tail isBack)
        · exact absurd found (apart.noBlanks c tail isBack)
        · exact absurd found (apart.noName c tail isBack)
        · rw [List.append_assoc] at found
          have spanPrefix := List.prefix_append span (middle ++ c :: tail)
          have isQuoted := quoted_of_takes takes.isRule takes.spanMatches takes.nonempty spanPrefix
            found List.prefix_rfl
          have spanMatches := takes.spanMatches
          rw [isQuoted] at spanMatches
          have same := quoted_unique spanMatches found spanPrefix List.prefix_rfl
          exact List.append_right_eq_self.mp same.symm

end TokenRule

/-! ## Reading operators and tokens before them -/

namespace Token

variable {position : Nat} {sign : Char} {token : Token}
  {span middle after back before behind run : List Char}

open TokenRule

theorem IsNext.of_sign (isSign : sign ∈ signs) (beforeBlank : ∀ c ∈ before, isBlank c = true)
    (behindBlank : ∀ c ∈ behind, isBlank c = true) (kept : ∀ c ∈ back.head?, isBlank c = false)
    (isOperator : token.kind = .operator) (isValue : token.value = String.ofList [sign]) :
    token.IsNext (before ++ sign :: behind) back := by
  have notBlob : (before ++ sign :: behind).head? ≠ some '(' := by
    intro opens
    rcases head?_before_sign beforeBlank opens with blank | rfl
    · exact absurd blank (by decide)
    · exact absurd isSign (by decide)
  have reads : readValue token.kind (before ++ sign :: behind) 0 = .ok token.value := by
    rw [isOperator, isValue]
    simp [readValue, trimBlank_sign isSign beforeBlank behindBlank]
  exact .of_longest? notBlob (by simp) (longest?_sign isSign beforeBlank behindBlank kept)
    (congrArg some isOperator.symm) reads

theorem IsNext.of_blanks (nonempty : run ≠ []) (blank : ∀ c ∈ run, isBlank c = true)
    (kept : ∀ c ∈ back.head?, ¬ IsGap c)
    (apart : (∀ c ∈ run, continuesName c = true) → ∀ c ∈ back.head?, continuesName c = false)
    (isOperator : token.kind = .operator) (isValue : token.value = " ") :
    token.IsNext run back := by
  have notBlob : run.head? ≠ some '(' := by
    intro opens
    exact absurd (blank '(' (List.mem_of_head? opens)) (by decide)
  have reads : readValue token.kind run 0 = .ok token.value := by
    rw [isOperator, isValue]
    simp [readValue, trimBlank_of_blank blank]
  exact .of_longest? notBlob nonempty (longest?_blanks nonempty blank kept apart)
    (congrArg some isOperator.symm) reads

/-- A token is the same one before another text on which no match goes on. -/
theorem ReadFrom.isNext_before (read : token.ReadFrom .selector position span after)
    (ends : ∀ rule ∈ selectorRules, ∀ more, more <+: back → rule.pattern.Matches (span ++ more) →
      more = []) : token.IsNext span back := by
  cases read with
  | blob _ opens closes => exact .of_split? rfl rfl opens (Arguments.splitFrom?_before closes _)
  | rule notBlob takes isKind reads =>
      exact .of_longest? (notBlob rfl) takes.nonempty (takes.longest?_before ends) isKind reads

theorem ReadFrom.eq_nil {rule : TokenRule} {more : List Char}
    (read : token.ReadFrom .selector position span after) (notArgument : token.kind ≠ .arguments)
    (isRule : rule ∈ selectorRules) (isPrefix : more <+: after)
    (found : rule.pattern.Matches (span ++ more)) : more = [] := by
  cases read with
  | blob => exact absurd rfl notArgument
  | rule _ takes => exact takes.eq_nil isRule isPrefix found

/-- The token at a place takes every text of a rule that starts there. -/
theorem ReadFrom.prefix_of_matches {rule : TokenRule} {word : List Char}
    (read : token.ReadFrom .selector position span after) (notArgument : token.kind ≠ .arguments)
    (isRule : rule ∈ selectorRules) (isPrefix : word <+: span ++ after)
    (found : rule.pattern.Matches word) : word <+: span := by
  cases read with
  | blob => exact absurd rfl notArgument
  | rule _ takes =>
      exact List.prefix_of_prefix_length_le isPrefix takes.isPrefix
        (takes.longest _ isRule word isPrefix found)

theorem ReadFrom.not_blank_behind
    (read : token.ReadFrom .selector position (before ++ sign :: behind) after)
    (isOperator : token.kind = .operator) (isSign : sign ∈ signs)
    (beforeBlank : ∀ c ∈ before, isBlank c = true) (behindBlank : ∀ c ∈ behind, isBlank c = true) :
    ∀ c ∈ after.head?, isBlank c = false := by
  intro c isHead
  obtain ⟨rest, rfl⟩ := List.head?_eq_some_iff.mp isHead
  refine Bool.eq_false_iff.mpr fun blank => ?_
  have spaces : (spaced sign).Matches (before ++ sign :: behind ++ [c]) := by
    refine matches_spaced_iff.mpr ⟨before, behind ++ [c], by simp, beforeBlank, ?_⟩
    exact List.forall_mem_append.mpr ⟨behindBlank, by simpa using blank⟩
  have isNil := read.eq_nil (by simp [isOperator]) (IsSelectorRule.sign isSign).mem
    (List.prefix_append [c] rest) spaces
  cases isNil

theorem ReadFrom.not_gap_behind (read : token.ReadFrom .selector position run after)
    (isOperator : token.kind = .operator) (blank : ∀ c ∈ run, isBlank c = true) :
    ∀ c ∈ after.head?, ¬ IsGap c := by
  intro c isHead isGap
  obtain ⟨rest, rfl⟩ := List.head?_eq_some_iff.mp isHead
  have notArgument : token.kind ≠ .arguments := by simp [isOperator]
  have isPrefix := List.prefix_append [c] rest
  rcases isGap with isBlank | isSign
  · have blanks : (Pattern.atLeastOnce (.one TreeQuery.isBlank)).Matches (run ++ [c]) := by
      refine matches_atLeastOnce_one_iff.mpr ⟨by simp, ?_⟩
      exact List.forall_mem_append.mpr ⟨blank, by simpa using isBlank⟩
    cases read.eq_nil notArgument IsSelectorRule.blanks.mem isPrefix blanks
  · have spaces : (spaced c).Matches (run ++ [c]) :=
      matches_spaced_iff.mpr ⟨run, [], rfl, blank, by simp⟩
    cases read.eq_nil notArgument (IsSelectorRule.sign isSign).mem isPrefix spaces

/-- A token before a gap is the same one before another gap that is apart. -/
theorem ReadFrom.isNext_of_apart (read : token.ReadFrom .selector position span (middle ++ after))
    (apart : Apart (span ++ middle) back) : token.IsNext span (middle ++ back) := by
  cases read with
  | blob _ opens closes => exact .of_split? rfl rfl opens (Arguments.splitFrom?_before closes _)
  | rule notBlob takes isKind reads =>
      refine .of_longest? (notBlob rfl) takes.nonempty ?_ isKind reads
      exact takes.longest?_before fun other isRule more isPrefix found =>
        apart.eq_nil takes isRule isPrefix found

end Token

end TreeQuery
