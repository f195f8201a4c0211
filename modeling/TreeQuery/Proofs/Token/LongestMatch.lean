import TreeQuery.Proofs.Text.SearchOrder
import TreeQuery.Token.Rules

/-!
The longest match of the rules.

The rules are written so that a backtracking search ends with the longest match of each of them:
no word of a choice starts a later one, and a part of a rule that repeats or may be left out is
followed by something that starts differently. So the rule with the longest match is found whether
the rules are searched or asked for their longest matches.
-/

namespace TreeQuery

namespace TokenRule

open Pattern

variable {text : List Char} {accepts : Char → Bool}

theorem exists_of_rests_one (resumes : (Pattern.one accepts).rests text ≠ []) :
    ∃ c behind, text = c :: behind ∧ accepts c = true := by
  cases text with
  | nil => exact absurd rfl resumes
  | cons c behind =>
      refine ⟨c, behind, rfl, ?_⟩
      by_cases accepted : accepts c = true
      · exact accepted
      · simp [rests, accepted] at resumes

/-! ## Words -/

theorem matches_text_iff {word : String} {front : List Char} :
    Matches (Pattern.text word) front ↔ front = word.toList := by
  unfold Pattern.text
  generalize word.toList = letters
  induction letters generalizing front with
  | nil => exact matches_done_iff
  | cons c letters induction =>
      rw [List.foldr_cons, matches_seq_iff]
      constructor
      · intro ⟨first, back, split, isFirst, isBack⟩
        obtain ⟨d, rfl, isChar⟩ := matches_one_iff.mp isFirst
        rw [split, induction.mp isBack, beq_iff_eq.mp isChar]
        rfl
      · intro spelled
        exact ⟨[c], letters, spelled, .one (beq_self_eq_true c), induction.mpr rfl⟩

theorem single_text (word : String) : Single (Pattern.text word) := by
  unfold Pattern.text
  generalize word.toList = letters
  induction letters with
  | nil => exact fun _ => Nat.le_refl 1
  | cons c letters induction => exact (single_one _).seq induction

theorem exists_of_matches_oneWord {words : List String} {front : List Char}
    (isWord : Matches (oneWord words) front) : ∃ word ∈ words, front = word.toList := by
  unfold oneWord oneOf at isWord
  induction words with
  | nil => exact absurd isWord not_matches_never
  | cons word others induction =>
      rcases matches_either_iff.mp isWord with isFirst | isOther
      · exact ⟨word, List.mem_cons_self, matches_text_iff.mp isFirst⟩
      · obtain ⟨later, isMember, spelled⟩ := induction isOther
        exact ⟨later, List.mem_cons_of_mem _ isMember, spelled⟩

theorem exists_of_matches_colonWord {words : List String} {span : List Char}
    (spanMatches : (colonWord words).Matches span) :
    ∃ word ∈ words, span = ':' :: word.toList := by
  obtain ⟨front, back, rfl, isColon, isBack⟩ := matches_seq_iff.mp spanMatches
  obtain ⟨c, rfl, accepted⟩ := matches_one_iff.mp isColon
  obtain ⟨word, isWord, rfl⟩ := exists_of_matches_oneWord isBack
  exact ⟨word, isWord, by rw [beq_iff_eq.mp accepted]; rfl⟩

/-- A choice of words is searched in order if no word starts a later one. -/
theorem orderly_oneWord {words : List String}
    (apart : words.Pairwise fun word later => word.toList <+: later.toList →
      later.toList.length ≤ word.toList.length) :
    Orderly (oneWord words) fun _ => True := by
  intro text
  induction apart with
  | nil => exact .nil
  | @cons word others starts _ induction =>
      have split : (oneWord (word :: others)).rests text =
          (Pattern.text word).rests text ++ (oneWord others).rests text := rfl
      rw [split, List.pairwise_append]
      refine ⟨(single_text word).orderly text, induction, ?_⟩
      intro rest isRest other isOther
      refine ⟨?_, trivial⟩
      obtain ⟨front, frontSplit, isFront⟩ := mem_rests_iff.mp isRest
      obtain ⟨back, backSplit, isBack⟩ := mem_rests_iff.mp isOther
      obtain ⟨later, isLater, rfl⟩ : ∃ later ∈ others, back = later.toList :=
        exists_of_matches_oneWord isBack
      rw [matches_text_iff] at isFront
      have lengths := congrArg List.length (frontSplit.symm.trans backSplit)
      rw [isFront, List.length_append, List.length_append] at lengths
      by_cases shorter : word.toList.length ≤ later.toList.length
      · have isPrefix : word.toList <+: later.toList := by
          refine List.prefix_of_prefix_length_le ⟨rest, ?_⟩ ⟨other, backSplit.symm⟩ shorter
          rw [← isFront, frontSplit]
        have noLonger := starts later isLater isPrefix
        omega
      · omega

theorem orderly_colonWord {words : List String}
    (apart : words.Pairwise fun word later => word.toList <+: later.toList →
      later.toList.length ≤ word.toList.length) :
    Orderly (colonWord words) fun _ => True :=
  .afterSingle (single_one _) (orderly_oneWord apart)

/-! ## Repetitions and parts that may be left out -/

theorem orderly_spaced {sign : Char} (notBlank : isBlank sign = false) :
    Orderly (spaced sign) fun _ => True := by
  have onBlanks := (single_one isBlank).many
  refine (onBlanks.seq (.afterSingle (single_one _) onBlanks.beforeDone) ?_).mono fun _ _ => trivial
  intro text resumes
  obtain ⟨c, behind, rfl, blank⟩ := exists_of_rests_one resumes
  have notSign : c ≠ sign := by
    intro same
    rw [same, notBlank] at blank
    cases blank
  simp [Stalls, rests, notSign]

theorem orderly_dotted {name : Pattern} {resumes : List Char → Prop}
    (orderly : Orderly name resumes) (notDot : ∀ behind, Stalls name ('.' :: behind)) :
    Orderly (dotted name) fun _ => True := by
  refine ((single_one (· == '.')).optional.seq orderly ?_).mono fun _ _ => trivial
  intro text resumes
  obtain ⟨c, behind, rfl, isDot⟩ := exists_of_rests_one resumes
  rw [beq_iff_eq.mp isDot]
  exact notDot behind

theorem orderly_reference :
    Orderly (.all [.char '[', .atLeastOnce (.one inReference), .char ']']) fun _ => True := by
  have closing : Orderly (.seq (.char ']') .done) fun _ => True :=
    (single_one (· == ']')).orderly.beforeDone
  have onInside := (single_one inReference).atLeastOnce.seq closing ?_
  · exact .afterSingle (single_one _) (onInside.mono fun _ _ => trivial)
  · intro text resumes
    obtain ⟨c, behind, rfl, inside⟩ := exists_of_rests_one resumes
    have notClosing : c ≠ ']' := by
      intro same
      rw [same] at inside
      exact absurd inside (by decide)
    simp [Stalls, rests, Pattern.char, notClosing]

theorem orderly_quoted : Orderly quoted fun _ => True := by
  have single : Single (.either (.one fun c => c != '"' && c != '\\')
      (.seq (.char '\\') (.one fun c => c != '\n'))) := by
    refine (single_one _).either ((single_one _).seq (single_one _)) ?_
    intro text
    cases text with
    | nil => exact .inl rfl
    | cons c behind =>
        by_cases escapes : c = '\\'
        · exact .inl (by simp [rests, escapes])
        · exact .inr (by simp [rests, Pattern.char, escapes])
  have closing : Orderly (.seq (.char '"') .done) fun _ => True :=
    (single_one (· == '"')).orderly.beforeDone
  refine .afterSingle (single_one _) ((single.many.seq closing ?_).mono fun _ _ => trivial)
  intro text resumes
  cases text with
  | nil => exact absurd rfl resumes
  | cons c behind =>
      by_cases closes : c = '"'
      · exact absurd (by simp [rests, Pattern.char, closes]) resumes
      · simp [Stalls, rests, Pattern.char, closes]

/-- A digit starts neither a fraction nor an exponent. -/
theorem digit_apart {c : Char} (isDigit : c.isDigit = true) : c ≠ '.' ∧ c ≠ 'e' ∧ c ≠ 'E' := by
  refine ⟨?_, ?_, ?_⟩ <;> intro same <;> rw [same] at isDigit <;> exact absurd isDigit (by decide)

theorem orderly_unsignedNumber : Orderly unsignedNumber fun _ => True := by
  have onDigits := (single_one Char.isDigit).atLeastOnce
  have onExponent : Orderly (.all [.one fun c => c == 'e' || c == 'E',
      .optional (.one fun c => c == '+' || c == '-'), digits]) fun _ => True := by
    have onSign := (single_one fun c => c == '+' || c == '-').optional
    have onSigned := onSign.seq onDigits.beforeDone ?_
    · exact .afterSingle (single_one _) (onSigned.mono fun _ _ => trivial)
    · intro text resumes
      obtain ⟨c, behind, rfl, isSign⟩ := exists_of_rests_one resumes
      have notDigit : c.isDigit = false := by
        rw [Bool.or_eq_true, beq_iff_eq, beq_iff_eq] at isSign
        rcases isSign with rfl | rfl <;> decide
      simp [Stalls, rests, Pattern.atLeastOnce, notDigit]
  have onFraction : Orderly (.seq (.char '.') digits) fun text =>
      (Pattern.one Char.isDigit).rests text ≠ [] := .afterSingle (single_one _) onDigits
  have onTail := onFraction.optional.seq onExponent.optional.beforeDone ?_
  · refine (onDigits.seq onTail ?_).mono fun _ _ => trivial
    -- Behind a part of the digits comes the next digit, with which no fraction and no exponent
    -- starts.
    intro text resumes
    obtain ⟨c, behind, rfl, isDigit⟩ := exists_of_rests_one resumes
    obtain ⟨notDot, notSmall, notLarge⟩ := digit_apart isDigit
    simp [Stalls, rests, Pattern.optional, Pattern.char, Pattern.all, notDot, notSmall, notLarge]
  · -- Either a fraction stopped before a digit, or it was left out before its point.
    intro text resumes
    rcases resumes with startsDigit | isFraction
    · obtain ⟨c, behind, rfl, isDigit⟩ := exists_of_rests_one startsDigit
      obtain ⟨_, notSmall, notLarge⟩ := digit_apart isDigit
      simp [Stalls, rests, Pattern.optional, Pattern.all, notSmall, notLarge]
    · cases text with
      | nil => exact absurd rfl isFraction
      | cons c behind =>
          by_cases isDot : c = '.'
          · simp [Stalls, rests, Pattern.optional, Pattern.all, isDot]
          · exact absurd (by simp [rests, Pattern.char, isDot]) isFraction

/-! ## The tables -/

theorem orderly_of_mem_selectorRules {rule : TokenRule} (isRule : rule ∈ selectorRules) :
    Orderly rule.pattern fun _ => True := by
  simp only [selectorRules, List.mem_cons, List.not_mem_nil, or_false] at isRule
  rcases isRule with rfl | rfl | rfl | rfl | rfl | rfl | rfl | rfl | rfl | rfl | rfl | rfl | rfl
  · exact (single_one _).orderly
  · exact orderly_spaced (by decide)
  · exact orderly_spaced (by decide)
  · exact orderly_spaced (by decide)
  · exact (single_one isBlank).atLeastOnce.mono fun _ _ => trivial
  · exact orderly_oneWord (by decide)
  · exact orderly_reference
  · have onName : Orderly (.seq (.one startsName) (.many (.one continuesName))) fun _ => True :=
      .afterSingle (single_one _) ((single_one _).many.mono fun _ _ => trivial)
    exact orderly_dotted onName fun behind => by simp [Stalls, rests, startsName]
  · exact orderly_dotted orderly_quoted fun behind => by
      simp [Stalls, rests, quoted, Pattern.all, Pattern.char]
  · refine ((single_one (· == '-')).optional.seq orderly_unsignedNumber ?_).mono fun _ _ => trivial
    intro text resumes
    obtain ⟨c, behind, rfl, isMinus⟩ := exists_of_rests_one resumes
    rw [beq_iff_eq.mp isMinus]
    simp [Stalls, rests, unsignedNumber, Pattern.all, digits, Pattern.atLeastOnce]
  · exact orderly_colonWord (by decide)
  · exact orderly_colonWord (by decide)
  · exact orderly_colonWord (by decide)

theorem orderly_of_mem_expressionRules {rule : TokenRule} (isRule : rule ∈ expressionRules) :
    Orderly rule.pattern fun _ => True := by
  simp only [expressionRules, List.mem_cons, List.not_mem_nil, or_false] at isRule
  rcases isRule with rfl | rfl | rfl | rfl | rfl | rfl | rfl | rfl
  · exact (single_one isBlank).atLeastOnce.mono fun _ _ => trivial
  · exact orderly_quoted
  · exact orderly_unsignedNumber
  · exact orderly_oneWord (by decide)
  · exact (single_one _).orderly
  · exact orderly_oneWord (by decide)
  · exact (single_one _).orderly
  · exact (single_one _).orderly

/-- A backtracking search for a rule ends with the longest text that the rule stands for. -/
theorem preferred?_eq_longest?_of_mem {grammar : Grammar} {rule : TokenRule}
    (isRule : rule ∈ grammar.rules) (text : List Char) :
    rule.pattern.preferred? text = rule.pattern.longest? text := by
  cases grammar with
  | selector => exact preferred?_eq_longest? (orderly_of_mem_selectorRules isRule) text
  | expression => exact preferred?_eq_longest? (orderly_of_mem_expressionRules isRule) text

/-! ## The rule that takes a span -/

/-- A rule takes a span from the start of a text: no rule matches a longer one, and no rule before
it one that is as long. -/
structure Takes (rules : List TokenRule) (rule : TokenRule) (span text : List Char) : Prop where
  isPrefix : span <+: text
  nonempty : span ≠ []
  spanMatches : rule.pattern.Matches span
  /-- A backtracking search for the rule ends with the span. -/
  preferred : rule.pattern.preferred? text = some span.length
  longest : ∀ other ∈ rules, ∀ front, front <+: text → other.pattern.Matches front →
    front.length ≤ span.length
  first : ∃ before behind, rules = before ++ rule :: behind ∧
    ∀ other ∈ before, ∀ front, front <+: text → other.pattern.Matches front →
      front.length < span.length

variable {rules : List TokenRule} {rule first : TokenRule} {front : List Char} {length : Nat}

theorem Takes.isRule {span text : List Char} (takes : Takes rules rule span text) :
    rule ∈ rules := by
  obtain ⟨before, behind, split, _⟩ := takes.first
  simp [split]

/-- The length of the longest match of a pattern, or zero. -/
def ownReach (pattern : Pattern) (text : List Char) : Nat :=
  (pattern.longest? text).getD 0

/-- The length of the longest match of several rules, or zero. -/
def reach (rules : List TokenRule) (text : List Char) : Nat :=
  ((longest? rules text).map Prod.snd).getD 0

theorem length_le_ownReach {pattern : Pattern} (isPrefix : front <+: text)
    (frontMatches : pattern.Matches front) : front.length ≤ ownReach pattern text := by
  have isTake : text.take front.length = front := (List.prefix_iff_eq_take.mp isPrefix).symm
  obtain ⟨longest, found, bound⟩ :=
    longest?_ge_of_matches_take isPrefix.length_le (isTake.symm ▸ frontMatches)
  rw [ownReach, found]
  exact bound

theorem longest?_cons : longest? (first :: rules) text =
    if 0 < ownReach first.pattern text ∧ reach rules text ≤ ownReach first.pattern text then
      some (first, ownReach first.pattern text)
    else
      longest? rules text := by
  rw [longest?, ownReach, reach]
  cases first.pattern.longest? text with
  | none => rfl
  | some own =>
      cases longest? rules text with
      | none => simp
      | some found => simp

theorem reach_cons : reach (first :: rules) text =
    max (ownReach first.pattern text) (reach rules text) := by
  rw [reach, longest?_cons]
  split
  · rename_i longer
    exact (Nat.max_eq_left longer.2).symm
  · rename_i notLonger
    rw [← reach]
    omega

/-- No rule matches a longer text than the one that is found. -/
theorem length_le_reach {other : TokenRule} (isRule : other ∈ rules) (isPrefix : front <+: text)
    (frontMatches : other.pattern.Matches front) : front.length ≤ reach rules text := by
  induction rules with
  | nil => cases isRule
  | cons first rules induction =>
      rw [reach_cons]
      rcases List.mem_cons.mp isRule with rfl | isOther
      · exact Nat.le_trans (length_le_ownReach isPrefix frontMatches) (Nat.le_max_left _ _)
      · exact Nat.le_trans (induction isOther) (Nat.le_max_right _ _)

/-- The rule that is found is the first one with a match of that length. -/
theorem first_of_longest? (found : longest? rules text = some (rule, length)) :
    rule.pattern.longest? text = some length ∧ ∃ before behind, rules = before ++ rule :: behind ∧
      ∀ other ∈ before, ownReach other.pattern text < length := by
  induction rules with
  | nil => cases found
  | cons first rules induction =>
      rw [longest?_cons] at found
      split at found
      · rename_i longer
        cases found
        refine ⟨?_, [], rules, rfl, fun other impossible => by cases impossible⟩
        have positive := longer.1
        unfold ownReach at positive ⊢
        cases own : rule.pattern.longest? text with
        | none =>
            rw [own] at positive
            exact absurd positive (Nat.lt_irrefl 0)
        | some length => rfl
      · rename_i notLonger
        obtain ⟨isLongest, before, behind, split, shorter⟩ := induction found
        refine ⟨isLongest, first :: before, behind, by rw [split]; rfl, ?_⟩
        intro other isBefore
        rcases List.mem_cons.mp isBefore with rfl | isBefore
        · have positive := longest?_positive found
          have isReach : reach rules text = length := by rw [reach, found]; rfl
          omega
        · exact shorter other isBefore

theorem takes_of_longest? {grammar : Grammar}
    (found : longest? grammar.rules text = some (rule, length)) :
    Takes grammar.rules rule (text.take length) text := by
  obtain ⟨isLongest, before, behind, split, shorter⟩ := first_of_longest? found
  obtain ⟨inside, spanMatches⟩ := matches_take_of_longest? isLongest
  have lengthTake : (text.take length).length = length := List.length_take_of_le inside
  refine ⟨List.take_prefix _ _, ?_, spanMatches, ?_, ?_, before, behind, split, ?_⟩
  · intro isNil
    have positive := longest?_positive found
    rw [isNil] at lengthTake
    exact Nat.ne_of_lt positive lengthTake
  · rw [preferred?_eq_longest?_of_mem (longest?_mem found), isLongest, lengthTake]
  · intro other isRule front isPrefix frontMatches
    have isReach : reach grammar.rules text = length := by rw [reach, found]; rfl
    rw [lengthTake, ← isReach]
    exact length_le_reach isRule isPrefix frontMatches
  · intro other isBefore front isPrefix frontMatches
    rw [lengthTake]
    exact Nat.lt_of_le_of_lt (length_le_ownReach isPrefix frontMatches) (shorter other isBefore)

/-- A rule is found if no rule goes further, and none before it as far. -/
theorem longest?_of_first {before behind : List TokenRule}
    (positive : 0 < ownReach rule.pattern text)
    (shorter : ∀ other ∈ before, ownReach other.pattern text < ownReach rule.pattern text)
    (noLonger : ∀ other ∈ behind, ownReach other.pattern text ≤ ownReach rule.pattern text) :
    longest? (before ++ rule :: behind) text = some (rule, ownReach rule.pattern text) := by
  induction before with
  | nil =>
      have bound : reach behind text ≤ ownReach rule.pattern text := by
        clear shorter
        induction behind with
        | nil => exact Nat.zero_le _
        | cons other behind induction =>
            have ⟨own, others⟩ := List.forall_mem_cons.mp noLonger
            rw [reach_cons]
            exact Nat.max_le.mpr ⟨own, induction others⟩
      rw [List.nil_append, longest?_cons, if_pos ⟨positive, bound⟩]
  | cons other before induction =>
      have ⟨own, others⟩ := List.forall_mem_cons.mp shorter
      have found := induction others
      have isReach : reach (before ++ rule :: behind) text = ownReach rule.pattern text := by
        rw [reach, found]
        rfl
      have notOwn : ¬ (0 < ownReach other.pattern text ∧
          reach (before ++ rule :: behind) text ≤ ownReach other.pattern text) := by omega
      rw [List.cons_append, longest?_cons, if_neg notOwn, found]

theorem ownReach_lt {pattern : Pattern} {bound : Nat} (positive : 0 < bound)
    (shorter : ∀ front, front <+: text → pattern.Matches front → front.length < bound) :
    ownReach pattern text < bound := by
  unfold ownReach
  cases found : pattern.longest? text with
  | none => exact positive
  | some length =>
      obtain ⟨inside, frontMatches⟩ := matches_take_of_longest? found
      have isShorter := shorter _ (List.take_prefix length text) frontMatches
      rw [List.length_take_of_le inside] at isShorter
      exact isShorter

theorem longest?_of_bounded {before behind : List TokenRule} {span : List Char}
    (isPrefix : span <+: text) (nonempty : span ≠ []) (spanMatches : rule.pattern.Matches span)
    (longest : ∀ other ∈ before ++ rule :: behind, ∀ front, front <+: text →
      other.pattern.Matches front → front.length ≤ span.length)
    (first : ∀ other ∈ before, ∀ front, front <+: text → other.pattern.Matches front →
      front.length < span.length) :
    longest? (before ++ rule :: behind) text = some (rule, span.length) := by
  have positive : 0 < span.length := List.length_pos_iff.mpr nonempty
  have noLonger : ∀ other ∈ before ++ rule :: behind,
      ownReach other.pattern text ≤ span.length := fun other isRule =>
    Nat.le_of_lt_succ (ownReach_lt (Nat.succ_pos _) fun front isPrefix frontMatches =>
      Nat.lt_succ_of_le (longest other isRule front isPrefix frontMatches))
  have own : ownReach rule.pattern text = span.length :=
    Nat.le_antisymm (noLonger rule (by simp)) (length_le_ownReach isPrefix spanMatches)
  rw [← own]
  refine longest?_of_first (own ▸ positive) ?_ ?_
  · intro other isBefore
    rw [own]
    exact ownReach_lt positive (first other isBefore)
  · intro other isBehind
    rw [own]
    exact noLonger other (by simp [isBehind])

/-- The rule that takes a span is the one that is found. -/
theorem longest?_of_takes {span : List Char} (takes : Takes rules rule span text) :
    longest? rules text = some (rule, span.length) := by
  obtain ⟨before, behind, rfl, first⟩ := takes.first
  exact longest?_of_bounded takes.isPrefix takes.nonempty takes.spanMatches takes.longest first

/-- A span is taken if no match goes on behind it, and no rule before matches it. -/
theorem longest?_of_ends {before behind : List TokenRule} {span back : List Char}
    (nonempty : span ≠ []) (spanMatches : rule.pattern.Matches span)
    (ends : ∀ other ∈ before ++ rule :: behind, ∀ more, more <+: back →
      other.pattern.Matches (span ++ more) → more = [])
    (first : ∀ other ∈ before, ¬ other.pattern.Matches span) :
    longest? (before ++ rule :: behind) (span ++ back) = some (rule, span.length) := by
  have covers : ∀ other ∈ before ++ rule :: behind, ∀ front, front <+: span ++ back →
      other.pattern.Matches front → span.length ≤ front.length → front = span := by
    intro other isRule front isPrefix frontMatches longer
    obtain ⟨more, rfl⟩ :=
      List.prefix_of_prefix_length_le (List.prefix_append span back) isPrefix longer
    have isBack : more <+: back := (List.prefix_append_right_inj span).mp isPrefix
    rw [ends other isRule more isBack frontMatches, List.append_nil]
  refine longest?_of_bounded (List.prefix_append span back) nonempty spanMatches ?_ ?_
  · intro other isRule front isPrefix frontMatches
    refine Nat.le_of_not_lt fun longer => ?_
    rw [covers other isRule front isPrefix frontMatches (Nat.le_of_lt longer)] at longer
    exact Nat.lt_irrefl _ longer
  · intro other isBefore front isPrefix frontMatches
    refine Nat.lt_of_not_le fun longer => first other isBefore ?_
    rw [← covers other (by simp [isBefore]) front isPrefix frontMatches longer]
    exact frontMatches

/-- A span that a rule takes is taken in the same way before another text on which no match goes
on. -/
theorem Takes.longest?_before {span after back : List Char}
    (takes : Takes rules rule span (span ++ after))
    (ends : ∀ other ∈ rules, ∀ more, more <+: back → other.pattern.Matches (span ++ more) →
      more = []) : longest? rules (span ++ back) = some (rule, span.length) := by
  obtain ⟨before, behind, rfl, first⟩ := takes.first
  refine longest?_of_ends takes.nonempty takes.spanMatches ends ?_
  intro other isBefore spanMatches
  exact Nat.lt_irrefl _ (first other isBefore span takes.isPrefix spanMatches)

/-- No match goes on behind a span that a rule takes. -/
theorem Takes.eq_nil {span after more : List Char} {other : TokenRule}
    (takes : Takes rules rule span (span ++ after)) (isRule : other ∈ rules)
    (isPrefix : more <+: after) (found : other.pattern.Matches (span ++ more)) : more = [] := by
  have bound := takes.longest other isRule (span ++ more)
    ((List.prefix_append_right_inj span).mpr isPrefix) found
  rw [List.length_append] at bound
  exact List.length_eq_zero_iff.mp (by omega)

/-- A span is taken by the only rule with a match that covers it. -/
theorem longest?_of_unique {span : List Char} (isRule : rule ∈ rules) (isPrefix : span <+: text)
    (nonempty : span ≠ []) (spanMatches : rule.pattern.Matches span)
    (unique : ∀ taker ∈ rules, ∀ more, span ++ more <+: text →
      taker.pattern.Matches (span ++ more) → taker = rule ∧ more = []) :
    longest? rules text = some (rule, span.length) := by
  have positive : 0 < span.length := List.length_pos_iff.mpr nonempty
  have bound := length_le_reach isRule isPrefix spanMatches
  cases found : longest? rules text with
  | none =>
      rw [reach, found] at bound
      exact absurd positive (Nat.not_lt.mpr bound)
  | some pair =>
      obtain ⟨taker, length⟩ := pair
      obtain ⟨inside, takenMatches⟩ := matches_take_of_longest? (first_of_longest? found).1
      have isLength := List.length_take_of_le inside
      have taken := List.take_prefix length text
      generalize text.take length = word at isLength takenMatches taken
      rw [reach, found, ← isLength] at bound
      obtain ⟨more, rfl⟩ := List.prefix_of_prefix_length_le isPrefix taken bound
      obtain ⟨rfl, rfl⟩ := unique taker (longest?_mem found) more taken takenMatches
      rw [← isLength, List.append_nil]

end TokenRule

end TreeQuery
