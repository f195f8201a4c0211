import TreeQuery.Proofs.Token.Rendering

/-!
Literals and functions as selectors of their own.

The literals of JSON strings are names in quotes. A text that is read as one token, with no white
space at its ends, is a selector of that token. So the texts of literals are, and the word of a kind
can stand before a function without changing how the function is read.
-/

namespace TreeQuery

open TokenRule

/-! ## Literals as tokens -/

variable {literal name inner : String} {text behind : List Char} {token : Token}

theorem trims_of_hasEnds (ends : hasEnds text = true) : Grammar.selector.Trims [] text [] := by
  obtain ⟨⟨first, isFirst, firstKept⟩, last, isLast, lastKept⟩ := hasEnds_iff.mp ends
  refine ⟨by simp, by simp, fun c isHead => ?_, fun c isEnd => ?_⟩
  · cases isFirst.symm.trans isHead
    exact firstKept
  · cases isLast.symm.trans isEnd
    exact lastKept

theorem hasEnds_append (frontEnds : hasEnds text = true) (backEnds : hasEnds behind = true) :
    hasEnds (text ++ behind) = true := by
  obtain ⟨⟨first, isFirst, firstKept⟩, _⟩ := hasEnds_iff.mp frontEnds
  obtain ⟨_, last, isLast, lastKept⟩ := hasEnds_iff.mp backEnds
  refine hasEnds_iff.mpr ⟨⟨first, ?_, firstKept⟩, last, ?_, lastKept⟩
  · rw [List.head?_append, isFirst, Option.some_or]
  · rw [List.getLast?_append, isLast, Option.some_or]

theorem tokenize_of_isNext (isNext : token.IsNext literal.toList [])
    (ends : hasEnds literal.toList = true) :
    tokenize .selector literal = .ok [⟨token.kind, token.value, 0⟩] := by
  have step := isNext 0
  rw [List.append_nil] at step
  rw [tokenize, Cursor.start_of_kept (trims_of_hasEnds ends), Cursor.tokens_of_next step,
    Cursor.tokens_nil]
  rfl

theorem matches_dotted {pattern : Pattern} {dot : List Char} (isDot : dot = [] ∨ dot = ['.'])
    (found : pattern.Matches text) : (dotted pattern).Matches (dot ++ text) := by
  refine Pattern.matches_seq_iff.mpr ⟨dot, text, rfl, ?_, found⟩
  rcases isDot with rfl | rfl
  · exact .right .done
  · exact .left (.one rfl)

/-- A string literal is a name in quotes, and the dot before a name can be left out. -/
theorem tokenize_quoted {span : String} {dot quotes : List Char} (isDot : dot = [] ∨ dot = ['.'])
    (spelled : span.toList = dot ++ quotes) (decodes : JsonString.decode? quotes = some text) :
    tokenize .selector span = .ok [⟨.identifier, String.ofList text, 0⟩] := by
  have isQuoted := matches_isLiteral (JsonString.decode?_iff.mp decodes)
  obtain ⟨body, isText, isBody⟩ := exists_of_matches_quoted isQuoted
  have isHead : quotes.head? = some '"' := by rw [isText, List.head?_cons]
  have isLast : (dot ++ quotes).getLast? = some '"' := by
    rw [List.getLast?_append, isText, List.getLast?_cons, isBody.getLast?, Option.getD_some,
      Option.some_or]
  have reads : readValue .identifier (dot ++ quotes) 0 = .ok (String.ofList text) := by
    rw [readValue_name isDot (by simp [isHead]), if_pos isHead, readString, decodes]
  have isNext : Token.IsNext ⟨.identifier, String.ofList text, 0⟩ (dot ++ quotes) [] :=
    .of_quoted rfl (matches_dotted isDot isQuoted) reads
  rw [← spelled] at isNext isLast
  refine tokenize_of_isNext isNext (hasEnds_iff.mpr ⟨?_, '"', isLast, by decide⟩)
  rw [spelled]
  rcases isDot with rfl | rfl
  · exact ⟨'"', isHead, by decide⟩
  · exact ⟨'.', rfl, by decide⟩

theorem tokenize_string (decodes : JsonString.decode? literal.toList = some text) :
    tokenize .selector literal = .ok [⟨.identifier, String.ofList text, 0⟩] :=
  tokenize_quoted (.inl rfl) rfl decodes

theorem tokenize_key (decodes : JsonString.decode? literal.toList = some text) :
    tokenize .selector ("." ++ literal) = .ok [⟨.identifier, String.ofList text, 0⟩] :=
  tokenize_quoted (.inr rfl) String.toList_append decodes

theorem tokenize_number (isNumber : number.Matches literal.toList) :
    tokenize .selector literal = .ok [⟨.literal, literal, 0⟩] := by
  have nonempty := ne_nil_of_number isNumber
  obtain ⟨first, rest, spelled⟩ := List.exists_cons_of_ne_nil nonempty
  obtain ⟨front, last, ended, isDigit⟩ := (isNumberText_of_matches isNumber).endsWithDigit
  have isHead : first ∈ numberHeads :=
    mem_numberHeads_of_starts (Pattern.starts_of_matches isNumber spelled)
  have notOpening : literal.toList.head? ≠ some '(' := by
    rw [spelled, List.head?_cons]
    intro same
    rw [Option.some.inj same] at isHead
    exact absurd isHead (by decide)
  have matched := longest?_of_unique IsSelectorRule.number.mem
    (List.prefix_append literal.toList []) nonempty isNumber
    fun taker isTaker more isPrefix found => by
      have isNil := (List.prefix_append_right_inj _).mp isPrefix
      exact ⟨rule_of_number isTaker isNumber found, List.prefix_nil.mp isNil⟩
  have reads : readValue .literal literal.toList 0 = .ok literal :=
    congrArg Except.ok String.ofList_toList
  have isNext : Token.IsNext ⟨.literal, literal, 0⟩ literal.toList [] :=
    .of_longest? notOpening nonempty matched rfl reads
  refine tokenize_of_isNext isNext (hasEnds_of_numberHeads ?_ ?_ isHead
    (mem_numberHeads_of_isDigit isDigit))
  · rw [spelled, List.head?_cons]
  · rw [ended, List.getLast?_concat]

/-! ## Functions behind the word of a kind -/

/-- The word of a kind is taken as one token before a colon. -/
theorem longest?_kindWord (kind : Kind) (behind : List Char) :
    longest? selectorRules (kind.word.toList ++ ':' :: behind) =
      some (⟨oneWord kindWords, some .nativeKind⟩, kind.word.toList.length) := by
  have split : kind.word.toList ++ ':' :: behind = kind.word.toList ++ [':'] ++ behind := by simp
  have noRuleGoesOn : ∀ rule ∈ selectorRules,
      rule.pattern.longest? (kind.word.toList ++ [':'] ++ behind) =
        rule.pattern.longest? (kind.word.toList ++ [':']) := by
    intro rule isRule
    refine Pattern.longest?_append behind ?_
    simp only [selectorRules, List.mem_cons, List.not_mem_nil, or_false] at isRule
    cases kind <;>
      rcases isRule with
        rfl | rfl | rfl | rfl | rfl | rfl | rfl | rfl | rfl | rfl | rfl | rfl | rfl <;> rfl
  rw [split, longest?_congr noRuleGoesOn]
  cases kind <;> rfl

theorem Token.IsNext.of_kindWord (kind : Kind) (behind : List Char) :
    Token.IsNext ⟨.nativeKind, kind.word, 0⟩ kind.word.toList (':' :: behind) := by
  have starts : kind.word.toList.head? ≠ some '(' ∧ kind.word.toList ≠ [] := by
    cases kind <;> decide
  have reads : readValue .nativeKind kind.word.toList 0 = .ok kind.word :=
    congrArg Except.ok String.ofList_toList
  exact .of_longest? starts.1 starts.2 (longest?_kindWord kind behind) rfl reads

theorem hasEnds_functionSelector (name inner : String) :
    hasEnds (functionSelector name inner).toList = true := by
  have spelled : (functionSelector name inner).toList =
      ':' :: (name.toList ++ '(' :: inner.toList ++ [')']) := by
    simp [functionSelector]
  rw [spelled]
  refine hasEnds_iff.mpr ⟨⟨':', rfl, by decide⟩, ')', ?_, by decide⟩
  rw [← List.cons_append, List.getLast?_concat]

/-- A function behind the word of a kind is lexed as it is alone. -/
theorem tokenize_kindFunction (kind : Kind) (isName : name ∈ ["has", "expr", "val", "contains"])
    (crosses : Arguments.Crosses .outside .outside inner.toList) :
    ∃ tokens, tokenize .selector (kind.word ++ functionSelector name inner) = .ok tokens ∧
      tokens.map Token.content = [(.nativeKind, kind.word), (.pseudoClassFunction, name),
        (.arguments, "(" ++ inner ++ ")")] := by
  have alone := tokenize_functionSelector isName crosses
  have ends := hasEnds_functionSelector name inner
  rw [tokenize, Cursor.start_of_kept (trims_of_hasEnds ends)] at alone
  obtain ⟨others, lexed, sameContent⟩ :=
    Cursor.tokens_shift rfl alone (0 + byteLength kind.word.toList)
  obtain ⟨behind, isBehind⟩ : ∃ behind, (functionSelector name inner).toList = ':' :: behind :=
    ⟨name.toList ++ '(' :: inner.toList ++ [')'], by simp [functionSelector]⟩
  have first := Token.IsNext.of_kindWord kind behind 0
  rw [← isBehind] at first
  have wordEnds : hasEnds kind.word.toList = true := by
    cases kind <;> decide
  refine ⟨⟨.nativeKind, kind.word, 0⟩ :: others, ?_, ?_⟩
  · rw [tokenize, String.toList_append,
      Cursor.start_of_kept (trims_of_hasEnds (hasEnds_append wordEnds ends)),
      Cursor.tokens_of_next first, lexed]
    rfl
  · rw [List.map_cons, sameContent]
    rfl

end TreeQuery
