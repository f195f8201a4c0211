import TreeQuery.Proofs.Token.Operators

/-!
How the tokens of selectors are spelled.

Each kind of token is spelled in one or two ways, and its value is part of its text. Only operators
have two values to one text: white space counts for nothing beside a sign, and for a space alone.
-/

namespace TreeQuery

open TokenRule

/-- The texts of the tokens of a kind and a value. -/
inductive Spelling : List Char → TokenKind → String → Prop where
  | argument {span : List Char} (opens : span.head? = some '(')
      (closes : ∀ behind, Arguments.split? (span ++ behind) = some (span, behind)) :
      Spelling span .arguments (String.ofList span)
  | star : Spelling ['*'] .operator "*"
  | sign {sign : Char} {before behind : List Char} (isSign : sign ∈ signs)
      (beforeBlank : ∀ c ∈ before, isBlank c = true)
      (behindBlank : ∀ c ∈ behind, isBlank c = true) :
      Spelling (before ++ sign :: behind) .operator (String.ofList [sign])
  | blanks {run : List Char} (nonempty : run ≠ []) (blank : ∀ c ∈ run, isBlank c = true) :
      Spelling run .operator " "
  | kindWord {word : String} (isWord : word ∈ kindWords) : Spelling word.toList .nativeKind word
  | reference {name : List Char} (nonempty : name ≠ [])
      (inside : ∀ c ∈ name, inReference c = true) :
      Spelling ('[' :: (name ++ [']'])) .declaredType (String.ofList name)
  | bareName {dot rest : List Char} {first : Char} (isDot : dot = [] ∨ dot = ['.'])
      (starts : startsName first = true) (continues : ∀ c ∈ rest, continuesName c = true) :
      Spelling (dot ++ first :: rest) .identifier (String.ofList (first :: rest))
  | quotedName {dot text name : List Char} (isDot : dot = [] ∨ dot = ['.'])
      (isQuoted : quoted.Matches text) (decodes : JsonString.decode? text = some name) :
      Spelling (dot ++ text) .identifier (String.ofList name)
  | number {text : List Char} (isNumber : number.Matches text) :
      Spelling text .literal (String.ofList text)
  | colonWord {kind : TokenKind} {words : List String} {word : String}
      (areWords : (kind, words) ∈ colonWords) (isWord : word ∈ words) :
      Spelling (':' :: word.toList) kind word

theorem readValue_name {dot name : List Char} {position : Nat}
    (isDot : dot = [] ∨ dot = ['.']) (notDot : name.head? ≠ some '.') :
    readValue .identifier (dot ++ name) position =
      if name.head? = some '"' then readString name position else .ok (String.ofList name) := by
  rcases isDot with rfl | rfl
  · simp only [readValue, List.nil_append]
    split
    · exact absurd rfl notDot
    · rfl
  · rfl

theorem Token.ReadFrom.spelling {position : Nat} {span after : List Char} {token : Token}
    (read : token.ReadFrom .selector position span after) :
    Spelling span token.kind token.value := by
  cases read with
  | blob _ opens closes => exact .argument opens (Arguments.splitFrom?_before closes)
  | @rule rule kind value notBlob takes isKind reads =>
      have spanMatches := takes.spanMatches
      cases isSelectorRule takes.isRule with
      | star =>
          cases isKind
          obtain ⟨c, rfl, isStar⟩ := Pattern.matches_one_iff.mp spanMatches
          rw [beq_iff_eq.mp isStar] at reads ⊢
          cases reads
          exact .star
      | sign isSign =>
          cases isKind
          obtain ⟨before, behind, rfl, beforeBlank, behindBlank⟩ :=
            matches_spaced_iff.mp spanMatches
          rw [readValue, trimBlank_sign isSign beforeBlank behindBlank] at reads
          cases reads
          exact .sign isSign beforeBlank behindBlank
      | blanks =>
          cases isKind
          obtain ⟨nonempty, blank⟩ := matches_atLeastOnce_one_iff.mp spanMatches
          rw [readValue, trimBlank_of_blank blank] at reads
          cases reads
          exact .blanks nonempty blank
      | kindWord =>
          cases isKind
          obtain ⟨word, isWord, rfl⟩ := exists_of_matches_oneWord spanMatches
          cases reads
          rw [String.ofList_toList]
          exact .kindWord isWord
      | reference =>
          cases isKind
          obtain ⟨name, rfl, nonempty, inside⟩ := exists_of_matches_reference spanMatches
          cases reads
          rw [List.drop_succ_cons, List.drop_zero, List.dropLast_concat]
          exact .reference nonempty inside
      | bareName =>
          cases isKind
          obtain ⟨dot, first, rest, rfl, isDot, starts, continues⟩ :=
            matches_bareName_iff.mp spanMatches
          have notDot : (first :: rest).head? ≠ some '.' := by
            intro isHead
            cases isHead
            exact absurd starts (by decide)
          have notQuote : (first :: rest).head? ≠ some '"' := by
            intro isHead
            cases isHead
            exact absurd starts (by decide)
          rw [readValue_name isDot notDot, if_neg notQuote] at reads
          cases reads
          exact .bareName isDot starts continues
      | quotedName =>
          cases isKind
          obtain ⟨dot, text, rfl, isDot, isQuoted⟩ := exists_of_matches_dotted spanMatches
          obtain ⟨body, rfl, _⟩ := exists_of_matches_quoted isQuoted
          rw [readValue_name isDot (by simp), if_pos List.head?_cons, readString] at reads
          split at reads
          · rename_i name decodes
            cases reads
            exact .quotedName isDot isQuoted decodes
          · cases reads
      | number =>
          cases isKind
          cases reads
          exact .number spanMatches
      | @colonWord kind words areWords =>
          cases isKind
          obtain ⟨word, isWord, rfl⟩ := exists_of_matches_colonWord spanMatches
          have isValue : value = word := by
            simp only [colonWords, List.mem_cons, List.not_mem_nil, or_false, Prod.mk.injEq]
              at areWords
            rcases areWords with ⟨rfl, _⟩ | ⟨rfl, _⟩ | ⟨rfl, _⟩ <;> cases reads <;>
              exact String.ofList_toList
          rw [isValue]
          exact .colonWord areWords isWord

end TreeQuery
