import TreeQuery.Query.Trace
import TreeQuery.Selector.Predicate

/-!
Levels: the compounds of predicates between the combinators of a selector.

A level has at most one predicate of each category, in a fixed order of the categories. Each
category has a reader that either takes its predicate off the front of the tokens or passes, and
what no reader takes is left for the next level.
-/

namespace TreeQuery

namespace Level

/-- A predicate whose inner selectors are still tokens. -/
abbrev Test := Predicate (List Token)

/-- Takes a predicate of one category and its tokens off the front, or passes. -/
abbrev Reader := PackageScope → List Token → Except QueryError (Option (Test × List Token))

/-! ## Arguments -/

/-- The argument that has to follow a function, parentheses included, and the tokens after it. -/
def argument (name : String) : List Token → Except QueryError (String × List Token)
  | token :: rest =>
      if token.kind = .arguments then .ok (token.value, rest) else .error (.missingArgument name)
  | [] => .error (.missingArgument name)

def innerText (argument : String) : String :=
  String.ofList (Arguments.strip argument.toList)

def selectorTokens (text : String) : Except QueryError (List Token) :=
  match tokenize .selector text with
  | .ok tokens => .ok tokens
  | .error error => .error (.lex error)

/-- Whether a token can be the argument of `:contains(…)` or `:val(…)`. -/
def isLiteral (token : Token) : Bool :=
  token.kind = .identifier || token.kind = .literal || token.kind = .nativeKind

/-- The first token of an argument that has to be a literal. -/
def literal (name inner : String) : Except QueryError Token :=
  match selectorTokens inner with
  | .error error => .error error
  | .ok [] => .error (.missingArgument name)
  | .ok (token :: _) => if isLiteral token then .ok token else .error (.missingArgument name)

/-- The canonical text of a literal: numbers are written as values are, all else is kept. -/
def literalText (token : Token) : String :=
  if token.kind = .literal then
    match Number.ofText? token.value with
    | some number => number.canonicalText
    | none => token.value
  else
    token.value

/-! ## Readers -/

def native : Reader := fun _ tokens =>
  match tokens with
  | token :: rest =>
      if token.kind = .nativeKind then
        match Kind.ofWord? token.value with
        | some kind => .ok (some (.native kind, rest))
        | none => .error (.noSelector token.position)
      else
        .ok none
  | [] => .ok none

def declared : Reader := fun scope tokens =>
  match tokens with
  | token :: rest =>
      if token.kind = .declaredType then
        match scope.resolve token.value with
        | .ok reference => .ok (some (.declared reference, rest))
        | .error error => .error (.resolve error)
      else
        .ok none
  | [] => .ok none

def key : Reader := fun _ tokens =>
  match tokens with
  | token :: rest =>
      if token.kind = .identifier then .ok (some (.key token.value, rest)) else .ok none
  | [] => .ok none

def pseudoClass : Reader := fun _ tokens =>
  match tokens with
  | token :: rest =>
      if token.kind = .pseudoClass then
        match PseudoClass.ofWord? token.value with
        | some pseudoClass => .ok (some (.pseudoClass pseudoClass, rest))
        | none => .error (.unknownPseudoClass token.value)
      else
        .ok none
  | [] => .ok none

/-- Whether the function of a name counts from the end. -/
def nthDirection (name : String) : Except QueryError Bool :=
  match name with
  | "nth-child" => .ok false
  | "nth-last-child" => .ok true
  | other => .error (.unknownPseudoClass other)

/-- The test of an `:nth-child(…)` or `:nth-last-child(…)`. -/
def nthTest (name argument : String) : Except QueryError Test :=
  match nthDirection name with
  | .error error => .error error
  | .ok fromEnd =>
      match Nth.read argument fromEnd with
      | .ok nth => .ok (.nth nth)
      | .error error => .error (.nth error)

def nth : Reader := fun _ tokens =>
  match tokens with
  | token :: rest =>
      if token.kind = .nthFunction then
        match argument token.value rest with
        | .error error => .error error
        | .ok (text, after) =>
            match nthTest token.value text with
            | .ok test => .ok (some (test, after))
            | .error error => .error error
      else
        .ok none
  | [] => .ok none

/-- The test of `:has(…)`: the inner selector has to have a token. -/
def hasTest (inner : String) : Except QueryError Test :=
  match selectorTokens inner with
  | .ok [] => .error (.missingArgument "has")
  | .ok tokens => .ok (.has tokens)
  | .error error => .error error

def functionTest (name inner : String) : Except QueryError Test :=
  match name with
  | "has" => hasTest inner
  | "contains" => (literal name inner).map fun token => .contains token.value
  | "val" => (literal name inner).map fun token => .val (literalText token)
  | "expr" =>
      match Expr.ofText inner with
      | .ok expr => .ok (.expr expr)
      | .error error => .error (.expr error)
  | other => .error (.unknownPseudoClass other)

def function : Reader := fun _ tokens =>
  match tokens with
  | token :: rest =>
      if token.kind = .pseudoClassFunction then
        match argument token.value rest with
        | .error error => .error error
        | .ok (text, after) =>
            match functionTest token.value (innerText text) with
            | .ok test => .ok (some (test, after))
            | .error error => .error error
      else
        .ok none
  | [] => .ok none

def universal : Reader := fun _ tokens =>
  match tokens with
  | token :: rest => if token.isOperator "*" then .ok (some (.universal, rest)) else .ok none
  | [] => .ok none

def readers : List Reader :=
  [native, declared, key, pseudoClass, nth, function, universal]

/-! ## Reading a level -/

/-- Runs readers one after another over the tokens that are left. -/
def collect (scope : PackageScope) :
    List Reader → List Token → Except QueryError (List Test × List Token)
  | [], tokens => .ok ([], tokens)
  | reader :: readers, tokens =>
      match reader scope tokens with
      | .error error => .error error
      | .ok none => collect scope readers tokens
      | .ok (some (test, rest)) =>
          match collect scope readers rest with
          | .error error => .error error
          | .ok (tests, after) => .ok (test :: tests, after)

/-- Reads the level at the front of the tokens, which has to have a predicate, and answers with
the tokens that are left too. -/
def read (scope : PackageScope) (tokens : List Token) :
    Except QueryError (List Test × List Token) :=
  match collect scope readers tokens with
  | .error error => .error error
  | .ok ([], _) => .error (.noSelector ((tokens.head?.map Token.position).getD 0))
  | .ok (tests, rest) => .ok (tests, rest)

/-! ## Weights

A level takes tokens away, and the inner selectors that it reads weigh less than the tokens it
read them from.
-/

/-- A reader takes off at least one token, and what it reads is lighter than what it is given. -/
def Lightens (reader : Reader) : Prop :=
  ∀ (scope : PackageScope) (tokens : List Token) (test : Test) (rest : List Token),
    reader scope tokens = .ok (some (test, rest)) →
      tokensWeight rest < tokensWeight tokens ∧
        ∀ inner, test = .has inner → tokensWeight inner < tokensWeight tokens

theorem weight_argument {name text : String} {tokens rest : List Token}
    (found : argument name tokens = .ok (text, rest)) :
    tokensWeight tokens = text.toList.length + tokensWeight rest := by
  unfold argument at found
  split at found
  · split at found
    · rename_i isArguments
      cases found
      simp [Token.weight, isArguments]
    · cases found
  · cases found

theorem weight_functionTest {name text : String} {inner : List Token}
    (found : functionTest name (innerText text) = .ok (.has inner)) :
    tokensWeight inner ≤ text.toList.length := by
  unfold functionTest at found
  split at found
  · unfold hasTest at found
    split at found
    · cases found
    · rename_i tokens _ lexed
      cases found
      unfold selectorTokens at lexed
      split at lexed
      · rename_i tokenized
        cases lexed
        refine Nat.le_trans (tokensWeight_tokenize tokenized) ?_
        simp only [innerText, String.toList_ofList]
        exact Arguments.strip_length_le _
      · cases lexed
    · cases found
  · cases lexed : literal "contains" (innerText text) <;> rw [lexed] at found <;> cases found
  · cases lexed : literal "val" (innerText text) <;> rw [lexed] at found <;> cases found
  · split at found <;> cases found
  · cases found

/-- A reader that takes a single token, which is no argument, has no inner selector to read. -/
theorem lightens_of_token {reader : Reader}
    (takes : ∀ {scope : PackageScope} {tokens : List Token} {test : Test} {rest : List Token},
      reader scope tokens = .ok (some (test, rest)) →
        ∃ token, tokens = token :: rest ∧ token.kind ≠ .arguments ∧ ∀ inner, test ≠ .has inner) :
    Lightens reader := by
  intro scope tokens test rest wasRead
  obtain ⟨token, rfl, notArgument, notHas⟩ := takes wasRead
  refine ⟨?_, fun inner isHas => absurd isHas (notHas inner)⟩
  simp [Token.weight, notArgument]

/-- A reader of an argument takes it with the token before it, and may read an inner selector in
the argument. -/
theorem lightens_of_argument {reader : Reader}
    (takes : ∀ {scope : PackageScope} {tokens : List Token} {test : Test} {rest : List Token},
      reader scope tokens = .ok (some (test, rest)) →
        ∃ token behind text, tokens = token :: behind ∧ token.kind ≠ .arguments ∧
          argument token.value behind = .ok (text, rest) ∧
            ∀ inner, test = .has inner → tokensWeight inner ≤ text.toList.length) :
    Lightens reader := by
  intro scope tokens test rest wasRead
  obtain ⟨token, behind, text, rfl, notArgument, found, inArgument⟩ := takes wasRead
  have taken := weight_argument found
  have one : token.weight = 1 := by simp [Token.weight, notArgument]
  rw [tokensWeight_cons, one]
  refine ⟨by omega, fun inner isHas => ?_⟩
  have lighter := inArgument inner isHas
  omega

theorem lightens_native : Lightens native := by
  apply lightens_of_token
  intro scope tokens test rest wasRead
  unfold native at wasRead
  split at wasRead
  · split at wasRead
    · rename_i kind
      split at wasRead <;> cases wasRead
      exact ⟨_, rfl, by simp [kind], by simp⟩
    · cases wasRead
  · cases wasRead

theorem lightens_declared : Lightens declared := by
  apply lightens_of_token
  intro scope tokens test rest wasRead
  unfold declared at wasRead
  split at wasRead
  · split at wasRead
    · rename_i kind
      split at wasRead <;> cases wasRead
      exact ⟨_, rfl, by simp [kind], by simp⟩
    · cases wasRead
  · cases wasRead

theorem lightens_key : Lightens key := by
  apply lightens_of_token
  intro scope tokens test rest wasRead
  unfold key at wasRead
  split at wasRead
  · split at wasRead
    · rename_i kind
      cases wasRead
      exact ⟨_, rfl, by simp [kind], by simp⟩
    · cases wasRead
  · cases wasRead

theorem lightens_pseudoClass : Lightens pseudoClass := by
  apply lightens_of_token
  intro scope tokens test rest wasRead
  unfold pseudoClass at wasRead
  split at wasRead
  · split at wasRead
    · rename_i kind
      split at wasRead <;> cases wasRead
      exact ⟨_, rfl, by simp [kind], by simp⟩
    · cases wasRead
  · cases wasRead

theorem lightens_universal : Lightens universal := by
  apply lightens_of_token
  intro scope tokens test rest wasRead
  unfold universal at wasRead
  split at wasRead
  · split at wasRead
    · rename_i isStar
      cases wasRead
      simp only [Token.isOperator, Bool.and_eq_true, decide_eq_true_eq] at isStar
      exact ⟨_, rfl, by simp [isStar.1], by simp⟩
    · cases wasRead
  · cases wasRead

/-- Positions are no selectors. -/
theorem nthTest_ne_has {name text : String} {inner : List Token} :
    nthTest name text ≠ .ok (.has inner) := by
  intro read
  unfold nthTest at read
  split at read
  · cases read
  · split at read <;> cases read

theorem lightens_nth : Lightens nth := by
  apply lightens_of_argument
  intro scope tokens test rest wasRead
  unfold nth at wasRead
  split at wasRead
  · split at wasRead
    · rename_i kind
      split at wasRead
      · cases wasRead
      · rename_i found
        split at wasRead <;> cases wasRead
        rename_i read
        refine ⟨_, _, _, rfl, by simp [kind], found, fun inner isHas => ?_⟩
        rw [isHas] at read
        exact absurd read nthTest_ne_has
    · cases wasRead
  · cases wasRead

theorem lightens_function : Lightens function := by
  apply lightens_of_argument
  intro scope tokens test rest wasRead
  unfold function at wasRead
  split at wasRead
  · split at wasRead
    · rename_i kind
      split at wasRead
      · cases wasRead
      · rename_i found
        split at wasRead <;> cases wasRead
        rename_i read
        refine ⟨_, _, _, rfl, by simp [kind], found, fun inner isHas => ?_⟩
        rw [isHas] at read
        exact weight_functionTest read
    · cases wasRead
  · cases wasRead

theorem lightens_readers : ∀ reader ∈ readers, Lightens reader := by
  intro reader member
  simp only [readers, List.mem_cons, List.not_mem_nil, or_false] at member
  rcases member with rfl | rfl | rfl | rfl | rfl | rfl | rfl
  · exact lightens_native
  · exact lightens_declared
  · exact lightens_key
  · exact lightens_pseudoClass
  · exact lightens_nth
  · exact lightens_function
  · exact lightens_universal

theorem weight_collect {scope : PackageScope} {readers : List Reader} {tokens rest : List Token}
    {tests : List Test} (lighten : ∀ reader ∈ readers, Lightens reader)
    (collected : collect scope readers tokens = .ok (tests, rest)) :
    tokensWeight rest ≤ tokensWeight tokens ∧
      (tests ≠ [] → tokensWeight rest < tokensWeight tokens) ∧
      ∀ inner, Predicate.has inner ∈ tests → tokensWeight inner < tokensWeight tokens := by
  induction readers generalizing tokens tests with
  | nil =>
      cases collected
      simp
  | cons reader readers induction =>
      have others : ∀ reader ∈ readers, Lightens reader :=
        fun reader member => lighten reader (List.mem_cons_of_mem _ member)
      simp only [collect] at collected
      split at collected
      · cases collected
      · exact induction others collected
      · rename_i test after wasRead
        split at collected
        · cases collected
        · rename_i later _ collectedLater
          cases collected
          have ⟨shorter, lighter⟩ := lighten reader List.mem_cons_self _ _ _ _ wasRead
          have ⟨notLonger, _, innerLighter⟩ := induction others collectedLater
          refine ⟨by omega, fun _ => by omega, ?_⟩
          intro inner member
          rcases List.mem_cons.mp member with isHas | laterMember
          · exact lighter inner isHas.symm
          · have := innerLighter inner laterMember
            omega

theorem weight_read {scope : PackageScope} {tokens rest : List Token} {tests : List Test}
    (wasRead : read scope tokens = .ok (tests, rest)) :
    tokensWeight rest < tokensWeight tokens ∧
      ∀ inner, Predicate.has inner ∈ tests → tokensWeight inner < tokensWeight tokens := by
  unfold read at wasRead
  split at wasRead
  · cases wasRead
  · cases wasRead
  · rename_i notEmpty collected
    cases wasRead
    have ⟨_, shorter, lighter⟩ := weight_collect lightens_readers collected
    exact ⟨shorter (fun empty => notEmpty empty), lighter⟩

end Level

end TreeQuery
