import TreeQuery.Proofs.Expr.Scanning
import TreeQuery.Proofs.Selector.Units

/-!
The arguments of functions.

A selector or an expression in the parentheses of a function is read back as it stands: the scan
for the end of the argument crosses it, and only the outer parentheses are taken off.
-/

namespace TreeQuery

/-- The selector with an expression in the parentheses of an `:expr(…)`. -/
def exprSelector (inner : String) : String :=
  ":expr(" ++ inner ++ ")"

theorem exprSelector_eq (inner : String) : exprSelector inner = functionSelector "expr" inner := rfl

namespace Level

variable {name inner : String} {tokens : List Token} {test : Test} {expr : Expr}

theorem innerText_parentheses (inner : String) : innerText ("(" ++ inner ++ ")") = inner := by
  have spelled : ("(" ++ inner ++ ")").toList = '(' :: (inner.toList ++ [')']) := by simp
  rw [innerText, spelled, Arguments.strip, Arguments.stripOpening, Arguments.stripClosing,
    if_pos (by simp), List.dropLast_concat, String.ofList_toList]

theorem functionTest_has (lexed : tokenize .selector inner = .ok tokens) (nonempty : tokens ≠ []) :
    functionTest "has" inner = .ok (.has tokens) := by
  unfold functionTest hasTest selectorTokens
  simp [lexed]

theorem functionTest_expr (parsed : Expr.ofText inner = .ok expr) :
    functionTest "expr" inner = .ok (.expr expr) := by
  unfold functionTest
  simp [parsed]

/-- A function is a level of one test. -/
theorem read_function (scope : PackageScope) (reads : functionTest name inner = .ok test)
    (position argumentPosition : Nat) :
    read scope [⟨.pseudoClassFunction, name, position⟩,
      ⟨.arguments, "(" ++ inner ++ ")", argumentPosition⟩] = .ok ([test], []) := by
  rw [← innerText_parentheses inner] at reads
  exact read_unit (.function rfl rfl reads) [] (by simp)

theorem reads_hasSelector (scope : PackageScope) (lexed : tokenize .selector inner = .ok tokens)
    (nonempty : tokens ≠ []) :
    ∃ outer, tokenize .selector (hasSelector inner) = .ok outer ∧
      read scope outer = .ok ([.has tokens], []) := by
  rw [hasSelector_eq]
  exact ⟨_, tokenize_functionSelector (by simp) (crosses_of_tokenize lexed),
    read_function scope (functionTest_has lexed nonempty) _ _⟩

/-- A selector with a token is the whole argument of a `:has(…)` around it, and an expression that
of an `:expr(…)`. Either is lexed as two tokens and read as one test, of the argument alone. -/
theorem read_arguments (scope : PackageScope) :
    (∀ inner tokens, tokenize .selector inner = .ok tokens → tokens ≠ [] →
      ∃ function argument, tokenize .selector (hasSelector inner) = .ok [function, argument] ∧
        function.content = (.pseudoClassFunction, "has") ∧
          argument.content = (.arguments, "(" ++ inner ++ ")") ∧
            read scope [function, argument] = .ok ([.has tokens], [])) ∧
      ∀ inner expr, Expr.ofText inner = .ok expr →
        ∃ function argument, tokenize .selector (exprSelector inner) = .ok [function, argument] ∧
          function.content = (.pseudoClassFunction, "expr") ∧
            argument.content = (.arguments, "(" ++ inner ++ ")") ∧
              read scope [function, argument] = .ok ([.expr expr], []) := by
  refine ⟨?_, ?_⟩
  · intro inner tokens lexed nonempty
    have isName : "has" ∈ ["has", "expr", "val", "contains"] := by simp
    have outerLexed := tokenize_functionSelector isName (crosses_of_tokenize lexed)
    exact ⟨_, _, outerLexed, rfl, rfl,
      read_function scope (functionTest_has lexed nonempty) _ _⟩
  · intro inner expr parsed
    have isName : "expr" ∈ ["has", "expr", "val", "contains"] := by simp
    have outerLexed := tokenize_functionSelector isName (Expr.crosses_of_ofText parsed)
    exact ⟨_, _, outerLexed, rfl, rfl, read_function scope (functionTest_expr parsed) _ _⟩

/-- Parentheses and quotes in strings, and functions and groups inside. -/
theorem read_arguments_nested :
    (∃ function argument, tokenize .selector (hasSelector ".\")\\\"(\" :expr(x = \"(\") ") =
        .ok [function, argument] ∧
      function.content = (.pseudoClassFunction, "has") ∧
        argument.content = (.arguments, "(" ++ ".\")\\\"(\" :expr(x = \"(\") " ++ ")") ∧
          read ⟨"", []⟩ [function, argument] = .ok ([.has [⟨.identifier, ")\"(", 0⟩,
            ⟨.operator, " ", 7⟩, ⟨.pseudoClassFunction, "expr", 8⟩,
              ⟨.arguments, "(x = \"(\")", 13⟩]], [])) ∧
      ∃ function argument, tokenize .selector (exprSelector "x=(\")\")") =
          .ok [function, argument] ∧
        function.content = (.pseudoClassFunction, "expr") ∧
          argument.content = (.arguments, "(" ++ "x=(\")\")" ++ ")") ∧
            read ⟨"", []⟩ [function, argument] =
              .ok ([.expr (.binary .equal .current (.string ")"))], []) := by
  have parsed : Expr.ofText "x=(\")\")" = .ok (.binary .equal .current (.string ")")) := by
    have lexed : tokenize .expression "x=(\")\")" = .ok [⟨.current, "x", 0⟩,
        ⟨.binaryOperator, "=", 1⟩, ⟨.leftParen, "(", 2⟩, ⟨.string, ")", 3⟩,
        ⟨.rightParen, ")", 6⟩] := by decide +kernel
    have inGroup : Expr.Phrase (0 + 7) [⟨.string, ")", 3⟩] (.string ")") := .atom (.string rfl)
    have group : Expr.Phrase (3 + 4) [⟨.leftParen, "(", 2⟩, ⟨.string, ")", 3⟩,
        ⟨.rightParen, ")", 6⟩] (.string ")") := .group rfl (inGroup.looser (by decide)) rfl
    have current : Expr.Phrase (2 + 5) [⟨.current, "x", 0⟩] .current := .atom (.current rfl)
    have equation : Expr.Phrase BinaryOperator.equal.tier ([⟨.current, "x", 0⟩] ++
        ⟨.binaryOperator, "=", 1⟩ ::
          [⟨.leftParen, "(", 2⟩, ⟨.string, ")", 3⟩, ⟨.rightParen, ")", 6⟩])
        (.binary .equal .current (.string ")")) :=
      .binary rfl rfl (current.looser (by decide)) (group.looser (by decide))
    rw [Expr.ofText, lexed]
    exact Expr.parse_of_phrase (.tighter (by decide) (.tighter (by decide) equation))
  exact ⟨(read_arguments ⟨"", []⟩).1 _ _ (by decide +kernel) (by simp),
    (read_arguments ⟨"", []⟩).2 _ _ parsed⟩

end Level

end TreeQuery
