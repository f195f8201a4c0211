import TreeQuery.Proofs.Selector.Literals

/-!
Quoting texts into selectors.

Every text has a literal, and it may be any literal of the text: as a name, as the argument of a
predicate and as an operand it stands for the text alone. Quotes, escapes, parentheses, signs and
white space inside it end neither the literal nor the argument around it.
-/

namespace TreeQuery

namespace Level

/-- A selector whose one level has one test. -/
def Builds (scope : PackageScope) (selector : String) (test : Test) : Prop :=
  ∃ tokens, tokenize .selector selector = .ok tokens ∧ read scope tokens = .ok ([test], [])

variable {name inner literal : String} {text : List Char} {test : Test} {tokens : List Token}

theorem builds_key (scope : PackageScope)
    (decodes : JsonString.decode? literal.toList = some text) :
    Builds scope ("." ++ literal) (.key (String.ofList text)) :=
  ⟨_, tokenize_key decodes, read_unit (.key rfl) [] (by simp)⟩

/-- The scan for the end of an argument crosses whatever has tokens of its own. -/
theorem builds_function (scope : PackageScope)
    (isName : name ∈ ["has", "expr", "val", "contains"])
    (lexed : tokenize .selector inner = .ok tokens) (reads : functionTest name inner = .ok test) :
    Builds scope (functionSelector name inner) test :=
  reads_function scope isName (crosses_of_tokenize lexed) reads

theorem builds_expr (scope : PackageScope) {expr : Expr} (parsed : Expr.ofText inner = .ok expr) :
    Builds scope (exprSelector inner) (.expr expr) := by
  rw [exprSelector_eq]
  exact reads_function scope (by simp) (Expr.crosses_of_ofText parsed) (functionTest_expr parsed)

theorem builds_equation (scope : PackageScope)
    (decodes : JsonString.decode? literal.toList = some text) :
    Builds scope (":expr(x = " ++ literal ++ ")")
      (.expr (.binary .equal .current (.string (String.ofList text)))) := by
  have spelled : ":expr(x = " ++ literal ++ ")" = functionSelector "expr"
      ("x " ++ BinaryOperator.equal.symbol ++ " " ++ literal) := by
    simp [← String.toList_inj, functionSelector, BinaryOperator.symbol]
  rw [spelled]
  exact Query.reads_comparison scope .equal (Expr.ofText_current_string .equal decodes)

/-- Every text has a literal, and each of its literals is the text as a name, in a predicate and in
an expression. -/
theorem builds_of_isLiteral (scope : PackageScope) (text : String) :
    (∃ literal : String, JsonString.IsLiteral literal.toList text.toList) ∧
      ∀ literal : String, JsonString.IsLiteral literal.toList text.toList →
        tokenize .selector ("." ++ literal) = .ok [⟨.identifier, text, 0⟩] ∧
          Builds scope (":contains(" ++ literal ++ ")") (.contains text) ∧
            Builds scope (":val(" ++ literal ++ ")") (.val text) ∧
              Builds scope (":expr(x = " ++ literal ++ ")")
                (.expr (.binary .equal .current (.string text))) := by
  refine ⟨⟨String.ofList (JsonString.encode text.toList), ?_⟩, fun literal isLiteral => ?_⟩
  · rw [String.toList_ofList]
    exact JsonString.isLiteral_encode text.toList
  · have decodes := JsonString.decode?_iff.mpr isLiteral
    have isKey := tokenize_key decodes
    have isString := tokenize_string decodes
    have contains := builds_function scope (by simp) isString (functionTest_contains decodes)
    have val := builds_function scope (by simp) isString (functionTest_val_string decodes)
    have equation := builds_equation scope decodes
    rw [String.ofList_toList] at isKey contains val equation
    exact ⟨isKey, contains, val, equation⟩

/-- A surrogate pair, an escaped quote and backslash, parentheses, a comma and white space. -/
theorem builds_of_isLiteral_escapes :
    JsonString.IsLiteral "\"\\ud83d\\uDE00)\\u0022(\\\\\\\" ,\\n\"".toList "😀)\"(\\\" ,\n".toList ∧
      tokenize .selector ("." ++ "\"\\ud83d\\uDE00)\\u0022(\\\\\\\" ,\\n\"") =
        .ok [⟨.identifier, "😀)\"(\\\" ,\n", 0⟩] ∧
      Builds ⟨"", []⟩ (":contains(" ++ "\"\\ud83d\\uDE00)\\u0022(\\\\\\\" ,\\n\"" ++ ")")
        (.contains "😀)\"(\\\" ,\n") := by
  have isLiteral : JsonString.IsLiteral "\"\\ud83d\\uDE00)\\u0022(\\\\\\\" ,\\n\"".toList
      "😀)\"(\\\" ,\n".toList := JsonString.decode?_iff.mp (by decide +kernel)
  have built := (builds_of_isLiteral ⟨"", []⟩ "😀)\"(\\\" ,\n").2 _ isLiteral
  exact ⟨isLiteral, built.1, built.2.1⟩

end Level

namespace Query

variable {query : Query} {selector inner : String} {test : Level.Test} {expr : Expr} {id : NodeId}

theorem filter_passes_one (query : Query) (test : Level.Test) :
    (query.document.all.filter fun id => query.Passes [test] id) =
      query.document.all.filter fun id => query.Holds test id :=
  List.filter_congr fun _ _ => decide_eq_decide.mpr passes_one

/-- A selector of one test without an inner selector selects the nodes that the test holds of. -/
theorem outcome_select_of_builds (builds : Level.Builds query.scope selector test)
    (noHas : ∀ inner, test ≠ .has inner) :
    (query.select selector).outcome =
      .ok (query.document.all.filter fun id => query.Holds test id) := by
  obtain ⟨tokens, lexed, level⟩ := builds
  have noInner : ∀ inner, Predicate.has inner ∉ [test] := fun inner isMember =>
    noHas inner (List.mem_singleton.mp isMember).symm
  rw [outcome_select_level lexed level noInner, filter_passes_one]

theorem outcome_select_expr (query : Query) (parsed : Expr.ofText inner = .ok expr) :
    (query.select (exprSelector inner)).outcome =
      .ok (query.document.all.filter fun id => query.Holds (.expr expr) id) :=
  outcome_select_of_builds (Level.builds_expr query.scope parsed) (by simp)

theorem mem_selected_iff {node : Node} (present : query.document.node? id = some node) :
    (id ∈ query.document.all.filter fun id => query.Holds test id) ↔ query.Holds test id := by
  rw [List.mem_filter, decide_eq_true_eq, and_iff_right (Document.mem_all_of_node? present)]

end Query

end TreeQuery
