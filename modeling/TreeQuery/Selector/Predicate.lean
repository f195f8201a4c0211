import TreeQuery.Expr.Basic
import TreeQuery.PackageScope
import TreeQuery.Selector.Nth
import TreeQuery.Token

/-!
Predicates: the tests that one level of a selector makes on a node.

The inner selector of `:has(…)` is a parameter of the type, because it is a row of tokens when a
level is read and a plan when it is run.
-/

namespace TreeQuery

/-- A test of one node, with inner selectors of a type. -/
inductive Predicate (Inner : Type) where
  | native (kind : Kind)
  /-- A declared type, or a type that implements it. -/
  | declared (reference : TypeName)
  /-- An entry under a key, whose value is present. -/
  | key (name : String)
  | universal
  | pseudoClass (which : PseudoClass)
  | nth (positions : Nth)
  /-- A node has a child among the matches of the inner selector below it. -/
  | has (inner : Inner)
  | contains (part : String)
  | val (text : String)
  | expr (condition : Expr)

namespace Predicate

/-- The predicate with another inner selector, made with the knowledge of where it comes from. -/
def mapInner {Inner Other : Type} (predicate : Predicate Inner)
    (replace : (inner : Inner) → predicate = .has inner → Other) : Predicate Other :=
  match predicate with
  | .native kind => .native kind
  | .declared reference => .declared reference
  | .key name => .key name
  | .universal => .universal
  | .pseudoClass which => .pseudoClass which
  | .nth positions => .nth positions
  | .has inner => .has (replace inner rfl)
  | .contains part => .contains part
  | .val text => .val text
  | .expr condition => .expr condition

def display : Predicate (List Token) → String
  | .native kind => kind.word
  | .declared reference => "[" ++ reference.text ++ "]"
  | .key name => "." ++ Inspection.quote name
  | .universal => "*"
  | .pseudoClass which => ":" ++ which.name
  | .nth positions =>
      ":nth(" ++ toString positions.step ++ "n+" ++ toString positions.offset ++ ", from_end=" ++
        toString positions.fromEnd ++ ")"
  | .has tokens => ":has(" ++ toString tokens.length ++ " tokens)"
  | .contains part => ":contains(" ++ Inspection.quote part ++ ")"
  | .val text => ":val(" ++ Inspection.quote text ++ ")"
  | .expr condition => ":expr(" ++ condition.display ++ ")"

end Predicate

end TreeQuery
