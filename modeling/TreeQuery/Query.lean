import TreeQuery.Selector.Plan

/-!
Queries: selectors in text form, run on a mapped document.
-/

namespace TreeQuery

/-- A mapped document and the scope of the type references in its selectors. -/
structure Query where
  document : Document
  scope : PackageScope

namespace Query

def ofElement (limit : Nat) (scope : PackageScope) (root : Element) : Except QueryError Query :=
  match Document.ofElement limit root with
  | .ok document => .ok ⟨document, scope⟩
  | .error error => .error (.map error)

def matchesAmong (query : Query) (tokens : List Token) (nodes : List NodeId) (depth : Nat) :
    Traced (List NodeId) :=
  (Plan.ofTokens query.scope tokens).run query.document nodes depth

/-- The matches of a selector, in the order in which it makes them. -/
def select (query : Query) (selector : String) : Traced (List NodeId) :=
  match tokenize .selector selector with
  | .error error => .fail (.lex error)
  | .ok tokens => query.matchesAmong tokens query.document.all 0

def elements (query : Query) (ids : List NodeId) : List Element :=
  ids.filterMap fun id => (query.document.node? id).map Node.element

/-! ## Logs -/

def mappedLine (query : Query) : String :=
  "mapped document into " ++ toString query.document.size ++ " nodes"

/-- The line of a log about the answer of a selector, if it has one. -/
def answerLine? (selector : String) (answer : Traced (List NodeId)) : Option String :=
  match answer.outcome with
  | .ok selected =>
      some ("selector " ++ Inspection.quote selector ++ " matched " ++ toString selected.length ++
        " nodes")
  | .error _ => none

end Query

end TreeQuery
