import TreeQuery.Document
import TreeQuery.Expr.Parser
import TreeQuery.PackageScope
import TreeQuery.Selector.Nth

/-!
Errors and traces: why a query has no answer, and what happens while it runs, level by level.

A run is `Traced`: it has the events up to its end, whether it succeeds or fails.
-/

namespace TreeQuery

/-! ## Errors -/

inductive QueryError where
  | lex (error : LexError)
  /-- No level of a selector starts at a position. -/
  | noSelector (position : Nat)
  | missingArgument (name : String)
  | unrecognizedOperator (sign : String)
  | nth (error : NthError)
  | unknownPseudoClass (name : String)
  | resolve (error : ResolveError)
  | expr (error : ExprError)
  | map (error : NestingError)
  deriving DecidableEq, Repr

namespace QueryError

def message : QueryError → String
  | .lex error => "lex error: " ++ error.message
  | .noSelector position => "no selector recognized at position " ++ toString position
  | .missingArgument name => "pseudo-class :" ++ name ++ " requires an argument"
  | .unrecognizedOperator sign => "unrecognized operator '" ++ sign ++ "'"
  | .nth error => error.message
  | .unknownPseudoClass name => "unknown pseudo-class :" ++ name
  | .resolve error => "cannot resolve declared type: " ++ error.message
  | .expr error => "invalid :expr() argument: " ++ error.message
  | .map error => "cannot map document: " ++ error.message

end QueryError

/-! ## Events -/

inductive Event where
  | enter (depth : Nat) (remaining : List Token)
  /-- The predicates of a level were tested on the nodes of the scope, and some were selected. -/
  | matched (depth predicates scope selected : Nat)
  /-- A combinator made `after` results of the `before` matches on its left. -/
  | combined (depth : Nat) (combinator : Combinator) (before after : Nat)
  | leave (depth results : Nat)
  deriving DecidableEq, Repr

namespace Event

/-- The mark of a depth at the start of a line. -/
def indent (depth : Nat) : String :=
  String.ofList (List.replicate depth ['⇢', ' ']).flatten

/-- The line of an event in a log. A level without tokens starts silently. -/
def line? : Event → Option String
  | .enter _ [] => none
  | .enter depth (first :: rest) =>
      some (indent depth ++ "level " ++ toString depth ++ " starting with " ++ first.display ++
        "; " ++ toString (rest.length + 1) ++ " tokens remaining")
  | .matched depth predicates scope selected =>
      some (indent depth ++ "applying " ++ toString predicates ++ " predicates to " ++
        toString scope ++ " nodes gave " ++ toString selected ++ " matches")
  | .combined depth combinator before after =>
      some (indent depth ++ "(" ++ toString depth ++ ") operator " ++ combinator.display ++ ": " ++
        toString before ++ " => " ++ toString after)
  | .leave depth results =>
      some (indent depth ++ "level " ++ toString depth ++ " returning " ++ toString results ++
        " matches")

end Event

/-- A computation that may fail, with the events that it went through. -/
structure Traced (Result : Type) where
  events : List Event
  outcome : Except QueryError Result

namespace Traced

def pure {Result : Type} (result : Result) : Traced Result :=
  ⟨[], .ok result⟩

def fail {Result : Type} (error : QueryError) : Traced Result :=
  ⟨[], .error error⟩

def emit (event : Event) : Traced Unit :=
  ⟨[event], .ok ()⟩

/-- One computation after another; a failure ends the run. -/
def bind {First Second : Type} (first : Traced First) (next : First → Traced Second) :
    Traced Second :=
  match first.outcome with
  | .error error => ⟨first.events, .error error⟩
  | .ok result =>
      let second := next result
      ⟨first.events ++ second.events, second.outcome⟩

def map {First Second : Type} (change : First → Second) (first : Traced First) : Traced Second :=
  ⟨first.events, first.outcome.map change⟩

instance : Monad Traced where
  pure := pure
  bind := bind
  map := map

def filter {Item : Type} (test : Item → Traced Bool) : List Item → Traced (List Item)
  | [] => pure []
  | item :: items =>
      bind (test item) fun passes =>
        map (fun others => if passes then item :: others else others) (filter test items)

/-! ## Outcomes -/

@[simp] theorem outcome_pure {Result : Type} (result : Result) :
    (Pure.pure result : Traced Result).outcome = .ok result := rfl

@[simp] theorem outcome_fail {Result : Type} (error : QueryError) :
    (fail error : Traced Result).outcome = .error error := rfl

@[simp] theorem outcome_emit (event : Event) : (emit event).outcome = .ok () := rfl

theorem outcome_bind {First Second : Type} (first : Traced First) (next : First → Traced Second) :
    (first >>= next).outcome = first.outcome.bind fun result => (next result).outcome := by
  change (bind first next).outcome = _
  unfold bind
  cases first.outcome with
  | error error => rfl
  | ok result => rfl

@[simp] theorem outcome_map {First Second : Type} (change : First → Second)
    (first : Traced First) : (first.map change).outcome = first.outcome.map change := rfl

@[simp] theorem outcome_emit_bind {Result : Type} (event : Event) (next : Unit → Traced Result) :
    (emit event >>= next).outcome = (next ()).outcome := by
  rw [outcome_bind]
  rfl

theorem outcome_filter_cons {Item : Type} (test : Item → Traced Bool) (item : Item)
    (items : List Item) :
    (filter test (item :: items)).outcome =
      (test item).outcome.bind fun passes =>
        (filter test items).outcome.map fun others =>
          if passes then item :: others else others := by
  rw [filter]
  exact outcome_bind (test item) _

theorem outcome_filter_congr {Item : Type} {test other : Item → Traced Bool} {items : List Item}
    (same : ∀ item ∈ items, (test item).outcome = (other item).outcome) :
    (filter test items).outcome = (filter other items).outcome := by
  induction items with
  | nil => rfl
  | cons item items induction =>
      have first := same item List.mem_cons_self
      have others := induction fun item member => same item (List.mem_cons_of_mem _ member)
      rw [outcome_filter_cons, outcome_filter_cons, first, others]

theorem filter_ok {Item : Type} {test : Item → Traced Bool} {items : List Item}
    (tested : ∀ item ∈ items, ∃ passes, (test item).outcome = .ok passes) :
    (filter test items).outcome =
      .ok (items.filter fun item => (test item).outcome = .ok true) := by
  induction items with
  | nil => rfl
  | cons item items induction =>
      obtain ⟨passes, first⟩ := tested item List.mem_cons_self
      have others := induction fun item member => tested item (List.mem_cons_of_mem _ member)
      rw [outcome_filter_cons, first, others, List.filter_cons, first]
      cases passes <;> simp [Except.bind, Except.map]

theorem tested_of_filter_ok {Item : Type} {test : Item → Traced Bool}
    {items selected : List Item} (filtered : (filter test items).outcome = .ok selected) :
    ∀ item ∈ items, ∃ passes, (test item).outcome = .ok passes := by
  induction items generalizing selected with
  | nil => simp
  | cons first items induction =>
      rw [outcome_filter_cons] at filtered
      cases tested : (test first).outcome with
      | error error => simp [tested, Except.bind] at filtered
      | ok passes =>
          cases others : (filter test items).outcome with
          | error error => simp [tested, others, Except.bind, Except.map] at filtered
          | ok kept =>
              intro item member
              rcases List.mem_cons.mp member with same | member
              · subst same
                exact ⟨passes, tested⟩
              · exact induction others item member

/-- A list is filtered without an error when each of its members can be tested. -/
theorem filter_ok_iff {Item : Type} {test : Item → Traced Bool} {items selected : List Item} :
    (filter test items).outcome = .ok selected ↔
      (∀ item ∈ items, ∃ passes, (test item).outcome = .ok passes) ∧
        selected = items.filter fun item => (test item).outcome = .ok true := by
  constructor
  · intro filtered
    have tested := tested_of_filter_ok filtered
    rw [filter_ok tested] at filtered
    cases filtered
    exact ⟨tested, rfl⟩
  · intro found
    obtain ⟨tested, selectedAre⟩ := found
    rw [filter_ok tested, selectedAre]

end Traced

end TreeQuery
