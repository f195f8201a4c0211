import Mathlib.Data.List.Basic
import TreeQuery.Proofs.Document.Ancestry
import TreeQuery.Proofs.Selector.Protocol

/-!
The nodes that a query looks up.

A `Watched` computation is a traced one with the ids that it looks up in the map on its way. A
watched run is the run, and it depends on no other nodes: every map with the same nodes at these ids
gives the same run. Its lookups start from the nodes of its scope and go down into subtrees and up
along parent links, so they stay inside a map that has the subtrees of its nodes.
-/

namespace TreeQuery

/-- A traced computation with the ids that it looks up, in order. -/
structure Watched (Result : Type) where
  traced : Traced Result
  looked : List NodeId

namespace Watched

variable {Result First Second Item : Type} {first : Watched First}
  {next : First → Watched Second} {test : Item → Watched Bool} {items : List Item}
  {ids : List NodeId}

/-- A computation that looks nothing up. -/
def ofTraced (traced : Traced Result) : Watched Result :=
  ⟨traced, []⟩

/-- Looks up some ids, for a result that is made of their nodes. -/
def looking (ids : List NodeId) (result : Result) : Watched Result :=
  ⟨Pure.pure result, ids⟩

/-- One computation after another. What comes after a failure is not looked up. -/
def bind (first : Watched First) (next : First → Watched Second) : Watched Second where
  traced := first.traced >>= fun result => (next result).traced
  looked := first.looked ++
    match first.traced.outcome with
    | .error _ => []
    | .ok result => (next result).looked

instance : Monad Watched where
  pure result := ofTraced (Pure.pure result)
  bind := bind

def filter (test : Item → Watched Bool) : List Item → Watched (List Item)
  | [] => pure []
  | item :: items => do
      let passes ← test item
      let others ← filter test items
      return if passes then item :: others else others

theorem looked_bind_subset (firstInside : first.looked ⊆ ids)
    (nextInside : ∀ result, first.traced.outcome = .ok result → (next result).looked ⊆ ids) :
    (first >>= next).looked ⊆ ids := by
  refine List.append_subset.mpr ⟨firstInside, ?_⟩
  cases outcome : first.traced.outcome with
  | error error => exact List.nil_subset _
  | ok result => exact nextInside result outcome

theorem looked_filter_subset (inside : ∀ item ∈ items, (test item).looked ⊆ ids) :
    (filter test items).looked ⊆ ids := by
  induction items with
  | nil => exact List.nil_subset _
  | cons item items induction =>
      obtain ⟨firstInside, othersInside⟩ := List.forall_mem_cons.mp inside
      rw [filter]
      refine looked_bind_subset firstInside fun passes _ => ?_
      exact looked_bind_subset (induction othersInside) fun others _ => List.nil_subset _

end Watched

namespace Document

variable {document other : Document} {combinator : Combinator} {left right scope ids : List NodeId}

/-- Whether another map has the same nodes at some ids. -/
def AgreesOn (document other : Document) (ids : List NodeId) : Prop :=
  ∀ id ∈ ids, other.node? id = document.node? id

theorem agreesOn_self (document : Document) (ids : List NodeId) : document.AgreesOn document ids :=
  fun _ _ => rfl

theorem AgreesOn.subset {fewer : List NodeId} (agree : document.AgreesOn other ids)
    (inside : fewer ⊆ ids) : document.AgreesOn other fewer :=
  fun id isMember => agree id (inside isMember)

theorem AgreesOn.parent? (agree : document.AgreesOn other ids) {id : NodeId} (member : id ∈ ids) :
    other.parent? id = document.parent? id := by
  rw [Document.parent?, Document.parent?, agree id member]

theorem AgreesOn.parents (agree : document.AgreesOn other ids) :
    other.parents ids = document.parents ids :=
  List.filterMap_congr fun _ member => agree.parent? member

theorem AgreesOn.children (agree : document.AgreesOn other right) (left : List NodeId) :
    other.children left right = document.children left right :=
  List.filter_congr fun _ member => by rw [agree.parent? member]

/-- The ids that a combinator looks up for their parents: those on its right, for siblings those on
its left too, and for descendants the way up from each node on the right to the first one that is on
the left. -/
def lookups (document : Document) (combinator : Combinator) (left right : List NodeId) :
    List NodeId :=
  match combinator with
  | .union => []
  | .child => right
  | .sibling => left ++ right
  | .descendant =>
      right.flatMap fun id => (document.lineage id).takeWhile fun above => !left.contains above

/-- The way up from a node is the same up to the first node on the left. -/
theorem AgreesOn.any_lineage {id : NodeId} (agree : document.AgreesOn other
    ((document.lineage id).takeWhile fun above => !left.contains above)) :
    (other.lineage id).any left.contains = (document.lineage id).any left.contains := by
  induction id using Nat.strongRecOn with
  | ind id induction =>
      rw [lineage_eq document] at agree ⊢
      rw [lineage_eq other, List.any_cons, List.any_cons]
      cases isListed : left.contains id with
      | true => rfl
      | false =>
          rw [List.takeWhile_cons_of_pos (by simpa using isListed)] at agree
          rw [agree.parent? List.mem_cons_self, Bool.false_or, Bool.false_or]
          cases isParent : document.parent? id with
          | none => rfl
          | some parent =>
              rw [isParent] at agree
              exact induction parent (parent?_lt isParent)
                (agree.subset (List.subset_cons_self _ _))

theorem AgreesOn.combine
    (agree : document.AgreesOn other (document.lookups combinator left right)) :
    other.combine combinator left right = document.combine combinator left right := by
  cases combinator with
  | union => rfl
  | child => exact agree.children left
  | sibling =>
      have onLeft := agree.subset (List.subset_append_left left right)
      have onRight := agree.subset (List.subset_append_right left right)
      rw [Document.combine, siblings, onLeft.parents]
      exact onRight.children _
  | descendant =>
      refine List.filter_congr fun id isRight => AgreesOn.any_lineage fun above onTheWay => ?_
      exact agree above (List.mem_flatMap.mpr ⟨id, isRight, onTheWay⟩)

theorem le_of_leadsTo {id ancestor : Nat} (leads : document.LeadsTo id ancestor) :
    ancestor ≤ id := by
  induction leads using Relation.ReflTransGen.head_induction_on with
  | refl => exact Nat.le_refl _
  | head isParent _ above => exact Nat.le_trans above (Nat.le_of_lt (parent?_lt isParent))

/-- Parent links lead nowhere outside the map. -/
theorem lookups_subset (leftInside : left ⊆ document.all) (rightInside : right ⊆ document.all) :
    document.lookups combinator left right ⊆ document.all := by
  cases combinator with
  | union => exact List.nil_subset _
  | child => exact rightInside
  | sibling => exact List.append_subset.mpr ⟨leftInside, rightInside⟩
  | descendant =>
      intro above isLooked
      obtain ⟨id, isRight, onTheWay⟩ := List.mem_flatMap.mp isLooked
      have leads := leadsTo_of_mem_lineage ((List.takeWhile_sublist _).subset onTheWay)
      have inside := List.mem_range.mp (rightInside isRight)
      exact List.mem_range.mpr (Nat.lt_of_le_of_lt (le_of_leadsTo leads) inside)

theorem combine_subset (leftInside : left ⊆ scope) (rightInside : right ⊆ scope) :
    document.combine combinator left right ⊆ scope := by
  by_cases isUnion : combinator = .union
  · subst isUnion
    exact List.append_subset.mpr ⟨leftInside, rightInside⟩
  · rw [combine_eq_filter isUnion]
    exact List.Subset.trans List.filter_sublist.subset rightInside

end Document

namespace Watched

variable {document other : Document} {First Second Item : Type}

/-- A watched computation in two parts is a traced one if both parts are, where the maps agree. -/
theorem traced_bind {first : Watched First} {next : First → Watched Second}
    {plainFirst : Traced First} {plainNext : First → Traced Second}
    (agree : document.AgreesOn other (first >>= next).looked)
    (firstSame : document.AgreesOn other first.looked → first.traced = plainFirst)
    (nextSame : ∀ result, first.traced.outcome = .ok result →
      document.AgreesOn other (next result).looked → (next result).traced = plainNext result) :
    (first >>= next).traced = plainFirst >>= plainNext := by
  have firstIs := firstSame (agree.subset (List.subset_append_left _ _))
  change first.traced >>= _ = _
  rw [← firstIs]
  cases outcome : first.traced.outcome with
  | error error => rw [Traced.bind_error outcome, Traced.bind_error outcome]
  | ok result =>
      have inside : (next result).looked ⊆ (first >>= next).looked := by
        change _ ⊆ first.looked ++ _
        rw [outcome]
        exact List.subset_append_right _ _
      rw [Traced.bind_ok outcome, Traced.bind_ok outcome,
        nextSame result outcome (agree.subset inside)]

theorem traced_filter {test : Item → Watched Bool} {plainTest : Item → Traced Bool}
    {items : List Item} (agree : document.AgreesOn other (filter test items).looked)
    (same : ∀ item ∈ items, document.AgreesOn other (test item).looked →
      (test item).traced = plainTest item) :
    (filter test items).traced = Traced.filter plainTest items := by
  induction items with
  | nil => rfl
  | cons item items induction =>
      obtain ⟨firstSame, othersSame⟩ := List.forall_mem_cons.mp same
      rw [filter] at agree ⊢
      rw [Traced.filter_cons]
      refine traced_bind agree firstSame fun passes _ agreeLater => ?_
      rw [← Traced.bind_pure]
      exact traced_bind agreeLater (fun agreeOthers => induction agreeOthers othersSame)
        fun _ _ _ => rfl

end Watched

namespace Plan

variable {document : Document} {scope found : List NodeId} {depth : Nat}

/-- The test of a level, as `runLevel` makes it. -/
def watchLevel (tokens : List Token) (predicates : Nat) (test : NodeId → Watched Bool)
    (scope : List NodeId) (depth : Nat) : Watched (List NodeId) := do
  Watched.ofTraced (Traced.emit (.enter depth tokens))
  let selected ← Watched.filter test scope
  Watched.ofTraced (Traced.emit (.matched depth predicates scope.length selected.length))
  return selected

mutual

/-- A run that is watched. -/
def watch (document : Document) : Plan → List NodeId → Nat → Watched (List NodeId)
  | .unreadable tokens error, _, depth => do
      Watched.ofTraced (Traced.emit (.enter depth tokens))
      Watched.ofTraced (Traced.fail error)
  | .final tokens tests, scope, depth => do
      let selected ←
        watchLevel tokens tests.length (fun id => watchTests document tests id depth) scope depth
      Watched.ofTraced (Traced.emit (.leave depth selected.length))
      return selected
  | .cut tokens tests error, scope, depth => do
      let _ ←
        watchLevel tokens tests.length (fun id => watchTests document tests id depth) scope depth
      Watched.ofTraced (Traced.fail error)
  | .join tokens tests combinator next, scope, depth => do
      let selected ←
        watchLevel tokens tests.length (fun id => watchTests document tests id depth) scope depth
      let others ← watch document next scope (depth + 1)
      let results ← Watched.looking (document.lookups combinator selected others)
        (document.combine combinator selected others)
      Watched.ofTraced (Traced.emit (.combined depth combinator selected.length results.length))
      Watched.ofTraced (Traced.emit (.leave depth results.length))
      return results

def watchTests (document : Document) :
    List (Predicate Plan) → NodeId → Nat → Watched Bool
  | [], _, _ => return true
  | test :: tests, id, depth => do
      if ← watchTest document test id depth then watchTests document tests id depth
      else return false

/-- Every test looks up the node it is made on. A `:has(…)` looks it up once more for its subtree,
and then the matches below it for their parents. -/
def watchTest (document : Document) : Predicate Plan → NodeId → Nat → Watched Bool
  | .has inner, id, depth => do
      let subtree ← Watched.looking [id, id] (document.subtree id)
      let below ← watch document inner subtree (depth + 1)
      Watched.looking below ((document.parents below).contains id)
  | test, id, depth => ⟨holds document test id depth, [id]⟩

end

/-! ## The watched run is the run -/

section

variable {other : Document}

theorem traced_watchLevel {tokens : List Token} {predicates : Nat} {test : NodeId → Watched Bool}
    {plainTest : NodeId → Traced Bool}
    (agree : document.AgreesOn other (watchLevel tokens predicates test scope depth).looked)
    (same : ∀ id, document.AgreesOn other (test id).looked → (test id).traced = plainTest id) :
    (watchLevel tokens predicates test scope depth).traced =
      runLevel tokens predicates plainTest scope depth := by
  refine Watched.traced_bind agree (fun _ => rfl) fun _ _ agreeLater => ?_
  refine Watched.traced_bind agreeLater
    (fun agreeTests => Watched.traced_filter agreeTests fun id _ => same id) fun _ _ _ => rfl

mutual

/-- A watched run is the run on every map with the same nodes at the ids looked up. -/
theorem traced_watch :
    (plan : Plan) → (scope : List NodeId) → (depth : Nat) →
      document.AgreesOn other (watch document plan scope depth).looked →
        (watch document plan scope depth).traced = run other plan scope depth
  | .unreadable tokens error, scope, depth, agree => by
      rw [watch, run]
      rfl
  | .final tokens tests, scope, depth, agree => by
      rw [watch] at agree ⊢
      rw [run]
      exact Watched.traced_bind agree
        (fun agreeLevel => traced_watchLevel agreeLevel fun id => traced_watchTests tests id depth)
        fun _ _ _ => rfl
  | .cut tokens tests error, scope, depth, agree => by
      rw [watch] at agree ⊢
      rw [run]
      exact Watched.traced_bind agree
        (fun agreeLevel => traced_watchLevel agreeLevel fun id => traced_watchTests tests id depth)
        fun _ _ _ => rfl
  | .join tokens tests combinator next, scope, depth, agree => by
      rw [watch] at agree ⊢
      rw [run]
      refine Watched.traced_bind agree
        (fun agreeLevel => traced_watchLevel agreeLevel fun id => traced_watchTests tests id depth)
        fun selected _ agreeLater => ?_
      refine Watched.traced_bind agreeLater (traced_watch next scope (depth + 1))
        fun others _ agreeResults => ?_
      have combined := (agreeResults.subset (List.subset_append_left _ _)).combine
      rw [combined]
      rfl

theorem traced_watchTests :
    (tests : List (Predicate Plan)) → (id : NodeId) → (depth : Nat) →
      document.AgreesOn other (watchTests document tests id depth).looked →
        (watchTests document tests id depth).traced = holdsAll other tests id depth
  | [], id, depth, agree => by
      rw [watchTests, holdsAll]
      rfl
  | test :: tests, id, depth, agree => by
      rw [watchTests] at agree ⊢
      rw [holdsAll]
      refine Watched.traced_bind agree (traced_watchTest test id depth)
        fun passes _ agreeLater => ?_
      cases passes with
      | false => rfl
      | true => exact traced_watchTests tests id depth agreeLater

theorem traced_watchTest :
    (test : Predicate Plan) → (id : NodeId) → (depth : Nat) →
      document.AgreesOn other (watchTest document test id depth).looked →
        (watchTest document test id depth).traced = holds other test id depth
  | .has inner, id, depth, agree => by
      rw [watchTest] at agree ⊢
      have sameNode := agree id List.mem_cons_self
      have sameSubtree : other.subtree id = document.subtree id := by
        rw [Document.subtree, Document.subtree, sameNode]
      rw [holds, ← Traced.bind_pure, sameSubtree]
      have agreeBelow := agree.subset (List.subset_append_right [id, id] _)
      change (watch document inner (document.subtree id) (depth + 1) >>= fun below =>
        Watched.looking below ((document.parents below).contains id)).traced = _
      refine Watched.traced_bind agreeBelow (traced_watch inner _ (depth + 1))
        fun below _ agreeParents => ?_
      have sameParents : other.parents below = document.parents below := agreeParents.parents
      rw [sameParents]
      rfl
  | .native _, id, depth, agree | .declared _, id, depth, agree | .key _, id, depth, agree
  | .universal, id, depth, agree | .pseudoClass _, id, depth, agree | .nth _, id, depth, agree
  | .contains _, id, depth, agree | .val _, id, depth, agree | .expr _, id, depth, agree => by
      simp only [watchTest, Document.AgreesOn, List.forall_mem_singleton] at agree ⊢
      simp only [holds, agree]

end

theorem traced_watch_self (document : Document) (plan : Plan) (scope : List NodeId) (depth : Nat) :
    (watch document plan scope depth).traced = run document plan scope depth :=
  traced_watch plan scope depth (Document.agreesOn_self document _)

end

/-! ## The lookups of a run -/

/-- A level selects nodes of its scope. -/
theorem subset_of_filter {test : NodeId → Traced Bool}
    (filtered : (Traced.filter test scope).outcome = .ok found) : found ⊆ scope := by
  obtain ⟨_, rfl⟩ := Traced.filter_ok_iff.mp filtered
  exact List.filter_sublist.subset

/-- A run answers nodes of its scope. -/
theorem subset_of_run (document : Document) (scope : List NodeId) :
    (plan : Plan) → (depth : Nat) → (found : List NodeId) →
      (run document plan scope depth).outcome = .ok found → found ⊆ scope
  | .unreadable tokens error, depth, found, ran => by
      rw [outcome_run_unreadable] at ran
      cases ran
  | .final tokens tests, depth, found, ran => by
      rw [outcome_run_final] at ran
      exact subset_of_filter ran
  | .cut tokens tests error, depth, found, ran => by
      exact absurd ran run_cut_ne_ok
  | .join tokens tests combinator next, depth, found, ran => by
      obtain ⟨left, right, filtered, others, combined⟩ := run_join_ok_iff.mp ran
      rw [← combined]
      exact Document.combine_subset (subset_of_filter filtered)
        (subset_of_run document scope next _ _ others)

theorem looked_watchLevel_subset {tokens : List Token} {predicates : Nat}
    {test : NodeId → Watched Bool} {ids : List NodeId}
    (inside : ∀ id ∈ scope, (test id).looked ⊆ ids) :
    (watchLevel tokens predicates test scope depth).looked ⊆ ids := by
  refine Watched.looked_bind_subset (List.nil_subset _) fun _ _ => ?_
  refine Watched.looked_bind_subset (Watched.looked_filter_subset inside) fun _ _ => ?_
  exact Watched.looked_bind_subset (List.nil_subset _) fun _ _ => List.nil_subset _

mutual

/-- A run on nodes of the map looks up nodes of the map. -/
theorem looked_watch_subset (subtrees : ∀ id, document.subtree id ⊆ document.all) :
    (plan : Plan) → (scope : List NodeId) → (depth : Nat) → scope ⊆ document.all →
      (watch document plan scope depth).looked ⊆ document.all
  | .unreadable tokens error, scope, depth, inside => by
      rw [watch]
      exact Watched.looked_bind_subset (List.nil_subset _) fun _ _ => List.nil_subset _
  | .final tokens tests, scope, depth, inside => by
      rw [watch]
      refine Watched.looked_bind_subset (looked_watchLevel_subset fun id isNode =>
        looked_watchTests_subset subtrees tests id depth (inside isNode)) fun selected _ => ?_
      exact Watched.looked_bind_subset (List.nil_subset _) fun _ _ => List.nil_subset _
  | .cut tokens tests error, scope, depth, inside => by
      rw [watch]
      have level : (watchLevel tokens tests.length (fun id => watchTests document tests id depth)
          scope depth).looked ⊆ document.all :=
        looked_watchLevel_subset fun id isNode =>
          looked_watchTests_subset subtrees tests id depth (inside isNode)
      exact Watched.looked_bind_subset level fun _ _ => List.nil_subset _
  | .join tokens tests combinator next, scope, depth, inside => by
      rw [watch]
      have level : (watchLevel tokens tests.length (fun id => watchTests document tests id depth)
          scope depth).looked ⊆ document.all :=
        looked_watchLevel_subset fun id isNode =>
          looked_watchTests_subset subtrees tests id depth (inside isNode)
      refine Watched.looked_bind_subset level fun selected ranLevel => ?_
      rw [traced_watchLevel (Document.agreesOn_self document _) fun _ _ => rfl,
        outcome_runLevel] at ranLevel
      have selectedInside := List.Subset.trans (subset_of_filter ranLevel) inside
      refine Watched.looked_bind_subset (looked_watch_subset subtrees next scope (depth + 1) inside)
        fun others ranNext => ?_
      rw [traced_watch_self] at ranNext
      have othersInside := List.Subset.trans (subset_of_run _ _ next _ _ ranNext) inside
      refine Watched.looked_bind_subset
        (Document.lookups_subset selectedInside othersInside) fun results _ => ?_
      refine Watched.looked_bind_subset (List.nil_subset _) fun _ _ => ?_
      exact Watched.looked_bind_subset (List.nil_subset _) fun _ _ => List.nil_subset _

theorem looked_watchTests_subset (subtrees : ∀ id, document.subtree id ⊆ document.all) :
    (tests : List (Predicate Plan)) → (id : NodeId) → (depth : Nat) → id ∈ document.all →
      (watchTests document tests id depth).looked ⊆ document.all
  | [], id, depth, isNode => by
      rw [watchTests]
      exact List.nil_subset _
  | test :: tests, id, depth, isNode => by
      rw [watchTests]
      refine Watched.looked_bind_subset (looked_watchTest_subset subtrees test id depth isNode)
        fun passes _ => ?_
      cases passes with
      | false => exact List.nil_subset _
      | true => exact looked_watchTests_subset subtrees tests id depth isNode

theorem looked_watchTest_subset (subtrees : ∀ id, document.subtree id ⊆ document.all) :
    (test : Predicate Plan) → (id : NodeId) → (depth : Nat) → id ∈ document.all →
      (watchTest document test id depth).looked ⊆ document.all
  | .has inner, id, depth, isNode => by
      rw [watchTest]
      have onNode : [id, id] ⊆ document.all := by simpa using isNode
      refine Watched.looked_bind_subset onNode fun subtree found => ?_
      cases found
      refine Watched.looked_bind_subset
        (looked_watch_subset subtrees inner _ (depth + 1) (subtrees id)) fun below ranBelow => ?_
      rw [traced_watch_self] at ranBelow
      exact List.Subset.trans (subset_of_run _ _ inner _ _ ranBelow) (subtrees id)
  | .native _, id, depth, isNode | .declared _, id, depth, isNode | .key _, id, depth, isNode
  | .universal, id, depth, isNode | .pseudoClass _, id, depth, isNode | .nth _, id, depth, isNode
  | .contains _, id, depth, isNode | .val _, id, depth, isNode | .expr _, id, depth, isNode => by
      simp only [watchTest]
      exact List.cons_subset.mpr ⟨isNode, List.nil_subset _⟩

end

end Plan

namespace Query

variable {query : Query} {selector : String} {other : Document}

/-- A selection that is watched. The answer is looked up for its nodes. -/
def selectWatched (query : Query) (selector : String) : Watched (List NodeId) :=
  match tokenize .selector selector with
  | .error error => .ofTraced (.fail (.lex error))
  | .ok tokens => do
      let found ←
        Plan.watch query.document (Plan.ofTokens query.scope tokens) query.document.all 0
      Watched.looking found found

/-- A selection depends on no other nodes than those it looks up. -/
theorem traced_selectWatched (sameSize : other.size = query.document.size)
    (agree : query.document.AgreesOn other (query.selectWatched selector).looked) :
    (query.selectWatched selector).traced = (⟨other, query.scope⟩ : Query).select selector := by
  cases lexed : tokenize .selector selector with
  | error error => simp only [selectWatched, select, lexed, Watched.ofTraced]
  | ok tokens =>
      have sameNodes : other.all = query.document.all := by
        rw [Document.all, Document.all, sameSize]
      simp only [selectWatched, lexed] at agree ⊢
      simp only [select, lexed]
      rw [matchesAmong, ← Traced.bind_pure_self (Plan.run _ _ _ _), sameNodes]
      exact Watched.traced_bind agree (Plan.traced_watch _ _ 0) fun _ _ _ => rfl

theorem looked_selectWatched_subset
    (subtrees : ∀ id, query.document.subtree id ⊆ query.document.all) (selector : String) :
    (query.selectWatched selector).looked ⊆ query.document.all := by
  unfold selectWatched
  cases tokenize .selector selector with
  | error error => exact List.nil_subset _
  | ok tokens =>
      refine Watched.looked_bind_subset
        (Plan.looked_watch_subset subtrees _ _ 0 (List.Subset.refl _)) fun found ran => ?_
      rw [Plan.traced_watch_self] at ran
      exact Plan.subset_of_run _ _ _ _ _ ran

end Query

end TreeQuery
