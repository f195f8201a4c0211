import TreeQuery.Proofs.Selector.ClosedForm
import TreeQuery.Proofs.Selector.Units

/-!
The protocol of events.

The events of a run are nested as the run is. A level enters, runs the inner selector of its
`:has(…)` once for each node on which it is tested, reports its matches, and either leaves or runs
the levels on its right before it leaves. A run that fails stops in the middle of such a row of
events, wherever it fails, and no level lies deeper than the text of the selector is long.
-/

namespace TreeQuery

/-- The depth of the level that an event is about. -/
def Event.depth : Event → Nat
  | .enter depth _ => depth
  | .matched depth _ _ _ => depth
  | .combined depth _ _ _ => depth
  | .leave depth _ => depth

namespace Traced

variable {First Second Item : Type} {first : Traced First} {next : First → Traced Second}
  {test : Item → Traced Bool} {items selected : List Item} {event : Event}

theorem bind_error {error : QueryError} (failed : first.outcome = .error error) :
    first >>= next = ⟨first.events, .error error⟩ := by
  change bind first next = _
  rw [bind, failed]

theorem bind_ok {result : First} (succeeded : first.outcome = .ok result) :
    first >>= next = ⟨first.events ++ (next result).events, (next result).outcome⟩ := by
  change bind first next = _
  rw [bind, succeeded]

theorem pure_bind {result : First} : (Pure.pure result : Traced First) >>= next = next result :=
  rfl

theorem bind_pure {change : First → Second} :
    (first >>= fun result => Pure.pure (change result)) = first.map change := by
  cases outcome : first.outcome with
  | error error => simp [bind_error outcome, map, outcome, Except.map]
  | ok result =>
      rw [bind_ok outcome, map, outcome]
      exact congrArg (Traced.mk · _) (List.append_nil _)

theorem bind_pure_self (first : Traced First) : first >>= Pure.pure = first := by
  cases outcome : first.outcome with
  | error error => rw [bind_error outcome, ← outcome]
  | ok result =>
      rw [bind_ok outcome, outcome_pure, ← outcome]
      exact congrArg (Traced.mk · _) (List.append_nil _)

theorem filter_cons {item : Item} :
    filter test (item :: items) = test item >>= fun passes =>
      map (fun others => if passes then item :: others else others) (filter test items) := by
  rw [filter]
  rfl

theorem mem_events_bind (isEvent : event ∈ (first >>= next).events) :
    event ∈ first.events ∨
      ∃ result, first.outcome = .ok result ∧ event ∈ (next result).events := by
  cases outcome : first.outcome with
  | error error =>
      rw [bind_error outcome] at isEvent
      exact .inl isEvent
  | ok result =>
      rw [bind_ok outcome] at isEvent
      exact (List.mem_append.mp isEvent).imp_right fun isLater => ⟨result, rfl, isLater⟩

theorem mem_events_filter (isEvent : event ∈ (filter test items).events) :
    ∃ item ∈ items, event ∈ (test item).events := by
  induction items with
  | nil => cases isEvent
  | cons item items induction =>
      rw [filter_cons] at isEvent
      rcases mem_events_bind isEvent with isFirst | ⟨_, _, isLater⟩
      · exact ⟨item, List.mem_cons_self, isFirst⟩
      · obtain ⟨other, isItem, isEvent⟩ := induction isLater
        exact ⟨other, List.mem_cons_of_mem _ isItem, isEvent⟩

/-- Tests without events and errors leave none behind. -/
theorem filter_of_pure (quiet : ∀ item ∈ items, ∃ passes, test item = Pure.pure passes) :
    ∃ selected, filter test items = ⟨[], .ok selected⟩ := by
  induction items with
  | nil => exact ⟨[], rfl⟩
  | cons item items induction =>
      obtain ⟨⟨passes, isPure⟩, others⟩ := List.forall_mem_cons.mp quiet
      obtain ⟨selected, filtered⟩ := induction others
      rw [filter_cons, isPure, pure_bind, filtered]
      exact ⟨_, rfl⟩

end Traced

/-! ## The inner selector of a level -/

namespace Level

variable {scope : PackageScope} {tests before after : List Test} {tokens rest inner : List Token}

/-- The inner selector of a `:has(…)` among tests, with the tests before it. -/
def has? : List Test → Option (List Test × List Token)
  | [] => none
  | .has inner :: _ => some ([], inner)
  | test :: tests => (has? tests).map fun (before, inner) => (test :: before, inner)

theorem not_mem_of_has?_eq_none (none : has? tests = none) : Predicate.has inner ∉ tests := by
  fun_induction has? tests with
  | case1 => exact List.not_mem_nil
  | case2 => cases none
  | case3 test tests notHas induction =>
      intro isMember
      rcases List.mem_cons.mp isMember with rfl | isLater
      · exact notHas inner rfl
      · exact induction (Option.map_eq_none_iff.mp none) isLater

theorem exists_of_has?_eq_some (some : has? tests = some (before, inner)) :
    ∃ after, tests = before ++ .has inner :: after ∧ ∀ other, Predicate.has other ∉ before := by
  fun_induction has? tests generalizing before with
  | case1 => cases some
  | case2 found later =>
      cases some
      exact ⟨later, rfl, fun _ => List.not_mem_nil⟩
  | case3 test tests notHas induction =>
      obtain ⟨⟨front, found⟩, isFound, same⟩ := Option.map_eq_some_iff.mp some
      cases same
      obtain ⟨after, rfl, noneBefore⟩ := induction isFound
      refine ⟨after, rfl, fun other isMember => ?_⟩
      rcases List.mem_cons.mp isMember with rfl | isLater
      · exact notHas other rfl
      · exact noneBefore other isLater

theorem category_of_has {category : Category} {unit : List Token}
    (isUnit : IsUnit scope category unit (.has inner)) : category = .function := by
  cases isUnit with
  | nth isNth isBlob reads =>
      unfold nthTest at reads
      split at reads
      · cases reads
      · split at reads <;> cases reads
  | function => rfl

/-- A level has one `:has(…)` at most. -/
theorem not_mem_after_has
    (wasRead : read scope tokens = .ok (before ++ .has inner :: after, rest)) :
    ∀ other, Predicate.has other ∉ after := by
  obtain ⟨parts, _, testsAre, compound⟩ := read_ok_iff.mp wasRead
  obtain ⟨front, behind, rfl, _, areBehind⟩ := List.map_eq_append_iff.mp testsAre.symm
  obtain ⟨part, later, rfl, isHas, rfl⟩ := List.map_eq_cons_iff.mp areBehind
  intro other isMember
  obtain ⟨second, isSecond, isOther⟩ := List.mem_map.mp isMember
  have unit := compound.units part (by simp)
  have secondUnit := compound.units second (by simp [isSecond])
  rw [isHas] at unit
  rw [isOther] at secondUnit
  have ascends := (List.pairwise_cons.mp (List.pairwise_append.mp compound.ascending).2.1).1
    second isSecond
  rw [category_of_has unit, category_of_has secondUnit] at ascends
  exact absurd ascends (Nat.lt_irrefl _)

theorem length_of_read (wasRead : read scope tokens = .ok (tests, rest)) :
    rest.length < tokens.length := by
  obtain ⟨parts, nonempty, _, compound⟩ := read_ok_iff.mp wasRead
  obtain ⟨part, others, rfl⟩ := List.exists_cons_of_ne_nil nonempty
  obtain ⟨first, behind, unitIs, _⟩ := (compound.units part List.mem_cons_self).starts
  rw [compound.spelled, List.flatMap_cons, unitIs]
  simp only [List.cons_append, List.length_cons, List.length_append]
  omega

end Level

namespace Query

/-- The inner runs of a level: its inner selector, on the nodes below each node that passes the
tests before it. -/
def innerRuns (query : Query) (tests : List Level.Test) (nodes : List NodeId) :
    List (List Token × List NodeId) :=
  match Level.has? tests with
  | none => []
  | some (before, inner) =>
      (nodes.filter fun id => query.Passes before id).map fun id =>
        (inner, query.document.subtree id)

/-- The inner runs of the level at the front of tokens. -/
def asked (query : Query) (tokens : List Token) (nodes : List NodeId) :
    List (List Token × List NodeId) :=
  match Level.read query.scope tokens with
  | .error _ => []
  | .ok (tests, _) => query.innerRuns tests nodes

mutual

/-- The events of a selector on some nodes, with the number of results. -/
inductive Word (query : Query) : Nat → List Token → List NodeId → List Event → Nat → Prop where
  | last {depth predicates selected : Nat} {tokens : List Token} {nodes : List NodeId}
      {inner : List Event} (words : Words query (depth + 1) (query.asked tokens nodes) inner)
      (tested : 1 ≤ predicates) (fewer : selected ≤ nodes.length) :
      Word query depth tokens nodes
        (.enter depth tokens :: inner ++
          [.matched depth predicates nodes.length selected, .leave depth selected]) selected
  /-- The levels on the right have fewer tokens. A union adds up, and any other combinator keeps
  some of the results on its right. -/
  | joined {depth predicates selected others results : Nat} {tokens remainder : List Token}
      {nodes : List NodeId} {inner right : List Event} {combinator : Combinator}
      (words : Words query (depth + 1) (query.asked tokens nodes) inner)
      (tested : 1 ≤ predicates) (fewer : selected ≤ nodes.length)
      (shorter : remainder.length < tokens.length)
      (next : Word query (depth + 1) remainder nodes right others)
      (counts : if combinator = .union then results = selected + others else results ≤ others) :
      Word query depth tokens nodes
        (.enter depth tokens :: inner ++
          .matched depth predicates nodes.length selected :: right ++
            [.combined depth combinator selected results, .leave depth results]) results

/-- The events of several runs at the same depth, one after another. -/
inductive Words (query : Query) : Nat → List (List Token × List NodeId) → List Event → Prop where
  | nil {depth : Nat} : Words query depth [] []
  | cons {depth results : Nat} {tokens : List Token} {nodes : List NodeId}
      {runs : List (List Token × List NodeId)} {events others : List Event}
      (word : Word query depth tokens nodes events results)
      (words : Words query depth runs others) :
      Words query depth ((tokens, nodes) :: runs) (events ++ others)

end

/-- A run with the events of a word, or of the start of one if it fails. -/
structure Follows (query : Query) (depth : Nat) (tokens : List Token) (nodes : List NodeId)
    (run : Traced (List NodeId)) : Prop where
  succeeds : ∀ selected, run.outcome = .ok selected →
    query.Word depth tokens nodes run.events selected.length
  fails : ∀ error, run.outcome = .error error → ∃ more results, more ≠ [] ∧
    query.Word depth tokens nodes (run.events ++ more) results

/-- A filter with the events of several words, or of the start of them if it fails. -/
structure FollowsAll (query : Query) (depth : Nat) (runs : List (List Token × List NodeId))
    (filtered : Traced (List NodeId)) : Prop where
  succeeds : ∀ selected, filtered.outcome = .ok selected → query.Words depth runs filtered.events
  fails : ∀ error, filtered.outcome = .error error → ∃ more, more ≠ [] ∧
    query.Words depth runs (filtered.events ++ more)

variable {query : Query} {tokens rest inner : List Token} {nodes : List NodeId}
  {tests before after : List Level.Test} {id : NodeId} {depth : Nat}
  {runs : List (List Token × List NodeId)}

/-! ## Words that exist -/

theorem weight_of_asked {run : List Token × List NodeId} (isRun : run ∈ query.asked tokens nodes) :
    tokensWeight run.1 < tokensWeight tokens := by
  unfold asked at isRun
  split at isRun
  · cases isRun
  · rename_i tests rest wasRead
    unfold innerRuns at isRun
    split at isRun
    · cases isRun
    · rename_i before inner isHas
      obtain ⟨after, rfl, _⟩ := Level.exists_of_has?_eq_some isHas
      obtain ⟨id, _, rfl⟩ := List.mem_map.mp isRun
      exact (Level.weight_read wasRead).2 inner (by simp)

theorem exists_words (exist : ∀ run ∈ runs, ∃ events results,
    query.Word depth run.1 run.2 events results) : ∃ events, query.Words depth runs events := by
  induction runs with
  | nil => exact ⟨[], .nil⟩
  | cons run runs induction =>
      obtain ⟨⟨events, results, word⟩, others⟩ := List.forall_mem_cons.mp exist
      obtain ⟨behind, words⟩ := induction others
      exact ⟨events ++ behind, .cons word words⟩

/-- Any tokens have a word, as inner selectors weigh less than the tokens they stand in. -/
theorem exists_word (query : Query) (tokens : List Token) (nodes : List NodeId) (depth : Nat) :
    ∃ events results, query.Word depth tokens nodes events results := by
  induction weight : tokensWeight tokens using Nat.strongRecOn generalizing tokens nodes depth with
  | ind count induction =>
      subst weight
      obtain ⟨inner, words⟩ := exists_words fun run isRun =>
        induction _ (weight_of_asked isRun) run.1 run.2 (depth + 1) rfl
      exact ⟨_, 0, .last words (Nat.le_refl 1) (Nat.zero_le _)⟩

/-! ## Testing a level -/

theorem holds_of_ne_has (query : Query) {test : Level.Test} (notHas : ∀ inner, test ≠ .has inner)
    (id : NodeId) (depth : Nat) :
    ∃ passes, Plan.holds query.document (Plan.ofTest query.scope test) id depth =
      Pure.pure passes := by
  cases test with
  | has inner => exact absurd rfl (notHas inner)
  | _ => exact ⟨_, rfl⟩

/-- Tests without an inner selector are made without events. -/
theorem holdsAll_append (noneBefore : ∀ inner, Predicate.has inner ∉ before) :
    Plan.holdsAll query.document ((before ++ tests).map (Plan.ofTest query.scope)) id depth =
      if query.Passes before id then
        Plan.holdsAll query.document (tests.map (Plan.ofTest query.scope)) id depth
      else Pure.pure false := by
  induction before with
  | nil => rw [if_pos (by simp [Passes]), List.nil_append]
  | cons test before induction =>
      have others := induction fun inner isMember =>
        noneBefore inner (List.mem_cons_of_mem _ isMember)
      have notHas (inner : List Token) (same : test = .has inner) : False :=
        noneBefore inner (same ▸ List.mem_cons_self)
      obtain ⟨passes, held⟩ := holds_of_ne_has query notHas id depth
      have holds : query.Holds test id ↔ passes = true := by
        rw [Holds, Plan.outcome_holds_depth _ _ _ 0 depth, held]
        simp
      have passesAll : query.Passes (test :: before) id ↔
          passes = true ∧ query.Passes before id := by
        rw [Passes, List.forall_mem_cons, holds]
        rfl
      rw [List.cons_append, List.map_cons, Plan.holdsAll, held, Traced.pure_bind, others]
      cases passes <;> simp [passesAll]

theorem holdsAll_quiet (query : Query) (noHas : ∀ inner, Predicate.has inner ∉ tests)
    (id : NodeId) (depth : Nat) :
    ∃ passes, Plan.holdsAll query.document (tests.map (Plan.ofTest query.scope)) id depth =
      Pure.pure passes := by
  rw [← List.append_nil tests, holdsAll_append noHas]
  split
  · exact ⟨true, rfl⟩
  · exact ⟨false, rfl⟩

/-- What follows a `:has(…)` adds no events to those of its inner run, and no errors. -/
theorem holdsAll_has (query : Query) (noneAfter : ∀ other, Predicate.has other ∉ after)
    (inner : List Token) (id : NodeId) (depth : Nat) :
    ∃ passes, Plan.holdsAll query.document
        ((Predicate.has inner :: after).map (Plan.ofTest query.scope)) id depth =
      (query.matchesAmong inner (query.document.subtree id) (depth + 1)).map passes := by
  obtain ⟨others, held⟩ := holdsAll_quiet query noneAfter id depth
  have decided (passes : Bool) : (if passes = true then Pure.pure others else Pure.pure false) =
      (Pure.pure (if passes then others else false) : Traced Bool) := by
    cases passes <;> rfl
  refine ⟨fun below => if (query.document.parents below).contains id then others else false, ?_⟩
  rw [List.map_cons, Plan.holdsAll, held]
  simp only [decided, Traced.bind_pure]
  change (Plan.holds query.document (.has (Plan.ofTokens query.scope inner)) id depth).map _ = _
  rw [Plan.holds, matchesAmong, Traced.map, Traced.map, Traced.map]
  cases (Plan.run query.document (Plan.ofTokens query.scope inner) _ _).outcome <;> rfl

theorem FollowsAll.map {filtered : Traced (List NodeId)}
    (follows : query.FollowsAll depth runs filtered) (change : List NodeId → List NodeId) :
    query.FollowsAll depth runs (filtered.map change) where
  succeeds := fun selected succeeded => by
    rw [Traced.outcome_map] at succeeded
    cases outcome : filtered.outcome with
    | error error =>
        rw [outcome] at succeeded
        cases succeeded
    | ok kept => exact follows.succeeds kept outcome
  fails := fun error failed => by
    rw [Traced.outcome_map] at failed
    cases outcome : filtered.outcome with
    | error error => exact follows.fails error outcome
    | ok kept =>
        rw [outcome] at failed
        cases failed

theorem FollowsAll.cons {filtered : Traced (List NodeId)} {events : List Event} {results : Nat}
    (word : query.Word depth tokens nodes events results)
    (follows : query.FollowsAll depth runs filtered) :
    query.FollowsAll depth ((tokens, nodes) :: runs)
      ⟨events ++ filtered.events, filtered.outcome⟩ where
  succeeds := fun selected succeeded => .cons word (follows.succeeds selected succeeded)
  fails := fun error failed => by
    obtain ⟨more, nonempty, words⟩ := follows.fails error failed
    refine ⟨more, nonempty, ?_⟩
    rw [List.append_assoc]
    exact .cons word words

/-- A first run that fails stops all others. -/
theorem FollowsAll.ofFailure {run : Traced (List NodeId)} {error : QueryError}
    (follows : query.Follows depth tokens nodes run) (failed : run.outcome = .error error) :
    query.FollowsAll depth ((tokens, nodes) :: runs) ⟨run.events, .error error⟩ where
  succeeds := fun selected succeeded => by cases succeeded
  fails := fun _ _ => by
    obtain ⟨more, results, nonempty, word⟩ := follows.fails error failed
    obtain ⟨others, words⟩ : ∃ others, query.Words depth runs others :=
      exists_words fun run _ => exists_word query run.1 run.2 depth
    refine ⟨more ++ others, List.append_ne_nil_of_left_ne_nil nonempty others, ?_⟩
    rw [← List.append_assoc]
    exact .cons word words

/-- The test of a level runs its inner selector on the nodes below those that pass the tests before
it. -/
theorem followsAll_filter (wasRead : Level.read query.scope tokens = .ok (tests, rest))
    (follows : ∀ inner, Predicate.has inner ∈ tests → ∀ nodes depth,
      query.Follows depth inner nodes (query.matchesAmong inner nodes depth)) :
    query.FollowsAll (depth + 1) (query.innerRuns tests nodes)
      (Traced.filter (fun id => Plan.holdsAll query.document
        (tests.map (Plan.ofTest query.scope)) id depth) nodes) := by
  cases isHas : Level.has? tests with
  | none =>
      have noHas (inner : List Token) : Predicate.has inner ∉ tests :=
        Level.not_mem_of_has?_eq_none isHas
      have quiet : ∀ id ∈ nodes, ∃ passes, Plan.holdsAll query.document
          (tests.map (Plan.ofTest query.scope)) id depth = Pure.pure passes :=
        fun id _ => holdsAll_quiet query noHas id depth
      obtain ⟨selected, filtered⟩ := Traced.filter_of_pure quiet
      rw [filtered, innerRuns, isHas]
      exact ⟨fun _ _ => .nil, fun _ failed => by cases failed⟩
  | some found =>
      obtain ⟨before, inner⟩ := found
      obtain ⟨after, rfl, noneBefore⟩ := Level.exists_of_has?_eq_some isHas
      have noneAfter := Level.not_mem_after_has wasRead
      have innerFollows := follows inner (by simp)
      rw [innerRuns, isHas]
      dsimp only
      induction nodes with
      | nil => exact ⟨fun _ _ => .nil, fun _ failed => by cases failed⟩
      | cons id nodes induction =>
          rw [Traced.filter_cons, holdsAll_append noneBefore]
          by_cases passes : query.Passes before id
          · rw [if_pos passes, List.filter_cons_of_pos (by simpa using passes), List.map_cons]
            obtain ⟨keeps, held⟩ := holdsAll_has query noneAfter inner id depth
            have first := innerFollows (query.document.subtree id) (depth + 1)
            rw [held]
            generalize query.matchesAmong inner _ _ = run at first ⊢
            cases outcome : run.outcome with
            | error error =>
                have failed : (run.map keeps).outcome = .error error := by
                  rw [Traced.outcome_map, outcome]
                  rfl
                rw [Traced.bind_error failed]
                exact .ofFailure first outcome
            | ok below =>
                have succeeded : (run.map keeps).outcome = .ok (keeps below) := by
                  rw [Traced.outcome_map, outcome]
                  rfl
                rw [Traced.bind_ok succeeded]
                exact .cons (first.succeeds below outcome) (induction.map _)
          · rw [if_neg passes, List.filter_cons_of_neg (by simpa using passes), Traced.pure_bind]
            exact induction.map _

/-! ## Runs -/

/-- The start of a level is the start of a word. -/
theorem exists_word_of_words {inner more : List Event}
    (words : query.Words (depth + 1) (query.asked tokens nodes) (inner ++ more)) :
    ∃ rest results, rest ≠ [] ∧
      query.Word depth tokens nodes (.enter depth tokens :: inner ++ rest) results := by
  have word := Word.last words (Nat.le_refl 1) (Nat.zero_le _)
  refine ⟨more ++ [.matched depth 1 nodes.length 0, .leave depth 0], 0, by simp, ?_⟩
  rwa [List.cons_append, List.append_assoc] at word

/-- What the test of a level leaves behind: a word up to the matches, or the start of one. -/
inductive Tested (query : Query) (depth : Nat) (tokens : List Token) (nodes : List NodeId) :
    Traced (List NodeId) → Prop where
  | matched {predicates : Nat} {inner : List Event} {selected : List NodeId}
      (words : query.Words (depth + 1) (query.asked tokens nodes) inner)
      (tested : 1 ≤ predicates) (fewer : selected.length ≤ nodes.length) :
      Tested query depth tokens nodes
        ⟨.enter depth tokens :: inner ++
          [.matched depth predicates nodes.length selected.length], .ok selected⟩
  | failed {inner rest : List Event} {results : Nat} {error : QueryError} (nonempty : rest ≠ [])
      (word : query.Word depth tokens nodes (.enter depth tokens :: inner ++ rest) results) :
      Tested query depth tokens nodes ⟨.enter depth tokens :: inner, .error error⟩

theorem tested_runLevel (wasRead : Level.read query.scope tokens = .ok (tests, rest))
    (follows : ∀ inner, Predicate.has inner ∈ tests → ∀ nodes depth,
      query.Follows depth inner nodes (query.matchesAmong inner nodes depth)) :
    query.Tested depth tokens nodes
      (Plan.runLevel tokens (tests.map (Plan.ofTest query.scope)).length
        (fun id => Plan.holdsAll query.document (tests.map (Plan.ofTest query.scope)) id depth)
        nodes depth) := by
  have asked : query.asked tokens nodes = query.innerRuns tests nodes := by
    rw [Query.asked, wasRead]
  have followsAll : query.FollowsAll (depth + 1) (query.innerRuns tests nodes) _ :=
    followsAll_filter wasRead follows
  rw [← asked] at followsAll
  rw [Plan.runLevel, Traced.bind_ok rfl]
  cases filtered : (Traced.filter (fun id => Plan.holdsAll query.document
      (tests.map (Plan.ofTest query.scope)) id depth) nodes).outcome with
  | error error =>
      obtain ⟨more, _, words⟩ := followsAll.fails error filtered
      obtain ⟨rest, results, nonempty, word⟩ := exists_word_of_words words
      rw [Traced.bind_error filtered]
      exact .failed nonempty word
  | ok selected =>
      have nonempty : tests ≠ [] := (Level.read_ok_iff_collect.mp wasRead).2
      have tested : 1 ≤ (tests.map (Plan.ofTest query.scope)).length := by
        rw [List.length_map]
        exact List.length_pos_iff.mpr nonempty
      have fewer : selected.length ≤ nodes.length := by
        rw [(Traced.filter_ok_iff.mp filtered).2]
        exact List.length_filter_le _ _
      rw [Traced.bind_ok filtered]
      exact .matched (followsAll.succeeds selected filtered) tested fewer

theorem Follows.ofStart {events rest : List Event} {results : Nat} {error : QueryError}
    {next : List NodeId → Traced (List NodeId)} (nonempty : rest ≠ [])
    (word : query.Word depth tokens nodes (events ++ rest) results) :
    query.Follows depth tokens nodes ((Traced.mk events (.error error)) >>= next) := by
  rw [Traced.bind_error rfl]
  exact ⟨fun _ succeeded => (by cases succeeded), fun _ _ => ⟨_, _, nonempty, word⟩⟩

theorem length_splitCombinator {next : Token} {remainder : List Token} {combinator : Combinator}
    (found : Plan.splitCombinator next rest = .ok (combinator, remainder)) :
    remainder.length ≤ (next :: rest).length := by
  unfold Plan.splitCombinator at found
  split at found
  · split at found
    · cases found
    · split at found <;> cases found
      exact Nat.le_succ _
  · cases found
    exact Nat.le_refl _

theorem length_combine (document : Document) (combinator : Combinator) (left right : List NodeId) :
    if combinator = .union then
      (document.combine combinator left right).length = left.length + right.length
    else (document.combine combinator left right).length ≤ right.length := by
  split
  · rename_i isUnion
    rw [isUnion]
    exact List.length_append
  · rename_i notUnion
    rw [Document.combine_eq_filter notUnion]
    exact List.length_filter_le _ _

/-- Some number of results agrees with any combinator. -/
theorem exists_results (combinator : Combinator) (selected others : Nat) :
    ∃ results, if combinator = .union then results = selected + others else results ≤ others := by
  by_cases isUnion : combinator = .union
  · exact ⟨selected + others, by rw [if_pos isUnion]⟩
  · exact ⟨0, by rw [if_neg isUnion]; exact Nat.zero_le _⟩

/-- The levels on the right go on with the word of a level, and the two events of the combinator
end it. -/
theorem Follows.joined {predicates : Nat} {remainder : List Token} {events : List Event}
    {selected : List NodeId} {combinator : Combinator} {right : Traced (List NodeId)}
    {combine : List NodeId → Traced (List NodeId)}
    (words : query.Words (depth + 1) (query.asked tokens nodes) events)
    (tested : 1 ≤ predicates) (fewer : selected.length ≤ nodes.length)
    (shorter : remainder.length < tokens.length)
    (follows : query.Follows (depth + 1) remainder nodes right)
    (combines : ∀ others, combine others =
      ⟨[.combined depth combinator selected.length
          (query.document.combine combinator selected others).length,
        .leave depth (query.document.combine combinator selected others).length],
        .ok (query.document.combine combinator selected others)⟩) :
    query.Follows depth tokens nodes
      ⟨.enter depth tokens :: events ++
        [.matched depth predicates nodes.length selected.length] ++ (right >>= combine).events,
        (right >>= combine).outcome⟩ := by
  cases outcome : right.outcome with
  | error error =>
      obtain ⟨more, others, nonempty, next⟩ := follows.fails error outcome
      obtain ⟨results, counts⟩ := exists_results combinator selected.length others
      have word := Word.joined words tested fewer shorter next counts
      rw [Traced.bind_error outcome]
      refine ⟨fun _ succeeded => (by cases succeeded), fun _ _ => ?_⟩
      refine ⟨more ++ [.combined depth combinator selected.length results,
        .leave depth results], results, by simp, ?_⟩
      simpa using word
  | ok others =>
      have counts := length_combine query.document combinator selected others
      have word := Word.joined words tested fewer shorter (follows.succeeds others outcome) counts
      rw [Traced.bind_ok outcome, combines]
      refine ⟨fun _ succeeded => ?_, fun _ failed => by cases failed⟩
      cases succeeded
      simpa using word

/-- The events of a run are a word, and those of a run that fails are the start of one. -/
theorem follows_matchesAmong (query : Query) (tokens : List Token) (nodes : List NodeId)
    (depth : Nat) : query.Follows depth tokens nodes (query.matchesAmong tokens nodes depth) := by
  induction tokens using Plan.ofTokens.induct query.scope generalizing nodes depth with
  | case1 tokens error level =>
      rw [matchesAmong, Plan.ofTokens_unreadable level, Plan.run, Traced.bind_ok rfl]
      refine ⟨fun _ succeeded => (by cases succeeded), fun _ _ => ?_⟩
      have words : query.Words (depth + 1) (query.asked tokens nodes) ([] ++ []) := by
        rw [asked, level]
        exact .nil
      exact exists_word_of_words words
  | case2 tokens tests level _ inner =>
      have tested : query.Tested depth tokens nodes _ :=
        tested_runLevel level fun tokens isHas => inner (.has tokens) isHas tokens rfl
      rw [matchesAmong, Plan.ofTokens_final level, Plan.run]
      generalize Plan.runLevel tokens _ _ nodes depth = start at tested ⊢
      cases tested with
      | failed nonempty word => exact .ofStart nonempty word
      | @matched _ inner selected words tested fewer =>
          rw [Traced.bind_ok rfl]
          change query.Follows depth tokens nodes
            ⟨_ ++ [.leave depth selected.length], .ok selected⟩
          refine ⟨fun _ succeeded => ?_, fun _ failed => by cases failed⟩
          cases succeeded
          have word := Word.last words tested fewer
          simpa using word
  | case3 tokens tests next rest level error split _ inner =>
      have tested : query.Tested depth tokens nodes _ :=
        tested_runLevel level fun tokens isHas => inner (.has tokens) isHas tokens rfl
      rw [matchesAmong, Plan.ofTokens_next level, split]
      dsimp only
      rw [Plan.run]
      generalize Plan.runLevel tokens _ _ nodes depth = start at tested ⊢
      cases tested with
      | failed nonempty word => exact .ofStart nonempty word
      | @matched _ _ selected words tested fewer =>
          rw [Traced.bind_ok rfl]
          change query.Follows depth tokens nodes ⟨_ ++ [], .error error⟩
          refine ⟨fun _ succeeded => (by cases succeeded), fun _ _ => ?_⟩
          have word := Word.last words tested fewer
          refine ⟨[.leave depth selected.length], selected.length, by simp, ?_⟩
          simpa using word
  | case4 tokens tests next rest level combinator remainder split _ inner induction =>
      have tested : query.Tested depth tokens nodes _ :=
        tested_runLevel level fun tokens isHas => inner (.has tokens) isHas tokens rfl
      have shorter : remainder.length < tokens.length :=
        Nat.lt_of_le_of_lt (length_splitCombinator split) (Level.length_of_read level)
      have right := induction nodes (depth + 1)
      rw [matchesAmong, Plan.ofTokens_next level, split]
      dsimp only
      rw [Plan.run]
      generalize Plan.runLevel tokens _ _ nodes depth = start at tested ⊢
      cases tested with
      | failed nonempty word => exact .ofStart nonempty word
      | matched words tested fewer =>
          rw [Traced.bind_ok rfl]
          exact .joined words tested fewer shorter right fun _ => rfl

/-! ## Depths -/

theorem exists_of_mem_holdsAll {event : Event}
    (isEvent : event ∈ (Plan.holdsAll query.document (tests.map (Plan.ofTest query.scope)) id
      depth).events) :
    ∃ inner, Predicate.has inner ∈ tests ∧
      event ∈ (query.matchesAmong inner (query.document.subtree id) (depth + 1)).events := by
  induction tests with
  | nil => cases isEvent
  | cons test tests induction =>
      rw [List.map_cons, Plan.holdsAll] at isEvent
      rcases Traced.mem_events_bind isEvent with isFirst | ⟨passes, _, isLater⟩
      · cases test with
        | has inner =>
            refine ⟨inner, List.mem_cons_self, ?_⟩
            change event ∈ (Plan.holds query.document
              (.has (Plan.ofTokens query.scope inner)) id depth).events at isFirst
            rwa [Plan.holds] at isFirst
        | _ => cases isFirst
      · cases passes with
        | false => cases isLater
        | true =>
            obtain ⟨inner, isHas, isInner⟩ := induction isLater
            exact ⟨inner, List.mem_cons_of_mem _ isHas, isInner⟩

/-- The events of a level are at its own depth, or they are those of its tests. -/
theorem depth_of_mem_runLevel {predicates : Nat} {test : NodeId → Traced Bool} {event : Event}
    (isEvent : event ∈ (Plan.runLevel tokens predicates test nodes depth).events) :
    event.depth = depth ∨ ∃ id ∈ nodes, event ∈ (test id).events := by
  rw [Plan.runLevel] at isEvent
  rcases Traced.mem_events_bind isEvent with isEnter | ⟨_, _, isLater⟩
  · rw [List.mem_singleton.mp isEnter]
    exact .inl rfl
  · rcases Traced.mem_events_bind isLater with isTest | ⟨_, _, isMatched⟩
    · exact .inr (Traced.mem_events_filter isTest)
    · rw [List.mem_singleton.mp isMatched]
      exact .inl rfl

theorem depth_le_of_mem_runLevel {event : Event}
    (wasRead : Level.read query.scope tokens = .ok (tests, rest))
    (bounds : ∀ inner, Predicate.has inner ∈ tests → ∀ nodes depth,
      event ∈ (query.matchesAmong inner nodes depth).events →
        event.depth ≤ depth + tokensWeight inner)
    (isEvent : event ∈ (Plan.runLevel tokens (tests.map (Plan.ofTest query.scope)).length
      (fun id => Plan.holdsAll query.document (tests.map (Plan.ofTest query.scope)) id depth)
      nodes depth).events) : event.depth ≤ depth + tokensWeight tokens := by
  rcases depth_of_mem_runLevel isEvent with same | ⟨id, _, isTest⟩
  · rw [same]
    exact Nat.le_add_right _ _
  · obtain ⟨inner, isHas, isInner⟩ := exists_of_mem_holdsAll isTest
    have bound := bounds inner isHas _ _ isInner
    have lighter := (Level.weight_read wasRead).2 inner isHas
    omega

/-- Each level down, inwards or to the right, has lighter tokens. -/
theorem depth_le_of_mem_events {event : Event} (query : Query) (tokens : List Token)
    (nodes : List NodeId) (depth : Nat)
    (isEvent : event ∈ (query.matchesAmong tokens nodes depth).events) :
    event.depth ≤ depth + tokensWeight tokens := by
  induction tokens using Plan.ofTokens.induct query.scope generalizing nodes depth with
  | case1 tokens error level =>
      rw [matchesAmong, Plan.ofTokens_unreadable level, Plan.run, Traced.bind_ok rfl] at isEvent
      rw [List.mem_singleton.mp isEvent]
      exact Nat.le_add_right _ _
  | case2 tokens tests level _ inner =>
      rw [matchesAmong, Plan.ofTokens_final level, Plan.run] at isEvent
      rcases Traced.mem_events_bind isEvent with isLevel | ⟨_, _, isLeave⟩
      · exact depth_le_of_mem_runLevel level
          (fun tokens isHas => inner (.has tokens) isHas tokens rfl) isLevel
      · rw [List.mem_singleton.mp isLeave]
        exact Nat.le_add_right _ _
  | case3 tokens tests next rest level error split _ inner =>
      rw [matchesAmong, Plan.ofTokens_next level, split] at isEvent
      dsimp only at isEvent
      rw [Plan.run] at isEvent
      rcases Traced.mem_events_bind isEvent with isLevel | ⟨_, _, isNone⟩
      · exact depth_le_of_mem_runLevel level
          (fun tokens isHas => inner (.has tokens) isHas tokens rfl) isLevel
      · cases isNone
  | case4 tokens tests next rest level combinator remainder split _ inner induction =>
      rw [matchesAmong, Plan.ofTokens_next level, split] at isEvent
      dsimp only at isEvent
      rw [Plan.run] at isEvent
      rcases Traced.mem_events_bind isEvent with isLevel | ⟨selected, _, isLater⟩
      · exact depth_le_of_mem_runLevel level
          (fun tokens isHas => inner (.has tokens) isHas tokens rfl) isLevel
      · rcases Traced.mem_events_bind isLater with isRight | ⟨others, _, isEnd⟩
        · have bound := induction nodes (depth + 1) isRight
          have lighter := (Level.weight_read level).1
          have notHeavier := Plan.weight_splitCombinator split
          omega
        · have ends : event ∈ [Event.combined depth combinator selected.length
              (query.document.combine combinator selected others).length,
              .leave depth (query.document.combine combinator selected others).length] := isEnd
          simp only [List.mem_cons, List.not_mem_nil, or_false] at ends
          rcases ends with rfl | rfl <;> exact Nat.le_add_right _ _

theorem length_le_byteLength (text : List Char) : text.length ≤ byteLength text := by
  induction text with
  | nil => exact Nat.le_refl _
  | cons c text induction =>
      have positive := c.utf8Size_pos
      rw [List.length_cons, byteLength_cons]
      omega

/-- The protocol of queries: with an answer the events are a word with as many results, without one
they are the start of a word, and no level is deeper than the selector is long in bytes. -/
theorem select_follows (query : Query) (selector : String) :
    (∀ selected, (query.select selector).outcome = .ok selected →
      ∃ tokens, tokenize .selector selector = .ok tokens ∧
        query.Word 0 tokens query.document.all (query.select selector).events selected.length) ∧
      (∀ tokens error, tokenize .selector selector = .ok tokens →
        (query.select selector).outcome = .error error →
          ∃ more results, more ≠ [] ∧
            query.Word 0 tokens query.document.all ((query.select selector).events ++ more)
              results) ∧
        ∀ event ∈ (query.select selector).events, event.depth ≤ byteLength selector.toList := by
  cases lexed : tokenize .selector selector with
  | error error =>
      have notLexed : query.select selector = .fail (.lex error) := by rw [select, lexed]
      rw [notLexed]
      exact ⟨fun _ succeeded => (by cases succeeded), fun _ _ found => (by cases found),
        fun _ isEvent => (by cases isEvent)⟩
  | ok tokens =>
      have ran : query.select selector = query.matchesAmong tokens query.document.all 0 := by
        rw [select, lexed]
      have follows := follows_matchesAmong query tokens query.document.all 0
      rw [ran]
      refine ⟨fun selected succeeded => ⟨tokens, rfl, follows.succeeds selected succeeded⟩, ?_, ?_⟩
      · intro found error isFound failed
        cases isFound
        exact follows.fails error failed
      · intro event isEvent
        have bound := depth_le_of_mem_events query tokens query.document.all 0 isEvent
        have weight := tokensWeight_tokenize lexed
        have bytes := length_le_byteLength selector.toList
        omega

/-- Two arrays are tested with the inner selector, and the comma that nothing follows stops the
second query behind the matches of its level. -/
theorem select_follows_has :
    let query : Query := ⟨.ofTree (.array none [.array none [.scalar none .null]]), ⟨"", []⟩⟩
    (query.select "array:has(null)").events.map Event.depth = [0, 1, 1, 1, 1, 1, 1, 0, 0] ∧
      (∃ tokens, tokenize .selector "array:has(null)" = .ok tokens ∧
        query.Word 0 tokens query.document.all (query.select "array:has(null)").events 1) ∧
        (query.select "array,").events.map Event.depth = [0, 0] ∧
          ∃ tokens more results, more ≠ [] ∧
            query.Word 0 tokens query.document.all ((query.select "array,").events ++ more)
              results := by
  intro query
  have answered : (query.select "array:has(null)").outcome = .ok [1] := by decide +kernel
  have failed : (query.select "array,").outcome = .error (.noSelector 5) := by decide +kernel
  have lexed : tokenize .selector "array," =
      .ok [⟨.nativeKind, "array", 0⟩, ⟨.operator, ",", 5⟩] := by
    decide +kernel
  exact ⟨by decide +kernel, (select_follows query "array:has(null)").1 _ answered,
    by decide +kernel, _, (select_follows query "array,").2.1 _ _ lexed failed⟩

end Query

end TreeQuery
