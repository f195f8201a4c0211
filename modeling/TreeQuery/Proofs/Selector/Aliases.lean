import TreeQuery.Proofs.Selector.Protocol
import TreeQuery.Proofs.Selector.TypeReferences

/-!
More aliases.

A scope that keeps the aliases of another one keeps what its references stand for. So it reads the
same levels where the other one does, and a run that succeeds, also with the inner selectors that it
comes to, is the same run in both. Only a run that fails may go on with more aliases.
-/

namespace TreeQuery

/-! ## Scopes -/

namespace PackageScope

variable {scope larger : PackageScope} {text package nickname : String} {reference : TypeName}

/-- A scope with the package of another one, in which the aliases of the other one have the same
targets. -/
structure Extends (larger scope : PackageScope) : Prop where
  sameHome : larger.home = scope.home
  keeps : ∀ entry ∈ scope.aliases, larger.aliases.lookup entry.1 = some entry.2

theorem Extends.lookup (extension : larger.Extends scope)
    (target : scope.aliases.lookup nickname = some package) :
    larger.aliases.lookup nickname = some package :=
  extension.keeps (nickname, package) (mem_aliases_of_lookup target)

theorem Extends.names (extension : larger.Extends scope) (isNamed : scope.Names package) :
    larger.Names package := by
  rcases isNamed with rfl | ⟨entry, isAlias, rfl⟩
  · exact .inl extension.sameHome.symm
  · exact names_of_lookup (extension.keeps entry isAlias)

theorem Extends.denotes (extension : larger.Extends scope)
    (denotes : scope.Denotes text reference) : larger.Denotes text reference := by
  cases denotes with
  | path isPath isQualified isNamed => exact .path isPath isQualified (extension.names isNamed)
  | nickname noSlash isQualified target =>
      exact .nickname noSlash isQualified (extension.lookup target)
  | bare noSlash noColon notEmpty =>
      rw [← extension.sameHome]
      exact .bare noSlash noColon notEmpty

theorem Extends.resolve (extension : larger.Extends scope)
    (resolved : scope.resolve text = .ok reference) : larger.resolve text = .ok reference :=
  resolve_eq_ok_iff.mpr (extension.denotes (resolve_eq_ok_iff.mp resolved))

end PackageScope

/-! ## Levels -/

namespace Level

variable {scope larger : PackageScope} {tokens rest : List Token} {tests : List Test}

/-- Only declared types depend on the scope. -/
theorem IsUnit.of_extends {category : Category} {unit : List Token} {test : Test}
    (isUnit : IsUnit scope category unit test) (extension : larger.Extends scope) :
    IsUnit larger category unit test := by
  cases isUnit with
  | native isNative isWord => exact .native isNative isWord
  | declared isDeclared resolves => exact .declared isDeclared (extension.resolve resolves)
  | key isName => exact .key isName
  | pseudoClass isPseudoClass isWord => exact .pseudoClass isPseudoClass isWord
  | nth isNth isBlob reads => exact .nth isNth isBlob reads
  | function isFunction isBlob reads => exact .function isFunction isBlob reads
  | universal isStar => exact .universal isStar

theorem read_of_extends (wasRead : read scope tokens = .ok (tests, rest))
    (extension : larger.Extends scope) : read larger tokens = .ok (tests, rest) := by
  obtain ⟨parts, nonempty, testsAre, compound⟩ := read_ok_iff.mp wasRead
  have units : ∀ part ∈ parts, IsUnit larger part.category part.tokens part.test :=
    fun part isPart => (compound.units part isPart).of_extends extension
  exact read_ok_iff.mpr ⟨parts, nonempty, testsAre, { compound with units }⟩

end Level

/-! ## Computations -/

namespace Traced

variable {First Second Item : Type} {first other : Traced First}
  {next otherNext : First → Traced Second} {test otherTest : Item → Traced Bool}

/-- Whether a computation is the same as another one wherever that one succeeds. -/
def Keeps (other first : Traced First) : Prop :=
  ∀ result, first.outcome = .ok result → other = first

theorem keeps_self (first : Traced First) : first.Keeps first :=
  fun _ _ => rfl

theorem keeps_of_fails (fails : ∀ result, first.outcome ≠ .ok result) : other.Keeps first :=
  fun result succeeded => absurd succeeded (fails result)

theorem Keeps.bind (keeps : other.Keeps first)
    (nextKeeps : ∀ result, (otherNext result).Keeps (next result)) :
    (other >>= otherNext).Keeps (first >>= next) := by
  intro result succeeded
  cases outcome : first.outcome with
  | error error =>
      rw [bind_error outcome] at succeeded
      cases succeeded
  | ok found =>
      rw [bind_ok outcome] at succeeded
      rw [keeps found outcome, bind_ok outcome, bind_ok outcome,
        nextKeeps found result succeeded]

theorem Keeps.map (keeps : other.Keeps first) (change : First → Second) :
    (other.map change).Keeps (first.map change) := by
  rw [← bind_pure, ← bind_pure]
  exact keeps.bind fun result => keeps_self _

theorem Keeps.filter (keeps : ∀ item, (otherTest item).Keeps (test item)) (items : List Item) :
    (Traced.filter otherTest items).Keeps (Traced.filter test items) := by
  induction items with
  | nil => exact keeps_self _
  | cons item items induction =>
      rw [filter_cons, filter_cons]
      exact (keeps item).bind fun passes => induction.map _

end Traced

/-! ## Plans -/

namespace Plan

variable {document : Document} {scope larger : PackageScope} {tokens : List Token}
  {tests : List Level.Test}

/-- Whether all runs of a plan are the same as those of another one that succeed. -/
def Keeps (document : Document) (other plan : Plan) : Prop :=
  ∀ nodes depth, (run document other nodes depth).Keeps (run document plan nodes depth)

theorem keeps_holds {test : Level.Test}
    (inner : ∀ inner, test = .has inner →
      Keeps document (ofTokens larger inner) (ofTokens scope inner)) (id : NodeId) (depth : Nat) :
    (holds document (ofTest larger test) id depth).Keeps
      (holds document (ofTest scope test) id depth) := by
  cases test with
  | has tokens => exact (inner tokens rfl _ _).map _
  | _ => exact Traced.keeps_self _

theorem keeps_holdsAll
    (inner : ∀ test ∈ tests, ∀ inner, test = .has inner →
      Keeps document (ofTokens larger inner) (ofTokens scope inner)) (id : NodeId) (depth : Nat) :
    (holdsAll document (tests.map (ofTest larger)) id depth).Keeps
      (holdsAll document (tests.map (ofTest scope)) id depth) := by
  induction tests with
  | nil => exact Traced.keeps_self _
  | cons test tests induction =>
      obtain ⟨testKeeps, othersKeep⟩ := List.forall_mem_cons.mp inner
      rw [List.map_cons, List.map_cons, holdsAll, holdsAll]
      refine (keeps_holds testKeeps id depth).bind fun passes => ?_
      cases passes with
      | false => exact Traced.keeps_self _
      | true => exact induction othersKeep

theorem keeps_runLevel
    (inner : ∀ test ∈ tests, ∀ inner, test = .has inner →
      Keeps document (ofTokens larger inner) (ofTokens scope inner)) (nodes : List NodeId)
    (depth : Nat) :
    (runLevel tokens (tests.map (ofTest larger)).length
        (fun id => holdsAll document (tests.map (ofTest larger)) id depth) nodes depth).Keeps
      (runLevel tokens (tests.map (ofTest scope)).length
        (fun id => holdsAll document (tests.map (ofTest scope)) id depth) nodes depth) := by
  rw [List.length_map, List.length_map, runLevel, runLevel]
  refine (Traced.keeps_self _).bind fun _ => ?_
  refine Traced.Keeps.bind (.filter (fun id => keeps_holdsAll inner id depth) nodes) fun _ => ?_
  exact Traced.keeps_self _

/-- A selector that succeeds runs in the same way in a scope with more aliases. -/
theorem keeps_ofTokens (document : Document) (extension : larger.Extends scope)
    (tokens : List Token) : Keeps document (ofTokens larger tokens) (ofTokens scope tokens) := by
  -- The recursion is that of the smaller scope, which reads fewer levels.
  induction tokens using ofTokens.induct scope with
  | case1 tokens error level =>
      intro nodes depth
      rw [ofTokens_unreadable level]
      refine Traced.keeps_of_fails fun result succeeded => ?_
      rw [outcome_run_unreadable] at succeeded
      cases succeeded
  | case2 tokens tests level _ inner =>
      intro nodes depth
      rw [ofTokens_final level, ofTokens_final (Level.read_of_extends level extension), run, run]
      exact (keeps_runLevel inner nodes depth).bind fun selected => Traced.keeps_self _
  | case3 tokens tests next rest level error split _ inner =>
      intro nodes depth
      rw [ofTokens_next level, split]
      exact Traced.keeps_of_fails fun result => run_cut_ne_ok
  | case4 tokens tests next rest level combinator remainder split _ inner induction =>
      intro nodes depth
      rw [ofTokens_next level, ofTokens_next (Level.read_of_extends level extension), split,
        run, run]
      refine (keeps_runLevel inner nodes depth).bind fun selected => ?_
      refine (induction nodes (depth + 1)).bind fun others => ?_
      exact Traced.keeps_self _

end Plan

/-! ## Queries -/

namespace Query

variable {document : Document} {scope larger : PackageScope} {selector : String}
  {nodes : List NodeId}

/-- A selector that succeeds has the same matches, and the same events, in a scope with more
aliases. -/
theorem select_of_extends (extension : larger.Extends scope)
    (succeeded : ((Query.mk document scope).select selector).outcome = .ok nodes) :
    ((Query.mk document larger).select selector).outcome = .ok nodes ∧
      ((Query.mk document larger).select selector).events =
        ((Query.mk document scope).select selector).events := by
  have keeps : ((Query.mk document larger).select selector).Keeps
      ((Query.mk document scope).select selector) := by
    unfold select
    split
    · exact Traced.keeps_self _
    · rename_i tokens _
      exact Plan.keeps_ofTokens document extension tokens _ _
  rw [keeps nodes succeeded]
  exact ⟨succeeded, rfl⟩

/-- An inner selector by the nickname of a package, in a scope with another package. -/
theorem select_of_extends_inner :
    let scope : PackageScope := ⟨"example.com/zoo", [("pets", "example.com/pets")]⟩
    let larger : PackageScope :=
      ⟨"example.com/zoo", [("farm", "example.com/farm"), ("pets", "example.com/pets")]⟩
    let dog : Declaration := ⟨⟨"example.com/pets", "dog"⟩, []⟩
    let document : Document :=
      .ofTree (.keyed none .object [("rex", .scalar (some dog) (.string "x"))])
    let selector := "object:has([pets:dog])"
    larger.Extends scope ∧
      ((Query.mk document scope).select selector).outcome = .ok [0] ∧
      ((Query.mk document larger).select selector).outcome = .ok [0] := by
  intro scope larger dog document selector
  have extension : larger.Extends scope := ⟨rfl, by decide⟩
  have succeeded : ((Query.mk document scope).select selector).outcome = .ok [0] := by
    decide +kernel
  exact ⟨extension, succeeded, (select_of_extends extension succeeded).1⟩

end Query

end TreeQuery
