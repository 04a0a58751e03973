import Mathlib.Data.List.Sort
import ShiftReduce.Proofs.Collections
import ShiftReduce.Proofs.Digraph.Closure
import ShiftReduce.Proofs.Rounds

/-!
# What closing the sets of a graph gives

Ascending lists stay ascending through every round, and two of them with the same members are the
same list, so nodes on a common cycle end with one set. Read `closeSets_unions` first.
-/

namespace ShiftReduce.Digraph

variable {relation initial : List (List Nat)} {w w₁ : Walk} {x y fuel : Nat} {stack : List Nat}
  {s : Search}

/-! ## Ascending sets -/

/-- All sets of the walk are ascending lists. -/
def Walk.Ascends (w : Walk) : Prop :=
  ∀ set ∈ w.sets, set.Pairwise (· < ·)

namespace Walk.Ascends

theorem set (h : w.Ascends) (x : Nat) : (w.set x).Pairwise (· < ·) := by
  unfold Walk.set
  cases hx : w.sets[x]? with
  | none => exact List.Pairwise.nil
  | some set => exact h set (List.mem_of_getElem? hx)

/-- Replacing a set by an ascending one. -/
theorem replace (h : w.Ascends) {set : List Nat} (hset : set.Pairwise (· < ·)) (x : Nat)
    {marks : List Mark} : Walk.Ascends ⟨w.sets.set x set, marks, stack⟩ := by
  intro other hother
  rcases List.mem_or_eq_of_mem_set hother with hold | rfl
  · exact h other hold
  · exact hset

theorem absorb (h : w.Ascends) (x y : Nat) : (w.absorb x y).Ascends := by
  unfold Walk.absorb
  split
  · exact h
  · exact h.replace (Ascending.pairwise_union (h.set x)) x

theorem settle (h : w.Ascends) (x : Nat) (stack : List Nat) : (w.settle x stack).Ascends := by
  induction stack generalizing w with
  | nil => exact h
  | cons y rest ih =>
      unfold Walk.settle
      split
      · exact h
      · exact ih (h.replace (h.set x) y)

theorem leave (h : w.Ascends) (x depth : Nat) : (w.leave x depth).Ascends := by
  unfold Walk.leave
  split
  · exact h.settle x w.stack
  · exact h

theorem back (h : w.Ascends) (x : Nat) (frames : List Frame) :
    (Search.back w x frames).walk.Ascends := by
  cases frames with
  | nil => exact h
  | cons parent rest => exact h.absorb parent.node x

end Walk.Ascends

/-- A round keeps the sets ascending. -/
theorem Search.ascends_step (h : s.walk.Ascends) (relation : List (List Nat)) :
    (s.step relation).walk.Ascends := by
  unfold Search.step
  split
  · exact h
  · split
    · dsimp only
      split
      · exact h
      · exact h.absorb _ _
    · exact (h.leave _ _).back _ _

/-- The rounds of a search keep the sets ascending. -/
theorem Search.ascends_run (h : s.walk.Ascends) (hrun : s.run relation fuel = some w) :
    w.Ascends := by
  induction fuel generalizing s with
  | zero =>
      rw [run] at hrun
      split at hrun <;> cases hrun
      exact h
  | succ fuel ih =>
      rw [run] at hrun
      split at hrun
      · cases hrun
        exact h
      · exact ih (Search.ascends_step h relation) hrun

/-- Exploring nodes one after the other keeps the sets ascending. -/
theorem ascends_exploreAll {xs : List Nat} (h : w.Ascends)
    (hexplore : xs.foldlM (explore relation fuel) w = some w₁) : w₁.Ascends := by
  induction xs generalizing w with
  | nil =>
      cases hexplore
      exact h
  | cons x rest ih =>
      rw [List.foldlM_cons] at hexplore
      obtain ⟨w₂, hfirst, hrest⟩ := Option.bind_eq_some_iff.mp hexplore
      refine ih ?_ hrest
      unfold explore at hfirst
      split at hfirst
      · have hentered : (Search.enter w x []).walk.Ascends := h
        exact Search.ascends_run hentered hfirst
      · cases hfirst
        exact h

/-- Closing ascending sets gives ascending sets. -/
theorem pairwise_closeSets (h : ∀ set ∈ initial, set.Pairwise (· < ·)) :
    ∀ set ∈ closeSets relation initial, set.Pairwise (· < ·) := by
  unfold closeSets closeWithin
  cases hlast : (List.range initial.length).foldlM
      (explore relation (roundsFor relation initial)) (.start initial) with
  | none => simp
  | some last => exact ascends_exploreAll (w := .start initial) h hlast

/-! ## Unions over what is reached -/

/-- The sets are the unions of the initial sets over what each node reaches, as ascending lists. -/
structure Unions (relation initial sets : List (List Nat)) : Prop where
  length : sets.length = initial.length
  ascending : ∀ set ∈ sets, set.Pairwise (· < ·)
  mem_iff : ∀ {x : Nat} {set : List Nat}, sets[x]? = some set →
    ∀ v, v ∈ set ↔ ∃ y, Reaches relation x y ∧ ∃ start, initial[y]? = some start ∧ v ∈ start
  /-- Nodes that reach each other have the same set. -/
  shared : ∀ {x y : Nat}, Reaches relation x y → Reaches relation y x → sets[x]? = sets[y]?

/-- Adjacency lists of the nodes of a graph join its nodes. -/
theorem bounded_of_rows (hrows : relation.length = initial.length)
    (hedges : ∀ row ∈ relation, ∀ y ∈ row, y < initial.length) : Bounded relation initial := by
  intro x y hedge
  unfold Edge at hedge
  cases hrow : relation[x]? with
  | none =>
      rw [hrow] at hedge
      exact absurd hedge List.not_mem_nil
  | some row =>
      rw [hrow] at hedge
      rw [← hrows]
      exact ⟨(List.getElem?_eq_some_iff.mp hrow).1,
        hrows ▸ hedges row (List.mem_of_getElem? hrow) y hedge⟩

/-- For every family of ascending sets and every graph on them, whatever its cycles, loops and
repeated edges are, the search comes to its end within one round for each edge and each node, and
the sets are the unions over what each node reaches. -/
theorem closeSets_unions (hrows : relation.length = initial.length)
    (hedges : ∀ row ∈ relation, ∀ y ∈ row, y < initial.length)
    (hsets : ∀ set ∈ initial, set.Pairwise (· < ·)) :
    (∀ fuel, roundsFor relation initial ≤ fuel →
      closeWithin relation initial fuel = some (closeSets relation initial)) ∧
    Unions relation initial (closeSets relation initial) := by
  have hbound := bounded_of_rows hrows hedges
  have hlength := length_closeSets hbound
  have hascending : ∀ set ∈ closeSets relation initial, set.Pairwise (· < ·) :=
    pairwise_closeSets hsets
  have hmem : ∀ {x set}, (closeSets relation initial)[x]? = some set → ∀ v, v ∈ set ↔
      ∃ y, Reaches relation x y ∧ ∃ start, initial[y]? = some start ∧ v ∈ start := by
    intro x set hset v
    have hiff := mem_closeSets_iff (x := x) (v := v) hbound
    rw [hset] at hiff
    refine hiff.trans (exists_congr fun y => and_congr_right fun _ => ?_)
    cases initial[y]? <;> simp
  obtain ⟨last, hclose, hlast, _, _⟩ := exists_walk hbound
  refine ⟨fun fuel hfuel => by rw [hlast, hclose fuel hfuel], hlength, hascending, hmem, ?_⟩
  intro x y hxy hyx
  rcases hxy.cases_head with rfl | ⟨z, hout, _⟩
  · rfl
  rcases hxy.cases_tail with rfl | ⟨u, _, hin⟩
  · rfl
  -- both are nodes, and what one of them reaches the other reaches too
  obtain ⟨first, hfirst⟩ : ∃ first, (closeSets relation initial)[x]? = some first :=
    ⟨_, List.getElem?_eq_getElem (hlength ▸ (hbound x z hout).1)⟩
  obtain ⟨second, hsecond⟩ : ∃ second, (closeSets relation initial)[y]? = some second :=
    ⟨_, List.getElem?_eq_getElem (hlength ▸ (hbound u y hin).2)⟩
  rw [hfirst, hsecond, Option.some.injEq]
  refine (hascending first (List.mem_of_getElem? hfirst)).eq_of_mem_iff
    (hascending second (List.mem_of_getElem? hsecond)) fun v => ?_
  rw [hmem hfirst, hmem hsecond]
  exact ⟨fun ⟨n, hn, hv⟩ => ⟨n, hyx.trans hn, hv⟩, fun ⟨n, hn, hv⟩ => ⟨n, hxy.trans hn, hv⟩⟩

/-- A graph with a cycle, a repeated edge, a loop and a node apart. -/
def tangle : List (List Nat) := [[1, 1], [0, 2], [2], []]

/-- Sets for the nodes of the graph. -/
def tangleSets : List (List Nat) := [[0, 5], [3], [1], []]

theorem closeSets_unions_tangle :
    tangle.length = tangleSets.length ∧ (∀ row ∈ tangle, ∀ y ∈ row, y < tangleSets.length) ∧
      (∀ set ∈ tangleSets, set.Pairwise (· < ·)) ∧
      (∀ fuel, roundsFor tangle tangleSets ≤ fuel →
        closeWithin tangle tangleSets fuel = some [[0, 1, 3, 5], [0, 1, 3, 5], [1], []]) ∧
      Unions tangle tangleSets [[0, 1, 3, 5], [0, 1, 3, 5], [1], []] := by
  have hrows : tangle.length = tangleSets.length := rfl
  have hedges : ∀ row ∈ tangle, ∀ y ∈ row, y < tangleSets.length := by decide
  have hsets : ∀ set ∈ tangleSets, set.Pairwise (· < ·) := by decide
  have hclosed : closeSets tangle tangleSets = [[0, 1, 3, 5], [0, 1, 3, 5], [1], []] := by decide
  have hunions := closeSets_unions hrows hedges hsets
  rw [hclosed] at hunions
  exact ⟨hrows, hedges, hsets, hunions⟩

end ShiftReduce.Digraph
