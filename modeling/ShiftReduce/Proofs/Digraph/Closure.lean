import Mathlib.Algebra.BigOperators.Group.Finset.Basic
import Mathlib.Algebra.Order.BigOperators.Group.Finset
import ShiftReduce.Proofs.Digraph.Roots

/-!
# Unions along the edges are unions over what is reached

A search keeps the nodes it is exploring on a stack of frames. `Exploring` is what each of its
rounds keeps: the innermost node has visited the successors before its next edge, and each of the
others has visited those before the node that was entered from it. Every round follows an edge or
leaves a node, so there are no more rounds than edges and nodes, and a search that ends has visited
the node from which it started. Read `mem_closeSets_iff` first.
-/

namespace ShiftReduce.Digraph

variable {relation initial : List (List Nat)} {w w₀ w₁ start : Walk} {x y z v d root fuel : Nat}
  {rest : List Frame} {s : Search} {stack above below done : List Nat}

/-! ## The nodes being explored -/

/-- A node is entered from a walk while other nodes are being explored: the innermost of them has
visited the successors before that node, and was itself entered in this way. -/
inductive Entered (relation initial : List (List Nat)) (start : Walk) (root : Nat) :
    List Frame → Walk → Nat → Prop
  | root : Entered relation initial start root [] start root
  | inner {parent x edge : Nat} {rest : List Frame} {w₀ w : Walk} {done : List Nat} :
      Entered relation initial start root rest w₀ parent →
      Within relation initial w₀ parent done w → Edge relation parent x →
      (∀ y ∈ (relation[parent]?.getD []).take edge, y ∈ done ∨ y = x) →
      Entered relation initial start root (⟨parent, w₀.stack.length + 1, edge⟩ :: rest) w x

/-- A search that explores what is reached from a node, or has done so. -/
inductive Exploring (relation initial : List (List Nat)) (start : Walk) (root : Nat) :
    Search → Prop
  | ended {w : Walk} : Visited relation initial start root w →
      Exploring relation initial start root ⟨w, []⟩
  | inside {x edge : Nat} {rest : List Frame} {w₀ w : Walk} {done : List Nat} :
      Entered relation initial start root rest w₀ x → Within relation initial w₀ x done w →
      (∀ y ∈ (relation[x]?.getD []).take edge, y ∈ done) →
      Exploring relation initial start root ⟨w, ⟨x, w₀.stack.length + 1, edge⟩ :: rest⟩

theorem Entered.proper (h : Entered relation initial start root rest w x)
    (hstart : Proper relation initial start) : Proper relation initial w := by
  cases h with
  | root => exact hstart
  | inner _ hwithin _ _ => exact hwithin.proper

/-- Entering a node that was not seen. -/
theorem Entered.enter (h : Entered relation initial start root rest w x)
    (hw : Proper relation initial w) (hx : w.mark x = .unseen) :
    Exploring relation initial start root (.enter w x rest) :=
  .inside h (within_enter hw hx) fun _ hy => absurd hy List.not_mem_nil

/-- Going back from a node that was visited: the node from which it was entered has one more
successor behind it. -/
theorem Entered.back (h : Entered relation initial start root rest w₀ x)
    (hvisited : Visited relation initial w₀ x w) :
    Exploring relation initial start root (.back w x rest) := by
  cases h with
  | root => exact .ended hvisited
  | inner houter hwithin hedge hdone =>
      refine .inside houter (hwithin.visit hedge hvisited) fun y hy => ?_
      rcases hdone y hy with hold | rfl
      · exact List.mem_cons_of_mem _ hold
      · exact List.mem_cons_self

/-- Every round of a search keeps what holds of the nodes being explored. -/
theorem Exploring.step (h : Exploring relation initial start root s)
    (hstart : Proper relation initial start) :
    Exploring relation initial start root (s.step relation) := by
  cases h with
  | ended hvisited => exact .ended hvisited
  | @inside x edge rest w₀ w done hentered hwithin hdone =>
      unfold Search.step
      dsimp only
      split
      · rename_i y hy
        have hedge : Edge relation x y := List.mem_of_getElem? hy
        -- the successors up to this edge are those before it and `y`
        have hnext : ∀ z ∈ (relation[x]?.getD []).take (edge + 1), z ∈ done ∨ z = y := by
          intro z hz
          rw [List.take_add_one, hy] at hz
          rcases List.mem_append.mp hz with hold | hnew
          · exact Or.inl (hdone z hold)
          · exact Or.inr (List.mem_singleton.mp hnew)
        split
        · rename_i hunseen
          exact (Entered.inner hentered hwithin hedge hnext).enter hwithin.proper hunseen
        · rename_i hseen
          refine .inside hentered (hwithin.absorb hedge hseen) fun z hz => ?_
          rcases hnext z hz with hold | rfl
          · exact List.mem_cons_of_mem _ hold
          · exact List.mem_cons_self
      · rename_i hnone
        refine hentered.back (hwithin.leave (hentered.proper hstart) fun y hy => hdone y ?_)
        rwa [List.take_of_length_le (List.getElem?_eq_none_iff.mp hnone)]

/-- A search that ends has visited the node from which it started. -/
theorem Exploring.run (h : Exploring relation initial start root s)
    (hstart : Proper relation initial start) (hrun : s.run relation fuel = some w) :
    Visited relation initial start root w := by
  have hended : ∀ {s : Search}, Exploring relation initial start root s → s.frames.isEmpty →
      Visited relation initial start root s.walk := by
    intro s h hempty
    cases h with
    | ended hvisited => exact hvisited
    | inside _ _ _ => cases hempty
  induction fuel generalizing s with
  | zero =>
      rw [Search.run] at hrun
      split at hrun
      · rename_i hempty
        cases hrun
        exact hended h hempty
      · cases hrun
  | succ fuel ih =>
      rw [Search.run] at hrun
      split at hrun
      · rename_i hempty
        cases hrun
        exact hended h hempty
      · exact ih (h.step hstart) hrun

/-! ## The number of rounds -/

/-- The nodes that were not seen. -/
def unseen (marks : List Mark) : Finset Nat :=
  (Finset.range marks.length).filter fun x => marks[x]? = some .unseen

theorem mem_unseen_iff {marks : List Mark} : x ∈ unseen marks ↔ marks[x]? = some .unseen := by
  refine Finset.mem_filter.trans ⟨And.right, fun h => ⟨?_, h⟩⟩
  exact Finset.mem_range.mpr (List.getElem?_eq_some_iff.mp h).1

theorem mem_unseen_of_mark (hx : w.mark x = .unseen) : x ∈ unseen w.marks := by
  have hlt : x < w.marks.length := Walk.lt_of_mark (by rw [hx]; simp)
  rw [Walk.mark, List.getElem?_eq_getElem hlt, Option.getD_some] at hx
  rw [mem_unseen_iff, List.getElem?_eq_getElem hlt, hx]

/-- A node that is marked is seen. -/
theorem unseen_set {marks : List Mark} {mark : Mark} (hmark : mark ≠ .unseen) :
    unseen (marks.set y mark) = (unseen marks).erase y := by
  ext x
  rw [mem_unseen_iff, Finset.mem_erase, mem_unseen_iff, List.getElem?_set]
  by_cases hyx : y = x
  · subst hyx
    by_cases hlt : y < marks.length <;> simp [hlt, hmark]
  · simp [hyx, Ne.symm hyx]

theorem unseen_absorb_subset (w : Walk) (x y : Nat) :
    unseen (w.absorb x y).marks ⊆ unseen w.marks := by
  by_cases hx : w.mark x = .unseen
  · -- a node without a depth keeps its mark
    have hsame : (w.absorb x y).marks = w.marks.set x .unseen := by
      rw [Walk.absorb, hx]
      rfl
    intro z hz
    rw [hsame, mem_unseen_iff, List.getElem?_set] at hz
    by_cases hxz : x = z
    · exact hxz ▸ mem_unseen_of_mark hx
    · rw [if_neg hxz] at hz
      exact mem_unseen_iff.mpr hz
  · have hmeet : (w.mark x).meet (w.mark y) ≠ .unseen := by
      cases hmark : w.mark x <;> cases w.mark y <;> simp_all [Mark.meet]
    rw [Walk.absorb, unseen_set hmeet]
    exact Finset.erase_subset x _

theorem unseen_settle_subset (w : Walk) (x : Nat) (stack : List Nat) :
    unseen (w.settle x stack).marks ⊆ unseen w.marks := by
  induction stack generalizing w with
  | nil => exact Finset.Subset.refl _
  | cons y rest ih =>
      unfold Walk.settle
      split
      · rw [unseen_set (by simp)]
        exact Finset.erase_subset x _
      · refine (ih _).trans ?_
        rw [unseen_set (by simp)]
        exact Finset.erase_subset y _

theorem unseen_leave_subset (w : Walk) (x depth : Nat) :
    unseen (w.leave x depth).marks ⊆ unseen w.marks := by
  unfold Walk.leave
  split
  · exact unseen_settle_subset w x w.stack
  · exact Finset.Subset.refl _

/-- The rounds that a node takes: one for each of its edges and one to leave it. -/
def roundsOf (relation : List (List Nat)) (x : Nat) : Nat :=
  (relation[x]?.getD []).length + 1

/-- The rounds still to come: for each edge that was not followed and each node that was not
left. -/
def Search.work (relation : List (List Nat)) (s : Search) : Nat :=
  (s.frames.map fun frame => (relation[frame.node]?.getD []).length - frame.edge + 1).foldr
      (· + ·) 0 +
    ∑ x ∈ unseen s.walk.marks, roundsOf relation x

/-- Every round follows an edge or leaves a node. -/
theorem Search.work_step (relation : List (List Nat)) (hframes : s.frames ≠ []) :
    (s.step relation).work relation < s.work relation := by
  obtain ⟨w, frames⟩ := s
  cases frames with
  | nil => exact absurd rfl hframes
  | cons frame rest =>
      obtain ⟨x, depth, edge⟩ := frame
      unfold Search.step
      dsimp only
      split
      · rename_i y hy
        have hlt := (List.getElem?_eq_some_iff.mp hy).1
        split
        · rename_i hunseen
          have hsum := Finset.add_sum_erase _ (roundsOf relation) (mem_unseen_of_mark hunseen)
          have hentered : unseen (w.enter y).marks = (unseen w.marks).erase y :=
            unseen_set (by simp)
          simp only [Search.work, Search.enter, List.map_cons, List.foldr_cons, hentered]
          unfold roundsOf at hsum ⊢
          omega
        · have hsum := Finset.sum_le_sum_of_subset (f := roundsOf relation)
            (unseen_absorb_subset w x y)
          simp only [Search.work, List.map_cons, List.foldr_cons]
          unfold roundsOf at hsum ⊢
          omega
      · have hleft := Finset.sum_le_sum_of_subset (f := roundsOf relation)
          (unseen_leave_subset w x depth)
        cases rest with
        | nil =>
            simp only [Search.work, Search.back, List.map_cons, List.foldr_cons, List.map_nil,
              List.foldr_nil]
            omega
        | cons parent rest =>
            have habsorb := Finset.sum_le_sum_of_subset (f := roundsOf relation)
              (unseen_absorb_subset (w.leave x depth) parent.node x)
            simp only [Search.work, Search.back, List.map_cons, List.foldr_cons]
            omega

/-- A search ends, in the same way for every number of rounds that covers those still to come. -/
theorem Search.exists_run (relation : List (List Nat)) (s : Search) :
    ∃ w, ∀ fuel, s.work relation ≤ fuel → s.run relation fuel = some w := by
  induction hwork : s.work relation using Nat.strongRecOn generalizing s with
  | _ n ih =>
      by_cases hframes : s.frames = []
      · refine ⟨s.walk, fun fuel _ => ?_⟩
        cases fuel <;> rw [run, hframes] <;> rfl
      · have hlt := Search.work_step relation hframes
        obtain ⟨w, hw⟩ := ih _ (hwork ▸ hlt) _ rfl
        refine ⟨w, fun fuel hfuel => ?_⟩
        cases fuel with
        | zero => omega
        | succ fuel =>
            rw [run, if_neg (by simpa using hframes)]
            exact hw fuel (by omega)

/-! ## Closing the sets -/

/-- Before anything is explored nothing was seen. -/
theorem proper_start (hbound : Bounded relation initial) :
    Proper relation initial (.start initial) := by
  have hmark : ∀ x, x < initial.length →
      (Walk.start initial).mark x = .unseen := by
    intro x hx
    simp [Walk.mark, Walk.start, hx]
  have hout : ∀ x, (Walk.start initial).mark x = .settled → initial.length ≤ x := by
    intro x hx
    by_contra hlt
    rw [hmark x (Nat.lt_of_not_le hlt)] at hx
    cases hx
  refine ⟨rfl, List.length_map _, List.nodup_nil, ?_, by simp [Walk.start], by simp [Walk.start],
    ?_, fun x v hv => hv, ?_, ?_⟩
  · intro x
    refine ⟨fun hx => absurd hx List.not_mem_nil, ?_⟩
    rintro ⟨d, hd⟩
    by_cases hx : x < initial.length
    · rw [hmark x hx] at hd
      cases hd
    · simp [Walk.mark, Walk.start, hx] at hd
  · exact fun x v hv => ⟨x, .refl, hv⟩
  · rintro x v hx ⟨y, hreach, hv⟩
    -- what counts as settled is no node of the graph and has no edges
    have hle := hout x hx
    rcases hreach.cases_head with rfl | ⟨z, hedge, _⟩
    · exact hv
    · exact absurd (hbound x z hedge).1 (Nat.not_lt_of_le hle)
  · intro x y hx hedge
    exact absurd (hbound x y hedge).1 (Nat.not_lt_of_le (hout x hx))

/-- Exploring a node with nothing waiting ends so, and the node is settled. -/
theorem Visited.settled (h : Visited relation initial w x w₁) (hstack : w.stack = []) :
    w₁.stack = [] ∧ w₁.mark x = .settled := by
  rcases h.outcome with ⟨hsame, hsettled⟩ | ⟨above, hgrown, hdepth, _⟩
  · exact ⟨hsame.trans hstack, hsettled⟩
  · have hmem : x ∈ w₁.stack := by
      rw [hgrown]
      exact List.mem_append_right _ List.mem_cons_self
    have hpos := (h.proper.low x hmem).1
    rw [hstack] at hdepth
    exact absurd hdepth (Nat.not_le_of_lt hpos)

/-- The rounds for exploring a node are among those for all nodes. -/
theorem work_enter_le (hw : Proper relation initial w) (hx : w.mark x = .unseen) :
    (Search.enter w x []).work relation ≤ roundsFor relation initial := by
  have hsum := Finset.add_sum_erase _ (roundsOf relation) (mem_unseen_of_mark hx)
  have hentered : unseen (w.enter x).marks = (unseen w.marks).erase x := unseen_set (by simp)
  have hall : ∑ y ∈ unseen w.marks, roundsOf relation y ≤ roundsFor relation initial := by
    refine (Finset.sum_le_sum_of_subset (Finset.filter_subset _ _)).trans_eq ?_
    rw [hw.marks]
    rfl
  simp only [Search.work, Search.enter, hentered, List.map_cons, List.map_nil, List.foldr_cons,
    List.foldr_nil]
  unfold roundsOf at hsum hall ⊢
  omega

/-- Exploring a node with nothing waiting ends, in the same way for every number of rounds from
`roundsFor` on, with nothing waiting and the node settled. -/
theorem exists_explore (hw : Proper relation initial w) (hstack : w.stack = []) (x : Nat) :
    ∃ w₁, (∀ fuel, roundsFor relation initial ≤ fuel → explore relation fuel w x = some w₁) ∧
      Proper relation initial w₁ ∧ w₁.stack = [] ∧ Keeps w w₁ ∧ w₁.mark x = .settled := by
  unfold explore
  by_cases hx : w.mark x = .unseen
  · obtain ⟨w₁, hrun⟩ := Search.exists_run relation (.enter w x [])
    have hvisited := (Entered.root.enter hw hx).run hw (hrun _ (Nat.le_refl _))
    obtain ⟨hempty, hsettled⟩ := hvisited.settled hstack
    refine ⟨w₁, fun fuel hfuel => ?_, hvisited.proper, hempty, hvisited.keeps, hsettled⟩
    rw [if_pos hx]
    exact hrun fuel (Nat.le_trans (work_enter_le hw hx) hfuel)
  · refine ⟨w, fun _ _ => if_neg hx, hw, hstack, fun _ _ => ⟨rfl, rfl⟩, ?_⟩
    refine (hw.mem_stack_or_settled hx).resolve_left ?_
    rw [hstack]
    exact List.not_mem_nil

/-- Exploring nodes one after the other settles all of them. -/
theorem exists_exploreAll (xs : List Nat) (hw : Proper relation initial w)
    (hstack : w.stack = []) :
    ∃ last, (∀ fuel, roundsFor relation initial ≤ fuel →
        xs.foldlM (explore relation fuel) w = some last) ∧
      Proper relation initial last ∧
      ∀ x, x ∈ xs ∨ w.mark x = .settled → last.mark x = .settled := by
  induction xs generalizing w with
  | nil => exact ⟨w, fun _ _ => rfl, hw, by simp⟩
  | cons x rest ih =>
      obtain ⟨w₁, hexplore, hproper, hempty, hkeeps, hsettled⟩ := exists_explore hw hstack x
      obtain ⟨last, hlast, hlastProper, hall⟩ := ih hproper hempty
      refine ⟨last, fun fuel hfuel => ?_, hlastProper, fun y hy => hall y ?_⟩
      · rw [List.foldlM_cons, hexplore fuel hfuel]
        exact hlast fuel hfuel
      · rcases hy with hy | hold
        · rcases List.mem_cons.mp hy with rfl | hrest
          · exact Or.inr hsettled
          · exact Or.inl hrest
        · exact Or.inr (by rw [(hkeeps y (by rw [hold]; simp)).1, hold])

/-- The walk that closing the sets ends with, the same for every sufficient number of rounds. All
nodes are settled in it. -/
theorem exists_walk (hbound : Bounded relation initial) :
    ∃ last : Walk, (∀ fuel, roundsFor relation initial ≤ fuel →
        closeWithin relation initial fuel = some last.sets) ∧
      closeSets relation initial = last.sets ∧ Proper relation initial last ∧
      ∀ x, last.mark x = .settled := by
  obtain ⟨last, hlast, hproper, hall⟩ :=
    exists_exploreAll (List.range initial.length) (proper_start hbound) rfl
  have hclose : ∀ fuel, roundsFor relation initial ≤ fuel →
      closeWithin relation initial fuel = some last.sets := by
    intro fuel hfuel
    rw [closeWithin, hlast fuel hfuel]
    rfl
  refine ⟨last, hclose, ?_, hproper, fun x => ?_⟩
  · rw [closeSets, hclose _ (Nat.le_refl _)]
    rfl
  · by_cases hx : x < initial.length
    · exact hall x (Or.inl (List.mem_range.mpr hx))
    · rw [Walk.mark, List.getElem?_eq_none]
      · rfl
      · rw [hproper.marks]
        exact Nat.le_of_not_lt hx

/-- The set of a node is the union of the initial sets of all nodes it reaches. -/
theorem mem_closeSets_iff (hbound : Bounded relation initial) :
    v ∈ (closeSets relation initial)[x]?.getD [] ↔ Collects relation initial x v := by
  obtain ⟨last, _, hsets, hproper, hsettled⟩ := exists_walk hbound
  rw [hsets]
  exact ⟨hproper.sound x v, hproper.settled x v (hsettled x)⟩

/-- A set has what its node started with. -/
theorem mem_closeSets_of_initial (hbound : Bounded relation initial)
    (hv : v ∈ initial[x]?.getD []) : v ∈ (closeSets relation initial)[x]?.getD [] :=
  (mem_closeSets_iff hbound).mpr ⟨x, .refl, hv⟩

/-- A set has what the sets of the successors have. -/
theorem mem_closeSets_of_edge (hbound : Bounded relation initial) (hedge : Edge relation x y)
    (hv : v ∈ (closeSets relation initial)[y]?.getD []) :
    v ∈ (closeSets relation initial)[x]?.getD [] :=
  (mem_closeSets_iff hbound).mpr (.of_edge hedge ((mem_closeSets_iff hbound).mp hv))

/-- A set has nothing but what stems from an initial set along edges. -/
theorem closeSets_induction (hbound : Bounded relation initial) {P : Nat → Nat → Prop}
    (hinitial : ∀ x v, v ∈ initial[x]?.getD [] → P x v)
    (hedge : ∀ x y v, Edge relation x y → P y v → P x v)
    (hv : v ∈ (closeSets relation initial)[x]?.getD []) : P x v := by
  obtain ⟨y, hreach, hy⟩ := (mem_closeSets_iff hbound).mp hv
  induction hreach using Relation.ReflTransGen.head_induction_on with
  | refl => exact hinitial y v hy
  | @head z u hstep hrest ih =>
      exact hedge z u v hstep (ih ((mem_closeSets_iff hbound).mpr ⟨y, hrest, hy⟩))

/-- There is a set for each initial one. -/
theorem length_closeSets (hbound : Bounded relation initial) :
    (closeSets relation initial).length = initial.length := by
  obtain ⟨last, _, hsets, hproper, _⟩ := exists_walk hbound
  rw [hsets]
  exact hproper.sets

end ShiftReduce.Digraph
