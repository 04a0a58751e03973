import Mathlib.Logic.Relation
import Mathlib.Tactic.ByContra
import ShiftReduce.Digraph

/-!
# The walk through a graph

What is reached along the edges of a graph, where nodes stand on the stack of a walk, and what the
operations of the walk change: entering and absorbing touch one node, settling those above a node.
-/

namespace ShiftReduce.Digraph

variable {relation initial : List (List Nat)} {w w₀ w₁ : Walk} {x y z v d : Nat}
  {stack above below done : List Nat}

/-- An edge of the graph. -/
def Edge (relation : List (List Nat)) (x y : Nat) : Prop :=
  y ∈ relation[x]?.getD []

/-- Any number of edges one after the other. -/
def Reaches (relation : List (List Nat)) : Nat → Nat → Prop :=
  Relation.ReflTransGen (Edge relation)

/-- The members of the initial sets of the nodes that are reached. -/
def Collects (relation initial : List (List Nat)) (x v : Nat) : Prop :=
  ∃ y, Reaches relation x y ∧ v ∈ initial[y]?.getD []

/-- Edges join nodes that have an initial set. -/
def Bounded (relation initial : List (List Nat)) : Prop :=
  ∀ x y, Edge relation x y → x < initial.length ∧ y < initial.length

/-- What a successor collects is collected. -/
theorem Collects.of_edge (hedge : Edge relation x y) (h : Collects relation initial y v) :
    Collects relation initial x v := by
  obtain ⟨z, hz, hv⟩ := h
  exact ⟨z, hz.head hedge, hv⟩

/-- What a reached node collects is collected. -/
theorem Collects.of_reaches (hreach : Reaches relation x y) (h : Collects relation initial y v) :
    Collects relation initial x v := by
  obtain ⟨z, hz, hv⟩ := h
  exact ⟨z, hreach.trans hz, hv⟩

/-! ## Places on the stack -/

/-- The place of a waiting node, counted from the bottom of the stack; zero for all others. -/
def place : List Nat → Nat → Nat
  | [], _ => 0
  | z :: rest, y => if z = y then rest.length + 1 else place rest y

theorem place_le : place stack y ≤ stack.length := by
  induction stack with
  | nil => exact Nat.le_refl 0
  | cons z rest ih =>
      unfold place
      split
      · exact Nat.le_refl _
      · exact Nat.le_succ_of_le ih

/-- Pushing other nodes keeps a place. -/
theorem place_append_of_not_mem (h : y ∉ above) : place (above ++ below) y = place below y := by
  induction above with
  | nil => rfl
  | cons z rest ih =>
      rw [List.mem_cons, not_or] at h
      rw [List.cons_append, place, if_neg (Ne.symm h.1), ih h.2]

/-- A node that does not wait has place zero. -/
theorem place_of_not_mem (h : y ∉ stack) : place stack y = 0 := by
  have hnone : place (stack ++ []) y = place [] y := place_append_of_not_mem h
  rwa [List.append_nil] at hnone

/-- The nodes above others have the greater places. -/
theorem lt_place_append_of_mem (h : y ∈ above) : below.length < place (above ++ below) y := by
  induction above with
  | nil => exact absurd h List.not_mem_nil
  | cons z rest ih =>
      rw [List.cons_append, place]
      split
      · rw [List.length_append]
        omega
      · rename_i hne
        rcases List.mem_cons.mp h with rfl | hrest
        · exact absurd rfl hne
        · exact ih hrest

theorem place_head : place (x :: below) x = below.length + 1 := if_pos rfl

/-- A node whose place is not below that of another stands above it or is the same. -/
theorem mem_of_le_place (hle : below.length + 1 ≤ place (above ++ x :: below) y) :
    y ∈ above ∨ y = x := by
  by_cases habove : y ∈ above
  · exact Or.inl habove
  · rw [place_append_of_not_mem habove] at hle
    by_cases hx : y = x
    · exact Or.inr hx
    · rw [place, if_neg (Ne.symm hx)] at hle
      have hbelow : place below y ≤ below.length := place_le
      omega

namespace Walk

/-- The least depth that was met from a waiting node; zero for all others. -/
def depth (w : Walk) (x : Nat) : Nat :=
  match w.mark x with
  | .waiting d => d
  | _ => 0

theorem depth_of_mark (h : w.mark x = .waiting d) : w.depth x = d := by
  rw [depth, h]

/-! ## What the operations of the walk change -/

theorem mark_set (w : Walk) (x z : Nat) (mark : Mark) (hx : x < w.marks.length) :
    { w with marks := w.marks.set x mark }.mark z = if z = x then mark else w.mark z := by
  simp only [Walk.mark, List.getElem?_set]
  by_cases hzx : z = x
  · subst hzx
    simp [hx]
  · simp [hzx, Ne.symm hzx]

theorem lt_of_mark (h : w.mark x ≠ .settled) : x < w.marks.length := by
  by_contra hge
  exact h (by rw [mark, List.getElem?_eq_none (Nat.le_of_not_lt hge)]; rfl)

theorem mark_enter (h : w.mark x = .unseen) (z : Nat) :
    (w.enter x).mark z = if z = x then .waiting (w.stack.length + 1) else w.mark z :=
  mark_set w x z _ (lt_of_mark (by rw [h]; simp))

theorem mark_absorb (hx : w.mark x = .waiting d) (z : Nat) :
    (w.absorb x y).mark z = if z = x then (w.mark x).meet (w.mark y) else w.mark z :=
  mark_set w x z _ (lt_of_mark (by rw [hx]; simp))

theorem stack_absorb : (w.absorb x y).stack = w.stack := rfl

/-- Only the depth of the absorbing node changes. -/
theorem depth_absorb_of_ne (hx : w.mark x = .waiting d) (h : z ≠ x) :
    (w.absorb x y).depth z = w.depth z := by
  rw [depth, depth, mark_absorb hx z, if_neg h]

/-- Only the set of the absorbing node changes. -/
theorem set_absorb_of_ne (h : z ≠ x) : (w.absorb x y).set z = w.set z := by
  by_cases hxy : x = y
  · simp [absorb, set, hxy]
  · simp [absorb, set, hxy, Ne.symm h]

/-- The absorbing node takes over the set of the other. -/
theorem mem_set_absorb (hx : x < w.sets.length) :
    v ∈ (w.absorb x y).set x ↔ v ∈ w.set x ∨ v ∈ w.set y := by
  by_cases hxy : x = y
  · simp [absorb, set, hxy]
  · have hset : (w.absorb x y).set x = Ascending.union (w.set x) (w.set y) := by
      simp [absorb, set, hxy, hx]
    rw [hset, Ascending.mem_union]

/-- Absorbing lowers the depth to that of a node that waits. -/
theorem depth_absorb (hx : w.mark x = .waiting d) :
    (w.absorb x y).depth x ≤ w.depth x ∧
      (∀ e, w.mark y = .waiting e → (w.absorb x y).depth x ≤ e) ∧
      ((w.absorb x y).depth x = w.depth x ∨
        ∃ e, w.mark y = .waiting e ∧ (w.absorb x y).depth x = e) ∧
      ∃ e, (w.absorb x y).mark x = .waiting e := by
  have hmark := mark_absorb (y := y) hx x
  rw [if_pos rfl, hx] at hmark
  rw [depth_of_mark hx]
  cases hy : w.mark y with
  | waiting e =>
      rw [hy, Mark.meet] at hmark
      rw [depth_of_mark hmark]
      refine ⟨Nat.min_le_left d e, ?_, ?_, _, hmark⟩
      · intro e' he
        cases he
        exact Nat.min_le_right d e
      · rcases Nat.le_total d e with hle | hle
        · exact Or.inl (Nat.min_eq_left hle)
        · exact Or.inr ⟨e, rfl, Nat.min_eq_right hle⟩
  | unseen =>
      rw [hy, Mark.meet] at hmark
      · rw [depth_of_mark hmark]
        exact ⟨Nat.le_refl d, by simp, Or.inl rfl, d, hmark⟩
      · simp
  | settled =>
      rw [hy, Mark.meet] at hmark
      · rw [depth_of_mark hmark]
        exact ⟨Nat.le_refl d, by simp, Or.inl rfl, d, hmark⟩
      · simp

/-- Settles one node with a set. -/
def settleOne (w : Walk) (y : Nat) (set : List Nat) : Walk :=
  { w with sets := w.sets.set y set, marks := w.marks.set y .settled }

theorem mark_settleOne (hy : y < w.marks.length) (set : List Nat) (z : Nat) :
    (w.settleOne y set).mark z = if z = y then .settled else w.mark z :=
  mark_set w y z .settled hy

theorem set_settleOne (hy : y < w.sets.length) (set : List Nat) (z : Nat) :
    (w.settleOne y set).set z = if z = y then set else w.set z := by
  by_cases hz : z = y
  · subst hz
    simp [settleOne, Walk.set, hy]
  · simp [settleOne, Walk.set, hz, Ne.symm hz]

/-- Settling goes through the nodes above one by one. -/
theorem settle_cons {rest : List Nat} (hne : y ≠ x) :
    w.settle x (y :: rest) = (w.settleOne y (w.set x)).settle x rest := by
  rw [settle, if_neg hne]
  rfl

/-- Settling gives the nodes above a node its set and settles them and the node itself. -/
theorem settle_spec (below : List Nat) (habove : x ∉ above)
    (hlt : ∀ y ∈ above ++ [x], y < w.marks.length)
    (hlt' : ∀ y ∈ above ++ [x], y < w.sets.length) :
    (w.settle x (above ++ x :: below)).stack = below ∧
      (w.settle x (above ++ x :: below)).marks.length = w.marks.length ∧
      (w.settle x (above ++ x :: below)).sets.length = w.sets.length ∧
      (∀ z, (w.settle x (above ++ x :: below)).mark z =
        if z ∈ above ++ [x] then .settled else w.mark z) ∧
      ∀ z, (w.settle x (above ++ x :: below)).set z = if z ∈ above then w.set x else w.set z := by
  induction above generalizing w with
  | nil =>
      simp only [List.nil_append, settle, if_true, List.length_set, List.not_mem_nil, if_false,
        List.mem_singleton, true_and]
      refine ⟨fun z => ?_, fun z => rfl⟩
      exact mark_set w x z _ (hlt x (by simp))
  | cons y rest ih =>
      rw [List.mem_cons, not_or] at habove
      have hy : y < w.marks.length := hlt y (by simp)
      have hy' : y < w.sets.length := hlt' y (by simp)
      -- the node itself keeps its set while those above it are settled
      have hsame : (w.settleOne y (w.set x)).set x = w.set x := by
        rw [set_settleOne hy', if_neg habove.1]
      obtain ⟨hstack, hmarks, hsets, hmark, hset⟩ := ih (w := w.settleOne y (w.set x)) habove.2
        (fun z hz => by simpa [settleOne] using hlt z (List.mem_cons_of_mem y hz))
        (fun z hz => by simpa [settleOne] using hlt' z (List.mem_cons_of_mem y hz))
      rw [List.cons_append, settle_cons (Ne.symm habove.1)]
      refine ⟨hstack, by simpa [settleOne] using hmarks, by simpa [settleOne] using hsets, ?_, ?_⟩
      · intro z
        rw [hmark z, mark_settleOne hy]
        by_cases hz : z = y <;> simp [hz]
      · intro z
        rw [hset z, hsame, set_settleOne hy']
        by_cases hz : z = y <;> simp [hz]

end Walk

end ShiftReduce.Digraph
