import ShiftReduce.Proofs.Digraph.Invariant

/-!
# Leaving a node

A node whose depth is its own place is on a cycle with all nodes above it, so that they share its
set when it is left. Exploring a node therefore ends as `Visited` says. Read `Within.leave` first.
-/

namespace ShiftReduce.Digraph

variable {relation initial : List (List Nat)} {w w₀ w₁ : Walk} {x y z v d : Nat}
  {stack above below done : List Nat}

/-! ## Roots -/

/-- A waiting node whose depth is its own place, above the nodes `below`. It is settled when it is
left, with the nodes above it. -/
structure Root (relation : List (List Nat)) (w : Walk) (x : Nat) (above below : List Nat) :
    Prop where
  stack : w.stack = above ++ x :: below
  above : Above relation w x above
  met : ∀ z, Edge relation x z → Met w x z
  depth : w.depth x = below.length + 1

namespace Root

theorem mem_stack (h : Root relation w x above below) (hy : y ∈ above ++ [x]) : y ∈ w.stack := by
  rw [h.stack, List.append_cons]
  exact List.mem_append_left _ hy

/-- The nodes below the root are not settled with it. -/
theorem not_mem_of_below (h : Root relation w x above below) (hw : Proper relation initial w)
    (hy : y ∈ below) : y ∉ above ++ [x] := by
  have hnodup := hw.nodup
  rw [h.stack, List.append_cons] at hnodup
  exact fun hin => (List.nodup_append.mp hnodup).2.2 y hin y hy rfl

/-- A node that stands no deeper than the root is settled with it. -/
theorem mem_of_le_place (h : Root relation w x above below) (hle : w.depth x ≤ place w.stack z) :
    z ∈ above ++ [x] := by
  rw [h.stack, h.depth] at hle
  rcases Digraph.mem_of_le_place hle with hz | rfl
  · exact List.mem_append_left _ hz
  · exact List.mem_append_right _ List.mem_cons_self

/-- The sets of the nodes that are settled are within that of the root. -/
theorem subset (h : Root relation w x above below) (hy : y ∈ above ++ [x]) (hv : v ∈ w.set y) :
    v ∈ w.set x := by
  rcases List.mem_append.mp hy with hin | hin
  · exact (h.above y hin).2.2.2 v hv
  · rwa [List.mem_singleton.mp hin] at hv

/-- A successor of a node that is settled is settled before, within the set of the root, or now. -/
theorem successor (h : Root relation w x above below) (hy : y ∈ above ++ [x])
    (hedge : Edge relation y z) :
    (w.mark z = .settled ∧ ∀ v ∈ w.set z, v ∈ w.set x) ∨ z ∈ above ++ [x] := by
  have hmet : w.depth x ≤ w.depth y ∧ Met w y z := by
    rcases List.mem_append.mp hy with hin | hin
    · exact ⟨(h.above y hin).2.1, (h.above y hin).1 z hedge⟩
    · rw [List.mem_singleton.mp hin] at hedge ⊢
      exact ⟨Nat.le_refl _, h.met z hedge⟩
  rcases hmet.2 with ⟨hsettled, hsub⟩ | ⟨_, hle⟩
  · exact Or.inl ⟨hsettled, fun v hv => h.subset hy (hsub v hv)⟩
  · exact Or.inr (h.mem_of_le_place (Nat.le_trans hmet.1 hle))

/-- Every node that is settled with the root reaches it. -/
theorem reaches (h : Root relation w x above below) (hw : Proper relation initial w)
    (hy : y ∈ above ++ [x]) : Reaches relation y x := by
  -- by induction on the place: the node at the depth of `y` stands below `y` but not below `x`
  have hplace : ∀ n, ∀ y ∈ above ++ [x], place w.stack y = n → Reaches relation y x := by
    intro n
    induction n using Nat.strongRecOn with
    | _ n ih =>
        intro y hy hn
        rcases List.mem_append.mp hy with hin | hin
        · obtain ⟨_, hle, hlow, _⟩ := h.above y hin
          obtain ⟨z, hz, hreach⟩ := hw.reaches y (h.mem_stack hy)
          have hnext : z ∈ above ++ [x] := h.mem_of_le_place (by omega)
          exact hreach.trans (ih (place w.stack z) (by omega) z hnext rfl)
        · rw [List.mem_singleton.mp hin]
          exact .refl
  exact hplace _ y hy rfl

/-- What the nodes that are settled collect is in the set of the root. -/
theorem collects (h : Root relation w x above below) (hw : Proper relation initial w)
    (hy : y ∈ above ++ [x]) (hcollects : Collects relation initial y v) : v ∈ w.set x := by
  obtain ⟨z, hreach, hv⟩ := hcollects
  induction hreach using Relation.ReflTransGen.head_induction_on with
  | refl => exact h.subset hy (hw.starts z v hv)
  | @head y u hedge hrest ih =>
      rcases h.successor hy hedge with ⟨hsettled, hsub⟩ | hu
      · exact hsub v (hw.settled u v hsettled ⟨z, hrest, hv⟩)
      · exact ih hu

/-- What settling the root changes. -/
theorem settle_spec (h : Root relation w x above below) (hw : Proper relation initial w) :
    (w.settle x w.stack).stack = below ∧
      (w.settle x w.stack).marks.length = w.marks.length ∧
      (w.settle x w.stack).sets.length = w.sets.length ∧
      (∀ z, (w.settle x w.stack).mark z = if z ∈ above ++ [x] then .settled else w.mark z) ∧
      ∀ z, (w.settle x w.stack).set z = if z ∈ above then w.set x else w.set z := by
  have hlt : ∀ y ∈ above ++ [x], y < initial.length := fun y hy =>
    hw.lt_of_mem_stack (h.mem_stack hy)
  rw [h.stack]
  exact Walk.settle_spec below (hw.not_mem_above h.stack) (by rwa [hw.marks]) (by rwa [hw.sets])

theorem mark_settle (h : Root relation w x above below) (hw : Proper relation initial w) (z : Nat) :
    (w.settle x w.stack).mark z = if z ∈ above ++ [x] then .settled else w.mark z :=
  (h.settle_spec hw).2.2.2.1 z

/-- The nodes that are settled get the set of the root. -/
theorem set_settle (h : Root relation w x above below) (hw : Proper relation initial w)
    (hy : y ∈ above ++ [x]) : (w.settle x w.stack).set y = w.set x := by
  rw [(h.settle_spec hw).2.2.2.2 y]
  rcases List.mem_append.mp hy with hin | hin
  · rw [if_pos hin]
  · rw [List.mem_singleton.mp hin, if_neg (hw.not_mem_above h.stack)]

theorem set_settle_of_not_mem (h : Root relation w x above below)
    (hw : Proper relation initial w) (hy : y ∉ above ++ [x]) :
    (w.settle x w.stack).set y = w.set y := by
  rw [(h.settle_spec hw).2.2.2.2 y, if_neg fun hin => hy (List.mem_append_left _ hin)]

/-- The nodes below the root keep their depths and their places. -/
theorem low_settle (h : Root relation w x above below) (hw : Proper relation initial w)
    (hy : y ∈ below) :
    (w.settle x w.stack).depth y = w.depth y ∧ y ∈ w.stack ∧
      place w.stack y = place below y := by
  have hnodup := hw.nodup
  rw [h.stack, List.append_cons] at hnodup
  rw [Walk.depth, Walk.depth, h.mark_settle hw y, if_neg (h.not_mem_of_below hw hy), h.stack,
    List.append_cons]
  exact ⟨rfl, List.mem_append_right _ hy, place_of_append hnodup hy⟩

/-- A node below the root still reaches the node at its depth. -/
theorem reaches_settle (h : Root relation w x above below) (hw : Proper relation initial w)
    (hy : y ∈ below) :
    ∃ z, place below z = (w.settle x w.stack).depth y ∧ Reaches relation y z := by
  obtain ⟨hdepth, hmem, hplace⟩ := h.low_settle hw hy
  obtain ⟨z, hz, hreach⟩ := hw.reaches y hmem
  have hlow := (hw.low y hmem).2
  have hle : place below y ≤ below.length := place_le
  have hout : z ∉ above ++ [x] := by
    intro hin
    -- the nodes that are settled have greater places than those below the root
    have hgt : below.length < place ((above ++ [x]) ++ below) z := lt_place_append_of_mem hin
    rw [← List.append_cons, ← h.stack] at hgt
    omega
  refine ⟨z, ?_, hreach⟩
  rw [hdepth, ← hz, h.stack, List.append_cons, place_append_of_not_mem hout]

/-- Settling the root keeps the invariant. -/
theorem proper_settle (h : Root relation w x above below) (hw : Proper relation initial w) :
    Proper relation initial (w.settle x w.stack) := by
  obtain ⟨hstack, hmarks, hsets, hmark, _⟩ := h.settle_spec hw
  refine ⟨hsets.trans hw.sets, hmarks.trans hw.marks, ?_, ?_, ?_, ?_, ?_, ?_, ?_, ?_⟩
  · have hnodup := hw.nodup
    rw [h.stack] at hnodup
    rw [hstack]
    exact (List.nodup_cons.mp (List.nodup_append.mp hnodup).2.1).2
  · intro y
    rw [hstack, hmark y]
    by_cases hy : y ∈ above ++ [x]
    · rw [if_pos hy]
      exact ⟨fun hin => absurd hy (h.not_mem_of_below hw hin), by simp⟩
    · rw [if_neg hy, ← hw.waiting y, h.stack, List.append_cons, List.mem_append]
      exact ⟨Or.inr, fun hin => hin.resolve_left hy⟩
  · intro y hy
    rw [hstack] at hy ⊢
    exact h.reaches_settle hw hy
  · intro y hy
    rw [hstack] at hy ⊢
    obtain ⟨hsame, hmem, hplace⟩ := h.low_settle hw hy
    rw [hsame, ← hplace]
    exact hw.low y hmem
  · intro y v hv
    by_cases hy : y ∈ above ++ [x]
    · rw [h.set_settle hw hy] at hv
      exact .of_reaches (h.reaches hw hy) (hw.sound x v hv)
    · rw [h.set_settle_of_not_mem hw hy] at hv
      exact hw.sound y v hv
  · intro y v hv
    by_cases hy : y ∈ above ++ [x]
    · rw [h.set_settle hw hy]
      exact h.collects hw hy ⟨y, .refl, hv⟩
    · rw [h.set_settle_of_not_mem hw hy]
      exact hw.starts y v hv
  · intro y v hsettled hcollects
    by_cases hy : y ∈ above ++ [x]
    · rw [h.set_settle hw hy]
      exact h.collects hw hy hcollects
    · rw [hmark y, if_neg hy] at hsettled
      rw [h.set_settle_of_not_mem hw hy]
      exact hw.settled y v hsettled hcollects
  · intro y z hsettled hedge
    rw [hmark z]
    by_cases hz : z ∈ above ++ [x]
    · rw [if_pos hz]
    · rw [if_neg hz]
      by_cases hy : y ∈ above ++ [x]
      · exact ((h.successor hy hedge).resolve_right hz).1
      · rw [hmark y, if_neg hy] at hsettled
        exact hw.closed y z hsettled hedge

end Root

/-- Leaving a node all of whose successors were visited ends its visit. -/
theorem Within.leave (h : Within relation initial w₀ x done w) (hw₀ : Proper relation initial w₀)
    (hdone : ∀ y, Edge relation x y → y ∈ done) :
    Visited relation initial w₀ x (w.leave x (w₀.stack.length + 1)) := by
  obtain ⟨above, hstack, habove⟩ := h.segment
  obtain ⟨d, hd⟩ := (h.proper.waiting x).mp h.mem_stack
  have hmet : ∀ z, Edge relation x z → Met w x z := fun z hz => h.met z (hdone z hz)
  have hdepth := Walk.depth_of_mark hd
  unfold Walk.leave
  by_cases hown : w.mark x = .waiting (w₀.stack.length + 1)
  · rw [if_pos hown]
    have hroot : Root relation w x above w₀.stack :=
      ⟨hstack, habove, hmet, Walk.depth_of_mark hown⟩
    have hsettled : (w.settle x w.stack).mark x = .settled := by
      rw [hroot.mark_settle h.proper x, if_pos (List.mem_append_right _ List.mem_cons_self)]
    refine ⟨hroot.proper_settle h.proper, ?_,
      Or.inl ⟨(hroot.settle_spec h.proper).1, hsettled⟩⟩
    intro y hy
    have hout : y ∉ above ++ [x] := by
      intro hin
      -- what stands above the old stack had not been seen when `x` was entered
      have hseen := (h.keeps y hy).1
      rcases hw₀.mem_stack_or_settled hy with hold | hold
      · exact hroot.not_mem_of_below h.proper hold hin
      · rw [hold] at hseen
        exact h.proper.not_mem_stack (Or.inr hseen) (hroot.mem_stack hin)
    rw [hroot.mark_settle h.proper y, if_neg hout, hroot.set_settle_of_not_mem h.proper hout]
    exact h.keeps y hy
  · rw [if_neg hown]
    refine ⟨h.proper, h.keeps, Or.inr ⟨above, hstack, ?_, hmet, habove⟩⟩
    have hlow := (h.proper.low x h.mem_stack).2
    have hnodup := h.proper.nodup
    rw [hstack] at hlow hnodup
    rw [place_of_append hnodup List.mem_cons_self, place_head] at hlow
    have hne : d ≠ w₀.stack.length + 1 := by
      rintro rfl
      exact hown hd
    omega

end ShiftReduce.Digraph
