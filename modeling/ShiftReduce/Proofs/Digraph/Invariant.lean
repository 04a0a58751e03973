import ShiftReduce.Proofs.Digraph.Walk

/-!
# The invariant of the walk

The walk keeps `Proper`: sets hold only what is reached, settled nodes lead to settled nodes and
have their final set, and a waiting node reaches the node at its depth. `Visited` says what a visit
leaves behind: either the node is settled, or it waits above all nodes that waited before and the
nodes above it are explored. `Within` is the state between the visits of two successors.
-/

namespace ShiftReduce.Digraph

variable {relation initial : List (List Nat)} {w w₀ w₁ : Walk} {x y z v d : Nat}
  {stack above below done : List Nat}

/-- What holds of the walk at every time. -/
structure Proper (relation initial : List (List Nat)) (w : Walk) : Prop where
  sets : w.sets.length = initial.length
  marks : w.marks.length = initial.length
  nodup : w.stack.Nodup
  waiting : ∀ x, x ∈ w.stack ↔ ∃ d, w.mark x = .waiting d
  /-- A waiting node reaches the node at its depth. -/
  reaches : ∀ x ∈ w.stack, ∃ y, place w.stack y = w.depth x ∧ Reaches relation x y
  low : ∀ x ∈ w.stack, 0 < w.depth x ∧ w.depth x ≤ place w.stack x
  sound : ∀ x v, v ∈ w.set x → Collects relation initial x v
  starts : ∀ x v, v ∈ initial[x]?.getD [] → v ∈ w.set x
  settled : ∀ x v, w.mark x = .settled → Collects relation initial x v → v ∈ w.set x
  closed : ∀ x y, w.mark x = .settled → Edge relation x y → w.mark y = .settled

/-- A successor that is settled within the set of a node, or waits at no less than its depth. -/
def Met (w : Walk) (x y : Nat) : Prop :=
  (w.mark y = .settled ∧ ∀ v ∈ w.set y, v ∈ w.set x) ∨
    y ∈ w.stack ∧ w.depth x ≤ place w.stack y

/-- The nodes that wait above a node have met all their successors, reach further down, and pass
their depth and set on to that node. -/
def Above (relation : List (List Nat)) (w : Walk) (x : Nat) (above : List Nat) : Prop :=
  ∀ y ∈ above, (∀ z, Edge relation y z → Met w y z) ∧ w.depth x ≤ w.depth y ∧
    w.depth y < place w.stack y ∧ ∀ v ∈ w.set y, v ∈ w.set x

/-- Nodes that were seen keep their marks and sets. -/
def Keeps (w w₁ : Walk) : Prop :=
  ∀ y, w.mark y ≠ .unseen → w₁.mark y = w.mark y ∧ w₁.set y = w.set y

/-- What a visit of a node leaves behind. -/
structure Visited (relation initial : List (List Nat)) (w : Walk) (x : Nat) (w₁ : Walk) :
    Prop where
  proper : Proper relation initial w₁
  keeps : Keeps w w₁
  outcome : (w₁.stack = w.stack ∧ w₁.mark x = .settled) ∨
    ∃ above, w₁.stack = above ++ x :: w.stack ∧ w₁.depth x ≤ w.stack.length ∧
      (∀ z, Edge relation x z → Met w₁ x z) ∧ Above relation w₁ x above

/-- The walk while the successors of a node are visited; `done` are those that were. -/
structure Within (relation initial : List (List Nat)) (w₀ : Walk) (x : Nat) (done : List Nat)
    (w : Walk) : Prop where
  entered : w₀.mark x = .unseen
  proper : Proper relation initial w
  keeps : Keeps w₀ w
  segment : ∃ above, w.stack = above ++ x :: w₀.stack ∧ Above relation w x above
  met : ∀ z ∈ done, Met w x z

theorem Proper.lt_of_mem_stack (hw : Proper relation initial w) (hx : x ∈ w.stack) :
    x < initial.length := by
  obtain ⟨d, hd⟩ := (hw.waiting x).mp hx
  rw [← hw.marks]
  exact Walk.lt_of_mark (by rw [hd]; simp)

theorem Proper.lt_sets (hw : Proper relation initial w) (hx : x ∈ w.stack) : x < w.sets.length := by
  rw [hw.sets]
  exact hw.lt_of_mem_stack hx

/-- No node waits twice. -/
theorem Proper.not_mem_above (hw : Proper relation initial w)
    (hstack : w.stack = above ++ x :: below) : x ∉ above := by
  have hnodup := hw.nodup
  rw [hstack] at hnodup
  exact fun hin => (List.nodup_append.mp hnodup).2.2 x hin x List.mem_cons_self rfl

/-- A node that was seen waits or is settled. -/
theorem Proper.mem_stack_or_settled (hw : Proper relation initial w) (hx : w.mark x ≠ .unseen) :
    x ∈ w.stack ∨ w.mark x = .settled := by
  cases hmark : w.mark x with
  | unseen => exact absurd hmark hx
  | waiting d => exact Or.inl ((hw.waiting x).mpr ⟨d, hmark⟩)
  | settled => exact Or.inr rfl

theorem Proper.not_mem_stack (hw : Proper relation initial w)
    (hx : w.mark x = .unseen ∨ w.mark x = .settled) : x ∉ w.stack := by
  intro hmem
  obtain ⟨d, hd⟩ := (hw.waiting x).mp hmem
  rcases hx with hx | hx <;> rw [hd] at hx <;> cases hx

/-- A node that waits was seen. -/
theorem Proper.seen (hw : Proper relation initial w) (hx : x ∈ w.stack) : w.mark x ≠ .unseen :=
  fun hunseen => hw.not_mem_stack (Or.inl hunseen) hx

theorem Keeps.trans {w₂ : Walk} (h : Keeps w w₁) (hmore : Keeps w₁ w₂) : Keeps w w₂ := by
  intro y hy
  obtain ⟨hmark, hset⟩ := h y hy
  obtain ⟨hmark', hset'⟩ := hmore y (by rw [hmark]; exact hy)
  exact ⟨hmark'.trans hmark, hset'.trans hset⟩

/-- Depths go with the marks. -/
theorem Keeps.depth (h : Keeps w w₁) (hy : w.mark y ≠ .unseen) : w₁.depth y = w.depth y := by
  rw [Walk.depth, Walk.depth, (h y hy).1]

/-! ## Entering and absorbing -/

theorem keeps_enter (hx : w.mark x = .unseen) : Keeps w (w.enter x) := by
  intro y hy
  have hne : y ≠ x := by
    intro hsame
    rw [hsame] at hy
    exact hy hx
  exact ⟨(Walk.mark_enter hx y).trans (if_neg hne), rfl⟩

/-- Entering a node settles none. -/
theorem settled_of_enter (hx : w.mark x = .unseen) (hy : (w.enter x).mark y = .settled) :
    w.mark y = .settled := by
  rw [Walk.mark_enter hx y] at hy
  by_cases hsame : y = x
  · rw [if_pos hsame] at hy
    cases hy
  · rwa [if_neg hsame] at hy

/-- Entering a node keeps the invariant: it waits at its own place. -/
theorem Proper.enter (hw : Proper relation initial w) (hx : w.mark x = .unseen) :
    Proper relation initial (w.enter x) := by
  have hmark := fun z => Walk.mark_enter hx z
  have hkeep := keeps_enter hx
  have hout : x ∉ w.stack := hw.not_mem_stack (Or.inl hx)
  have hdepth : (w.enter x).depth x = w.stack.length + 1 :=
    Walk.depth_of_mark ((hmark x).trans (if_pos rfl))
  have hplace : ∀ y, y ≠ x → place (w.enter x).stack y = place w.stack y := by
    intro y hy
    exact if_neg (Ne.symm hy)
  refine ⟨hw.sets, ?_, List.nodup_cons.mpr ⟨hout, hw.nodup⟩, ?_, ?_, ?_, hw.sound, hw.starts,
    ?_, ?_⟩
  · simp only [Walk.enter, List.length_set]
    exact hw.marks
  · intro y
    rw [hmark y]
    by_cases hy : y = x
    · simp [hy, Walk.enter]
    · rw [if_neg hy, ← hw.waiting y]
      simp [Walk.enter, hy]
  · intro y hy
    rcases List.mem_cons.mp hy with rfl | hold
    · exact ⟨y, by rw [hdepth]; exact place_head, .refl⟩
    · obtain ⟨z, hz, hreach⟩ := hw.reaches y hold
      have hne : z ≠ x := by
        -- the new node stood nowhere before, and no depth is zero
        rintro rfl
        have hpos := (hw.low y hold).1
        have hzero : place w.stack z = 0 := place_of_not_mem hout
        omega
      exact ⟨z, by rw [hplace z hne, hz, hkeep.depth (hw.seen hold)], hreach⟩
  · intro y hy
    rcases List.mem_cons.mp hy with rfl | hold
    · rw [hdepth]
      exact ⟨Nat.succ_pos _, Nat.le_of_eq place_head.symm⟩
    · have hne : y ≠ x := by rintro rfl; exact hout hold
      rw [hplace y hne, hkeep.depth (hw.seen hold)]
      exact hw.low y hold
  · exact fun y v hy hcollects => hw.settled y v (settled_of_enter hx hy) hcollects
  · intro y z hy hedge
    have hz := hw.closed y z (settled_of_enter hx hy) hedge
    exact ((hkeep z (by rw [hz]; simp)).1).trans hz

/-- Right after a node is entered no successor was visited. -/
theorem within_enter (hw : Proper relation initial w) (hx : w.mark x = .unseen) :
    Within relation initial w x [] (w.enter x) :=
  ⟨hx, hw.enter hx, keeps_enter hx, ⟨[], rfl, by simp [Above]⟩, by simp⟩

/-- Absorbing a successor settles none. -/
theorem settled_of_absorb (hx : w.mark x = .waiting d) (hz : (w.absorb x y).mark z = .settled) :
    z ≠ x ∧ w.mark z = .settled := by
  obtain ⟨_, _, _, e, he⟩ := Walk.depth_absorb (y := y) hx
  have hne : z ≠ x := by
    intro hsame
    rw [hsame, he] at hz
    cases hz
  rw [Walk.mark_absorb hx z, if_neg hne] at hz
  exact ⟨hne, hz⟩

/-- What is settled stays settled when a node absorbs a successor. -/
theorem settled_absorb (hx : w.mark x = .waiting d) (hz : w.mark z = .settled) :
    (w.absorb x y).mark z = .settled := by
  have hne : z ≠ x := by
    intro hsame
    rw [hsame, hx] at hz
    cases hz
  rw [Walk.mark_absorb hx z, if_neg hne, hz]

/-- A node that absorbs a successor reaches the node at its new depth, which is no less than one. -/
theorem Proper.low_absorb (hw : Proper relation initial w) (hx : x ∈ w.stack)
    (hedge : Edge relation x y) :
    (∃ u, place w.stack u = (w.absorb x y).depth x ∧ Reaches relation x u) ∧
      0 < (w.absorb x y).depth x ∧ (w.absorb x y).depth x ≤ place w.stack x := by
  obtain ⟨d, hd⟩ := (hw.waiting x).mp hx
  obtain ⟨hless, _, hfrom, _⟩ := Walk.depth_absorb (y := y) hd
  have hle := Nat.le_trans hless (hw.low x hx).2
  rcases hfrom with hsame | ⟨e, hy, hlow⟩
  · refine ⟨?_, ?_, hle⟩
    · rw [hsame]
      exact hw.reaches x hx
    · rw [hsame]
      exact (hw.low x hx).1
  · -- the depth is that of the successor, which waits
    have hmem := (hw.waiting y).mpr ⟨e, hy⟩
    obtain ⟨u, hu, hreach⟩ := hw.reaches y hmem
    have hpos := (hw.low y hmem).1
    rw [Walk.depth_of_mark hy] at hu hpos
    refine ⟨⟨u, hu.trans hlow.symm, hreach.head hedge⟩, ?_, hle⟩
    rwa [hlow]

/-- Absorbing a successor that was seen keeps the invariant. -/
theorem Proper.absorb (hw : Proper relation initial w) (hx : x ∈ w.stack)
    (hedge : Edge relation x y) : Proper relation initial (w.absorb x y) := by
  obtain ⟨d, hd⟩ := (hw.waiting x).mp hx
  obtain ⟨hreaches, hlow⟩ := hw.low_absorb hx hedge
  have hlt := hw.lt_sets hx
  refine ⟨?_, ?_, hw.nodup, ?_, ?_, ?_, ?_, ?_, ?_, ?_⟩
  · rw [Walk.absorb]
    split
    · exact hw.sets
    · rw [List.length_set, hw.sets]
  · rw [Walk.absorb, List.length_set, hw.marks]
  · intro z
    by_cases hz : z = x
    · subst hz
      exact ⟨fun _ => (Walk.depth_absorb hd).2.2.2, fun _ => hx⟩
    · rw [Walk.mark_absorb hd z, if_neg hz]
      exact hw.waiting z
  · intro z hz
    by_cases hzx : z = x
    · subst hzx
      exact hreaches
    · rw [Walk.depth_absorb_of_ne hd hzx]
      exact hw.reaches z hz
  · intro z hz
    by_cases hzx : z = x
    · subst hzx
      exact hlow
    · rw [Walk.depth_absorb_of_ne hd hzx]
      exact hw.low z hz
  · intro z v hv
    by_cases hzx : z = x
    · subst hzx
      rcases (Walk.mem_set_absorb hlt).mp hv with hv | hv
      · exact hw.sound z v hv
      · exact (hw.sound y v hv).of_edge hedge
    · rw [Walk.set_absorb_of_ne hzx] at hv
      exact hw.sound z v hv
  · intro z v hv
    by_cases hzx : z = x
    · subst hzx
      exact (Walk.mem_set_absorb hlt).mpr (Or.inl (hw.starts z v hv))
    · rw [Walk.set_absorb_of_ne hzx]
      exact hw.starts z v hv
  · intro z v hz hcollects
    obtain ⟨hzx, hsettled⟩ := settled_of_absorb hd hz
    rw [Walk.set_absorb_of_ne hzx]
    exact hw.settled z v hsettled hcollects
  · intro z u hz hedge'
    exact settled_absorb hd (hw.closed z u (settled_of_absorb hd hz).2 hedge')

/-- What was met stays met when a node absorbs another. -/
theorem Met.absorb {u : Nat} (hw : Proper relation initial w) (hx : x ∈ w.stack)
    (h : Met w u z) : Met (w.absorb x y) u z := by
  obtain ⟨d, hd⟩ := (hw.waiting x).mp hx
  have hlt := hw.lt_sets hx
  have hgrow : ∀ v ∈ w.set u, v ∈ (w.absorb x y).set u := by
    intro v hv
    by_cases hux : u = x
    · subst hux
      exact (Walk.mem_set_absorb hlt).mpr (Or.inl hv)
    · rwa [Walk.set_absorb_of_ne hux]
  rcases h with ⟨hsettled, hsub⟩ | ⟨hmem, hle⟩
  · have hsettled' := settled_absorb (y := y) hd hsettled
    refine Or.inl ⟨hsettled', fun v hv => ?_⟩
    rw [Walk.set_absorb_of_ne (settled_of_absorb hd hsettled').1] at hv
    exact hgrow v (hsub v hv)
  · refine Or.inr ⟨hmem, Nat.le_trans ?_ hle⟩
    by_cases hux : u = x
    · subst hux
      exact (Walk.depth_absorb hd).1
    · exact Nat.le_of_eq (Walk.depth_absorb_of_ne hd hux)

/-- After a node has absorbed a successor that was seen, it has met it. -/
theorem met_absorb_self (hw : Proper relation initial w) (hx : x ∈ w.stack)
    (hy : w.mark y ≠ .unseen) : Met (w.absorb x y) x y := by
  obtain ⟨d, hd⟩ := (hw.waiting x).mp hx
  have hlt := hw.lt_sets hx
  rcases hw.mem_stack_or_settled hy with hmem | hsettled
  · obtain ⟨e, he⟩ := (hw.waiting y).mp hmem
    have hlow := (hw.low y hmem).2
    rw [Walk.depth_of_mark he] at hlow
    exact Or.inr ⟨hmem, Nat.le_trans ((Walk.depth_absorb hd).2.1 e he) hlow⟩
  · have hsettled' := settled_absorb (y := y) hd hsettled
    refine Or.inl ⟨hsettled', fun v hv => ?_⟩
    rw [Walk.set_absorb_of_ne (settled_of_absorb hd hsettled').1] at hv
    exact (Walk.mem_set_absorb hlt).mpr (Or.inr hv)

/-- The nodes above a node stay explored when it absorbs another. -/
theorem Above.absorb (hw : Proper relation initial w) (hx : x ∈ w.stack) (hnot : x ∉ above)
    (h : Above relation w x above) : Above relation (w.absorb x y) x above := by
  obtain ⟨d, hd⟩ := (hw.waiting x).mp hx
  have hlt := hw.lt_sets hx
  intro z hz
  obtain ⟨hmet, hdepth, hlow, hsub⟩ := h z hz
  have hzx : z ≠ x := by rintro rfl; exact hnot hz
  have hsame := Walk.depth_absorb_of_ne (y := y) hd hzx
  refine ⟨fun u hu => (hmet u hu).absorb hw hx, ?_, ?_, ?_⟩
  · rw [hsame]
    exact Nat.le_trans (Walk.depth_absorb hd).1 hdepth
  · rw [hsame]
    exact hlow
  · intro v hv
    rw [Walk.set_absorb_of_ne hzx] at hv
    exact (Walk.mem_set_absorb hlt).mpr (Or.inl (hsub v hv))

/-! ## Visiting the successors of a node -/

/-- Nodes below others on a stack without repetitions keep their places. -/
theorem place_of_append (hnodup : (above ++ below).Nodup) (hy : y ∈ below) :
    place (above ++ below) y = place below y :=
  place_append_of_not_mem fun hin => (List.nodup_append.mp hnodup).2.2 y hin y hy rfl

/-- What was met stays met when further nodes are visited above. -/
theorem Met.visited (hw : Proper relation initial w) (hnodup : (above ++ w.stack).Nodup)
    (hstack : w₁.stack = above ++ w.stack) (hkeeps : Keeps w w₁) (hy : y ∈ w.stack)
    (h : Met w y z) : Met w₁ y z := by
  rcases h with ⟨hsettled, hsub⟩ | ⟨hmem, hle⟩
  · obtain ⟨hmark, hset⟩ := hkeeps z (by rw [hsettled]; simp)
    refine Or.inl ⟨hmark.trans hsettled, ?_⟩
    rw [hset, (hkeeps y (hw.seen hy)).2]
    exact hsub
  · refine Or.inr ⟨by rw [hstack]; exact List.mem_append_right _ hmem, ?_⟩
    rw [hstack, place_of_append hnodup hmem, hkeeps.depth (hw.seen hy)]
    exact hle

/-- Nodes that are explored stay so when further nodes are visited above. -/
theorem Above.visited {more : List Nat} (hw : Proper relation initial w)
    (hnodup : (more ++ w.stack).Nodup) (hstack : w₁.stack = more ++ w.stack) (hkeeps : Keeps w w₁)
    (hx : x ∈ w.stack) (hsub : above ⊆ w.stack) (h : Above relation w x above) :
    Above relation w₁ x above := by
  intro y hy
  have hmem := hsub hy
  obtain ⟨hmet, hdepth, hlow, hset⟩ := h y hy
  refine ⟨fun z hz => (hmet z hz).visited hw hnodup hstack hkeeps hmem, ?_, ?_, ?_⟩
  · rw [hkeeps.depth (hw.seen hmem), hkeeps.depth (hw.seen hx)]
    exact hdepth
  · rw [hstack, place_of_append hnodup hmem, hkeeps.depth (hw.seen hmem)]
    exact hlow
  · rw [(hkeeps y (hw.seen hmem)).2, (hkeeps x (hw.seen hx)).2]
    exact hset

namespace Within

/-- The node whose successors are visited waits. -/
theorem mem_stack (h : Within relation initial w₀ x done w) : x ∈ w.stack := by
  obtain ⟨above, hstack, _⟩ := h.segment
  rw [hstack]
  exact List.mem_append_right _ List.mem_cons_self

/-- A successor that was seen is absorbed. -/
theorem absorb (h : Within relation initial w₀ x done w) (hedge : Edge relation x y)
    (hy : w.mark y ≠ .unseen) : Within relation initial w₀ x (y :: done) (w.absorb x y) := by
  have hmem := h.mem_stack
  obtain ⟨d, hd⟩ := (h.proper.waiting x).mp hmem
  obtain ⟨above, hstack, habove⟩ := h.segment
  have hnot := h.proper.not_mem_above hstack
  refine ⟨h.entered, h.proper.absorb hmem hedge, ?_,
    ⟨above, hstack, habove.absorb h.proper hmem hnot⟩, ?_⟩
  · intro z hz
    have hzx : z ≠ x := by rintro rfl; exact hz h.entered
    rw [Walk.mark_absorb hd z, if_neg hzx, Walk.set_absorb_of_ne hzx]
    exact h.keeps z hz
  · intro z hz
    rcases List.mem_cons.mp hz with rfl | hold
    · exact met_absorb_self h.proper hmem hy
    · exact (h.met z hold).absorb h.proper hmem

end Within

/-- A successor that waits after its visit, and the nodes above it, are explored once it is
absorbed. -/
theorem above_absorb_successor {more : List Nat} (hproper : Proper relation initial w₁)
    (hx : x ∈ stack) (hstack : w₁.stack = more ++ y :: stack) (hdepth : w₁.depth y ≤ stack.length)
    (hmet : ∀ z, Edge relation y z → Met w₁ y z) (hmore : Above relation w₁ y more) :
    Above relation (w₁.absorb x y) x (more ++ [y]) := by
  have hnodup := hproper.nodup
  rw [hstack] at hnodup
  have hxw : x ∈ w₁.stack := by
    rw [hstack]
    exact List.mem_append_right _ (List.mem_cons_of_mem _ hx)
  have hyw : y ∈ w₁.stack := by
    rw [hstack]
    exact List.mem_append_right _ List.mem_cons_self
  obtain ⟨d, hd⟩ := (hproper.waiting x).mp hxw
  obtain ⟨e, he⟩ := (hproper.waiting y).mp hyw
  have hlt := hproper.lt_sets hxw
  have hne : ∀ u ∈ more ++ [y], u ≠ x := by
    rintro u hu rfl
    rw [List.append_cons] at hnodup
    exact (List.nodup_append.mp hnodup).2.2 u hu u hx rfl
  have hplace : place w₁.stack y = stack.length + 1 := by
    rw [hstack, place_of_append hnodup List.mem_cons_self]
    exact place_head
  have hless : (w₁.absorb x y).depth x ≤ w₁.depth y := by
    rw [Walk.depth_of_mark he]
    exact (Walk.depth_absorb hd).2.1 e he
  have hsub : ∀ v ∈ w₁.set y, v ∈ (w₁.absorb x y).set x := fun v hv =>
    (Walk.mem_set_absorb hlt).mpr (Or.inr hv)
  -- the depth and the set of the successor pass on what those above it had passed to it
  intro u hu
  have hux := hne u hu
  have hsame := Walk.depth_absorb_of_ne (y := y) hd hux
  rw [hsame, Walk.stack_absorb, Walk.set_absorb_of_ne hux]
  rcases List.mem_append.mp hu with hin | hin
  · obtain ⟨humet, hudepth, hulow, husub⟩ := hmore u hin
    exact ⟨fun z hz => (humet z hz).absorb hproper hxw, Nat.le_trans hless hudepth, hulow,
      fun v hv => hsub v (husub v hv)⟩
  · rw [List.mem_singleton.mp hin]
    refine ⟨fun z hz => (hmet z hz).absorb hproper hxw, hless, ?_, hsub⟩
    rw [hplace]
    exact Nat.lt_succ_of_le hdepth

/-- A successor that was not seen is visited and then absorbed. -/
theorem Within.visit (h : Within relation initial w₀ x done w) (hedge : Edge relation x y)
    (hvisited : Visited relation initial w y w₁) :
    Within relation initial w₀ x (y :: done) (w₁.absorb x y) := by
  have hmem := h.mem_stack
  have hkeeps : Keeps w₀ w₁ := h.keeps.trans hvisited.keeps
  have hproper := hvisited.proper
  have hnodup := hproper.nodup
  obtain ⟨above, hstack, habove⟩ := h.segment
  have hsub : above ⊆ w.stack := by
    rw [hstack]
    exact List.subset_append_left _ _
  rcases hvisited.outcome with ⟨hsame, hsettled⟩ | ⟨more, hgrown, hdepth, hmet, hmore⟩
  · -- the successor is settled, and the stack is as before
    have hsame' : w₁.stack = [] ++ w.stack := hsame
    rw [hsame'] at hnodup
    have hold : Above relation w₁ x above :=
      habove.visited h.proper hnodup hsame' hvisited.keeps hmem hsub
    refine Within.absorb ⟨h.entered, hproper, hkeeps, ⟨above, hsame.trans hstack, hold⟩,
      fun z hz => ?_⟩ hedge (by rw [hsettled]; simp)
    exact (h.met z hz).visited h.proper hnodup hsame' hvisited.keeps hmem
  · -- the successor waits with the nodes above it, and all of them join those above `x`
    have hgrown' : w₁.stack = (more ++ [y]) ++ w.stack := by rw [hgrown, List.append_cons]
    rw [hgrown'] at hnodup
    have hxw : x ∈ w₁.stack := by
      rw [hgrown']
      exact List.mem_append_right _ hmem
    obtain ⟨d, hd⟩ := (hproper.waiting x).mp hxw
    have hnot := h.proper.not_mem_above hstack
    have hold : Above relation (w₁.absorb x y) x above :=
      (habove.visited h.proper hnodup hgrown' hvisited.keeps hmem hsub).absorb hproper hxw hnot
    have hnew : Above relation (w₁.absorb x y) x (more ++ [y]) :=
      above_absorb_successor hproper hmem hgrown hdepth hmet hmore
    refine ⟨h.entered, hproper.absorb hxw hedge, ?_, ⟨(more ++ [y]) ++ above, ?_, ?_⟩, ?_⟩
    · intro z hz
      have hzx : z ≠ x := by rintro rfl; exact hz h.entered
      rw [Walk.mark_absorb hd z, if_neg hzx, Walk.set_absorb_of_ne hzx]
      exact hkeeps z hz
    · rw [Walk.stack_absorb, hgrown', hstack, ← List.append_assoc]
    · intro u hu
      rcases List.mem_append.mp hu with hin | hin
      · exact hnew u hin
      · exact hold u hin
    · intro z hz
      rcases List.mem_cons.mp hz with rfl | hin
      · refine met_absorb_self hproper hxw (hproper.seen ?_)
        rw [hgrown]
        exact List.mem_append_right _ List.mem_cons_self
      · exact ((h.met z hin).visited h.proper hnodup hgrown' hvisited.keeps hmem).absorb hproper hxw

end ShiftReduce.Digraph
