import ShiftReduce.Proofs.Automaton.Items

/-!
# Closed sets of items

The closure of a list of places is the least list that has them and, with every place, the first
places of the productions it calls for. Its steps are bounded by the number of productions, so that
it never stops early. Reading a symbol moves the dots over it and closes what that gives; the
theorems about `closure` and `goto` say so by production and dot.
-/

namespace ShiftReduce.Automaton

open Grammar

variable {α : Type} {g : Grammar α} {fuel n i j dot : Nat} {added pending items : List Nat}
  {s : Symbol} {name : String}

theorem mem_fresh {productions : List Nat} :
    i ∈ fresh added productions ↔ i ∈ productions ∧ i ∉ added := by
  simp [fresh]

theorem nodup_fresh (productions : List Nat) : (fresh added productions).Nodup :=
  (Ordered.nodup_ofList productions).filter _

/-- No production is added twice. -/
theorem nodup_append_fresh (hnodup : added.Nodup) (productions : List Nat) :
    (added ++ fresh added productions).Nodup := by
  refine List.nodup_append.mpr ⟨hnodup, nodup_fresh productions, fun i hi j hj hsame => ?_⟩
  rw [hsame] at hi
  exact (mem_fresh.mp hj).2 hi

/-! ## Closing pending places -/

/-- Every production that is added pays for the step that its first item will take. -/
theorem length_pending_le (productions : List Nat) {id : Nat}
    (hfuel : (id :: pending).length + n ≤ fuel + 1 + added.length) :
    (pending ++ (fresh added productions).filterMap g.firstItemOf?).length + n ≤
      fuel + (added ++ fresh added productions).length := by
  have hshort := List.length_filterMap_le g.firstItemOf? (fresh added productions)
  simp only [List.length_append, List.length_cons] at hfuel ⊢
  omega

/-- Closing pending places appends the first places of productions that were not added before, each
once, and goes on until every place has what it calls for. -/
theorem closeFrom_spec (hbound : ∀ id, ∀ i ∈ g.productionsAfter id, i < n)
    (hadded : ∀ i ∈ added, i < n) (hnodup : added.Nodup)
    (hfuel : pending.length + n ≤ fuel + added.length) :
    ∃ more : List Nat, more.Nodup ∧ (∀ i ∈ more, i ∉ added ∧ ∃ id, i ∈ g.productionsAfter id) ∧
      closeFrom g fuel added pending = pending ++ more.filterMap g.firstItemOf? ∧
      ∀ id ∈ closeFrom g fuel added pending, ∀ i ∈ g.productionsAfter id,
        i ∈ added ∨ i ∈ more := by
  induction fuel generalizing added pending with
  | zero =>
      have hle := length_le_of_nodup_of_lt hnodup hadded
      have hnil : pending = [] := List.length_eq_zero_iff.mp (by omega)
      subst hnil
      exact ⟨[], List.nodup_nil, by simp, rfl, by simp [closeFrom]⟩
  | succ fuel ih =>
      cases pending with
      | nil => exact ⟨[], List.nodup_nil, by simp, rfl, by simp [closeFrom]⟩
      | cons id pending =>
          simp only [closeFrom]
          have hall : ∀ i ∈ added ++ fresh added (g.productionsAfter id), i < n := by
            intro i hi
            rcases List.mem_append.mp hi with hold | hi
            · exact hadded i hold
            · exact hbound id i (mem_fresh.mp hi).1
          obtain ⟨more, hmore, hfresh, hresult, hclosed⟩ :=
            ih hall (nodup_append_fresh hnodup _) (length_pending_le _ hfuel)
          refine ⟨fresh added (g.productionsAfter id) ++ more, ?_, ?_, ?_, ?_⟩
          · refine List.nodup_append.mpr ⟨nodup_fresh _, hmore, fun a ha b hb => ?_⟩
            rintro rfl
            exact (hfresh a hb).1 (List.mem_append_right _ ha)
          · intro i hi
            rcases List.mem_append.mp hi with hi | hi
            · exact ⟨(mem_fresh.mp hi).2, id, (mem_fresh.mp hi).1⟩
            · exact ⟨fun ha => (hfresh i hi).1 (List.mem_append_left _ ha), (hfresh i hi).2⟩
          · rw [hresult, List.filterMap_append, List.cons_append, List.append_assoc]
          · intro other hother i hi
            rw [List.mem_append, ← or_assoc]
            rcases List.mem_cons.mp hother with rfl | hother
            · by_cases ha : i ∈ added
              · exact Or.inl (Or.inl ha)
              · exact Or.inl (Or.inr (mem_fresh.mpr ⟨hi, ha⟩))
            · exact (hclosed other hother i hi).imp_left List.mem_append.mp

/-- Whatever holds of the pending places and of the first places of all productions that such places
call for, holds of all places that closing gives. -/
theorem closeFrom_induction {P : Nat → Prop}
    (hstep : ∀ id first, P id → ∀ i ∈ g.productionsAfter id, g.firstItemOf? i = some first →
      P first)
    (hpending : ∀ id ∈ pending, P id) : ∀ id ∈ closeFrom g fuel added pending, P id := by
  induction fuel generalizing added pending with
  | zero => exact hpending
  | succ fuel ih =>
      cases pending with
      | nil => simp [closeFrom]
      | cons id pending =>
          have hid : P id := hpending id List.mem_cons_self
          intro other hother
          rcases List.mem_cons.mp hother with rfl | hother
          · exact hid
          · refine ih (fun next hnext => ?_) other hother
            rcases List.mem_append.mp hnext with hold | hnew
            · exact hpending next (List.mem_cons_of_mem _ hold)
            · obtain ⟨i, hi, hfirst⟩ := List.mem_filterMap.mp hnew
              exact hstep id next hid i (mem_fresh.mp hi).1 hfirst

/-! ## The closure of a list of places -/

/-- What a place calls for are productions of the grammar other than production 0. -/
theorem production_of_mem_productionsAfter (h : g.Ready) {id : Nat}
    (hi : i ∈ g.productionsAfter id) : i ≠ 0 ∧ ∃ p, g.production? i = some p := by
  obtain ⟨_, _, _, _, _, hrule⟩ := h.exists_of_mem_productionsAfter hi
  obtain ⟨hne, p, hp, _⟩ := h.wellFormed.rules.mp hrule
  exact ⟨hne, p, hp⟩

/-- The closure appends the first places of distinct productions other than production 0, and has
the first place of every production that one of its places calls for. -/
theorem closure_spec (h : g.Ready) (items : List Nat) :
    ∃ more : List Nat, more.Nodup ∧ (∀ i ∈ more, i ≠ 0) ∧
      closure g items = items ++ more.filterMap g.firstItemOf? ∧
      ∀ id ∈ closure g items, ∀ i ∈ g.productionsAfter id, i ∈ more := by
  have hbound : ∀ id, ∀ i ∈ g.productionsAfter id, i < g.productions.length := by
    intro id i hi
    obtain ⟨_, p, hp⟩ := production_of_mem_productionsAfter h hi
    exact (List.getElem?_eq_some_iff.mp hp).1
  have hstart : ∀ i ∈ ([] : List Nat), i < g.productions.length := fun i hi =>
    absurd hi List.not_mem_nil
  obtain ⟨more, hnodup, hmore, hresult, hclosed⟩ :=
    closeFrom_spec hbound hstart List.nodup_nil (Nat.le_refl (items.length + _))
  refine ⟨more, hnodup, ?_, hresult, ?_⟩
  · intro i hi
    obtain ⟨_, id, hid⟩ := hmore i hi
    exact (production_of_mem_productionsAfter h hid).1
  · intro id hid i hi
    exact (hclosed id hid i hi).resolve_left List.not_mem_nil

/-- The closure has all places it started from. -/
theorem subset_closure (h : g.Ready) (items : List Nat) : items ⊆ closure g items := by
  obtain ⟨more, _, _, hresult, _⟩ := closure_spec h items
  rw [hresult]
  exact List.subset_append_left _ _

/-- The closure of no places has none. -/
theorem closure_eq_nil_iff (h : g.Ready) : closure g items = [] ↔ items = [] := by
  constructor
  · intro hnil
    exact List.subset_nil.mp (hnil ▸ subset_closure h items)
  · rintro rfl
    unfold closure
    cases [].length + g.productions.length <;> rfl

/-- With an item that has a nonterminal after the dot, the closure has the first item of each of its
productions. -/
theorem holds_closure_expand (h : g.Ready) (hitem : g.Holds (closure g items) i dot)
    (hs : g.symbolAt i dot = some (.nonterminal name)) (hj : j ∈ g.ruleIndices name) :
    g.Holds (closure g items) j 0 := by
  obtain ⟨id, hid, hitem⟩ := hitem
  obtain ⟨more, _, _, hresult, hclosed⟩ := closure_spec h items
  have hcalled : j ∈ g.productionsAfter id := (h.mem_productionsAfter hitem).mpr ⟨name, hs, hj⟩
  obtain ⟨_, p, hp⟩ := production_of_mem_productionsAfter h hcalled
  have hfirst := h.firstItemOf?_eq hp
  refine ⟨p.range.first, ?_, h.itemAt_firstItemOf? hfirst⟩
  rw [hresult]
  exact List.mem_append_right _ (List.mem_filterMap.mpr ⟨j, hclosed id hid j hcalled, hfirst⟩)

/-- The closure holds nothing but what its rules demand. -/
theorem holds_closure_induction (h : g.Ready) {P : Nat → Nat → Prop}
    (hitems : ∀ i dot, g.Holds items i dot → P i dot)
    (hexpand : ∀ i dot name j, P i dot → g.symbolAt i dot = some (.nonterminal name) →
      j ∈ g.ruleIndices name → P j 0)
    (hitem : g.Holds (closure g items) i dot) : P i dot := by
  obtain ⟨id, hid, hitem⟩ := hitem
  have hall : ∀ id ∈ closure g items, ∀ i dot, g.ItemAt id i dot → P i dot := by
    refine closeFrom_induction ?_ (fun id hid i dot hitem => hitems i dot ⟨id, hid, hitem⟩)
    intro id first hid j hj hfirst k d hitem
    obtain ⟨rfl, rfl⟩ := hitem.eq (h.itemAt_firstItemOf? hfirst)
    obtain ⟨_, _, name, hat, hs, hrule⟩ := h.exists_of_mem_productionsAfter hj
    exact hexpand _ _ _ _ (hid _ _ hat) hs hrule
  exact hall id hid i dot hitem

/-- Closing places none of which is the first of a production other than production 0 lists none
twice. -/
theorem nodup_closure (h : g.Ready) (hnodup : items.Nodup)
    (hkernel : ∀ i, g.Holds items i 0 → i = 0) : (closure g items).Nodup := by
  obtain ⟨more, hmore, hzero, hresult, _⟩ := closure_spec h items
  rw [hresult]
  refine List.nodup_append.mpr ⟨hnodup, hmore.filterMap ?_, ?_⟩
  · intro i j id hi hj
    exact ((h.itemAt_firstItemOf? hi).eq (h.itemAt_firstItemOf? hj)).1
  · intro id hid other hother
    rintro rfl
    obtain ⟨i, hi, hfirst⟩ := List.mem_filterMap.mp hother
    exact hzero i hi (hkernel i ⟨id, hid, h.itemAt_firstItemOf? hfirst⟩)

/-! ## Reading a symbol -/

/-- The items whose dot was moved over a symbol. -/
theorem holds_kernel_iff (h : g.Ready) :
    g.Holds (kernel g items s) i dot ↔
      ∃ before, dot = before + 1 ∧ g.Holds items i before ∧ g.symbolAt i before = some s := by
  constructor
  · rintro ⟨id, hid, hitem⟩
    obtain ⟨other, hother, hmove⟩ := List.mem_filterMap.mp hid
    obtain ⟨_, before, hbefore, hs, hafter⟩ := h.exists_of_advance? hmove
    obtain ⟨rfl, rfl⟩ := hitem.eq hafter
    exact ⟨before, rfl, ⟨other, hother, hbefore⟩, hs⟩
  · rintro ⟨before, rfl, ⟨id, hid, hitem⟩, hs⟩
    obtain ⟨p, hp, hlt⟩ := exists_production?_of_symbolAt hs
    have hmoved := h.exists_itemAt hp (List.getElem?_eq_some_iff.mp hlt).1
    exact ⟨_, List.mem_filterMap.mpr ⟨id, hid, (h.advance?_eq_some_iff hitem).mpr ⟨hs, hmoved⟩⟩,
      hmoved⟩

/-- Reading a symbol leads nowhere unless an item has it after its dot. -/
theorem goto_ne_nil_iff (h : g.Ready) :
    goto g items s ≠ [] ↔ ∃ i dot, g.Holds items i dot ∧ g.symbolAt i dot = some s := by
  rw [goto, Ne, closure_eq_nil_iff h]
  constructor
  · intro hne
    obtain ⟨other, hother⟩ := List.exists_mem_of_ne_nil _ hne
    obtain ⟨id, hid, hmove⟩ := List.mem_filterMap.mp hother
    obtain ⟨i, dot, hitem, hs, _⟩ := h.exists_of_advance? hmove
    exact ⟨i, dot, ⟨id, hid, hitem⟩, hs⟩
  · rintro ⟨i, dot, hitem, hs⟩ hnil
    obtain ⟨id, hid, _⟩ := (holds_kernel_iff h).mpr ⟨dot, rfl, hitem, hs⟩
    rw [hnil] at hid
    exact List.not_mem_nil hid

/-- Reading a symbol keeps the item of production 0 with the dot in front out. -/
theorem not_holds_goto_start (h : g.Ready) : ¬ g.Holds (goto g items s) 0 0 := by
  intro hitem
  refine holds_closure_induction h (P := fun i dot => ¬ (i = 0 ∧ dot = 0)) ?_ ?_ hitem ⟨rfl, rfl⟩
  · rintro i dot hitem ⟨rfl, rfl⟩
    obtain ⟨_, hdot, _⟩ := (holds_kernel_iff h).mp hitem
    exact absurd hdot (Nat.zero_ne_add_one _)
  · rintro i dot name j _ _ hj ⟨rfl, _⟩
    exact (h.wellFormed.rules.mp hj).1 rfl

/-- What is reached by reading a symbol lists no place twice. -/
theorem nodup_goto (h : g.Ready) (hnodup : items.Nodup) : (goto g items s).Nodup := by
  refine nodup_closure h (hnodup.filterMap ?_) ?_
  · intro id other next hid hother
    obtain ⟨_, _, hat, _, hmoved⟩ := h.exists_of_advance? hid
    obtain ⟨_, _, hat', _, hmoved'⟩ := h.exists_of_advance? hother
    obtain ⟨hprod, hdot⟩ := hmoved.eq hmoved'
    refine h.itemAt_place_unique hat ?_
    rw [hprod, Nat.succ.inj hdot]
    exact hat'
  · intro i hitem
    obtain ⟨_, hdot, _⟩ := (holds_kernel_iff h).mp hitem
    exact absurd hdot (Nat.zero_ne_add_one _)

end ShiftReduce.Automaton
