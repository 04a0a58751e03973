import Mathlib.Algebra.Order.BigOperators.Group.List
import Mathlib.Algebra.Order.Ring.Nat
import Mathlib.Data.List.Nodup
import Mathlib.Data.List.Perm.Subperm
import ShiftReduce.Proofs.Rounds
import ShiftReduce.Registry

/-!
# What collections hold

Facts about registries, ordered sets and ascending lists that the rest of the theory reads them
through: which value a key has after a change, that keys and members are never listed twice, and
that putting numbers in ascending order loses none of them.
-/

namespace ShiftReduce

/-! ## Numbers of members -/

section Index

variable {α : Type} [BEq α] [LawfulBEq α] {xs : List α} {x y : α} {i : Nat}

/-- The member with a number is the one that was asked for. -/
theorem getElem?_of_idxOf? (h : xs.idxOf? x = some i) : xs[i]? = some x := by
  obtain ⟨hlt, hget, _⟩ := List.idxOf?_eq_some_iff.mp h
  exact List.getElem?_eq_some_iff.mpr ⟨hlt, hget⟩

/-- Two members with one number are the same. -/
theorem eq_of_idxOf? (hx : xs.idxOf? x = some i) (hy : xs.idxOf? y = some i) : x = y :=
  Option.some.inj ((getElem?_of_idxOf? hx).symm.trans (getElem?_of_idxOf? hy))

/-- Every member has a number. -/
theorem exists_idxOf? (h : x ∈ xs) : ∃ i, xs.idxOf? x = some i :=
  Option.isSome_iff_exists.mp (List.isSome_idxOf?.mpr h)

end Index

/-! ## Registries -/

namespace Registry

variable {κ α : Type} [DecidableEq κ] {r : Registry κ α} {key other : κ} {value : α} {f : α → α}

/-- A key has a value exactly when it is among the keys. -/
theorem contains_iff : r.contains key = true ↔ key ∈ r.keys := by
  simp only [contains, get?, keys, List.lookup_isSome_iff, List.mem_map, beq_iff_eq]
  constructor
  · rintro ⟨entry, hentry, rfl⟩
    exact ⟨entry, hentry, rfl⟩
  · rintro ⟨entry, hentry, rfl⟩
    exact ⟨entry, hentry, rfl⟩

/-- A key without a value is not among the keys. -/
theorem get?_eq_none_iff : r.get? key = none ↔ key ∉ r.keys := by
  rw [← contains_iff, contains]
  cases r.get? key <;> simp

/-- A key with a value is among the keys. -/
theorem mem_keys_of_get? (h : r.get? key = some value) : key ∈ r.keys := by
  rw [← contains_iff, contains, h]
  rfl

/-- Among the keys of a registry each has a value. -/
theorem exists_get?_of_mem_keys (h : key ∈ r.keys) : ∃ value, r.get? key = some value :=
  Option.isSome_iff_exists.mp (contains_iff.mpr h)

/-- A value that can be looked up stands in an entry. -/
theorem mem_entries_of_get? (h : r.get? key = some value) : (key, value) ∈ r.entries := by
  obtain ⟨before, after, hentries, _⟩ := List.lookup_eq_some_iff.mp h
  simp [hentries]

/-- Where no key is listed twice, the value of a key is the one in its entry. -/
theorem get?_of_mem_entries (hnodup : r.keys.Nodup) (h : (key, value) ∈ r.entries) :
    r.get? key = some value := by
  obtain ⟨entries⟩ := r
  simp only [get?, keys] at *
  induction entries with
  | nil => simp at h
  | cons entry rest ih =>
      rw [List.map_cons, List.nodup_cons] at hnodup
      rcases List.mem_cons.mp h with rfl | hrest
      · simp
      · have hne : key ≠ entry.1 := by
          rintro rfl
          exact hnodup.1 (List.mem_map.mpr ⟨_, hrest, rfl⟩)
        rw [show entry = (entry.1, entry.2) from rfl, List.lookup_cons, beq_false_of_ne hne]
        exact ih hnodup.2 hrest

/-- Registering a key leaves the others as they are. -/
theorem get?_register_of_ne (h : other ≠ key) :
    (r.register key value).get? other = r.get? other := by
  unfold register
  split
  · rfl
  · simp [get?, List.lookup_append, List.lookup_cons, beq_false_of_ne h]

/-- A registered key keeps the value it had, or takes the given one. -/
theorem get?_register_self :
    (r.register key value).get? key = some ((r.get? key).getD value) := by
  unfold register contains
  cases h : r.get? key with
  | some old => simp [h]
  | none =>
      have hnone : r.entries.lookup key = none := h
      simp [get?, List.lookup_append, hnone]

/-- A value that is there after registering was there before or is the registered one. -/
theorem get?_register_cases {found : α} (h : (r.register key value).get? other = some found) :
    r.get? other = some found ∨ other = key ∧ found = value := by
  by_cases hother : other = key
  · subst hother
    rw [get?_register_self] at h
    cases hold : r.get? other with
    | some old => exact Or.inl (by rwa [hold] at h)
    | none => exact Or.inr ⟨rfl, by simpa [hold] using h.symm⟩
  · rw [get?_register_of_ne hother] at h
    exact Or.inl h

/-- Changing the value of a key changes just that. -/
theorem get?_modify :
    (r.modify key f).get? other = if other = key then (r.get? other).map f else r.get? other := by
  obtain ⟨entries⟩ := r
  simp only [get?, modify]
  induction entries with
  | nil => simp
  | cons entry rest ih =>
      obtain ⟨k, v⟩ := entry
      simp only [List.map_cons]
      by_cases hk : k = key
      · subst hk
        rw [if_pos rfl, List.lookup_cons, List.lookup_cons, ih]
        by_cases ho : other = k
        · subst ho
          simp
        · simp [beq_false_of_ne ho, ho]
      · rw [if_neg hk, List.lookup_cons, List.lookup_cons, ih]
        by_cases ho : other = k
        · subst ho
          simp [hk]
        · simp [beq_false_of_ne ho]

/-- The value of a key after it was updated. -/
theorem get?_update_self :
    (r.update key value f).get? key = some (f ((r.get? key).getD value)) := by
  rw [update, get?_modify, if_pos rfl, get?_register_self]
  rfl

/-- Updating a key leaves the others as they are. -/
theorem get?_update_of_ne (h : other ≠ key) : (r.update key value f).get? other = r.get? other := by
  rw [update, get?_modify, if_neg h, get?_register_of_ne h]

@[simp] theorem mem_keys_register :
    other ∈ (r.register key value).keys ↔ other ∈ r.keys ∨ other = key := by
  rw [keys_register]
  split
  · rename_i h
    exact ⟨Or.inl, fun ho => ho.elim id fun e => e ▸ contains_iff.mp h⟩
  · simp

@[simp] theorem mem_keys_update :
    other ∈ (r.update key value f).keys ↔ other ∈ r.keys ∨ other = key := by
  rw [update, keys_modify, mem_keys_register]

/-- Registering a key never lists a key twice. -/
theorem nodup_keys_register (h : r.keys.Nodup) : (r.register key value).keys.Nodup := by
  rw [keys_register]
  split
  · exact h
  · rename_i hnot
    have hkey : key ∉ r.keys := fun hmem => hnot (contains_iff.mpr hmem)
    exact List.nodup_append.mpr ⟨h, List.nodup_singleton _,
      fun a ha b hb => by rintro rfl; exact hkey (List.mem_singleton.mp hb ▸ ha)⟩

/-- Updating a key never lists a key twice. -/
theorem nodup_keys_update (h : r.keys.Nodup) : (r.update key value f).keys.Nodup := by
  rw [update, keys_modify]
  exact nodup_keys_register h

/-- Changing the value of a key to what it is changes nothing. -/
theorem modify_eq_self (hnodup : r.keys.Nodup) (hvalue : r.get? key = some value)
    (hf : f value = value) : r.modify key f = r := by
  obtain ⟨entries⟩ := r
  rw [modify, mk.injEq]
  conv_rhs => rw [← List.map_id entries]
  refine List.map_congr_left fun entry hentry => ?_
  split
  · rename_i hkey
    subst hkey
    have hsame := (get?_of_mem_entries hnodup hentry).symm.trans hvalue
    rw [id, Option.some.inj hsame, hf, ← Option.some.inj hsame]
  · rfl

/-- Registering a key that has arrived changes nothing. -/
theorem register_eq_self (hkey : key ∈ r.keys) : r.register key value = r := by
  rw [register, if_pos (contains_iff.mpr hkey)]

/-- Changing a value twice changes it by both in turn. -/
theorem modify_modify (g : α → α) : (r.modify key f).modify key g = r.modify key (g ∘ f) := by
  simp only [modify, List.map_map, mk.injEq]
  refine List.map_congr_left fun entry _ => ?_
  by_cases hkey : entry.1 = key <;> simp [hkey]

/-- Changes that commute can be made in either order, to the same value or to different ones. -/
theorem modify_comm {g : α → α} (h : ∀ x, g (f x) = f (g x)) :
    (r.modify key f).modify other g = (r.modify other g).modify key f := by
  simp only [modify, List.map_map, mk.injEq]
  refine List.map_congr_left fun entry _ => ?_
  simp only [Function.comp_apply]
  grind

/-- A change that leaves the first value of a key alone can be made before the key is registered. -/
theorem modify_register {g : α → α} (hvalue : g value = value) :
    (r.register key value).modify other g = (r.modify other g).register key value := by
  have hcontains : (r.modify other g).contains key = r.contains key := by
    rw [Bool.eq_iff_iff, contains_iff, contains_iff, keys_modify]
  unfold register
  rw [hcontains]
  split
  · rfl
  · simp only [modify, List.map_append, List.map_cons, List.map_nil, hvalue, ite_self]

/-- A change that commutes with an update can be made before it. -/
theorem modify_update {g : α → α} (hvalue : g value = value) (h : ∀ x, g (f x) = f (g x)) :
    (r.update key value f).modify other g = (r.modify other g).update key value f := by
  rw [update, modify_comm h, modify_register hvalue, update]

/-- The weights of the values of some keys taken together. -/
def total (weight : α → Nat) (keys : List κ) (r : Registry κ α) : Nat :=
  (keys.map fun key => ((r.get? key).map weight).getD 0).sum

/-- With bounded weights the total is bounded. -/
theorem total_le {weight : α → Nat} {keys : List κ} {bound : Nat}
    (h : ∀ key ∈ keys, ∀ value, r.get? key = some value → weight value ≤ bound) :
    total weight keys r ≤ keys.length * bound := by
  have hle := List.sum_le_card_nsmul
    (keys.map fun key => ((r.get? key).map weight).getD 0) bound ?_
  · rwa [List.length_map] at hle
  · intro n hn
    obtain ⟨key, hkey, rfl⟩ := List.mem_map.mp hn
    cases hvalue : r.get? key with
    | none => exact Nat.zero_le _
    | some value => exact h key hkey value hvalue

/-- A step that says truly whether it made the value of a key heavier says it of the registry. -/
theorem tells_alter {weight : α → Nat} {keys : List κ} {step : α → α × Bool}
    (hnodup : r.keys.Nodup) (hkey : key ∈ keys) (hvalue : r.get? key = some value)
    (hstep : Tells weight value (step value)) : Tells (total weight keys) r (r.alter key step) := by
  have hflag : (r.alter key step).2 = (step value).2 := by
    rw [alter, hvalue]
    rfl
  rcases hstep with hsame | ⟨hchanged, hlt⟩
  · refine Or.inl (Prod.ext ?_ (hflag.trans (congrArg Prod.snd hsame)))
    exact modify_eq_self (f := fun value => (step value).1) hnodup hvalue
      (congrArg Prod.fst hsame)
  · refine Or.inr ⟨hflag.trans hchanged, List.sum_lt_sum _ _ (fun other _ => ?_) ⟨key, hkey, ?_⟩⟩
    · rw [alter, get?_modify]
      split
      · rename_i hother
        rw [hother, hvalue]
        exact Nat.le_of_lt hlt
      · exact Nat.le_refl _
    · rw [alter, get?_modify, if_pos rfl, hvalue]
      exact hlt

end Registry

/-! ## Ordered sets -/

namespace Ordered

variable {α : Type} [DecidableEq α] {set others : List α} {x : α}

/-- Adding a member never lists one twice. -/
theorem nodup_add (h : set.Nodup) : (add set x).Nodup := by
  unfold add
  split
  · exact h
  · rename_i hx
    exact List.nodup_append.mpr ⟨h, List.nodup_singleton _,
      fun a ha b hb => by rintro rfl; exact hx (List.mem_singleton.mp hb ▸ ha)⟩

/-- A union never lists a member twice. -/
theorem nodup_union (h : set.Nodup) : (union set others).Nodup := by
  induction others generalizing set with
  | nil => exact h
  | cons x rest ih => exact ih (nodup_add h)

theorem nodup_ofList (xs : List α) : (ofList xs).Nodup :=
  nodup_union List.nodup_nil

/-- A union appends the members that are new, in the order of their first appearance. -/
theorem union_eq_append (set others : List α) :
    union set others = set ++ (ofList others).filter (· ∉ set) := by
  induction others generalizing set with
  | nil => simp [union, ofList]
  | cons x rest ih =>
      have hrest : ofList (x :: rest) = [x] ++ (ofList rest).filter (· ∉ [x]) := ih [x]
      have hunion : union set (x :: rest) = union (add set x) rest := rfl
      rw [hunion, ih, hrest, List.filter_append, List.filter_filter, add]
      split
      · rename_i hx
        -- the first member is in the set and is left out
        have hfirst : [x].filter (· ∉ set) = [] := by simp [hx]
        rw [hfirst, List.nil_append]
        congr 1
        refine List.filter_congr fun y _ => ?_
        grind
      · rename_i hx
        have hfirst : [x].filter (· ∉ set) = [x] := by simp [hx]
        rw [hfirst, List.append_assoc]
        congr 2
        refine List.filter_congr fun y _ => ?_
        grind

/-- The first member of a list comes first, and is not listed again. -/
theorem ofList_cons (x : α) (xs : List α) :
    ofList (x :: xs) = x :: (ofList xs).filter (· ∉ [x]) :=
  union_eq_append [x] xs

theorem fst_insert : (insert set x).1 = add set x := by
  unfold insert add
  split <;> rfl

theorem fst_extend : (extend set others).1 = union set others := by
  rw [extend, fst_sweep, union]
  simp only [fst_insert]

/-- Adding members says truly whether one was added. -/
theorem tells_extend (set others : List α) : Tells List.length set (extend set others) := by
  refine tells_sweep List.length (P := fun _ => True) (fun _ _ _ _ => trivial)
    (fun set x _ _ => ?_) trivial
  unfold insert
  split
  · exact Or.inl rfl
  · exact Or.inr ⟨rfl, by simp⟩

end Ordered

/-! ## Ascending lists of numbers -/

namespace Ascending

variable {x y : Nat} {xs set others : List Nat}

/-- Inserting a number in a list that goes up keeps it going up. -/
theorem pairwise_insert (h : xs.Pairwise (· < ·)) : (insert x xs).Pairwise (· < ·) := by
  induction xs with
  | nil => simp [insert]
  | cons y rest ih =>
      rw [List.pairwise_cons] at h
      unfold insert
      split
      · rename_i hxy
        refine List.pairwise_cons.mpr ⟨?_, List.pairwise_cons.mpr h⟩
        exact List.forall_mem_cons.mpr ⟨hxy, fun z hz => Nat.lt_trans hxy (h.1 z hz)⟩
      · split
        · exact List.pairwise_cons.mpr h
        · rename_i hxy hne
          refine List.pairwise_cons.mpr ⟨fun z hz => ?_, ih h.2⟩
          rcases mem_insert.mp hz with rfl | hrest
          · omega
          · exact h.1 z hrest

/-- A union with a list that goes up goes up. -/
theorem pairwise_union (h : set.Pairwise (· < ·)) : (union set others).Pairwise (· < ·) := by
  induction others generalizing set with
  | nil => exact h
  | cons x rest ih => exact ih (pairwise_insert h)

theorem pairwise_ofList (xs : List Nat) : (ofList xs).Pairwise (· < ·) :=
  pairwise_union List.Pairwise.nil

/-- Placing a number loses none and adds just that. -/
theorem place_perm : (place x xs).Perm (x :: xs) := by
  induction xs with
  | nil => exact List.Perm.refl _
  | cons y rest ih =>
      unfold place
      split
      · exact List.Perm.refl _
      · exact (ih.cons y).trans (List.Perm.swap x y rest)

/-- Sorting only changes the order. -/
theorem sort_perm (xs : List Nat) : (sort xs).Perm xs := by
  induction xs with
  | nil => exact List.Perm.refl _
  | cons x rest ih => exact place_perm.trans (ih.cons x)

@[simp] theorem mem_sort : x ∈ sort xs ↔ x ∈ xs :=
  (sort_perm xs).mem_iff

/-- Placing a number in an ascending list keeps it ascending. -/
theorem pairwise_place (h : xs.Pairwise (· ≤ ·)) : (place x xs).Pairwise (· ≤ ·) := by
  induction xs with
  | nil => simp [place]
  | cons y rest ih =>
      rw [List.pairwise_cons] at h
      unfold place
      split
      · rename_i hxy
        refine List.pairwise_cons.mpr ⟨?_, List.pairwise_cons.mpr h⟩
        intro z hz
        rcases List.mem_cons.mp hz with rfl | hrest
        · exact hxy
        · exact Nat.le_trans hxy (h.1 z hrest)
      · rename_i hxy
        refine List.pairwise_cons.mpr ⟨?_, ih h.2⟩
        intro z hz
        rcases List.mem_cons.mp (place_perm.mem_iff.mp hz) with rfl | hrest
        · omega
        · exact h.1 z hrest

theorem pairwise_sort (xs : List Nat) : (sort xs).Pairwise (· ≤ ·) := by
  induction xs with
  | nil => exact List.Pairwise.nil
  | cons x rest ih => exact pairwise_place ih

/-- Lists with the same members, none of them twice, are sorted alike. -/
theorem sort_eq_sort (hx : xs.Nodup) (hy : set.Nodup) (h : ∀ z, z ∈ xs ↔ z ∈ set) :
    sort xs = sort set := by
  have hperm : (sort xs).Perm (sort set) :=
    (sort_perm xs).trans (((List.perm_ext_iff_of_nodup hx hy).mpr h).trans (sort_perm set).symm)
  exact hperm.eq_of_pairwise (fun a b _ _ hab hba => Nat.le_antisymm hab hba)
    (pairwise_sort xs) (pairwise_sort set)

end Ascending

/-! ## Counting -/

/-- Distinct numbers below a bound are at most that many. -/
theorem length_le_of_nodup_of_lt {xs : List Nat} {n : Nat} (hnodup : xs.Nodup)
    (hlt : ∀ x ∈ xs, x < n) : xs.length ≤ n := by
  have hsub : xs ⊆ List.range n := fun x hx => List.mem_range.mpr (hlt x hx)
  simpa using (hnodup.subperm hsub).length_le

end ShiftReduce
