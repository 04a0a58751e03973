import Mathlib.Algebra.Order.Ring.Nat
import Mathlib.Data.List.Basic
import ShiftReduce.Grammar.Basic

/-!
# The arena of items

Laying out the items of a grammar gives every production a range of its own, puts its items there
from the dot in front to the dot behind, and puts nothing else into the arena. `Arena` says so of a
grammar; read `arena_buildItems` first.
-/

namespace ShiftReduce

variable {α : Type} {g : Grammar α}

namespace Grammar

/-- The symbol of a right side at a place, counted from zero. -/
def symbolAt (g : Grammar α) (production place : Nat) : Option Symbol :=
  (g.production? production).bind (·.symbols[place]?)

/-- Every item of every production stands at its place of the arena, and nothing else does. -/
structure Arena (g : Grammar α) : Prop where
  item : ∀ {i : Nat} {p : Production α} {dot : Nat}, g.production? i = some p →
    dot ≤ p.symbols.length →
    g.item? (p.range.first + dot) = some (g.itemAt p p.range.first dot)
  origin : ∀ {id : Nat} {item : Item}, g.item? id = some item →
    ∃ i p dot, g.production? i = some p ∧ dot ≤ p.symbols.length ∧
      id = p.range.first + dot ∧ item = g.itemAt p p.range.first dot
  past : ∀ {i : Nat} {p : Production α}, g.production? i = some p →
    p.range.past = p.range.first + p.symbols.length + 1

/-- The number of items that the first productions of a list have. -/
def itemsBefore (ps : List (Production α)) (i : Nat) : Nat :=
  ((ps.take i).map fun p => p.symbols.length + 1).sum

/-- Laying out changes nothing of a production but its range. -/
theorem layOut_production (base : Nat) (ps : List (Production α)) (i : Nat) :
    (g.layOut base ps).1[i]? = ps[i]?.map fun p =>
      { p with
        range :=
          ⟨base + itemsBefore ps i, base + itemsBefore ps i + p.symbols.length + 1⟩ } := by
  induction ps generalizing base i with
  | nil => simp [layOut]
  | cons p rest ih =>
      cases i with
      | zero => simp [layOut, itemsBefore]
      | succ i =>
          simp only [layOut, List.getElem?_cons_succ, ih]
          congr 1
          funext q
          simp only [itemsBefore, List.take_succ_cons, List.map_cons, List.sum_cons]
          congr 2 <;> omega

/-- The items of one production stand one after the other. -/
theorem itemsOf_getElem? (p : Production α) (base dot : Nat) (h : dot ≤ p.symbols.length) :
    (g.itemsOf p base)[dot]? = some (g.itemAt p base dot) := by
  simp [itemsOf, Nat.lt_succ_of_le h]

theorem length_itemsOf (p : Production α) (base : Nat) :
    (g.itemsOf p base).length = p.symbols.length + 1 := by
  simp [itemsOf]

/-- Every item of every production of a list is laid out. -/
theorem layOut_item (base : Nat) {ps : List (Production α)} {i dot : Nat} {p : Production α}
    (hp : ps[i]? = some p) (hdot : dot ≤ p.symbols.length) :
    (g.layOut base ps).2[itemsBefore ps i + dot]? =
      some (g.itemAt p (base + itemsBefore ps i) dot) := by
  induction ps generalizing base i with
  | nil => simp at hp
  | cons q rest ih =>
      simp only [layOut]
      cases i with
      | zero =>
          simp only [List.getElem?_cons_zero, Option.some.injEq] at hp
          subst hp
          have hlt : dot < (g.itemsOf q base).length := by rw [length_itemsOf]; omega
          simp only [itemsBefore, List.take_zero, List.map_nil, List.sum_nil, Nat.zero_add,
            Nat.add_zero]
          rw [List.getElem?_append_left hlt]
          exact itemsOf_getElem? q base dot hdot
      | succ i =>
          rw [List.getElem?_cons_succ] at hp
          -- the items of the first production come before those of the rest
          have hplace : itemsBefore (q :: rest) (i + 1) + dot =
              (g.itemsOf q base).length + (itemsBefore rest i + dot) := by
            simp only [itemsBefore, List.take_succ_cons, List.map_cons, List.sum_cons,
              length_itemsOf]
            omega
          rw [hplace, List.getElem?_append_right (by omega), Nat.add_sub_cancel_left, ih _ hp]
          congr 2
          simp only [itemsBefore, List.take_succ_cons, List.map_cons, List.sum_cons]
          omega

/-- Whatever is laid out is an item of one of the productions. -/
theorem layOut_origin (base : Nat) {ps : List (Production α)} {k : Nat} {item : Item}
    (h : (g.layOut base ps).2[k]? = some item) :
    ∃ i p dot, ps[i]? = some p ∧ dot ≤ p.symbols.length ∧ k = itemsBefore ps i + dot ∧
      item = g.itemAt p (base + itemsBefore ps i) dot := by
  induction ps generalizing base k with
  | nil => simp [layOut] at h
  | cons q rest ih =>
      simp only [layOut] at h
      by_cases hk : k < (g.itemsOf q base).length
      · have hdot : k ≤ q.symbols.length := by rw [length_itemsOf] at hk; omega
        rw [List.getElem?_append_left hk, itemsOf_getElem? q base k hdot] at h
        exact ⟨0, q, k, rfl, hdot, by simp [itemsBefore], by simpa [itemsBefore] using h.symm⟩
      · rw [List.getElem?_append_right (by omega)] at h
        obtain ⟨i, p, dot, hp, hdot, hplace, rfl⟩ := ih _ h
        rw [length_itemsOf] at hk hplace
        refine ⟨i + 1, p, dot, hp, hdot, ?_, ?_⟩
        · simp only [itemsBefore, List.take_succ_cons, List.map_cons, List.sum_cons] at hplace ⊢
          omega
        · congr 1
          simp only [itemsBefore, List.take_succ_cons, List.map_cons, List.sum_cons]
          omega

/-- After the items are built a production has a new range and is otherwise as it was. -/
theorem production?_buildItems (g : Grammar α) (i : Nat) :
    g.buildItems.production? i = (g.production? i).map fun p =>
      { p with
        range :=
          ⟨itemsBefore g.productions i,
            itemsBefore g.productions i + p.symbols.length + 1⟩ } := by
  have h := layOut_production (g := g) 0 g.productions i
  simp only [Nat.zero_add] at h
  exact h

/-- What does not look at ranges sees no difference after the items are built. -/
theorem map_buildItems {β : Type} {f : Production α → β}
    (hf : ∀ (p : Production α) (range : ItemRange), f { p with range } = f p) (g : Grammar α) :
    g.buildItems.productions.map f = g.productions.map f := by
  refine List.ext_getElem? fun i => ?_
  have hi := production?_buildItems g i
  rw [production?, production?] at hi
  rw [List.getElem?_map, List.getElem?_map, hi, Option.map_map]
  exact congrArg (Option.map · g.productions[i]?) (funext fun p => hf p _)

/-- Building the items fills the arena. -/
theorem arena_buildItems (g : Grammar α) : g.buildItems.Arena where
  item := by
    intro i p dot hp hdot
    rw [production?_buildItems, Option.map_eq_some_iff] at hp
    obtain ⟨q, hq, rfl⟩ := hp
    have h := layOut_item (g := g) 0 hq hdot
    rw [Nat.zero_add] at h
    exact h
  origin := by
    intro id item h
    obtain ⟨i, p, dot, hp, hdot, rfl, rfl⟩ := layOut_origin (g := g) 0 h
    have hbuilt := production?_buildItems g i
    rw [show g.production? i = some p from hp] at hbuilt
    refine ⟨i, _, dot, hbuilt, hdot, rfl, ?_⟩
    rw [Nat.zero_add]
    rfl
  past := by
    intro i p hp
    rw [production?_buildItems, Option.map_eq_some_iff] at hp
    obtain ⟨q, _, rfl⟩ := hp
    rfl

namespace Arena

variable {i j dot other : Nat} {p q : Production α} {item : Item}

/-- The item with the dot in front of a production is the first of its range. -/
theorem firstItemOf? (h : g.Arena) (hp : g.production? i = some p) :
    (g.production? i).bind Production.firstItem? = some p.range.first := by
  have hlen : p.range.past - p.range.first = p.symbols.length + 1 := by
    have := h.past hp
    omega
  simp [hp, Production.firstItem?, Production.itemIds, ItemRange.ids, hlen, List.range'_succ]

end Arena

end Grammar

end ShiftReduce
