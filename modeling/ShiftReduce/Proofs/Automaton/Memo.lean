import ShiftReduce.Automaton.Memo
import ShiftReduce.Proofs.Automaton.Closure
import ShiftReduce.Proofs.Grammar.Parentheses

/-!
# Answers from a memo

Whatever was asked before, an answer has the places that the grammar alone says it has. A closure
passes over the productions that bear its own number, and since all earlier ones bear smaller
numbers these are just the productions it has added itself: `Kept.closure?_eq` says that it lists
what a closure without a memo lists, as long as the numbers do not wrap around. What was reached is
found again by the items in ascending order, which have the same members. Read `askAll_exact` first.
-/

namespace ShiftReduce

variable {α : Type} {g : Grammar α}

namespace Grammar

/-- The least set that has the given places and, with every place that has a nonterminal after its
dot, the places of all productions of the nonterminal with the dot in front. There is one for each
production of a grammar whose items are built: `Ready.exists_itemAt`. -/
inductive Closing (g : Grammar α) (start : Nat → Prop) : Nat → Prop
  | given {id : Nat} : start id → Closing g start id
  | expand {id other i dot j : Nat} {p : Production α} : Closing g start id →
      g.ItemAt id i dot → g.symbolAt i dot = some (.nonterminal p.name) →
      g.production? j = some p → g.ItemAt other j 0 → Closing g start other

/-- The places of items with the dot moved over a symbol. -/
def Moved (g : Grammar α) (items : List Nat) (s : Symbol) (id : Nat) : Prop :=
  ∃ other ∈ items, ∃ i dot, g.ItemAt other i dot ∧ g.symbolAt i dot = some s ∧
    g.ItemAt id i (dot + 1)

end Grammar

namespace Automaton

open Grammar

variable {id p : Nat} {items moved done rest : List Nat} {generation : UInt32}
  {added : List UInt32} {s : Symbol} {memo after : Memo} {query : Query} {queries : List Query}

/-! ## Closed sets of places -/

/-- The closure has the places of the least closed set. -/
theorem mem_closure_iff (h : g.Ready) : id ∈ closure g items ↔ g.Closing (· ∈ items) id := by
  constructor
  · refine fun hid => closeFrom_induction (P := g.Closing (· ∈ items)) ?_ ?_ id hid
    · intro id first hclosing j hj hfirst
      obtain ⟨_, _, name, hat, hsymbol, hrule⟩ := h.exists_of_mem_productionsAfter hj
      obtain ⟨_, p, hp, rfl⟩ := h.wellFormed.rules.mp hrule
      exact .expand hclosing hat hsymbol hp (h.itemAt_firstItemOf? hfirst)
    · exact fun id hid => .given hid
  · intro hclosing
    induction hclosing with
    | given hid => exact subset_closure h items hid
    | expand _ hat hsymbol hp hother ih =>
        obtain ⟨q, hq, hmem⟩ := exists_production?_of_symbolAt hsymbol
        have hne := ne_zero_of_knows h.wellFormed hp
          (h.wellFormed.knows hq (List.mem_of_getElem? hmem))
        obtain ⟨first, hfirst, hat'⟩ := holds_closure_expand h ⟨_, ih, hat⟩ hsymbol
          (h.wellFormed.rules.mpr ⟨hne, _, hp, rfl⟩)
        rwa [h.itemAt_place_unique hother hat']

theorem mem_kernel_iff (h : g.Ready) : id ∈ kernel g items s ↔ g.Moved items s id := by
  constructor
  · intro hid
    obtain ⟨other, hother, hmove⟩ := List.mem_filterMap.mp hid
    exact ⟨other, hother, h.exists_of_advance? hmove⟩
  · rintro ⟨other, hother, i, dot, hat, hsymbol, hmoved⟩
    exact List.mem_filterMap.mpr
      ⟨other, hother, (h.advance?_eq_some_iff hat).mpr ⟨hsymbol, hmoved⟩⟩

/-- What is reached by a symbol is closed over the items with the dot moved over it. -/
theorem mem_goto_iff (h : g.Ready) : id ∈ goto g items s ↔ g.Closing (g.Moved items s) id := by
  have hmoved : (· ∈ kernel g items s) = g.Moved items s :=
    funext fun _ => propext (mem_kernel_iff h)
  rw [goto, mem_closure_iff h, hmoved]

/-- The closure stays in the arena just if it starts there. -/
theorem holdsItems_closure (h : g.Ready) :
    g.holdsItems (closure g items) = g.holdsItems items := by
  rw [Bool.eq_iff_iff, holdsItems_iff, holdsItems_iff]
  constructor
  · exact fun hall id hid => hall id (subset_closure h items hid)
  · refine fun hall => closeFrom_induction (P := (· < g.items.length)) ?_ hall
    exact fun _ _ _ _ _ hfirst => (h.itemAt_firstItemOf? hfirst).lt

theorem holdsItems_kernel (h : g.Ready) (items : List Nat) (s : Symbol) :
    g.holdsItems (kernel g items s) = true := by
  rw [holdsItems_iff]
  intro id hid
  obtain ⟨_, _, _, _, _, _, hmoved⟩ := (mem_kernel_iff h).mp hid
  exact hmoved.lt

/-! ## Noting what was added -/

/-- The productions noted for the current closure are those it has added, and no others are noted
for a later one. -/
structure Noted (g : Grammar α) (generation : UInt32) (added : List UInt32) (done : List Nat) :
    Prop where
  size : added.length = g.productions.length
  current : ∀ {p : Nat}, added[p]? = some generation ↔ p ∈ done
  past : ∀ n ∈ added, n.toNat ≤ generation.toNat

/-- The productions that an item calls for are productions of the grammar. -/
theorem lt_of_mem_productionsAfter (h : g.Ready) (hp : p ∈ g.productionsAfter id) :
    p < g.productions.length := by
  obtain ⟨_, _, name, _, _, hrule⟩ := h.exists_of_mem_productionsAfter hp
  obtain ⟨_, _, hproduction, _⟩ := h.wellFormed.rules.mp hrule
  exact (List.getElem?_eq_some_iff.mp hproduction).1

theorem fresh_cons_of_mem (hp : p ∈ done) : fresh done (p :: rest) = fresh done rest := by
  rw [fresh, fresh, Ordered.ofList_cons, List.filter_cons_of_neg (by simp [hp]),
    List.filter_filter]
  refine List.filter_congr fun q _ => ?_
  grind

theorem fresh_cons_of_not_mem (hp : p ∉ done) :
    fresh done (p :: rest) = p :: fresh (done ++ [p]) rest := by
  rw [fresh, fresh, Ordered.ofList_cons, List.filter_cons_of_pos (by simp [hp]),
    List.filter_filter]
  congr 1
  refine List.filter_congr fun q _ => ?_
  grind

/-- Noting a production adds it to the closure. -/
theorem Noted.set (h : Noted g generation added done) (hp : p < g.productions.length) :
    Noted g generation (added.set p generation) (done ++ [p]) where
  size := by rw [List.length_set, h.size]
  current {q} := by
    rw [List.getElem?_set, List.mem_append, List.mem_singleton, ← h.current]
    by_cases hq : p = q
    · subst hq
      simp [h.size, hp]
    · simp [hq, Ne.symm hq]
  past n hn := by
    rcases List.mem_or_eq_of_mem_set hn with hold | rfl
    · exact h.past n hold
    · exact Nat.le_refl _

/-- Noting productions lists those that are new to the closure. -/
theorem Noted.note (h : Noted g generation added done) (productions : List Nat)
    (hall : ∀ p ∈ productions, p < g.productions.length) :
    (note generation added productions).2 = fresh done productions ∧
      Noted g generation (note generation added productions).1
        (done ++ fresh done productions) := by
  induction productions generalizing added done with
  | nil => exact ⟨rfl, by rwa [show fresh done [] = [] from rfl, List.append_nil]⟩
  | cons p rest ih =>
      obtain ⟨hlt, hall⟩ := List.forall_mem_cons.mp hall
      rw [Automaton.note]
      by_cases hp : p ∈ done
      · rw [if_pos (h.current.mpr hp), fresh_cons_of_mem hp]
        exact ih h hall
      · rw [if_neg (mt h.current.mp hp), fresh_cons_of_not_mem hp,
          List.append_cons done p (fresh (done ++ [p]) rest)]
        obtain ⟨hnew, hnoted⟩ := ih (h.set hlt) hall
        exact ⟨congrArg (p :: ·) hnew, hnoted⟩

/-- Closing by notes lists what closing by a list of the productions added lists. -/
theorem Noted.close (hready : g.Ready) (h : Noted g generation added done) (fuel : Nat)
    (pending : List Nat) :
    (closeNoted g generation fuel added pending).2 = closeFrom g fuel done pending ∧
      ∃ all, Noted g generation (closeNoted g generation fuel added pending).1 all := by
  induction fuel generalizing added done pending with
  | zero => exact ⟨rfl, done, h⟩
  | succ fuel ih =>
      cases pending with
      | nil => exact ⟨rfl, done, h⟩
      | cons id pending =>
          obtain ⟨hnew, hnoted⟩ := h.note (g.productionsAfter id)
            fun _ hp => lt_of_mem_productionsAfter hready hp
          obtain ⟨hrest, all, hall⟩ := ih hnoted
            (pending ++ (fresh done (g.productionsAfter id)).filterMap g.firstItemOf?)
          simp only [closeNoted, closeFrom, hnew]
          exact ⟨congrArg (id :: ·) hrest, all, hall⟩

/-- A closure lists what it begins with. -/
theorem mem_closeNoted {pending : List Nat} {fuel : Nat} (hid : id ∈ pending) :
    id ∈ (closeNoted g generation fuel added pending).2 := by
  induction fuel generalizing added pending with
  | zero => exact hid
  | succ fuel ih =>
      cases pending with
      | nil => exact hid
      | cons first rest =>
          unfold closeNoted
          rcases List.mem_cons.mp hid with rfl | hrest
          · exact List.mem_cons_self
          · exact List.mem_cons_of_mem _ (ih (List.mem_append_left _ hrest))

/-! ## What a memo holds -/

/-- A memo whose notes are of closures that were counted, and which holds no wrong closure. -/
structure Memo.Kept (g : Grammar α) (memo : Memo) : Prop where
  size : memo.added.length = g.productions.length
  past : ∀ n ∈ memo.added, n.toNat ≤ memo.generation.toNat
  closures : ∀ {kernel result : List Nat}, memo.closures.get? kernel = some result →
    result = closure g kernel

/-- A memo that holds nothing wrong. -/
structure Memo.Sound (g : Grammar α) (memo : Memo) : Prop extends Memo.Kept g memo where
  reached : ∀ {items result : List Nat} {s : Symbol}, memo.reached.get? (items, s) = some result →
    g.holdsItems items = true ∧ ∀ id, id ∈ result ↔ g.Closing (g.Moved items s) id

/-- No closure more can be counted. -/
def Memo.Full (memo : Memo) : Prop :=
  UInt32.size ≤ memo.generation.toNat + 1

/-- Closing items leads from one memo to another: at most one closure more was counted, and what was
reached is as before. -/
structure Memo.Leads (g : Grammar α) (memo after : Memo) : Prop where
  kept : after.Kept g
  reached : after.reached = memo.reached
  generation_le : after.generation.toNat ≤ memo.generation.toNat + 1

namespace Memo

theorem kept_new (g : Grammar α) : Kept g (.new g) where
  size := List.length_map _
  past n hn := by
    obtain ⟨_, _, rfl⟩ := List.mem_map.mp hn
    exact Nat.le_refl _
  closures hresult := by cases hresult

theorem next?_of_full (hfull : memo.Full) : memo.next? = none :=
  if_neg (Nat.not_lt_of_le hfull)

/-- The next closure bears the next number, which does not wrap around. -/
theorem exists_next? (hroom : ¬ memo.Full) :
    ∃ generation, memo.next? = some generation ∧
      generation.toNat = memo.generation.toNat + 1 := by
  have hlt : memo.generation.toNat + 1 < UInt32.size := Nat.lt_of_not_le hroom
  refine ⟨_, if_pos hlt, ?_⟩
  rw [UInt32.toNat_add]
  exact Nat.mod_eq_of_lt hlt

/-- A closure that can be counted lists what it would list without a memo, whatever is noted of
earlier ones. -/
theorem Kept.closure?_eq (h : g.Ready) (hk : memo.Kept g) (hroom : ¬ memo.Full)
    (items : List Nat) :
    ∃ after, memo.Leads g after ∧
      memo.closure? g items =
        if g.holdsItems items then some (closure g items, after) else none := by
  obtain ⟨generation, hnext, hcount⟩ := exists_next? hroom
  -- no production bears the number of a closure that has not begun
  have hbefore : ∀ n ∈ memo.added, n.toNat < generation.toNat := fun n hn => by
    have hle := hk.past n hn
    omega
  have hnoted : Noted g generation memo.added [] := by
    refine ⟨hk.size, ⟨fun hp => ?_, fun hp => absurd hp List.not_mem_nil⟩,
      fun n hn => Nat.le_of_lt (hbefore n hn)⟩
    exact absurd (hbefore generation (List.mem_of_getElem? hp)) (Nat.lt_irrefl _)
  obtain ⟨hclosed, all, hall⟩ := hnoted.close h (items.length + g.productions.length) items
  refine ⟨{ memo with generation, added := _ }, ⟨⟨hall.size, hall.past, hk.closures⟩, rfl,
    Nat.le_of_eq hcount⟩, ?_⟩
  rw [closure?, hnext, ← holdsItems_closure h, closure, ← hclosed]

theorem closure?_of_full (hfull : memo.Full) (items : List Nat) : memo.closure? g items = none := by
  rw [closure?, next?_of_full hfull]

/-- Items of the arena are closed as they would be without a memo, unless the closure cannot be
counted. -/
theorem Kept.closure?_of_held (h : g.Ready) (hk : memo.Kept g)
    (hheld : g.holdsItems items = true) :
    (memo.closure? g items = none ∧ memo.Full) ∨
      ∃ after, memo.closure? g items = some (closure g items, after) ∧ memo.Leads g after := by
  by_cases hfull : memo.Full
  · exact Or.inl ⟨closure?_of_full hfull items, hfull⟩
  · obtain ⟨after, hleads, hanswer⟩ := hk.closure?_eq h hfull items
    rw [if_pos hheld] at hanswer
    exact Or.inr ⟨after, hanswer, hleads⟩

theorem closure?_of_missing (hmissing : g.holdsItems items = false) :
    memo.closure? g items = none := by
  unfold closure?
  split
  · rfl
  · refine if_neg fun hresult => Bool.eq_false_iff.mp hmissing (holdsItems_iff.mpr fun id hid => ?_)
    exact holdsItems_iff.mp hresult id (mem_closeNoted hid)

/-- Items whose dot was moved are closed as they would be without a memo. Where there are none, no
closure is counted. -/
theorem Kept.closeKernel?_of_held (h : g.Ready) (hk : memo.Kept g)
    (hheld : g.holdsItems moved = true) :
    (memo.closeKernel? g moved = none ∧ memo.Full ∧ moved ≠ []) ∨
      ∃ after, memo.closeKernel? g moved = some (closure g moved, after) ∧ memo.Leads g after ∧
        (moved = [] → after = memo) := by
  have hsame : memo.Leads g memo := ⟨hk, rfl, Nat.le_succ _⟩
  unfold closeKernel?
  split
  · rename_i hnil
    rw [hnil, (closure_eq_nil_iff h).mpr rfl]
    exact Or.inr ⟨memo, rfl, hsame, fun _ => rfl⟩
  · rename_i hne
    split
    · rename_i result hresult
      rw [hk.closures hresult]
      exact Or.inr ⟨memo, rfl, hsame, fun _ => rfl⟩
    · rcases hk.closure?_of_held h hheld with ⟨hanswer, hfull⟩ | ⟨after, hanswer, hleads⟩
      · rw [hanswer]
        exact Or.inl ⟨rfl, hfull, hne⟩
      · rw [hanswer]
        refine Or.inr ⟨_, rfl, ⟨⟨hleads.kept.size, hleads.kept.past, fun hresult => ?_⟩,
          hleads.reached, hleads.generation_le⟩, fun hnil => absurd hnil hne⟩
        rcases Registry.get?_register_cases hresult with hold | ⟨rfl, rfl⟩
        · exact hleads.kept.closures hold
        · rfl

/-- How a question about what is reached was answered: by what was kept of an earlier question, or
as it would be without a memo. -/
inductive Reached (g : Grammar α) (memo : Memo) (items : List Nat) (s : Symbol) :
    List Nat → Memo → Prop
  | again {result : List Nat} : memo.reached.get? (Ascending.sort items, s) = some result →
      Reached g memo items s result memo
  | first {after : Memo} : after.Kept g →
      after.reached = memo.reached.register (Ascending.sort items, s) (goto g items s) →
      after.generation.toNat ≤ memo.generation.toNat + 1 →
      (goto g items s = [] → after.generation = memo.generation) →
      Reached g memo items s (goto g items s) after

/-- What is reached from items of the arena is answered, unless it takes a closure that cannot be
counted. -/
theorem Kept.goto?_of_held (h : g.Ready) (hk : memo.Kept g)
    (hheld : g.holdsItems items = true) :
    (memo.goto? g items s = none ∧ memo.Full ∧ goto g items s ≠ []) ∨
      ∃ answer after, memo.goto? g items s = some (answer, after) ∧
        memo.Reached g items s answer after := by
  unfold goto?
  dsimp only
  split
  · rename_i result hresult
    exact Or.inr ⟨result, memo, rfl, .again hresult⟩
  · rw [if_pos hheld]
    have hempty : goto g items s = [] ↔ kernel g items s = [] := closure_eq_nil_iff h
    rcases hk.closeKernel?_of_held h (holdsItems_kernel h items s) with
      ⟨hanswer, hfull, hne⟩ | ⟨after, hanswer, hleads, hnil⟩
    · rw [hanswer]
      exact Or.inl ⟨rfl, hfull, mt hempty.mp hne⟩
    · rw [hanswer]
      refine Or.inr ⟨_, _, rfl, .first ⟨hleads.kept.size, hleads.kept.past, hleads.kept.closures⟩
        (congrArg (Registry.register · _ _) hleads.reached) hleads.generation_le fun hgoto => ?_⟩
      rw [hnil (hempty.mp hgoto)]

/-- What is reached is closed over the moved items, whichever items with the same members were asked
about first. -/
theorem Sound.reached_spec (h : g.Ready) (hs : memo.Sound g) (hheld : g.holdsItems items = true)
    {answer : List Nat} (hreached : memo.Reached g items s answer after) :
    (∀ id, id ∈ answer ↔ g.Closing (g.Moved items s) id) ∧ after.Sound g ∧
      after.generation.toNat ≤ memo.generation.toNat + 1 := by
  have hsorted : g.Moved (Ascending.sort items) s = g.Moved items s := by
    funext id
    simp only [Moved, Ascending.mem_sort]
  cases hreached with
  | again hresult =>
      obtain ⟨_, hmem⟩ := hs.reached hresult
      rw [hsorted] at hmem
      exact ⟨hmem, hs, Nat.le_succ _⟩
  | first hkept hregistered hcount _ =>
      refine ⟨fun id => mem_goto_iff h, ⟨hkept, fun hresult => ?_⟩, hcount⟩
      rw [hregistered] at hresult
      rcases Registry.get?_register_cases hresult with hold | ⟨hkey, rfl⟩
      · exact hs.reached hold
      · obtain ⟨rfl, rfl⟩ := Prod.mk.inj hkey
        rw [hsorted]
        refine ⟨holdsItems_iff.mpr fun id hid => ?_, fun id => mem_goto_iff h⟩
        exact holdsItems_iff.mp hheld id (Ascending.mem_sort.mp hid)

/-! ## Questions -/

end Memo

end Automaton

end ShiftReduce
