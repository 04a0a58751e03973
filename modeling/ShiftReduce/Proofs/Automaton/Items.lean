import ShiftReduce.Automaton.Basic
import ShiftReduce.Proofs.Grammar.Made

/-!
# Items by production and dot

The automaton handles items by their places in the arena. In a grammar whose items are built a
place stands for one production and one dot, and every step of the automaton can be read by these.
-/

namespace ShiftReduce

variable {α : Type} {g : Grammar α}

namespace Grammar

/-- A well-formed grammar whose items are built. -/
structure Ready (g : Grammar α) : Prop where
  wellFormed : g.WellFormed
  arena : g.Arena

/-- Grammars that declarations can make are ready once they have items. -/
theorem Made.ready (h : g.Made) (hitems : g.items ≠ []) : g.Ready :=
  ⟨h.wellFormed, h.arena hitems⟩

/-- A place of the arena holds the item of a production with a dot. -/
def ItemAt (g : Grammar α) (id production dot : Nat) : Prop :=
  ∃ item, g.item? id = some item ∧ item.prod = production ∧ item.dot = dot

/-- A list of places holds the item of a production with a dot. -/
def Holds (g : Grammar α) (ids : List Nat) (production dot : Nat) : Prop :=
  ∃ id ∈ ids, g.ItemAt id production dot

/-- The symbols of a right side from a dot on. -/
def rest (g : Grammar α) (production dot : Nat) : List Symbol :=
  (((g.production? production).map Production.symbols).getD []).drop dot

variable {id other i j dot : Nat} {p : Production α} {s : Symbol}

/-- A place holds one item only. -/
theorem ItemAt.eq {d : Nat} (h : g.ItemAt id i dot) (hother : g.ItemAt id j d) :
    i = j ∧ dot = d := by
  obtain ⟨item, hitem, rfl, rfl⟩ := h
  obtain ⟨item', hitem', rfl, rfl⟩ := hother
  cases hitem.symm.trans hitem'
  exact ⟨rfl, rfl⟩

/-- A place that holds an item lies in the arena. -/
theorem ItemAt.lt (h : g.ItemAt id i dot) : id < g.items.length := by
  obtain ⟨item, hitem, _⟩ := h
  exact (List.getElem?_eq_some_iff.mp hitem).1

theorem holdsItems_iff {ids : List Nat} :
    g.holdsItems ids = true ↔ ∀ id ∈ ids, id < g.items.length := by
  rw [holdsItems, List.all_eq_true]
  exact forall₂_congr fun _ _ => decide_eq_true_iff

/-- A place in the arena holds an item. -/
theorem itemAt_of_item? {item : Item} (h : g.item? id = some item) :
    g.ItemAt id item.prod item.dot :=
  ⟨item, h, rfl, rfl⟩

theorem symbolAt_of_production? (hp : g.production? i = some p) :
    g.symbolAt i dot = p.symbols[dot]? := by
  rw [symbolAt, hp]
  rfl

theorem rest_of_production? (hp : g.production? i = some p) :
    g.rest i dot = p.symbols.drop dot := by
  rw [rest, hp]
  rfl

/-- The symbol after a dot is the first of those from the dot on. -/
theorem symbolAt_eq_head? : g.symbolAt i dot = (g.rest i dot).head? := by
  cases hp : g.production? i with
  | none => simp [symbolAt, rest, hp]
  | some p => rw [symbolAt_of_production? hp, rest_of_production? hp, List.head?_drop]

/-- A symbol after a dot is one of a production. -/
theorem exists_production?_of_symbolAt (h : g.symbolAt i dot = some s) :
    ∃ p, g.production? i = some p ∧ p.symbols[dot]? = some s :=
  Option.bind_eq_some_iff.mp h

/-- What comes from a dot on begins with the symbol after the dot. -/
theorem rest_of_symbolAt (h : g.symbolAt i dot = some s) :
    g.rest i dot = s :: g.rest i (dot + 1) := by
  obtain ⟨p, hp, hs⟩ := exists_production?_of_symbolAt h
  rw [rest_of_production? hp, rest_of_production? hp]
  obtain ⟨hlt, rfl⟩ := List.getElem?_eq_some_iff.mp hs
  exact List.drop_eq_getElem_cons hlt

/-- What comes first from a dot on stands after it. -/
theorem symbolAt_of_rest {symbols : List Symbol} (h : g.rest i dot = s :: symbols) :
    g.symbolAt i dot = some s ∧ g.rest i (dot + 1) = symbols := by
  have hsymbol : g.symbolAt i dot = some s := by rw [symbolAt_eq_head?, h, List.head?_cons]
  rw [rest_of_symbolAt hsymbol] at h
  exact ⟨hsymbol, (List.cons.inj h).2⟩

/-- What comes from a dot on stands on a right side. -/
theorem mem_of_mem_rest (h : s ∈ g.rest i dot) :
    ∃ p, g.production? i = some p ∧ s ∈ p.symbols := by
  cases hp : g.production? i with
  | none => simp [rest, hp] at h
  | some p =>
      rw [rest_of_production? hp] at h
      exact ⟨p, rfl, List.mem_of_mem_drop h⟩

/-- The right side of production 0 is the start symbol. -/
theorem WellFormed.rest_zero (h : g.WellFormed) {start : String} (hstart : g.start = some start) :
    g.rest 0 0 = [.nonterminal start] := by
  obtain ⟨zero, hzero, _, _, hsymbols⟩ := h.zero
  rw [rest_of_production? hzero, hsymbols, hstart]
  rfl

/-- Of production 0 only the start symbol stands after a dot, with the dot in front. -/
theorem WellFormed.symbolAt_zero (h : g.WellFormed) (hsymbol : g.symbolAt 0 dot = some s) :
    dot = 0 ∧ ∃ start, g.start = some start ∧ s = .nonterminal start := by
  obtain ⟨zero, hp, _, _, hsymbols⟩ := h.zero
  rw [symbolAt_of_production? hp, hsymbols] at hsymbol
  cases hstart : g.start with
  | none => simp [hstart] at hsymbol
  | some start =>
      rw [hstart] at hsymbol
      cases dot with
      | zero => exact ⟨rfl, start, rfl, by simpa using hsymbol.symm⟩
      | succ dot => simp at hsymbol

namespace Ready

/-- The item of a production and a dot has a place of the arena. -/
theorem exists_itemAt (h : g.Ready) (hp : g.production? i = some p)
    (hdot : dot ≤ p.symbols.length) : g.ItemAt (p.range.first + dot) i dot :=
  ⟨_, h.arena.item hp hdot, h.wellFormed.index hp, rfl⟩

/-- What an item of the arena is made of. -/
theorem itemAt_origin (h : g.Ready) (hid : g.ItemAt id i dot) :
    ∃ p, g.production? i = some p ∧ dot ≤ p.symbols.length ∧ id = p.range.first + dot ∧
      g.item? id = some (g.itemAt p p.range.first dot) := by
  obtain ⟨item, hitem, rfl, rfl⟩ := hid
  obtain ⟨j, p, d, hp, hd, rfl, rfl⟩ := h.arena.origin hitem
  have hj : p.index = j := h.wellFormed.index hp
  exact ⟨p, by rw [← hp]; exact congrArg g.production? hj, hd, rfl, hitem⟩

/-- A production and a dot have one place only. -/
theorem itemAt_place_unique (h : g.Ready) (hid : g.ItemAt id i dot)
    (hother : g.ItemAt other i dot) : id = other := by
  obtain ⟨p, hp, _, rfl, _⟩ := h.itemAt_origin hid
  obtain ⟨q, hq, _, rfl, _⟩ := h.itemAt_origin hother
  cases hp.symm.trans hq
  rfl

/-- The symbol after the dot of a place. -/
theorem atDot?_eq (h : g.Ready) (hid : g.ItemAt id i dot) : g.atDot? id = g.symbolAt i dot := by
  obtain ⟨p, hp, _, rfl, hitem⟩ := h.itemAt_origin hid
  rw [symbolAt_of_production? hp, atDot?, hitem]
  rfl

/-- A place calls for the productions of the nonterminal after its dot. -/
theorem mem_productionsAfter (h : g.Ready) (hid : g.ItemAt id i dot) :
    j ∈ g.productionsAfter id ↔
      ∃ name, g.symbolAt i dot = some (.nonterminal name) ∧ j ∈ g.ruleIndices name := by
  obtain ⟨p, hp, _, rfl, hitem⟩ := h.itemAt_origin hid
  rw [symbolAt_of_production? hp, productionsAfter, hitem]
  simp only [itemAt]
  split
  · rename_i name hname
    rw [hname]
    constructor
    · exact fun hj => ⟨name, rfl, hj⟩
    · rintro ⟨_, hsame, hj⟩
      cases hsame
      exact hj
  · rename_i hnot
    constructor
    · exact fun hj => absurd hj List.not_mem_nil
    · rintro ⟨name, hname, _⟩
      exact absurd hname (hnot name)

/-- What a place calls for are productions of the nonterminal after the dot of its item. -/
theorem exists_of_mem_productionsAfter (h : g.Ready) (hj : j ∈ g.productionsAfter id) :
    ∃ i dot name, g.ItemAt id i dot ∧ g.symbolAt i dot = some (.nonterminal name) ∧
      j ∈ g.ruleIndices name := by
  cases hitem : g.item? id with
  | none => simp [productionsAfter, hitem] at hj
  | some item =>
      have hid := itemAt_of_item? hitem
      obtain ⟨name, hsymbol, hrule⟩ := (h.mem_productionsAfter hid).mp hj
      exact ⟨_, _, name, hid, hsymbol, hrule⟩

/-- A production has a first item, with the dot in front. -/
theorem firstItemOf?_eq (h : g.Ready) (hp : g.production? i = some p) :
    g.firstItemOf? i = some p.range.first :=
  h.arena.firstItemOf? hp

/-- The first item of a production has the dot in front. -/
theorem itemAt_firstItemOf? (h : g.Ready) (hid : g.firstItemOf? i = some id) :
    g.ItemAt id i 0 := by
  cases hp : g.production? i with
  | none => simp [firstItemOf?, hp] at hid
  | some p =>
      rw [h.firstItemOf?_eq hp] at hid
      cases hid
      exact h.exists_itemAt hp (Nat.zero_le _)

/-- Reading a symbol moves the dot over it, and needs it after the dot. -/
theorem advance?_eq_some_iff (h : g.Ready) (hid : g.ItemAt id i dot) :
    Automaton.advance? g s id = some other ↔
      g.symbolAt i dot = some s ∧ g.ItemAt other i (dot + 1) := by
  obtain ⟨p, hp, hdot, rfl, hitem⟩ := h.itemAt_origin hid
  have hnext : (g.item? (p.range.first + dot)).bind Item.next =
      if dot < p.symbols.length then some (p.range.first + dot + 1) else none := by
    rw [hitem]
    rfl
  rw [symbolAt_of_production? hp, Automaton.advance?, hnext]
  by_cases hlt : dot < p.symbols.length
  · have hmoved : g.ItemAt (p.range.first + (dot + 1)) i (dot + 1) := h.exists_itemAt hp hlt
    have hbefore : (g.item? (p.range.first + dot + 1)).bind Item.before = p.symbols[dot]? := by
      rw [Nat.add_assoc, h.arena.item hp hlt]
      rfl
    simp only [if_pos hlt, hbefore]
    constructor
    · intro hsome
      split at hsome
      · rename_i hs
        cases hsome
        exact ⟨hs, hmoved⟩
      · cases hsome
    · rintro ⟨hs, hother⟩
      rw [if_pos hs, h.itemAt_place_unique hother hmoved]
      rfl
  · simp only [if_neg hlt, List.getElem?_eq_none (Nat.le_of_not_lt hlt)]
    simp

/-- A place whose dot can be moved over a symbol has an item with the symbol after the dot. -/
theorem exists_of_advance? (h : g.Ready) (hmove : Automaton.advance? g s id = some other) :
    ∃ i dot, g.ItemAt id i dot ∧ g.symbolAt i dot = some s ∧ g.ItemAt other i (dot + 1) := by
  cases hitem : g.item? id with
  | none => simp [Automaton.advance?, hitem] at hmove
  | some item =>
      have hid := itemAt_of_item? hitem
      exact ⟨_, _, hid, (h.advance?_eq_some_iff hid).mp hmove⟩

end Ready

end Grammar

end ShiftReduce
