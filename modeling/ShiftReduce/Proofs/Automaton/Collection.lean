import Mathlib.Data.Finset.Powerset
import ShiftReduce.Lookahead
import ShiftReduce.Proofs.Automaton.Closure

/-!
# The collection of states

The states that are found are distinct as sets of places of the arena, so there are at most as many
as such sets and the search is never cut short. `collection` sums up what the search gives: every
state has a row, the row of a state leads wherever reading a symbol leads, and every state but the
first is led to from an earlier one.
-/

namespace ShiftReduce

variable {α : Type} {g : Grammar α}

namespace Automaton

open Grammar

variable {found : Found} {items current symbols : List Nat} {number fuel : Nat} {s : Symbol}

/-- A list of places of the arena, none of them twice. -/
structure Listed (g : Grammar α) (items : List Nat) : Prop where
  nodup : items.Nodup
  inArena : ∀ id ∈ items, ∃ item, g.item? id = some item

/-- Two lists with the same members. -/
def SamePlaces (items others : List Nat) : Prop :=
  ∀ id, id ∈ items ↔ id ∈ others

/-- The row of a state says which state has the places reached by reading a symbol. -/
structure RowOf (g : Grammar α) (states : List (List Nat)) (current : List Nat)
    (row : Registry Symbol Nat) : Prop where
  leads : ∀ {s : Symbol} {number : Nat}, row.get? s = some number →
    goto g current s ≠ [] ∧ ∃ items, states[number]? = some items ∧
      SamePlaces items (goto g current s)
  total : ∀ {s : Symbol}, goto g current s ≠ [] → ∃ number, row.get? s = some number

/-- The states found so far are distinct as sets. -/
structure Found.Proper (g : Grammar α) (found : Found) : Prop where
  keys : found.keys = found.states.map Ascending.sort
  distinct : found.keys.Nodup
  listed : ∀ items ∈ found.states, Listed g items

/-! ## Lists of places -/

/-- Closing stays inside the arena. -/
theorem exists_item?_closeFrom (h : g.Ready) {added pending : List Nat}
    (hpending : ∀ id ∈ pending, ∃ item, g.item? id = some item) :
    ∀ id ∈ closeFrom g fuel added pending, ∃ item, g.item? id = some item := by
  refine closeFrom_induction (fun id first _ i _ hfirst => ?_) hpending
  obtain ⟨item, hitem, _⟩ := h.itemAt_firstItemOf? hfirst
  exact ⟨item, hitem⟩

/-- Whatever is reached from places of the arena are places of the arena. -/
theorem listed_goto (h : g.Ready) (hitems : items.Nodup) (s : Symbol) :
    Listed g (goto g items s) := by
  refine ⟨nodup_goto h hitems, exists_item?_closeFrom h fun id hid => ?_⟩
  obtain ⟨other, _, hmove⟩ := List.mem_filterMap.mp hid
  obtain ⟨_, _, _, _, moved, hmoved, _⟩ := h.exists_of_advance? hmove
  exact ⟨moved, hmoved⟩

/-- The state the search starts from. -/
theorem listed_closure_start (h : g.Ready) {start : Nat} (hstart : g.firstItemOf? 0 = some start) :
    Listed g (closure g [start]) := by
  have hzero := h.itemAt_firstItemOf? hstart
  refine ⟨nodup_closure h (List.nodup_singleton _) ?_, exists_item?_closeFrom h fun id hid => ?_⟩
  · rintro i ⟨id, hid, hitem⟩
    rw [List.mem_singleton.mp hid] at hitem
    exact (hitem.eq hzero).1
  · rw [List.mem_singleton.mp hid]
    obtain ⟨item, hitem, _⟩ := hzero
    exact ⟨item, hitem⟩

/-- Lists that are sorted alike have the same members. -/
theorem samePlaces_of_sort_eq {others : List Nat}
    (h : Ascending.sort items = Ascending.sort others) : SamePlaces items others := by
  intro id
  rw [← Ascending.mem_sort, h, Ascending.mem_sort]

/-- Distinct sets of places are at most as many as sets of places of the arena. -/
theorem Found.Proper.length_le (h : found.Proper g) :
    found.states.length ≤ Nat.pow 2 g.items.length := by
  have hdistinct : (found.states.map List.toFinset).Nodup := by
    have hkeys := h.distinct
    rw [h.keys] at hkeys
    refine (List.nodup_map_iff_inj_on hkeys.of_map).mpr ?_
    intro a ha b hb hsame
    refine (List.nodup_map_iff_inj_on hkeys.of_map).mp hkeys a ha b hb ?_
    refine Ascending.sort_eq_sort (h.listed a ha).nodup (h.listed b hb).nodup fun id => ?_
    rw [← List.mem_toFinset, hsame, List.mem_toFinset]
  have hsub : (found.states.map List.toFinset).toFinset ⊆
      (Finset.range g.items.length).powerset := by
    intro set hset
    obtain ⟨items, hitems, rfl⟩ := List.mem_map.mp (List.mem_toFinset.mp hset)
    refine Finset.mem_powerset.mpr fun id hid => ?_
    obtain ⟨item, hitem⟩ := (h.listed items hitems).inArena id (List.mem_toFinset.mp hid)
    exact Finset.mem_range.mpr (List.getElem?_eq_some_iff.mp hitem).1
  have hcard := Finset.card_le_card hsub
  rwa [List.toFinset_card_of_nodup hdistinct, List.length_map, Finset.card_powerset,
    Finset.card_range] at hcard

/-! ## Numbering a state -/

/-- A state is found under its number afterwards, and is appended if it was not there. -/
theorem locate_spec (hfound : found.Proper g) (hitems : Listed g items) :
    (found.locate items).1.Proper g ∧ found.states <+: (found.locate items).1.states ∧
      (∃ same, (found.locate items).1.states[(found.locate items).2]? = some same ∧
        SamePlaces same items) ∧
      ((found.locate items).1 = found ∨
        (found.locate items).1.states = found.states ++ [items] ∧
          (found.locate items).2 = found.states.length) := by
  simp only [Found.locate]
  split
  · rename_i number hkey
    have hget := getElem?_of_idxOf? hkey
    rw [hfound.keys, List.getElem?_map] at hget
    obtain ⟨same, hsame, hsort⟩ := Option.map_eq_some_iff.mp hget
    exact ⟨hfound, List.prefix_rfl, ⟨same, hsame, samePlaces_of_sort_eq hsort⟩, Or.inl rfl⟩
  · rename_i hkey
    have hnew : Ascending.sort items ∉ found.keys := fun hmem => by
      obtain ⟨number, hsome⟩ := exists_idxOf? hmem
      rw [hkey] at hsome
      cases hsome
    refine ⟨⟨?_, ?_, ?_⟩, List.prefix_append _ _, ⟨items, ?_, fun _ => Iff.rfl⟩,
      Or.inr ⟨rfl, rfl⟩⟩
    · rw [List.map_append, hfound.keys]
      rfl
    · exact List.nodup_append.mpr ⟨hfound.distinct, List.nodup_singleton _,
        fun a ha b hb => by rintro rfl; exact hnew (List.mem_singleton.mp hb ▸ ha)⟩
    · intro other hother
      rcases List.mem_append.mp hother with hold | hsame
      · exact hfound.listed other hold
      · rw [List.mem_singleton.mp hsame]
        exact hitems
    · simp

/-! ## Leaving states -/

/-- A number keeps its state when more states are found. -/
theorem getElem?_of_prefix {states more : List (List Nat)} (h : states <+: more)
    (hitems : states[number]? = some items) : more[number]? = some items := by
  obtain ⟨rest, rfl⟩ := h
  have hlt := (List.getElem?_eq_some_iff.mp hitems).1
  rw [List.getElem?_append_left hlt]
  exact hitems

/-- A row stays right when more states are found. -/
theorem RowOf.of_prefix {states more : List (List Nat)} {row : Registry Symbol Nat}
    (h : RowOf g states current row) (hmore : states <+: more) : RowOf g more current row where
  leads := by
    intro s number hget
    obtain ⟨hne, items, hitems, hsame⟩ := h.leads hget
    exact ⟨hne, items, getElem?_of_prefix hmore hitems, hsame⟩
  total := h.total

/-- What reading symbols in a state gives: an entry for each that leads anywhere, and every state
that is new has an entry. -/
structure Left (g : Grammar α) (current : List Nat) (found : Found) (symbols : List Symbol)
    (last : Found) (entries : List (Symbol × Nat)) : Prop where
  proper : last.Proper g
  grown : found.states <+: last.states
  keys : (entries.map Prod.fst).Sublist symbols
  leads : ∀ {s : Symbol} {number : Nat}, (s, number) ∈ entries →
    goto g current s ≠ [] ∧ ∃ items, last.states[number]? = some items ∧
      SamePlaces items (goto g current s)
  total : ∀ {s : Symbol}, s ∈ symbols → goto g current s ≠ [] → ∃ number, (s, number) ∈ entries
  reached : ∀ {number : Nat}, found.states.length ≤ number → number < last.states.length →
    ∃ s, (s, number) ∈ entries

namespace Left

variable {last : Found} {entries : List (Symbol × Nat)} {rest : List Symbol}

/-- A symbol that leads nowhere has no entry. -/
theorem skip (hnil : goto g current s = []) (hleft : Left g current found rest last entries) :
    Left g current found (s :: rest) last entries where
  proper := hleft.proper
  grown := hleft.grown
  keys := hleft.keys.cons s
  leads := hleft.leads
  total := by
    intro other hother hne
    rcases List.mem_cons.mp hother with rfl | hrest
    · exact absurd hnil hne
    · exact hleft.total hrest hne
  reached := hleft.reached

/-- A symbol that leads anywhere has the number of the state that it leads to. -/
theorem read (h : g.Ready) (hcurrent : current.Nodup) (hfound : found.Proper g)
    (hne : goto g current s ≠ [])
    (hleft : Left g current (found.locate (goto g current s)).1 rest last entries) :
    Left g current found (s :: rest) last
      ((s, (found.locate (goto g current s)).2) :: entries) := by
  obtain ⟨_, hfirst, ⟨same, hsame, hplaces⟩, hgrown⟩ :=
    locate_spec hfound (listed_goto h hcurrent s)
  refine ⟨hleft.proper, hfirst.trans hleft.grown, by simpa using hleft.keys, ?_, ?_, ?_⟩
  · intro other number hentry
    rcases List.mem_cons.mp hentry with heq | hrest
    · cases heq
      exact ⟨hne, same, getElem?_of_prefix hleft.grown hsame, hplaces⟩
    · exact hleft.leads hrest
  · intro other hother hleads
    rcases List.mem_cons.mp hother with rfl | hrest
    · exact ⟨_, List.mem_cons_self⟩
    · obtain ⟨number, hentry⟩ := hleft.total hrest hleads
      exact ⟨number, List.mem_cons_of_mem _ hentry⟩
  · intro number hle hlt
    -- a new state is the one that was just located, or comes after it
    by_cases hhere : number < (found.locate (goto g current s)).1.states.length
    · rcases hgrown with hold | ⟨hstates, hnumber⟩
      · rw [hold] at hhere
        omega
      · rw [hstates, List.length_append, List.length_singleton] at hhere
        have hlast : number = (found.locate (goto g current s)).2 := by omega
        rw [hlast]
        exact ⟨s, List.mem_cons_self⟩
    · obtain ⟨other, hentry⟩ := hleft.reached (Nat.le_of_not_lt hhere) hlt
      exact ⟨other, List.mem_cons_of_mem _ hentry⟩

end Left

/-- Reading symbols in a state gives what it should. -/
theorem left_leave (h : g.Ready) (hcurrent : current.Nodup) (hfound : found.Proper g)
    (symbols : List Symbol) :
    Left g current found symbols (leave g current found symbols).1
      (leave g current found symbols).2 := by
  induction symbols generalizing found with
  | nil =>
      refine ⟨hfound, List.prefix_rfl, List.Sublist.slnil, by simp [leave], by simp, ?_⟩
      intro number hle hlt
      exact absurd hlt (Nat.not_lt_of_le hle)
  | cons s rest ih =>
      by_cases hnil : goto g current s = []
      · have hskip : leave g current found (s :: rest) = leave g current found rest := by
          rw [leave, hnil]
        rw [hskip]
        exact (ih hfound).skip hnil
      · have hstep : leave g current found (s :: rest) =
            ((leave g current (found.locate (goto g current s)).1 rest).1,
              (s, (found.locate (goto g current s)).2) ::
                (leave g current (found.locate (goto g current s)).1 rest).2) := by
          rw [leave]
          split
          · rename_i habs
            exact absurd habs hnil
          · rfl
        rw [hstep]
        exact (ih (locate_spec hfound (listed_goto h hcurrent s)).1).read h hcurrent hfound hnil

/-- Only symbols after a dot lead anywhere. -/
theorem mem_symbolsOf_of_goto (h : g.Ready) (hne : goto g current s ≠ []) :
    s ∈ symbolsOf g current := by
  obtain ⟨i, dot, ⟨id, hid, hitem⟩, hs⟩ := (goto_ne_nil_iff h).mp hne
  rw [symbolsOf, Ordered.mem_ofList, List.mem_filterMap]
  exact ⟨id, hid, by rw [h.atDot?_eq hitem, hs]⟩

/-- Reading the symbols after the dots of a state gives its row. -/
theorem Left.rowOf (h : g.Ready) {last : Found} {entries : List (Symbol × Nat)}
    (hleft : Left g current found (symbolsOf g current) last entries) :
    RowOf g last.states current ⟨entries⟩ where
  leads := fun hget => hleft.leads (Registry.mem_entries_of_get? hget)
  total := by
    intro s hne
    obtain ⟨number, hentry⟩ := hleft.total (mem_symbolsOf_of_goto h hne) hne
    exact Registry.exists_get?_of_mem_keys (List.mem_map.mpr ⟨_, hentry, rfl⟩)

/-! ## Exploring -/

/-- What leaving the states from a number on gives: a row for each of them, and every state that is
new is led to by a row from before. -/
structure Explored (g : Grammar α) (number : Nat) (found last : Found)
    (rows : List (Registry Symbol Nat)) : Prop where
  proper : last.Proper g
  grown : found.states <+: last.states
  size : number + rows.length = last.states.length
  row : ∀ {k : Nat} {row : Registry Symbol Nat}, rows[k]? = some row → ∃ items,
    last.states[number + k]? = some items ∧ RowOf g last.states items row
  reached : ∀ {n : Nat}, found.states.length ≤ n → n < last.states.length →
    ∃ k row s, rows[k]? = some row ∧ row.get? s = some n ∧ number + k < n

namespace Explored

variable {next last : Found} {entries : List (Symbol × Nat)} {rows : List (Registry Symbol Nat)}

/-- Behind the last state nothing is left. -/
theorem stop (hfound : found.Proper g) (hnumber : number = found.states.length) :
    Explored g number found found [] := by
  refine ⟨hfound, List.prefix_rfl, hnumber, by simp, ?_⟩
  intro n hle hlt
  exact absurd hlt (Nat.not_lt_of_le hle)

/-- A state is left, then those behind it. -/
theorem leave (h : g.Ready) (hcurrent : found.states[number]? = some current)
    (hleft : Left g current found (symbolsOf g current) next entries)
    (hrest : Explored g (number + 1) next last rows) :
    Explored g number found last (⟨entries⟩ :: rows) := by
  have hlt := (List.getElem?_eq_some_iff.mp hcurrent).1
  refine ⟨hrest.proper, hleft.grown.trans hrest.grown, ?_, ?_, ?_⟩
  · have hsize := hrest.size
    rw [List.length_cons]
    omega
  · intro k row hk
    cases k with
    | zero =>
        cases hk
        have hrow := hleft.rowOf h
        exact ⟨current, getElem?_of_prefix (hleft.grown.trans hrest.grown) hcurrent,
          hrow.of_prefix hrest.grown⟩
    | succ k =>
        obtain ⟨items, hitems, hof⟩ := hrest.row (show rows[k]? = some row from hk)
        refine ⟨items, ?_, hof⟩
        rwa [show number + (k + 1) = number + 1 + k by omega]
  · intro n hn hlast
    by_cases hhere : n < next.states.length
    · obtain ⟨s, hentry⟩ := hleft.reached hn hhere
      have hdistinct : (⟨entries⟩ : Registry Symbol Nat).keys.Nodup :=
        hleft.keys.nodup (Ordered.nodup_ofList _)
      refine ⟨0, ⟨entries⟩, s, rfl, Registry.get?_of_mem_entries hdistinct hentry, ?_⟩
      omega
    · obtain ⟨k, row, s, hk, hget, hbefore⟩ := hrest.reached (Nat.le_of_not_lt hhere) hlast
      exact ⟨k + 1, row, s, hk, hget, by omega⟩

end Explored

/-- Exploring goes on until every state has its row. -/
theorem explored_explore (h : g.Ready) (hfound : found.Proper g)
    (hnumber : number ≤ found.states.length)
    (hfuel : Nat.pow 2 g.items.length < fuel + number) :
    Explored g number found (explore g fuel number found).1 (explore g fuel number found).2 := by
  induction fuel generalizing number found with
  | zero =>
      -- there are too few sets of places for the fuel to run out
      have hle := hfound.length_le
      exact .stop hfound (by omega)
  | succ fuel ih =>
      cases hcurrent : found.states[number]? with
      | none =>
          have hend : explore g (fuel + 1) number found = (found, []) := by
            rw [explore, hcurrent]
          have hle := List.getElem?_eq_none_iff.mp hcurrent
          rw [hend]
          exact .stop hfound (by omega)
      | some current =>
          have hnodup : current.Nodup :=
            (hfound.listed current (List.mem_of_getElem? hcurrent)).nodup
          have hleft := left_leave h hnodup hfound (symbolsOf g current)
          generalize hreturn : Automaton.leave g current found (symbolsOf g current) = left at hleft
          have hstep : explore g (fuel + 1) number found =
              ((explore g fuel (number + 1) left.1).1,
                ⟨left.2⟩ :: (explore g fuel (number + 1) left.1).2) := by
            rw [explore, hcurrent]
            simp only [hreturn]
          have hlt := (List.getElem?_eq_some_iff.mp hcurrent).1
          have hlonger := hleft.grown.length_le
          rw [hstep]
          exact .leave h hcurrent hleft (ih hleft.proper (by omega) (by omega))

end Automaton

open Automaton Grammar

/-- What the search for states gives. -/
structure Collected (g : Grammar α) (s : States) : Prop where
  start : ∃ start items, g.firstItemOf? 0 = some start ∧ s.states[0]? = some items ∧
    items = closure g [start]
  proper : (Found.mk s.states (s.states.map Ascending.sort)).Proper g
  size : s.transitions.length = s.states.length
  row : ∀ {q : Nat} {row : Registry Symbol Nat}, s.transitions[q]? = some row →
    ∃ items, s.states[q]? = some items ∧ RowOf g s.states items row
  reached : ∀ {q : Nat}, q ≠ 0 → q < s.states.length →
    ∃ p symbol, s.goto? p symbol = some q ∧ p < q

theorem States.itemsOf_of_getElem? {s : States} {q : Nat} {items : List Nat}
    (hq : s.states[q]? = some items) : s.itemsOf q = items := by
  rw [States.itemsOf, hq]
  rfl

/-- The search for states is never cut short. -/
theorem Grammar.Ready.collection (h : g.Ready) : Collected g (states g) := by
  obtain ⟨zero, hzero, _⟩ := h.wellFormed.zero
  have hstart := h.firstItemOf?_eq hzero
  have hlisted := listed_closure_start h hstart
  have hempty : Found.Proper g {} := ⟨rfl, List.nodup_nil, by simp⟩
  obtain ⟨hfound, _, ⟨same, hsame, _⟩, hgrown⟩ := locate_spec hempty hlisted
  have hone : (Found.locate {} (closure g [zero.range.first])).1.states =
      [closure g [zero.range.first]] := by
    rcases hgrown with hnone | ⟨hstates, _⟩
    · rw [hnone] at hsame
      cases hsame
    · exact hstates
  have hexplored :=
    explored_explore h hfound (Nat.zero_le _) (Nat.lt_succ_self (Nat.pow 2 g.items.length))
  have hkeys := hexplored.proper.keys
  simp only [states, hstart]
  refine ⟨⟨_, _, hstart, getElem?_of_prefix hexplored.grown ?_, rfl⟩, ?_, ?_, ?_, ?_⟩
  · rw [hone]
    rfl
  · exact ⟨rfl, hkeys ▸ hexplored.proper.distinct, hexplored.proper.listed⟩
  · exact (Nat.zero_add _).symm.trans hexplored.size
  · intro q row hrow
    obtain ⟨items, hitems, hof⟩ := hexplored.row hrow
    rw [Nat.zero_add] at hitems
    exact ⟨items, hitems, hof⟩
  · intro q hne hlt
    have hone' : (Found.locate {} (closure g [zero.range.first])).1.states.length ≤ q := by
      rw [hone, List.length_singleton]
      omega
    obtain ⟨k, row, symbol, hk, hget, hbefore⟩ := hexplored.reached hone' hlt
    refine ⟨k, symbol, ?_, by omega⟩
    rw [States.goto?, hk]
    exact hget

namespace Collected

variable {s : States} {q j i dot : Nat} {symbol : Symbol} {name : String}

/-- A transition leads to the state with the places that reading its symbol gives. -/
theorem goto?_eq_some (hs : Collected g s) (hgoto : s.goto? q symbol = some j) :
    goto g (s.itemsOf q) symbol ≠ [] ∧ ∃ items, s.states[j]? = some items ∧
      SamePlaces items (goto g (s.itemsOf q) symbol) := by
  obtain ⟨row, hrow, hget⟩ := Option.bind_eq_some_iff.mp hgoto
  obtain ⟨items, hitems, hof⟩ := hs.row hrow
  rw [States.itemsOf_of_getElem? hitems]
  exact hof.leads hget

/-- Transitions lead from states to states. -/
theorem lt_of_goto? (hs : Collected g s) (hgoto : s.goto? q symbol = some j) :
    q < s.states.length ∧ j < s.states.length := by
  obtain ⟨row, hrow, _⟩ := Option.bind_eq_some_iff.mp hgoto
  obtain ⟨_, hitems, _⟩ := hs.row hrow
  obtain ⟨_, _, htarget, _⟩ := hs.goto?_eq_some hgoto
  exact ⟨(List.getElem?_eq_some_iff.mp hitems).1, (List.getElem?_eq_some_iff.mp htarget).1⟩

/-- Whatever a state holds after a transition is held by what reading its symbol gives, and the
other way round. -/
theorem holds_iff_goto (hs : Collected g s) (hgoto : s.goto? q symbol = some j) :
    g.Holds (s.itemsOf j) i dot ↔ g.Holds (goto g (s.itemsOf q) symbol) i dot := by
  obtain ⟨_, items, hitems, hsame⟩ := hs.goto?_eq_some hgoto
  rw [States.itemsOf_of_getElem? hitems]
  exact exists_congr fun id => and_congr_left fun _ => hsame id

/-- A number beyond the states holds nothing. -/
theorem lt_of_holds (hitem : g.Holds (s.itemsOf q) i dot) : q < s.states.length := by
  obtain ⟨id, hid, _⟩ := hitem
  by_contra hge
  rw [States.itemsOf, List.getElem?_eq_none (Nat.le_of_not_lt hge)] at hid
  exact List.not_mem_nil hid

/-! ## States by production and dot -/

theorem itemsOf_zero (hs : Collected g s) :
    ∃ start, g.firstItemOf? 0 = some start ∧ s.itemsOf 0 = closure g [start] := by
  obtain ⟨start, items, hstart, hitems, rfl⟩ := hs.start
  exact ⟨start, hstart, States.itemsOf_of_getElem? hitems⟩

/-- Every state is the closure of something. -/
theorem itemsOf_closed (hs : Collected g s) (hlt : q < s.states.length) :
    ∃ items, ∀ i dot, g.Holds (s.itemsOf q) i dot ↔ g.Holds (closure g items) i dot := by
  by_cases hq : q = 0
  · obtain ⟨start, _, hzero⟩ := hs.itemsOf_zero
    exact ⟨[start], fun i dot => by rw [hq, hzero]⟩
  · obtain ⟨p, symbol, hgoto, _⟩ := hs.reached hq hlt
    exact ⟨kernel g (s.itemsOf p) symbol, fun i dot => hs.holds_iff_goto hgoto⟩

/-- State 0 holds the first item of production 0. -/
theorem holds_zero (h : g.Ready) (hs : Collected g s) : g.Holds (s.itemsOf 0) 0 0 := by
  obtain ⟨start, hstart, hzero⟩ := hs.itemsOf_zero
  rw [hzero]
  exact ⟨start, subset_closure h _ List.mem_cons_self, h.itemAt_firstItemOf? hstart⟩

/-- A state holds the first items of the productions its items call for. -/
theorem holds_expand (h : g.Ready) (hs : Collected g s) (hitem : g.Holds (s.itemsOf q) i dot)
    (hsymbol : g.symbolAt i dot = some (.nonterminal name)) (hj : j ∈ g.ruleIndices name) :
    g.Holds (s.itemsOf q) j 0 := by
  obtain ⟨items, hclosed⟩ := hs.itemsOf_closed (lt_of_holds hitem)
  rw [hclosed] at hitem ⊢
  exact holds_closure_expand h hitem hsymbol hj

/-- The symbol after a dot can be read. -/
theorem exists_goto? (h : g.Ready) (hs : Collected g s) (hitem : g.Holds (s.itemsOf q) i dot)
    (hsymbol : g.symbolAt i dot = some symbol) :
    ∃ j, s.goto? q symbol = some j ∧ g.Holds (s.itemsOf j) i (dot + 1) := by
  have hlt := lt_of_holds hitem
  have hrow : q < s.transitions.length := by rw [hs.size]; exact hlt
  obtain ⟨items, hitems, hof⟩ := hs.row (List.getElem?_eq_getElem hrow)
  have hitemsOf := States.itemsOf_of_getElem? hitems
  have hne : goto g items symbol ≠ [] :=
    (goto_ne_nil_iff h).mpr ⟨i, dot, hitemsOf ▸ hitem, hsymbol⟩
  obtain ⟨j, hget⟩ := hof.total hne
  have hgoto : s.goto? q symbol = some j := by
    rw [States.goto?, List.getElem?_eq_getElem hrow]
    exact hget
  refine ⟨j, hgoto, (hs.holds_iff_goto hgoto).mpr ?_⟩
  obtain ⟨id, hid, hmoved⟩ := (holds_kernel_iff h).mpr ⟨dot, rfl, hitem, hsymbol⟩
  exact ⟨id, subset_closure h _ hid, hmoved⟩

/-- Reading a symbol needs it after a dot. -/
theorem exists_holds_of_goto? (h : g.Ready) (hs : Collected g s)
    (hgoto : s.goto? q symbol = some j) :
    ∃ i dot, g.Holds (s.itemsOf q) i dot ∧ g.symbolAt i dot = some symbol :=
  (goto_ne_nil_iff h).mp (hs.goto?_eq_some hgoto).1

/-- No transition leads to state 0. -/
theorem ne_zero_of_goto? (h : g.Ready) (hs : Collected g s) (hgoto : s.goto? q symbol = some j) :
    j ≠ 0 := by
  rintro rfl
  exact not_holds_goto_start h ((hs.holds_iff_goto hgoto).mp (hs.holds_zero h))

/-- State 0 holds nothing but what production 0 calls for. -/
theorem zero_induction (h : g.Ready) (hs : Collected g s) {P : Nat → Nat → Prop} (hstart : P 0 0)
    (hexpand : ∀ i dot name j, P i dot → g.symbolAt i dot = some (.nonterminal name) →
      j ∈ g.ruleIndices name → P j 0)
    (hitem : g.Holds (s.itemsOf 0) i dot) : P i dot := by
  obtain ⟨start, hfirst, hzero⟩ := hs.itemsOf_zero
  rw [hzero] at hitem
  refine holds_closure_induction h ?_ hexpand hitem
  rintro i dot ⟨id, hid, hat⟩
  rw [List.mem_singleton.mp hid] at hat
  obtain ⟨rfl, rfl⟩ := hat.eq (h.itemAt_firstItemOf? hfirst)
  exact hstart

/-- A state that a transition leads to holds nothing but the items whose dot was moved and what they
call for. -/
theorem goto?_induction (h : g.Ready) (hs : Collected g s) (hgoto : s.goto? q symbol = some j)
    {P : Nat → Nat → Prop}
    (hmove : ∀ i dot, g.Holds (s.itemsOf q) i dot → g.symbolAt i dot = some symbol →
      P i (dot + 1))
    (hexpand : ∀ i dot name j, P i dot → g.symbolAt i dot = some (.nonterminal name) →
      j ∈ g.ruleIndices name → P j 0)
    (hitem : g.Holds (s.itemsOf j) i dot) : P i dot := by
  refine holds_closure_induction h ?_ hexpand ((hs.holds_iff_goto hgoto).mp hitem)
  intro i dot hkernel
  obtain ⟨before, rfl, hheld, hsymbol⟩ := (holds_kernel_iff h).mp hkernel
  exact hmove i before hheld hsymbol

/-- Every state is led to from state 0. -/
theorem state_induction (hs : Collected g s) {P : Nat → Prop} (hzero : P 0)
    (hgoto : ∀ q symbol j, P q → s.goto? q symbol = some j → P j) (hlt : q < s.states.length) :
    P q := by
  induction q using Nat.strongRecOn with
  | _ q ih =>
      by_cases hq : q = 0
      · rw [hq]
        exact hzero
      · obtain ⟨p, symbol, hstep, hbefore⟩ := hs.reached hq hlt
        exact hgoto p symbol q (ih p hbefore (Nat.lt_trans hbefore hlt)) hstep

end Collected

end ShiftReduce
