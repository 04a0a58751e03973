import ShiftReduce.Proofs.Lookahead.ReadSets
import ShiftReduce.Proofs.Lookahead.Valid

/-!
# Lookaheads are exact

What follows a transition is what may come behind its nonterminal after a string that leads to its
state: what is read there, and what may come behind the left sides at whose end the nonterminal
stands. Soundness goes along the edges of the relation, completeness along the rules by which items
expect terminals; the lookaheads of a reduction then are what its complete item expects. Read
`mem_lookaheads_iff` first.
-/

namespace ShiftReduce.Lookahead

open Grammar ShiftReduce.Digraph

variable {α : Type} {g : Grammar α} {s : States} {q r i j k v dot : Nat} {name : String}
  {t : Transition} {p : Production α} {γ η : List Symbol} {symbol : Symbol}

/-! ## The relations by number -/

theorem edge_includes_iff : Edge (Relations.of g s).includes j i ↔
    ∃ t, (transitions g s)[i]? = some t ∧
      j ∈ includedIn g s (transitions g s) (nullable g) t := by
  by_cases hj : j < (transitions g s).length
  · exact mem_includes_iff hj
  · constructor
    · intro hedge
      have hnone : (Relations.of g s).includes[j]? = none := by
        refine List.getElem?_eq_none ?_
        rw [show (Relations.of g s).includes.length = _ from length_includes]
        exact Nat.le_of_not_lt hj
      rw [Edge, hnone] at hedge
      exact absurd hedge List.not_mem_nil
    · rintro ⟨t, _, hin⟩
      obtain ⟨_, _, _, _, _, _, _, _, _, _, _, _, hindex⟩ := mem_includedIn_iff.mp hin
      exact absurd (lt_of_idxOf? hindex) hj

theorem bounded_includes (h : g.Ready) :
    Bounded (Relations.of g s).includes (Relations.of g s).read := by
  intro j i hedge
  obtain ⟨t, ht, hin⟩ := edge_includes_iff.mp hedge
  obtain ⟨_, _, _, _, _, _, _, _, _, _, _, _, hindex⟩ := mem_includedIn_iff.mp hin
  rw [length_read h]
  exact ⟨lt_of_idxOf? hindex, (List.getElem?_eq_some_iff.mp ht).1⟩

theorem length_follow (h : g.Ready) :
    (Relations.of g s).follow.length = (transitions g s).length :=
  (length_closeSets (bounded_includes h)).trans (length_read h)

/-! ## Soundness -/

/-- The numbers of terminals that may come behind a nonterminal. -/
def BehindIndex (g : Grammar α) (γ : List Symbol) (name : String) (v : Nat) : Prop :=
  ∃ symbol, g.terminalIndex? symbol = some v ∧ g.Behind γ name symbol

/-- The end of input may come behind the start symbol. -/
theorem behind_start (h : g.WellFormed) {start : String} (hstart : g.start = some start) :
    g.Behind [] start .endOfInput := by
  obtain ⟨hsymbol, hrest⟩ := symbolAt_of_rest (h.rest_zero hstart)
  refine ⟨0, 0, .start, hsymbol, Or.inr ⟨?_, .start⟩⟩
  rw [hrest]
  exact .refl

/-- What is readable behind a nonterminal may come behind it. -/
theorem behind_of_readable (h : g.WellFormed) (hreadable : g.Readable γ name symbol) :
    g.Behind γ name symbol := by
  rcases hreadable with ⟨i, dot, hitem, hname, hbegins⟩ | ⟨rfl, rfl, hstart⟩
  · exact ⟨i, dot, hitem, hname, Or.inl hbegins⟩
  · exact behind_start h hstart

/-- The production that a first item in the state of a transition belongs to. -/
theorem mem_ruleIndices_of_name (h : g.Ready) (ht : t ∈ transitions g s)
    (hp : g.production? i = some p) (hname : p.name = t.name) : i ∈ g.ruleIndices t.name := by
  obtain ⟨_, _, _, hsymbol⟩ := (mem_transitions_iff h).mp ht
  refine h.wellFormed.rules.mpr ⟨?_, p, hp, hname⟩
  refine ne_zero_of_knows h.wellFormed hp ?_
  rw [hname]
  exact knows_of_symbolAt h.wellFormed hsymbol

/-- What may come behind the left side of a production may come behind a nonterminal at the end of
its right side, if only vanishing symbols stand there. -/
theorem behind_of_includedIn (h : g.Ready) {outer : Transition}
    (houter : outer ∈ transitions g s) (hpath : s.path? 0 γ = some outer.state)
    (hin : k ∈ includedIn g s (transitions g s) (nullable g) outer)
    (ht : (transitions g s)[k]? = some t) (hbehind : BehindIndex g γ outer.name v) :
    ∃ δ, s.path? 0 δ = some t.state ∧ BehindIndex g δ t.name v := by
  obtain ⟨i, p, front, name, rest, q, hp, _, hname, hsymbols, hall, hfront, hindex⟩ :=
    mem_includedIn_iff.mp hin
  cases ht.symm.trans (getElem?_of_idxOf? hindex)
  obtain ⟨symbol, hterminal, hbehind⟩ := hbehind
  obtain ⟨hseen, hsymbol, hrest⟩ := dot_of_symbols_eq hp hsymbols
  have hlength : front.length ≤ p.symbols.length := by
    rw [hsymbols, List.length_append]
    omega
  have hvanishes : g.Vanishes rest := by
    refine vanishing_iff.mp ((allAmong_nullable_iff h.wellFormed fun s hs => ?_).mp hall)
    refine h.wellFormed.knows hp ?_
    rw [hsymbols]
    exact List.mem_append_right _ (List.mem_cons_of_mem _ hs)
  have hmoved := (hbehind.expects (mem_ruleIndices_of_name h houter hp hname)).along hp hlength
  rw [hseen] at hmoved
  refine ⟨γ ++ front, ?_, symbol, hterminal, i, front.length, hmoved.viable, hsymbol,
    Or.inr ⟨?_, hmoved⟩⟩
  · rw [States.path?_append, hpath]
    exact hfront
  · rw [hrest]
    exact hvanishes

/-- What follows a transition may come behind its nonterminal after some string that leads to its
state. -/
theorem follow_sound (h : g.Ready) (hs : Collected g s) (ht : (transitions g s)[k]? = some t)
    (hv : v ∈ (Relations.of g s).follow[k]?.getD []) :
    ∃ γ, s.path? 0 γ = some t.state ∧ BehindIndex g γ t.name v := by
  refine closeSets_induction (bounded_includes h)
    (P := fun k v => ∀ t, (transitions g s)[k]? = some t →
      ∃ γ, s.path? 0 γ = some t.state ∧ BehindIndex g γ t.name v) ?_ ?_ hv t ht
  · intro k v hread t ht
    obtain ⟨_, _, hitem, _⟩ := (mem_transitions_iff h).mp (List.mem_of_getElem? ht)
    obtain ⟨γ, hpath⟩ := hs.exists_path? (Collected.lt_of_holds hitem)
    obtain ⟨symbol, hindex, hreadable⟩ := (mem_read_iff h hs ht hpath).mp hread
    exact ⟨γ, hpath, symbol, hindex, behind_of_readable h.wellFormed hreadable⟩
  · intro j i v hedge ih t ht
    obtain ⟨outer, houter, hin⟩ := edge_includes_iff.mp hedge
    obtain ⟨γ, hpath, hbehind⟩ := ih outer houter
    exact behind_of_includedIn h (List.mem_of_getElem? houter) hpath hin ht hbehind

/-! ## Completeness -/

/-- A number in the follow set of the transition on a left side from the state at the end of a
string. -/
def FollowAt (g : Grammar α) (s : States) (γ : List Symbol) (i v : Nat) : Prop :=
  ∃ p q k, g.production? i = some p ∧ s.path? 0 γ = some q ∧
    (transitions g s).idxOf? ⟨q, p.name⟩ = some k ∧ v ∈ (Relations.of g s).follow[k]?.getD []

/-- The transition on the nonterminal after a dot of a valid item. -/
theorem exists_transition_of_viable (h : g.Ready) (hs : Collected g s) (hitem : g.Viable γ i dot)
    (hname : g.symbolAt i dot = some (.nonterminal name)) :
    ∃ q k, s.path? 0 γ = some q ∧ (transitions g s).idxOf? ⟨q, name⟩ = some k := by
  obtain ⟨q, hpath, hheld⟩ := hitem.exists_path? h hs
  obtain ⟨k, hk⟩ := exists_transition h ⟨i, dot, hheld, hname⟩
  exact ⟨q, k, hpath, hk⟩

/-- What is readable behind a nonterminal follows it. -/
theorem followAt_of_readable (h : g.Ready) (hs : Collected g s) (hitem : g.Viable γ i dot)
    (hname : g.symbolAt i dot = some (.nonterminal name)) (hj : j ∈ g.ruleIndices name)
    (hreadable : g.Readable γ name symbol) (hindex : g.terminalIndex? symbol = some v) :
    FollowAt g s γ j v := by
  obtain ⟨_, p, hp, rfl⟩ := h.wellFormed.rules.mp hj
  obtain ⟨q, k, hpath, hk⟩ := exists_transition_of_viable h hs hitem hname
  have hread := (mem_read_iff h hs (getElem?_of_idxOf? hk) hpath).mpr ⟨symbol, hindex, hreadable⟩
  exact ⟨p, q, k, hp, hpath, hk, mem_closeSets_of_initial (bounded_includes h) hread⟩

/-- What follows a left side follows a nonterminal at the end of the right side, if only vanishing
symbols stand behind it. -/
theorem FollowAt.pass (h : g.Ready) (hs : Collected g s) (hfollow : FollowAt g s γ i v)
    (hfront : g.Viable γ i 0) (hitem : g.Viable (γ ++ g.seen i dot) i dot)
    (hname : g.symbolAt i dot = some (.nonterminal name)) (hj : j ∈ g.ruleIndices name)
    (hvanishes : g.Vanishes (g.rest i (dot + 1))) : FollowAt g s (γ ++ g.seen i dot) j v := by
  obtain ⟨_, p, hp, rfl⟩ := h.wellFormed.rules.mp hj
  obtain ⟨q, k, hpath, hk⟩ := exists_transition_of_viable h hs hitem hname
  obtain ⟨outer, q', k', houter, hγ, hk', hv⟩ := hfollow
  have hknows : ∀ s ∈ g.rest i (dot + 1), g.Knows s :=
    fun s hmem => knows_of_mem_rest h.wellFormed hmem
  refine ⟨p, q, k, hp, hpath, hk, ?_⟩
  refine mem_closeSets_of_edge (bounded_includes h)
    (edge_includes_iff.mpr ⟨_, getElem?_of_idxOf? hk', ?_⟩) hv
  refine mem_includedIn_iff.mpr ⟨i, outer, g.seen i dot, p.name, g.rest i (dot + 1), q,
    houter, (holds_iff_viable h hs hγ).mpr hfront, rfl, symbols_eq_of_symbolAt houter hname,
    ?_, ?_, hk⟩
  · exact (allAmong_nullable_iff h.wellFormed hknows).mpr (vanishing_iff.mpr hvanishes)
  · rw [States.path?_append, hγ] at hpath
    exact hpath

/-- What an item expects is in the follow set of the transition on its name from the state in which
its right side was begun. -/
theorem follow_complete (h : g.Ready) (hs : Collected g s) (hexpects : g.Expects γ i dot symbol)
    (hindex : g.terminalIndex? symbol = some v) :
    ∃ δ, γ = δ ++ g.seen i dot ∧ g.Viable δ i 0 ∧
      (i = 0 ∧ symbol = .endOfInput ∨ FollowAt g s δ i v) := by
  induction hexpects with
  | start => exact ⟨[], by rw [seen_zero]; rfl, .start, Or.inl ⟨rfl, rfl⟩⟩
  | read _ hsymbol ih =>
      obtain ⟨δ, rfl, hfront, hset⟩ := ih hindex
      exact ⟨δ, by rw [seen_succ hsymbol, List.append_assoc], hfront, hset⟩
  | @generate γ i dot j name t hitem hname hj hbegins =>
      exact ⟨γ, by rw [seen_zero, List.append_nil], .expand hitem hname hj,
        Or.inr (followAt_of_readable h hs hitem hname hj
          (Or.inl ⟨i, dot, hitem, hname, hbegins⟩) hindex)⟩
  | @pass γ i dot j name t hexpects hname hj hvanishes ih =>
      have hitem := hexpects.viable
      refine ⟨γ, by rw [seen_zero, List.append_nil], .expand hitem hname hj, Or.inr ?_⟩
      obtain ⟨δ, rfl, hfront, ⟨rfl, rfl⟩ | hfollow⟩ := ih hindex
      · -- the start symbol in state 0
        obtain ⟨rfl, start, hstart, hsame⟩ := h.wellFormed.symbolAt_zero hname
        cases hsame
        obtain rfl := hfront.nil_of_zero h.wellFormed
        exact followAt_of_readable h hs .start hname hj (Or.inr ⟨rfl, rfl, hstart⟩) hindex
      · exact hfollow.pass h hs hfront hitem hname hj hvanishes

/-! ## The lookahead sets -/

section Attach

variable {lookaheads : Lookaheads} {reductions : List (Nat × Nat)} {set : List Nat}
  {key : Nat × Nat} {entries : List (List (Nat × Nat) × List Nat)}

theorem mem_keys_attach :
    key ∈ (attach lookaheads reductions set).keys ↔ key ∈ lookaheads.keys ∨ key ∈ reductions := by
  induction reductions generalizing lookaheads with
  | nil => simp [attach]
  | cons first rest ih =>
      rw [show attach lookaheads (first :: rest) set =
        attach (lookaheads.update first [] (Ascending.union · set)) rest set from rfl, ih,
        Registry.mem_keys_update, List.mem_cons, or_assoc]

theorem mem_get?_attach : v ∈ ((attach lookaheads reductions set).get? key).getD [] ↔
    v ∈ (lookaheads.get? key).getD [] ∨ key ∈ reductions ∧ v ∈ set := by
  induction reductions generalizing lookaheads with
  | nil => simp [attach]
  | cons first rest ih =>
      rw [show attach lookaheads (first :: rest) set =
        attach (lookaheads.update first [] (Ascending.union · set)) rest set from rfl, ih]
      by_cases hkey : key = first
      · subst hkey
        rw [Registry.get?_update_self, Option.getD_some, Ascending.mem_union]
        simp only [List.mem_cons, true_or, true_and]
        tauto
      · rw [Registry.get?_update_of_ne hkey, List.mem_cons]
        simp [hkey]

/-- The reductions that have a lookahead set are those that some transition attaches one to. -/
theorem mem_keys_attachAll {lookback : List (List (Nat × Nat))} {follow : List (List Nat)} :
    key ∈ (attachAll lookback follow).keys ↔
      ∃ entry ∈ lookback.zip follow, key ∈ entry.1 := by
  have hfold : ∀ (entries : List (List (Nat × Nat) × List Nat)) (lookaheads : Lookaheads),
      key ∈ (entries.foldl (fun acc entry => attach acc entry.1 entry.2) lookaheads).keys ↔
        key ∈ lookaheads.keys ∨ ∃ entry ∈ entries, key ∈ entry.1 := by
    intro entries
    induction entries with
    | nil => simp
    | cons first rest ih =>
        intro lookaheads
        rw [List.foldl_cons, ih, mem_keys_attach, or_assoc]
        simp
  rw [attachAll, hfold]
  simp [Registry.keys]

/-- The lookahead set of a reduction has the follow sets of all transitions that attach to it. -/
theorem mem_get?_attachAll {lookback : List (List (Nat × Nat))} {follow : List (List Nat)} :
    v ∈ ((attachAll lookback follow).get? key).getD [] ↔
      ∃ entry ∈ lookback.zip follow, key ∈ entry.1 ∧ v ∈ entry.2 := by
  have hfold : ∀ (entries : List (List (Nat × Nat) × List Nat)) (lookaheads : Lookaheads),
      v ∈ ((entries.foldl (fun acc entry => attach acc entry.1 entry.2) lookaheads).get?
        key).getD [] ↔ v ∈ (lookaheads.get? key).getD [] ∨
          ∃ entry ∈ entries, key ∈ entry.1 ∧ v ∈ entry.2 := by
    intro entries
    induction entries with
    | nil => simp
    | cons first rest ih =>
        intro lookaheads
        rw [List.foldl_cons, ih, mem_get?_attach, or_assoc]
        simp
  rw [attachAll, hfold]
  simp [Registry.get?]

end Attach

theorem mem_zip_iff (h : g.Ready) {entry : List (Nat × Nat) × List Nat} :
    entry ∈ (Relations.of g s).lookback.zip (Relations.of g s).follow ↔
      ∃ (k : Nat) (t : Transition), (transitions g s)[k]? = some t ∧
        entry = (lookback g s (transitions g s) (nullable g) t,
          (Relations.of g s).follow[k]?.getD []) := by
  rw [List.mem_iff_getElem?]
  have hlookback : (Relations.of g s).lookback =
      (transitions g s).map (lookback g s (transitions g s) (nullable g)) := rfl
  refine exists_congr fun k => ?_
  rw [List.getElem?_zip_eq_some, hlookback, List.getElem?_map, Option.map_eq_some_iff]
  constructor
  · rintro ⟨⟨t, ht, hback⟩, hfollow⟩
    exact ⟨t, ht, by rw [hfollow, hback]; rfl⟩
  · rintro ⟨t, ht, rfl⟩
    refine ⟨⟨t, ht, rfl⟩, ?_⟩
    have hlt := (List.getElem?_eq_some_iff.mp ht).1
    rw [← length_follow h] at hlt
    rw [List.getElem?_eq_getElem hlt]
    rfl

/-- Only productions of the grammar have lookahead sets. -/
theorem exists_production?_of_mem_keys (h : g.Ready) (hkey : (r, i) ∈ (compute g s).keys) :
    ∃ p, g.production? i = some p := by
  rw [show compute g s = attachAll (Relations.of g s).lookback (Relations.of g s).follow from rfl,
    mem_keys_attachAll] at hkey
  obtain ⟨entry, hentry, hkey⟩ := hkey
  obtain ⟨k, t, _, rfl⟩ := (mem_zip_iff h).mp hentry
  obtain ⟨p, hp, _⟩ := (mem_lookback_iff h).mp hkey
  exact ⟨p, hp⟩

/-- A reduction has a lookahead set exactly when its item is complete in the state and it is not
that of production 0. -/
theorem mem_keys_compute_iff (h : g.Ready) (hs : Collected g s) (hp : g.production? i = some p) :
    (r, i) ∈ (compute g s).keys ↔ i ≠ 0 ∧ g.Holds (s.itemsOf r) i p.symbols.length := by
  rw [show compute g s = attachAll (Relations.of g s).lookback (Relations.of g s).follow from rfl,
    mem_keys_attachAll]
  constructor
  · rintro ⟨entry, hentry, hkey⟩
    obtain ⟨k, t, ht, rfl⟩ := (mem_zip_iff h).mp hentry
    obtain ⟨p', hp', hitem, hname, hpath⟩ := (mem_lookback_iff h).mp hkey
    cases hp.symm.trans hp'
    have hrule := mem_ruleIndices_of_name h (List.mem_of_getElem? ht) hp hname
    refine ⟨(h.wellFormed.rules.mp hrule).1, ?_⟩
    obtain ⟨γ, hγ⟩ := hs.exists_path? (Collected.lt_of_holds hitem)
    have hviable := (viable_of_holds h hs hγ hitem).along hp (Nat.le_refl p.symbols.length)
    refine (holds_iff_viable h hs ?_).mpr hviable
    rw [seen_length hp, States.path?_append, hγ]
    exact hpath
  · rintro ⟨hi, hitem⟩
    obtain ⟨γ, hγ⟩ := hs.exists_path? (Collected.lt_of_holds hitem)
    obtain ⟨δ, rfl, hfront⟩ := (viable_of_holds h hs hγ hitem).front
    -- the transition on the left side, from the state below the right side, looks back to it
    obtain ⟨j, d, name, hcaller, hname, hrule⟩ := hfront.caller hi
    obtain ⟨q, hq, hheld⟩ := hcaller.exists_path? h hs
    obtain ⟨_, p', hp', rfl⟩ := h.wellFormed.rules.mp hrule
    cases hp.symm.trans hp'
    obtain ⟨k, hk⟩ := exists_transition h ⟨j, d, hheld, hname⟩
    refine ⟨_, (mem_zip_iff h).mpr ⟨k, _, getElem?_of_idxOf? hk, rfl⟩, ?_⟩
    refine (mem_lookback_iff h).mpr ⟨p, hp, (holds_iff_viable h hs hq).mpr hfront, rfl, ?_⟩
    rw [seen_length hp, States.path?_append, hq] at hγ
    exact hγ

/-- The lookaheads of a reduction are the terminals that its complete item expects after a string
that leads to the state. -/
theorem mem_lookaheads_iff (h : g.Ready) (hs : Collected g s) (hp : g.production? i = some p)
    (hi : i ≠ 0) : v ∈ ((compute g s).get? (r, i)).getD [] ↔
      ∃ symbol γ, g.terminalIndex? symbol = some v ∧ s.path? 0 γ = some r ∧
        g.Expects γ i p.symbols.length symbol := by
  rw [show compute g s = attachAll (Relations.of g s).lookback (Relations.of g s).follow from rfl,
    mem_get?_attachAll]
  constructor
  · rintro ⟨entry, hentry, hkey, hv⟩
    obtain ⟨k, t, ht, rfl⟩ := (mem_zip_iff h).mp hentry
    obtain ⟨p', hp', _, hname, hpath⟩ := (mem_lookback_iff h).mp hkey
    cases hp.symm.trans hp'
    obtain ⟨γ, hγ, symbol, hindex, hbehind⟩ := follow_sound h hs ht hv
    have hrule := mem_ruleIndices_of_name h (List.mem_of_getElem? ht) hp hname
    have hexpects := (hbehind.expects hrule).along hp (Nat.le_refl p.symbols.length)
    rw [seen_length hp] at hexpects
    refine ⟨symbol, γ ++ p.symbols, hindex, ?_, hexpects⟩
    rw [States.path?_append, hγ]
    exact hpath
  · rintro ⟨symbol, γ, hindex, hγ, hexpects⟩
    obtain ⟨δ, rfl, hfront, ⟨hzero, _⟩ | ⟨p', q, k, hp', hq, hk, hv⟩⟩ :=
      follow_complete h hs hexpects hindex
    · exact absurd hzero hi
    · cases hp.symm.trans hp'
      refine ⟨_, (mem_zip_iff h).mpr ⟨k, _, getElem?_of_idxOf? hk, rfl⟩, ?_, hv⟩
      refine (mem_lookback_iff h).mpr ⟨p, hp, (holds_iff_viable h hs hq).mpr hfront, rfl, ?_⟩
      rw [seen_length hp, States.path?_append, hq] at hγ
      exact hγ

end ShiftReduce.Lookahead
