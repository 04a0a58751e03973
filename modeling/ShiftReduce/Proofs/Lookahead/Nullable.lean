import ShiftReduce.Lookahead
import ShiftReduce.Proofs.Grammar.FirstExact

/-!
# Vanishing nonterminals

The rounds over the productions end with the nonterminals that derive the empty string, and with no
others. Each round that changes anything finds a further nonterminal, so there are enough of them.
The FIRST sets, which are grown by rounds of their own, mark the same nonterminals. Read
`allAmong_nullable_iff` first.
-/

namespace ShiftReduce.Lookahead

open Grammar

variable {α : Type} {g : Grammar α} {names : List String} {name : String} {xs : List Symbol}
  {p : Production α} {i : Nat}

theorem allAmong_cons {s : Symbol} :
    allAmong names (s :: xs) = true ↔
      (∃ name ∈ names, s = .nonterminal name) ∧ allAmong names xs = true := by
  cases s <;> simp [allAmong]

/-! ## What a round finds -/

/-- Nonterminals that vanish, none of them twice. -/
def OnlyVanishing (g : Grammar α) (names : List String) : Prop :=
  names.Nodup ∧ ∀ name ∈ names, name ∈ g.nonterminals.keys ∧ g.Vanishing [.nonterminal name]

/-- A string of nonterminals that vanish does so. -/
theorem vanishing_of_allAmong (h : OnlyVanishing g names) (hall : allAmong names xs = true) :
    g.Vanishing xs := by
  induction xs with
  | nil => exact .nil
  | cons s rest ih =>
      obtain ⟨⟨name, hname, rfl⟩, hrest⟩ := allAmong_cons.mp hall
      exact vanishing_append.mpr ⟨(h.2 name hname).2, ih hrest⟩

/-- What one production makes of the names. -/
def growNullable (names : List String) (p : Production α) : List String :=
  if allAmong names p.symbols then Ordered.add names p.name else names

theorem fst_extendNullable (names : List String) (p : Production α) :
    (extendNullable names p).1 = growNullable names p := by
  unfold extendNullable growNullable Ordered.add
  split <;> split <;> simp_all

/-- A production adds a nonterminal only if that vanishes. -/
theorem OnlyVanishing.grow (hg : g.WellFormed) (h : OnlyVanishing g names)
    (hp : p ∈ g.productions.tail) : OnlyVanishing g (growNullable names p) := by
  obtain ⟨i, hi⟩ := mem_tail_iff.mp hp
  unfold growNullable
  split
  · rename_i hall
    refine ⟨Ordered.nodup_add h.1, fun name hname => ?_⟩
    rcases Ordered.mem_add.mp hname with hold | rfl
    · exact h.2 name hold
    · exact ⟨(hg.name hi).2, .cons hi (vanishing_of_allAmong h hall) .nil⟩
  · exact h

/-- A production says truly whether it made the list longer. -/
theorem tells_extendNullable (names : List String) (p : Production α) :
    Tells List.length names (extendNullable names p) := by
  unfold extendNullable
  split
  · exact Or.inl rfl
  · split
    · exact Or.inr ⟨rfl, by simp⟩
    · exact Or.inl rfl

/-- A production adds nothing or makes the list longer. -/
theorem grow_raises (names : List String) (p : Production α) :
    growNullable names p = names ∨ names.length < (growNullable names p).length := by
  rw [← fst_extendNullable]
  exact (tells_extendNullable names p).raises

theorem OnlyVanishing.length_le (h : OnlyVanishing g names) :
    names.length ≤ g.nonterminals.size := by
  have hsub : names ⊆ g.nonterminals.keys := fun name hname => (h.2 name hname).1
  have hle := (h.1.subperm hsub).length_le
  rwa [Registry.keys, List.length_map] at hle

/-- The names in which the rounds end. -/
def vanishingNames (g : Grammar α) : List String :=
  repeatRounds (nullableSweep g) (g.nonterminals.size + 1) []

theorem nullableRound_eq (g : Grammar α) (names : List String) :
    nullableRound g names = g.productions.tail.foldl growNullable names := by
  rw [nullableRound, nullableSweep, fst_sweep]
  simp only [fst_extendNullable]

theorem onlyVanishing_nil (g : Grammar α) : OnlyVanishing g [] :=
  ⟨List.nodup_nil, fun _ hname => absurd hname List.not_mem_nil⟩

theorem onlyVanishing_round (hg : g.WellFormed) (h : OnlyVanishing g names) :
    OnlyVanishing g (nullableRound g names) := by
  rw [nullableRound_eq]
  exact foldl_induction (P := OnlyVanishing g) (fun _ _ hp hx => hx.grow hg hp) h

/-- A round says truly whether it made the list longer. -/
theorem tells_nullableSweep (g : Grammar α) (names : List String) :
    Tells List.length names (nullableSweep g names) :=
  tells_sweep _ (P := fun _ => True) (fun _ _ _ _ => trivial)
    (fun names p _ _ => tells_extendNullable names p) trivial

/-- The rounds end as if the names were compared after each of them. -/
theorem vanishingNames_eq (g : Grammar α) :
    vanishingNames g = stabilize (nullableRound g) (g.nonterminals.size + 1) [] :=
  repeatRounds_eq_stabilize _ (P := fun _ => True) (fun _ _ => trivial)
    (fun names _ => tells_nullableSweep g names) _ trivial

theorem onlyVanishing_vanishingNames (hg : g.WellFormed) : OnlyVanishing g (vanishingNames g) := by
  rw [vanishingNames_eq]
  exact stabilize_induction (fun _ h => onlyVanishing_round hg h) _ (onlyVanishing_nil g)

/-- Another round would find nothing more. -/
theorem round_vanishingNames (hg : g.WellFormed) :
    nullableRound g (vanishingNames g) = vanishingNames g := by
  rw [vanishingNames_eq]
  exact stabilize_fixed List.length (P := OnlyVanishing g)
    (fun _ h => onlyVanishing_round hg h)
    (fun names _ hne => (tells_nullableSweep g names).raises.resolve_left hne)
    (fun _ h => h.length_le) _ (onlyVanishing_nil g)
    (Nat.lt_of_lt_of_le (Nat.lt_succ_self _) (Nat.le_add_left _ _))

theorem settles_vanishingNames (hg : g.WellFormed) :
    Settles (nullableRound g) [] (vanishingNames g) := by
  have hfixed := round_vanishingNames hg
  rw [vanishingNames_eq] at hfixed ⊢
  exact settles_stabilize hfixed

/-- A production whose symbols all vanish has its name among those found. -/
theorem mem_vanishingNames (hg : g.WellFormed) (hi : g.production? (i + 1) = some p)
    (hall : allAmong (vanishingNames g) p.symbols = true) : p.name ∈ vanishingNames g := by
  have hfixed := foldl_fixed (f := growNullable) List.length
    (fun _ _ hp hx => OnlyVanishing.grow hg hx hp) (fun names p _ _ => grow_raises names p)
    (onlyVanishing_vanishingNames hg)
    ((nullableRound_eq g _).symm.trans (round_vanishingNames hg)) p (mem_tail_iff.mpr ⟨i, hi⟩)
  rw [growNullable, if_pos hall] at hfixed
  rw [← hfixed]
  exact Ordered.mem_add.mpr (Or.inr rfl)

/-! ## The nonterminals that are found -/

/-- All that vanishes is found. -/
theorem allAmong_of_vanishing (hg : g.WellFormed) (h : g.Vanishing xs)
    (hknows : ∀ s ∈ xs, g.Knows s) : allAmong (vanishingNames g) xs = true := by
  induction h with
  | nil => rfl
  | @cons i p rest hp _ _ ihsymbols ihrest =>
      have hne := ne_zero_of_knows hg hp (hknows _ List.mem_cons_self)
      obtain ⟨k, rfl⟩ := Nat.exists_eq_succ_of_ne_zero hne
      refine allAmong_cons.mpr ⟨⟨p.name, ?_, rfl⟩, ?_⟩
      · exact mem_vanishingNames hg hp (ihsymbols fun s hs => hg.knows hp hs)
      · exact ihrest fun s hs => hknows s (List.mem_cons_of_mem _ hs)

theorem mem_nullable_iff (hg : g.WellFormed) :
    name ∈ nullable g ↔ name ∈ vanishingNames g := by
  rw [nullable, List.mem_filter]
  constructor
  · rintro ⟨_, hname⟩
    exact of_decide_eq_true hname
  · intro hname
    exact ⟨((onlyVanishing_vanishingNames hg).2 name hname).1, decide_eq_true hname⟩

/-- A string of symbols that the grammar knows consists of nullable nonterminals exactly when it
vanishes. -/
theorem allAmong_nullable_iff (hg : g.WellFormed) (hknows : ∀ s ∈ xs, g.Knows s) :
    allAmong (nullable g) xs = true ↔ g.Vanishing xs := by
  have hsame : allAmong (nullable g) xs = allAmong (vanishingNames g) xs := by
    rw [allAmong, allAmong]
    congr 1
    funext s
    cases s with
    | nonterminal name => exact decide_eq_decide.mpr (mem_nullable_iff hg)
    | token name => rfl
    | literal c => rfl
  rw [hsame]
  exact ⟨vanishing_of_allAmong (onlyVanishing_vanishingNames hg),
    fun h => allAmong_of_vanishing hg h hknows⟩

/-- A nonterminal that the grammar knows is nullable exactly when it vanishes. -/
theorem mem_nullable_iff_vanishing (hg : g.WellFormed) (hknows : g.Knows (.nonterminal name)) :
    name ∈ nullable g ↔ g.Vanishing [.nonterminal name] := by
  rw [← allAmong_nullable_iff hg (fun s hs => List.mem_singleton.mp hs ▸ hknows)]
  simp [allAmong]

/-! ## Agreement with FIRST -/

/-- What is nullable are the registered nonterminals that vanish. -/
theorem mem_nullable_iff_registered (h : g.Made) :
    name ∈ nullable g ↔ name ∈ g.nonterminals.keys ∧ g.Vanishing [.nonterminal name] := by
  constructor
  · intro hname
    have hkey := (List.mem_filter.mp hname).1
    have hknows : g.Knows (.nonterminal name) := ⟨h.isNonterminalName hkey, hkey⟩
    exact ⟨hkey, (mem_nullable_iff_vanishing h.wellFormed hknows).mp hname⟩
  · rintro ⟨hkey, hvanishing⟩
    have hknows : g.Knows (.nonterminal name) := ⟨h.isNonterminalName hkey, hkey⟩
    exact (mem_nullable_iff_vanishing h.wellFormed hknows).mpr hvanishing

/-- What has a FIRST set and is no terminal is a nonterminal of the grammar. -/
theorem mem_keys_of_get?_firstSets (hg : g.WellFormed) {f : FirstSet}
    (hf : g.firstSets.get? (.nonterminal name) = some f) : name ∈ g.nonterminals.keys := by
  have hkey := Registry.mem_keys_of_get? hf
  rw [(soundFirst_firstSets hg).keys] at hkey
  rcases List.mem_append.mp hkey with hterminal | hgrowing
  · cases hg.terminal hterminal
  · obtain ⟨_, hname, hsame⟩ := List.mem_map.mp hgrowing
    exact Symbol.nonterminal.inj hsame ▸ hname

/-- The nonterminals whose FIRST sets are marked are the registered ones that vanish. -/
theorem marked_iff_registered (h : g.Made) :
    (∃ f, g.firstSets.get? (.nonterminal name) = some f ∧ f.empty = true) ↔
      name ∈ g.nonterminals.keys ∧ g.Vanishing [.nonterminal name] := by
  have hg := h.wellFormed
  constructor
  · rintro ⟨f, hf, hempty⟩
    exact ⟨mem_keys_of_get?_firstSets hg hf, (soundFirst_firstSets hg).vanishing hf hempty⟩
  · rintro ⟨hkey, hvanishing⟩
    cases hvanishing with
    | cons hp hsymbols _ =>
        obtain ⟨f, hf, _, hempty⟩ := exists_get?_firstSets hg hp ⟨h.isNonterminalName hkey, hkey⟩
        exact ⟨f, hf, hempty (empty_ofSequence_of_vanishing hg hsymbols fun s hs =>
          hg.knows hp hs)⟩

/-- In every grammar that declarations can make and that has a production for each registered
nonterminal, the rounds come to an end, and what they find is listed once each: the registered
nonterminals that derive the empty string. The FIRST sets can be computed, and these are the
nonterminals whose sets are marked. -/
theorem nullable_exact (h : g.Made)
    (hdefined : ∀ name ∈ g.nonterminals.keys, ∃ i p, g.production? i = some p ∧ p.name = name) :
    (∃ names, Settles (nullableRound g) [] names ∧
        nullable g = g.nonterminals.keys.filter fun name => name ∈ names) ∧
      (nullable g).Nodup ∧
      (∀ name, name ∈ nullable g ↔
        name ∈ g.nonterminals.keys ∧ g.Vanishes [.nonterminal name]) ∧
      ∃ first, g.computeFirst.1 = .ok first ∧
        ∀ name, name ∈ nullable g ↔
          ∃ f, first.get? (.nonterminal name) = some f ∧ f.empty = true := by
  have hg := h.wellFormed
  refine ⟨⟨_, settles_vanishingNames hg, rfl⟩,
    hg.nodupNonterminals.filter _, fun name => ?_, g.firstSets, ?_, fun name => ?_⟩
  · rw [← vanishing_iff]
    exact mem_nullable_iff_registered h
  · cases hfind : g.undefined? with
    | none => rw [h.remembers.computeFirst_eq, hfind]
    | some name =>
        obtain ⟨hname, hnone⟩ := h.undefined_of_undefined? hfind
        obtain ⟨i, p, hp, hsame⟩ := hdefined name hname
        exact absurd hsame (hnone hp)
  · exact (mem_nullable_iff_registered h).trans (marked_iff_registered h).symm

/-- In nested parentheses the lists inside can vanish and a list cannot. -/
theorem nullable_exact_parentheses :
    (parentheses (none : Option Unit)).Made ∧
      (∀ name ∈ (parentheses (none : Option Unit)).nonterminals.keys,
        ∃ i p, (parentheses (none : Option Unit)).production? i = some p ∧ p.name = name) ∧
      (parentheses (none : Option Unit)).Vanishes [.nonterminal "items"] ∧
      ¬ (parentheses (none : Option Unit)).Vanishes [.nonterminal "list"] := by
  have hmade := made_parentheses (none : Option Unit)
  obtain ⟨_, _, hexact, _⟩ := nullable_exact hmade exists_production?_parentheses
  have hnullable : nullable (parentheses (none : Option Unit)) = ["items"] := by decide +kernel
  refine ⟨hmade, exists_production?_parentheses, ?_, fun hlist => ?_⟩
  · exact ((hexact "items").mp (hnullable ▸ List.mem_singleton_self _)).2
  · have hmem := (hexact "list").mpr ⟨keys_parentheses ▸ List.mem_cons_self, hlist⟩
    rw [hnullable] at hmem
    simp at hmem

end ShiftReduce.Lookahead
