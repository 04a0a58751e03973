import ShiftReduce.Grammar.First
import ShiftReduce.Proofs.Grammar.Derivation
import ShiftReduce.Proofs.Grammar.Made
import ShiftReduce.Proofs.Rounds

/-!
# FIRST sets are complete and hold nothing wrong

The rounds keep `SoundFirst`: what a FIRST set holds, the symbol begins with. Every change makes
some set of a nonterminal heavier, and the weights are bounded, so the rounds end where a further
one changes nothing; there the sets hold all that symbols begin with. Read `mem_ofSequence_iff`
first.
-/

namespace ShiftReduce

/-- What a FIRST set holds, counted. -/
def FirstSet.weight (f : FirstSet) : Nat :=
  f.terminals.length + if f.empty then 1 else 0

/-- The union of two FIRST sets. -/
def FirstSet.union (a b : FirstSet) : FirstSet :=
  ⟨Ordered.union a.terminals b.terminals, a.empty || b.empty⟩

theorem FirstSet.fst_extend (f more : FirstSet) : (f.extend more).1 = f.union more := by
  obtain ⟨terminals, empty⟩ := f
  obtain ⟨others, vanishes⟩ := more
  rw [union, ← Ordered.fst_extend]
  cases empty <;> cases vanishes <;> rfl

/-- Adding a FIRST set says truly whether it made the set heavier. -/
theorem FirstSet.tells_extend (f more : FirstSet) : Tells weight f (f.extend more) := by
  obtain ⟨terminals, empty⟩ := f
  obtain ⟨others, vanishes⟩ := more
  have htells := Ordered.tells_extend terminals others
  unfold extend
  generalize Ordered.extend terminals others = answer at htells ⊢
  obtain ⟨all, changed⟩ := answer
  rcases htells with hsame | ⟨rfl, hlt⟩
  · cases hsame
    cases empty <;> cases vanishes <;> simp [Tells, weight]
  · replace hlt : terminals.length < all.length := hlt
    cases empty <;> cases vanishes <;> simp [Tells, weight] <;> omega

namespace Grammar

variable {α : Type} {g : Grammar α} {first : Registry Symbol FirstSet} {s t : Symbol}
  {f : FirstSet} {xs symbols : List Symbol} {name : String}

/-- A right side of a name is one of a production of that name. -/
theorem exists_of_mem_rightSides (h : g.WellFormed) (hmem : symbols ∈ g.rightSides name) :
    ∃ i p, g.production? i = some p ∧ p.name = name ∧ p.symbols = symbols := by
  obtain ⟨i, hi, hsymbols⟩ := List.mem_filterMap.mp hmem
  obtain ⟨_, p, hp, hname⟩ := h.rules.mp hi
  rw [hp] at hsymbols
  exact ⟨i, p, hp, hname, Option.some.inj hsymbols⟩

/-- A production other than production 0 gives a right side of its name. -/
theorem mem_rightSides {i : Nat} {p : Production α} (h : g.WellFormed)
    (hp : g.production? i = some p) (hi : i ≠ 0) : p.symbols ∈ g.rightSides p.name := by
  refine List.mem_filterMap.mpr ⟨i, h.rules.mpr ⟨hi, p, hp, rfl⟩, ?_⟩
  rw [hp]
  rfl

/-- The symbols of the nonterminals, whose FIRST sets grow. -/
def growing (g : Grammar α) : List Symbol :=
  g.nonterminals.keys.map Symbol.nonterminal

/-- No symbol is listed twice. -/
theorem nodup_symbols (h : g.WellFormed) : (g.terminals.keys ++ g.growing).Nodup := by
  refine List.nodup_append.mpr ⟨h.nodupTerminals, ?_, ?_⟩
  · exact h.nodupNonterminals.map fun a b hsame => Symbol.nonterminal.inj hsame
  · rintro t ht s hs rfl
    obtain ⟨name, _, rfl⟩ := List.mem_map.mp hs
    cases h.terminal ht

/-- FIRST sets of the symbols of a grammar that hold nothing wrong. Those of the terminals hold just
the terminal. -/
structure SoundFirst (g : Grammar α) (first : Registry Symbol FirstSet) : Prop where
  keys : first.keys = g.terminals.keys ++ g.growing
  terminal : ∀ {t : Symbol}, t ∈ g.terminals.keys → first.get? t = some (FirstSet.single t)
  nodup : ∀ {s : Symbol} {f : FirstSet}, first.get? s = some f → f.terminals.Nodup
  starting : ∀ {s t : Symbol} {f : FirstSet}, first.get? s = some f → t ∈ f.terminals →
    g.Starting [s] t
  vanishing : ∀ {s : Symbol} {f : FirstSet}, first.get? s = some f → f.empty = true →
    g.Vanishing [s]

/-! ## Sequences -/

/-- FIRST of a sequence holds nothing wrong if the sets of its symbols do not. -/
theorem SoundFirst.ofSequence (h : g.SoundFirst first) (xs : List Symbol) :
    (∀ t ∈ (FirstSet.ofSequence first xs).terminals, g.Starting xs t) ∧
      ((FirstSet.ofSequence first xs).empty = true → g.Vanishing xs) := by
  induction xs with
  | nil => exact ⟨fun t ht => absurd ht List.not_mem_nil, fun _ => .nil⟩
  | cons s rest ih =>
      have hsplit : ∀ t, g.Starting ([s] ++ rest) t ↔
          g.Starting [s] t ∨ g.Vanishing [s] ∧ g.Starting rest t := fun t => starting_append
      have hvanish : g.Vanishing ([s] ++ rest) ↔ g.Vanishing [s] ∧ g.Vanishing rest :=
        vanishing_append
      rw [FirstSet.ofSequence]
      -- the first symbol has a set or not, and its set lets what comes behind it in or not
      split
      · rename_i f hf
        split
        · rename_i hempty
          refine ⟨fun t ht => (hsplit t).mpr ?_, fun hrest => hvanish.mpr ?_⟩
          · rcases Ordered.mem_union.mp ht with hfirst | hrest
            · exact Or.inl (h.starting hf hfirst)
            · exact Or.inr ⟨h.vanishing hf hempty, ih.1 t hrest⟩
          · exact ⟨h.vanishing hf hempty, ih.2 hrest⟩
        · exact ⟨fun t ht => (hsplit t).mpr (Or.inl (h.starting hf ht)), fun hno => by cases hno⟩
      · split
        · rename_i hterminal
          refine ⟨fun t ht => ?_, fun hno => by cases hno⟩
          rw [List.mem_singleton.mp ht]
          exact .terminal hterminal
        · exact ⟨fun t ht => absurd ht List.not_mem_nil, fun hno => by cases hno⟩

/-- What a string begins with is a terminal of the grammar if its own terminals are. -/
theorem Starting.mem_keys (h : g.WellFormed) (hstarting : g.Starting xs t)
    (hterminals : ∀ s ∈ xs, s.isTerminal = true → s ∈ g.terminals.keys) :
    t ∈ g.terminals.keys := by
  induction hstarting with
  | terminal ht => exact hterminals _ List.mem_cons_self ht
  | inside hp _ ih => exact ih fun s hs hterminal => (h.knows hp hs).mem_keys hterminal
  | past _ _ ih => exact ih fun s hs => hterminals s (List.mem_cons_of_mem _ hs)

/-! ## Rounds -/

/-- What one right side makes of the FIRST set of a nonterminal. -/
def growFirst (name : String) (first : Registry Symbol FirstSet) (symbols : List Symbol) :
    Registry Symbol FirstSet :=
  first.modify (.nonterminal name) (·.union (FirstSet.ofSequence first symbols))

theorem fst_extendFirst : (extendFirst name first symbols).1 = growFirst name first symbols := by
  simp only [extendFirst, Registry.alter, FirstSet.fst_extend, growFirst]

theorem SoundFirst.nodup_keys (hg : g.WellFormed) (h : g.SoundFirst first) :
    first.keys.Nodup := by
  rw [h.keys]
  exact nodup_symbols hg

/-- Every nonterminal has a FIRST set. -/
theorem SoundFirst.exists_get? (h : g.SoundFirst first) (hname : name ∈ g.nonterminals.keys) :
    ∃ f, first.get? (.nonterminal name) = some f := by
  refine Registry.exists_get?_of_mem_keys ?_
  rw [h.keys]
  exact List.mem_append_right _ (List.mem_map_of_mem hname)

theorem get?_growFirst :
    (growFirst name first symbols).get? s =
      if s = .nonterminal name then
        (first.get? s).map (·.union (FirstSet.ofSequence first symbols))
      else first.get? s :=
  Registry.get?_modify

/-- A right side adds nothing wrong to the FIRST set of its name. -/
theorem SoundFirst.grow (hg : g.WellFormed) (h : g.SoundFirst first)
    (hmem : symbols ∈ g.rightSides name) : g.SoundFirst (growFirst name first symbols) := by
  obtain ⟨i, p, hp, rfl, rfl⟩ := exists_of_mem_rightSides hg hmem
  obtain ⟨hstarting, hvanishing⟩ := h.ofSequence p.symbols
  -- The set of the name is a union, and the other sets stay.
  have hcases : ∀ {s f}, (growFirst p.name first p.symbols).get? s = some f →
      first.get? s = some f ∨ s = .nonterminal p.name ∧ ∃ old, first.get? s = some old ∧
        f = old.union (FirstSet.ofSequence first p.symbols) := by
    intro s f hf
    rw [get?_growFirst] at hf
    split at hf
    · rename_i hs
      obtain ⟨old, hold, rfl⟩ := Option.map_eq_some_iff.mp hf
      exact Or.inr ⟨hs, old, hold, rfl⟩
    · exact Or.inl hf
  refine ⟨?_, ?_, ?_, ?_, ?_⟩
  · rw [growFirst, Registry.keys_modify, h.keys]
  · intro t ht
    rw [get?_growFirst, if_neg, h.terminal ht]
    rintro rfl
    cases hg.terminal ht
  · intro s f hf
    rcases hcases hf with hold | ⟨_, old, hold, rfl⟩
    · exact h.nodup hold
    · exact Ordered.nodup_union (h.nodup hold)
  · intro s t f hf ht
    rcases hcases hf with hold | ⟨rfl, old, hold, rfl⟩
    · exact h.starting hold ht
    · rcases Ordered.mem_union.mp ht with ht | ht
      · exact h.starting hold ht
      · exact .inside hp (hstarting t ht)
  · intro s f hf hempty
    rcases hcases hf with hold | ⟨rfl, old, hold, rfl⟩
    · exact h.vanishing hold hempty
    · rcases (Bool.or_eq_true _ _).mp hempty with hempty | hempty
      · exact h.vanishing hold hempty
      · exact .cons hp (hvanishing hempty) .nil

/-- A right side says truly whether it made the sets heavier. -/
theorem SoundFirst.tells_extendFirst (hg : g.WellFormed) (h : g.SoundFirst first)
    (hname : name ∈ g.nonterminals.keys) (symbols : List Symbol) :
    Tells (Registry.total FirstSet.weight g.growing) first (extendFirst name first symbols) := by
  obtain ⟨f, hf⟩ := h.exists_get? hname
  exact Registry.tells_alter (h.nodup_keys hg) (List.mem_map_of_mem hname) hf
    (f.tells_extend (FirstSet.ofSequence first symbols))

/-- A right side changes nothing or makes the sets heavier. -/
theorem SoundFirst.grow_raises (hg : g.WellFormed) (h : g.SoundFirst first)
    (hname : name ∈ g.nonterminals.keys) (symbols : List Symbol) :
    growFirst name first symbols = first ∨
      Registry.total FirstSet.weight g.growing first <
        Registry.total FirstSet.weight g.growing (growFirst name first symbols) := by
  rw [← fst_extendFirst]
  exact (h.tells_extendFirst hg hname symbols).raises

/-- No FIRST set of a nonterminal is heavier than all terminals. -/
theorem SoundFirst.total_le (hg : g.WellFormed) (h : g.SoundFirst first) :
    Registry.total FirstSet.weight g.growing first ≤
      g.nonterminals.size * (g.terminals.size + 1) := by
  have hle : ∀ key ∈ g.growing, ∀ f, first.get? key = some f →
      f.weight ≤ g.terminals.size + 1 := by
    intro key hkey f hf
    obtain ⟨name, _, rfl⟩ := List.mem_map.mp hkey
    have hsub : f.terminals ⊆ g.terminals.keys := by
      intro t ht
      refine (h.starting hf ht).mem_keys hg fun s hs hterminal => ?_
      rw [List.mem_singleton.mp hs] at hterminal
      cases hterminal
    have hlength := ((h.nodup hf).subperm hsub).length_le
    rw [Registry.keys, List.length_map] at hlength
    have hbit : (if f.empty then 1 else 0) ≤ 1 := by split <;> omega
    show f.terminals.length + _ ≤ g.terminals.entries.length + 1
    omega
  have htotal := Registry.total_le hle
  rwa [growing, List.length_map, Registry.keys, List.length_map] at htotal

theorem soundFirst_seed (hg : g.WellFormed) : g.SoundFirst g.firstSeed := by
  have hkeys : g.firstSeed.keys = g.terminals.keys ++ g.growing := by
    simp only [firstSeed, Registry.keys, growing, List.map_append, List.map_map]
    rfl
  have hnodup : g.firstSeed.keys.Nodup := by
    rw [hkeys]
    exact nodup_symbols hg
  have hcases : ∀ {s f}, g.firstSeed.get? s = some f →
      s ∈ g.terminals.keys ∧ f = FirstSet.single s ∨ f = ⟨[], false⟩ := by
    intro s f hf
    rcases List.mem_append.mp (Registry.mem_entries_of_get? hf) with hmem | hmem
    · obtain ⟨t, ht, hsame⟩ := List.mem_map.mp hmem
      cases hsame
      exact Or.inl ⟨ht, rfl⟩
    · obtain ⟨name, _, hsame⟩ := List.mem_map.mp hmem
      cases hsame
      exact Or.inr rfl
  refine ⟨hkeys, ?_, ?_, ?_, ?_⟩
  · intro t ht
    refine Registry.get?_of_mem_entries hnodup (List.mem_append_left _ ?_)
    exact List.mem_map.mpr ⟨t, ht, rfl⟩
  · intro s f hf
    rcases hcases hf with ⟨_, rfl⟩ | rfl
    · exact List.nodup_singleton s
    · exact List.nodup_nil
  · intro s t f hf ht
    rcases hcases hf with ⟨hs, rfl⟩ | rfl
    · rw [List.mem_singleton.mp ht]
      exact .terminal (hg.terminal hs)
    · exact absurd ht List.not_mem_nil
  · intro s f hf hempty
    rcases hcases hf with ⟨_, rfl⟩ | rfl <;> cases hempty

/-- The FIRST sets in which the rounds end. -/
def firstSets (g : Grammar α) : Registry Symbol FirstSet :=
  repeatRounds g.firstSweep g.firstFuel g.firstSeed

/-- What a round makes of the right sides of one name. -/
theorem fst_sweep_extendFirst (g : Grammar α) (name : String) (first : Registry Symbol FirstSet) :
    (sweep (extendFirst name) first (g.rightSides name)).1 =
      (g.rightSides name).foldl (growFirst name) first := by
  rw [fst_sweep]
  simp only [fst_extendFirst]

theorem firstRound_eq (g : Grammar α) (first : Registry Symbol FirstSet) :
    g.firstRound first = g.nonterminals.keys.foldl
      (fun first name => (g.rightSides name).foldl (growFirst name) first) first := by
  rw [firstRound, firstSweep, fst_sweep]
  simp only [fst_sweep_extendFirst]

/-- Passing over the right sides of a name keeps the sets sound and raises them or not. -/
theorem SoundFirst.growAll (hg : g.WellFormed) (h : g.SoundFirst first)
    (hname : name ∈ g.nonterminals.keys) :
    g.SoundFirst ((g.rightSides name).foldl (growFirst name) first) ∧
      ((g.rightSides name).foldl (growFirst name) first = first ∨
        Registry.total FirstSet.weight g.growing first <
          Registry.total FirstSet.weight g.growing
            ((g.rightSides name).foldl (growFirst name) first)) :=
  ⟨foldl_induction (fun _ _ hmem hx => SoundFirst.grow hg hx hmem) h,
    foldl_raises _ (fun _ _ hmem hx => SoundFirst.grow hg hx hmem)
      (fun _ symbols _ hx => SoundFirst.grow_raises hg hx hname symbols) h⟩

theorem soundFirst_firstRound (hg : g.WellFormed) (h : g.SoundFirst first) :
    g.SoundFirst (g.firstRound first) := by
  rw [firstRound_eq]
  exact foldl_induction (P := g.SoundFirst) (fun _ _ hname hx => (hx.growAll hg hname).1) h

/-- A round says truly whether it made the sets heavier. -/
theorem SoundFirst.tells_firstSweep (hg : g.WellFormed) (h : g.SoundFirst first) :
    Tells (Registry.total FirstSet.weight g.growing) first (g.firstSweep first) := by
  refine tells_sweep _ (P := g.SoundFirst) (fun x name hname hx => ?_)
    (fun x name hname hx => ?_) h
  · rw [fst_sweep_extendFirst]
    exact (hx.growAll hg hname).1
  · refine tells_sweep _ (P := g.SoundFirst) (fun y symbols hmem hy => ?_)
      (fun y symbols _ hy => hy.tells_extendFirst hg hname symbols) hx
    rw [fst_extendFirst]
    exact hy.grow hg hmem

/-- The rounds end as if the sets were compared after each of them. -/
theorem firstSets_eq (hg : g.WellFormed) :
    g.firstSets = stabilize g.firstRound g.firstFuel g.firstSeed :=
  repeatRounds_eq_stabilize _ (fun _ h => soundFirst_firstRound hg h)
    (fun _ h => SoundFirst.tells_firstSweep hg h) _ (soundFirst_seed hg)

theorem soundFirst_firstSets (hg : g.WellFormed) : g.SoundFirst g.firstSets := by
  rw [firstSets_eq hg]
  exact stabilize_induction (fun _ h => soundFirst_firstRound hg h) _ (soundFirst_seed hg)

/-- Another round would add nothing. -/
theorem firstRound_firstSets (hg : g.WellFormed) : g.firstRound g.firstSets = g.firstSets := by
  rw [firstSets_eq hg]
  refine stabilize_fixed (Registry.total FirstSet.weight g.growing) (P := g.SoundFirst)
    (fun _ h => soundFirst_firstRound hg h) ?_ (fun _ h => h.total_le hg) _ (soundFirst_seed hg) ?_
  · exact fun first h hne => (h.tells_firstSweep hg).raises.resolve_left hne
  · rw [firstFuel]
    omega

theorem settles_firstSets (hg : g.WellFormed) :
    Settles g.firstRound g.firstSeed g.firstSets := by
  have hfixed := firstRound_firstSets hg
  rw [firstSets_eq hg] at hfixed ⊢
  exact settles_stabilize hfixed

/-- No right side adds anything to the FIRST sets. -/
theorem growFirst_firstSets (hg : g.WellFormed) (hname : name ∈ g.nonterminals.keys)
    (hmem : symbols ∈ g.rightSides name) : growFirst name g.firstSets symbols = g.firstSets := by
  have hnames := foldl_fixed (Registry.total FirstSet.weight g.growing)
    (fun _ _ hname hx => (SoundFirst.growAll hg hx hname).1)
    (fun _ _ hname hx => (SoundFirst.growAll hg hx hname).2) (soundFirst_firstSets hg)
    ((firstRound_eq g _).symm.trans (firstRound_firstSets hg)) name hname
  exact foldl_fixed (Registry.total FirstSet.weight g.growing)
    (fun _ _ hmem hx => SoundFirst.grow hg hx hmem)
    (fun _ symbols _ hx => SoundFirst.grow_raises hg hx hname symbols) (soundFirst_firstSets hg)
    hnames symbols hmem

/-! ## What the sets hold -/

/-- The FIRST set of a name holds that of each of its right sides. -/
theorem exists_get?_firstSets (hg : g.WellFormed) {i : Nat} {p : Production α}
    (hp : g.production? i = some p) (hknows : g.Knows (.nonterminal p.name)) :
    ∃ f, g.firstSets.get? (.nonterminal p.name) = some f ∧
      (FirstSet.ofSequence g.firstSets p.symbols).terminals ⊆ f.terminals ∧
      ((FirstSet.ofSequence g.firstSets p.symbols).empty = true → f.empty = true) := by
  obtain ⟨f, hf⟩ := (soundFirst_firstSets hg).exists_get? hknows.2
  have hfixed := congrArg (·.get? (.nonterminal p.name))
    (growFirst_firstSets hg hknows.2 (mem_rightSides hg hp (ne_zero_of_knows hg hp hknows)))
  simp only [get?_growFirst, if_true, hf, Option.map_some, Option.some.injEq] at hfixed
  refine ⟨f, hf, fun t ht => ?_, fun hempty => ?_⟩
  · rw [← hfixed]
    exact Ordered.mem_union.mpr (Or.inr ht)
  · rw [← hfixed]
    exact (Bool.or_eq_true _ _).mpr (Or.inr hempty)

/-- A string that vanishes is marked as one. -/
theorem empty_ofSequence_of_vanishing (hg : g.WellFormed) (h : g.Vanishing xs)
    (hknows : ∀ s ∈ xs, g.Knows s) : (FirstSet.ofSequence g.firstSets xs).empty = true := by
  induction h with
  | nil => rfl
  | cons hp _ _ ihsymbols ihrest =>
      obtain ⟨f, hf, _, hempty⟩ := exists_get?_firstSets hg hp (hknows _ List.mem_cons_self)
      rw [FirstSet.ofSequence, hf]
      simp only [hempty (ihsymbols fun s hs => hg.knows hp hs), if_true]
      exact ihrest fun s hs => hknows s (List.mem_cons_of_mem _ hs)

/-- What a string begins with is in its FIRST set. -/
theorem mem_ofSequence_of_starting (hg : g.WellFormed) (h : g.Starting xs t)
    (hknows : ∀ s ∈ xs, g.Knows s) : t ∈ (FirstSet.ofSequence g.firstSets xs).terminals := by
  induction h with
  | @terminal t rest ht =>
      have hmem := (hknows t List.mem_cons_self).mem_keys ht
      rw [FirstSet.ofSequence, (soundFirst_firstSets hg).terminal hmem]
      exact List.mem_singleton_self t
  | inside hp _ ih =>
      obtain ⟨f, hf, hsub, _⟩ := exists_get?_firstSets hg hp (hknows _ List.mem_cons_self)
      have ht := hsub (ih fun s hs => hg.knows hp hs)
      rw [FirstSet.ofSequence, hf]
      dsimp only
      split
      · exact Ordered.mem_union.mpr (Or.inl ht)
      · exact ht
  | @past s rest t hs _ ih =>
      have hrest := ih fun s hs => hknows s (List.mem_cons_of_mem _ hs)
      -- FIRST of the first symbol alone is marked, so the union with the rest is taken
      have hempty := empty_ofSequence_of_vanishing hg hs fun s' hs' => by
        rw [List.mem_singleton.mp hs']
        exact hknows s List.mem_cons_self
      rw [FirstSet.ofSequence] at hempty ⊢
      split at hempty
      · dsimp only
        split at hempty
        · rename_i hvanishes
          rw [if_pos hvanishes]
          exact Ordered.mem_union.mpr (Or.inr hrest)
        · cases hempty
      · split at hempty <;> cases hempty

/-- FIRST of a string of known symbols holds exactly the terminals the string begins with. -/
theorem mem_ofSequence_iff (hg : g.WellFormed) (hknows : ∀ s ∈ xs, g.Knows s) :
    t ∈ (FirstSet.ofSequence g.firstSets xs).terminals ↔ g.BeginsWith xs t := by
  rw [← starting_iff]
  exact ⟨((soundFirst_firstSets hg).ofSequence xs).1 t,
    fun h => mem_ofSequence_of_starting hg h hknows⟩

/-- FIRST of a string of known symbols is marked exactly when the string vanishes. -/
theorem empty_ofSequence_iff (hg : g.WellFormed) (hknows : ∀ s ∈ xs, g.Knows s) :
    (FirstSet.ofSequence g.firstSets xs).empty = true ↔ g.Vanishes xs := by
  rw [← vanishing_iff]
  exact ⟨((soundFirst_firstSets hg).ofSequence xs).2,
    fun h => empty_ofSequence_of_vanishing hg h hknows⟩

end Grammar

end ShiftReduce
