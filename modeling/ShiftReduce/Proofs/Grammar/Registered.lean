import ShiftReduce.Proofs.Grammar.Made

/-!
# Registries that list what the productions hold

The registries of a grammar are kept by hand beside its productions: which rules were declared,
which productions a name has, and in which productions a symbol occurs. `Registered g` says that
they hold just what can be read off the productions. Read `Made.registered` first.
-/

namespace ShiftReduce.Grammar

variable {α : Type} {g other : Grammar α} {s t : Symbol} {name start : String}

/-- The right side of a production. An index without a production has an empty one. -/
def rightSide (g : Grammar α) (i : Nat) : List Symbol :=
  ((g.production? i).map Production.symbols).getD []

/-- The names and right sides of the productions other than production 0. -/
def ruleList (g : Grammar α) : List (String × List Symbol) :=
  g.productions.tail.map fun p => (p.name, p.symbols)

/-- The productions that the registry lists for a terminal. -/
def terminalUses (g : Grammar α) (s : Symbol) : List Nat :=
  (g.terminals.get? s).getD []

/-- The productions that the registry lists for a nonterminal. -/
def nonterminalUses (g : Grammar α) (name : String) : List Nat :=
  (g.nonterminals.get? name).getD []

/-- The list names each production as often as the symbol stands on its right side, and goes up. -/
structure ListsUses (g : Grammar α) (s : Symbol) (uses : List Nat) : Prop where
  ascending : uses.Pairwise (· ≤ ·)
  count : ∀ i, uses.count i = (g.rightSide i).count s

/-- What the registries of a grammar list is what its productions hold. -/
structure Registered (g : Grammar α) : Prop where
  declared : g.declared = g.ruleList
  distinct : g.ruleList.Nodup
  ascending : ∀ name, (g.ruleIndices name).Pairwise (· < ·)
  terminals : ∀ s, s.isTerminal = true → g.ListsUses s (g.terminalUses s)
  nonterminals : ∀ name, g.ListsUses (.nonterminal name) (g.nonterminalUses name)
  known : ∀ name, name ∈ g.nonterminals.keys →
    (∃ p ∈ g.productions.tail, p.name = name) ∨ ∃ i, Symbol.nonterminal name ∈ g.rightSide i

theorem rightSide_of_production? {i : Nat} {p : Production α} (h : g.production? i = some p) :
    g.rightSide i = p.symbols := by
  simp [rightSide, h]

/-- A right side that is not empty is that of a production. -/
theorem exists_production?_of_mem_rightSide {i : Nat} (h : s ∈ g.rightSide i) :
    ∃ p, g.production? i = some p ∧ s ∈ p.symbols := by
  cases hp : g.production? i with
  | none => simp [rightSide, hp] at h
  | some p => exact ⟨p, rfl, by rwa [rightSide_of_production? hp] at h⟩

/-- The names of the productions other than production 0. -/
theorem exists_mem_tail_iff : (∃ p ∈ g.productions.tail, p.name = name) ↔
    ∃ i p, g.production? (i + 1) = some p ∧ p.name = name := by
  constructor
  · rintro ⟨p, hp, hname⟩
    obtain ⟨i, hi⟩ := mem_tail_iff.mp hp
    exact ⟨i, p, hi, hname⟩
  · rintro ⟨i, p, hp, hname⟩
    exact ⟨p, mem_tail_iff.mpr ⟨i, hp⟩, hname⟩

/-- The names with rules are those of the productions other than production 0. -/
theorem WellFormed.mem_rules_iff (h : g.WellFormed) : name ∈ g.rules.keys ↔
    ∃ i p, g.production? (i + 1) = some p ∧ p.name = name := by
  constructor
  · intro hkey
    obtain ⟨i, hi⟩ := List.exists_mem_of_ne_nil _ (h.defined hkey)
    obtain ⟨hne, p, hp, hname⟩ := h.rules.mp hi
    obtain ⟨j, rfl⟩ := Nat.exists_eq_succ_of_ne_zero hne
    exact ⟨j, p, hp, hname⟩
  · rintro ⟨i, p, hp, hname⟩
    have hmem : i + 1 ∈ g.ruleIndices name := h.rules.mpr ⟨Nat.succ_ne_zero i, p, hp, hname⟩
    by_contra hkey
    rw [ruleIndices, Registry.get?_eq_none_iff.mpr hkey] at hmem
    exact List.not_mem_nil hmem

/-- A name with rules is a registered nonterminal. -/
theorem WellFormed.mem_nonterminals_of_mem_rules (h : g.WellFormed) (hname : name ∈ g.rules.keys) :
    name ∈ g.nonterminals.keys := by
  obtain ⟨i, p, hp, rfl⟩ := h.mem_rules_iff.mp hname
  exact (h.name hp).2

/-- In a list of uses a production stands just when it uses the symbol. -/
theorem ListsUses.mem_iff {uses : List Nat} (h : g.ListsUses s uses) {i : Nat} :
    i ∈ uses ↔ s ∈ g.rightSide i := by
  rw [← List.count_pos_iff, h.count, List.count_pos_iff]

/-! ## A grammar of tokens -/

/-- Registering tokens lists no production for any of them. -/
theorem registerTokens_uses {tokens : List String} {registry result : Registry Symbol (List Nat)}
    (h : registerTokens registry tokens = .ok result)
    (hnone : ∀ entry ∈ registry.entries, entry.2 = []) :
    ∀ entry ∈ result.entries, entry.2 = [] := by
  induction tokens generalizing registry with
  | nil =>
      cases h
      exact hnone
  | cons name rest ih =>
      simp only [registerTokens] at h
      split at h
      · cases h
      · refine ih h ?_
        unfold Registry.register
        split
        · exact hnone
        · simpa [or_imp, forall_and] using hnone

/-- The registries of a grammar without productions list nothing. -/
theorem registered_ofTokens {tokens : List String} (h : ofTokens tokens = .ok g) :
    g.Registered := by
  unfold ofTokens at h
  split at h
  · cases h
  · rename_i terminals hterminals
    cases h
    have huses : ∀ s, (terminals.get? s).getD [] = [] := by
      intro s
      cases hs : terminals.get? s with
      | none => rfl
      | some uses =>
          exact registerTokens_uses hterminals (by simp) _ (Registry.mem_entries_of_get? hs)
    have hempty : ∀ i, rightSide
        ({ productions := [{ index := 0, name := augmentedStart, symbols := [] }], terminals } :
          Grammar α) i = [] := by
      intro i
      cases i <;> simp [rightSide, production?]
    refine
      { declared := rfl
        distinct := List.nodup_nil
        ascending := fun name => List.Pairwise.nil
        terminals := fun s _ => ?_
        nonterminals := fun name => ⟨List.Pairwise.nil, fun i => by rw [hempty]; rfl⟩
        known := fun name hname => by simp [Registry.keys] at hname }
    rw [terminalUses, huses s]
    exact ⟨List.Pairwise.nil, fun i => by rw [hempty]; rfl⟩

/-! ## What the registries are read by -/

/-- What the registries list depends on the names and right sides of the productions only. -/
theorem Registered.congr (h : g.Registered)
    (hproductions : (other.productions.map fun p => (p.name, p.symbols)) =
      g.productions.map fun p => (p.name, p.symbols))
    (hdeclared : other.declared = g.declared) (hrules : other.rules = g.rules)
    (hterminals : other.terminals = g.terminals)
    (hnonterminals : other.nonterminals = g.nonterminals) : other.Registered := by
  have hlist : other.ruleList = g.ruleList := by
    simp only [ruleList, List.map_tail, hproductions]
  have hside : other.rightSide = g.rightSide := by
    funext i
    have hi := congrArg (fun rules => (rules[i]?.map Prod.snd).getD []) hproductions
    simpa [rightSide, production?, Function.comp_def] using hi
  have hname : ∀ name, (∃ p ∈ g.productions.tail, p.name = name) →
      ∃ p ∈ other.productions.tail, p.name = name := by
    intro name hp
    obtain ⟨p, hp, hname⟩ := hp
    have hrule : (p.name, p.symbols) ∈ other.ruleList := hlist ▸ List.mem_map.mpr ⟨p, hp, rfl⟩
    obtain ⟨q, hq, hsame⟩ := List.mem_map.mp hrule
    exact ⟨q, hq, (congrArg Prod.fst hsame).trans hname⟩
  refine
    { declared := by rw [hdeclared, hlist, h.declared]
      distinct := hlist ▸ h.distinct
      ascending := fun name => by rw [ruleIndices, hrules]; exact h.ascending name
      terminals := fun s hs => ?_
      nonterminals := fun name => ?_
      known := fun name hkey => ?_ }
  · obtain ⟨hascending, hcount⟩ := h.terminals s hs
    rw [terminalUses, hterminals]
    exact ⟨hascending, fun i => by rw [hside]; exact hcount i⟩
  · obtain ⟨hascending, hcount⟩ := h.nonterminals name
    rw [nonterminalUses, hnonterminals]
    exact ⟨hascending, fun i => by rw [hside]; exact hcount i⟩
  · rw [hnonterminals] at hkey
    rw [hside]
    exact (h.known name hkey).imp_left (hname name)

/-- Building the items keeps the names and right sides of the productions. -/
theorem Registered.buildItems (h : g.Registered) : g.buildItems.Registered :=
  h.congr (map_buildItems (fun _ _ => rfl) g) rfl rfl rfl rfl

/-! ## Adding a production -/

/-- Noting the symbols of a right side lists the production once for each time a terminal occurs. -/
theorem terminalUses_noteOccurrences (index : Nat) (symbols : List Symbol) (g : Grammar α)
    (hs : s.isTerminal = true) : (symbols.foldl (noteOccurrence index) g).terminalUses s =
      g.terminalUses s ++ List.replicate (symbols.count s) index := by
  induction symbols generalizing g with
  | nil => simp
  | cons t rest ih =>
      have hstep : (noteOccurrence index g t).terminalUses s =
          if t = s then g.terminalUses s ++ [index] else g.terminalUses s := by
        by_cases hts : t = s
        · subst hts
          cases t with
          | nonterminal name => cases hs
          | token name => simp [noteOccurrence, terminalUses, Registry.get?_update_self]
          | literal c => simp [noteOccurrence, terminalUses, Registry.get?_update_self]
        · have hst : s ≠ t := Ne.symm hts
          cases t <;> simp [noteOccurrence, terminalUses, Registry.get?_update_of_ne, hts, hst]
      rw [List.foldl_cons, ih, hstep, List.count_cons]
      by_cases hts : t = s
      · simp [hts, List.replicate_succ]
      · simp [hts]

/-- Noting the symbols of a right side lists the production once for each time a nonterminal
occurs. -/
theorem nonterminalUses_noteOccurrences (index : Nat) (symbols : List Symbol) (g : Grammar α)
    (name : String) : (symbols.foldl (noteOccurrence index) g).nonterminalUses name =
      g.nonterminalUses name ++ List.replicate (symbols.count (.nonterminal name)) index := by
  induction symbols generalizing g with
  | nil => simp
  | cons t rest ih =>
      have hstep : (noteOccurrence index g t).nonterminalUses name =
          if t = .nonterminal name then g.nonterminalUses name ++ [index]
          else g.nonterminalUses name := by
        cases t with
        | nonterminal n =>
            by_cases hn : n = name
            · simp [noteOccurrence, nonterminalUses, hn, Registry.get?_update_self]
            · have hne : name ≠ n := Ne.symm hn
              simp [noteOccurrence, nonterminalUses, hn, Registry.get?_update_of_ne hne]
        | token n => simp [noteOccurrence, nonterminalUses]
        | literal c => simp [noteOccurrence, nonterminalUses]
      rw [List.foldl_cons, ih, hstep, List.count_cons]
      by_cases ht : t = .nonterminal name
      · simp [ht, List.replicate_succ]
      · simp [ht]

section Append

variable (g) (p : Production α)

theorem terminalUses_append (hs : s.isTerminal = true) : (g.append p).terminalUses s =
    g.terminalUses s ++ List.replicate (p.symbols.count s) p.index :=
  terminalUses_noteOccurrences p.index p.symbols _ hs

theorem nonterminalUses_append (name : String) : (g.append p).nonterminalUses name =
    g.nonterminalUses name ++ List.replicate (p.symbols.count (.nonterminal name)) p.index := by
  have hregister : ({ g with nonterminals := g.nonterminals.register p.name [] } :
      Grammar α).nonterminalUses name = g.nonterminalUses name := by
    show ((g.nonterminals.register p.name []).get? name).getD [] =
      (g.nonterminals.get? name).getD []
    by_cases hname : name = p.name
    · rw [hname, Registry.get?_register_self]
      rfl
    · rw [Registry.get?_register_of_ne hname]
  have hnoted := nonterminalUses_noteOccurrences p.index p.symbols
    { g with nonterminals := g.nonterminals.register p.name [] } name
  rw [hregister] at hnoted
  exact hnoted

/-- The right sides after one more production was appended. -/
theorem rightSide_append (i : Nat) :
    (g.append p).rightSide i = if i = g.productions.length then p.symbols else g.rightSide i := by
  by_cases hi : i = g.productions.length
  · rw [if_pos hi]
    exact rightSide_of_production? (production?_append.mpr (Or.inr ⟨hi, rfl⟩))
  · have hsame : (g.append p).production? i = g.production? i := by
      ext q
      rw [production?_append]
      exact or_iff_left fun hlast => hi hlast.1
    rw [if_neg hi, rightSide, hsame, rightSide]

end Append

/-- Past the last production there is no right side. -/
theorem rightSide_length (g : Grammar α) : g.rightSide g.productions.length = [] := by
  simp [rightSide, production?]

/-- A list of uses is one of the longer grammar once the new production is listed behind. -/
theorem ListsUses.append {uses : List Nat} (h : g.ListsUses s uses) {p : Production α}
    (hindex : p.index = g.productions.length) :
    (g.append p).ListsUses s (uses ++ List.replicate (p.symbols.count s) p.index) where
  ascending := by
    -- a use in the list is one of an old production, which comes before the new one
    have hold : ∀ i ∈ uses, i < g.productions.length := by
      intro i hi
      obtain ⟨q, hq, _⟩ := exists_production?_of_mem_rightSide (h.mem_iff.mp hi)
      exact (List.getElem?_eq_some_iff.mp hq).1
    refine List.pairwise_append.mpr ⟨h.ascending, List.pairwise_replicate.mpr (by simp), ?_⟩
    intro i hi j hj
    have hlt := hold i hi
    obtain rfl := List.eq_of_mem_replicate hj
    omega
  count := by
    intro i
    rw [rightSide_append, List.count_append, h.count, List.count_replicate, hindex]
    by_cases hi : i = g.productions.length
    · subst hi
      simp [rightSide_length]
    · have hne : g.productions.length ≠ i := Ne.symm hi
      simp [hi, hne]

/-- Appending a new rule keeps the registries. -/
theorem Registered.append {p : Production α} (h : g.Registered) (hwell : g.WellFormed)
    (hindex : p.index = g.productions.length) (hnew : (p.name, p.symbols) ∉ g.declared) :
    (g.append p).Registered := by
  have htail : (g.append p).productions.tail = g.productions.tail ++ [p] := by
    rw [append_productions, List.tail_append_of_ne_nil]
    exact List.ne_nil_of_length_pos (Nat.pos_of_ne_zero hwell.length_ne_zero)
  have hlist : (g.append p).ruleList = g.ruleList ++ [(p.name, p.symbols)] := by
    rw [ruleList, htail, List.map_append]
    rfl
  have hplace : g.productions.length ≠ 0 := hwell.length_ne_zero
  refine
    { declared := by rw [append_declared, hlist, h.declared]
      distinct := ?_
      ascending := fun name => ?_
      terminals := fun s hs => ?_
      nonterminals := fun name => ?_
      known := fun name hname => ?_ }
  · rw [hlist, ← List.concat_eq_append]
    exact List.Nodup.concat (h.declared ▸ hnew) h.distinct
  · rw [ruleIndices_append]
    by_cases hname : name = p.name
    · rw [if_pos hname]
      refine List.pairwise_append.mpr ⟨h.ascending name, List.pairwise_singleton _ _, ?_⟩
      intro i hi j hj
      obtain ⟨_, q, hq, _⟩ := hwell.rules.mp hi
      have hlt : i < g.productions.length := (List.getElem?_eq_some_iff.mp hq).1
      rw [List.mem_singleton] at hj
      omega
    · rw [if_neg hname]
      exact h.ascending name
  · rw [terminalUses_append g p hs]
    exact (h.terminals s hs).append hindex
  · rw [nonterminalUses_append]
    exact (h.nonterminals name).append hindex
  · rw [htail]
    obtain (hold | hleft) | hright := (mem_append_nonterminals g p).mp hname
    · obtain ⟨q, hq, hqname⟩ | ⟨i, hi⟩ := h.known name hold
      · exact Or.inl ⟨q, List.mem_append_left _ hq, hqname⟩
      · obtain ⟨q, hq, _⟩ := exists_production?_of_mem_rightSide hi
        have hlt : i < g.productions.length := (List.getElem?_eq_some_iff.mp hq).1
        refine Or.inr ⟨i, ?_⟩
        rwa [rightSide_append, if_neg (Nat.ne_of_lt hlt)]
    · exact Or.inl ⟨p, List.mem_append_right _ (List.mem_singleton_self p), hleft.symm⟩
    · refine Or.inr ⟨g.productions.length, ?_⟩
      rwa [rightSide_append, if_pos rfl]

/-- Adding a production, refused or not, keeps the registries. -/
theorem Registered.addProduction (h : g.Registered) (hwell : g.WellFormed) (name : String)
    (symbols : List Symbol) (tag : Option Symbol) (action : Option α) :
    (g.addProduction name symbols tag action).2.Registered := by
  unfold Grammar.addProduction
  split
  · exact h
  · split
    · exact h
    · have htagged : (g.noteTag tag).Registered ∧ (g.noteTag tag).WellFormed := by
        cases tag with
        | none => exact ⟨h, hwell⟩
        | some tag => exact ⟨h.congr rfl rfl rfl rfl rfl, hwell.of_same rfl rfl rfl rfl id rfl⟩
      dsimp only
      split
      · exact htagged.1
      · rename_i hnew
        refine htagged.1.append htagged.2 rfl ?_
        cases tag <;> exact hnew

/-! ## Choosing the start symbol -/

/-- Production 0 stands in the list of a nonterminal just when that is the start symbol. -/
theorem WellFormed.mem_rightSide_zero (h : g.WellFormed) :
    Symbol.nonterminal name ∈ g.rightSide 0 ↔ g.start = some name := by
  obtain ⟨zero, hzero, _, _, hsymbols⟩ := h.zero
  rw [rightSide_of_production? hzero, hsymbols]
  cases g.start <;> simp [eq_comm]

/-- Withdrawing the reference to the previous start symbol strikes production 0 from all lists. -/
theorem Registered.releaseStart (h : g.Registered) (hwell : g.WellFormed) (name : String) :
    (g.releaseStart.get? name).getD [] = (g.nonterminalUses name).filter (· != 0) := by
  have hother : g.start ≠ some name → (g.nonterminalUses name).filter (· != 0) =
      g.nonterminalUses name := by
    intro hstart
    refine List.filter_eq_self.mpr fun i hi => ?_
    have hne : i ≠ 0 := by
      intro hzero
      subst hzero
      exact hstart (hwell.mem_rightSide_zero.mp ((h.nonterminals name).mem_iff.mp hi))
    simpa using hne
  unfold Grammar.releaseStart
  split
  · rename_i hnone
    rw [hother (by simp [hnone])]
    rfl
  · rename_i old hold
    rw [Registry.get?_modify]
    by_cases hname : name = old
    · rw [if_pos hname, nonterminalUses]
      cases g.nonterminals.get? name <;> rfl
    · have hne : g.start ≠ some name := by
        rw [hold]
        exact fun hsame => hname (Option.some.inj hsame).symm
      rw [if_neg hname, hother hne]
      rfl

/-- The lists of the nonterminals after a start symbol was chosen. -/
theorem Registered.nonterminalUses_restart (h : g.Registered) (hwell : g.WellFormed)
    (start name : String) : (g.restart start).nonterminalUses name =
      if name = start then 0 :: (g.nonterminalUses name).filter (· != 0)
      else (g.nonterminalUses name).filter (· != 0) := by
  show ((g.releaseStart.update start [] (0 :: ·)).get? name).getD [] = _
  by_cases hname : name = start
  · rw [hname, Registry.get?_update_self, h.releaseStart hwell, if_pos rfl]
    rfl
  · rw [Registry.get?_update_of_ne hname, h.releaseStart hwell, if_neg hname]

/-- Choosing a start symbol changes the right side of production 0 only. -/
theorem rightSide_restart (start : String) (i : Nat) :
    (g.restart start).rightSide i = if i = 0 then [.nonterminal start] else g.rightSide i := by
  cases i with
  | zero => rfl
  | succ i => rw [rightSide, production?_restart_succ, if_neg (Nat.succ_ne_zero i), rightSide]

/-- Production 0 has no terminal before and none after. -/
theorem Registered.terminals_restart (h : g.Registered) (hwell : g.WellFormed) (start : String)
    (hs : s.isTerminal = true) : (g.restart start).ListsUses s (g.terminalUses s) := by
  obtain ⟨hascending, hcount⟩ := h.terminals s hs
  refine ⟨hascending, fun i => ?_⟩
  rw [rightSide_restart, hcount]
  by_cases hi : i = 0
  · subst hi
    obtain ⟨zero, hzero, _, _, hsymbols⟩ := hwell.zero
    have hold : s ∉ g.rightSide 0 := by
      rw [rightSide_of_production? hzero, hsymbols]
      intro hmem
      obtain ⟨old, _, hsame⟩ := List.mem_map.mp hmem
      subst hsame
      cases hs
    have hnew : s ∉ [Symbol.nonterminal start] := by
      intro hmem
      rw [List.mem_singleton.mp hmem] at hs
      cases hs
    rw [if_pos rfl, List.count_eq_zero.mpr hold, List.count_eq_zero.mpr hnew]
  · rw [if_neg hi]

/-- The lists of the nonterminals name production 0 for the new start symbol only. -/
theorem Registered.nonterminals_restart (h : g.Registered) (hwell : g.WellFormed)
    (start name : String) : (g.restart start).ListsUses (.nonterminal name)
      ((g.restart start).nonterminalUses name) := by
  obtain ⟨hascending, hcount⟩ := h.nonterminals name
  have hstruck : ((g.nonterminalUses name).filter (· != 0)).Pairwise (· ≤ ·) :=
    hascending.sublist List.filter_sublist
  rw [h.nonterminalUses_restart hwell]
  constructor
  · split
    · exact List.pairwise_cons.mpr ⟨fun i _ => Nat.zero_le i, hstruck⟩
    · exact hstruck
  · intro i
    rw [rightSide_restart]
    by_cases hi : i = 0
    · subst hi
      have hnone : ((g.nonterminalUses name).filter (· != 0)).count 0 = 0 :=
        List.count_eq_zero.mpr fun hmem => by simp at hmem
      by_cases hname : name = start
      · subst hname
        simp [hnone]
      · have hne : start ≠ name := Ne.symm hname
        simp [hname, hne, hnone]
    · have hkept : ((g.nonterminalUses name).filter (· != 0)).count i =
          (g.rightSide i).count (.nonterminal name) := by
        rw [List.count_filter (by simpa using hi), hcount]
      have hne : 0 ≠ i := Ne.symm hi
      rw [if_neg hi]
      split
      · rw [List.count_cons_of_ne hne, hkept]
      · exact hkept

/-- Choosing a start symbol keeps the registries. -/
theorem Registered.restart (h : g.Registered) (hwell : g.WellFormed) (start : String) :
    (g.restart start).Registered where
  declared := h.declared
  distinct := h.distinct
  ascending := h.ascending
  terminals _ hs := h.terminals_restart hwell start hs
  nonterminals := h.nonterminals_restart hwell start
  known := by
    intro name hname
    obtain hold | hsame := mem_restart_nonterminals.mp hname
    · obtain hleft | ⟨i, hi⟩ := h.known name hold
      · exact Or.inl hleft
      · cases i with
        | succ i =>
            refine Or.inr ⟨i + 1, ?_⟩
            rwa [rightSide_restart, if_neg (Nat.succ_ne_zero i)]
        | zero =>
            -- the previous start symbol is a left side
            have hrule := hwell.start (hwell.mem_rightSide_zero.mp hi)
            have hleft : ∃ p ∈ g.productions.tail, p.name = name :=
              exists_mem_tail_iff.mpr (hwell.mem_rules_iff.mp hrule)
            exact Or.inl hleft
    · exact Or.inr ⟨0, by simp [rightSide_restart, hsame]⟩

/-! ## Every grammar that can be made -/

/-- The registries of every grammar that declarations can make hold what its productions hold. -/
theorem Made.registered (h : g.Made) : g.Registered := by
  induction h with
  | ofTokens h => exact registered_ofTokens h
  | @setPrecedence g s assoc level _ ih =>
      obtain ⟨_, hsame⟩ := setPrecedence_grammar g s assoc level
      rw [hsame]
      exact ih.congr rfl rfl rfl rfl rfl
  | addProduction name symbols tag action hmade ih =>
      exact ih.addProduction hmade.wellFormed name symbols tag action
  | @setStart g name hmade ih =>
      obtain hsame | ⟨start, _, hsame⟩ := setStart_grammar g name
      · rw [hsame]
        exact ih
      · rw [hsame]
        exact ih.restart hmade.wellFormed start
  | buildItems _ ih => exact ih.buildItems
  | @computeFirst g _ ih =>
      obtain ⟨_, hsame⟩ := computeFirst_grammar g
      rw [hsame]
      exact ih.congr rfl rfl rfl rfl rfl
  | @computeFollow g start _ ih =>
      obtain ⟨_, _, _, hsame⟩ := computeFollow_grammar g start
      rw [hsame]
      exact ih.congr rfl rfl rfl rfl rfl

end ShiftReduce.Grammar
