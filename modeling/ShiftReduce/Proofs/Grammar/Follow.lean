import ShiftReduce.Grammar.Follow
import ShiftReduce.Proofs.Grammar.First

/-!
# FOLLOW sets are closed

The rounds end where no right side adds anything to a FOLLOW set. So what the rest of a right side
begins with follows the nonterminal before it, and so does what follows the left side if the rest
can vanish; the end of input follows the start symbol. Read `mem_followSets_of_beginsWith` and
`mem_followSets_of_vanishes` first.
-/

namespace ShiftReduce.Grammar

variable {α : Type} {g : Grammar α} {follow : Registry String (List Symbol)} {s t : Symbol}
  {set xs symbols begin rest : List Symbol} {name start b : String}

/-- FOLLOW sets of known terminals, with the end of input after the start symbol. -/
structure Following (g : Grammar α) (start : String) (follow : Registry String (List Symbol)) :
    Prop where
  keys : follow.keys = (g.followSeed start).keys
  nodup : ∀ {name : String} {set : List Symbol}, follow.get? name = some set → set.Nodup
  terminals : ∀ {name : String} {set : List Symbol}, follow.get? name = some set →
    set ⊆ g.terminals.keys
  endOfInput : .endOfInput ∈ (follow.get? start).getD []

/-- What can come after a nonterminal before the rest of a right side. -/
def afterwards (g : Grammar α) (name : String) (follow : Registry String (List Symbol))
    (rest : List Symbol) : List Symbol :=
  if (FirstSet.ofSequence g.firstSets rest).empty then
    Ordered.union (FirstSet.ofSequence g.firstSets rest).terminals ((follow.get? name).getD [])
  else (FirstSet.ofSequence g.firstSets rest).terminals

/-- Adds to a nonterminal what can come after it before the rest of a right side. -/
def growOne (g : Grammar α) (name : String) (follow : Registry String (List Symbol)) (b : String)
    (rest : List Symbol) : Registry String (List Symbol) :=
  follow.update b [] (Ordered.union · (g.afterwards name follow rest))

/-- What one right side makes of the FOLLOW sets. -/
def growFollow (first : Registry Symbol FirstSet) (name : String)
    (follow : Registry String (List Symbol)) (symbols : List Symbol) :
    Registry String (List Symbol) :=
  (extendFollow first name follow symbols).1

/-- Adds to a nonterminal what can come after it, and says whether that was new. -/
def extendOne (g : Grammar α) (name : String) (follow : Registry String (List Symbol))
    (b : String) (rest : List Symbol) : Registry String (List Symbol) × Bool :=
  (follow.register b []).alter b (Ordered.extend · (g.afterwards name follow rest))

theorem fst_extendOne : (g.extendOne name follow b rest).1 = g.growOne name follow b rest := by
  simp only [extendOne, Registry.alter, Ordered.fst_extend, growOne, Registry.update]

theorem extendFollow_nonterminal : extendFollow g.firstSets name follow (.nonterminal b :: rest) =
    let (more, changed) := g.extendOne name follow b rest
    let (most, later) := extendFollow g.firstSets name more rest
    (most, changed || later) := rfl

theorem growFollow_nonterminal : growFollow g.firstSets name follow (.nonterminal b :: rest) =
    growFollow g.firstSets name (g.growOne name follow b rest) rest := by
  rw [← fst_extendOne]
  rfl

theorem growFollow_terminal (hs : s.isTerminal = true) :
    growFollow g.firstSets name follow (s :: rest) = growFollow g.firstSets name follow rest := by
  cases s with
  | nonterminal name => cases hs
  | token name => rfl
  | literal c => rfl

/-! ## Rounds -/

/-- The names with FOLLOW sets are the nonterminals and the start symbol. -/
theorem mem_keys_followSeed :
    name ∈ (g.followSeed start).keys ↔ name ∈ g.nonterminals.keys ∨ name = start := by
  rw [followSeed, Registry.mem_keys_update]
  simp [Registry.keys]

theorem nodup_keys_followSeed (hg : g.WellFormed) : (g.followSeed start).keys.Nodup := by
  refine Registry.nodup_keys_update ?_
  have hkeys : (Registry.mk (g.nonterminals.keys.map fun n => (n, ([] : List Symbol)))).keys =
      g.nonterminals.keys := by
    simp [Registry.keys]
  rw [hkeys]
  exact hg.nodupNonterminals

theorem length_keys_followSeed : (g.followSeed start).keys.length ≤ g.nonterminals.size + 1 := by
  rw [followSeed, Registry.update, Registry.keys_modify, Registry.keys_register]
  split <;> simp [Registry.keys, Registry.size]

theorem Following.exists_get? (h : g.Following start follow) (hname : name ∈ g.nonterminals.keys) :
    ∃ set, follow.get? name = some set := by
  refine Registry.exists_get?_of_mem_keys ?_
  rw [h.keys]
  exact mem_keys_followSeed.mpr (Or.inl hname)

/-- What is added to a FOLLOW set are known terminals. -/
theorem Following.afterwards_subset (hg : g.WellFormed) (h : g.Following start follow)
    (hknows : ∀ s ∈ rest, g.Knows s) : g.afterwards name follow rest ⊆ g.terminals.keys := by
  have hfirst : (FirstSet.ofSequence g.firstSets rest).terminals ⊆ g.terminals.keys := by
    intro t ht
    exact (((soundFirst_firstSets hg).ofSequence rest).1 t ht).mem_keys hg
      fun s hs hterminal => (hknows s hs).mem_keys hterminal
  intro t ht
  unfold afterwards at ht
  split at ht
  · rcases Ordered.mem_union.mp ht with ht | ht
    · exact hfirst ht
    · cases hset : follow.get? name with
      | none =>
          rw [hset] at ht
          cases ht
      | some set =>
          rw [hset] at ht
          exact h.terminals hset ht
  · exact hfirst ht

/-- The number of terminals in the FOLLOW sets of all names. -/
def followTotal (g : Grammar α) (start : String) (follow : Registry String (List Symbol)) : Nat :=
  Registry.total List.length (g.followSeed start).keys follow

/-- FOLLOW sets that are in order, and the same as before or larger. -/
structure Enlarges (g : Grammar α) (start : String) (follow more : Registry String (List Symbol)) :
    Prop where
  following : g.Following start more
  larger : more = follow ∨ g.followTotal start follow < g.followTotal start more

theorem Enlarges.trans {more most : Registry String (List Symbol)}
    (h : g.Enlarges start follow more) (hmore : g.Enlarges start more most) :
    g.Enlarges start follow most := by
  refine ⟨hmore.following, ?_⟩
  rcases h.larger with hsame | hlt
  · have hlarger := hmore.larger
    rwa [hsame] at hlarger
  · rcases hmore.larger with hsame | hlt'
    · exact Or.inr (by rwa [hsame])
    · exact Or.inr (Nat.lt_trans hlt hlt')

/-- Sets that are enlarged to themselves again were not enlarged. -/
theorem Enlarges.antisymm {more : Registry String (List Symbol)}
    (h : g.Enlarges start follow more) (hmore : g.Enlarges start more follow) : more = follow := by
  rcases h.larger with hsame | hlt
  · exact hsame
  · rcases hmore.larger with hsame | hlt'
    · exact hsame.symm
    · omega

theorem growOne_eq_modify (h : g.Following start follow) (hb : b ∈ g.nonterminals.keys) :
    g.growOne name follow b rest =
      follow.modify b (Ordered.union · (g.afterwards name follow rest)) := by
  have hkey : b ∈ follow.keys := by
    rw [h.keys]
    exact mem_keys_followSeed.mpr (Or.inl hb)
  rw [growOne, Registry.update, Registry.register_eq_self hkey]

/-- What is added to one nonterminal keeps the FOLLOW sets in order. -/
theorem Following.growOne (hg : g.WellFormed) (h : g.Following start follow) (name : String)
    (hb : b ∈ g.nonterminals.keys) (hknows : ∀ s ∈ rest, g.Knows s) :
    g.Following start (g.growOne name follow b rest) := by
  obtain ⟨set, hset⟩ := h.exists_get? hb
  -- the set of the nonterminal is a union, and the other sets stay
  have hcases : ∀ {name' set'}, (g.growOne name follow b rest).get? name' = some set' →
      follow.get? name' = some set' ∨ name' = b ∧
        set' = Ordered.union set (g.afterwards name follow rest) := by
    intro name' set' hset'
    rw [growOne_eq_modify h hb, Registry.get?_modify] at hset'
    split at hset'
    · rename_i hsame
      rw [hsame, hset] at hset'
      exact Or.inr ⟨hsame, (Option.some.inj hset').symm⟩
    · exact Or.inl hset'
  refine ⟨?_, ?_, ?_, ?_⟩
  · rw [growOne_eq_modify h hb, Registry.keys_modify, h.keys]
  · intro name' set' hset'
    rcases hcases hset' with hold | ⟨_, rfl⟩
    · exact h.nodup hold
    · exact Ordered.nodup_union (h.nodup hset)
  · intro name' set' hset' t ht
    rcases hcases hset' with hold | ⟨_, rfl⟩
    · exact h.terminals hold ht
    · rcases Ordered.mem_union.mp ht with ht | ht
      · exact h.terminals hset ht
      · exact h.afterwards_subset hg hknows ht
  · have hend := h.endOfInput
    rw [growOne_eq_modify h hb, Registry.get?_modify]
    split
    · rename_i hsame
      rw [hsame, hset] at hend ⊢
      exact Ordered.mem_union.mpr (Or.inl hend)
    · exact hend

/-- What is added to one nonterminal is said truly to be new or not. -/
theorem Following.tells_extendOne (hg : g.WellFormed) (h : g.Following start follow)
    (name : String) (hb : b ∈ g.nonterminals.keys) (rest : List Symbol) :
    Tells (g.followTotal start) follow (g.extendOne name follow b rest) := by
  obtain ⟨set, hset⟩ := h.exists_get? hb
  have hkey : b ∈ (g.followSeed start).keys := mem_keys_followSeed.mpr (Or.inl hb)
  rw [extendOne, Registry.register_eq_self (h.keys ▸ hkey)]
  exact Registry.tells_alter (h.keys ▸ nodup_keys_followSeed hg) hkey hset
    (Ordered.tells_extend set _)

/-- What is added to one nonterminal enlarges its set or was there before. -/
theorem Following.enlarges_growOne (hg : g.WellFormed) (h : g.Following start follow)
    (name : String) (hb : b ∈ g.nonterminals.keys) (hknows : ∀ s ∈ rest, g.Knows s) :
    g.Enlarges start follow (g.growOne name follow b rest) := by
  refine ⟨h.growOne hg name hb hknows, ?_⟩
  rw [← fst_extendOne]
  exact (h.tells_extendOne hg name hb rest).raises

/-- A right side says truly whether it enlarged the FOLLOW sets. -/
theorem Following.tells_extendFollow (hg : g.WellFormed) (h : g.Following start follow)
    (name : String) (hknows : ∀ s ∈ symbols, g.Knows s) :
    Tells (g.followTotal start) follow (extendFollow g.firstSets name follow symbols) := by
  induction symbols generalizing follow with
  | nil => exact Or.inl rfl
  | cons s rest ih =>
      obtain ⟨hs, hrest⟩ := List.forall_mem_cons.mp hknows
      cases s with
      | token _ => exact ih h hrest
      | literal _ => exact ih h hrest
      | nonterminal b =>
          rw [extendFollow_nonterminal]
          have hone := h.growOne hg name hs.2 hrest
          rw [← fst_extendOne] at hone
          exact (h.tells_extendOne hg name hs.2 rest).trans (ih hone hrest)

/-- A right side enlarges the FOLLOW sets of its nonterminals. -/
theorem Following.enlarges_grow (hg : g.WellFormed) (h : g.Following start follow) (name : String)
    (hknows : ∀ s ∈ symbols, g.Knows s) :
    g.Enlarges start follow (growFollow g.firstSets name follow symbols) := by
  induction symbols generalizing follow with
  | nil => exact ⟨h, Or.inl rfl⟩
  | cons s rest ih =>
      obtain ⟨hs, hrest⟩ := List.forall_mem_cons.mp hknows
      cases s with
      | token name =>
          rw [growFollow_terminal rfl]
          exact ih h hrest
      | literal c =>
          rw [growFollow_terminal rfl]
          exact ih h hrest
      | nonterminal b =>
          rw [growFollow_nonterminal]
          have hone := h.enlarges_growOne hg name hs.2 hrest
          exact hone.trans (ih hone.following hrest)

/-- A right side that adds nothing adds nothing to its first symbol, and nothing behind it. -/
theorem Following.grow_cons_fixed (hg : g.WellFormed) (h : g.Following start follow)
    (hknows : ∀ s ∈ symbols, g.Knows s)
    (hfixed : growFollow g.firstSets name follow (s :: symbols) = follow) (hs : g.Knows s) :
    growFollow g.firstSets name follow symbols = follow ∧
      ∀ b, s = .nonterminal b → g.growOne name follow b symbols = follow := by
  cases s with
  | token _ =>
      rw [growFollow_terminal rfl] at hfixed
      exact ⟨hfixed, fun b hb => nomatch hb⟩
  | literal _ =>
      rw [growFollow_terminal rfl] at hfixed
      exact ⟨hfixed, fun b hb => nomatch hb⟩
  | nonterminal b =>
      rw [growFollow_nonterminal] at hfixed
      have hone := h.enlarges_growOne hg name hs.2 hknows
      have hback := hone.following.enlarges_grow hg name hknows
      rw [hfixed] at hback
      -- nothing that is added is ever lost, so nothing was added
      have hsame := hone.antisymm hback
      rw [hsame] at hfixed
      refine ⟨hfixed, fun b' hb' => ?_⟩
      rw [← Symbol.nonterminal.inj hb']
      exact hsame

/-- A right side that adds nothing adds nothing to any nonterminal in it. -/
theorem Following.grow_fixed (hg : g.WellFormed) (h : g.Following start follow)
    (hknows : ∀ s ∈ symbols, g.Knows s)
    (hfixed : growFollow g.firstSets name follow symbols = follow)
    (hsplit : symbols = begin ++ .nonterminal b :: rest) :
    g.growOne name follow b rest = follow := by
  induction symbols generalizing begin with
  | nil => simp at hsplit
  | cons s tail ih =>
      obtain ⟨hs, htail⟩ := List.forall_mem_cons.mp hknows
      obtain ⟨hbehind, hfirst⟩ := h.grow_cons_fixed hg htail hfixed hs
      cases begin with
      | nil =>
          cases hsplit
          exact hfirst b rfl
      | cons s' begin =>
          cases hsplit
          exact ih htail hbehind rfl

/-- The FOLLOW sets in which the rounds for a start symbol end. -/
def followSets (g : Grammar α) (start : String) : Registry String (List Symbol) :=
  repeatRounds g.followSweep g.followFuel (g.followSeed start)

theorem followRound_eq (g : Grammar α) (follow : Registry String (List Symbol)) :
    g.followRound follow = g.productions.tail.foldl
      (fun follow p => growFollow g.first p.name follow p.symbols) follow := by
  rw [followRound, followSweep, fst_sweep]
  rfl

/-- Before the rounds every nonterminal has the empty set. -/
theorem eq_nil_of_get?_blank
    (hset : (Registry.mk (g.nonterminals.keys.map fun n => (n, ([] : List Symbol)))).get? name =
      some set) : set = [] := by
  obtain ⟨n, _, hsame⟩ := List.mem_map.mp (Registry.mem_entries_of_get? hset)
  cases hsame
  rfl

/-- Before the rounds the end of input alone follows the start symbol. -/
theorem get?_followSeed_start : (g.followSeed start).get? start = some [.endOfInput] := by
  rw [followSeed, Registry.get?_update_self]
  cases hget : (Registry.mk (g.nonterminals.keys.map fun n => (n, ([] : List Symbol)))).get?
      start with
  | none => rfl
  | some set =>
      rw [eq_nil_of_get?_blank hget]
      rfl

theorem get?_followSeed (hset : (g.followSeed start).get? name = some set) :
    set = [.endOfInput] ∨ set = [] := by
  by_cases hname : name = start
  · rw [hname, get?_followSeed_start] at hset
    exact Or.inl (Option.some.inj hset).symm
  · rw [followSeed, Registry.get?_update_of_ne hname] at hset
    exact Or.inr (eq_nil_of_get?_blank hset)

theorem following_seed (hg : g.WellFormed) : g.Following start (g.followSeed start) := by
  refine ⟨rfl, ?_, ?_, ?_⟩
  · intro name set hset
    rcases get?_followSeed hset with rfl | rfl
    · exact List.nodup_singleton _
    · exact List.nodup_nil
  · intro name set hset
    rcases get?_followSeed hset with rfl | rfl
    · exact List.cons_subset.mpr ⟨hg.endOfInput, List.nil_subset _⟩
    · exact List.nil_subset _
  · rw [get?_followSeed_start]
    exact List.mem_singleton_self _

section Rounds

variable (hg : g.WellFormed) (hfirst : g.first = g.firstSets)

include hg hfirst

/-- In a round every production enlarges the FOLLOW sets. -/
theorem enlarges_production {p : Production α} (hp : p ∈ g.productions.tail)
    (h : g.Following start follow) :
    g.Enlarges start follow (growFollow g.first p.name follow p.symbols) := by
  obtain ⟨i, hi⟩ := mem_tail_iff.mp hp
  rw [hfirst]
  exact h.enlarges_grow hg p.name fun s hs => hg.knows hi hs

theorem following_followRound (h : g.Following start follow) :
    g.Following start (g.followRound follow) := by
  rw [followRound_eq]
  exact foldl_induction (P := g.Following start)
    (fun _ _ hp hx => (enlarges_production hg hfirst hp hx).following) h

/-- A round says truly whether it enlarged the FOLLOW sets. -/
theorem tells_followSweep (h : g.Following start follow) :
    Tells (g.followTotal start) follow (g.followSweep follow) := by
  refine tells_sweep _ (P := g.Following start)
    (fun _ _ hp hx => (enlarges_production hg hfirst hp hx).following) (fun x p hp hx => ?_) h
  obtain ⟨i, hi⟩ := mem_tail_iff.mp hp
  rw [hfirst]
  exact hx.tells_extendFollow hg p.name fun s hs => hg.knows hi hs

/-- The rounds end as if the sets were compared after each of them. -/
theorem followSets_eq (start : String) :
    g.followSets start = stabilize g.followRound g.followFuel (g.followSeed start) :=
  repeatRounds_eq_stabilize _ (fun _ h => following_followRound hg hfirst h)
    (fun _ h => tells_followSweep hg hfirst h) _ (following_seed hg)

theorem following_followSets : g.Following start (g.followSets start) := by
  rw [followSets_eq hg hfirst]
  exact stabilize_induction (fun _ h => following_followRound hg hfirst h) _ (following_seed hg)

/-- Another round would add nothing. -/
theorem followRound_followSets :
    g.followRound (g.followSets start) = g.followSets start := by
  have hbound : ∀ follow, g.Following start follow →
      g.followTotal start follow ≤ (g.nonterminals.size + 1) * g.terminals.size := by
    intro follow h
    have hlength : ∀ name ∈ (g.followSeed start).keys, ∀ set, follow.get? name = some set →
        set.length ≤ g.terminals.size := by
      intro name _ set hset
      have hle := ((h.nodup hset).subperm (h.terminals hset)).length_le
      rwa [Registry.keys, List.length_map] at hle
    exact (Registry.total_le hlength).trans (Nat.mul_le_mul_right _ length_keys_followSeed)
  rw [followSets_eq hg hfirst]
  refine stabilize_fixed (g.followTotal start)
    (P := g.Following start) (fun _ h => following_followRound hg hfirst h) ?_ hbound _
    (following_seed hg) ?_
  · exact fun follow h hne => (tells_followSweep hg hfirst h).raises.resolve_left hne
  · rw [followFuel, Nat.mul_add]
    omega

theorem settles_followSets (start : String) :
    Settles g.followRound (g.followSeed start) (g.followSets start) := by
  have hfixed : g.followRound (g.followSets start) = g.followSets start :=
    followRound_followSets hg hfirst
  rw [followSets_eq hg hfirst] at hfixed ⊢
  exact settles_stabilize hfixed

/-- No right side adds anything to the FOLLOW sets. -/
theorem growOne_followSets (start : String) {i : Nat} {p : Production α}
    (hp : g.production? i = some p) (hi : i ≠ 0)
    (hsplit : p.symbols = begin ++ .nonterminal b :: rest) :
    g.growOne p.name (g.followSets start) b rest = g.followSets start := by
  obtain ⟨k, rfl⟩ := Nat.exists_eq_succ_of_ne_zero hi
  have hfixed := foldl_fixed (g.followTotal start)
    (fun _ _ hp hx => (enlarges_production hg hfirst hp hx).following)
    (fun _ _ hp hx => (enlarges_production hg hfirst hp hx).larger)
    (following_followSets hg hfirst)
    ((followRound_eq g _).symm.trans (followRound_followSets hg hfirst)) p
    (mem_tail_iff.mpr ⟨k, hp⟩)
  rw [hfirst] at hfixed
  exact (following_followSets hg hfirst).grow_fixed hg (fun s hs => hg.knows hp hs) hfixed hsplit

/-- What can come after a nonterminal in a right side is in its FOLLOW set. -/
theorem afterwards_subset_followSets {i : Nat} {p : Production α} (hp : g.production? i = some p)
    (hi : i ≠ 0) (hsplit : p.symbols = begin ++ .nonterminal b :: rest) :
    g.afterwards p.name (g.followSets start) rest ⊆ ((g.followSets start).get? b).getD [] := by
  have hfixed := congrArg (·.get? b) (growOne_followSets hg hfirst start hp hi hsplit)
  simp only [growOne, Registry.get?_update_self] at hfixed
  intro t ht
  rw [← hfixed]
  exact Ordered.mem_union.mpr (Or.inr ht)

/-- What the rest of a right side begins with follows the nonterminal before it. -/
theorem mem_followSets_of_beginsWith {i : Nat} {p : Production α} (hp : g.production? i = some p)
    (hi : i ≠ 0) (hsplit : p.symbols = begin ++ .nonterminal b :: rest)
    (hbegins : g.BeginsWith rest t) : t ∈ ((g.followSets start).get? b).getD [] := by
  have hknows : ∀ s ∈ rest, g.Knows s := fun s hs =>
    hg.knows hp (by rw [hsplit]; exact List.mem_append_right _ (List.mem_cons_of_mem _ hs))
  have ht := (mem_ofSequence_iff hg hknows).mpr hbegins
  refine afterwards_subset_followSets hg hfirst hp hi hsplit ?_
  unfold afterwards
  split
  · exact Ordered.mem_union.mpr (Or.inl ht)
  · exact ht

/-- What follows a left side follows a nonterminal in a right side after which nothing need come. -/
theorem mem_followSets_of_vanishes {i : Nat} {p : Production α} (hp : g.production? i = some p)
    (hi : i ≠ 0) (hsplit : p.symbols = begin ++ .nonterminal b :: rest)
    (hvanishes : g.Vanishes rest) (ht : t ∈ ((g.followSets start).get? p.name).getD []) :
    t ∈ ((g.followSets start).get? b).getD [] := by
  have hknows : ∀ s ∈ rest, g.Knows s := fun s hs =>
    hg.knows hp (by rw [hsplit]; exact List.mem_append_right _ (List.mem_cons_of_mem _ hs))
  refine afterwards_subset_followSets hg hfirst hp hi hsplit ?_
  rw [afterwards, if_pos ((empty_ofSequence_iff hg hknows).mpr hvanishes)]
  exact Ordered.mem_union.mpr (Or.inr ht)

end Rounds

end ShiftReduce.Grammar
