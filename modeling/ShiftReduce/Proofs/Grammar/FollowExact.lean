import ShiftReduce.Proofs.Grammar.FirstExact

/-!
# Computing FOLLOW sets

What the rounds put into a FOLLOW set can come right after the nonterminal: a registered nonterminal
derives a string in which it does, or it is the end of input and the start name derives a string
that ends with the nonterminal. Conversely, once no round adds anything, along a derivation the
string behind each nonterminal begins with terminals of its FOLLOW set only. Read
`computeFollow_exact` first.
-/

namespace ShiftReduce.Grammar

variable {α : Type} {g : Grammar α} {follow : Registry String (List Symbol)} {s t : Symbol}
  {xs ys front rest symbols : List Symbol} {name start b : String} {i : Nat} {p : Production α}

/-- A grammar without production 0, which is no declared production and whose left side is no name
that can be declared. -/
def unaugmented (g : Grammar α) : Grammar α :=
  { g with productions := g.productions.tail }

/-- A terminal that can come right after a nonterminal: behind it in a string that some registered
nonterminal derives, or as the end of input behind a string that the start name derives by the
declared productions. By all productions only the left side of production 0 derives more. -/
def Followed (g : Grammar α) (start b : String) (t : Symbol) : Prop :=
  (∃ a ∈ g.nonterminals.keys, ∃ front back,
    g.Derives [.nonterminal a] (front ++ .nonterminal b :: t :: back)) ∨
  t = .endOfInput ∧
    ∃ front, g.unaugmented.Derives [.nonterminal start] (front ++ [.nonterminal b])

/-- The sets that are computed are those in which the rounds end, those for FIRST and those for
FOLLOW, and the set of a registered nonterminal holds just the terminals that can come right after
it. -/
structure ExactFollow (g computed : Grammar α) (start : String) : Prop where
  first : Settles g.firstRound g.firstSeed computed.first
  settles : Settles computed.followRound (computed.followSeed start) computed.follow
  exists_get? : ∀ {b : String}, b ∈ g.nonterminals.keys → ∃ set, computed.follow.get? b = some set
  mem_iff : ∀ {b : String} {t : Symbol}, b ∈ g.nonterminals.keys → t.isTerminal = true →
    (t ∈ (computed.follow.get? b).getD [] ↔ g.Followed start b t)

/-! ## Derivations by the declared productions -/

/-- The declared productions are those other than production 0. -/
theorem production?_unaugmented (g : Grammar α) (i : Nat) :
    g.unaugmented.production? i = g.production? (i + 1) := by
  rw [production?, unaugmented, List.getElem?_tail, production?]

/-- The left side of production 0 stands on no right side. -/
theorem WellFormed.augmentedStart_notMem (h : g.WellFormed) (hp : g.production? i = some p) :
    .nonterminal augmentedStart ∉ p.symbols := by
  intro hmem
  have hwritten := isNonterminalName_augmentedStart.symm.trans (h.knows hp hmem).1
  cases hwritten

/-- Without the left side of production 0 in it, a string is rewritten by declared productions, and
to another such string. -/
theorem WellFormed.rewrites_unaugmented (h : g.WellFormed)
    (hxs : .nonterminal augmentedStart ∉ xs) (hstep : g.Rewrites xs ys) :
    g.unaugmented.Rewrites xs ys ∧ .nonterminal augmentedStart ∉ ys := by
  obtain ⟨i, p, left, right, hp, rfl, rfl⟩ := hstep
  have hi : i ≠ 0 := by
    rintro rfl
    obtain ⟨zero, hzero, hname, _⟩ := h.zero
    cases hzero.symm.trans hp
    rw [hname] at hxs
    exact hxs (by simp)
  obtain ⟨k, rfl⟩ := Nat.exists_eq_succ_of_ne_zero hi
  refine ⟨⟨k, p, left, right, by rwa [production?_unaugmented], rfl, rfl⟩, ?_⟩
  have hsymbols := h.augmentedStart_notMem hp
  simp only [List.mem_append, List.mem_cons, not_or] at hxs ⊢
  exact ⟨⟨hxs.1, hsymbols⟩, hxs.2.2⟩

/-- So such a string derives the same with and without production 0. -/
theorem WellFormed.derives_unaugmented_iff (h : g.WellFormed)
    (hxs : .nonterminal augmentedStart ∉ xs) :
    g.unaugmented.Derives xs ys ↔ g.Derives xs ys := by
  constructor
  · intro hderives
    induction hderives with
    | refl => exact .refl
    | tail _ hstep ih =>
        obtain ⟨i, p, left, right, hp, hbefore, hafter⟩ := hstep
        rw [production?_unaugmented] at hp
        exact ih.tail ⟨i + 1, p, left, right, hp, hbefore, hafter⟩
  · intro hderives
    induction hderives using Relation.ReflTransGen.head_induction_on with
    | refl => exact .refl
    | head hstep _ ih =>
        obtain ⟨hdeclared, hafter⟩ := h.rewrites_unaugmented hxs hstep
        exact .head hdeclared (ih hafter)

/-- A registered nonterminal is not the left side of production 0. -/
theorem Made.augmentedStart_notMem (h : g.Made) (hname : name ∈ g.nonterminals.keys) :
    .nonterminal augmentedStart ∉ [Symbol.nonterminal name] := by
  intro hmem
  rw [← Symbol.nonterminal.inj (List.mem_singleton.mp hmem)] at hname
  have hwritten := isNonterminalName_augmentedStart.symm.trans (h.isNonterminalName hname)
  cases hwritten

/-! ## What the sets hold can come after -/

/-- What the rest of a right side begins with can come after the nonterminal before it. -/
theorem followed_of_beginsWith (hg : g.WellFormed) (hp : g.production? (i + 1) = some p)
    (hsplit : p.symbols = front ++ .nonterminal b :: rest) (hbegins : g.BeginsWith rest t) :
    g.Followed start b t := by
  obtain ⟨_, back, hderives⟩ := hbegins
  refine Or.inl ⟨p.name, (hg.name hp).2, front, back, .of_production hp ?_⟩
  rw [hsplit]
  have hcontext := hderives.context (front ++ [.nonterminal b]) []
  simpa using hcontext

/-- What can come after a left side can come after a nonterminal of the right side if the rest
vanishes. -/
theorem followed_of_vanishes (hg : g.WellFormed) (hp : g.production? (i + 1) = some p)
    (hsplit : p.symbols = front ++ .nonterminal b :: rest) (hvanishes : g.Vanishes rest)
    (hfollowed : g.Followed start p.name t) : g.Followed start b t := by
  have hname : g.Derives [.nonterminal p.name] (front ++ [.nonterminal b]) := by
    refine .of_production hp ?_
    rw [hsplit]
    have hcontext := hvanishes.context (front ++ [.nonterminal b]) []
    simpa using hcontext
  rcases hfollowed with ⟨a, ha, before, back, hderives⟩ | ⟨rfl, before, hderives⟩
  · refine Or.inl ⟨a, ha, before ++ front, back, hderives.trans ?_⟩
    have hcontext := hname.context before (t :: back)
    simpa using hcontext
  · have hdeclared : .nonterminal augmentedStart ∉ [Symbol.nonterminal p.name] := by
      intro hmem
      have hsame := Symbol.nonterminal.inj (List.mem_singleton.mp hmem)
      have hwritten := isNonterminalName_augmentedStart.symm.trans (hsame ▸ (hg.name hp).1)
      cases hwritten
    refine Or.inr ⟨rfl, before ++ front, hderives.trans ?_⟩
    have hcontext := ((hg.derives_unaugmented_iff hdeclared).mpr hname).context before []
    simpa using hcontext

/-- A symbol of a string that is derived was there before or stands on a right side. -/
theorem Derives.mem (h : g.Derives xs ys) (hs : s ∈ ys) :
    s ∈ xs ∨ ∃ i p, g.production? i = some p ∧ s ∈ p.symbols := by
  induction h with
  | refl => exact Or.inl hs
  | tail _ hstep ih =>
      obtain ⟨i, p, left, right, hp, rfl, rfl⟩ := hstep
      rcases List.mem_append.mp hs with hfront | hright
      · rcases List.mem_append.mp hfront with hleft | hsymbols
        · exact ih (List.mem_append_left _ hleft)
        · exact Or.inr ⟨i, p, hp, hsymbols⟩
      · exact ih (List.mem_append_right _ (List.mem_cons_of_mem _ hright))

/-- What can come after a nonterminal is the end of input or stands on a right side. -/
theorem Followed.eq_endOfInput_or_mem (h : g.Followed start b t) (ht : t.isTerminal = true) :
    t = .endOfInput ∨ ∃ i p, g.production? i = some p ∧ t ∈ p.symbols := by
  rcases h with ⟨a, _, front, back, hderives⟩ | ⟨hend, _⟩
  · have hmem : t ∈ front ++ .nonterminal b :: t :: back := by simp
    refine Or.inr ((hderives.mem hmem).resolve_left fun hstart => ?_)
    rw [List.mem_singleton.mp hstart] at ht
    cases ht
  · exact Or.inl hend

/-- FOLLOW sets that hold nothing wrong. -/
def SoundFollow (g : Grammar α) (start : String) (follow : Registry String (List Symbol)) : Prop :=
  ∀ b t, t ∈ (follow.get? b).getD [] → g.Followed start b t

/-- What is added to one nonterminal of a right side can come after it. -/
theorem SoundFollow.growOne (hg : g.WellFormed) (h : g.SoundFollow start follow)
    (hp : g.production? (i + 1) = some p) (hsplit : p.symbols = front ++ .nonterminal b :: rest) :
    g.SoundFollow start (g.growOne p.name follow b rest) := by
  have hadded : ∀ t ∈ g.afterwards p.name follow rest, g.Followed start b t := by
    have hknows : ∀ s ∈ rest, g.Knows s := fun s hs =>
      hg.knows hp (by rw [hsplit]; exact List.mem_append_right _ (List.mem_cons_of_mem _ hs))
    have hfirst : ∀ t ∈ (FirstSet.ofSequence g.firstSets rest).terminals, g.Followed start b t :=
      fun t ht => followed_of_beginsWith hg hp hsplit ((mem_ofSequence_iff hg hknows).mp ht)
    intro t ht
    unfold afterwards at ht
    split at ht
    · rename_i hempty
      rcases Ordered.mem_union.mp ht with ht | ht
      · exact hfirst t ht
      · have hvanishes := (empty_ofSequence_iff hg hknows).mp hempty
        exact followed_of_vanishes hg hp hsplit hvanishes (h p.name t ht)
    · exact hfirst t ht
  intro b' t ht
  unfold Grammar.growOne at ht
  by_cases hsame : b' = b
  · subst hsame
    rw [Registry.get?_update_self] at ht
    rcases Ordered.mem_union.mp ht with ht | ht
    · exact h _ t ht
    · exact hadded t ht
  · rw [Registry.get?_update_of_ne hsame] at ht
    exact h b' t ht

/-- What a right side adds can come after its nonterminals. -/
theorem SoundFollow.grow (hg : g.WellFormed) (h : g.SoundFollow start follow)
    (hp : g.production? (i + 1) = some p) (hsplit : p.symbols = front ++ symbols) :
    g.SoundFollow start (growFollow g.firstSets p.name follow symbols) := by
  induction symbols generalizing front follow with
  | nil => exact h
  | cons s rest ih =>
      have hbehind : p.symbols = (front ++ [s]) ++ rest := by simp [hsplit]
      cases s with
      | token name =>
          rw [growFollow_terminal rfl]
          exact ih h hbehind
      | literal c =>
          rw [growFollow_terminal rfl]
          exact ih h hbehind
      | nonterminal b =>
          rw [growFollow_nonterminal]
          exact ih (h.growOne hg hp hsplit) hbehind

theorem soundFollow_seed (g : Grammar α) (start : String) :
    g.SoundFollow start (g.followSeed start) := by
  intro b t ht
  by_cases hb : b = start
  · subst hb
    rw [get?_followSeed_start] at ht
    exact Or.inr ⟨List.mem_singleton.mp ht, [], .refl⟩
  · rw [followSeed, Registry.get?_update_of_ne hb] at ht
    cases hset : (Registry.mk (g.nonterminals.keys.map fun n => (n, ([] : List Symbol)))).get? b
      with
    | none =>
        rw [hset] at ht
        cases ht
    | some set =>
        rw [hset, eq_nil_of_get?_blank hset] at ht
        cases ht

/-- The FOLLOW sets in which the rounds end hold nothing wrong. -/
theorem soundFollow_followSets (hg : g.WellFormed) (hfirst : g.first = g.firstSets)
    (start : String) : g.SoundFollow start (g.followSets start) := by
  rw [followSets_eq hg hfirst]
  refine stabilize_induction (P := g.SoundFollow start) (fun follow h => ?_) _
    (soundFollow_seed g start)
  rw [followRound_eq]
  refine foldl_induction (P := g.SoundFollow start) (fun follow p hp h => ?_) h
  obtain ⟨i, hi⟩ := mem_tail_iff.mp hp
  rw [hfirst]
  exact h.grow hg hi (List.nil_append _).symm

/-! ## What can come after is in the sets -/

/-- A string in which every nonterminal has in its FOLLOW set whatever the string behind it begins
with. -/
def Foreseen (g : Grammar α) (follow : Registry String (List Symbol)) (xs : List Symbol) : Prop :=
  ∀ front b rest t, xs = front ++ .nonterminal b :: rest → g.BeginsWith rest t →
    t ∈ (follow.get? b).getD []

/-- A symbol of two strings that are joined is one of the first or one of the second. -/
theorem split_append {left right : List Symbol} (h : left ++ right = front ++ s :: rest) :
    (∃ middle, left = front ++ s :: middle ∧ rest = middle ++ right) ∨
      ∃ middle, right = middle ++ s :: rest ∧ front = left ++ middle := by
  rcases List.append_eq_append_iff.mp h with ⟨middle, hfront, hright⟩ | ⟨middle, hleft, hrest⟩
  · exact Or.inr ⟨middle, hright, hfront⟩
  · cases middle with
    | nil => exact Or.inr ⟨[], by simpa using hrest.symm, by simpa using hleft.symm⟩
    | cons s' middle =>
        obtain ⟨rfl, hbehind⟩ := List.cons.inj hrest
        exact Or.inl ⟨middle, hleft, hbehind⟩

section Closed

variable (hg : g.WellFormed) (hfirst : g.first = g.firstSets)

include hg hfirst

/-- A replacement by a declared production leaves everything foreseen. -/
theorem Foreseen.rewrites (h : g.Foreseen (g.followSets start) xs)
    (hstep : g.unaugmented.Rewrites xs ys) : g.Foreseen (g.followSets start) ys := by
  obtain ⟨i, p, left, right, hp, hbefore, rfl⟩ := hstep
  rw [production?_unaugmented] at hp
  intro front b rest t hsplit hbegins
  -- the nonterminal stands before the right side, in it, or behind it
  rcases split_append hsplit with ⟨middle, hwithin, rfl⟩ | ⟨middle, hright, _⟩
  · rcases split_append hwithin with ⟨middle', hleft, rfl⟩ | ⟨middle', hsymbols, _⟩
    · have hwhole : xs = front ++ .nonterminal b :: (middle' ++ .nonterminal p.name :: right) := by
        rw [hbefore, hleft, List.append_assoc, List.cons_append]
      refine h _ _ _ _ hwhole ?_
      rw [← starting_iff] at hbegins ⊢
      exact hbegins.of_rewrites ⟨i + 1, p, middle', right, hp, rfl, rfl⟩
    · rw [← starting_iff, starting_append, starting_iff, starting_iff, vanishing_iff] at hbegins
      rcases hbegins with hbegins | ⟨hvanishes, hbegins⟩
      · exact mem_followSets_of_beginsWith hg hfirst hp (Nat.succ_ne_zero i) hsymbols hbegins
      · exact mem_followSets_of_vanishes hg hfirst hp (Nat.succ_ne_zero i) hsymbols hvanishes
          (h _ _ _ _ hbefore hbegins)
  · have hwhole : xs = (left ++ .nonterminal p.name :: middle) ++ .nonterminal b :: rest := by
      rw [hbefore, hright, List.append_assoc, List.cons_append]
    exact h _ _ _ _ hwhole hbegins

theorem Foreseen.derives (h : g.Foreseen (g.followSets start) xs)
    (hderives : g.unaugmented.Derives xs ys) : g.Foreseen (g.followSets start) ys := by
  induction hderives with
  | refl => exact h
  | tail _ hstep ih => exact ih.rewrites hg hfirst hstep

omit hg hfirst in
/-- Nothing comes after a nonterminal that stands alone. -/
theorem foreseen_singleton (g : Grammar α) (follow : Registry String (List Symbol)) (a : String) :
    g.Foreseen follow [.nonterminal a] := by
  intro front b rest t hsplit hbegins
  have hrest : rest = [] := by
    have hlength := congrArg List.length hsplit
    simp only [List.length_append, List.length_cons, List.length_nil] at hlength
    exact List.eq_nil_of_length_eq_zero (by omega)
  rw [hrest, ← starting_iff] at hbegins
  exact absurd hbegins not_starting_nil

/-- After the start name comes the end of input. -/
theorem foreseen_start :
    g.Foreseen (g.followSets start) [.nonterminal start, .endOfInput] := by
  intro front b rest t hsplit hbegins
  cases front with
  | nil =>
      cases hsplit
      have hend : t = .endOfInput := by
        have hlast : g.BeginsWith ([] ++ [Symbol.endOfInput]) t := hbegins
        rcases (beginsWith_append_terminal rfl).mp hlast with hnothing | ⟨_, hend⟩
        · rw [← starting_iff] at hnothing
          exact absurd hnothing not_starting_nil
        · exact hend
      rw [hend]
      exact (following_followSets hg hfirst).endOfInput
  | cons s front =>
      -- only the end of input is left, which is no nonterminal
      cases front with
      | nil => simp [Symbol.endOfInput] at hsplit
      | cons s' front => simp at hsplit

/-- The FOLLOW sets in which the rounds end hold every terminal that can come after. -/
theorem mem_followSets_of_followed
    (hnames : ∀ name ∈ g.nonterminals.keys, .nonterminal augmentedStart ∉ [Symbol.nonterminal name])
    (ht : t.isTerminal = true) (h : g.Followed start b t) :
    t ∈ ((g.followSets start).get? b).getD [] := by
  rcases h with ⟨a, ha, front, back, hderives⟩ | ⟨rfl, front, hderives⟩
  · rw [← hg.derives_unaugmented_iff (hnames a ha)] at hderives
    have hforeseen := (foreseen_singleton g (g.followSets start) a).derives hg hfirst hderives
    exact hforeseen front b (t :: back) t rfl ⟨ht, back, .refl⟩
  · have hbehind := hderives.context [] [.endOfInput]
    have hforeseen := (foreseen_start hg hfirst).derives hg hfirst hbehind
    have hwhole : [] ++ (front ++ [.nonterminal b]) ++ [.endOfInput] =
        front ++ .nonterminal b :: [.endOfInput] := by
      rw [List.nil_append, List.append_assoc, List.singleton_append]
    exact hforeseen front b [.endOfInput] .endOfInput hwhole ⟨rfl, [], .refl⟩

end Closed

/-! ## The computation -/

/-- The sets of a grammar that has computed them are exact. -/
theorem Made.exactFollow (h : g.Made) (hdefined : g.undefined? = none) (start : String) :
    g.ExactFollow (g.withSets start) start := by
  -- the sets are computed in the grammar that already has its FIRST sets
  let known : Grammar α := { g with first := g.firstSets }
  have hmade : known.Made := by
    have hmade := h.computeFirst
    rwa [h.remembers.computeFirst_eq, hdefined] at hmade
  have hfollowing : known.Following start (known.followSets start) :=
    following_followSets hmade.wellFormed rfl
  have hsound : known.SoundFollow start (known.followSets start) :=
    soundFollow_followSets hmade.wellFormed rfl start
  refine ⟨settles_firstSets h.wellFormed,
    settles_followSets (g := known) hmade.wellFormed rfl start,
    hfollowing.exists_get?, fun {b t} _ ht => ⟨hsound b t, fun hfollowed => ?_⟩⟩
  exact mem_followSets_of_followed (g := known) hmade.wellFormed rfl
    (fun _ => h.augmentedStart_notMem) ht hfollowed

/-- In every grammar that declarations can make, if every registered nonterminal has a production,
computing FOLLOW sets for any start name comes to an end, succeeds, and gives exact sets. -/
theorem computeFollow_exact (h : g.Made)
    (hdefined : ∀ name ∈ g.nonterminals.keys, ∃ i p, g.production? i = some p ∧ p.name = name)
    (start : String) :
    ∃ follow, (g.computeFollow (some start)).1 = .ok follow ∧
      (g.computeFollow (some start)).2.follow = follow ∧
      g.ExactFollow (g.computeFollow (some start)).2 start := by
  have hnone : g.undefined? = none := by
    cases hfind : g.undefined? with
    | none => rfl
    | some name =>
        have hundefined := h.undefined_of_undefined? hfind
        obtain ⟨i, p, hp, hname⟩ := hdefined name hundefined.registered
        exact absurd hname (hundefined.production hp)
  rw [h.remembers.computeFollow_of_defined rfl hnone]
  exact ⟨_, rfl, rfl, h.exactFollow hnone start⟩

theorem computeFollow_exact_parentheses :
    (parentheses (none : Option Unit)).Made ∧
      (∀ name ∈ (parentheses (none : Option Unit)).nonterminals.keys, ∃ i p,
        (parentheses (none : Option Unit)).production? i = some p ∧ p.name = name) ∧
      (parentheses (none : Option Unit)).Followed "list" "items" (.literal ')') ∧
      ¬ (parentheses (none : Option Unit)).Followed "list" "items" .endOfInput := by
  obtain ⟨_, _, _, hexact⟩ :=
    computeFollow_exact (made_parentheses (none : Option Unit)) exists_production?_parentheses
      "list"
  have hitems : "items" ∈ (parentheses (none : Option Unit)).nonterminals.keys := by
    rw [keys_parentheses]
    exact List.mem_cons_of_mem _ (List.mem_singleton_self _)
  have hset : (((parentheses (none : Option Unit)).computeFollow (some "list")).2.follow.get?
      "items").getD [] = [.literal ')', .literal '('] := by decide +kernel
  refine ⟨made_parentheses _, exists_production?_parentheses,
    (hexact.mem_iff hitems rfl).mp ?_, fun hend => ?_⟩
  · rw [hset]
    exact List.mem_cons_self
  · have hmem := (hexact.mem_iff hitems rfl).mpr hend
    rw [hset] at hmem
    simp [Symbol.endOfInput] at hmem

/-- Production 0 has no part in the sets. With its left side as the start name, which derives the
name of lists by it alone, the end of input does not come after lists. -/
theorem endOfInput_notMem_augmentedStart :
    (parentheses (none : Option Unit)).Made ∧
      (∀ name ∈ (parentheses (none : Option Unit)).nonterminals.keys, ∃ i p,
        (parentheses (none : Option Unit)).production? i = some p ∧ p.name = name) ∧
      "list" ∈ (parentheses (none : Option Unit)).nonterminals.keys ∧
      ¬ (.endOfInput ∈ (((parentheses (none : Option Unit)).computeFollow
            (some augmentedStart)).2.follow.get? "list").getD [] ↔
          (∃ a ∈ (parentheses (none : Option Unit)).nonterminals.keys, ∃ front back,
            (parentheses (none : Option Unit)).Derives [.nonterminal a]
              (front ++ .nonterminal "list" :: .endOfInput :: back)) ∨
          ∃ front, (parentheses (none : Option Unit)).Derives [.nonterminal augmentedStart]
            (front ++ [.nonterminal "list"])) := by
  have hlist : "list" ∈ (parentheses (none : Option Unit)).nonterminals.keys := by
    rw [keys_parentheses]
    exact List.mem_cons_self
  have hset : (((parentheses (none : Option Unit)).computeFollow
      (some augmentedStart)).2.follow.get? "list").getD [] = [.literal ')', .literal '('] := by
    decide +kernel
  have hderives : (parentheses (none : Option Unit)).Derives [.nonterminal augmentedStart]
      [.nonterminal "list"] := .single ⟨0, _, [], [], rfl, rfl, rfl⟩
  refine ⟨made_parentheses _, exists_production?_parentheses, hlist, fun hexact => ?_⟩
  have hmem := hexact.mpr (Or.inr ⟨[], hderives⟩)
  rw [hset] at hmem
  simp [Symbol.endOfInput] at hmem

end ShiftReduce.Grammar
