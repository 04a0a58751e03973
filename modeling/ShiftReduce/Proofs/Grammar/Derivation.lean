import Mathlib.Logic.Relation
import ShiftReduce.Grammar.Basic

/-!
# Derivations

A derivation replaces nonterminals by right sides of their productions, one at a time. A string
vanishes if it derives the empty string and begins with a terminal if it derives a string whose
first symbol is that terminal; what comes after it may contain nonterminals. `vanishing_iff` and
`starting_iff` read both off the productions, so that proofs can follow them.
-/

namespace ShiftReduce.Grammar

variable {α : Type} {g : Grammar α} {xs ys zs left right : List Symbol} {s t : Symbol}

/-- One replacement of a nonterminal by a right side. -/
def Rewrites (g : Grammar α) (xs ys : List Symbol) : Prop :=
  ∃ i p left right, g.production? i = some p ∧ xs = left ++ .nonterminal p.name :: right ∧
    ys = left ++ p.symbols ++ right

/-- Any number of replacements. -/
def Derives (g : Grammar α) : List Symbol → List Symbol → Prop :=
  Relation.ReflTransGen g.Rewrites

/-- A string of terminals that can be derived from a start symbol. -/
structure Sentence (g : Grammar α) (start : String) (xs : List Symbol) : Prop where
  derives : g.Derives [.nonterminal start] xs
  isTerminal : ∀ s ∈ xs, s.isTerminal = true

/-- A string that can be replaced by nothing. -/
def Vanishes (g : Grammar α) (xs : List Symbol) : Prop :=
  g.Derives xs []

/-- A terminal with which something derived from a string begins. -/
def BeginsWith (g : Grammar α) (xs : List Symbol) (t : Symbol) : Prop :=
  t.isTerminal = true ∧ ∃ rest, g.Derives xs (t :: rest)

/-- A replacement can take place anywhere in a longer string. -/
theorem Rewrites.context (h : g.Rewrites xs ys) (left right : List Symbol) :
    g.Rewrites (left ++ xs ++ right) (left ++ ys ++ right) := by
  obtain ⟨i, p, before, behind, hp, rfl, rfl⟩ := h
  exact ⟨i, p, left ++ before, behind ++ right, hp, by simp, by simp⟩

/-- A derivation can take place anywhere in a longer string. -/
theorem Derives.context (h : g.Derives xs ys) (left right : List Symbol) :
    g.Derives (left ++ xs ++ right) (left ++ ys ++ right) := by
  induction h with
  | refl => exact .refl
  | tail _ hstep ih => exact ih.tail (hstep.context left right)

theorem Derives.trans (h : g.Derives xs ys) (hmore : g.Derives ys zs) : g.Derives xs zs :=
  Relation.ReflTransGen.trans h hmore

/-- The parts of a string derive independently. -/
theorem Derives.append {xs' ys' : List Symbol} (h : g.Derives xs ys) (h' : g.Derives xs' ys') :
    g.Derives (xs ++ xs') (ys ++ ys') := by
  have hfirst := h.context [] xs'
  have hsecond := h'.context ys []
  simp only [List.nil_append, List.append_nil] at hfirst hsecond
  exact hfirst.trans hsecond

/-- A nonterminal derives what its right sides derive. -/
theorem Derives.of_production {i : Nat} {p : Production α} (hp : g.production? i = some p)
    (h : g.Derives p.symbols ys) : g.Derives [.nonterminal p.name] ys :=
  .head ⟨i, p, [], [], hp, rfl, by simp⟩ h

/-! ## Vanishing strings -/

/-- Strings of nonterminals each of which has a right side that vanishes. -/
inductive Vanishing (g : Grammar α) : List Symbol → Prop
  | nil : Vanishing g []
  | cons {i : Nat} {p : Production α} {rest : List Symbol} : g.production? i = some p →
      Vanishing g p.symbols → Vanishing g rest → Vanishing g (.nonterminal p.name :: rest)

/-- A string vanishes exactly when its parts do. -/
theorem vanishing_append : g.Vanishing (xs ++ ys) ↔ g.Vanishing xs ∧ g.Vanishing ys := by
  induction xs with
  | nil => exact ⟨fun h => ⟨.nil, h⟩, And.right⟩
  | cons s rest ih =>
      constructor
      · intro h
        cases h with
        | cons hp hsymbols hrest => exact ⟨.cons hp hsymbols (ih.mp hrest).1, (ih.mp hrest).2⟩
      · rintro ⟨h, hys⟩
        cases h with
        | cons hp hsymbols hrest => exact .cons hp hsymbols (ih.mpr ⟨hrest, hys⟩)

/-- What is rewritten to a vanishing string vanishes. -/
theorem Vanishing.of_rewrites (hstep : g.Rewrites xs ys) (h : g.Vanishing ys) :
    g.Vanishing xs := by
  obtain ⟨i, p, before, behind, hp, rfl, rfl⟩ := hstep
  rw [vanishing_append, vanishing_append] at h
  exact vanishing_append.mpr ⟨h.1.1, .cons hp h.1.2 h.2⟩

/-- The strings that vanish, read off the productions. -/
theorem vanishing_iff : g.Vanishing xs ↔ g.Vanishes xs := by
  constructor
  · intro h
    induction h with
    | nil => exact .refl
    | cons hp _ _ ihsymbols ihrest => exact (Derives.of_production hp ihsymbols).append ihrest
  · intro h
    induction h using Relation.ReflTransGen.head_induction_on with
    | refl => exact .nil
    | head hstep _ ih => exact ih.of_rewrites hstep

/-- A string with a terminal in it does not vanish. -/
theorem Vanishing.not_terminal (h : g.Vanishing xs) (hs : s ∈ xs) : s.isTerminal = false := by
  induction h with
  | nil => cases hs
  | cons _ _ _ _ ih =>
      rcases List.mem_cons.mp hs with rfl | hrest
      · rfl
      · exact ih hrest

/-! ## The terminals a string begins with -/

/-- The terminals a string begins with: its first symbol, what a right side of its first symbol
begins with, or what comes after symbols that vanish. -/
inductive Starting (g : Grammar α) : List Symbol → Symbol → Prop
  | terminal {t : Symbol} {rest : List Symbol} : t.isTerminal = true → Starting g (t :: rest) t
  | inside {i : Nat} {p : Production α} {rest : List Symbol} {t : Symbol} :
      g.production? i = some p → Starting g p.symbols t →
      Starting g (.nonterminal p.name :: rest) t
  | past {s : Symbol} {rest : List Symbol} {t : Symbol} :
      g.Vanishing [s] → Starting g rest t → Starting g (s :: rest) t

/-- Only terminals are begun with. -/
theorem Starting.isTerminal (h : g.Starting xs t) : t.isTerminal = true := by
  induction h with
  | terminal ht => exact ht
  | inside _ _ ih => exact ih
  | past _ _ ih => exact ih

/-- What is begun with stands in the string or on a right side. -/
theorem Starting.mem (h : g.Starting xs t) :
    t ∈ xs ∨ ∃ i p, g.production? i = some p ∧ t ∈ p.symbols := by
  induction h with
  | terminal _ => exact Or.inl List.mem_cons_self
  | inside hp _ ih => exact Or.inr (ih.elim (fun hmem => ⟨_, _, hp, hmem⟩) id)
  | past _ _ ih => exact ih.imp_left (List.mem_cons_of_mem _)

/-- The empty string begins with nothing. -/
theorem not_starting_nil : ¬ g.Starting [] t := by
  intro h
  cases h

/-- A string begins with what its first part begins with and, if that vanishes, with what its
second part begins with. -/
theorem starting_append :
    g.Starting (xs ++ ys) t ↔ g.Starting xs t ∨ g.Vanishing xs ∧ g.Starting ys t := by
  induction xs with
  | nil => exact ⟨fun h => Or.inr ⟨.nil, h⟩, fun h => h.elim (absurd · not_starting_nil) And.right⟩
  | cons s rest ih =>
      have hsplit : g.Vanishing ([s] ++ rest) ↔ g.Vanishing [s] ∧ g.Vanishing rest :=
        vanishing_append
      rw [List.singleton_append] at hsplit
      constructor
      · intro h
        cases h with
        | terminal ht => exact Or.inl (.terminal ht)
        | inside hp h => exact Or.inl (.inside hp h)
        | past hs h =>
            rcases ih.mp h with hrest | ⟨hrest, hys⟩
            · exact Or.inl (.past hs hrest)
            · exact Or.inr ⟨hsplit.mpr ⟨hs, hrest⟩, hys⟩
      · rintro (h | ⟨hvanish, hys⟩)
        · cases h with
          | terminal ht => exact .terminal ht
          | inside hp h => exact .inside hp h
          | past hs h => exact .past hs (ih.mpr (Or.inl h))
        · obtain ⟨hs, hrest⟩ := hsplit.mp hvanish
          exact .past hs (ih.mpr (Or.inr ⟨hrest, hys⟩))

/-- What is rewritten to a string begins with what that begins with. -/
theorem Starting.of_rewrites (hstep : g.Rewrites xs ys) (h : g.Starting ys t) :
    g.Starting xs t := by
  obtain ⟨i, p, before, behind, hp, rfl, rfl⟩ := hstep
  rw [starting_append, starting_append, vanishing_append] at h
  rw [starting_append]
  rcases h with (h | ⟨hbefore, h⟩) | ⟨⟨hbefore, hsymbols⟩, h⟩
  · exact Or.inl h
  · exact Or.inr ⟨hbefore, .inside hp h⟩
  · exact Or.inr ⟨hbefore, .past (.cons hp hsymbols .nil) h⟩

/-- The terminals a string begins with, read off the productions. -/
theorem starting_iff : g.Starting xs t ↔ g.BeginsWith xs t := by
  constructor
  · intro h
    refine ⟨h.isTerminal, ?_⟩
    induction h with
    | terminal _ => exact ⟨_, .refl⟩
    | inside hp _ ih =>
        obtain ⟨rest, hrest⟩ := ih
        exact ⟨_, (Derives.of_production hp hrest).context [] _⟩
    | past hs _ ih =>
        obtain ⟨rest, hrest⟩ := ih
        exact ⟨rest, (vanishing_iff.mp hs).append hrest⟩
  · rintro ⟨ht, rest, h⟩
    induction h using Relation.ReflTransGen.head_induction_on with
    | refl => exact .terminal ht
    | head hstep _ ih => exact ih.of_rewrites hstep

/-- A string followed by a terminal begins with what the string begins with, or with that terminal
if the string vanishes. -/
theorem beginsWith_append_terminal (ht : t.isTerminal = true) :
    g.BeginsWith (xs ++ [t]) s ↔ g.BeginsWith xs s ∨ g.Vanishes xs ∧ s = t := by
  rw [← starting_iff, ← starting_iff, ← vanishing_iff, starting_append]
  refine or_congr_right (and_congr_right fun _ => ?_)
  constructor
  · intro h
    cases h with
    | terminal _ => rfl
    | inside _ _ => cases ht
    | past hvanish _ =>
        have := hvanish.not_terminal (List.mem_singleton_self t)
        rw [ht] at this
        cases this
  · rintro rfl
    exact .terminal ht

end ShiftReduce.Grammar
