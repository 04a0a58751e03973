import ShiftReduce.Fixpoint

/-!
# Rounds that come to an end

A repetition that is given enough rounds ends where a further round changes nothing, provided that
each round before has raised a bounded measure. A round that passes over a list changes nothing only
if it changes nothing at any member. Rounds that say whether they changed anything are repeated just
as if the values were compared: `repeatRounds_eq_stabilize`.
-/

namespace ShiftReduce

variable {α β : Type} (measure : α → Nat)

/-- Repeats a step until it changes nothing, at most the given number of times. -/
def stabilize [DecidableEq α] (step : α → α) : Nat → α → α
  | 0, x => x
  | fuel + 1, x =>
      let y := step x
      if y = x then x else stabilize step fuel y

/-- What every step keeps, the repetition keeps. -/
theorem stabilize_induction [DecidableEq α] {step : α → α} {P : α → Prop}
    (hstep : ∀ x, P x → P (step x)) (fuel : Nat) {x : α} (h : P x) : P (stabilize step fuel x) := by
  induction fuel generalizing x with
  | zero => exact h
  | succ fuel ih =>
      simp only [stabilize]
      split
      · exact h
      · exact ih (hstep x h)

/-- With a round for each possible value of a measure that every change raises, the repetition ends
in a state that the step leaves alone. -/
theorem stabilize_fixed [DecidableEq α] {step : α → α} {P : α → Prop} {bound : Nat}
    (hkeep : ∀ x, P x → P (step x))
    (hraise : ∀ x, P x → step x ≠ x → measure x < measure (step x))
    (hbound : ∀ x, P x → measure x ≤ bound) (fuel : Nat) {x : α} (hx : P x)
    (hfuel : bound < measure x + fuel) :
    step (stabilize step fuel x) = stabilize step fuel x := by
  induction fuel generalizing x with
  | zero =>
      have hle := hbound x hx
      omega
  | succ fuel ih =>
      simp only [stabilize]
      by_cases hfixed : step x = x
      · rw [if_pos hfixed, hfixed]
      · rw [if_neg hfixed]
        have hlt := hraise x hx hfixed
        exact ih (hkeep x hx) (by omega)

/-- A step that is repeated until it changes nothing comes to an end, however many rounds that
takes. -/
inductive Settles (step : α → α) : α → α → Prop
  | still {x : α} : step x = x → Settles step x x
  | again {x y : α} : step x ≠ x → Settles step (step x) y → Settles step x y

/-- A repetition whose bound was not too small ends as it would without one. -/
theorem settles_stabilize [DecidableEq α] {step : α → α} {fuel : Nat} {x : α}
    (h : step (stabilize step fuel x) = stabilize step fuel x) :
    Settles step x (stabilize step fuel x) := by
  induction fuel generalizing x with
  | zero => exact .still h
  | succ fuel ih =>
      simp only [stabilize] at h ⊢
      by_cases hfixed : step x = x
      · rw [if_pos hfixed]
        exact .still hfixed
      · rw [if_neg hfixed] at h ⊢
        exact .again hfixed (ih h)

/-! ## Steps that say whether they changed anything -/

/-- The answer of a step that says truly whether it changed the value: it says no and leaves the
value alone, or it says yes and raises the measure. -/
def Tells (x : α) (answer : α × Bool) : Prop :=
  answer = (x, false) ∨ answer.2 = true ∧ measure x < measure answer.1

namespace Tells

variable {measure} {x y z : α} {answer : α × Bool} {changed more : Bool}

theorem raises (h : Tells measure x answer) :
    answer.1 = x ∨ measure x < measure answer.1 := by
  rcases h with hsame | ⟨_, hlt⟩
  · exact Or.inl (congrArg Prod.fst hsame)
  · exact Or.inr hlt

theorem changed_iff (h : Tells measure x answer) : answer.2 = true ↔ answer.1 ≠ x := by
  rcases h with hsame | ⟨hchanged, hlt⟩
  · simp [hsame]
  · refine iff_of_true hchanged fun hsame => ?_
    rw [hsame] at hlt
    exact Nat.lt_irrefl _ hlt

/-- Two steps together changed the value if one of them did. -/
theorem trans (h : Tells measure x (y, changed)) (hmore : Tells measure y (z, more)) :
    Tells measure x (z, changed || more) := by
  rcases h with hsame | ⟨hchanged, hlt⟩
  · cases hsame
    rwa [Bool.false_or]
  · obtain rfl : changed = true := hchanged
    refine Or.inr ⟨rfl, ?_⟩
    rcases hmore.raises with hsame | hlt'
    · rw [show z = y from hsame]
      exact hlt
    · exact Nat.lt_trans hlt hlt'

end Tells

section Sweeps

variable {step : α → β → α × Bool} {P : α → Prop} {xs : List β} {x : α}

theorem fst_sweep : (sweep step x xs).1 = xs.foldl (fun x b => (step x b).1) x := by
  induction xs generalizing x with
  | nil => rfl
  | cons b rest ih => exact ih

theorem sweep_map {γ : Type} (f : γ → β) (xs : List γ) :
    sweep step x (xs.map f) = sweep (fun x c => step x (f c)) x xs := by
  induction xs generalizing x with
  | nil => rfl
  | cons c rest ih => simp only [List.map_cons, sweep, ih]

/-- Passing over a list says truly whether it changed the value, if every step does. -/
theorem tells_sweep (hkeep : ∀ x, ∀ b ∈ xs, P x → P (step x b).1)
    (htells : ∀ x, ∀ b ∈ xs, P x → Tells measure x (step x b)) (hx : P x) :
    Tells measure x (sweep step x xs) := by
  induction xs generalizing x with
  | nil => exact Or.inl rfl
  | cons b rest ih =>
      exact (htells x b List.mem_cons_self hx).trans
        (ih (fun y c hc => hkeep y c (List.mem_cons_of_mem b hc))
          (fun y c hc => htells y c (List.mem_cons_of_mem b hc)) (hkeep x b List.mem_cons_self hx))

/-- Rounds that say truly whether they changed the value are repeated until they change nothing. -/
theorem repeatRounds_eq_stabilize [DecidableEq α] {round : α → α × Bool}
    (hkeep : ∀ x, P x → P (round x).1) (htells : ∀ x, P x → Tells measure x (round x)) (fuel : Nat)
    (hx : P x) : repeatRounds round fuel x = stabilize (fun x => (round x).1) fuel x := by
  induction fuel generalizing x with
  | zero => rfl
  | succ fuel ih =>
      have hchanged := (htells x hx).changed_iff
      simp only [repeatRounds, stabilize]
      by_cases hsame : (round x).1 = x
      · rw [if_pos hsame, if_neg fun h => hchanged.mp h hsame, hsame]
      · rw [if_neg hsame, if_pos (hchanged.mpr hsame)]
        exact ih (hkeep x hx)

end Sweeps

/-! ## Passing over a list -/

variable {f : α → β → α} {P : α → Prop} {xs : List β}

/-- What each member keeps, passing over the list keeps. -/
theorem foldl_induction (hkeep : ∀ x, ∀ a ∈ xs, P x → P (f x a)) {x : α}
    (hx : P x) : P (xs.foldl f x) := by
  induction xs generalizing x with
  | nil => exact hx
  | cons a rest ih =>
      exact ih (fun y b hb => hkeep y b (List.mem_cons_of_mem a hb))
        (hkeep x a List.mem_cons_self hx)

/-- Passing over a list changes nothing or raises the measure, if that holds at each member. -/
theorem foldl_raises (hkeep : ∀ x, ∀ a ∈ xs, P x → P (f x a))
    (hraise : ∀ x, ∀ a ∈ xs, P x → f x a = x ∨ measure x < measure (f x a)) {x : α}
    (hx : P x) : xs.foldl f x = x ∨ measure x < measure (xs.foldl f x) := by
  induction xs generalizing x with
  | nil => exact Or.inl rfl
  | cons a rest ih =>
      have hrest := ih (fun y b hb => hkeep y b (List.mem_cons_of_mem a hb))
        (fun y b hb => hraise y b (List.mem_cons_of_mem a hb)) (hkeep x a List.mem_cons_self hx)
      rw [List.foldl_cons]
      rcases hraise x a List.mem_cons_self hx with hsame | hlt
      · rwa [hsame] at hrest ⊢
      · rcases hrest with hend | hmore
        · exact Or.inr (by rwa [hend])
        · exact Or.inr (Nat.lt_trans hlt hmore)

/-- If passing over a list changes nothing in the end, then it changes nothing at any member. -/
theorem foldl_fixed (hkeep : ∀ x, ∀ a ∈ xs, P x → P (f x a))
    (hraise : ∀ x, ∀ a ∈ xs, P x → f x a = x ∨ measure x < measure (f x a)) {x : α}
    (hx : P x) (hfixed : xs.foldl f x = x) : ∀ a ∈ xs, f x a = x := by
  induction xs with
  | nil => exact fun a ha => absurd ha List.not_mem_nil
  | cons a rest ih =>
      have hkeep' := fun y b hb => hkeep y b (List.mem_cons_of_mem a hb)
      have hraise' := fun y b hb => hraise y b (List.mem_cons_of_mem a hb)
      rw [List.foldl_cons] at hfixed
      have hsame : f x a = x := by
        rcases hraise x a List.mem_cons_self hx with hsame | hlt
        · exact hsame
        · have hx' := hkeep x a List.mem_cons_self hx
          rcases foldl_raises measure hkeep' hraise' hx' with hend | hmore
          · rw [← hend, hfixed]
          · rw [hfixed] at hmore
            omega
      rw [hsame] at hfixed
      intro b hb
      rcases List.mem_cons.mp hb with rfl | hrest
      · exact hsame
      · exact ih hkeep' hraise' hfixed b hrest

end ShiftReduce
