import ShiftReduce.Engine.Run
import Mathlib.Data.List.Forall2

/-!
# Three stacks as one

Seen together, the three stacks of a configuration are some levels above their bottoms: state 0, the
end of input and an empty slot. `Config.Stacked` says so. A shift, a reduction, a complaint and
unwinding change the stacks each in a way of its own; what they do to the levels is said here. A
reduction only keeps the stacks together if its right side lies above the bottoms.
-/

namespace ShiftReduce

/-- A level of the three stacks. -/
@[ext] structure Frame (V : Type) where
  state : Nat
  symbol : Symbol
  slot : Slot V

variable {V C : Type} {m : Machine V C} {c : Config V C} {stack other : List (Frame V)}
  {frame : Frame V} {token : Token} {n : Nat}

/-- The state at the top of some levels, which is 0 at the bottom. -/
def topState : List (Frame V) → Nat
  | [] => 0
  | frame :: _ => frame.state

/-- The symbols of some levels, bottom first. -/
def symbolsOf (stack : List (Frame V)) : List Symbol :=
  stack.reverse.map Frame.symbol

/-- The three stacks of a configuration are those of some levels, above their bottoms. -/
structure Config.Stacked (c : Config V C) (stack : List (Frame V)) : Prop where
  states : c.states = stack.map Frame.state ++ [0]
  symbols : c.symbols = stack.map Frame.symbol ++ [.endOfInput]
  values : c.values = stack.map Frame.slot ++ [.empty]

/-- Two configurations have the same three stacks. -/
structure Config.SameStacks (c c' : Config V C) : Prop where
  states : c'.states = c.states
  symbols : c'.symbols = c.symbols
  values : c'.values = c.values

/-- The same level, possibly after the value was taken out of its slot. -/
def Frame.Vacated (frame left : Frame V) : Prop :=
  left = frame ∨ left = { frame with slot := frame.slot.vacated }

/-- The levels of a right side, leftmost first, after values were taken out of some slots. -/
def Frame.vacate (taken : List Nat) (frames : List (Frame V)) : List (Frame V) :=
  frames.mapIdx fun i frame =>
    if i ∈ taken then { frame with slot := frame.slot.vacated } else frame

theorem symbolsOf_cons : symbolsOf (frame :: stack) = symbolsOf stack ++ [frame.symbol] := by
  simp [symbolsOf]

/-- The symbols of the levels below some topmost ones come first. -/
theorem symbolsOf_drop_append_take (n : Nat) :
    symbolsOf (stack.drop n) ++ symbolsOf (stack.take n) = symbolsOf stack := by
  rw [symbolsOf, symbolsOf, ← List.map_append, ← List.reverse_append, List.take_append_drop]
  rfl

theorem symbolsOf_length : (symbolsOf stack).length = stack.length := by
  simp [symbolsOf]

/-- Taking levels off one of the stacks leaves the bottom. -/
theorem drop_levels {α : Type} (f : Frame V → α) (bottom : α) (hle : n ≤ stack.length) :
    (stack.map f ++ [bottom]).drop n = (stack.drop n).map f ++ [bottom] := by
  rw [List.drop_append_of_le_length (by rwa [List.length_map]), List.map_drop]

/-- Splitting one of the stacks splits the levels, and leaves the bottom. -/
theorem splitOff_levels {α : Type} (f : Frame V → α) (bottom : α) (hle : n ≤ stack.length) :
    splitOff (stack.map f ++ [bottom]) (stack.length + 1 - n) =
      ((stack.take n).reverse.map f, (stack.drop n).map f ++ [bottom]) := by
  have hcount : (stack.map f ++ [bottom]).length - (stack.length + 1 - n) = n := by
    rw [List.length_append, List.length_map, List.length_singleton]
    omega
  rw [splitOff, hcount, drop_levels f bottom hle,
    List.take_append_of_le_length (by rwa [List.length_map]), ← List.map_take, List.map_reverse]

namespace Frame

/-! ## Values taken out of slots -/

theorem Vacated.refl_all (frames : List (Frame V)) : List.Forall₂ Vacated frames frames :=
  List.forall₂_same.mpr fun _ _ => Or.inl rfl

theorem Vacated.state_eq {left : Frame V} (h : frame.Vacated left) : left.state = frame.state := by
  rcases h with rfl | rfl <;> rfl

theorem Vacated.symbol_eq {left : Frame V} (h : frame.Vacated left) :
    left.symbol = frame.symbol := by
  rcases h with rfl | rfl <;> rfl

/-- Every level stays the same but for a value taken out of its slot. -/
theorem vacated_vacate (taken : List Nat) (frames : List (Frame V)) :
    List.Forall₂ Vacated frames (vacate taken frames) := by
  rw [List.forall₂_iff_get]
  refine ⟨by simp [vacate], ?_⟩
  intro k hk _
  simp only [vacate, List.get_eq_getElem, List.getElem_mapIdx]
  split
  · exact Or.inr rfl
  · exact Or.inl rfl

/-- Taking values out of slots leaves the states. -/
theorem Vacated.map_state_eq (h : List.Forall₂ Vacated stack other) :
    other.map state = stack.map state := by
  induction h with
  | nil => rfl
  | cons hframe _ ih => rw [List.map_cons, List.map_cons, hframe.state_eq, ih]

theorem Vacated.map_symbol_eq (h : List.Forall₂ Vacated stack other) :
    other.map symbol = stack.map symbol := by
  induction h with
  | nil => rfl
  | cons hframe _ ih => rw [List.map_cons, List.map_cons, hframe.symbol_eq, ih]

/-- The slots of levels are emptied as an engine does it. -/
theorem map_slot_vacate (taken : List Nat) (frames : List (Frame V)) :
    (vacate taken frames).map slot = Engine.vacate taken (frames.map slot) := by
  refine List.ext_getElem (by simp [vacate, Engine.vacate]) fun i hi _ => ?_
  simp only [vacate, Engine.vacate, List.getElem_map, List.getElem_mapIdx]
  split <;> rfl

/-- The slots of a right side without the last, after values were taken out. -/
theorem take_vacate {frames : List (Frame V)} (taken : List Nat) (frame : Frame V)
    (hlength : frames.length = n) :
    (Engine.vacate taken ((frames ++ [frame]).map slot)).take n =
      (vacate taken frames).map slot := by
  rw [← map_slot_vacate, vacate, List.mapIdx_append, List.map_append]
  exact List.take_left' (by simpa using hlength)

end Frame

/-- The token that is looked at is fetched without the stacks. -/
theorem Engine.sameStacks_of_fetch {answer : Except LexError Token} {fetched : Config V C}
    (hfetch : c.fetch = (answer, fetched)) : c.SameStacks fetched := by
  have hsame : c.SameStacks c.fetch.2 := by
    unfold Config.fetch Config.nextToken
    repeat' split
    all_goals exact ⟨rfl, rfl, rfl⟩
  rwa [hfetch] at hsame

namespace Config.Stacked

/-! ## Levels -/

theorem start (source : List (Except LexError Token)) (context : C) :
    ({ source, context } : Config V C).Stacked [] :=
  ⟨rfl, rfl, rfl⟩

/-- The levels are told by the stacks. -/
theorem unique (h : c.Stacked stack) (hother : c.Stacked other) : stack = other := by
  have hstates := List.append_cancel_right (h.states.symm.trans hother.states)
  have hsymbols := List.append_cancel_right (h.symbols.symm.trans hother.symbols)
  have hslots := List.append_cancel_right (h.values.symm.trans hother.values)
  clear h hother
  induction stack generalizing other with
  | nil => exact (List.map_eq_nil_iff.mp hstates.symm).symm
  | cons frame stack ih =>
      cases other with
      | nil => cases hstates
      | cons frame' other =>
          obtain ⟨hstate, hstates⟩ := List.cons.inj hstates
          obtain ⟨hsymbol, hsymbols⟩ := List.cons.inj hsymbols
          obtain ⟨hslot, hslots⟩ := List.cons.inj hslots
          rw [Frame.ext hstate hsymbol hslot, ih hstates hsymbols hslots]

theorem state_eq (h : c.Stacked stack) : c.state = topState stack := by
  rw [state, h.states]
  cases stack <;> rfl

theorem stackSymbols_eq (h : c.Stacked stack) : c.stackSymbols = symbolsOf stack := by
  rw [stackSymbols, h.symbols, symbolsOf]
  simp

theorem length_states (h : c.Stacked stack) : c.states.length = stack.length + 1 := by
  rw [h.states, List.length_append, List.length_map, List.length_singleton]

theorem length_values (h : c.Stacked stack) : c.values.length = stack.length + 1 := by
  rw [h.values, List.length_append, List.length_map, List.length_singleton]

/-- Without levels there is only the bottom. -/
theorem low (h : c.Stacked []) : c.states.length ≤ 1 :=
  Nat.le_of_eq h.length_states

/-- A level stands above the bottom. -/
theorem high (h : c.Stacked (frame :: stack)) : 1 < c.states.length := by
  rw [h.length_states]
  exact Nat.succ_lt_succ (Nat.succ_pos _)

theorem push (h : c.Stacked stack) (state : Nat) (symbol : Symbol) (value : Slot V) :
    (c.push state symbol value).Stacked (⟨state, symbol, value⟩ :: stack) where
  states := congrArg (state :: ·) h.states
  symbols := congrArg (symbol :: ·) h.symbols
  values := congrArg (value :: ·) h.values

/-- Only the three stacks matter. -/
theorem congr {c' : Config V C} (h : c.Stacked stack) (hsame : c.SameStacks c') :
    c'.Stacked stack :=
  ⟨hsame.states.trans h.states, hsame.symbols.trans h.symbols, hsame.values.trans h.values⟩

theorem acted (h : c.Stacked stack) (after : Reducing V C) : (c.acted after).Stacked stack :=
  h.congr ⟨rfl, rfl, rfl⟩

theorem looking (h : c.Stacked stack) (token : Token) :
    ({ c with lookahead := some token } : Config V C).Stacked stack :=
  h.congr ⟨rfl, rfl, rfl⟩

/-- The bottoms cannot be taken off. -/
theorem pop (h : c.Stacked stack) (hne : stack ≠ []) : c.pop.Stacked stack.tail := by
  obtain ⟨top, below, rfl⟩ := List.exists_cons_of_ne_nil hne
  exact ⟨congrArg List.tail h.states, congrArg List.tail h.symbols, congrArg List.tail h.values⟩

/-! ## Right sides -/

theorem rightSide_eq (h : c.Stacked stack) (hle : n ≤ stack.length) :
    c.rightSide n = { slots := (stack.take n).reverse.map Frame.slot } := by
  rw [rightSide, base, h.length_values, h.values, splitOff_levels _ _ hle]

theorem rightSymbols_eq (h : c.Stacked stack) (hle : n ≤ stack.length) :
    c.rightSymbols n = symbolsOf (stack.take n) := by
  rw [rightSymbols, base, h.length_values, h.symbols, splitOff_levels _ _ hle]
  rfl

/-- The states of a right side, its symbols and its values are those of the topmost levels. -/
theorem cut (h : c.Stacked stack) (hle : n ≤ stack.length) :
    ((c.cut n).truncate n).Stacked (stack.drop n) := by
  refine ⟨?_, ?_, ?_⟩
  · show c.states.drop n = _
    rw [h.states, drop_levels _ _ hle]
  · show (splitOff c.symbols (c.base n)).2 = _
    rw [base, h.length_values, h.symbols, splitOff_levels _ _ hle]
  · show (splitOff c.values (c.base n)).2 = _
    rw [base, h.length_values, h.values, splitOff_levels _ _ hle]

/-- A complaint about an empty right side gives up the topmost level. -/
theorem giveUp_zero (h : c.Stacked stack) (after : Reducing V C) (symbols : List Symbol)
    (values : List (Slot V)) :
    (Engine.giveUp ((c.cut 0).acted after) 0 symbols values).Stacked stack.tail := by
  have hkept : ((c.cut 0).acted after).Stacked stack := (h.cut (Nat.zero_le _)).acted after
  rw [Engine.giveUp, if_neg (Nat.lt_irrefl 0), hkept.length_states]
  cases stack with
  | nil => exact hkept
  | cons top below => exact hkept.pop (List.cons_ne_nil _ _)

/-- A complaint about another right side puts back all of it but its last symbol. -/
theorem giveUp_succ {top : Frame V} {below : List (Frame V)} (h : c.Stacked (top :: below))
    (hle : n ≤ below.length) (after : Reducing V C) (taken : List Nat) :
    (Engine.giveUp ((c.cut (n + 1)).acted after) (n + 1) (c.rightSymbols (n + 1))
        (Engine.vacate taken (c.rightSide (n + 1)).slots)).Stacked
      ((Frame.vacate taken (below.take n).reverse).reverse ++ below.drop n) := by
  have hlength : (below.take n).reverse.length = n := by
    rw [List.length_reverse, List.length_take_of_le hle]
  have hright : n + 1 ≤ (top :: below).length := Nat.succ_le_succ hle
  have hcut := h.cut hright
  have hsplit : ((top :: below).take (n + 1)).reverse = (below.take n).reverse ++ [top] :=
    List.reverse_cons
  have hvacated := Frame.vacated_vacate taken (below.take n).reverse
  rw [Engine.giveUp, if_pos (Nat.succ_pos n), h.rightSymbols_eq hright, h.rightSide_eq hright,
    symbolsOf, hsplit]
  refine ⟨?_, ?_, ?_⟩
  · show c.states.tail = _
    rw [h.states, List.map_append, List.map_reverse, Frame.Vacated.map_state_eq hvacated,
      ← List.map_reverse, List.reverse_reverse, ← List.map_append, List.take_append_drop]
    rfl
  · show ((List.map Frame.symbol _).take n).reverse ++ (c.cut (n + 1)).symbols = _
    rw [List.map_append, List.take_left' (by rwa [List.length_map]),
      ← Frame.Vacated.map_symbol_eq hvacated, ← List.map_reverse, List.map_append,
      List.append_assoc]
    exact congrArg _ hcut.symbols
  · show ((Engine.vacate taken (List.map Frame.slot _)).take n).reverse ++
      (c.cut (n + 1)).values = _
    rw [Frame.take_vacate taken top hlength, ← List.map_reverse, List.map_append,
      List.append_assoc]
    exact congrArg _ hcut.values

/-- After a complaint the topmost level is gone, whether it belongs to the right side or not, and
values may be gone from the levels below. -/
theorem giveUp (h : c.Stacked stack) (hle : n ≤ stack.length) (after : Reducing V C)
    (taken : List Nat) : ∃ left, List.Forall₂ Frame.Vacated stack.tail left ∧
      (Engine.giveUp ((c.cut n).acted after) n (c.rightSymbols n)
        (Engine.vacate taken (c.rightSide n).slots)).Stacked left := by
  cases n with
  | zero => exact ⟨_, Frame.Vacated.refl_all _, h.giveUp_zero after _ _⟩
  | succ n =>
      obtain ⟨top, below, rfl⟩ := List.exists_cons_of_ne_nil
        (List.ne_nil_of_length_pos (Nat.zero_lt_of_lt hle))
      refine ⟨_, ?_, h.giveUp_succ (Nat.le_of_succ_le_succ hle) after taken⟩
      have hfront := List.rel_reverse (Frame.vacated_vacate taken (below.take n).reverse)
      rw [List.reverse_reverse] at hfront
      have hall := List.rel_append hfront (Frame.Vacated.refl_all (below.drop n))
      dsimp only at hall
      rwa [List.take_append_drop] at hall

/-! ## Steps -/

theorem fetch (h : c.Stacked stack) {answer : Except LexError Token} {fetched : Config V C}
    (hfetch : c.fetch = (answer, fetched)) : fetched.Stacked stack :=
  h.congr (Engine.sameStacks_of_fetch hfetch)

theorem shift (h : c.Stacked stack) (token : Token) (next : Nat) :
    (Engine.shift c token next).config.Stacked (⟨next, token.kind, .token token⟩ :: stack) := by
  have hkept : ({ c with errorCount := c.errorCount - 1 } : Config V C).Stacked stack :=
    h.congr ⟨rfl, rfl, rfl⟩
  exact hkept.push next token.kind (.token token)

/-- Unwinding gives up the topmost level or leaves the stacks as they are. -/
theorem unwind (h : c.Stacked stack) (token : Token) :
    (Engine.unwind c token).config.Stacked stack ∨
      (Engine.unwind c token).config.Stacked stack.tail := by
  have hkept : ∀ lookahead pushback,
      ({ c with lookahead, pushback } : Config V C).Stacked stack := fun _ _ =>
    h.congr ⟨rfl, rfl, rfl⟩
  unfold Engine.unwind
  split
  · exact Or.inl (hkept _ _)
  · rename_i hhigh
    split
    · exact Or.inl h
    · rename_i hplain
      split
      · -- something is above the bottoms
        rw [h.length_states] at hhigh
        have hne : stack ≠ [] := by
          rintro rfl
          exact hhigh ⟨Nat.le_refl _, by simpa using hplain⟩
        exact Or.inr ((h.looking token).pop hne)
      · split
        · exact Or.inl h
        · exact Or.inl (hkept _ _)

/-- So does all the dealing with an error. -/
theorem error (h : c.Stacked stack) (m : Machine V C) (token : Token) :
    (Engine.error m c token).config.Stacked stack ∨
      (Engine.error m c token).config.Stacked stack.tail := by
  have hkept : ∀ errorCount errorOk lookahead context,
      ({ c with errorCount, errorOk, lookahead, context } : Config V C).Stacked stack :=
    fun _ _ _ _ => h.congr ⟨rfl, rfl, rfl⟩
  unfold Engine.error
  dsimp only
  split
  · split
    · unfold Engine.answered
      dsimp only [Engine.after]
      split
      · split
        · exact Or.inl (hkept _ _ _ _)
        · exact Or.inl (hkept _ _ _ _)
      · exact (hkept _ _ _ _).unwind token
    · dsimp only [Engine.after]
      split
      · exact Or.inl (hkept _ _ _ _)
      · exact (hkept _ _ _ _).unwind token
  · exact (hkept _ _ _ _).unwind token

end Config.Stacked

end ShiftReduce
