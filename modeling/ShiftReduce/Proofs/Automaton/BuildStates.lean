import ShiftReduce.Proofs.Automaton.Collection
import ShiftReduce.Proofs.Automaton.Memo

/-!
# The collection from a memo

The search for states asks one memo all its questions. What it finds is what it finds without a
memo, in the same order: states are distinct as sets, so the items in ascending order are those of
one state only, and what is kept under them was reached from this state itself. `Memo.Along` says
so of the memo on the way. The search can only stop short if there are more transitions than 32 bits
can count. Read `buildStates?_cases` first.
-/

namespace ShiftReduce.Automaton

open Grammar

variable {α : Type} {g : Grammar α} {memo after : Memo} {found more : Found}
  {current items answer : List Nat} {s : Symbol} {number fuel : Nat}

/-- A memo on the way through the states: what it keeps as reached was reached from a state that was
found, and is what is reached from it without a memo. -/
structure Memo.Along (g : Grammar α) (found : Found) (memo : Memo) : Prop
    extends Memo.Kept g memo where
  reached : ∀ {items result : List Nat} {s : Symbol}, memo.reached.get? (items, s) = some result →
    ∃ state ∈ found.states, items = Ascending.sort state ∧ result = goto g state s

/-- The number of entries in all rows. -/
def entryCount (rows : List (Registry Symbol Nat)) : Nat :=
  (rows.map Registry.size).sum

theorem entryCount_cons (row : List (Symbol × Nat)) (rows : List (Registry Symbol Nat)) :
    entryCount (⟨row⟩ :: rows) = row.length + entryCount rows := by
  rw [entryCount, List.map_cons, List.sum_cons]
  rfl

/-- The items of a state are in the arena. -/
theorem Listed.holdsItems (h : Listed g items) : g.holdsItems items = true :=
  holdsItems_iff.mpr fun id hid =>
    have ⟨_, hitem⟩ := h.inArena id hid
    (List.getElem?_eq_some_iff.mp hitem).1

namespace Memo.Along

/-- More states may be found on the way. -/
theorem of_prefix (h : memo.Along g found) (hmore : found.states <+: more.states) :
    memo.Along g more where
  toKept := h.toKept
  reached hresult := by
    obtain ⟨state, hstate, hitems, hgoto⟩ := h.reached hresult
    exact ⟨state, hmore.subset hstate, hitems, hgoto⟩

/-- From a state that was found the memo answers what is reached without a memo. -/
theorem reached_spec (h : memo.Along g found) (hfound : found.Proper g)
    (hcurrent : current ∈ found.states) (hreached : memo.Reached g current s answer after) :
    answer = goto g current s ∧ after.Along g found ∧
      after.generation.toNat ≤ memo.generation.toNat + 1 ∧
      (goto g current s = [] → after.generation = memo.generation) := by
  cases hreached with
  | again hresult =>
      obtain ⟨state, hstate, hitems, rfl⟩ := h.reached hresult
      have hdistinct := hfound.distinct
      rw [hfound.keys] at hdistinct
      obtain rfl : current = state :=
        (List.nodup_map_iff_inj_on hdistinct.of_map).mp hdistinct current hcurrent state hstate
          hitems
      exact ⟨rfl, h, Nat.le_succ _, fun _ => rfl⟩
  | first hkept hregistered hcount hnil =>
      refine ⟨rfl, ⟨hkept, fun hresult => ?_⟩, hcount, hnil⟩
      rw [hregistered] at hresult
      rcases Registry.get?_register_cases hresult with hold | ⟨hkey, rfl⟩
      · exact h.reached hold
      · obtain ⟨rfl, rfl⟩ := Prod.mk.inj hkey
        exact ⟨current, hcurrent, rfl, rfl⟩

/-- Reading symbols in a state with a memo finds what reading them without one finds, unless there
are too many entries to be counted. -/
theorem leave?_cases (h : g.Ready) (hmemo : memo.Along g found) (hfound : found.Proper g)
    (hcurrent : current ∈ found.states) (symbols : List Symbol) :
    (memo.leave? g current found symbols = none ∧ UInt32.size ≤
        memo.generation.toNat + (leave g current found symbols).2.length) ∨
      ∃ after, memo.leave? g current found symbols =
          some (after, leave g current found symbols) ∧
        after.Along g (leave g current found symbols).1 ∧ after.generation.toNat ≤
          memo.generation.toNat + (leave g current found symbols).2.length := by
  induction symbols generalizing memo found with
  | nil => exact Or.inr ⟨memo, rfl, hmemo, Nat.le_refl _⟩
  | cons s rest ih =>
      have hlisted := hfound.listed current hcurrent
      unfold Memo.leave? Automaton.leave
      rcases hmemo.goto?_of_held (s := s) h hlisted.holdsItems with
        ⟨hnone, hfull, hne⟩ | ⟨answer, next, hanswer, hreached⟩
      · rw [hnone]
        refine Or.inl ⟨rfl, ?_⟩
        unfold Memo.Full at hfull
        split
        · rename_i hnil
          exact absurd hnil hne
        · rw [List.length_cons]
          omega
      · obtain ⟨rfl, hnext, hcount, hsame⟩ := hmemo.reached_spec hfound hcurrent hreached
        rw [hanswer]
        cases hgoto : goto g current s with
        | nil =>
            rw [← hsame hgoto]
            exact ih hnext hfound hcurrent
        | cons first others =>
            obtain ⟨hproper, hgrown, _⟩ := locate_spec hfound (listed_goto h hlisted.nodup s)
            have hrest := ih (hnext.of_prefix hgrown) hproper (hgrown.subset hcurrent)
            rw [hgoto] at hrest
            dsimp only
            rw [List.length_cons]
            rcases hrest with ⟨hnone, hfull⟩ | ⟨after, hleft, hafter, hmore⟩
            · rw [hnone]
              exact Or.inl ⟨rfl, by omega⟩
            · rw [hleft]
              exact Or.inr ⟨after, rfl, hafter, by omega⟩

/-- Leaving the states with a memo finds what leaving them without one finds, unless there are too
many transitions to be counted. -/
theorem explore?_cases (h : g.Ready) (hmemo : memo.Along g found) (hfound : found.Proper g)
    (fuel number : Nat) :
    (memo.explore? g fuel number found = none ∧
        UInt32.size ≤ memo.generation.toNat + entryCount (explore g fuel number found).2) ∨
      memo.explore? g fuel number found = some (explore g fuel number found) := by
  induction fuel generalizing number memo found with
  | zero => exact Or.inr rfl
  | succ fuel ih =>
      unfold Memo.explore? Automaton.explore
      cases hcurrent : found.states[number]? with
      | none => exact Or.inr rfl
      | some current =>
          have hmem := List.mem_of_getElem? hcurrent
          have hleft :=
            left_leave h (hfound.listed current hmem).nodup hfound (symbolsOf g current)
          dsimp only
          rw [entryCount_cons]
          rcases leave?_cases h hmemo hfound hmem (symbolsOf g current) with
            ⟨hnone, hfull⟩ | ⟨next, hsome, hnext, hcount⟩
          · rw [hnone]
            exact Or.inl ⟨rfl, by omega⟩
          · rw [hsome]
            dsimp only
            rcases ih hnext hleft.proper (number + 1) with ⟨hnone, hfull⟩ | hrest
            · rw [hnone]
              exact Or.inl ⟨rfl, by omega⟩
            · rw [hrest]
              exact Or.inr rfl

end Memo.Along

/-- The search with a memo finds the states, unless there are too many transitions to be counted. -/
theorem buildStates?_cases (h : g.Ready) :
    (buildStates? g = none ∧ UInt32.size ≤ entryCount (states g).transitions + 1) ∨
      buildStates? g = some (states g) := by
  obtain ⟨zero, hzero, _⟩ := h.wellFormed.zero
  have hstart := h.firstItemOf?_eq hzero
  have hlisted := listed_closure_start h hstart
  have hroom : ¬ (Memo.new g).Full := Nat.not_le_of_lt (show 0 + 1 < UInt32.size by decide)
  have hheld : g.holdsItems [zero.range.first] = true :=
    (holdsItems_closure h).symm.trans hlisted.holdsItems
  obtain ⟨memo, hleads, hanswer⟩ := (Memo.kept_new g).closure?_eq h hroom [zero.range.first]
  rw [if_pos hheld] at hanswer
  have hempty : Found.Proper g {} := ⟨rfl, List.nodup_nil, by simp⟩
  have hmemo : memo.Along g (Found.locate {} (closure g [zero.range.first])).1 := by
    refine ⟨hleads.kept, fun hresult => ?_⟩
    rw [hleads.reached] at hresult
    cases hresult
  simp only [buildStates?, states, hstart, hanswer]
  have hcount : memo.generation.toNat ≤ 1 := hleads.generation_le
  rcases hmemo.explore?_cases h (locate_spec hempty hlisted).1
      (Nat.pow 2 g.items.length + 1) 0 with ⟨hnone, hfull⟩ | hsome
  · rw [hnone]
    exact Or.inl ⟨rfl, by omega⟩
  · rw [hsome]
    exact Or.inr rfl

end ShiftReduce.Automaton
