import ShiftReduce.Pattern.Basic

/-!
# What patterns match

A match is the text before the preferred end. Duplicates are left out of the places where a match
can end, which does not change the preferred one; `head?_distinct` says so. A pattern that is tied
to the beginning of a text is matched there or nowhere, and a greedy repetition of a class takes the
longest run of its characters: see `find?_anchored` and `exists_ends_run`.
-/

namespace ShiftReduce

variable {cls : CharClass} {first second body : Pattern} {before : Option Char} {c : Char}
  {rest run : List Char} {p q : Place} {places : List Place}

namespace Matcher

theorem head?_emit (hne : places ≠ []) : (emit places p).head? = places.head? := by
  unfold emit
  split
  · rfl
  · obtain ⟨first, rest, rfl⟩ := List.exists_cons_of_ne_nil hne
    rfl

theorem emit_ne_nil : emit places p ≠ [] := by
  unfold emit
  split
  · rename_i hany
    intro hnil
    simp [hnil] at hany
  · simp

/-- Leaving out duplicates keeps the preferred place. -/
theorem head?_distinct (places : List Place) : (distinct places).head? = places.head? := by
  have hkeeps : ∀ (more found : List Place), found ≠ [] →
      (more.foldl emit found).head? = found.head? := by
    intro more
    induction more with
    | nil => exact fun _ _ => rfl
    | cons p more ih =>
        intro found hne
        rw [List.foldl_cons, ih _ emit_ne_nil, head?_emit hne]
  cases places with
  | nil => rfl
  | cons p places => exact hkeeps places [p] (by simp)

end Matcher

namespace Pattern

theorem ends_one (cls : CharClass) (before : Option Char) (text : List Char) :
    (Pattern.one cls).ends ⟨before, text⟩ =
      match text with
      | [] => []
      | c :: rest => if cls.holds c then [⟨some c, rest⟩] else [] := rfl

/-- A class that holds the next character passes over it. -/
theorem ends_one_of_holds (h : cls.holds c = true) :
    (Pattern.one cls).ends ⟨before, c :: rest⟩ = [⟨some c, rest⟩] := by
  rw [ends_one]
  exact if_pos h

/-- Where the first pattern can end at one place only, the second goes on from there. -/
theorem head?_ends_seq (h : first.ends p = [q]) :
    ((Pattern.seq first second).ends p).head? = (second.ends q).head? := by
  show (Matcher.distinct ((first.ends p).flatMap second.ends)).head? = _
  rw [Matcher.head?_distinct, h, List.flatMap_singleton]

/-- Where the first pattern does not match, the sequence does not. -/
theorem ends_seq_of_nil (h : first.ends p = []) : (Pattern.seq first second).ends p = [] := by
  show Matcher.distinct ((first.ends p).flatMap second.ends) = []
  rw [h]
  rfl

/-- A class matches one character that it holds. -/
theorem head?_ends_one {text : List Char} :
    ((Pattern.one cls).ends ⟨before, text⟩).head? = some p ↔
      ∃ c rest, text = c :: rest ∧ cls.holds c = true ∧ p = ⟨some c, rest⟩ := by
  rw [ends_one]
  constructor
  · intro h
    cases text with
    | nil => cases h
    | cons c rest =>
        dsimp only at h
        split at h
        · rename_i hc
          exact ⟨c, rest, rfl, hc, (Option.some.inj h).symm⟩
        · cases h
  · rintro ⟨c, rest, rfl, hc, rfl⟩
    dsimp only
    rw [if_pos hc, List.head?_cons]

/-- A sequence that begins with a class goes on behind a character that the class holds. -/
theorem head?_ends_seq_one {text : List Char} :
    ((Pattern.seq (.one cls) second).ends ⟨before, text⟩).head? = some p ↔
      ∃ c rest, text = c :: rest ∧ cls.holds c = true ∧
        (second.ends ⟨some c, rest⟩).head? = some p := by
  constructor
  · intro h
    cases hfirst : ((Pattern.one cls).ends ⟨before, text⟩).head? with
    | none =>
        rw [ends_seq_of_nil (List.head?_eq_none_iff.mp hfirst)] at h
        cases h
    | some q =>
        obtain ⟨c, rest, rfl, hc, rfl⟩ := head?_ends_one.mp hfirst
        rw [head?_ends_seq (ends_one_of_holds hc)] at h
        exact ⟨c, rest, rfl, hc, h⟩
  · rintro ⟨c, rest, rfl, hc, h⟩
    rwa [head?_ends_seq (ends_one_of_holds hc)]

/-- The class of one character holds that character alone. -/
theorem holds_single {d : Char} : (CharClass.single c).holds d = true ↔ d = c := by
  rw [← Char.toNat_inj]
  simp only [CharClass.holds, CharClass.single, ClassPart.holds, List.any_cons, List.any_nil,
    Bool.or_false, Bool.bne_false, Bool.and_eq_true, decide_eq_true_eq]
  omega

/-- The first branch that matches is preferred. -/
theorem head?_ends_alt : ((Pattern.alt first second).ends p).head? =
    (first.ends p).head?.or (second.ends p).head? := by
  show (Matcher.distinct (first.ends p ++ second.ends p)).head? = _
  rw [Matcher.head?_distinct, List.head?_append]

/-- A pattern that is tied to the beginning matches there or nowhere. -/
theorem find?_anchored (body : Pattern) (c : Char) (rest : List Char) :
    (Pattern.seq (.anchor .textStart) body).find? (c :: rest) =
      (body.ends ⟨none, c :: rest⟩).head?.map
        fun p => (c :: rest).take (rest.length + 1 - p.left) := by
  have hnowhere : ∀ (text : List Char) (c : Char),
      (Pattern.seq (.anchor .textStart) body).findFrom (some c) text = none := by
    intro text
    induction text with
    | nil =>
        intro c
        rw [findFrom, ends_seq_of_nil rfl]
        rfl
    | cons d rest ih =>
        intro c
        rw [findFrom, ends_seq_of_nil rfl]
        exact ih d
  rw [find?, findFrom, head?_ends_seq (q := ⟨none, c :: rest⟩) rfl]
  cases (body.ends ⟨none, c :: rest⟩).head? with
  | none => exact hnowhere rest c
  | some p => rfl

/-! ## Runs of a class -/

/-- Rounds of a class find the places behind the characters of a run, the last one first. -/
theorem head?_rounds_run (hrun : ∀ c ∈ run, cls.holds c = true)
    (hstop : ∀ c ∈ rest.head?, cls.holds c = false) {fuel : Nat} (hfuel : run.length < fuel)
    (before : Option Char) {begun : List Nat} (hbegun : ∀ n ∈ begun, run.length + rest.length < n) :
    (Matcher.rounds true (Pattern.one cls).ends fuel (begun, []) ⟨before, run ++ rest⟩).2.head? =
      run.getLast?.map fun c => ⟨some c, rest⟩ := by
  induction run generalizing fuel before begun with
  | nil =>
      obtain ⟨fuel, rfl⟩ := Nat.exists_eq_succ_of_ne_zero (Nat.ne_zero_of_lt hfuel)
      have hnone : (Pattern.one cls).ends ⟨before, rest⟩ = [] := by
        rw [ends_one]
        cases rest with
        | nil => rfl
        | cons c rest => exact if_neg (by simp [hstop c rfl])
      rw [List.nil_append, Matcher.rounds, hnone]
      rfl
  | cons c run ih =>
      obtain ⟨fuel, rfl⟩ := Nat.exists_eq_succ_of_ne_zero (Nat.ne_zero_of_lt hfuel)
      obtain ⟨hc, hrun⟩ := List.forall_mem_cons.mp hrun
      rw [List.length_cons] at hfuel hbegun
      -- no round was begun so far behind in the text
      have hfresh : ∀ n ∈ (⟨before, c :: run ++ rest⟩ : Place).left :: begun,
          run.length + rest.length < n := by
        refine List.forall_mem_cons.mpr ⟨?_, fun n hn => by have := hbegun n hn; omega⟩
        simp only [Place.left, List.cons_append, List.length_cons, List.length_append]
        omega
      have hnew : (⟨some c, run ++ rest⟩ : Place).left ∉
          (⟨before, c :: run ++ rest⟩ : Place).left :: begun := by
        intro hmem
        have := hfresh _ hmem
        simp only [Place.left, List.length_append] at this
        omega
      have hlater := ih hrun (Nat.lt_of_succ_lt_succ hfuel) (some c) hfresh
      rw [Matcher.rounds, List.cons_append, ends_one_of_holds hc]
      simp only [List.foldl_cons, List.foldl_nil, if_true, List.cons_append] at hnew hlater ⊢
      rw [if_neg hnew]
      generalize Matcher.rounds true (Pattern.one cls).ends fuel _ _ = acc at hlater ⊢
      cases run with
      | nil =>
          rw [List.getLast?_nil, Option.map_none, List.head?_eq_none_iff] at hlater
          rw [hlater]
          rfl
      | cons d run =>
          have hne : acc.2 ≠ [] := by
            intro hnil
            rw [hnil, List.getLast?_cons] at hlater
            cases hlater
          rw [Matcher.head?_emit hne, hlater, List.getLast?_cons_cons]

/-- A greedy repetition of a class takes the longest run. -/
theorem exists_ends_run (hrun : ∀ c ∈ run, cls.holds c = true)
    (hstop : ∀ c ∈ rest.head?, cls.holds c = false) (before : Option Char) :
    ∃ q, ((Pattern.times (.one cls) 0 none true).ends ⟨before, run ++ rest⟩).head? = some q ∧
      q.rest = rest := by
  have hfuel : run.length < (⟨before, run ++ rest⟩ : Place).left + 1 := by
    simp only [Place.left, List.length_append]
    omega
  have hrounds := head?_rounds_run hrun hstop hfuel before
    (fun _ hmem => absurd hmem List.not_mem_nil)
  have hends : ((Pattern.times (.one cls) 0 none true).ends ⟨before, run ++ rest⟩).head? =
      (run.getLast?.map fun c => ⟨some c, rest⟩).or (some ⟨before, run ++ rest⟩) := by
    rw [← hrounds]
    show (Matcher.distinct (_ ++ _)).head? = _
    rw [Matcher.head?_distinct, List.head?_append]
    rfl
  rw [hends]
  cases hlast : run.getLast? with
  | none =>
      obtain rfl := List.getLast?_eq_none_iff.mp hlast
      exact ⟨_, rfl, rfl⟩
  | some c => exact ⟨⟨some c, rest⟩, rfl, rfl⟩

end Pattern

end ShiftReduce
