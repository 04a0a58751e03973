import Mathlib.Data.List.DropRight
import ShiftReduce.Text.Word

/-!
# Lines of spaced words

A line holds words with spaces and tabs around them. Its ends can be trimmed without touching a
word, and where every word is followed by a blank, its words are found again. Lines between line
feeds are the lines of a text, but for an empty last one. Read `Spaced` first.
-/

namespace ShiftReduce.Text

variable {cs front back line current rest before word : List Char} {words : List (List Char)}
  {follows : List Char → Char → Prop} {c : Char}

/-- Characters that are all spaces or tabs. -/
def Padding (cs : List Char) : Prop :=
  ∀ c ∈ cs, c = ' ' ∨ c = '\t'

/-- A line that holds words in order, with spaces and tabs around them. What stands right behind a
word must be able to follow it. -/
inductive Spaced (follows : List Char → Char → Prop) : List (List Char) → List Char → Prop
  | nil {after : List Char} : Padding after → Spaced follows [] after
  | cons {before word rest : List Char} {words : List (List Char)} :
      Padding before → (∀ c ∈ rest.head?, follows word c) → Spaced follows words rest →
      Spaced follows (word :: words) (before ++ word ++ rest)

/-- A word that neither begins nor ends with a blank. -/
def Firm (word : List Char) : Prop :=
  (∃ c ∈ word.head?, isBlank c = false) ∧ ∃ c ∈ word.getLast?, isBlank c = false

/-- A word without blanks. -/
def Solid (word : List Char) : Prop :=
  word ≠ [] ∧ ∀ c ∈ word, isBlank c = false

theorem solid_of_all (h : (!word.isEmpty && word.all fun c => !isBlank c) = true) : Solid word := by
  rw [Bool.and_eq_true, List.all_eq_true] at h
  exact ⟨by simpa using h.1, fun c hmem => by simpa using h.2 c hmem⟩

theorem Solid.firm (h : Solid word) : Firm word :=
  ⟨⟨word.head h.1, List.head?_eq_some_head h.1, h.2 _ (List.head_mem h.1)⟩,
    word.getLast h.1, List.getLast?_eq_some_getLast h.1, h.2 _ (List.getLast_mem h.1)⟩

theorem Padding.blank (h : Padding cs) : ∀ c ∈ cs, isBlank c = true := by
  intro c hmem
  rcases h c hmem with rfl | rfl <;> decide +kernel

/-- Words with a space before each. -/
theorem Spaced.of_words (hspace : ∀ word, follows word ' ') (words : List (List Char)) :
    Spaced follows words (words.flatMap (' ' :: ·)) := by
  induction words with
  | nil => exact .nil (by simp [Padding])
  | cons word words ih =>
      have hbefore : Padding [' '] := by simp [Padding]
      refine .cons hbefore (fun c hc => ?_) ih
      cases words with
      | nil => cases hc
      | cons next words =>
          obtain rfl : ' ' = c := Option.some.inj hc
          exact hspace word

/-! ## Trimming -/

/-- A text without the blanks at both ends, as characters. -/
abbrev trimChars (cs : List Char) : List Char :=
  trimEndChars (cs.dropWhile isBlank)

theorem trim_ofList (cs : List Char) : trim (String.ofList cs) = String.ofList (trimChars cs) := by
  rw [trim, String.toList_ofList]

/-- Blanks at the end are trimmed. -/
theorem trimEndChars_append (h : ∀ c ∈ back, isBlank c = true) :
    trimEndChars (front ++ back) = trimEndChars front := by
  rw [trimEndChars, trimEndChars, List.reverse_append,
    List.dropWhile_append_of_pos fun c hmem => h c (List.mem_reverse.mp hmem)]

/-- What ends with no blank is not trimmed. -/
theorem trimEndChars_eq_self (h : ∀ c ∈ cs.getLast?, isBlank c = false) : trimEndChars cs = cs := by
  rw [trimEndChars]
  cases hreverse : cs.reverse with
  | nil => rw [List.reverse_eq_nil_iff.mp hreverse]; rfl
  | cons c rest =>
      have hlast : isBlank c = false := h c (by rw [List.getLast?_eq_head?_reverse, hreverse]; rfl)
      rw [List.dropWhile_cons_of_neg (by simp [hlast]), ← hreverse, List.reverse_reverse]

/-- What begins with no blank still does so without the blanks at its end. -/
theorem trimEndChars_cons (h : isBlank c = false) :
    trimEndChars (c :: cs) = c :: trimEndChars cs := by
  rw [trimEndChars, trimEndChars, List.reverse_cons, List.dropWhile_append]
  split
  · rename_i hempty
    rw [List.dropWhile_cons_of_neg (by simp [h]), List.isEmpty_iff.mp hempty]
    rfl
  · rw [List.reverse_append]
    rfl

/-- One more blank at the end makes no difference. -/
theorem trimChars_concat (h : isBlank c = true) : trimChars (cs ++ [c]) = trimChars cs := by
  rw [trimChars, List.dropWhile_append]
  split
  · rename_i hempty
    rw [List.dropWhile_cons_of_pos h, trimChars, List.isEmpty_iff.mp hempty]
    rfl
  · exact trimEndChars_append (by simpa using h)

/-- Blanks behind the last word can be cut off. -/
theorem Spaced.exists_split (h : Spaced follows words line) (hfirm : ∀ word ∈ words, Firm word) :
    ∃ front back, line = front ++ back ∧ Padding back ∧ Spaced follows words front ∧
      ∀ c ∈ front.getLast?, isBlank c = false := by
  induction h with
  | nil hafter => exact ⟨[], _, rfl, hafter, .nil (by simp [Padding]), by simp⟩
  | @cons before word rest words hbefore hfollows _ ih =>
      obtain ⟨front, back, rfl, hback, hspaced, hlast⟩ :=
        ih fun other hmem => hfirm other (List.mem_cons_of_mem _ hmem)
      obtain ⟨d, hd, hfirmEnd⟩ := (hfirm word List.mem_cons_self).2
      refine ⟨before ++ word ++ front, back, (List.append_assoc _ _ _).symm, hback,
        .cons hbefore (fun c hc => hfollows c ?_) hspaced, ?_⟩
      · rw [List.head?_append, Option.mem_def.mp hc]
        rfl
      · intro c hc
        rw [List.getLast?_append, List.getLast?_append, Option.mem_def.mp hd, Option.some_or] at hc
        cases hfront : front.getLast? with
        | none =>
            rw [hfront, Option.none_or, Option.mem_some_iff] at hc
            rwa [← hc]
        | some other =>
            rw [hfront, Option.some_or] at hc
            exact hlast c (by rw [hfront]; exact hc)

/-- A line feed in a line is one in a word. -/
theorem Spaced.no_feed (h : Spaced follows words line) (hwords : ∀ word ∈ words, '\n' ∉ word) :
    '\n' ∉ line := by
  have hpadding : ∀ cs, Padding cs → '\n' ∉ cs := fun cs hcs hmem =>
    (hcs _ hmem).elim (by decide) (by decide)
  induction h with
  | nil hafter => exact hpadding _ hafter
  | cons hbefore _ _ ih =>
      simp only [List.mem_append, not_or]
      exact ⟨⟨hpadding _ hbefore, hwords _ List.mem_cons_self⟩,
        ih fun other hmem => hwords other (List.mem_cons_of_mem _ hmem)⟩

/-- A trimmed line begins with its first word, and holds the others as before. -/
theorem Spaced.exists_trim (h : Spaced follows (word :: words) line)
    (hfirm : ∀ other ∈ word :: words, Firm other) :
    ∃ rest, trim (String.ofList line) = String.ofList (word ++ rest) ∧
      (∀ c ∈ rest.head?, follows word c) ∧ Spaced follows words rest := by
  obtain ⟨front, back, rfl, hback, hspaced, hlast⟩ := h.exists_split hfirm
  cases hspaced with
  | @cons before _ rest _ hbefore hfollows hspaced =>
      refine ⟨rest, ?_, hfollows, hspaced⟩
      obtain ⟨⟨d, hd, hfirst⟩, _⟩ := hfirm word List.mem_cons_self
      obtain ⟨tail, rfl⟩ : ∃ tail, word = d :: tail := by
        cases word with
        | nil => cases hd
        | cons c tail => exact ⟨tail, by rw [Option.some.inj hd]⟩
      have hdrop : (before ++ (d :: tail) ++ rest ++ back).dropWhile isBlank =
          d :: tail ++ rest ++ back := by
        rw [List.append_assoc, List.append_assoc, List.dropWhile_append_of_pos hbefore.blank,
          List.cons_append, List.dropWhile_cons_of_neg (by simp [hfirst]), List.append_assoc]
        rfl
      rw [trim_ofList, trimChars, hdrop, trimEndChars_append hback.blank, trimEndChars_eq_self]
      intro c hc
      refine hlast c ?_
      rw [List.append_assoc, List.getLast?_append, Option.mem_def.mp hc]
      rfl

/-! ## Words -/

/-- Blanks before a word are passed over. -/
theorem wordsAfter_padding (h : Padding cs) : wordsAfter [] (cs ++ rest) = wordsAfter [] rest := by
  induction cs with
  | nil => rfl
  | cons c cs ih =>
      rw [List.cons_append, wordsAfter, if_pos (h.blank c List.mem_cons_self)]
      exact ih fun d hmem => h d (List.mem_cons_of_mem _ hmem)

/-- A word is gathered up to the next blank. -/
theorem wordsAfter_word (hword : ∀ c ∈ word, isBlank c = false)
    (hrest : ∀ c ∈ rest.head?, isBlank c = true) (hne : current ++ word ≠ []) :
    wordsAfter current (word ++ rest) = (current.reverse ++ word) :: wordsAfter [] rest := by
  induction word generalizing current with
  | nil =>
      obtain ⟨last, current, rfl⟩ := List.exists_cons_of_ne_nil (by simpa using hne)
      cases rest with
      | nil => simp [wordsAfter]
      | cons c rest =>
          have hblank := hrest c rfl
          rw [List.nil_append, wordsAfter, if_pos hblank, wordsAfter, if_pos hblank,
            List.append_nil]
          simp
  | cons c word ih =>
      have hc : ¬ isBlank c = true := by simp [hword c List.mem_cons_self]
      have hothers : ∀ d ∈ word, isBlank d = false :=
        fun d hmem => hword d (List.mem_cons_of_mem _ hmem)
      have hstep : wordsAfter current (c :: word ++ rest) =
          wordsAfter (c :: current) (word ++ rest) := by
        cases current with
        | nil => rw [List.cons_append, wordsAfter, if_neg hc]
        | cons last current => rw [List.cons_append, wordsAfter, if_neg hc]; simp
      rw [hstep, ih hothers (by simp), List.reverse_cons, List.append_assoc]
      rfl

/-- The words of a line that keeps them apart by blanks. -/
theorem Spaced.wordsAfter_eq (h : Spaced (fun _ c => c = ' ' ∨ c = '\t') words line)
    (hwords : ∀ word ∈ words, Solid word) : wordsAfter [] line = words := by
  induction h with
  | @nil after hafter =>
      rw [← List.append_nil after, wordsAfter_padding hafter]
      rfl
  | @cons before word rest words hbefore hfollows _ ih =>
      obtain ⟨hne, hword⟩ := hwords word List.mem_cons_self
      have hblank : ∀ c ∈ rest.head?, isBlank c = true := by
        intro c hc
        rcases hfollows c hc with rfl | rfl <;> decide +kernel
      rw [List.append_assoc, wordsAfter_padding hbefore, wordsAfter_word hword hblank (by simpa),
        ih fun other hmem => hwords other (List.mem_cons_of_mem _ hmem)]
      rfl

/-! ## Lines -/

/-- A character that is no line feed belongs to the line. -/
theorem linesAfter_cons (h : c ≠ '\n') :
    linesAfter current (c :: rest) = linesAfter (c :: current) rest := by
  cases current <;> exact if_neg h

/-- A line feed ends the line, but for a carriage return at its end, which is a blank. -/
theorem exists_linesAfter_feed (current rest : List Char) :
    ∃ line, linesAfter current ('\n' :: rest) = line :: linesAfter [] rest ∧
      trimChars line = trimChars current.reverse := by
  cases current with
  | nil => exact ⟨[], rfl, rfl⟩
  | cons last current =>
      by_cases hreturn : last = '\r'
      · subst hreturn
        refine ⟨current.reverse, rfl, ?_⟩
        rw [List.reverse_cons, trimChars_concat (by decide +kernel)]
      · refine ⟨(last :: current).reverse, (if_pos rfl).trans ?_, rfl⟩
        split
        · rename_i hsame
          exact absurd (List.head_eq_of_cons_eq hsame) hreturn
        · rfl

/-- Lines between line feeds are found, up to trimming. -/
theorem linesAfter_line (h : '\n' ∉ line) :
    (linesAfter current (line ++ '\n' :: rest)).map trimChars =
      trimChars (current.reverse ++ line) :: (linesAfter [] rest).map trimChars := by
  induction line generalizing current with
  | nil =>
      obtain ⟨line, hline, htrim⟩ := exists_linesAfter_feed current rest
      rw [List.nil_append, hline, List.append_nil, List.map_cons, htrim]
  | cons c line ih =>
      obtain ⟨hc, hline⟩ : '\n' ≠ c ∧ '\n' ∉ line := by simpa using h
      rw [List.cons_append, linesAfter_cons hc.symm, ih hline, List.reverse_cons,
        List.append_assoc]
      rfl

/-- A last line without a line feed. -/
theorem linesAfter_last (h : '\n' ∉ line) (hne : current ++ line ≠ []) :
    linesAfter current line = [current.reverse ++ line] := by
  induction line generalizing current with
  | nil =>
      obtain ⟨last, current, rfl⟩ := List.exists_cons_of_ne_nil (by simpa using hne)
      simp [linesAfter]
  | cons c line ih =>
      obtain ⟨hc, hline⟩ : '\n' ≠ c ∧ '\n' ∉ line := by simpa using h
      rw [linesAfter_cons hc.symm, ih hline (by simp), List.reverse_cons, List.append_assoc]
      rfl

/-- The trimmed lines of a text are the trimmed lines of which it was made, except for an empty last
one. -/
theorem exists_trim_lines {lines : List (List Char)} (h : ∀ line ∈ lines, '\n' ∉ line) :
    ∃ lost, (Text.lines (String.ofList (['\n'].intercalate lines))).map trim ++ lost =
        lines.map (fun line => trim (String.ofList line)) ∧ ∀ line ∈ lost, line = "" := by
  have hchars : ∃ lost : List (List Char),
      (linesAfter [] (['\n'].intercalate lines)).map trimChars ++ lost = lines.map trimChars ∧
        ∀ line ∈ lost, line = [] := by
    induction lines with
    | nil => exact ⟨[], rfl, by simp⟩
    | cons line lines ih =>
        have hline := h line List.mem_cons_self
        cases lines with
        | nil =>
            rw [List.intercalate_singleton]
            by_cases hnil : line = []
            · subst hnil
              exact ⟨[[]], rfl, by simp⟩
            · rw [linesAfter_last hline (by simpa)]
              exact ⟨[], rfl, by simp⟩
        | cons next lines =>
            obtain ⟨lost, hlost, hempty⟩ :=
              ih fun other hmem => h other (List.mem_cons_of_mem _ hmem)
            refine ⟨lost, ?_, hempty⟩
            rw [List.intercalate_cons_cons, List.append_assoc, List.singleton_append,
              linesAfter_line hline, List.cons_append, hlost]
            rfl
  obtain ⟨lost, hlost, hempty⟩ := hchars
  refine ⟨lost.map String.ofList, ?_, ?_⟩
  · simp only [Text.lines, String.toList_ofList, List.map_map, Function.comp_def, trim_ofList]
    rw [← Function.comp_def, ← List.map_map, ← List.map_append, hlost, List.map_map]
  · simp only [List.mem_map, forall_exists_index, and_imp, forall_apply_eq_imp_iff₂]
    intro line hmem
    rw [hempty line hmem]

end ShiftReduce.Text
