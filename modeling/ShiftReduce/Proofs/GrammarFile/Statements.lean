import ShiftReduce.Proofs.RuleText.Written

/-!
# The statements of a grammar file

Blank lines and comments make no statement, so a file is read by its other lines, whatever their
numbers are: a declaration at once, and a rule when the line behind its last one shows that it has
ended. `GrammarFile.Reads` says what reading such lines makes of a file, and has one lemma for each
kind of statement.
-/

namespace ShiftReduce

variable {pending : Option (Nat × String)} {numbered : List (Nat × String)}
  {lines filled : List (List Char)} {line body name : List Char} {args : List (List Char)}
  {file next result : GrammarFile} {rule : RuleDecl} {trimmed : List String}

/-- The trimmed lines of which a text was made. -/
abbrev trims (lines : List (List Char)) : List String :=
  lines.map fun line => Text.trim (String.ofList line)

/-! ## Lines that say nothing -/

/-- Whether a trimmed line makes no statement. -/
def isSilent (line : String) : Bool :=
  match line.toList with
  | [] => true
  | '#' :: _ => true
  | _ => false

/-- A silent line is passed over, wherever it stands. -/
theorem Statement.gather_silent {number : Nat} {line : String} (h : isSilent line = true) :
    Statement.gather pending ((number, line) :: numbered) = Statement.gather pending numbered := by
  unfold isSilent at h
  split at h
  · rename_i hline
    rw [Statement.gather.eq_def]
    simp only [hline]
  · rename_i hline
    rw [Statement.gather.eq_def]
    simp only [hline]
  · cases h

/-- Only the lines that are not silent matter. -/
theorem Statement.gather_filter : Statement.gather pending numbered =
    Statement.gather pending (numbered.filter fun line => !isSilent line.2) := by
  induction numbered generalizing pending with
  | nil => rfl
  | cons entry numbered ih =>
      obtain ⟨number, line⟩ := entry
      cases hsilent : isSilent line with
      | true =>
          rw [Statement.gather_silent hsilent, List.filter_cons_of_neg (by simp [hsilent])]
          exact ih
      | false =>
          rw [List.filter_cons_of_pos (by simp [hsilent])]
          simp only [Statement.gather]
          split
          · exact ih
          · exact ih
          · cases pending with
            | none => exact congrArg _ ih
            | some entry => exact ih
          · exact congrArg _ (congrArg _ ih)
          · exact congrArg _ ih

/-- A filler is silent. -/
theorem Filler.silent (h : Filler line) : isSilent (Text.trim (String.ofList line)) = true := by
  obtain ⟨_, hblank | ⟨before, comment, hbefore, rfl⟩⟩ := h
  · have htrim : Text.trimChars line = [] := by
      rw [Text.trimChars, List.dropWhile_eq_nil_iff.mpr hblank]
      rfl
    rw [Text.trim_ofList, htrim]
    rfl
  · have htrim : Text.trimChars (before ++ '#' :: comment) = '#' :: Text.trimEndChars comment := by
      have hmark : Text.isBlank '#' = false := by decide
      rw [Text.trimChars, List.dropWhile_append_of_pos hbefore.blank,
        List.dropWhile_cons_of_neg (by simp [hmark]), Text.trimEndChars_cons hmark]
    rw [Text.trim_ofList, htrim, isSilent, String.toList_ofList]
    rfl

/-- Of filled lines, those that are not silent are the lines between the fillers. -/
theorem Filled.filter_trims (h : Filled lines filled)
    (hlines : ∀ line ∈ trims lines, isSilent line = false) :
    (trims filled).filter (fun line => !isSilent line) = trims lines := by
  induction h with
  | nil => rfl
  | @keep line lines filled _ ih =>
      obtain ⟨hline, hlines⟩ := List.forall_mem_cons.mp hlines
      rw [trims, List.map_cons, List.filter_cons_of_pos (by simp [hline]), ih hlines]
      rfl
  | filler hfiller _ ih =>
      rw [trims, List.map_cons, List.filter_cons_of_neg (by simp [hfiller.silent])]
      exact ih hlines

theorem Filled.no_feed (h : Filled lines filled) (hlines : ∀ line ∈ lines, '\n' ∉ line) :
    ∀ line ∈ filled, '\n' ∉ line := by
  induction h with
  | nil => exact hlines
  | keep _ ih =>
      obtain ⟨hline, hlines⟩ := List.forall_mem_cons.mp hlines
      exact List.forall_mem_cons.mpr ⟨hline, ih hlines⟩
  | filler hfiller _ ih => exact List.forall_mem_cons.mpr ⟨hfiller.1, ih hlines⟩

/-- The statements of a text are those of its lines between the fillers, up to their numbers. -/
theorem Filled.exists_gather (h : Filled lines filled) (hfeed : ∀ line ∈ lines, '\n' ∉ line)
    (hlines : ∀ line ∈ trims lines, isSilent line = false) :
    ∃ numbered, numbered.map Prod.snd = trims lines ∧
      Statement.ofText (String.ofList (['\n'].intercalate filled)) =
        Statement.gather none numbered := by
  obtain ⟨lost, hlost, hempty⟩ := Text.exists_trim_lines (h.no_feed hfeed)
  refine ⟨_, ?_, Statement.gather_filter⟩
  generalize String.ofList (['\n'].intercalate filled) = text at hlost
  have hnumbered : (numberedLines text).map Prod.snd = (Text.lines text).map Text.trim :=
    List.ext_getElem (by simp [numberedLines]) (by simp [numberedLines])
  have hsilent : lost.filter (fun line => !isSilent line) = [] := by
    rw [List.filter_eq_nil_iff]
    intro line hmem
    rw [hempty line hmem]
    decide
  rw [← h.filter_trims hlines, trims, ← hlost, List.filter_append, hsilent, List.append_nil,
    ← hnumbered, List.filter_map]
  rfl

/-! ## Declarations -/

/-- The words of a trimmed declaration, without the sign before the first. -/
theorem Declares.exists_body (h : Declares (('%' :: name) :: args) line)
    (hwords : ∀ word ∈ name :: args, Text.Solid word) :
    '\n' ∉ line ∧ ∃ body, Text.trim (String.ofList line) = String.ofList ('%' :: body) ∧
      Text.words (String.ofList body) = String.ofList name :: args.map String.ofList := by
  have hsign : Text.isBlank '%' = false := by decide
  have hfeed : Text.isBlank '\n' = true := by decide
  obtain ⟨hname, hargs⟩ := List.forall_mem_cons.mp hwords
  have hall : ∀ word ∈ ('%' :: name) :: args, Text.Solid word :=
    List.forall_mem_cons.mpr ⟨⟨by simp, List.forall_mem_cons.mpr ⟨hsign, hname.2⟩⟩, hargs⟩
  refine ⟨h.no_feed fun word hmem hbad => ?_, ?_⟩
  · rw [(hall word hmem).2 _ hbad] at hfeed
    cases hfeed
  · obtain ⟨rest, htrim, hfollows, hrest⟩ := h.exists_trim fun word hmem => (hall word hmem).firm
    refine ⟨name ++ rest, htrim, ?_⟩
    have hspaced : Declares (name :: args) ([] ++ name ++ rest) :=
      .cons (by simp [Text.Padding]) hfollows hrest
    rw [Text.words, String.toList_ofList, ← List.nil_append name, hspaced.wordsAfter_eq hwords,
      List.map_cons, List.nil_append]

/-- A name in a declaration refers to what it refers to elsewhere. -/
theorem ofWord_of_isName {name : String} (h : RuleText.isName name = true) :
    Symbol.ofWord name = Symbol.ofName name := by
  obtain ⟨c, run, hname, hstart, _⟩ := RuleText.exists_of_isName h
  obtain ⟨_, _, hdouble, hsingle, _⟩ := RuleText.ne_of_nameStart hstart
  unfold Symbol.ofWord
  split
  · rename_i first _ _ hword
    obtain rfl : first = c := List.head_eq_of_cons_eq (hword.symm.trans hname)
    exact if_neg (by simp [hdouble, hsingle])
  · rfl

/-- The words of a precedence level are solid and name its symbols. -/
theorem Symbol.Word.ofWord_eq {s : Symbol} {word : List Char} (h : s.Word word)
    (hs : s.Writable (Text.isBlank · = false)) :
    Text.Solid word ∧ Symbol.ofWord (String.ofList word) = s := by
  cases h with
  | token =>
      rw [String.ofList_toList, ofWord_of_isName hs.1]
      exact ⟨RuleText.solid_of_isName hs.1, hs.2⟩
  | nonterminal =>
      rw [String.ofList_toList, ofWord_of_isName hs.1]
      exact ⟨RuleText.solid_of_isName hs.1, hs.2⟩
  | @literal quote c hquote =>
      have hblank : Text.isBlank quote = false := by
        rcases hquote with rfl | rfl <;> decide
      have hc : Text.isBlank c = false := hs
      refine ⟨⟨by simp, by simp [hblank, hc]⟩, ?_⟩
      rw [Symbol.ofWord, String.toList_ofList]
      rcases hquote with rfl | rfl <;> exact if_pos (by decide)

/-! ## Rules over several lines -/

/-- A line that ends the rule before it: neither a comment nor a bar begins there. -/
def Begins (line : String) : Prop :=
  ∃ c rest, line.toList = c :: rest ∧ c ≠ '#' ∧ c ≠ '|'

/-- A name begins a rule. -/
theorem Statement.gather_name {number : Nat} {line : String} {c : Char} {rest : List Char}
    (hline : line.toList = c :: rest) (hstart : RuleText.nameStart.holds c = true) :
    Statement.gather pending ((number, line) :: numbered) =
      ofPending pending ++ Statement.gather (some (number, line)) numbered := by
  have hne : ∀ d, RuleText.nameStart.holds d = false → ∀ more, line.toList ≠ d :: more := by
    intro d hd more hsame
    rw [List.head_eq_of_cons_eq (hline.symm.trans hsame), hd] at hstart
    cases hstart
  simp only [Statement.gather]
  split
  · rename_i hnil
    cases hline.symm.trans hnil
  · rename_i hsame
    exact absurd hsame (hne '#' (by decide) _)
  · rename_i hsame
    exact absurd hsame (hne '|' (by decide) _)
  · rename_i hsame
    exact absurd hsame (hne '%' (by decide) _)
  · rfl

/-- Lines that begin with bars continue the pending rule. -/
theorem Statement.gather_bars {number : Nat} {text : List Char} {texts : List (List Char)}
    {more : List (Nat × String)} (hmore : more.map Prod.snd = texts.map String.ofList)
    (hbars : ∀ line ∈ texts, ∃ rest, line = '|' :: rest) :
    Statement.gather (some (number, String.ofList text)) (more ++ numbered) =
      Statement.gather (some (number, String.ofList (RuleText.continued text texts))) numbered := by
  induction texts generalizing text more with
  | nil =>
      obtain rfl := List.map_eq_nil_iff.mp hmore
      rw [RuleText.continued, List.flatMap_nil, List.append_nil, List.nil_append]
  | cons line texts ih =>
      obtain ⟨⟨other, _⟩, more, rfl, rfl, hothers⟩ := List.map_eq_cons_iff.mp hmore
      obtain ⟨⟨rest, rfl⟩, hotherBars⟩ := List.forall_mem_cons.mp hbars
      have hjoined : String.ofList text ++ "\n" ++ String.ofList ('|' :: rest) =
          String.ofList (text ++ '\n' :: '|' :: rest) := by
        rw [String.append_assoc, String.ofList_append]
        exact congrArg _ String.ofList_append.symm
      have hgather : Statement.gather (some (number, String.ofList text))
            ((other, String.ofList ('|' :: rest)) :: (more ++ numbered)) =
          Statement.gather (some (number, String.ofList (text ++ '\n' :: '|' :: rest)))
            (more ++ numbered) := by
        rw [Statement.gather.eq_def]
        simp only [String.toList_ofList]
        rw [← hjoined]
      rw [List.cons_append, hgather, ih hothers hotherBars]
      simp

/-- The pending rule ends where the next line begins a statement. -/
theorem Statement.gather_ended (h : ∀ entry ∈ numbered.head?, Begins entry.2) :
    Statement.gather pending numbered = ofPending pending ++ Statement.gather none numbered := by
  cases numbered with
  | nil => exact (List.append_nil _).symm
  | cons entry numbered =>
      obtain ⟨number, line⟩ := entry
      obtain ⟨c, rest, hline, hcomment, hbar⟩ := h _ rfl
      simp only [Statement.gather]
      split
      · rename_i hnil
        cases hline.symm.trans hnil
      · rename_i hsame
        exact absurd (List.head_eq_of_cons_eq (hline.symm.trans hsame)) hcomment
      · rename_i hsame
        exact absurd (List.head_eq_of_cons_eq (hline.symm.trans hsame)) hbar
      · rfl
      · rfl

/-! ## Reading lines -/

namespace GrammarFile

theorem readStatement_directive {number : Nat} {text : String}
    (h : file.readDirective text = .ok next) :
    file.readStatement (.directive number text) = .ok next := by
  delta readStatement
  dsimp only
  rw [h]

theorem readStatement_rule {number : Nat} {text : String} (h : RuleText.parse text = .ok rule) :
    file.readStatement (.rule number text) =
      .ok { file with rules := file.rules ++ [rule] } := by
  delta readStatement
  dsimp only
  rw [h]

/-- Whatever the numbers of some lines are, reading them makes one file of another. -/
def Reads (file : GrammarFile) (trimmed : List String) (result : GrammarFile) : Prop :=
  ∀ numbered, numbered.map Prod.snd = trimmed →
    file.readStatements (Statement.gather none numbered) = .ok result

theorem Reads.nil : file.Reads [] file := by
  intro numbered hnumbered
  rw [List.map_eq_nil_iff.mp hnumbered]
  rfl

/-- A declaration is read at once. -/
theorem Reads.of_declaration (h : file.readDirective (String.ofList body) = .ok next)
    (hrest : next.Reads trimmed result) :
    file.Reads (String.ofList ('%' :: body) :: trimmed) result := by
  intro numbered hnumbered
  obtain ⟨⟨number, line⟩, rest, rfl, hline, hnumbered⟩ := List.map_eq_cons_iff.mp hnumbered
  have hchars : line.toList = '%' :: body := by
    rw [show line = String.ofList ('%' :: body) from hline, String.toList_ofList]
  have hgather : Statement.gather none ((number, line) :: rest) =
      .directive number (String.ofList body) :: Statement.gather none rest := by
    rw [Statement.gather.eq_def]
    simp only [hchars]
    rfl
  rw [hgather, readStatements, readStatement_directive h]
  exact hrest rest hnumbered

/-- A rule is read when it has ended. -/
theorem Reads.of_rule {c : Char} {rest : List Char} {more : List (List Char)}
    (hstart : RuleText.nameStart.holds c = true)
    (hbars : ∀ line ∈ more, ∃ rest, line = '|' :: rest)
    (hparse : RuleText.parse (String.ofList (RuleText.continued (c :: rest) more)) = .ok rule)
    (hended : ∀ line ∈ trimmed.head?, Begins line)
    (hrest : Reads { file with rules := file.rules ++ [rule] } trimmed result) :
    file.Reads (String.ofList (c :: rest) :: (more.map String.ofList ++ trimmed)) result := by
  intro numbered hnumbered
  obtain ⟨⟨number, _⟩, tail, rfl, rfl, htail⟩ := List.map_eq_cons_iff.mp hnumbered
  obtain ⟨front, others, rfl, hfront, hothers⟩ := List.map_eq_append_iff.mp htail
  have hends : ∀ entry ∈ others.head?, Begins entry.2 := by
    intro entry hentry
    refine hended entry.2 ?_
    rw [← hothers, List.head?_map, Option.mem_def.mp hentry]
    rfl
  rw [Statement.gather_name String.toList_ofList hstart, Statement.gather_bars hfront hbars,
    Statement.gather_ended hends, Statement.ofPending, Statement.ofPending, List.nil_append,
    List.singleton_append, readStatements, readStatement_rule hparse]
  exact hrest others hothers

end GrammarFile

end ShiftReduce
