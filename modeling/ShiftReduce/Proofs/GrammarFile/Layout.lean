import ShiftReduce.GrammarFile.Basic
import ShiftReduce.Proofs.RuleText.Pieces
import ShiftReduce.Proofs.Text.Spacing

/-!
# How grammar files are written

A grammar file is written as a line of tokens, a line for each precedence level, a line for the
start symbol if there is one, and its rules. A rule takes a line or more: where a bar stands before
an alternative, it may begin a new line. Spaces and tabs may stand around each line, and blank lines
and comments anywhere between the lines. `GrammarFile.Layout` relates a file to all its texts.
-/

namespace ShiftReduce

open RuleText (nameStart nameInside)
open Text (Padding Spaced)

/-! ## What can be written -/

/-- Whether a text is a name: of the letters of ASCII, low lines and, but for the first, digits. -/
def RuleText.isName (text : String) : Bool :=
  match text.toList with
  | [] => false
  | c :: run => nameStart.holds c && run.all nameInside.holds

/-- A symbol that can be written as a word: a character of some kind, or what its name refers
to. -/
def Symbol.Writable (allowed : Char → Prop) : Symbol → Prop
  | .literal c => allowed c
  | .token name => RuleText.isName name = true ∧ Symbol.ofName name = .token name
  | .nonterminal name => RuleText.isName name = true ∧ Symbol.ofName name = .nonterminal name

instance {allowed : Char → Prop} [DecidablePred allowed] (s : Symbol) :
    Decidable (s.Writable allowed) :=
  match s with
  | .literal c => inferInstanceAs (Decidable (allowed c))
  | .token name => inferInstanceAs (Decidable (RuleText.isName name = true ∧
      Symbol.ofName name = .token name))
  | .nonterminal name => inferInstanceAs (Decidable (RuleText.isName name = true ∧
      Symbol.ofName name = .nonterminal name))

/-- An alternative that can be written: no character is a line feed, and a tag does not stand
alone. -/
structure Alternative.Writable (alt : Alternative) : Prop where
  symbols : ∀ s ∈ alt.symbols, s.Writable (· ≠ '\n')
  tag : ∀ tag ∈ alt.tag, RuleText.isName tag = true ∧ alt.symbols ≠ []

/-- A rule that can be written. -/
structure RuleDecl.Writable (rule : RuleDecl) : Prop where
  name : RuleText.isName rule.name = true
  nonempty : rule.alternatives ≠ []
  alternatives : ∀ alt ∈ rule.alternatives, alt.Writable

/-- A grammar file that can be written: no character of a precedence level is white space. -/
structure GrammarFile.Writable (file : GrammarFile) : Prop where
  tokens : ∀ name ∈ file.tokens, RuleText.isName name = true
  levels : ∀ level ∈ file.precedence, level.2 ≠ [] ∧
    ∀ s ∈ level.2, s.Writable (Text.isBlank · = false)
  start : ∀ name ∈ file.start, RuleText.isName name = true
  rules : ∀ rule ∈ file.rules, rule.Writable

/-! ## Words -/

/-- The words for a symbol: its name, or its character between quotes of either kind. -/
inductive Symbol.Word : Symbol → List Char → Prop
  | token {name : String} : Symbol.Word (.token name) name.toList
  | nonterminal {name : String} : Symbol.Word (.nonterminal name) name.toList
  | literal {quote c : Char} : quote = '"' ∨ quote = '\'' →
      Symbol.Word (.literal c) [quote, c, quote]

/-- The words of an alternative: its symbols, and its tag behind the mark. -/
inductive Alternative.Words : Alternative → List (List Char) → Prop
  | plain {symbols : List Symbol} {words : List (List Char)} :
      List.Forall₂ Symbol.Word symbols words → Alternative.Words ⟨symbols, none⟩ words
  | tagged {symbols : List Symbol} {words : List (List Char)} {tag : String} :
      List.Forall₂ Symbol.Word symbols words →
      Alternative.Words ⟨symbols, some tag⟩ (words ++ ["%prec".toList, tag.toList])

/-- The words on each line of a rule. A bar stands before each alternative but the first, and goes
on in the same line or begins the next one. -/
inductive RuleDecl.Words (name : String) : List Alternative → List (List (List Char)) → Prop
  | first {alt : Alternative} {words : List (List Char)} :
      alt.Words words → RuleDecl.Words name [alt] [name.toList :: [':'] :: words]
  | sameLine {alts : List Alternative} {lines : List (List (List Char))}
      {line words : List (List Char)} {alt : Alternative} :
      RuleDecl.Words name alts (lines ++ [line]) → alt.Words words →
      RuleDecl.Words name (alts ++ [alt]) (lines ++ [line ++ ['|'] :: words])
  | nextLine {alts : List Alternative} {lines : List (List (List Char))}
      {words : List (List Char)} {alt : Alternative} :
      RuleDecl.Words name alts lines → alt.Words words →
      RuleDecl.Words name (alts ++ [alt]) (lines ++ [['|'] :: words])

/-! ## Lines -/

/-- A declaration, in which blanks stand between words. -/
abbrev Declares : List (List Char) → List Char → Prop :=
  Spaced fun _ c => c = ' ' ∨ c = '\t'

/-- What may stand right behind a word of a rule: a name and the mark of a tag must not run into the
next word. -/
def RuleText.Apart (word : List Char) (c : Char) : Prop :=
  ∀ d ∈ word.getLast?, Text.isWordChar d = true → Text.isWordChar c = false

/-- The line of a precedence level. -/
def DeclaresLevel (level : Assoc × List Symbol) (line : List Char) : Prop :=
  ∃ words, List.Forall₂ Symbol.Word level.2 words ∧
    Declares (('%' :: level.1.text.toList) :: words) line

/-- The lines of a rule. -/
def RuleDecl.Lines (rule : RuleDecl) (lines : List (List Char)) : Prop :=
  ∃ words, RuleDecl.Words rule.name rule.alternatives words ∧
    List.Forall₂ (Spaced RuleText.Apart) words lines

/-- The lines of a file, without blank lines and comments. -/
inductive GrammarFile.Lines (file : GrammarFile) : List (List Char) → Prop
  | mk {tokens : List Char} {levels start : List (List Char)} {rules : List (List (List Char))} :
      Declares ("%token".toList :: file.tokens.map String.toList) tokens →
      List.Forall₂ DeclaresLevel file.precedence levels →
      List.Forall₂ (fun name => Declares ["%start".toList, name.toList]) file.start.toList start →
      List.Forall₂ RuleDecl.Lines file.rules rules →
      GrammarFile.Lines file (tokens :: (levels ++ (start ++ rules.flatten)))

/-- A line that says nothing: a blank line, or a comment. -/
def Filler (line : List Char) : Prop :=
  '\n' ∉ line ∧ ((∀ c ∈ line, Text.isBlank c = true) ∨
    ∃ before comment, Padding before ∧ line = before ++ '#' :: comment)

/-- Lines with blank lines and comments anywhere between them. -/
inductive Filled : List (List Char) → List (List Char) → Prop
  | nil : Filled [] []
  | keep {line : List Char} {lines filled : List (List Char)} :
      Filled lines filled → Filled (line :: lines) (line :: filled)
  | filler {line : List Char} {lines filled : List (List Char)} :
      Filler line → Filled lines filled → Filled lines (line :: filled)

/-- The texts of a file. A line feed at the very end is one before an empty line. -/
def GrammarFile.Layout (file : GrammarFile) (text : String) : Prop :=
  ∃ lines filled, file.Lines lines ∧ Filled lines filled ∧
    text = String.ofList (['\n'].intercalate filled)

/-! ## Texts of files -/

theorem Declares.of_words (words : List (List Char)) :
    Declares words (words.flatMap (' ' :: ·)) :=
  Spaced.of_words (fun _ => Or.inl rfl) words

/-- A space may stand behind every word of a rule. -/
theorem RuleText.apart_space (word : List Char) : RuleText.Apart word ' ' :=
  fun _ _ _ => by decide

/-- What has a partner element by element has one as a list. -/
theorem exists_forall₂ {α β : Type} {r : α → β → Prop} {xs : List α} (h : ∀ x ∈ xs, ∃ y, r x y) :
    ∃ ys, List.Forall₂ r xs ys := by
  induction xs with
  | nil => exact ⟨[], .nil⟩
  | cons x xs ih =>
      obtain ⟨⟨y, hy⟩, hxs⟩ := List.forall_mem_cons.mp h
      obtain ⟨ys, hys⟩ := ih hxs
      exact ⟨y :: ys, .cons hy hys⟩

theorem Symbol.exists_word (s : Symbol) : ∃ word, s.Word word := by
  cases s with
  | token name => exact ⟨_, .token⟩
  | nonterminal name => exact ⟨_, .nonterminal⟩
  | literal c => exact ⟨_, .literal (Or.inl rfl)⟩

theorem Alternative.exists_words (alt : Alternative) : ∃ words, alt.Words words := by
  obtain ⟨symbols, tag⟩ := alt
  obtain ⟨words, hwords⟩ := exists_forall₂ fun s (_ : s ∈ symbols) => s.exists_word
  cases tag with
  | none => exact ⟨words, .plain hwords⟩
  | some tag => exact ⟨_, .tagged hwords⟩

theorem RuleDecl.exists_words (name : String) {alts : List Alternative} (hne : alts ≠ []) :
    ∃ words, RuleDecl.Words name alts words := by
  induction alts using List.reverseRecOn with
  | nil => exact absurd rfl hne
  | append_singleton alts alt ih =>
      obtain ⟨words, hwords⟩ := alt.exists_words
      by_cases hnil : alts = []
      · subst hnil
        exact ⟨_, .first hwords⟩
      · obtain ⟨lines, hlines⟩ := ih hnil
        exact ⟨_, .nextLine hlines hwords⟩

/-- Every rule with an alternative has lines. -/
theorem RuleDecl.exists_lines {rule : RuleDecl} (hne : rule.alternatives ≠ []) :
    ∃ lines, rule.Lines lines := by
  obtain ⟨words, hwords⟩ := RuleDecl.exists_words rule.name hne
  refine ⟨words.map (·.flatMap (' ' :: ·)), words, hwords, ?_⟩
  exact List.forall₂_map_right_iff.mpr
    (List.forall₂_same.mpr fun words _ => Spaced.of_words RuleText.apart_space words)

/-- Lines are filled by nothing. -/
theorem Filled.refl (lines : List (List Char)) : Filled lines lines := by
  induction lines with
  | nil => exact .nil
  | cons line lines ih => exact .keep ih

/-- Every file whose rules have alternatives has a text. -/
theorem GrammarFile.exists_layout {file : GrammarFile}
    (h : ∀ rule ∈ file.rules, rule.alternatives ≠ []) : ∃ text, file.Layout text := by
  have hlevel : ∀ level ∈ file.precedence, ∃ line, DeclaresLevel level line := fun level _ => by
    obtain ⟨words, hwords⟩ := exists_forall₂ fun s (_ : s ∈ level.2) => s.exists_word
    exact ⟨_, words, hwords, Declares.of_words _⟩
  obtain ⟨levels, hlevels⟩ := exists_forall₂ hlevel
  obtain ⟨start, hstart⟩ := exists_forall₂ fun name (_ : name ∈ file.start.toList) =>
    ⟨_, Declares.of_words ["%start".toList, name.toList]⟩
  obtain ⟨rules, hrules⟩ := exists_forall₂ fun rule hrule => RuleDecl.exists_lines (h rule hrule)
  exact ⟨_, _, _, .mk (Declares.of_words _) hlevels hstart hrules, Filled.refl _, rfl⟩

end ShiftReduce
