import ShiftReduce.Proofs.Lexer.Places
import ShiftReduce.Proofs.RuleText.Tables

/-!
# The pieces of rules

The lexer of rules cuts a text into blanks, the mark of a tag, quoted characters, names, colons and
bars. `Piece` says what may stand at the beginning of a text and what becomes of it; `step_of_piece`
and `step_of_no_piece` say that the lexer cuts off just that, and reports the next character as an
error where there is none.
-/

namespace ShiftReduce.RuleText

variable {cursor : Cursor} {text rest run : List Char} {c q : Char} {p : Place}
  {item : Option (Symbol × String)} {fuel : Nat}

/-! ## The patterns -/

/-- The pattern of some characters before another pattern. -/
def wordBefore (later : Pattern) (cs : List Char) : Pattern :=
  cs.foldr (fun c later => .seq (.one (.single c)) later) later

/-- The pattern of the mark before a tag. -/
def markPattern : Pattern :=
  wordBefore (.anchor .wordEdge) ['%', 'p', 'r', 'e', 'c']

/-- The pattern of a character between two quotes. -/
def quotedPattern (quote : Char) : Pattern :=
  .seq (.one (.single quote)) (.seq (.one ⟨true, [.span '\n' '\n']⟩) (.one (.single quote)))

/-- The characters that begin a name. -/
def nameStart : CharClass :=
  ⟨false, [.span 'a' 'z', .span 'A' 'Z', .span '_' '_']⟩

/-- The characters inside a name. -/
def nameInside : CharClass :=
  ⟨false, [.span 'a' 'z', .span 'A' 'Z', .span '_' '_', .span '0' '9']⟩

/-- The pattern of a name. -/
def namePattern : Pattern :=
  .seq (.one nameStart) (.times (.one nameInside) 0 none true)

/-- The rule of the lexer for the mark before a tag. -/
def markRule : LexRule :=
  ⟨anchoredText "%prec\\b", (Pattern.seq (.anchor .textStart) markPattern).find?,
    .token (.token "PREC") none⟩

/-- The rule of the lexer for quoted characters. -/
def literalRule : LexRule :=
  ⟨anchoredText "\".\"|'.'",
    (Pattern.seq (.anchor .textStart) (.alt (quotedPattern '"') (quotedPattern '\''))).find?,
    .token (.token "LITERAL") (some keepQuoted)⟩

/-- The rule of the lexer for names. -/
def nameRule : LexRule :=
  ⟨anchoredText "[a-zA-Z_][a-zA-Z_0-9]*", (Pattern.seq (.anchor .textStart) namePattern).find?,
    .token (.token "ID") none⟩

/-- The lexer of rules. -/
def ruleLexer : Lexer :=
  { rules := [markRule, literalRule, nameRule]
    literals := [':', '|']
    ignored := [' ', '\t', '\r', '\n'] }

theorem readRule?_eq {rule : LexRule} {written : String} {pattern : Pattern}
    (hsource : rule.source = anchoredText written)
    (hpattern : Pattern.ofText? rule.source = some pattern) (hfind : rule.find? = pattern.find?) :
    LexerPlan.readRule? (written, rule.kind) = some rule := by
  rw [LexerPlan.readRule?, ← hsource, hpattern, Option.map_some, ← hfind]

/-- The reader has this lexer. -/
theorem lexer_reader : reader.lexer = ruleLexer := by
  have hpatterns :
      Pattern.ofText? markRule.source = some (.seq (.anchor .textStart) markPattern) ∧
      Pattern.ofText? literalRule.source =
        some (.seq (.anchor .textStart) (.alt (quotedPattern '"') (quotedPattern '\''))) ∧
      Pattern.ofText? nameRule.source = some (.seq (.anchor .textStart) namePattern) := by decide
  obtain ⟨hmark, hliteral, hname⟩ := hpatterns
  have hrules : lexerPlan.rules.mapM LexerPlan.readRule? = some ruleLexer.rules := by
    have hplan : lexerPlan.rules = [("%prec\\b", markRule.kind),
        ("\".\"|'.'", literalRule.kind), ("[a-zA-Z_][a-zA-Z_0-9]*", nameRule.kind)] := rfl
    rw [hplan, List.mapM_cons, List.mapM_cons, List.mapM_cons, List.mapM_nil,
      readRule?_eq rfl hmark rfl, readRule?_eq rfl hliteral rfl, readRule?_eq rfl hname rfl]
    rfl
  have hbuild := reader_spec.2.2.2
  rw [LexerPlan.build?, hrules] at hbuild
  exact (Option.some.inj hbuild).symm

/-! ## What the patterns match -/

/-- Characters are matched by themselves, and then what comes later goes on. -/
theorem head?_ends_word {later : Pattern} {cs : List Char} {before : Option Char} :
    ((wordBefore later cs).ends ⟨before, text⟩).head? = some p ↔
      ∃ rest, text = cs ++ rest ∧
        (later.ends ⟨cs.getLast?.or before, rest⟩).head? = some p := by
  induction cs generalizing before text with
  | nil => simp [wordBefore]
  | cons c cs ih =>
      have hlast : (c :: cs).getLast?.or before = cs.getLast?.or (some c) := by
        rw [List.getLast?_cons]
        cases cs.getLast? <;> rfl
      rw [hlast]
      refine Pattern.head?_ends_seq_one.trans ?_
      constructor
      · rintro ⟨d, rest, rfl, hd, hlater⟩
        obtain rfl := Pattern.holds_single.mp hd
        obtain ⟨rest, rfl, hends⟩ := ih.mp hlater
        exact ⟨rest, rfl, hends⟩
      · rintro ⟨rest, rfl, h⟩
        exact ⟨c, _, rfl, Pattern.holds_single.mpr rfl, ih.mpr ⟨rest, rfl, h⟩⟩

/-- A mark is matched where its word ends. -/
theorem head?_ends_mark : (markPattern.ends ⟨none, text⟩).head? = some p ↔
    ∃ rest, text = ['%', 'p', 'r', 'e', 'c'] ++ rest ∧
      (∀ c ∈ rest.head?, Text.isWordChar c = false) ∧ p = ⟨some 'c', rest⟩ := by
  have hword : Text.isWordChar 'c' = true := by decide
  have hedge : ∀ rest, ((Pattern.anchor .wordEdge).ends ⟨some 'c', rest⟩).head? = some p ↔
      (∀ c ∈ rest.head?, Text.isWordChar c = false) ∧ p = ⟨some 'c', rest⟩ := by
    intro rest
    rw [eq_comm (a := p)]
    show (if Place.atWordEdge ⟨some 'c', rest⟩ = true then [_] else []).head? = _ ↔ _
    simp only [Place.atWordEdge, Option.map_some, Option.getD_some, hword]
    cases rest with
    | nil => simp
    | cons c rest => cases hc : Text.isWordChar c <;> simp [hc]
  simp only [markPattern, head?_ends_word]
  exact exists_congr fun rest => and_congr_right fun _ => hedge rest

/-- A class that lacks one character holds all others. -/
theorem holds_but {d : Char} : CharClass.holds ⟨true, [.span d d]⟩ c = true ↔ c ≠ d := by
  have hnot : CharClass.holds ⟨true, [.span d d]⟩ c = !(CharClass.single d).holds c := by
    simp [CharClass.holds, CharClass.single]
  rw [hnot, Bool.not_eq_true', ← Bool.not_eq_true, Pattern.holds_single]

/-- A character other than a line feed is matched between two quotes, and nothing else. -/
theorem head?_ends_quoted {before : Option Char} :
    ((quotedPattern q).ends ⟨before, text⟩).head? = some p ↔
      ∃ c rest, text = q :: c :: q :: rest ∧ c ≠ '\n' ∧ p = ⟨some q, rest⟩ := by
  simp only [quotedPattern, Pattern.head?_ends_seq_one, Pattern.head?_ends_one,
    Pattern.holds_single, holds_but]
  constructor
  · rintro ⟨_, _, rfl, rfl, c, _, rfl, hc, _, rest, rfl, rfl, rfl⟩
    exact ⟨c, rest, rfl, hc, rfl⟩
  · rintro ⟨c, rest, rfl, hc, rfl⟩
    exact ⟨q, _, rfl, rfl, c, _, rfl, hc, q, rest, rfl, rfl, rfl⟩

/-- A character is matched between two quotes of either kind. -/
theorem head?_ends_literal {quote : Char} (hquote : quote = '"' ∨ quote = '\'') (hc : c ≠ '\n') :
    ((Pattern.alt (quotedPattern '"') (quotedPattern '\'')).ends
      ⟨none, [quote, c, quote] ++ rest⟩).head? = some ⟨some quote, rest⟩ := by
  have hown : ((quotedPattern quote).ends ⟨none, [quote, c, quote] ++ rest⟩).head? =
      some ⟨some quote, rest⟩ := head?_ends_quoted.mpr ⟨c, rest, rfl, hc, rfl⟩
  rw [Pattern.head?_ends_alt]
  rcases hquote with rfl | rfl
  · rw [hown]
    rfl
  · have hnone : ((quotedPattern '"').ends ⟨none, ['\'', c, '\''] ++ rest⟩).head? = none := by
      refine Option.eq_none_iff_forall_ne_some.mpr fun p hp => ?_
      obtain ⟨_, _, hsame, _⟩ := head?_ends_quoted.mp hp
      exact absurd (List.head_eq_of_cons_eq hsame) (by decide)
    rw [hown, hnone]
    rfl

/-- Only a character that begins names begins a name. -/
theorem holds_of_ends_name (h : (namePattern.ends ⟨none, c :: rest⟩).head? = some p) :
    nameStart.holds c = true := by
  obtain ⟨_, _, hsame, hc, _⟩ := Pattern.head?_ends_seq_one.mp h
  cases hsame
  exact hc

/-- A name is as long as it can be. -/
theorem exists_ends_name (hstart : nameStart.holds c = true)
    (hrun : ∀ d ∈ run, nameInside.holds d = true)
    (hstop : ∀ d ∈ rest.head?, nameInside.holds d = false) :
    ∃ q, (namePattern.ends ⟨none, c :: run ++ rest⟩).head? = some q ∧ q.rest = rest := by
  obtain ⟨q, hends, hq⟩ := Pattern.exists_ends_run hrun hstop (some c)
  exact ⟨q, Pattern.head?_ends_seq_one.mpr ⟨c, _, rfl, hstart, hends⟩, hq⟩

/-! ## Pieces -/

/-- What stands at the beginning of a text and what is left behind it: a blank, which is passed
over, or the text of a token with its kind. -/
inductive Piece : List Char → List Char → Option (Symbol × String) → Prop
  | blank {c : Char} {rest : List Char} : c ∈ [' ', '\t', '\r', '\n'] → Piece (c :: rest) rest none
  | mark {rest : List Char} : (∀ c ∈ rest.head?, Text.isWordChar c = false) →
      Piece (['%', 'p', 'r', 'e', 'c'] ++ rest) rest
        (some (.token "PREC", String.ofList ['%', 'p', 'r', 'e', 'c']))
  | literal {quote c : Char} {rest : List Char} : quote = '"' ∨ quote = '\'' → c ≠ '\n' →
      Piece (quote :: c :: quote :: rest) rest (some (.token "LITERAL", String.ofList [c]))
  | name {c : Char} {run rest : List Char} : nameStart.holds c = true →
      (∀ d ∈ run, nameInside.holds d = true) → (∀ d ∈ rest.head?, nameInside.holds d = false) →
      Piece (c :: run ++ rest) rest (some (.token "ID", String.ofList (c :: run)))
  | sign {c : Char} {rest : List Char} : c = ':' ∨ c = '|' →
      Piece (c :: rest) rest (some (.literal c, String.ofList [c]))

/-- The rules are tried in order. -/
theorem firstMatch?_ruleLexer (text : List Char) : ruleLexer.firstMatch? text =
    (markRule.match? text).or ((literalRule.match? text).or (nameRule.match? text)) := by
  show [markRule, literalRule, nameRule].findSome? (·.match? text) = _
  rw [List.findSome?_cons, List.findSome?_cons, List.findSome?_cons, List.findSome?_nil]
  cases markRule.match? text with
  | some found => rfl
  | none =>
      cases literalRule.match? text with
      | some found => rfl
      | none => cases nameRule.match? text <;> rfl

theorem markRule_none (h : ∀ later, (∀ d ∈ later.head?, Text.isWordChar d = false) →
    c :: rest ≠ ['%', 'p', 'r', 'e', 'c'] ++ later) : markRule.match? (c :: rest) = none := by
  refine LexRule.match?_of_no_end rfl (Option.eq_none_iff_forall_ne_some.mpr fun p hp => ?_)
  obtain ⟨later, htext, hstop, _⟩ := head?_ends_mark.mp hp
  exact h later hstop htext

theorem literalRule_none (h : ∀ quote d later, quote = '"' ∨ quote = '\'' → d ≠ '\n' →
    c :: rest ≠ quote :: d :: quote :: later) : literalRule.match? (c :: rest) = none := by
  have hnone : ∀ quote, quote = '"' ∨ quote = '\'' →
      ((quotedPattern quote).ends ⟨none, c :: rest⟩).head? = none := by
    intro quote hquote
    refine Option.eq_none_iff_forall_ne_some.mpr fun p hp => ?_
    obtain ⟨d, later, htext, hd, _⟩ := head?_ends_quoted.mp hp
    exact h quote d later hquote hd htext
  refine LexRule.match?_of_no_end rfl ?_
  rw [Pattern.head?_ends_alt, hnone '"' (Or.inl rfl), hnone '\'' (Or.inr rfl)]
  rfl

theorem nameRule_none (h : nameStart.holds c = false) : nameRule.match? (c :: rest) = none := by
  refine LexRule.match?_of_no_end rfl (Option.eq_none_iff_forall_ne_some.mpr fun p hp => ?_)
  rw [holds_of_ends_name hp] at h
  cases h

/-- The mark of a tag begins with a percent sign. -/
theorem markRule_none_of_ne (h : c ≠ '%') : markRule.match? (c :: rest) = none :=
  markRule_none fun _ _ hsame => h (List.head_eq_of_cons_eq hsame)

/-- A quoted character begins with a quote. -/
theorem literalRule_none_of_ne (h : c ≠ '"' ∧ c ≠ '\'') :
    literalRule.match? (c :: rest) = none := by
  refine literalRule_none fun quote d later hquote _ hsame => ?_
  obtain rfl := List.head_eq_of_cons_eq hsame
  exact hquote.elim h.1 h.2

/-- What begins a name begins nothing else. -/
theorem ne_of_nameStart (h : nameStart.holds c = true) : c ∉ ruleLexer.ignored ∧ c ≠ '%' ∧
    c ≠ '"' ∧ c ≠ '\'' ∧ c ∉ ruleLexer.literals := by
  have hothers : (ruleLexer.ignored ++ ['%', '"', '\''] ++ ruleLexer.literals).all
      (fun d => !nameStart.holds d) = true := by decide
  have hne : ∀ d ∈ ruleLexer.ignored ++ ['%', '"', '\''] ++ ruleLexer.literals, c ≠ d := by
    rintro d hd rfl
    have hother := List.all_eq_true.mp hothers c hd
    rw [h] at hother
    cases hother
  simp only [List.mem_append, or_imp, forall_and] at hne
  exact ⟨fun hmem => hne.1.1 c hmem rfl, hne.1.2 _ (by simp), hne.1.2 _ (by simp),
    hne.1.2 _ (by simp), fun hmem => hne.2 c hmem rfl⟩

/-! ## Steps -/

/-- A step that makes a token, at the place of the cursor, or passes over a blank. -/
def pieceScanned (item : Option (Symbol × String)) (cursor after : Cursor) : Scanned :=
  match item with
  | none => .moved after
  | some (kind, text) => .item (.ok ⟨kind, text, cursor.pos, cursor.line⟩) after

/-- A step when a rule takes a text. -/
theorem step_of_match (rule : LexRule) (front : List Char) (hat : cursor.Before (c :: rest))
    (hblank : c ∉ ruleLexer.ignored)
    (hmatch : ruleLexer.firstMatch? (c :: rest) = some (rule, front)) :
    ruleLexer.step cursor = Lexer.applyRule rule front cursor := by
  rw [Lexer.step, hat.rest?_eq]
  dsimp only
  rw [if_neg hblank, hmatch]

/-- The lexer cuts off the piece at the beginning of the text. -/
theorem step_of_piece (h : Piece text rest item) (hat : cursor.Before text) :
    ∃ after, after.Before rest ∧ ruleLexer.step cursor = pieceScanned item cursor after := by
  cases h with
  | @blank c rest hblank =>
      refine ⟨_, hat.advance [c], ?_⟩
      rw [Lexer.step, hat.rest?_eq]
      exact if_pos hblank
  | @mark rest hstop =>
      have hmatch : markRule.match? (['%', 'p', 'r', 'e', 'c'] ++ rest) =
          some (markRule, ['%', 'p', 'r', 'e', 'c']) :=
        LexRule.match?_of_ends markRule rfl (head?_ends_mark.mpr ⟨rest, rfl, hstop, rfl⟩) rfl
          (by simp)
      refine ⟨_, hat.advance ['%', 'p', 'r', 'e', 'c'], ?_⟩
      have hfirst : ruleLexer.firstMatch? (['%', 'p', 'r', 'e', 'c'] ++ rest) =
          some (markRule, ['%', 'p', 'r', 'e', 'c']) := by
        rw [firstMatch?_ruleLexer, hmatch, Option.some_or]
      exact step_of_match markRule ['%', 'p', 'r', 'e', 'c'] hat (by decide) hfirst
  | @literal quote c rest hquote hc =>
      have hmatch : literalRule.match? ([quote, c, quote] ++ rest) =
          some (literalRule, [quote, c, quote]) :=
        LexRule.match?_of_ends literalRule rfl (head?_ends_literal hquote hc) rfl (by simp)
      have hother : quote ≠ '%' ∧ quote ∉ ruleLexer.ignored := by
        rcases hquote with rfl | rfl <;> decide
      refine ⟨_, hat.advance [quote, c, quote], ?_⟩
      rw [step_of_match literalRule [quote, c, quote] hat hother.2
        ((firstMatch?_ruleLexer _).trans
          (by rw [markRule_none_of_ne hother.1]; exact congrArg (Option.or · _) hmatch))]
      -- the edit leaves the character between the quotes
      have htext : (String.ofList [quote, c, quote]).toList = [quote, c, quote] :=
        String.toList_ofList
      show Scanned.item (.ok ⟨_, String.ofList
        (((String.ofList [quote, c, quote]).toList.drop 1).take 1), _, _⟩) _ = _
      rw [htext]
      rfl
  | @name c run rest hstart hrun hstop =>
      obtain ⟨hblank, hpercent, hdouble, hsingle, _⟩ := ne_of_nameStart hstart
      obtain ⟨q, hends, hq⟩ := exists_ends_name hstart hrun hstop
      have hmatch := LexRule.match?_of_ends nameRule rfl hends hq (by simp)
      refine ⟨_, hat.advance (c :: run), ?_⟩
      refine step_of_match nameRule (c :: run) hat hblank ((firstMatch?_ruleLexer _).trans ?_)
      rw [markRule_none_of_ne hpercent, literalRule_none_of_ne ⟨hdouble, hsingle⟩]
      exact hmatch
  | @sign c rest hsign =>
      have hothers : c ∉ ruleLexer.ignored ∧ c ≠ '%' ∧ (c ≠ '"' ∧ c ≠ '\'') ∧
          nameStart.holds c = false ∧ c ∈ ruleLexer.literals := by
        rcases hsign with rfl | rfl <;> decide
      obtain ⟨hblank, hpercent, hquotes, hname, hliteral⟩ := hothers
      refine ⟨_, hat.advance [c], ?_⟩
      have hmatch : ruleLexer.firstMatch? (c :: rest) = none := by
        rw [firstMatch?_ruleLexer, markRule_none_of_ne hpercent, literalRule_none_of_ne hquotes,
          nameRule_none hname]
        rfl
      rw [Lexer.step, hat.rest?_eq]
      dsimp only
      rw [if_neg hblank, hmatch]
      exact if_pos hliteral

/-- Where no piece stands, the lexer reports the next character. -/
theorem step_of_no_piece (h : ∀ later item, ¬ Piece (c :: rest) later item)
    (hat : cursor.Before (c :: rest)) : ruleLexer.step cursor =
      .item (.error ⟨c, cursor.pos⟩) (cursor.advance c.utf8Size) := by
  have hblank : c ∉ ruleLexer.ignored := fun hmem => h _ _ (.blank hmem)
  have hliteral : c ∉ ruleLexer.literals := by
    intro hmem
    have hsign : c ∈ [':', '|'] := hmem
    exact h _ _ (.sign (by simpa using hsign))
  have hname : nameStart.holds c = false := by
    by_contra hstart
    have hsplit := List.takeWhile_append_dropWhile (p := nameInside.holds) (l := rest)
    rw [← hsplit] at h
    refine h _ _ (.name (Bool.not_eq_false _ ▸ hstart) ?_ ?_)
    · exact fun d hd => List.all_eq_true.mp List.all_takeWhile d hd
    · intro d hd
      have := List.head?_dropWhile_not nameInside.holds rest
      rw [Option.mem_def.mp hd] at this
      simpa using this
  have hmatch : ruleLexer.firstMatch? (c :: rest) = none := by
    have hmark := markRule_none fun later hstop hsame =>
      h later _ (by rw [hsame]; exact .mark hstop)
    have hquoted := literalRule_none fun quote d later hquote hd hsame =>
      h later _ (by rw [hsame]; exact .literal hquote hd)
    rw [firstMatch?_ruleLexer, hmark, hquoted, nameRule_none hname]
    rfl
  rw [Lexer.step, hat.rest?_eq]
  dsimp only
  rw [if_neg hblank, hmatch]
  dsimp only
  rw [if_neg hliteral]
  rfl

/-- A piece is not empty. -/
theorem Piece.length_lt (h : Piece text rest item) : rest.length < text.length := by
  cases h with
  | blank _ => exact Nat.lt_succ_self _
  | mark _ | literal _ _ | name _ _ _ =>
      simp only [List.length_append, List.length_cons, List.length_nil]
      omega
  | sign _ => exact Nat.lt_succ_self _

/-! ## Scans -/

/-- A scan reaches the end of the text, gives at most one token or error for each character, and
every token is the text of a piece. -/
theorem scan_spec (hat : cursor.Before text) (hfuel : text.length < fuel) :
    (ruleLexer.scanFrom fuel cursor).finished = true ∧
      (ruleLexer.scanFrom fuel cursor).items.length ≤ text.length ∧
      ∀ token, .ok token ∈ (ruleLexer.scanFrom fuel cursor).items.map Prod.fst →
        ∃ text rest, Piece text rest (some (token.kind, token.text)) := by
  induction fuel generalizing cursor text with
  | zero => exact absurd hfuel (Nat.not_lt_zero _)
  | succ fuel ih =>
      rw [Lexer.scanFrom]
      by_cases hpiece : ∃ rest item, Piece text rest item
      · obtain ⟨rest, item, hpiece⟩ := hpiece
        obtain ⟨after, hafter, hstep⟩ := step_of_piece hpiece hat
        have hshorter := hpiece.length_lt
        obtain ⟨hfinished, hlength, htokens⟩ := ih hafter (by omega)
        rw [hstep]
        cases item with
        | none => exact ⟨hfinished, hlength.trans hshorter.le, htokens⟩
        | some item =>
            refine ⟨hfinished, ?_, ?_⟩
            · simp only [pieceScanned, List.length_cons]
              omega
            · intro token hmem
              simp only [pieceScanned, List.map_cons, List.mem_cons, Except.ok.injEq] at hmem
              rcases hmem with rfl | hmem
              · exact ⟨_, _, hpiece⟩
              · exact htokens token hmem
      · cases text with
        | nil =>
            have hstep : ruleLexer.step cursor = .finished := by
              rw [Lexer.step, hat.rest?_eq]
            rw [hstep]
            exact ⟨rfl, le_rfl, fun _ hmem => absurd hmem List.not_mem_nil⟩
        | cons c rest =>
            have hstep := step_of_no_piece (fun later item h => hpiece ⟨later, item, h⟩) hat
            obtain ⟨hfinished, hlength, htokens⟩ :=
              ih (hat.advance [c]) (by simpa using hfuel)
            rw [hstep]
            refine ⟨hfinished, ?_, ?_⟩
            · simp only [List.length_cons]
              exact Nat.succ_le_succ hlength
            · intro token hmem
              simp only [List.map_cons, List.mem_cons, reduceCtorEq, false_or] at hmem
              exact htokens token hmem

/-- The kinds and texts of the tokens into which pieces cut a text. -/
inductive Cut : List Char → List (Symbol × String) → Prop
  | nil : Cut [] []
  | piece {text rest : List Char} {item : Option (Symbol × String)}
      {items : List (Symbol × String)} : Piece text rest item → Cut rest items →
      Cut text (item.toList ++ items)

/-- A text that pieces make up is scanned without an error. -/
theorem scan_of_cut {items : List (Symbol × String)} (h : Cut text items)
    (hat : cursor.Before text) (hfuel : text.length < fuel) :
    ∃ tokens : List Token, (ruleLexer.scanFrom fuel cursor).items.map Prod.fst = tokens.map .ok ∧
      tokens.map (fun token => (token.kind, token.text)) = items := by
  induction h generalizing cursor fuel with
  | nil =>
      obtain ⟨fuel, rfl⟩ := Nat.exists_eq_succ_of_ne_zero (Nat.ne_zero_of_lt hfuel)
      have hstep : ruleLexer.step cursor = .finished := by
        rw [Lexer.step, hat.rest?_eq]
      rw [Lexer.scanFrom, hstep]
      exact ⟨[], rfl, rfl⟩
  | @piece text rest item items hpiece _ ih =>
      obtain ⟨fuel, rfl⟩ := Nat.exists_eq_succ_of_ne_zero (Nat.ne_zero_of_lt hfuel)
      obtain ⟨after, hafter, hstep⟩ := step_of_piece hpiece hat
      have hshorter := hpiece.length_lt
      obtain ⟨tokens, hscan, hitems⟩ :=
        ih hafter (Nat.lt_of_lt_of_le hshorter (Nat.le_of_lt_succ hfuel))
      rw [Lexer.scanFrom, hstep]
      cases item with
      | none => exact ⟨tokens, hscan, hitems⟩
      | some item =>
          refine ⟨⟨item.1, item.2, cursor.pos, cursor.line⟩ :: tokens, ?_, ?_⟩
          · exact congrArg (_ :: ·) hscan
          · exact congrArg (_ :: ·) hitems

end ShiftReduce.RuleText
