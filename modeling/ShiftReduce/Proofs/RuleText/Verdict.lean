import ShiftReduce.Proofs.RuleText.Pieces
import ShiftReduce.Proofs.RuleText.Spelling

/-!
# Which texts are rules

A text is a rule if and only if its tokens spell one. The engine may recover from errors and accept
something later, but then the count of errors is not zero; and as every slot is a meaning of its
symbol, no reduction complains, which would go uncounted. An error of the lexer wins over all
others. Read `read_exact` first.
-/

namespace ShiftReduce.RuleText

open Engine

variable {source : List (Except LexError Token)} {tokens : List Token} {fuel errors : Nat}
  {text : String}

/-- Tokens that the lexer makes: they stand for terminals of rules, and a literal is one
character. -/
def Sound (source : List (Except LexError Token)) : Prop :=
  ∀ token, .ok token ∈ source → Proper token ∧ token.kind ≠ .error ∧ token.kind ≠ .endOfInput

/-- The beginning of a run of the reader. -/
abbrev begin (source : List (Except LexError Token)) : Config Value Nat :=
  { source, context := 0 }

theorem meaningful_begin (h : Sound source) :
    Meaningful reader.toMachine meaning Proper (begin source) :=
  meaningful_start 0 fun token hmem => (h token hmem).1

/-- The reader comes to an end. -/
theorem finished (h : Sound source) (hfuel : 16 * source.length < fuel) :
    (run reader.toMachine fuel (begin source)).1 ≠ .unfinished :=
  finished_of_work clear_reader.built clear_reader.ends (fun hp => (nowhere_reader hp).2)
    countsErrors_reader.unwinds computes_reader graded_reader (meaningful_begin h)
    (orderly_start 0 fun token hmem => (h token hmem).2) hfuel

/-- An error of the lexer decides, whatever comes before it. -/
theorem verdict_of_error (h : Sound source) {e : LexError} {later : List (Except LexError Token)}
    (hsource : source = tokens.map .ok ++ .error e :: later)
    (hfinished : (run reader.toMachine fuel (begin source)).1 ≠ .unfinished) :
    verdict text (run reader.toMachine fuel (begin source)) = .error (.lex e) := by
  have houtcome : (run reader.toMachine fuel (begin source)).1 = .illegal e :=
    illegal_of_error clear_reader.built
      (fun token hresumes => absurd hresumes (countsErrors_reader.unwinds.not_resumesWith token))
      (.start _ source 0) (drained_start 0 fun token hmem => (h token hmem).2.2) hfinished hsource
  generalize run reader.toMachine fuel (begin source) = result at houtcome
  obtain ⟨outcome, final⟩ := result
  cases houtcome
  rfl

/-- What spells a rule is read as that rule. -/
theorem verdict_of_spells (h : Sound (tokens.map .ok)) {rule : RuleDecl}
    (hspells : SpellsRule tokens rule)
    (hfinished : (run reader.toMachine fuel (begin (tokens.map .ok))).1 ≠ .unfinished) :
    verdict text (run reader.toMachine fuel (begin (tokens.map .ok))) = .ok rule := by
  obtain ⟨tree, hparses, rfl, heval⟩ := hspells.grown
  have hproper : ∀ token ∈ ParseTree.yields [tree], Proper token := by
    intro token hmem
    rw [ParseTree.yields_singleton] at hmem
    exact (h token (List.mem_map_of_mem hmem)).1
  have hsmooth := computes_reader.smooth 0 (ParseTree.parsesAll_singleton.mpr hparses) hproper
  obtain ⟨_, hstart, _⟩ := tables_parser? reader parser?_eq
  obtain ⟨fuel', haccepted, hcontext, _⟩ := exists_run_of_smooth clear_reader hstart hparses
    (ParseTree.smoothAll_singleton.mp hsmooth)
  have hrun : run reader.toMachine fuel _ = run reader.toMachine fuel' _ :=
    run_eq_of_finished hfinished (by rw [haccepted]; simp)
  rw [hrun]
  rw [heval] at haccepted hcontext
  generalize run reader.toMachine fuel' _ = result at haccepted hcontext
  obtain ⟨outcome, final⟩ := result
  cases haccepted
  exact if_pos hcontext

/-- What is read as a rule spells it. -/
theorem spells_of_verdict (h : Sound (tokens.map .ok)) {rule : RuleDecl}
    (hverdict : verdict text (run reader.toMachine fuel (begin (tokens.map .ok))) = .ok rule) :
    SpellsRule tokens rule := by
  have hproper : ∀ token ∈ tokens, Proper token :=
    fun token hmem => (h token (List.mem_map_of_mem hmem)).1
  have hplain : ∀ token ∈ tokens, token.kind ≠ .endOfInput :=
    fun token hmem => (h token (List.mem_map_of_mem hmem)).2.2
  obtain ⟨haccepted, hcontext⟩ :
      (run reader.toMachine fuel (begin (tokens.map .ok))).1 = .accepted (some (.rule rule)) ∧
        (run reader.toMachine fuel (begin (tokens.map .ok))).2.context = 0 := by
    generalize run reader.toMachine fuel _ = result at hverdict
    obtain ⟨outcome, final⟩ := result
    unfold verdict at hverdict
    split at hverdict
    · cases hverdict
    · rename_i hresult
      split at hverdict
      · rename_i hcontext
        cases hverdict
        cases hresult
        exact ⟨rfl, hcontext⟩
      · cases hverdict
    · cases hverdict
  -- a count of zero means that there was no error, so that a tree was evaluated
  have herrorless := (errorless_of_count clear_reader.built clear_reader.ends
    (fun hp => (nowhere_reader hp).2) countsErrors_reader computes_reader fuel
    (meaningful_begin h) (fun _ => rfl)).2 hcontext
  obtain ⟨name, tree, slot, hname, hparses, hyield, heval, hvalue⟩ :=
    traced_start.evaluates_of_smooth clear_reader.built clear_reader.ends computes_reader.smooth
      hproper (at_start hplain) haccepted herrorless
  obtain ⟨_, hstart, _⟩ := tables_parser? reader parser?_eq
  cases hstart.symm.trans hname
  obtain ⟨slot', ⟨rule', hslot, hspells⟩, heval'⟩ := computes_reader.eval 0 hparses
    (by rw [hyield]; exact hproper)
  rw [heval] at heval'
  obtain ⟨rfl, _⟩ := Prod.mk.inj heval'
  rw [hslot] at hvalue
  cases hvalue
  rwa [hyield] at hspells

/-- What spells no rule is refused. -/
theorem verdict_of_not_spells (h : Sound (tokens.map .ok))
    (hspells : ∀ rule, ¬ SpellsRule tokens rule) :
    verdict text (run reader.toMachine fuel (begin (tokens.map .ok))) =
      .error (.invalid text) := by
  have hlegal : ∀ e, (run reader.toMachine fuel (begin (tokens.map .ok))).1 ≠ .illegal e :=
    fun e => legal_of_tokens clear_reader.built (.start _ _ 0) rfl fuel
  have hrule : ∀ rule, verdict text
      (run reader.toMachine fuel (begin (tokens.map .ok))) ≠ .ok rule :=
    fun rule hverdict => hspells rule (spells_of_verdict h hverdict)
  generalize run reader.toMachine fuel _ = result at hlegal hrule ⊢
  obtain ⟨outcome, final⟩ := result
  cases outcome with
  | illegal e => exact absurd rfl (hlegal e)
  | failed => rfl
  | unfinished => rfl
  | accepted value =>
      match value with
      | some (.rule rule) => exact if_neg fun hcontext => hrule rule (if_pos hcontext)
      | some (.symbol _) => rfl
      | some (.symbols _) => rfl
      | some (.alternative _) => rfl
      | some (.alternatives _) => rfl
      | none => rfl

/-! ## Texts -/

/-- The tokens of a text are sound: each is the text of a piece. -/
theorem sound_of_piece {token : Token} {rest : List Char} {characters : List Char}
    (h : Piece characters rest (some (token.kind, token.text))) :
    Proper token ∧ token.kind ≠ .error ∧ token.kind ≠ .endOfInput := by
  obtain ⟨kind, text, pos, line⟩ := token
  have hbuiltIn : ∀ name : String, name ≠ errorName ∧ name ≠ endName →
      Symbol.token name ≠ .error ∧ Symbol.token name ≠ .endOfInput :=
    fun name hname => ⟨fun heq => hname.1 (Symbol.token.inj heq),
      fun heq => hname.2 (Symbol.token.inj heq)⟩
  generalize hitem : some (kind, text) = item at h
  cases h with
  | blank _ => cases hitem
  | mark _ =>
      cases hitem
      exact ⟨⟨rfl, fun hkind => absurd hkind (by simp)⟩, hbuiltIn _ (by decide)⟩
  | literal _ _ =>
      cases hitem
      exact ⟨⟨rfl, fun _ => ⟨_, rfl⟩⟩, hbuiltIn _ (by decide)⟩
  | name _ _ _ =>
      cases hitem
      exact ⟨⟨rfl, fun hkind => absurd hkind (by simp)⟩, hbuiltIn _ (by decide)⟩
  | sign _ =>
      cases hitem
      exact ⟨⟨rfl, fun hkind => nomatch hkind⟩, nofun, nofun⟩

/-- There is fuel for every character of a text. -/
theorem length_lt_fuelFor (text : String) : 16 * text.toList.length < fuelFor text := by
  unfold fuelFor
  omega

/-- The lexer comes to the end of a text, and gives sound tokens, at most one for each character. -/
theorem tokens_spec (text : String) :
    (reader.lexer.scan (fuelFor text) text).finished = true ∧
      Sound (reader.lexer.tokens (fuelFor text) text) ∧
      16 * (reader.lexer.tokens (fuelFor text) text).length < fuelFor text := by
  have hfuel := length_lt_fuelFor text
  obtain ⟨hfinished, hlength, htokens⟩ := scan_spec (.start text.toList)
    (show text.toList.length < fuelFor text by omega)
  rw [lexer_reader]
  refine ⟨hfinished, fun token hmem => ?_, ?_⟩
  · obtain ⟨characters, rest, hpiece⟩ := htokens token hmem
    exact sound_of_piece hpiece
  · have hcount : (ruleLexer.tokens (fuelFor text) text).length ≤ text.toList.length := by
      rw [Lexer.tokens, List.length_map]
      exact hlength
    omega

/-- What was read before does not matter. -/
theorem Reader.read_eq (state : Reader) (text : String) : (state.read text).1 = parse text := by
  unfold parse Reader.read
  rw [parser?_eq]

/-- A text is read by its tokens. -/
theorem parse_eq (text : String) : parse text =
    verdict text (run reader.toMachine (fuelFor text)
      (begin (reader.lexer.tokens (fuelFor text) text))) := by
  unfold parse Reader.read
  rw [parser?_eq]
  rfl

/-- Whatever a reader has read before: the lexer comes to the end of a text, and the engine comes to
an end. The first error of the lexer is the answer, if there is one. Otherwise tokens that spell a
rule give that rule, and all others are refused. -/
theorem read_exact (earlier : List String) (text : String) :
    ∃ parser, parser? = some parser ∧
      (parser.lexer.scan (fuelFor text) text).finished = true ∧
      (parser.parse (fuelFor text) text 0).1 ≠ .unfinished ∧
      (∀ (tokens : List Token) (e : LexError) (later : List (Except LexError Token)),
        parser.lexer.tokens (fuelFor text) text = tokens.map .ok ++ .error e :: later →
          ((({} : Reader).readAll earlier).read text).1 = .error (.lex e)) ∧
      (∀ (tokens : List Token) (rule : RuleDecl),
        parser.lexer.tokens (fuelFor text) text = tokens.map .ok →
          SpellsRule tokens rule → ((({} : Reader).readAll earlier).read text).1 = .ok rule) ∧
      (∀ tokens : List Token, parser.lexer.tokens (fuelFor text) text = tokens.map .ok →
        (∀ rule, ¬ SpellsRule tokens rule) →
          ((({} : Reader).readAll earlier).read text).1 = .error (.invalid text)) := by
  obtain ⟨hscanned, hsound, hfuel⟩ := tokens_spec text
  have hfinished := finished hsound hfuel
  rw [Reader.read_eq, parse_eq]
  refine ⟨reader, parser?_eq, hscanned, hfinished, ?_, ?_, ?_⟩
  · intro tokens e later hsource
    exact verdict_of_error hsound hsource hfinished
  · intro tokens rule hsource hspells
    rw [hsource] at hsound hfinished ⊢
    exact verdict_of_spells hsound hspells hfinished
  · intro tokens hsource hspells
    rw [hsource] at hsound ⊢
    exact verdict_of_not_spells hsound hspells

end ShiftReduce.RuleText
