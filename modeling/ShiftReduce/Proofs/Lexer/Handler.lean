import ShiftReduce.Proofs.Lexer.Tiling

/-!
# Progress of error handlers

A handler is asked about a character that nothing else takes. If it leaves the cursor where it is,
the character is an error and is passed over; if it leaves the cursor elsewhere, the lexer goes on
from there, also from an earlier place. So what the handler does not get past is reported just if
the handler never goes back, and then scanning ends: `reports_iff` says so for every handler.
Otherwise a character may go unreported and scanning may never end, as in `back_unreported`.
-/

namespace ShiftReduce

/-! ## Handlers -/

/-- The token by which a handler is told of a character. -/
def Token.offending (c : Char) (place : Cursor) : Token :=
  ⟨.error, String.ofList [c], place.pos, place.line⟩

/-- Where a handler leaves the cursor that stood at an offending character. -/
def TokenEdit.leaves (handler : TokenEdit) (c : Char) (place : Cursor) : Cursor :=
  place.moveTo (handler (.offending c place) place).2

namespace Lexer

/-- The character at a place is not ignored, and no rule and no literal takes it. -/
def IllegalAt (lexer : Lexer) (place : Cursor) (c : Char) : Prop :=
  ∃ rest, place.rest? = some rest ∧ lexer.Decides (.illegal c) rest

/-- Each time the handler does not get on, the character is reported and passed over. -/
def Reports (lexer : Lexer) (handler : TokenEdit) (text : String) : Prop :=
  ∀ place c, lexer.Reaches (.start text) place → lexer.IllegalAt place c →
    (handler.leaves c place).pos ≤ place.pos →
    ∃ past, lexer.step place = .item (.error ⟨c, place.pos⟩) past ∧
      past.pos = place.pos + c.utf8Size

/-- The handler never goes back. -/
def NeverBack (lexer : Lexer) (handler : TokenEdit) (text : String) : Prop :=
  ∀ place c, lexer.Reaches (.start text) place → lexer.IllegalAt place c →
    place.pos ≤ (handler.leaves c place).pos

variable {lexer : Lexer} {handler : TokenEdit} {place next : Cursor} {c : Char}

/-- A handler that stays where it is makes the character an error. -/
theorem step_of_stay (hhandler : lexer.onError = some handler) (hillegal : lexer.IllegalAt place c)
    (hstay : (handler.leaves c place).pos = place.pos) : lexer.step place =
      .item (.error ⟨c, place.pos⟩) ((handler.leaves c place).advance c.utf8Size) := by
  obtain ⟨rest, hrest, hdecides⟩ := hillegal
  rw [step_of_illegal hrest hdecides, applyHandler, hhandler]
  exact if_pos hstay

/-- A handler that goes elsewhere is followed, and a token of it is reported. -/
theorem step_of_leave (hhandler : lexer.onError = some handler) (hillegal : lexer.IllegalAt place c)
    (hleave : (handler.leaves c place).pos ≠ place.pos) : lexer.step place =
      match (handler (.offending c place) place).1 with
      | some token => .item (.ok token) (handler.leaves c place)
      | none => .moved (handler.leaves c place) := by
  obtain ⟨rest, hrest, hdecides⟩ := hillegal
  rw [step_of_illegal hrest hdecides, applyHandler, hhandler]
  exact if_neg hleave

/-- A step leads ahead, unless a handler goes back. -/
theorem Leads.ahead (hplain : lexer.Plain) (hhandler : lexer.onError = some handler)
    (hback : ∀ c, lexer.IllegalAt place c → place.pos ≤ (handler.leaves c place).pos)
    (h : lexer.Leads place next) : place.Ahead next := by
  obtain ⟨c, rest, hrest⟩ := h.exists_rest
  obtain ⟨segment, hdecides⟩ := lexer.exists_decides c rest
  by_cases hlegal : ∀ c, segment ≠ .illegal c
  · have hpositive := Text.byteLength_pos hdecides.text_ne_nil
    rw [h.eq_past (step_of_decides hplain hrest hdecides hlegal)]
    exact ⟨rfl, Nat.lt_add_of_pos_right hpositive⟩
  · obtain ⟨c, rfl⟩ : ∃ c, segment = .illegal c := by simpa using hlegal
    have hillegal : lexer.IllegalAt place c := ⟨_, hrest, hdecides⟩
    by_cases hstay : (handler.leaves c place).pos = place.pos
    · rw [Leads, step_of_stay hhandler hillegal hstay] at h
      obtain rfl : (handler.leaves c place).advance c.utf8Size = next := by simpa using h
      refine ⟨rfl, ?_⟩
      show place.pos < (handler.leaves c place).pos + c.utf8Size
      have hpositive := c.utf8Size_pos
      omega
    · have hle := hback c hillegal
      rw [Leads, step_of_leave hhandler hillegal hstay] at h
      obtain rfl : handler.leaves c place = next := by
        cases hresult : (handler (.offending c place) place).1 <;> simpa [hresult] using h
      exact ⟨rfl, by omega⟩

end Lexer

/-! ## Scans that get on -/

/-- A scan that begins at a position comes to an end, and each token or error leaves the cursor
further on. -/
structure Scan.Advances (scan : Scan) (pos : Nat) : Prop where
  ends : scan.finished = true ∨ scan.misplaced = true
  increases : (pos :: scan.items.map fun found => found.2.pos).Pairwise (· < ·)

namespace Scan.Advances

variable {scan : Scan} {pos later : Nat} {next : Cursor}

/-- A scan that advances from a later position advances. -/
theorem moved (h : scan.Advances later) (hlt : pos < later) : scan.Advances pos := by
  obtain ⟨hbehind, hlater⟩ := List.pairwise_cons.mp h.increases
  exact ⟨h.ends, List.pairwise_cons.mpr ⟨fun n hn => Nat.lt_trans hlt (hbehind n hn), hlater⟩⟩

/-- A token or an error before a scan that advances. -/
theorem item (h : scan.Advances next.pos) (hlt : pos < next.pos)
    (item : Except LexError Token) :
    ({ scan with items := (item, next) :: scan.items } : Scan).Advances pos := by
  have hbehind := (List.pairwise_cons.mp (h.moved hlt).increases).1
  refine ⟨h.ends, List.pairwise_cons.mpr ⟨fun n hn => ?_, h.increases⟩⟩
  rcases List.mem_cons.mp hn with rfl | hn
  · exact hlt
  · exact hbehind n hn

end Scan.Advances

namespace Lexer

variable {lexer : Lexer} {handler : TokenEdit} {cursor : Cursor} {fuel : Nat}

/-- Where all steps lead ahead, scanning advances. -/
theorem scanFrom_advances
    (hahead : ∀ place next, lexer.Reaches cursor place → lexer.Leads place next → place.Ahead next)
    (hfuel : cursor.rest.length < fuel) : (lexer.scanFrom fuel cursor).Advances cursor.pos := by
  induction fuel generalizing cursor with
  | zero => exact absurd hfuel (Nat.not_lt_zero _)
  | succ fuel ih =>
      have hgoes : ∀ next, lexer.Leads cursor next →
          cursor.pos < next.pos ∧ (lexer.scanFrom fuel next).Advances next.pos := by
        intro next hleads
        obtain ⟨c, rest, hrest⟩ := hleads.exists_rest
        have hnext := hahead cursor next .refl hleads
        have hshorter := hnext.rest_shorter hrest
        exact ⟨hnext.2, ih (fun place after hplace => hahead place after (.head hleads hplace))
          (by omega)⟩
      rw [scanFrom]
      cases hstep : lexer.step cursor with
      | finished => exact ⟨Or.inl rfl, List.pairwise_singleton _ _⟩
      | misplaced => exact ⟨Or.inr rfl, List.pairwise_singleton _ _⟩
      | moved next =>
          obtain ⟨hlt, hlater⟩ := hgoes next (Or.inl hstep)
          exact hlater.moved hlt
      | item item next =>
          obtain ⟨hlt, hlater⟩ := hgoes next (Or.inr ⟨item, hstep⟩)
          exact hlater.item hlt item

/-- Where every place of a kind leads to another one of this kind, scanning never ends. -/
theorem scanFrom_unfinished {kind : Cursor → Prop}
    (hgoes : ∀ place, kind place → ∃ next, lexer.Leads place next ∧ kind next)
    (hcursor : kind cursor) (fuel : Nat) : (lexer.scanFrom fuel cursor).finished = false ∧
      (lexer.scanFrom fuel cursor).misplaced = false := by
  induction fuel generalizing cursor with
  | zero => exact ⟨rfl, rfl⟩
  | succ fuel ih =>
      obtain ⟨next, hleads, hnext⟩ := hgoes cursor hcursor
      rw [scanFrom]
      rcases hleads with hstep | ⟨item, hstep⟩
      all_goals
        rw [hstep]
        exact ih hnext

/-- Let the rules of a lexer keep their matches. Whatever the handler does, a character for which it
does not get on is reported and passed over each time just if the handler never goes back. Then
scanning comes to an end, at the end of the input or inside a character to which the handler or a
match led, and the places behind what is reported increase. -/
theorem reports_iff (hplain : lexer.Plain) (hhandler : lexer.onError = some handler)
    (text : String) : (lexer.Reports handler text ↔ lexer.NeverBack handler text) ∧
      (lexer.Reports handler text → ∀ fuel, fuelFor text ≤ fuel →
        (lexer.scan fuel text).Advances 0) := by
  have hreports : lexer.Reports handler text ↔ lexer.NeverBack handler text := by
    constructor
    · intro hreports place c hplace hillegal
      refine Nat.not_lt.mp fun hback => ?_
      obtain ⟨past, hstep, -⟩ := hreports place c hplace hillegal (by omega)
      rw [step_of_leave hhandler hillegal (by omega)] at hstep
      cases hresult : (handler (.offending c place) place).1 <;> simp [hresult] at hstep
    · intro hnever place c hplace hillegal hle
      have hstay := Nat.le_antisymm hle (hnever place c hplace hillegal)
      refine ⟨_, step_of_stay hhandler hillegal hstay, ?_⟩
      show (handler.leaves c place).pos + c.utf8Size = _
      rw [hstay]
  refine ⟨hreports, fun hall fuel hfuel => ?_⟩
  have hahead : ∀ place next, lexer.Reaches (.start text) place → lexer.Leads place next →
      place.Ahead next := fun place next hplace hleads =>
    hleads.ahead hplain hhandler fun c hillegal => hreports.mp hall place c hplace hillegal
  have hrest : (Cursor.start text).rest = text.toList := by
    rw [Cursor.rest, Cursor.start, (Cursor.Before.start text.toList).rest?_eq]
    rfl
  have hshort : (Cursor.start text).rest.length < fuel := by
    rw [hrest]
    exact Nat.lt_of_succ_le hfuel
  exact scanFrom_advances hahead hshort

/-- A handler that stops at exclamation marks and passes over everything else. -/
def stopAtMarks : TokenEdit := fun token cursor =>
  if token.text = "!" then (some token, cursor) else (none, cursor.skip 1)

/-- The lexer of letters with this handler. -/
def markedLetters : Lexer :=
  { letters with onError := some stopAtMarks }

theorem reports_iff_letters : markedLetters.Plain ∧
    markedLetters.onError = some stopAtMarks ∧ markedLetters.Reports stopAtMarks "a!?" ∧
    (markedLetters.scan 4 "a!?").Advances 0 := by
  have hplain : markedLetters.Plain := plain_letters
  have hnever : markedLetters.NeverBack stopAtMarks "a!?" := by
    intro place c _ _
    show place.pos ≤ (stopAtMarks (.offending c place) place).2.pos
    unfold stopAtMarks
    split
    · exact Nat.le_refl _
    · exact Nat.le_add_right _ _
  obtain ⟨hreports, hadvances⟩ := reports_iff hplain rfl "a!?"
  have hall := hreports.mpr hnever
  exact ⟨hplain, rfl, hall, hadvances hall 4 (by decide)⟩

/-- A handler that goes to the second byte, wherever it is asked. -/
def toSecond : TokenEdit := fun _ cursor =>
  (none, { cursor with pos := 1 })

/-- Two letters, and the second of them before a dollar sign. -/
def rewinding : Lexer :=
  { rules :=
      [⟨anchoredText "ab",
          (Pattern.seq (.anchor .textStart)
            (.seq (.one (.single 'a')) (.one (.single 'b')))).find?,
          .token (.token "AB") none⟩,
        ⟨anchoredText "b\\$",
          (Pattern.seq (.anchor .textStart)
            (.seq (.one (.single 'b')) (.one (.single '$')))).find?,
          .token (.token "B") none⟩]
    onError := some toSecond }

/-- The handler goes back from a dollar sign, which is not reported; and it goes back from an
exclamation mark again and again. -/
theorem back_unreported : rewinding.Plain ∧ rewinding.onError = some toSecond ∧
    ¬ rewinding.Reports toSecond "ab$" ∧
    rewinding.tokens (fuelFor "ab$") "ab$" =
      [.ok ⟨.token "AB", "ab", 0, 1⟩, .ok ⟨.token "B", "b$", 1, 1⟩] ∧
    ∀ fuel, (rewinding.scan fuel "ab!").finished = false := by
  refine ⟨?_, rfl, fun hreports => ?_, rfl, fun fuel => ?_⟩
  · exact List.forall_mem_cons.mpr ⟨.token _, List.forall_mem_singleton.mpr (.token _)⟩
  · have hplace : rewinding.Reaches (.start "ab$") ((Cursor.start "ab$").advance 2) :=
      .single (Or.inr ⟨_, rfl⟩)
    have hillegal : rewinding.IllegalAt ((Cursor.start "ab$").advance 2) '$' :=
      ⟨['$'], rfl, .illegal List.not_mem_nil (firstMatch?_eq_none_iff.mp rfl) List.not_mem_nil⟩
    obtain ⟨past, hstep, -⟩ := hreports _ '$' hplace hillegal (by decide)
    cases hstep
  · have hgoes : ∀ place : Cursor, place.input = "ab!".toList ∧ place.pos ≤ 2 →
        ∃ next, rewinding.Leads place next ∧ next.input = "ab!".toList ∧ next.pos ≤ 2 := by
      rintro ⟨input, pos, line⟩ ⟨hinput, hpos⟩
      dsimp only at hinput hpos
      subst hinput
      match pos, hpos with
      | 0, _ => exact ⟨_, Or.inr ⟨_, rfl⟩, rfl, Nat.le_refl 2⟩
      | 1, _ => exact ⟨_, Or.inr ⟨_, rfl⟩, rfl, Nat.le_refl 2⟩
      | 2, _ => exact ⟨_, Or.inl rfl, rfl, Nat.le_succ 1⟩
    exact (scanFrom_unfinished hgoes ⟨rfl, Nat.zero_le 2⟩ fuel).1

end Lexer

end ShiftReduce
