import Mathlib.Logic.Relation
import ShiftReduce.Proofs.Lexer.Places

/-!
# How a lexer cuts its input

A lexer whose rules keep their matches cuts its input into segments: ignored characters, skipped
text, the texts of tokens, and characters that are errors. `Decides` says which segment stands at
the beginning of a text; `step_of_decides` and `step_of_illegal` say that a step takes just this
segment. Segment after segment gives `scan_tiles`: the input is used up without a gap, and what is
reported are the segments that are tokens or errors, each with its place.
-/

namespace ShiftReduce

/-! ## Segments -/

/-- A stretch of input with what a lexer takes it for. -/
inductive Segment where
  | ignored (c : Char)
  | skipped (text : List Char)
  | token (kind : Symbol) (text : List Char)
  | illegal (c : Char)

namespace Segment

/-- The characters of a segment. -/
def text : Segment → List Char
  | ignored c | illegal c => [c]
  | skipped text | token _ text => text

/-- What is reported of a segment that begins at a place. -/
def item? (cursor : Cursor) : Segment → Option (Except LexError Token)
  | ignored _ | skipped _ => none
  | token kind text => some (.ok ⟨kind, String.ofList text, cursor.pos, cursor.line⟩)
  | illegal c => some (.error ⟨c, cursor.pos⟩)

/-- The place behind a segment. -/
def past (cursor : Cursor) (segment : Segment) : Cursor :=
  cursor.advance (Text.byteLength segment.text)

/-- The step that takes a segment. -/
def scanned (cursor : Cursor) (segment : Segment) : Scanned :=
  match segment.item? cursor with
  | none => .moved (segment.past cursor)
  | some item => .item item (segment.past cursor)

/-- What is reported of consecutive segments, each time with the place behind the segment. -/
def items (cursor : Cursor) : List Segment → List (Except LexError Token × Cursor)
  | [] => []
  | segment :: later =>
      match segment.item? cursor with
      | none => items (segment.past cursor) later
      | some item => (item, segment.past cursor) :: items (segment.past cursor) later

end Segment

namespace Lexer

/-- The place that a token or an error names. -/
def placeOf : Except LexError Token → Nat
  | .ok token => token.pos
  | .error e => e.pos

/-- The text of a token, or the character of an error. -/
def textOf : Except LexError Token → String
  | .ok token => token.text
  | .error e => String.ofList [e.char]

end Lexer

/-- The segment that a rule makes of its text. -/
def RuleKind.segment (text : List Char) : RuleKind → Segment
  | .token kind _ => .token kind text
  | .skip _ => .skipped text

/-- Matches are kept as they are: nothing is called for them. -/
inductive RuleKind.Plain : RuleKind → Prop
  | token (kind : Symbol) : Plain (.token kind none)
  | skip : Plain (.skip none)

/-- A rule takes no text from the beginning of a text. -/
def LexRule.Passes (rule : LexRule) (rest : List Char) : Prop :=
  ∀ text, rule.find? rest = some text → text = []

/-- What a rule matches stands at the beginning of the text. -/
def LexRule.TakesPrefixes (rule : LexRule) : Prop :=
  ∀ rest text, rule.find? rest = some text → text <+: rest

namespace Lexer

/-- All rules keep their matches. -/
def Plain (lexer : Lexer) : Prop :=
  ∀ rule ∈ lexer.rules, rule.kind.Plain

/-- The segment at the beginning of a text: a character to ignore comes first, then the first rule
that matches some text, then the literals. -/
inductive Decides (lexer : Lexer) : Segment → List Char → Prop
  | ignored {c : Char} {rest : List Char} :
      c ∈ lexer.ignored → Decides lexer (.ignored c) (c :: rest)
  | rule {c : Char} {rest text : List Char} {earlier later : List LexRule} {rule : LexRule} :
      c ∉ lexer.ignored → lexer.rules = earlier ++ rule :: later →
      (∀ other ∈ earlier, other.Passes (c :: rest)) →
      rule.find? (c :: rest) = some text → text ≠ [] →
      Decides lexer (rule.kind.segment text) (c :: rest)
  | literal {c : Char} {rest : List Char} :
      c ∉ lexer.ignored → (∀ rule ∈ lexer.rules, rule.Passes (c :: rest)) → c ∈ lexer.literals →
      Decides lexer (.token (.literal c) [c]) (c :: rest)
  | illegal {c : Char} {rest : List Char} :
      c ∉ lexer.ignored → (∀ rule ∈ lexer.rules, rule.Passes (c :: rest)) → c ∉ lexer.literals →
      Decides lexer (.illegal c) (c :: rest)

/-- Consecutive segments make up a text, each the one that is decided at its beginning. -/
inductive Tiles (lexer : Lexer) : List Segment → List Char → Prop
  | nil : Tiles lexer [] []
  | cons {segment : Segment} {segments : List Segment} {rest : List Char} :
      lexer.Decides segment (segment.text ++ rest) → Tiles lexer segments rest →
      Tiles lexer (segment :: segments) (segment.text ++ rest)

/-- One step leads from a place to another. -/
def Leads (lexer : Lexer) (place next : Cursor) : Prop :=
  lexer.step place = .moved next ∨ ∃ item, lexer.step place = .item item next

/-- Steps lead from a place to another. -/
abbrev Reaches (lexer : Lexer) : Cursor → Cursor → Prop :=
  Relation.ReflTransGen lexer.Leads

end Lexer

variable {lexer : Lexer} {cursor place : Cursor} {rule : LexRule} {c : Char}
  {rest text : List Char} {segment : Segment} {segments : List Segment}

/-! ## What is decided -/

theorem RuleKind.text_segment (kind : RuleKind) (text : List Char) :
    (kind.segment text).text = text := by
  cases kind <;> rfl

namespace LexRule

theorem match?_eq_none_iff : rule.match? rest = none ↔ rule.Passes rest := by
  unfold match? Passes
  rcases rule.find? rest with _ | _ | ⟨c, text⟩ <;> simp

theorem match?_eq_some_iff {taken : LexRule} : rule.match? rest = some (taken, text) ↔
    taken = rule ∧ rule.find? rest = some text ∧ text ≠ [] := by
  unfold match?
  rcases rule.find? rest with _ | _ | ⟨c, found⟩
  · simp
  · simp only [Option.some.injEq, reduceCtorEq, false_iff, not_and]
    rintro - rfl hne
    exact hne rfl
  · simp only [Option.some.injEq, Prod.mk.injEq]
    constructor
    · rintro ⟨rfl, rfl⟩
      exact ⟨rfl, rfl, List.cons_ne_nil _ _⟩
    · rintro ⟨rfl, rfl, -⟩
      exact ⟨rfl, rfl⟩

/-- A rule with a pattern that is tied to the beginning matches there. -/
theorem takesPrefixes_of_anchored {body : Pattern}
    (hrule : rule.find? = (Pattern.seq (.anchor .textStart) body).find?) :
    rule.TakesPrefixes := by
  intro rest text hfind
  rw [hrule] at hfind
  cases rest with
  | nil =>
      rw [Pattern.find?, Pattern.findFrom] at hfind
      split at hfind
      · cases hfind
      · cases hfind
        exact List.nil_prefix
  | cons c rest =>
      rw [Pattern.find?_anchored] at hfind
      obtain ⟨p, -, rfl⟩ := Option.map_eq_some_iff.mp hfind
      exact List.take_prefix _ _

end LexRule

namespace Lexer

theorem firstMatch?_eq_none_iff :
    lexer.firstMatch? rest = none ↔ ∀ rule ∈ lexer.rules, rule.Passes rest := by
  rw [firstMatch?, List.findSome?_eq_none_iff]
  exact forall₂_congr fun _ _ => LexRule.match?_eq_none_iff

theorem firstMatch?_eq_some_iff : lexer.firstMatch? rest = some (rule, text) ↔
    ∃ earlier later, lexer.rules = earlier ++ rule :: later ∧
      (∀ other ∈ earlier, other.Passes rest) ∧ rule.find? rest = some text ∧
      text ≠ [] := by
  rw [firstMatch?, List.findSome?_eq_some_iff]
  constructor
  · rintro ⟨earlier, found, later, hrules, hfound, hearlier⟩
    obtain ⟨rfl, hfind, hne⟩ := LexRule.match?_eq_some_iff.mp hfound
    exact ⟨earlier, later, hrules,
      fun other hother => LexRule.match?_eq_none_iff.mp (hearlier other hother), hfind, hne⟩
  · rintro ⟨earlier, later, hrules, hearlier, hfind, hne⟩
    exact ⟨earlier, rule, later, hrules, LexRule.match?_eq_some_iff.mpr ⟨rfl, hfind, hne⟩,
      fun other hother => LexRule.match?_eq_none_iff.mpr (hearlier other hother)⟩

/-- At every character a segment is decided. -/
theorem exists_decides (lexer : Lexer) (c : Char) (rest : List Char) :
    ∃ segment, lexer.Decides segment (c :: rest) := by
  by_cases hignored : c ∈ lexer.ignored
  · exact ⟨_, .ignored hignored⟩
  · cases hfirst : lexer.firstMatch? (c :: rest) with
    | some taken =>
        obtain ⟨earlier, later, hrules, hearlier, hfind, hne⟩ := firstMatch?_eq_some_iff.mp hfirst
        exact ⟨_, .rule hignored hrules hearlier hfind hne⟩
    | none =>
        have hpasses := firstMatch?_eq_none_iff.mp hfirst
        by_cases hliteral : c ∈ lexer.literals
        · exact ⟨_, .literal hignored hpasses hliteral⟩
        · exact ⟨_, .illegal hignored hpasses hliteral⟩

namespace Decides

theorem text_ne_nil (h : lexer.Decides segment rest) : segment.text ≠ [] := by
  cases h with
  | rule _ _ _ _ hne => rwa [RuleKind.text_segment]
  | ignored _ | literal _ _ _ | illegal _ _ _ => exact List.cons_ne_nil _ _

theorem text_prefix (hprefixes : ∀ rule ∈ lexer.rules, rule.TakesPrefixes)
    (h : lexer.Decides segment rest) : segment.text <+: rest := by
  cases h with
  | @rule c rest text earlier later rule _ hrules _ hfind _ =>
      have hmem : rule ∈ lexer.rules := by simp [hrules]
      rw [RuleKind.text_segment]
      exact hprefixes rule hmem _ _ hfind
  | ignored _ | literal _ _ _ | illegal _ _ _ => exact ⟨_, rfl⟩

end Decides

/-! ## One step -/

theorem applyRule_of_plain (hplain : rule.kind.Plain) (text : List Char) (cursor : Cursor) :
    applyRule rule text cursor = (rule.kind.segment text).scanned cursor := by
  unfold applyRule
  generalize rule.kind = kind at hplain ⊢
  cases hplain <;> rfl

/-- A step takes the segment that is decided, unless the character is illegal. -/
theorem step_of_decides (hplain : lexer.Plain) (hrest : cursor.rest? = some rest)
    (h : lexer.Decides segment rest) (hlegal : ∀ c, segment ≠ .illegal c) :
    lexer.step cursor = segment.scanned cursor := by
  rw [step, hrest]
  cases h with
  | ignored hignored =>
      dsimp only
      rw [if_pos hignored]
      rfl
  | @rule c rest text earlier later rule hignored hrules hearlier hfind hne =>
      have hmem : rule ∈ lexer.rules := by simp [hrules]
      dsimp only
      rw [if_neg hignored,
        firstMatch?_eq_some_iff.mpr ⟨earlier, later, hrules, hearlier, hfind, hne⟩]
      exact applyRule_of_plain (hplain rule hmem) text cursor
  | literal hignored hpasses hliteral =>
      dsimp only
      rw [if_neg hignored, firstMatch?_eq_none_iff.mpr hpasses]
      dsimp only
      rw [if_pos hliteral]
      rfl
  | illegal => exact absurd rfl (hlegal _)

/-- An illegal character is left to the handler. -/
theorem step_of_illegal (hrest : cursor.rest? = some rest)
    (h : lexer.Decides (.illegal c) rest) : lexer.step cursor = lexer.applyHandler c cursor := by
  generalize hsegment : Segment.illegal c = segment at h
  rw [step, hrest]
  cases h with
  | illegal hignored hpasses hliteral =>
      cases hsegment
      dsimp only
      rw [if_neg hignored, firstMatch?_eq_none_iff.mpr hpasses]
      exact if_neg hliteral
  | @rule _ _ _ _ _ rule =>
      cases hkind : rule.kind <;> rw [hkind] at hsegment <;> cases hsegment
  | ignored _ | literal _ _ _ => cases hsegment

/-- Without a handler a step takes the segment that is decided, whichever it is. -/
theorem step_of_no_handler (hplain : lexer.Plain) (hhandler : lexer.onError = none)
    (hrest : cursor.rest? = some rest) (h : lexer.Decides segment rest) :
    lexer.step cursor = segment.scanned cursor := by
  by_cases hlegal : ∀ c, segment ≠ .illegal c
  · exact step_of_decides hplain hrest h hlegal
  · obtain ⟨c, rfl⟩ : ∃ c, segment = .illegal c := by simpa using hlegal
    rw [step_of_illegal hrest h, applyHandler, hhandler]
    rfl

/-- Steps lead on only where there is a character. -/
theorem Leads.exists_rest {next : Cursor} (h : lexer.Leads place next) :
    ∃ c rest, place.rest? = some (c :: rest) := by
  rw [Leads, step] at h
  rcases hrest : place.rest? with _ | _ | ⟨c, rest⟩
  · simp [hrest] at h
  · simp [hrest] at h
  · exact ⟨c, rest, rfl⟩

/-- Where a segment is taken, a step leads to the place behind it. -/
theorem Leads.eq_past (hstep : lexer.step place = segment.scanned place) {next : Cursor}
    (h : lexer.Leads place next) : next = segment.past place := by
  rw [Leads, hstep, Segment.scanned] at h
  cases hitem : segment.item? place <;> simpa [hitem, eq_comm] using h

/-! ## The whole input -/

namespace Tiles

theorem flatMap_text (h : lexer.Tiles segments text) : segments.flatMap Segment.text = text := by
  induction h with
  | nil => rfl
  | cons _ _ ih => rw [List.flatMap_cons, ih]

theorem text_ne_nil (h : lexer.Tiles segments text) (hmem : segment ∈ segments) :
    segment.text ≠ [] := by
  induction h with
  | nil => cases hmem
  | cons hdecides _ ih =>
      rcases List.mem_cons.mp hmem with rfl | hmem
      · exact hdecides.text_ne_nil
      · exact ih hmem

/-- The later ones of some segments make up what is left of the text. -/
theorem later {first more : List Segment} (h : lexer.Tiles (first ++ more) text) :
    ∃ rest, text = first.flatMap Segment.text ++ rest ∧ lexer.Tiles more rest := by
  induction first generalizing text with
  | nil => exact ⟨text, rfl, h⟩
  | cons segment first ih =>
      cases h with
      | cons _ htiles =>
          obtain ⟨rest, rfl, hmore⟩ := ih htiles
          exact ⟨rest, by rw [List.flatMap_cons, List.append_assoc], hmore⟩

end Tiles

/-- Every text is made up of segments. -/
theorem exists_tiles (hprefixes : ∀ rule ∈ lexer.rules, rule.TakesPrefixes) (text : List Char) :
    ∃ segments, lexer.Tiles segments text := by
  induction hlength : text.length using Nat.strongRecOn generalizing text with
  | ind n ih =>
      cases text with
      | nil => exact ⟨[], .nil⟩
      | cons c rest =>
          obtain ⟨segment, hdecides⟩ := lexer.exists_decides c rest
          obtain ⟨back, hback⟩ := hdecides.text_prefix hprefixes
          have hpositive := List.length_pos_iff.mpr hdecides.text_ne_nil
          have hshorter : back.length < n := by
            rw [← hlength, ← hback, List.length_append]
            omega
          obtain ⟨segments, htiles⟩ := ih back.length hshorter back rfl
          rw [← hback] at hdecides ⊢
          exact ⟨segment :: segments, .cons hdecides htiles⟩

/-- A lexer scans the segments of what is left, one after the other. -/
theorem scanFrom_of_tiles (hplain : lexer.Plain) (hhandler : lexer.onError = none)
    (htiles : lexer.Tiles segments rest) {cursor : Cursor} (hat : cursor.Before rest) {fuel : Nat}
    (hfuel : rest.length < fuel) : lexer.scanFrom fuel cursor =
      { items := Segment.items cursor segments
        final := cursor.advance (Text.byteLength rest)
        finished := true } := by
  induction htiles generalizing cursor fuel with
  | nil =>
      obtain ⟨fuel, rfl⟩ := Nat.exists_eq_succ_of_ne_zero (Nat.ne_zero_of_lt hfuel)
      rw [scanFrom, step, hat.rest?_eq]
      rfl
  | @cons segment segments rest hdecides htiles ih =>
      obtain ⟨fuel, rfl⟩ := Nat.exists_eq_succ_of_ne_zero (Nat.ne_zero_of_lt hfuel)
      have hpositive := List.length_pos_iff.mpr hdecides.text_ne_nil
      rw [List.length_append] at hfuel
      have hlater := ih (hat.advance segment.text) (show rest.length < fuel by omega)
      rw [Cursor.advance_advance, ← Text.byteLength_append] at hlater
      rw [scanFrom, step_of_no_handler hplain hhandler hat.rest?_eq hdecides, Segment.scanned,
        Segment.items]
      cases segment.item? cursor with
      | none => exact hlater
      | some item =>
          dsimp only
          rw [Segment.past, hlater]

/-- All places that are reached are between two segments. -/
theorem Reaches.between (hplain : lexer.Plain) (hhandler : lexer.onError = none)
    (htiles : lexer.Tiles segments rest) (hat : cursor.Before rest)
    (h : lexer.Reaches cursor place) :
    ∃ first more, segments = first ++ more ∧
      place = cursor.advance (Text.byteLength (first.flatMap Segment.text)) := by
  induction h with
  | refl => exact ⟨[], segments, rfl, rfl⟩
  | @tail place next _ hleads ih =>
      obtain ⟨first, more, rfl, rfl⟩ := ih
      obtain ⟨left, rfl, hmore⟩ := htiles.later
      have hplace := (hat.advance (first.flatMap Segment.text)).rest?_eq
      cases hmore with
      | nil =>
          obtain ⟨c, rest, hrest⟩ := hleads.exists_rest
          cases hplace.symm.trans hrest
      | @cons segment more left hdecides hmore =>
          have hstep := step_of_no_handler hplain hhandler hplace hdecides
          refine ⟨first ++ [segment], more, by simp, ?_⟩
          rw [hleads.eq_past hstep, Segment.past, Cursor.advance_advance,
            List.flatMap_append, Text.byteLength_append, List.flatMap_singleton]

end Lexer

/-! ## What is reported -/

namespace Segment

open Lexer

variable {item : Except LexError Token} {past : Cursor}

theorem of_item? (h : segment.item? cursor = some item) :
    textOf item = String.ofList segment.text ∧ placeOf item = cursor.pos := by
  cases segment with
  | ignored _ | skipped _ => cases h
  | token _ _ | illegal _ =>
      obtain rfl := Option.some.inj h
      exact ⟨rfl, rfl⟩

theorem mem_items_cons : (item, past) ∈ items cursor (segment :: segments) ↔
    segment.item? cursor = some item ∧ past = segment.past cursor ∨
      (item, past) ∈ items (segment.past cursor) segments := by
  rw [items]
  cases segment.item? cursor <;> simp [eq_comm]

/-- Whatever is reported is reported of a segment. -/
theorem exists_of_mem_items (h : (item, past) ∈ items cursor segments) :
    ∃ first segment more, segments = first ++ segment :: more ∧
      segment.item? (cursor.advance (Text.byteLength (first.flatMap Segment.text))) = some item ∧
      past = segment.past (cursor.advance (Text.byteLength (first.flatMap Segment.text))) := by
  induction segments generalizing cursor with
  | nil => cases h
  | cons segment segments ih =>
      rcases mem_items_cons.mp h with ⟨hitem, hpast⟩ | hmem
      · exact ⟨[], segment, segments, rfl, hitem, hpast⟩
      · obtain ⟨first, taken, more, rfl, hitem, hpast⟩ := ih hmem
        have hplace : (segment.past cursor).advance (Text.byteLength (first.flatMap Segment.text)) =
            cursor.advance (Text.byteLength ((segment :: first).flatMap Segment.text)) := by
          rw [Segment.past, Cursor.advance_advance, List.flatMap_cons, Text.byteLength_append]
        rw [hplace] at hitem hpast
        exact ⟨segment :: first, taken, more, rfl, hitem, hpast⟩

/-- Nothing that is reported begins before the segments. -/
theorem le_placeOf (h : (item, past) ∈ items cursor segments) : cursor.pos ≤ placeOf item := by
  obtain ⟨first, segment, more, -, hitem, -⟩ := exists_of_mem_items h
  rw [(of_item? hitem).2]
  exact Nat.le_add_right _ _

/-- What is reported of segments that make up an input is text of the input, at the place that it
names. -/
theorem exists_slice {input : String} (hinput : segments.flatMap Segment.text = input.toList)
    (hne : ∀ segment ∈ segments, segment.text ≠ [])
    (h : (item, past) ∈ items (.start input) segments) :
    ∃ front back, input = front ++ textOf item ++ back ∧ textOf item ≠ "" ∧
      placeOf item = front.utf8ByteSize ∧ past.pos = (front ++ textOf item).utf8ByteSize := by
  obtain ⟨first, segment, more, rfl, hitem, rfl⟩ := exists_of_mem_items h
  obtain ⟨htext, hplace⟩ := of_item? hitem
  have hsegment := hne segment (List.mem_append_right first List.mem_cons_self)
  have hfront : ((Cursor.start input).advance
      (Text.byteLength (first.flatMap Segment.text))).pos =
        (String.ofList (first.flatMap Segment.text)).utf8ByteSize := by
    rw [← Text.byteLength_eq]
    exact Nat.zero_add _
  refine ⟨String.ofList (first.flatMap Segment.text), String.ofList (more.flatMap Segment.text),
    ?_, ?_, hplace.trans hfront, ?_⟩
  · rw [htext, ← String.ofList_append, ← String.ofList_append, ← String.ofList_toList (s := input),
      ← hinput, List.flatMap_append, List.flatMap_cons, List.append_assoc]
  · rw [htext]
    simpa using hsegment
  · rw [String.utf8ByteSize_append, htext, ← hfront, ← Text.byteLength_eq]
    rfl

/-- The places of what is reported increase. -/
theorem places_increase (hne : ∀ segment ∈ segments, segment.text ≠ []) (cursor : Cursor) :
    ((items cursor segments).map fun found => placeOf found.1).Pairwise (· < ·) := by
  induction segments generalizing cursor with
  | nil => exact .nil
  | cons segment segments ih =>
      obtain ⟨hsegment, hne⟩ := List.forall_mem_cons.mp hne
      have hlater := ih hne (segment.past cursor)
      rw [items]
      cases hitem : segment.item? cursor with
      | none => exact hlater
      | some item =>
          refine List.pairwise_cons.mpr ⟨fun n hn => ?_, hlater⟩
          obtain ⟨⟨next, past⟩, hmem, rfl⟩ := List.mem_map.mp hn
          have hplace := (of_item? hitem).2
          have hnext : cursor.pos + Text.byteLength segment.text ≤ placeOf next := le_placeOf hmem
          have hpositive := Text.byteLength_pos hsegment
          dsimp only
          omega

end Segment

namespace Lexer

/-- A lexer whose rules keep their matches, and which has no handler, cuts every input into
segments. Each is the one that is decided at its beginning, and together they are the input. The
lexer comes to the end, where it has reported just the tokens and errors among the segments. All
places on the way are between two segments. What is reported is some text of the input at the place
that it names, and the lexer goes on right behind this text. These places increase. -/
theorem scan_tiles (hplain : lexer.Plain) (hhandler : lexer.onError = none)
    (hprefixes : ∀ rule ∈ lexer.rules, rule.TakesPrefixes) (text : String) :
    ∃ segments, lexer.Tiles segments text.toList ∧
      segments.flatMap Segment.text = text.toList ∧
      (∀ fuel, fuelFor text ≤ fuel → lexer.scan fuel text =
        { items := Segment.items (.start text) segments
          final := (Cursor.start text).advance text.utf8ByteSize
          finished := true }) ∧
      (∀ place, lexer.Reaches (.start text) place → ∃ first more, segments = first ++ more ∧
        place = (Cursor.start text).advance (Text.byteLength (first.flatMap Segment.text)) ∧
        place.Before (more.flatMap Segment.text)) ∧
      (∀ item past, (item, past) ∈ Segment.items (.start text) segments →
        ∃ front back, text = front ++ textOf item ++ back ∧ textOf item ≠ "" ∧
          placeOf item = front.utf8ByteSize ∧ past.pos = (front ++ textOf item).utf8ByteSize) ∧
      ((Segment.items (.start text) segments).map fun found => placeOf found.1).Pairwise
        (· < ·) := by
  obtain ⟨segments, htiles⟩ := exists_tiles hprefixes text.toList
  have hat : (Cursor.start text).Before text.toList := .start text.toList
  have hbytes : Text.byteLength text.toList = text.utf8ByteSize := by
    rw [Text.byteLength_eq, String.ofList_toList]
  have hne : ∀ segment ∈ segments, segment.text ≠ [] := fun _ => htiles.text_ne_nil
  refine ⟨segments, htiles, htiles.flatMap_text, fun fuel hfuel => ?_, fun place hplace => ?_,
    fun item past => Segment.exists_slice htiles.flatMap_text hne,
    Segment.places_increase hne _⟩
  · rw [← hbytes]
    exact scanFrom_of_tiles hplain hhandler htiles hat (Nat.lt_of_succ_le hfuel)
  · obtain ⟨first, more, rfl, rfl⟩ := hplace.between hplain hhandler htiles hat
    refine ⟨first, more, rfl, rfl, ?_⟩
    rw [← htiles.flatMap_text, List.flatMap_append] at hat
    exact hat.advance _

/-- Runs of one letter, sharp signs to skip, and a sign of its own kind between spaces. -/
def letters : Lexer :=
  { rules :=
      [⟨anchoredText "a*",
          (Pattern.seq (.anchor .textStart) (.times (.one (.single 'a')) 0 none true)).find?,
          .token (.token "LETTERS") none⟩,
        ⟨anchoredText "#", (Pattern.seq (.anchor .textStart) (.one (.single '#'))).find?,
          .skip none⟩]
    literals := ['+']
    ignored := [' '] }

example : letters.tokens 7 "aa #é+" =
    [.ok ⟨.token "LETTERS", "aa", 0, 1⟩, .error ⟨'é', 4⟩, .ok ⟨.literal '+', "+", 6, 1⟩] := rfl

theorem plain_letters : letters.Plain :=
  List.forall_mem_cons.mpr ⟨.token _, List.forall_mem_singleton.mpr .skip⟩

theorem scan_tiles_letters : letters.Plain ∧ letters.onError = none ∧
    (∀ rule ∈ letters.rules, rule.TakesPrefixes) ∧
    ∃ segments, segments.flatMap Segment.text = "aa #é+".toList ∧
      letters.scan 7 "aa #é+" =
        { items := Segment.items (.start "aa #é+") segments
          final := (Cursor.start "aa #é+").advance 7
          finished := true } := by
  have hprefixes : ∀ rule ∈ letters.rules, rule.TakesPrefixes :=
    List.forall_mem_cons.mpr ⟨LexRule.takesPrefixes_of_anchored rfl,
      List.forall_mem_singleton.mpr (LexRule.takesPrefixes_of_anchored rfl)⟩
  obtain ⟨segments, _, htext, hscan, _⟩ := scan_tiles plain_letters rfl hprefixes "aa #é+"
  exact ⟨plain_letters, rfl, hprefixes, segments, htext, hscan 7 (by decide)⟩

end Lexer

end ShiftReduce
