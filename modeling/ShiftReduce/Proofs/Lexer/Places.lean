import ShiftReduce.Lexer.Basic
import ShiftReduce.Proofs.Pattern.Match

/-!
# Places in an input

A cursor that stands between two characters of its input sees the characters behind it, and stands
between two characters again when it moves over some of them. A cursor that is ahead of another one
sees less, wherever it stands. A rule that is tied to the place of the cursor takes the text before
the preferred end of its pattern.
-/

namespace ShiftReduce

variable {cursor : Cursor} {front back rest : List Char} {rule : LexRule} {body : Pattern}

theorem Text.byteLength_append (front back : List Char) :
    byteLength (front ++ back) = byteLength front + byteLength back := by
  induction front with
  | nil => rw [List.nil_append, byteLength, Nat.zero_add]
  | cons c front ih => rw [List.cons_append, byteLength, byteLength, ih, Nat.add_assoc]

/-- The number of bytes of characters is that of their text. -/
theorem Text.byteLength_eq (front : List Char) :
    byteLength front = (String.ofList front).utf8ByteSize := by
  induction front with
  | nil => rfl
  | cons c front ih =>
      rw [byteLength, ih, String.ofList_cons, String.utf8ByteSize_append,
        String.utf8ByteSize_singleton]

theorem Text.byteLength_pos (hne : front ≠ []) : 0 < byteLength front := by
  obtain ⟨c, front, rfl⟩ := List.exists_cons_of_ne_nil hne
  have hpositive := c.utf8Size_pos
  rw [byteLength]
  omega

/-- Dropping the bytes of some characters drops these characters. -/
theorem Text.dropBytes?_byteLength (front back : List Char) :
    dropBytes? (byteLength front) (front ++ back) = some back := by
  induction front with
  | nil => cases back <;> rfl
  | cons c front ih =>
      have hpositive := c.utf8Size_pos
      rw [List.cons_append, byteLength, dropBytes?, if_neg (by omega), if_neg (by omega),
        Nat.add_sub_cancel_left, ih]

theorem Text.length_dropBytes?_le (n : Nat) (text : List Char) :
    ((dropBytes? n text).getD []).length ≤ text.length := by
  induction text generalizing n with
  | nil => exact Nat.le_refl 0
  | cons c text ih =>
      rw [dropBytes?]
      split
      · exact Nat.le_refl _
      · split
        · exact Nat.zero_le _
        · exact Nat.le_succ_of_le (ih _)

/-- Less text is left behind more bytes, wherever these end. -/
theorem Text.length_dropBytes?_lt {m n : Nat} {c : Char} {text : List Char}
    (hrest : dropBytes? m text = some (c :: rest)) (hlt : m < n) :
    ((dropBytes? n text).getD []).length < (c :: rest).length := by
  induction text generalizing m n with
  | nil => cases hrest
  | cons d text ih =>
      rw [dropBytes?] at hrest
      rw [dropBytes?, if_neg (by omega)]
      split at hrest
      · obtain ⟨rfl, rfl⟩ := List.cons.inj (Option.some.inj hrest)
        split
        · exact Nat.succ_pos _
        · exact Nat.lt_succ_of_le (length_dropBytes?_le _ _)
      · split at hrest
        · cases hrest
        · rw [if_neg (by omega)]
          exact ih hrest (by omega)

/-- The place at the beginning of a text. -/
def Cursor.start (text : String) : Cursor :=
  { input := text.toList }

theorem Cursor.advance_advance (cursor : Cursor) (m n : Nat) :
    (cursor.advance m).advance n = cursor.advance (m + n) := by
  rw [advance, advance, advance, Nat.add_assoc]

/-- A place lies behind another one of the same input. -/
def Cursor.Ahead (cursor next : Cursor) : Prop :=
  next.input = cursor.input ∧ cursor.pos < next.pos

/-- Less text is left behind a later place. -/
theorem Cursor.Ahead.rest_shorter {next : Cursor} {c : Char} (h : cursor.Ahead next)
    (hrest : cursor.rest? = some (c :: rest)) : next.rest.length < cursor.rest.length := by
  obtain ⟨hinput, hlt⟩ := h
  rw [Cursor.rest, Cursor.rest, hrest, Cursor.rest?, hinput]
  exact Text.length_dropBytes?_lt hrest hlt

/-- A cursor stands right before the last characters of its input. -/
def Cursor.Before (cursor : Cursor) (rest : List Char) : Prop :=
  ∃ seen, cursor.input = seen ++ rest ∧ cursor.pos = Text.byteLength seen

namespace Cursor.Before

theorem start (text : List Char) : ({ input := text } : Cursor).Before text :=
  ⟨[], rfl, rfl⟩

theorem rest?_eq (h : cursor.Before rest) : cursor.rest? = some rest := by
  obtain ⟨seen, hinput, hpos⟩ := h
  rw [Cursor.rest?, hinput, hpos, Text.dropBytes?_byteLength]

/-- Moving over characters leads to the place behind them. -/
theorem advance (front : List Char) (h : cursor.Before (front ++ back)) :
    (cursor.advance (Text.byteLength front)).Before back := by
  obtain ⟨seen, hinput, hpos⟩ := h
  refine ⟨seen ++ front, ?_, ?_⟩
  · rw [List.append_assoc]
    exact hinput
  · rw [Text.byteLength_append, ← hpos]
    rfl

end Cursor.Before

namespace LexRule

/-- A rule takes the characters before the preferred end of its pattern, if there are any. -/
theorem match?_of_ends (rule : LexRule)
    (hrule : rule.find? = (Pattern.seq (.anchor .textStart) body).find?) {q : Place}
    (hends : (body.ends ⟨none, front ++ back⟩).head? = some q) (hq : q.rest = back)
    (hne : front ≠ []) : rule.match? (front ++ back) = some (rule, front) := by
  obtain ⟨c, front, rfl⟩ := List.exists_cons_of_ne_nil hne
  rw [List.cons_append] at hends ⊢
  have hfind : rule.find? (c :: (front ++ back)) = some (c :: front) := by
    rw [hrule, Pattern.find?_anchored, hends, Option.map_some, Place.left, hq, List.length_append,
      show front.length + back.length + 1 - back.length = front.length + 1 by omega,
      List.take_succ_cons, List.take_left]
  rw [match?, hfind]

/-- A rule whose pattern does not match takes nothing. -/
theorem match?_of_no_end (hrule : rule.find? = (Pattern.seq (.anchor .textStart) body).find?)
    {c : Char} (hends : (body.ends ⟨none, c :: rest⟩).head? = none) :
    rule.match? (c :: rest) = none := by
  have hfind : rule.find? (c :: rest) = none := by
    rw [hrule, Pattern.find?_anchored, hends, Option.map_none]
  rw [match?, hfind]

end LexRule

end ShiftReduce
