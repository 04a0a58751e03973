import ShiftReduce.Lexer.Token
import ShiftReduce.Pattern.Read
import ShiftReduce.Registry

/-!
# Lexers

A lexer cuts a text into tokens. At each place it first passes over ignored characters, then tries
its rules in order and takes the first that matches some text, then looks for the character among
its literals, and at last asks its error handler. Callbacks of rules may change a token, drop it, or
move the cursor; an error handler has to move the cursor, otherwise the character is an error. A
rule holds any way to find a match; those of a plan are patterns that were read from their written
form.
-/

namespace ShiftReduce

/-- The number of bytes that characters take. -/
def Text.byteLength : List Char → Nat
  | [] => 0
  | c :: rest => c.utf8Size + byteLength rest

/-- What is left of a text after the given number of bytes. Nothing is left after all of them, and
no text begins inside a character. -/
def Text.dropBytes? (n : Nat) : List Char → Option (List Char)
  | [] => some []
  | c :: rest =>
      if n = 0 then some (c :: rest)
      else if n < c.utf8Size then none
      else dropBytes? (n - c.utf8Size) rest

/-- A place in an input: a byte offset and a line number. -/
structure Cursor where
  input : List Char
  pos : Nat := 0
  line : Nat := 1

namespace Cursor

/-- The input after the place, unless the place is inside a character. -/
def rest? (c : Cursor) : Option (List Char) :=
  Text.dropBytes? c.pos c.input

/-- The input after the place; from inside a character nothing is seen. -/
def rest (c : Cursor) : List Char :=
  c.rest?.getD []

/-- Moves on by a number of bytes. -/
def advance (c : Cursor) (bytes : Nat) : Cursor :=
  { c with pos := c.pos + bytes }

/-- Moves on by a number of characters, as far as there are any. -/
def skip (c : Cursor) (n : Nat) : Cursor :=
  c.advance (Text.byteLength (c.rest.take n))

/-- Takes over the place that a callback chose; the input stays. -/
def moveTo (c chosen : Cursor) : Cursor :=
  { c with pos := chosen.pos, line := chosen.line }

end Cursor

/-- Changes or drops a token; may move the cursor, which stands behind the token. -/
abbrev TokenEdit := Token → Cursor → Option Token × Cursor

/-- Sees text that makes no token; may move the cursor, which stands behind the text. -/
abbrev SkipEdit := String → Cursor → Cursor

/-- What becomes of matched text. -/
inductive RuleKind where
  | token (kind : Symbol) (edit : Option TokenEdit)
  | skip (edit : Option SkipEdit)

/-- The written form of a rule's pattern, tied to the place where matching starts. -/
def anchoredText (pattern : String) : String :=
  "\\A(?:" ++ pattern ++ ")"

/-- A way to find a match in a text. The answer is the text of the match. -/
abbrev Finder := List Char → Option (List Char)

/-- A rule of a lexer. -/
structure LexRule where
  /-- The written form of what the rule finds. -/
  source : String
  find? : Finder
  kind : RuleKind

/-- A lexer. -/
structure Lexer where
  rules : List LexRule := []
  /-- Names of tokens that only callbacks make. -/
  metatokens : List String := []
  literals : List Char := []
  ignored : List Char := []
  onError : Option TokenEdit := none

/-! ## Describing a lexer -/

/-- A lexer before its patterns are read. -/
structure LexerPlan where
  rules : List (String × RuleKind) := []
  metatokens : List String := []
  literals : List Char := []
  ignored : List Char := []
  onError : Option TokenEdit := none

namespace LexerPlan

/-- Adds a rule that makes tokens of the given name, possibly with an edit. -/
def token (plan : LexerPlan) (name pattern : String) (edit : Option TokenEdit) : LexerPlan :=
  { plan with rules := plan.rules ++ [(pattern, .token (.token name) edit)] }

/-- Adds a rule whose text makes no token. -/
def skip (plan : LexerPlan) (pattern : String) (edit : Option SkipEdit) : LexerPlan :=
  { plan with rules := plan.rules ++ [(pattern, .skip edit)] }

/-- Adds characters that are tokens of their own kind. -/
def literal (plan : LexerPlan) (chars : String) : LexerPlan :=
  { plan with literals := plan.literals ++ chars.toList }

/-- Adds characters that are passed over. -/
def ignore (plan : LexerPlan) (chars : String) : LexerPlan :=
  { plan with ignored := plan.ignored ++ chars.toList }

/-- Passes over spaces and tabs. -/
def ignoreBlanks (plan : LexerPlan) : LexerPlan :=
  plan.ignore " \t"

/-- Adds tokens of decimal digits. -/
def numbers (plan : LexerPlan) : LexerPlan :=
  plan.token "NUMBER" "\\d+" none

/-- Takes the first and the last character off a token's text. -/
def unquote : TokenEdit := fun t cursor =>
  (some { t with text := String.ofList (t.text.toList.drop 1).dropLast }, cursor)

/-- Adds tokens between double quotes, whose text is what stands between them. -/
def strings (plan : LexerPlan) : LexerPlan :=
  plan.token "STRING" "\"[^\"]*\"" (some unquote)

/-- Reads the pattern of a rule. -/
def readRule? (rule : String × RuleKind) : Option LexRule :=
  let source := anchoredText rule.1
  (Pattern.ofText? source).map fun pattern => ⟨source, pattern.find?, rule.2⟩

/-- The lexer of a plan, unless one of its patterns cannot be read. -/
def build? (plan : LexerPlan) : Option Lexer :=
  (plan.rules.mapM readRule?).map fun rules =>
    { rules, metatokens := plan.metatokens, literals := plan.literals, ignored := plan.ignored,
      onError := plan.onError }

end LexerPlan

/-! ## Scanning -/

/-- What one step of a lexer leads to. -/
inductive Scanned where
  /-- The input is used up. -/
  | finished
  /-- The cursor stands inside a character, where nothing can be read. -/
  | misplaced
  /-- The cursor moved and there is nothing to report. -/
  | moved (cursor : Cursor)
  /-- A token or an error. -/
  | item (item : Except LexError Token) (cursor : Cursor)

/-- The name of the tokens that a rule makes. -/
def LexRule.tokenName? (rule : LexRule) : Option String :=
  match rule.kind with
  | .token (.token name) _ => some name
  | _ => none

/-- The text that a rule takes from the beginning of the rest; an empty match does not count. -/
def LexRule.match? (rule : LexRule) (rest : List Char) : Option (LexRule × List Char) :=
  match rule.find? rest with
  | some (c :: text) => some (rule, c :: text)
  | _ => none

namespace Lexer

/-- The names of the tokens that the rules make, followed by the metatokens, each once. -/
def tokenNames (lexer : Lexer) : List String :=
  Ordered.ofList (lexer.rules.filterMap LexRule.tokenName? ++ lexer.metatokens)

/-- The first rule that matches some text, and the text. -/
def firstMatch? (lexer : Lexer) (rest : List Char) : Option (LexRule × List Char) :=
  lexer.rules.findSome? fun rule => rule.match? rest

/-- What a rule makes of its text. The cursor stands at the beginning of the text. -/
def applyRule (rule : LexRule) (text : List Char) (cursor : Cursor) : Scanned :=
  let after := cursor.advance (Text.byteLength text)
  match rule.kind with
  | .token kind edit =>
      let token : Token := ⟨kind, String.ofList text, cursor.pos, cursor.line⟩
      match edit with
      | none => .item (.ok token) after
      | some edit =>
          let (result, chosen) := edit token after
          match result with
          | some token => .item (.ok token) (after.moveTo chosen)
          | none => .moved (after.moveTo chosen)
  | .skip edit =>
      match edit with
      | none => .moved after
      | some edit => .moved (after.moveTo (edit (String.ofList text) after))

/-- What becomes of a character that no rule or literal takes. -/
def applyHandler (lexer : Lexer) (c : Char) (cursor : Cursor) : Scanned :=
  let error : Except LexError Token := .error ⟨c, cursor.pos⟩
  match lexer.onError with
  | none => .item error (cursor.advance c.utf8Size)
  | some handler =>
      let token : Token := ⟨.error, String.ofList [c], cursor.pos, cursor.line⟩
      let (result, chosen) := handler token cursor
      let after := cursor.moveTo chosen
      if after.pos = cursor.pos then .item error (after.advance c.utf8Size)
      else
        match result with
        | some token => .item (.ok token) after
        | none => .moved after

/-- One step: the fate of the character at the cursor. -/
def step (lexer : Lexer) (cursor : Cursor) : Scanned :=
  match cursor.rest? with
  | none => .misplaced
  | some [] => .finished
  | some (c :: rest) =>
      if c ∈ lexer.ignored then .moved (cursor.advance c.utf8Size)
      else
        match lexer.firstMatch? (c :: rest) with
        | some (rule, text) => applyRule rule text cursor
        | none =>
            if c ∈ lexer.literals then
              .item (.ok ⟨.literal c, String.ofList [c], cursor.pos, cursor.line⟩)
                (cursor.advance c.utf8Size)
            else lexer.applyHandler c cursor

end Lexer

/-- What a lexer found in an input: every token or error with the cursor right after it, the cursor
at the end, and whether the input was used up or the cursor came to stand inside a character. -/
structure Scan where
  items : List (Except LexError Token × Cursor) := []
  final : Cursor
  finished : Bool
  misplaced : Bool := false

namespace Lexer

/-- Takes at most the given number of steps from a cursor. -/
def scanFrom (lexer : Lexer) : Nat → Cursor → Scan
  | 0, cursor => { final := cursor, finished := false }
  | fuel + 1, cursor =>
      match lexer.step cursor with
      | .finished => { final := cursor, finished := true }
      | .misplaced => { final := cursor, finished := false, misplaced := true }
      | .moved cursor => lexer.scanFrom fuel cursor
      | .item item cursor =>
          let scan := lexer.scanFrom fuel cursor
          { scan with items := (item, cursor) :: scan.items }

/-- Scans a text from its beginning. -/
def scan (lexer : Lexer) (fuel : Nat) (text : String) : Scan :=
  lexer.scanFrom fuel { input := text.toList }

/-- The tokens and errors of a text. -/
def tokens (lexer : Lexer) (fuel : Nat) (text : String) : List (Except LexError Token) :=
  (lexer.scan fuel text).items.map Prod.fst

/-- A number of steps that suffices for a lexer whose callbacks leave the cursor alone: every step
passes over a character. -/
def fuelFor (text : String) : Nat :=
  text.toList.length + 1

/-- A lexer in a detailed listing. -/
def listing (lexer : Lexer) : String :=
  "Lexer \x7b rules: " ++ Text.bracketed (lexer.rules.map fun rule => Text.quoted rule.source) ++
    ", metatokens: " ++ Text.bracketed (lexer.metatokens.map Text.quoted) ++
    ", literals: " ++ Text.bracketed (lexer.literals.map Text.quotedChar) ++
    ", ignore: " ++ Text.bracketed (lexer.ignored.map Text.quotedChar) ++ " \x7d"

end Lexer

end ShiftReduce
