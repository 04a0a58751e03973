import ShiftReduce.Builder.Basic

/-!
# Reading rules

Rules such as `expr : expr '+' expr | NUMBER` are read by a parser that this library builds for
itself, from the grammar of rules below. Its error handler counts the errors, so that a text is
refused even when the parser recovered from them.
-/

namespace ShiftReduce.RuleText

/-- What the parts of a rule are read to. -/
inductive Value where
  | symbol (symbol : Symbol)
  | symbols (symbols : List Symbol)
  | alternative (alternative : Alternative)
  | alternatives (alternatives : List Alternative)
  | rule (rule : RuleDecl)

/-- The context counts the errors in one rule. -/
abbrev Reading := Reducer Value Nat

/-- The text of a token of the right side. -/
def text (i : Nat) : Reading String := do
  match (← get).rhs.text? i with
  | some text => return text
  | none => throw .fault

/-- The symbol in a slot of the right side. -/
def symbol (i : Nat) : Reading Symbol := do
  match ← Reduction.take? i with
  | some (.symbol s) => return s
  | _ => throw .fault

/-- The symbols in a slot of the right side. -/
def symbols (i : Nat) : Reading (List Symbol) := do
  match ← Reduction.take? i with
  | some (.symbols symbols) => return symbols
  | _ => throw .fault

/-- The alternative in a slot of the right side. -/
def alternative (i : Nat) : Reading Alternative := do
  match ← Reduction.take? i with
  | some (.alternative alt) => return alt
  | _ => throw .fault

/-- The alternatives in a slot of the right side. -/
def alternatives (i : Nat) : Reading (List Alternative) := do
  match ← Reduction.take? i with
  | some (.alternatives alts) => return alts
  | _ => throw .fault

/-- A rule: a name, a colon and alternatives. -/
def reduceRule : Reading Value := do
  let name ← text 0
  return .rule ⟨name, ← alternatives 2⟩

/-- One more alternative after a bar. -/
def reduceMoreAlternatives : Reading Value := do
  let alts ← alternatives 0
  return .alternatives (alts ++ [← alternative 2])

/-- The first alternative. -/
def reduceFirstAlternative : Reading Value := do
  return .alternatives [← alternative 0]

/-- An alternative without a tag. -/
def reducePlain : Reading Value := do
  return .alternative ⟨← symbols 0, none⟩

/-- An alternative with a tag. -/
def reduceTagged : Reading Value := do
  let symbols ← symbols 0
  return .alternative ⟨symbols, some (← text 2)⟩

/-- An alternative without symbols. -/
def reduceNothing : Reading Value :=
  return .alternative {}

/-- One more symbol. -/
def reduceMoreSymbols : Reading Value := do
  let symbols ← symbols 0
  return .symbols (symbols ++ [← symbol 1])

/-- The first symbol. -/
def reduceFirstSymbol : Reading Value := do
  return .symbols [← symbol 0]

/-- A symbol given by its name. -/
def reduceName : Reading Value := do
  return .symbol (.ofName (← text 0))

/-- A symbol given by its character. -/
def reduceLiteral : Reading Value := do
  match (← text 0).toList with
  | c :: _ => return .symbol (.literal c)
  | [] => throw .fault

/-- The productions of rules. -/
def productions : List (String × List String × Reading Value) :=
  [("grammar", ["ID", ":", "rules"], reduceRule),
   ("rules", ["rules", "|", "rule"], reduceMoreAlternatives),
   ("rules", ["rule"], reduceFirstAlternative),
   ("rule", ["symbols"], reducePlain),
   ("rule", ["symbols", "PREC", "ID"], reduceTagged),
   ("rule", [], reduceNothing),
   ("symbols", ["symbols", "symbol"], reduceMoreSymbols),
   ("symbols", ["symbol"], reduceFirstSymbol),
   ("symbol", ["ID"], reduceName),
   ("symbol", ["LITERAL"], reduceLiteral)]

/-- Leaves the quoted character as the text of a literal. -/
def keepQuoted : TokenEdit := fun t cursor =>
  (some { t with text := String.ofList ((t.text.toList.drop 1).take 1) }, cursor)

/-- The tokens of rules. -/
def lexerPlan : LexerPlan :=
  (({} : LexerPlan).token "PREC" "%prec\\b" none
    |>.token "LITERAL" "\".\"|'.'" (some keepQuoted)
    |>.token "ID" "[a-zA-Z_][a-zA-Z_0-9]*" none
    |>.literal ":|"
    |>.ignore " \t\r\n")

/-- Counts an error and lets the engine unwind. -/
def countError : Handler Nat := fun errors _ =>
  (.unwind, errors + 1)

/-- Adds productions in turn. -/
def addProductions (b : Builder Value Nat) :
    List (String × List String × Reading Value) → Option (Builder Value Nat)
  | [] => some b
  | (name, symbols, action) :: rest =>
      match b.production name (symbols.map Symbol.ofName) none action with
      | (.ok _, b) => addProductions b rest
      | (.error _, _) => none

/-- The parser of rules. -/
def parser? : Option (Parser Value Nat) := do
  let lexer ← lexerPlan.build?
  let b ← (Builder.ofLexer lexer).toOption
  let b ← addProductions b productions
  ({ b with handler := some countError }.build .lalr).toOption

/-- A number of steps that suffices for a text: each of its tokens is shifted or discarded once, and
each level of the stack is built and given up once. -/
def fuelFor (text : String) : Nat :=
  64 * (text.toList.length + 2)

/-- What a finished run says about a text. -/
def verdict (text : String) : Outcome Value × Config Value Nat → Except RuleError RuleDecl
  | (.illegal e, _) => .error (.lex e)
  | (.accepted (some (.rule rule)), config) =>
      if config.context = 0 then .ok rule else .error (.invalid text)
  | _ => .error (.invalid text)

/-- A reader of rules. It keeps the number of errors in the last text until it reads the next
one. -/
structure Reader where
  errors : Nat := 0

namespace Reader

/-- Reads a rule. -/
def read (reader : Reader) (text : String) : Except RuleError RuleDecl × Reader :=
  let reader := { reader with errors := 0 }
  match parser? with
  | none => (.error (.invalid text), reader)
  | some parser =>
      let result := parser.parse (fuelFor text) text reader.errors
      (verdict text result, { errors := result.2.context })

/-- The reader after it has read texts in turn. -/
def readAll (reader : Reader) (texts : List String) : Reader :=
  texts.foldl (fun reader text => (reader.read text).2) reader

end Reader

/-- Reads a rule. -/
def parse (text : String) : Except RuleError RuleDecl :=
  (({} : Reader).read text).1

/-- The records of reading a rule. -/
def records (text : String) : List Record :=
  match parser? with
  | none => []
  | some parser => parser.textRecords (fuelFor text) text 0

end ShiftReduce.RuleText
