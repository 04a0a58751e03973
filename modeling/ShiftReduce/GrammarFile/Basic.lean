import ShiftReduce.Builder.Rule

/-!
# Grammar files

A grammar file declares tokens, precedence levels and a start symbol in lines that begin with `%`,
and gives rules in the other lines. A line that begins with `|` continues the rule before it, and a
line that begins with `#` is a comment. The lines are first gathered into statements, which are then
read in order; the first one that cannot be read decides.
-/

namespace ShiftReduce

/-- Why a declaration line cannot be read. -/
inductive DirectiveFault where
  /-- An alternative has no rule to belong to. -/
  | orphanAlternative
  /-- A precedence level names no terminals. -/
  | emptyLevel
  /-- The start symbol is not one name. -/
  | startCount
  /-- The declaration is not known. -/
  | unknown (name : String)
deriving DecidableEq

/-- The wording of a declaration's fault. -/
def DirectiveFault.message : DirectiveFault → String
  | .orphanAlternative => "alternative without a rule"
  | .emptyLevel => "precedence declaration without terminals"
  | .startCount => "%start takes one nonterminal"
  | .unknown name => "unknown directive %" ++ name

/-- Why a grammar file cannot be used. -/
inductive FileError where
  | directive (line : Nat) (fault : DirectiveFault)
  | rule (line : Nat) (error : RuleError)
  | grammar (error : GrammarError)
  | table (error : TableError)
deriving DecidableEq

/-- The wording of a file error. -/
def FileError.message : FileError → String
  | .directive line fault => "line " ++ line.repr ++ ": " ++ fault.message
  | .rule line error => "line " ++ line.repr ++ ": " ++ error.message
  | .grammar error => error.message
  | .table error => error.message

/-- A statement of a grammar file, with the number of its first line. -/
inductive Statement where
  | rule (line : Nat) (text : String)
  | directive (line : Nat) (text : String)
  /-- An alternative that follows no rule. -/
  | orphan (line : Nat)
deriving DecidableEq

/-- What a grammar file declares. -/
structure GrammarFile where
  tokens : List String := []
  precedence : List (Assoc × List Symbol) := []
  start : Option String := none
  rules : List RuleDecl := []
deriving DecidableEq

/-! ## Statements -/

/-- The rule that was being gathered, as a statement. -/
def Statement.ofPending : Option (Nat × String) → List Statement
  | none => []
  | some (line, text) => [.rule line text]

/-- Gathers numbered lines without blanks at their ends into statements. The pending rule may still
be continued. -/
def Statement.gather (pending : Option (Nat × String)) : List (Nat × String) → List Statement
  | [] => ofPending pending
  | (number, line) :: rest =>
      match line.toList with
      | [] => gather pending rest
      | '#' :: _ => gather pending rest
      | '|' :: _ =>
          match pending with
          | some (first, text) => gather (some (first, text ++ "\n" ++ line)) rest
          | none => .orphan number :: gather none rest
      | '%' :: body =>
          ofPending pending ++ .directive number (String.ofList body) :: gather none rest
      | _ => ofPending pending ++ gather (some (number, line)) rest

/-- The lines of a text without blanks at their ends, numbered from one. -/
def numberedLines (text : String) : List (Nat × String) :=
  (Text.lines text).mapIdx fun i line => (i + 1, Text.trim line)

/-- The statements of a text. -/
def Statement.ofText (text : String) : List Statement :=
  gather none (numberedLines text)

/-! ## Reading statements -/

/-- The symbol that a word of a declaration names; a character may stand in quotes of either
kind. -/
def Symbol.ofWord (word : String) : Symbol :=
  match word.toList with
  | [open_, c, close] =>
      if (open_ == '\'' || open_ == '"') && open_ == close then .literal c else .ofName word
  | _ => .ofName word

namespace GrammarFile

/-- Adds a precedence level. -/
def addLevel (file : GrammarFile) (assoc : Assoc) (words : List String) :
    Except DirectiveFault GrammarFile :=
  match words with
  | [] => .error .emptyLevel
  | _ => .ok { file with precedence := file.precedence ++ [(assoc, words.map Symbol.ofWord)] }

/-- Reads a declaration. -/
def readDirective (file : GrammarFile) (text : String) : Except DirectiveFault GrammarFile :=
  let words := Text.words text
  let args := words.tail
  match words.headD "" with
  | "token" => .ok { file with tokens := file.tokens ++ args }
  | "left" => file.addLevel .left args
  | "right" => file.addLevel .right args
  | "nonassoc" => file.addLevel .none args
  | "start" =>
      match args with
      | [start] => .ok { file with start := some start }
      | _ => .error .startCount
  | name => .error (.unknown name)

/-- Reads a statement. -/
def readStatement (file : GrammarFile) : Statement → Except FileError GrammarFile
  | .orphan line => .error (.directive line .orphanAlternative)
  | .directive line text =>
      match file.readDirective text with
      | .ok file => .ok file
      | .error fault => .error (.directive line fault)
  | .rule line text =>
      match RuleText.parse text with
      | .ok rule => .ok { file with rules := file.rules ++ [rule] }
      | .error e => .error (.rule line e)

/-- Reads statements in order. -/
def readStatements (file : GrammarFile) : List Statement → Except FileError GrammarFile
  | [] => .ok file
  | s :: rest =>
      match file.readStatement s with
      | .ok file => file.readStatements rest
      | .error e => .error e

/-- Reads a grammar file. -/
def parse (text : String) : Except FileError GrammarFile :=
  readStatements {} (Statement.ofText text)

/-! ## From a file to a table -/

/-- Declares precedence levels, counted from the given one. -/
def declareLevels {α : Type} (g : Grammar α) (level : Nat) :
    List (Assoc × List Symbol) → Declared α Unit
  | [] => (.ok (), g)
  | (assoc, terminals) :: rest =>
      match g.setPrecedences assoc level terminals with
      | (.error e, g) => (.error e, g)
      | (.ok _, g) => declareLevels g (level + 1) rest

/-- Declares rules. -/
def declareRules {α : Type} (g : Grammar α) : List RuleDecl → Declared α Unit
  | [] => (.ok (), g)
  | rule :: rest =>
      match g.addAlternatives rule.name none rule.rightSides with
      | (.error e, g) => (.error e, g)
      | (.ok _, g) => declareRules g rest

/-- Declares everything that a file holds in a grammar over its tokens. -/
def declareIn {α : Type} (file : GrammarFile) (g : Grammar α) : Declared α Unit :=
  match declareLevels g 1 file.precedence with
  | (.error e, g) => (.error e, g)
  | (.ok _, g) =>
      match declareRules g file.rules with
      | (.error e, g) => (.error e, g)
      | (.ok _, g) => g.setStart file.start

/-- The grammar of a file, without actions. -/
def toGrammar (file : GrammarFile) : Except GrammarError (Grammar Unit) :=
  match Grammar.ofTokens file.tokens with
  | .error e => .error e
  | .ok g =>
      match file.declareIn g with
      | (.error e, _) => .error e
      | (.ok _, g) => .ok g

/-- The grammar and the table of a text. -/
def compile (text : String) (method : Method) : Except FileError (Grammar Unit × Table) :=
  match parse text with
  | .error e => .error e
  | .ok file =>
      match file.toGrammar with
      | .error e => .error (.grammar e)
      | .ok g =>
          match g.buildTable method with
          | (.error e, _) => .error (.table e)
          | (.ok table, g) => .ok (g, table)

/-! ## Records -/

/-- The records of reading statements, up to the first that cannot be read. -/
def statementRecords (file : GrammarFile) : List Statement → List Record
  | [] => []
  | s :: rest =>
      let here :=
        match s with
        | .rule _ text => RuleText.records text
        | _ => []
      match file.readStatement s with
      | .ok file => here ++ file.statementRecords rest
      | .error _ => here

/-- The records of reading a text. -/
def parseRecords (text : String) : List Record :=
  statementRecords {} (Statement.ofText text)

/-- The records of making the grammar of a file, as far as that goes. -/
def grammarRecords (file : GrammarFile) : List Record :=
  match (Grammar.ofTokens file.tokens : Except GrammarError (Grammar Unit)) with
  | .error _ => []
  | .ok g => (file.declareIn g).2.addedRecords 1

/-- The records of reading a text and making its grammar, as far as that goes. -/
def toGrammarRecords (text : String) : List Record :=
  parseRecords text ++
    match parse text with
    | .ok file => file.grammarRecords
    | .error _ => []

/-- The records of compiling a text, as far as that goes. -/
def compileRecords (text : String) (method : Method) : List Record :=
  toGrammarRecords text ++
    match compile text method with
    | .ok (g, table) => table.records g
    | .error _ => []

end GrammarFile

end ShiftReduce
