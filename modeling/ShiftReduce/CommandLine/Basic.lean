import ShiftReduce.GrammarFile.Basic
import ShiftReduce.Text.Lower

/-!
# The command line

The program reads one grammar file and prints the report of its table. Options and the file may come
in any order; two dashes end the options. A short option may stand in a cluster, and an option with
a value takes the rest of its word or, if nothing is left, the next word.
-/

namespace ShiftReduce.CommandLine

/-- An option of the program. -/
inductive Switch where
  | type
  | help
deriving DecidableEq

/-- The option of a name, short or long. -/
def Switch.ofName? : String → Option Switch
  | "t" => some .type
  | "type" => some .type
  | "h" => some .help
  | "help" => some .help
  | _ => none

/-- Why the words of a command line cannot be read. Options are named as they were written, but by
their long name when they are repeated. -/
inductive OptionError where
  | unrecognized (name : String)
  | missingArgument (name : String)
  | unexpectedArgument (name : String)
  | repeated (name : String)
deriving DecidableEq

/-- The wording of an option error. -/
def OptionError.message : OptionError → String
  | .unrecognized name => "Unrecognized option: '" ++ name ++ "'"
  | .missingArgument name => "Argument to option '" ++ name ++ "' missing"
  | .unexpectedArgument name => "Option '" ++ name ++ "' does not take an argument"
  | .repeated name => "Option '" ++ name ++ "' given more than once"

/-- The options and other words of a command line. -/
structure Words where
  types : List String := []
  helps : Nat := 0
  free : List String := []

/-- What a word that begins with a dash leads to. -/
inductive Reading where
  | done (words : Words)
  /-- The next word is the value of the option. -/
  | needsValue (words : Words) (name : String)
  | refused (error : OptionError)

/-- Whether a word is an option: a dash and something after it. -/
def isOption (word : String) : Bool :=
  match word.toList with
  | '-' :: _ :: _ => true
  | _ => false

/-- Reads a long option: a name, possibly with a value behind an equals sign. -/
def readLong (words : Words) (body : List Char) : Reading :=
  let name := String.ofList (body.takeWhile (· != '='))
  let value :=
    match body.dropWhile (· != '=') with
    | [] => none
    | _ :: value => some (String.ofList value)
  match Switch.ofName? name, value with
  | none, _ => .refused (.unrecognized name)
  | some .help, some _ => .refused (.unexpectedArgument name)
  | some .help, none => .done { words with helps := words.helps + 1 }
  | some .type, some value => .done { words with types := words.types ++ [value] }
  | some .type, none => .needsValue words name

/-- Reads a cluster of short options. -/
def readCluster (words : Words) : List Char → Reading
  | [] => .done words
  | c :: rest =>
      let name := String.ofList [c]
      match Switch.ofName? name with
      | none => .refused (.unrecognized name)
      | some .help => readCluster { words with helps := words.helps + 1 } rest
      | some .type =>
          match rest with
          | [] => .needsValue words name
          | value => .done { words with types := words.types ++ [String.ofList value] }

/-- Reads a word that is an option. -/
def readOption (words : Words) (word : String) : Reading :=
  match word.toList with
  | _ :: '-' :: body => readLong words body
  | _ :: cluster => readCluster words cluster
  | [] => .done words

/-- Reads the words of a command line. -/
def readWords (words : Words) : List String → Except OptionError Words
  | [] => .ok words
  | word :: rest =>
      if !isOption word then readWords { words with free := words.free ++ [word] } rest
      else if word = "--" then .ok { words with free := words.free ++ rest }
      else
        match readOption words word with
        | .done words => readWords words rest
        | .refused e => .error e
        | .needsValue words name =>
            match rest with
            | [] => .error (.missingArgument name)
            | value :: rest => readWords { words with types := words.types ++ [value] } rest

/-- Reads a command line; no option may be repeated. -/
def parse (args : List String) : Except OptionError Words :=
  match readWords {} args with
  | .error e => .error e
  | .ok words =>
      if 1 < words.types.length then .error (.repeated "type")
      else if 1 < words.helps then .error (.repeated "help")
      else .ok words

/-! ## What the program does -/

/-- What the program leaves behind. -/
structure Outcome where
  exit : Nat
  stdout : String := ""
  stderr : String := ""
deriving DecidableEq

/-- What a command line asks for. -/
inductive Plan where
  /-- Nothing is left to do. -/
  | finish (outcome : Outcome)
  /-- Compile the file at a path. -/
  | compile (method : Method) (path : String)

/-- How to use the program. -/
def usage (program : String) : String :=
  "Usage: " ++ program ++ " [options] PATH\n\n" ++
    "Options:\n" ++
    "    -t, --type TYPE     Type of parser generation algorithm. Defaults to LALR.\n" ++
    "                        Supported types: LALR, SLR (case insensitive)\n" ++
    "    -h, --help          Print this message\n"

/-- The outcome of a failure. -/
def complaint (text : String) : Outcome :=
  { exit := 1, stderr := text ++ "\n" }

/-- The method that a word names, in letters of any size. -/
def methodOf? (word : String) : Option Method :=
  match Text.lower word with
  | "lalr" => some .lalr
  | "slr" => some .slr
  | _ => none

/-- What the words of a command line ask for. -/
def planOf (program : String) (words : Words) : Plan :=
  if 0 < words.helps then .finish { exit := 0, stdout := usage program }
  else
    let word := words.types.headD "LALR"
    match methodOf? word, words.free with
    | none, _ => .finish (complaint ("unsupported parser type: " ++ Text.lower word))
    | some method, [path] => .compile method path
    | some _, _ => .finish { exit := 1, stdout := usage program }

/-- What a command line asks for. -/
def plan (program : String) (args : List String) : Plan :=
  match parse args with
  | .error e => .finish (complaint e.message)
  | .ok words => planOf program words

/-- Why a file cannot be read. -/
inductive ReadFailure where
  | missing
  | directory
  /-- The bytes of the file are no text. -/
  | notText
  | other (text : String)

/-- The wording of a read failure. -/
def ReadFailure.message : ReadFailure → String
  | .missing => "No such file or directory (os error 2)"
  | .directory => "Is a directory (os error 21)"
  | .notText => "stream did not contain valid UTF-8"
  | .other text => text

/-- The outcome of compiling what was read from a path. -/
def compile (method : Method) (path : String) : Except ReadFailure String → Outcome
  | .error failure => complaint (path ++ ": " ++ failure.message)
  | .ok text =>
      match GrammarFile.compile text method with
      | .error e => complaint (path ++ ": " ++ e.message)
      | .ok (g, table) => { exit := 0, stdout := report g table }

end ShiftReduce.CommandLine
