import ShiftReduce.Table.Build
import ShiftReduce.Text.Padding
import ShiftReduce.Text.Word

/-!
# Reports

A report lists a grammar and its table for a reader: the rules, where each symbol appears, the FIRST
and FOLLOW sets, and for every state its items, actions, settled conflicts and gotos.
-/

namespace ShiftReduce

variable {α : Type}

namespace Report

/-- A name, a colon and the words that belong to it, without blanks at the end. -/
def indexLine (name : String) (entries : List String) : String :=
  Text.trimEnd (Text.padRight 20 name ++ " : " ++ " ".intercalate entries)

/-- The numbers of productions as words. -/
def numbers (productions : List Nat) : List String :=
  productions.map Nat.repr

/-- The lines of the rules. -/
def ruleLines (g : Grammar α) : List String :=
  g.productions.map fun p => "Rule " ++ Text.padRight 5 p.index.repr ++ " " ++ p.text

/-- The lines of the terminals that are not used, if there are any. -/
def unusedLines (g : Grammar α) : List String :=
  match g.unusedTerminals with
  | [] => []
  | unused => ["", "Unused terminals:", ""] ++ unused.map fun s => "    " ++ s.text

/-- The lines of the FIRST sets of nonterminals. -/
def firstLines (g : Grammar α) : List String :=
  (g.first.entries.filter fun entry => entry.1.isNonterminal).map fun entry =>
    indexLine entry.1.text
      (entry.2.terminals.map Symbol.text ++ if entry.2.empty then ["<empty>"] else [])

/-- The lines about the grammar. -/
def grammarLines (g : Grammar α) : List String :=
  ["Grammar", ""] ++ ruleLines g ++ unusedLines g ++
    ["", "Terminals, with rules where they appear", ""] ++
    g.terminals.entries.map (fun entry => indexLine entry.1.text (numbers entry.2)) ++
    ["", "Nonterminals, with rules where they appear", ""] ++
    g.nonterminals.entries.map (fun entry => indexLine entry.1 (numbers entry.2)) ++
    ["", "First sets", ""] ++ firstLines g ++
    ["", "Follow sets", ""] ++
    g.follow.entries.map fun entry => indexLine entry.1 (entry.2.map Symbol.text)

/-- A name in its column and what happens on it. -/
def entryLine (name does : String) : String :=
  "    " ++ Text.padRight 15 name ++ " " ++ does

/-- What an action does. -/
def actionText (g : Grammar α) : Action → String
  | .shift state => "shift and go to state " ++ state.repr
  | .reduce production =>
      let text :=
        match g.production? production with
        | some p => p.text
        | none => ""
      "reduce using rule " ++ production.repr ++ " (" ++ text ++ ")"
  | .accept => "accept"

/-- The lines of the items of a state. -/
def itemLines (g : Grammar α) (items : List Nat) : List String :=
  (items.filterMap g.item?).map fun item =>
    "    (" ++ item.prod.repr ++ ") " ++ g.itemText item

/-- The lines of the actions of a state. -/
def actionLines (g : Grammar α) (t : Table) (row : List (Option Action)) : List String :=
  (t.terminals.zip row).filterMap fun entry =>
    entry.2.map fun action => entryLine entry.1.text (actionText g action)

/-- The lines of the gotos of a state. -/
def gotoLines (t : Table) (row : List (Option Nat)) : List String :=
  (t.nonterminals.zip row).filterMap fun entry =>
    entry.2.map fun state => entryLine entry.1 ("shift and go to state " ++ state.repr)

/-- Lines with an empty line before them, if there are any. -/
def paragraph : List String → List String
  | [] => []
  | lines => "" :: lines

/-- The lines about a state. -/
def stateLines (g : Grammar α) (t : Table) (state : Nat) (items : List Nat) : List String :=
  let conflicts := t.conflicts.filter fun c => c.state == state
  ["", "state " ++ state.repr, ""] ++ itemLines g items ++ [""] ++
    actionLines g t (t.action[state]?.getD []) ++
    paragraph (conflicts.map fun c => "  ! " ++ c.text) ++
    paragraph (gotoLines t (t.goto[state]?.getD []))

/-- The lines of all conflicts, if there are any. -/
def conflictLines (t : Table) : List String :=
  match t.conflicts with
  | [] => []
  | conflicts => ["", "Conflicts", ""] ++ conflicts.map Conflict.text

/-- The lines of a report. -/
def lines (g : Grammar α) (t : Table) : List String :=
  grammarLines g ++ ["", "Parsing method: " ++ t.method.title] ++
    (t.states.mapIdx (stateLines g t)).flatten ++ conflictLines t

end Report

/-- The report of a grammar and a table. -/
def report (g : Grammar α) (t : Table) : String :=
  String.join ((Report.lines g t).map fun line => line ++ "\n")

/-- The report, provided that the items of the table's states are in the grammar's arena. -/
def report? (g : Grammar α) (t : Table) : Option String :=
  if t.states.all g.holdsItems then some (report g t) else none

end ShiftReduce
