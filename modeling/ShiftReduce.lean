import ShiftReduce.Automaton.Basic
import ShiftReduce.Automaton.Memo
import ShiftReduce.Builder.Basic
import ShiftReduce.Builder.Rule
import ShiftReduce.CommandLine.Basic
import ShiftReduce.Digraph
import ShiftReduce.Engine.Basic
import ShiftReduce.Engine.Run
import ShiftReduce.Engine.Step
import ShiftReduce.Fixpoint
import ShiftReduce.Grammar.Basic
import ShiftReduce.Grammar.Error
import ShiftReduce.Grammar.First
import ShiftReduce.Grammar.Follow
import ShiftReduce.Grammar.Production
import ShiftReduce.Grammar.Unused
import ShiftReduce.GrammarFile.Basic
import ShiftReduce.Lexer.Basic
import ShiftReduce.Lexer.Token
import ShiftReduce.Lookahead
import ShiftReduce.Main
import ShiftReduce.Parser
import ShiftReduce.Pattern.Basic
import ShiftReduce.Pattern.Read
import ShiftReduce.Precedence
import ShiftReduce.Proofs.Automaton.BuildStates
import ShiftReduce.Proofs.Automaton.Canonical
import ShiftReduce.Proofs.Automaton.Closure
import ShiftReduce.Proofs.Automaton.Collection
import ShiftReduce.Proofs.Automaton.Items
import ShiftReduce.Proofs.Automaton.Memo
import ShiftReduce.Proofs.Automaton.Ranges
import ShiftReduce.Proofs.Automaton.Viable
import ShiftReduce.Proofs.Builder.Building
import ShiftReduce.Proofs.Builder.Declarations
import ShiftReduce.Proofs.Collections
import ShiftReduce.Proofs.Digraph.Closure
import ShiftReduce.Proofs.Digraph.Invariant
import ShiftReduce.Proofs.Digraph.Roots
import ShiftReduce.Proofs.Digraph.Unions
import ShiftReduce.Proofs.Digraph.Walk
import ShiftReduce.Proofs.Engine.Bursts
import ShiftReduce.Proofs.Engine.Completeness
import ShiftReduce.Proofs.Engine.Exhausted
import ShiftReduce.Proofs.Engine.Linked
import ShiftReduce.Proofs.Engine.Meaning
import ShiftReduce.Proofs.Engine.Moves
import ShiftReduce.Proofs.Engine.Reductions
import ShiftReduce.Proofs.Engine.Soundness
import ShiftReduce.Proofs.Engine.Source
import ShiftReduce.Proofs.Engine.Stack
import ShiftReduce.Proofs.Engine.Termination
import ShiftReduce.Proofs.Engine.Trace
import ShiftReduce.Proofs.Engine.Unwinding
import ShiftReduce.Proofs.Engine.ViablePrefix
import ShiftReduce.Proofs.Engine.Work
import ShiftReduce.Proofs.Grammar.Arena
import ShiftReduce.Proofs.Grammar.Core
import ShiftReduce.Proofs.Grammar.Derivation
import ShiftReduce.Proofs.Grammar.First
import ShiftReduce.Proofs.Grammar.FirstExact
import ShiftReduce.Proofs.Grammar.Follow
import ShiftReduce.Proofs.Grammar.FollowExact
import ShiftReduce.Proofs.Grammar.History
import ShiftReduce.Proofs.Grammar.Made
import ShiftReduce.Proofs.Grammar.Parentheses
import ShiftReduce.Proofs.Grammar.ParseTree
import ShiftReduce.Proofs.Grammar.Registered
import ShiftReduce.Proofs.Grammar.Remembered
import ShiftReduce.Proofs.Grammar.Rightmost
import ShiftReduce.Proofs.GrammarFile.Layout
import ShiftReduce.Proofs.GrammarFile.RoundTrip
import ShiftReduce.Proofs.GrammarFile.Statements
import ShiftReduce.Proofs.Lexer.Places
import ShiftReduce.Proofs.Lookahead.Exact
import ShiftReduce.Proofs.Lookahead.Nullable
import ShiftReduce.Proofs.Lookahead.OfGrammar
import ShiftReduce.Proofs.Lookahead.ReadSets
import ShiftReduce.Proofs.Lookahead.Relations
import ShiftReduce.Proofs.Lookahead.Valid
import ShiftReduce.Proofs.Pattern.Match
import ShiftReduce.Proofs.Precedence.Declared
import ShiftReduce.Proofs.Precedence.Grouping
import ShiftReduce.Proofs.Precedence.Operators
import ShiftReduce.Proofs.Precedence.Parsing
import ShiftReduce.Proofs.Rounds
import ShiftReduce.Proofs.RuleText.Names
import ShiftReduce.Proofs.RuleText.Pieces
import ShiftReduce.Proofs.RuleText.Spelling
import ShiftReduce.Proofs.RuleText.Tables
import ShiftReduce.Proofs.RuleText.Verdict
import ShiftReduce.Proofs.RuleText.Written
import ShiftReduce.Proofs.Table.Actions
import ShiftReduce.Proofs.Table.Answers
import ShiftReduce.Proofs.Table.Built
import ShiftReduce.Proofs.Table.Cells
import ShiftReduce.Proofs.Table.Clashes
import ShiftReduce.Proofs.Table.Counted
import ShiftReduce.Proofs.Table.Decided
import ShiftReduce.Proofs.Table.Expected
import ShiftReduce.Proofs.Table.Refinement
import ShiftReduce.Proofs.Table.Settled
import ShiftReduce.Proofs.Text.Spacing
import ShiftReduce.Record
import ShiftReduce.Registry
import ShiftReduce.RuleText.Basic
import ShiftReduce.RuleText.Parse
import ShiftReduce.Symbol
import ShiftReduce.Table.Basic
import ShiftReduce.Table.Build
import ShiftReduce.Table.Cell
import ShiftReduce.Table.Report
import ShiftReduce.Text.Alphabetic
import ShiftReduce.Text.Blank
import ShiftReduce.Text.Letter
import ShiftReduce.Text.Lower
import ShiftReduce.Text.Mark
import ShiftReduce.Text.Numeric
import ShiftReduce.Text.Padding
import ShiftReduce.Text.Printable
import ShiftReduce.Text.Quoted
import ShiftReduce.Text.Span
import ShiftReduce.Text.Word
import ShiftReduce.Proofs.Grammar.Refused
import ShiftReduce.Proofs.Table.Beaten
import ShiftReduce.Proofs.Lexer.Handler
