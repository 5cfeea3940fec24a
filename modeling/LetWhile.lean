import LetWhile.Token.Lexer
import LetWhile.Text.Quoted
import LetWhile.Text.Blank
import LetWhile.Program.Parser
import LetWhile.Scope.Arena
import LetWhile.Library
import LetWhile.Java.Reserved
import LetWhile.Number.Scientific
import LetWhile.Typed.Check
import LetWhile.Java.Printer
import LetWhile.Sexpr
import LetWhile.Output
import LetWhile.Panic
import LetWhile.Session
import LetWhile.Emission
import LetWhile.Dialogue
import LetWhile.Toml.Document
import LetWhile.Settings.Load
import LetWhile.Conversation
import LetWhile.Main
import LetWhile.Proofs.Steps
import LetWhile.Proofs.Grammar
import LetWhile.Proofs.Outcome
import LetWhile.Proofs.Parsing
import LetWhile.Proofs.Typing
import LetWhile.Proofs.Checking
import LetWhile.Proofs.Moving
import LetWhile.Proofs.Places
import LetWhile.Proofs.Decoding
import LetWhile.Proofs.Lexing
import LetWhile.Proofs.Pieces
import LetWhile.Proofs.Printing
import LetWhile.Proofs.Sessions
import LetWhile.Proofs.Marks
import LetWhile.Proofs.Scoping
import LetWhile.Proofs.Completion
import LetWhile.Proofs.Spelling
import LetWhile.Proofs.Layout
import LetWhile.Proofs.Nodes
import LetWhile.Proofs.TruePlaces
import LetWhile.Proofs.Literals
import LetWhile.Proofs.RoundTrip
import LetWhile.Proofs.Finality
import LetWhile.Proofs.Shapes
import LetWhile.Proofs.Tiling
import LetWhile.Proofs.Rounding
import LetWhile.Proofs.Erasure
import LetWhile.Proofs.Increments
import LetWhile.Proofs.Complaints
import LetWhile.Proofs.Widening
import LetWhile.Proofs.Totality
import LetWhile.Proofs.Dialogues
import LetWhile.Proofs.Quoting
import LetWhile.Proofs.Documents
import LetWhile.Proofs.Settings
import LetWhile.Proofs.Denotations
import LetWhile.Proofs.JavaStrings
import LetWhile.Proofs.Relocation
import LetWhile.Proofs.Mending
import LetWhile.Proofs.DecimalRange
import LetWhile.Proofs.Indentation
import LetWhile.Proofs.Capture
import LetWhile.Proofs.Shebang
import LetWhile.Proofs.DumpReader
import LetWhile.Proofs.Dumps
import LetWhile.Proofs.ShortestDecimals
import LetWhile.Proofs.JavaNumbers
import LetWhile.Proofs.NumberOrder
import LetWhile.Proofs.NumericLiterals
import LetWhile.Proofs.LexicalScopes
import LetWhile.Proofs.Progress
import LetWhile.Proofs.Scanning
import LetWhile.Proofs.Walking
