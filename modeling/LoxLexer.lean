import LoxLexer.Main
import LoxLexer.Session
import LoxLexer.Proofs.Cutting
import LoxLexer.Proofs.Grammar
import LoxLexer.Proofs.Reading
import LoxLexer.Proofs.LongestMatch
import LoxLexer.Proofs.Lines
import LoxLexer.Proofs.LineBreak
import LoxLexer.Proofs.Printing
import LoxLexer.Proofs.Editing
import LoxLexer.Proofs.Cleaning
import LoxLexer.Proofs.Number.Nearest
import LoxLexer.Proofs.Number.ReadBack
import LoxLexer.Proofs.Respelling
import LoxLexer.Proofs.Streams
import LoxLexer.Proofs.PromptSession
import LoxLexer.Proofs.LineByLine
import LoxLexer.Proofs.Outcomes
import LoxLexer.Proofs.Arguments
import LoxLexer.Proofs.Lookahead
import LoxLexer.Proofs.Resuming
import LoxLexer.Proofs.StreamSession
import LoxLexer.Proofs.PlainDump
import LoxLexer.Proofs.Json.Grammar
import LoxLexer.Proofs.Json.Unambiguous
import LoxLexer.Proofs.Json.Writing
import LoxLexer.Proofs.JsonDump
import LoxLexer.Proofs.JsonLayouts
import LoxLexer.Proofs.Reporters
import LoxLexer.Proofs.Log
import LoxLexer.Proofs.DiagnosticLines
import LoxLexer.Proofs.TokenEquality
import LoxLexer.Proofs.TokenIdentity
import LoxLexer.Proofs.Number.Rounding
import LoxLexer.Proofs.Number.Decoding
import LoxLexer.Proofs.Number.Grids
import LoxLexer.Proofs.Number.Shortest
import LoxLexer.Proofs.FewestDigits
import LoxLexer.Proofs.Cursor.Peeking
import LoxLexer.Proofs.Cursor.Moves
import LoxLexer.Proofs.Slicing
