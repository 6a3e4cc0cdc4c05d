import SourceOutline.CommandLine.Arguments
import SourceOutline.CommandLine.Clock
import SourceOutline.CommandLine.Help
import SourceOutline.CommandLine.LogFilter
import SourceOutline.CommandLine.Session
import SourceOutline.Definitions
import SourceOutline.Diagnostic.Code
import SourceOutline.Diagnostic.Event
import SourceOutline.Diagnostic.Journal
import SourceOutline.Diagnostic.Reported
import SourceOutline.Diagnostic.SharedLog
import SourceOutline.Dump
import SourceOutline.Engine
import SourceOutline.Files.DefinitionsFile
import SourceOutline.Files.Disk
import SourceOutline.Files.Path
import SourceOutline.Files.SourceFile
import SourceOutline.Filter
import SourceOutline.Filter.Error
import SourceOutline.Json
import SourceOutline.Json.Reader
import SourceOutline.Lexer
import SourceOutline.Lexer.Error
import SourceOutline.Lexer.Lexeme
import SourceOutline.Lexer.Metrics
import SourceOutline.Main
import SourceOutline.NameTable
import SourceOutline.Outline
import SourceOutline.Outline.Builder
import SourceOutline.Outline.Cursor
import SourceOutline.Outline.Entry
import SourceOutline.Position
import SourceOutline.Preferences
import SourceOutline.QualifiedName
import SourceOutline.Regex.Bracket
import SourceOutline.Regex.CharSet
import SourceOutline.Regex.Escape
import SourceOutline.Regex.Expression
import SourceOutline.Regex.Fault
import SourceOutline.Regex.Parser
import SourceOutline.Regex.Pattern
import SourceOutline.Regex.Reader
import SourceOutline.Regex.Search
import SourceOutline.Regex.Tree
import SourceOutline.Scope.Error
import SourceOutline.Scope.Tree
import SourceOutline.Text.Alphabetic
import SourceOutline.Text.Blank
import SourceOutline.Text.Control
import SourceOutline.Text.Hex
import SourceOutline.Text.Numeric
import SourceOutline.Text.Padded
import SourceOutline.Text.Printable
import SourceOutline.Text.Quoted
import SourceOutline.Text.Range
import SourceOutline.Text.Units
import SourceOutline.Token
import SourceOutline.Token.Record
import SourceOutline.Token.Vocabulary
import SourceOutline.TokenBuffer
import SourceOutline.TokenSource
import SourceOutline.Toml.Document
import SourceOutline.Toml.Key
import SourceOutline.Toml.Number
import SourceOutline.Toml.Table
import SourceOutline.Proofs.EngineRun
import SourceOutline.Proofs.Rewriting
import SourceOutline.Proofs.Lossless
import SourceOutline.Proofs.Locality
import SourceOutline.Proofs.Relexing
import SourceOutline.Proofs.Shift
import SourceOutline.Proofs.Lines
import SourceOutline.Proofs.Names
import SourceOutline.Proofs.ScopeArena
import SourceOutline.Proofs.LiveScopes
import SourceOutline.Proofs.OutlineStep
import SourceOutline.Proofs.Paths
import SourceOutline.Proofs.Reopening
import SourceOutline.Proofs.Braces
import SourceOutline.Proofs.DeclarationLanguage
import SourceOutline.Proofs.DeclarationOutline
import SourceOutline.Proofs.Arguments
import SourceOutline.Proofs.SourceParts
import SourceOutline.Proofs.CarriedTrivia
import SourceOutline.Proofs.Idempotence
import SourceOutline.Proofs.Isolation
import SourceOutline.Proofs.LineEndings
import SourceOutline.Proofs.Registration
import SourceOutline.Proofs.StableNames
import SourceOutline.Proofs.Progress
import SourceOutline.Proofs.Places
import SourceOutline.Proofs.ScopeEffects
import SourceOutline.Proofs.Backing
import SourceOutline.Proofs.OutlineSafety
import SourceOutline.Proofs.JsonText
import SourceOutline.Proofs.TokenText
import SourceOutline.Proofs.EndMarks
import SourceOutline.Proofs.TypedefLoop
import SourceOutline.Proofs.Unwinding
import SourceOutline.Proofs.TypedefBody
import SourceOutline.Proofs.TypedefNames
import SourceOutline.Proofs.LiteralForms
import SourceOutline.Proofs.LogicalLines
import SourceOutline.Proofs.KeptTrivia
import SourceOutline.Proofs.LexCounts
import SourceOutline.Proofs.EngineCounts
import SourceOutline.Proofs.QualifiedLookup
import SourceOutline.Proofs.TriggerNames
import SourceOutline.Proofs.AppliedDefinitions
import SourceOutline.Proofs.JsonLines
import SourceOutline.Proofs.FailureReports
import SourceOutline.Proofs.BufferView
