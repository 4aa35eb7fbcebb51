import MonkeyLang.Arguments
import MonkeyLang.CommandLine
import MonkeyLang.Digest
import MonkeyLang.Evaluation
import MonkeyLang.Fault
import MonkeyLang.FileTree
import MonkeyLang.Log
import MonkeyLang.Main
import MonkeyLang.Mode
import MonkeyLang.Node.Basic
import MonkeyLang.Node.Equality
import MonkeyLang.Node.Outline
import MonkeyLang.Node.Rendering
import MonkeyLang.Numeral
import MonkeyLang.Operator
import MonkeyLang.Parser.Grammar
import MonkeyLang.Parser.Recovery
import MonkeyLang.Parser.State
import MonkeyLang.Program
import MonkeyLang.Scope
import MonkeyLang.Session
import MonkeyLang.Signed64
import MonkeyLang.SyntaxError
import MonkeyLang.Text.Blank
import MonkeyLang.Text.DecimalDigit
import MonkeyLang.Text.Printable
import MonkeyLang.Text.Quoted
import MonkeyLang.Text.Utf8
import MonkeyLang.Token.Basic
import MonkeyLang.Token.Cursor
import MonkeyLang.Token.Lexeme
import MonkeyLang.Token.Window
import MonkeyLang.Value
import MonkeyLang.Proofs.Derivation
import MonkeyLang.Proofs.ParsingLogic
import MonkeyLang.Proofs.ParsingMotion
import MonkeyLang.Proofs.ParsingSoundness
import MonkeyLang.Proofs.ParsingCompleteness
import MonkeyLang.Proofs.ParsingProgress
import MonkeyLang.Proofs.GrammarAcceptance
import MonkeyLang.Proofs.ParsedTrees
import MonkeyLang.Proofs.Relexing
import MonkeyLang.Proofs.RenderingReads
import MonkeyLang.Proofs.RenderingRoundTrip
import MonkeyLang.Proofs.ExceptionSemantics
import MonkeyLang.Proofs.PlainScopes
import MonkeyLang.Proofs.SignalPassing
import MonkeyLang.Proofs.ExceptionRefinement
import MonkeyLang.Proofs.BraceNesting
import MonkeyLang.Proofs.RecoveryNesting
import MonkeyLang.Proofs.StatementRecovery
import MonkeyLang.Proofs.ParsingAlongside
import MonkeyLang.Proofs.SemicolonBarrier
import MonkeyLang.Proofs.EvaluationSafety
import MonkeyLang.Proofs.SoundScopes
import MonkeyLang.Proofs.SoundRuns
import MonkeyLang.Proofs.ShapedWorlds
import MonkeyLang.Proofs.ShapeInvariance
import MonkeyLang.Proofs.Segmentation
import MonkeyLang.Proofs.TextRoom
import MonkeyLang.Proofs.TokenCoverage
import MonkeyLang.Proofs.SessionRuns
import MonkeyLang.Proofs.LimitReached
import MonkeyLang.Proofs.SessionEffects
import MonkeyLang.Proofs.PlacelessParsing
import MonkeyLang.Proofs.JoinedTexts
import MonkeyLang.Proofs.CleanTokens
import MonkeyLang.Proofs.JoinedPrograms
import MonkeyLang.Proofs.SequentialRuns
import MonkeyLang.Proofs.SessionPrograms
import MonkeyLang.Proofs.Footprints
import MonkeyLang.Proofs.PairedScopes
import MonkeyLang.Proofs.PairedRuns
import MonkeyLang.Proofs.RepeatedCalls
import MonkeyLang.Proofs.CharacterReads
import MonkeyLang.Proofs.ErrorContainment
import MonkeyLang.Proofs.ProperRuns
import MonkeyLang.Proofs.SessionEndings
import MonkeyLang.Proofs.LayoutIndependence
import MonkeyLang.Proofs.WrappedArithmetic
import MonkeyLang.Proofs.TruncatedDivision
import MonkeyLang.Proofs.UnmentionedNames
import MonkeyLang.Proofs.InnermostBindings
import MonkeyLang.Proofs.ShiftedTokens
import MonkeyLang.Proofs.ErrorPlaces
import MonkeyLang.Proofs.StatementStarts
import MonkeyLang.Proofs.SkippedStatements
import MonkeyLang.Proofs.NodeEquality
import MonkeyLang.Proofs.LimitIndependence
import MonkeyLang.Proofs.ExitStatus
