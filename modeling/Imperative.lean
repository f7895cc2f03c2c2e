import Imperative.Main
import Imperative.Tree.Alike
import Imperative.Proofs.Grammar
import Imperative.Proofs.Reading
import Imperative.Proofs.ExpressionSoundness
import Imperative.Proofs.StatementSoundness
import Imperative.Proofs.Derivation
import Imperative.Proofs.Lexemes
import Imperative.Proofs.ParserSoundness
import Imperative.Proofs.Nesting
import Imperative.Proofs.Acceptance
import Imperative.Proofs.ExpressionCompleteness
import Imperative.Proofs.StatementCompleteness
import Imperative.Proofs.ParserCompleteness
import Imperative.Proofs.FitStates
import Imperative.Proofs.SafeRuns
import Imperative.Proofs.Actions
import Imperative.Proofs.Continuations
import Imperative.Proofs.Frame
import Imperative.Proofs.Lockstep
import Imperative.Proofs.DepthLimit
import Imperative.Proofs.CallIndependence
import Imperative.Proofs.Places
import Imperative.Proofs.Tiling
import Imperative.Proofs.Moving
import Imperative.Proofs.ParserComparison
import Imperative.Proofs.Blame
import Imperative.Proofs.MovedAnalysis
import Imperative.Proofs.MovedRuns
import Imperative.Proofs.Layout
import Imperative.Proofs.Diagnostics
import Imperative.Proofs.AnalysisEffect
import Imperative.Proofs.Reuse
import Imperative.Proofs.LexerUse
import Imperative.Proofs.Writing
import Imperative.Proofs.TreeHeight
import Imperative.Proofs.Occurrences
import Imperative.Proofs.SourceOrder
import Imperative.Proofs.BoundNames
import Imperative.Proofs.Exposure
import Imperative.Proofs.VisibleVariables
import Imperative.Proofs.UnboundReads
import Imperative.Proofs.Alphabet
import Imperative.Proofs.JumpAncestry
import Imperative.Proofs.SpanNesting
import Imperative.Proofs.Probing
import Imperative.Proofs.ViablePrefixes
import Imperative.Proofs.CheckerMemory
import Imperative.Proofs.BigSteps
import Imperative.Proofs.LoopLaws
import Imperative.Proofs.LoopFree
import Imperative.Proofs.ParserCourse
import Imperative.Proofs.ProcedureNumbers
import Imperative.Proofs.ExactIntegers
import Imperative.Proofs.ValueProvenance
import Imperative.Proofs.ScopeBrackets
import Imperative.Proofs.NestingAccounts
import Imperative.Proofs.ScopeHistory
import Imperative.Proofs.ParserProgress
import Imperative.Proofs.TokenBuffer
