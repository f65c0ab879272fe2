import TvmAssembly.Build.Container
import TvmAssembly.Build.Leaf
import TvmAssembly.Build.Stack
import TvmAssembly.Diagnostic.Render
import TvmAssembly.Handoff.Compact
import TvmAssembly.Handoff.Tree
import TvmAssembly.Identity.ContentId
import TvmAssembly.Print.Printer
import TvmAssembly.Proofs.ContentIdentity
import TvmAssembly.Proofs.LineRoundTrip
import TvmAssembly.Proofs.Rebuilding
import TvmAssembly.Tree.Edit
import TvmAssembly.Tree.Equality
import TvmAssembly.Walk.Record
import TvmAssembly.Proofs.Layout
import TvmAssembly.Proofs.PrintedCode
import TvmAssembly.Proofs.Polarity
import TvmAssembly.Proofs.AnnotationLines
import TvmAssembly.Proofs.EventPasses
import TvmAssembly.Proofs.PrinterCalls
import TvmAssembly.Proofs.ProgramText
import TvmAssembly.Proofs.Complement
import TvmAssembly.Proofs.CompactFormat
import TvmAssembly.Proofs.StackActions
import TvmAssembly.Proofs.StackOperands
import TvmAssembly.Proofs.Spellings
import TvmAssembly.Proofs.CellPlacement
import TvmAssembly.Proofs.LoopFrames
import TvmAssembly.Proofs.LineGrammar
import TvmAssembly.Proofs.OpcodeLanguage
import TvmAssembly.Proofs.StackHeights
import TvmAssembly.Proofs.VerbatimLines
import TvmAssembly.Proofs.OpcodeSpans
import TvmAssembly.Proofs.LabelColumns
import TvmAssembly.Proofs.StackRequests
import TvmAssembly.Proofs.PrinterSessions
import TvmAssembly.Proofs.ResolutionLogs
