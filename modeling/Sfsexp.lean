import Sfsexp.Lib.Cells
import Sfsexp.Lib.Chain
import Sfsexp.Lib.Decimal
import Sfsexp.Lib.Feed
import Sfsexp.Lib.LevelStack
import Sfsexp.Lib.Loop
import Sfsexp.Lib.Metered
import Sfsexp.Model.BufferPrinter
import Sfsexp.Model.CString
import Sfsexp.Model.Calls
import Sfsexp.Model.Client
import Sfsexp.Model.Constructors
import Sfsexp.Model.Driver
import Sfsexp.Model.EventParser
import Sfsexp.Model.Faststack
import Sfsexp.Model.IoWrap
import Sfsexp.Model.Iterative
import Sfsexp.Model.LimitedParser
import Sfsexp.Model.LimitedPrinters
import Sfsexp.Model.Locals
import Sfsexp.Model.Memory
import Sfsexp.Model.NodePool
import Sfsexp.Model.NodePrinters
import Sfsexp.Model.Nodes
import Sfsexp.Model.ParseData
import Sfsexp.Model.Parser
import Sfsexp.Model.PartialPrinter
import Sfsexp.Model.Printer
import Sfsexp.Model.Search
import Sfsexp.Model.Sexp
import Sfsexp.Proofs.AtomBuffer
import Sfsexp.Proofs.Buffer
import Sfsexp.Proofs.BufferBounds
import Sfsexp.Proofs.BufferPrinting
import Sfsexp.Proofs.Callbacks
import Sfsexp.Proofs.CallingAgain
import Sfsexp.Proofs.ChunkedService
import Sfsexp.Proofs.Chunks
import Sfsexp.Proofs.ClosingParens
import Sfsexp.Proofs.Composition
import Sfsexp.Proofs.Compositional
import Sfsexp.Proofs.Content
import Sfsexp.Proofs.Copying
import Sfsexp.Proofs.Cursor
import Sfsexp.Proofs.Damage
import Sfsexp.Proofs.DeniedEnds
import Sfsexp.Proofs.DeniedExits
import Sfsexp.Proofs.DeniedRounds
import Sfsexp.Proofs.DeniedStates
import Sfsexp.Proofs.Displaced
import Sfsexp.Proofs.DocumentOrder
import Sfsexp.Proofs.Elements
import Sfsexp.Proofs.Emission
import Sfsexp.Proofs.ErrorCodes
import Sfsexp.Proofs.EventAgreement
import Sfsexp.Proofs.EventAtomBuffer
import Sfsexp.Proofs.EventChunks
import Sfsexp.Proofs.EventCursor
import Sfsexp.Proofs.EventLockstep
import Sfsexp.Proofs.EventPieces
import Sfsexp.Proofs.FailingCalls
import Sfsexp.Proofs.Faststack
import Sfsexp.Proofs.FedOnce
import Sfsexp.Proofs.Filling
import Sfsexp.Proofs.FirstCalls
import Sfsexp.Proofs.FixedPoint
import Sfsexp.Proofs.FreshNodes
import Sfsexp.Proofs.Grammar
import Sfsexp.Proofs.HeldBlobs
import Sfsexp.Proofs.InlineBlobs
import Sfsexp.Proofs.InlineHeader
import Sfsexp.Proofs.InlineQuotes
import Sfsexp.Proofs.InlineRoundTrip
import Sfsexp.Proofs.InlineSize
import Sfsexp.Proofs.InlineTokens
import Sfsexp.Proofs.IoWrap
import Sfsexp.Proofs.LastByte
import Sfsexp.Proofs.LimitedCalls
import Sfsexp.Proofs.LimitedParser
import Sfsexp.Proofs.LimitedPrinters
import Sfsexp.Proofs.LimitedRuns
import Sfsexp.Proofs.Locality
import Sfsexp.Proofs.Memory
import Sfsexp.Proofs.NodePool
import Sfsexp.Proofs.NodePrinting
import Sfsexp.Proofs.NormalMode
import Sfsexp.Proofs.ParseSexp
import Sfsexp.Proofs.ParseStack
import Sfsexp.Proofs.PartialContent
import Sfsexp.Proofs.PartialPrinting
import Sfsexp.Proofs.PartialRestoring
import Sfsexp.Proofs.PartialText
import Sfsexp.Proofs.Places
import Sfsexp.Proofs.PlainSessions
import Sfsexp.Proofs.PrintFailures
import Sfsexp.Proofs.PrintRequests
import Sfsexp.Proofs.Printability
import Sfsexp.Proofs.Printing
import Sfsexp.Proofs.QuoteFlags
import Sfsexp.Proofs.QuotedDepth
import Sfsexp.Proofs.QuotedRest
import Sfsexp.Proofs.Quoting
import Sfsexp.Proofs.ReaderInvariants
import Sfsexp.Proofs.Reading
import Sfsexp.Proofs.ReadingCost
import Sfsexp.Proofs.Recovery
import Sfsexp.Proofs.Refinement
import Sfsexp.Proofs.Resumption
import Sfsexp.Proofs.RoundTrip
import Sfsexp.Proofs.Rounds
import Sfsexp.Proofs.SameTrees
import Sfsexp.Proofs.Search
import Sfsexp.Proofs.Simulation
import Sfsexp.Proofs.Spoiling
import Sfsexp.Proofs.Stability
import Sfsexp.Proofs.Stack
import Sfsexp.Proofs.StackRefinement
import Sfsexp.Proofs.Streams
import Sfsexp.Proofs.Strings
import Sfsexp.Proofs.Termination
import Sfsexp.Proofs.TextSessions
import Sfsexp.Proofs.Tokens
import Sfsexp.Proofs.TopLevel
import Sfsexp.Proofs.TreeRuns
import Sfsexp.Proofs.Tuning
import Sfsexp.Proofs.UsedLength
import Sfsexp.Proofs.WaitingBlobs
import Sfsexp.Spec.Composition
import Sfsexp.Spec.Copies
import Sfsexp.Spec.Denial
import Sfsexp.Spec.Elements
import Sfsexp.Spec.EventAgreement
import Sfsexp.Spec.Faststack
import Sfsexp.Spec.Grammar
import Sfsexp.Spec.InlineSize
import Sfsexp.Spec.Layout
import Sfsexp.Spec.LimitedRuns
import Sfsexp.Spec.Nodes
import Sfsexp.Spec.Ownership
import Sfsexp.Spec.PartialText
import Sfsexp.Spec.PrintRequests
import Sfsexp.Spec.QuoteFlag
import Sfsexp.Spec.QuotedText
import Sfsexp.Spec.Quoting
import Sfsexp.Spec.Reader
import Sfsexp.Spec.Rendering
import Sfsexp.Spec.Resumption
import Sfsexp.Spec.Search
import Sfsexp.Spec.Stability
import Sfsexp.Spec.Stream
import Sfsexp.Spec.Traversal
import Sfsexp.Spec.TreeRuns
import Sfsexp.Spec.Visible
