import Retrace.Main
import Retrace.Proofs.Revision.Provenance
import Retrace.Proofs.Except
import Retrace.Proofs.Model.WellFormed
import Retrace.Proofs.Model.Address
import Retrace.Proofs.Model.Trace
import Retrace.Proofs.Layer
import Retrace.Proofs.Phase
import Retrace.Proofs.Session.Provenance
import Retrace.Proofs.Grammar.Expr
import Retrace.Proofs.Grammar.LeftRecursion
import Retrace.Proofs.Grammar.Derivation
import Retrace.Proofs.Grammar.Places
import Retrace.Proofs.Grammar.Compile
import Retrace.Proofs.Grammar.Plan
import Retrace.Proofs.Grammar.Fits
import Retrace.Proofs.Grammar.Iterate
import Retrace.Proofs.Grammar.Rows
import Retrace.Proofs.Grammar.Threads
import Retrace.Proofs.Grammar.Recognition
import Retrace.Proofs.Grammar.Matching
import Retrace.Proofs.Grammar.Termination
import Retrace.Proofs.Markup.Token
import Retrace.Proofs.Markup.Reader
import Retrace.Proofs.Markup.Reference
import Retrace.Proofs.Model.Patch
import Retrace.Proofs.Model.Reading
import Retrace.Proofs.Model.Revise
import Retrace.Proofs.Model.Alike
import Retrace.Proofs.Model.RoundTrip
import Retrace.Proofs.Session.Preamble
import Retrace.Proofs.Model.Detach
import Retrace.Proofs.Session.Composition
import Retrace.Proofs.Text.Find
import Retrace.Proofs.Session.Detach
import Retrace.Proofs.Model.Order
import Retrace.Proofs.Model.Rendering
import Retrace.Proofs.Model.RenderRoundTrip
import Retrace.Proofs.Text.Span
import Retrace.Proofs.Grammar.Spans
import Retrace.Proofs.Grammar.Scan
import Retrace.Proofs.Revision.Ascending
import Retrace.Proofs.Handler
import Retrace.Proofs.Phase.Success
import Retrace.Proofs.Extension.ArrayInit
import Retrace.Proofs.Extension.TextualQuantifiers
import Retrace.Proofs.Registry
import Retrace.Proofs.Session.Standard
import Retrace.Proofs.Model.Paths
import Retrace.Proofs.Phase.Calls
import Retrace.Proofs.Session.Stages
import Retrace.Proofs.Grammar.Region
import Retrace.Proofs.Grammar.Tree
import Retrace.Proofs.Grammar.Sweep
import Retrace.Proofs.Grammar.Statements
import Retrace.Proofs.Extension.ArrayInit.Constants
import Retrace.Proofs.Extension.ArrayInit.Declarations
import Retrace.Proofs.Extension.ArrayInit.Scopes
import Retrace.Proofs.Extension.ArrayInit.Expansion
import Retrace.Proofs.Phase.About
import Retrace.Proofs.Extension.ArrayInit.Walk
import Retrace.Proofs.Extension.TextualQuantifiers.Keywords
import Retrace.Proofs.Session.Repetition
import Retrace.Proofs.Session.Order
import Retrace.Proofs.Text.Order
import Retrace.Proofs.Revision.Monotone
import Retrace.Proofs.Session.Isolation
import Retrace.Proofs.Session.Monotone
import Retrace.Proofs.Session.Failure
import Retrace.Proofs.Phase.Sequence
import Retrace.Proofs.Revision.Growth
import Retrace.Proofs.Revision.Requests
import Retrace.Proofs.Record.Quoted
import Retrace.Proofs.Record.Value
import Retrace.Proofs.Record
import Retrace.Proofs.Markup.Stuck
import Retrace.Proofs.Model.Fault
import Retrace.Proofs.Session.Unreadable
import Retrace.Proofs.Revision.Kept
import Retrace.Proofs.Grammar.Longest
import Retrace.Proofs.Grammar.Leftmost
import Retrace.Proofs.Grammar.Tiling
import Retrace.Proofs.Grammar.Agreement
import Retrace.Proofs.Grammar.Cover
import Retrace.Proofs.Model.Splicing
import Retrace.Proofs.Grammar.Plain
import Retrace.Proofs.Grammar.Names
import Retrace.Proofs.Grammar.Compilable
import Retrace.Proofs.Grammar.Spelling
import Retrace.Proofs.Grammar.Writing
import Retrace.Proofs.Text.Digits
import Retrace.Proofs.Markup.Decoding
import Retrace.Proofs.Model.TagPairs
import Retrace.Proofs.Model.Reached
import Retrace.Proofs.Model.Visiting
import Retrace.Proofs.Model.PathText
import Retrace.Proofs.Text.Place
import Retrace.Proofs.Extension.ArrayInit.Visibility
import Retrace.Proofs.Extension.ArrayInit.Copies
import Retrace.Proofs.Grammar.Mirror
import Retrace.Proofs.Grammar.Shortest
import Retrace.Proofs.Extension.TextualQuantifiers.Scanned
import Retrace.Proofs.Extension.TextualQuantifiers.Formulas
import Retrace.Proofs.Extension.TextualQuantifiers.Query
