import EdgeTemplate.Text.Blank
import EdgeTemplate.Text.Cut
import EdgeTemplate.Text.Repetition
import EdgeTemplate.Text.Word
import EdgeTemplate.Number
import EdgeTemplate.Number.Binary64
import EdgeTemplate.Number.Layout
import EdgeTemplate.Number.Shortest
import EdgeTemplate.Entries
import EdgeTemplate.OrderedMap
import EdgeTemplate.Json
import EdgeTemplate.Json.Numeral
import EdgeTemplate.Json.Printer
import EdgeTemplate.Json.Quoted
import EdgeTemplate.Json.Reader
import EdgeTemplate.Defines.Scalar
import EdgeTemplate.Defines.Basic
import EdgeTemplate.Context
import EdgeTemplate.Condition
import EdgeTemplate.Condition.Eval
import EdgeTemplate.Condition.Literal
import EdgeTemplate.Condition.Parse
import EdgeTemplate.Condition.Scanner
import EdgeTemplate.Error
import EdgeTemplate.Defines.Collect
import EdgeTemplate.Directive
import EdgeTemplate.Directive.Block
import EdgeTemplate.Directive.Inline
import EdgeTemplate.Nesting
import EdgeTemplate.Template
import EdgeTemplate.Request.Headers
import EdgeTemplate.Request.Signals
import EdgeTemplate.Command
import EdgeTemplate.Command.Arguments
import EdgeTemplate.Command.Host
import EdgeTemplate.Command.Invocation
import EdgeTemplate.Command.Workdir
import EdgeTemplate.Main
import EdgeTemplate.Proofs.Outcome
import EdgeTemplate.Proofs.Balance
import EdgeTemplate.Proofs.Regions
import EdgeTemplate.Proofs.Processing
import EdgeTemplate.Proofs.Lookup
import EdgeTemplate.Proofs.Reading
import EdgeTemplate.Proofs.Grammar
import EdgeTemplate.Proofs.Literals
import EdgeTemplate.Proofs.Parsing
import EdgeTemplate.Proofs.Markers
import EdgeTemplate.Proofs.Propagation
import EdgeTemplate.Proofs.Typing
import EdgeTemplate.Proofs.Rewriting
import EdgeTemplate.Proofs.Insertion
import EdgeTemplate.Proofs.Overrides
import EdgeTemplate.Proofs.Agreement
import EdgeTemplate.Proofs.Reordering
import EdgeTemplate.Proofs.Concatenation
import EdgeTemplate.Proofs.RoundTrip
import EdgeTemplate.Proofs.LineEnds
import EdgeTemplate.Proofs.Simulation
import EdgeTemplate.Proofs.Stability
import EdgeTemplate.Proofs.Comparison
import EdgeTemplate.Proofs.Delivery
import EdgeTemplate.Proofs.Phrases
import EdgeTemplate.Proofs.Placeholders
import EdgeTemplate.Proofs.Primitives
import EdgeTemplate.Proofs.Coherence
import EdgeTemplate.Proofs.Connectives
import EdgeTemplate.Proofs.Mappings
import EdgeTemplate.Proofs.Merging
import EdgeTemplate.Proofs.Saturation
import EdgeTemplate.Proofs.Cookies
import EdgeTemplate.Proofs.Depth
import EdgeTemplate.Proofs.Histories
import EdgeTemplate.Proofs.Cursor
import EdgeTemplate.Proofs.Tokens
import EdgeTemplate.Proofs.Positions
