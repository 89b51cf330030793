import Highlight.Text.Basic
import Highlight.Text.Runs
import Highlight.Text.Word
import Highlight.Text.Letter
import Highlight.Text.Name
import Highlight.Text.Digit
import Highlight.Text.Blank
import Highlight.Text.Printable
import Highlight.Text.Case
import Highlight.Text.Quoted
import Highlight.Pattern.Flags
import Highlight.Pattern.CharSet
import Highlight.Pattern.Tree
import Highlight.Pattern.Error
import Highlight.Pattern.Lexeme
import Highlight.Pattern.Parser
import Highlight.Pattern.Matcher
import Highlight.Pattern.Match
import Highlight.Chunk.Basic
import Highlight.Chunk.Printed
import Highlight.Chunk.Range
import Highlight.Buffer
import Highlight.Decimal
import Highlight.Config
import Highlight.Failure
import Highlight.Event
import Highlight.Profile
import Highlight.Grammar.Basic
import Highlight.Grammar.Resolution
import Highlight.Grammar.Store
import Highlight.Tokenizer.Run
import Highlight.Tokenizer.Sweep
import Highlight.Tokenizer.Basic
import Highlight.Language.Css
import Highlight.Language.Registry
import Highlight.Session
import Highlight.Pattern.Lemmas
import Highlight.Proofs.Buffer.Listing
import Highlight.Proofs.Buffer.Editing
import Highlight.Proofs.Pattern.Find
import Highlight.Proofs.Tape.Basic
import Highlight.Proofs.Tape.Moves
import Highlight.Proofs.Tokenizer.Computation
import Highlight.Proofs.Tape.Halting
import Highlight.Proofs.Tape.Refinement
import Highlight.Proofs.Tape.Rules
import Highlight.Proofs.Tape.Leading
import Highlight.Proofs.Coverage
import Highlight.Proofs.Saturation.Settled
import Highlight.Proofs.Saturation.Sweep
import Highlight.Proofs.Saturation.Completeness
import Highlight.Proofs.Css.Rules
import Highlight.Proofs.Store.Resolutions
import Highlight.Proofs.Css.Installed
import Highlight.Proofs.Tape.Filled
import Highlight.Proofs.Css.Totality
import Highlight.Proofs.Tape.Congruence
import Highlight.Proofs.Tokenizer.Limits
import Highlight.Proofs.Tokenizer.Deadline
import Highlight.Proofs.Store.Closure
import Highlight.Proofs.Store.Changes
import Highlight.Proofs.Tokenizer.Termination
import Highlight.Proofs.Tokenizer.Handles
import Highlight.Proofs.Tokenizer.Replay
import Highlight.Proofs.Provenance
import Highlight.Proofs.Rematch.Watch
import Highlight.Proofs.Steps.Parts
import Highlight.Proofs.Rematch.Site
import Highlight.Proofs.Tape.Taking
import Highlight.Proofs.Steps.Way
import Highlight.Proofs.Rematch.Locality
import Highlight.Proofs.Session.History
import Highlight.Proofs.Session.FailFast
import Highlight.Proofs.Session.Transparency
import Highlight.Proofs.Store.Worklist
import Highlight.Proofs.Session.Resolving
import Highlight.Proofs.Steps.Watch
import Highlight.Proofs.Steps.Tidy
import Highlight.Proofs.Steps.Kept
import Highlight.Proofs.Steps.Sparing
import Highlight.Proofs.Steps.NormalForm
import Highlight.Proofs.Overrun.Size
import Highlight.Proofs.Overrun.NonEmpty
import Highlight.Proofs.Overrun.Guard
import Highlight.Proofs.Tokenizer.Depth
import Highlight.Proofs.Session.Accounting
import Highlight.Proofs.Tokenizer.Layers
import Highlight.Proofs.Exit.Abreast
import Highlight.Proofs.Exit.Early
import Highlight.Proofs.Placement
import Highlight.Proofs.Store.Merging
import Highlight.Pattern.Along
import Highlight.Proofs.Pattern.Context
import Highlight.Proofs.Store.Ahead
import Highlight.Proofs.Tokenizer.Ahead
import Highlight.Proofs.Tape.Foremost
