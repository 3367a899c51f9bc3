import Rollup.Proofs.Accounting
import Rollup.Proofs.Conservation
import Rollup.Proofs.Drain
import Rollup.Proofs.Newest
import Rollup.Proofs.Queue
import Rollup.Proofs.Tidy
import Rollup.Settings.Change
import Rollup.Settings.Document
import Rollup.Proofs.Assembly
import Rollup.Proofs.Spelling
import Rollup.Proofs.Parameters
import Rollup.Proofs.Grammar
import Rollup.Proofs.CanonicalId
import Rollup.Proofs.Described
import Rollup.Proofs.Columns
import Rollup.Proofs.RollUp
import Rollup.Proofs.Numbering
import Rollup.Proofs.Forecast
import Rollup.Proofs.Tuples
import Rollup.Proofs.Paging
import Rollup.Proofs.Filing
import Rollup.Proofs.Lookup
import Rollup.Proofs.Undo
import Rollup.Proofs.Coverage
import Rollup.Proofs.Spread
import Rollup.Proofs.TakeBack
import Rollup.Proofs.Rank
import Rollup.Proofs.Walk
import Rollup.Proofs.Hits
import Rollup.Proofs.Bounds
import Rollup.Proofs.Room
import Rollup.Proofs.Dropping
import Rollup.Proofs.Word
import Rollup.Proofs.Cursor
import Rollup.Proofs.Ring
import Rollup.Proofs.Threads
import Rollup.Proofs.Idle
import Rollup.Proofs.Spans
import Rollup.Proofs.Census
import Rollup.Proofs.Hashed
import Rollup.Proofs.Places
import Rollup.Proofs.Decoding
import Rollup.Proofs.Usable
import Rollup.Proofs.Wrap
import Rollup.Proofs.Clip
