import Packwright.Main
import Packwright.Proofs.Annotate.MarkedCalls
import Packwright.Proofs.Annotate.OnlyComments
import Packwright.Proofs.Bundle.Unfinished
import Packwright.Proofs.Channel.Plugins
import Packwright.Proofs.Channel.Replies
import Packwright.Proofs.Config.Composition
import Packwright.Proofs.Disk
import Packwright.Proofs.DocComment.Addresses
import Packwright.Proofs.Patch.Splicing
import Packwright.Proofs.Path.Shape
import Packwright.Proofs.Rehearsal.Scene
import Packwright.Proofs.SourceMap.Keeping
import Packwright.Proofs.Store.Agenda
import Packwright.Proofs.Store.Debounce
import Packwright.Proofs.Store.Journal
import Packwright.Proofs.Vlq.Canonical
import Packwright.Proofs.Watch.NothingLost
import Packwright.Proofs.Watch.TestOutputs
import Packwright.Rehearsal.Watch
import Packwright.Timestamp
import Packwright.Proofs.Patch.Encoding
import Packwright.Proofs.SourceMap.Order
import Packwright.Proofs.Annotate.FusedProgram
import Packwright.Proofs.Annotate.KeptLines
import Packwright.Proofs.Store.Receipts
import Packwright.Proofs.Config.Refusal
import Packwright.Proofs.Watch.FatalPath
import Packwright.Proofs.SourceMap.RoundTrip
import Packwright.Proofs.Dictionary.Ascending
import Packwright.Proofs.Unit.Manifest
import Packwright.Proofs.Config.Snapshot
import Packwright.Proofs.Log.Framing
import Packwright.Proofs.Annotate.WalkOrder
import Packwright.Proofs.Bundle.Resolution
import Packwright.Proofs.Compile.RootNames
