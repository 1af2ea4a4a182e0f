import SymbolHistory.Bytes.Operation
import SymbolHistory.LineTable.Encode
import SymbolHistory.LineTable.Iterator
import SymbolHistory.LineTable.WellFormed
import SymbolHistory.Metadata.Serialize
import SymbolHistory.LineIndex.Change
import SymbolHistory.Session.History
import SymbolHistory.Proofs.Extent.Run
import SymbolHistory.Proofs.Extent.Span
import SymbolHistory.Proofs.LineDeltas
import SymbolHistory.Proofs.LineIndex.Lookup
import SymbolHistory.Proofs.MethodRegistry
import SymbolHistory.Proofs.Session.Move
import SymbolHistory.Proofs.Session.Step
import SymbolHistory.Proofs.Session.Lines
import SymbolHistory.Proofs.Session.LineAnswers
import SymbolHistory.Proofs.Bytes.Compressed
import SymbolHistory.Proofs.LineTable.Record
import SymbolHistory.Proofs.LineTable.Admission
import SymbolHistory.Proofs.LineTable.Iteration
import SymbolHistory.Proofs.LineTable.ReadBack
import SymbolHistory.Proofs.LineTable.RoundTrip
import SymbolHistory.Proofs.Metadata.RoundTrip
import SymbolHistory.Proofs.Metadata.Kept
import SymbolHistory.Proofs.Metadata.Truncation
import SymbolHistory.Proofs.Layout.Placement
import SymbolHistory.Proofs.DocumentRegistry
import SymbolHistory.Proofs.Session.DeltaSums
import SymbolHistory.Proofs.Session.Documents
import SymbolHistory.Proofs.LineTable.Failure
import SymbolHistory.Proofs.Session.Acceptance
import SymbolHistory.Proofs.Session.DocumentAnswers
import SymbolHistory.LineIndex.Copies
import SymbolHistory.Proofs.LineIndex.Copies
import SymbolHistory.Proofs.LineIndex.Following
import SymbolHistory.Proofs.Session.NextLine
import SymbolHistory.Proofs.LineIndex.Refinement
import SymbolHistory.Proofs.Session.Fate
import SymbolHistory.Proofs.Session.DeltaHistory
import SymbolHistory.Proofs.Session.MethodHistory
import SymbolHistory.Proofs.Extent.Depth
import SymbolHistory.Proofs.Session.Points
import SymbolHistory.Proofs.Session.DeltaOrder
import SymbolHistory.Proofs.Session.StillUpdate
import SymbolHistory.Proofs.Session.Offsets
import SymbolHistory.Proofs.DocumentGroups
import SymbolHistory.Proofs.Session.DocumentSearch
import SymbolHistory.Proofs.Machine.Session
import SymbolHistory.Proofs.LineDeltas.Action
import SymbolHistory.Proofs.LineIndex.Ahead
import SymbolHistory.Proofs.DocumentName.Reading
import SymbolHistory.Proofs.Metadata.Rewriting
import SymbolHistory.Proofs.Session.SearchRun
import SymbolHistory.Proofs.Extent.Summary
import SymbolHistory.Proofs.Bytes.Shortest
import SymbolHistory.Proofs.Heap.Sharing
import SymbolHistory.Proofs.Machine.Cursor
import SymbolHistory.Proofs.Session.Parallel
