import Stele.Contracts.Removal
import Stele.Contracts.RemovalTargets
import Stele.Contracts.DeliveredOnce
import Stele.Contracts.RetractConverges
import Stele.Contracts.OwnResult
import Stele.Contracts.BoundPayload
import Stele.Verification.SignOffStale
import Stele.Ledger.Sealing
import Stele.Contracts.Contained
import Stele.Ledger.StateMachine
import Stele.Ledger.ChainExact
import Stele.Ledger.OnePayload
import Stele.Ledger.VerifyReports
import Stele.Ledger.TransactionExit
import Stele.Archive.AtomicPublish
import Stele.Archive.TreeCodec
import Stele.Extraction.StrictExtraction
import Stele.Python.JsonBytes
import Stele.Identity.RoundTrip
import Stele.Extraction.Honest
import Stele.Verification.Soundness
import Stele.Containment.SeccompPolicy
import Stele.Containment.ReaddirPages
import Stele.Containment.Oci
import Stele.Containment.AllOrNothing
import Stele.Extractors.SplitterExact
import Stele.Verification.Resume
import Stele.Adapters.TreeMetadata
import Stele.Adapters.ChunkIds
import Stele.Extraction.MarkdownSections
import Stele.Replay.JsonLines
import Stele.Extraction.VerifyReports
import Stele.Contracts.MetadataTypes
import Stele.Archive.ReadOnly
import Stele.Replay.BulkInvalidation
import Stele.Verification.CorpusCheck
