import Stele.Contracts.RetractConverges
import Stele.Ledger.TransactionExit
import Stele.Lib.Loops
import Stele.Python.Objects
import Stele.Replay.Validator

/-! The bulk invalidations: of every record over an input, of what a validation pass found drifted,
and of what a replay found diverged. Each reads its list first and then goes through it. -/
namespace Stele
open Python Interleaving

inductive InvalidationReason
  | driftDetected
  | sourceChanged
  | parserUpdated
  | dataQuality
  | manual
  | replayDiverged
  deriving DecidableEq

def InvalidationReason.value : InvalidationReason → PyStr
  | .driftDetected => lit "drift_detected"
  | .sourceChanged => lit "source_changed"
  | .parserUpdated => lit "parser_updated"
  | .dataQuality => lit "data_quality"
  | .manual => lit "manual"
  | .replayDiverged => lit "replay_diverged"

/-- is_intact. -/
def ValidationResult.isIntact (v : ValidationResult) : Bool :=
  decide (v.status = .ok ∨ v.status = .archived)

/-- repr of a list of strings. -/
def listRepr (U : Unicode) (xs : List PyStr) : PyStr :=
  cp '[' :: ((lit ", ").intercalate (xs.map (reprStr U))++[cp ']'])

/-- drift_summary. -/
def ValidationResult.driftSummary (U : Unicode) (v : ValidationResult) : PyStr :=
  if v.status = .ok then lit "ok"
  else (lit "; ").intercalate
    ((if v.archivedFiles ≠ [] then [lit "archived_only="++listRepr U v.archivedFiles] else [])++
      (if v.missingFiles ≠ [] then [lit "missing="++listRepr U v.missingFiles] else [])++
      if v.driftedFiles ≠ [] then [lit "drift="++listRepr U v.driftedFiles] else [])

structure ValidationCandidate where
  record : ArtifactRecord
  validation : ValidationResult

section

variable (H : Hasher)

/-- The reason_note of invalidate_record. -/
def reasonNote (reason : InvalidationReason) (note : PyStr) : PyStr :=
  if note = [] then reason.value else reason.value++lit " — "++note

/-- invalidate_record. -/
def invalidateRecord (e : Env) (recordId : PyStr) (reason : InvalidationReason) (note : PyStr) :
    Op ArtifactRecord :=
  LedgerStore.invalidate H e recordId (reasonNote reason note)

/-- find_by_source_hash: the rows by created_at and record_id. -/
def findBySourceHash (sourceHash : PyStr) (db : Db) : Except Exc (List ArtifactRecord) := do
  let _ ← bindText sourceHash
  ((db.records.filter fun r => decide (r.sourceHash = .text sourceHash)).insertionSort fun r q =>
    r.createdAt.get < q.createdAt.get ∨
      (r.createdAt.get = q.createdAt.get ∧ r.recordId.get ≤ q.recordId.get)).mapM rowToRecord

/-- What find_by_source_hash returned and is sealed or pending. -/
def sourceCandidates (records : List ArtifactRecord) : List ArtifactRecord :=
  records.filter fun r => decide (r.state = .sealed ∨ r.state = .pending)

/-- invalidate_by_source_hash. The i-th invalidation has the environment `e i`. -/
def invalidateBySourceHash (e : ℕ → Env) (sourceHash : PyStr) (reason : InvalidationReason)
    (note : PyStr) : Op (List ArtifactRecord) := do
  let records ← Op.query (findBySourceHash sourceHash)
  each (fun i (r : ArtifactRecord) => invalidateRecord H (e i) r.recordId.get reason note) 0
    (sourceCandidates records)

/-- The candidates that auto_invalidate_drifted does not skip. -/
def driftedCandidates (candidates : List ValidationCandidate) : List ValidationCandidate :=
  candidates.filter fun c => !(c.validation.isIntact || decide (c.record.state = .invalidated))

def driftReason (v : ValidationResult) : InvalidationReason :=
  if v.status = .drift ∨ v.status = .missing then .driftDetected else .manual

/-- auto_invalidate_drifted. -/
def autoInvalidateDrifted (U : Unicode) (e : ℕ → Env) (planCandidates : List ValidationCandidate)
    (note : PyStr) : Op (List ArtifactRecord) :=
  each (fun i (c : ValidationCandidate) => invalidateRecord H (e i) c.record.recordId.get
    (driftReason c.validation) (note++lit ": "++c.validation.driftSummary U)) 0
    (driftedCandidates planCandidates)

/-- The results that invalidate_diverged acts on. -/
def divergedResults (results : List ReplayResult) : List ReplayResult :=
  results.filter fun r => decide (r.outcome = .diverged)

def divergedReason (r : ReplayResult) : PyStr :=
  InvalidationReason.replayDiverged.value++lit " — replay "++r.replayId++lit ": "++r.reason

/-- invalidate_diverged, through a Dispatcher. -/
def invalidateDiverged (classes : ℕ → TargetClass) (d : Dispatcher) (e : ℕ → Env)
    (c : ℕ → ℕ → RemovalArgs) (results : List ReplayResult) : Op (List RemovalResult) := do
  let removals ← each (fun i (r : ReplayResult) =>
    d.invalidate H classes (e i) (c i) r.recordId (divergedReason r)) 0 (divergedResults results)
  return removals.flatten

end

/-- The calls that a ledger is shared by: the bulk invalidations, and any other one. -/
inductive BatchCall
  | other (c : ProcessCall)
  | bySourceHash (e : ℕ → Env) (sourceHash : PyStr) (reason : InvalidationReason) (note : PyStr)
  | drifted (e : ℕ → Env) (candidates : List ValidationCandidate) (note : PyStr)
  | diverged (d : Dispatcher) (e : ℕ → Env) (c : ℕ → ℕ → RemovalArgs) (results : List ReplayResult)

inductive BatchResult
  | other (r : CallResult)
  | invalidated (rs : List ArtifactRecord)
  | removed (rs : List RemovalResult)

def BatchCall.prog (H : Hasher) (U : Unicode) (classes : ℕ → TargetClass) :
    BatchCall → Prog World (Except Exc BatchResult)
  | .other c => (fun r => r.map .other) <$> c.prog H classes
  | .bySourceHash e hash reason note =>
    (fun r => r.map .invalidated) <$> (invalidateBySourceHash H e hash reason note).run
  | .drifted e candidates note =>
    (fun r => r.map .invalidated) <$> (autoInvalidateDrifted H U e candidates note).run
  | .diverged d e c results => (fun r => r.map .removed) <$> (invalidateDiverged H classes d e c results).run

end Stele
