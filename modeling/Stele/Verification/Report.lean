import Stele.Extraction.Normalizers
import Stele.Extraction.Resolver
import Stele.Ledger.Verify
import Stele.Replay.Validator
import Stele.Verification.Campaign

/-! The verification report: what a campaign proved, re-checked against the ledger and the
evidence archive, and the gates that decide whether it passed. -/
namespace Stele
open Python

inductive Outcome
  | identical
  | equivalent
  | diverged
  | regression
  | recovered
  | consistentFailure
  | failureMismatch
  | incomplete
  | notApplicable
  | error
  deriving DecidableEq

namespace Outcome

def value : Outcome → PyStr
  | .identical => lit "identical"
  | .equivalent => lit "equivalent"
  | .diverged => lit "diverged"
  | .regression => lit "regression"
  | .recovered => lit "recovered"
  | .consistentFailure => lit "consistent_failure"
  | .failureMismatch => lit "failure_mismatch"
  | .incomplete => lit "incomplete"
  | .notApplicable => lit "not_applicable"
  | .error => lit "error"

/-- All of them, sorted by value. -/
def all : List Outcome :=
  [.consistentFailure,.diverged,.equivalent,.error,.failureMismatch,.identical,.incomplete,
    .notApplicable,.recovered,.regression]

/-- self in WAIVABLE. -/
def waivable (o : Outcome) : Bool := decide (o ∈ [.diverged,.regression,.failureMismatch])

end Outcome

/-- An accepted comparison finding. -/
structure Waiver where
  path : PyVal
  lane : PyVal
  outcome : Outcome
  reason : PyStr
  outcome_ok : outcome.waivable = true
  reason_ok : strip reason ≠ []

namespace Waiver

/-- Waiver(...), its checks in order. -/
def make (path lane outcome reason : PyVal) : Except Exc Waiver := do
  let key ← hashKey outcome
  match Outcome.all.find? fun o => key.eq (.str o.value) with
  | none => .error .valueError
  | some o =>
    if ho : o.waivable = true then
      match reason with
      | .str s => if hs : strip s ≠ [] then .ok ⟨path,lane,o,s,ho,hs⟩ else .error .valueError
      | _ => .error .valueError
    else .error .valueError

def toJson (w : Waiver) : PyVal :=
  .dict [(.str (lit "path"),w.path),(.str (lit "lane"),w.lane),
    (.str (lit "outcome"),.str w.outcome.value),(.str (lit "reason"),.str w.reason)]

/-- The same (path, lane, outcome). -/
def sameKey (v w : Waiver) : Bool :=
  v.path.pyEq w.path && v.lane.pyEq w.lane && decide (v.outcome = w.outcome)

/-- The waiver is of this document, lane and outcome. -/
def isFor (w : Waiver) (path lane : PyStr) (outcome : Outcome) : Bool :=
  w.path.pyEq (.str path) && w.lane.pyEq (.str lane) && decide (w.outcome = outcome)

/-- waiver_index[key] = w. -/
def insert : List Waiver → Waiver → List Waiver
  | [],w => [w]
  | v :: vs,w => if v.sameKey w then w :: vs else v :: insert vs w

end Waiver

/-- Thresholds; what is no number is refused when it is compared. -/
structure Gates where
  maxBaselineFailureRate : PyVal
  maxSlowdown : PyVal
  checkExtractions : PyVal

def Gates.toJson (g : Gates) : PyVal :=
  .dict [(.str (lit "max_baseline_failure_rate"),g.maxBaselineFailureRate),
    (.str (lit "max_slowdown"),g.maxSlowdown),(.str (lit "check_extractions"),g.checkExtractions)]

/-- What a caller gives as comparison policy. -/
structure ComparisonPolicy where
  describe : Except Exc PyVal
  compare : PyVal → PyVal → Archive → Except Exc (Bool × List PyStr)

/-- What the report says in words. -/
inductive ReportText
  /- a text that is given as it stands -/
  | plain (s : PyStr)
  /- "record {record_id} is not in the ledger", "... is {state}, not sealed", "... is not the run
  the journal names", "... was made by another parser" -/
  | notInLedger (record_id : Option PyStr)
  | notSealed (record_id : PyStr) (state : ArtifactState)
  | otherRun (record_id : PyStr)
  | otherParser (record_id : PyStr)
  /- "record {record_id} was made on {backend!r}, not on lane {lane}'s backend {expected!r}",
  "... was made with another parser configuration", "... is already the result of {first}" -/
  | otherBackend (record_id : PyStr) (backend : TextCell) (lane : PyStr) (expected : Option PyStr)
  | otherConfig (record_id : PyStr)
  | alreadyClaimed (record_id first : PyStr)
  /- "record {record_id} read input {source_hash}, not the corpus document", "... does not verify:
  {status} {files}" -/
  | otherInput (record_id : PyStr) (source_hash : TextCell)
  | unverified (record_id : PyStr) (status : ValidationStatus) (files : List PyStr)
  /- "record {record_id}: extraction failed: {exc}", "record {record_id}: extraction: {p}" -/
  | extractionFailed (record_id : PyStr) (exc : Exc)
  | extraction (record_id : PyStr) (p : VerifyProblem)
  /- "[{name}] {p}", "{entry.path} {p}" -/
  | onLane (name : PyStr) (p : ReportText)
  | ofDocument (path : PyStr) (p : ReportText)
  /- "{path} [{lane}]: {status}: {detail}", "{path} [{lane}]: {outcome}" of a finding and of a
  waiver -/
  | runError (path lane : PyStr) (status : Status) (detail : Option PyStr)
  | finding (path lane : PyStr) (outcome : Outcome)
  | unusedWaiver (path lane : PyVal) (outcome : Outcome)
  /- a problem of verify_ledger -/
  | chain (p : ChainProblem)
  | ledger (p : LedgerProblem)
  /- "every document still hashes as in the manifest", "{n} difference(s) from the manifest" -/
  | corpusChanged (n : ℕ)
  /- "{observed}/{expected} document-lane runs observed", with "; the corpus is empty" -/
  | coverage (observed expected : ℤ) (empty : Bool)
  /- "the baseline sealed {n} document(s)" -/
  | baselineSealed (n : ℕ)
  /- "no Stele, host or containment errors", "{n} run(s) ended in an error" -/
  | runErrors (n : ℕ)
  /- "every sealed record verifies against the ledger, archive and corpus", "{n} integrity
  problem(s)" -/
  | integrityProblems (n : ℕ)
  /- "every candidate agrees with the baseline or is waived", "{n} unwaived finding(s)" -/
  | unwaivedFindings (n : ℕ)
  /- "every waiver matches a finding", "{n} waiver(s) match nothing" -/
  | unusedWaivers (n : ℕ)
  /- "{rate:.4%} of applicable documents failed on the baseline (limit {limit:.4%})" -/
  | failureRate (failed applicable : ℕ) (limit : PyVal)
  /- "median candidate/baseline wall time within {limit}x", "{n} lane(s) slower than {limit}x",
  "{cand}: median {median:.2f}x" -/
  | slowLanes (n : ℕ) (limit : PyVal)
  | slowLane (cand : PyStr) (median : PyVal)

/-- Python's arithmetic on the numbers of a journal and of the thresholds. -/
structure FloatOps where
  /- (p50, p95, max) of the values that there are, rounded; of no value at all when there is none -/
  stats : List PyVal → Except Exc (PyVal × PyVal × PyVal)
  /- c / b, None when b <= 0 -/
  ratio : (c b : PyVal) → Except Exc PyVal
  /- statistics.median, and round(v, 6) -/
  median : List PyVal → Except Exc PyVal
  round6 : PyVal → Except Exc PyVal
  /- a <= b, and a > b -/
  le : PyVal → PyVal → Except Exc Bool
  gt : PyVal → PyVal → Except Exc Bool
  /- failed / applicable, 0.0 of no applicable document -/
  rate : (failed applicable : ℕ) → PyVal

/-- What build_report takes from the disk, the clock and the formatting of numbers. -/
structure ReportEnv where
  disk : FileHashes
  now : PyStr
  floats : FloatOps
  text : ReportText → PyStr

/-- The arguments of build_report; `root` is what corpus.check(root) gives. -/
structure ReportInputs where
  db : Db
  archive : Archive
  corpus : Corpus
  journal : Journal
  root : Option (Except Exc (List PyStr))
  policy : Option ComparisonPolicy
  gates : Gates
  waivers : List Waiver

/-- _MAX_FINDINGS. -/
def maxFindings : ℕ := 20

/-- dict(manifest) of a record; what is no digest reads as none. -/
def manifestOf (kvs : List (PyKey × PyVal)) : Manifest :=
  kvs.filterMap fun p => match p.1 with
    | .str path => some (path,match p.2 with
      | .str digest => digest
      | _ => [])
    | _ => none

/-- SealedBundle.from_record. -/
def SealedBundle.fromRecord (r : ArtifactRecord) (a : Archive) : Except Exc SealedBundle := do
  let manifest ← dictOf r.artifactManifest
  return ⟨r.recordId.get,r.artifactHash.get,manifestOf manifest,r.parser,
    (match r.sourceHash with
      | .null => none
      | c => some c.get),a⟩

section Checking

variable (H : Hasher) (U : Unicode) (E : ReportEnv) (x : ReportInputs)

/-- _lane_row. -/
def laneRow (o : Observation) : List (PyKey × PyVal) :=
  let optional (key : String) : Option PyStr → List (PyKey × PyVal)
    | none => []
    | some s => [(.str (lit key),.str s)]
  let number (key : String) : PyVal → List (PyKey × PyVal)
    | .none => []
    | v => [(.str (lit key),v)]
  [(.str (lit "status"),.str o.status.value)]++optional "backend" o.backend++
    optional "record_id" o.recordId++optional "artifact_hash" o.artifactHash++
    (match o.failure with
      | none => []
      | some f => [(.str (lit "failure"),.dict [(.str (lit "reason"),.str f.reason),
          (.str (lit "detail"),RunConditions.optionPy .str f.detail)])])++
    optional "detail" (o.detail.filter fun s => decide (s ≠ []))++
    match o.telemetry with
    | none => []
    | some t => number "wall_time_seconds" t.wallTimeSeconds++
        number "cpu_time_seconds" t.cpuTimeSeconds++number "peak_memory_bytes" t.peakMemoryBytes

/-- _check_extraction. -/
def checkExtraction (r : ArtifactRecord) : Except Exc (Option ℕ × List ReportText) := do
  let bundle ← SealedBundle.fromRecord r x.archive
  match normalizerFor bundle with
  | .error _ => return (none,[])
  | .ok _ =>
    match normalize H U bundle with
    | .error e => return (none,[.extractionFailed r.recordId.get e])
    | .ok extraction =>
      let problems ← (BundleResolver.verify H U bundle extraction .fresh).1
      return (some extraction.units.length,
        (problems.take maxFindings).map fun p => .extraction r.recordId.get p)

/-- What _RecordChecker.check returns. -/
structure Checked where
  record : Option ArtifactRecord
  problems : List ReportText
  units : Option ℕ

/-- The lane of that name: of several, the last. -/
def laneBackend (name : PyStr) : Option PyStr :=
  Dict.get (x.journal.header.lanes.foldl (fun d l => Dict.set d l.name l.backend) []) name

/-- "<path> [<lane>]". -/
def claimantOf (o : Observation) : PyStr := o.path++lit " ["++o.lane++lit "]"

/-- if condition: problems.append(...). -/
def problemIf (condition : Bool) (p : ReportText) : List ReportText := if condition then [p] else []

/-- What check compares of the record itself; `digest` is that of its configuration. -/
def recordMismatches (o : Observation) (sha256 : PyStr) (r : ArtifactRecord) (digest : Option PyStr)
    (first : PyStr) : List ReportText :=
  let id := r.recordId.get
  problemIf (decide (r.state ≠ .sealed)) (.notSealed id r.state)++
  problemIf (decide (r.runId ≠ .ofOption o.runId ∨ r.artifactHash ≠ .ofOption o.artifactHash))
    (.otherRun id)++
  problemIf (decide (r.parser.map (fun p => NameVersion.mk p.name p.version) ≠
    some x.journal.header.parser)) (.otherParser id)++
  problemIf (decide (r.backend ≠ .ofOption (laneBackend x o.lane)))
    (.otherBackend id r.backend o.lane (laneBackend x o.lane))++
  problemIf (decide (digest ≠ some x.journal.header.parserConfigDigest)) (.otherConfig id)++
  problemIf (decide (first ≠ claimantOf o)) (.alreadyClaimed id first)++
  problemIf (decide (r.sourceHash ≠ .text sha256)) (.otherInput id r.sourceHash)

/-- self.ledger.get(record_id). -/
def observedRecord (o : Observation) : Except Exc ArtifactRecord :=
  match o.recordId with
  | none => .error (.recordNotFound [])
  | some id => getRecord id x.db

/-- validation.drifted_files or validation.missing_files. -/
def ValidationResult.damaged (v : ValidationResult) : List PyStr :=
  if v.driftedFiles ≠ [] then v.driftedFiles else v.missingFiles

/-- config_digest(record.parser_config), None for none. -/
def recordDigest (r : ArtifactRecord) : Except Exc (Option PyStr) :=
  match r.parserConfig with
  | none => .ok none
  | some config => (configDigest H config).map some

/-- _RecordChecker.check; `claimed` holds who cited each record first. -/
def checkRecord (claimed : Dict PyStr PyStr) (o : Observation) (sha256 : PyStr) :
    Except Exc (Checked × Dict PyStr PyStr) :=
  match observedRecord x o with
  | .error (.recordNotFound _) => .ok (⟨none,[.notInLedger o.recordId],none⟩,claimed)
  | .error e => .error e
  | .ok r => do
    let digest ← recordDigest H r
    let claimed := claimed.setDefault r.recordId.get (claimantOf o)
    let problems := recordMismatches x o sha256 r digest ((claimed.get r.recordId.get).getD [])
    let v ← validateArtifact H E.disk x.archive r
    if v.status ≠ .ok ∧ v.status ≠ .archived then
      return (⟨some r,problems++[.unverified r.recordId.get v.status (v.damaged.take 5)],none⟩,claimed)
    else if truthy x.gates.checkExtractions then do
      let (units,found) ← checkExtraction H U x r
      return (⟨some r,problems++found,units⟩,claimed)
    else return (⟨some r,problems,none⟩,claimed)

/-- (obs.failure or {}).get("reason"). -/
def reasonOf (o : Observation) : Option PyStr := o.failure.map Failure.reason

/-- _failure_text. -/
def failureText (o : Observation) : PyStr :=
  let detail := ((o.failure.bind Failure.detail).filter fun s => decide (s ≠ [])).getD (o.detail.getD [])
  strip (((reasonOf o).getD (lit "failed"))++lit ": "++detail)

/-- The paths on which two manifests differ. -/
def differingPaths (recorded candidate : List (PyStr × PyVal)) : List PyStr :=
  let value (m : List (PyStr × PyVal)) (p : PyStr) : PyVal := (Dict.get m p).getD .none
  (((recorded++candidate).map Prod.fst).dedup.insertionSort fun p q => p ≤ q).filter fun p =>
    !(value recorded p).pyEq (value candidate p)

/-- _compare. -/
def compareRuns (base cand : Option Observation) (baseRecord candRecord : Option ArtifactRecord) :
    Except Exc (Outcome × List PyStr) :=
  match base,cand with
  | some b,some c =>
    if b.status.isError ∨ c.status.isError then .ok (.error,[])
    else if b.status = .notApplicable ∧ c.status = .notApplicable then .ok (.notApplicable,[])
    else if b.status = .notApplicable ∨ c.status = .notApplicable then
      .ok (.failureMismatch,[lit "the parser accepted the document on one lane only"])
    else if b.status = .sealed ∧ c.status = .sealed then
      match baseRecord,candRecord with
      | some recorded,some candidate =>
        if recorded.artifactManifest.pyEq candidate.artifactManifest then .ok (.identical,[])
        else match x.policy with
          | some policy => do
            let (accepted,findings) ← policy.compare recorded.artifactManifest
              candidate.artifactManifest x.archive
            return if accepted then (.equivalent,[]) else (.diverged,findings)
          | none => do
            let m ← manifestItems recorded.artifactManifest
            let n ← manifestItems candidate.artifactManifest
            return (.diverged,(differingPaths m n).map fun p => lit "differs: "++p)
      | _,_ => .ok (.error,[lit "a sealed record is missing from the ledger"])
    else if b.status = .sealed then .ok (.regression,[failureText c])
    else if c.status = .sealed then .ok (.recovered,[failureText b])
    else if reasonOf b = reasonOf c then .ok (.consistentFailure,[failureText b])
    else .ok (.failureMismatch,[lit "baseline "++failureText b++lit "; candidate "++failureText c])
  | _,_ => .ok (.incomplete,[])

/-- _ratio; None where there is none. -/
def ratioOf (base cand : Option Observation) : Except Exc PyVal :=
  let wall (o : Option Observation) : PyVal :=
    match o.bind Observation.telemetry with
    | none => .none
    | some t => t.wallTimeSeconds
  match wall base,wall cand with
  | .none,_ | _,.none => .ok .none
  | b,c => E.floats.ratio c b

end Checking

section Building

variable (H : Hasher) (U : Unicode) (E : ReportEnv) (x : ReportInputs)

/-- What the loop over the lanes of one document fills. -/
structure LaneScan where
  claimed : Dict PyStr PyStr
  rows : Dict PyStr PyVal
  records : Dict PyStr ArtifactRecord
  problems : List ReportText
  errors : List ReportText
  missing : ℕ

/-- One lane of one document. -/
def LaneScan.lane (entry : CorpusEntry) (s : LaneScan) (name : PyStr) : Except Exc LaneScan :=
  match Dict.get (latestObservations x.journal.observations) (entry.path,name) with
  | none => .ok {s with
      missing := s.missing+1,
      rows := s.rows.set name (.dict [(.str (lit "status"),.str Outcome.incomplete.value)]) }
  | some o =>
    let errors := s.errors++problemIf o.status.isError (.runError entry.path name o.status o.detail)
    if o.status = .sealed then do
      let (c,claimed) ← checkRecord H U E x s.claimed o entry.sha256
      let units := match c.units with
        | none => []
        | some n => [(.str (lit "extraction_units"),.int n)]
      return {
        claimed := claimed,
        rows := s.rows.set name (.dict (laneRow o++units)),
        records := match c.record with
          | none => s.records
          | some r => s.records.set name r,
        problems := s.problems++c.problems.map (.onLane name),
        errors := errors,
        missing := s.missing }
    else .ok {s with errors := errors, rows := s.rows.set name (.dict (laneRow o)) }

/-- What the loop over the corpus fills. -/
structure Tally where
  claimed : Dict PyStr PyStr
  documents : List PyVal
  used : List (PyStr × PyStr × Outcome)
  outcomes : List (PyStr × Outcome)
  unwaived : List ReportText
  integrity : List ReportText
  errors : List ReportText
  missing : ℕ
  slowdowns : List (PyStr × PyVal)

def Tally.start : Tally := ⟨[],[],[],[],[],[],[],0,[]⟩

/-- {(w.path, w.lane, w.outcome): w for w in waivers}. -/
def waiverIndex : Except Exc (List Waiver) := do
  x.waivers.forM fun w => do
    let _ ← hashKey w.path
    let _ ← hashKey w.lane
  return x.waivers.foldl Waiver.insert []

def lanes : List PyStr := x.journal.header.lanes.map Lane.name

def candidates : List PyStr := (lanes x).filter fun name => decide (name ≠ x.journal.header.baseline)

/-- What the loop over the candidates of one document fills. -/
structure CandidateScan where
  rows : Dict PyStr PyVal
  used : List (PyStr × PyStr × Outcome)
  outcomes : List (PyStr × Outcome)
  unwaived : List ReportText
  slowdowns : List (PyStr × PyVal)

/-- One candidate of one document. -/
def CandidateScan.candidate (index : List Waiver) (entry : CorpusEntry)
    (records : Dict PyStr ArtifactRecord) (s : CandidateScan) (cand : PyStr) :
    Except Exc CandidateScan := do
  let observed (name : PyStr) :=
    Dict.get (latestObservations x.journal.observations) (entry.path,name)
  let baseline := x.journal.header.baseline
  let (outcome,findings) ← compareRuns x (observed baseline) (observed cand) (records.get baseline)
    (records.get cand)
  let shown : List (PyKey × PyVal) := if findings = [] then [] else
    (.str (lit "findings"),.list ((findings.take maxFindings).map .str)) ::
      if maxFindings < findings.length then
        [(.str (lit "findings_truncated"),.int (findings.length-maxFindings : ℕ))] else []
  let waiver := index.find? fun w => w.isFor entry.path cand outcome
  let waived : List (PyKey × PyVal) := match outcome.waivable,waiver with
    | true,some w => [(.str (lit "waived"),.str w.reason)]
    | _,_ => []
  let ratio ← if outcome = .identical ∨ outcome = .equivalent then
      ratioOf E (observed baseline) (observed cand) else pure .none
  return {
    rows := s.rows.set cand (.dict ((.str (lit "outcome"),.str outcome.value) :: (shown++waived))),
    used := if outcome.waivable ∧ waiver.isSome then s.used++[(entry.path,cand,outcome)] else s.used,
    outcomes := s.outcomes++[(cand,outcome)],
    unwaived := s.unwaived++problemIf (outcome.waivable && waiver.isNone) (.finding entry.path cand outcome),
    slowdowns := match ratio with
      | .none => s.slowdowns
      | r => s.slowdowns++[(cand,r)] }

/-- A dict with string keys. -/
def strDict (d : Dict PyStr PyVal) : PyVal := .dict (d.map fun p => (.str p.1,p.2))

def texts (ps : List ReportText) : PyVal := .list (ps.map fun p => .str (E.text p))

/-- One document. -/
def Tally.document (index : List Waiver) (t : Tally) (entry : CorpusEntry) : Except Exc Tally := do
  let s ← (lanes x).foldlM (LaneScan.lane H U E x entry) ⟨t.claimed,[],[],[],t.errors,t.missing⟩
  let c ← (candidates x).foldlM (CandidateScan.candidate E x index entry s.records)
    ⟨[],t.used,t.outcomes,t.unwaived,t.slowdowns⟩
  let row : List (PyKey × PyVal) :=
    [(.str (lit "path"),.str entry.path),(.str (lit "sha256"),.str entry.sha256),
      (.str (lit "size"),.int entry.size),(.str (lit "lanes"),strDict s.rows),
      (.str (lit "comparisons"),strDict c.rows)]++
    if s.problems = [] then [] else [(.str (lit "problems"),texts E s.problems)]
  return {
    claimed := s.claimed,
    documents := t.documents++[.dict row],
    used := c.used,
    outcomes := c.outcomes,
    unwaived := c.unwaived,
    integrity := t.integrity++s.problems.map (.ofDocument entry.path),
    errors := s.errors,
    missing := s.missing,
    slowdowns := c.slowdowns }

end Building

section Summary

variable (E : ReportEnv) (x : ReportInputs)

/-- {"n": ..., "p50": ..., "p95": ..., "max": ...} of the values that there are. -/
def statsOf (values : List PyVal) : Except Exc PyVal := do
  let vals := values.filter fun v => match v with
    | .none => false
    | _ => true
  let (p50,p95,max) ← if vals.isEmpty then pure (.none,.none,.none) else E.floats.stats vals
  return .dict [(.str (lit "n"),.int vals.length),(.str (lit "p50"),p50),(.str (lit "p95"),p95),
    (.str (lit "max"),max)]

/-- The latest observations of the corpus on one lane. -/
def laneObservations (name : PyStr) : List Observation :=
  ((latestObservations (x.journal.observations.filter fun o =>
    x.corpus.entries.any fun e => decide (e.path = o.path))).filter
      fun p => decide (p.1.2 = name)).map Prod.snd

def statusCount (name : PyStr) (s : Status) : ℕ :=
  (laneObservations x name).countP fun o => decide (o.status = s)

/-- dict(sorted(statuses.items())) and its like: the counts that are not zero. -/
def countsPy (counts : List (PyStr × ℕ)) : PyVal :=
  .dict ((counts.filter fun p => decide (p.2 ≠ 0)).map fun p => (.str p.1,.int p.2))

/-- The reasons of the failed runs, sorted, with their counts. -/
def failureReasons (name : PyStr) : List (PyStr × ℕ) :=
  let reasons := ((laneObservations x name).filter fun o => decide (o.status = .failed)).map fun o =>
    ((reasonOf o).filter fun s => decide (s ≠ [])).getD (lit "unknown")
  (reasons.dedup.insertionSort fun a b => a ≤ b).map fun r => (r,reasons.count r)

def laneSummary (name : PyStr) : Except Exc PyVal := do
  let observations := laneObservations x name
  let measured (f : Telemetry → PyVal) := observations.map fun o => match o.telemetry with
    | none => .none
    | some t => f t
  let wall ← statsOf E (measured Telemetry.wallTimeSeconds)
  let cpu ← statsOf E (measured Telemetry.cpuTimeSeconds)
  let peak ← statsOf E (measured Telemetry.peakMemoryBytes)
  return .dict [(.str (lit "observed"),.int observations.length),
    (.str (lit "statuses"),countsPy (Status.all.map fun s => (s.value,statusCount x name s))),
    (.str (lit "failure_reasons"),countsPy (failureReasons x name)),
    (.str (lit "wall_time_seconds"),wall),(.str (lit "cpu_time_seconds"),cpu),
    (.str (lit "peak_memory_bytes"),peak)]

/-- slowdowns[cand]. -/
def slowdownsOf (t : Tally) (cand : PyStr) : List PyVal :=
  (t.slowdowns.filter fun p => decide (p.1 = cand)).map Prod.snd

def comparisonSummary (t : Tally) (cand : PyStr) : Except Exc PyVal := do
  let outcomes := (t.outcomes.filter fun p => decide (p.1 = cand)).map Prod.snd
  let slow := slowdownsOf t cand
  let median ← if slow.isEmpty then pure .none else E.floats.median slow >>= E.floats.round6
  return .dict [(.str (lit "outcomes"),
      countsPy (Outcome.all.map fun o => (o.value,outcomes.count o))),
    (.str (lit "median_slowdown"),median)]

/-- _summary. -/
def summaryOf (t : Tally) : Except Exc PyVal := do
  let perLane ← (lanes x).mapM fun name => do return (name,← laneSummary E x name)
  let comparisons ← (candidates x).mapM fun c => do return (c,← comparisonSummary E t c)
  return .dict [(.str (lit "lanes"),strDict (perLane.foldl (fun d p => Dict.set d p.1 p.2) [])),
    (.str (lit "comparisons"),strDict (comparisons.foldl (fun d p => Dict.set d p.1 p.2) []))]

end Summary

section Gating

variable (H : Hasher) (U : Unicode) (E : ReportEnv) (x : ReportInputs)

structure GateRow where
  name : String
  passed : Bool
  detail : ReportText
  examples : List ReportText

/-- _gate. -/
def GateRow.toPy (g : GateRow) : PyVal :=
  .dict ([(.str (lit "name"),.str (lit g.name)),(.str (lit "passed"),.bool g.passed),
    (.str (lit "detail"),.str (E.text g.detail))]++
    if g.examples = [] then [] else [(.str (lit "examples"),texts E (g.examples.take maxFindings))])

/-- The corpus_unchanged gate. -/
def corpusGate : Except Exc GateRow :=
  match x.root with
  | none => .ok ⟨"corpus_unchanged",false,
      .plain (lit "the corpus was not re-hashed (no root given)"),[]⟩
  | some (.error e) => .error e
  | some (.ok changed) => .ok ⟨"corpus_unchanged",changed.isEmpty,.corpusChanged changed.length,
      changed.map .plain⟩

/-- The names as keys of a dict. -/
def firstNames (names : List PyStr) : List PyStr :=
  Dict.keys (names.foldl (fun d name => Dict.set d name ()) [])

/-- The gates that thresholds switch on. -/
def thresholdGates (t : Tally) : Except Exc (List GateRow) := do
  let baseline := x.journal.header.baseline
  let rate ← match x.gates.maxBaselineFailureRate with
    | .none => pure []
    | limit => do
      let applicable := ((Status.all.filter fun s => decide (s ≠ .notApplicable)).map
        (statusCount x baseline)).sum
      let failed := statusCount x baseline .failed
      let within ← E.floats.le (E.floats.rate failed applicable) limit
      pure [⟨"baseline_failure_rate",within,.failureRate failed applicable limit,[]⟩]
  let slow ← match x.gates.maxSlowdown with
    | .none => pure []
    | limit => do
      let slow ← (firstNames (candidates x)).filterMapM fun c =>
        if (slowdownsOf t c).isEmpty then pure none
        else do
          let m ← E.floats.median (slowdownsOf t c)
          return if ← E.floats.gt m limit then some (.slowLane c m) else none
      pure [⟨"slowdown",slow.isEmpty,.slowLanes slow.length limit,slow⟩]
  return rate++slow

/-- The gates that are always there, but for corpus_unchanged. -/
def fixedGates (index : List Waiver) (t : Tally) (ledger : LedgerReport) : List GateRow :=
  let expected : ℤ := x.corpus.entries.length*(lanes x).length
  let sealedCount := statusCount x x.journal.header.baseline .sealed
  let unused := index.filter fun w => !t.used.any fun k => w.isFor k.1 k.2.1 k.2.2
  [⟨"coverage",decide (t.missing = 0 ∧ 0 < x.corpus.entries.length),
      .coverage (expected-t.missing) expected x.corpus.entries.isEmpty,[]⟩,
    ⟨"baseline_produced_output",decide (0 < sealedCount),.baselineSealed sealedCount,[]⟩,
    ⟨"no_errors",t.errors.isEmpty,.runErrors t.errors.length,t.errors⟩,
    ⟨"records_verified",t.integrity.isEmpty,.integrityProblems t.integrity.length,t.integrity⟩,
    ⟨"ledger_verified",ledger.ok,.plain (lit (if ledger.ok then
      "the event chain and the ledger tables agree" else "the ledger does not verify")),
      ledger.chain.problems.map .chain++ledger.problems.map .ledger⟩,
    ⟨"candidates_agree",t.unwaived.isEmpty,.unwaivedFindings t.unwaived.length,t.unwaived⟩,
    ⟨"waivers_used",unused.isEmpty,.unusedWaivers unused.length,
      unused.map fun w => .unusedWaiver w.path w.lane w.outcome⟩]

/-- _gates. -/
def gatesOf (index : List Waiver) (t : Tally) (ledger : LedgerReport) : Except Exc (List GateRow) := do
  let corpus ← corpusGate x
  if x.journal.header.baseline ∉ lanes x then throw .keyError
  let rest ← thresholdGates E x t
  return corpus :: (fixedGates x index t ledger++rest)

/-- EventLog.head. -/
def EventLog.head (rows : List EventRow) : Option (ℤ × TextCell) :=
  (orderBySeq rows).getLast?.map fun r => (r.seq,r.hash)

/-- {"seq": ..., "hash": ...}, or None. -/
def headPy : Option (ℤ × TextCell) → PyVal
  | none => .none
  | some (seq,hash) => .dict [(.str (lit "seq"),.int seq),(.str (lit "hash"),hash.toPy)]

/-- A report, with its canonical bytes. -/
structure VerificationReport where
  data : PyVal
  canonical : Bytes

/-- What build_report has found before it writes the report. -/
structure Findings where
  tally : Tally
  gateRows : List GateRow
  ledgerOk : Bool
  summary : PyVal

/-- build_report up to its gates. -/
def findingsOf : Except Exc Findings := do
  let corpusId ← x.corpus.corpusId H
  if x.journal.header.corpusId ≠ corpusId then throw .valueError
  let index ← waiverIndex x
  let t ← x.corpus.entries.foldlM (Tally.document H U E x index) .start
  let ledger ← verifyLedger H x.db none
  let summary ← summaryOf E x t
  let gateRows ← gatesOf E x index t ledger
  return ⟨t,gateRows,ledger.ok,summary⟩

/-- passed: every gate does. -/
def Findings.passed (f : Findings) : Bool := f.gateRows.all GateRow.passed

/-- The policy's description, None without one. -/
def describePolicy : Except Exc PyVal :=
  match x.policy with
  | none => .ok .none
  | some p => p.describe

/-- The report's fields. -/
def reportItems (f : Findings) (corpusId : PyStr) (policy : PyVal) : List (PyKey × PyVal) :=
  let header := x.journal.header
  [(.str (lit "schema"),.str (lit "stele.verification-report")),
    (.str (lit "schema_version"),.int 1),(.str (lit "generated_at"),.str E.now),
    (.str (lit "corpus"),.dict [(.str (lit "id"),.str corpusId),(.str (lit "name"),.str x.corpus.name),
      (.str (lit "documents"),.int x.corpus.entries.length),(.str (lit "bytes"),.int x.corpus.totalBytes),
      (.str (lit "excluded"),.list (x.corpus.excluded.map Excluded.toJson))]),
    (.str (lit "parser"),header.parser.toPy),
    (.str (lit "parser_config_digest"),.str header.parserConfigDigest),
    (.str (lit "lanes"),.list (header.lanes.map Lane.toJson)),
    (.str (lit "baseline"),.str header.baseline),(.str (lit "policy"),policy),
    (.str (lit "ledger"),.dict [(.str (lit "head"),headPy (EventLog.head x.db.events)),
      (.str (lit "verified"),.bool f.ledgerOk)]),
    (.str (lit "thresholds"),x.gates.toJson),
    (.str (lit "waivers"),.list (x.waivers.map Waiver.toJson)),
    (.str (lit "documents"),.list f.tally.documents),(.str (lit "summary"),f.summary),
    (.str (lit "gates"),.list (f.gateRows.map (GateRow.toPy E))),
    (.str (lit "passed"),.bool f.passed)]

/-- build_report. -/
def buildReport : Except Exc VerificationReport := do
  let f ← findingsOf H U E x
  let corpusId ← x.corpus.corpusId H
  let policy ← describePolicy x
  let canonical ← canonicalJson (.dict (reportItems E x f corpusId policy))
  return ⟨.dict (reportItems E x f corpusId policy),canonical⟩

/-- passed: bool(self.data["passed"]). -/
def VerificationReport.passed (r : VerificationReport) : Except Exc Bool :=
  (itemAt r.data "passed").map truthy

end Gating

end Stele
