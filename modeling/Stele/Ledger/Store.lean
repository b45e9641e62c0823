import Stele.Ledger.World
import Stele.Ledger.Models

/-! LedgerStore: creating records, reading them, and the guarded state transitions. -/
namespace Stele
open Python

/-- canonical_parser_config. -/
def canonicalParserConfig : PyVal → Except Exc PyStr
  | .dict kvs =>
    match canonicalText (.dict kvs) with
    | .error _ => .error .valueError
    | .ok encoded =>
      match loads encoded with
      | none => .error .valueError
      | some decoded =>
        if decoded.pyEq (.dict kvs) = false then .error .valueError else .ok encoded
  | _ => .error .valueError

/-- The parser as record_body and verify_ledger write it. -/
def parserPy (r : RecordRow) : PyVal :=
  if r.parserName = .null then .none
  else .dict [(.str (lit "name"),r.parserName.toPy),(.str (lit "version"),r.parserVersion.toPy),
    (.str (lit "image_digest"),r.parserImageDigest.toPy),
    (.str (lit "module_sha256"),r.parserModuleSha256.toPy)]

/-- record_body(row): what record.created commits to. -/
def recordBody (r : RecordRow) : Except Exc PyVal := do
  let config ← loadsNullable r.parserConfig
  let conditions ← loadsNullable r.runConditions
  return .dict [(.str (lit "run_id"),r.runId.toPy),(.str (lit "artifact_hash"),r.artifactHash.toPy),
    (.str (lit "source_hash"),r.sourceHash.toPy),(.str (lit "source_kind"),r.sourceKind.toPy),
    (.str (lit "source_id"),r.sourceId.toPy),(.str (lit "parser"),parserPy r),
    (.str (lit "parser_config"),config.getD .none),(.str (lit "backend"),r.backend.toPy),
    (.str (lit "run_conditions"),conditions.getD .none)]

/-- The CHECK constraints of artifact_records. -/
def RecordRow.checks (r : RecordRow) : Bool :=
  decide (r.sourceKind = .null ∨ r.sourceKind = .text (lit "file") ∨ r.sourceKind = .text (lit "tree")) &&
  decide (r.state ∈ [ArtifactState.pending,.sealed,.failed,.invalidated].map fun s =>
    TextCell.text s.value) &&
  decide (r.sourceHash = .null ↔ r.sourceKind = .null) &&
  decide (r.parserName = .null ↔ r.parserVersion = .null) &&
  decide (r.parserName = .null ↔ r.parserConfig = .null)

/-- INSERT INTO artifact_records. -/
def insertRecord (r : RecordRow) : Tx Unit := fun db =>
  if [r.runId,r.artifactDir,r.artifactManifest,r.artifactHash,r.state,r.createdAt].any
      fun c => decide (c = .null) then .error (.integrityError .notNull)
  else if r.checks = false then .error (.integrityError .check)
  else if r.recordId ≠ .null ∧ db.records.any fun q => decide (q.recordId = r.recordId) then
    .error (.integrityError .primaryKey)
  else if db.records.any fun q => decide (q.runId = r.runId) then .error (.integrityError .unique)
  else .ok ((),{db with records := db.records++[r]})

/-- SELECT * FROM artifact_records WHERE record_id=?, the first row. -/
def findRecord (db : Db) (recordId : PyStr) : Option RecordRow :=
  db.records.find? fun r => decide (r.recordId = .text recordId)

/-- get. -/
def getRecord (recordId : PyStr) (db : Db) : Except Exc ArtifactRecord := do
  let _ ← bindText recordId
  match findRecord db recordId with
  | none => .error (.recordNotFound recordId)
  | some r => rowToRecord r

/-- get_by_run_id. -/
def getByRunId (runId : PyStr) (db : Db) : Except Exc (Option ArtifactRecord) := do
  let _ ← bindText runId
  match db.records.find? fun r => decide (r.runId = .text runId) with
  | none => .ok none
  | some r => (rowToRecord r).map some

/-- The arguments of create_pending. -/
structure PendingArgs where
  runId : PyStr
  artifactDir : PurePath
  artifactPaths : List PurePath
  parser : ParserIdentity
  parserConfig : PyVal
  inputSnapshot : Option Snapshot
  source : Option Source
  backend : Option PyStr
  runConditions : Option RunConditions

/-- str(snapshot.kind), the id and the locator of what create_pending records as input. -/
structure InputColumns where
  sourceHash : Option PyStr
  sourceKind : Option PyStr
  sourceId : Option PyStr
  sourcePath : Option PyStr

/-- The input checks of create_pending: the Snapshot is archived as given, and only a
Snapshot has a Source. -/
def recordInput (H : Hasher) (snapshot : Option Snapshot) (source : Option Source) :
    Op InputColumns := do
  match snapshot with
  | none => pure ()
  | some s =>
    let stored ← Op.onArchive fun a => (a.hasSnapshot s.digest s.kind,a)
    if stored = false then throw .provenance
    let archived ← Op.onArchive fun a => (a.getSnapshot s.digest s.kind,a)
    if archived ≠ s then throw .provenance
  match source with
  | none => return ⟨snapshot.map Snapshot.digest,snapshot.map fun s => s.kind.value,none,none⟩
  | some s =>
    if snapshot = none then throw .provenance
    let sourceId ← Op.onArchive (Archive.putSource H s)
    return ⟨snapshot.map Snapshot.digest,snapshot.map fun s => s.kind.value,some sourceId,
      some s.locator⟩

/-- canonical_json(run_conditions.to_dict()), if there are any. -/
def conditionsText : Option RunConditions → Except Exc (Option PyStr)
  | none => .ok none
  | some c => (canonicalText c.toDict).map some

/-- json.dumps(manifest). -/
def manifestText (m : Manifest) : Except Exc PyStr :=
  match dumps defaultOpts m.toPy with
  | .error e => .error (.ofJson e)
  | .ok t => .ok t

/-- The row that create_pending inserts, its values bound as parameters. -/
def pendingRow (recordId now : PyStr) (a : PendingArgs) (input : InputColumns)
    (config conditions : TextCell) (manifest artifactHash : PyStr) : Except Exc RecordRow := do
  let recordId ← bindText recordId
  let runId ← bindText a.runId
  let sourcePath ← bindOption input.sourcePath
  let sourceId ← bindOption input.sourceId
  let sourceHash ← bindOption input.sourceHash
  let sourceKind ← bindOption input.sourceKind
  let parserName ← bindText a.parser.name
  let parserVersion ← bindText a.parser.version
  let parserImageDigest ← bindOption a.parser.imageDigest
  let parserModuleSha256 ← bindOption a.parser.moduleSha256
  let backend ← bindOption a.backend
  let artifactDir ← bindText a.artifactDir.toStr
  let artifactManifest ← bindText manifest
  let artifactHash ← bindText artifactHash
  let createdAt ← bindText now
  return {
    recordId,runId,sourcePath,sourceId,sourceHash,sourceKind,parserName,parserVersion
    parserImageDigest,parserModuleSha256,parserConfig := config,backend,artifactDir
    artifactManifest,artifactHash,state := .text ArtifactState.pending.value,createdAt
    finalizedAt := .null,error := .null,legacySourceHash := .null,runConditions := conditions }

/-- The transaction of create_pending: the record and its record.created event. -/
def createTx (H : Hasher) (recordId at' : PyStr) (row : Except Exc RecordRow) : Tx Unit :=
  fun db => do
    let row ← row
    let (_,db) ← insertRecord row db
    let body ← recordBody row
    let (_,db) ← appendEvent H (lit "record.created") recordId body at' db
    return ((),db)

/-- create_pending. -/
def LedgerStore.createPending (H : Hasher) (e : Env) (a : PendingArgs) : Op ArtifactRecord := do
  if a.artifactPaths = [] then throw .valueError
  let configJson ← Op.lift (canonicalParserConfig a.parserConfig)
  let conditionsJson ← Op.lift (conditionsText a.runConditions)
  let input ← recordInput H a.inputSnapshot a.source
  let manifest ← Op.lift (buildManifest H a.artifactDir e.reads a.artifactPaths 0 [])
  let artifactHash ← Op.lift (sha256Manifest H manifest)
  let manifestJson ← Op.lift (manifestText manifest)
  Op.handle (Op.transaction (createTx H e.uuid e.at' (pendingRow e.uuid e.now a input
      (.text configJson) (TextCell.ofOption conditionsJson) manifestJson artifactHash)))
    Exc.isIntegrityError fun exc => do
      match ← Op.query (getByRunId a.runId) with
      | none => throw exc
      | some existing =>
        throw (.duplicateRun a.runId existing.recordId.get existing.state.value)
  Op.query (getRecord e.uuid)

/-- What one transition writes and logs. -/
structure Transition where
  fromStates : List ArtifactState
  action : PyStr
  toState : ArtifactState
  error : Option PyStr
  kind : PyStr
  body : PyVal

/-- The state may change: the WHERE clause of the UPDATE. -/
def RecordRow.admits (r : RecordRow) (recordId : PyStr) (states : List ArtifactState) : Bool :=
  decide (r.recordId = .text recordId) && decide (r.state ∈ states.map fun s => TextCell.text s.value)

/-- SET state=..., finalized_at=? and, when the transition has one, error=?. -/
def RecordRow.moved (r : RecordRow) (state : ArtifactState) (finalizedAt : TextCell)
    (error : Option TextCell) : RecordRow :=
  {r with state := .text state.value, finalizedAt := finalizedAt, error := error.getD r.error}

/-- One row under the UPDATE. -/
def RecordRow.updated (r : RecordRow) (recordId : PyStr) (t : Transition) (finalizedAt : TextCell)
    (error : Option TextCell) : RecordRow :=
  if r.admits recordId t.fromStates then r.moved t.toState finalizedAt error else r

def bindError : Option PyStr → Except Exc (Option TextCell)
  | none => .ok none
  | some s => (bindText s).map some

/-- The transaction of _transition: the guarded UPDATE, and the event if it changed the
row. The result is whether it did. -/
def transitionTx (H : Hasher) (e : Env) (recordId : PyStr) (t : Transition) : Tx Bool :=
  fun db => do
    let finalizedAt ← bindText e.now
    let error ← bindError t.error
    let _ ← bindText recordId
    let n := db.records.countP fun r => r.admits recordId t.fromStates
    let records := db.records.map fun r => r.updated recordId t finalizedAt error
    if n = 1 then
      let (_,db) ← appendEvent H t.kind recordId t.body e.at' {db with records := records}
      return (true,db)
    else return (false,{db with records := records})

/-- _transition. -/
def LedgerStore.transition (H : Hasher) (e : Env) (recordId : PyStr) (t : Transition) : Op Unit := do
  let changed ← Op.transaction (transitionTx H e recordId t)
  if changed = false then do
    let current ← Op.query (getRecord recordId)
    throw (.invalidTransition t.action recordId current.state.value)

def sealTransition (artifactHash : TextCell) : Transition where
  fromStates := [.pending]
  action := lit "seal"
  toState := .sealed
  error := none
  kind := lit "record.sealed"
  body := .dict [(.str (lit "artifact_hash"),artifactHash.toPy)]

def failTransition (error : PyStr) : Transition where
  fromStates := [.pending,.failed]
  action := lit "fail"
  toState := .failed
  error := some error
  kind := lit "record.failed"
  body := .dict [(.str (lit "error"),.str error)]

def invalidateTransition (reason_note : PyStr) : Transition where
  fromStates := [.pending,.sealed]
  action := lit "invalidate"
  toState := .invalidated
  error := some (lit "INVALIDATED: "++reason_note)
  kind := lit "record.invalidated"
  body := .dict [(.str (lit "reason"),.str reason_note)]

/-- archive_bundle of a record. A column that is no text is no path and no digest. -/
def archiveRecord (H : Hasher) (reads : Reads) (r : ArtifactRecord) (a : Archive) :
    Except Exc Unit × Archive :=
  match r.artifactDir,r.artifactHash with
  | .text dir,.text hash => archiveBundle H (.ofStr dir) r.artifactManifest hash reads a
  | _,_ => (.error .typeError,a)

/-- seal. -/
def LedgerStore.seal (H : Hasher) (e : Env) (recordId : PyStr) : Op ArtifactRecord := do
  let record ← Op.query (getRecord recordId)
  if record.state ≠ .pending then
    throw (.invalidTransition (lit "seal") recordId record.state.value)
  Op.onArchive (archiveRecord H e.reads record)
  LedgerStore.transition H e recordId (sealTransition record.artifactHash)
  Op.query (getRecord recordId)

/-- fail. -/
def LedgerStore.fail (H : Hasher) (e : Env) (recordId error : PyStr) : Op ArtifactRecord := do
  let record ← Op.query (getRecord recordId)
  if record.state = .sealed ∨ record.state = .invalidated then
    throw (.invalidTransition (lit "fail") recordId record.state.value)
  LedgerStore.transition H e recordId (failTransition error)
  Op.query (getRecord recordId)

/-- invalidate. -/
def LedgerStore.invalidate (H : Hasher) (e : Env) (recordId reason_note : PyStr) : Op ArtifactRecord := do
  let record ← Op.query (getRecord recordId)
  if record.state = .invalidated ∨ record.state = .failed then
    throw (.invalidTransition (lit "invalidate") recordId record.state.value)
  LedgerStore.transition H e recordId (invalidateTransition reason_note)
  Op.query (getRecord recordId)

end Stele
