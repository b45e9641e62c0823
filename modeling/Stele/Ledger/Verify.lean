import Stele.Lib.Dict
import Stele.Ledger.OtherWriters
import Stele.Ledger.Store

/-! verify_ledger: replay the chain to what the tables must hold, and compare. -/
namespace Stele
open Python

/-- The fields of a record that verification compares. -/
structure RecordFields where
  artifactHash : PyVal
  parser : PyVal
  parserConfig : PyVal
  runConditions : PyVal
  runId : PyVal
  sourceHash : PyVal
  state : PyVal

/-- With their keys, sorted. -/
def RecordFields.items (f : RecordFields) : List (String × PyVal) :=
  [("artifact_hash",f.artifactHash),("parser",f.parser),("parser_config",f.parserConfig),
    ("run_conditions",f.runConditions),("run_id",f.runId),("source_hash",f.sourceHash),
    ("state",f.state)]

structure DeliveryFields where
  recordId : PyVal
  targetKind : PyVal
  target : PyVal

def DeliveryFields.values (f : DeliveryFields) : List PyVal := [f.recordId,f.targetKind,f.target]

/-- event, planned, chunks_digest, done, error, attempt_id. -/
abbrev EventTuple := List PyVal

structure ReplayFields where
  recordId : PyVal
  outcome : PyVal
  replayArtifactHash : PyVal

def ReplayFields.values (f : ReplayFields) : List PyVal :=
  [f.recordId,f.outcome,f.replayArtifactHash]

/-- What the chain says the tables hold. -/
structure Logged where
  records : Dict TextCell RecordFields
  deliveries : Dict TextCell DeliveryFields
  deliveryEvents : Dict TextCell (List EventTuple)
  replays : Dict TextCell ReplayFields

def Logged.empty : Logged := ⟨[],[],[],[]⟩

/-- b[k]. -/
def itemAt (b : PyVal) (k : String) : Except Exc PyVal :=
  match b with
  | .dict kvs => (PyVal.find kvs (.str (lit k))).elim (.error .keyError) .ok
  | _ => .error .typeError

/-- b.get(k, default). -/
def itemOr (b : PyVal) (k : String) (default : PyVal) : Except Exc PyVal :=
  match b with
  | .dict kvs => .ok ((PyVal.find kvs (.str (lit k))).getD default)
  | _ => .error .attributeError

/-- _event_tuple of an event body. -/
def eventTuple (b : PyVal) : Except Exc EventTuple := do
  let attempt ← itemOr b "attempt_id" .none
  let event ← itemAt b "event"
  let planned ← itemAt b "planned"
  let digest ← itemAt b "chunks_digest"
  let done ← itemAt b "done"
  let error ← itemAt b "error"
  return [event,planned,digest,done,error,attempt]

/-- _RECORD_STATE. -/
def recordState (kind : TextCell) : Option ArtifactState :=
  if kind = .text (lit "record.created") then some .pending
  else if kind = .text (lit "record.sealed") then some .sealed
  else if kind = .text (lit "record.failed") then some .failed
  else if kind = .text (lit "record.invalidated") then some .invalidated
  else none

def loggedRecord (b : PyVal) : Except Exc RecordFields := do
  let runId ← itemAt b "run_id"
  let artifactHash ← itemAt b "artifact_hash"
  let sourceHash ← itemOr b "source_hash" .none
  let parser ← itemOr b "parser" .none
  let parserConfig ← itemOr b "parser_config" .none
  let runConditions ← itemOr b "run_conditions" .none
  let state ← itemOr b "state" (.str ArtifactState.pending.value)
  return ⟨artifactHash,parser,parserConfig,runConditions,runId,sourceHash,state⟩

def loggedDelivery (b : PyVal) : Except Exc DeliveryFields := do
  let recordId ← itemAt b "record_id"
  let targetKind ← itemAt b "target_kind"
  let target ← itemAt b "target"
  return ⟨recordId,targetKind,target⟩

def loggedReplay (b : PyVal) : Except Exc ReplayFields := do
  let recordId ← itemOr b "record_id" .none
  let outcome ← itemOr b "outcome" .none
  let replayArtifactHash ← itemOr b "replay_artifact_hash" .none
  return ⟨recordId,outcome,replayArtifactHash⟩

/-- _apply: fold one event into what the tables must hold. The entry of a delivery is
made before its event is read. -/
def Logged.apply (s : Logged) (kind subject : TextCell) (b : PyVal) : Except Exc Unit × Logged :=
  if kind = .text (lit "record.created") ∨ kind = .text (lit "record.imported") then
    match loggedRecord b with
    | .error e => (.error e,s)
    | .ok f => (.ok (),{s with records := s.records.set subject f})
  else match recordState kind with
  | some state =>
    (.ok (),{s with records := s.records.modify subject fun f => {f with state := .str state.value}})
  | none =>
    if kind = .text (lit "delivery.opened") ∨ kind = .text (lit "delivery.imported") then
      match loggedDelivery b with
      | .error e => (.error e,s)
      | .ok f => (.ok (),{s with deliveries := s.deliveries.set subject f})
    else if kind = .text (lit "delivery.event") ∨ kind = .text (lit "delivery_event.imported") then
      let s := {s with deliveryEvents := s.deliveryEvents.setDefault subject []}
      match eventTuple b with
      | .error e => (.error e,s)
      | .ok t => (.ok (),{s with deliveryEvents := s.deliveryEvents.modify subject fun ts => ts++[t]})
    else if kind = .text (lit "replay.logged") ∨ kind = .text (lit "replay.imported") then
      match loggedReplay b with
      | .error e => (.error e,s)
      | .ok f => (.ok (),{s with replays := s.replays.set subject f})
    else (.ok (),s)

/-- What verify_ledger reports beside the chain's problems. -/
inductive LedgerProblem
  /- "event {seq} ({kind}) has a malformed body: {exc}" -/
  | malformedBody (seq : ℤ) (kind : TextCell) (exc : Exc)
  /- "record {record_id} is in the chain but not in the ledger", and the other way round -/
  | recordMissing (id : TextCell)
  | recordNotLogged (id : TextCell)
  /- "record {record_id} has a malformed column: {exc}" -/
  | malformedColumn (id : TextCell) (exc : Exc)
  /- "record {record_id}: {key} is {actual}, the chain says {want}" -/
  | recordDiffers (id : TextCell) (key : String) (actual want : PyVal)
  /- "record {record_id}: artifact_manifest no longer matches artifact_hash" -/
  | manifestDiffers (id : TextCell)
  /- "delivery {dispatch_id} is only in the chain" or "... in the ledger" -/
  | deliveryOnlyIn (id : TextCell) (where' : String)
  | deliveryDiffers (id : TextCell)
  | deliveryEventsDiffer (id : TextCell)
  | replayOnlyIn (id : TextCell) (where' : String)
  | replayDiffers (id : TextCell)

structure LedgerReport where
  chain : ChainReport
  problems : List LedgerProblem

/-- One event of verify_ledger's replay; `load` is json.loads. -/
def replayEventBy (load : TextCell → Except Exc PyVal) (acc : Logged × List LedgerProblem)
    (r : EventRow) : Except Exc (Logged × List LedgerProblem) :=
  match load r.body with
  | .error e =>
    if e.isMalformed then .ok (acc.1,acc.2++[.malformedBody r.seq r.kind e]) else .error e
  | .ok b =>
    match acc.1.apply r.kind r.subject b with
    | (.ok (),s) => .ok (s,acc.2)
    | (.error e,s) =>
      if e.isMalformed then .ok (s,acc.2++[.malformedBody r.seq r.kind e]) else .error e

def replayChainBy (load : TextCell → Except Exc PyVal) (rows : List EventRow) :
    Except Exc (Logged × List LedgerProblem) :=
  (orderBySeq rows).foldlM (replayEventBy load) (.empty,[])

def replayChain := replayChainBy loadsColumn

def TextCell.bytes? : TextCell → Option Bytes
  | .blob b => some b
  | _ => none

/-- sorted(a | b) of two sets of keys; text and bytes do not compare. -/
def sortedKeys (a b : List TextCell) : Except Exc (List TextCell) :=
  let ks := (a++b).dedup
  if ks.length ≤ 1 then .ok ks
  else match ks.mapM TextCell.str?,ks.mapM TextCell.bytes? with
    | some ss,_ => .ok ((ss.insertionSort fun s t => s ≤ t).map .text)
    | _,some bs => .ok ((bs.insertionSort fun s t => s ≤ t).map .blob)
    | none,none => .error .typeError

/-- One entry of encode_manifest of whatever artifact_manifest holds. -/
def manifestEntry : PyKey × PyVal → Except Exc Bytes
  | (.str path,.str digest) => encodeEntry (path,digest)
  | (.str path,_) => .error (if Encodable path then .attributeError else .unicodeEncodeError)
  | _ => .error .attributeError

/-- sha256_manifest of whatever artifact_manifest holds: only dicts and the empty sequences
have one. -/
def manifestHash (H : Hasher) : PyVal → Except Exc PyStr
  | .dict kvs => ((sortItems canonicalOpts kvs).mapM manifestEntry).map fun bs =>
      H.hexdigest bs.flatten
  | .list [] | .str [] => .ok (H.hexdigest [])
  | _ => .error .typeError

/-- None for NULL, else the column's value. -/
def loadNullableBy (load : TextCell → Except Exc PyVal) : TextCell → Except Exc (Option PyVal)
  | .null => .ok none
  | c => (load c).map some

@[simp] lemma loadNullableBy_loadsColumn : loadNullableBy loadsColumn = loadsNullable := by
  funext c
  cases c <;> rfl

/-- The comparable fields of a row, and the hash of its manifest. -/
def RecordRow.fieldsBy (load : TextCell → Except Exc PyVal) (H : Hasher) (r : RecordRow) :
    Except Exc (RecordFields × PyStr) := do
  let config ← loadNullableBy load r.parserConfig
  let conditions ← loadNullableBy load r.runConditions
  let manifest ← load r.artifactManifest
  let hash ← manifestHash H manifest
  return (⟨r.artifactHash.toPy,parserPy r,config.getD .none,conditions.getD .none,r.runId.toPy,
    r.sourceHash.toPy,r.state.toPy⟩,hash)

def RecordRow.fields (H : Hasher) (r : RecordRow) : Except Exc (RecordFields × PyStr) :=
  r.fieldsBy loadsColumn H

/-- except (ValueError, TypeError, AttributeError). -/
def Exc.isColumnError (e : Exc) : Bool :=
  e.isValueError || decide (e = .typeError) || decide (e = .attributeError)

/-- actual[key] != want[key], key by key. -/
def differingFields (id : TextCell) (actual want : RecordFields) : List LedgerProblem :=
  (actual.items.zip want.items).filterMap fun p =>
    if p.1.2.pyEq p.2.2 then none else some (.recordDiffers id p.1.1 p.1.2 p.2.2)

/-- The problems of one record. -/
def recordProblemsBy (load : TextCell → Except Exc PyVal) (H : Hasher) (id : TextCell)
    (row : Option RecordRow) (want : Option RecordFields) : Except Exc (List LedgerProblem) :=
  match row,want with
  | none,_ => .ok [.recordMissing id]
  | some _,none => .ok [.recordNotLogged id]
  | some r,some want =>
    match r.fieldsBy load H with
    | .error e => if e.isColumnError then .ok [.malformedColumn id e] else .error e
    | .ok (actual,hash) => .ok (differingFields id actual want++
        if (PyVal.str hash).pyEq r.artifactHash.toPy then [] else [.manifestDiffers id])

def recordProblems := recordProblemsBy loadsColumn

def DeliveryRow.fields (r : DeliveryRow) : DeliveryFields :=
  ⟨r.recordId.toPy,r.targetKind.toPy,r.target.toPy⟩

def deliveryProblems (id : TextCell) (row : Option DeliveryRow) (want : Option DeliveryFields) :
    List LedgerProblem :=
  match row,want with
  | none,_ => [.deliveryOnlyIn id "the chain"]
  | _,none => [.deliveryOnlyIn id "the ledger"]
  | some r,some want =>
    if PyVal.pyEqList r.fields.values want.values then [] else [.deliveryDiffers id]

/-- _event_tuple of a row. -/
def DeliveryEventRow.tuple (r : DeliveryEventRow) : EventTuple :=
  [r.event.toPy,r.planned.toPy,r.chunksDigest.toPy,r.done.toPy,r.error.toPy,r.attemptId.toPy]

/-- Two lists of tuples are equal. -/
def sameTuples (as bs : List EventTuple) : Bool :=
  PyVal.pyEqList (as.map .tuple) (bs.map .tuple)

/-- actual_events. -/
def actualEvents (rows : List DeliveryEventRow) : Dict TextCell (List EventTuple) :=
  (orderByEventId rows).foldl (fun d r =>
    (d.setDefault r.dispatchId []).modify r.dispatchId fun ts => ts++[r.tuple]) []

def eventProblems (id : TextCell) (actual want : Option (List EventTuple)) : List LedgerProblem :=
  if sameTuples (actual.getD []) (want.getD []) then [] else [.deliveryEventsDiffer id]

def ReplayRow.fields (r : ReplayRow) : ReplayFields :=
  ⟨r.recordId.toPy,r.outcome.toPy,r.replayArtifactHash.toPy⟩

def replayProblems (id : TextCell) (row : Option ReplayRow) (want : Option ReplayFields) :
    List LedgerProblem :=
  match row,want with
  | none,_ => [.replayOnlyIn id "the chain"]
  | _,none => [.replayOnlyIn id "the ledger"]
  | some r,some want =>
    if PyVal.pyEqList r.fields.values want.values then [] else [.replayDiffers id]

/-- The problems of the tables against what the chain says. -/
def tableProblemsBy (load : TextCell → Except Exc PyVal) (H : Hasher) (db : Db) (s : Logged) :
    Except Exc (List LedgerProblem) := do
  let rows := Dict.ofRows RecordRow.recordId db.records
  let ids ← sortedKeys rows.keys s.records.keys
  let records ← ids.mapM fun id => recordProblemsBy load H id (rows.get id) (s.records.get id)
  let rows := Dict.ofRows DeliveryRow.dispatchId db.deliveries
  let ids ← sortedKeys rows.keys s.deliveries.keys
  let deliveries := ids.flatMap fun id => deliveryProblems id (rows.get id) (s.deliveries.get id)
  let actual := actualEvents db.deliveryEvents
  let ids ← sortedKeys actual.keys s.deliveryEvents.keys
  let events := ids.flatMap fun id => eventProblems id (actual.get id) (s.deliveryEvents.get id)
  let rows := Dict.ofRows ReplayRow.replayId db.replays
  let ids ← sortedKeys rows.keys s.replays.keys
  let replays := ids.flatMap fun id => replayProblems id (rows.get id) (s.replays.get id)
  return records.flatten++deliveries++events++replays

def tableProblems := tableProblemsBy loadsColumn

/-- verify_ledger. -/
def verifyLedgerBy (load : TextCell → Except Exc PyVal) (H : Hasher) (db : Db) (anchor : Anchor) :
    Except Exc LedgerReport := do
  let chain ← EventLog.verify H db.events anchor
  let (logged,malformed) ← replayChainBy load db.events
  let problems ← tableProblemsBy load H db logged
  return ⟨chain,malformed++problems⟩

def verifyLedger (H : Hasher) (db : Db) (anchor : Anchor) : Except Exc LedgerReport :=
  verifyLedgerBy loadsColumn H db anchor

/-- No problem at all. -/
def LedgerReport.ok (r : LedgerReport) : Bool := r.chain.problems.isEmpty && r.problems.isEmpty

end Stele
