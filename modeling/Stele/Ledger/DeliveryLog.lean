import Stele.Ledger.World
import Stele.Ledger.Models
import Stele.Ledger.Delivery

/-! DeliveryLog: opening a delivery, appending its events, binding it to the payload of
its first intent, and reading it back. -/
namespace Stele
open Python

/-- An int argument; bool is a subclass of int. -/
inductive PyInt
  | int (i : ℤ)
  | bool (b : Bool)
  deriving DecidableEq

def PyInt.toPy : PyInt → PyVal
  | .int i => .int i
  | .bool b => .bool b

def PyInt.value : PyInt → ℤ
  | .int i => i
  | .bool b => b.toNat

def optionIntPy : Option PyInt → PyVal
  | none => .none
  | some i => i.toPy

def bindOptionInt : Option PyInt → Except Exc Cell
  | none => .ok .null
  | some i => bindInt i.value

/-- A number column as Python reads it. -/
def Cell.int? : Cell → Option ℤ
  | .integer i => some i
  | _ => none

/-- A text column as Python reads it. -/
def TextCell.str? : TextCell → Option PyStr
  | .text s => some s
  | _ => none

/-- A dataclass instance: its type's name and asdict. -/
structure Target where
  kind : PyStr
  fields : PyVal

/-- encode_target; `none` is no dataclass instance. -/
def encodeTarget : Option Target → Except Exc (PyStr × PyStr)
  | none => .error .typeError
  | some t => (canonicalText t.fields).map fun text => (t.kind,text)

def digestPrefix : PyStr := lit "chunks-v2:"

/-- One chunk as chunks_digest covers it. -/
def SteleChunk.fingerprint (c : SteleChunk) : PyVal :=
  .dict [(.str (lit "chunk_id"),.str c.chunkId),(.str (lit "content_hash"),.str c.contentHash),
    (.str (lit "token_count"),c.tokenCount),(.str (lit "metadata"),c.metadata)]

def chunksObject (body : List PyVal) : PyVal := .dict [(.str (lit "chunks"),.list body)]

/-- chunks_digest. -/
def chunksDigest (H : Hasher) (chunks : List SteleChunk) : Except Exc PyStr :=
  (canonicalJson (chunksObject (chunks.map SteleChunk.fingerprint))).map fun b =>
    digestPrefix++H.hexdigest b

/-- _legacy_chunks_digest. -/
def legacyChunksDigest (H : Hasher) (chunks : List SteleChunk) : Except Exc PyStr :=
  (canonicalJson (chunksObject (chunks.map fun c => .list [.str c.chunkId,.str c.contentHash]))).map
    H.hexdigest

/-- payload_matches. -/
def payloadMatches (H : Hasher) (boundDigest : TextCell) (chunks : List SteleChunk) :
    Except Exc Bool :=
  match boundDigest with
  | .text d =>
    if digestPrefix <+: d then (chunksDigest H chunks).map fun c => decide (d = c)
    else (legacyChunksDigest H chunks).map fun c => decide (d = c)
  | .null => .error .attributeError
  | .blob _ => .error .typeError

/-- The columns of one delivery event, without its time. -/
structure EventArgs where
  event : PyStr
  planned : Option PyInt
  chunksDigest : Option PyStr
  done : Option PyInt
  error : Option PyStr
  attemptId : Option PyStr

def optionStrPy : Option PyStr → PyVal
  | none => .none
  | some s => .str s

/-- The body of its delivery.event. -/
def EventArgs.body (a : EventArgs) : PyVal :=
  .dict [(.str (lit "event"),.str a.event),(.str (lit "planned"),optionIntPy a.planned),
    (.str (lit "chunks_digest"),optionStrPy a.chunksDigest),(.str (lit "done"),optionIntPy a.done),
    (.str (lit "error"),optionStrPy a.error),(.str (lit "attempt_id"),optionStrPy a.attemptId)]

/-- SELECT ... FROM delivery_events ORDER BY event_id. -/
def orderByEventId (rows : List DeliveryEventRow) : List DeliveryEventRow :=
  rows.insertionSort fun a b => a.eventId ≤ b.eventId

/-- The events of one delivery, in order. -/
def eventsOf (db : Db) (dispatchId : TextCell) : List DeliveryEventRow :=
  (orderByEventId db.deliveryEvents).filter fun r => decide (r.dispatchId = dispatchId)

/-- AUTOINCREMENT. -/
def nextEventId (db : Db) : ℤ := (db.deliveryEvents.map DeliveryEventRow.eventId).foldl max 0+1

def eventKinds : List DeliveryEventKind :=
  [.intent,.receipt,.failure,.removalIntent,.removalReceipt,.removalFailure]

/-- The WHEN clause of the trigger delivery_events_one_payload; `IS NOT` compares numbers
by value. -/
def breaksPayload (db : Db) (r : DeliveryEventRow) : Bool :=
  decide (r.event = .text DeliveryEventKind.intent.value) &&
    (decide (r.chunksDigest = .null) || decide (r.planned = .null) ||
      db.deliveryEvents.any fun q => decide (q.dispatchId = r.dispatchId) &&
        decide (q.event = .text DeliveryEventKind.intent.value) &&
        (decide (q.chunksDigest ≠ r.chunksDigest) || !q.planned.toPy.pyEq r.planned.toPy))

/-- INSERT INTO delivery_events. -/
def insertDeliveryEvent (r : DeliveryEventRow) : Tx Unit := fun db =>
  if breaksPayload db r then .error (.integrityError .trigger)
  else if [r.dispatchId,r.event,r.at'].any fun c => decide (c = .null) then
    .error (.integrityError .notNull)
  else if r.event ∉ eventKinds.map fun k => TextCell.text k.value then
    .error (.integrityError .check)
  else if (db.deliveries.any fun d => decide (d.dispatchId = r.dispatchId)) = false then
    .error (.integrityError .foreignKey)
  else .ok ((),{db with deliveryEvents := db.deliveryEvents++[r]})

/-- The row of an event, its values bound as parameters. -/
def eventRow (eventId : ℤ) (dispatchId now : PyStr) (a : EventArgs) :
    Except Exc DeliveryEventRow := do
  let dispatchId ← bindText dispatchId
  let event ← bindText a.event
  let planned ← bindOptionInt a.planned
  let chunksDigest ← bindOption a.chunksDigest
  let done ← bindOptionInt a.done
  let error ← bindOption a.error
  let at' ← bindText now
  let attemptId ← bindOption a.attemptId
  return ⟨eventId,dispatchId,event,planned,chunksDigest,done,error,at',attemptId⟩

/-- _insert: one delivery event and its chain event. -/
def insertTx (H : Hasher) (e : Env) (dispatchId : PyStr) (a : EventArgs) : Tx Unit := fun db => do
  let row ← eventRow (nextEventId db) dispatchId e.now a
  let (_,db) ← insertDeliveryEvent row db
  let (_,db) ← appendEvent H (lit "delivery.event") dispatchId a.body e.at' db
  return ((),db)

/-- try: x except sqlite3.IntegrityError: raise f. -/
def Tx.onIntegrity {α : Type} (x : Tx α) (f : Exc) : Tx α := fun db =>
  match x db with
  | .ok r => .ok r
  | .error e => .error (if e.isIntegrityError then f else e)

/-- The first intent of a delivery. -/
def firstIntent (db : Db) (dispatchId : PyStr) : Option DeliveryEventRow :=
  (eventsOf db (.text dispatchId)).find? fun r =>
    decide (r.event = .text DeliveryEventKind.intent.value)

/-- The digest that an intent for these chunks records, if the delivery may write them. -/
def intentDigest (H : Hasher) (dispatchId : PyStr) (chunks : List SteleChunk)
    (first : Option DeliveryEventRow) : Except Exc PyStr :=
  match first with
  | none => chunksDigest H chunks
  | some r =>
    if r.planned.toPy.pyEq (.int chunks.length) then do
      let same ← payloadMatches H r.chunksDigest chunks
      if same then .ok r.chunksDigest.get else .error (.payloadConflict dispatchId)
    else .error (.payloadConflict dispatchId)

/-- The arguments of an intent's event. -/
def intentArgs (chunks : List SteleChunk) (digest attemptId : PyStr) : EventArgs :=
  ⟨DeliveryEventKind.intent.value,some (.int chunks.length),some digest,none,none,some attemptId⟩

/-- The transaction of append_intent. -/
def intentTx (H : Hasher) (e : Env) (dispatchId : PyStr) (chunks : List SteleChunk) : Tx Unit :=
  fun db => do
    let _ ← bindText dispatchId
    let digest ← intentDigest H dispatchId chunks (firstIntent db dispatchId)
    Tx.onIntegrity (insertTx H e dispatchId (intentArgs chunks digest e.uuid))
      (.payloadConflict dispatchId) db

/-- INSERT OR IGNORE INTO deliveries; the result is whether a row was inserted. A missing
record is not ignored. -/
def insertDelivery (r : DeliveryRow) : Tx Bool := fun db =>
  if db.deliveries.any fun d => decide (d.dispatchId = r.dispatchId) ||
      (decide (d.recordId = r.recordId) && decide (d.targetKind = r.targetKind) &&
        decide (d.target = r.target)) then .ok (false,db)
  else if (db.records.any fun q => decide (q.recordId = r.recordId)) = false then
    .error (.integrityError .foreignKey)
  else .ok (true,{db with deliveries := db.deliveries++[r]})

def deliveryBody (recordId kind encoded : PyStr) : PyVal :=
  .dict [(.str (lit "record_id"),.str recordId),(.str (lit "target_kind"),.str kind),
    (.str (lit "target"),.str encoded)]

/-- The transaction of open_delivery. -/
def openTx (H : Hasher) (e : Env) (recordId kind encoded : PyStr) : Tx Unit := fun db => do
  let dispatchId ← bindText e.uuid
  let record ← bindText recordId
  let targetKind ← bindText kind
  let target ← bindText encoded
  let createdAt ← bindText e.now
  let (inserted,db) ← insertDelivery ⟨dispatchId,record,targetKind,target,createdAt⟩ db
  if inserted then
    let (_,db) ← appendEvent H (lit "delivery.opened") e.uuid (deliveryBody recordId kind encoded)
      e.at' db
    return ((),db)
  else return ((),db)

/-- SELECT dispatch_id FROM deliveries WHERE record_id=? AND target_kind=? AND target=?. -/
def findDispatchId (recordId kind encoded : PyStr) (db : Db) : Except Exc PyStr :=
  match db.deliveries.find? fun d => decide (d.recordId = .text recordId) &&
      decide (d.targetKind = .text kind) && decide (d.target = .text encoded) with
  | some ⟨.text id,_,_,_,_⟩ => .ok id
  | _ => .error .typeError

/-- DeliveryEvent(...) of a row; the CHECK constraint leaves no other event. -/
def DeliveryEventRow.toEvent (r : DeliveryEventRow) : Option DeliveryEvent :=
  (eventKinds.find? fun k => decide (r.event = .text k.value)).map fun k =>
    ⟨r.eventId,k,r.planned.int?,r.chunksDigest.str?,r.done.int?,r.error.str?,r.at'.get,
      r.attemptId.str?⟩

/-- _delivery. -/
def deliveryOfRow (db : Db) (d : DeliveryRow) : Except Exc Delivery := do
  let target ← loadsColumn d.target
  return ⟨d.dispatchId.get,d.recordId.get,d.targetKind.get,target,d.createdAt.get,
    (eventsOf db d.dispatchId).filterMap DeliveryEventRow.toEvent⟩

/-- DeliveryLog.get. -/
def getDelivery (dispatchId : PyStr) (db : Db) : Except Exc Delivery := do
  let _ ← bindText dispatchId
  match db.deliveries.find? fun d => decide (d.dispatchId = .text dispatchId) with
  | none => .error .keyError
  | some d => deliveryOfRow db d

namespace DeliveryLog

/-- open_delivery: the dispatch_id of a record's delivery to a target, created if new. -/
def openDelivery (H : Hasher) (e : Env) (recordId : PyStr) (target : Option Target) :
    Op PyStr := do
  let (kind,encoded) ← Op.lift (encodeTarget target)
  Op.transaction (openTx H e recordId kind encoded)
  Op.query (findDispatchId recordId kind encoded)

/-- append: what the database refuses is a ValueError. -/
def append (H : Hasher) (e : Env) (dispatchId : PyStr) (a : EventArgs) : Op Unit :=
  Op.transaction (Tx.onIntegrity (insertTx H e dispatchId a) .valueError)

/-- append_intent; the result is the attempt_id. -/
def appendIntent (H : Hasher) (e : Env) (dispatchId : PyStr) (chunks : List SteleChunk) :
    Op PyStr := do
  Op.transaction (intentTx H e dispatchId chunks)
  return e.uuid

/-- append_unwritten_failure: an attempt of its own that wrote nothing. -/
def appendUnwrittenFailure (H : Hasher) (e : Env) (dispatchId error : PyStr) : Op Unit :=
  append H e dispatchId ⟨DeliveryEventKind.failure.value,none,none,some (.int 0),some error,
    some e.uuid⟩

end DeliveryLog

end Stele
