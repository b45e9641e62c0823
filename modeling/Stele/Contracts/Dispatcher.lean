import Stele.Ledger.Store
import Stele.Ledger.DeliveryLog

/-! Dispatcher: from an adapter's chunks to a target's writer, and from an invalidation to
the removal of what was written. -/
namespace Stele
open Python

/-- The registered target types with their writers, in the order of registration. -/
structure Dispatcher where
  writers : Dict ℕ ℕ
  types_nodup : writers.keys.Nodup

namespace Dispatcher

def empty : Dispatcher := ⟨[],List.nodup_nil⟩

/-- register_target: a type registered again gets another writer. -/
def registerTarget (d : Dispatcher) (targetType writer : ℕ) : Dispatcher :=
  ⟨d.writers.set targetType writer,Dict.nodup_set d.types_nodup _ _⟩

/-- _writer_for. -/
def writerFor (d : Dispatcher) (targetType : ℕ) : Except Exc ℕ :=
  (d.writers.get targetType).elim (.error .unregisteredTarget) .ok

/-- _writer_by_name: the first registered type of that name, and its writer. -/
def writerByName (classes : ℕ → TargetClass) (d : Dispatcher) (targetKind : PyStr) :
    Except Exc (ℕ × ℕ) :=
  (d.writers.find? fun p => decide ((classes p.1).name = targetKind)).elim
    (.error .unregisteredTarget) .ok

end Dispatcher

/-- The instance, as encode_target sees it. -/
def TargetValue.toTarget (classes : ℕ → TargetClass) (t : TargetValue) : Target :=
  ⟨(classes t.cls).name,(classes t.cls).asdict t.values⟩

/-- target_type(**target): what is no dict with string keys is refused. -/
def construct (classes : ℕ → TargetClass) (targetType : ℕ) : PyVal → Except Exc TargetValue
  | .dict kwargs => ((classes targetType).init kwargs).map fun values => ⟨targetType,values⟩
  | _ => .error .typeError

/-- last_error. -/
def Delivery.lastError (d : Delivery) : Option PyStr :=
  match d.events.reverse.find? fun e => decide (e.event = .failure ∨ e.event = .removalFailure) with
  | none => none
  | some e => e.error

/-- What becomes of a call of write_chunks. -/
inductive WriteOutcome
  | wrote
  /-- PartialWriteError, with chunks_written and its repr. -/
  | landedSome (chunksWritten : PyInt) (repr : PyStr)
  /-- any other exception -/
  | raised (repr : PyStr)

/-- What becomes of a call of remove_delivery. -/
inductive RemovalOutcome
  | removed (chunksRemoved : Option PyInt)
  | raised (repr : PyStr)

/-- What one removal takes from outside. -/
structure RemovalArgs where
  intent : Env
  conclusion : Env
  outcome : RemovalOutcome
  repr : Exc → PyStr

/-- One call of dispatch, and what it takes from outside: `transform` is what the adapter
makes of the sealed bundle. -/
structure DispatchArgs where
  recordId : PyStr
  target : TargetValue
  opening : Env
  attempt : Env
  conclusion : Env
  transform : Except Exc (List SteleChunk)
  write : WriteOutcome
  repr : Exc → PyStr
  removals : ℕ → RemovalArgs

structure DispatchResult where
  dispatchId : PyStr
  recordId : PyStr
  target : TargetValue
  chunksSubmitted : Option ℤ
  chunksWritten : Option ℤ
  success : Bool
  error : Option PyStr
  alreadyDelivered : Bool

structure RemovalResult where
  dispatchId : PyStr
  removed : Bool
  chunksRemoved : Option ℤ
  error : Option PyStr

/-- _result. -/
def dispatchResult (delivery : Delivery) (target : TargetValue) (alreadyDelivered : Bool) :
    DispatchResult :=
  let last := delivery.events.reverse.find? fun e => decide (e.event = .receipt ∨ e.event = .failure)
  let succeeded := decide (delivery.status = .delivered)
  ⟨delivery.dispatchId,delivery.recordId,target,delivery.planned,last.bind DeliveryEvent.done,
    succeeded,if succeeded then none else delivery.lastError,alreadyDelivered⟩

/-- _result of a payload that the delivery is not bound to. -/
def refusedResult (delivery : Delivery) (target : TargetValue) (refused : PyStr) : DispatchResult :=
  ⟨delivery.dispatchId,delivery.recordId,target,some 0,some 0,false,some refused,false⟩

/-- SELECT * FROM deliveries WHERE record_id=? ORDER BY created_at, dispatch_id. -/
def deliveriesOf (recordId : PyStr) (db : Db) : Except Exc (List DeliveryRow) := do
  let _ ← bindText recordId
  return (db.deliveries.filter fun d => decide (d.recordId = .text recordId)).insertionSort
    fun d e => d.createdAt.get < e.createdAt.get ∨
      (d.createdAt.get = e.createdAt.get ∧ d.dispatchId.get ≤ e.dispatchId.get)

/-- The events of each row, one query a row. -/
def readDeliveries : List DeliveryRow → Op (List Delivery)
  | [] => return []
  | row :: rows => do
    let delivery ← Op.query fun db => deliveryOfRow db row
    let deliveries ← readDeliveries rows
    return delivery :: deliveries

/-- DeliveryLog.for_record. -/
def DeliveryLog.forRecord (recordId : PyStr) : Op (List Delivery) := do
  let rows ← Op.query (deliveriesOf recordId)
  readDeliveries rows

namespace Dispatcher

section

variable (H : Hasher) (classes : ℕ → TargetClass) (d : Dispatcher)

/-- Who removes a delivery, and of what target. -/
def remover (delivery : Delivery) : Except Exc RemovalCall := do
  let (targetType,writer) ← d.writerByName classes delivery.targetKind
  let target ← construct classes targetType delivery.target
  return ⟨writer,delivery.dispatchId,target⟩

/-- A removal_failure, and the result that reports it. -/
def removalFailed (e : Env) (dispatchId repr : PyStr) : Op RemovalResult := do
  DeliveryLog.append H e dispatchId
    ⟨DeliveryEventKind.removalFailure.value,none,none,none,some repr,none⟩
  return ⟨dispatchId,false,none,some repr⟩

/-- _remove. -/
def remove (c : RemovalArgs) (delivery : Delivery) : Op RemovalResult :=
  match d.remover classes delivery with
  | .error exc => removalFailed H c.conclusion delivery.dispatchId (c.repr exc)
  | .ok call => do
    DeliveryLog.append H c.intent delivery.dispatchId
      ⟨DeliveryEventKind.removalIntent.value,delivery.planned.map .int,none,none,none,none⟩
    Op.removeDelivery call
    match c.outcome with
    | .raised repr => removalFailed H c.conclusion delivery.dispatchId repr
    | .removed chunksRemoved =>
      DeliveryLog.append H c.conclusion delivery.dispatchId
        ⟨DeliveryEventKind.removalReceipt.value,none,none,chunksRemoved,none,none⟩
      return ⟨delivery.dispatchId,true,chunksRemoved.map PyInt.value,none⟩

/-- The loop of retract, from its i-th delivery on. -/
def removeAll (c : ℕ → RemovalArgs) : ℕ → List Delivery → Op (List RemovalResult)
  | _,[] => return []
  | i,delivery :: deliveries =>
    if delivery.possiblyWritten = false then removeAll c (i+1) deliveries
    else do
      let result ← d.remove H classes (c i) delivery
      let results ← removeAll c (i+1) deliveries
      return result :: results

/-- retract. -/
def retract (c : ℕ → RemovalArgs) (recordId : PyStr) : Op (List RemovalResult) := do
  let record ← Op.query (getRecord recordId)
  if record.state ≠ .invalidated then throw .valueError
  let deliveries ← DeliveryLog.forRecord recordId
  d.removeAll H classes c 0 deliveries

/-- invalidate. -/
def invalidate (e : Env) (c : ℕ → RemovalArgs) (recordId reason : PyStr) :
    Op (List RemovalResult) := do
  let record ← Op.query (getRecord recordId)
  if record.state ≠ .invalidated then
    let _ ← LedgerStore.invalidate H e recordId reason
  d.retract H classes c recordId

/-- verify_archived_bundle before anything is dispatched. -/
def verifyBundle (r : ArtifactRecord) (recordId : PyStr) (a : Archive) : Except Exc Unit :=
  let verified := match r.artifactHash with
    | .text hash => verifyArchivedBundle H a hash r.artifactManifest
    | _ => .error .typeError
  match verified with
  | .ok () => .ok ()
  | .error exc =>
    if exc.isArchiveError || decide (exc = .artifactDrift) then .error (.dispatchRefused recordId)
    else .error exc

/-- What an attempt writes, and through whom: validated chunks and a registered writer. -/
def prepare (c : DispatchArgs) : Except Exc (List SteleChunk × ℕ) := do
  let chunks ← c.transform
  validateChunks H chunks
  let writer ← d.writerFor c.target.cls
  return (chunks,writer)

/-- The receipt or the failure of a call of write_chunks. -/
def conclusionArgs (chunks : List SteleChunk) (attemptId : PyStr) : WriteOutcome → EventArgs
  | .wrote =>
    ⟨DeliveryEventKind.receipt.value,none,none,some (.int chunks.length),none,some attemptId⟩
  | .landedSome done repr =>
    ⟨DeliveryEventKind.failure.value,none,none,some done,some repr,some attemptId⟩
  | .raised repr => ⟨DeliveryEventKind.failure.value,none,none,none,some repr,some attemptId⟩

def isPayloadConflict : Exc → Bool
  | .payloadConflict _ => true
  | _ => false

/-- The end of dispatch: the intent, the write and its outcome. -/
def attempt (c : DispatchArgs) (dispatchId : PyStr) (chunks : List SteleChunk) (writer : ℕ) :
    Op DispatchResult := do
  match ← Op.handle (Except.ok <$> DeliveryLog.appendIntent H c.attempt dispatchId chunks)
      isPayloadConflict fun exc => return .error exc with
  | .error exc => return refusedResult (← Op.query (getDelivery dispatchId)) c.target (c.repr exc)
  | .ok attemptId =>
    Op.writeChunks ⟨writer,dispatchId,c.target,chunks⟩
    DeliveryLog.append H c.conclusion dispatchId (conclusionArgs chunks attemptId c.write)
    if (← Op.query (getRecord c.recordId)).state = .invalidated then
      let _ ← d.retract H classes c.removals c.recordId
    return dispatchResult (← Op.query (getDelivery dispatchId)) c.target false

/-- dispatch. -/
def dispatch (c : DispatchArgs) : Op DispatchResult := do
  let live ← Op.query (getRecord c.recordId)
  if live.state ≠ .sealed then throw (.dispatchRefused c.recordId)
  Op.onArchive fun a => (verifyBundle H live c.recordId a,a)
  let dispatchId ← DeliveryLog.openDelivery H c.opening c.recordId (some (c.target.toTarget classes))
  let delivery ← Op.query (getDelivery dispatchId)
  if delivery.status = .delivered then return dispatchResult delivery c.target true
  match d.prepare H c with
  | .error exc =>
    DeliveryLog.appendUnwrittenFailure H c.attempt dispatchId (c.repr exc)
    return dispatchResult (← Op.query (getDelivery dispatchId)) c.target false
  | .ok (chunks,writer) => d.attempt H classes c dispatchId chunks writer

end

end Dispatcher

end Stele
