import Stele.Ledger.Tables

/-! A delivery: one record sent to one target, as its append-only events tell it. -/
namespace Stele
open Python

inductive DeliveryEventKind
  | intent
  | receipt
  | failure
  | removalIntent
  | removalReceipt
  | removalFailure
  deriving DecidableEq

def DeliveryEventKind.value : DeliveryEventKind → PyStr
  | .intent => lit "intent"
  | .receipt => lit "receipt"
  | .failure => lit "failure"
  | .removalIntent => lit "removal_intent"
  | .removalReceipt => lit "removal_receipt"
  | .removalFailure => lit "removal_failure"

/-- Where a delivery stands, from its last event. -/
inductive DeliveryStatus
  | notAttempted
  | inFlight
  | delivered
  | failed
  | removing
  | removed
  | removalFailed
  deriving DecidableEq

structure DeliveryEvent where
  eventId : ℤ
  event : DeliveryEventKind
  planned : Option ℤ
  chunksDigest : Option PyStr
  done : Option ℤ
  error : Option PyStr
  at' : PyStr
  attemptId : Option PyStr
  deriving DecidableEq

structure Delivery where
  dispatchId : PyStr
  recordId : PyStr
  targetKind : PyStr
  target : PyVal
  createdAt : PyStr
  events : List DeliveryEvent

/-- The variables of possibly_written's loop; the set has each attempt once. -/
structure WriteFold where
  written : Bool
  outstanding : List PyStr
  legacyInFlight : Bool
  deriving DecidableEq

namespace WriteFold

def start : WriteFold := ⟨false,[],false⟩

/-- The outcome of an attempt: outstanding.discard(attempt_id), or the legacy flag. -/
def close (w : WriteFold) : Option PyStr → WriteFold
  | none => {w with legacyInFlight := false}
  | some a => {w with outstanding := w.outstanding.filter fun b => decide (b ≠ a)}

/-- One event of possibly_written's loop. -/
def event (w : WriteFold) (e : DeliveryEvent) : WriteFold :=
  match e.event with
  | .intent =>
    match e.attemptId with
    | none => {w with written := w.written || w.legacyInFlight, legacyInFlight := true}
    | some a => {w with outstanding := w.outstanding.insert a}
  | .receipt => {w with written := true}.close e.attemptId
  | .failure =>
    (if e.done ≠ some 0 then {w with written := true} else w).close e.attemptId
  | .removalReceipt => {w with written := false}
  | .removalIntent | .removalFailure => w

def value (w : WriteFold) : Bool := w.written || w.legacyInFlight || !w.outstanding.isEmpty

end WriteFold

namespace Delivery

def status (d : Delivery) : DeliveryStatus :=
  match d.events.getLast? with
  | none => .notAttempted
  | some e => match e.event with
    | .intent => .inFlight
    | .receipt => .delivered
    | .failure => .failed
    | .removalIntent => .removing
    | .removalReceipt => .removed
    | .removalFailure => .removalFailed

/-- Digest of the chunks this delivery writes, fixed by its first intent. -/
def chunksDigest (d : Delivery) : Option PyStr :=
  match d.events.find? fun e => decide (e.event = .intent) with
  | none => none
  | some e => e.chunksDigest

/-- Chunks this delivery writes. -/
def planned (d : Delivery) : Option ℤ :=
  match d.events.find? fun e => decide (e.event = .intent) with
  | none => some 0
  | some e => e.planned

/-- The loop of possibly_written. -/
def writeFold (d : Delivery) : WriteFold := d.events.foldl WriteFold.event .start

/-- True unless the log proves the target holds nothing of this delivery. -/
def possiblyWritten (d : Delivery) : Bool := d.writeFold.value

/-- One more event in the log. -/
def append (d : Delivery) (e : DeliveryEvent) : Delivery := {d with events := d.events++[e]}

@[simp] lemma append_events (d : Delivery) (e : DeliveryEvent) :
    (d.append e).events = d.events++[e] := rfl

@[simp] lemma append_writeFold (d : Delivery) (e : DeliveryEvent) :
    (d.append e).writeFold = d.writeFold.event e := by simp [writeFold]

end Delivery

namespace WriteFold

@[simp] lemma close_written (w : WriteFold) (a : Option PyStr) : (w.close a).written = w.written := by
  cases a <;> rfl

lemma mem_close {w : WriteFold} {a b : PyStr} :
    b ∈ (w.close (some a)).outstanding ↔ b ∈ w.outstanding ∧ b ≠ a := by simp [close]

lemma close_none (w : WriteFold) : (w.close none).outstanding = w.outstanding := rfl

end WriteFold

end Stele
