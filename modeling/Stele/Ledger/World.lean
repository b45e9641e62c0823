import Stele.Lib.Interleaving
import Stele.Contracts.Chunks
import Stele.Contracts.Targets
import Stele.Ledger.Events
import Stele.Archive.Store

/-! What concurrent calls share, and the operations calls are made of: one transaction, one
query, or one use of the archive at a time. A call that dies between two of them leaves
what the first ones did. -/
namespace Stele
open Python Interleaving

/-- One call of a target writer's write_chunks. -/
structure Write where
  writer : ℕ
  dispatchId : PyStr
  target : TargetValue
  chunks : List SteleChunk

/-- One call of a target writer's remove_delivery. -/
structure RemovalCall where
  writer : ℕ
  dispatchId : PyStr
  target : TargetValue

/-- The ledger database, the archive, and what the target writers were called with. -/
structure World where
  db : Db
  archive : Archive
  writes : List Write
  removals : List RemovalCall

/-- A new ledger over an archive. -/
def World.new (a : Archive) : World := ⟨Db.new,a,[],[]⟩

abbrev Op (α : Type) := ExceptT Exc (Prog World) α

/-- What a call takes from outside: uuid4(), the clock for a row and for its event, and its
reads of files on disk. -/
structure Env where
  uuid : PyStr
  now : PyStr
  at' : PyStr
  reads : Reads

namespace Op

/-- with write_transaction(conn): body. -/
def transaction {α : Type} (body : Tx α) : Op α :=
  .mk (.atomic fun w => ((writeTransaction body w.db).1,{w with db := (writeTransaction body w.db).2}))

/-- One SELECT. -/
def query {α : Type} (f : Db → Except Exc α) : Op α := .mk (.atomic fun w => (f w.db,w))

/-- One use of the archive. -/
def onArchive {α : Type} (f : Archive → Except Exc α × Archive) : Op α :=
  .mk (.atomic fun w => ((f w.archive).1,{w with archive := (f w.archive).2}))

/-- writer.write_chunks(chunks, target, dispatch_id=...), whatever becomes of it. -/
def writeChunks (c : Write) : Op Unit :=
  .mk (.atomic fun w => (.ok (),{w with writes := w.writes++[c]}))

/-- writer.remove_delivery(target, dispatch_id=...), whatever becomes of it. -/
def removeDelivery (c : RemovalCall) : Op Unit :=
  .mk (.atomic fun w => (.ok (),{w with removals := w.removals++[c]}))

/-- What takes no step of its own. -/
def lift {α : Type} (r : Except Exc α) : Op α := .mk (.ret r)

/-- try: p except what `catches`: handler. -/
def handle {α : Type} (p : Op α) (catches : Exc → Bool) (handler : Exc → Op α) : Op α :=
  .mk (p.run >>= fun r => match r with
    | .ok a => .ret (.ok a)
    | .error e => if catches e then (handler e).run else .ret (.error e))

end Op

end Stele
