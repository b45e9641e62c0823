import Stele.Ledger.Tables
import Stele.Lib.HashChain

/-! The hash-chained event log: what append_event writes and what EventLog.verify
recomputes. -/
namespace Stele
open Python

/-- GENESIS, the hash before the first event. -/
def genesis : PyStr := List.replicate 64 (digit 0)

/-- The object that an event's hash covers. -/
def eventObject (seq : ℤ) (kind subject body at' prev : PyVal) : PyVal :=
  .dict [(.str (lit "seq"),.int seq),(.str (lit "kind"),kind),(.str (lit "subject"),subject),
    (.str (lit "body"),body),(.str (lit "at"),at'),(.str (lit "prev"),prev)]

/-- event_hash; body is its canonical JSON text. -/
def eventHash (H : Hasher) (seq : ℤ) (kind subject body at' prev : PyVal) : Except Exc PyStr :=
  (canonicalJson (eventObject seq kind subject body at' prev)).map H.hexdigest

/-- SELECT ... FROM events ORDER BY seq. -/
def orderBySeq (rows : List EventRow) : List EventRow :=
  rows.insertionSort fun a b => a.seq ≤ b.seq

/-- INSERT INTO events. -/
def insertEvent (r : EventRow) : Tx Unit := fun db =>
  if db.events.any fun e => decide (e.seq = r.seq) then .error (.integrityError .primaryKey)
  else if [r.kind,r.subject,r.body,r.at',r.prevHash,r.hash].any fun c => decide (c = .null) then
    .error (.integrityError .notNull)
  else if db.events.any fun e => decide (e.hash = r.hash) then .error (.integrityError .unique)
  else .ok ((),{db with events := db.events++[r]})

structure Event where
  seq : ℤ
  kind : TextCell
  subject : TextCell
  body : PyVal
  at' : TextCell
  prevHash : TextCell
  hash : TextCell

/-- The number and the previous hash of the next event. -/
def nextLink (rows : List EventRow) : ℤ × TextCell :=
  match (orderBySeq rows).getLast? with
  | none => (1,.text genesis)
  | some last => (last.seq+1,last.hash)

/-- append_event, at time at'. The caller holds the write transaction. -/
def appendEvent (H : Hasher) (kind subject : PyStr) (body : PyVal) (at' : PyStr) : Tx Event :=
  fun db =>
    let (seq,prev) := nextLink db.events
    match canonicalText body with
    | .error e => .error e
    | .ok bodyJson =>
      match eventHash H seq (.str kind) (.str subject) (.str bodyJson) (.str at') prev.toPy with
      | .error e => .error e
      | .ok digest =>
        match insertEvent ⟨seq,.text kind,.text subject,.text bodyJson,.text at',prev,.text digest⟩
          db with
        | .error e => .error e
        | .ok (_,db') =>
          .ok (⟨seq,.text kind,.text subject,body,.text at',prev,.text digest⟩,db')

/-- The hash that a stored row should have. -/
def EventRow.rowHash (H : Hasher) (r : EventRow) : Except Exc PyStr :=
  eventHash H r.seq r.kind.toPy r.subject.toPy r.body.toPy r.at'.toPy r.prevHash.toPy

/-- What EventLog.verify reports. -/
inductive ChainProblem
  /- "event {expected} is missing (next is {next})" -/
  | missing (expected next : ℤ)
  /- "event {seq} does not follow event {seq - 1}" -/
  | unlinked (seq : ℤ)
  /- "event {seq} ({kind} {subject}) was altered" -/
  | altered (seq : ℤ) (kind subject : TextCell)
  /- "event {seq} no longer has the anchored hash" -/
  | anchorHash (seq : ℤ)
  /- "the chain ends before the anchored event {seq} (truncated)" -/
  | truncated (seq : ℤ)
  deriving DecidableEq

structure ChainReport where
  length : ℤ
  head : Option (ℤ × TextCell)
  problems : List ChainProblem
  deriving DecidableEq

abbrev Anchor := Option (ℤ × PyStr)

/-- The variables of verify's loop. -/
structure ChainScan where
  problems : List ChainProblem
  prev : TextCell
  expectedSeq : ℤ
  head : Option (ℤ × TextCell)
  anchorSeen : Bool

def ChainScan.start (anchor : Anchor) : ChainScan := ⟨[],.text genesis,1,none,anchor.isNone⟩

/-- One row of verify's loop. -/
def ChainScan.row (H : Hasher) (anchor : Anchor) (s : ChainScan) (r : EventRow) :
    Except Exc ChainScan :=
  match r.rowHash H with
  | .error e => .error e
  | .ok digest =>
    let missing := if r.seq ≠ s.expectedSeq then [.missing s.expectedSeq r.seq] else []
    let unlinked := if r.prevHash ≠ s.prev then [.unlinked r.seq] else []
    let altered := if .text digest ≠ r.hash then [.altered r.seq r.kind r.subject] else []
    let (seen,anchored) := match anchor with
      | none => (s.anchorSeen,[])
      | some (a,h) =>
        if r.seq = a then
          (decide (r.hash = .text h),if r.hash = .text h then [] else [.anchorHash r.seq])
        else (s.anchorSeen,[])
    .ok ⟨s.problems++missing++unlinked++altered++anchored,r.hash,r.seq+1,some (r.seq,r.hash),seen⟩

/-- After the loop: an anchor beyond the end means that the chain was cut. -/
def ChainScan.report (anchor : Anchor) (s : ChainScan) : ChainReport :=
  let truncated := match anchor with
    | none => []
    | some (a,_) =>
      if !s.anchorSeen && (s.head.all fun p => decide (p.1 < a)) then [.truncated a] else []
  ⟨(s.head.map Prod.fst).getD 0,s.head,s.problems++truncated⟩

/-- EventLog.verify(anchor=...). -/
def EventLog.verify (H : Hasher) (rows : List EventRow) (anchor : Anchor) :
    Except Exc ChainReport :=
  ((orderBySeq rows).foldlM (ChainScan.row H anchor) (.start anchor)).map (ChainScan.report anchor)

end Stele
