import Stele.Ledger.Steps
import Stele.Lib.Loops
import Stele.Verification.Report

/-! Sign-offs as they are read back: the archived report, the chain that names it, and the check
that it still describes the ledger. -/
namespace Stele
open Python Interleaving

/-- What ReportFormatError says. -/
inductive ReportProblem
  /- "not UTF-8 JSON", "expected stele.verification-report v1" -/
  | notJson
  | schema
  /- "report has no {key!r}", "report is not in canonical form" -/
  | missing (key : String)
  | notCanonical
  deriving DecidableEq

/-- The keys that from_canonical asks for, in order. -/
def reportKeys : List String :=
  ["corpus","parser","lanes","baseline","ledger","documents","summary","gates","waivers","passed"]

namespace VerificationReport

/-- from_canonical: the report, or the ReportFormatError; what canonical_json raises is none. -/
def fromCanonical (data : Bytes) : Except Exc (Except ReportProblem VerificationReport) :=
  match (decode data).bind loads with
  | none => .ok (.error .notJson)
  | some (.dict kvs) =>
    if (getItem kvs (lit "schema")).pyEq (.str (lit "stele.verification-report")) = false ∨
        (getItem kvs (lit "schema_version")).pyEq (.int 1) = false then .ok (.error .schema)
    else match reportKeys.find? fun key => (PyVal.find kvs (.str (lit key))).isNone with
      | some key => .ok (.error (.missing key))
      | none => (canonicalJson (.dict kvs)).map fun encoded =>
        if encoded = data then .ok ⟨.dict kvs,data⟩ else .error .notCanonical
  | some _ => .ok (.error .schema)

/-- ledger_head: None, or the values under seq and hash. -/
def ledgerHead (r : VerificationReport) : Except Exc (Option (PyVal × PyVal)) := do
  let ledger ← itemAt r.data "ledger"
  let head ← itemAt ledger "head"
  match head with
  | .none => return none
  | _ => do
    let seq ← itemAt head "seq"
    let hash ← itemAt head "hash"
    return some (seq,hash)

end VerificationReport

/-- What `for x in v` gives of a JSON value. -/
def elementsOf : PyVal → Except Exc (List PyVal)
  | .list xs => .ok xs
  | .str s => .ok (s.map fun c => .str [c])
  | .dict kvs => .ok (kvs.map fun p => match p.1 with
    | .str s => .str s
    | _ => .none)
  | _ => .error .typeError

/-- v.items(). -/
def itemsOf : PyVal → Except Exc (List (PyKey × PyVal))
  | .dict kvs => .ok kvs
  | _ => .error .attributeError

section Chain

variable (H : Hasher)

/-- What verify reports, the anchor being of any values. -/
inductive ChainFinding
  | problem (p : ChainProblem)
  /- "the chain ends before the anchored event {seq} (truncated)" -/
  | truncated (seq : PyVal)

/-- The row is the one that the anchor's number names. -/
def EventRow.isNumbered (r : EventRow) (seq : PyVal) : Bool := (PyVal.int r.seq).pyEq seq

/-- The row has the anchored hash. -/
def EventRow.hasHash (r : EventRow) (hash : PyVal) : Bool := r.hash.toPy.pyEq hash

/-- One row of verify's loop. -/
def ChainScan.rowAt (anchor : Option (PyVal × PyVal)) (s : ChainScan) (r : EventRow) :
    Except Exc ChainScan := do
  let t ← s.row H none r
  match anchor with
  | none => return t
  | some (seq,hash) =>
    if r.isNumbered seq then
      return {t with
        problems := t.problems++if r.hasHash hash then [] else [.anchorHash r.seq],
        anchorSeen := r.hasHash hash}
    else return t

/-- i < v. -/
def intLt (i : ℤ) (v : PyVal) : Except Exc Bool :=
  match v.num,v with
  | some x,_ => .ok (!x.le (.ofInt i))
  | none,.float _ => .ok false
  | none,_ => .error .typeError

/-- After the loop. -/
def ChainScan.endsBefore (s : ChainScan) : Option (PyVal × PyVal) → Except Exc (List ChainFinding)
  | none => .ok []
  | some (seq,_) =>
    if s.anchorSeen then .ok []
    else match s.head with
      | none => .ok [.truncated seq]
      | some (last,_) => (intLt last seq).map fun before => if before then [.truncated seq] else []

/-- The problems of EventLog.verify(anchor=...). -/
def EventLog.verifyAt (rows : List EventRow) (anchor : Option (PyVal × PyVal)) :
    Except Exc (List ChainFinding) := do
  let s ← (orderBySeq rows).foldlM (ChainScan.rowAt H anchor)
    {ChainScan.start none with anchorSeen := anchor.isNone}
  let ended ← s.endsBefore anchor
  return s.problems.map .problem++ended

/-- {"seq": ..., "hash": ..., "at": ..., **body}. -/
def signOffEntry (r : EventRow) : PyVal → Except Exc (List (PyKey × PyVal))
  | .dict kvs => .ok (kvs.foldl (fun d p => setKey d p.1 p.2)
      [(.str (lit "seq"),.int r.seq),(.str (lit "hash"),r.hash.toPy),(.str (lit "at"),r.at'.toPy)])
  | _ => .error .typeError

/-- What sign_offs makes of one event; every body is parsed. -/
def signOffOf (r : EventRow) : Except Exc (Option (List (PyKey × PyVal))) := do
  let body ← loadsColumn r.body
  if r.kind = .text signoffEvent then (signOffEntry r body).map some else return none

/-- sign_offs: log.events() leaves out what is not numbered above 0. -/
def signOffs (rows : List EventRow) : Except Exc (List (List (PyKey × PyVal))) :=
  ((orderBySeq rows).filter fun r => decide (0 < r.seq)).filterMapM signOffOf

end Chain

/-- What recheck reports. -/
inductive RecheckProblem
  /- "event log: {p}" -/
  | eventLog (p : ChainFinding)
  /- "{path} [{lane}]: record {record_id} is gone", "... is now {state}", "... changed" -/
  | gone (path : PyVal) (lane : PyKey) (record_id : PyVal)
  | isNow (path : PyVal) (lane : PyKey) (record_id : PyVal) (state : ArtifactState)
  | changed (path : PyVal) (lane : PyKey) (record_id : PyVal)

/-- What check_sign_off reports. -/
inductive SignOffProblem
  /- "no sign-off of report {report_digest} in the event log", "event log: {p}" -/
  | noSignOff (report_digest : PyStr)
  | eventLog (p : ChainFinding)
  /- "the signed-off report is unreadable: {exc}", "the signed-off report did not pass", "stale:
  {p}" -/
  | unreadable (exc : Exc)
  | malformed (p : ReportProblem)
  | notPassed
  | stale (p : RecheckProblem)

section Recheck

variable (H : Hasher) (real : PyFloat → PyStr)

/-- The text that a TEXT column is compared with when v is bound; `real` writes a float as SQLite
does. No cell equals NULL, and sqlite3.ProgrammingError refuses what it cannot bind. -/
def comparedText : PyVal → Except Exc (Option PyStr)
  | .none | .float .nan | .bytes _ => .ok none
  | .bool b => .ok (some (lit (if b then "1" else "0")))
  | .int i =>
    if -2^63 ≤ i ∧ i < 2^63 then
      match intText i with
      | .ok t => .ok (some t)
      | .error e => .error (.ofJson e)
    else .error .overflowError
  | .float f => .ok (some (real f))
  | .str s => (bindText s).map fun _ => some s
  | .list _ | .tuple _ | .dict _ | .object _ => .error .foreign

/-- ledger.get(record_id), None for RecordNotFoundError. -/
def recordNamed (id : PyVal) (db : Db) : Except Exc (Option ArtifactRecord) := do
  match ← comparedText real id with
  | none => return none
  | some text =>
    match findRecord db text with
    | none => return none
    | some r => (rowToRecord r).map some

/-- What recheck says of one row, given the record that it names. -/
def namedProblems (doc : PyVal) (lane : PyKey) (row id : PyVal) :
    Option ArtifactRecord → Except Exc (List RecheckProblem)
  | none => (itemAt doc "path").map fun path => [.gone path lane id]
  | some r =>
    if r.state ≠ .sealed then (itemAt doc "path").map fun path => [.isNow path lane id r.state]
    else do
      let hash ← itemOr row "artifact_hash" .none
      if r.artifactHash.toPy.pyEq hash then return []
      else (itemAt doc "path").map fun path => [.changed path lane id]

/-- One lane of a document. -/
def recheckLane (doc : PyVal) (lane : PyKey) (row : PyVal) : Op (List RecheckProblem) := do
  let id ← Op.lift (itemOr row "record_id" .none)
  if truthy id = false then return []
  let record ← Op.query (recordNamed real id)
  Op.lift (namedProblems doc lane row id record)

/-- One document. -/
def recheckDocument (doc : PyVal) : Op (List RecheckProblem) := do
  let lanes ← Op.lift (itemAt doc "lanes" >>= itemsOf)
  let found ← each (fun _ p => recheckLane real doc p.1 p.2) 0 lanes
  return found.flatten

/-- recheck. -/
def recheck (report : VerificationReport) : Op (List RecheckProblem) := do
  let anchor ← Op.lift report.ledgerHead
  let chain ← Op.query fun db => EventLog.verifyAt H db.events anchor
  let documents ← Op.lift (itemAt report.data "documents" >>= elementsOf)
  let found ← each (fun _ doc => recheckDocument real doc) 0 documents
  return chain.map .eventLog++found.flatten

/-- The signed-off report in the archive, or why it is unreadable. -/
def signedOffReport (report_digest : PyStr) (a : Archive) :
    Except Exc (Except SignOffProblem VerificationReport) :=
  match a.read H report_digest with
  | .error exc => if exc.isArchiveError then .ok (.error (.unreadable exc)) else .error exc
  | .ok data => (VerificationReport.fromCanonical data).map fun r => match r with
    | .error p => .error (.malformed p)
    | .ok report => .ok report

/-- The rest of check_sign_off, once it has the report. -/
def checkReport (chain : List ChainFinding) : Except SignOffProblem VerificationReport →
    Op (List SignOffProblem)
  | .error p => return chain.map .eventLog++[p]
  | .ok report => do
    let passed ← Op.lift report.passed
    let stale ← recheck H real report
    return chain.map .eventLog++(if passed then [] else [.notPassed])++stale.map .stale

/-- check_sign_off, given the latest of the matching entries. -/
def checkSignedEntry (report_digest : PyStr) (entry : List (PyKey × PyVal)) : Op (List SignOffProblem) := do
  let seq ← Op.lift (itemAt (.dict entry) "seq")
  let hash ← Op.lift (itemAt (.dict entry) "hash")
  let chain ← Op.query fun db => EventLog.verifyAt H db.events (some (seq,hash))
  let report ← Op.onArchive fun a => (signedOffReport H report_digest a,a)
  checkReport H real chain report

/-- The entries of one report. -/
def entriesOf (report_digest : PyStr) (entries : List (List (PyKey × PyVal))) :
    List (List (PyKey × PyVal)) :=
  entries.filter fun s => (getItem s (lit "report_digest")).pyEq (.str report_digest)

/-- check_sign_off. -/
def checkSignOff (report_digest : PyStr) : Op (List SignOffProblem) := do
  let entries ← Op.query fun db => signOffs db.events
  match (entriesOf report_digest entries).getLast? with
  | none => return [.noSignOff report_digest]
  | some entry => checkSignedEntry H real report_digest entry

end Recheck

end Stele
