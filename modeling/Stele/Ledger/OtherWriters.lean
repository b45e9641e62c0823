import Stele.Ledger.DeliveryLog

/-! The writers outside the ledger package: the replay log and the sign-off. -/
namespace Stele
open Python

inductive ReplayOutcome
  | reproduced
  | equivalent
  | diverged
  | unreplayable
  | failed
  deriving DecidableEq

def ReplayOutcome.value : ReplayOutcome → PyStr
  | .reproduced => lit "reproduced"
  | .equivalent => lit "equivalent"
  | .diverged => lit "diverged"
  | .unreplayable => lit "unreplayable"
  | .failed => lit "failed"

def replayOutcomes : List ReplayOutcome := [.reproduced,.equivalent,.diverged,.unreplayable,.failed]

structure ReplayResult where
  replayId : PyStr
  recordId : PyStr
  outcome : ReplayOutcome
  reason : PyStr
  replayRunId : Option PyStr
  replayArtifactHash : Option PyStr
  differences : List PyStr
  policy : Option PyVal
  backend : Option PyStr
  platform : PyStr
  replayedAt : PyStr

/-- canonical_json(policy).decode() if there is one. -/
def policyCell : Option PyVal → Except Exc TextCell
  | none => .ok .null
  | some p => do
    let t ← canonicalText p
    bindText t

/-- json.dumps(list(differences)). -/
def differencesText (ds : List PyStr) : Except Exc PyStr :=
  match dumps defaultOpts (.list (ds.map .str)) with
  | .error e => .error (.ofJson e)
  | .ok t => .ok t

def ReplayResult.row (r : ReplayResult) : Except Exc ReplayRow := do
  let replayId ← bindText r.replayId
  let recordId ← bindText r.recordId
  let reason ← bindText r.reason
  let replayRunId ← bindOption r.replayRunId
  let replayArtifactHash ← bindOption r.replayArtifactHash
  let differences ← differencesText r.differences
  let differences ← bindText differences
  let policy ← policyCell r.policy
  let backend ← bindOption r.backend
  let platform ← bindText r.platform
  let replayedAt ← bindText r.replayedAt
  return ⟨replayId,recordId,.text r.outcome.value,reason,replayRunId,replayArtifactHash,
    differences,policy,backend,platform,replayedAt⟩

/-- What replay.logged commits to. -/
def ReplayResult.body (r : ReplayResult) : PyVal :=
  .dict [(.str (lit "record_id"),.str r.recordId),(.str (lit "outcome"),.str r.outcome.value),
    (.str (lit "reason"),.str r.reason),
    (.str (lit "replay_artifact_hash"),optionStrPy r.replayArtifactHash),
    (.str (lit "policy"),r.policy.getD .none),(.str (lit "platform"),.str r.platform)]

/-- INSERT INTO replays. -/
def insertReplay (r : ReplayRow) : Tx Unit := fun db =>
  if [r.recordId,r.outcome,r.reason,r.differences,r.platform,r.replayedAt].any
      fun c => decide (c = .null) then .error (.integrityError .notNull)
  else if r.outcome ∉ replayOutcomes.map fun o => TextCell.text o.value then
    .error (.integrityError .check)
  else if r.replayId ≠ .null ∧ db.replays.any fun q => decide (q.replayId = r.replayId) then
    .error (.integrityError .primaryKey)
  else if (db.records.any fun q => decide (q.recordId = r.recordId)) = false then
    .error (.integrityError .foreignKey)
  else .ok ((),{db with replays := db.replays++[r]})

def replayTx (H : Hasher) (e : Env) (r : ReplayResult) : Tx Unit := fun db => do
  let row ← r.row
  let (_,db) ← insertReplay row db
  let (_,db) ← appendEvent H (lit "replay.logged") r.replayId r.body e.at' db
  return ((),db)

/-- ReplayLog.append. -/
def ReplayLog.append (H : Hasher) (e : Env) (r : ReplayResult) : Op Unit :=
  Op.transaction (replayTx H e r)

/-- SIGNOFF_EVENT. -/
def signoffEvent : PyStr := lit "verification.signed_off"

/-- What sign_off takes from the report it accepts, and who accepts it. -/
structure SignOffArgs where
  reportDigest : PyStr
  corpusId : PyStr
  corpusName : PyVal
  documents : PyVal
  parser : PyVal
  lanes : PyVal
  baseline : PyVal
  reportLedgerHead : PyVal
  waivers : ℕ
  signedOffBy : PyStr
  note : PyStr

def SignOffArgs.body (s : SignOffArgs) : PyVal :=
  .dict [(.str (lit "report_digest"),.str s.reportDigest),(.str (lit "corpus_id"),.str s.corpusId),
    (.str (lit "corpus_name"),s.corpusName),(.str (lit "documents"),s.documents),
    (.str (lit "parser"),s.parser),(.str (lit "lanes"),s.lanes),(.str (lit "baseline"),s.baseline),
    (.str (lit "report_ledger_head"),s.reportLedgerHead),(.str (lit "waivers"),.int s.waivers),
    (.str (lit "signed_off_by"),.str s.signedOffBy),(.str (lit "note"),.str s.note)]

/-- The last step of sign_off: its event, and no row of any other table. -/
def signOffTx (H : Hasher) (e : Env) (s : SignOffArgs) : Tx Unit := fun db => do
  let (_,db) ← appendEvent H signoffEvent s.corpusId s.body e.at' db
  return ((),db)

def SignOff.append (H : Hasher) (e : Env) (s : SignOffArgs) : Op Unit :=
  Op.transaction (signOffTx H e s)

end Stele
