import Stele.Archive.Records

/-! The ledger's SQLite tables, column by column. A TEXT column stores text or a blob, an
INTEGER column whatever number affinity leaves; every list is in rowid order. -/
namespace Stele
open Python

/-- A value of a TEXT column. -/
inductive TextCell
  | null
  | text (s : PyStr)
  | blob (b : Bytes)
  deriving DecidableEq

/-- A value of an INTEGER column. -/
inductive Cell
  | null
  | integer (i : ℤ)
  | real (f : PyFloat)
  | text (s : PyStr)
  | blob (b : Bytes)
  deriving DecidableEq

namespace TextCell

/-- The value sqlite3 returns. -/
def toPy : TextCell → PyVal
  | .null => .none
  | .text s => .str s
  | .blob b => .bytes b

def ofOption : Option PyStr → TextCell
  | none => .null
  | some s => .text s

/-- The text itself. -/
def get : TextCell → PyStr
  | .text s => s
  | _ => []

/-- Python's == on values of TEXT columns is equality of the cells. -/
@[simp] lemma pyEq_toPy (a b : TextCell) : PyVal.pyEq a.toPy b.toPy = decide (a = b) := by
  cases a <;> cases b <;> simp [toPy,PyVal.pyEq]

end TextCell

def Cell.toPy : Cell → PyVal
  | .null => .none
  | .integer i => .int i
  | .real f => .float f
  | .text s => .str s
  | .blob b => .bytes b

structure RecordRow where
  recordId : TextCell
  runId : TextCell
  sourcePath : TextCell
  sourceId : TextCell
  sourceHash : TextCell
  sourceKind : TextCell
  parserName : TextCell
  parserVersion : TextCell
  parserImageDigest : TextCell
  parserModuleSha256 : TextCell
  parserConfig : TextCell
  backend : TextCell
  artifactDir : TextCell
  artifactManifest : TextCell
  artifactHash : TextCell
  state : TextCell
  createdAt : TextCell
  finalizedAt : TextCell
  error : TextCell
  legacySourceHash : TextCell
  runConditions : TextCell
  deriving DecidableEq

structure DeliveryRow where
  dispatchId : TextCell
  recordId : TextCell
  targetKind : TextCell
  target : TextCell
  createdAt : TextCell
  deriving DecidableEq

structure DeliveryEventRow where
  eventId : ℤ
  dispatchId : TextCell
  event : TextCell
  planned : Cell
  chunksDigest : TextCell
  done : Cell
  error : TextCell
  at' : TextCell
  attemptId : TextCell
  deriving DecidableEq

structure ReplayRow where
  replayId : TextCell
  recordId : TextCell
  outcome : TextCell
  reason : TextCell
  replayRunId : TextCell
  replayArtifactHash : TextCell
  differences : TextCell
  policy : TextCell
  backend : TextCell
  platform : TextCell
  replayedAt : TextCell
  deriving DecidableEq

structure EventRow where
  seq : ℤ
  kind : TextCell
  subject : TextCell
  body : TextCell
  at' : TextCell
  prevHash : TextCell
  hash : TextCell
  deriving DecidableEq

structure Db where
  records : List RecordRow
  deliveries : List DeliveryRow
  deliveryEvents : List DeliveryEventRow
  replays : List ReplayRow
  events : List EventRow
  deriving DecidableEq

/-- create_schema on an empty database. -/
def Db.new : Db := ⟨[],[],[],[],[]⟩

/-- A statement or a sequence of them inside a transaction. -/
abbrev Tx (α : Type) := Db → Except Exc (α × Db)

/-- write_transaction: the body's changes are committed together, or rolled back. -/
def writeTransaction {α : Type} (body : Tx α) (db : Db) : Except Exc α × Db :=
  match body db with
  | .ok (a,db') => (.ok a,db')
  | .error e => (.error e,db)

/-- An integer that sqlite3 can bind. -/
def bindInt (i : ℤ) : Except Exc Cell :=
  if -(2^63) ≤ i ∧ i < 2^63 then .ok (.integer i) else .error .overflowError

/-- A string that sqlite3 can bind. -/
def bindText (s : PyStr) : Except Exc TextCell :=
  if Encodable s then .ok (.text s) else .error .unicodeEncodeError

def bindOption (s : Option PyStr) : Except Exc TextCell :=
  match s with
  | none => .ok .null
  | some s => bindText s

section Binding

lemma bindText_ok {s : PyStr} {c : TextCell} (h : bindText s = .ok c) : c = .text s := by
  unfold bindText at h
  split_ifs at h
  exact (Except.ok.inj h).symm

lemma bindOption_ok {s : Option PyStr} {c : TextCell} (h : bindOption s = .ok c) :
    c = TextCell.ofOption s := by
  cases s with
  | none => exact (Except.ok.inj h).symm
  | some s => exact bindText_ok h

lemma bindInt_ok {i : ℤ} {c : Cell} (h : bindInt i = .ok c) : c = .integer i := by
  unfold bindInt at h
  split_ifs at h
  exact (Except.ok.inj h).symm

end Binding

/-- A transaction commits what its body returns, or changes nothing. -/
lemma writeTransaction_cases {α : Type} (body : Tx α) (db : Db) :
    (∃ a db', body db = .ok (a,db') ∧ writeTransaction body db = (.ok a,db')) ∨
      ∃ e, body db = .error e ∧ writeTransaction body db = (.error e,db) := by
  unfold writeTransaction
  cases h : body db with
  | error e => exact Or.inr ⟨e,rfl,rfl⟩
  | ok p => exact Or.inl ⟨p.1,p.2,rfl,rfl⟩

end Stele
