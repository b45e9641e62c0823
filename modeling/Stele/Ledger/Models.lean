import Stele.Archive.Metadata
import Stele.Ledger.Tables
import Stele.Python.JsonBytes

/-! The ledger's value types: record states, parser identities, run conditions and
records. Each carries what its constructor checks. -/
namespace Stele
open Python

inductive ArtifactState
  | pending
  | sealed
  | failed
  | invalidated
  deriving DecidableEq

namespace ArtifactState

def value : ArtifactState → PyStr
  | .pending => lit "pending"
  | .sealed => lit "sealed"
  | .failed => lit "failed"
  | .invalidated => lit "invalidated"

/-- ArtifactState(value); `none` is ValueError. -/
def ofValue (s : PyStr) : Option ArtifactState :=
  if s = lit "pending" then some .pending
  else if s = lit "sealed" then some .sealed
  else if s = lit "failed" then some .failed
  else if s = lit "invalidated" then some .invalidated
  else none

@[simp] lemma ofValue_value (s : ArtifactState) : ofValue s.value = some s := by
  cases s <;> simp [value,ofValue]

lemma value_inj {s t : ArtifactState} : s.value = t.value ↔ s = t := by
  cases s <;> cases t <;> simp [value]

end ArtifactState

/-- Which parser produced a run's artifacts. -/
structure ParserIdentity where
  name : PyStr
  version : PyStr
  imageDigest : Option PyStr
  moduleSha256 : Option PyStr
  name_ne : name ≠ []
  version_ne : version ≠ []
  image_ne : ∀ d ∈ imageDigest, d ≠ []
  module_digest : ∀ d ∈ moduleSha256, isDigest d = true
  deriving DecidableEq

lemma no_image : ∀ d ∈ (none : Option PyStr), d ≠ [] := by simp

lemma no_module : ∀ d ∈ (none : Option PyStr), isDigest d = true := by simp

lemma version_one : lit "1" ≠ [] := by decide

/-- A value that is None or a string. -/
def optionStr : PyVal → Option (Option PyStr)
  | .none => some none
  | .str s => some (some s)
  | _ => none

/-- ParserIdentity(name=..., version=..., ...); `none` is ValueError. -/
def ParserIdentity.make (name version imageDigest moduleSha256 : PyVal) : Option ParserIdentity :=
  match name,version,optionStr imageDigest,optionStr moduleSha256 with
  | .str n,.str v,some i,some m =>
    if h : n ≠ [] ∧ v ≠ [] ∧ (∀ d ∈ i, d ≠ []) ∧ (∀ d ∈ m, isDigest d = true) then
      some ⟨n,v,i,m,h.1,h.2.1,h.2.2.1,h.2.2.2⟩
    else none
  | _,_,_,_ => none

/-- The zeros of the decimal digits (category Nd); each block has ten. -/
def decimalZeros : List ℕ :=
  [48,1632,1776,1984,2406,2534,2662,2790,2918,3046,3174,3302,3430,3558,3664,3792,3872,4160,4240,
    6112,6160,6470,6608,6784,6800,6992,7088,7232,7248,42528,43216,43264,43472,43504,43600,44016,
    65296,66720,68912,69734,69872,69942,70096,70384,70736,70864,71248,71360,71472,71904,72016,
    72784,73040,73120,73552,92768,92864,93008,120782,120792,120802,120812,120822,123200,123632,
    124144,125264,130032]

/-- The value of a \d character. -/
def decimalValue (c : CodePoint) : Option ℕ :=
  (decimalZeros.find? fun z => decide (z ≤ c.val ∧ c.val < z+10)).map fun z => c.val-z

/-- \d*, with the values of the digits. -/
def spanDecimals : PyStr → List ℕ × PyStr
  | [] => ([],[])
  | c :: s => match decimalValue c with
    | none => ([],c :: s)
    | some d => let (ds,r) := spanDecimals s; (d :: ds,r)

/-- A character in one of the given ones, or nothing. -/
def optionalChar (cs : List ℕ) : PyStr → PyStr
  | c :: s => if c.val ∈ cs then s else c :: s
  | [] => []

/-- ` ?[kmgtp]?i?b?$` with IGNORECASE: K includes the Kelvin sign, i the two Turkish ones,
and $ also matches before a last newline. -/
def memoryUnit (s : PyStr) : Bool :=
  let r := optionalChar [98,66] (optionalChar [105,73,0x130,0x131]
    (optionalChar [107,75,0x212A,109,77,103,71,116,84,112,80] (optionalChar [32] s)))
  decide (r = [] ∨ r = [10])

/-- float(...) > 0 of the digits before and after the point. -/
def positiveDecimal (int frac : List ℕ) : Bool :=
  match (Decimal.mk ((int++frac).foldl (fun n d => n*10+d) 0) frac.length).toFloat false with
  | .finite f => decide (f.mant ≠ 0)
  | _ => true

/-- is_memory_limit of a string. -/
def isMemoryLimit (s : PyStr) : Bool :=
  let (int,r) := spanDecimals s
  if int = [] then false
  else match r with
    | c :: r' =>
      let (frac,r'') := spanDecimals r'
      if c = cp '.' ∧ frac ≠ [] then memoryUnit r'' && positiveDecimal int frac
      else memoryUnit r && positiveDecimal int []
    | [] => positiveDecimal int []

/-- f <= 0; false for nan. -/
def PyFloat.nonpos : PyFloat → Bool
  | .finite f => f.neg || decide (f.mant = 0)
  | .inf neg => neg
  | .nan => false

/-- float(i) of an int; `none` is OverflowError. -/
def floatOfInt (i : ℤ) : Option PyFloat :=
  match nearest (decide (i < 0)) i.natAbs 1 with
  | .inf _ => none
  | f => some f

inductive Device
  | cpu
  | gpu
  deriving DecidableEq

def Device.value : Device → PyStr
  | .cpu => lit "cpu"
  | .gpu => lit "gpu"

/-- How a run was executed. -/
structure RunConditions where
  device : Device
  memory : Option PyStr
  cpus : Option PyFloat
  pidsLimit : Option ℕ
  timeoutSeconds : Option ℕ
  memory_limit : ∀ m ∈ memory, isMemoryLimit m = true
  cpus_pos : ∀ c ∈ cpus, PyFloat.nonpos c = false
  pids_pos : ∀ n ∈ pidsLimit, 0 < n
  timeout_pos : ∀ n ∈ timeoutSeconds, 0 < n
  deriving DecidableEq

namespace RunConditions

/-- self.device not in _DEVICES. -/
def readDevice : PyVal → Option Device
  | .str s => if s = lit "cpu" then some .cpu else if s = lit "gpu" then some .gpu else none
  | _ => none

def readMemory : PyVal → Option {m : Option PyStr // ∀ s ∈ m, isMemoryLimit s = true}
  | .none => some ⟨none,by simp⟩
  | .str s => if h : isMemoryLimit s = true then some ⟨some s,by simpa using h⟩ else none
  | _ => none

def positiveFloat (f : PyFloat) : Option {c : Option PyFloat // ∀ g ∈ c, PyFloat.nonpos g = false} :=
  if h : PyFloat.nonpos f = false then some ⟨some f,by simpa using h⟩ else none

/-- A positive number is made a float; a bool is no number here. -/
def readCpus : PyVal → Except Exc {c : Option PyFloat // ∀ g ∈ c, PyFloat.nonpos g = false}
  | .none => .ok ⟨none,by simp⟩
  | .float f => (positiveFloat f).elim (.error .valueError) .ok
  | .int i =>
    if i ≤ 0 then .error .valueError
    else match floatOfInt i with
      | none => .error .overflowError
      | some f => (positiveFloat f).elim (.error .valueError) .ok
  | _ => .error .valueError

def readCount : PyVal → Option {n : Option ℕ // ∀ k ∈ n, 0 < k}
  | .none => some ⟨none,by simp⟩
  | .int (.ofNat (n+1)) => some ⟨some (n+1),by simp⟩
  | _ => none

/-- RunConditions(...), its checks in order. -/
def make (device memory cpus pidsLimit timeoutSeconds : PyVal) : Except Exc RunConditions := do
  let device ← (readDevice device).elim (.error .valueError) .ok
  let ⟨memory,hm⟩ ← (readMemory memory).elim (.error .valueError) .ok
  let ⟨cpus,hc⟩ ← readCpus cpus
  let ⟨pids,hp⟩ ← (readCount pidsLimit).elim (.error .valueError) .ok
  let ⟨timeout,ht⟩ ← (readCount timeoutSeconds).elim (.error .valueError) .ok
  return ⟨device,memory,cpus,pids,timeout,hm,hc,hp,ht⟩

def optionPy {α : Type} (f : α → PyVal) : Option α → PyVal
  | none => .none
  | some a => f a

def toDict (c : RunConditions) : PyVal :=
  .dict [(.str (lit "device"),.str c.device.value),(.str (lit "memory"),optionPy .str c.memory),
    (.str (lit "cpus"),optionPy .float c.cpus),
    (.str (lit "pids_limit"),optionPy (fun n : ℕ => .int n) c.pidsLimit),
    (.str (lit "timeout_seconds"),optionPy (fun n : ℕ => .int n) c.timeoutSeconds)]

def fieldNames : List String := ["device","memory","cpus","pids_limit","timeout_seconds"]

/-- from_dict. What is no dict is no set of field names, or cannot be unpacked. -/
def fromDict : PyVal → Except Exc RunConditions
  | .dict kvs =>
    if kvs.all fun p => fieldNames.any fun f => p.1.eq (.str (lit f)) then
      make ((PyVal.find kvs (.str (lit "device"))).getD (.str (lit "cpu")))
        (getStr kvs "memory") (getStr kvs "cpus") (getStr kvs "pids_limit")
        (getStr kvs "timeout_seconds")
    else .error .valueError
  | .str s => .error (if s = [] then .typeError else .valueError)
  | .list xs =>
    if xs.all fun x => fieldNames.any fun f => x.pyEq (.str (lit f)) then .error .typeError
    else if xs.any fun x => match x with | .list _ | .dict _ => true | _ => false then
      .error .typeError
    else .error .valueError
  | _ => .error .typeError

end RunConditions

/-- One ledger record, as read back. The columns that no constructor checks are as stored. -/
structure ArtifactRecord where
  recordId : TextCell
  runId : TextCell
  sourcePath : TextCell
  sourceHash : TextCell
  sourceKind : Option SnapshotKind
  sourceId : TextCell
  parser : Option ParserIdentity
  parserConfig : Option PyVal
  backend : TextCell
  artifactDir : TextCell
  artifactManifest : PyVal
  artifactHash : TextCell
  state : ArtifactState
  error : TextCell
  legacySourceHash : TextCell
  runConditions : Option RunConditions

/-- json.loads(column). -/
def loadsColumn : TextCell → Except Exc PyVal
  | .null => .error .typeError
  | .text s => (loads s).elim (.error .valueError) .ok
  | .blob b => (loadsBytes b).elim (.error .valueError) .ok

/-- None for NULL, else json.loads(column). -/
def loadsNullable : TextCell → Except Exc (Option PyVal)
  | .null => .ok none
  | c => (loadsColumn c).map some

/-- SnapshotKind(column) if column else None. -/
def kindOfColumn : TextCell → Except Exc (Option SnapshotKind)
  | .null | .text [] | .blob [] => .ok none
  | .text s => (SnapshotKind.ofValue s).elim (.error .valueError) fun k => .ok (some k)
  | .blob _ => .error .valueError

/-- ArtifactState(column). -/
def stateOfColumn : TextCell → Except Exc ArtifactState
  | .text s => (ArtifactState.ofValue s).elim (.error .valueError) .ok
  | _ => .error .valueError

/-- The parser columns; None when parser_name is NULL. -/
def parserOfRow (r : RecordRow) : Except Exc (Option ParserIdentity) :=
  if r.parserName = .null then .ok none
  else (ParserIdentity.make r.parserName.toPy r.parserVersion.toPy r.parserImageDigest.toPy
    r.parserModuleSha256.toPy).elim (.error .valueError) fun p => .ok (some p)

/-- RunConditions.from_dict(json.loads(column)), None for NULL. -/
def conditionsOfColumn (c : TextCell) : Except Exc (Option RunConditions) :=
  match loadsNullable c with
  | .error e => .error e
  | .ok none => .ok none
  | .ok (some v) => (RunConditions.fromDict v).map some

/-- _row_to_record. The timestamps are left out: nothing below depends on them. -/
def rowToRecord (r : RecordRow) : Except Exc ArtifactRecord := do
  let parser ← parserOfRow r
  let sourceKind ← kindOfColumn r.sourceKind
  let parserConfig ← loadsNullable r.parserConfig
  let artifactManifest ← loadsColumn r.artifactManifest
  let state ← stateOfColumn r.state
  let runConditions ← conditionsOfColumn r.runConditions
  return ⟨r.recordId,r.runId,r.sourcePath,r.sourceHash,sourceKind,r.sourceId,parser,parserConfig,
    r.backend,r.artifactDir,artifactManifest,r.artifactHash,state,r.error,r.legacySourceHash,
    runConditions⟩

end Stele
