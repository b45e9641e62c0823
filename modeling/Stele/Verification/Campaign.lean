import Stele.Extraction.Contract

/-! What a verification campaign leaves: the corpus that it covered, and the journal of what
each document did on each lane. -/
namespace Stele
open Python

/-- _check_path, as a Boolean. -/
def isCorpusPath (path : PyStr) : Bool :=
  decide (path ≠ [] ∧ path.head? ≠ some (cp '/') ∧ cp '\\' ∉ path) &&
    !((components path).any isUnsafePart)

structure CorpusEntry where
  path : PyStr
  sha256 : PyStr
  size : ℕ
  path_ok : isCorpusPath path = true
  sha256_ok : isDigest sha256 = true

def CorpusEntry.toJson (e : CorpusEntry) : PyVal :=
  .dict [(.str (lit "path"),.str e.path),(.str (lit "sha256"),.str e.sha256),
    (.str (lit "size"),.int e.size)]

structure Excluded where
  path : PyStr
  why : PyStr

def Excluded.toJson (x : Excluded) : PyVal :=
  .dict [(.str (lit "path"),.str x.path),(.str (lit "why"),.str x.why)]

/-- stele.corpus v1: every document by path and content, and what was left out. -/
structure Corpus where
  name : PyStr
  entries : List CorpusEntry
  excluded : List Excluded
  name_ne : name ≠ []
  sorted : (entries.map CorpusEntry.path).Pairwise (· ≤ ·)
  unique : (entries.map CorpusEntry.path).Nodup
  excluded_sorted : (excluded.map Excluded.path).Pairwise (· ≤ ·)
  disjoint : ∀ x ∈ excluded, ∀ e ∈ entries, x.path ≠ e.path

namespace Corpus

def toPy (c : Corpus) : PyVal :=
  .dict [(.str (lit "schema"),.str (lit "stele.corpus")),(.str (lit "schema_version"),.int 1),
    (.str (lit "name"),.str c.name),(.str (lit "entries"),.list (c.entries.map CorpusEntry.toJson)),
    (.str (lit "excluded"),.list (c.excluded.map Excluded.toJson))]

/-- corpus_id. -/
def corpusId (H : Hasher) (c : Corpus) : Except Exc PyStr := (canonicalJson c.toPy).map H.hexdigest

/-- total_bytes. -/
def totalBytes (c : Corpus) : ℕ := (c.entries.map CorpusEntry.size).sum

end Corpus

/-- An observation's status. -/
inductive Status
  | sealed
  | failed
  | notApplicable
  | containmentError
  | error
  deriving DecidableEq

namespace Status

def value : Status → PyStr
  | .sealed => lit "sealed"
  | .failed => lit "failed"
  | .notApplicable => lit "not_applicable"
  | .containmentError => lit "containment_error"
  | .error => lit "error"

/-- All of them, sorted by value. -/
def all : List Status := [.containmentError,.error,.failed,.notApplicable,.sealed]

/-- One of the statuses of a run that ended outside the parser. -/
def isError (s : Status) : Bool := decide (s = .error ∨ s = .containmentError)

end Status

/-- What the report reads of a structured failure. -/
structure Failure where
  reason : PyStr
  detail : Option PyStr
  deriving DecidableEq

/-- What the report reads of a run's telemetry: numbers, or None. -/
structure Telemetry where
  wallTimeSeconds : PyVal
  cpuTimeSeconds : PyVal
  peakMemoryBytes : PyVal

/-- One line of the journal. -/
structure Observation where
  path : PyStr
  lane : PyStr
  status : Status
  backend : Option PyStr
  runId : Option PyStr
  recordId : Option PyStr
  artifactHash : Option PyStr
  failure : Option Failure
  telemetry : Option Telemetry
  detail : Option PyStr

/-- A lane as the journal's header names it. -/
structure Lane where
  name : PyStr
  backend : PyStr

def Lane.toJson (l : Lane) : PyVal :=
  .dict [(.str (lit "name"),.str l.name),(.str (lit "backend"),.str l.backend)]

/-- What Campaign writes into the header. -/
structure Header where
  corpusId : PyStr
  lanes : List Lane
  baseline : PyStr
  parser : NameVersion
  parserConfigDigest : PyStr

structure Journal where
  header : Header
  observations : List Observation

/-- by_doc, and `latest`: the last observation of each document and lane. -/
def latestObservations (observations : List Observation) : Dict (PyStr × PyStr) Observation :=
  observations.foldl (fun d o => d.set (o.path,o.lane) o) []

section ConfigDigest

/-- A value as a key; lists and dicts are not hashable. -/
def hashKey : PyVal → Except Exc PyKey
  | .none => .ok .none
  | .bool b => .ok (.bool b)
  | .int i => .ok (.int i)
  | .float f => .ok (.float f)
  | .str s => .ok (.str s)
  | _ => .error .typeError

/-- One element of the sequence that dict(...) is given: two things, the first a key. -/
def pairOf : PyVal → Except Exc (PyKey × PyVal)
  | .list [k,v] => (hashKey k).map fun k => (k,v)
  | .str [a,b] => .ok (.str [a],.str [b])
  | .dict [(k,_),(l,_)] => match l with
    | .str s => .ok (k,.str s)
    | _ => .error .typeError
  | .list _ | .str _ | .dict _ => .error .valueError
  | _ => .error .typeError

/-- d[k] = v under Python's equality of keys. -/
def setKey : List (PyKey × PyVal) → PyKey → PyVal → List (PyKey × PyVal)
  | [],k,v => [(k,v)]
  | (l,w) :: d,k,v => if l.eq k then (l,v) :: d else (l,w) :: setKey d k v

/-- dict(v). -/
def dictOf : PyVal → Except Exc (List (PyKey × PyVal))
  | .dict kvs => .ok kvs
  | .list xs => (xs.mapM pairOf).map fun ps => ps.foldl (fun d p => setKey d p.1 p.2) []
  | .str s => if s = [] then .ok [] else .error .valueError
  | _ => .error .typeError

/-- config_digest. -/
def configDigest (H : Hasher) (config : PyVal) : Except Exc PyStr := do
  let kvs ← dictOf config
  let data ← canonicalJson (.dict kvs)
  return H.hexdigest data

end ConfigDigest

end Stele
