import Stele.Extraction.Anchor
import Stele.Python.Percent

/-! Typed references to evidence, their canonical strings, and reading them back. -/
namespace Stele
open Python Urllib

/-- stele: -/
def refPrefix : PyStr := lit "stele:"

def isAlnum (c : CodePoint) : Bool :=
  decide (65 ≤ c.val ∧ c.val ≤ 90) || decide (97 ≤ c.val ∧ c.val ≤ 122) || isDigit c

def isRecordIdChar (c : CodePoint) : Bool := isAlnum c || decide (c ∈ [cp '.',cp '_',cp '-'])

/-- [A-Za-z0-9][A-Za-z0-9._-]*, in full. -/
def isRecordId : PyStr → Bool
  | [] => false
  | c :: s => isAlnum c && s.all isRecordIdChar

def refError {α : Type} (p : RefProblem) : Except Exc α := .error (.refFormat p)

/-- _split_at. -/
def splitAt (text what : PyStr) : Except Exc (PyStr × PyStr) :=
  match rpartition (cp '@') text with
  | none => refError (.noDigest what text)
  | some p => .ok p

/-- _uint: more digits than int() reads are a plain ValueError. -/
def uint (text what : PyStr) : Except Exc ℕ :=
  if isUint text = false then refError (.notUint what text)
  else match intDigits text with
    | none => .error .valueError
    | some n => .ok n

/-- A Source record by its source_id. -/
structure SourceRef where
  sourceId : PyStr
  sourceId_form : isDigest sourceId = true
  deriving DecidableEq

/-- The exact staged bytes a parser saw. -/
structure SnapshotRef where
  kind : SnapshotKind
  digest : PyStr
  digest_form : isDigest digest = true
  deriving DecidableEq

/-- A ledger record together with the output tree it sealed. -/
structure RecordRef where
  recordId : PyStr
  artifactHash : PyStr
  recordId_form : isRecordId recordId = true
  artifactHash_form : isDigest artifactHash = true
  deriving DecidableEq

/-- An Observation, by its record and the digest of its canonical form. -/
structure ObservationRef where
  recordId : PyStr
  digest : PyStr
  recordId_form : isRecordId recordId = true
  digest_form : isDigest digest = true
  deriving DecidableEq

/-- One span of one sealed artifact. -/
structure AnchorRef where
  record : RecordRef
  anchor : Extraction.Anchor
  deriving DecidableEq

/-- An event in the ledger's hash chain. -/
structure EventRef where
  seq : ℕ
  hash : PyStr
  seq_pos : 1 ≤ seq
  hash_form : isDigest hash = true
  deriving DecidableEq

def checkDigest (value what : PyStr) : Except Exc {s : PyStr // isDigest s = true} :=
  if h : isDigest value = true then .ok ⟨value,h⟩ else refError (.digest what value)

def checkRecordId (value : PyStr) : Except Exc {s : PyStr // isRecordId s = true} :=
  if h : isRecordId value = true then .ok ⟨value,h⟩ else refError (.recordId value)

def SourceRef.make (sourceId : PyStr) : Except Exc SourceRef := do
  let s ← checkDigest sourceId (lit "source_id")
  return ⟨s.1,s.2⟩

def SnapshotRef.make (kind digest : PyStr) : Except Exc SnapshotRef :=
  match SnapshotKind.ofValue kind with
  | none => refError (.snapshotKind kind)
  | some k => do
    let d ← checkDigest digest (lit "snapshot digest")
    return ⟨k,d.1,d.2⟩

def RecordRef.make (recordId artifactHash : PyStr) : Except Exc RecordRef := do
  let r ← checkRecordId recordId
  let h ← checkDigest artifactHash (lit "artifact_hash")
  return ⟨r.1,h.1,r.2,h.2⟩

def ObservationRef.make (recordId digest : PyStr) : Except Exc ObservationRef := do
  let r ← checkRecordId recordId
  let d ← checkDigest digest (lit "observation digest")
  return ⟨r.1,d.1,r.2,d.2⟩

def EventRef.make (seq : ℕ) (hash : PyStr) : Except Exc EventRef :=
  if h : 1 ≤ seq then do
    let d ← checkDigest hash (lit "event hash")
    return ⟨seq,d.1,h,d.2⟩
  else refError (.eventSeq seq)

/-- str(n) and quote(s) inside an f-string. -/
def formatInt (n : ℕ) : Except Exc PyStr :=
  match strInt n with
  | none => .error .valueError
  | some t => .ok t

def formatQuote (safe : Bytes) (s : PyStr) : Except Exc PyStr :=
  match quote safe s with
  | none => .error .unicodeEncodeError
  | some t => .ok t

/-- What follows "#" in the string of an anchor. -/
def Place.fragment : Place → Except Exc PyStr
  | .range start stop => do
    let a ← formatInt start
    let b ← formatInt stop
    return lit "bytes="++(a++cp '-' :: b)
  | .pointer p r => do
    let p ← formatQuote slash p
    let r ← formatQuote [] r
    return lit "pointer="++(p++lit "&render="++r)

def AnchorRef.str (a : AnchorRef) : Except Exc PyStr := do
  let fragment ← a.anchor.place.fragment
  let artifact ← formatQuote slash a.anchor.artifact
  return refPrefix++(lit "anchor"++lit ":"++
    ((a.record.recordId++cp '@' :: a.record.artifactHash)++lit "/"++
      (artifact++cp '@' :: a.anchor.digest)++lit "#"++fragment))

/-- Anchor(artifact=unquote(artifact), digest=digest, ...) of a parsed reference. -/
def makeAnchor (artifact digest : PyStr) (range : Option (PyVal × PyVal)) (pointer render : PyVal) :
    Except Exc Extraction.Anchor :=
  match Extraction.Anchor.make (.str (unquote artifact)) (.str digest) range pointer render with
  | .error p => refError (.anchor p)
  | .ok a => .ok a

/-- The anchor of a fragment. -/
def parseFragment (artifact digest fragment : PyStr) : Except Exc Extraction.Anchor :=
  match dropPrefix (lit "bytes=") fragment with
  | some r =>
    match partition (lit "-") r with
    | none => refError (.byteRange fragment)
    | some (start,stop) => do
      let a ← uint start (lit "range start")
      let b ← uint stop (lit "range end")
      makeAnchor artifact digest (some (.int a,.int b)) .none .none
  | none =>
    match dropPrefix (lit "pointer=") fragment with
    | some r =>
      match partition (lit "&render=") r with
      | none => refError (.noRender fragment)
      | some (p,render) =>
        makeAnchor artifact digest none (.str (unquote p)) (.str (unquote render))
    | none => refError (.fragment fragment)

def SourceRef.str (r : SourceRef) : PyStr := refPrefix++(lit "source"++lit ":"++r.sourceId)

def SnapshotRef.str (r : SnapshotRef) : PyStr :=
  refPrefix++(lit "snapshot"++lit ":"++(r.kind.value++lit ":"++r.digest))

def RecordRef.str (r : RecordRef) : PyStr :=
  refPrefix++(lit "record"++lit ":"++(r.recordId++cp '@' :: r.artifactHash))

def ObservationRef.str (r : ObservationRef) : PyStr :=
  refPrefix++(lit "observation"++lit ":"++(r.recordId++cp '@' :: r.digest))

def EventRef.str (r : EventRef) : Except Exc PyStr := do
  let n ← formatInt r.seq
  return refPrefix++(lit "event"++lit ":"++(n++cp '@' :: r.hash))

def SnapshotRef.parse (rest : PyStr) : Except Exc SnapshotRef :=
  match partition (lit ":") rest with
  | none => refError (.snapshotForm rest)
  | some (kind,digest) => SnapshotRef.make kind digest

def RecordRef.parse (rest : PyStr) : Except Exc RecordRef := do
  let p ← splitAt rest (lit "record")
  RecordRef.make p.1 p.2

def ObservationRef.parse (rest : PyStr) : Except Exc ObservationRef := do
  let p ← splitAt rest (lit "observation")
  ObservationRef.make p.1 p.2

def EventRef.parse (rest : PyStr) : Except Exc EventRef := do
  let p ← splitAt rest (lit "event")
  let n ← uint p.1 (lit "event seq")
  EventRef.make n p.2

def AnchorRef.parse (rest : PyStr) : Except Exc AnchorRef :=
  match partition (lit "#") rest with
  | none => refError (.noFragment rest)
  | some (location,fragment) =>
    match partition (lit "/") location with
    | none => refError (.noArtifact location)
    | some (recordPart,artifactPart) => do
      let p ← splitAt recordPart (lit "anchor record")
      let record ← RecordRef.make p.1 p.2
      let q ← splitAt artifactPart (lit "anchor artifact")
      let anchor ← parseFragment q.1 q.2 fragment
      return ⟨record,anchor⟩

inductive Ref
  | source (r : SourceRef)
  | snapshot (r : SnapshotRef)
  | record (r : RecordRef)
  | observation (r : ObservationRef)
  | anchor (r : AnchorRef)
  | event (r : EventRef)
  deriving DecidableEq

/-- str(ref). -/
def Ref.str : Ref → Except Exc PyStr
  | .source r => .ok r.str
  | .snapshot r => .ok r.str
  | .record r => .ok r.str
  | .observation r => .ok r.str
  | .anchor r => r.str
  | .event r => r.str

/-- _TYPES[kind]._parse(rest); `none` for a kind that it does not have. -/
def parseKind (kind rest : PyStr) : Option (Except Exc Ref) :=
  if kind = lit "source" then some ((SourceRef.make rest).map .source)
  else if kind = lit "snapshot" then some ((SnapshotRef.parse rest).map .snapshot)
  else if kind = lit "record" then some ((RecordRef.parse rest).map .record)
  else if kind = lit "observation" then some ((ObservationRef.parse rest).map .observation)
  else if kind = lit "anchor" then some ((AnchorRef.parse rest).map .anchor)
  else if kind = lit "event" then some ((EventRef.parse rest).map .event)
  else none

/-- parse_ref. -/
def parseRef (text : PyStr) : Except Exc Ref :=
  match dropPrefix refPrefix text with
  | none => refError (.notReference text)
  | some r =>
    match partition (lit ":") r with
    | none => refError (.unknownType text)
    | some (kind,rest) =>
      match parseKind kind rest with
      | none => refError (.unknownType text)
      | some parsed => do
        let ref ← parsed
        let back ← ref.str
        if back ≠ text then refError (.notCanonical text) else return ref

end Stele
