import Stele.Archive.Store

/-! Snapshot and Source records: their canonical bytes, the strict parser, and the
archive's metadata directories. What is written is read back. -/
namespace Stele
open Python

/-- The exact staged bytes of a source. -/
@[ext] structure Snapshot where
  kind : SnapshotKind
  digest : PyStr
  size : ℕ
  fileCount : ℕ
  digest_form : isDigest digest = true
  one_file : kind = .file → fileCount = 1

instance : DecidableEq Snapshot := fun a b =>
  decidable_of_iff (a.kind = b.kind ∧ a.digest = b.digest ∧ a.size = b.size ∧ a.fileCount = b.fileCount)
    Snapshot.ext_iff.symm

/-- Where material came from. -/
@[ext] structure Source where
  locator : PyStr
  nonempty : locator ≠ []

instance : DecidableEq Source := fun a b => decidable_of_iff (a.locator = b.locator) Source.ext_iff.symm

def schemaVersion : ℤ := 1

def snapshotSchema : PyStr := lit "stele.snapshot"
def sourceSchema : PyStr := lit "stele.source"

namespace Snapshot

def toPy (s : Snapshot) : PyVal :=
  .dict [(.str (lit "schema"),.str snapshotSchema),(.str (lit "schema_version"),.int schemaVersion),
    (.str (lit "kind"),.str s.kind.value),(.str (lit "digest"),.str s.digest),
    (.str (lit "size"),.int s.size),(.str (lit "file_count"),.int s.fileCount)]

def toCanonical (s : Snapshot) : Except Exc Bytes := canonicalJson s.toPy

/-- Snapshot(kind=..., digest=..., size=..., file_count=...); `none` is ValueError. -/
def make (kind digest size fileCount : PyVal) : Option Snapshot :=
  match kind,digest,size,fileCount with
  | .str k,.str d,.int (.ofNat n),.int (.ofNat c) =>
    match SnapshotKind.ofValue k with
    | none => none
    | some k =>
      if h : isDigest d = true ∧ (k = .file → c = 1) then some ⟨k,d,n,c,h.1,h.2⟩ else none
  | _,_,_,_ => none

end Snapshot

namespace Source

def toPy (s : Source) : PyVal :=
  .dict [(.str (lit "schema"),.str sourceSchema),(.str (lit "schema_version"),.int schemaVersion),
    (.str (lit "locator"),.str s.locator)]

def toCanonical (s : Source) : Except Exc Bytes := canonicalJson s.toPy

/-- source_id: the digest of the canonical bytes. -/
def sourceId (H : Hasher) (s : Source) : Except Exc PyStr := s.toCanonical.map H.hexdigest

def make : PyVal → Option Source
  | .str l => if h : l ≠ [] then some ⟨l,h⟩ else none
  | _ => none

end Source

/-- d.get(key) of a dict with string keys, None when it is absent. -/
def getStr (kvs : List (PyKey × PyVal)) (key : String) : PyVal :=
  (PyVal.find kvs (.str (lit key))).getD .none

/-- _parse: a canonical record of the schema with exactly these fields. -/
def parseRecord (data : Bytes) (schema : PyStr) (fields : List String) :
    Except Exc (List (PyKey × PyVal)) :=
  match (decode data).bind loads with
  | some (.dict kvs) =>
    if (getStr kvs "schema").pyEq (.str schema) = false then .error .recordFormat
    else if (getStr kvs "schema_version").pyEq (.int schemaVersion) = false then
      .error .recordFormat
    else if kvs.length ≠ fields.length+2 ∨
        (fields.all fun f => (PyVal.find kvs (.str (lit f))).isSome) = false then
      .error .recordFormat
    else match canonicalJson (.dict kvs) with
      | .error e => .error e
      | .ok b => if b = data then .ok kvs else .error .recordFormat
  | _ => .error .recordFormat

/-- Snapshot.from_canonical. -/
def Snapshot.fromCanonical (data : Bytes) : Except Exc Snapshot :=
  match parseRecord data snapshotSchema ["kind","digest","size","file_count"] with
  | .error e => .error e
  | .ok kvs =>
    match make (getStr kvs "kind") (getStr kvs "digest") (getStr kvs "size")
      (getStr kvs "file_count") with
    | none => .error .recordFormat
    | some s => .ok s

/-- Source.from_canonical. -/
def Source.fromCanonical (data : Bytes) : Except Exc Source :=
  match parseRecord data sourceSchema ["locator"] with
  | .error e => .error e
  | .ok kvs =>
    match make (getStr kvs "locator") with
    | none => .error .recordFormat
    | some s => .ok s

namespace Archive

/-- has_snapshot. -/
def hasSnapshot (a : Archive) (digest : PyStr) (kind : SnapshotKind) : Except Exc Bool :=
  if isDigest digest then .ok (a.snapshots kind digest).isSome else .error (.invalidDigest digest)

/-- get_snapshot. -/
def getSnapshot (a : Archive) (digest : PyStr) (kind : SnapshotKind) : Except Exc Snapshot :=
  if isDigest digest = false then .error (.invalidDigest digest)
  else match a.snapshots kind digest with
    | none => .error (.missingObject digest)
    | some data =>
      match Snapshot.fromCanonical data with
      | .error .recordFormat => .error (.corruptObject digest)
      | .error e => .error e
      | .ok s =>
        if s.kind = kind ∧ s.digest = digest then .ok s else .error (.corruptObject digest)

/-- _verified_size. -/
def verifiedSize (H : Hasher) (a : Archive) (digest : PyStr) : Except Exc ℕ :=
  (a.read H digest).map List.length

/-- _check_snapshot_content: every blob the snapshot covers is re-hashed. -/
def checkSnapshotContent (H : Hasher) (a : Archive) (s : Snapshot) : Except Exc Unit :=
  match s.kind with
  | .file => do
    let n ← a.verifiedSize H s.digest
    if n = s.size then .ok () else .error (.corruptObject s.digest)
  | .tree => do
    let tree ← a.readTree H s.digest
    let sizes ← tree.mapM fun p => a.verifiedSize H p.2
    if sizes.sum = s.size ∧ tree.length = s.fileCount then .ok () else .error (.corruptObject s.digest)

/-- put_source: a record already stored must be the same. -/
def putSource (H : Hasher) (s : Source) (a : Archive) : Except Exc PyStr × Archive :=
  match s.toCanonical with
  | .error e => (.error e,a)
  | .ok data =>
    match a.sources (H.hexdigest data) with
    | some stored =>
      if stored = data then (.ok (H.hexdigest data),a)
      else (.error (.corruptObject (H.hexdigest data)),a)
    | none => (.ok (H.hexdigest data),
        {a with sources := fun d => if d = H.hexdigest data then some data else a.sources d})

/-- get_source. -/
def getSource (H : Hasher) (a : Archive) (sourceId : PyStr) : Except Exc Source :=
  if isDigest sourceId = false then .error (.invalidDigest sourceId)
  else match a.sources sourceId with
    | none => .error (.missingObject sourceId)
    | some data =>
      if H.hexdigest data ≠ sourceId then .error (.corruptObject sourceId)
      else match Source.fromCanonical data with
        | .error .recordFormat => .error (.corruptObject sourceId)
        | r => r

end Archive

section RoundTrip

variable {data : Bytes}

lemma loads_canonicalJson {v : PyVal} (h : canonicalJson v = .ok data) :
    (decode data).bind loads = some (canonicalImage v) := by
  obtain ⟨t,ht,rfl⟩ := canonicalJson_ok.mp h
  rw [decode_utf8 (canonicalText_ok.mp ht).2]
  exact loads_canonicalText ht

lemma canonicalJson_image {v : PyVal} (h : v.IsJson) :
    canonicalJson (canonicalImage v) = canonicalJson v := by
  rw [canonicalJson,canonicalJson,canonicalText,canonicalText,dumps_toJson h]

lemma pyEq_schemaVersion : (PyVal.int schemaVersion).pyEq (.int schemaVersion) = true := by
  simp [PyVal.pyEq,PyVal.num]

/-- A record of the schema with exactly the fields passes the parser. -/
lemma parseRecord_canonicalJson {v : PyVal} {kvs : List (PyKey × PyVal)} (schema : PyStr)
    (fields : List String) (h : canonicalJson v = .ok data) (hi : canonicalImage v = .dict kvs)
    (hj : v.IsJson) (hs : getStr kvs "schema" = .str schema)
    (hv : (getStr kvs "schema_version").pyEq (.int schemaVersion) = true)
    (hl : kvs.length = fields.length+2)
    (hf : ∀ f ∈ fields, (PyVal.find kvs (.str (lit f))).isSome = true) :
    parseRecord data schema fields = .ok kvs := by
  have hc : canonicalJson (.dict kvs) = canonicalJson v := by
    rw [← hi,canonicalJson_image hj]
  have hs' : (getStr kvs "schema").pyEq (.str schema) = true := by
    rw [hs]
    simp [PyVal.pyEq]
  have hf' : (fields.all fun f => (PyVal.find kvs (.str (lit f))).isSome) = true :=
    List.all_eq_true.mpr hf
  rw [parseRecord,loads_canonicalJson h,hi]
  simp only [hs',hv,hl,hf',hc,h,Bool.true_eq_false,if_false,ne_eq,not_true_eq_false,or_self,if_true]

lemma Source.isJson (s : Source) : s.toPy.IsJson := by
  simp [toPy,PyVal.IsJson,PyVal.IsJsonItems,lit]

/-- Source.from_canonical undoes to_canonical. -/
theorem Source.fromCanonical_toCanonical {s : Source} (h : s.toCanonical = .ok data) :
    fromCanonical data = .ok s := by
  have hi : canonicalImage s.toPy = .dict [(.str (lit "locator"),.str s.locator),
      (.str (lit "schema"),.str sourceSchema),(.str (lit "schema_version"),.int schemaVersion)] := rfl
  have hp := parseRecord_canonicalJson sourceSchema ["locator"] h hi s.isJson rfl pyEq_schemaVersion
    rfl (by simp [PyVal.find])
  have hl : getStr [(.str (lit "locator"),.str s.locator),(.str (lit "schema"),.str sourceSchema),
      (.str (lit "schema_version"),.int schemaVersion)] "locator" = .str s.locator := rfl
  rw [fromCanonical,hp]
  simp only [hl,make,dif_pos s.nonempty]

lemma SnapshotKind.ofValue_value (k : SnapshotKind) : ofValue k.value = some k := by
  cases k <;> rfl

lemma Snapshot.make_self (s : Snapshot) :
    make (.str s.kind.value) (.str s.digest) (.int s.size) (.int s.fileCount) = some s := by
  simp only [make,SnapshotKind.ofValue_value]
  exact dif_pos ⟨s.digest_form,s.one_file⟩

lemma Snapshot.isJson (s : Snapshot) : s.toPy.IsJson := by
  simp [toPy,PyVal.IsJson,PyVal.IsJsonItems,lit]

/-- Snapshot.from_canonical undoes to_canonical. -/
theorem Snapshot.fromCanonical_toCanonical {s : Snapshot} (h : s.toCanonical = .ok data) :
    fromCanonical data = .ok s := by
  have hi : canonicalImage s.toPy = .dict [(.str (lit "digest"),.str s.digest),
      (.str (lit "file_count"),.int s.fileCount),(.str (lit "kind"),.str s.kind.value),
      (.str (lit "schema"),.str snapshotSchema),(.str (lit "schema_version"),.int schemaVersion),
      (.str (lit "size"),.int s.size)] := rfl
  have hp := parseRecord_canonicalJson snapshotSchema
    ["kind","digest","size","file_count"] h hi s.isJson rfl pyEq_schemaVersion rfl
    (by simp [PyVal.find,lit])
  rw [fromCanonical,hp]
  change (match make (.str s.kind.value) (.str s.digest) (.int s.size) (.int s.fileCount) with
    | none => Except.error Exc.recordFormat
    | some s => .ok s) = .ok s
  rw [make_self]

end RoundTrip

end Stele
