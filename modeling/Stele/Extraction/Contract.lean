import Stele.Extraction.Anchor
import Stele.Ledger.Models
import Stele.Python.Objects

/-! The canonical extraction contract: units in reading order, each with an anchor, and the
strict canonical JSON form. -/
namespace Stele
open Python

inductive Kind
  | heading
  | paragraph
  | list
  | table
  | code
  | formula
  | figure
  | caption
  | message
  | other
  deriving DecidableEq

namespace Kind

def value : Kind → PyStr
  | heading => lit "heading"
  | paragraph => lit "paragraph"
  | list => lit "list"
  | table => lit "table"
  | code => lit "code"
  | formula => lit "formula"
  | figure => lit "figure"
  | caption => lit "caption"
  | message => lit "message"
  | other => lit "other"

def all : List Kind := [heading,paragraph,list,table,code,formula,figure,caption,message,other]

/-- The kind of that name, if there is one. -/
def ofValue (s : PyStr) : Option Kind := all.find? fun k => decide (k.value = s)

lemma ofValue_value (k : Kind) : ofValue k.value = some k := by cases k <;> decide

end Kind

abbrev Bbox := PyFloat × PyFloat × PyFloat × PyFloat

/-- Unit: one piece of content. Its parent is checked by the Extraction. -/
structure ExtractionUnit where
  id : PyStr
  kind : Kind
  text : PyStr
  order : ℕ
  anchor : Extraction.Anchor
  page : Option ℕ
  bbox : Option Bbox
  level : Option ℕ
  parent : PyVal
  attributes : List (PyKey × PyVal)
  id_ne : id ≠ []
  text_ne : text ≠ []
  attributes_json : ∃ t, canonicalText (.dict attributes) = .ok t

def formatError {α : Type} (p : FormatProblem) : Except Exc α := .error (.extractionFormat p)

/-- None, or an int that is not negative. -/
def readNat : PyVal → Option (Option ℕ)
  | .none => some none
  | .int (.ofNat n) => some (some n)
  | _ => none

/-- float(v) of a number that is no bool; `none` for what is no such number. -/
def readNumber : PyVal → Option (Except Exc PyFloat)
  | .float f => some (.ok f)
  | .int i => some (match floatOfInt i with
    | none => .error .overflowError
    | some f => .ok f)
  | _ => none

/-- None, or four numbers. -/
def readBbox (id : PyStr) (v : PyVal) : Except Exc (Option Bbox) :=
  match v with
  | .none => .ok none
  | .list [a,b,c,d] | .tuple [a,b,c,d] =>
    match readNumber a,readNumber b,readNumber c,readNumber d with
    | some a,some b,some c,some d => do return some (← a,← b,← c,← d)
    | _,_,_,_ => formatError (.unit id (lit "bbox"))
  | _ => formatError (.unit id (lit "bbox"))

/-- The kind, which must be hashable to be looked up. -/
def readKind (id : PyStr) : PyVal → Except Exc Kind
  | .str s => match Kind.ofValue s with
    | none => formatError (.unit id (lit "kind"))
    | some k => .ok k
  | .list _ | .dict _ => .error .typeError
  | _ => formatError (.unit id (lit "kind"))

namespace ExtractionUnit

/-- Unit(...), its checks in order. -/
def make (id kind text order : PyVal) (anchor : Extraction.Anchor) (page bbox level parent attributes : PyVal) :
    Except Exc ExtractionUnit :=
  match id with
  | .str id =>
    if hid : id = [] then formatError .unitId
    else do
      let kind ← readKind id kind
      match text with
      | .str text =>
        if ht : text = [] then formatError (.unit id (lit "text"))
        else match order with
          | .int (.ofNat order) =>
            match readNat page with
            | none => formatError (.unit id (lit "page"))
            | some page => do
              let bbox ← readBbox id bbox
              match readNat level with
              | none => formatError (.unit id (lit "level"))
              | some level =>
                match attributes with
                | .dict kvs =>
                  match hc : canonicalText (.dict kvs) with
                  | .error _ => formatError (.unit id (lit "attributes"))
                  | .ok t =>
                    .ok ⟨id,kind,text,order,anchor,page,bbox,level,parent,kvs,hid,ht,⟨t,hc⟩⟩
                | _ => formatError (.unit id (lit "attributes"))
          | _ => formatError (.unit id (lit "order"))
      | _ => formatError (.unit id (lit "text"))
  | _ => formatError .unitId

def natPy : Option ℕ → PyVal
  | none => .none
  | some n => .int n

def bboxPy : Option Bbox → PyVal
  | none => .none
  | some (a,b,c,d) => .list [.float a,.float b,.float c,.float d]

end ExtractionUnit

/-- Anchor.to_json. -/
def Extraction.Anchor.toJson (a : Extraction.Anchor) : PyVal :=
  .dict ([(.str (lit "artifact"),.str a.artifact),(.str (lit "digest"),.str a.digest)]++
    match a.place with
    | .range start stop => [(.str (lit "range"),.list [.int start,.int stop])]
    | .pointer p r => [(.str (lit "pointer"),.str p),(.str (lit "render"),.str r)])

/-- set(obj) == fields. -/
def hasFields (kvs : List (PyKey × PyVal)) (fields : List PyStr) : Bool :=
  (kvs.all fun p => decide (p.1 ∈ fields.map PyKey.str)) &&
    fields.all fun f => (PyVal.find kvs (.str f)).isSome

/-- Anchor.from_json. -/
def Extraction.Anchor.fromJson : PyVal → Except Exc Extraction.Anchor
  | .dict kvs =>
    if kvs.all (fun p => decide (p.1 ∈ [lit "artifact",lit "digest",lit "range",lit "pointer",
        lit "render"].map PyKey.str)) = false then formatError .anchorFields
    else
      let make range := match Extraction.Anchor.make (getItem kvs (lit "artifact")) (getItem kvs (lit "digest"))
          range (getItem kvs (lit "pointer")) (getItem kvs (lit "render")) with
        | .error p => formatError p
        | .ok a => .ok a
      match getItem kvs (lit "range") with
      | .none => make none
      | .list [a,b] => make (some (a,b))
      | _ => formatError (.anchor (lit "range"))
  | _ => formatError .anchorObject

namespace ExtractionUnit

def fields : List PyStr :=
  [lit "id",lit "kind",lit "text",lit "order",lit "page",lit "bbox",lit "level",lit "parent",
    lit "anchor",lit "attributes"]

/-- to_json. -/
def toJson (u : ExtractionUnit) : PyVal :=
  .dict [(.str (lit "id"),.str u.id),(.str (lit "kind"),.str u.kind.value),
    (.str (lit "text"),.str u.text),(.str (lit "order"),.int u.order),
    (.str (lit "page"),natPy u.page),(.str (lit "bbox"),bboxPy u.bbox),
    (.str (lit "level"),natPy u.level),(.str (lit "parent"),u.parent),
    (.str (lit "anchor"),u.anchor.toJson),(.str (lit "attributes"),.dict u.attributes)]

/-- from_json. -/
def fromJson : PyVal → Except Exc ExtractionUnit
  | .dict kvs =>
    if hasFields kvs fields = false then formatError .unitFields
    else do
      let anchor ← Extraction.Anchor.fromJson (getItem kvs (lit "anchor"))
      make (getItem kvs (lit "id")) (getItem kvs (lit "kind")) (getItem kvs (lit "text"))
        (getItem kvs (lit "order")) anchor (getItem kvs (lit "page")) (getItem kvs (lit "bbox"))
        (getItem kvs (lit "level")) (getItem kvs (lit "parent")) (getItem kvs (lit "attributes"))
  | _ => formatError .unitFields

/-- unit.parent is None, or the id of a unit that comes earlier. -/
def parentOk (units : List ExtractionUnit) (u : ExtractionUnit) : Bool :=
  match u.parent with
  | .none => true
  | .str p => units.any fun v => decide (v.id = p ∧ v.order < u.order)
  | _ => false

end ExtractionUnit

/-- The {name, version} of a parser or a normalizer. -/
structure NameVersion where
  name : PyStr
  version : PyStr
  deriving DecidableEq

namespace NameVersion

def toPy (n : NameVersion) : PyVal :=
  .dict [(.str (lit "name"),.str n.name),(.str (lit "version"),.str n.version)]

/-- Exactly a name and a version, both strings. -/
def read : PyVal → Option NameVersion
  | .dict kvs =>
    if hasFields kvs [lit "name",lit "version"] then
      match getItem kvs (lit "name"),getItem kvs (lit "version") with
      | .str n,.str v => some ⟨n,v⟩
      | _,_ => none
    else none
  | _ => none

end NameVersion

structure Extraction where
  recordId : PyStr
  artifactHash : PyStr
  sourceHash : Option PyStr
  parser : NameVersion
  normalizer : NameVersion
  units : List ExtractionUnit
  recordId_ne : recordId ≠ []
  artifactHash_form : isDigest artifactHash = true
  sourceHash_form : ∀ s ∈ sourceHash, isDigest s = true
  ids : (units.map ExtractionUnit.id).Nodup
  orders : units.map ExtractionUnit.order = List.range units.length
  parents : ∀ u ∈ units, u.parentOk units = true

namespace Extraction

/-- Extraction(...), its checks in order. -/
def make (recordId artifactHash sourceHash parser normalizer : PyVal) (units : List ExtractionUnit) :
    Except Exc Extraction :=
  match recordId with
  | .str recordId =>
    if hr : recordId = [] then formatError (.extraction (lit "record_id"))
    else match artifactHash with
      | .str artifactHash =>
        if ha : isDigest artifactHash = true then
          match optionStr sourceHash with
          | none => formatError (.extraction (lit "source_hash"))
          | some sourceHash =>
            if hs : ∀ s ∈ sourceHash, isDigest s = true then
              match NameVersion.read parser with
              | none => formatError (.extraction (lit "parser"))
              | some parser =>
                match NameVersion.read normalizer with
                | none => formatError (.extraction (lit "normalizer"))
                | some normalizer =>
                  if hi : (units.map ExtractionUnit.id).Nodup then
                    if ho : units.map ExtractionUnit.order = List.range units.length then
                      if hp : ∀ u ∈ units, u.parentOk units = true then
                        .ok ⟨recordId,artifactHash,sourceHash,parser,normalizer,units,hr,ha,hs,hi,ho,hp⟩
                      else match units.find? fun u => !u.parentOk units with
                        | some u => formatError (.parent u.id)
                        | none => formatError .readingOrder
                    else formatError .readingOrder
                  else formatError .idsNotUnique
            else formatError (.extraction (lit "source_hash"))
        else formatError (.extraction (lit "artifact_hash"))
      | _ => formatError (.extraction (lit "artifact_hash"))
  | _ => formatError (.extraction (lit "record_id"))

def schemaName : PyVal := .str (lit "stele.extraction")
def schemaVersion : PyVal := .int 1

def fields : List PyStr :=
  [lit "schema",lit "schema_version",lit "record_id",lit "artifact_hash",lit "source_hash",
    lit "parser",lit "normalizer",lit "units"]

/-- What to_canonical writes. -/
def toPy (e : Extraction) : PyVal :=
  .dict [(.str (lit "schema"),schemaName),(.str (lit "schema_version"),schemaVersion),
    (.str (lit "record_id"),.str e.recordId),(.str (lit "artifact_hash"),.str e.artifactHash),
    (.str (lit "source_hash"),RunConditions.optionPy .str e.sourceHash),
    (.str (lit "parser"),e.parser.toPy),(.str (lit "normalizer"),e.normalizer.toPy),
    (.str (lit "units"),.list (e.units.map ExtractionUnit.toJson))]

/-- to_canonical. -/
def toCanonical (e : Extraction) : Except Exc Bytes := canonicalJson e.toPy

/-- The Extraction of a parsed object. -/
def ofObject (kvs : List (PyKey × PyVal)) : Except Exc Extraction :=
  if hasFields kvs fields = false then formatError .extractionFields
  else if (getItem kvs (lit "schema")).pyEq schemaName = false ∨
      (getItem kvs (lit "schema_version")).pyEq schemaVersion = false then formatError .schema
  else match getItem kvs (lit "units") with
    | .list us => do
      let units ← us.mapM ExtractionUnit.fromJson
      make (getItem kvs (lit "record_id")) (getItem kvs (lit "artifact_hash"))
        (getItem kvs (lit "source_hash")) (getItem kvs (lit "parser"))
        (getItem kvs (lit "normalizer")) units
    | _ => formatError .unitsList

/-- from_canonical. -/
def fromCanonical (data : Bytes) : Except Exc Extraction :=
  match (decode data).bind loads with
  | none => formatError .notJson
  | some (.dict kvs) => do
    let e ← ofObject kvs
    let back ← e.toCanonical
    if back ≠ data then formatError .notCanonical else return e
  | some _ => formatError .extractionFields

end Extraction

end Stele
