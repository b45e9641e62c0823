import Stele.Adapters.Message
import Stele.Contracts.SealedBundle
import Stele.Extraction.Contract
import Stele.Python.JsonBytes

/-! The trusted resolver: what an anchor says, according to the sealed bytes. The resolver
keeps the last artifact that it read. -/
namespace Stele
open Python

variable (H : Hasher) (U : Unicode)

def resolutionError {α : Type} (p : ResolutionProblem) : Except Exc α := .error (.resolution p)

/-- CHATGPT_RENDERER. -/
def chatgptRenderer : PyStr := lit "chatgpt-message"

/-- What runs into the interpreter's recursion limit: the bytes that json.loads and the values that
str() does not get to the end of. -/
structure Limits where
  loads : Bytes → Bool
  str : PyVal → Bool

def Limits.none : Limits := ⟨fun _ => false,fun _ => false⟩

/-- RENDERERS.get(name). -/
def renderer (lim : Limits) (name : PyStr) : Option (PyVal → Except Exc PyStr) :=
  if name = lit "json-string" then some fun
    | .str s => .ok s
    | _ => resolutionError (.renderer name)
  else if name = chatgptRenderer then some fun
    | .dict message => renderMessageWithin U lim.str message
    | _ => resolutionError (.renderer name)
  else none

/-- raw.replace("~1", "/").replace("~0", "~"). -/
def unescapeToken (raw : PyStr) : PyStr :=
  replace (lit "~0") (lit "~") (replace (lit "~1") (lit "/") raw)

/-- One token of a pointer. -/
def descend (pointer : PyStr) (value : PyVal) (raw : PyStr) : Except Exc PyVal :=
  let token := unescapeToken raw
  match value with
  | .dict kvs =>
    match PyVal.find kvs (.str token) with
    | none => resolutionError (.noMember pointer token)
    | some v => .ok v
  | .list xs =>
    if isUint token = false then resolutionError (.notIndex pointer token)
    else match intDigits token with
      | none => .error .valueError
      | some i =>
        match xs[i]? with
        | none => resolutionError (.outOfRange pointer i)
        | some v => .ok v
  | _ => resolutionError (.scalar pointer token)

/-- resolve_pointer. -/
def resolvePointer (doc : PyVal) (pointer : PyStr) : Except Exc PyVal :=
  if pointer = [] then .ok doc
  else (List.splitOn (cp '/') pointer.tail).foldlM (descend pointer) doc

/-- _ArtifactCache: the last artifact read, and parsed. -/
structure ArtifactCache where
  digest : Option PyStr
  data : Bytes
  parsed : PyVal
  hasParsed : Bool

def ArtifactCache.fresh : ArtifactCache := ⟨none,[],.none,false⟩

namespace BundleResolver

variable (b : SealedBundle)

/-- _bytes. -/
def bytes (a : Extraction.Anchor) (c : ArtifactCache) : Except Exc Bytes × ArtifactCache :=
  match Dict.get b.manifest a.artifact with
  | none => (resolutionError (.notArtifact a.artifact b.recordId),c)
  | some stored =>
    if stored ≠ a.digest then (resolutionError (.notSealed a.artifact a.digest stored),c)
    else if c.digest = some stored then (.ok c.data,c)
    else match b.read H a.artifact with
      | .error e => (if e.isArchiveError then resolutionError (.unreadable a.artifact) else .error e,c)
      | .ok data => (.ok data,⟨some stored,data,.none,false⟩)

/-- _json. -/
def json (lim : Limits) (a : Extraction.Anchor) (c : ArtifactCache) : Except Exc PyVal × ArtifactCache :=
  match bytes H b a c with
  | (.error e,c) => (.error e,c)
  | (.ok data,c) =>
    if c.hasParsed then (.ok c.parsed,c)
    else if lim.loads data then (.error .recursionError,c)
    else match loadsBytes data with
      | none => (resolutionError (.notJson a.artifact),c)
      | some v => (.ok v,{c with parsed := v, hasParsed := true})

/-- resolve, in an interpreter with these limits. -/
def resolveWithin (lim : Limits) (a : Extraction.Anchor) (c : ArtifactCache) : Except Exc PyStr × ArtifactCache :=
  match a.place with
  | .range start stop =>
    match bytes H b a c with
    | (.error e,c) => (.error e,c)
    | (.ok data,c) =>
      if data.length < stop then (resolutionError (.pastEnd a.artifact start stop),c)
      else match decode ((data.take stop).drop start) with
        | none => (resolutionError (.notUtf8 a.artifact start stop),c)
        | some s => (.ok s,c)
  | .pointer p r =>
    match renderer U lim r with
    | none => (resolutionError (.unknownRenderer r),c)
    | some render =>
      match json H b lim a c with
      | (.error e,c) => (.error e,c)
      | (.ok doc,c) => (resolvePointer doc p >>= render,c)

end BundleResolver

/-- MARKDOWN_PARSERS. -/
def markdownParsers : List PyStr := [lit "mineru",lit "marker",lit "docling"]

inductive Normalizer
  | markdown
  | chatgpt
  deriving DecidableEq

/-- normalizer_for. -/
def normalizerFor (b : SealedBundle) : Except Exc Normalizer :=
  match b.parser with
  | none => .error (.normalize (.noNormalizer none))
  | some p =>
    if p.name ∈ markdownParsers then .ok .markdown
    else if p.name = splitter then .ok .chatgpt
    else .error (.normalize (.noNormalizer (some p.name)))

def Normalizer.nameVersion : Normalizer → NameVersion
  | .markdown => ⟨lit "markdown",lit "1"⟩
  | .chatgpt => ⟨lit "chatgpt",lit "1"⟩

/-- normalizer_id. -/
def normalizerId (b : SealedBundle) : Except Exc NameVersion :=
  (normalizerFor b).map Normalizer.nameVersion

/-- parser_id. -/
def parserId (b : SealedBundle) : NameVersion :=
  match b.parser with
  | none => ⟨lit "unknown",lit "unknown"⟩
  | some p => ⟨p.name,p.version⟩

/-- What verify() reports, by what it names. -/
inductive VerifyProblem
  | recordId
  | artifactHash
  | sourceHash
  | parser
  | noNormalizer
  | normalizer
  | unit (id : PyStr) (p : ResolutionProblem)
  | text (id : PyStr)
  deriving DecidableEq

namespace BundleResolver

variable (b : SealedBundle)

/-- The names that the extraction has to share with the bundle. -/
def identityProblems (e : Extraction) : List VerifyProblem :=
  (if e.recordId = b.recordId then [] else [.recordId])++
  (if e.artifactHash = b.artifactHash then [] else [.artifactHash])++
  (if e.sourceHash = b.sourceHash then [] else [.sourceHash])++
  (if e.parser = parserId b then [] else [.parser])++
  match normalizerId b with
  | .error _ => [.noNormalizer]
  | .ok expected => if e.normalizer = expected then [] else [.normalizer]

/-- The loop of verify over the units. -/
def unitProblems (lim : Limits) :
    List ExtractionUnit → ArtifactCache → Except Exc (List VerifyProblem) × ArtifactCache
  | [],c => (.ok [],c)
  | u :: us,c =>
    match resolveWithin H U b lim u.anchor c with
    | (.error (.resolution p),c) =>
      ((unitProblems lim us c).1.map fun ps => .unit u.id p :: ps,(unitProblems lim us c).2)
    | (.error e,c) => (.error e,c)
    | (.ok t,c) =>
      if t = u.text then unitProblems lim us c
      else ((unitProblems lim us c).1.map fun ps => .text u.id :: ps,(unitProblems lim us c).2)

/-- verify, in an interpreter with these limits. -/
def verifyWithin (lim : Limits) (e : Extraction) (c : ArtifactCache) :
    Except Exc (List VerifyProblem) × ArtifactCache :=
  if identityProblems b e = [] then unitProblems H U b lim e.units c else (.ok (identityProblems b e),c)

/-- verify, without a recursion limit. -/
def verify (e : Extraction) (c : ArtifactCache) : Except Exc (List VerifyProblem) × ArtifactCache :=
  verifyWithin H U b .none e c

end BundleResolver

end Stele
