import Stele.Python.Json

/-! The exceptions of the modelled code, with the values their messages name, and the
except clauses that tell them apart. -/
namespace Stele
open Python

/-- What an INSERT or UPDATE can violate. -/
inductive Constraint
  | primaryKey
  | unique
  | notNull
  | check
  | foreignKey
  | trigger
  deriving DecidableEq

/-- What validate_chunks refuses: the message's chunk index and id. -/
inductive ChunkProblem
  /- "adapter returned no chunks — empty output is not permitted" -/
  | noChunks
  /- "chunk[{i}].chunk_id is empty" -/
  | emptyId (i : ℕ)
  /- "duplicate chunk_id: {chunk_id!r}" -/
  | duplicateId (chunk_id : PyStr)
  /- "chunk[{i}] ({chunk_id!r}): ..." -/
  | emptyContent (i : ℕ) (chunk_id : PyStr)
  | emptyHash (i : ℕ) (chunk_id : PyStr)
  | hashMismatch (i : ℕ) (chunk_id expected got : PyStr)
  | tokenCountType (i : ℕ) (chunk_id : PyStr)
  | tokenCountNegative (i : ℕ) (chunk_id : PyStr)
  /- "...: metadata must be a dict", "is not JSON-serializable", "does not survive a JSON
  round trip unchanged" -/
  | metadataType (i : ℕ) (chunk_id : PyStr)
  | metadataNotJson (i : ℕ) (chunk_id : PyStr)
  | metadataChanged (i : ℕ) (chunk_id : PyStr)
  deriving DecidableEq

/-- What ExtractionFormatError says, with the field it names. -/
inductive FormatProblem
  /- "anchor.artifact must be a non-empty path", "anchor.digest is not a SHA-256 digest" -/
  | anchor (field : PyStr)
  /- "an anchor has exactly one of range or pointer" -/
  | oneOfRangeOrPointer
  /- "a range anchor has no renderer", "a pointer anchor names its renderer" -/
  | rangeRenderer
  | pointerRenderer
  /- "anchor is not an object", "unknown anchor fields" -/
  | anchorObject
  | anchorFields
  /- "unit.id must be a non-empty string" -/
  | unitId
  /- "unit {id}: unknown kind" and its kin -/
  | unit (id field : PyStr)
  /- "unit fields must be exactly ..." -/
  | unitFields
  /- "record_id must be a non-empty string" and its kin -/
  | extraction (field : PyStr)
  /- "unit ids are not unique", "units must be in reading order 0, 1, 2, ...",
  "unit {id}: parent {parent!r} is not an earlier unit" -/
  | idsNotUnique
  | readingOrder
  | parent (id : PyStr)
  /- "not UTF-8 JSON", "extraction fields must be exactly ...", "expected stele.extraction v1",
  "units must be a list", "extraction is not in canonical form" -/
  | notJson
  | extractionFields
  | schema
  | unitsList
  | notCanonical
  deriving DecidableEq

/-- What RefFormatError says. -/
inductive RefProblem
  /- "not a record id: {value!r}" -/
  | recordId (value : PyStr)
  /- "{what} is not a SHA-256 hex digest: {value!r}" -/
  | digest (what value : PyStr)
  /- "{what}: expected <...>@<sha256>, got {text!r}" -/
  | noDigest (what text : PyStr)
  /- "{what} is not a non-negative integer: {text!r}" -/
  | notUint (what text : PyStr)
  /- "not a snapshot kind: {kind!r}", "snapshot: expected <kind>:<sha256>, got {rest!r}" -/
  | snapshotKind (kind : PyStr)
  | snapshotForm (rest : PyStr)
  /- "anchor: missing #bytes= or #pointer= in {rest!r}", "anchor: expected
  <record>/<artifact>, got {location!r}" -/
  | noFragment (rest : PyStr)
  | noArtifact (location : PyStr)
  /- "anchor: bad byte range", "anchor: pointer without &render=", "anchor: unknown fragment" -/
  | byteRange (fragment : PyStr)
  | noRender (fragment : PyStr)
  | fragment (fragment : PyStr)
  /- "anchor: {exc}" -/
  | anchor (p : FormatProblem)
  /- "event seq must be a positive int, got {seq!r}" -/
  | eventSeq (seq : ℕ)
  /- "not a Stele reference", "unknown reference type in {text!r}", "not the canonical form" -/
  | notReference (text : PyStr)
  | unknownType (text : PyStr)
  | notCanonical (text : PyStr)
  deriving DecidableEq

/-- What ResolutionError says of an anchor. -/
inductive ResolutionProblem
  /- "{artifact!r} is not an artifact of record {record_id}", "{artifact!r}: anchor digest
  {digest} is not the sealed {sealed}", "{artifact!r}: evidence unreadable: {exc}",
  "{artifact!r} is not JSON: {exc}" -/
  | notArtifact (artifact record_id : PyStr)
  | notSealed (artifact digest sealedDigest : PyStr)
  | unreadable (artifact : PyStr)
  | notJson (artifact : PyStr)
  /- "{artifact!r}: range {start}-{end} is past the end", "bytes {start}-{end} are not UTF-8" -/
  | pastEnd (artifact : PyStr) (start stop : ℕ)
  | notUtf8 (artifact : PyStr) (start stop : ℕ)
  /- "unknown renderer {render!r}", "{render} renderer: value is not ..." -/
  | unknownRenderer (render : PyStr)
  | renderer (render : PyStr)
  /- "pointer {pointer!r}: no member {token!r}", "{token!r} is not an array index", "index
  {index} is out of range", "cannot descend into a scalar at {token!r}" -/
  | noMember (pointer token : PyStr)
  | notIndex (pointer token : PyStr)
  | outOfRange (pointer : PyStr) (index : ℕ)
  | scalar (pointer token : PyStr)
  deriving DecidableEq

/-- What NormalizeError says. -/
inductive NormalizeProblem
  /- "no extraction normalizer for parser {name!r}" -/
  | noNormalizer (name : Option PyStr)
  /- "stele-parser.json is malformed", "outputs.markdown is not a path", "names {path!r}, which
  is not in the bundle", "bundle has no Markdown output" -/
  | malformedManifest
  | markdownNotPath
  | markdownNotInBundle (path : PyStr)
  | noMarkdown
  /- "{path} bytes {start}-{end} are not UTF-8: {exc}" -/
  | notUtf8 (path : PyStr) (start stop : ℕ)
  | format (p : FormatProblem)
  deriving DecidableEq

/-- What MalformedExportError says. -/
inductive ExportProblem
  /- "expected a chatgpt-export-split bundle, got one from {name}", "bundle has no index.jsonl" -/
  | parser (name : PyStr)
  | noIndex
  /- "index.jsonl line {number} is malformed", "index.jsonl names {path!r}, which is not in the
  bundle" -/
  | line (number : ℕ)
  | notInBundle
  /- "{path} is not JSON", "{path} is not a JSON object" -/
  | notJson (path : PyStr)
  | notObject (path : PyStr)
  /- "{conv_id}: mapping is not an object", "node {node_id!r} has children that are not a list",
  "current_node {current!r} is not in the mapping", "node {node_id!r} is reached twice", "{n}
  node(s) are unreachable" -/
  | mapping (conv_id : PyStr)
  | children (conv_id node_id : PyStr)
  | currentNode (conv_id : PyStr)
  | reachedTwice (conv_id node_id : PyStr)
  | unreachable (conv_id : PyStr) (n : ℕ)
  deriving DecidableEq

inductive Exc
  /- builtins -/
  | typeError
  | valueError
  | keyError
  | indexError
  | attributeError
  | overflowError
  | unicodeEncodeError
  | fileNotFoundError
  | permissionError
  | osError
  | importError
  | recursionError
  /- sqlite3.IntegrityError, and sqlite3.OperationalError: "Could not decode to UTF-8" -/
  | integrityError (c : Constraint)
  | operationalError
  /- stele.archive: "no blob {digest}", "blob {digest} is corrupt", a bad digest, a bad record -/
  | missingObject (digest : PyStr)
  | corruptObject (digest : PyStr)
  | invalidDigest (digest : PyStr)
  | recordFormat
  /- "content hashes to {digest}, expected {expected_digest}", "conflicting record already stored
  at {existing}": both IntegrityError -/
  | contentMismatch (digest expected : PyStr)
  | conflictingRecord (key : PyStr)
  /- stele.ledger.hashing -/
  | unsafeFile
  /- "run {run_id} already has record {record_id} (state={state})" -/
  | duplicateRun (run_id record_id state : PyStr)
  /- "no record with id={record_id}" -/
  | recordNotFound (record_id : PyStr)
  /- "cannot {action} record {record_id}: state is {state}" and its kin -/
  | invalidTransition (action record_id state : PyStr)
  | missingArtifact
  | artifactDrift
  | provenance
  /- "delivery {dispatch_id} is bound to a different payload than the chunks presented now" -/
  | payloadConflict (dispatch_id : PyStr)
  | chunkValidation (p : ChunkProblem)
  /- "record {record_id} is {state}; only sealed records are dispatched", or its bundle
  failed verification -/
  | dispatchRefused (record_id : PyStr)
  | unregisteredTarget
  /- stele.containment, stele.parsers and stele.verification -/
  | unsupportedBackend
  | unsupportedInput
  | sandboxFailed
  | campaign
  /- stele.extraction and stele.identity -/
  | extractionFormat (p : FormatProblem)
  | refFormat (p : RefProblem)
  | resolution (p : ResolutionProblem)
  | normalize (p : NormalizeProblem)
  | malformedExport (p : ExportProblem)
  /- whatever the code of an adapter or a target writer raises -/
  | foreign
  deriving DecidableEq

namespace Exc

/-- isinstance(exc, ValueError). -/
def isValueError : Exc → Bool
  | .valueError | .unicodeEncodeError | .invalidDigest _ | .recordFormat | .unsafeFile
  | .provenance | .payloadConflict _ | .unsupportedInput | .extractionFormat _ | .refFormat _
  | .resolution _ | .normalize _ | .malformedExport _ => true
  | _ => false

/-- isinstance(exc, ArchiveError). -/
def isArchiveError : Exc → Bool
  | .missingObject _ | .corruptObject _ | .invalidDigest _ | .contentMismatch _ _
  | .conflictingRecord _ => true
  | _ => false

def isIntegrityError : Exc → Bool
  | .integrityError _ => true
  | _ => false

/-- except (ValueError, KeyError, TypeError, AttributeError), as verification catches.
`MissingObjectError` is a LookupError but not a KeyError. -/
def isMalformed (e : Exc) : Bool :=
  e.isValueError || decide (e = .keyError) || decide (e = .typeError) ||
    decide (e = .attributeError)

def ofJson : JsonError → Exc
  | .typeError => .typeError
  | .valueError => .valueError

end Exc

/-- A call in an interpreter with a recursion limit, which the `deep` arguments run into. -/
def limited {α β : Type} (deep : α → Bool) (f : α → Except Exc β) (x : α) : Except Exc β :=
  if deep x then .error .recursionError else f x

end Stele
