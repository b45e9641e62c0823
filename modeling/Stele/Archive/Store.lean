import Stele.Archive.Tree
import Stele.Lib.Dict
import Stele.Python.Path

/-! The content-addressed archive, and the bundles that are stored in it. A read of a file
on disk is whatever the disk gives at that moment, so each call takes its reads as input. -/
namespace Stele
open Python

/-- The published files: blobs by digest, Snapshot records by kind and digest, Source
records by source_id. -/
structure Archive where
  blobs : PyStr → Option Bytes
  snapshots : SnapshotKind → PyStr → Option Bytes
  sources : PyStr → Option Bytes

namespace Archive

def empty : Archive := ⟨fun _ => none,fun _ _ => none,fun _ => none⟩

/-- has: a blob is published under the digest. -/
def has (a : Archive) (digest : PyStr) : Except Exc Bool :=
  if isDigest digest then .ok (a.blobs digest).isSome else .error (.invalidDigest digest)

/-- read: the bytes, after verifying that they hash to the digest. -/
def read (H : Hasher) (a : Archive) (digest : PyStr) : Except Exc Bytes :=
  if isDigest digest = false then .error (.invalidDigest digest)
  else match a.blobs digest with
    | none => .error (.missingObject digest)
    | some data => if H.hexdigest data = digest then .ok data else .error (.corruptObject digest)

/-- read_tree. -/
def readTree (H : Hasher) (a : Archive) (digest : PyStr) : Except Exc Manifest := do
  let data ← a.read H digest
  decodeTree data

/-- put_bytes: nothing is overwritten; a copy already stored is re-verified. -/
def putBytes (H : Hasher) (data : Bytes) (a : Archive) : Except Exc PyStr × Archive :=
  match a.blobs (H.hexdigest data) with
  | none => (.ok (H.hexdigest data),
      {a with blobs := fun d => if d = H.hexdigest data then some data else a.blobs d})
  | some stored =>
    if H.hexdigest stored = H.hexdigest data then (.ok (H.hexdigest data),a)
    else (.error (.corruptObject (H.hexdigest data)),a)

/-- The checks of put_tree on each entry, in order. -/
def checkEntries (a : Archive) : Manifest → Except Exc Unit
  | [] => .ok ()
  | (path,digest) :: m => do
    validateTreePath path
    let stored ← a.has digest
    if stored then checkEntries a m else .error (.missingObject digest)

/-- put_tree. -/
def putTree (H : Hasher) (m : Manifest) (a : Archive) : Except Exc PyStr × Archive :=
  match (do a.checkEntries m; checkNoFileDirClash m; encodeManifest m) with
  | .error e => (.error e,a)
  | .ok data => a.putBytes H data

end Archive

/-- artifact_relative_path, as a POSIX string. -/
def artifactRelativePath (dir path : PurePath) : Except Exc PyStr :=
  match path.relativeTo dir with
  | none => .error .valueError
  | some rel =>
    if rel.parts = [] ∨ rel.parts.any isUnsafePart then .error .valueError
    else .ok rel.toStr

/-- The i-th read of a file in one call. -/
abbrev Reads := ℕ → Except Exc Bytes

/-- build_manifest. -/
def buildManifest (H : Hasher) (dir : PurePath) (reads : Reads) :
    List PurePath → ℕ → Manifest → Except Exc Manifest
  | [],_,m => .ok m
  | path :: paths,i,m => do
    let rel ← artifactRelativePath dir path
    let data ← reads i
    buildManifest H dir reads paths (i+1) (Dict.set m rel (H.hexdigest data))

/-- ingest_artifacts. -/
def ingestArtifacts (H : Hasher) (dir : PurePath) (reads : Reads) :
    List PurePath → ℕ → Manifest → Archive → Except Exc Manifest × Archive
  | [],_,m,a => (.ok m,a)
  | path :: paths,i,m,a =>
    match (do let rel ← artifactRelativePath dir path; let data ← reads i; return (rel,data)) with
    | .error e => (.error e,a)
    | .ok (rel,data) =>
      match a.putBytes H data with
      | (.error e,a) => (.error e,a)
      | (.ok digest,a) => ingestArtifacts H dir reads paths (i+1) (Dict.set m rel digest) a

/-- A manifest as a Python dict. -/
def Manifest.toPy (m : Manifest) : PyVal := .dict (m.map fun p => (.str p.1,.str p.2))

/-- The paths that iterating over a recorded manifest gives. -/
def manifestPaths : PyVal → Except Exc (List PyStr)
  | .dict kvs => kvs.mapM fun p => match p.1 with
    | .str s => .ok s
    | _ => .error .typeError
  | .list xs => xs.mapM fun x => match x with
    | .str s => .ok s
    | _ => .error .typeError
  | .str s => .ok (s.map fun c => [c])
  | _ => .error .typeError

/-- manifest.values(). -/
def manifestDigests : PyVal → Except Exc (List PyVal)
  | .dict kvs => .ok (kvs.map Prod.snd)
  | _ => .error .attributeError

/-- One pass of iter_verified over a blob. -/
def verifyBlob (H : Hasher) (a : Archive) : PyVal → Except Exc Unit
  | .str digest => (a.read H digest).map fun _ => ()
  | _ => .error (.invalidDigest [])

/-- verify_archived_bundle. -/
def verifyArchivedBundle (H : Hasher) (a : Archive) (artifactHash : PyStr) (manifest : PyVal) :
    Except Exc Unit := do
  let tree ← a.readTree H artifactHash
  if tree.toPy.pyEq manifest = false then .error .artifactDrift
  else
    let digests ← manifestDigests manifest
    digests.forM (verifyBlob H a)

/-- archive_bundle. -/
def archiveBundle (H : Hasher) (artifactDir : PurePath) (manifest : PyVal) (artifactHash : PyStr)
    (reads : Reads) (a : Archive) : Except Exc Unit × Archive :=
  match manifestPaths manifest with
  | .error e => (.error e,a)
  | .ok paths =>
    match ingestArtifacts H artifactDir reads (paths.map fun p => artifactDir.join (.ofStr p)) 0 [] a
      with
    | (.error .fileNotFoundError,a) =>
      match verifyArchivedBundle H a artifactHash manifest with
      | .error (.missingObject _) => (.error .missingArtifact,a)
      | r => (r,a)
    | (.error e,a) => (.error (if e.isValueError then .artifactDrift else e),a)
    | (.ok stored,a) =>
      if stored.toPy.pyEq manifest = false then (.error .artifactDrift,a)
      else match a.putTree H stored with
        | (.error e,a) => (.error e,a)
        | (.ok digest,a) => if digest = artifactHash then (.ok (),a) else (.error .artifactDrift,a)

end Stele
