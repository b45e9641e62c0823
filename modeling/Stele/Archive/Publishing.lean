import Stele.Archive.Metadata
import Stele.Lib.Ownership

/-! The publishing calls of the archive on a file system, one file system step after the other.
The directories are there; fsync of a directory changes no file. What is read of an open file is
read in one step: nothing writes a published file. -/
namespace Stele
open Python Interleaving

/-- Where metadata records are published: the marker, meta/snapshots and meta/sources. -/
inductive RecordPath
  | marker
  | snapshot (kind : SnapshotKind) (digest : PyStr)
  | source (sourceId : PyStr)
  deriving DecidableEq

inductive FinalPath
  | blob (digest : PyStr)
  | record (r : RecordPath)
  deriving DecidableEq

/-- What a message names of a path. -/
def FinalPath.key : FinalPath → PyStr
  | .blob d | .record (.snapshot _ d) | .record (.source d) => d
  | .record .marker => lit "stele-archive.json"

structure Inode where
  data : Bytes
  synced : Bool
  readOnly : Bool

/-- The inodes by number, the names in tmp/ with the inode of each, and the final paths. -/
structure Disk where
  inodes : List Inode
  temps : Dict ℕ ℕ
  finals : FinalPath → Option ℕ

namespace Disk

def empty : Disk := ⟨[],[],fun _ => none⟩

def update (d : Disk) (i : ℕ) (f : Inode → Inode) : Disk := { d with inodes := d.inodes.modify i f }

/-- A name that O_EXCL accepts: the hint, or another when it is taken. -/
def freshName (d : Disk) (hint : ℕ) : ℕ :=
  if hint ∈ d.temps.keys then d.temps.keys.foldr max 0+1 else hint

/-- The bytes under a final path. -/
def published (d : Disk) (p : FinalPath) : Option Bytes :=
  (d.finals p).bind fun i => d.inodes[i]?.map Inode.data

/-- What a reader finds of the archive. -/
def archive (d : Disk) : Archive where
  blobs digest := d.published (.blob digest)
  snapshots kind digest := d.published (.record (.snapshot kind digest))
  sources sourceId := d.published (.record (.source sourceId))

end Disk

namespace BlobStore

abbrev Storing (α : Type) := ExceptT Exc (Prog Disk) α

/-- One step that may raise. -/
def step {α : Type} (f : Disk → Except Exc α × Disk) : Storing α := ExceptT.mk (Prog.atomic f)

def raiseIf (c : Bool) (e : Exc) : Storing Unit := if c then throw e else pure ()

/-- tempfile.mkstemp: the name and the inode of the new file. -/
def mkstemp (hint : ℕ) : Storing (ℕ × ℕ) := step fun d =>
  (.ok (d.freshName hint,d.inodes.length),
    { d with inodes := d.inodes++[⟨[],false,false⟩], temps := d.temps++[(d.freshName hint,d.inodes.length)] })

/-- fh.write, octet by octet: a crash may leave any prefix. -/
def write (i : ℕ) : Bytes → Storing Unit
  | [] => pure ()
  | b :: chunk => do
    step fun d => (.ok (),d.update i fun n => { n with data := n.data++[b], synced := false })
    write i chunk

def writeAll (i : ℕ) : List Bytes → Storing Unit
  | [] => pure ()
  | chunk :: chunks => do
    write i chunk
    writeAll i chunks

def fsync (i : ℕ) : Storing Unit := step fun d => (.ok (),d.update i fun n => { n with synced := true })

/-- _discard: chmod and unlink, where a missing name is passed over. -/
def discard (name : ℕ) : Prog Disk Unit := do
  let found ← Prog.atomic fun d => match d.temps.get name with
    | none => (false,d)
    | some i => (true,d.update i fun n => { n with readOnly := false })
  if found then Prog.atomic fun d => ((),{ d with temps := d.temps.filter fun p => p.1 ≠ name })
  else pure ()

/-- try: body finally: _discard(tmp). -/
def finallyDiscard {α : Type} (name : ℕ) (body : Storing α) : Storing α := ExceptT.mk do
  let r ← body.run
  discard name
  return r

/-- _write_temp: the temp name and the digest of the chunks. The iterable may raise after the
chunks it has given. -/
def writeTemp (H : Hasher) (hint : ℕ) (chunks : List Bytes) (raises : Option Exc) :
    Storing (ℕ × PyStr) := do
  let (name,i) ← mkstemp hint
  writeAll i chunks
  match raises with
  | some e =>
    (discard name : Prog Disk Unit)
    throw e
  | none =>
    fsync i
    return (name,H.hexdigest chunks.flatten)

def fileExists (p : FinalPath) : Storing Bool := step fun d => (.ok (d.finals p).isSome,d)

/-- os.chmod to read-only. -/
def chmod (name : ℕ) : Storing Unit := step fun d => match d.temps.get name with
  | none => (.error .fileNotFoundError,d)
  | some i => (.ok (),d.update i fun n => { n with readOnly := true })

inductive Linked | linked | fileExists | permission
  deriving DecidableEq

/-- os.link, which is atomic and fails if the final path exists. `refuse` says when the platform
refuses it. -/
def link (name : ℕ) (p : FinalPath) (refuse : Disk → Bool) : Storing Linked := step fun d =>
  match d.temps.get name with
  | none => (.error .fileNotFoundError,d)
  | some i =>
    if refuse d then (.ok .permission,d)
    else match d.finals p with
      | some _ => (.ok .fileExists,d)
      | none => (.ok .linked,{ d with finals := fun q => if q = p then some i else d.finals q })

/-- _open. -/
def openFinal (p : FinalPath) : Storing ℕ := step fun d => match d.finals p with
  | none => (.error (.missingObject p.key),d)
  | some i => (.ok i,d)

def readInode (i : ℕ) : Storing Bytes := step fun d => (.ok ((d.inodes[i]?.map Inode.data).getD []),d)

/-- _read_file. -/
def readFile (p : FinalPath) : Storing Bytes := do
  let i ← openFinal p
  readInode i

/-- _verify. -/
def verify (H : Hasher) (digest : PyStr) (p : FinalPath) : Storing Unit := do
  let data ← readFile p
  raiseIf (H.hexdigest data ≠ digest) (.corruptObject digest)

/-- same_record. -/
def sameRecord (data : Bytes) (p : FinalPath) : Storing Unit := do
  let found ← readFile p
  raiseIf (found ≠ data) (.conflictingRecord p.key)

/-- _install. -/
def install (name : ℕ) (p : FinalPath) (refuse : Disk → Bool) (onExists : FinalPath → Storing Unit) :
    Storing Unit :=
  finallyDiscard name do
    if ← fileExists p then onExists p
    else do
      chmod name
      match ← link name p refuse with
      | .linked => pure ()
      | .fileExists => onExists p
      | .permission => if ← fileExists p then onExists p else throw .permissionError

/-- _install_record. -/
def installRecord (H : Hasher) (hint : ℕ) (refuse : Disk → Bool) (p : RecordPath) (data : Bytes) :
    Storing Unit := do
  let (name,_) ← writeTemp H hint [data] none
  install name (.record p) refuse (sameRecord data)

/-- put_chunks, which put_bytes, put_stream, put_fd and put_file call. -/
def putChunks (H : Hasher) (hint : ℕ) (refuse : Disk → Bool) (chunks : List Bytes) (raises : Option Exc)
    (expected : Option PyStr) : Storing PyStr := do
  raiseIf (expected.any fun e => !isDigest e) (.invalidDigest (expected.getD []))
  let (name,digest) ← writeTemp H hint chunks raises
  if expected.any fun e => digest ≠ e then
    (discard name : Prog Disk Unit)
    throw (.contentMismatch digest (expected.getD []))
  else
    install name (.blob digest) refuse (verify H digest)
    return digest

/-- The checks of put_tree on each entry, in order. -/
def checkEntries : Manifest → Storing Unit
  | [] => pure ()
  | (path,digest) :: m => do
    liftM (validateTreePath path)
    raiseIf (!isDigest digest) (.invalidDigest digest)
    let stored ← fileExists (.blob digest)
    raiseIf (!stored) (.missingObject digest)
    checkEntries m

/-- put_tree. -/
def putTree (H : Hasher) (hint : ℕ) (refuse : Disk → Bool) (m : Manifest) : Storing PyStr := do
  checkEntries m
  liftM (checkNoFileDirClash m)
  let data ← liftM (encodeManifest m)
  putChunks H hint refuse [data] none none

/-- read. -/
def read (H : Hasher) (digest : PyStr) : Storing Bytes := do
  raiseIf (!isDigest digest) (.invalidDigest digest)
  let data ← readFile (.blob digest)
  raiseIf (H.hexdigest data ≠ digest) (.corruptObject digest)
  return data

/-- The _verified_size of each entry of a tree. -/
def verifiedSizes (H : Hasher) : Manifest → Storing (List ℕ)
  | [] => pure []
  | (_,digest) :: m => do
    let data ← read H digest
    let sizes ← verifiedSizes H m
    return data.length :: sizes

/-- _check_snapshot_content. -/
def checkSnapshotContent (H : Hasher) (s : Snapshot) : Storing Unit :=
  match s.kind with
  | .file => do
    let data ← read H s.digest
    raiseIf (data.length ≠ s.size) (.corruptObject s.digest)
  | .tree => do
    let data ← read H s.digest
    let tree ← liftM (decodeTree data)
    let sizes ← verifiedSizes H tree
    raiseIf (sizes.sum ≠ s.size || tree.length ≠ s.fileCount) (.corruptObject s.digest)

/-- put_snapshot. -/
def putSnapshot (H : Hasher) (hint : ℕ) (refuse : Disk → Bool) (s : Snapshot) : Storing Unit := do
  checkSnapshotContent H s
  let data ← liftM s.toCanonical
  installRecord H hint refuse (.snapshot s.kind s.digest) data

/-- put_source. -/
def putSource (H : Hasher) (hint : ℕ) (refuse : Disk → Bool) (s : Source) : Storing PyStr := do
  let sourceId ← liftM (s.sourceId H)
  let data ← liftM s.toCanonical
  installRecord H hint refuse (.source sourceId) data
  return sourceId

/-- The calls that publish. A record is installed by put_snapshot and put_source, and when the
archive is initialized. -/
inductive Put
  | chunks (chunks : List Bytes) (raises : Option Exc) (expected : Option PyStr)
  | tree (m : Manifest)
  | snapshot (s : Snapshot)
  | source (s : Source)
  | record (p : RecordPath) (data : Bytes)

/-- A call with what its process meets: the name that mkstemp first tries, and when the platform
refuses a link. -/
structure Call where
  put : Put
  hint : ℕ
  refuse : Disk → Bool

/-- The call, which returns a digest or nothing. -/
def Call.prog (H : Hasher) (c : Call) : Prog Disk (Except Exc (Option PyStr)) :=
  match c.put with
  | .chunks chunks raises expected =>
    (do let digest ← putChunks H c.hint c.refuse chunks raises expected; return some digest : Storing _).run
  | .tree m => (do let digest ← putTree H c.hint c.refuse m; return some digest : Storing _).run
  | .snapshot s => (do putSnapshot H c.hint c.refuse s; return none : Storing _).run
  | .source s => (do let sourceId ← putSource H c.hint c.refuse s; return some sourceId : Storing _).run
  | .record p data => (do installRecord H c.hint c.refuse p data; return none : Storing _).run

end BlobStore

end Stele
