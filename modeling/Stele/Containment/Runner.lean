import Stele.Archive.Store
import Stele.Containment.Sandbox

/-! run_in_sandbox with an evidence store: the parser's output is collected, checked, stored and bundled,
or the artifact directory is emptied. -/
namespace Stele
open Python

/-- What we may do with a directory: list it and look up what is in it, by its path; open it, look up what
is in it and change it, by descriptor. -/
structure Access where
  listable : Bool
  searchable : Bool
  opens : Bool
  enters : Bool
  changes : Bool

/-- A directory of ours with mode 0700. -/
def Access.all : Access := ⟨true,true,true,true,true⟩

/-- What a parser can leave under a name. Names are as os.walk gives them: a byte name that is not UTF-8
has lone surrogates. -/
inductive FileNode
  | file (content : Bytes) (readable : Bool)
  | link (toDir : Bool)
  | special
  | dir (access : Access) (entries : List (PyStr × FileNode))

abbrev Listing := List (PyStr × FileNode)

/-- The artifact directory on the host; `linked` if its path is a symbolic link to a directory. -/
inductive ArtifactDir
  | absent
  | present (linked : Bool) (access : Access) (entries : Listing)

inductive FailureReason
  | timeout | outOfMemory | cpuLimit | syscallBlocked | wasmTrap | crashed | exitStatus | engineError
  | unsafeArtifact | outputLimit
  deriving DecidableEq

/-- A regular file that was collected, by the parts of its path below the artifact directory. -/
structure CollectedFile where
  parts : List PyStr
  content : Bytes
  readable : Bool

/-- UnsafeArtifactError and OutputLimitError. -/
inductive CollectError
  | unsafeArtifact
  | outputLimit

def CollectError.reason : CollectError → FailureReason
  | .unsafeArtifact => .unsafeArtifact
  | .outputLimit => .outputLimit

/-- artifacts and total. -/
structure Collecting where
  artifacts : List CollectedFile
  total : ℕ

/-- entry.is_dir(), which follows links. -/
def FileNode.isDir : FileNode → Bool
  | .dir _ _ => true
  | .link toDir => toDir
  | _ => false

section Collect

variable (config : SandboxConfig)

/-- The loop over dirnames: what lstat finds has to be a directory. -/
def visitDirnames (searchable : Bool) : Listing → Except CollectError Unit
  | [] => .ok ()
  | (_,node) :: entries =>
    if searchable = false then .error .unsafeArtifact
    else match node with
      | .dir _ _ => visitDirnames searchable entries
      | _ => .error .unsafeArtifact

/-- The loop over filenames: regular files, within the limits. -/
def visitFilenames (searchable : Bool) (at' : List PyStr) : Listing → Collecting → Except CollectError Collecting
  | [],c => .ok c
  | (name,node) :: entries,c =>
    if searchable = false then .error .unsafeArtifact
    else match node with
      | .file content readable =>
        if config.maxOutputFiles < c.artifacts.length+1 then .error .outputLimit
        else if config.maxOutputBytes < c.total+content.length then .error .outputLimit
        else visitFilenames searchable at' entries
          ⟨c.artifacts++[⟨at'++[name],content,readable⟩],c.total+content.length⟩
      | _ => .error .unsafeArtifact

/-- One step of os.walk: a directory's own entries. -/
def visit (access : Access) (at' : List PyStr) (entries : Listing) (c : Collecting) :
    Except CollectError Collecting :=
  if access.listable = false then .error .unsafeArtifact
  else do
    visitDirnames access.searchable (entries.filter fun p => p.2.isDir)
    visitFilenames config access.searchable at' (entries.filter fun p => !p.2.isDir) c

mutual

/-- os.walk from a name on, which does not follow links. -/
def walkNode (at' : List PyStr) : FileNode → Collecting → Except CollectError Collecting
  | .dir access entries,c => do
    let c ← visit config access at' entries c
    walkEntries at' entries c
  | _,c => .ok c

def walkEntries (at' : List PyStr) : List (PyStr × FileNode) → Collecting → Except CollectError Collecting
  | [],c => .ok c
  | (name,node) :: entries,c => do
    let c ← walkNode (at'++[name]) node c
    walkEntries at' entries c

end

/-- str(path.relative_to(artifact_dir)). -/
def CollectedFile.relative (f : CollectedFile) : PyStr := List.intercalate [cp '/'] f.parts

def sortFiles (fs : List CollectedFile) : List CollectedFile := fs.insertionSort fun f g => f.relative ≤ g.relative

/-- collect_artifact_paths. -/
def collectArtifactPaths : ArtifactDir → Except CollectError (List CollectedFile)
  | .absent => .ok []
  | .present true _ _ => .error .unsafeArtifact
  | .present false access entries =>
    (walkNode config [] (.dir access entries) ⟨[],0⟩).map fun c => sortFiles c.artifacts

end Collect

/-- What the removal takes from the file system: whether chmod and open of a directory work and unlink or
rmdir of an entry, by its path below the artifact directory, and how many levels of directories that hold
something rmtree recurses into before RecursionError. -/
structure FileSystem where
  chmods : List PyStr → Bool
  opens : List PyStr → Bool
  removes : List PyStr → Bool
  levels : ℕ

section Remove

variable (fs : FileSystem)

mutual

/-- The pass that opens up every directory that os.walk comes to, and passes over a chmod that fails. -/
def FileNode.opened (found : Bool) (at' : List PyStr) : FileNode → FileNode
  | .dir access entries =>
    let access := if found && fs.chmods at' then .all else access
    -- os.walk goes on where it can list, and chmod finds nothing where it cannot look up
    .dir access (openedEntries (found && access.listable && access.searchable) at' entries)
  | node => node

def openedEntries (found : Bool) (at' : List PyStr) : List (PyStr × FileNode) → List (PyStr × FileNode)
  | [] => []
  | (name,node) :: entries => (name,node.opened found (at'++[name])) :: openedEntries found at' entries

end

mutual

/-- shutil.rmtree of a directory, os.unlink of anything else, and what is left of it. -/
def FileNode.remove (levels : ℕ) (parent : Access) (at' : List PyStr) : FileNode → Except Exc Unit × Option FileNode
  | .dir access entries =>
    if parent.enters && access.opens && fs.opens at' then
      match removeEntries levels access at' entries with
      | (.error e,left) => (.error e,some (.dir access left))
      | (.ok (),left) =>
        if parent.changes && fs.removes at' then (.ok (),none) else (.error .osError,some (.dir access left))
    else (.error .osError,some (.dir access entries))
  | node =>
    if parent.enters && parent.changes && fs.removes at' then (.ok (),none) else (.error .osError,some node)

/-- The loop over the entries of a directory; the first error ends it. -/
def removeEntries (levels : ℕ) (access : Access) (at' : List PyStr) :
    List (PyStr × FileNode) → Except Exc Unit × List (PyStr × FileNode)
  | [] => (.ok (),[])
  | (name,node) :: entries =>
    match levels with
    | 0 => (.error .recursionError,(name,node) :: entries)
    | levels+1 =>
      match node.remove levels access (at'++[name]) with
      | (.error e,left) => (.error e,left.toList.map (name,·)++entries)
      | (.ok (),_) => removeEntries (levels+1) access at' entries

end

/-- discard_artifact_dir_contents. Its own loop is one level above those of rmtree. -/
def discardArtifactDirContents : ArtifactDir → Except Exc Unit × ArtifactDir
  | .absent => (.ok (),.absent)
  | .present true access entries => (.error .valueError,.present true access entries)
  | .present false access entries =>
    if fs.chmods [] then
      match removeEntries fs (fs.levels+1) .all [] (openedEntries fs true [] entries) with
      | (r,left) => (r,.present false .all left)
    else (.error .osError,.present false access entries)

/-- artifact_dir.rmdir(). -/
def removeDir : ArtifactDir → Except Exc Unit × ArtifactDir
  | .absent => (.error .fileNotFoundError,.absent)
  | .present linked access entries =>
    if linked = false ∧ entries.isEmpty ∧ fs.removes [] then (.ok (),.absent)
    else (.error .osError,.present linked access entries)

/-- _remove_output. -/
def removeOutput (dir : ArtifactDir) (created : Bool) : Except Exc Unit × ArtifactDir :=
  let removed : Except Exc Unit × ArtifactDir := match discardArtifactDirContents fs dir with
    | (.error e,dir) => (.error e,dir)
    | (.ok (),dir) => if created then removeDir fs dir else (.ok (),dir)
  match removed with
  | (.error .fileNotFoundError,dir) => (.ok (),dir)
  | removed => removed

end Remove

/-- What a backend reports of a run. -/
structure ExecutionOutcome where
  exitCode : ℤ
  timedOut : Bool
  violation : Option PyStr
  failure : Option FailureReason

/-- _generic_failure. -/
def genericFailure (outcome : ExecutionOutcome) : Option FailureReason :=
  if outcome.timedOut then some .timeout
  else if (outcome.violation.getD []) ≠ [] then some .syscallBlocked
  else if outcome.exitCode ≠ 0 then some .exitStatus
  else none

/-- What a SandboxResult says of the output of a run. -/
structure RunResult where
  exitCode : ℤ
  timedOut : Bool
  artifactPaths : List PurePath
  artifactDigests : Manifest
  artifactBundleDigest : Option PyStr
  failure : Option FailureReason

def RunResult.succeeded (r : RunResult) : Bool :=
  decide (r.failure = none) && decide (r.exitCode = 0) && !r.timedOut

/-- What a run takes from outside: the choice of a backend, the staging of the input with the Snapshot it
stores, the backend, the removal of the staging copy, and the file system that the output is removed
from. -/
structure Host where
  select : Except Exc Unit
  stage : Archive → Except Exc Unit × Archive
  execute : ArtifactDir → Except Exc ExecutionOutcome × ArtifactDir
  cleanup : Except Exc Unit
  fileSystem : FileSystem

/-- The exception that leaves the finally clause. -/
def Host.afterCleanup (host : Host) (e : Exc) : Exc :=
  match host.cleanup with
  | .error e' => e'
  | .ok () => e

/-- The check that artifact_dir is fresh. -/
def checkFresh : ArtifactDir → Except Exc Unit
  | .absent => .ok ()
  | .present _ access entries =>
    if access.listable = false then .error .permissionError
    else if entries ≠ [] then .error .valueError
    else .ok ()

def ArtifactDir.isAbsent : ArtifactDir → Bool
  | .absent => true
  | .present _ _ _ => false

section Run

variable (H : Hasher) (config : SandboxConfig)

/-- The path of a collected file on the host. -/
def CollectedFile.path (f : CollectedFile) : PurePath := config.artifactDir.join ⟨0,f.parts⟩

/-- The reads of ingest_artifacts. -/
def readsOf (files : List CollectedFile) : Reads := fun i =>
  match files[i]? with
  | none => .error .fileNotFoundError
  | some f => if f.readable then .ok f.content else .error .unsafeFile

/-- The output, or why there is none. -/
def collected (outcome : ExecutionOutcome) (dir : ArtifactDir) : List CollectedFile × Option FailureReason :=
  match outcome.failure.or (genericFailure outcome) with
  | some reason => ([],some reason)
  | none => match collectArtifactPaths config dir with
    | .ok files => (files,none)
    | .error e => ([],some e.reason)

def result (outcome : ExecutionOutcome) (files : List CollectedFile) (digests : Manifest) (bundle : Option PyStr)
    (failure : Option FailureReason) : RunResult where
  exitCode := outcome.exitCode
  timedOut := outcome.timedOut || decide (failure = some .timeout)
  artifactPaths := files.map (CollectedFile.path config)
  artifactDigests := digests
  artifactBundleDigest := bundle
  failure := failure

/-- What follows once the backend has returned. -/
def finishRun (fs : FileSystem) (created : Bool) (outcome : ExecutionOutcome) (dir : ArtifactDir) (a : Archive) :
    Except Exc RunResult × ArtifactDir × Archive :=
  match collected config outcome dir with
  | (_,some reason) =>
    match removeOutput fs dir created with
    | (.error e,dir) => (.error e,dir,a)
    | (.ok (),dir) => (.ok (result config outcome [] [] none (some reason)),dir,a)
  | (files,none) =>
    match ingestArtifacts H config.artifactDir (readsOf files) (files.map (CollectedFile.path config)) 0 [] a with
    | (.error e,a) => (.error e,dir,a)
    | (.ok digests,a) =>
      match a.putTree H digests with
      | (.error e,a) => (.error e,dir,a)
      | (.ok bundle,a) => (.ok (result config outcome files digests (some bundle) none),dir,a)

/-- run_in_sandbox, given a store. -/
def runInSandbox (host : Host) (dir : ArtifactDir) (a : Archive) :
    Except Exc RunResult × ArtifactDir × Archive :=
  match (do checkFresh dir; host.select) with
  | .error e => (.error e,dir,a)
  | .ok () =>
    match host.stage a with
    | (.error e,a) => (.error (host.afterCleanup e),dir,a)
    | (.ok (),a) =>
      match host.execute dir with
      -- the removal's own error gives way to the backend's
      | (.error e,left) => (.error (host.afterCleanup e),(removeOutput host.fileSystem left dir.isAbsent).2,a)
      | (.ok outcome,left) =>
        match host.cleanup with
        | .error e => (.error e,left,a)
        | .ok () => finishRun H config host.fileSystem dir.isAbsent outcome left a

end Run

end Stele
