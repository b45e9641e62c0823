import Stele.Ledger.Models
import Stele.Lib.Scan

/-! validate_artifact: every file of a record's manifest is re-hashed where it lies, and in
the evidence archive when it is gone from disk. -/
namespace Stele
open Python

/-- sha256_file_beneath(artifact_dir, path) on the disk as it is. -/
abbrev FileHashes := PurePath → PurePath → Except Exc PyStr

inductive ValidationStatus
  | ok
  | archived
  | drift
  | missing
  deriving DecidableEq

def ValidationStatus.value : ValidationStatus → PyStr
  | .ok => lit "ok"
  | .archived => lit "archived"
  | .drift => lit "drift"
  | .missing => lit "missing"

structure ValidationResult where
  status : ValidationStatus
  driftedFiles : List PyStr
  missingFiles : List PyStr
  archivedFiles : List PyStr

/-- _verified_in_archive. -/
def verifiedInArchive (H : Hasher) (a : Archive) (digest : PyVal) : Except Exc Bool :=
  match verifyBlob H a digest with
  | .ok () => .ok true
  | .error e => if e.isArchiveError then .ok false else .error e

/-- The lists that validate_artifact fills. -/
structure FileScan where
  drifted : List PyStr
  missing : List PyStr
  archived : List PyStr

/-- One file of the manifest. -/
def FileScan.file (H : Hasher) (disk : FileHashes) (a : Archive) (dir : PurePath) (s : FileScan)
    (relPath : PyStr) (expectedHash : PyVal) : Except Exc FileScan :=
  match disk dir (.ofStr relPath) with
  | .error .fileNotFoundError => do
    if ← verifiedInArchive H a expectedHash then return {s with archived := s.archived++[relPath]}
    else return {s with missing := s.missing++[relPath]}
  | .error .unsafeFile => .ok {s with drifted := s.drifted++[relPath]}
  | .error e => .error e
  | .ok actual =>
    if (PyVal.str actual).pyEq expectedHash then .ok s
    else .ok {s with drifted := s.drifted++[relPath]}

/-- artifact_manifest.items(); json.loads gives string keys only. -/
def manifestItems : PyVal → Except Exc (List (PyStr × PyVal))
  | .dict kvs => kvs.mapM fun p => match p.1 with
    | .str s => .ok (s,p.2)
    | _ => .error .typeError
  | _ => .error .attributeError

/-- Missing comes before drift, drift before archived. -/
def FileScan.status (s : FileScan) : ValidationStatus :=
  if s.missing ≠ [] then .missing
  else if s.drifted ≠ [] then .drift
  else if s.archived ≠ [] then .archived
  else .ok

/-- validate_artifact(record, archive). -/
def validateArtifact (H : Hasher) (disk : FileHashes) (a : Archive) (r : ArtifactRecord) :
    Except Exc ValidationResult := do
  match r.artifactDir with
  | .text dir =>
    let items ← manifestItems r.artifactManifest
    let s ← items.foldlM (fun (s : FileScan) p => s.file H disk a (.ofStr dir) p.1 p.2) ⟨[],[],[]⟩
    let sorted := fun paths : List PyStr => paths.insertionSort fun p q => p ≤ q
    return ⟨s.status,sorted s.drifted,sorted s.missing,sorted s.archived⟩
  | _ => .error .typeError

section Intact

variable {H : Hasher} {disk : FileHashes} {a : Archive} {dir : PurePath}

/-- The file lies on disk with its hash, or it is gone and the archive has it. -/
def FileIntact (H : Hasher) (disk : FileHashes) (a : Archive) (dir : PurePath) (p : PyStr × PyVal) : Prop :=
  (∃ actual, disk dir (.ofStr p.1) = .ok actual ∧ (PyVal.str actual).pyEq p.2 = true) ∨
    (disk dir (.ofStr p.1) = .error .fileNotFoundError ∧ verifyBlob H a p.2 = .ok ())

lemma verifiedInArchive_true {digest : PyVal} (h : verifiedInArchive H a digest = .ok true) :
    verifyBlob H a digest = .ok () := by
  unfold verifiedInArchive at h
  cases hv : verifyBlob H a digest with
  | ok u => rfl
  | error e =>
    rw [hv] at h
    simp only at h
    split_ifs at h
    cases h

/-- A file that is not intact ends in one of the first two lists, and nothing leaves them. -/
lemma FileScan.file_ok {s t : FileScan} {p : PyStr × PyVal} (h : s.file H disk a dir p.1 p.2 = .ok t)
    (ht : t.drifted = [] ∧ t.missing = []) :
    (s.drifted = [] ∧ s.missing = []) ∧ FileIntact H disk a dir p := by
  unfold FileScan.file at h
  split at h
  · rename_i hdisk
    obtain ⟨b,hb,h⟩ := except_bind_ok.mp h
    cases b with
    | true =>
      obtain rfl := Except.ok.inj h
      exact ⟨ht,Or.inr ⟨hdisk,verifiedInArchive_true hb⟩⟩
    | false =>
      obtain rfl := Except.ok.inj h
      simp at ht
  · obtain rfl := Except.ok.inj h
    simp at ht
  · cases h
  · rename_i actual hdisk
    split_ifs at h with heq
    · obtain rfl := Except.ok.inj h
      exact ⟨ht,Or.inl ⟨actual,hdisk,heq⟩⟩
    · obtain rfl := Except.ok.inj h
      simp at ht

lemma FileScan.sound : Scan.Sound (fun (s : FileScan) p => s.file H disk a dir p.1 p.2)
    (fun s => s.drifted = [] ∧ s.missing = []) (fun _ p => FileIntact H disk a dir p) where
  keeps := fun _ hb => hb
  element := FileScan.file_ok

/-- What "ok" and "archived" say: each file is intact in one of the two places. -/
theorem validateArtifact_intact {r : ArtifactRecord} {v : ValidationResult}
    (h : validateArtifact H disk a r = .ok v) (hs : v.status = .ok ∨ v.status = .archived) :
    ∃ dir items, r.artifactDir = .text dir ∧ manifestItems r.artifactManifest = .ok items ∧
      ∀ p ∈ items, FileIntact H disk a (.ofStr dir) p := by
  unfold validateArtifact at h
  cases hdir : r.artifactDir with
  | text dir =>
    rw [hdir] at h
    obtain ⟨items,hitems,h⟩ := except_bind_ok.mp h
    obtain ⟨s,hscan,h⟩ := except_bind_ok.mp h
    obtain rfl := Except.ok.inj h
    have hclear : s.drifted = [] ∧ s.missing = [] := by
      simp only [FileScan.status] at hs
      split_ifs at hs with hm hd <;> simp_all
    exact ⟨dir,items,rfl,hitems,(FileScan.sound.run hscan hclear).2⟩
  | null => rw [hdir] at h; cases h
  | blob b => rw [hdir] at h; cases h

end Intact

end Stele
