import Stele.Containment.Collection
import Stele.Python.Generators
import Stele.Verification.Campaign

/-! Corpus.build and Corpus.check on a directory tree, with all that os.walk does not say of it. -/
namespace Stele
open Python

/-- What os.lstat finds at a path; a regular file with its bytes, or the strerror of reading it. -/
inductive Found
  | missing
  | failed (exc : Exc)
  | regular (content : Except PyStr Bytes)
  | other

/-- What stands under a name. `beyond` is what lstat finds at a path that goes on from a link. -/
inductive CorpusNode
  | file (content : Except PyStr Bytes)
  | link (toDir : Bool) (beyond : List PyStr → Found)
  | special
  | dir (listable searchable : Bool) (entries : List (PyStr × CorpusNode))

/-- A directory's entries, by name: the walk sorts them. -/
abbrev CorpusListing := List (PyStr × CorpusNode)

mutual

/-- The names in a tree are names, each once in a directory. -/
def CorpusNode.Named : CorpusNode → Prop
  | .dir _ _ entries => (entries.map Prod.fst).Pairwise (· < ·) ∧ NamedListing entries
  | _ => True

def NamedListing : List (PyStr × CorpusNode) → Prop
  | [] => True
  | (name,node) :: entries => IsName name ∧ node.Named ∧ NamedListing entries

end

/-- What a path leads to that a corpus is built from. -/
inductive CorpusRoot
  | absent
  | notDirectory
  | dir (listable searchable : Bool) (entries : CorpusListing)

def CorpusRoot.Named : CorpusRoot → Prop
  | .dir listable searchable entries => (CorpusNode.dir listable searchable entries).Named
  | _ => True

structure CorpusTree where
  root : CorpusRoot
  named : root.Named

/-- relative_to(root).as_posix(). -/
def relPath (parts : List PyStr) : PyStr := List.intercalate [cp '/'] parts

/-- What _walk yields: a regular file, with what reading it gives, or why a path is left out. -/
inductive WalkItem
  | file (parts : List PyStr) (content : Except PyStr Bytes)
  | leftOut (parts : List PyStr) (why : PyStr)

namespace WalkItem

def parts : WalkItem → List PyStr
  | .file parts _ => parts
  | .leftOut parts _ => parts

def rel (x : WalkItem) : PyStr := relPath x.parts

end WalkItem

section Walk

variable (raises : Bool)

/-- entry.is_dir(), which follows links. -/
def CorpusNode.isDir (searchable : Bool) : CorpusNode → Bool
  | .dir _ _ _ => true
  | .link toDir _ => toDir && searchable
  | _ => false

/-- Path.is_symlink(). Whether it raises what lstat raises has changed with Python 3.14. -/
def CorpusNode.isSymlink (searchable : Bool) (node : CorpusNode) : Except Exc Bool :=
  match searchable,node with
  | true,.link _ _ => .ok true
  | true,_ => .ok false
  | false,_ => if raises then .error .permissionError else .ok false

/-- The loop over dirnames. -/
def walkDirnames (searchable : Bool) (at' : List PyStr) : CorpusListing → Gen WalkItem
  | [] => ⟨[],none⟩
  | (name,node) :: entries => Gen.after (node.isSymlink raises searchable) fun linked =>
    if linked then Gen.append ⟨[.leftOut (at'++[name]) (lit "symlink")],none⟩
      (walkDirnames searchable at' entries)
    else walkDirnames searchable at' entries

/-- What the loop over filenames yields of a name. -/
def walkFilename (searchable : Bool) (at' : List PyStr) (p : PyStr × CorpusNode) : WalkItem :=
  match searchable,p.2 with
  | false,_ => .leftOut (at'++[p.1]) (lit "unreadable: Permission denied")
  | true,.link _ _ => .leftOut (at'++[p.1]) (lit "symlink")
  | true,.file content => .file (at'++[p.1]) content
  | true,_ => .leftOut (at'++[p.1]) (lit "not a regular file")

/-- _walk in one directory. -/
def visitDirectory (searchable : Bool) (at' : List PyStr) (entries : CorpusListing) : Gen WalkItem :=
  (walkDirnames raises searchable at' (entries.filter fun p => p.2.isDir searchable)).append
    ⟨(entries.filter fun p => !p.2.isDir searchable).map (walkFilename searchable at'),none⟩

mutual

/-- _walk from a directory on. What scandir raises is dropped: for a directory that cannot be listed,
and for every one below a directory that cannot be searched. -/
def CorpusNode.walk (at' : List PyStr) : CorpusNode → Gen WalkItem
  | .dir listable searchable entries =>
    if listable then (visitDirectory raises searchable at' entries).append
      (if searchable then walkListing at' entries else ⟨[],none⟩)
    else ⟨[],none⟩
  | _ => ⟨[],none⟩

def walkListing (at' : List PyStr) : List (PyStr × CorpusNode) → Gen WalkItem
  | [] => ⟨[],none⟩
  | (name,node) :: entries => (node.walk (at'++[name])).append (walkListing at' entries)

end

def CorpusRoot.walk : CorpusRoot → Gen WalkItem
  | .dir listable searchable entries => (CorpusNode.dir listable searchable entries).walk raises []
  | _ => ⟨[],none⟩

end Walk

/-- os.lstat of a path below a node, which follows the links above its last part. -/
def CorpusNode.lstat : List PyStr → CorpusNode → Found
  | [],.file content => .regular content
  | [],_ => .other
  | name :: rest,.dir _ searchable entries =>
    if searchable then
      match Dict.get entries name with
      | none => .missing
      | some node => node.lstat rest
    else .failed .permissionError
  | name :: rest,.link _ beyond => beyond (name :: rest)
  | _ :: _,_ => .failed .osError

/-- os.lstat of a path below the root: NotADirectoryError is none of the errors that it looks for. -/
def CorpusRoot.lstat (parts : List PyStr) : CorpusRoot → Found
  | .absent => .missing
  | .notDirectory => .failed .osError
  | .dir listable searchable entries => (CorpusNode.dir listable searchable entries).lstat parts

/-- os.lstat(root / path). Not every path is one that the system takes: `refuses` is what lstat raises
then, as for a null character. -/
def CorpusRoot.lstatPath (refuses : PyStr → Option Exc) (path : PyStr) (root : CorpusRoot) : Found :=
  match refuses path with
  | some exc => .failed exc
  | none => root.lstat (components path)

def CorpusRoot.isDir : CorpusRoot → Bool
  | .dir _ _ _ => true
  | _ => false

section Build

variable (H : Hasher)

/-- _hash_file. -/
def hashFile (content : Except PyStr Bytes) : Except PyStr (PyStr × ℕ) :=
  content.map fun b => (H.hexdigest b,b.length)

/-- CorpusEntry, with its checks. CorpusFormatError is a ValueError. -/
def CorpusEntry.make (path sha256 : PyStr) (size : ℕ) : Except Exc CorpusEntry :=
  if hp : isCorpusPath path = true then
    if hd : isDigest sha256 = true then .ok ⟨path,sha256,size,hp,hd⟩ else .error .valueError
  else .error .valueError

/-- Corpus, with its checks. -/
def Corpus.make (name : PyStr) (entries : List CorpusEntry) (excluded : List Excluded) : Except Exc Corpus :=
  if hn : name ≠ [] then
    if he : (entries.map CorpusEntry.path).Pairwise (· ≤ ·) ∧ (entries.map CorpusEntry.path).Nodup then
      if hx : (excluded.map Excluded.path).Pairwise (· ≤ ·) ∧
          ∀ p ∈ excluded.map Excluded.path, p ∉ entries.map CorpusEntry.path then
        .ok ⟨name,entries,excluded,hn,he.1,he.2,hx.1,fun x hxm _ hem heq =>
          hx.2 x.path (List.mem_map_of_mem hxm) (heq ▸ List.mem_map_of_mem hem)⟩
      else .error .valueError
    else .error .valueError
  else .error .valueError

/-- entries and excluded of build. -/
structure Building where
  entries : List CorpusEntry
  excluded : List Excluded

/-- The loop of build. -/
def Building.add (b : Building) : WalkItem → Except Exc Building
  | .leftOut parts why => .ok {b with excluded := b.excluded++[⟨relPath parts,why⟩]}
  | .file parts content =>
    match hashFile H content with
    | .error strerror => .ok {b with excluded := b.excluded++[⟨relPath parts,lit "unreadable: "++strerror⟩]}
    | .ok (digest,size) => do
      let entry ← CorpusEntry.make (relPath parts) digest size
      return {b with entries := b.entries++[entry]}

/-- name or root.resolve().name or "corpus". -/
def corpusName (name : Option PyStr) (resolved : PyStr) : PyStr :=
  if name.getD [] ≠ [] then name.getD [] else if resolved ≠ [] then resolved else lit "corpus"

/-- build. -/
def Corpus.build (raises : Bool) (root : CorpusRoot) (name : Option PyStr) (resolved : PyStr) : Except Exc Corpus :=
  -- NotADirectoryError
  if root.isDir = false then .error .osError
  else do
    let b ← (root.walk raises).items.foldlM (Building.add H) ⟨[],[]⟩
    let entries := b.entries.insertionSort fun e f => e.path ≤ f.path
    let excluded := b.excluded.insertionSort fun x y => x.path ≤ y.path
    match (root.walk raises).raised with
    | some exc => .error exc
    | none => Corpus.make (corpusName name resolved) entries excluded

end Build

section Check

variable (H : Hasher)

/-- The problems of one entry of the manifest. -/
def checkEntry (found : Found) (entry : CorpusEntry) : Except Exc (List PyStr) :=
  match found with
  | .failed exc => .error exc
  | .missing => .ok [entry.path++lit ": missing"]
  | .other => .ok [entry.path++lit ": no longer a regular file"]
  | .regular content =>
    match hashFile H content with
    | .error strerror => .ok [entry.path++lit ": unreadable: "++strerror]
    | .ok hashed =>
      if hashed ≠ (entry.sha256,entry.size) then
        .ok [entry.path++lit ": content changed since the manifest was taken"]
      else .ok []

/-- sorted(present - set(wanted) - {x.path for x in self.excluded}). -/
def Corpus.added (c : Corpus) (present : List PyStr) : List PyStr :=
  ((present.filter fun rel => decide (rel ∉ c.entries.map CorpusEntry.path ∧
    rel ∉ c.excluded.map Excluded.path)).dedup).insertionSort (· ≤ ·)

/-- check. -/
def Corpus.check (raises : Bool) (root : CorpusRoot) (refuses : PyStr → Option Exc) (c : Corpus) :
    Except Exc (List PyStr) :=
  match (root.walk raises).raised with
  | some exc => .error exc
  | none => do
    let problems ← c.entries.mapM fun entry => checkEntry H (root.lstatPath refuses entry.path) entry
    return (c.added ((root.walk raises).items.map WalkItem.rel)).map (·++lit ": not in the corpus manifest")++
      problems.flatten

end Check

end Stele
