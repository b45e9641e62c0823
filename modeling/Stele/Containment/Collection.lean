import Stele.Containment.Runner
import Stele.Python.JsonRoundTrip

/-! What collect_artifact_paths takes: the tidy trees within the limits, and of them every file once, by
paths of which none leads into another. -/
namespace Stele
open Python

section Collect

variable {config : SandboxConfig}

mutual

/-- Directories that can be read, regular files, and nothing else. -/
def FileNode.tidy : FileNode → Bool
  | .file _ _ => true
  | .dir access entries => access.listable && (access.searchable || entries.isEmpty) && tidyEntries entries
  | _ => false

def tidyEntries : List (PyStr × FileNode) → Bool
  | [] => true
  | (_,node) :: entries => node.tidy && tidyEntries entries

end

def FileNode.isFile : FileNode → Bool
  | .file _ _ => true
  | _ => false

def FileNode.isRealDir : FileNode → Bool
  | .dir _ _ => true
  | _ => false

/-- The files right below a directory. -/
def filesHere (at' : List PyStr) (entries : Listing) : List CollectedFile :=
  entries.filterMap fun p => match p.2 with
    | .file content readable => some ⟨at'++[p.1],content,readable⟩
    | _ => none

mutual

/-- The files below a name, in the order of the walk. -/
def FileNode.filesBelow (at' : List PyStr) : FileNode → List CollectedFile
  | .dir _ entries => filesHere at' entries++filesBelow at' entries
  | _ => []

def filesBelow (at' : List PyStr) : List (PyStr × FileNode) → List CollectedFile
  | [] => []
  | (name,node) :: entries => node.filesBelow (at'++[name])++filesBelow at' entries

end

/-- What has been collected with these files too. -/
def Collecting.add (c : Collecting) (fs : List CollectedFile) : Collecting :=
  ⟨c.artifacts++fs,c.total+(fs.map fun f => f.content.length).sum⟩

def Collecting.Within (config : SandboxConfig) (c : Collecting) : Prop :=
  c.artifacts.length ≤ config.maxOutputFiles ∧ c.total ≤ config.maxOutputBytes

lemma Collecting.add_nil (c : Collecting) : c.add [] = c := by simp [add]

lemma Collecting.add_add (c : Collecting) (fs gs : List CollectedFile) : (c.add fs).add gs = c.add (fs++gs) := by
  simp [add,Nat.add_assoc]

lemma Collecting.Within.of_add {c : Collecting} {fs : List CollectedFile} (h : (c.add fs).Within config) :
    c.Within config := by
  obtain ⟨hn,ht⟩ := h
  simp only [Collecting.add,List.length_append] at hn ht
  exact ⟨by omega,by omega⟩

variable {at' : List PyStr} {entries : Listing} {c c' : Collecting} {access : Access} {searchable : Bool}

lemma visitDirnames_ok : visitDirnames searchable entries = .ok () ↔
    ∀ p ∈ entries, searchable = true ∧ p.2.isRealDir = true := by
  induction entries with
  | nil => exact ⟨fun _ => nofun,fun _ => rfl⟩
  | cons p entries ih =>
    obtain ⟨name,node⟩ := p
    rw [List.forall_mem_cons,← ih]
    cases searchable with
    | false => simp [visitDirnames]
    | true => cases node <;> simp [visitDirnames,FileNode.isRealDir]

/-- Where nothing is collected. -/
lemma unchanged (hc : c.Within config) : (Except.ok c : Except CollectError Collecting) = .ok c' ↔
    c' = c.add [] ∧ c'.Within config := by
  rw [Collecting.add_nil,Except.ok.injEq]
  constructor
  · rintro rfl
    exact ⟨rfl,hc⟩
  · exact fun h => h.1.symm

lemma visitFilenames_ok (hc : c.Within config) : visitFilenames config searchable at' entries c = .ok c' ↔
    (∀ p ∈ entries, searchable = true ∧ p.2.isFile = true) ∧ c' = c.add (filesHere at' entries) ∧ c'.Within config := by
  induction entries generalizing c with
  | nil =>
    rw [visitFilenames,unchanged hc]
    exact ⟨fun h => ⟨nofun,h⟩,And.right⟩
  | cons p entries ih =>
    obtain ⟨name,node⟩ := p
    rw [List.forall_mem_cons]
    cases searchable with
    | false => simp [visitFilenames]
    | true =>
      cases node with
      | file content readable =>
        have hhere : c.add (filesHere at' ((name,.file content readable) :: entries))
            = (c.add [⟨at'++[name],content,readable⟩]).add (filesHere at' entries) := by
          rw [Collecting.add_add]
          rfl
        have hone : (⟨c.artifacts++[⟨at'++[name],content,readable⟩],c.total+content.length⟩ : Collecting)
            = c.add [⟨at'++[name],content,readable⟩] := by simp [Collecting.add]
        rw [hhere,visitFilenames,hone]
        by_cases hwithin : (c.add [⟨at'++[name],content,readable⟩]).Within config
        · have hlimits : ¬config.maxOutputFiles < c.artifacts.length+1 ∧ ¬config.maxOutputBytes < c.total+content.length := by
            simpa [Collecting.Within,Collecting.add] using hwithin
          rw [if_neg (by decide)]
          simp only
          rw [if_neg hlimits.1,if_neg hlimits.2,ih hwithin]
          simp [FileNode.isFile]
        · have hlimits : config.maxOutputFiles < c.artifacts.length+1 ∨ config.maxOutputBytes < c.total+content.length := by
            by_contra hnot
            refine hwithin ?_
            rw [not_or,not_lt,not_lt] at hnot
            simpa [Collecting.Within,Collecting.add] using hnot
          constructor
          · intro h
            split_ifs at h <;> omega
          · rintro ⟨-,rfl,h⟩
            exact absurd h.of_add hwithin
      | link toDir => simp [visitFilenames,FileNode.isFile]
      | special => simp [visitFilenames,FileNode.isFile]
      | dir access es => simp [visitFilenames,FileNode.isFile]

lemma filesHere_filter : filesHere at' (entries.filter fun p => !p.2.isDir) = filesHere at' entries := by
  induction entries with
  | nil => rfl
  | cons p entries ih =>
    obtain ⟨name,node⟩ := p
    cases node with
    | file content readable => exact congrArg (_ :: ·) ih
    | link toDir => cases toDir <;> exact ih
    | special => exact ih
    | dir access es => exact ih

lemma visit_ok (hc : c.Within config) : visit config access at' entries c = .ok c' ↔
    (access.listable = true ∧ ∀ p ∈ entries, access.searchable = true ∧ (p.2.isRealDir = true ∨ p.2.isFile = true)) ∧
      c' = c.add (filesHere at' entries) ∧ c'.Within config := by
  have hsplit : ((∀ p ∈ entries.filter fun p => p.2.isDir, access.searchable = true ∧ p.2.isRealDir = true) ∧
      ∀ p ∈ entries.filter fun p => !p.2.isDir, access.searchable = true ∧ p.2.isFile = true) ↔
      ∀ p ∈ entries, access.searchable = true ∧ (p.2.isRealDir = true ∨ p.2.isFile = true) := by
    simp only [List.mem_filter,and_imp]
    rw [← forall_and]
    refine forall_congr' fun p => ?_
    rw [← forall_and]
    refine forall_congr' fun _ => ?_
    obtain ⟨name,node⟩ := p
    cases node with
    | file content readable => simp [FileNode.isDir,FileNode.isRealDir,FileNode.isFile]
    | link toDir => cases toDir <;> simp [FileNode.isDir,FileNode.isRealDir,FileNode.isFile]
    | special => simp [FileNode.isDir,FileNode.isRealDir,FileNode.isFile]
    | dir access es => simp [FileNode.isDir,FileNode.isRealDir,FileNode.isFile]
  rw [visit]
  cases hl : access.listable with
  | false => simp
  | true =>
    rw [if_neg (by decide),except_bind_ok,← hsplit]
    constructor
    · rintro ⟨⟨⟩,hdirs,hfiles⟩
      rw [visitDirnames_ok] at hdirs
      rw [visitFilenames_ok hc,filesHere_filter] at hfiles
      exact ⟨⟨rfl,hdirs,hfiles.1⟩,hfiles.2⟩
    · rintro ⟨⟨-,hdirs,hfiles⟩,hadd⟩
      exact ⟨(),visitDirnames_ok.mpr hdirs,(visitFilenames_ok hc).mpr ⟨hfiles,by rwa [filesHere_filter]⟩⟩

lemma tidyEntries_iff : tidyEntries entries = true ↔ ∀ p ∈ entries, p.2.tidy = true := by
  induction entries with
  | nil => exact ⟨fun _ => nofun,fun _ => rfl⟩
  | cons p entries ih =>
    obtain ⟨name,node⟩ := p
    rw [tidyEntries,Bool.and_eq_true,List.forall_mem_cons,ih]

/-- A directory is tidy when its own entries pass and its directories are tidy. -/
lemma tidy_dir : (FileNode.dir access entries).tidy = true ↔
    (access.listable = true ∧ ∀ p ∈ entries, access.searchable = true ∧ (p.2.isRealDir = true ∨ p.2.isFile = true)) ∧
      ∀ p ∈ entries, p.2.isRealDir = true → p.2.tidy = true := by
  have hnode : ∀ node : FileNode, node.tidy = true ↔
      (node.isRealDir = true ∨ node.isFile = true) ∧ (node.isRealDir = true → node.tidy = true) := by
    intro node
    cases node <;> simp [FileNode.isRealDir,FileNode.isFile,FileNode.tidy]
  rw [FileNode.tidy,Bool.and_eq_true,Bool.and_eq_true,Bool.or_eq_true,List.isEmpty_iff,tidyEntries_iff]
  constructor
  · rintro ⟨⟨hl,hs⟩,hall⟩
    refine ⟨⟨hl,fun p hp => ⟨?_,((hnode p.2).mp (hall p hp)).1⟩⟩,fun p hp _ => hall p hp⟩
    exact hs.resolve_right (List.ne_nil_of_mem hp)
  · rintro ⟨⟨hl,hhere⟩,hbelow⟩
    refine ⟨⟨hl,?_⟩,fun p hp => (hnode p.2).mpr ⟨(hhere p hp).2,hbelow p hp⟩⟩
    cases entries with
    | nil => exact Or.inr rfl
    | cons p entries => exact Or.inl (hhere p List.mem_cons_self).1

mutual

/-- The walk takes a tree exactly when its directories are tidy, and then all files in it, within the
limits. -/
lemma walkNode_ok (node : FileNode) (at' : List PyStr) (c c' : Collecting) (hc : c.Within config) :
    walkNode config at' node c = .ok c' ↔
      (node.isRealDir = true → node.tidy = true) ∧ c' = c.add (node.filesBelow at') ∧ c'.Within config := by
  cases node with
  | dir access entries =>
    rw [walkNode,except_bind_ok]
    have hreal : (FileNode.dir access entries).isRealDir = true := rfl
    simp only [hreal,forall_true_left,tidy_dir]
    constructor
    · rintro ⟨d,hvisit,hwalk⟩
      obtain ⟨hhere,rfl,hd⟩ := (visit_ok hc).mp hvisit
      obtain ⟨hbelow,rfl,hc'⟩ := (walkEntries_ok entries at' _ c' hd).mp hwalk
      exact ⟨⟨hhere,hbelow⟩,by rw [Collecting.add_add]; rfl,hc'⟩
    · rintro ⟨⟨hhere,hbelow⟩,rfl,hc'⟩
      have hadd : c.add ((FileNode.dir access entries).filesBelow at')
          = (c.add (filesHere at' entries)).add (filesBelow at' entries) := by
        rw [Collecting.add_add]
        rfl
      rw [hadd] at hc' ⊢
      exact ⟨_,(visit_ok hc).mpr ⟨hhere,rfl,hc'.of_add⟩,(walkEntries_ok entries at' _ _ hc'.of_add).mpr ⟨hbelow,rfl,hc'⟩⟩
  | file content readable =>
    rw [walkNode,unchanged hc]
    · exact ⟨fun h => ⟨nofun,h⟩,And.right⟩
    · nofun
  | link toDir =>
    rw [walkNode,unchanged hc]
    · exact ⟨fun h => ⟨nofun,h⟩,And.right⟩
    · nofun
  | special =>
    rw [walkNode,unchanged hc]
    · exact ⟨fun h => ⟨nofun,h⟩,And.right⟩
    · nofun

lemma walkEntries_ok (entries : List (PyStr × FileNode)) (at' : List PyStr) (c c' : Collecting) (hc : c.Within config) :
    walkEntries config at' entries c = .ok c' ↔
      (∀ p ∈ entries, p.2.isRealDir = true → p.2.tidy = true) ∧ c' = c.add (filesBelow at' entries) ∧
        c'.Within config := by
  cases entries with
  | nil =>
    rw [walkEntries,unchanged hc]
    exact ⟨fun h => ⟨nofun,h⟩,And.right⟩
  | cons p entries =>
    obtain ⟨name,node⟩ := p
    rw [walkEntries,except_bind_ok,List.forall_mem_cons]
    constructor
    · rintro ⟨d,hnode,hwalk⟩
      obtain ⟨hn,rfl,hd⟩ := (walkNode_ok node _ _ _ hc).mp hnode
      obtain ⟨hes,rfl,hc'⟩ := (walkEntries_ok entries at' _ c' hd).mp hwalk
      exact ⟨⟨hn,hes⟩,by rw [Collecting.add_add]; rfl,hc'⟩
    · rintro ⟨⟨hn,hes⟩,rfl,hc'⟩
      have hadd : c.add (filesBelow at' ((name,node) :: entries))
          = (c.add (node.filesBelow (at'++[name]))).add (filesBelow at' entries) := by
        rw [Collecting.add_add]
        rfl
      rw [hadd] at hc' ⊢
      exact ⟨_,(walkNode_ok node _ _ _ hc).mpr ⟨hn,rfl,hc'.of_add⟩,(walkEntries_ok entries at' _ _ hc'.of_add).mpr ⟨hes,rfl,hc'⟩⟩

end

/-- The files of a directory, by the walk. -/
def ArtifactDir.walked : ArtifactDir → List CollectedFile
  | .absent => []
  | .present _ access entries => (FileNode.dir access entries).filesBelow []

/-- What collection takes: a directory of its own, tidy and within the limits. -/
def ArtifactDir.Tidy (config : SandboxConfig) : ArtifactDir → Prop
  | .absent => True
  | .present linked access entries =>
    linked = false ∧ (FileNode.dir access entries).tidy = true
      ∧ (Collecting.add ⟨[],0⟩ ((FileNode.dir access entries).filesBelow [])).Within config

theorem collectArtifactPaths_ok {dir : ArtifactDir} {fs : List CollectedFile} :
    collectArtifactPaths config dir = .ok fs ↔ dir.Tidy config ∧ fs = sortFiles dir.walked := by
  cases dir with
  | absent =>
    rw [collectArtifactPaths,Except.ok.injEq]
    exact ⟨fun h => ⟨trivial,h.symm⟩,fun h => h.2.symm⟩
  | present linked access entries =>
    cases linked with
    | true => exact ⟨nofun,fun h => absurd h.1.1 (by decide)⟩
    | false =>
      have hstart : (⟨[],0⟩ : Collecting).Within config := ⟨Nat.zero_le _,Nat.zero_le _⟩
      have hwalk := fun c' => walkNode_ok (FileNode.dir access entries) [] ⟨[],0⟩ c' hstart
      rw [collectArtifactPaths]
      constructor
      · intro h
        cases hc : walkNode config [] (.dir access entries) ⟨[],0⟩ with
        | error e =>
          rw [hc] at h
          cases h
        | ok c =>
          rw [hc] at h
          obtain ⟨htidy,rfl,hc'⟩ := (hwalk c).mp hc
          exact ⟨⟨rfl,htidy rfl,hc'⟩,(Except.ok.inj h).symm⟩
      · rintro ⟨⟨-,htidy,hc'⟩,rfl⟩
        rw [(hwalk _).mpr ⟨fun _ => htidy,rfl,hc'⟩]
        rfl

end Collect

section Names

/-- A name that a file system gives. -/
structure IsName (name : PyStr) : Prop where
  nonempty : name ≠ []
  noSlash : cp '/' ∉ name
  noNul : 0 ∉ name
  notDot : name ≠ lit "."
  notDotDot : name ≠ lit ".."

section Joined

variable {parts : List PyStr}

/-- Names that are joined by slashes are the components of the path. -/
lemma components_join (hne : parts ≠ []) (h : ∀ t ∈ parts, IsName t) :
    components (List.intercalate [cp '/'] parts) = parts :=
  List.splitOn_intercalate _ (fun t ht => (h t ht).noSlash) hne

lemma safe_join (h : ∀ t ∈ parts, IsName t) : parts.any isUnsafePart = false := by
  rw [List.any_eq_false]
  intro t ht
  simp [isUnsafePart,(h t ht).nonempty,(h t ht).notDot,(h t ht).notDotDot]

/-- The path is relative. -/
lemma head_join (hne : parts ≠ []) (h : ∀ t ∈ parts, IsName t) :
    ∃ c, (List.intercalate [cp '/'] parts).head? = some c ∧ c ≠ cp '/' := by
  cases parts with
  | nil => exact absurd rfl hne
  | cons t ts =>
    have ht := h t List.mem_cons_self
    cases t with
    | nil => exact absurd rfl ht.nonempty
    | cons c t =>
      refine ⟨c,?_,fun hc => ht.noSlash (hc ▸ List.mem_cons_self)⟩
      cases ts with
      | nil => rw [List.intercalate_singleton]; rfl
      | cons u ts => rw [List.intercalate_cons_cons]; rfl

end Joined

mutual

/-- The names in a tree are names, each once in a directory. -/
def FileNode.Named : FileNode → Prop
  | .dir _ entries => (entries.map Prod.fst).Nodup ∧ NamedEntries entries
  | _ => True

def NamedEntries : List (PyStr × FileNode) → Prop
  | [] => True
  | (name,node) :: entries => IsName name ∧ node.Named ∧ NamedEntries entries

end

mutual

/-- The files under a path, entry by entry. -/
def FileNode.under (path : List PyStr) : FileNode → List CollectedFile
  | .file content readable => [⟨path,content,readable⟩]
  | .dir _ entries => filesUnder path entries
  | _ => []

def filesUnder (path : List PyStr) : List (PyStr × FileNode) → List CollectedFile
  | [] => []
  | (name,node) :: entries => node.under (path++[name])++filesUnder path entries

end

mutual

lemma filesBelow_perm (node : FileNode) (path : List PyStr) (h : node.isRealDir = true) :
    (node.filesBelow path).Perm (node.under path) := by
  cases node with
  | dir access entries => exact filesUnder_perm entries path
  | file content readable => cases h
  | link toDir => cases h
  | special => cases h

lemma filesUnder_perm (entries : List (PyStr × FileNode)) (path : List PyStr) :
    (filesHere path entries++filesBelow path entries).Perm (filesUnder path entries) := by
  cases entries with
  | nil => exact .refl _
  | cons p entries =>
    obtain ⟨name,node⟩ := p
    have ih := filesUnder_perm entries path
    cases node with
    | file content readable => exact ih.cons _
    | link toDir => exact ih
    | special => exact ih
    | dir access es =>
      have hnode := filesBelow_perm (.dir access es) (path++[name]) rfl
      calc filesHere path entries++((FileNode.dir access es).filesBelow (path++[name])++filesBelow path entries)
          = filesHere path entries++(FileNode.dir access es).filesBelow (path++[name])
            ++filesBelow path entries := (List.append_assoc _ _ _).symm
        List.Perm _ ((FileNode.dir access es).filesBelow (path++[name])++filesHere path entries
            ++filesBelow path entries) := List.perm_append_comm.append_right _
        List.Perm _ _ := by
          rw [List.append_assoc]
          exact hnode.append ih

end

/-- Neither path leads into the other. -/
def Apart (f g : CollectedFile) : Prop := ¬f.parts <+: g.parts ∧ ¬g.parts <+: f.parts

lemma apart_of_ne {f g : CollectedFile} {path s t : List PyStr} {n m : PyStr} (h : n ≠ m) (hf : f.parts = path++n :: s)
    (hg : g.parts = path++m :: t) : Apart f g := by
  rw [Apart,hf,hg]
  simp [List.cons_prefix_cons,h,Ne.symm h]

mutual

lemma under_parts (node : FileNode) (path : List PyStr) (h : node.Named) :
    (∀ f ∈ node.under path, ∃ s, f.parts = path++s ∧ ∀ t ∈ s, IsName t) ∧ (node.under path).Pairwise Apart := by
  cases node with
  | dir access entries =>
    obtain ⟨hparts,hapart⟩ := filesUnder_parts entries path h.1 h.2
    refine ⟨fun f hf => ?_,hapart⟩
    obtain ⟨n,s,-,hs,hnames⟩ := hparts f hf
    exact ⟨n :: s,hs,hnames⟩
  | file content readable =>
    refine ⟨fun f hf => ⟨[],?_,nofun⟩,List.pairwise_singleton _ _⟩
    rw [List.mem_singleton.mp hf,List.append_nil]
  | link toDir => exact ⟨nofun,.nil⟩
  | special => exact ⟨nofun,.nil⟩

lemma filesUnder_parts (entries : List (PyStr × FileNode)) (path : List PyStr) (hnodup : (entries.map Prod.fst).Nodup)
    (h : NamedEntries entries) :
    (∀ f ∈ filesUnder path entries, ∃ n s, n ∈ entries.map Prod.fst ∧ f.parts = path++n :: s ∧ ∀ t ∈ n :: s, IsName t) ∧
      (filesUnder path entries).Pairwise Apart := by
  cases entries with
  | nil => exact ⟨nofun,.nil⟩
  | cons p entries =>
    obtain ⟨name,node⟩ := p
    obtain ⟨hname,hnode,hentries⟩ := h
    rw [List.map_cons,List.nodup_cons] at hnodup
    obtain ⟨hhead,hapart⟩ := under_parts node (path++[name]) hnode
    obtain ⟨htail,hapart'⟩ := filesUnder_parts entries path hnodup.2 hentries
    have hhead : ∀ f ∈ node.under (path++[name]), ∃ s, f.parts = path++name :: s ∧ ∀ t ∈ name :: s, IsName t := by
      intro f hf
      obtain ⟨s,hs,hnames⟩ := hhead f hf
      exact ⟨s,by rw [hs,List.append_assoc,List.singleton_append],List.forall_mem_cons.mpr ⟨hname,hnames⟩⟩
    constructor
    · intro f hf
      rcases List.mem_append.mp hf with hf | hf
      · obtain ⟨s,hs,hnames⟩ := hhead f hf
        exact ⟨name,s,List.mem_cons_self,hs,hnames⟩
      · obtain ⟨n,s,hn,hs,hnames⟩ := htail f hf
        exact ⟨n,s,List.mem_cons_of_mem _ hn,hs,hnames⟩
    · refine List.pairwise_append.mpr ⟨hapart,hapart',fun f hf g hg => ?_⟩
      obtain ⟨s,hs,-⟩ := hhead f hf
      obtain ⟨n,t,hn,ht,-⟩ := htail g hg
      have hne : name ≠ n := fun heq => hnodup.1 (heq ▸ hn)
      exact apart_of_ne hne hs ht

end

end Names

end Stele
