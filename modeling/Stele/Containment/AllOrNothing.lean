import Stele.Archive.TreeCodec
import Stele.Containment.Collection
import Stele.Containment.Removal
import Stele.Ledger.Steps
import Stele.Python.Strings

/-! When run_in_sandbox keeps all of a parser's output or nothing: what is collected is stored under its
tree object, unless a file cannot be opened or a name is not UTF-8. -/
namespace Stele
open Python

section Paths

variable {f g : CollectedFile}

/-- A path below the artifact directory. -/
structure CollectedFile.Below (f : CollectedFile) : Prop where
  nonempty : f.parts ≠ []
  names : ∀ t ∈ f.parts, IsName t

namespace CollectedFile.Below

lemma components_relative (h : f.Below) : components f.relative = f.parts := components_join h.nonempty h.names

lemma validate (h : f.Below) : validateTreePath f.relative = .ok () := by
  obtain ⟨c,hc,hslash⟩ := head_join h.nonempty h.names
  change f.relative.head? = some c at hc
  have hnul : (0 : CodePoint) ∉ f.relative := by
    have hall : ∀ c ∈ f.relative, c ≠ 0 := by
      refine forall_mem_intercalate ?_ fun t ht c hc hzero => (h.names t ht).noNul (hzero ▸ hc)
      intro c hc
      rw [List.mem_singleton.mp hc]
      decide
    exact fun h0 => hall 0 h0 rfl
  have hsafe : (components f.relative).any isUnsafePart = false := by
    rw [h.components_relative,safe_join h.names]
  rw [validateTreePath,if_neg,hsafe]
  · rfl
  · rintro (hempty | hzero | hhead)
    · rw [hempty] at hc
      cases hc
    · exact hnul hzero
    · rw [hc] at hhead
      exact hslash (Option.some.inj hhead)

lemma relative_inj (hf : f.Below) (hg : g.Below) (h : f.relative = g.relative) : f.parts = g.parts := by
  rw [← hf.components_relative,h,hg.components_relative]

lemma artifactRelativePath (h : f.Below) (config : SandboxConfig) :
    artifactRelativePath config.artifactDir (f.path config) = .ok f.relative := by
  have hsafe := safe_join h.names
  have hrel : (f.path config).relativeTo config.artifactDir = some ⟨0,f.parts⟩ := by
    rw [CollectedFile.path,PurePath.join,if_neg (by simp),PurePath.relativeTo,if_pos ⟨rfl,by simp⟩,List.drop_left]
  rw [Stele.artifactRelativePath,hrel]
  simp only [hsafe,h.nonempty,Bool.false_eq_true,or_self,if_false]
  rw [PurePath.toStr,if_neg (by simp [h.nonempty])]
  rfl

end CollectedFile.Below

/-- No file is above another one. -/
lemma checkNoFileDirClash_ok {fs : List CollectedFile} (hbelow : ∀ f ∈ fs, f.Below)
    (hapart : ∀ f ∈ fs, ∀ g ∈ fs, f.parts <+: g.parts → f.parts = g.parts) {digest : CollectedFile → PyStr} :
    checkNoFileDirClash (fs.map fun f => (f.relative,digest f)) = .ok () := by
  rw [checkNoFileDirClash,if_neg]
  intro hclash
  obtain ⟨p,hp,hclash⟩ := List.any_eq_true.mp hclash
  obtain ⟨d,hd,hclash⟩ := List.any_eq_true.mp hclash
  obtain ⟨q,hq,heq⟩ := List.any_eq_true.mp hclash
  obtain ⟨f,hf,rfl⟩ := List.mem_map.mp hp
  obtain ⟨g,hg,rfl⟩ := List.mem_map.mp hq
  obtain ⟨i,hi,rfl⟩ := List.mem_map.mp hd
  rw [(hbelow f hf).components_relative] at hi heq
  rw [List.mem_range'_1] at hi
  have hlen : (f.parts.take i).length = i := List.length_take_of_le (by omega)
  have htake : (⟨f.parts.take i,[],true⟩ : CollectedFile).Below :=
    ⟨fun h => by rw [show f.parts.take i = [] from h] at hlen; simp at hlen; omega,
      fun t ht => (hbelow f hf).names t (List.mem_of_mem_take ht)⟩
  have hparts : g.parts = f.parts.take i := (hbelow g hg).relative_inj htake (of_decide_eq_true heq)
  have hsame := hapart g hg f hf (hparts ▸ List.take_prefix i f.parts)
  have := congrArg List.length (hsame.symm.trans hparts)
  omega

end Paths

section Storing

variable {H : Hasher} {a : Archive} {config : SandboxConfig}

/-- Each blob has the digest that it is stored under. -/
def Archive.Intact (H : Hasher) (a : Archive) : Prop := ∀ digest data, a.blobs digest = some data → H.hexdigest data = digest

/-- A blob with this digest is stored. -/
def Archive.Holds (a : Archive) (digest : PyStr) : Prop := (a.blobs digest).isSome

lemma Archive.Grows.holds {b : Archive} {digest : PyStr} (h : a.Grows b) (hd : a.Holds digest) : b.Holds digest := by
  obtain ⟨data,hdata⟩ := Option.isSome_iff_exists.mp hd
  exact Option.isSome_iff_exists.mpr ⟨data,h.blobs digest data hdata⟩

/-- Storing works in an intact archive. -/
lemma Archive.Intact.putBytes (ha : a.Intact H) (data : Bytes) :
    ∃ a', a.putBytes H data = (.ok (H.hexdigest data),a') ∧ a'.Intact H ∧ a.Grows a' ∧ a'.Holds (H.hexdigest data) := by
  have hgrows := Archive.putBytes_grows (H := H) data a
  unfold Archive.putBytes at hgrows ⊢
  cases hb : a.blobs (H.hexdigest data) with
  | some stored =>
    rw [hb] at hgrows
    simp only [ha _ _ hb,if_true] at hgrows ⊢
    exact ⟨a,rfl,ha,hgrows,Option.isSome_iff_exists.mpr ⟨stored,hb⟩⟩
  | none =>
    rw [hb] at hgrows
    refine ⟨_,rfl,fun digest stored hs => ?_,hgrows,?_⟩
    · simp only at hs
      split_ifs at hs with hd
      · rw [← Option.some.inj hs,hd]
      · exact ha _ _ hs
    · simp [Archive.Holds]

/-- The item of a file in a manifest. -/
def CollectedFile.item (H : Hasher) (f : CollectedFile) : PyStr × PyStr := (f.relative,H.hexdigest f.content)

section Ingest

variable {files pre rest : List CollectedFile} {m : Manifest}

lemma ingestArtifacts_ok (hfiles : files = pre++rest) (hbelow : ∀ f ∈ rest, f.Below) (hread : ∀ f ∈ rest, f.readable = true)
    (hkeys : (Dict.keys m++rest.map CollectedFile.relative).Nodup) (ha : a.Intact H) :
    ∃ a', ingestArtifacts H config.artifactDir (readsOf files) (rest.map (CollectedFile.path config)) pre.length m a
        = (.ok (m++rest.map (CollectedFile.item H)),a')
      ∧ a'.Intact H ∧ a.Grows a' ∧ ∀ f ∈ rest, a'.Holds (H.hexdigest f.content) := by
  induction rest generalizing pre m a with
  | nil => exact ⟨a,by rw [List.map_nil,ingestArtifacts,List.map_nil,List.append_nil],ha,.refl a,nofun⟩
  | cons f rest ih =>
    obtain ⟨hf,hrest⟩ := List.forall_mem_cons.mp hbelow
    obtain ⟨hfr,hrestr⟩ := List.forall_mem_cons.mp hread
    have hget : readsOf files pre.length = .ok f.content := by
      simp [readsOf,hfiles,hfr]
    have hnew : f.relative ∉ Dict.keys m := fun hm =>
      (List.nodup_append.mp hkeys).2.2 _ hm _ List.mem_cons_self rfl
    obtain ⟨b,hput,hb,hgrows,hholds⟩ := Archive.Intact.putBytes ha f.content
    have hkeys' : (Dict.keys (m++[f.item H])++rest.map CollectedFile.relative).Nodup := by
      rwa [Dict.keys_append,List.append_assoc]
    have hnext : files = (pre++[f])++rest := by rw [hfiles,List.append_assoc,List.singleton_append]
    obtain ⟨a',hin,ha',hgrows',hall⟩ := ih hnext hrest hrestr hkeys' hb
    refine ⟨a',?_,ha',hgrows.trans hgrows',List.forall_mem_cons.mpr ⟨hgrows'.holds hholds,hall⟩⟩
    rw [List.length_append,List.length_singleton] at hin
    rw [List.map_cons,ingestArtifacts,hf.artifactRelativePath,hget]
    simp only [bind,Except.bind,pure,Except.pure,hput]
    rw [Dict.set_new hnew,List.map_cons]
    refine hin.trans ?_
    rw [List.append_assoc,List.singleton_append]

lemma ingestArtifacts_error (hfiles : files = pre++rest) (hbelow : ∀ f ∈ rest, f.Below)
    (hread : ∃ f ∈ rest, f.readable = false) (ha : a.Intact H) :
    ∃ e a', ingestArtifacts H config.artifactDir (readsOf files) (rest.map (CollectedFile.path config)) pre.length m a
      = (.error e,a') := by
  induction rest generalizing pre m a with
  | nil =>
    obtain ⟨f,hf,-⟩ := hread
    cases hf
  | cons f rest ih =>
    obtain ⟨hf,hrest⟩ := List.forall_mem_cons.mp hbelow
    rw [List.map_cons,ingestArtifacts,hf.artifactRelativePath]
    cases hfr : f.readable with
    | false =>
      have hget : readsOf files pre.length = .error .unsafeFile := by simp [readsOf,hfiles,hfr]
      rw [hget]
      exact ⟨_,_,rfl⟩
    | true =>
      have hget : readsOf files pre.length = .ok f.content := by simp [readsOf,hfiles,hfr]
      obtain ⟨b,hput,hb,-,-⟩ := Archive.Intact.putBytes ha f.content
      have hread' : ∃ f ∈ rest, f.readable = false := by
        obtain ⟨g,hg,hgr⟩ := hread
        rcases List.mem_cons.mp hg with rfl | hg
        · rw [hfr] at hgr
          cases hgr
        · exact ⟨g,hg,hgr⟩
      have hnext : files = (pre++[f])++rest := by rw [hfiles,List.append_assoc,List.singleton_append]
      obtain ⟨e,a',hin⟩ := @ih b (pre++[f]) (Dict.set m f.relative (H.hexdigest f.content)) hnext hrest hread' hb
      rw [List.length_append,List.length_singleton] at hin
      rw [hget]
      simp only [bind,Except.bind,pure,Except.pure,hput]
      exact ⟨e,a',hin⟩

end Ingest

lemma Archive.checkEntries_items {fs : List CollectedFile} (hbelow : ∀ f ∈ fs, f.Below)
    (hholds : ∀ f ∈ fs, a.Holds (H.hexdigest f.content)) : a.checkEntries (fs.map (CollectedFile.item H)) = .ok () := by
  induction fs with
  | nil => rfl
  | cons f fs ih =>
    obtain ⟨hf,hfs⟩ := List.forall_mem_cons.mp hbelow
    obtain ⟨hh,hhs⟩ := List.forall_mem_cons.mp hholds
    rw [List.map_cons,CollectedFile.item,checkEntries,hf.validate,Archive.has,if_pos (H.digest_form _)]
    simp only [bind,Except.bind,show (a.blobs (H.hexdigest f.content)).isSome = true from hh,if_true]
    exact ih hfs hhs

/-- The tree object of the output can be stored exactly when every name is UTF-8. -/
lemma Archive.putTree_items {fs : List CollectedFile} (ha : a.Intact H) (hbelow : ∀ f ∈ fs, f.Below)
    (hapart : ∀ f ∈ fs, ∀ g ∈ fs, f.parts <+: g.parts → f.parts = g.parts)
    (hholds : ∀ f ∈ fs, a.Holds (H.hexdigest f.content)) :
    ((∀ f ∈ fs, Encodable f.relative) ∧ ∃ bundle a', a.putTree H (fs.map (CollectedFile.item H)) = (.ok bundle,a')
        ∧ sha256Manifest H (fs.map (CollectedFile.item H)) = .ok bundle ∧ a'.Intact H ∧ a.Grows a' ∧ a'.Holds bundle)
      ∨ (¬∀ f ∈ fs, Encodable f.relative) ∧ ∃ e, a.putTree H (fs.map (CollectedFile.item H)) = (.error e,a) := by
  have hclash : checkNoFileDirClash (fs.map (CollectedFile.item H)) = .ok () := checkNoFileDirClash_ok hbelow hapart
  by_cases hutf : ∀ f ∈ fs, Encodable f.relative
  · obtain ⟨data,hdata⟩ := encodeManifest_total (m := fs.map (CollectedFile.item H)) fun p hp => by
      obtain ⟨f,hf,rfl⟩ := List.mem_map.mp hp
      exact ⟨hutf f hf,digest_encodable (H.digest_form _)⟩
    obtain ⟨a',hstore,ha',hgrows,hbundle⟩ := Archive.Intact.putBytes ha data
    refine Or.inl ⟨hutf,_,a',?_,sha256Manifest_ok.mpr ⟨data,hdata,rfl⟩,ha',hgrows,hbundle⟩
    rw [putTree,checkEntries_items hbelow hholds,hclash,hdata]
    exact hstore
  · refine Or.inr ⟨hutf,?_⟩
    cases hdata : encodeManifest (fs.map (CollectedFile.item H)) with
    | error e => exact ⟨e,by rw [putTree,checkEntries_items hbelow hholds,hclash,hdata]; rfl⟩
    | ok data =>
      refine absurd (fun f hf => ?_) hutf
      exact ((encodeManifest_ok hdata).1 _ (List.mem_map_of_mem hf)).1

end Storing

section Files

variable {left : ArtifactDir}

/-- All files of the artifact directory, each once. -/
def ArtifactDir.files : ArtifactDir → List CollectedFile
  | .absent => []
  | .present _ _ entries => filesUnder [] entries

def ArtifactDir.Named : ArtifactDir → Prop
  | .absent => True
  | .present _ access entries => (FileNode.dir access entries).Named

lemma ArtifactDir.sorted_perm (left : ArtifactDir) : (sortFiles left.walked).Perm left.files := by
  refine (List.perm_insertionSort _ _).trans ?_
  cases left with
  | absent => exact .refl _
  | present linked access entries => exact filesBelow_perm _ [] rfl

lemma ArtifactDir.Named.below (h : left.Named) : (∀ f ∈ left.files, f.Below) ∧ left.files.Pairwise Apart := by
  cases left with
  | absent => exact ⟨nofun,.nil⟩
  | present linked access entries =>
    obtain ⟨hparts,hapart⟩ := filesUnder_parts entries [] h.1 h.2
    refine ⟨fun f hf => ?_,hapart⟩
    obtain ⟨n,s,-,hs,hnames⟩ := hparts f hf
    rw [List.nil_append] at hs
    exact ⟨hs ▸ List.cons_ne_nil n s,hs ▸ hnames⟩

/-- Files of different paths are apart, in any order. -/
lemma apart_all {fs gs : List CollectedFile} (hperm : fs.Perm gs) (hbelow : ∀ f ∈ gs, f.Below) (h : gs.Pairwise Apart) :
    (∀ f ∈ fs, ∀ g ∈ fs, f.parts <+: g.parts → f.parts = g.parts) ∧ (fs.map CollectedFile.relative).Nodup := by
  have hsymm : ∀ f g, Apart f g → Apart g f := fun f g h => ⟨h.2,h.1⟩
  have hfs : fs.Pairwise Apart := (hperm.pairwise_iff (fun {f g} => hsymm f g)).mpr h
  constructor
  · clear hperm
    induction hfs with
    | nil => nofun
    | cons hf _ ih =>
      intro f hmem g hmem' hp
      rcases List.mem_cons.mp hmem with rfl | hfs
      · rcases List.mem_cons.mp hmem' with rfl | hgs
        · rfl
        · exact absurd hp (hf g hgs).1
      · rcases List.mem_cons.mp hmem' with rfl | hgs
        · exact absurd hp (hf f hfs).2
        · exact ih f hfs g hgs hp
  · refine List.Pairwise.map _ (fun f g h => h) ?_
    refine hfs.imp_of_mem fun {f g} hf hg h heq => h.1 ?_
    rw [(hbelow f (hperm.subset hf)).relative_inj (hbelow g (hperm.subset hg)) heq]

end Files

section Run

variable {H : Hasher} {config : SandboxConfig} {host : Host} {dir left : ArtifactDir} {a : Archive}

/-- What a succeeded result stands for: every file of the directory is stored, under the tree object of
its bundle digest. -/
def Stored (H : Hasher) (config : SandboxConfig) (r : RunResult) (left : ArtifactDir) (a : Archive) : Prop :=
  a.Intact H ∧ ∃ fs : List CollectedFile, fs.Perm left.files ∧ r.artifactPaths = fs.map (CollectedFile.path config)
    ∧ r.artifactDigests = fs.map (CollectedFile.item H) ∧ (∀ f ∈ fs, a.Holds (H.hexdigest f.content))
    ∧ ∃ bundle, r.artifactBundleDigest = some bundle ∧ sha256Manifest H r.artifactDigests = .ok bundle ∧ a.Holds bundle

/-- A succeeded result with its output stored, or an empty directory and nothing stored but the input. -/
def AllOrNothing (H : Hasher) (config : SandboxConfig) (host : Host) (a : Archive) :
    Except Exc RunResult × ArtifactDir × Archive → Prop
  | (.ok r,left,a') => (r.succeeded = true ∧ Stored H config r left a')
      ∨ (r.succeeded = false ∧ left.Emptied ∧ (a' = a ∨ a' = (host.stage a).2))
  | (.error _,left,a') => left.Emptied ∧ (a' = a ∨ a' = (host.stage a).2)

/-- The parser is run. -/
def Started (host : Host) (dir : ArtifactDir) (a : Archive) : Prop :=
  checkFresh dir = .ok () ∧ host.select = .ok () ∧ (host.stage a).1 = .ok ()

/-- The run reports success, and the output is one that collection takes. -/
def Succeeds (config : SandboxConfig) (outcome : ExecutionOutcome) (left : ArtifactDir) : Prop :=
  outcome.failure = none ∧ genericFailure outcome = none ∧ left.Tidy config

/-- What the host and the parser's output have to be like. -/
def CanKeep (config : SandboxConfig) (host : Host) (dir : ArtifactDir) : Prop :=
  match host.execute dir,host.cleanup with
  | (.error _,left),_ => left.Clearable host.fileSystem
  | (.ok _,left),.error _ => left.Emptied
  | (.ok outcome,left),.ok () =>
    (Succeeds config outcome left → ∀ f ∈ left.files, f.readable = true ∧ Encodable f.relative)
      ∧ (¬Succeeds config outcome left → left.Clearable host.fileSystem)

lemma collected_failure {outcome : ExecutionOutcome} (h : ¬Succeeds config outcome left) :
    ∃ files reason, collected config outcome left = (files,some reason) := by
  unfold collected
  cases hf : outcome.failure.or (genericFailure outcome) with
  | some reason => exact ⟨_,_,rfl⟩
  | none =>
    cases hc : collectArtifactPaths config left with
    | error e => exact ⟨_,_,rfl⟩
    | ok files =>
      rw [Option.or_eq_none_iff] at hf
      exact absurd ⟨hf.1,hf.2,(collectArtifactPaths_ok.mp hc).1⟩ h

lemma collected_success {outcome : ExecutionOutcome} (h : Succeeds config outcome left) :
    collected config outcome left = (sortFiles left.walked,none) := by
  obtain ⟨hfailure,hgeneric,htidy⟩ := h
  rw [collected,hfailure,hgeneric,collectArtifactPaths_ok.mpr ⟨htidy,rfl⟩]
  rfl

lemma result_succeeded {outcome : ExecutionOutcome} {files : List CollectedFile} {digests : Manifest} {bundle : Option PyStr}
    (h : genericFailure outcome = none) : (result config outcome files digests bundle none).succeeded = true := by
  unfold genericFailure at h
  split_ifs at h with htime hviolation hexit
  simp [result,RunResult.succeeded,htime,not_not.mp hexit]

/-- A failed run leaves nothing, unless something is in the way of removing it. -/
lemma finishRun_failure {outcome : ExecutionOutcome} {created : Bool} (h : ¬Succeeds config outcome left) :
    AllOrNothing H config host a (finishRun H config host.fileSystem created outcome left (host.stage a).2) ↔ left.Clearable host.fileSystem := by
  obtain ⟨files,reason,hcollected⟩ := collected_failure h
  rw [← removeOutput_emptied host.fileSystem left created,finishRun,hcollected]
  simp only
  rcases hremove : removeOutput host.fileSystem left created with ⟨e | ⟨⟩,left'⟩
  · simp [AllOrNothing]
  · simp [AllOrNothing,result,RunResult.succeeded]

/-- A succeeded run stores everything, unless a file cannot be opened or a name is not UTF-8: then it
raises, with that file still there. -/
lemma finishRun_success {outcome : ExecutionOutcome} {created : Bool} (ha : (host.stage a).2.Intact H)
    (hnamed : left.Named) (h : Succeeds config outcome left) :
    AllOrNothing H config host a (finishRun H config host.fileSystem created outcome left (host.stage a).2)
      ↔ ∀ f ∈ left.files, f.readable = true ∧ Encodable f.relative := by
  obtain ⟨hbelow,hapart⟩ := hnamed.below
  have hperm := left.sorted_perm
  have hfs : ∀ f ∈ sortFiles left.walked, f.Below := fun f hf => hbelow f (hperm.subset hf)
  obtain ⟨hclash,hkeys⟩ := apart_all hperm hbelow hapart
  -- a run that raises leaves the file it raises for
  have hraises : ∀ e a', (∃ f ∈ left.files, ¬(f.readable = true ∧ Encodable f.relative)) →
      ¬AllOrNothing H config host a (.error e,left,a') := by
    rintro e a' ⟨f,hf,-⟩ ⟨hempty,-⟩
    cases left with
    | absent => cases hf
    | present linked access entries =>
      rw [show entries = [] from hempty] at hf
      cases hf
  rw [finishRun,collected_success h]
  simp only
  by_cases hread : ∀ f ∈ sortFiles left.walked, f.readable = true
  · obtain ⟨b,hin,hb,-,hholds⟩ := @ingestArtifacts_ok H (host.stage a).2 config _ [] _ [] rfl hfs hread hkeys ha
    simp only [List.length_nil,List.nil_append] at hin
    rw [hin]
    simp only
    rcases Archive.putTree_items hb hfs hclash hholds with ⟨hutf,bundle,a',hput,hsha,ha',hgrows,hbundle⟩ | ⟨hutf,e,hput⟩
    · rw [hput]
      refine iff_of_true (Or.inl ⟨result_succeeded h.2.1,ha',_,hperm,rfl,rfl,fun f hf => hgrows.holds (hholds f hf),
        bundle,rfl,hsha,hbundle⟩) fun f hf => ?_
      exact ⟨hread f (hperm.symm.subset hf),hutf f (hperm.symm.subset hf)⟩
    · rw [hput]
      have hbad : ∃ f ∈ left.files, ¬(f.readable = true ∧ Encodable f.relative) := by
        by_contra hall
        refine hutf fun f hf => ?_
        by_contra hf'
        exact hall ⟨f,hperm.subset hf,fun h => hf' h.2⟩
      refine iff_of_false (hraises e b hbad) fun hall => ?_
      obtain ⟨f,hf,hf'⟩ := hbad
      exact hf' (hall f hf)
  · have hbad : ∃ f ∈ sortFiles left.walked, f.readable = false := by
      by_contra hall
      refine hread fun f hf => ?_
      by_contra hf'
      exact hall ⟨f,hf,Bool.eq_false_of_not_eq_true hf'⟩
    obtain ⟨e,b,hin⟩ := @ingestArtifacts_error H (host.stage a).2 config _ [] _ [] rfl hfs hbad ha
    simp only [List.length_nil,List.nil_append] at hin
    rw [hin]
    obtain ⟨f,hf,hf'⟩ := hbad
    have hnot : ¬(f.readable = true ∧ Encodable f.relative) := fun h => by rw [hf'] at h; cases h.1
    exact iff_of_false (hraises e b ⟨f,hperm.subset hf,hnot⟩) fun hall => hnot (hall f (hperm.subset hf))

/-- A run is all or nothing exactly when what its parser leaves can be kept or cleared: of a run that
succeeds, every file can be opened and has a name that is UTF-8, and the staging copy can be removed; of
any other run, nothing is in the way of removing what is left. -/
theorem runInSandbox_all_or_nothing (hdir : dir.Emptied) (hstage : (host.stage a).2.Intact H)
    (hnamed : (host.execute dir).2.Named) :
    AllOrNothing H config host a (runInSandbox H config host dir a) ↔ (Started host dir a → CanKeep config host dir) := by
  unfold runInSandbox
  cases hfresh : checkFresh dir with
  | error e => exact iff_of_true ⟨hdir,Or.inl rfl⟩ fun h => by cases hfresh.symm.trans h.1
  | ok _ =>
  cases hselect : host.select with
  | error e => exact iff_of_true ⟨hdir,Or.inl rfl⟩ fun h => by cases hselect.symm.trans h.2.1
  | ok _ =>
  rcases hstaged : host.stage a with ⟨e | ⟨⟩,b⟩
  · refine iff_of_true ⟨hdir,Or.inr (by rw [hstaged])⟩ fun h => ?_
    have := h.2.2
    rw [hstaged] at this
    cases this
  · have hb : (host.stage a).2 = b := by rw [hstaged]
    have hstart : Started host dir a := ⟨hfresh,hselect,by rw [hstaged]⟩
    rw [show ((Started host dir a → CanKeep config host dir) ↔ CanKeep config host dir) from ⟨fun h => h hstart,fun h _ => h⟩]
    rw [hb] at hstage
    simp only [bind,Except.bind]
    unfold CanKeep
    rcases hrun : host.execute dir with ⟨e | outcome,left⟩
    · simp only
      rw [← removeOutput_emptied host.fileSystem left dir.isAbsent]
      exact ⟨And.left,fun h => ⟨h,Or.inr hb.symm⟩⟩
    · rw [hrun] at hnamed
      cases hclean : host.cleanup with
      | error e => exact ⟨And.left,fun h => ⟨h,Or.inr hb.symm⟩⟩
      | ok _ =>
        simp only
        by_cases hsuccess : Succeeds config outcome left
        · rw [← hb] at hstage ⊢
          rw [finishRun_success hstage hnamed hsuccess]
          exact ⟨fun h => ⟨fun _ => h,fun hnot => absurd hsuccess hnot⟩,fun h => h.1 hsuccess⟩
        · rw [← hb,finishRun_failure hsuccess]
          exact ⟨fun h => ⟨fun hs => absurd hs hsuccess,fun _ => h⟩,fun h => h.2 hsuccess⟩

/-- A file system on which every call works. -/
def FileSystem.willing : FileSystem := ⟨fun _ => true,fun _ => true,fun _ => true,1000⟩

/-- A host whose parser succeeds and leaves this. -/
def leavingHost (left : ArtifactDir) : Host where
  select := .ok ()
  stage a := (.ok (),a)
  execute _ := (.ok ⟨0,false,none,none⟩,left)
  cleanup := .ok ()
  fileSystem := .willing

def runConfig : SandboxConfig where
  command := [lit "true"]
  artifactDir := ⟨1,[lit "out"]⟩
  inputPath := none
  scriptPath := none
  extraRoBinds := []
  env := []
  timeoutSeconds := 300
  execAllowlist := []
  writableScratch := true
  maxOutputBytes := 100
  maxOutputFiles := 10
  env_nodup := .nil

/-- Two files, one of them in a directory. -/
def plainOutput : ArtifactDir :=
  .present false .all [(lit "a",.file [1] true),(lit "d",.dir .all [(lit "b",.file [2,3] true)])]

/-- What a parser leaves that writes a file with the name b"\xff". -/
def rawNameOutput : ArtifactDir := .present false .all [([⟨0xDCFF,by decide⟩],.file [1] true)]

lemma plainOutput_named : plainOutput.Named := by
  have ha : IsName (lit "a") := ⟨by decide,by decide,by decide,by decide,by decide⟩
  have hd : IsName (lit "d") := ⟨by decide,by decide,by decide,by decide,by decide⟩
  have hb : IsName (lit "b") := ⟨by decide,by decide,by decide,by decide,by decide⟩
  exact ⟨by decide,ha,trivial,hd,⟨by decide,hb,trivial,trivial⟩,trivial⟩

lemma empty_intact : Archive.empty.Intact Hasher.checksum := fun _ _ h => by cases h

/-- A run that leaves such output. -/
theorem runInSandbox_all_or_nothing_plain :
    ArtifactDir.absent.Emptied ∧ ((leavingHost plainOutput).stage .empty).2.Intact Hasher.checksum
      ∧ ((leavingHost plainOutput).execute .absent).2.Named
      ∧ (AllOrNothing .checksum runConfig (leavingHost plainOutput) .empty
          (runInSandbox .checksum runConfig (leavingHost plainOutput) .absent .empty)
        ↔ (Started (leavingHost plainOutput) .absent .empty → CanKeep runConfig (leavingHost plainOutput) .absent)) :=
  ⟨trivial,empty_intact,plainOutput_named,runInSandbox_all_or_nothing trivial empty_intact plainOutput_named⟩

/-- The run has raised UnicodeEncodeError and left one file. -/
def leftOneFile : Except Exc RunResult × ArtifactDir × Archive → Bool
  | (.error e,left,_) => decide (e = .unicodeEncodeError) && decide (left.files.length = 1)
  | _ => false

/-- A name that is not UTF-8 makes the call raise after the blobs are stored, and the file stays. -/
theorem runInSandbox_raw_name :
    ∃ e left a', runInSandbox .checksum runConfig (leavingHost rawNameOutput) .absent .empty = (.error e,left,a')
      ∧ e = .unicodeEncodeError ∧ left.files.length = 1
      ∧ ¬AllOrNothing .checksum runConfig (leavingHost rawNameOutput) .empty (.error e,left,a') := by
  have hrun : leftOneFile (runInSandbox .checksum runConfig (leavingHost rawNameOutput) .absent .empty) = true := by
    decide +kernel
  unfold leftOneFile at hrun
  split at hrun
  · rename_i e left a' heq
    rw [Bool.and_eq_true,decide_eq_true_eq,decide_eq_true_eq] at hrun
    refine ⟨e,left,a',heq,hrun.1,hrun.2,fun h => ?_⟩
    cases left with
    | absent => cases hrun.2
    | present linked access entries =>
      rw [show entries = [] from h.1] at hrun
      cases hrun.2
  · cases hrun

end Run

end Stele
