import Stele.Verification.CorpusCoverage

/-! Corpus.check beside Corpus.build: when a tree has no problem, it builds to the same entries. -/
namespace Stele
open Python

section Tree

variable {t : CorpusTree} {node n : CorpusNode} {parts : List PyStr} {s : Bool} {es : CorpusListing}
  {raises : Bool} {x : WalkItem}

/-- Every directory below the node can be listed and searched. -/
def CorpusNode.Open (node : CorpusNode) : Prop :=
  ∀ parts l s es, node.find parts = some (.dir l s es) → l = true ∧ s = true

lemma CorpusNode.Open.listed (h : node.Open) {l : Bool} (hf : node.find parts = some (.dir l s es)) :
    node.listed parts = some (s,es) := by
  induction parts generalizing node with
  | nil =>
    obtain rfl := Option.some.inj hf
    obtain ⟨rfl,-⟩ := h [] l s es rfl
    rfl
  | cons name parts ih =>
    cases node with
    | dir l' s' es' =>
      obtain ⟨rfl,rfl⟩ := h [] l' s' es' rfl
      obtain ⟨m,hget,hm⟩ := Option.bind_eq_some_iff.mp hf
      have hopen : m.Open := fun parts' l s es hparts => h (name :: parts') l s es (by
        rw [CorpusNode.find,hget]
        exact hparts)
      rw [CorpusNode.listed,hget]
      exact ih hopen hm
    | file | link | special => cases hf

/-- In an open tree the walk shows whatever is no directory. -/
lemma CorpusNode.Open.shows (h : t.root.top.Open) (hne : parts ≠ []) (hf : t.root.top.find parts = some n)
    (hn : n.isRealDir = false) : ∃ x, t.root.top.Shows [] x ∧ x.parts = parts := by
  obtain ⟨dir,name,rfl⟩ := (List.eq_nil_or_concat' parts).resolve_left hne
  obtain ⟨l,s,es,hdir,-⟩ := find_concat.mp hf
  exact shows_find hf hn (by rw [h.listed hdir]; rfl)

lemma CorpusNode.Open.unblocked (h : node.Open) : ¬node.Blocked raises := by
  rintro ⟨parts,s,es,hl,-,rfl,-⟩
  cases (h parts true false es (listed_find hl)).2

/-- A regular file that lstat finds stands in the tree, or lies beyond a link. -/
lemma lstat_regular {content : Except PyStr Bytes} (h : node.lstat parts = .regular content) :
    node.find parts = some (.file content) ∨ ∃ pre rest toDir beyond, parts = pre++rest ∧ rest ≠ [] ∧
      node.find pre = some (.link toDir beyond) := by
  induction parts generalizing node with
  | nil =>
    cases node with
    | file content' =>
      obtain rfl := Found.regular.inj h
      exact Or.inl rfl
    | link | special | dir => cases h
  | cons name parts ih =>
    cases node with
    | file | special => cases h
    | link toDir beyond => exact Or.inr ⟨[],name :: parts,toDir,beyond,rfl,List.cons_ne_nil _ _,rfl⟩
    | dir l s es =>
      rw [lstat_dir] at h
      cases s with
      | false => cases h
      | true =>
        cases hget : Dict.get es name with
        | none => simp [hget] at h
        | some m =>
          simp only [hget,if_true] at h
          rcases ih h with hf | ⟨pre,rest,toDir,beyond,rfl,hrest,hf⟩
          · refine Or.inl ?_
            rw [CorpusNode.find,hget]
            exact hf
          · refine Or.inr ⟨name :: pre,rest,toDir,beyond,rfl,hrest,?_⟩
            rw [CorpusNode.find,hget]
            exact hf

/-- lstat does not follow a link that a path ends at. -/
lemma lstat_link {toDir : Bool} {beyond : List PyStr → Found} {content : Except PyStr Bytes}
    (h : node.find parts = some (.link toDir beyond)) : node.lstat parts ≠ .regular content := by
  intro hl
  rcases lstat_regular hl with hf | ⟨pre,rest,toDir',beyond',rfl,hrest,hf⟩
  · cases h.symm.trans hf
  · rw [CorpusNode.find_append,hf] at h
    obtain ⟨name,rest,rfl⟩ := List.exists_cons_of_ne_nil hrest
    cases h

end Tree

section Check

variable {H : Hasher} {raises : Bool} {t : CorpusTree} {refuses : PyStr → Option Exc} {c c' : Corpus}
  {name : Option PyStr} {resolved : PyStr} {e : CorpusEntry} {found : Found} {ps : List PyStr}

/-- What is found is the file of the entry. -/
def CorpusEntry.Matches (H : Hasher) (e : CorpusEntry) (found : Found) : Prop :=
  ∃ bytes, found = .regular (.ok bytes) ∧ e.sha256 = H.hexdigest bytes ∧ e.size = bytes.length

lemma checkEntry_spec (h : ∀ exc, found ≠ .failed exc) : ∃ ps, checkEntry H found e = .ok ps ∧
    (ps = [] ↔ e.Matches H found) ∧ ∀ p ∈ ps, e.path <+: p := by
  have hbad : ∀ text, ¬e.Matches H found → checkEntry H found e = .ok [e.path++text] →
      ∃ ps, checkEntry H found e = .ok ps ∧ (ps = [] ↔ e.Matches H found) ∧ ∀ p ∈ ps, e.path <+: p :=
    fun text hm hc => ⟨_,hc,iff_of_false (List.cons_ne_nil _ _) hm,
      List.forall_mem_singleton.mpr (List.prefix_append _ _)⟩
  cases found with
  | failed exc => exact absurd rfl (h exc)
  | missing => exact hbad _ (by rintro ⟨_,hf,-⟩; cases hf) rfl
  | other => exact hbad _ (by rintro ⟨_,hf,-⟩; cases hf) rfl
  | regular content =>
    cases content with
    | error strerror =>
      refine hbad (lit ": unreadable: "++strerror) (by rintro ⟨_,hf,-⟩; cases hf) ?_
      rw [← List.append_assoc]
      rfl
    | ok bytes =>
      by_cases heq : (H.hexdigest bytes,bytes.length) = (e.sha256,e.size)
      · refine ⟨[],?_,iff_of_true rfl ⟨bytes,rfl,?_,?_⟩,List.forall_mem_nil _⟩
        · simp only [checkEntry,hashFile,Except.map,heq,ne_eq,not_true,if_false]
        · exact (Prod.mk.inj heq).1.symm
        · exact (Prod.mk.inj heq).2.symm
      · refine hbad (lit ": content changed since the manifest was taken") ?_ ?_
        · rintro ⟨bytes',hf,hsha,hsize⟩
          obtain rfl := Except.ok.inj (Found.regular.inj hf)
          exact heq (by rw [hsha,hsize])
        · simp only [checkEntry,hashFile,Except.map,ne_eq,heq,not_false_eq_true,if_true]

/-- What Corpus.check speaks for: a tree of directories that can be listed and searched, in which lstat
of an entry's path finds something or nothing, no regular file that can be read stands where a path was
excluded, and no entry lies beyond a link there. -/
structure Corpus.Checkable (c : Corpus) (t : CorpusTree) (refuses : PyStr → Option Exc) : Prop where
  directory : t.root.isDir = true
  listable : t.root.top.Open
  found : ∀ e ∈ c.entries, ∀ exc, t.root.lstatPath refuses e.path ≠ .failed exc
  files : ∀ z ∈ c.excluded, ∀ parts bytes, relPath parts = z.path →
    t.root.top.find parts ≠ some (.file (.ok bytes))
  links : ∀ z ∈ c.excluded, ∀ e ∈ c.entries, ∀ parts rest toDir beyond, relPath parts = z.path →
    components e.path = parts++rest → rest ≠ [] → t.root.top.find parts ≠ some (.link toDir beyond)

lemma lstatPath_eq {root : CorpusRoot} {path : PyStr} (h : ∀ exc, root.lstatPath refuses path ≠ .failed exc) :
    root.lstatPath refuses path = root.lstat (components path) := by
  unfold CorpusRoot.lstatPath at h ⊢
  cases hr : refuses path with
  | some exc => exact absurd (by rw [hr]) (h exc)
  | none => rfl

/-- What check returns of the entries. -/
lemma checkEntries_ok {root : CorpusRoot} {es : List CorpusEntry}
    (h : ∀ e ∈ es, ∀ exc, root.lstatPath refuses e.path ≠ .failed exc) : ∃ problems : List (List PyStr),
    es.mapM (fun entry => checkEntry H (root.lstatPath refuses entry.path) entry) = .ok problems ∧
    List.Forall₂ (fun (e : CorpusEntry) ps => (ps = [] ↔ e.Matches H (root.lstat (components e.path))) ∧
      ∀ p ∈ ps, e.path <+: p) es problems := by
  induction es with
  | nil => exact ⟨[],rfl,.nil⟩
  | cons e es ih =>
    obtain ⟨he,hes⟩ := List.forall_mem_cons.mp h
    obtain ⟨pss,hpss,hf⟩ := ih hes
    obtain ⟨ps,hps,hspec⟩ := checkEntry_spec (H := H) (e := e) he
    rw [lstatPath_eq he] at hspec
    refine ⟨ps :: pss,?_,.cons hspec hf⟩
    rw [List.mapM_cons,hps,hpss]
    rfl

/-- What check returns: the paths that the manifest does not know, and what is wrong with each entry. -/
lemma check_ok (raises : Bool) (hc : c.Checkable t refuses) : ∃ problems : List (List PyStr),
    c.check H raises t.root refuses = .ok
      ((c.added ((t.root.walk raises).items.map WalkItem.rel)).map (·++lit ": not in the corpus manifest")++
        problems.flatten) ∧
    List.Forall₂ (fun (e : CorpusEntry) ps => (ps = [] ↔ e.Matches H (t.root.lstat (components e.path))) ∧
      ∀ p ∈ ps, e.path <+: p) c.entries problems := by
  have hr : (t.root.walk raises).raised = none := walk_raised.mpr hc.listable.unblocked
  obtain ⟨problems,hp,hf⟩ := checkEntries_ok (H := H) hc.found
  refine ⟨problems,?_,hf⟩
  rw [Corpus.check,hr,hp]
  rfl

lemma mem_added {present : List PyStr} {rel : PyStr} : rel ∈ c.added present ↔ rel ∈ present ∧
    ¬(rel ∈ c.entries.map CorpusEntry.path ∨ rel ∈ c.excluded.map Excluded.path) := by
  rw [Corpus.added,List.mem_insertionSort,List.mem_dedup,List.mem_filter,decide_eq_true_eq,not_or]

lemma added_nil {present : List PyStr} : c.added present = [] ↔
    ∀ rel ∈ present, rel ∈ c.entries.map CorpusEntry.path ∨ rel ∈ c.excluded.map Excluded.path := by
  rw [List.eq_nil_iff_forall_not_mem]
  refine forall_congr' fun rel => ?_
  rw [mem_added,not_and_not_right]

lemma relPath_components (path : PyStr) : relPath (components path) = path :=
  List.intercalate_splitOn _

/-- Two manifests of the same paths, of which each says the same, are equal. -/
lemma entries_eq {es es' : List CorpusEntry} (h : es.map CorpusEntry.path = es'.map CorpusEntry.path)
    (hsame : ∀ e ∈ es, ∀ e' ∈ es', e.path = e'.path → e = e') : es = es' := by
  induction es generalizing es' with
  | nil => exact (List.map_eq_nil_iff.mp h.symm).symm
  | cons e es ih =>
    cases es' with
    | nil => cases h
    | cons e' es' =>
      obtain ⟨hpath,hpaths⟩ := List.cons.inj h
      obtain rfl := hsame e List.mem_cons_self e' List.mem_cons_self hpath
      rw [ih hpaths fun x hx y hy => hsame x (List.mem_cons_of_mem _ hx) y (List.mem_cons_of_mem _ hy)]

lemma CorpusEntry.eq_of {e e' : CorpusEntry} (hp : e.path = e'.path) (hs : e.sha256 = e'.sha256)
    (hz : e.size = e'.size) : e = e' := by
  obtain ⟨path,sha256,size,_,_⟩ := e
  obtain ⟨path',sha256',size',_,_⟩ := e'
  obtain rfl : path = path' := hp
  obtain rfl : sha256 = sha256' := hs
  obtain rfl : size = size' := hz
  rfl

/-- The paths of a manifest are in order, so that they are determined by their set. -/
lemma paths_eq (h : ∀ p, p ∈ c.entries.map CorpusEntry.path ↔ p ∈ c'.entries.map CorpusEntry.path) :
    c.entries.map CorpusEntry.path = c'.entries.map CorpusEntry.path :=
  ((List.perm_ext_iff_of_nodup c.unique c'.unique).mpr h).eq_of_pairwise
    (fun _ _ _ _ hpq hqp => le_antisymm hpq hqp) c.sorted c'.sorted

lemma isDir_dir {root : CorpusRoot} (h : root.isDir = true) : ∃ l s es, root = .dir l s es := by
  cases root with
  | dir l s es => exact ⟨l,s,es,rfl⟩
  | absent | notDirectory => cases h

/-- In a tree with no problem, each entry is a regular file that the walk yields. -/
lemma clean_shows (hc : c.Checkable t refuses)
    (hadded : ∀ x, t.root.top.Shows [] x →
      x.rel ∈ c.entries.map CorpusEntry.path ∨ x.rel ∈ c.excluded.map Excluded.path)
    (hentries : ∀ e ∈ c.entries, e.Matches H (t.root.lstat (components e.path))) (he : e ∈ c.entries) :
    ∃ x, t.root.top.Shows [] x ∧ x.parts = components e.path := by
  obtain ⟨bytes,hf,-,-⟩ := hentries e he
  have hne : components e.path ≠ [] := List.splitOn_ne_nil _ _
  obtain ⟨l,s,es,hroot⟩ := isDir_dir hc.directory
  have htop : t.root.lstat (components e.path) = t.root.top.lstat (components e.path) := by rw [hroot]; rfl
  rw [htop] at hf
  rcases lstat_regular hf with hfind | ⟨pre,rest,toDir,beyond,hsplit,hrest,hlink⟩
  · exact hc.listable.shows hne hfind rfl
  · -- the link above it is in the manifest or excluded, and both are against the assumptions
    have hpre : pre ≠ [] := by
      rintro rfl
      rw [hroot] at hlink
      cases hlink
    obtain ⟨x,hx,hparts⟩ := hc.listable.shows hpre hlink rfl
    have hrel : x.rel = relPath pre := by rw [WalkItem.rel,hparts]
    rcases hadded x hx with hm | hm
    · obtain ⟨e',he',hpath⟩ := List.mem_map.mp hm
      obtain ⟨bytes',hf',-,-⟩ := hentries e' he'
      have hof := shows_of hx
      rw [hpath,WalkItem.rel,relPath,components_join hof.nonempty hof.names,hparts,
        CorpusRoot.lstat_top hlink hpre] at hf'
      exact absurd hf' (lstat_link hlink)
    · obtain ⟨z,hz,hpath⟩ := List.mem_map.mp hm
      exact absurd hlink (hc.links z hz e he pre rest toDir beyond (hrel.symm.trans hpath.symm) hsplit hrest)

/-- A tree with no problem builds to the entries of the manifest, and to no exclusion that it lacks. -/
lemma clean_builds (hc : c.Checkable t refuses)
    (hadded : ∀ x, t.root.top.Shows [] x →
      x.rel ∈ c.entries.map CorpusEntry.path ∨ x.rel ∈ c.excluded.map Excluded.path)
    (hentries : ∀ e ∈ c.entries, e.Matches H (t.root.lstat (components e.path))) :
    ∃ c', Corpus.build H raises t.root name resolved = .ok c' ∧ c'.entries = c.entries ∧
      ∀ z ∈ c'.excluded, z.path ∈ c.excluded.map Excluded.path := by
  -- a file of the tree is in the manifest, as none stands where a path was excluded
  have hfile : ∀ x bytes, t.root.top.Shows [] x → x = .file x.parts (.ok bytes) →
      ∃ e ∈ c.entries, e.path = x.rel ∧ components e.path = x.parts := by
    intro x bytes hx hxb
    have hof := shows_of hx
    obtain ⟨n,hn,-⟩ := hof.stands
    have hlstat := (hof.file (.ok bytes)).mp hxb
    rw [CorpusRoot.lstat_top hn hof.nonempty] at hlstat
    rcases hadded x hx with hm | hm
    · obtain ⟨e,he,hpath⟩ := List.mem_map.mp hm
      exact ⟨e,he,hpath,by rw [hpath]; exact components_join hof.nonempty hof.names⟩
    · obtain ⟨z,hz,hpath⟩ := List.mem_map.mp hm
      rcases lstat_regular hlstat with hf | ⟨pre,rest,toDir,beyond,hsplit,hrest,hlink⟩
      · exact absurd hf (hc.files z hz x.parts bytes hpath.symm)
      · rw [hsplit,CorpusNode.find_append,hlink] at hn
        obtain ⟨last,rest,rfl⟩ := List.exists_cons_of_ne_nil hrest
        cases hn
  have hrefused : ¬t.Refused raises := by
    intro h
    cases h with
    | notDirectory h =>
      rw [hc.directory] at h
      cases h
    | stuck h => exact hc.listable.unblocked h
    | backslash h hb =>
      obtain ⟨e,-,hpath,-⟩ := hfile _ _ h rfl
      have hok := e.path_ok
      have hof := shows_of h
      rw [hpath] at hok
      exact (isCorpusPath_relPath hof.nonempty hof.names).mp hok hb
  obtain ⟨c',hc'⟩ := build_total.mpr hrefused
  obtain ⟨-,hr,hl,-⟩ := build_ok hc'
  obtain ⟨hitems,-⟩ := walk_items hr
  have hsame : ∀ e' ∈ c'.entries, ∃ e ∈ c.entries, e = e' := by
    intro e' he'
    obtain ⟨x,hx,bytes,hbytes,hpath',hsha',hsize'⟩ := hl.entry e' he'
    have hx := (hitems x).mp hx
    obtain ⟨e,he,hpath,hparts⟩ := hfile x _ hx hbytes
    obtain ⟨bytes',hf,hsha,hsize⟩ := hentries e he
    rw [hparts,((shows_of hx).file _).mp hbytes] at hf
    obtain rfl := Except.ok.inj (Found.regular.inj hf)
    exact ⟨e,he,CorpusEntry.eq_of (hpath.trans hpath'.symm) (hsha.trans hsha'.symm) (hsize.trans hsize'.symm)⟩
  have hback : ∀ e ∈ c.entries, ∃ e' ∈ c'.entries, e'.path = e.path := by
    intro e he
    obtain ⟨x,hx,hparts⟩ := clean_shows hc hadded hentries he
    have hrel : x.rel = e.path := by rw [WalkItem.rel,hparts,relPath_components]
    have hmem : x.rel ∈ c'.entries.map CorpusEntry.path++c'.excluded.map Excluded.path :=
      hl.perm.mem_iff.mpr (List.mem_map_of_mem ((hitems x).mpr hx))
    rcases List.mem_append.mp hmem with hm | hm
    · obtain ⟨e',he',hpath⟩ := List.mem_map.mp hm
      exact ⟨e',he',hpath.trans hrel⟩
    · obtain ⟨z,hz,hpath⟩ := List.mem_map.mp hm
      obtain ⟨y,hy,hzy,hnot,-⟩ := hl.left z hz
      obtain rfl := List.inj_on_of_nodup_map (rels_nodup hr) hy ((hitems x).mpr hx) (hzy.symm.trans hpath)
      obtain ⟨bytes,hf,-,-⟩ := hentries e he
      rw [← hparts] at hf
      exact absurd (((shows_of hx).file _).mpr hf) (hnot bytes)
  refine ⟨c',hc',?_,fun z hz => ?_⟩
  · refine entries_eq (paths_eq fun p => ⟨fun hp => ?_,fun hp => ?_⟩) fun e' he' e he hpath => ?_
    · obtain ⟨e',he',rfl⟩ := List.mem_map.mp hp
      obtain ⟨e,he,rfl⟩ := hsame e' he'
      exact List.mem_map_of_mem he
    · obtain ⟨e,he,rfl⟩ := List.mem_map.mp hp
      obtain ⟨e',he',hpath⟩ := hback e he
      exact hpath ▸ List.mem_map_of_mem he'
    · obtain ⟨e₁,he₁,rfl⟩ := hsame e' he'
      exact List.inj_on_of_nodup_map c.unique he₁ he hpath
  · obtain ⟨x,hx,hpath,hnot,-⟩ := hl.left z hz
    have hx := (hitems x).mp hx
    rw [hpath]
    refine (hadded x hx).resolve_left fun hm => ?_
    obtain ⟨e,he,hrel⟩ := List.mem_map.mp hm
    obtain ⟨bytes,hf,-,-⟩ := hentries e he
    have hof := shows_of hx
    rw [hrel,WalkItem.rel,relPath,components_join hof.nonempty hof.names] at hf
    exact hnot bytes ((hof.file _).mpr hf)

/-- A tree that builds to the entries of the manifest has no problem. -/
lemma built_clean (hb : Corpus.build H raises t.root name resolved = .ok c') (he : c'.entries = c.entries)
    (hz : ∀ z ∈ c'.excluded, z.path ∈ c.excluded.map Excluded.path) :
    (∀ x ∈ (t.root.walk raises).items,
      x.rel ∈ c.entries.map CorpusEntry.path ∨ x.rel ∈ c.excluded.map Excluded.path) ∧
      ∀ e ∈ c.entries, e.Matches H (t.root.lstat (components e.path)) := by
  obtain ⟨-,hr,hl,-⟩ := build_ok hb
  obtain ⟨hitems,-⟩ := walk_items hr
  constructor
  · intro x hx
    rcases List.mem_append.mp (hl.perm.mem_iff.mpr (List.mem_map_of_mem hx)) with hm | hm
    · exact Or.inl (he ▸ hm)
    · obtain ⟨z,hzm,hpath⟩ := List.mem_map.mp hm
      exact Or.inr (hpath ▸ hz z hzm)
  · intro e hem
    obtain ⟨x,hx,bytes,hbytes,hpath,hsha,hsize⟩ := hl.entry e (he ▸ hem)
    have hof := shows_of ((hitems x).mp hx)
    refine ⟨bytes,?_,hsha,hsize⟩
    rw [hpath,WalkItem.rel,relPath,components_join hof.nonempty hof.names]
    exact (hof.file _).mp hbytes

/-- Where Corpus.check speaks for the tree, it returns: no problem exactly if the tree builds to the
entries of the manifest and to no exclusion that it lacks, a problem for every file that it lacks, and a
problem for every entry that is no longer that file. -/
theorem corpus_check_exact (H : Hasher) (raises : Bool) (c : Corpus) (t : CorpusTree)
    (refuses : PyStr → Option Exc) (name : Option PyStr) (resolved : PyStr) (hc : c.Checkable t refuses) :
    ∃ problems, c.check H raises t.root refuses = .ok problems ∧
      (problems = [] ↔ ∃ c', Corpus.build H raises t.root name resolved = .ok c' ∧ c'.entries = c.entries ∧
        ∀ z ∈ c'.excluded, z.path ∈ c.excluded.map Excluded.path) ∧
      (∀ parts bytes, parts ≠ [] → t.root.top.find parts = some (.file (.ok bytes)) →
        relPath parts ∉ c.entries.map CorpusEntry.path →
        relPath parts++lit ": not in the corpus manifest" ∈ problems) ∧
      ∀ e ∈ c.entries, ¬e.Matches H (t.root.lstat (components e.path)) → ∃ p ∈ problems, e.path <+: p := by
  have hr : (t.root.walk raises).raised = none := walk_raised.mpr hc.listable.unblocked
  obtain ⟨hitems,-⟩ := walk_items hr
  obtain ⟨problems,hcheck,hf⟩ := check_ok (H := H) raises hc
  refine ⟨_,hcheck,?_,?_,?_⟩
  · have hnil : problems.flatten = [] ↔ ∀ e ∈ c.entries, e.Matches H (t.root.lstat (components e.path)) := by
      rw [List.flatten_eq_nil_iff]
      constructor
      · intro h e he
        obtain ⟨ps,hps,hspec⟩ := forall₂_mem hf he
        exact hspec.1.mp (h ps hps)
      · intro h ps hps
        obtain ⟨e,he,hspec⟩ := forall₂_mem hf.flip hps
        exact hspec.1.mpr (h e he)
    rw [List.append_eq_nil_iff,List.map_eq_nil_iff,added_nil,hnil,List.forall_mem_map]
    constructor
    · rintro ⟨hadded,hentries⟩
      exact clean_builds hc (fun x hx => hadded x ((hitems x).mpr hx)) hentries
    · rintro ⟨c',hb,he,hz⟩
      exact built_clean hb he hz
  · intro parts bytes hne hfind hnot
    obtain ⟨x,hx,hparts⟩ := hc.listable.shows hne hfind rfl
    have hrel : x.rel = relPath parts := by rw [WalkItem.rel,hparts]
    refine List.mem_append_left _ (List.mem_map.mpr ⟨relPath parts,mem_added.mpr ⟨?_,?_⟩,rfl⟩)
    · exact hrel ▸ List.mem_map_of_mem ((hitems x).mpr hx)
    · rintro (hm | hm)
      · exact hnot hm
      · obtain ⟨z,hz,hpath⟩ := List.mem_map.mp hm
        exact hc.files z hz parts bytes hpath.symm hfind
  · intro e he hnot
    obtain ⟨ps,hps,hspec,hhead⟩ := forall₂_mem hf he
    obtain ⟨p,hp⟩ := List.exists_mem_of_ne_nil ps fun h => hnot (hspec.mp h)
    exact ⟨p,List.mem_append_right _ (List.mem_flatten.mpr ⟨ps,hps,hp⟩),hhead p hp⟩

end Check

section Samples

lemma open_dir {es : CorpusListing} (h : ∀ p ∈ es, p.2.Open) : (CorpusNode.dir true true es).Open := by
  intro parts l s es' hf
  cases parts with
  | nil =>
    cases hf
    exact ⟨rfl,rfl⟩
  | cons name parts =>
    obtain ⟨m,hget,hm⟩ := Option.bind_eq_some_iff.mp hf
    exact h _ (Dict.mem_of_get hget) parts l s es' hm

lemma open_other {node : CorpusNode} (h : node.isRealDir = false) : node.Open := by
  intro parts l s es hf
  cases parts with
  | nil =>
    obtain rfl := Option.some.inj hf
    cases h
  | cons name parts =>
    cases node with
    | dir => cases h
    | file | link | special => cases hf

lemma pinned_path : isCorpusPath (lit "a") = true := by decide

lemma corpus_named : lit "c" ≠ [] := by decide

/-- One document, and a path that was left out. -/
def pinnedCorpus : Corpus where
  name := lit "c"
  entries := [⟨lit "a",Hasher.checksum.hexdigest [1],1,pinned_path,Hasher.checksum.digest_form [1]⟩]
  excluded := [⟨lit "s",lit "not a regular file"⟩]
  name_ne := corpus_named
  sorted := List.pairwise_singleton _ _
  unique := List.nodup_singleton _
  excluded_sorted := List.pairwise_singleton _ _
  disjoint := by decide

/-- A document in a directory. -/
def nestedCorpus (excluded : List Excluded) (hs : (excluded.map Excluded.path).Pairwise (· ≤ ·))
    (hd : ∀ x ∈ excluded, x.path ≠ lit "d/x") : Corpus where
  name := lit "c"
  entries := [⟨lit "d/x",Hasher.checksum.hexdigest [1],1,by decide,Hasher.checksum.digest_form [1]⟩]
  excluded := excluded
  name_ne := corpus_named
  sorted := List.pairwise_singleton _ _
  unique := List.nodup_singleton _
  excluded_sorted := hs
  disjoint := fun x hx e he => List.mem_singleton.mp he ▸ hd x hx

lemma isName_letter {c : CodePoint} (h : c ≠ cp '/' ∧ c ≠ 0 ∧ c ≠ cp '.') : IsName [c] := by
  refine ⟨List.cons_ne_nil _ _,?_,?_,fun heq => h.2.2 (List.cons.inj heq).1,fun heq => ?_⟩
  · exact fun hm => h.1 (List.mem_singleton.mp hm).symm
  · exact fun hm => h.2.1 (List.mem_singleton.mp hm).symm
  · cases congrArg List.length heq

lemma letter_names {c d : CodePoint} (hc : c ≠ cp '/' ∧ c ≠ 0 ∧ c ≠ cp '.')
    (hd : d ≠ cp '/' ∧ d ≠ 0 ∧ d ≠ cp '.') {n m : CorpusNode} (hn : n.Named) (hm : m.Named) :
    NamedListing [([c],n),([d],m)] :=
  ⟨isName_letter hc,hn,isName_letter hd,hm,trivial⟩

/-- The tree that it was taken from. -/
def pinnedTree : CorpusTree where
  root := .dir true true [(lit "a",.file (.ok [1])),(lit "s",.special)]
  named := ⟨by decide,letter_names (by decide) (by decide) trivial trivial⟩

/-- With a link beside them. -/
def linkedTree : CorpusTree where
  root := .dir true true [(lit "a",.file (.ok [1])),(lit "l",.link false fun _ => .missing),(lit "s",.special)]
  named := ⟨by decide,isName_letter (by decide),trivial,letter_names (by decide) (by decide) trivial trivial⟩

/-- With a file where the path was left out. -/
def replacedTree : CorpusTree where
  root := .dir true true [(lit "a",.file (.ok [1])),(lit "s",.file (.ok [2]))]
  named := ⟨by decide,letter_names (by decide) (by decide) trivial trivial⟩

/-- Something that stands where the directory was. -/
def insteadTree (node : CorpusNode) (h : node.Named) : CorpusTree where
  root := .dir true true [(lit "d",node)]
  named := ⟨List.pairwise_singleton _ _,isName_letter (by decide),h,trivial⟩

/-- It can no longer be listed. -/
def unlistedTree : CorpusTree := insteadTree (.dir false true [(lit "x",.file (.ok [1]))])
  ⟨List.pairwise_singleton _ _,isName_letter (by decide),trivial,trivial⟩

theorem corpus_check_exact_pinned : pinnedCorpus.check .checksum true pinnedTree.root (fun _ => none) = .ok [] ∧
    ∃ c', Corpus.build .checksum true pinnedTree.root none [] = .ok c' ∧ c'.entries = pinnedCorpus.entries ∧
      ∀ z ∈ c'.excluded, z.path ∈ pinnedCorpus.excluded.map Excluded.path := by
  have hlisting : ∀ p ∈ ([(lit "a",.file (.ok [1])),(lit "s",.special)] : CorpusListing), p.2.Open :=
    List.forall_mem_cons.mpr ⟨open_other rfl,List.forall_mem_singleton.mpr (open_other rfl)⟩
  have hs : ∀ z ∈ pinnedCorpus.excluded, ∀ parts n, relPath parts = z.path →
      pinnedTree.root.top.find parts = some n → n.isRealDir = false → n = .special := by
    intro z hz parts n hrel hf hn
    obtain rfl := List.mem_singleton.mp hz
    have hne : parts ≠ [] := by
      rintro rfl
      cases hf
      cases hn
    have hparts : parts = [lit "s"] := by
      rw [← components_join hne (find_named pinnedTree.top_named hf).1]
      exact (congrArg components hrel).trans (by decide +kernel)
    rw [hparts] at hf
    exact (Option.some.inj hf).symm
  have hc : pinnedCorpus.Checkable pinnedTree fun _ => none := by
    refine ⟨rfl,open_dir hlisting,fun e he exc hf => ?_,fun z hz parts bytes hrel hf => ?_,?_⟩
    · obtain rfl := List.mem_singleton.mp he
      have hfound : pinnedTree.root.lstatPath (fun _ => none) (lit "a") = .regular (.ok [1]) := rfl
      cases hfound.symm.trans hf
    · cases hs z hz parts _ hrel hf rfl
    · intro z hz e he parts rest toDir beyond hrel hsplit hrest hf
      cases hs z hz parts _ hrel hf rfl
  obtain ⟨problems,hp,hiff,-⟩ :=
    corpus_check_exact .checksum true pinnedCorpus pinnedTree (fun _ => none) none [] hc
  have hnone : pinnedCorpus.check .checksum true pinnedTree.root (fun _ => none) = .ok [] := rfl
  obtain rfl := Except.ok.inj (hp.symm.trans hnone)
  exact ⟨hnone,hiff.mp rfl⟩

/-- A link that is new is a problem, though the entries are the same. Besides, a file where a path was
left out is none, nor is an entry in a directory that cannot be listed or beyond a link that was left
out, and below a file lstat raises. -/
theorem corpus_check_inexact :
    (pinnedCorpus.check .checksum true linkedTree.root (fun _ => none) = .ok [lit "l: not in the corpus manifest"] ∧
      ∃ c', Corpus.build .checksum true linkedTree.root none [] = .ok c' ∧ c'.entries = pinnedCorpus.entries) ∧
    (pinnedCorpus.check .checksum true replacedTree.root (fun _ => none) = .ok [] ∧
      ∃ c', Corpus.build .checksum true replacedTree.root none [] = .ok c' ∧
        c'.entries.map CorpusEntry.path = [lit "a",lit "s"]) ∧
    ((nestedCorpus [] .nil nofun).check .checksum true unlistedTree.root (fun _ => none) = .ok [] ∧
      ∃ c', Corpus.build .checksum true unlistedTree.root none [] = .ok c' ∧ c'.entries = []) ∧
    (nestedCorpus [⟨lit "d",lit "symlink"⟩] (List.pairwise_singleton _ _) (by decide)).check .checksum true
      (insteadTree (.link true fun _ => .regular (.ok [1])) trivial).root (fun _ => none) = .ok [] ∧
    (nestedCorpus [] .nil nofun).check .checksum true (insteadTree (.file (.ok [1])) trivial).root (fun _ => none) =
      .error .osError :=
  ⟨⟨rfl,_,rfl,rfl⟩,⟨rfl,_,rfl,rfl⟩,⟨rfl,_,rfl,rfl⟩,rfl,rfl⟩

end Samples

end Stele
