import Stele.Verification.CorpusTree

/-! What a corpus covers of the tree that it is built from: all but what lies in directories that the
walk cannot list. -/
namespace Stele
open Python

section Walk

variable {raises : Bool} {searchable : Bool} {at' : List PyStr} {entries : CorpusListing} {node : CorpusNode}
  {x : WalkItem}

/-- What stands at a path below a node. -/
def CorpusNode.find : List PyStr → CorpusNode → Option CorpusNode
  | [],node => some node
  | name :: rest,.dir _ _ entries => (Dict.get entries name).bind fun node => node.find rest
  | _ :: _,_ => none

/-- The directory at a path below a node, if the walk can list it: whether it can be searched, and what
it holds. -/
def CorpusNode.listed : List PyStr → CorpusNode → Option (Bool × CorpusListing)
  | [],.dir true searchable entries => some (searchable,entries)
  | name :: rest,.dir true true entries => (Dict.get entries name).bind fun node => node.listed rest
  | _,_ => none

def CorpusNode.isRealDir : CorpusNode → Bool
  | .dir _ _ _ => true
  | _ => false

/-- What the walk yields of a name. -/
def yieldOf (searchable : Bool) (at' : List PyStr) (p : PyStr × CorpusNode) : Option WalkItem :=
  if p.2.isRealDir then none else some (walkFilename searchable at' p)

lemma walkFilename_parts (p : PyStr × CorpusNode) : (walkFilename searchable at' p).parts = at'++[p.1] := by
  unfold walkFilename
  split <;> rfl

lemma yieldOf_some {p : PyStr × CorpusNode} :
    yieldOf searchable at' p = some x ↔ p.2.isRealDir = false ∧ walkFilename searchable at' p = x := by
  unfold yieldOf
  cases p.2.isRealDir <;> simp

/-- Where is_symlink raises: at a directory in one that cannot be searched. -/
def Blocks (raises searchable : Bool) (entries : CorpusListing) : Prop :=
  raises = true ∧ searchable = false ∧ ∃ p ∈ entries, p.2.isRealDir = true

lemma isRealDir_isDir (searchable : Bool) (h : node.isRealDir = true) : node.isDir searchable = true := by
  cases node with
  | dir => rfl
  | _ => cases h

lemma isDir_real (h : node.isDir false = true) : node.isRealDir = true := by
  cases node with
  | dir => rfl
  | link toDir beyond =>
    rw [CorpusNode.isDir,Bool.and_false] at h
    cases h
  | _ => cases h

lemma walkDirnames_searchable (h : ∀ p ∈ entries, p.2.isDir true = true) :
    walkDirnames raises true at' entries = ⟨entries.filterMap (yieldOf true at'),none⟩ := by
  induction entries with
  | nil => rfl
  | cons p entries ih =>
    obtain ⟨name,node⟩ := p
    obtain ⟨hp,hentries⟩ := List.forall_mem_cons.mp h
    rw [walkDirnames,ih hentries]
    cases node with
    | dir => rfl
    | link toDir beyond => rfl
    | file | special => cases hp

lemma walkDirnames_blocked (raises : Bool) (at' : List PyStr) (h : ∀ p ∈ entries, p.2.isRealDir = true) :
    ((walkDirnames raises false at' entries).raised = none ↔ ¬Blocks raises false entries) ∧
      (walkDirnames raises false at' entries).items = [] := by
  induction entries with
  | nil => simp [walkDirnames,Blocks]
  | cons p entries ih =>
    obtain ⟨name,node⟩ := p
    obtain ⟨hp,hentries⟩ := List.forall_mem_cons.mp h
    obtain ⟨hraised,hitems⟩ := ih hentries
    cases hr : raises with
    | true => simp [walkDirnames,CorpusNode.isSymlink,Gen.after,Gen.raise,Blocks,hp]
    | false =>
      subst hr
      have hnone := hraised.mpr fun h => Bool.false_ne_true h.1
      refine ⟨iff_of_true hnone fun h => Bool.false_ne_true h.1,hitems⟩

/-- What one directory gives, when is_symlink does not raise. -/
lemma visit_spec (raises searchable : Bool) (at' : List PyStr) (entries : CorpusListing) :
    ((visitDirectory raises searchable at' entries).raised = none ↔ ¬Blocks raises searchable entries) ∧
    ((visitDirectory raises searchable at' entries).raised = none →
      (visitDirectory raises searchable at' entries).items.Perm (entries.filterMap (yieldOf searchable at'))) := by
  have hfiles : (entries.filter fun p => !p.2.isDir searchable).map (walkFilename searchable at') =
      (entries.filter fun p => !p.2.isDir searchable).filterMap (yieldOf searchable at') := by
    rw [← List.filterMap_eq_map]
    refine List.filterMap_congr fun p hp => ?_
    have hnot : p.2.isRealDir = false := by
      by_contra hreal
      have hdir := isRealDir_isDir searchable (Bool.eq_true_of_not_eq_false hreal)
      simp [List.mem_filter,hdir] at hp
    rw [yieldOf,hnot]
    rfl
  have hperm : ((entries.filter fun p => p.2.isDir searchable)++
      entries.filter fun p => !p.2.isDir searchable).Perm entries := List.filter_append_perm _ _
  unfold visitDirectory
  rw [hfiles]
  cases searchable with
  | true =>
    rw [walkDirnames_searchable fun p hp => (List.mem_filter.mp hp).2,Gen.append_none rfl]
    refine ⟨iff_of_true rfl fun h => Bool.false_ne_true h.2.1.symm,fun _ => ?_⟩
    rw [← List.filterMap_append]
    exact hperm.filterMap _
  | false =>
    have hreal : ∀ p ∈ entries.filter fun p => p.2.isDir false, p.2.isRealDir = true := fun p hp =>
      isDir_real (List.mem_filter.mp hp).2
    obtain ⟨hraised,hitems⟩ := walkDirnames_blocked raises at' hreal
    have hblocks : Blocks raises false (entries.filter fun p => p.2.isDir false) ↔ Blocks raises false entries := by
      refine and_congr_right fun _ => and_congr_right fun _ => ?_
      constructor
      · rintro ⟨p,hp,hd⟩
        exact ⟨p,(List.mem_filter.mp hp).1,hd⟩
      · rintro ⟨p,hp,hd⟩
        exact ⟨p,List.mem_filter.mpr ⟨hp,isRealDir_isDir _ hd⟩,hd⟩
    have hnone : ∀ p ∈ entries.filter fun p => p.2.isDir false, yieldOf false at' p = none := fun p hp => by
      rw [yieldOf,hreal p hp]
      rfl
    constructor
    · rw [← hblocks,← hraised]
      constructor
      · exact fun h => (Gen.append_raised h).1
      · intro h
        rw [Gen.append_none h]
    · intro h
      obtain ⟨-,-,happ⟩ := Gen.append_raised h
      rw [happ,hitems,List.nil_append]
      have := hperm.filterMap (yieldOf false at')
      rwa [List.filterMap_append,List.filterMap_eq_nil_iff.mpr hnone,List.nil_append] at this

/-- The walk gets stuck below the node. -/
def CorpusNode.Blocked (raises : Bool) (node : CorpusNode) : Prop :=
  ∃ parts s es, node.listed parts = some (s,es) ∧ Blocks raises s es

/-- A directory that the walk lists gives the item. -/
def CorpusNode.Shows (node : CorpusNode) (at' : List PyStr) (x : WalkItem) : Prop :=
  ∃ parts s es, node.listed parts = some (s,es) ∧ ∃ p ∈ es, yieldOf s (at'++parts) p = some x

lemma NamedListing.mem (h : NamedListing entries) {p : PyStr × CorpusNode} (hp : p ∈ entries) :
    IsName p.1 ∧ p.2.Named := by
  induction entries with
  | nil => cases hp
  | cons q entries ih =>
    obtain ⟨hname,hnode,hrest⟩ := h
    rcases List.mem_cons.mp hp with rfl | hp
    · exact ⟨hname,hnode⟩
    · exact ih hrest hp

lemma names_nodup (h : (entries.map Prod.fst).Pairwise (· < ·)) : (Dict.keys entries).Nodup :=
  h.imp ne_of_lt

/-- The directories that are listed from a directory on: itself, and those below its entries. -/
lemma exists_listed {Q : List PyStr → Bool → CorpusListing → Prop} (hn : (Dict.keys entries).Nodup) :
    (∃ parts s es, (CorpusNode.dir true searchable entries).listed parts = some (s,es) ∧ Q parts s es) ↔
      Q [] searchable entries ∨ searchable = true ∧ ∃ p ∈ entries, ∃ parts s es,
        p.2.listed parts = some (s,es) ∧ Q (p.1 :: parts) s es := by
  constructor
  · rintro ⟨parts,s,es,hl,hq⟩
    cases parts with
    | nil =>
      obtain ⟨rfl,rfl⟩ := Prod.mk.inj (Option.some.inj hl)
      exact Or.inl hq
    | cons name rest =>
      cases searchable with
      | false => cases hl
      | true =>
        obtain ⟨node,hget,hnode⟩ := Option.bind_eq_some_iff.mp hl
        exact Or.inr ⟨rfl,(name,node),Dict.mem_of_get hget,rest,s,es,hnode,hq⟩
  · rintro (hq | ⟨rfl,p,hp,parts,s,es,hl,hq⟩)
    · exact ⟨[],searchable,entries,rfl,hq⟩
    · refine ⟨p.1 :: parts,s,es,?_,hq⟩
      rw [CorpusNode.listed,Dict.get_of_mem hn hp]
      exact hl

lemma not_listed {parts : List PyStr} (h : ∀ s es, node ≠ .dir true s es) : node.listed parts = none := by
  cases node with
  | dir listable searchable entries =>
    cases listable with
    | true => exact absurd rfl (h searchable entries)
    | false => cases parts <;> rfl
  | file | link | special => cases parts <;> rfl

lemma gives_nothing (hne : ∀ s es, node ≠ .dir true s es) (hw : node.walk raises at' = ⟨[],none⟩) :
    (node.walk raises at').Gives (node.Blocked raises) (node.Shows at') := by
  rw [hw]
  refine Gen.Gives.nothing.congr (iff_of_false id ?_) fun x => iff_of_false id ?_
  · rintro ⟨parts,s,es,hl,-⟩
    cases (not_listed hne).symm.trans hl
  · rintro ⟨parts,s,es,hl,-⟩
    cases (not_listed hne).symm.trans hl

lemma visit_gives : (visitDirectory raises searchable at' entries).Gives (Blocks raises searchable entries)
    fun x => ∃ p ∈ entries, yieldOf searchable at' p = some x := by
  obtain ⟨hraised,hperm⟩ := visit_spec raises searchable at' entries
  exact ⟨hraised,fun hr x => (hperm hr).mem_iff.trans List.mem_filterMap⟩

/-- A directory that can be listed: what it holds, and what the directories below it give. -/
lemma dir_gives (hn : (Dict.keys entries).Nodup)
    (hl : (walkListing raises at' entries).Gives (∃ p ∈ entries, p.2.Blocked raises)
      fun x => ∃ p ∈ entries, p.2.Shows (at'++[p.1]) x) :
    ((CorpusNode.dir true searchable entries).walk raises at').Gives
      ((CorpusNode.dir true searchable entries).Blocked raises)
      ((CorpusNode.dir true searchable entries).Shows at') := by
  have hbelow : (if searchable then walkListing raises at' entries else ⟨[],none⟩ : Gen WalkItem).Gives
      (searchable = true ∧ ∃ p ∈ entries, p.2.Blocked raises)
      fun x => searchable = true ∧ ∃ p ∈ entries, p.2.Shows (at'++[p.1]) x := by
    cases searchable with
    | true => exact hl.congr (by simp) fun x => by simp
    | false => exact Gen.Gives.nothing.congr (by simp) fun x => by simp
  rw [CorpusNode.walk,if_pos rfl]
  refine (visit_gives.append hbelow).congr ?_ fun x => ?_
  · exact (exists_listed (Q := fun _ s es => Blocks raises s es) hn).symm
  · refine Iff.trans ?_ (exists_listed (Q := fun parts s es => ∃ p ∈ es, yieldOf s (at'++parts) p = some x) hn).symm
    simp only [List.append_nil,CorpusNode.Shows,List.append_assoc,List.singleton_append]

mutual

/-- _walk raises exactly where it gets stuck, and otherwise yields what the listed directories hold. -/
lemma CorpusNode.walk_gives (node : CorpusNode) (at' : List PyStr) (h : node.Named) :
    (node.walk raises at').Gives (node.Blocked raises) (node.Shows at') := by
  cases node with
  | file | link | special => exact gives_nothing nofun (by simp only [CorpusNode.walk])
  | dir listable searchable entries =>
    cases listable with
    | false => exact gives_nothing nofun (by rw [CorpusNode.walk]; rfl)
    | true => exact dir_gives (names_nodup h.1) (walkListing_gives entries at' h.2)

lemma walkListing_gives (entries : List (PyStr × CorpusNode)) (at' : List PyStr) (h : NamedListing entries) :
    (walkListing raises at' entries).Gives (∃ p ∈ entries, p.2.Blocked raises)
      fun x => ∃ p ∈ entries, p.2.Shows (at'++[p.1]) x := by
  cases entries with
  | nil =>
    rw [walkListing]
    exact Gen.Gives.nothing.congr (by simp) fun x => by simp
  | cons p entries =>
    obtain ⟨name,node⟩ := p
    rw [walkListing]
    refine ((node.walk_gives (at'++[name]) h.2.1).append (walkListing_gives entries at' h.2.2)).congr ?_ fun x => ?_
    · simp only [List.mem_cons,exists_eq_or_imp]
    · simp only [List.mem_cons,exists_eq_or_imp]

end

lemma CorpusNode.Shows.parts (h : node.Shows at' x) : ∃ parts name, x.parts = at'++parts++[name] := by
  obtain ⟨parts,s,es,-,p,-,hx⟩ := h
  obtain ⟨-,rfl⟩ := yieldOf_some.mp hx
  exact ⟨parts,p.1,walkFilename_parts p⟩

/-- One directory gives every name once. -/
lemma visit_nodup (hn : (Dict.keys entries).Nodup)
    (hr : (visitDirectory raises searchable at' entries).raised = none) :
    ((visitDirectory raises searchable at' entries).items.map WalkItem.parts).Nodup := by
  have hperm := (visit_spec raises searchable at' entries).2 hr
  refine (hperm.map WalkItem.parts).nodup_iff.mpr ?_
  have hall : (entries.map fun p => at'++[p.1]).Nodup := by
    have := hn.map fun n m (h : at'++[n] = at'++[m]) => List.singleton_inj.mp (List.append_cancel_left h)
    rwa [Dict.keys,List.map_map] at this
  refine hall.sublist ?_
  clear hn hr hperm hall
  induction entries with
  | nil => exact .refl _
  | cons p entries ih =>
    rw [List.filterMap_cons,List.map_cons]
    cases hy : yieldOf searchable at' p with
    | none => exact ih.cons _
    | some x =>
      obtain ⟨-,rfl⟩ := yieldOf_some.mp hy
      rw [List.map_cons,walkFilename_parts]
      exact ih.cons_cons _

mutual

/-- _walk yields no path twice. -/
lemma CorpusNode.walk_nodup (node : CorpusNode) (at' : List PyStr) (h : node.Named)
    (hr : (node.walk raises at').raised = none) : ((node.walk raises at').items.map WalkItem.parts).Nodup := by
  cases node with
  | file | link | special =>
    simp only [CorpusNode.walk]
    exact List.nodup_nil
  | dir listable searchable entries =>
    cases listable with
    | false =>
      simp only [CorpusNode.walk]
      exact List.nodup_nil
    | true =>
      rw [CorpusNode.walk,if_pos rfl] at hr ⊢
      obtain ⟨hvisit,hlisting,happ⟩ := Gen.append_raised hr
      have hn := names_nodup h.1
      rw [happ,List.map_append,List.nodup_append]
      refine ⟨visit_nodup hn hvisit,?_,?_⟩
      · cases searchable with
        | true => exact walkListing_nodup entries at' hn h.2 hlisting
        | false => exact List.nodup_nil
      · rintro _ hs _ ht rfl
        obtain ⟨x,hx,hxs⟩ := List.mem_map.mp hs
        obtain ⟨y,hy,hyt⟩ := List.mem_map.mp ht
        obtain ⟨p,-,hp⟩ := (visit_gives.items hvisit x).mp hx
        obtain ⟨-,rfl⟩ := yieldOf_some.mp hp
        cases searchable with
        | false => cases hy
        | true =>
          obtain ⟨q,-,hq⟩ := ((walkListing_gives entries at' h.2).items hlisting y).mp hy
          obtain ⟨parts,name,hparts⟩ := hq.parts
          rw [walkFilename_parts] at hxs
          have := congrArg List.length (hxs.trans (hyt.symm.trans hparts))
          simp at this

lemma walkListing_nodup (entries : List (PyStr × CorpusNode)) (at' : List PyStr) (hn : (Dict.keys entries).Nodup)
    (h : NamedListing entries) (hr : (walkListing raises at' entries).raised = none) :
    ((walkListing raises at' entries).items.map WalkItem.parts).Nodup := by
  cases entries with
  | nil =>
    rw [walkListing]
    exact List.nodup_nil
  | cons p entries =>
    obtain ⟨name,node⟩ := p
    obtain ⟨-,hnode,hentries⟩ := h
    obtain ⟨hname,hn⟩ := List.nodup_cons.mp hn
    rw [walkListing] at hr ⊢
    obtain ⟨hl,hrest,happ⟩ := Gen.append_raised hr
    rw [happ,List.map_append,List.nodup_append]
    refine ⟨node.walk_nodup _ hnode hl,walkListing_nodup entries at' hn hentries hrest,?_⟩
    rintro _ hs _ ht rfl
    obtain ⟨x,hx,hxs⟩ := List.mem_map.mp hs
    obtain ⟨y,hy,hyt⟩ := List.mem_map.mp ht
    obtain ⟨parts,last,hparts⟩ := (((node.walk_gives _ hnode).items hl x).mp hx).parts
    obtain ⟨q,hq,hshow⟩ := ((walkListing_gives entries at' hentries).items hrest y).mp hy
    obtain ⟨parts',last',hparts'⟩ := hshow.parts
    have heq := hparts.symm.trans (hxs.trans (hyt.symm.trans hparts'))
    simp only [List.append_assoc,List.singleton_append] at heq
    have hsame := (List.cons.inj (List.append_cancel_left heq)).1
    exact hname (List.mem_map.mpr ⟨q,hq,hsame.symm⟩)

end

end Walk

section Paths

variable {node n : CorpusNode} {parts rest : List PyStr} {name : PyStr} {s : Bool} {es : CorpusListing}
  {raises : Bool} {x : WalkItem}

lemma CorpusNode.find_append (parts rest : List PyStr) (node : CorpusNode) :
    node.find (parts++rest) = (node.find parts).bind fun n => n.find rest := by
  induction parts generalizing node with
  | nil => rfl
  | cons name parts ih =>
    cases node with
    | dir listable searchable entries =>
      rw [List.cons_append,find,find,Option.bind_assoc]
      exact congrArg _ (funext ih)
    | file | link | special => rfl

lemma find_concat : node.find (parts++[name]) = some n ↔
    ∃ l s es, node.find parts = some (.dir l s es) ∧ Dict.get es name = some n := by
  rw [CorpusNode.find_append,Option.bind_eq_some_iff]
  constructor
  · rintro ⟨m,hm,hf⟩
    cases m with
    | dir l s es =>
      obtain ⟨k,hget,hk⟩ := Option.bind_eq_some_iff.mp hf
      obtain rfl := Option.some.inj hk
      exact ⟨l,s,es,hm,hget⟩
    | file | link | special => cases hf
  · rintro ⟨l,s,es,hm,hget⟩
    refine ⟨_,hm,?_⟩
    rw [CorpusNode.find,hget]
    rfl

lemma find_named (h : node.Named) (hf : node.find parts = some n) : (∀ t ∈ parts, IsName t) ∧ n.Named := by
  induction parts generalizing node with
  | nil =>
    obtain rfl := Option.some.inj hf
    exact ⟨List.forall_mem_nil _,h⟩
  | cons name parts ih =>
    cases node with
    | dir l s es =>
      obtain ⟨m,hget,hm⟩ := Option.bind_eq_some_iff.mp hf
      obtain ⟨hname,hnamed⟩ := h.2.mem (Dict.mem_of_get hget)
      obtain ⟨hparts,hn⟩ := ih hnamed hm
      exact ⟨List.forall_mem_cons.mpr ⟨hname,hparts⟩,hn⟩
    | file | link | special => cases hf

lemma listed_find (h : node.listed parts = some (s,es)) : node.find parts = some (.dir true s es) := by
  induction parts generalizing node with
  | nil =>
    unfold CorpusNode.listed at h
    split at h
    · cases h
      rfl
    · contradiction
    · cases h
  | cons name parts ih =>
    unfold CorpusNode.listed at h
    split at h
    · contradiction
    · rename_i heq
      obtain ⟨rfl,rfl⟩ := List.cons.inj heq
      obtain ⟨m,hget,hm⟩ := Option.bind_eq_some_iff.mp h
      rw [CorpusNode.find,hget]
      exact ih hm
    · cases h

lemma lstat_dir {listable : Bool} : (CorpusNode.dir listable s es).lstat (name :: rest) =
    if s then (match Dict.get es name with
      | none => .missing
      | some node => node.lstat rest)
    else .failed .permissionError := rfl

/-- What lstat finds in a directory that the walk lists. -/
lemma lstat_listed (h : node.listed parts = some (s,es)) (hget : Dict.get es name = some n) :
    node.lstat (parts++[name]) = if s then n.lstat [] else .failed .permissionError := by
  induction parts generalizing node with
  | nil =>
    unfold CorpusNode.listed at h
    split at h
    · cases h
      rw [List.nil_append,lstat_dir,hget]
    · contradiction
    · cases h
  | cons name parts ih =>
    unfold CorpusNode.listed at h
    split at h
    · contradiction
    · rename_i heq
      obtain ⟨rfl,rfl⟩ := List.cons.inj heq
      obtain ⟨m,hm,hl⟩ := Option.bind_eq_some_iff.mp h
      rw [List.cons_append,lstat_dir,if_pos rfl,hm]
      exact ih hl
    · cases h

/-- The root as a node; what is no directory holds nothing. -/
def CorpusRoot.top : CorpusRoot → CorpusNode
  | .dir listable searchable entries => .dir listable searchable entries
  | _ => .special

lemma CorpusTree.top_named (t : CorpusTree) : t.root.top.Named := by
  obtain ⟨root,named⟩ := t
  cases root with
  | dir => exact named
  | absent | notDirectory => exact trivial

lemma CorpusRoot.walk_top (root : CorpusRoot) : root.walk raises = root.top.walk raises [] := by
  cases root with
  | dir => rfl
  | absent | notDirectory => simp only [CorpusRoot.walk,CorpusRoot.top,CorpusNode.walk]

lemma CorpusRoot.lstat_top {root : CorpusRoot} (h : root.top.find parts = some n) (hp : parts ≠ []) :
    root.lstat parts = root.top.lstat parts := by
  cases root with
  | dir => rfl
  | absent | notDirectory =>
    obtain ⟨name,rest,rfl⟩ := List.exists_cons_of_ne_nil hp
    cases h

end Paths

section Items

variable {t : CorpusTree} {n : CorpusNode} {parts : List PyStr} {x y : WalkItem} {raises : Bool}

/-- An item of the walk: a path below the root, whose directory is listed. -/
structure WalkItem.Of (x : WalkItem) (t : CorpusTree) : Prop where
  nonempty : x.parts ≠ []
  names : ∀ u ∈ x.parts, IsName u
  stands : ∃ n, t.root.top.find x.parts = some n ∧ n.isRealDir = false
  listed : ∃ dir name, x.parts = dir++[name] ∧ (t.root.top.listed dir).isSome
  file : ∀ content, x = .file x.parts content ↔ t.root.lstat x.parts = .regular content
  reason : ∀ parts why, x = .leftOut parts why → why ≠ []

lemma walkFilename_file {searchable : Bool} {at' : List PyStr} {name : PyStr} (content : Except PyStr Bytes) :
    walkFilename searchable at' (name,n) = .file (at'++[name]) content ↔
      (if searchable then n.lstat [] else .failed .permissionError) = .regular content := by
  unfold walkFilename
  cases searchable with
  | false => simp
  | true => cases n <;> simp [CorpusNode.lstat]

lemma walkFilename_why {searchable : Bool} {at' : List PyStr} {p : PyStr × CorpusNode} {why : PyStr}
    (h : walkFilename searchable at' p = .leftOut parts why) : why ≠ [] := by
  unfold walkFilename at h
  split at h
  all_goals cases h
  all_goals decide

lemma shows_of (h : t.root.top.Shows [] x) : x.Of t := by
  obtain ⟨dir,s,es,hl,⟨name,n⟩,hp,hx⟩ := h
  obtain ⟨hreal,rfl⟩ := yieldOf_some.mp hx
  rw [List.nil_append] at *
  have hdir := listed_find hl
  have hget : Dict.get es name = some n :=
    Dict.get_of_mem (names_nodup (find_named t.top_named hdir).2.1) hp
  have hfind : t.root.top.find (dir++[name]) = some n := find_concat.mpr ⟨true,s,es,hdir,hget⟩
  have hparts : (walkFilename s dir (name,n)).parts = dir++[name] := walkFilename_parts _
  have hne : dir++[name] ≠ [] := by simp
  constructor
  · rw [hparts]
    exact hne
  · rw [hparts]
    exact (find_named t.top_named hfind).1
  · rw [hparts]
    exact ⟨n,hfind,hreal⟩
  · exact ⟨dir,name,hparts,by rw [hl]; rfl⟩
  · intro content
    rw [hparts,walkFilename_file,CorpusRoot.lstat_top hfind hne,lstat_listed hl hget]
  · intro parts why hwhy
    exact walkFilename_why hwhy

/-- Every path that is no directory has an item, if its directory is listed. -/
lemma shows_find {dir : List PyStr} {name : PyStr} (h : t.root.top.find (dir++[name]) = some n)
    (hn : n.isRealDir = false) (hl : (t.root.top.listed dir).isSome) :
    ∃ x, t.root.top.Shows [] x ∧ x.parts = dir++[name] := by
  obtain ⟨⟨s,es⟩,hl⟩ := Option.isSome_iff_exists.mp hl
  obtain ⟨l,s',es',hdir,hget⟩ := find_concat.mp h
  obtain ⟨rfl,rfl,rfl⟩ : true = l ∧ s = s' ∧ es = es' :=
    CorpusNode.dir.inj (Option.some.inj ((listed_find hl).symm.trans hdir))
  refine ⟨walkFilename s dir (name,n),⟨dir,s,es,hl,(name,n),Dict.mem_of_get hget,?_⟩,walkFilename_parts _⟩
  exact yieldOf_some.mpr ⟨hn,rfl⟩

/-- What the walk yields is what stands in the directories that it lists, each path once. -/
lemma walk_items (hr : (t.root.walk raises).raised = none) :
    (∀ x, x ∈ (t.root.walk raises).items ↔ t.root.top.Shows [] x) ∧
      ((t.root.walk raises).items.map WalkItem.parts).Nodup := by
  rw [CorpusRoot.walk_top] at hr ⊢
  exact ⟨(CorpusNode.walk_gives _ [] t.top_named).items hr,CorpusNode.walk_nodup _ [] t.top_named hr⟩

lemma walk_raised : (t.root.walk raises).raised = none ↔ ¬t.root.top.Blocked raises := by
  rw [CorpusRoot.walk_top]
  exact (CorpusNode.walk_gives _ [] t.top_named).raised

lemma relPath_inj {p q : List PyStr} (hp : p ≠ []) (hpn : ∀ u ∈ p, IsName u) (hq : q ≠ [])
    (hqn : ∀ u ∈ q, IsName u) (h : relPath p = relPath q) : p = q := by
  rw [← components_join hp hpn,← components_join hq hqn]
  exact congrArg components h

lemma WalkItem.Of.rel_inj (hx : x.Of t) (hy : y.Of t) (h : x.rel = y.rel) : x.parts = y.parts :=
  relPath_inj hx.nonempty hx.names hy.nonempty hy.names h

/-- The path of a name below the root is one of a corpus unless it holds a backslash. -/
lemma isCorpusPath_relPath (hne : parts ≠ []) (h : ∀ u ∈ parts, IsName u) :
    isCorpusPath (relPath parts) = true ↔ cp '\\' ∉ relPath parts := by
  obtain ⟨c,hc,hslash⟩ := head_join hne h
  have hhead : (relPath parts).head? = some c := hc
  have hnil : relPath parts ≠ [] := by
    intro hnil
    rw [hnil] at hhead
    cases hhead
  have hsafe : (components (relPath parts)).any isUnsafePart = false := by
    rw [relPath,components_join hne h,safe_join h]
  unfold isCorpusPath
  rw [hsafe,hhead]
  simp [hnil,hslash]

end Items

section Build

variable {H : Hasher} {items : List WalkItem} {b b' : Building} {x : WalkItem} {c : Corpus}
  {entries : List CorpusEntry} {excluded : List Excluded}

/-- The item is a regular file with these bytes. -/
def CorpusEntry.Of (H : Hasher) (e : CorpusEntry) (x : WalkItem) : Prop :=
  ∃ bytes, x = .file x.parts (.ok bytes) ∧ e.path = x.rel ∧ e.sha256 = H.hexdigest bytes ∧ e.size = bytes.length

/-- The item is anything else, with the reason why it is left out. -/
def Excluded.Of (z : Excluded) (x : WalkItem) : Prop :=
  z.path = x.rel ∧ (∀ bytes, x ≠ .file x.parts (.ok bytes)) ∧
    ((∀ parts why, x = .leftOut parts why → why ≠ []) → z.why ≠ [])

lemma CorpusEntry.make_ok {path sha256 : PyStr} {size : ℕ} {e : CorpusEntry}
    (h : CorpusEntry.make path sha256 size = .ok e) : e.path = path ∧ e.sha256 = sha256 ∧ e.size = size := by
  unfold CorpusEntry.make at h
  split_ifs at h
  obtain rfl := Except.ok.inj h
  exact ⟨rfl,rfl,rfl⟩

/-- One step of the loop. -/
lemma Building.add_ok (h : b.add H x = .ok b') :
    (∃ e : CorpusEntry, e.Of H x ∧ b' = {b with entries := b.entries++[e]}) ∨
      ∃ z : Excluded, z.Of x ∧ b' = {b with excluded := b.excluded++[z]} := by
  cases x with
  | leftOut parts why =>
    obtain rfl := Except.ok.inj h
    exact Or.inr ⟨_,⟨rfl,nofun,fun hw => hw parts why rfl⟩,rfl⟩
  | file parts content =>
    cases content with
    | error strerror =>
      obtain rfl := Except.ok.inj h
      refine Or.inr ⟨_,⟨rfl,fun bytes hb => ?_,fun _ => ?_⟩,rfl⟩
      · cases (WalkItem.file.inj hb).2
      · exact List.append_ne_nil_of_left_ne_nil (by decide) _
    | ok bytes =>
      obtain ⟨e,he,hb⟩ := except_bind_ok.mp h
      obtain rfl := Except.ok.inj hb
      exact Or.inl ⟨e,⟨bytes,rfl,CorpusEntry.make_ok he⟩,rfl⟩

/-- These entries and exclusions are those of the items, each in its place. -/
structure Lists (H : Hasher) (items : List WalkItem) (entries : List CorpusEntry) (excluded : List Excluded) :
    Prop where
  perm : (entries.map CorpusEntry.path++excluded.map Excluded.path).Perm (items.map WalkItem.rel)
  entry : ∀ e ∈ entries, ∃ x ∈ items, e.Of H x
  left : ∀ z ∈ excluded, ∃ x ∈ items, z.Of x

lemma CorpusEntry.Of.path {e : CorpusEntry} (h : e.Of H x) : e.path = x.rel := by
  obtain ⟨-,-,hp,-⟩ := h
  exact hp

lemma Lists.add (h : Lists H items b.entries b.excluded) (ha : b.add H x = .ok b') :
    Lists H (items++[x]) b'.entries b'.excluded := by
  have hold : ∀ {P : WalkItem → Prop}, (∃ y ∈ items, P y) → ∃ y ∈ items++[x], P y := fun ⟨y,hy,hp⟩ =>
    ⟨y,List.mem_append_left _ hy,hp⟩
  have hnew : x ∈ items++[x] := List.mem_append_right _ (List.mem_singleton_self x)
  rcases Building.add_ok ha with ⟨e,he,rfl⟩ | ⟨z,hz,rfl⟩
  · refine ⟨?_,List.forall_mem_append.mpr ⟨fun e' he' => hold (h.entry e' he'),?_⟩,
      fun z hz => hold (h.left z hz)⟩
    · rw [List.map_append,List.map_append,List.map_singleton,List.map_singleton,he.path]
      calc (b.entries.map CorpusEntry.path++[x.rel]++b.excluded.map Excluded.path)
          = b.entries.map CorpusEntry.path++([x.rel]++b.excluded.map Excluded.path) := List.append_assoc ..
        List.Perm _ (b.entries.map CorpusEntry.path++(b.excluded.map Excluded.path++[x.rel])) :=
          List.perm_append_comm.append_left _
        List.Perm _ _ := by
          rw [← List.append_assoc]
          exact h.perm.append_right _
    · exact List.forall_mem_singleton.mpr ⟨x,hnew,he⟩
  · refine ⟨?_,fun e' he' => hold (h.entry e' he'),
      List.forall_mem_append.mpr ⟨fun z hz => hold (h.left z hz),?_⟩⟩
    · rw [List.map_append,List.map_append,List.map_singleton,List.map_singleton,hz.1,← List.append_assoc]
      exact h.perm.append_right _
    · exact List.forall_mem_singleton.mpr ⟨x,hnew,hz⟩

lemma Lists.fold (done : List WalkItem) (h : Lists H done b.entries b.excluded)
    (hf : items.foldlM (Building.add H) b = .ok b') : Lists H (done++items) b'.entries b'.excluded := by
  induction items generalizing b done with
  | nil =>
    obtain rfl := Except.ok.inj hf
    rwa [List.append_nil]
  | cons x items ih =>
    rw [List.foldlM_cons] at hf
    obtain ⟨b₁,ha,hrest⟩ := except_bind_ok.mp hf
    have := ih _ (h.add ha) hrest
    rwa [List.append_assoc,List.singleton_append] at this

/-- The loop ends when the path of every readable file is one of a corpus. -/
lemma fold_total (h : ∀ parts bytes, .file parts (.ok bytes) ∈ items → isCorpusPath (relPath parts) = true) :
    ∃ b', items.foldlM (Building.add H) b = .ok b' := by
  induction items generalizing b with
  | nil => exact ⟨b,rfl⟩
  | cons x items ih =>
    have hx : ∃ b', b.add H x = .ok b' := by
      cases x with
      | leftOut parts why => exact ⟨_,rfl⟩
      | file parts content =>
        cases content with
        | error strerror => exact ⟨_,rfl⟩
        | ok bytes =>
          refine ⟨{b with entries := b.entries++[⟨relPath parts,H.hexdigest bytes,bytes.length,
            h parts bytes List.mem_cons_self,H.digest_form bytes⟩]},?_⟩
          simp only [Building.add,hashFile,Except.map,CorpusEntry.make,h parts bytes List.mem_cons_self,
            H.digest_form bytes,dif_pos]
          rfl
    obtain ⟨b₁,hb₁⟩ := hx
    rw [List.foldlM_cons,hb₁]
    exact ih fun parts bytes hm => h parts bytes (List.mem_cons_of_mem _ hm)

/-- And only then. -/
lemma fold_paths (h : items.foldlM (Building.add H) b = .ok b') {parts : List PyStr} {bytes : Bytes}
    (hm : .file parts (.ok bytes) ∈ items) : isCorpusPath (relPath parts) = true := by
  induction items generalizing b with
  | nil => cases hm
  | cons x items ih =>
    rw [List.foldlM_cons] at h
    obtain ⟨b₁,ha,hrest⟩ := except_bind_ok.mp h
    rcases List.mem_cons.mp hm with rfl | hm
    · obtain ⟨e,he,-⟩ := except_bind_ok.mp ha
      exact (CorpusEntry.make_ok he).1 ▸ e.path_ok
    · exact ih hrest hm

lemma Corpus.make_ok {name : PyStr} (h : Corpus.make name entries excluded = .ok c) :
    c.entries = entries ∧ c.excluded = excluded := by
  unfold Corpus.make at h
  split_ifs at h
  obtain rfl := Except.ok.inj h
  exact ⟨rfl,rfl⟩

lemma Lists.sorted (h : Lists H items entries excluded) : Lists H items
    (entries.insertionSort fun e f => e.path ≤ f.path) (excluded.insertionSort fun x y => x.path ≤ y.path) := by
  refine ⟨?_,fun e he => h.entry e ((List.mem_insertionSort _).mp he),
    fun z hz => h.left z ((List.mem_insertionSort _).mp hz)⟩
  exact (((List.perm_insertionSort _ _).map _).append ((List.perm_insertionSort _ _).map _)).trans h.perm

variable {t : CorpusTree} {raises : Bool} {name : Option PyStr} {resolved : PyStr}

/-- What a corpus that was built lists. -/
lemma build_ok (h : Corpus.build H raises t.root name resolved = .ok c) :
    t.root.isDir = true ∧ (t.root.walk raises).raised = none ∧
      Lists H (t.root.walk raises).items c.entries c.excluded ∧
      ∀ parts bytes, .file parts (.ok bytes) ∈ (t.root.walk raises).items → isCorpusPath (relPath parts) = true := by
  unfold Corpus.build at h
  split_ifs at h with hd
  obtain ⟨b,hf,h⟩ := except_bind_ok.mp h
  dsimp only at h
  cases hr : (t.root.walk raises).raised with
  | some exc =>
    rw [hr] at h
    cases h
  | none =>
    rw [hr] at h
    obtain ⟨he,hx⟩ := Corpus.make_ok h
    have hl : Lists H ((t.root.walk raises).items) b.entries b.excluded := by
      have := Lists.fold (H := H) [] ⟨.refl _,List.forall_mem_nil _,List.forall_mem_nil _⟩ hf
      rwa [List.nil_append] at this
    rw [he,hx]
    exact ⟨Bool.eq_true_of_not_eq_false hd,rfl,hl.sorted,fun parts bytes hm => fold_paths hf hm⟩

/-- What build refuses: a root that is no directory, a directory that gets is_symlink stuck, or a
readable file whose path holds a backslash. -/
inductive CorpusTree.Refused (raises : Bool) (t : CorpusTree) : Prop
  | notDirectory (h : t.root.isDir = false)
  | stuck (h : t.root.top.Blocked raises)
  | backslash {parts : List PyStr} {bytes : Bytes} (h : t.root.top.Shows [] (.file parts (.ok bytes)))
    (hb : cp '\\' ∈ relPath parts)

/-- The paths of the walk are different texts. -/
lemma rels_nodup (hr : (t.root.walk raises).raised = none) : ((t.root.walk raises).items.map WalkItem.rel).Nodup := by
  obtain ⟨hitems,hnodup⟩ := walk_items hr
  refine List.Nodup.map_on (fun x hx y hy heq => ?_) (List.Nodup.of_map _ hnodup)
  have hparts := (shows_of ((hitems x).mp hx)).rel_inj (shows_of ((hitems y).mp hy)) heq
  exact List.inj_on_of_nodup_map hnodup hx hy hparts

lemma corpusName_ne : corpusName name resolved ≠ [] := by
  unfold corpusName
  split_ifs with hn hr
  · exact hn
  · exact hr
  · decide

lemma Lists.make (name : Option PyStr) (resolved : PyStr) {c : Building}
    (h : Lists H items c.entries c.excluded) (hn : (items.map WalkItem.rel).Nodup) :
    ∃ corpus, Corpus.make (corpusName name resolved) (c.entries.insertionSort fun e f => e.path ≤ f.path)
      (c.excluded.insertionSort fun x y => x.path ≤ y.path) = .ok corpus := by
  have hnodup := h.sorted.perm.nodup_iff.mpr hn
  obtain ⟨he,-,hdisjoint⟩ := List.nodup_append.mp hnodup
  have hes : ((c.entries.insertionSort fun e f => e.path ≤ f.path).map CorpusEntry.path).Pairwise (· ≤ ·) :=
    List.pairwise_map.mpr (List.pairwise_insertionSort _ _)
  have hxs : ((c.excluded.insertionSort fun x y => x.path ≤ y.path).map Excluded.path).Pairwise (· ≤ ·) :=
    List.pairwise_map.mpr (List.pairwise_insertionSort _ _)
  unfold Corpus.make
  rw [dif_pos corpusName_ne,dif_pos ⟨hes,he⟩,dif_pos ⟨hxs,fun p hp hp' => hdisjoint p hp' p hp rfl⟩]
  exact ⟨_,rfl⟩

/-- build ends with a corpus for every other tree. -/
theorem build_total : (∃ c, Corpus.build H raises t.root name resolved = .ok c) ↔ ¬t.Refused raises := by
  constructor
  · rintro ⟨c,hc⟩ hrefused
    obtain ⟨hd,hr,-,hpaths⟩ := build_ok hc
    obtain ⟨hitems,-⟩ := walk_items hr
    cases hrefused with
    | notDirectory h => rw [hd] at h; cases h
    | stuck h => exact walk_raised.mp hr h
    | backslash h hb =>
      have hof := shows_of h
      exact (isCorpusPath_relPath hof.nonempty hof.names).mp (hpaths _ _ ((hitems _).mpr h)) hb
  · intro hn
    have hd : t.root.isDir = true := by
      by_contra h
      exact hn (.notDirectory (Bool.eq_false_of_not_eq_true h))
    have hr : (t.root.walk raises).raised = none := walk_raised.mpr fun h => hn (.stuck h)
    obtain ⟨hitems,-⟩ := walk_items hr
    have hpaths : ∀ parts bytes, .file parts (.ok bytes) ∈ (t.root.walk raises).items →
        isCorpusPath (relPath parts) = true := by
      intro parts bytes hm
      have hs := (hitems _).mp hm
      have hof := shows_of hs
      exact (isCorpusPath_relPath hof.nonempty hof.names).mpr fun hb => hn (.backslash hs hb)
    obtain ⟨b,hf⟩ := fold_total (H := H) (b := ⟨[],[]⟩) hpaths
    have hl := Lists.fold (H := H) [] ⟨.refl _,List.forall_mem_nil _,List.forall_mem_nil _⟩ hf
    rw [List.nil_append] at hl
    obtain ⟨c,hc⟩ := hl.make name resolved (rels_nodup hr)
    refine ⟨c,?_⟩
    simp only [Corpus.build,hd,Bool.true_eq_false,if_false,hf,hr,bind,Except.bind]
    exact hc

end Build

section Coverage

variable {H : Hasher} {c : Corpus} {t : CorpusTree} {raises : Bool}

/-- The path is listed once: among the entries, with its digest and size, if it is a regular file that
can be read, and otherwise among the excluded paths, with a reason. -/
structure Corpus.Covers (H : Hasher) (c : Corpus) (root : CorpusRoot) (parts : List PyStr) : Prop where
  once : (c.entries.map CorpusEntry.path++c.excluded.map Excluded.path).count (relPath parts) = 1
  entry : ∀ e ∈ c.entries, e.path = relPath parts →
    ∃ bytes, root.lstat parts = .regular (.ok bytes) ∧ e.sha256 = H.hexdigest bytes ∧ e.size = bytes.length
  left : ∀ z ∈ c.excluded, z.path = relPath parts → z.why ≠ [] ∧ ∀ bytes, root.lstat parts ≠ .regular (.ok bytes)

/-- Every path that is no directory lies in one that the walk can list: the directory can be listed, and
those above it can be listed and searched. -/
def CorpusTree.Visible (t : CorpusTree) : Prop :=
  ∀ dir name n, t.root.top.find (dir++[name]) = some n → n.isRealDir = false → (t.root.top.listed dir).isSome

lemma Lists.covers {x : WalkItem} (h : Lists H (t.root.walk raises).items c.entries c.excluded)
    (hr : (t.root.walk raises).raised = none)
    (hx : t.root.top.Shows [] x) : c.Covers H t.root x.parts := by
  obtain ⟨hitems,-⟩ := walk_items hr
  have hof := shows_of hx
  have hsame : ∀ y ∈ (t.root.walk raises).items, y.rel = x.rel → y = x := fun y hy heq =>
    List.inj_on_of_nodup_map (rels_nodup hr) hy ((hitems x).mpr hx) heq
  constructor
  · rw [h.perm.count_eq]
    exact List.count_eq_one_of_mem (rels_nodup hr) (List.mem_map_of_mem ((hitems x).mpr hx))
  · intro e he hpath
    obtain ⟨y,hy,bytes,hbytes,hrel,hsha,hsize⟩ := h.entry e he
    obtain rfl := hsame y hy (hrel.symm.trans hpath)
    exact ⟨bytes,(hof.file _).mp hbytes,hsha,hsize⟩
  · intro z hz hpath
    obtain ⟨y,hy,hrel,hnot,hwhy⟩ := h.left z hz
    obtain rfl := hsame y hy (hrel.symm.trans hpath)
    exact ⟨hwhy hof.reason,fun bytes hb => hnot bytes ((hof.file _).mpr hb)⟩

/-- For every directory tree: what Corpus.build returns lists every path that is no directory once, among
the entries or the excluded, exactly when each of them lies in a directory that the walk can list, or the
build is refused. -/
theorem corpus_build_complete_iff (H : Hasher) (raises : Bool) (t : CorpusTree) (name : Option PyStr)
    (resolved : PyStr) :
    (∀ c, Corpus.build H raises t.root name resolved = .ok c → ∀ parts n, parts ≠ [] →
      t.root.top.find parts = some n → n.isRealDir = false → c.Covers H t.root parts) ↔
      t.Refused raises ∨ t.Visible := by
  constructor
  · intro h
    by_cases hrefused : t.Refused raises
    · exact Or.inl hrefused
    · obtain ⟨c,hc⟩ := build_total.mpr hrefused
      obtain ⟨-,hr,hl,-⟩ := build_ok hc
      obtain ⟨hitems,-⟩ := walk_items hr
      refine Or.inr fun dir last n hfind hn => ?_
      have hne : dir++[last] ≠ [] := by simp
      have hcover := h c hc _ n hne hfind hn
      have hmem : relPath (dir++[last]) ∈ (t.root.walk raises).items.map WalkItem.rel := by
        rw [← hl.perm.mem_iff,← List.count_pos_iff,hcover.once]
        exact one_pos
      obtain ⟨x,hx,hrel⟩ := List.mem_map.mp hmem
      have hof := shows_of ((hitems x).mp hx)
      have hparts := relPath_inj hof.nonempty hof.names hne (find_named t.top_named hfind).1 hrel
      obtain ⟨dir',last',hsplit,hlisted⟩ := hof.listed
      rw [hparts] at hsplit
      obtain ⟨rfl,-⟩ := List.append_inj' hsplit rfl
      exact hlisted
  · rintro hv c hc parts n hne hfind hn
    obtain ⟨-,hr,hl,-⟩ := build_ok hc
    have hvisible : t.Visible := hv.resolve_left (build_total.mp ⟨c,hc⟩)
    obtain ⟨dir,last,rfl⟩ := (List.eq_nil_or_concat' parts).resolve_left hne
    obtain ⟨x,hx,hparts⟩ := shows_find hfind hn (hvisible dir last n hfind hn)
    exact hparts ▸ hl.covers hr hx

/-- A directory that cannot be listed, with a file in it. -/
def hiddenTree : CorpusTree where
  root := .dir true true [(lit "a",.file (.ok [1])),(lit "d",.dir false true [(lit "x",.file (.ok [2]))])]
  named := by
    have ha : IsName (lit "a") := ⟨by decide,by decide,by decide,by decide,by decide⟩
    have hd : IsName (lit "d") := ⟨by decide,by decide,by decide,by decide,by decide⟩
    have hx : IsName (lit "x") := ⟨by decide,by decide,by decide,by decide,by decide⟩
    exact ⟨by decide,ha,trivial,hd,⟨by decide,hx,trivial,trivial⟩,trivial⟩

/-- The corpus that is built of it says nothing of the file. -/
theorem corpus_build_incomplete : ∃ c, Corpus.build .checksum true hiddenTree.root none [] = .ok c ∧
    hiddenTree.root.top.find [lit "d",lit "x"] = some (.file (.ok [2])) ∧
    c.entries.map CorpusEntry.path = [lit "a"] ∧ c.excluded.map Excluded.path = [] ∧
    ¬c.Covers .checksum hiddenTree.root [lit "d",lit "x"] := by
  have hrun : (match Corpus.build .checksum true hiddenTree.root none [] with
    | .ok c => decide (c.entries.map CorpusEntry.path = [lit "a"] ∧ c.excluded.map Excluded.path = [])
    | .error _ => false) = true := by decide +kernel
  split at hrun
  · rename_i c hc
    obtain ⟨he,hx⟩ := of_decide_eq_true hrun
    refine ⟨c,hc,rfl,he,hx,fun hcover => ?_⟩
    have honce := hcover.once
    rw [he,hx] at honce
    exact absurd honce (by decide)
  · cases hrun

end Coverage

end Stele
