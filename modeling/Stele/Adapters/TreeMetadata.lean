import Stele.Adapters.ChatGPTTree

/-! A chunk's metadata and the walked tree. Its index comes from the children lists, the number of
its siblings and the current branch from the parent fields: they describe one tree when an export
states the two alike. -/
namespace Stele
namespace ChatGPT
open Python Forest

variable {H : Hasher} {U : Unicode} {c : Conversation} {mapping : Mapping} {current : PyVal}

/-- What a node says is its parent. -/
def parentField (mapping : Mapping) (id : PyStr) : PyVal := getItem (nodeItems mapping id) (lit "parent")

/-- The nodes from current_node up, by the parent fields. -/
inductive StatedAbove (mapping : Mapping) (current : PyVal) : PyStr → Prop
  | here {id : PyStr} (h : current = .str id) (hin : inMapping mapping (.str id) = true) :
    StatedAbove mapping current id
  | parent {a b : PyStr} (ha : StatedAbove mapping current a) (h : parentField mapping a = .str b)
    (hin : inMapping mapping (.str b) = true) : StatedAbove mapping current b

section Ancestors

variable {n : ℕ} {v : PyVal} {seen : List PyStr}

lemma ancestors_sound (hseen : ∀ a ∈ seen, StatedAbove mapping current a)
    (hv : ∀ id, v = .str id → inMapping mapping (.str id) = true → StatedAbove mapping current id) :
    ∀ a ∈ ancestors mapping n v seen, StatedAbove mapping current a := by
  induction n generalizing v seen with
  | zero => cases v <;> exact hseen
  | succ n ih =>
    cases v with
    | str id =>
      rw [ancestors]
      split_ifs with h
      · have hid := hv id rfl h.1
        refine ih (fun a ha => ?_) fun b hb hin => .parent hid hb hin
        rcases List.mem_cons.mp ha with rfl | ha
        · exact hid
        · exact hseen a ha
      · exact hseen
    | _ => exact hseen

/-- The parents of what has been seen have been seen, but for the next one. -/
def ClosedBut (mapping : Mapping) (seen : List PyStr) (v : PyVal) : Prop :=
  ∀ a ∈ seen, ∀ b, parentField mapping a = .str b → inMapping mapping (.str b) = true → b ∈ seen ∨ v = .str b

/-- The loop ends at a value that is no new node. -/
lemma ClosedBut.stop (hc : ClosedBut mapping seen v)
    (hv : ∀ b, v = .str b → inMapping mapping (.str b) = true → b ∈ seen) :
    seen ⊆ seen ∧ (∀ b, v = .str b → inMapping mapping (.str b) = true → b ∈ seen) ∧
    ∀ a ∈ seen, ∀ b, parentField mapping a = .str b → inMapping mapping (.str b) = true → b ∈ seen :=
  ⟨List.Subset.refl _,hv,fun a ha b hb hin => (hc a ha b hb hin).elim id fun h => hv b h hin⟩

lemma ancestors_closed (hsub : seen ⊆ nodeIds mapping) (hd : seen.Nodup) (hn : mapping.length ≤ seen.length+n)
    (hc : ClosedBut mapping seen v) :
    seen ⊆ ancestors mapping n v seen ∧
    (∀ b, v = .str b → inMapping mapping (.str b) = true → b ∈ ancestors mapping n v seen) ∧
    ∀ a ∈ ancestors mapping n v seen, ∀ b, parentField mapping a = .str b →
      inMapping mapping (.str b) = true → b ∈ ancestors mapping n v seen := by
  induction n generalizing v seen with
  | zero =>
    have hv : ∀ b, v = .str b → inMapping mapping (.str b) = true → b ∈ seen := fun b _ hin => by
      have hlen : (nodeIds mapping).length ≤ seen.length := (List.length_filterMap_le _ _).trans hn
      exact ((List.subperm_of_subset hd hsub).perm_of_length_le hlen).mem_iff.mpr (mem_nodeIds hin)
    cases v <;> exact hc.stop hv
  | succ n ih =>
    cases v with
    | str id =>
      rw [ancestors]
      split_ifs with h
      · obtain ⟨hsub',-,hclosed⟩ := ih (v := parentField mapping id)
          (List.cons_subset.mpr ⟨mem_nodeIds h.1,hsub⟩) (List.nodup_cons.mpr ⟨h.2,hd⟩)
          (by rw [List.length_cons]; omega) fun a ha b hb hin => by
            rcases List.mem_cons.mp ha with rfl | ha
            · exact Or.inr hb
            · rcases hc a ha b hb hin with hb | hb
              · exact Or.inl (List.mem_cons_of_mem _ hb)
              · exact Or.inl (PyVal.str.inj hb ▸ List.mem_cons_self)
        refine ⟨fun a ha => hsub' (List.mem_cons_of_mem _ ha),fun b hb _ => ?_,hclosed⟩
        exact hsub' (PyVal.str.inj hb ▸ List.mem_cons_self)
      · refine hc.stop fun b hb hin => ?_
        obtain rfl := PyVal.str.inj hb
        exact by_contra fun hmem => h ⟨hin,hmem⟩
    | _ => exact hc.stop nofun

/-- _ancestors is the set of the nodes above, also where the parent fields make a cycle. -/
lemma mem_ancestors {id : PyStr} :
    id ∈ ancestors mapping mapping.length current [] ↔ StatedAbove mapping current id := by
  refine ⟨ancestors_sound (List.forall_mem_nil _) (fun _ => .here) id,fun h => ?_⟩
  obtain ⟨-,hnext,hclosed⟩ := ancestors_closed (v := current) (List.nil_subset (nodeIds mapping)) List.nodup_nil
    (Nat.le_add_left _ _) (List.forall_mem_nil _)
  induction h with
  | here h hin => exact hnext _ h hin
  | parent _ h hin ih => exact hclosed _ ih _ h hin

end Ancestors

variable {conversation : List (PyKey × PyVal)} {convId recordId : PyStr} {entry : Entry}

lemma mem_currentBranch {id : PyStr} (hs : start conversation convId entry recordId = .ok c) :
    id ∈ c.currentBranch ↔ StatedAbove c.mapping (getItem conversation (lit "current_node")) id := by
  obtain ⟨mapping,-,hs⟩ := except_bind_ok.mp hs
  obtain ⟨_,-,hs⟩ := except_bind_ok.mp hs
  obtain ⟨branch,hb,hs⟩ := except_bind_ok.mp hs
  obtain rfl := Except.ok.inj hs
  change id ∈ branch ↔ StatedAbove mapping _ id
  cases hc : getItem conversation (lit "current_node") with
  | none =>
    rw [hc] at hb
    obtain rfl := Except.ok.inj hb
    refine iff_of_false List.not_mem_nil fun h => ?_
    induction h with
    | here h => cases h
    | parent _ _ _ ih => exact ih
  | _ =>
    rw [hc,branchOf] at hb
    · split_ifs at hb
      obtain rfl := Except.ok.inj hb
      exact mem_ancestors
    · intro h
      cases h

section OneTree

/-- On the path of the walked tree from a root to current_node. -/
def OnPath (mapping : Mapping) (current : PyVal) (p : Position PyStr) : Prop :=
  ∃ q s, Walked mapping q ∧ current = .str q.node ∧ q.chain = s++p.chain

/-- The chunks' metadata describes the walked tree. -/
structure OneTree (mapping : Mapping) (current : PyVal) (chunks : List SteleChunk) : Prop where
  bounds : ∀ a ∈ chunks, ∃ i n : ℤ, metaOf a (lit "sibling_index") = .int i ∧
    metaOf a (lit "sibling_count") = .int n ∧ 0 ≤ i ∧ i < n
  siblings : ∀ a ∈ chunks, ∀ b ∈ chunks, ∀ p q, Walked mapping p → Walked mapping q →
    p ≠ q → p.above = q.above → metaOf a (lit "node_id") = .str p.node → metaOf b (lit "node_id") = .str q.node →
    metaOf a (lit "sibling_index") ≠ metaOf b (lit "sibling_index") ∧
    metaOf a (lit "sibling_count") = metaOf b (lit "sibling_count")
  branch : ∀ a ∈ chunks, ∀ p, Walked mapping p → metaOf a (lit "node_id") = .str p.node →
    (metaOf a (lit "on_current_branch") = .bool true ↔ OnPath mapping current p)

/-- How many children a node lists; a node that is no object counts as one that lists one. -/
def listedBy (mapping : Mapping) (id : PyStr) : ℕ :=
  match PyVal.find mapping (.str id) with
  | some (.dict node) => (children mapping node).length
  | _ => 1

/-- The parent fields of the nodes with text fit the children lists: only the first root has text,
the stated parent of every other node lists enough children, as many for each of the siblings, and
the parent fields from current_node lead over the nodes of its path. -/
structure Agrees (U : Unicode) (mapping : Mapping) (current : PyVal) : Prop where
  root : ∀ p, Walked mapping p → emits U mapping p.node = true → p.above = [] → p.index = 0
  enough : ∀ p x, Walked mapping p → emits U mapping p.node = true → p.above ≠ [] →
    parentField mapping p.node = .str x → p.index < listedBy mapping x
  same : ∀ p q x y, Walked mapping p → Walked mapping q → emits U mapping p.node = true →
    emits U mapping q.node = true → p.above ≠ [] → p.above = q.above →
    parentField mapping p.node = .str x → parentField mapping q.node = .str y →
    listedBy mapping x = listedBy mapping y
  branch : ∀ p, Walked mapping p → emits U mapping p.node = true →
    (StatedAbove mapping current p.node ↔ OnPath mapping current p)

variable {p q : Position PyStr}

/-- What has text is an object. -/
lemma find_of_emits {id : PyStr} (h : emits U mapping id = true) :
    PyVal.find mapping (.str id) = some (.dict (nodeItems mapping id)) := by
  have hempty : ∀ {id}, nodeItems mapping id = [] → emits U mapping id = false := by
    intro id hn
    rw [emits,nodeText,hn]
    rfl
  cases hf : PyVal.find mapping (.str id) with
  | none =>
    rw [hempty (by simp only [nodeItems,hf])] at h
    cases h
  | some v =>
    cases v with
    | dict node => simp only [nodeItems,hf]
    | _ =>
      rw [hempty (by simp only [nodeItems,hf])] at h
      cases h

lemma siblingCount_root (hin : inMapping mapping (parentField mapping p.node) = false) :
    siblingCount mapping (nodeItems mapping p.node) = 1 := by
  unfold siblingCount
  rw [parentField] at hin
  cases hp : getItem (nodeItems mapping p.node) (lit "parent") with
  | str x =>
    rw [hp] at hin
    have hnone : PyVal.find mapping (.str x) = none :=
      Option.isNone_iff_eq_none.mp (Option.isSome_eq_false_iff.mp hin)
    simp only [hnone]
  | _ => rfl

lemma siblingCount_child {x : PyStr} (hx : parentField mapping p.node = .str x) :
    siblingCount mapping (nodeItems mapping p.node) = listedBy mapping x := by
  rw [parentField] at hx
  cases hf : PyVal.find mapping (.str x) with
  | none => simp only [siblingCount,listedBy,hx,hf]
  | some v => cases v <;> simp only [siblingCount,listedBy,hx,hf]

/-- A place with text is a root's exactly when its parent field names no node. -/
lemma root_iff (hu : Unique (roots mapping) (kidsOf mapping)) (hp : Walked mapping p)
    (he : emits U mapping p.node = true) :
    p.above = [] ↔ inMapping mapping (parentField mapping p.node) = false := by
  have hf := find_of_emits he
  have hroot : p.node ∈ roots mapping ↔ inMapping mapping (parentField mapping p.node) = false := by
    have hid : p.node ∈ nodeIds mapping := walked_nodeIds hp
    rw [roots,List.mem_filter]
    simp only [hid,hf,true_and,Bool.not_eq_true']
    rfl
  rw [← hroot]
  constructor
  · intro ha
    cases hp with
    | root h => exact List.mem_of_getElem? h
    | child _ _ => cases ha
  · intro hr
    obtain ⟨i,hi⟩ := List.getElem?_of_mem hr
    rw [hu p ⟨p.node,i,[]⟩ hp (.root hi) rfl]

/-- The number of siblings that a chunk is given. -/
lemma siblingCount_of_emits (hu : Unique (roots mapping) (kidsOf mapping)) (hp : Walked mapping p)
    (he : emits U mapping p.node = true) :
    (p.above = [] ∧ siblingCount mapping (nodeItems mapping p.node) = 1) ∨
    ∃ x, p.above ≠ [] ∧ parentField mapping p.node = .str x ∧
      siblingCount mapping (nodeItems mapping p.node) = listedBy mapping x := by
  by_cases ha : p.above = []
  · exact Or.inl ⟨ha,siblingCount_root ((root_iff hu hp he).mp ha)⟩
  · refine Or.inr ?_
    have hin := mt (root_iff hu hp he).mpr ha
    cases hx : parentField mapping p.node with
    | str x => exact ⟨x,ha,rfl,siblingCount_child hx⟩
    | _ =>
      rw [hx] at hin
      exact absurd rfl hin

/-- An export that is accepted has each node once. -/
lemma unique_of_accepts (hs : start conversation convId entry recordId = .ok c)
    (h : (conversationChunks H U conversation convId entry recordId).raised = none) :
    Unique (roots c.mapping) (kidsOf c.mapping) := by
  obtain ⟨found,hf,-⟩ := walk_accepts hs h
  intro p q hp hq hn
  exact List.inj_on_of_nodup_map hf.once ((hf.places p).mpr hp) ((hf.places q).mpr hq) hn

/-- A chunk's metadata describes the walked tree exactly when the parent fields fit it. -/
theorem oneTree_iff (hs : start conversation convId entry recordId = .ok c)
    (h : (conversationChunks H U conversation convId entry recordId).raised = none) :
    OneTree c.mapping (getItem conversation (lit "current_node"))
      (conversationChunks H U conversation convId entry recordId).items ↔
    Agrees U c.mapping (getItem conversation (lit "current_node")) := by
  obtain ⟨found,hf,hd⟩ := walk_accepts hs h
  have hu := unique_of_accepts hs h
  -- the chunks are those of the places with text
  have hchunk : ∀ p, Walked c.mapping p → emits U c.mapping p.node = true →
      ∃ a ∈ (conversationChunks H U conversation convId entry recordId).items, Describes U c p a :=
    fun p hp he => forall₂_left hd p (List.mem_filter.mpr ⟨(hf.places p).mpr hp,he⟩)
  have hplace : ∀ a ∈ (conversationChunks H U conversation convId entry recordId).items,
      ∃ p, Walked c.mapping p ∧ emits U c.mapping p.node = true ∧ Describes U c p a := fun a ha => by
    obtain ⟨p,hp,hpa⟩ := forall₂_right hd a ha
    obtain ⟨hp,he⟩ := List.mem_filter.mp hp
    exact ⟨p,(hf.places p).mp hp,he,hpa⟩
  have hnamed : ∀ {p q : Position PyStr} {a}, Walked c.mapping p → Walked c.mapping q → Describes U c p a →
      metaOf a (lit "node_id") = .str q.node → p = q := fun hp hq hpa hqa =>
    hu _ _ hp hq (PyVal.str.inj (hpa.nodeId.symm.trans hqa))
  constructor
  · intro ho
    have hlt : ∀ p, Walked c.mapping p → emits U c.mapping p.node = true →
        p.index < siblingCount c.mapping (nodeItems c.mapping p.node) := fun p hp he => by
      obtain ⟨a,ha,hpa⟩ := hchunk p hp he
      obtain ⟨i,n,hi,hn,-,hin⟩ := ho.bounds a ha
      have hi' := PyVal.int.inj (hpa.siblingIndex.symm.trans hi)
      have hn' := PyVal.int.inj (hpa.siblingCount.symm.trans hn)
      omega
    refine ⟨fun p hp he habove => ?_,fun p x hp he habove hx => ?_,
      fun p q x y hp hq hep heq habove hpq hx hy => ?_,fun p hp he => ?_⟩
    · have := hlt p hp he
      rw [siblingCount_root ((root_iff hu hp he).mp habove)] at this
      omega
    · have := hlt p hp he
      rwa [siblingCount_child hx] at this
    · by_cases hne : p = q
      · subst hne
        obtain rfl := PyVal.str.inj (hx.symm.trans hy)
        rfl
      · obtain ⟨a,ha,hpa⟩ := hchunk p hp hep
        obtain ⟨b,hb,hqb⟩ := hchunk q hq heq
        have hcount := (ho.siblings a ha b hb p q hp hq hne hpq hpa.nodeId hqb.nodeId).2
        rw [hpa.siblingCount,hqb.siblingCount,siblingCount_child hx,siblingCount_child hy] at hcount
        have := PyVal.int.inj hcount
        omega
    · obtain ⟨a,ha,hpa⟩ := hchunk p hp he
      rw [← ho.branch a ha p hp hpa.nodeId,hpa.onCurrentBranch,← mem_currentBranch hs]
      simp
  · intro hg
    have hlt : ∀ p, Walked c.mapping p → emits U c.mapping p.node = true →
        p.index < siblingCount c.mapping (nodeItems c.mapping p.node) := fun p hp he => by
      rcases siblingCount_of_emits hu hp he with ⟨habove,hcount⟩ | ⟨x,habove,hx,hcount⟩
      · rw [hcount,hg.root p hp he habove]
        exact Nat.one_pos
      · rw [hcount]
        exact hg.enough p x hp he habove hx
    refine ⟨fun a ha => ?_,fun a ha b hb p q hp hq hne hpq hap hbq => ?_,fun a ha p hp hap => ?_⟩
    · obtain ⟨p,hp,he,hpa⟩ := hplace a ha
      exact ⟨_,_,hpa.siblingIndex,hpa.siblingCount,by omega,Int.ofNat_lt.mpr (hlt p hp he)⟩
    · obtain ⟨p',hp',hep,hpa⟩ := hplace a ha
      obtain ⟨q',hq',heq,hqb⟩ := hplace b hb
      obtain rfl := hnamed hp' hp hpa hap
      obtain rfl := hnamed hq' hq hqb hbq
      rw [hpa.siblingIndex,hqb.siblingIndex,hpa.siblingCount,hqb.siblingCount]
      refine ⟨fun hi => hne ?_,congrArg (fun n : ℕ => PyVal.int n) ?_⟩
      · exact hp.eq_of_index hq hpq (Int.ofNat_inj.mp (PyVal.int.inj hi))
      · rcases siblingCount_of_emits hu hp hep with ⟨habove,hcount⟩ | ⟨x,habove,hx,hcount⟩
        · rw [hcount,siblingCount_root ((root_iff hu hq heq).mp (hpq ▸ habove))]
        · rcases siblingCount_of_emits hu hq heq with ⟨habove',-⟩ | ⟨y,-,hy,hcount'⟩
          · exact absurd (hpq.trans habove') habove
          · rw [hcount,hcount',hg.same _ _ x y hp hq hep heq habove hpq hx hy]
    · obtain ⟨p',hp',he,hpa⟩ := hplace a ha
      obtain rfl := hnamed hp' hp hpa hap
      rw [← hg.branch _ hp he,hpa.onCurrentBranch,← mem_currentBranch hs]
      simp

/-- Each child names the node that lists it as its parent. -/
def ParentsFit (mapping : Mapping) : Prop :=
  ∀ (p : Position PyStr) (i : ℕ) (n : PyStr), Walked mapping p → (kidsOf mapping p.node)[i]? = some n →
    parentField mapping n = .str p.node

lemma inMapping_nodeIds {id : PyStr} (h : id ∈ nodeIds mapping) : inMapping mapping (.str id) = true := by
  obtain ⟨e,he,hk⟩ := List.mem_filterMap.mp h
  cases hk' : e.1 with
  | str s =>
    rw [hk'] at hk
    obtain rfl := Option.some.inj hk
    have hfound : (mapping.find? fun e => e.1.eq (.str s)).isSome = true :=
      List.find?_isSome.mpr ⟨e,he,keyEq_str_right.mpr hk'⟩
    rw [inMapping,PyVal.find,Option.isSome_map]
    exact hfound
  | _ =>
    rw [hk'] at hk
    cases hk

lemma roots_parent {id : PyStr} (h : id ∈ roots mapping) : inMapping mapping (parentField mapping id) = false := by
  have hr := (List.mem_filter.mp h).2
  unfold parentField nodeItems
  cases hf : PyVal.find mapping (.str id) with
  | none => rfl
  | some v =>
    rw [hf] at hr
    cases v with
    | dict node => simpa using hr
    | _ => rfl

lemma listedBy_kids {id : PyStr} {i : ℕ} (h : i < (kidsOf mapping id).length) :
    listedBy mapping id = (kidsOf mapping id).length := by
  unfold kidsOf nodeItems at h ⊢
  unfold listedBy
  cases hf : PyVal.find mapping (.str id) with
  | none =>
    rw [hf] at h
    exact absurd h (Nat.not_lt_zero _)
  | some v =>
    cases v with
    | dict node => rfl
    | _ =>
      rw [hf] at h
      exact absurd h (Nat.not_lt_zero _)

/-- From a node up, by the parent fields. -/
lemma ParentsFit.up (hf : ParentsFit mapping) (hq : Walked mapping q) (hs : StatedAbove mapping current q.node)
    {s : List (PyStr × ℕ)} (h : q.chain = s++p.chain) : StatedAbove mapping current p.node := by
  induction hq generalizing s with
  | root _ =>
    cases s with
    | nil => rwa [← Position.chain_inj h]
    | cons x s => cases s <;> cases h
  | @child q i n hq hn ih =>
    cases s with
    | nil => rwa [← Position.chain_inj h]
    | cons x s =>
      exact ih (.parent hs (hf q i n hq hn) (inMapping_nodeIds (walked_nodeIds hq))) (List.cons.inj h).2

lemma ParentsFit.onPath (hf : ParentsFit mapping)
    (hc : ∀ id, current = .str id → ∃ p, Walked mapping p ∧ p.node = id) {id : PyStr}
    (h : StatedAbove mapping current id) : ∃ p, Walked mapping p ∧ p.node = id ∧ OnPath mapping current p := by
  induction h with
  | here h _ =>
    obtain ⟨p,hp,rfl⟩ := hc _ h
    exact ⟨p,hp,rfl,p,[],hp,h,rfl⟩
  | @parent a b _ hb hin ih =>
    obtain ⟨p,hp,rfl,w,s,hw,hcur,hchain⟩ := ih
    cases hp with
    | root hn =>
      have hno := roots_parent (List.mem_of_getElem? hn)
      rw [hb,hin] at hno
      cases hno
    | @child q i n hq hn =>
      obtain rfl := PyVal.str.inj ((hf q i n hq hn).symm.trans hb)
      exact ⟨q,hq,rfl,w,s++[(n,i)],hw,hcur,by rw [hchain,List.append_assoc]; rfl⟩

/-- An export whose parent fields fit, with text at the first root only, is described as one
tree. -/
theorem ParentsFit.agrees (hf : ParentsFit mapping) (hu : Unique (roots mapping) (kidsOf mapping))
    (hc : ∀ id, current = .str id → ∃ p, Walked mapping p ∧ p.node = id)
    (hr : ∀ p, Walked mapping p → emits U mapping p.node = true → p.above = [] → p.index = 0) :
    Agrees U mapping current := by
  have hlisted : ∀ {p : Position PyStr} {x}, Walked mapping p → p.above ≠ [] → parentField mapping p.node = .str x →
      ∃ q : Position PyStr, p.above = q.chain ∧ q.node = x ∧ p.index < (kidsOf mapping x).length := by
    intro p x hp habove hx
    cases hp with
    | root _ => exact absurd rfl habove
    | @child q i n hq hn =>
      obtain rfl := PyVal.str.inj ((hf q i n hq hn).symm.trans hx)
      exact ⟨q,rfl,rfl,(List.getElem?_eq_some_iff.mp hn).1⟩
  refine ⟨hr,fun p x hp _ habove hx => ?_,fun p q x y hp hq _ _ habove hpq hx hy => ?_,fun p hp he => ⟨fun h => ?_,?_⟩⟩
  · obtain ⟨q,-,-,hlt⟩ := hlisted hp habove hx
    rwa [listedBy_kids hlt]
  · obtain ⟨v,hv,rfl,-⟩ := hlisted hp habove hx
    obtain ⟨w,hw,rfl,-⟩ := hlisted hq (hpq ▸ habove) hy
    rw [Position.chain_inj (hv.symm.trans (hpq.trans hw))]
  · obtain ⟨q,hq,hqp,hpath⟩ := hf.onPath hc h
    rwa [hu q p hq hp hqp] at hpath
  · rintro ⟨q,s,hq,hcur,hchain⟩
    exact hf.up hq (.here hcur (inMapping_nodeIds (walked_nodeIds hq))) hchain

lemma ParentsFit.of_nodeIds (h : ∀ id ∈ nodeIds mapping, ∀ n ∈ kidsOf mapping id, parentField mapping n = .str id) :
    ParentsFit mapping := fun _ _ _ hp hn => h _ (walked_nodeIds hp) _ (List.mem_of_getElem? hn)

/-- A node with this text, parent and children. -/
def textNode (text : String) (parent : PyVal) (kids : List String) : PyVal :=
  .dict [(.str (lit "parent"),parent),(.str (lit "children"),.list (kids.map fun kid => .str (lit kid))),
    (.str (lit "message"),.dict [(.str (lit "content"),.dict [(.str (lit "parts"),.list [.str (lit text)])])])]

/-- A question with two answers, and a question about the second one. -/
def twoAnswers : Mapping :=
  [(.str (lit "q"),textNode "hi" .none ["a","b"]),(.str (lit "a"),textNode "ho" (.str (lit "q")) []),
    (.str (lit "b"),textNode "he" (.str (lit "q")) ["c"]),(.str (lit "c"),textNode "ha" (.str (lit "b")) [])]

def twoAnswersExport : List (PyKey × PyVal) :=
  [(.str (lit "mapping"),.dict twoAnswers),(.str (lit "current_node"),.str (lit "c"))]

def twoAnswersChunks : Gen SteleChunk :=
  conversationChunks .checksum .ascii twoAnswersExport (lit "c") ⟨[],0,0,0⟩ []

lemma twoAnswers_fit : ParentsFit twoAnswers := by
  refine .of_nodeIds ?_
  have hids : nodeIds twoAnswers = [lit "q",lit "a",lit "b",lit "c"] := by decide +kernel
  rw [hids]
  simp only [List.forall_mem_cons]
  exact ⟨List.forall_mem_cons.mpr ⟨rfl,List.forall_mem_singleton.mpr rfl⟩,nofun,
    List.forall_mem_singleton.mpr rfl,nofun,nofun⟩

/-- Every node of the four has text, and the chunks of the answers are siblings. -/
theorem oneTree_iff_sample : twoAnswersChunks.raised = none ∧ twoAnswersChunks.items.length = 4 ∧
    Agrees .ascii twoAnswers (.str (lit "c")) ∧ OneTree twoAnswers (.str (lit "c")) twoAnswersChunks.items := by
  have hs : start twoAnswersExport (lit "c") ⟨[],0,0,0⟩ [] = .ok _ := rfl
  obtain ⟨hraised,hlen⟩ : twoAnswersChunks.raised = none ∧ twoAnswersChunks.items.length = 4 := by decide +kernel
  have hg : Agrees .ascii twoAnswers (.str (lit "c")) := by
    refine twoAnswers_fit.agrees (unique_of_accepts hs hraised) (fun id h => ?_) fun p hp _ habove => ?_
    · obtain rfl := PyVal.str.inj h
      exact ⟨_,.child (i := 0) (.child (i := 1) (.root (i := 0) rfl) rfl) rfl,rfl⟩
    · cases hp with
      | @root i n hn =>
        have hroots : roots twoAnswers = [lit "q"] := by decide +kernel
        have hlt := (List.getElem?_eq_some_iff.mp hn).1
        rw [hroots] at hlt
        exact Nat.lt_one_iff.mp hlt
      | child _ _ => cases habove
  exact ⟨hraised,hlen,hg,(oneTree_iff hs hraised).mpr hg⟩

/-- Two messages without a parent. -/
def twoRoots : Mapping :=
  [(.str (lit "a"),.dict [(.str (lit "message"),.dict
      [(.str (lit "content"),.dict [(.str (lit "parts"),.list [.str (lit "hi")])])])]),
    (.str (lit "b"),.dict [(.str (lit "message"),.dict
      [(.str (lit "content"),.dict [(.str (lit "parts"),.list [.str (lit "ho")])])])])]

/-- The chunks of the two. -/
def twoRootsChunks : Gen SteleChunk :=
  conversationChunks .checksum .ascii [(.str (lit "mapping"),.dict twoRoots)] (lit "c") ⟨[],0,0,0⟩ []

/-- The second root is number 1 of 1. -/
theorem second_root_index : twoRootsChunks.raised = none ∧ ¬OneTree twoRoots .none twoRootsChunks.items := by
  refine ⟨by decide +kernel,fun h => ?_⟩
  have hlen : 1 < twoRootsChunks.items.length := by decide +kernel
  obtain ⟨i,n,hi,hn,-,hlt⟩ := h.bounds _ (List.getElem_mem hlen)
  have hi' : metaOf twoRootsChunks.items[1] (lit "sibling_index") = .int 1 := rfl
  have hn' : metaOf twoRootsChunks.items[1] (lit "sibling_count") = .int 1 := rfl
  obtain rfl := PyVal.int.inj (hi'.symm.trans hi)
  obtain rfl := PyVal.int.inj (hn'.symm.trans hn)
  exact lt_irrefl _ hlt

end OneTree

end ChatGPT
end Stele
