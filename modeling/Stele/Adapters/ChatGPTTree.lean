import Stele.Adapters.ChatGPT
import Stele.Lib.Forest

/-! The walk of a conversation goes through the places of the forest that its mapping spans, and
makes one chunk of each node with content. -/
namespace Stele
namespace ChatGPT
open Python Forest

variable {H : Hasher} {U : Unicode} {c : Conversation} {mapping : Mapping}

/-- The children of a node that are nodes. -/
def kidsOf (mapping : Mapping) (id : PyStr) : List PyStr := children mapping (nodeItems mapping id)

/-- The text of a node's message. -/
def nodeText (U : Unicode) (mapping : Mapping) (id : PyStr) : Except Exc PyStr :=
  textOf U (messageOf (nodeItems mapping id))

/-- A node whose message has text becomes a chunk. -/
def emits (U : Unicode) (mapping : Mapping) (id : PyStr) : Bool :=
  match nodeText U mapping id with
  | .ok (_ :: _) => true
  | _ => false

/-- The nearest node above a place that becomes a chunk. -/
def chunkAbove (U : Unicode) (mapping : Mapping) (p : Position PyStr) : Option PyStr :=
  (p.above.map Prod.fst).find? (emits U mapping)

/-- How a place comes to lie on the stack. -/
def visitOf (U : Unicode) (mapping : Mapping) (p : Position PyStr) : Visit :=
  ⟨p.node,chunkAbove U mapping p,p.above.length,p.index⟩

/-- A place of the walked tree. -/
abbrev Walked (mapping : Mapping) : Position PyStr → Prop := IsPosition (roots mapping) (kidsOf mapping)

section Places

lemma visits_visitOf (p : Position PyStr) :
    visits c (visitOf U c.mapping p) (if emits U c.mapping p.node then some p.node
      else (visitOf U c.mapping p).chunkParent) =
    (p.children (kidsOf c.mapping)).map (visitOf U c.mapping) := by
  rw [Position.children,map_mapIdx]
  refine congrArg (fun f => List.mapIdx f (kidsOf c.mapping p.node)) ?_
  funext i kid
  change (⟨kid,_,_,i⟩ : Visit) = ⟨kid,(((p.node,p.index) :: p.above).map Prod.fst).find? _,_,i⟩
  rw [List.map_cons,List.find?_cons]
  cases emits U c.mapping p.node <;> rfl

variable (U mapping) in
lemma visitOf_rootPositions (ids : List PyStr) :
    (ids.mapIdx fun i root => (⟨root,none,0,i⟩ : Visit)) = (rootPositions ids).map (visitOf U mapping) := by
  rw [rootPositions,map_mapIdx]
  rfl

lemma roots_nodeIds : ∀ id ∈ roots mapping, id ∈ nodeIds mapping := fun _ h => (List.mem_filter.mp h).1

lemma walked_nodeIds {p : Position PyStr} (h : Walked mapping p) : p.node ∈ nodeIds mapping := by
  cases h with
  | root h => exact roots_nodeIds _ (List.mem_of_getElem? h)
  | child _ h => exact children_nodeIds _ (List.mem_of_getElem? h)

end Places

section Chunks

variable {v : Visit} {node message : List (PyKey × PyVal)} {text : PyStr} {chunk : SteleChunk}

/-- What a node yields is one chunk, or nothing. -/
lemma nodeChunks_ok {chunks : List SteleChunk} (h : nodeChunks H U c v = .ok chunks) :
    (emits U c.mapping v.nodeId = true ∧ ∃ message text chunk,
      messageOf (nodeItems c.mapping v.nodeId) = some message ∧ nodeText U c.mapping v.nodeId = .ok text ∧
      chunks = [chunk] ∧ chunkOf H c v (nodeItems c.mapping v.nodeId) message text = .ok chunk) ∨
    (emits U c.mapping v.nodeId = false ∧ chunks = []) := by
  obtain ⟨text,htext,h⟩ := except_bind_ok.mp h
  have hnode : nodeText U c.mapping v.nodeId = .ok text := htext
  cases text with
  | nil =>
    refine Or.inr ⟨by rw [emits,hnode],?_⟩
    cases hm : messageOf (nodeItems c.mapping v.nodeId) <;> rw [hm] at h <;> exact (Except.ok.inj h).symm
  | cons x text =>
    cases hm : messageOf (nodeItems c.mapping v.nodeId) with
    | none =>
      rw [hm] at htext
      cases htext
    | some message =>
      rw [hm] at h
      obtain ⟨chunk,hc,h⟩ := except_bind_ok.mp h
      exact Or.inl ⟨by rw [emits,hnode],message,_,chunk,rfl,hnode,(Except.ok.inj h).symm,hc⟩

/-- The messages render to text that UTF-8 can encode, and an author is an object or missing. -/
def Renders (U : Unicode) (mapping : Mapping) : Prop :=
  ∀ id ∈ nodeIds mapping, (∃ text, nodeText U mapping id = .ok text ∧ Encodable text) ∧
    ∀ message, messageOf (nodeItems mapping id) = some message →
      getItem message (lit "author") = .none ∨ ∃ author, getItem message (lit "author") = .dict author

lemma orElse_dict (v : PyVal) (h : v = .none ∨ ∃ kvs, v = .dict kvs) :
    ∃ kvs, orElse v (.dict []) = .dict kvs := by
  rcases h with rfl | ⟨kvs,rfl⟩
  · exact ⟨[],rfl⟩
  · unfold orElse
    split_ifs
    · exact ⟨kvs,rfl⟩
    · exact ⟨[],rfl⟩

/-- Only an object has text. -/
lemma content_of_text {x : CodePoint} (h : renderMessage U message = .ok (x :: text)) :
    ∃ kvs, getItem message (lit "content") = .dict kvs := by
  unfold renderMessage renderMessageWithin at h
  cases hc : getItem message (lit "content") with
  | dict kvs => exact ⟨kvs,rfl⟩
  | _ =>
    rw [hc] at h
    cases h

lemma contentDigest_ok (h : Encodable text) : ∃ d, contentDigest H text = .ok d := by
  unfold contentDigest
  rw [encode,if_pos h]
  exact ⟨_,rfl⟩

lemma Renders.nodeChunks (hr : Renders U c.mapping) (hv : v.nodeId ∈ nodeIds c.mapping) :
    ∃ chunks, nodeChunks H U c v = .ok chunks := by
  obtain ⟨⟨text,htext,henc⟩,hauthor⟩ := hr _ hv
  unfold ChatGPT.nodeChunks
  rw [nodeText] at htext
  simp only [htext,bind,Except.bind]
  cases hm : messageOf (nodeItems c.mapping v.nodeId) with
  | none => exact ⟨[],rfl⟩
  | some message =>
    cases text with
    | nil => exact ⟨[],rfl⟩
    | cons x text =>
      rw [hm] at htext
      obtain ⟨author,ha⟩ := orElse_dict _ (hauthor message hm)
      obtain ⟨content,hc⟩ := orElse_dict _ (Or.inr (content_of_text htext))
      obtain ⟨d,hd⟩ := contentDigest_ok (H := H) henc
      obtain ⟨chunk,hchunk⟩ : ∃ chunk, chunkOf H c v (nodeItems c.mapping v.nodeId) message (x :: text) =
          .ok chunk := by
        simp only [chunkOf,ha,hc,getAttr,makeChunk,hd,bind,Except.bind,pure,Except.pure]
        exact ⟨_,rfl⟩
      exact ⟨[chunk],by simp only [hchunk]; rfl⟩

end Chunks

section Walk

variable {n : ℕ} {stack : List (Position PyStr)} {visited : List PyStr}

lemma walk_nil : walk H U c n [] visited =
    let unreached := (nodeIds c.mapping).filter fun id => decide (id ∉ visited)
    if unreached = [] then ⟨[],none⟩ else .raise (malformed (.unreachable c.convId unreached.length)) := by
  cases n <;> rfl

lemma walk_done (h : (walk H U c n [] visited).raised = none) :
    ∃ found chunkss, search (kidsOf c.mapping) n [] visited = some found ∧
      List.Forall₂ (fun p chunks => nodeChunks H U c (visitOf U c.mapping p) = .ok chunks) found chunkss ∧
      (walk H U c n [] visited).items = chunkss.flatten ∧
      ∀ id ∈ nodeIds c.mapping, id ∈ visited ∨ ∃ p ∈ found, p.node = id := by
  rw [walk_nil] at h ⊢
  dsimp only at h ⊢
  split_ifs at h ⊢ with hu
  · refine ⟨[],[],by cases n <;> rfl,.nil,rfl,fun id hid => Or.inl ?_⟩
    have := List.filter_eq_nil_iff.mp hu id hid
    simpa using this
  · cases h

lemma walk_cons (p : Position PyStr) :
    walk H U c (n+1) ((p :: stack).map (visitOf U c.mapping)) visited =
      if p.node ∈ visited then .raise (malformed (.reachedTwice c.convId p.node))
      else .after (nodeChunks H U c (visitOf U c.mapping p)) fun chunks =>
        Gen.append ⟨chunks,none⟩ (walk H U c n
          ((p.children (kidsOf c.mapping)++stack).map (visitOf U c.mapping)) (p.node :: visited)) := by
  rw [List.map_cons,walk]
  refine if_congr Iff.rfl rfl ?_
  cases hc : nodeChunks H U c (visitOf U c.mapping p) with
  | error e => rfl
  | ok chunks =>
    have hparent : (if chunks = [] then (visitOf U c.mapping p).chunkParent else some p.node) =
        if emits U c.mapping p.node then some p.node else (visitOf U c.mapping p).chunkParent := by
      rcases nodeChunks_ok hc with ⟨he,_,_,_,_,_,rfl,_⟩ | ⟨he,rfl⟩
      · have he' : emits U c.mapping p.node = true := he
        rw [if_neg (List.cons_ne_nil _ _),if_pos he']
      · have he' : ¬emits U c.mapping p.node = true := ne_true_of_eq_false he
        rw [if_pos rfl,if_neg he']
    change Gen.append ⟨chunks,none⟩ (walk H U c n (visits c (visitOf U c.mapping p)
      (if chunks = [] then (visitOf U c.mapping p).chunkParent else some p.node)++
        stack.map (visitOf U c.mapping)) (p.node :: visited)) = _
    rw [hparent,visits_visitOf,← List.map_append]
    rfl

/-- A walk that raises nothing is a search that ends, with what each of its places yields. -/
lemma walk_found (h : (walk H U c n (stack.map (visitOf U c.mapping)) visited).raised = none) :
    ∃ found chunkss, search (kidsOf c.mapping) n stack visited = some found ∧
      List.Forall₂ (fun p chunks => nodeChunks H U c (visitOf U c.mapping p) = .ok chunks) found chunkss ∧
      (walk H U c n (stack.map (visitOf U c.mapping)) visited).items = chunkss.flatten ∧
      ∀ id ∈ nodeIds c.mapping, id ∈ visited ∨ ∃ p ∈ found, p.node = id := by
  induction n generalizing stack visited with
  | zero =>
    cases stack with
    | nil => exact walk_done h
    | cons p stack => cases h
  | succ n ih =>
    cases stack with
    | nil => exact walk_done h
    | cons p stack =>
      rw [walk_cons] at h ⊢
      by_cases hin : p.node ∈ visited
      · rw [if_pos hin] at h
        cases h
      rw [if_neg hin] at h ⊢
      cases hc : nodeChunks H U c (visitOf U c.mapping p) with
      | error e =>
        rw [hc] at h
        cases h
      | ok chunks =>
        rw [hc] at h
        obtain ⟨found,chunkss,hs,hf,hitems,hall⟩ := ih h
        refine ⟨p :: found,chunks :: chunkss,?_,.cons hc hf,?_,fun id hid => ?_⟩
        · rw [search,if_neg hin,hs]
          rfl
        · exact congrArg (chunks++·) hitems
        · rcases hall id hid with hid | ⟨q,hq,rfl⟩
          · rcases List.mem_cons.mp hid with rfl | hid
            · exact Or.inr ⟨p,List.mem_cons_self,rfl⟩
            · exact Or.inl hid
          · exact Or.inr ⟨q,List.mem_cons_of_mem _ hq,rfl⟩

/-- A walk whose nodes all render ends as the search does. -/
lemma walk_search (hr : Renders U c.mapping) (hs : ∀ p ∈ stack, p.node ∈ nodeIds c.mapping)
    {found : List (Position PyStr)} (hf : search (kidsOf c.mapping) n stack visited = some found)
    (hall : ∀ id ∈ nodeIds c.mapping, id ∈ visited ∨ ∃ p ∈ found, p.node = id) :
    (walk H U c n (stack.map (visitOf U c.mapping)) visited).raised = none := by
  have done : ∀ {n : ℕ} {visited found : List _}, search (kidsOf c.mapping) n [] visited = some found →
      (∀ id ∈ nodeIds c.mapping, id ∈ visited ∨ ∃ p ∈ found, p.node = id) →
      (walk H U c n [] visited).raised = none := by
    intro n visited found hf hall
    have hnil : found = [] := by cases n <;> exact (Option.some.inj hf).symm
    subst hnil
    have hu : (nodeIds c.mapping).filter (fun id => decide (id ∉ visited)) = [] := by
      refine List.filter_eq_nil_iff.mpr fun id hid => ?_
      rcases hall id hid with hv | ⟨p,hp,-⟩
      · simpa using hv
      · exact absurd hp List.not_mem_nil
    rw [walk_nil]
    dsimp only
    rw [if_pos hu]
  induction n generalizing stack visited found with
  | zero =>
    cases stack with
    | nil => exact done hf hall
    | cons p stack => cases hf
  | succ n ih =>
    cases stack with
    | nil => exact done hf hall
    | cons p stack =>
      rw [search] at hf
      split_ifs at hf with hin
      obtain ⟨rest,hrest,rfl⟩ := Option.map_eq_some_iff.mp hf
      obtain ⟨chunks,hc⟩ := hr.nodeChunks (H := H) (v := visitOf U c.mapping p) (hs p List.mem_cons_self)
      rw [walk_cons,if_neg hin,hc]
      refine ih (fun q hq => ?_) hrest fun id hid => ?_
      · rcases List.mem_append.mp hq with hq | hq
        · obtain ⟨i,m,hm,rfl⟩ := Position.mem_children.mp hq
          exact children_nodeIds _ (List.mem_of_getElem? hm)
        · exact hs q (List.mem_cons_of_mem _ hq)
      · rcases hall id hid with hv | ⟨q,hq,rfl⟩
        · exact Or.inl (List.mem_cons_of_mem _ hv)
        · rcases List.mem_cons.mp hq with rfl | hq
          · exact Or.inl List.mem_cons_self
          · exact Or.inr ⟨q,hq,rfl⟩

/-- A walk that raises raises that the export is malformed, when its nodes all render. -/
lemma walk_raised (hr : Renders U c.mapping) (hs : ∀ p ∈ stack, p.node ∈ nodeIds c.mapping) {e : Exc}
    (he : (walk H U c n (stack.map (visitOf U c.mapping)) visited).raised = some e) :
    ∃ p, e = malformed p := by
  have done : ∀ {n : ℕ} {visited : List PyStr}, (walk H U c n [] visited).raised = some e →
      ∃ p, e = malformed p := by
    intro n visited he
    rw [walk_nil] at he
    dsimp only at he
    split_ifs at he
    exact ⟨_,(Option.some.inj he).symm⟩
  induction n generalizing stack visited with
  | zero =>
    cases stack with
    | nil => exact done he
    | cons p stack => exact ⟨_,(Option.some.inj he).symm⟩
  | succ n ih =>
    cases stack with
    | nil => exact done he
    | cons p stack =>
      rw [walk_cons] at he
      split_ifs at he with hin
      · exact ⟨_,(Option.some.inj he).symm⟩
      · obtain ⟨chunks,hc⟩ := hr.nodeChunks (H := H) (v := visitOf U c.mapping p) (hs p List.mem_cons_self)
        rw [hc] at he
        refine ih (fun q hq => ?_) he
        rcases List.mem_append.mp hq with hq | hq
        · obtain ⟨i,m,hm,rfl⟩ := Position.mem_children.mp hq
          exact children_nodeIds _ (List.mem_of_getElem? hm)
        · exact hs q (List.mem_cons_of_mem _ hq)

end Walk

section Start

variable {conversation : List (PyKey × PyVal)} {convId recordId : PyStr} {entry : Entry}

/-- A node's field "children" is null or missing, or a list. -/
def Listed (node : List (PyKey × PyVal)) : Prop :=
  getItem node (lit "children") = .none ∨ ∃ kids, getItem node (lit "children") = .list kids

lemma checkChildren_skip {e : PyKey × PyVal} (he : ∀ id node, e = (.str id,.dict node) → Listed node) :
    checkChildren convId (e :: mapping) = checkChildren convId mapping := by
  obtain ⟨k,v⟩ := e
  cases v with
  | dict items =>
    cases k with
    | str id =>
      rcases he id items rfl with h | ⟨kids,h⟩ <;> simp only [checkChildren,h]
    | _ => cases hc : getItem items (lit "children") <;> simp only [checkChildren,hc]
  | _ => rfl

lemma checkChildren_stop {id : PyStr} {node : List (PyKey × PyVal)} (h : ¬Listed node) :
    checkChildren convId ((.str id,.dict node) :: mapping) = .error (malformed (.children convId id)) := by
  cases hc : getItem node (lit "children") with
  | none => exact absurd (Or.inl hc) h
  | list kids => exact absurd (Or.inr ⟨kids,hc⟩) h
  | _ => simp only [checkChildren,hc]

variable (mapping convId) in
lemma checkChildren_cases : (checkChildren convId mapping = .ok () ∧
      ∀ id node, (.str id,.dict node) ∈ mapping → Listed node) ∨
    ∃ id node, (.str id,.dict node) ∈ mapping ∧ ¬Listed node ∧
      checkChildren convId mapping = .error (malformed (.children convId id)) := by
  induction mapping with
  | nil => exact Or.inl ⟨rfl,fun _ _ h => absurd h List.not_mem_nil⟩
  | cons e mapping ih =>
    by_cases he : ∀ id node, e = (.str id,.dict node) → Listed node
    · rw [checkChildren_skip he]
      rcases ih with ⟨hok,hall⟩ | ⟨id,node,hm,hn,herr⟩
      · refine Or.inl ⟨hok,fun id node hm => ?_⟩
        rcases List.mem_cons.mp hm with h | h
        · exact he id node h.symm
        · exact hall id node h
      · exact Or.inr ⟨id,node,List.mem_cons_of_mem _ hm,hn,herr⟩
    · push Not at he
      obtain ⟨id,node,rfl,hn⟩ := he
      exact Or.inr ⟨id,node,List.mem_cons_self,hn,checkChildren_stop hn⟩

variable (mapping convId) in
lemma branchOf_cases (current : PyVal) :
    ((current = .none ∨ inMapping mapping current = true) ∧ ∃ branch, branchOf mapping convId current = .ok branch) ∨
    current ≠ .none ∧ inMapping mapping current = false ∧
      branchOf mapping convId current = .error (malformed (.currentNode convId)) := by
  cases hin : inMapping mapping current with
  | true =>
    refine Or.inl ⟨Or.inr rfl,?_⟩
    cases current with
    | none => exact ⟨[],rfl⟩
    | _ => exact ⟨_,by rw [branchOf,if_pos hin]; nofun⟩
  | false =>
    cases current with
    | none => exact Or.inl ⟨Or.inl rfl,[],rfl⟩
    | _ => exact Or.inr ⟨nofun,rfl,by rw [branchOf,if_neg (by rw [hin]; decide)]; nofun⟩

/-- What _conversation_chunks refuses. -/
inductive Malformed (conversation : List (PyKey × PyVal)) (mapping : Mapping) : Prop
  | children {id : PyStr} {node : List (PyKey × PyVal)} (h : (.str id,.dict node) ∈ mapping)
    (hc : ¬Listed node)
  | current (hn : getItem conversation (lit "current_node") ≠ .none)
    (hc : inMapping mapping (getItem conversation (lit "current_node")) = false)
  | twice {p q : Position PyStr} (hp : Walked mapping p) (hq : Walked mapping q) (hn : p.node = q.node) (h : p ≠ q)
  | unreached {id : PyStr} (h : id ∈ nodeIds mapping) (hu : ∀ p, Walked mapping p → p.node ≠ id)

variable (recordId entry) in
/-- What comes before the walk refuses two of the four. -/
lemma start_cases (hm : mappingOf conversation convId = .ok mapping) :
    (∃ c, start conversation convId entry recordId = .ok c ∧ c.mapping = mapping ∧
      (∀ id node, (.str id,.dict node) ∈ mapping → Listed node) ∧
      (getItem conversation (lit "current_node") = .none ∨
        inMapping mapping (getItem conversation (lit "current_node")) = true)) ∨
    Malformed conversation mapping ∧
      ∃ p, start conversation convId entry recordId = .error (malformed p) := by
  unfold start
  rw [hm]
  simp only [bind,Except.bind]
  rcases checkChildren_cases mapping convId with ⟨hok,hall⟩ | ⟨id,node,hid,hn,herr⟩
  · rw [hok]
    rcases branchOf_cases mapping convId (getItem conversation (lit "current_node")) with
      ⟨hc,branch,hb⟩ | ⟨hn,hc,herr⟩
    · rw [hb]
      exact Or.inl ⟨_,rfl,rfl,hall,hc⟩
    · rw [herr]
      exact Or.inr ⟨.current hn hc,_,rfl⟩
  · rw [herr]
    exact Or.inr ⟨.children hid hn,_,rfl⟩

end Start

section Metadata

variable {conversation node message : List (PyKey × PyVal)} {convId recordId text : PyStr} {entry : Entry}
  {v : Visit} {chunk : SteleChunk}

/-- chunk.metadata.get(k). -/
def metaOf (chunk : SteleChunk) (k : PyStr) : PyVal :=
  match chunk.metadata with
  | .dict kvs => getItem kvs k
  | _ => .none

/-- The keys that a conversation's own metadata has not. -/
def treeKeys : List PyStr :=
  [lit "node_id",lit "parent_node_id",lit "depth",lit "sibling_index",lit "sibling_count",
    lit "on_current_branch"]

lemma start_base (h : start conversation convId entry recordId = .ok c) :
    c.convId = convId ∧ ∀ k ∈ treeKeys, ∀ rest, getItem (c.base++rest) k = getItem rest k := by
  obtain ⟨mapping,-,h⟩ := except_bind_ok.mp h
  obtain ⟨_,-,h⟩ := except_bind_ok.mp h
  obtain ⟨branch,-,h⟩ := except_bind_ok.mp h
  obtain rfl := Except.ok.inj h
  refine ⟨rfl,fun k hk rest => ?_⟩
  simp only [treeKeys,List.mem_cons,List.not_mem_nil,or_false] at hk
  rcases hk with rfl | rfl | rfl | rfl | rfl | rfl <;> rfl

/-- A chunk says where its node lies in the walked tree. -/
structure Describes (U : Unicode) (c : Conversation) (p : Position PyStr) (chunk : SteleChunk) : Prop where
  chunkId : chunk.chunkId = c.convId++cp ':' :: p.node
  content : nodeText U c.mapping p.node = .ok chunk.content
  nodeId : metaOf chunk (lit "node_id") = .str p.node
  parent : metaOf chunk (lit "parent_node_id") = RunConditions.optionPy .str (chunkAbove U c.mapping p)
  depth : metaOf chunk (lit "depth") = .int p.above.length
  siblingIndex : metaOf chunk (lit "sibling_index") = .int p.index
  siblingCount : metaOf chunk (lit "sibling_count") = .int (siblingCount c.mapping (nodeItems c.mapping p.node))
  onCurrentBranch : metaOf chunk (lit "on_current_branch") = .bool (decide (p.node ∈ c.currentBranch))

lemma describes (hb : ∀ k ∈ treeKeys, ∀ rest, getItem (c.base++rest) k = getItem rest k) {p : Position PyStr}
    (htext : nodeText U c.mapping p.node = .ok text)
    (h : chunkOf H c (visitOf U c.mapping p) (nodeItems c.mapping p.node) message text = .ok chunk) :
    Describes U c p chunk := by
  obtain ⟨role,-,h⟩ := except_bind_ok.mp h
  obtain ⟨name,-,h⟩ := except_bind_ok.mp h
  obtain ⟨contentType,-,h⟩ := except_bind_ok.mp h
  obtain ⟨hash,-,h⟩ := except_bind_ok.mp h
  obtain rfl := Except.ok.inj h
  have key : ∀ i, (hi : i < treeKeys.length) → treeKeys.get ⟨i,hi⟩ ∈ treeKeys := fun i hi => List.get_mem _ _
  exact ⟨rfl,htext,(hb _ (key 0 (by decide)) _).trans rfl,(hb _ (key 1 (by decide)) _).trans rfl,
    (hb _ (key 2 (by decide)) _).trans rfl,(hb _ (key 3 (by decide)) _).trans rfl,
    (hb _ (key 4 (by decide)) _).trans rfl,(hb _ (key 5 (by decide)) _).trans rfl⟩

end Metadata

section Complete

variable {conversation : List (PyKey × PyVal)} {convId recordId : PyStr} {entry : Entry}
  {found : List (Position PyStr)} {chunkss : List (List SteleChunk)}

lemma forall₂_left {α β : Type} {R : α → β → Prop} {xs : List α} {ys : List β} (h : List.Forall₂ R xs ys) :
    ∀ x ∈ xs, ∃ y ∈ ys, R x y := by
  induction h with
  | nil => nofun
  | cons hr _ ih =>
    refine List.forall_mem_cons.mpr ⟨⟨_,List.mem_cons_self,hr⟩,fun x hx => ?_⟩
    obtain ⟨y,hy,hxy⟩ := ih x hx
    exact ⟨y,List.mem_cons_of_mem _ hy,hxy⟩

lemma forall₂_right {α β : Type} {R : α → β → Prop} {xs : List α} {ys : List β} (h : List.Forall₂ R xs ys) :
    ∀ y ∈ ys, ∃ x ∈ xs, R x y := forall₂_left h.flip

lemma describes_flatten (hb : ∀ k ∈ treeKeys, ∀ rest, getItem (c.base++rest) k = getItem rest k)
    (h : List.Forall₂ (fun p chunks => nodeChunks H U c (visitOf U c.mapping p) = .ok chunks) found chunkss) :
    List.Forall₂ (Describes U c) (found.filter fun p => emits U c.mapping p.node) chunkss.flatten := by
  induction h with
  | nil => exact .nil
  | @cons p chunks found chunkss hc _ ih =>
    rcases nodeChunks_ok hc with ⟨he,message,text,chunk,-,htext,rfl,hchunk⟩ | ⟨he,rfl⟩
    · rw [List.filter_cons,if_pos (show emits U c.mapping p.node = true from he)]
      exact .cons (describes hb htext hchunk) ih
    · rw [List.filter_cons,if_neg (ne_true_of_eq_false (show emits U c.mapping p.node = false from he))]
      exact ih

/-- The nodes in the order of the walk: each place of the tree, each node of the mapping once. -/
structure Preorder (mapping : Mapping) (found : List (Position PyStr)) : Prop where
  places : ∀ p, p ∈ found ↔ Walked mapping p
  once : (found.map Position.node).Nodup
  nodes : ∀ id, id ∈ found.map Position.node ↔ id ∈ nodeIds mapping
  order : found.Pairwise Position.Precedes

/-- What a walk that raises nothing has visited and yielded. -/
theorem walk_accepts (hs : start conversation convId entry recordId = .ok c)
    (h : (conversationChunks H U conversation convId entry recordId).raised = none) :
    ∃ found, Preorder c.mapping found ∧
      List.Forall₂ (Describes U c) (found.filter fun p => emits U c.mapping p.node)
        (conversationChunks H U conversation convId entry recordId).items := by
  unfold conversationChunks at h ⊢
  rw [hs] at h ⊢
  simp only [Gen.after,visitOf_rootPositions U c.mapping] at h ⊢
  obtain ⟨found,chunkss,hsearch,hchunks,hitems,hall⟩ := walk_found h
  have hf : Found (kidsOf c.mapping) [] (rootPositions (roots c.mapping)) found :=
    search_found ordered_roots List.nodup_nil hsearch
  refine ⟨found,⟨fun p => hf.mem_iff,by simpa using hf.nodes,fun id => ⟨?_,fun hid => ?_⟩,hf.order⟩,?_⟩
  · intro hid
    obtain ⟨p,hp,rfl⟩ := List.mem_map.mp hid
    exact walked_nodeIds (hf.mem_iff.mp hp)
  · rcases hall id hid with hv | ⟨p,hp,rfl⟩
    · exact absurd hv List.not_mem_nil
    · exact List.mem_map_of_mem hp
  · rw [hitems]
    exact describes_flatten (start_base hs).2 hchunks

lemma Preorder.not_malformed (hf : Preorder mapping found)
    (hl : ∀ id node, (.str id,.dict node) ∈ mapping → Listed node)
    (hc : getItem conversation (lit "current_node") = .none ∨
      inMapping mapping (getItem conversation (lit "current_node")) = true) : ¬Malformed conversation mapping := by
  rintro (⟨h,hn⟩ | ⟨hn,h⟩ | ⟨hp,hq,hn,hne⟩ | ⟨h,hu⟩)
  · exact hn (hl _ _ h)
  · rcases hc with hc | hc
    · exact hn hc
    · rw [h] at hc
      cases hc
  · exact hne (List.inj_on_of_nodup_map hf.once ((hf.places _).mpr hp) ((hf.places _).mpr hq) hn)
  · obtain ⟨p,hp,rfl⟩ := List.mem_map.mp ((hf.nodes _).mpr h)
    exact hu p ((hf.places p).mp hp) rfl

/-- A mapping that is a forest, all its nodes reached, is walked to the end. -/
lemma walk_forest (hr : Renders U c.mapping) (hu : Unique (roots c.mapping) (kidsOf c.mapping))
    (hall : ∀ id ∈ nodeIds c.mapping, ∃ p, Walked c.mapping p ∧ p.node = id) :
    (walk H U c c.mapping.length ((rootPositions (roots c.mapping)).map (visitOf U c.mapping)) []).raised = none := by
  have hroots : ∀ p ∈ rootPositions (roots c.mapping), Walked c.mapping p := fun p hp => by
    obtain ⟨i,id,hid,rfl⟩ := mem_rootPositions.mp hp
    exact .root hid
  cases hs : search (kidsOf c.mapping) c.mapping.length (rootPositions (roots c.mapping)) [] with
  | none =>
    refine absurd hu (search_none ordered_roots List.nodup_nil
      (List.forall_mem_nil _) hroots (fun p hp => walked_nodeIds hp) ?_ hs)
    exact (List.length_filterMap_le _ _).trans (Nat.le_add_left _ _)
  | some found =>
    have hf : Found (kidsOf c.mapping) [] (rootPositions (roots c.mapping)) found :=
      search_found ordered_roots List.nodup_nil hs
    refine walk_search hr (fun p hp => walked_nodeIds (hroots p hp)) hs fun id hid => Or.inr ?_
    obtain ⟨p,hp,rfl⟩ := hall id hid
    exact ⟨p,hf.mem_iff.mpr hp,rfl⟩

/-- The walk ends however many more turns it gets, it raises for a malformed mapping only, and from
every other one it makes one chunk of each node with text, in preorder. -/
theorem conversationChunks_complete (H : Hasher) (convId recordId : PyStr) (entry : Entry)
    (hm : mappingOf conversation convId = .ok mapping) (hr : Renders U mapping) :
    (∀ c, start conversation convId entry recordId = .ok c → ∀ k,
      walk H U c (c.mapping.length+k) ((roots c.mapping).mapIdx fun i root => ⟨root,none,0,i⟩) [] =
        conversationChunks H U conversation convId entry recordId) ∧
    (Malformed conversation mapping ↔
      ∃ p, (conversationChunks H U conversation convId entry recordId).raised = some (malformed p)) ∧
    (¬Malformed conversation mapping →
      (conversationChunks H U conversation convId entry recordId).raised = none ∧
      ∃ c found, start conversation convId entry recordId = .ok c ∧ c.convId = convId ∧ c.mapping = mapping ∧
        Preorder mapping found ∧
        List.Forall₂ (Describes U c) (found.filter fun p => emits U mapping p.node)
          (conversationChunks H U conversation convId entry recordId).items) := by
  refine ⟨fun c hs k => ?_,?_⟩
  · unfold conversationChunks
    rw [hs]
    refine walk_fuel (fun v hv => ?_) (List.nil_subset _) List.nodup_nil (Nat.le_add_left _ _) k
    obtain ⟨i,hi,rfl⟩ := List.mem_mapIdx.mp hv
    exact roots_nodeIds _ (List.getElem_mem hi)
  rcases start_cases recordId entry hm with ⟨c,hs,rfl,hl,hc⟩ | ⟨hbad,p,hs⟩
  · have hwalk : conversationChunks H U conversation convId entry recordId =
        walk H U c c.mapping.length ((rootPositions (roots c.mapping)).map (visitOf U c.mapping)) [] := by
      unfold conversationChunks
      rw [hs,← visitOf_rootPositions]
      rfl
    have hroots : ∀ p ∈ rootPositions (roots c.mapping), p.node ∈ nodeIds c.mapping := fun p hp => by
      obtain ⟨i,id,hid,rfl⟩ := mem_rootPositions.mp hp
      exact roots_nodeIds _ (List.mem_of_getElem? hid)
    have hok : ¬Malformed conversation c.mapping →
        (conversationChunks H U conversation convId entry recordId).raised = none := fun hok => by
      rw [hwalk]
      refine walk_forest hr (fun p q hp hq hn => by_contra fun hne => hok (.twice hp hq hn hne)) fun id hid => ?_
      by_contra hu
      exact hok (.unreached hid fun p hp hn => hu ⟨p,hp,hn⟩)
    refine ⟨⟨fun hbad => ?_,?_⟩,fun hgood => ⟨hok hgood,?_⟩⟩
    · cases hraised : (conversationChunks H U conversation convId entry recordId).raised with
      | none =>
        obtain ⟨found,hf,-⟩ := walk_accepts hs hraised
        exact absurd hbad (hf.not_malformed hl hc)
      | some e =>
        rw [hwalk] at hraised
        obtain ⟨p,rfl⟩ := walk_raised hr hroots hraised
        exact ⟨p,rfl⟩
    · rintro ⟨p,hp⟩
      by_contra hgood
      rw [hok hgood] at hp
      cases hp
    · obtain ⟨found,hf,hd⟩ := walk_accepts hs (hok hgood)
      exact ⟨c,found,hs,(start_base hs).1,rfl,hf,hd⟩
  · have hraise : conversationChunks H U conversation convId entry recordId = .raise (malformed p) := by
      unfold conversationChunks
      rw [hs]
      rfl
    rw [hraise]
    exact ⟨⟨fun _ => ⟨p,rfl⟩,fun _ => hbad⟩,fun hgood => absurd hbad hgood⟩

/-- A root without a message and an answer below it. -/
def sampleTree : Mapping :=
  [(.str (lit "a"),.dict [(.str (lit "children"),.list [.str (lit "b")])]),
    (.str (lit "b"),.dict [(.str (lit "parent"),.str (lit "a")),(.str (lit "message"),.dict
      [(.str (lit "content"),.dict [(.str (lit "parts"),.list [.str (lit "hi")])])])])]

lemma sampleTree_renders : Renders .ascii sampleTree := by
  have hids : nodeIds sampleTree = [lit "a",lit "b"] := by decide +kernel
  intro id hid
  rw [hids] at hid
  rcases List.mem_cons.mp hid with rfl | hid
  · exact ⟨⟨[],rfl,by decide⟩,fun message hm => by cases hm⟩
  · obtain rfl := List.mem_singleton.mp hid
    refine ⟨⟨lit "hi",by decide +kernel,by decide⟩,fun message hm => Or.inl ?_⟩
    obtain rfl := Option.some.inj hm
    rfl

theorem conversationChunks_complete_sample :
    ¬Malformed [(.str (lit "mapping"),.dict sampleTree)] sampleTree := by
  refine fun h => ?_
  obtain ⟨p,hp⟩ := (conversationChunks_complete .checksum (lit "c") [] ⟨[],0,0,0⟩ rfl sampleTree_renders).2.1.mp h
  have hnone : (conversationChunks .checksum .ascii [(.str (lit "mapping"),.dict sampleTree)] (lit "c")
    ⟨[],0,0,0⟩ []).raised = none := by decide +kernel
  rw [hnone] at hp
  cases hp

/-- A field "children" that is null is no list, and no error. -/
theorem children_null_accepted :
    let node := [(PyKey.str (lit "children"),PyVal.none)]
    let mapping : Mapping := [(.str (lit "a"),.dict node)]
    (∃ v, PyVal.find node (.str (lit "children")) = some v ∧ ∀ kids, v ≠ .list kids) ∧
    Renders .ascii mapping ∧
    (conversationChunks .checksum .ascii [(.str (lit "mapping"),.dict mapping)] (lit "c")
      ⟨[],0,0,0⟩ []).raised = none := by
  refine ⟨⟨.none,rfl,nofun⟩,fun id hid => ?_,rfl⟩
  obtain rfl := List.mem_singleton.mp (show id ∈ [lit "a"] from hid)
  exact ⟨⟨[],rfl,by decide⟩,fun message hm => by cases hm⟩

end Complete

end ChatGPT
end Stele
