import Stele.Adapters.ChatGPTTree

/-! When the chunk ids of an export are apart. Neither the number that a repeated conversation id
gets nor the colon before the node id keeps two ids apart by itself. -/
namespace Stele
namespace ChatGPT
open Python Forest

variable {H : Hasher} {U : Unicode} {b : SealedBundle}

section Text

variable {k l : ℕ}

lemma append_sep {α : Type} {a b m n : List α} {c : α} :
    a++c :: m = b++c :: n ↔ (a = b ∧ m = n) ∨ (∃ s, a = b++c :: s ∧ n = s++c :: m) ∨
      ∃ s, b = a++c :: s ∧ m = s++c :: n := by
  constructor
  · intro h
    rcases List.append_eq_append_iff.mp h with ⟨s,rfl,hs⟩ | ⟨s,rfl,hs⟩
    · cases s with
      | nil => exact Or.inl ⟨(List.append_nil _).symm,(List.cons.inj hs).2⟩
      | cons x s =>
        obtain ⟨rfl,rfl⟩ := List.cons.inj hs
        exact Or.inr (Or.inr ⟨s,rfl,rfl⟩)
    · cases s with
      | nil => exact Or.inl ⟨List.append_nil _,(List.cons.inj hs).2.symm⟩
      | cons x s =>
        obtain ⟨rfl,rfl⟩ := List.cons.inj hs
        exact Or.inr (Or.inl ⟨s,rfl,rfl⟩)
  · rintro (⟨rfl,rfl⟩ | ⟨s,rfl,rfl⟩ | ⟨s,rfl,rfl⟩)
    · rfl
    · rw [List.append_assoc,List.cons_append]
    · rw [List.append_assoc,List.cons_append]

lemma hash_not_mem (k : ℕ) : cp '#' ∉ natText k := fun h => by
  have := natText_digits k _ h
  revert this
  decide

/-- The id that the k-th conversation with an id goes by. -/
def label (id : PyStr) (k : ℕ) : PyStr := if k > 1 then id++cp '#' :: natText k else id

lemma label_inj {a b : PyStr} (hk : 1 ≤ k) (hl : 1 ≤ l) (hne : a = b → k ≠ l) :
    label a k = label b l ↔ (k = 1 ∧ l > 1 ∧ a = label b l) ∨ (l = 1 ∧ k > 1 ∧ b = label a k) := by
  unfold label
  split_ifs with h1 h2 h2
  · refine iff_of_false (fun h => ?_) (by omega)
    rcases append_sep.mp h with ⟨hab,ht⟩ | ⟨s,-,ht⟩ | ⟨s,-,ht⟩
    · exact hne hab (natText_injective ht)
    · exact hash_not_mem l (ht ▸ List.mem_append_right _ List.mem_cons_self)
    · exact hash_not_mem k (ht ▸ List.mem_append_right _ List.mem_cons_self)
  · constructor
    · exact fun h => Or.inr ⟨by omega,h1,h.symm⟩
    · rintro (h | ⟨-,-,h⟩)
      · omega
      · exact h.symm
  · constructor
    · exact fun h => Or.inl ⟨by omega,h2,h⟩
    · rintro (⟨-,-,h⟩ | h)
      · exact h
      · omega
  · exact iff_of_false (fun h => hne h (by omega)) (by omega)

end Text

/-- A conversation of the export with its own id. -/
structure Source where
  id : PyStr
  entry : Entry
  items : List (PyKey × PyVal)

/-- The conversations of the lines of the index. -/
def sources (H : Hasher) (U : Unicode) (b : SealedBundle) : ℕ → List PyStr → Except Exc (List Source)
  | _,[] => .ok []
  | number,line :: lines => do
    let entry ← readEntry b number line
    let items ← readConversation H b entry
    let id ← conversationId U items entry
    let rest ← sources H U b (number+1) lines
    return ⟨id,entry,items⟩ :: rest

/-- The conversations of an export. -/
def sourcesOf (H : Hasher) (U : Unicode) (b : SealedBundle) : Except Exc (List Source) := do
  let text ← b.readText H index
  sources H U b 0 (splitLines text)

/-- Each conversation with the number of those up to it that have its id. -/
def numbered : List PyStr → List Source → List (ℕ × Source)
  | _,[] => []
  | before,s :: ss => (before.count s.id+1,s) :: numbered (s.id :: before) ss

/-- A node of the conversation has text. -/
def HasText (U : Unicode) (s : Source) (node : PyStr) : Prop :=
  ∃ mapping, getItem s.items (lit "mapping") = .dict mapping ∧ node ∈ nodeIds mapping ∧
    emits U mapping node = true

/-- Two conversations that take one chunk id: the one's own id is the other's with its number, or
its id goes on with a colon where the other's ends. -/
inductive Clash (U : Unicode) (p q : ℕ × Source) : Prop
  | suffix {node : PyStr} (hp : p.1 = 1) (hq : q.1 > 1) (h : p.2.id = label q.2.id q.1)
    (hm : HasText U p.2 node) (hn : HasText U q.2 node)
  | colon {node s : PyStr} (h : label p.2.id p.1 = label q.2.id q.1++cp ':' :: s) (hm : HasText U p.2 node)
    (hn : HasText U q.2 (s++cp ':' :: node))

section Numbered

variable {before : List PyStr} {ss : List Source}

lemma numbered_gt {q : ℕ × Source} (h : q ∈ numbered before ss) : before.count q.2.id < q.1 := by
  induction ss generalizing before with
  | nil => exact absurd h List.not_mem_nil
  | cons s ss ih =>
    rcases List.mem_cons.mp h with rfl | h
    · exact Nat.lt_succ_self _
    · exact (List.count_le_count_cons).trans_lt (ih h)

/-- Conversations with one id have different numbers. -/
lemma numbered_pairwise : (numbered before ss).Pairwise fun p q => p.2.id = q.2.id → p.1 ≠ q.1 := by
  induction ss generalizing before with
  | nil => exact .nil
  | cons s ss ih =>
    refine List.pairwise_cons.mpr ⟨fun q hq hid => ?_,ih⟩
    have := numbered_gt hq
    dsimp only at hid ⊢
    rw [← hid,List.count_cons_self] at this
    omega

/-- Two conversations' chunk ids are apart when they do not clash. -/
lemma apart_iff {p q : ℕ × Source} (hp : 1 ≤ p.1) (hq : 1 ≤ q.1) (hne : p.2.id = q.2.id → p.1 ≠ q.1) :
    (∀ m n, HasText U p.2 m → HasText U q.2 n →
      label p.2.id p.1++cp ':' :: m ≠ label q.2.id q.1++cp ':' :: n) ↔ ¬Clash U p q ∧ ¬Clash U q p := by
  constructor
  · refine fun h => ⟨?_,?_⟩
    · rintro (⟨h1,h2,hid,hm,hn⟩ | ⟨hid,hm,hn⟩)
      · refine h _ _ hm hn (append_sep.mpr (Or.inl ⟨?_,rfl⟩))
        exact (label_inj hp hq hne).mpr (Or.inl ⟨h1,h2,hid⟩)
      · exact h _ _ hm hn (append_sep.mpr (Or.inr (Or.inl ⟨_,hid,rfl⟩)))
    · rintro (⟨h1,h2,hid,hm,hn⟩ | ⟨hid,hm,hn⟩)
      · refine h _ _ hn hm (append_sep.mpr (Or.inl ⟨?_,rfl⟩))
        exact (label_inj hp hq hne).mpr (Or.inr ⟨h1,h2,hid⟩)
      · exact h _ _ hn hm (append_sep.mpr (Or.inr (Or.inr ⟨_,hid,rfl⟩)))
  · rintro ⟨hpq,hqp⟩ m n hm hn he
    rcases append_sep.mp he with ⟨hl,rfl⟩ | ⟨s,hl,rfl⟩ | ⟨s,hl,rfl⟩
    · rcases (label_inj hp hq hne).mp hl with ⟨h1,h2,hid⟩ | ⟨h1,h2,hid⟩
      · exact hpq (.suffix h1 h2 hid hm hn)
      · exact hqp (.suffix h1 h2 hid hn hm)
    · exact hpq (.colon hl hm hn)
    · exact hqp (.colon hl hn hm)

end Numbered

section Run

variable {s : Source} {id : PyStr} {ids : List PyStr} {chunks : List SteleChunk}

/-- The chunk ids of one conversation. -/
structure Labelled (U : Unicode) (p : ℕ × Source) (ids : List PyStr) : Prop where
  nodup : ids.Nodup
  mem : ∀ id, id ∈ ids ↔ ∃ node, HasText U p.2 node ∧ id = label p.2.id p.1++cp ':' :: node

lemma hasText_iff {c : Conversation} {items : List (PyKey × PyVal)} {convId recordId node : PyStr} {entry : Entry}
    (h : start items convId entry recordId = .ok c) :
    (node ∈ nodeIds c.mapping ∧ emits U c.mapping node = true) ↔ HasText U ⟨id,entry,items⟩ node := by
  obtain ⟨mapping,hm,h⟩ := except_bind_ok.mp h
  obtain ⟨_,-,h⟩ := except_bind_ok.mp h
  obtain ⟨branch,-,h⟩ := except_bind_ok.mp h
  obtain rfl := Except.ok.inj h
  unfold HasText
  unfold mappingOf at hm
  cases hg : getItem items (lit "mapping") with
  | none =>
    rw [hg] at hm
    obtain rfl := Except.ok.inj hm
    exact iff_of_false (fun h => List.not_mem_nil h.1) fun ⟨m,h,_⟩ => by cases h
  | dict kvs =>
    rw [hg] at hm
    obtain rfl := Except.ok.inj hm
    constructor
    · exact fun h => ⟨_,rfl,h⟩
    · rintro ⟨m,h,hn⟩
      obtain rfl := PyVal.dict.inj h
      exact hn
  | _ =>
    rw [hg] at hm
    cases hm

/-- The chunk ids of a conversation that is accepted. -/
lemma labelled {recordId : PyStr} (k : ℕ)
    (h : (conversationChunks H U s.items (label s.id k) s.entry recordId).raised = none) :
    Labelled U (k,s) ((conversationChunks H U s.items (label s.id k) s.entry recordId).items.map
      SteleChunk.chunkId) := by
  cases hs : start s.items (label s.id k) s.entry recordId with
  | error e =>
    rw [conversationChunks,hs] at h
    cases h
  | ok c =>
    obtain ⟨found,hf,hd⟩ := walk_accepts hs h
    have hids : (found.filter fun p => emits U c.mapping p.node).map
          (fun p => label s.id k++cp ':' :: p.node) =
        (conversationChunks H U s.items (label s.id k) s.entry recordId).items.map SteleChunk.chunkId := by
      rw [← List.forall₂_eq_eq_eq,List.forall₂_map_left_iff,List.forall₂_map_right_iff]
      refine hd.imp fun p a ha => ?_
      rw [ha.chunkId,(start_base hs).1]
    rw [← hids]
    refine ⟨?_,fun id => ?_⟩
    · have hnodes : ((found.filter fun p => emits U c.mapping p.node).map Position.node).Nodup :=
        hf.once.sublist (List.filter_sublist.map _)
      have := hnodes.map (f := fun node => label s.id k++cp ':' :: node) fun m n hmn =>
        (List.cons.inj (List.append_cancel_left hmn)).2
      rwa [List.map_map] at this
    · simp only [List.mem_map,List.mem_filter]
      constructor
      · rintro ⟨p,⟨hp,he⟩,rfl⟩
        exact ⟨p.node,(hasText_iff hs).mp ⟨walked_nodeIds ((hf.places p).mp hp),he⟩,rfl⟩
      · rintro ⟨node,hn,rfl⟩
        obtain ⟨hid,he⟩ := (hasText_iff hs).mpr hn
        obtain ⟨p,hp,rfl⟩ := List.mem_map.mp ((hf.nodes node).mpr hid)
        exact ⟨p,⟨hp,he⟩,rfl⟩

/-- seen_ids counts the conversations before. -/
def Counts (seen : Dict PyStr ℕ) (before : List PyStr) : Prop :=
  ∀ id, (seen.get id).getD 0 = before.count id

lemma Counts.step {seen : Dict PyStr ℕ} {before : List PyStr} (h : Counts seen before) (id : PyStr) :
    (countId seen id).1 = label id (before.count id+1) ∧ Counts (countId seen id).2 (id :: before) := by
  refine ⟨?_,fun id' => ?_⟩
  · rw [countId,h id]
    rfl
  · rw [countId,Dict.get_set,h id,List.count_cons]
    by_cases hid : id' = id
    · subst hid
      simp
    · rw [if_neg hid,h id',if_neg (by simpa using Ne.symm hid)]
      rfl

lemma iterLines_ids {number : ℕ} {lines : List PyStr} {seen : Dict PyStr ℕ} {before : List PyStr}
    (hc : Counts seen before) (h : (iterLines H U b number lines seen).raised = none) :
    ∃ ss idss, sources H U b number lines = .ok ss ∧
      List.Forall₂ (Labelled U) (numbered before ss) idss ∧
      (iterLines H U b number lines seen).items.map SteleChunk.chunkId = idss.flatten := by
  induction lines generalizing number seen before with
  | nil => exact ⟨[],[],rfl,.nil,rfl⟩
  | cons line lines ih =>
    rw [iterLines] at h ⊢
    obtain ⟨entry,he,heq⟩ := Gen.after_raised h
    rw [heq] at h ⊢
    obtain ⟨items,hi,heq⟩ := Gen.after_raised h
    rw [heq] at h ⊢
    obtain ⟨id,hid,heq⟩ := Gen.after_raised h
    rw [heq] at h ⊢
    obtain ⟨hfirst,hrest,happ⟩ := Gen.append_raised h
    obtain ⟨hlabel,hc'⟩ := hc.step id
    rw [happ,List.map_append]
    obtain ⟨ss,idss,hs,hf,hids⟩ := ih hc' hrest
    rw [hlabel] at hfirst ⊢
    refine ⟨⟨id,entry,items⟩ :: ss,_ :: idss,?_,.cons (labelled (s := ⟨id,entry,items⟩) _ hfirst) hf,?_⟩
    · rw [sources,he]
      simp only [bind,Except.bind,hi,hid,hs]
      rfl
    · rw [hids]
      rfl

lemma Labelled.disjoint_iff {p q : ℕ × Source} {ids ids' : List PyStr} (hp : Labelled U p ids)
    (hq : Labelled U q ids') : ids.Disjoint ids' ↔ ∀ m n, HasText U p.2 m → HasText U q.2 n →
      label p.2.id p.1++cp ':' :: m ≠ label q.2.id q.1++cp ':' :: n := by
  constructor
  · intro hd m n hm hn he
    exact hd ((hp.mem _).mpr ⟨m,hm,rfl⟩) ((hq.mem _).mpr ⟨n,hn,he⟩)
  · intro hne id hid hid'
    obtain ⟨m,hm,rfl⟩ := (hp.mem id).mp hid
    obtain ⟨n,hn,he⟩ := (hq.mem _).mp hid'
    exact hne m n hm hn he

lemma clash_irrefl (p : ℕ × Source) : ¬Clash U p p := by
  rintro (⟨hp,hq,-,-,-⟩ | ⟨h,-,-⟩)
  · omega
  · have := congrArg List.length h
    rw [List.length_append,List.length_cons] at this
    omega

/-- The ids of all conversations are apart when no two conversations clash. -/
lemma nodup_iff {before : List PyStr} {ss : List Source} {idss : List (List PyStr)}
    (h : List.Forall₂ (Labelled U) (numbered before ss) idss) :
    idss.flatten.Nodup ↔ ∀ p ∈ numbered before ss, ∀ q ∈ numbered before ss, ¬Clash U p q := by
  have hpos : ∀ p ∈ numbered before ss, 1 ≤ p.1 := fun p hp => Nat.one_le_of_lt (numbered_gt hp)
  have hdisjoint : ∀ {ns : List (ℕ × Source)} {idss : List (List PyStr)}, List.Forall₂ (Labelled U) ns idss →
      (∀ p ∈ ns, 1 ≤ p.1) → (ns.Pairwise fun p q => p.2.id = q.2.id → p.1 ≠ q.1) →
      (idss.Pairwise List.Disjoint ↔ ns.Pairwise fun p q => ¬Clash U p q ∧ ¬Clash U q p) := by
    intro ns idss h hpos hne
    induction h with
    | nil => exact iff_of_true .nil .nil
    | @cons p ids ns idss hl hrest ih =>
      obtain ⟨hp,hpos⟩ := List.forall_mem_cons.mp hpos
      obtain ⟨hpne,hne⟩ := List.pairwise_cons.mp hne
      rw [List.pairwise_cons,List.pairwise_cons,ih hpos hne]
      refine and_congr_left fun _ => ⟨fun hd q hq => ?_,fun hc ids' hids' => ?_⟩
      · obtain ⟨ids',hids',hq'⟩ := forall₂_left hrest q hq
        exact (apart_iff hp (hpos q hq) (hpne q hq)).mp ((hl.disjoint_iff hq').mp (hd ids' hids'))
      · obtain ⟨q,hq,hq'⟩ := forall₂_right hrest ids' hids'
        exact (hl.disjoint_iff hq').mpr ((apart_iff hp (hpos q hq) (hpne q hq)).mpr (hc q hq))
  have hall : ∀ ids ∈ idss, ids.Nodup := fun ids hids => by
    obtain ⟨p,-,hp⟩ := forall₂_right h ids hids
    exact hp.nodup
  rw [List.nodup_flatten,hdisjoint h hpos numbered_pairwise]
  constructor
  · rintro ⟨-,hpair⟩ p hp q hq
    have : Std.Symm fun p q : ℕ × Source => ¬Clash U p q ∧ ¬Clash U q p := ⟨fun _ _ h => h.symm⟩
    exact (hpair.forall_of_forall (fun p _ => ⟨clash_irrefl p,clash_irrefl p⟩) hp hq).1
  · exact fun hno => ⟨hall,List.pairwise_of_forall_mem_list fun p hp q hq => ⟨hno p hp q hq,hno q hq p hp⟩⟩

lemma transform_ids (h : transform H U b = .ok chunks) : ∃ ss idss, sourcesOf H U b = .ok ss ∧
    List.Forall₂ (Labelled U) (numbered [] ss) idss ∧ chunks.map SteleChunk.chunkId = idss.flatten := by
  unfold transform at h
  cases hr : (iterChunks H U b).raised with
  | some e =>
    rw [hr] at h
    cases h
  | none =>
    rw [hr] at h
    obtain rfl := Except.ok.inj h
    have hb : iterChunks H U b = iterChunks.iterBundle H U b := by
      unfold iterChunks at hr ⊢
      cases hp : b.parser.map ParserIdentity.name with
      | none => rfl
      | some name =>
        rw [hp] at hr
        dsimp only at hr ⊢
        split_ifs at hr ⊢
        · cases hr
        · rfl
    rw [hb] at hr ⊢
    unfold iterChunks.iterBundle at hr ⊢
    split_ifs at hr ⊢
    · cases hr
    · obtain ⟨text,ht,heq⟩ := Gen.after_raised hr
      rw [heq] at hr ⊢
      have hc : Counts [] [] := fun id => rfl
      obtain ⟨ss,idss,hs,hf,hids⟩ := iterLines_ids hc hr
      refine ⟨ss,idss,?_,hf,hids⟩
      rw [sourcesOf,ht]
      exact hs

/-- The checks of one chunk name no duplicate. -/
lemma rest_duplicate {i : ℕ} {c : SteleChunk} {id : PyStr} {rest : Except Exc Unit}
    (h : (do
      let expected ← contentDigest H c.content
      if c.contentHash ≠ expected then
        .error (.chunkValidation (.hashMismatch i c.chunkId expected c.contentHash))
      else do
        checkTokenCount i c
        checkMetadata i c
        rest) = .error (.chunkValidation (.duplicateId id))) :
    rest = .error (.chunkValidation (.duplicateId id)) := by
  have htoken : checkTokenCount i c ≠ .error (.chunkValidation (.duplicateId id)) := by
    unfold checkTokenCount
    split
    · split_ifs <;> nofun
    · nofun
  have hmeta : checkMetadata i c ≠ .error (.chunkValidation (.duplicateId id)) := by
    unfold checkMetadata
    split
    · split
      · nofun
      · split
        · nofun
        · split_ifs <;> nofun
    · nofun
  have hdigest : contentDigest H c.content ≠ .error (.chunkValidation (.duplicateId id)) := by
    unfold contentDigest
    split <;> nofun
  cases hd : contentDigest H c.content with
  | error e =>
    rw [hd] at h hdigest
    obtain rfl := Except.error.inj (show Except.error e = _ from h)
    exact absurd rfl hdigest
  | ok expected =>
    rw [hd] at h
    simp only [bind,Except.bind] at h
    split_ifs at h
    · cases h
    · cases ht : checkTokenCount i c with
      | error e =>
        rw [ht] at h htoken
        exact absurd h htoken
      | ok _ =>
        rw [ht] at h
        cases hm : checkMetadata i c with
        | error e =>
          rw [hm] at h hmeta
          exact absurd h hmeta
        | ok _ =>
          rw [hm] at h
          exact h

/-- What validate_chunks says of chunk ids. -/
lemma validateFrom_duplicate {i : ℕ} {seen : List PyStr} {id : PyStr}
    (h : validateFrom H i seen chunks = .error (.chunkValidation (.duplicateId id))) :
    ¬(chunks.map SteleChunk.chunkId++seen).Nodup := by
  induction chunks generalizing i seen with
  | nil => cases h
  | cons c chunks ih =>
    rw [validateFrom] at h
    split_ifs at h with _ hseen
    · cases h
    · intro hn
      exact (List.nodup_cons.mp hn).1 (List.mem_append_right _ hseen)
    · cases h
    · cases h
    · have hrest := rest_duplicate h
      intro hn
      refine ih hrest ?_
      exact List.nodup_middle.mpr hn

/-- The chunk ids of an export are apart exactly when no two of its conversations clash, and then
validate_chunks finds no duplicate. -/
theorem transform_apart_iff (h : transform H U b = .ok chunks) : ∃ ss, sourcesOf H U b = .ok ss ∧
    ((chunks.map SteleChunk.chunkId).Nodup ↔ ∀ p ∈ numbered [] ss, ∀ q ∈ numbered [] ss, ¬Clash U p q) ∧
    ((∀ p ∈ numbered [] ss, ∀ q ∈ numbered [] ss, ¬Clash U p q) →
      ∀ id, validateChunks H chunks ≠ .error (.chunkValidation (.duplicateId id))) := by
  obtain ⟨ss,idss,hs,hf,hids⟩ := transform_ids h
  have hiff : (chunks.map SteleChunk.chunkId).Nodup ↔
      ∀ p ∈ numbered [] ss, ∀ q ∈ numbered [] ss, ¬Clash U p q := by
    rw [hids]
    exact nodup_iff hf
  refine ⟨ss,hs,hiff,fun hno id he => ?_⟩
  unfold validateChunks at he
  split_ifs at he
  · cases he
  · refine validateFrom_duplicate he ?_
    rw [List.append_nil]
    exact hiff.mpr hno

/-- A conversation with one message. -/
def oneMessage (id : String) : Bytes :=
  utf8 (lit "\x7b\"id\":\""++lit id++
    lit "\",\"mapping\":\x7b\"n\":\x7b\"message\":\x7b\"content\":\x7b\"parts\":[\"t\"]\x7d\x7d\x7d\x7d\x7d")

/-- A line of an index. -/
def sampleLine (path : String) : PyStr :=
  lit "\x7b\"path\":\""++lit path++lit "\",\"index\":0,\"offset\":0,\"length\":9\x7d\n"

def sampleIndex : Bytes := utf8 (sampleLine "0.json"++(sampleLine "1.json"++sampleLine "2.json"))

/-- An export of three conversations with these ids. -/
def exportOf (a b c : String) : SealedBundle where
  recordId := lit "record"
  artifactHash := Hasher.checksum.hexdigest []
  manifest := [(index,Hasher.checksum.hexdigest sampleIndex),
    (lit "0.json",Hasher.checksum.hexdigest (oneMessage a)),
    (lit "1.json",Hasher.checksum.hexdigest (oneMessage b)),
    (lit "2.json",Hasher.checksum.hexdigest (oneMessage c))]
  parser := some ⟨splitter,lit "1",none,none,splitter_ne,version_one,no_image,no_module⟩
  sourceHash := none
  archive := ⟨fun d => [sampleIndex,oneMessage a,oneMessage b,oneMessage c].find? fun data =>
    decide (Hasher.checksum.hexdigest data = d),fun _ _ => none,fun _ => none⟩

/-- A conversation twice, and a third one: of another id, or of the first one's with the number 2. -/
lemma exportOf_ids :
    (transform .checksum .ascii (exportOf "a" "a" "b")).map (fun chunks => chunks.map SteleChunk.chunkId) =
        .ok [lit "a:n",lit "a#2:n",lit "b:n"] ∧
      (transform .checksum .ascii (exportOf "a" "a" "a#2")).map (fun chunks => chunks.map SteleChunk.chunkId) =
        .ok [lit "a:n",lit "a#2:n",lit "a#2:n"] := by
  decide +kernel

lemma ok_of_map {x : Except Exc (List SteleChunk)} {ids : List PyStr}
    (h : x.map (fun chunks => chunks.map SteleChunk.chunkId) = .ok ids) :
    ∃ chunks, x = .ok chunks ∧ chunks.map SteleChunk.chunkId = ids := by
  cases x with
  | error _ => cases h
  | ok chunks => exact ⟨chunks,rfl,Except.ok.inj h⟩

/-- The second "a" becomes "a#2", which no conversation has for an id. -/
theorem transform_apart_iff_sample : ∃ chunks ss, transform .checksum .ascii (exportOf "a" "a" "b") = .ok chunks ∧
    sourcesOf .checksum .ascii (exportOf "a" "a" "b") = .ok ss ∧ (chunks.map SteleChunk.chunkId).Nodup ∧
    (∀ p ∈ numbered [] ss, ∀ q ∈ numbered [] ss, ¬Clash .ascii p q) ∧
    ∀ id, validateChunks .checksum chunks ≠ .error (.chunkValidation (.duplicateId id)) := by
  obtain ⟨chunks,h,hids⟩ := ok_of_map exportOf_ids.1
  obtain ⟨ss,hs,hiff,hvalid⟩ := transform_apart_iff h
  have hnodup : (chunks.map SteleChunk.chunkId).Nodup := by
    rw [hids]
    decide
  have hno := hiff.mp hnodup
  exact ⟨chunks,ss,h,hs,hnodup,hno,hvalid hno⟩

/-- Two chunks of an accepted export have one id. -/
theorem transform_collides : ∃ chunks, transform .checksum .ascii (exportOf "a" "a" "a#2") = .ok chunks ∧
    ¬(chunks.map SteleChunk.chunkId).Nodup := by
  obtain ⟨chunks,h,hids⟩ := ok_of_map exportOf_ids.2
  refine ⟨chunks,h,?_⟩
  rw [hids]
  decide

end Run

end ChatGPT
end Stele
