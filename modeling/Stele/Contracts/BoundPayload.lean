import Stele.Contracts.Fingerprints
import Stele.Contracts.MetadataTypes
import Stele.Contracts.OwnResult
import Stele.Replay.Coherence

/-! One payload for each delivery. Whatever calls overlap or stop, all writes of a delivery are given
the chunks that its first intent was logged for, and other chunks come to no write. -/
namespace Stele
open Python Interleaving

variable {H : Hasher} {classes : ℕ → TargetClass} {d : Dispatcher} {c : DispatchArgs} {db db' : Db} {id : PyStr}

section Payload

variable {a b : SteleChunk} {chunks chunks' : List SteleChunk} {digest : PyStr}

/-- Equal chunks; of the metadata, 1, 1.0 and true are different. -/
structure SteleChunk.Same (a b : SteleChunk) : Prop where
  chunkId : a.chunkId = b.chunkId
  content : a.content = b.content
  tokenCount : a.tokenCount = b.tokenCount
  metadata : jsonEqual a.metadata b.metadata = true

abbrev SamePayload : List SteleChunk → List SteleChunk → Prop := List.Forall₂ SteleChunk.Same

/-- What is hashed of a payload: its fingerprint and its contents. -/
def hashedBytes (chunks : List SteleChunk) : List Bytes :=
  (canonicalJson (chunksObject (chunks.map SteleChunk.fingerprint))).toOption.toList++
    chunks.filterMap fun c => encode c.content

/-- No two different things that are hashed of these payloads have one hash. -/
def NoCollision (H : Hasher) (chunks chunks' : List SteleChunk) : Prop :=
  ∀ x ∈ hashedBytes chunks, ∀ y ∈ hashedBytes chunks', H.hexdigest x = H.hexdigest y → x = y

lemma SteleChunk.Checked.fingerprint_isJson (h : a.Checked H) : a.fingerprint.IsJson := by
  obtain ⟨n,hn⟩ := h.counted
  rw [fingerprint,PyVal.IsJson,PyVal.isJsonItems_iff,hn]
  refine ⟨by simp,?_⟩
  simp [PyVal.IsJson,h.canonical.isJson]

/-- A fingerprint tells the fields that it covers. -/
lemma SteleChunk.Checked.fields (h : a.Checked H) (h' : b.Checked H)
    (he : jsonEqual a.fingerprint b.fingerprint = true) : a.chunkId = b.chunkId ∧
      a.contentHash = b.contentHash ∧ a.tokenCount = b.tokenCount ∧ jsonEqual a.metadata b.metadata = true := by
  obtain ⟨n,hn⟩ := h.counted
  obtain ⟨m,hm⟩ := h'.counted
  rw [fingerprint,fingerprint,jsonEqual,hn,hm] at he
  simp only [jsonEqualItems,PyVal.find] at he
  have hf : a.chunkId = b.chunkId ∧ a.contentHash = b.contentHash ∧ NumVal.ofInt m = NumVal.ofInt n ∧
      jsonEqual a.metadata b.metadata = true := by
    simpa [jsonEqual,sameType,PyVal.pyEq,PyVal.num] using he
  exact ⟨hf.1,hf.2.1,by rw [hn,hm,JsonTolerancePolicy.ofInt_inj hf.2.2.1],hf.2.2.2⟩

lemma chunksObject_isJson (h : ∀ c ∈ chunks, c.Checked H) :
    (chunksObject (chunks.map SteleChunk.fingerprint)).IsJson := by
  rw [chunksObject,PyVal.IsJson,PyVal.isJsonItems_iff]
  refine ⟨List.nodup_singleton _,List.forall_mem_singleton.mpr ⟨⟨_,rfl⟩,?_⟩⟩
  rw [PyVal.IsJson,PyVal.isJsonList_iff,List.forall_mem_map]
  exact fun c hc => (h c hc).fingerprint_isJson

lemma chunksObject_equal {body body' : List PyVal} (h : jsonEqual (chunksObject body) (chunksObject body') = true) :
    List.Forall₂ (fun x y => jsonEqual x y = true) body body' := by
  obtain ⟨_,hd,-,h⟩ := jsonEqual_dict.mp h
  obtain rfl := PyVal.dict.inj hd
  obtain ⟨w,hw,h⟩ := h _ (List.mem_singleton_self _)
  simp only [PyVal.find,List.find?_cons,PyVal.keyEq_str,decide_true,Option.map_some,Option.some.injEq] at hw
  obtain ⟨_,hx,h⟩ := jsonEqual_list.mp (hw ▸ h)
  exact PyVal.list.inj hx ▸ h

lemma chunksDigest_ok (h : chunksDigest H chunks = .ok digest) :
    ∃ b ∈ hashedBytes chunks, canonicalJson (chunksObject (chunks.map SteleChunk.fingerprint)) = .ok b ∧
      digest = digestPrefix++H.hexdigest b := by
  unfold chunksDigest at h
  cases hb : canonicalJson (chunksObject (chunks.map SteleChunk.fingerprint)) with
  | error e =>
    rw [hb] at h
    cases h
  | ok b =>
    rw [hb] at h
    refine ⟨b,?_,rfl,(Except.ok.inj h).symm⟩
    rw [hashedBytes,hb]
    exact List.mem_append_left _ (List.mem_singleton_self _)

lemma SteleChunk.Checked.content_hashed (h : a.Checked H) (ha : a ∈ chunks) :
    ∃ x ∈ hashedBytes chunks, encode a.content = some x ∧ a.contentHash = H.hexdigest x := by
  have hh := h.hash
  unfold contentDigest at hh
  cases hx : encode a.content with
  | none =>
    rw [hx] at hh
    cases hh
  | some x =>
    rw [hx] at hh
    refine ⟨x,List.mem_append_right _ (List.mem_filterMap.mpr ⟨a,ha,hx⟩),rfl,(Except.ok.inj hh).symm⟩

/-- Validated payloads of one digest are the same. -/
theorem samePayload_of_digest (h : validateChunks H chunks = .ok ()) (h' : validateChunks H chunks' = .ok ())
    (hd : chunksDigest H chunks = .ok digest) (hd' : chunksDigest H chunks' = .ok digest)
    (hn : NoCollision H chunks chunks') : SamePayload chunks chunks' := by
  have hc := validateChunks_checked h
  have hc' := validateChunks_checked h'
  obtain ⟨x,hx,hxb,rfl⟩ := chunksDigest_ok hd
  obtain ⟨y,hy,hyb,he⟩ := chunksDigest_ok hd'
  obtain rfl := hn x hx y hy (List.append_cancel_left he)
  have hjson := jsonEqual_of_toJson (o := canonicalOpts) (chunksObject_isJson hc) (chunksObject_isJson hc')
    (canonicalJson_inj hxb hyb)
  have hall := List.forall₂_map_right_iff.mp (List.forall₂_map_left_iff.mp (chunksObject_equal hjson))
  -- equal fingerprints leave the contents, which their hashes tell apart
  refine forall₂_mem_imp ((List.forall₂_and_left _ _).mpr ⟨fun a ha => ha,hall⟩) ?_
  rintro b hb a ⟨ha,hab⟩
  obtain ⟨hid,hhash,htokens,hmeta⟩ := (hc a ha).fields (hc' b hb) hab
  obtain ⟨u,hu,hau,hua⟩ := (hc a ha).content_hashed ha
  obtain ⟨v,hv,hbv,hvb⟩ := (hc' b hb).content_hashed hb
  obtain rfl := hn u hu v hv (hua.symm.trans (hhash.trans hvb))
  have hcontent : some a.content = some b.content := (decode_encode hau).symm.trans (decode_encode hbv)
  exact ⟨hid,Option.some.inj hcontent,htokens,hmeta⟩

end Payload

section KeepsLogs

variable {row : DeliveryEventRow} {r : DeliveryEventRow}

lemma orderByEventId_concat {rows : List DeliveryEventRow} (h : ∀ q ∈ rows, q.eventId ≤ row.eventId) :
    orderByEventId (rows++[row]) = orderByEventId rows++[row] := by
  have hins : ∀ (q : DeliveryEventRow) (l : List DeliveryEventRow), q.eventId ≤ row.eventId →
      (l++[row]).orderedInsert (fun a b => a.eventId ≤ b.eventId) q =
        l.orderedInsert (fun a b => a.eventId ≤ b.eventId) q++[row] := by
    intro q l hq
    induction l with
    | nil => simp [hq]
    | cons x l ih =>
      simp only [List.cons_append,List.orderedInsert_cons]
      split_ifs
      · rfl
      · rw [ih,List.cons_append]
  induction rows with
  | nil => rfl
  | cons q rows ih =>
    obtain ⟨hq,h⟩ := List.forall_mem_cons.mp h
    unfold orderByEventId at ih ⊢
    rw [List.cons_append,List.insertionSort_cons,List.insertionSort_cons,ih h,hins q _ hq]

/-- A new event is the first intent only where there was none. -/
lemma firstIntent_concat (he : db'.deliveryEvents = db.deliveryEvents++[row])
    (hn : row.eventId = nextEventId db) : firstIntent db' id = (firstIntent db id).or
      (if row.dispatchId = .text id ∧ row.event = intentCell then some row else none) := by
  have horder : orderByEventId db'.deliveryEvents = orderByEventId db.deliveryEvents++[row] := by
    rw [he]
    exact orderByEventId_concat fun q hq => hn ▸ le_of_lt (lt_nextEventId hq)
  unfold firstIntent eventsOf
  rw [horder,List.filter_append,List.find?_append]
  congr 1
  by_cases hid : row.dispatchId = .text id
  · by_cases hi : row.event = intentCell
    · rw [if_pos ⟨hid,hi⟩]
      simp [hid,hi,intentCell]
    · rw [if_neg fun h => hi h.2]
      simpa [hid,intentCell] using hi
  · rw [if_neg fun h => hid h.1]
    simp [hid]

/-- Later states have the deliveries of earlier ones, in their order, and their first intents. -/
structure KeepsLogs (db db' : Db) : Prop where
  deliveries : db.deliveries <+: db'.deliveries
  firstIntents : ∀ id r, firstIntent db id = some r → firstIntent db' id = some r

lemma KeepsLogs.refl (db : Db) : KeepsLogs db db := ⟨List.prefix_rfl,fun _ _ h => h⟩

lemma KeepsLogs.trans {db'' : Db} (h : KeepsLogs db db') (h' : KeepsLogs db' db'') : KeepsLogs db db'' :=
  ⟨h.deliveries.trans h'.deliveries,fun id r hr => h'.firstIntents id r (h.firstIntents id r hr)⟩

lemma LogsChange.keeps (h : LogsChange db db') : KeepsLogs db db' := by
  cases h with
  | none hd he =>
    refine ⟨hd ▸ List.prefix_rfl,fun id r hr => ?_⟩
    rwa [firstIntent,eventsOf,he]
  | delivery row hd he =>
    refine ⟨hd ▸ List.prefix_append _ _,fun id r hr => ?_⟩
    rwa [firstIntent,eventsOf,he]
  | event _ _ _ row hd he hrow =>
    refine ⟨hd ▸ List.prefix_rfl,fun id r hr => ?_⟩
    rw [firstIntent_concat he (eventRow_ok hrow).1,hr]
    rfl

/-- The first intent has a digest of the new format, this one. -/
def BoundDigest (db : Db) (id digest : PyStr) : Prop :=
  ∃ r, firstIntent db id = some r ∧ r.chunksDigest = .text digest ∧ digestPrefix <+: digest

/-- The chunks that the first intent of the delivery was logged for. -/
structure BoundTo (H : Hasher) (db : Db) (id : PyStr) (chunks : List SteleChunk) : Prop where
  validated : validateChunks H chunks = .ok ()
  bound : ∃ digest, BoundDigest db id digest ∧ chunksDigest H chunks = .ok digest

/-- Chunks that passed both validate_chunks and the first intent. -/
structure IntentAdmits (H : Hasher) (db : Db) (id : PyStr) (chunks : List SteleChunk) : Prop where
  validated : validateChunks H chunks = .ok ()
  digest : ∃ r, firstIntent db id = some r ∧ ∀ digest, r.chunksDigest = .text digest →
    digestPrefix <+: digest → chunksDigest H chunks = .ok digest

/-- The delivery of the record to the target is this one. -/
def DispatchArgs.Delivers (classes : ℕ → TargetClass) (c : DispatchArgs) (db : Db) (id : PyStr) : Prop :=
  ∃ kind encoded, encodeTarget (some (c.target.toTarget classes)) = .ok (kind,encoded) ∧
    findDispatchId c.recordId kind encoded db = .ok id

variable {chunks bound : List SteleChunk} {digest : PyStr}

lemma IntentAdmits.mono (h : IntentAdmits H db id chunks) (hk : KeepsLogs db db') : IntentAdmits H db' id chunks :=
  ⟨h.validated,h.digest.imp fun r hr => ⟨hk.firstIntents id r hr.1,hr.2⟩⟩

lemma IntentAdmits.digest_eq (h : IntentAdmits H db id chunks) (hd : BoundDigest db id digest) :
    chunksDigest H chunks = .ok digest := by
  obtain ⟨r,hr,hrd⟩ := h.digest
  obtain ⟨q,hq,hqd,hp⟩ := hd
  obtain rfl := Option.some.inj (hr.symm.trans hq)
  exact hrd digest hqd hp

lemma findDispatchId_mono {recordId kind encoded : PyStr} (h : findDispatchId recordId kind encoded db = .ok id)
    (hk : KeepsLogs db db') : findDispatchId recordId kind encoded db' = .ok id := by
  unfold findDispatchId at h ⊢
  cases hf : db.deliveries.find? fun d => decide (d.recordId = .text recordId) &&
      decide (d.targetKind = .text kind) && decide (d.target = .text encoded) with
  | none =>
    rw [hf] at h
    cases h
  | some row =>
    rw [hf] at h
    rw [hk.deliveries.find?_eq_some hf]
    exact h

lemma DispatchArgs.Delivers.mono (h : c.Delivers classes db id) (hk : KeepsLogs db db') :
    c.Delivers classes db' id :=
  h.imp fun _ => Exists.imp fun _ hf => ⟨hf.1,findDispatchId_mono hf.2 hk⟩

lemma DispatchArgs.Delivers.unique {id' : PyStr} (h : c.Delivers classes db id) (h' : c.Delivers classes db id') :
    id = id' := by
  obtain ⟨kind,encoded,he,hf⟩ := h
  obtain ⟨_,_,he',hf'⟩ := h'
  obtain ⟨rfl,rfl⟩ := Prod.mk.inj (Except.ok.inj (he.symm.trans he'))
  exact Except.ok.inj (hf.symm.trans hf')

/-- The intent that append_intent has logged admits its chunks. -/
lemma intentTx_admits {e : Env} (hv : validateChunks H chunks = .ok ())
    (h : intentTx H e id chunks db = .ok ((),db')) : IntentAdmits H db' id chunks := by
  obtain ⟨digest,hd,h⟩ := intentTx_ok h
  obtain ⟨row,_,hrow,rfl,-⟩ := insertTx_ok h
  obtain ⟨hid,hev,-,hrd,-⟩ := intentRow_fields hrow
  refine ⟨hv,?_⟩
  rw [firstIntent_concat rfl (eventRow_ok hrow).1]
  cases hf : firstIntent db id with
  | none =>
    rw [hf] at hd
    refine ⟨row,by rw [if_pos ⟨hid,hev⟩]; rfl,fun x hx _ => ?_⟩
    obtain rfl := TextCell.text.inj (hrd.symm.trans hx)
    exact hd
  | some r =>
    refine ⟨r,rfl,fun x hx hp => ?_⟩
    rw [hf,intentDigest] at hd
    split_ifs at hd
    obtain ⟨same,hm,hd⟩ := except_bind_ok.mp hd
    split_ifs at hd with hsame
    rw [hx,payloadMatches,if_pos hp,hsame] at hm
    cases hc : chunksDigest H chunks with
    | error e =>
      rw [hc] at hm
      cases hm
    | ok y =>
      rw [hc] at hm
      rw [of_decide_eq_true (Except.ok.inj hm)]

end KeepsLogs

section Calls

variable {R : Rules World} {chunks : List SteleChunk} {own : List (World × World)} {s w w' : World}

/-- What the others rely on: nothing of the logs is lost, and only admitted chunks are written. -/
structure Binds (H : Hasher) (w w' : World) : Prop where
  keeps : KeepsLogs w.db w'.db
  writes : ∃ new, w'.writes = w.writes++new ∧ ∀ x ∈ new, IntentAdmits H w'.db x.dispatchId x.chunks

lemma Binds.of_writes (hk : KeepsLogs w.db w'.db) (hw : w'.writes = w.writes) : Binds H w w' :=
  ⟨hk,[],by rw [hw,List.append_nil],List.forall_mem_nil _⟩

lemma Binds.stay (hd : w'.db = w.db) (hw : w'.writes = w.writes) : Binds H w w' :=
  .of_writes (hd ▸ KeepsLogs.refl _) hw

lemma LedgerStep.binds {P : World → PyStr → Transition → Prop} (h : LedgerStep H P w w') : Binds H w w' :=
  .of_writes h.logs.keeps h.writers.1

def bindingRules (H : Hasher) : Rules World where
  rely := Binds H
  allowed _ _ := True
  refl _ := .stay rfl rfl
  trans h h' := by
    obtain ⟨new,hnew,ha⟩ := h.writes
    obtain ⟨new',hnew',ha'⟩ := h'.writes
    refine ⟨h.keeps.trans h'.keeps,new++new',by rw [hnew',hnew,List.append_assoc],?_⟩
    exact List.forall_mem_append.mpr ⟨fun x hx => (ha x hx).mono h'.keeps,ha'⟩

/-- Nothing is written and nothing is logged of any delivery. -/
def Idle (w w' : World) : Prop := w'.writes = w.writes ∧ w'.db.deliveryEvents = w.db.deliveryEvents

/-- What a dispatch does in its steps: it writes nothing that it cannot prepare, and what it
prepares comes to a log or a writer only when the first intent of its delivery admits that. -/
structure DispatchArgs.Heeds (H : Hasher) (classes : ℕ → TargetClass) (d : Dispatcher) (c : DispatchArgs)
    (w w' : World) : Prop where
  binds : Binds H w w'
  unprepared : ∀ exc, d.prepare H c = .error exc → w'.writes = w.writes
  prepared : ∀ chunks writer, d.prepare H c = .ok (chunks,writer) →
    Idle w w' ∨ ∃ id, c.Delivers classes w'.db id ∧ IntentAdmits H w'.db id chunks

lemma DispatchArgs.Heeds.idle (hb : Binds H w w') (h : Idle w w') : c.Heeds H classes d w w' :=
  ⟨hb,fun _ _ => h.1,fun _ _ _ => Or.inl h⟩

lemma DispatchArgs.Heeds.stay (w : World) : c.Heeds H classes d w w := .idle (.stay rfl rfl) ⟨rfl,rfl⟩

lemma heeds_binds (w w' : World) (h : c.Heeds H classes d w w') (_ : (bindingRules H).allowed w w') :
    (bindingRules H).rely w w' := h.binds

lemma prepare_validated {writer : ℕ} (h : d.prepare H c = .ok (chunks,writer)) : validateChunks H chunks = .ok () := by
  obtain ⟨_,_,h⟩ := except_bind_ok.mp h
  obtain ⟨_,hv,h⟩ := except_bind_ok.mp h
  obtain ⟨_,_,h⟩ := except_bind_ok.mp h
  obtain ⟨rfl,-⟩ := Prod.mk.inj (Except.ok.inj h)
  exact hv

/-- The delivery that open_delivery finds is that of the record to the target, then and later. -/
lemma openDelivery_heeds : Yields (bindingRules H) (c.Heeds H classes d) (fun id _ w => c.Delivers classes w.db id)
    (DeliveryLog.openDelivery H c.opening c.recordId (some (c.target.toTarget classes))) own s := by
  have hlift : Yields (bindingRules H) (c.Heeds H classes d)
      (fun p _ _ => encodeTarget (some (c.target.toTarget classes)) = .ok p)
      (Op.lift (encodeTarget (some (c.target.toTarget classes)))) own s := fun _ _ _ h => h
  refine Yields.bind heeds_binds hlift fun p own1 s1 _ _ hp => ?_
  have hopen : Acts (bindingRules H) (c.Heeds H classes d) (fun _ => True)
      (Op.transaction (openTx H c.opening c.recordId p.1 p.2)) := by
    refine .transaction .stay fun w _ db h => .idle ?_ ⟨rfl,?_⟩
    · exact LedgerStep.binds (P := AnyTransition) (.opened h)
    · obtain rfl | ⟨_,_,rfl,-⟩ := openTx_ok h <;> rfl
  refine Yields.bind heeds_binds (hopen own1 s1) fun _ own2 s2 _ _ _ => ?_
  exact Meets.atomic fun t _ _ => ⟨.stay t,fun u hu id hid => ⟨p.1,p.2,hp,findDispatchId_mono hid hu.keeps⟩⟩

/-- Where append_intent returns, the first intent admits the chunks. -/
lemma intent_heeds {e : Env} {writer : ℕ} (hp : d.prepare H c = .ok (chunks,writer))
    (hd : c.Delivers classes s.db id) : Yields (bindingRules H) (c.Heeds H classes d)
      (fun r _ w => ∀ x, r = .ok x → IntentAdmits H w.db id chunks)
      (Op.handle (Except.ok <$> DeliveryLog.appendIntent H e id chunks)
        Dispatcher.isPayloadConflict fun exc => return .error exc) own s := by
  refine Meets.bind (Meets.bindExcept (Meets.bindExcept (Meets.atomic fun t ht _ => ?_)))
  rcases writeTransaction_cases (intentTx H e id chunks) t.db with ⟨_,db,hb,hw⟩ | ⟨exc,_,hw⟩
  · rw [hw]
    have ha := intentTx_admits (prepare_validated hp) hb
    obtain ⟨digest,_,hi⟩ := intentTx_ok hb
    have hbinds := LedgerStep.binds (P := AnyTransition) (w := t) (.event hi)
    refine ⟨⟨hbinds,fun _ _ => rfl,fun chunks' _ hp' => Or.inr ⟨id,?_,?_⟩⟩,fun u hu => ?_⟩
    · exact hd.mono (ht.keeps.trans hbinds.keeps)
    · obtain ⟨rfl,-⟩ := Prod.mk.inj (Except.ok.inj (hp.symm.trans hp'))
      exact ha
    · intro v hv x hx y hy _ _ _ _
      exact ha.mono (hu.keeps.trans (hv.keeps.trans (hx.keeps.trans hy.keeps)))
  · rw [hw]
    refine ⟨.stay t,fun u _ => ?_⟩
    simp only
    split_ifs
    · intro _ _ r hr x hx
      rw [hx] at hr
      cases hr
    · intro _ _ _ hr
      cases hr

/-- Once the first intent admits the chunks, whatever the attempt does is heeded. -/
lemma admitted_heeds {α : Type} {p : Op α} {writer : ℕ} (hp : d.prepare H c = .ok (chunks,writer))
    (hd : c.Delivers classes s.db id) (ha : IntentAdmits H s.db id chunks)
    (h : Yields (bindingRules H) (Binds H) (fun _ _ _ => True) p own s) :
    Yields (bindingRules H) (c.Heeds H classes d) (fun _ _ _ => True) p own s := by
  refine Meets.weaken ?_ (Meets.kept (I := fun w => c.Delivers classes w.db id ∧ IntentAdmits H w.db id chunks)
    (fun a b hab hi => ⟨hi.1.mono hab.keeps,hi.2.mono hab.keeps⟩) (fun _ _ hb _ => hb) h ⟨hd,ha⟩)
  intro a b ⟨hb,_,hi⟩
  refine ⟨hb,fun exc he => ?_,fun chunks' _ hp' => Or.inr ⟨id,hi.1,?_⟩⟩
  · rw [hp] at he
    cases he
  · obtain ⟨rfl,-⟩ := Prod.mk.inj (Except.ok.inj (hp.symm.trans hp'))
    exact hi.2

lemma append_binds {e : Env} {a : EventArgs} : Acts R (Binds H) (fun _ => True) (DeliveryLog.append H e id a) :=
  .transaction (fun _ => .stay rfl rfl) fun _ _ _ h =>
    LedgerStep.binds (P := AnyTransition) (.event (onIntegrity_ok h))

lemma retract_binds {r : ℕ → RemovalArgs} {record : PyStr} :
    Acts R (Binds H) (fun _ => True) (d.retract H classes r record) :=
  retract_acts (fun _ _ => .stay) fun _ _ _ _ _ _ _ _ h => LedgerStep.binds (P := AnyTransition) (.event h)

lemma attempt_heeds {writer : ℕ} (hp : d.prepare H c = .ok (chunks,writer)) (hd : c.Delivers classes s.db id) :
    Yields (bindingRules H) (c.Heeds H classes d) (fun _ _ _ => True)
      (d.attempt H classes c id chunks writer) own s := by
  refine Yields.bind heeds_binds (intent_heeds hp hd) fun r own1 s1 h1 _ ha => ?_
  cases r with
  | error exc => exact Acts.bind (.query .stay) (fun _ _ => .pure trivial) own1 s1
  | ok attemptId =>
    have ha := ha attemptId rfl
    refine admitted_heeds hp (hd.mono h1.keeps) ha ?_
    have hwrite : Yields (bindingRules H) (Binds H) (fun _ _ _ => True)
        (Op.writeChunks ⟨writer,id,c.target,chunks⟩) own1 s1 :=
      Meets.atomic fun t ht _ => ⟨⟨KeepsLogs.refl _,_,rfl,List.forall_mem_singleton.mpr (ha.mono ht.keeps)⟩,
        fun _ _ _ _ => trivial⟩
    refine Yields.bind (fun _ _ h _ => h) hwrite fun _ own2 s2 _ _ _ => ?_
    refine Acts.bind append_binds (fun _ _ => .bind (.query fun _ => .stay rfl rfl) fun _ _ => ?_) own2 s2
    have hend : Acts (bindingRules H) (Binds H) (fun _ => True) (Op.query (getDelivery id) >>= fun delivery =>
        return dispatchResult delivery c.target false) :=
      .bind (.query fun _ => .stay rfl rfl) fun _ _ => .pure trivial
    exact .ite (fun _ => .bind retract_binds fun _ _ => hend) fun _ => hend

/-- Every dispatch heeds the first intent of its delivery. -/
theorem dispatch_heeds : Yields (bindingRules H) (c.Heeds H classes d) (fun _ _ _ => True)
    (d.dispatch H classes c) own s := by
  have hquery : ∀ {α : Type} (f : Db → Except Exc α),
      Acts (bindingRules H) (c.Heeds H classes d) (fun _ => True) (Op.query f) := fun _ => .query .stay
  refine Yields.bind heeds_binds (hquery _ own s) fun live own1 s1 _ _ _ => Yields.refuse fun _ => ?_
  have hverify : Acts (bindingRules H) (c.Heeds H classes d) (fun _ => True)
      (Op.onArchive fun a => (Dispatcher.verifyBundle H live c.recordId a,a)) := .onArchive .stay
  refine Yields.bind heeds_binds (hverify own1 s1) fun _ own2 s2 _ _ _ => ?_
  refine Yields.bind heeds_binds openDelivery_heeds fun id own3 s3 _ _ hd => ?_
  refine Yields.bind heeds_binds (hquery _ own3 s3) fun delivery own4 s4 h4 _ _ => ?_
  refine Yields.ite (fun _ => .pure fun _ _ => trivial) fun _ => ?_
  cases hp : d.prepare H c with
  | error exc =>
    have hfail : ∀ {e : Env} {a : EventArgs},
        Acts (bindingRules H) (c.Heeds H classes d) (fun _ => True) (DeliveryLog.append H e id a) :=
      .transaction .stay fun w _ db h => ⟨LedgerStep.binds (P := AnyTransition) (.event (onIntegrity_ok h)),
        fun _ _ => rfl,fun _ _ hok => by rw [hp] at hok; cases hok⟩
    exact Acts.bind hfail (fun _ _ => .bind (hquery _) fun _ _ => .pure trivial) own4 s4
  | ok p => exact attempt_heeds hp (hd.mono h4.keeps)

/-- What a call does in its steps. -/
def ProcessCall.Heeds (H : Hasher) (classes : ℕ → TargetClass) (c : ProcessCall) (w w' : World) : Prop :=
  Binds H w w' ∧ ∀ a, c.call = .dispatch a → a.Heeds H classes c.d w w'

lemma ProcessCall.heeds (c : ProcessCall) (w : World) :
    Meets (bindingRules H) (c.Heeds H classes) (fun _ _ _ => True) (c.prog H classes) [] w := by
  have hother : (∀ a, c.call ≠ .dispatch a) →
      Meets (bindingRules H) (Binds H) (fun _ _ _ => True) (c.prog H classes) [] w →
      Meets (bindingRules H) (c.Heeds H classes) (fun _ _ _ => True) (c.prog H classes) [] w :=
    fun hne h => Meets.weaken (fun _ _ hb => ⟨hb,fun a ha => absurd ha (hne a)⟩) h
  have hinv : ∀ (e : Env) (id reason : PyStr), Acts (bindingRules H) (LedgerStep H AnyTransition) (fun _ => True)
      (LedgerStore.invalidate H e id reason) :=
    invalidate_acts fun note => ⟨.invalidated note,fun _ _ => trivial⟩
  obtain ⟨d,call⟩ := c
  cases call with
  | dispatch c =>
    refine Meets.map ((Meets.weaken (fun _ _ hb => ⟨hb.binds,fun a ha => ?_⟩) dispatch_heeds).mono
      fun _ _ _ _ => trivial)
    obtain rfl := DispatcherCall.dispatch.inj ha
    exact hb
  | ledger c =>
    refine hother (fun _ h => by cases h) (Meets.map ((Meets.weaken (fun _ _ h => h.binds)
      (c.steps (P := AnyTransition) (fun t ht => ⟨ht,fun _ _ => trivial⟩) [] w)).mono fun _ _ _ _ => trivial))
  | retract id r =>
    exact hother (fun _ h => by cases h) (Meets.map ((retract_binds [] w).mono fun _ _ _ _ => trivial))
  | invalidate e id reason r =>
    have hacts : Acts (bindingRules H) (Binds H) (fun _ => True) (d.invalidate H classes e r id reason) := by
      refine .bind (.query fun _ => .stay rfl rfl) fun record _ => .ite (fun _ => ?_) fun _ => retract_binds
      exact .bind (fun own w => Meets.weaken (fun _ _ h => h.binds) (hinv e id reason own w))
        fun _ _ => retract_binds
    exact hother (fun _ h => by cases h) (Meets.map ((hacts [] w).mono fun _ _ _ _ => trivial))

end Calls

section Runs

/-- In every interleaving of any calls, with no collision: all writes of a delivery that is bound to a
digest are given one payload. A dispatch of another payload writes nothing, and where a writer is
registered for its target it logs nothing either. -/
theorem one_payload_written (H : Hasher) (classes : ℕ → TargetClass) (w₀ : World) (p : ProcessPool)
    (hw : w₀.writes = []) (h : Interleaved (ProcessCall.prog H classes) Outside (fun _ _ => True) w₀ p) :
    (∀ x ∈ p.shared.writes, ∀ y ∈ p.shared.writes, x.dispatchId = y.dispatchId →
      (∃ digest, BoundDigest p.shared.db x.dispatchId digest) → NoCollision H x.chunks y.chunks →
        SamePayload x.chunks y.chunks) ∧
    ∀ t ∈ p.threads, ∀ c chunks id bound, t.call.call = .dispatch c → c.transform = .ok chunks →
      validateChunks H chunks = .ok () → c.Delivers classes p.shared.db id → BoundTo H p.shared.db id bound →
      NoCollision H bound chunks → ¬SamePayload bound chunks →
        (∀ q ∈ t.own, q.2.writes = q.1.writes) ∧
        ∀ writer, t.call.d.writers.get c.target.cls = some writer →
          ∀ q ∈ t.own, q.2.db.deliveryEvents = q.1.db.deliveryEvents := by
  have henv : ∀ a b, Outside a b → (bindingRules H).rely a b := fun _ _ h => .stay h.db.symm h.writes.symm
  have hk := h.known (R := bindingRules H) (fun c _ => c.Heeds H classes) (fun _ _ _ _ _ => True) henv
    (fun _ _ _ _ hg => hg.1) fun c w _ => c.heeds w
  have hseen := h.seen (R := bindingRules H) (fun c _ => c.Heeds H classes) (fun _ _ _ _ _ => True) henv
    (fun _ _ _ _ hg => hg.1) fun c w _ => c.heeds w
  constructor
  · obtain ⟨new,hnew,ha⟩ := hk.1.writes
    rw [hw,List.nil_append] at hnew
    intro x hx y hy hid ⟨digest,hd⟩ hn
    have hax := ha x (hnew ▸ hx)
    have hay := ha y (hnew ▸ hy)
    exact samePayload_of_digest hax.validated hay.validated (hax.digest_eq hd) (hay.digest_eq (hid ▸ hd)) hn
  · intro t ht c chunks id bound hc htr hv hid hb hn hne
    have hheeds : ∀ q ∈ t.own, c.Heeds H classes t.call.d q.1 q.2 :=
      fun q hq => ((hk.2 t ht).own q hq).2 c hc
    have hprep : t.call.d.prepare H c = (t.call.d.writerFor c.target.cls).map fun writer => (chunks,writer) := by
      simp only [Dispatcher.prepare,htr,hv,bind,Except.bind]
      cases t.call.d.writerFor c.target.cls <;> rfl
    have hidle : ∀ writer, t.call.d.prepare H c = .ok (chunks,writer) → ∀ q ∈ t.own, Idle q.1 q.2 := by
      intro writer hw q hq
      refine ((hheeds q hq).prepared chunks writer hw).resolve_right fun ⟨id',hd,ha⟩ => hne ?_
      have hkeep := (hseen t ht q hq).keeps
      obtain rfl := hid.unique (hd.mono hkeep)
      obtain ⟨digest,hbd,hdig⟩ := hb.bound
      exact samePayload_of_digest hb.validated hv hdig ((ha.mono hkeep).digest_eq hbd) hn
    refine ⟨fun q hq => ?_,fun writer hwr q hq => (hidle writer ?_ q hq).2⟩
    · cases hw : t.call.d.prepare H c with
      | error exc => exact (hheeds q hq).unprepared exc hw
      | ok x =>
        rw [hprep] at hw
        cases hwf : t.call.d.writerFor c.target.cls with
        | error exc =>
          rw [hwf] at hw
          cases hw
        | ok writer => exact (hidle writer (by rw [hprep,hwf]; rfl) q hq).1
    · rw [hprep,Dispatcher.writerFor,hwr]
      rfl

instance (chunks chunks' : List SteleChunk) : Decidable (NoCollision H chunks chunks') :=
  inferInstanceAs (Decidable (∀ x ∈ hashedBytes chunks, ∀ y ∈ hashedBytes chunks', _))

/-- An attempt to deliver these chunks of the sample record. -/
def payloadArgs (n : ℕ) (chunks : List SteleChunk) : DispatchArgs :=
  ⟨lit "r1",⟨0,[.str (lit "x")]⟩,envAt 2,envAt n,envAt (n+1),.ok chunks,.raised (lit "boom"),
    fun _ => lit "other payload",fun _ => ⟨envAt 8,envAt 9,.removed none,fun _ => []⟩⟩

def payloadCall (n : ℕ) (chunks : List SteleChunk) : ProcessCall :=
  ⟨Dispatcher.empty.registerTarget 0 0,.dispatch (payloadArgs n chunks)⟩

def otherChunk : SteleChunk := {sampleChunk with tokenCount := .int 2}

/-- The record is created and sealed, and two attempts write before they fail. -/
def retriedPool : ProcessPool :=
  (Pool.turns (ProcessCall.prog .checksum sampleClasses) (fun _ _ => true)
    ((Turn.spawn ⟨.empty,.ledger (.createPending sampleEnv samplePending)⟩ :: List.replicate 12 (Turn.act 0))++
    (Turn.spawn ⟨.empty,.ledger (.sealRecord (envAt 1) (lit "r1"))⟩ :: List.replicate 12 (Turn.act 0))++
    (Turn.spawn (payloadCall 3 [sampleChunk]) :: List.replicate 12 (Turn.act 0))++
    (Turn.spawn (payloadCall 5 [sampleChunk]) :: List.replicate 12 (Turn.act 0))) ⟨World.new .empty,[]⟩).2

/-- Then another payload is dispatched. -/
def conflictPool : ProcessPool :=
  (Pool.turns (ProcessCall.prog .checksum sampleClasses) (fun _ _ => true)
    (Turn.spawn (payloadCall 7 [otherChunk]) :: List.replicate 12 (Turn.act 0)) retriedPool).2

lemma turns_pass (ts : List (Turn ProcessCall)) (p : ProcessPool) :
    (Pool.turns (ProcessCall.prog H classes) (fun _ _ => true) ts p).1 = true := by
  induction ts generalizing p with
  | nil => rfl
  | cons t ts ih => cases t <;> exact ih _

lemma conflict_run : Interleaved (ProcessCall.prog .checksum sampleClasses) Outside (fun _ _ => True)
    (World.new .empty) conflictPool :=
  Interleaved.turns (fun _ _ _ => trivial) _
    (Interleaved.turns (fun _ _ _ => trivial) _ (Runs.Reaches.refl _) (turns_pass _ _)) (turns_pass _ _)

/-- What the two writers were given, what the first intent records, and the delivery. -/
lemma conflict_facts : conflictPool.shared.writes.length = 2 ∧
    (conflictPool.shared.writes.all fun x => decide (x.dispatchId = lit "u2") &&
      conflictPool.shared.writes.all fun y => decide (NoCollision .checksum x.chunks y.chunks)) = true ∧
    (conflictPool.threads.head?.elim true fun t => t.own.isEmpty) = false ∧
    ((chunksDigest .checksum [sampleChunk]).toOption.elim false fun digest =>
      decide (digestPrefix <+: digest) && (firstIntent conflictPool.shared.db (lit "u2")).elim false fun r =>
        decide (r.chunksDigest = .text digest)) = true ∧
    (findDispatchId (lit "r1") (lit "Target") sampleTarget conflictPool.shared.db).toOption = some (lit "u2") := by
  decide +kernel

theorem one_payload_written_conflict :
    (∃ x y, conflictPool.shared.writes = [x,y] ∧ SamePayload x.chunks y.chunks) ∧
    ∃ t ∈ conflictPool.threads, t.own ≠ [] ∧ ∀ q ∈ t.own, Idle q.1 q.2 := by
  obtain ⟨hsame,hidle⟩ := one_payload_written .checksum sampleClasses (World.new .empty) conflictPool rfl
    conflict_run
  obtain ⟨hlen,hall,hown,hb,hd⟩ := conflict_facts
  have hbound : ∃ digest, BoundDigest conflictPool.shared.db (lit "u2") digest ∧
      chunksDigest .checksum [sampleChunk] = .ok digest := by
    cases hd : chunksDigest .checksum [sampleChunk] with
    | error e =>
      rw [hd] at hb
      cases hb
    | ok digest =>
      rw [hd] at hb
      obtain ⟨hp,hb⟩ := Bool.and_eq_true_iff.mp hb
      cases hf : firstIntent conflictPool.shared.db (lit "u2") with
      | none =>
        rw [hf] at hb
        cases hb
      | some r =>
        rw [hf] at hb
        exact ⟨digest,⟨r,hf,of_decide_eq_true hb,of_decide_eq_true hp⟩,rfl⟩
  obtain ⟨digest,hbd,hdigest⟩ := hbound
  constructor
  · obtain ⟨x,y,hxy⟩ := List.length_eq_two.mp hlen
    rw [hxy] at hall hsame
    have hx : x ∈ [x,y] := List.mem_cons_self
    have hy : y ∈ [x,y] := List.mem_cons_of_mem _ (List.mem_singleton_self _)
    obtain ⟨hxid,hxn⟩ := Bool.and_eq_true_iff.mp (List.all_eq_true.mp hall x hx)
    obtain ⟨hyid,-⟩ := Bool.and_eq_true_iff.mp (List.all_eq_true.mp hall y hy)
    have hxid := of_decide_eq_true hxid
    refine ⟨x,y,hxy,hsame x hx y hy (hxid.trans (of_decide_eq_true hyid).symm) ⟨digest,hxid ▸ hbd⟩ ?_⟩
    exact of_decide_eq_true (List.all_eq_true.mp hxn y hy)
  · obtain ⟨t,ht,hc⟩ := Pool.turns_head (ProcessCall.prog .checksum sampleClasses)
      (fun _ _ => true) (payloadCall 7 [otherChunk]) 12 retriedPool
    have hmem : t ∈ conflictPool.threads := List.mem_of_mem_head? ht
    have htarget : encodeTarget (some ((payloadArgs 7 [otherChunk]).target.toTarget sampleClasses)) =
        .ok (lit "Target",sampleTarget) := by decide +kernel
    have hfind : findDispatchId (lit "r1") (lit "Target") sampleTarget conflictPool.shared.db = .ok (lit "u2") := by
      cases hf : findDispatchId (lit "r1") (lit "Target") sampleTarget conflictPool.shared.db with
      | error e =>
        rw [hf] at hd
        cases hd
      | ok id =>
        rw [hf] at hd
        exact congrArg Except.ok (Option.some.inj hd)
    have hvalid : validateChunks .checksum [otherChunk] = .ok () := by decide +kernel
    have hother : ¬SamePayload [sampleChunk] [otherChunk] := by
      intro h
      cases h with
      | cons h _ => cases h.tokenCount
    have hcall : t.call.call = .dispatch (payloadArgs 7 [otherChunk]) := by
      rw [hc]
      rfl
    obtain ⟨hw,hlog⟩ := hidle t hmem _ [otherChunk] (lit "u2") [sampleChunk] hcall rfl hvalid
      ⟨_,_,htarget,hfind⟩ ⟨by decide +kernel,digest,hbd,hdigest⟩ (by decide +kernel) hother
    refine ⟨t,hmem,?_,fun q hq => ⟨hw q hq,hlog 0 (by rw [hc]; rfl) q hq⟩⟩
    intro hnil
    have hhead : conflictPool.threads.head? = some t := ht
    rw [hhead,Option.elim_some,hnil] at hown
    cases hown

end Runs

end Stele
