import Stele.Ledger.Alone
import Stele.Ledger.Appending

/-! append_intent and the trigger delivery_events_one_payload on any history of a delivery:
which chunks are admitted, and what refuses the others. -/
namespace Stele
open Python

variable {H : Hasher} {e : Env} {w : World} {db : Db} {id : PyStr} {chunks : List SteleChunk}

/-- The chunks have the count and the digest of this intent. -/
def PayloadOf (H : Hasher) (chunks : List SteleChunk) (r : DeliveryEventRow) : Prop :=
  r.planned.toPy.pyEq (.int chunks.length) = true ∧ payloadMatches H r.chunksDigest chunks = .ok true

/-- The earlier intents of a delivery. -/
def IsIntentOf (db : Db) (id : PyStr) (q : DeliveryEventRow) : Prop :=
  q ∈ db.deliveryEvents ∧ q.dispatchId = .text id ∧ q.event = .text DeliveryEventKind.intent.value

/-- The chunks are the payload of the first intent, and every other intent records the same
digest and count. -/
def OnePayload (H : Hasher) (db : Db) (id : PyStr) (chunks : List SteleChunk) : Prop :=
  ∀ r ∈ firstIntent db id, PayloadOf H chunks r ∧
    ∀ q, IsIntentOf db id q →
      q.chunksDigest = r.chunksDigest ∧ q.planned.toPy.pyEq (.int chunks.length) = true

/-- The first intent, if there is one, records a digest. -/
def DigestRecorded (db : Db) (id : PyStr) : Prop :=
  ∀ r ∈ firstIntent db id, ∃ d, r.chunksDigest = .text d ∧ Encodable d

/-- The digest that the check needs of the chunks can be computed. -/
def Comparable (H : Hasher) (chunks : List SteleChunk) : Option DeliveryEventRow → Prop
  | none => ∃ d, chunksDigest H chunks = .ok d
  | some r => r.planned.toPy.pyEq (.int chunks.length) = true →
      ∃ same, payloadMatches H r.chunksDigest chunks = .ok same

/-- An exception of Python's own, which no handler of a delivery expects. -/
def Exc.isBuiltin : Exc → Bool
  | .typeError | .valueError | .attributeError | .overflowError | .unicodeEncodeError => true
  | _ => false

section Digests

lemma mem_eventsOf {r : DeliveryEventRow} {dispatchId : TextCell} :
    r ∈ eventsOf db dispatchId ↔ r ∈ db.deliveryEvents ∧ r.dispatchId = dispatchId := by
  simp [eventsOf,orderByEventId,List.mem_filter,List.mem_insertionSort]

lemma firstIntent_some {r : DeliveryEventRow} (h : firstIntent db id = some r) : IsIntentOf db id r := by
  obtain ⟨hr,hd⟩ := mem_eventsOf.mp (List.mem_of_find?_eq_some h)
  exact ⟨hr,hd,by simpa using List.find?_some h⟩

lemma firstIntent_none : firstIntent db id = none ↔ ∀ q, ¬IsIntentOf db id q := by
  unfold firstIntent
  rw [List.find?_eq_none]
  constructor
  · intro h q ⟨hq,hd,hi⟩
    exact h q (mem_eventsOf.mpr ⟨hq,hd⟩) (by simpa using hi)
  · intro h q hq hi
    obtain ⟨hm,hd⟩ := mem_eventsOf.mp hq
    exact h q ⟨hm,hd,by simpa using hi⟩

lemma canonicalJson_total {v : PyVal} (h : Writable v) : ∃ b, canonicalJson v = .ok b := by
  obtain ⟨t,ht⟩ := h
  exact ⟨utf8 t,by rw [canonicalJson,ht]; rfl⟩

lemma writable_chunks (body : List PyVal) (h : ∀ v ∈ body, Writable v) : Writable (chunksObject body) :=
  writable_dict fun p hp => by
    rw [List.mem_singleton.mp hp]
    exact ⟨⟨_,rfl,encodable_lit _⟩,writable_list h⟩

lemma chunksDigest_total (hc : ∀ c ∈ chunks, Writable c.fingerprint) :
    ∃ d, chunksDigest H chunks = .ok d ∧ Encodable d := by
  obtain ⟨b,hb⟩ := canonicalJson_total (writable_chunks (chunks.map SteleChunk.fingerprint)
    (by simpa using hc))
  refine ⟨digestPrefix++H.hexdigest b,by rw [chunksDigest,hb]; rfl,?_⟩
  exact encodable_append.mpr ⟨encodable_lit _,digest_encodable (H.digest_form b)⟩

lemma legacyChunksDigest_total (hc : ∀ c ∈ chunks, Writable c.fingerprint) :
    ∃ d, legacyChunksDigest H chunks = .ok d := by
  have hw : ∀ c ∈ chunks, Writable (.list [.str c.chunkId,.str c.contentHash]) := by
    intro c hmem
    refine writable_list fun v hv => ?_
    have h1 := (hc c hmem).item (p := (.str (lit "chunk_id"),.str c.chunkId)) (by simp)
    have h2 := (hc c hmem).item (p := (.str (lit "content_hash"),.str c.contentHash)) (by simp)
    simp only [List.mem_cons,List.not_mem_nil,or_false] at hv
    rcases hv with rfl | rfl
    · exact h1
    · exact h2
  obtain ⟨b,hb⟩ := canonicalJson_total (writable_chunks
    (chunks.map fun c => .list [.str c.chunkId,.str c.contentHash]) (by simpa using hw))
  exact ⟨H.hexdigest b,by rw [legacyChunksDigest,hb]; rfl⟩

/-- A recorded digest of either format can be compared with. -/
lemma payloadMatches_total (hc : ∀ c ∈ chunks, Writable c.fingerprint) (d : PyStr) :
    ∃ b, payloadMatches H (.text d) chunks = .ok b := by
  obtain ⟨v2,hv,-⟩ := chunksDigest_total (H := H) hc
  obtain ⟨v1,hl⟩ := legacyChunksDigest_total (H := H) hc
  by_cases hp : digestPrefix <+: d
  · exact ⟨decide (d = v2),by simp only [payloadMatches,if_pos hp,hv,Except.map]⟩
  · exact ⟨decide (d = v1),by simp only [payloadMatches,if_neg hp,hl,Except.map]⟩

lemma chunksDigest_encodable {d : PyStr} (h : chunksDigest H chunks = .ok d) : Encodable d := by
  unfold chunksDigest at h
  cases hb : canonicalJson (chunksObject (chunks.map SteleChunk.fingerprint)) with
  | error e => rw [hb] at h; cases h
  | ok b =>
    rw [hb] at h
    rw [← Except.ok.inj h]
    exact encodable_append.mpr ⟨encodable_lit _,digest_encodable (H.digest_form b)⟩

lemma comparable_of_writable (hc : ∀ c ∈ chunks, Writable c.fingerprint) (hd : DigestRecorded db id) :
    Comparable H chunks (firstIntent db id) := by
  cases hf : firstIntent db id with
  | none =>
    obtain ⟨d,hv,-⟩ := chunksDigest_total (H := H) hc
    exact ⟨d,hv⟩
  | some r =>
    obtain ⟨d,hrd,-⟩ := hd r hf
    intro _
    rw [hrd]
    exact payloadMatches_total hc d

lemma canonicalText_builtin {v : PyVal} {exc : Exc} (h : canonicalText v = .error exc) :
    exc.isBuiltin = true := by
  unfold canonicalText at h
  cases hd : dumps canonicalOpts v with
  | error j =>
    rw [hd] at h
    rw [← Except.error.inj h]
    cases j <;> rfl
  | ok t =>
    rw [hd] at h
    simp only at h
    split_ifs at h
    rw [← Except.error.inj h]
    rfl

lemma canonicalJson_builtin {v : PyVal} {exc : Exc} (h : canonicalJson v = .error exc) :
    exc.isBuiltin = true := by
  unfold canonicalJson at h
  cases ht : canonicalText v with
  | error e =>
    rw [ht] at h
    exact Except.error.inj h ▸ canonicalText_builtin ht
  | ok t => rw [ht] at h; cases h

lemma except_map_error {α β : Type} {f : α → β} {x : Except Exc α} {exc : Exc}
    (h : x.map f = .error exc) : x = .error exc := by
  cases x with
  | error e => rw [Except.error.inj h]
  | ok a => cases h

lemma payloadMatches_builtin {cell : TextCell} {exc : Exc} (h : payloadMatches H cell chunks = .error exc) :
    exc.isBuiltin = true := by
  cases cell with
  | text d =>
    unfold payloadMatches at h
    simp only at h
    split_ifs at h
    · exact canonicalJson_builtin (except_map_error (except_map_error h))
    · exact canonicalJson_builtin (except_map_error (except_map_error h))
  | null | blob => rw [← Except.error.inj h]; rfl

/-- Where the digest cannot be computed, that exception is what the check raises. -/
lemma intentDigest_fails (id : PyStr) {first : Option DeliveryEventRow} (hc : ¬Comparable H chunks first) :
    ∃ exc, intentDigest H id chunks first = .error exc ∧ exc.isBuiltin = true := by
  cases first with
  | none =>
    cases hd : chunksDigest H chunks with
    | ok d => exact absurd ⟨d,hd⟩ hc
    | error exc => exact ⟨exc,hd,canonicalJson_builtin (except_map_error hd)⟩
  | some r =>
    obtain ⟨hp,hm⟩ := Classical.not_imp.mp hc
    cases hd : payloadMatches H r.chunksDigest chunks with
    | ok same => exact absurd ⟨same,hd⟩ hm
    | error exc =>
      refine ⟨exc,?_,payloadMatches_builtin hd⟩
      simp only [intentDigest,hp,hd,if_true,bind,Except.bind]

/-- The check of append_intent admits the payload of the first intent and refuses any other. -/
lemma intentDigest_cases (hc : Comparable H chunks (firstIntent db id)) (hd : DigestRecorded db id) :
    ((∀ r ∈ firstIntent db id, PayloadOf H chunks r) ∧
      ∃ d, intentDigest H id chunks (firstIntent db id) = .ok d ∧ Encodable d ∧
        ∀ r ∈ firstIntent db id, r.chunksDigest = .text d) ∨
    (¬∀ r ∈ firstIntent db id, PayloadOf H chunks r) ∧
      intentDigest H id chunks (firstIntent db id) = .error (.payloadConflict id) := by
  cases hf : firstIntent db id with
  | none =>
    rw [hf] at hc
    obtain ⟨d,hv⟩ := hc
    exact Or.inl ⟨by simp,d,by rw [intentDigest,hv],chunksDigest_encodable hv,by simp⟩
  | some r =>
    rw [hf] at hc
    obtain ⟨d,hrd,he⟩ := hd r hf
    have hall : (∀ q ∈ some r, PayloadOf H chunks q) ↔ PayloadOf H chunks r := by simp
    rw [hall,PayloadOf]
    by_cases hp : r.planned.toPy.pyEq (.int chunks.length) = true
    · obtain ⟨same,hm⟩ := hc hp
      rw [hm]
      cases same with
      | true =>
        refine Or.inl ⟨⟨hp,rfl⟩,d,?_,he,by simpa using hrd⟩
        simp only [intentDigest,hp,hm,if_true,bind,Except.bind]
        rw [hrd,TextCell.get]
      | false =>
        refine Or.inr ⟨fun h => (by cases h.2),?_⟩
        simp only [intentDigest,hp,hm,if_true,bind,Except.bind]
        rfl
    · exact Or.inr ⟨fun h => hp h.1,by rw [intentDigest,if_neg hp]⟩

end Digests

section Trigger

/-- The row that append_intent inserts. -/
lemma intentRow_total (db : Db) (he : e.Textual) (hid : Encodable id) (hn : chunks.length < 2^63) {d : PyStr}
    (hd : Encodable d) : ∃ row, eventRow (nextEventId db) id e.now (intentArgs chunks d e.uuid) = .ok row := by
  refine eventRow_total.mpr ⟨hid,he.now,encodable_lit _,?_,?_,nofun,nofun,?_⟩
  · rintro _ ⟨⟩
    change -(2^63) ≤ (chunks.length : ℤ) ∧ (chunks.length : ℤ) < 2^63
    omega
  · rintro _ ⟨⟩
    exact hd
  · rintro _ ⟨⟩
    exact he.uuid

lemma intentRow_fields {n : ℤ} {now attemptId d : PyStr} {row : DeliveryEventRow}
    (h : eventRow n id now (intentArgs chunks d attemptId) = .ok row) : row.dispatchId = .text id ∧
      row.event = .text DeliveryEventKind.intent.value ∧ row.planned = .integer chunks.length ∧
      row.chunksDigest = .text d ∧ row.attemptId = .text attemptId := by
  obtain ⟨-,h1,h2,h3,h4,-,-,h5,-⟩ := eventRow_ok h
  exact ⟨h1,h2,bindInt_ok h3,h4,h5⟩

/-- The trigger refuses an intent when some earlier one of the delivery records another digest
or count. -/
lemma breaksPayload_intent {n : ℤ} {now attemptId d : PyStr} {row : DeliveryEventRow}
    (h : eventRow n id now (intentArgs chunks d attemptId) = .ok row) : breaksPayload db row = true ↔
      ∃ q, IsIntentOf db id q ∧
        ¬(q.chunksDigest = .text d ∧ q.planned.toPy.pyEq (.int chunks.length) = true) := by
  obtain ⟨h1,h2,h3,h4,-⟩ := intentRow_fields h
  unfold breaksPayload
  rw [h1,h2,h3,h4]
  simp only [decide_true,Bool.true_and,reduceCtorEq,decide_false,Bool.false_or,List.any_eq_true,
    Bool.and_eq_true,decide_eq_true_eq,Bool.or_eq_true,Bool.not_eq_true',Cell.toPy]
  constructor
  · rintro ⟨q,hq,⟨hid,hi⟩,hne⟩
    exact ⟨q,⟨hq,hid,hi⟩,fun ⟨hd,hp⟩ => hne.elim (fun h => h hd) fun h => by rw [h] at hp; cases hp⟩
  · rintro ⟨q,⟨hq,hid,hi⟩,hne⟩
    refine ⟨q,hq,⟨hid,hi⟩,?_⟩
    by_cases hd : q.chunksDigest = .text d
    · exact Or.inr (Bool.eq_false_iff.mpr fun hp => hne ⟨hd,hp⟩)
    · exact Or.inl hd

end Trigger

section Accepted

/-- append_intent alone: its transaction. -/
lemma appendIntent_exec : (DeliveryLog.appendIntent H e id chunks).exec w =
    match intentTx H e id chunks w.db with
    | .ok (_,db') => (.ok e.uuid,{w with db := db'})
    | .error x => (.error x,w) := by
  rw [DeliveryLog.appendIntent,Op.exec_bind,Op.exec_transaction,writeTransaction]
  cases intentTx H e id chunks w.db <;> rfl

/-- Where the check cannot compare them, its exception leaves append_intent and nothing changes. -/
lemma appendIntent_fails (hid : Encodable id) (hc : ¬Comparable H chunks (firstIntent w.db id)) :
    ∃ exc, (DeliveryLog.appendIntent H e id chunks).exec w = (.error exc,w) ∧ exc.isBuiltin = true := by
  have hbind : bindText id = .ok (.text id) := if_pos hid
  obtain ⟨exc,hdig,hb⟩ := intentDigest_fails id hc
  refine ⟨exc,?_,hb⟩
  rw [appendIntent_exec]
  simp only [intentTx,hbind,hdig,bind,Except.bind]

/-- Where the check or the trigger refuses the chunks, both end as PayloadConflictError. -/
lemma appendIntent_refused (he : e.Textual) (hid : Encodable id) (hd : DigestRecorded w.db id)
    (hc : Comparable H chunks (firstIntent w.db id)) (hn : chunks.length < 2^63)
    (h : ¬OnePayload H w.db id chunks) :
    (DeliveryLog.appendIntent H e id chunks).exec w = (.error (.payloadConflict id),w) := by
  have hbind : bindText id = .ok (.text id) := if_pos hid
  suffices intentTx H e id chunks w.db = .error (.payloadConflict id) by
    rw [appendIntent_exec,this]
  rcases intentDigest_cases (H := H) hc hd with ⟨hfirst,d,hdig,hde,hrd⟩ | ⟨-,hdig⟩
  · obtain ⟨row,hrow⟩ := intentRow_total w.db he hid hn hde
    have hbreaks : breaksPayload w.db row = true := by
      rw [breaksPayload_intent hrow]
      by_contra hall
      push Not at hall
      refine h fun r hr => ⟨hfirst r hr,fun q hq => ?_⟩
      rw [hrd r hr]
      exact hall q hq
    have hinsert : insertTx H e id (intentArgs chunks d e.uuid) w.db =
        .error (.integrityError .trigger) := by
      simp only [insertTx,hrow,insertDeliveryEvent,hbreaks,if_true,bind,Except.bind]
    simp only [intentTx,hbind,hdig,Tx.onIntegrity,hinsert,bind,Except.bind]
    rfl
  · simp only [intentTx,hbind,hdig,bind,Except.bind]

/-- Otherwise the intent is appended. -/
lemma appendIntent_accepted (he : e.Textual) (hid : Encodable id) (ha : Appendable w.db.events)
    (hopen : ∃ d ∈ w.db.deliveries, d.dispatchId = .text id) (hd : DigestRecorded w.db id)
    (hc : Comparable H chunks (firstIntent w.db id)) (hn : chunks.length < 2^63)
    (hf : ∀ d, intentDigest H id chunks (firstIntent w.db id) = .ok d →
      FreshHash H w.db.events (lit "delivery.event") id (intentArgs chunks d e.uuid).body e.at')
    (h : OnePayload H w.db id chunks) : ∃ row ev,
    (DeliveryLog.appendIntent H e id chunks).exec w = (.ok e.uuid,{w with db :=
      {w.db with deliveryEvents := w.db.deliveryEvents++[row], events := w.db.events++[ev]}}) ∧
    IsIntentOf {w.db with deliveryEvents := w.db.deliveryEvents++[row]} id row ∧
    row.planned = .integer chunks.length ∧ row.attemptId = .text e.uuid := by
  have hbind : bindText id = .ok (.text id) := if_pos hid
  rcases intentDigest_cases (H := H) hc hd with ⟨hfirst,d,hdig,hde,hrd⟩ | ⟨hno,-⟩
  · obtain ⟨row,hrow⟩ := intentRow_total w.db he hid hn hde
    have hbreaks : breaksPayload w.db row = false := by
      rw [Bool.eq_false_iff,Ne,breaksPayload_intent hrow]
      rintro ⟨q,hq,hne⟩
      cases hfi : firstIntent w.db id with
      | none => exact firstIntent_none.mp hfi q hq
      | some r =>
        refine hne ?_
        rw [← hrd r hfi]
        exact (h r hfi).2 q hq
    have hkind : DeliveryEventKind.intent.value ∈ eventKinds.map DeliveryEventKind.value := by decide
    obtain ⟨db',htx⟩ := insertTx_total ha hrow hkind hopen hbreaks he.at' (hf d hdig)
    obtain ⟨row',ev,hrow',rfl,-⟩ := insertTx_ok htx
    obtain rfl := Except.ok.inj (hrow.symm.trans hrow')
    obtain ⟨h1,h2,h3,-,h5⟩ := intentRow_fields hrow
    refine ⟨row,ev,?_,⟨by simp,h1,h2⟩,h3,h5⟩
    rw [appendIntent_exec]
    simp only [intentTx,hbind,hdig,Tx.onIntegrity,htx,bind,Except.bind]
  · exact absurd (fun r hr => (h r hr).1) hno

/-- append_intent on any history, from any version, whose first intent records a digest: it is
accepted, with one intent appended, exactly when the delivery has no earlier intent, or the
chunks are the payload of the first intent and no other intent differs from that. Otherwise
PayloadConflictError is raised and nothing changes, also where the check in Python has admitted
the chunks and the trigger refuses them, which is where an earlier intent differs from the first. -/
theorem appendIntent_iff (H : Hasher) (e : Env) (w : World) (id : PyStr) (chunks : List SteleChunk)
    (he : e.Textual) (hid : Encodable id) (ha : Appendable w.db.events)
    (hopen : ∃ d ∈ w.db.deliveries, d.dispatchId = .text id) (hd : DigestRecorded w.db id)
    (hc : ∀ c ∈ chunks, Writable c.fingerprint) (hn : chunks.length < 2^63)
    (hf : ∀ d, intentDigest H id chunks (firstIntent w.db id) = .ok d →
      FreshHash H w.db.events (lit "delivery.event") id (intentArgs chunks d e.uuid).body e.at') :
    ((∃ row ev, (DeliveryLog.appendIntent H e id chunks).exec w = (.ok e.uuid,{w with db :=
        {w.db with deliveryEvents := w.db.deliveryEvents++[row], events := w.db.events++[ev]}}) ∧
        IsIntentOf {w.db with deliveryEvents := w.db.deliveryEvents++[row]} id row ∧
        row.planned = .integer chunks.length ∧ row.attemptId = .text e.uuid) ↔
      OnePayload H w.db id chunks) ∧
    (¬OnePayload H w.db id chunks →
      (DeliveryLog.appendIntent H e id chunks).exec w = (.error (.payloadConflict id),w)) ∧
    ∀ d row, intentDigest H id chunks (firstIntent w.db id) = .ok d →
      eventRow (nextEventId w.db) id e.now (intentArgs chunks d e.uuid) = .ok row →
      (breaksPayload w.db row = true ↔ ∃ q, IsIntentOf w.db id q ∧
        ¬(q.chunksDigest = .text d ∧ q.planned.toPy.pyEq (.int chunks.length) = true)) := by
  have hcomp : Comparable H chunks (firstIntent w.db id) := comparable_of_writable hc hd
  refine ⟨⟨?_,appendIntent_accepted he hid ha hopen hd hcomp hn hf⟩,
    appendIntent_refused he hid hd hcomp hn,fun d row _ hrow => breaksPayload_intent hrow⟩
  rintro ⟨row,ev,hexec,-⟩
  by_contra hone
  rw [appendIntent_refused he hid hd hcomp hn hone] at hexec
  cases (Prod.mk.inj hexec).1

/-- An intent of a delivery made before intents were bound to a payload, with its digest and its
count. -/
def oldIntent (i : ℤ) (p : PyStr × ℤ) : DeliveryEventRow :=
  ⟨i,.text (lit "d"),.text DeliveryEventKind.intent.value,.integer p.2,.text p.1,.null,.null,
    .text (lit "t"),.null⟩

/-- The one chunk presented now, and histories of old intents. -/
def presented : List SteleChunk :=
  [⟨lit "c",lit "x",Hasher.checksum.hexdigest (utf8 (lit "x")),.int 1,.dict []⟩]

def oldHistory (intents : List (PyStr × ℤ)) : World :=
  {World.new .empty with db := {Db.new with
    deliveries := [⟨.text (lit "d"),.text (lit "r"),.text (lit "T"),.text (lit "\x7b\x7d"),.text (lit "t")⟩],
    deliveryEvents := intents.mapIdx fun i p => oldIntent (i+1) p}}

def retryEnv : Env := ⟨lit "a",lit "t",lit "t",fun _ => .ok []⟩

/-- The digest of the chunks in the format before chunks-v2. -/
def oldDigest : PyStr :=
  Hasher.checksum.hexdigest (utf8 (lit "\x7b\"chunks\":[[\"c\",\""++
    Hasher.checksum.hexdigest (utf8 (lit "x"))++lit "\"]]\x7d"))

lemma legacy_presented : legacyChunksDigest .checksum presented = .ok oldDigest := by decide +kernel

lemma counted_one : PyVal.pyEq (Cell.integer 1).toPy (.int presented.length) = true := by decide +kernel

lemma payloadOf_old (i : ℤ) : PayloadOf .checksum presented (oldIntent i (oldDigest,1)) := by
  have hp : ¬digestPrefix <+: oldDigest := by decide +kernel
  refine ⟨counted_one,?_⟩
  rw [oldIntent,payloadMatches,if_neg hp,legacy_presented]
  exact congrArg Except.ok (decide_eq_true rfl)

lemma presented_writable : ∀ c ∈ presented, Writable c.fingerprint := by
  intro c hc
  rw [List.mem_singleton.mp hc]
  refine writable_dict fun p hp => ?_
  simp only [List.mem_cons,List.not_mem_nil,or_false] at hp
  rcases hp with rfl | rfl | rfl | rfl
  · exact ⟨⟨_,rfl,encodable_lit _⟩,writable_str (encodable_lit _)⟩
  · exact ⟨⟨_,rfl,encodable_lit _⟩,writable_str (digest_encodable (Hasher.digest_form _ _))⟩
  · exact ⟨⟨_,rfl,encodable_lit _⟩,writable_nat (n := 1) (by decide)⟩
  · exact ⟨⟨_,rfl,encodable_lit _⟩,writable_dict (List.forall_mem_nil _)⟩

lemma oldDigest_encodable : Encodable oldDigest := digest_encodable (Hasher.digest_form _ _)

lemma retryEnv_textual : retryEnv.Textual := ⟨encodable_lit _,encodable_lit _,encodable_lit _⟩

theorem appendIntent_iff_retry : ∃ row ev,
    (DeliveryLog.appendIntent .checksum retryEnv (lit "d") presented).exec (oldHistory [(oldDigest,1)]) =
      (.ok (lit "a"),{oldHistory [(oldDigest,1)] with db := {(oldHistory [(oldDigest,1)]).db with
        deliveryEvents := [oldIntent 1 (oldDigest,1),row], events := [ev]}}) := by
  have hfirst : firstIntent (oldHistory [(oldDigest,1)]).db (lit "d") = some (oldIntent 1 (oldDigest,1)) := by
    decide +kernel
  have hone : OnePayload .checksum (oldHistory [(oldDigest,1)]).db (lit "d") presented := by
    intro r hr
    obtain rfl := Option.some.inj (hfirst.symm.trans hr)
    refine ⟨payloadOf_old 1,fun q hq => ?_⟩
    rw [List.mem_singleton.mp hq.1]
    exact ⟨rfl,counted_one⟩
  have hrecorded : DigestRecorded (oldHistory [(oldDigest,1)]).db (lit "d") := by
    intro r hr
    obtain rfl := Option.some.inj (hfirst.symm.trans hr)
    exact ⟨oldDigest,rfl,oldDigest_encodable⟩
  have happendable : Appendable ([] : List EventRow) :=
    ⟨by norm_num [IsInt64,nextLink,orderBySeq],genesis,rfl,encodable_genesis⟩
  obtain ⟨row,ev,hexec,-⟩ := (appendIntent_iff .checksum retryEnv (oldHistory [(oldDigest,1)]) (lit "d")
    presented retryEnv_textual (encodable_lit _) happendable ⟨_,List.mem_singleton_self _,rfl⟩ hrecorded
    presented_writable (by decide) fun _ _ _ _ _ _ => List.forall_mem_nil _).1.mpr hone
  exact ⟨row,ev,hexec⟩

/-- A delivery whose two old intents differ: the chunks are the payload of the first one and the
check admits them, the trigger refuses them. -/
theorem appendIntent_differing : ∃ w : World,
    (∀ r ∈ firstIntent w.db (lit "d"), PayloadOf .checksum presented r) ∧
    (∃ digest, intentDigest .checksum (lit "d") presented (firstIntent w.db (lit "d")) = .ok digest) ∧
    (DeliveryLog.appendIntent .checksum retryEnv (lit "d") presented).exec w =
      (.error (.payloadConflict (lit "d")),w) := by
  have hfirst : firstIntent (oldHistory [(oldDigest,1),(lit "b",1)]).db (lit "d") =
      some (oldIntent 1 (oldDigest,1)) := by decide +kernel
  have hpayload : ∀ r ∈ firstIntent (oldHistory [(oldDigest,1),(lit "b",1)]).db (lit "d"),
      PayloadOf .checksum presented r := by
    intro r hr
    obtain rfl := Option.some.inj (hfirst.symm.trans hr)
    exact payloadOf_old 1
  have hrecorded : DigestRecorded (oldHistory [(oldDigest,1),(lit "b",1)]).db (lit "d") := by
    intro r hr
    obtain rfl := Option.some.inj (hfirst.symm.trans hr)
    exact ⟨oldDigest,rfl,oldDigest_encodable⟩
  refine ⟨oldHistory [(oldDigest,1),(lit "b",1)],hpayload,?_,?_⟩
  · rcases intentDigest_cases (H := .checksum) (comparable_of_writable presented_writable hrecorded) hrecorded
      with ⟨-,d,hd,-⟩ | ⟨hno,-⟩
    · exact ⟨d,hd⟩
    · exact absurd hpayload hno
  · refine appendIntent_refused retryEnv_textual (encodable_lit _) hrecorded
      (comparable_of_writable presented_writable hrecorded) (by decide) ?_
    intro hone
    have hne : lit "b" ≠ oldDigest := by decide +kernel
    have hq := (hone _ hfirst).2 (oldIntent 2 (lit "b",1)) ⟨by simp [oldHistory,oldIntent],rfl,rfl⟩
    exact hne (TextCell.text.inj hq.1)

end Accepted

end Stele
