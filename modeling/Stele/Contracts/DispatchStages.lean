import Stele.Archive.TreeCodec
import Stele.Contracts.Fingerprints
import Stele.Contracts.OwnResult
import Stele.Ledger.TransactionExit

/-! The stages of one call of dispatch, alone: reading the record and its bundle, opening the
delivery, and logging an attempt. What sqlite3 cannot bind is raised and not logged. -/
namespace Stele
open Python Interleaving

variable {H : Hasher} {classes : ℕ → TargetClass} {d : Dispatcher} {c : DispatchArgs} {w u : World}
  {db : Db} {id : PyStr}

/-- Between the two worlds these events and these calls of writers were added, and no record has
changed. -/
structure Adds (w u : World) (events : List DeliveryEventRow) (writes : List Write) : Prop where
  records : u.db.records = w.db.records
  events : u.db.deliveryEvents = w.db.deliveryEvents++events
  writes : u.writes = w.writes++writes

/-- The dispatch_id of the record's delivery to the target, or that of a new one. -/
def dispatchIdOf (classes : ℕ → TargetClass) (c : DispatchArgs) (db : Db) : PyStr :=
  match canonicalText ((classes c.target.cls).asdict c.target.values) with
  | .error _ => c.opening.uuid
  | .ok encoded =>
    (findDispatchId c.recordId (classes c.target.cls).name encoded db).toOption.getD c.opening.uuid

/-- The delivery is read as delivered. -/
def Delivered (db : Db) (id : PyStr) : Prop :=
  ∃ delivery, getDelivery id db = .ok delivery ∧ delivery.status = .delivered

/-- With the ledger available: uuid4 gives an id that no delivery has, the log has numbers left, and
no event of it has the hash of a new one. -/
structure DispatchAvailable (H : Hasher) (classes : ℕ → TargetClass) (d : Dispatcher) (c : DispatchArgs)
    (w : World) : Prop where
  opening : c.opening.Textual
  attempt : c.attempt.Textual
  conclusion : c.conclusion.Textual
  newDelivery : ∀ row ∈ w.db.deliveries, row.dispatchId ≠ .text c.opening.uuid
  newLog : ∀ q ∈ w.db.deliveryEvents, q.dispatchId ≠ .text c.opening.uuid
  /-- A Python list is no longer than this. -/
  listed : ∀ chunks, c.transform = .ok chunks → chunks.length < 2^63
  room : w.db.events.length+4 < 2^63
  opens : ∀ encoded, canonicalText ((classes c.target.cls).asdict c.target.values) = .ok encoded →
    FreshHash H w.db.events (lit "delivery.opened") c.opening.uuid
      (deliveryBody c.recordId (classes c.target.cls).name encoded) c.opening.at'
  fails : ∀ id u exc, (DeliveryLog.openDelivery H c.opening c.recordId
      (some (c.target.toTarget classes))).exec w = (.ok id,u) → d.prepare H c = .error exc →
    FreshHash H u.db.events (lit "delivery.event") id (EventArgs.body ⟨DeliveryEventKind.failure.value,
      none,none,some (.int 0),some (c.repr exc),some c.attempt.uuid⟩) c.attempt.at'
  binds : ∀ id u chunks writer digest, (DeliveryLog.openDelivery H c.opening c.recordId
      (some (c.target.toTarget classes))).exec w = (.ok id,u) → d.prepare H c = .ok (chunks,writer) →
    intentDigest H id chunks (firstIntent u.db id) = .ok digest →
    FreshHash H u.db.events (lit "delivery.event") id (intentArgs chunks digest c.attempt.uuid).body
      c.attempt.at'
  concludes : ∀ id u v chunks writer, (DeliveryLog.openDelivery H c.opening c.recordId
      (some (c.target.toTarget classes))).exec w = (.ok id,u) → d.prepare H c = .ok (chunks,writer) →
    (DeliveryLog.appendIntent H c.attempt id chunks).exec u = (.ok c.attempt.uuid,v) →
    FreshHash H v.db.events (lit "delivery.event") id
      (Dispatcher.conclusionArgs chunks c.attempt.uuid c.write).body c.conclusion.at'

/-- The outcome of the call of the writer can be stored. -/
def WriteOutcome.Storable : WriteOutcome → Prop
  | .wrote => True
  | .landedSome chunksWritten error => IsInt64 chunksWritten.value ∧ Encodable error
  | .raised error => Encodable error

/-- What is stored whole under the record's artifact hash is a tree. -/
def TreeStored (H : Hasher) (a : Archive) (r : ArtifactRecord) : Prop :=
  ∀ hash data, r.artifactHash = .text hash → a.read H hash = .ok data → ∃ m, decodeTree data = .ok m

section Kept

/-- A ledger whose chain and tables agree, whose deliveries were bound and whose intents record the
digest of a payload. -/
structure LogKept (H : Hasher) (db : Db) : Prop where
  consistent : Consistent H db
  bound : ∀ row ∈ db.deliveries, row.Bound
  recorded : ∀ q ∈ db.deliveryEvents, q.event = intentCell →
    ∃ digest, q.chunksDigest = .text digest ∧ Encodable digest

lemma eventRow_digest {n : ℤ} {now : PyStr} {a : EventArgs} {row : DeliveryEventRow}
    (h : eventRow n id now a = .ok row) (hn : row.chunksDigest ≠ .null) :
    ∃ digest, row.chunksDigest = .text digest ∧ Encodable digest := by
  have hb := (eventRow_total.mp ⟨row,h⟩).2.2.chunksDigest
  rw [(eventRow_ok h).2.2.2.2.1] at hn ⊢
  cases ha : a.chunksDigest with
  | none => rw [ha] at hn; exact absurd rfl hn
  | some digest => exact ⟨digest,rfl,hb digest ha⟩

lemma LogsChange.recorded {db' : Db} (h : LogsChange db db')
    (hr : ∀ q ∈ db.deliveryEvents, q.event = intentCell →
      ∃ digest, q.chunksDigest = .text digest ∧ Encodable digest) :
    ∀ q ∈ db'.deliveryEvents, q.event = intentCell →
      ∃ digest, q.chunksDigest = .text digest ∧ Encodable digest := by
  cases h with
  | none _ he | delivery _ _ he => rw [he]; exact hr
  | event id now a row _ he hrow hp =>
    rw [he]
    refine List.forall_mem_append.mpr ⟨hr,List.forall_mem_singleton.mpr fun hi => ?_⟩
    refine eventRow_digest hrow fun hnull => ?_
    have hbreaks : breaksPayload db row = true := by
      unfold breaksPayload
      rw [hi,hnull]
      simp [intentCell]
    rw [hp] at hbreaks
    cases hbreaks

lemma logKept_new : LogKept H Db.new := ⟨consistent_new,List.forall_mem_nil _,List.forall_mem_nil _⟩

lemma LogKept.step {P : World → PyStr → Transition → Prop} (h : LogKept H w.db)
    (hs : LedgerStep H P w u) : LogKept H u.db :=
  ⟨h.consistent.step hs,hs.logs.bound h.bound,hs.logs.recorded h.recorded⟩

lemma LogKept.run (h : LogKept H w.db) (hr : (anyRules H classes).rely w u) : LogKept H u.db := by
  induction hr with
  | refl => exact h
  | tail _ hs ih =>
    rcases hs with hs | hs
    · cases hs.1 with
      | ledger hs => exact ih.step hs
      | write | remove => exact ih
    · exact hs.db ▸ ih

lemma LogKept.digestRecorded (h : LogKept H db) (id : PyStr) : DigestRecorded db id :=
  fun r hr => h.recorded r (firstIntent_some hr).1 (firstIntent_some hr).2.2

/-- A delivery to a target that could be written can be read. -/
lemma LogKept.getDelivery (h : LogKept H db) {t : TargetValue} {row : DeliveryRow} (hm : row ∈ db.deliveries)
    (hr : row.Records classes id t) :
    ∃ delivery, Stele.getDelivery id db = .ok delivery ∧ delivery.events = logOf db (.text id) := by
  have hid := hr.dispatchId
  obtain ⟨text,htext,hct⟩ := hr.target
  have henc : Encodable id := by
    have := (h.bound row hm).dispatchId
    rwa [hid] at this
  obtain ⟨row',hf⟩ := Option.isSome_iff_exists.mp (List.find?_isSome
    (p := fun d : DeliveryRow => decide (d.dispatchId = .text id)).mpr ⟨row,hm,by simp [hid]⟩)
  have hid' := List.find?_some hf
  rw [decide_eq_true_eq] at hid'
  obtain rfl := h.consistent.delivery_eq hm (List.mem_of_find?_eq_some hf) (by rw [hid,hid'])
  obtain ⟨delivery,hd⟩ : ∃ delivery, Stele.getDelivery id db = .ok delivery := by
    simp only [Stele.getDelivery,bindText,henc,if_true,hf,deliveryOfRow,htext,loadsColumn,
      loads_canonicalText hct,bind,Except.bind]
    exact ⟨_,rfl⟩
  exact ⟨delivery,hd,getDelivery_events hd⟩

end Kept

section Stages

variable {e : Env}

/-- A record that has no row is not found. -/
lemma getRecord_missing (hc : Consistent H db) (hid : Encodable id) {exc : Exc}
    (h : getRecord id db = .error exc) : exc = .recordNotFound id := by
  have hbind : bindText id = .ok (.text id) := if_pos hid
  by_cases hr : ∃ r ∈ db.records, r.recordId = .text id
  · obtain ⟨x,hx⟩ := hc.getRecord hbind hr
    rw [h] at hx
    cases hx
  · have hf : findRecord db id = none := by
      refine List.find?_eq_none.mpr fun r hm => ?_
      simpa using fun he => hr ⟨r,hm,he⟩
    simp only [getRecord,hbind,hf,bind,Except.bind] at h
    exact (Except.error.inj h).symm

/-- The artifact hash of a record is text. -/
lemma getRecord_hash (hc : Consistent H db) {live : ArtifactRecord} (h : getRecord id db = .ok live) :
    ∃ hash, live.artifactHash = .text hash := by
  obtain ⟨_,_,h⟩ := except_bind_ok.mp h
  cases hf : findRecord db id with
  | none => rw [hf] at h; cases h
  | some r =>
    rw [hf] at h
    obtain ⟨x,hx⟩ := hc.holds (List.mem_of_find?_eq_some hf)
    obtain rfl := Except.ok.inj (hx.rowToRecord.symm.trans h)
    exact ⟨_,hx.artifactHash⟩

lemma getRecord_congr {db' : Db} (h : db'.records = db.records) : getRecord id db' = getRecord id db := by
  unfold getRecord findRecord
  rw [h]

lemma read_archiveError {a : Archive} {digest : PyStr} {exc : Exc} (h : a.read H digest = .error exc) :
    exc.isArchiveError = true := by
  unfold Archive.read at h
  split_ifs at h
  · rw [← Except.error.inj h]
    rfl
  · split at h
    · rw [← Except.error.inj h]
      rfl
    · split_ifs at h
      rw [← Except.error.inj h]
      rfl

lemma verifyBlobs_archiveError {a : Archive} {exc : Exc} (digests : List PyVal)
    (h : digests.forM (verifyBlob H a) = .error exc) : exc.isArchiveError = true := by
  induction digests with
  | nil => cases h
  | cons digest digests ih =>
    change (verifyBlob H a digest >>= fun _ => digests.forM (verifyBlob H a)) = .error exc at h
    cases hb : verifyBlob H a digest with
    | ok _ =>
      rw [hb] at h
      exact ih h
    | error exc' =>
      rw [hb] at h
      obtain rfl : exc' = exc := Except.error.inj h
      cases digest with
      | str s => exact read_archiveError (except_map_error hb)
      | _ =>
        rw [← Except.error.inj hb]
        rfl

lemma Manifest.dict_of_pyEq {m : Manifest} {v : PyVal} (h : m.toPy.pyEq v = true) : ∃ kvs, v = .dict kvs := by
  cases v with
  | dict kvs => exact ⟨kvs,rfl⟩
  | _ => simp [Manifest.toPy,PyVal.pyEq] at h

/-- A bundle that does not verify is refused, unless its tree cannot be decoded. -/
lemma verifyBundle_cases {r : ArtifactRecord} {hash : PyStr} (recordId : PyStr) (a : Archive)
    (hh : r.artifactHash = .text hash) :
    (TreeStored H a r → Dispatcher.verifyBundle H r recordId a = .ok () ∨
        Dispatcher.verifyBundle H r recordId a = .error (.dispatchRefused recordId)) ∧
      (¬TreeStored H a r → Dispatcher.verifyBundle H r recordId a = .error .recordFormat) := by
  unfold Dispatcher.verifyBundle
  rw [hh]
  have hstored : TreeStored H a r ↔ ∀ data, a.read H hash = .ok data → ∃ m, decodeTree data = .ok m := by
    simp only [TreeStored,hh,TextCell.text.injEq]
    exact ⟨fun h data => h hash data rfl,fun h x data hx => hx ▸ h data⟩
  simp only [verifyArchivedBundle,Archive.readTree]
  cases hr : a.read H hash with
  | error exc =>
    refine ⟨fun _ => Or.inr ?_,fun h => absurd (hstored.mpr (by simp [hr])) h⟩
    simp [bind,Except.bind,read_archiveError hr]
  | ok data =>
    cases ht : decodeTree data with
    | error exc =>
      obtain rfl := decodeTree_error ht
      refine ⟨fun h => ?_,fun _ => ?_⟩
      · obtain ⟨m,hm⟩ := hstored.mp h data hr
        rw [ht] at hm
        cases hm
      · simp only [bind,Except.bind,ht]
        rfl
    | ok m =>
      refine ⟨fun _ => ?_,fun h => absurd (hstored.mpr fun _ hd => ?_) h⟩
      · simp only [bind,Except.bind,ht]
        by_cases he : m.toPy.pyEq r.artifactManifest = true
        · obtain ⟨kvs,hkvs⟩ := Manifest.dict_of_pyEq he
          rw [if_neg (by simp [he]),hkvs,manifestDigests]
          simp only
          cases hv : (kvs.map Prod.snd).forM (verifyBlob H a) with
          | ok _ => exact Or.inl rfl
          | error exc => exact Or.inr (by simp [verifyBlobs_archiveError _ hv])
        · rw [if_pos (Bool.eq_false_iff.mpr he)]
          exact Or.inr (by simp)
      · exact ⟨m,Except.ok.inj (hr.symm.trans hd) ▸ ht⟩

end Stages

section Opening

variable {row : DeliveryRow}

/-- What opening the delivery leaves. -/
structure Opened (H : Hasher) (classes : ℕ → TargetClass) (c : DispatchArgs) (w u : World) (id : PyStr) :
    Prop where
  kept : LogKept H u.db
  adds : Adds w u [] []
  room : u.db.events.length ≤ w.db.events.length+1
  row : Recorded classes u.db id c.target
  /-- It was there, or nothing had been logged of it. -/
  found : u = w ∨ (∀ q ∈ w.db.deliveryEvents, q.dispatchId ≠ .text id) ∧ ¬Delivered w.db id

lemma findDispatchId_cases (recordId kind encoded : PyStr) (hk : LogKept H db) :
    (∃ row ∈ db.deliveries, ∃ id, row.dispatchId = .text id ∧ row.recordId = .text recordId ∧
      row.targetKind = .text kind ∧ row.target = .text encoded ∧
      findDispatchId recordId kind encoded db = .ok id) ∨
    (∀ row ∈ db.deliveries, ¬(row.recordId = .text recordId ∧ row.targetKind = .text kind ∧
      row.target = .text encoded)) ∧ findDispatchId recordId kind encoded db = .error .typeError := by
  unfold findDispatchId
  cases hf : db.deliveries.find? fun d => decide (d.recordId = .text recordId) &&
      decide (d.targetKind = .text kind) && decide (d.target = .text encoded) with
  | none =>
    refine Or.inr ⟨fun row hm hrow => ?_,rfl⟩
    exact List.find?_eq_none.mp hf row hm (by simp [hrow])
  | some row =>
    have hm := List.mem_of_find?_eq_some hf
    obtain ⟨id,hid⟩ := hk.consistent.keys.deliveries.2 _ (List.mem_map_of_mem hm)
    have hrow := List.find?_some hf
    simp only [Bool.and_eq_true,decide_eq_true_eq] at hrow
    obtain ⟨i,r,k,t,at'⟩ := row
    obtain rfl : i = .text id := hid
    exact Or.inl ⟨_,hm,id,rfl,hrow.1.1,hrow.1.2,hrow.2,rfl⟩

/-- A delivery that nothing has been logged of is not delivered. -/
lemma not_delivered_of_empty (h : ∀ q ∈ db.deliveryEvents, q.dispatchId ≠ .text id) : ¬Delivered db id := by
  rintro ⟨delivery,hd,hs⟩
  have hlog : delivery.events = [] := by
    rw [getDelivery_events hd]
    refine List.filterMap_eq_nil_iff.mpr fun r hr => ?_
    obtain ⟨hm,hid⟩ := mem_eventsOf.mp hr
    exact absurd hid (h r hm)
  rw [Delivery.status,hlog] at hs
  cases hs

lemma deliveryBody_writable {recordId kind encoded : PyStr} (hrec : Encodable recordId)
    (hkind : Encodable kind) (henc : Encodable encoded) : Writable (deliveryBody recordId kind encoded) := by
  rw [deliveryBody,writable_keys (by simp)]
  simp [writable_str_iff,hrec,hkind,henc]

/-- open_delivery finds the delivery, or opens it. -/
lemma openTx_cases {e : Env} {recordId kind encoded : PyStr} (hk : LogKept H db) (he : e.Textual)
    (hrec : Encodable recordId) (hkind : Encodable kind) (henc : Encodable encoded)
    (hrow : ∃ r ∈ db.records, r.recordId = .text recordId)
    (hnew : ∀ row ∈ db.deliveries, row.dispatchId ≠ .text e.uuid) (ha : Appendable db.events)
    (hf : FreshHash H db.events (lit "delivery.opened") e.uuid (deliveryBody recordId kind encoded) e.at') :
    (∃ id, findDispatchId recordId kind encoded db = .ok id ∧
      openTx H e recordId kind encoded db = .ok ((),db)) ∨
    ∃ db' row, findDispatchId recordId kind encoded db = .error .typeError ∧
      openTx H e recordId kind encoded db = .ok ((),db') ∧ db'.deliveries = db.deliveries++[row] ∧
      row.dispatchId = .text e.uuid ∧ row.targetKind = .text kind ∧ row.target = .text encoded ∧
      db'.records = db.records ∧ db'.deliveryEvents = db.deliveryEvents ∧
      db'.events.length = db.events.length+1 ∧ findDispatchId recordId kind encoded db' = .ok e.uuid := by
  have hb : ∀ s : PyStr, Encodable s → bindText s = .ok (.text s) := fun s hs => if_pos hs
  rcases findDispatchId_cases recordId kind encoded hk with
    ⟨row,hm,id,-,h1,h2,h3,hfind⟩ | ⟨hnone,hfind⟩
  · have hany : (db.deliveries.any fun d => decide (d.dispatchId = .text e.uuid) ||
        (decide (d.recordId = .text recordId) && decide (d.targetKind = .text kind) &&
          decide (d.target = .text encoded))) = true := List.any_eq_true.mpr ⟨row,hm,by simp [h1,h2,h3]⟩
    refine Or.inl ⟨id,hfind,?_⟩
    simp only [openTx,hb _ he.uuid,hb _ he.now,hb _ hrec,hb _ hkind,hb _ henc,insertDelivery,hany,
      if_true,bind,Except.bind]
    rfl
  · let row : DeliveryRow := ⟨.text e.uuid,.text recordId,.text kind,.text encoded,.text e.now⟩
    have hany : (db.deliveries.any fun d => decide (d.dispatchId = .text e.uuid) ||
        (decide (d.recordId = .text recordId) && decide (d.targetKind = .text kind) &&
          decide (d.target = .text encoded))) = false := by
      refine List.any_eq_false.mpr fun d hd => ?_
      have h1 := hnew d hd
      have h2 := hnone d hd
      simp only [Bool.or_eq_true,Bool.and_eq_true,decide_eq_true_eq]
      rintro (h | h)
      · exact h1 h
      · exact h2 ⟨h.1.1,h.1.2,h.2⟩
    have hrecord : (db.records.any fun q => decide (q.recordId = .text recordId)) = true := by
      obtain ⟨r,hr,hid⟩ := hrow
      exact List.any_eq_true.mpr ⟨r,hr,by simp [hid]⟩
    have hlog : Appendable ({db with deliveries := db.deliveries++[row]} : Db).events := ha
    obtain ⟨ev,db',hev⟩ := appendEvent_total hlog (encodable_lit _) he.uuid
      (deliveryBody_writable hrec hkind henc) he.at' hf
    obtain ⟨q,rfl,-⟩ := appendEvent_logs hev
    refine Or.inr ⟨{db with deliveries := db.deliveries++[row], events := db.events++[q]},row,hfind,?_,
      rfl,rfl,rfl,rfl,rfl,rfl,by simp,?_⟩
    · simp only [openTx,hb _ he.uuid,hb _ he.now,hb _ hrec,hb _ hkind,hb _ henc,insertDelivery,hany,
        hrecord,Bool.true_eq_false,Bool.false_eq_true,if_true,if_false,bind,Except.bind]
      rw [hev]
      rfl
    · have hfirst : (db.deliveries.find? fun d => decide (d.recordId = .text recordId) &&
          decide (d.targetKind = .text kind) && decide (d.target = .text encoded)) = none := by
        refine List.find?_eq_none.mpr fun d hd => ?_
        simpa [and_assoc] using hnone d hd
      rw [findDispatchId,List.find?_append,hfirst]
      simp [row]

/-- open_delivery of a target that can be written. -/
lemma openDelivery_exec {encoded : PyStr}
    (henc : canonicalText ((classes c.target.cls).asdict c.target.values) = .ok encoded) :
    (DeliveryLog.openDelivery H c.opening c.recordId (some (c.target.toTarget classes))).exec w =
      match openTx H c.opening c.recordId (classes c.target.cls).name encoded w.db with
      | .ok (_,db) => (findDispatchId c.recordId (classes c.target.cls).name encoded db,{w with db := db})
      | .error exc => (.error exc,w) := by
  have hlift : encodeTarget (some (c.target.toTarget classes)) =
      .ok ((classes c.target.cls).name,encoded) := by
    rw [encodeTarget,TargetValue.toTarget,henc]
    rfl
  rw [DeliveryLog.openDelivery,Op.exec_bind,Op.exec_lift,hlift]
  simp only
  rw [Op.exec_bind,Op.exec_transaction,writeTransaction]
  cases openTx H c.opening c.recordId (classes c.target.cls).name encoded w.db <;> rfl

lemma openDelivery_opened (hk : LogKept H w.db) (hav : DispatchAvailable H classes d c w)
    (hrec : Encodable c.recordId) (hrow : ∃ r ∈ w.db.records, r.recordId = .text c.recordId)
    (hkind : Encodable (classes c.target.cls).name) {encoded : PyStr}
    (henc : canonicalText ((classes c.target.cls).asdict c.target.values) = .ok encoded) :
    ∃ u, (DeliveryLog.openDelivery H c.opening c.recordId (some (c.target.toTarget classes))).exec w =
        (.ok (dispatchIdOf classes c w.db),u) ∧ Opened H classes c w u (dispatchIdOf classes c w.db) := by
  have hroom := hav.room
  have happ := hk.consistent.chained.appendable (by omega)
  rw [openDelivery_exec henc]
  rcases openTx_cases hk hav.opening hrec hkind (canonicalText_ok.mp henc).2 hrow hav.newDelivery happ
    (hav.opens encoded henc) with ⟨id,hfind,htx⟩ | ⟨db',row,hnone,htx,hd,h1,h2,h3,hr,he,hl,hfind⟩
  · have hid : dispatchIdOf classes c w.db = id := by
      rw [dispatchIdOf,henc]
      simp only [hfind]
      rfl
    rcases findDispatchId_cases c.recordId (classes c.target.cls).name encoded hk with
      ⟨row,hm,id',hid',-,h2,h3,hfind'⟩ | ⟨-,hfind'⟩
    · obtain rfl := Except.ok.inj (hfind.symm.trans hfind')
      rw [htx,hid]
      exact ⟨w,by simp only [hfind],hk,⟨rfl,by simp,by simp⟩,Nat.le_succ _,
        ⟨row,hm,hid',h2,encoded,h3,henc⟩,Or.inl rfl⟩
    · rw [hfind] at hfind'
      cases hfind'
  · have hid : dispatchIdOf classes c w.db = c.opening.uuid := by
      rw [dispatchIdOf,henc]
      simp only [hnone]
      rfl
    rw [htx,hid]
    refine ⟨{w with db := db'},by simp only [hfind],?_,⟨hr,by simp [he],by simp⟩,hl.le,?_,Or.inr ⟨hav.newLog,?_⟩⟩
    · exact hk.step (P := AnyTransition) (.opened htx)
    · exact ⟨row,by simp [hd],h1,h2,encoded,h3,henc⟩
    · exact not_delivered_of_empty hav.newLog

/-- A target that cannot be stored. -/
lemma openDelivery_fails (he : c.opening.Textual) (hrec : Encodable c.recordId)
    (h : ¬(Encodable (classes c.target.cls).name ∧
      Writable ((classes c.target.cls).asdict c.target.values))) : ∃ exc,
    (DeliveryLog.openDelivery H c.opening c.recordId (some (c.target.toTarget classes))).exec w =
      (.error exc,w) ∧ exc.isBuiltin = true := by
  cases henc : canonicalText ((classes c.target.cls).asdict c.target.values) with
  | error exc =>
    have hlift : encodeTarget (some (c.target.toTarget classes)) = .error exc := by
      rw [encodeTarget,TargetValue.toTarget,henc]
      rfl
    refine ⟨exc,?_,canonicalText_builtin henc⟩
    rw [DeliveryLog.openDelivery,Op.exec_bind,Op.exec_lift,hlift]
  | ok encoded =>
    have hkind : ¬Encodable (classes c.target.cls).name := fun hk => h ⟨hk,encoded,henc⟩
    refine ⟨.unicodeEncodeError,?_,rfl⟩
    rw [openDelivery_exec henc]
    simp only [openTx,bindText,he.uuid,hrec,hkind,if_true,if_false,bind,Except.bind]

lemma Opened.delivered (h : Opened H classes c w u id) : Delivered u.db id ↔ Delivered w.db id := by
  rcases h.found with rfl | ⟨hq,hn⟩
  · exact Iff.rfl
  · have he : u.db.deliveryEvents = w.db.deliveryEvents := by rw [h.adds.events,List.append_nil]
    exact iff_of_false (not_delivered_of_empty (he ▸ hq)) hn

lemma firstIntent_congr {db' : Db} (h : db'.deliveryEvents = db.deliveryEvents) (id : PyStr) :
    firstIntent db' id = firstIntent db id := by
  unfold firstIntent eventsOf
  rw [h]

lemma onePayload_congr {db' : Db} (h : db'.deliveryEvents = db.deliveryEvents) (id : PyStr)
    (chunks : List SteleChunk) : OnePayload H db' id chunks ↔ OnePayload H db id chunks := by
  unfold OnePayload IsIntentOf
  rw [firstIntent_congr h,h]

/-- A payload can only conflict with that of an intent, so the delivery was there. -/
lemma Opened.conflict {chunks : List SteleChunk} (h : Opened H classes c w u id)
    (hp : ¬OnePayload H w.db id chunks) : u = w := by
  refine h.found.resolve_right fun hnew => hp fun r hr => ?_
  obtain ⟨hm,hid,-⟩ := firstIntent_some hr
  exact absurd hid (hnew.1 r hm)

end Opening

section Attempts

variable {e : Env} {a : EventArgs} {v : World} {chunks : List SteleChunk} {writer : ℕ}

/-- The call has logged one event of the delivery. -/
structure Logged1 (H : Hasher) (e : Env) (id : PyStr) (a : EventArgs) (u v : World)
    (row : DeliveryEventRow) : Prop where
  kept : LogKept H v.db
  adds : Adds u v [row] []
  deliveries : v.db.deliveries = u.db.deliveries
  room : v.db.events.length = u.db.events.length+1
  args : ∃ n, eventRow n id e.now a = .ok row

lemma append_exec : (DeliveryLog.append H e id a).exec u = match insertTx H e id a u.db with
    | .ok (_,db) => (.ok (),{u with db := db})
    | .error exc => (.error (if exc.isIntegrityError then .valueError else exc),u) := by
  rw [DeliveryLog.append,Op.exec_transaction,writeTransaction,Tx.onIntegrity]
  cases insertTx H e id a u.db <;> rfl

lemma insertTx_logged {db : Db} (hk : LogKept H u.db) (h : insertTx H e id a u.db = .ok ((),db)) :
    ∃ row, Logged1 H e id a u {u with db := db} row := by
  have hstep : LedgerStep H AnyTransition u {u with db := db} := .event h
  obtain ⟨row,ev,hrow,rfl,-⟩ := insertTx_ok h
  exact ⟨row,hk.step hstep,⟨rfl,rfl,by simp⟩,rfl,by simp,_,hrow⟩

/-- An event that can be bound is logged, if it is no intent. -/
lemma append_logged (hk : LogKept H u.db) (he : e.Textual) (hid : Encodable id) (ha : a.Bindable)
    (k : DeliveryEventKind) (hkind : a.event = k.value) (hne : k ≠ .intent)
    (hopen : ∃ d ∈ u.db.deliveries, d.dispatchId = .text id) (hroom : u.db.events.length+1 < 2^63)
    (hf : FreshHash H u.db.events (lit "delivery.event") id a.body e.at') :
    ∃ row v, (DeliveryLog.append H e id a).exec u = (.ok (),v) ∧ Logged1 H e id a u v row := by
  have happ := hk.consistent.chained.appendable hroom
  obtain ⟨row,hrow⟩ := eventRow_total.mpr ⟨hid,he.now,ha⟩
  have hevent : row.event ≠ .text DeliveryEventKind.intent.value := by
    rw [(eventRow_ok hrow).2.2.1,hkind]
    cases k with
    | intent => exact absurd rfl hne
    | _ => decide
  have hbreaks : breaksPayload u.db row = false := by simp [breaksPayload,hevent]
  have hmem : a.event ∈ eventKinds.map DeliveryEventKind.value := by
    rw [hkind]
    exact List.mem_map_of_mem (by cases k <;> decide)
  obtain ⟨db,hdb⟩ := insertTx_total happ hrow hmem hopen hbreaks he.at' hf
  obtain ⟨row',hlogged⟩ := insertTx_logged hk hdb
  exact ⟨row',{u with db := db},by rw [append_exec,hdb],hlogged⟩

lemma bindText_builtin {s : PyStr} {exc : Exc} (h : bindText s = .error exc) : exc.isBuiltin = true := by
  unfold bindText at h
  split_ifs at h
  rw [← Except.error.inj h]
  rfl

lemma except_bind_error {α β : Type} {x : Except Exc α} {f : α → Except Exc β} {exc : Exc}
    (h : (x >>= f) = .error exc) : x = .error exc ∨ ∃ a, x = .ok a ∧ f a = .error exc := by
  cases x with
  | error e => exact Or.inl (congrArg _ (Except.error.inj h))
  | ok a => exact Or.inr ⟨a,rfl,h⟩

lemma bindOption_builtin {s : Option PyStr} {exc : Exc} (h : bindOption s = .error exc) :
    exc.isBuiltin = true := by
  cases s with
  | none => cases h
  | some s => exact bindText_builtin h

lemma bindOptionInt_builtin {i : Option PyInt} {exc : Exc} (h : bindOptionInt i = .error exc) :
    exc.isBuiltin = true := by
  cases i with
  | none => cases h
  | some i =>
    rw [bindOptionInt,bindInt] at h
    split_ifs at h
    rw [← Except.error.inj h]
    rfl

lemma eventRow_builtin {n : ℤ} {now : PyStr} {exc : Exc} (h : eventRow n id now a = .error exc) :
    exc.isBuiltin = true := by
  rcases except_bind_error h with h | ⟨_,_,h⟩
  · exact bindText_builtin h
  rcases except_bind_error h with h | ⟨_,_,h⟩
  · exact bindText_builtin h
  rcases except_bind_error h with h | ⟨_,_,h⟩
  · exact bindOptionInt_builtin h
  rcases except_bind_error h with h | ⟨_,_,h⟩
  · exact bindOption_builtin h
  rcases except_bind_error h with h | ⟨_,_,h⟩
  · exact bindOptionInt_builtin h
  rcases except_bind_error h with h | ⟨_,_,h⟩
  · exact bindOption_builtin h
  rcases except_bind_error h with h | ⟨_,_,h⟩
  · exact bindText_builtin h
  rcases except_bind_error h with h | ⟨_,_,h⟩
  · exact bindOption_builtin h
  · cases h

/-- An event that cannot be bound is not logged, and what sqlite3 raises is not caught. -/
lemma append_unbindable (e : Env) (id : PyStr) (u : World) (ha : ¬a.Bindable) : ∃ exc,
    (DeliveryLog.append H e id a).exec u = (.error exc,u) ∧ exc.isBuiltin = true := by
  cases hrow : eventRow (nextEventId u.db) id e.now a with
  | ok row => exact absurd (eventRow_total.mp ⟨row,hrow⟩).2.2 ha
  | error exc =>
    have hb := eventRow_builtin hrow
    have hi : exc.isIntegrityError = false := by cases exc <;> first | rfl | cases hb
    have htx : insertTx H e id a u.db = .error exc := by
      rw [insertTx,hrow]
      rfl
    exact ⟨exc,by rw [append_exec,htx]; simp [hi],hb⟩

lemma Logged1.recorded {t : TargetValue} {row : DeliveryEventRow} (h : Logged1 H e id a u v row)
    (hr : Recorded classes u.db id t) : Recorded classes v.db id t := by
  obtain ⟨row,hm,hrow⟩ := hr
  exact ⟨row,h.deliveries ▸ hm,hrow⟩

lemma conclusion_bindable {attemptId : PyStr} (hn : chunks.length < 2^63) (ha : Encodable attemptId) :
    (Dispatcher.conclusionArgs chunks attemptId c.write).Bindable ↔ c.write.Storable := by
  cases c.write with
  | wrote =>
    refine iff_of_true ⟨encodable_lit _,nofun,nofun,?_,nofun,?_⟩ trivial
    · rintro _ ⟨⟩
      change -(2^63) ≤ (chunks.length : ℤ) ∧ (chunks.length : ℤ) < 2^63
      omega
    · rintro _ ⟨⟩
      exact ha
  | landedSome done text =>
    refine ⟨fun h => ⟨h.done done rfl,h.error text rfl⟩,fun h => ⟨encodable_lit _,nofun,nofun,?_,?_,?_⟩⟩
    · rintro _ ⟨⟩
      exact h.1
    · rintro _ ⟨⟩
      exact h.2
    · rintro _ ⟨⟩
      exact ha
  | raised text =>
    refine ⟨fun h => h.error text rfl,fun h => ⟨encodable_lit _,nofun,nofun,nofun,?_,?_⟩⟩
    · rintro _ ⟨⟩
      exact h
    · rintro _ ⟨⟩
      exact ha

lemma exec_map {α β : Type} (f : α → β) (p : Op α) :
    (f <$> p).exec u = ((p.exec u).1.map f,(p.exec u).2) := by
  change (p >>= fun a => pure (f a)).exec u = _
  rw [Op.exec_bind]
  rcases p.exec u with ⟨r,v⟩
  cases r <;> rfl

/-- The handler around append_intent turns a conflict into a result, and nothing else. -/
lemma handled_exec : (Op.handle (Except.ok <$> DeliveryLog.appendIntent H e id chunks)
      Dispatcher.isPayloadConflict fun exc => return .error exc).exec u =
    match (DeliveryLog.appendIntent H e id chunks).exec u with
    | (.ok attemptId,v) => (.ok (.ok attemptId),v)
    | (.error exc,v) =>
      if Dispatcher.isPayloadConflict exc then (.ok (.error exc),v) else (.error exc,v) := by
  rw [Op.exec_handle,exec_map]
  rcases (DeliveryLog.appendIntent H e id chunks).exec u with ⟨r,v⟩
  cases r <;> rfl

variable (classes d writer)

/-- The chunks cannot be compared with the payload: the exception leaves dispatch. -/
lemma attempt_fails (hid : Encodable id) (hc : ¬Comparable H chunks (firstIntent u.db id)) : ∃ exc,
    (d.attempt H classes c id chunks writer).exec u = (.error exc,u) ∧ exc.isBuiltin = true := by
  obtain ⟨exc,hexec,hb⟩ := appendIntent_fails (H := H) (e := c.attempt) (w := u) hid hc
  have hp : Dispatcher.isPayloadConflict exc = false := by cases exc <;> first | rfl | cases hb
  refine ⟨exc,?_,hb⟩
  rw [Dispatcher.attempt,Op.exec_bind,handled_exec,hexec]
  simp [hp]

variable {live : ArtifactRecord}

/-- They are another payload. -/
lemma attempt_conflict (hk : LogKept H u.db) (he : c.attempt.Textual) (hid : Encodable id)
    (hrec : Recorded classes u.db id c.target) (hc : Comparable H chunks (firstIntent u.db id))
    (hn : chunks.length < 2^63) (h : ¬OnePayload H u.db id chunks) :
    ∃ r, (d.attempt H classes c id chunks writer).exec u = (.ok r,u) := by
  obtain ⟨row,hm,hrow⟩ := hrec
  obtain ⟨delivery,hd,-⟩ := hk.getDelivery hm hrow
  refine ⟨refusedResult delivery c.target (c.repr (.payloadConflict id)),?_⟩
  rw [Dispatcher.attempt,Op.exec_bind,handled_exec,
    appendIntent_refused he hid (hk.digestRecorded id) hc hn h]
  simp only [Dispatcher.isPayloadConflict,if_true]
  rw [Op.exec_bind,Op.exec_query,hd]
  rfl

/-- They are the payload: the intent is logged and the writer is called. -/
lemma attempt_writes (hk : LogKept H u.db) (he : c.attempt.Textual) (hid : Encodable id)
    (hrec : Recorded classes u.db id c.target) (hroom : u.db.events.length+1 < 2^63)
    (hc : Comparable H chunks (firstIntent u.db id)) (hn : chunks.length < 2^63)
    (hf : ∀ digest, intentDigest H id chunks (firstIntent u.db id) = .ok digest →
      FreshHash H u.db.events (lit "delivery.event") id (intentArgs chunks digest c.attempt.uuid).body
        c.attempt.at')
    (h : OnePayload H u.db id chunks) : ∃ digest intent v,
    (DeliveryLog.appendIntent H c.attempt id chunks).exec u = (.ok c.attempt.uuid,v) ∧
      Logged1 H c.attempt id (intentArgs chunks digest c.attempt.uuid) u v intent := by
  have happ := hk.consistent.chained.appendable hroom
  obtain ⟨row,hm,hrow⟩ := hrec
  obtain ⟨intent,ev,hexec,-⟩ := appendIntent_accepted he hid happ ⟨row,hm,hrow.dispatchId⟩
    (hk.digestRecorded id) hc hn hf h
  rw [appendIntent_exec] at hexec ⊢
  cases htx : intentTx H c.attempt id chunks u.db with
  | error exc => rw [htx] at hexec; cases (Prod.mk.inj hexec).1
  | ok p =>
    obtain ⟨digest,-,hi⟩ := intentTx_ok htx
    obtain ⟨intent,hlogged⟩ := insertTx_logged hk hi
    exact ⟨digest,intent,_,rfl,hlogged⟩

/-- The world in which the writer has been called. -/
def World.written (v : World) (x : Write) : World := {v with writes := v.writes++[x]}

/-- The rest of the attempt, after its intent. -/
lemma attempt_exec {attemptId : PyStr}
    (h : (DeliveryLog.appendIntent H c.attempt id chunks).exec u = (.ok attemptId,v)) :
    (d.attempt H classes c id chunks writer).exec u =
      (DeliveryLog.append H c.conclusion id (Dispatcher.conclusionArgs chunks attemptId c.write) >>= fun _ => do
        if (← Op.query (getRecord c.recordId)).state = .invalidated then
          let _ ← d.retract H classes c.removals c.recordId
        return dispatchResult (← Op.query (getDelivery id)) c.target false).exec
          (v.written ⟨writer,id,c.target,chunks⟩) := by
  rw [Dispatcher.attempt,Op.exec_bind,handled_exec,h]
  simp only
  rw [Op.exec_bind]
  rfl

/-- The outcome cannot be stored: the exception leaves dispatch, after the write. -/
lemma attempt_unstorable {attemptId : PyStr}
    (h : (DeliveryLog.appendIntent H c.attempt id chunks).exec u = (.ok attemptId,v))
    (ha : ¬(Dispatcher.conclusionArgs chunks attemptId c.write).Bindable) : ∃ exc v',
    (d.attempt H classes c id chunks writer).exec u = (.error exc,v') ∧ exc.isBuiltin = true := by
  obtain ⟨exc,hexec,hb⟩ := append_unbindable (H := H) c.conclusion id
    (v.written ⟨writer,id,c.target,chunks⟩) ha
  exact ⟨exc,_,by rw [attempt_exec classes d writer h,Op.exec_bind,hexec],hb⟩

lemma conclusionArgs_event (c : DispatchArgs) (chunks : List SteleChunk) (attemptId : PyStr) :
    ∃ k : DeliveryEventKind, (Dispatcher.conclusionArgs chunks attemptId c.write).event = k.value ∧
      (k = .receipt ∨ k = .failure) ∧
      (Dispatcher.conclusionArgs chunks attemptId c.write).attemptId = some attemptId := by
  cases c.write with
  | wrote => exact ⟨.receipt,rfl,Or.inl rfl,rfl⟩
  | landedSome | raised => exact ⟨.failure,rfl,Or.inr rfl,rfl⟩

/-- The attempt is concluded, and the result is read. -/
lemma attempt_concluded {digest : PyStr} {intent : DeliveryEventRow}
    (hrec : Recorded classes u.db id c.target) (he : c.conclusion.Textual) (hid : Encodable id)
    (hroom : u.db.events.length+2 < 2^63) (hlive : getRecord c.recordId u.db = .ok live)
    (hs : live.state = .sealed)
    (h : (DeliveryLog.appendIntent H c.attempt id chunks).exec u = (.ok c.attempt.uuid,v))
    (hi : Logged1 H c.attempt id (intentArgs chunks digest c.attempt.uuid) u v intent)
    (ha : (Dispatcher.conclusionArgs chunks c.attempt.uuid c.write).Bindable)
    (hf : FreshHash H v.db.events (lit "delivery.event") id
      (Dispatcher.conclusionArgs chunks c.attempt.uuid c.write).body c.conclusion.at') :
    ∃ r v' outcome, (d.attempt H classes c id chunks writer).exec u = (.ok r,v') ∧
      (∀ row ∈ [intent,outcome], row.dispatchId = .text id ∧ row.attemptId = .text c.attempt.uuid) ∧
      intent.event = intentCell ∧ (outcome.event = receiptCell ∨ outcome.event = failureCell) ∧
      Adds u v' [intent,outcome] [⟨writer,id,c.target,chunks⟩] := by
  obtain ⟨k,hkind,hk',hattempt⟩ := conclusionArgs_event c chunks c.attempt.uuid
  have hne : k ≠ .intent := by rcases hk' with rfl | rfl <;> decide
  obtain ⟨drow,hm,hdrow⟩ := hi.recorded hrec
  have hvroom : v.db.events.length+1 < 2^63 := by rw [hi.room]; omega
  obtain ⟨outcome,v',hexec,ho⟩ := append_logged (u := v.written ⟨writer,id,c.target,chunks⟩) hi.kept he hid ha k
    hkind hne ⟨drow,hm,hdrow.dispatchId⟩ hvroom hf
  obtain ⟨drow',hm',hdrow'⟩ := ho.recorded ⟨drow,hm,hdrow⟩
  obtain ⟨delivery,hd,-⟩ := ho.kept.getDelivery hm' hdrow'
  have hget : getRecord c.recordId v'.db = .ok live :=
    (getRecord_congr (ho.adds.records.trans hi.adds.records)).trans hlive
  obtain ⟨_,hirow⟩ := hi.args
  obtain ⟨_,horow⟩ := ho.args
  refine ⟨dispatchResult delivery c.target false,v',outcome,?_,?_,(eventRow_ok hirow).2.2.1,?_,?_⟩
  · rw [attempt_exec classes d writer h,Op.exec_bind,hexec]
    simp only
    rw [Op.exec_bind,Op.exec_query,hget]
    simp only
    rw [hs,if_neg (by simp)]
    simp only [Op.exec_bind,Op.exec_query,Op.exec_pure,hd]
  · intro row hrow
    simp only [List.mem_cons,List.not_mem_nil,or_false] at hrow
    rcases hrow with rfl | rfl
    · obtain ⟨-,h1,-,-,-,-,-,h2,-⟩ := eventRow_ok hirow
      exact ⟨h1,h2⟩
    · obtain ⟨-,h1,-,-,-,-,-,h2,-⟩ := eventRow_ok horow
      exact ⟨h1,by rw [h2,hattempt]; rfl⟩
  · rw [(eventRow_ok horow).2.2.1,hkind]
    exact hk'.imp (fun h => by rw [h]; rfl) fun h => by rw [h]; rfl
  · refine ⟨ho.adds.records.trans hi.adds.records,?_,?_⟩
    · rw [ho.adds.events]
      change v.db.deliveryEvents++[outcome] = _
      rw [hi.adds.events,List.append_assoc]
      rfl
    · rw [ho.adds.writes]
      change (v.writes++[_])++[] = _
      rw [hi.adds.writes,List.append_nil,List.append_nil]

end Attempts

end Stele
