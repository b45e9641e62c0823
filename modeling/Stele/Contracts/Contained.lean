import Stele.Contracts.DispatchStages

/-! What one call of dispatch comes to, alone: a refusal that leaves the ledger as it is, or a
result and what its attempt has logged. What cannot be stored passes between the handlers. -/
namespace Stele
open Python Interleaving

variable {H : Hasher} {classes : ℕ → TargetClass} {d : Dispatcher} {c : DispatchArgs} {w u : World}

/-- What dispatch raises by intent. -/
def RefusalOf (recordId : PyStr) (exc : Exc) : Prop :=
  exc = .dispatchRefused recordId ∨ exc = .recordNotFound recordId

/-- How a call that contains its failures ends, and what it has added then. -/
inductive Contained (H : Hasher) (classes : ℕ → TargetClass) (d : Dispatcher) (c : DispatchArgs)
    (w : World) : Except Exc DispatchResult → World → Prop
  | refused {exc : Exc} {u : World} (he : RefusalOf c.recordId exc) (hdb : u.db = w.db)
    (hw : u.writes = w.writes) : Contained H classes d c w (.error exc) u
  | delivered {r : DispatchResult} {u : World} (hd : Delivered w.db (dispatchIdOf classes c w.db))
    (hu : Adds w u [] []) : Contained H classes d c w (.ok r) u
  /-- The adapter, the validation or the registry of writers failed. -/
  | unwritten {r : DispatchResult} {u : World} {exc : Exc} {row : DeliveryEventRow}
    (hn : ¬Delivered w.db (dispatchIdOf classes c w.db)) (hp : d.prepare H c = .error exc)
    (hid : row.dispatchId = .text (dispatchIdOf classes c w.db)) (hrow : row.event = failureCell)
    (hdone : row.done = .integer 0) (hu : Adds w u [row] []) : Contained H classes d c w (.ok r) u
  | conflict {r : DispatchResult} {u : World} {chunks : List SteleChunk} {writer : ℕ}
    (hn : ¬Delivered w.db (dispatchIdOf classes c w.db)) (hp : d.prepare H c = .ok (chunks,writer))
    (h : ¬OnePayload H w.db (dispatchIdOf classes c w.db) chunks) (hdb : u.db = w.db)
    (hw : u.writes = w.writes) : Contained H classes d c w (.ok r) u
  | attempted {r : DispatchResult} {u : World} {chunks : List SteleChunk} {writer : ℕ}
    {intent outcome : DeliveryEventRow} {attemptId : PyStr}
    (hn : ¬Delivered w.db (dispatchIdOf classes c w.db)) (hp : d.prepare H c = .ok (chunks,writer))
    (h : OnePayload H w.db (dispatchIdOf classes c w.db) chunks)
    (hid : ∀ row ∈ [intent,outcome], row.dispatchId = .text (dispatchIdOf classes c w.db) ∧
      row.attemptId = .text attemptId) (hi : intent.event = intentCell)
    (ho : outcome.event = receiptCell ∨ outcome.event = failureCell)
    (hu : Adds w u [intent,outcome] [⟨writer,dispatchIdOf classes c w.db,c.target,chunks⟩]) :
    Contained H classes d c w (.ok r) u

/-- What the attempt has to store can be stored. -/
def AttemptStorable (H : Hasher) (d : Dispatcher) (c : DispatchArgs) (db : Db) (id : PyStr) : Prop :=
  match d.prepare H c with
  | .error exc => Encodable (c.repr exc)
  | .ok (chunks,_) => Fingerprintable chunks (firstIntent db id) ∧
      (OnePayload H db id chunks → c.write.Storable)

/-- So can the delivery, and the attempt if there is one. -/
structure DeliveryStorable (H : Hasher) (classes : ℕ → TargetClass) (d : Dispatcher) (c : DispatchArgs)
    (db : Db) : Prop where
  kind : Encodable (classes c.target.cls).name
  target : Writable ((classes c.target.cls).asdict c.target.values)
  attempt : ¬Delivered db (dispatchIdOf classes c db) → AttemptStorable H d c db (dispatchIdOf classes c db)

/-- Where dispatch contains its failures: the text that it asks the record by can be encoded, and of
a sealed record the tree can be decoded and, if the bundle verifies, all can be stored. -/
structure Containable (H : Hasher) (classes : ℕ → TargetClass) (d : Dispatcher) (c : DispatchArgs)
    (w : World) : Prop where
  recordId : Encodable c.recordId
  sealed : ∀ live, getRecord c.recordId w.db = .ok live → live.state = .sealed →
    TreeStored H w.archive live ∧ (Dispatcher.verifyBundle H live c.recordId w.archive = .ok () →
      DeliveryStorable H classes d c w.db)

section Calls

variable {live : ArtifactRecord} {chunks : List SteleChunk} {writer : ℕ}

lemma not_refusal_of_builtin {recordId : PyStr} {exc : Exc} (h : exc.isBuiltin = true) :
    ¬RefusalOf recordId exc := by
  rintro (rfl | rfl) <;> cases h

/-- What dispatch does once the record is sealed and its bundle has verified. -/
def Dispatcher.deliver (H : Hasher) (classes : ℕ → TargetClass) (d : Dispatcher) (c : DispatchArgs)
    (dispatchId : PyStr) : Op DispatchResult := do
  let delivery ← Op.query (getDelivery dispatchId)
  if delivery.status = .delivered then return dispatchResult delivery c.target true
  match d.prepare H c with
  | .error exc =>
    DeliveryLog.appendUnwrittenFailure H c.attempt dispatchId (c.repr exc)
    return dispatchResult (← Op.query (getDelivery dispatchId)) c.target false
  | .ok (chunks,writer) => d.attempt H classes c dispatchId chunks writer

lemma dispatch_exec : (d.dispatch H classes c).exec w = match getRecord c.recordId w.db with
    | .error exc => (.error exc,w)
    | .ok live =>
      if live.state ≠ .sealed then (.error (.dispatchRefused c.recordId),w)
      else match Dispatcher.verifyBundle H live c.recordId w.archive with
        | .error exc => (.error exc,w)
        | .ok () => (DeliveryLog.openDelivery H c.opening c.recordId (some (c.target.toTarget classes)) >>=
            d.deliver H classes c).exec w := by
  unfold Dispatcher.dispatch
  rw [Op.exec_bind,Op.exec_query]
  cases getRecord c.recordId w.db with
  | error exc => rfl
  | ok live =>
    simp only
    split_ifs with hs
    · rfl
    · rw [Op.exec_bind,Op.exec_onArchive]
      cases Dispatcher.verifyBundle H live c.recordId w.archive <;> rfl

lemma not_contained {exc : Exc} (hr : ¬RefusalOf c.recordId exc) :
    ¬Contained H classes d c w (.error exc) u := by
  rintro ⟨he⟩
  exact hr he

lemma prepare_ok (h : d.prepare H c = .ok (chunks,writer)) :
    c.transform = .ok chunks ∧ validateChunks H chunks = .ok () := by
  obtain ⟨cs,ht,h⟩ := except_bind_ok.mp h
  obtain ⟨_,hv,h⟩ := except_bind_ok.mp h
  obtain ⟨_,_,h⟩ := except_bind_ok.mp h
  obtain ⟨rfl,-⟩ := Prod.mk.inj (Except.ok.inj h)
  exact ⟨ht,hv⟩

lemma unwritten_bindable (error : PyStr) {attemptId : PyStr} (ha : Encodable attemptId) :
    EventArgs.Bindable ⟨DeliveryEventKind.failure.value,none,none,some (.int 0),some error,some attemptId⟩ ↔
      Encodable error := by
  refine ⟨fun h => h.error error rfl,fun h => ⟨encodable_lit _,nofun,nofun,?_,?_,?_⟩⟩
  · rintro _ ⟨⟩
    exact ⟨by decide,by decide⟩
  · rintro _ ⟨⟩
    exact h
  · rintro _ ⟨⟩
    exact ha

/-- The delivery of a sealed record with a whole bundle. -/
lemma deliver_contained_iff (hav : DispatchAvailable H classes d c w)
    (hlive : getRecord c.recordId w.db = .ok live) (hs : live.state = .sealed)
    (ho : Opened H classes c w u (dispatchIdOf classes c w.db))
    (hopen : (DeliveryLog.openDelivery H c.opening c.recordId (some (c.target.toTarget classes))).exec w =
      (.ok (dispatchIdOf classes c w.db),u)) :
    Contained H classes d c w ((d.deliver H classes c (dispatchIdOf classes c w.db)).exec u).1
        ((d.deliver H classes c (dispatchIdOf classes c w.db)).exec u).2 ↔
      (¬Delivered w.db (dispatchIdOf classes c w.db) →
        AttemptStorable H d c w.db (dispatchIdOf classes c w.db)) := by
  have hroom := hav.room
  have huroom := ho.room
  obtain ⟨row,hm,hrow⟩ := ho.row
  have hid : Encodable (dispatchIdOf classes c w.db) := by
    have := (ho.kept.bound row hm).dispatchId
    rwa [hrow.dispatchId] at this
  obtain ⟨delivery,hd,-⟩ := ho.kept.getDelivery hm hrow
  have hdel : Delivered w.db (dispatchIdOf classes c w.db) ↔ delivery.status = .delivered := by
    rw [← ho.delivered]
    exact ⟨fun ⟨x,hx,hxs⟩ => Except.ok.inj (hx.symm.trans hd) ▸ hxs,fun h => ⟨delivery,hd,h⟩⟩
  unfold Dispatcher.deliver
  rw [Op.exec_bind,Op.exec_query,hd]
  simp only
  by_cases hdelivered : delivery.status = .delivered
  · rw [if_pos hdelivered]
    exact iff_of_true (.delivered (hdel.mpr hdelivered) ho.adds) fun h => absurd (hdel.mpr hdelivered) h
  rw [if_neg hdelivered]
  have hn : ¬Delivered w.db (dispatchIdOf classes c w.db) := fun h => hdelivered (hdel.mp h)
  simp only [hn,not_false_eq_true,forall_const]
  have hevents : u.db.deliveryEvents = w.db.deliveryEvents := by rw [ho.adds.events,List.append_nil]
  unfold AttemptStorable
  cases hp : d.prepare H c with
  | error exc =>
    have hbind := unwritten_bindable (c.repr exc) hav.attempt.uuid
    simp only
    rw [← hbind]
    by_cases hb : EventArgs.Bindable ⟨DeliveryEventKind.failure.value,none,none,some (.int 0),
        some (c.repr exc),some c.attempt.uuid⟩
    · refine iff_of_true ?_ hb
      obtain ⟨frow,v,hexec,hl⟩ := append_logged ho.kept hav.attempt hid hb .failure rfl (by decide)
        ⟨row,hm,hrow.dispatchId⟩ (by omega) (hav.fails _ u exc hopen hp)
      obtain ⟨row',hm',hrow'⟩ := hl.recorded ⟨row,hm,hrow⟩
      obtain ⟨delivery',hd',-⟩ := hl.kept.getDelivery hm' hrow'
      obtain ⟨_,hargs⟩ := hl.args
      obtain ⟨-,h1,h2,-,-,h3,-⟩ := eventRow_ok hargs
      rw [Op.exec_bind,DeliveryLog.appendUnwrittenFailure,hexec]
      simp only [Op.exec_bind,Op.exec_query,hd',Op.exec_pure]
      refine .unwritten hn hp h1 h2 (bindInt_ok h3) ⟨?_,?_,?_⟩
      · rw [hl.adds.records,ho.adds.records]
      · rw [hl.adds.events,hevents]
      · rw [hl.adds.writes,ho.adds.writes,List.append_nil]
    · refine iff_of_false ?_ hb
      obtain ⟨exc',hexec,hb'⟩ := append_unbindable (H := H) c.attempt
        (dispatchIdOf classes c w.db) u hb
      rw [Op.exec_bind,DeliveryLog.appendUnwrittenFailure,hexec]
      exact not_contained (not_refusal_of_builtin hb')
  | ok p =>
    obtain ⟨chunks,writer⟩ := p
    obtain ⟨ht,hv⟩ := prepare_ok hp
    have hlen := hav.listed chunks ht
    have hone := onePayload_congr (H := H) hevents (dispatchIdOf classes c w.db) chunks
    simp only
    rw [← firstIntent_congr hevents,← comparable_iff hv (ho.kept.digestRecorded _),← hone]
    by_cases hc : Comparable H chunks (firstIntent u.db (dispatchIdOf classes c w.db))
    swap
    · refine iff_of_false ?_ fun h => hc h.1
      obtain ⟨exc,hexec,hb⟩ := attempt_fails (c := c) classes d writer hid hc
      rw [hexec]
      exact not_contained (not_refusal_of_builtin hb)
    by_cases hpay : OnePayload H u.db (dispatchIdOf classes c w.db) chunks
    swap
    · refine iff_of_true ?_ ⟨hc,fun h => absurd h hpay⟩
      obtain ⟨r,hexec⟩ := attempt_conflict classes d writer ho.kept hav.attempt hid
        ⟨row,hm,hrow⟩ hc hlen hpay
      rw [hexec]
      have hwu := ho.conflict (mt hone.mpr hpay)
      exact .conflict hn hp (mt hone.mpr hpay) (by rw [hwu]) (by rw [hwu])
    have hfresh := fun digest => hav.binds _ u chunks writer digest hopen hp
    obtain ⟨digest,intent,v,hexec,hi⟩ := attempt_writes classes ho.kept hav.attempt hid ⟨row,hm,hrow⟩ (by omega) hc hlen
      hfresh hpay
    rw [← conclusion_bindable (c := c) hlen hav.attempt.uuid]
    by_cases ha : (Dispatcher.conclusionArgs chunks c.attempt.uuid c.write).Bindable
    · refine iff_of_true ?_ ⟨hc,fun _ => ha⟩
      have hget : getRecord c.recordId u.db = .ok live := (getRecord_congr ho.adds.records).trans hlive
      obtain ⟨r,v',outcome,hrun,hids,hie,hoe,hadds⟩ := attempt_concluded classes d writer
        ⟨row,hm,hrow⟩ hav.conclusion hid (by omega) hget hs hexec hi ha
        (hav.concludes _ u v chunks writer hopen hp hexec)
      rw [hrun]
      refine .attempted hn hp (hone.mp hpay) hids hie hoe ⟨?_,?_,?_⟩
      · rw [hadds.records,ho.adds.records]
      · rw [hadds.events,hevents]
      · rw [hadds.writes,ho.adds.writes,List.append_nil]
    · refine iff_of_false ?_ fun h => ha (h.2 hpay)
      obtain ⟨exc,v',hrun,hb⟩ := attempt_unstorable classes d writer hexec ha
      rw [hrun]
      exact not_contained (not_refusal_of_builtin hb)

/-- One call of dispatch alone, in any reachable ledger: it contains its failures, as a refusal that
appends nothing or as a result with what its attempt has logged, exactly when what it has to store
can be stored. Otherwise the exception of the encoder or of sqlite3 leaves it. -/
theorem dispatch_contained_iff (H : Hasher) (classes : ℕ → TargetClass) (d : Dispatcher)
    (c : DispatchArgs) (a : Archive) (w : World) (hr : (anyRules H classes).rely (World.new a) w)
    (hav : DispatchAvailable H classes d c w) :
    Contained H classes d c w ((d.dispatch H classes c).exec w).1 ((d.dispatch H classes c).exec w).2 ↔
      Containable H classes d c w := by
  have hk : LogKept H w.db := logKept_new.run hr
  rw [dispatch_exec]
  by_cases hrec : Encodable c.recordId
  swap
  · have hget : getRecord c.recordId w.db = .error .unicodeEncodeError := by
      simp only [getRecord,bindText,hrec,if_false,bind,Except.bind]
    rw [hget]
    exact iff_of_false (not_contained (not_refusal_of_builtin rfl)) fun h => hrec h.recordId
  cases hlive : getRecord c.recordId w.db with
  | error exc =>
    obtain rfl := getRecord_missing hk.consistent hrec hlive
    refine iff_of_true (.refused (Or.inr rfl) rfl rfl) ⟨hrec,fun live hl => ?_⟩
    rw [hlive] at hl
    cases hl
  | ok live =>
    have hsame : ∀ live', getRecord c.recordId w.db = .ok live' → live' = live := fun live' hl =>
      Except.ok.inj (hl.symm.trans hlive)
    simp only
    by_cases hs : live.state = .sealed
    swap
    · rw [if_pos hs]
      exact iff_of_true (.refused (Or.inl rfl) rfl rfl) ⟨hrec,fun live' hl hs' => absurd (hsame live' hl ▸ hs') hs⟩
    rw [if_neg (not_not.mpr hs)]
    obtain ⟨hash,hhash⟩ := getRecord_hash hk.consistent hlive
    obtain ⟨hwhole,hbroken⟩ := verifyBundle_cases (H := H) c.recordId w.archive hhash
    by_cases htree : TreeStored H w.archive live
    swap
    · rw [hbroken htree]
      exact iff_of_false (not_contained (by rintro (h | h) <;> cases h)) fun h => htree (h.sealed live hlive hs).1
    rcases hwhole htree with hv | hv
    swap
    · rw [hv]
      refine iff_of_true (.refused (Or.inl rfl) rfl rfl) ⟨hrec,fun live' hl _ => ?_⟩
      obtain rfl := hsame live' hl
      exact ⟨htree,fun h => by rw [hv] at h; cases h⟩
    rw [hv]
    have hcontainable : Containable H classes d c w ↔ DeliveryStorable H classes d c w.db := by
      refine ⟨fun h => (h.sealed live hlive hs).2 hv,fun h => ⟨hrec,fun live' hl _ => ?_⟩⟩
      obtain rfl := hsame live' hl
      exact ⟨htree,fun _ => h⟩
    rw [hcontainable]
    simp only
    rw [Op.exec_bind]
    by_cases htarget : Encodable (classes c.target.cls).name ∧
        Writable ((classes c.target.cls).asdict c.target.values)
    · obtain ⟨hkind,encoded,henc⟩ := htarget
      have hrow : ∃ r ∈ w.db.records, r.recordId = .text c.recordId := by
        have hstate : stateOrNone w.db c.recordId = some live.state := by rw [stateOrNone,hlive]
        obtain ⟨r,hm,hid,-⟩ := (stateOrNone_iff hk.consistent (if_pos hrec)).mp hstate
        exact ⟨r,hm,hid⟩
      obtain ⟨u,hopen,ho⟩ := openDelivery_opened hk hav hrec hrow hkind henc
      rw [hopen]
      refine (deliver_contained_iff hav hlive hs ho hopen).trans ?_
      exact ⟨fun h => ⟨hkind,⟨encoded,henc⟩,h⟩,fun h => h.attempt⟩
    · obtain ⟨exc,hexec,hb⟩ := openDelivery_fails (H := H) (w := w) hav.opening hrec htarget
      rw [hexec]
      exact iff_of_false (not_contained (not_refusal_of_builtin hb)) fun h => htarget ⟨h.kind,h.target⟩

end Calls

section Samples

/-- Calls that run one after the other lead to a reachable ledger. -/
lemma runCalls_reachable (cs : List DispatcherCall) (w : World) :
    (anyRules H classes).rely w (runCalls H classes d cs w) := by
  induction cs generalizing w with
  | nil => exact (anyRules H classes).refl w
  | cons c cs ih =>
    have hc := (Meets.run (R := anyRules H classes) (fun _ _ hg => relied hg trivial) (fun _ _ => trivial)
      (DispatcherCall.meets (d := d) trivial c w)).1
    exact (anyRules H classes).trans hc (ih _)

/-- A ledger with one sealed record. -/
def sealedWorld : World :=
  runCalls .checksum sampleClasses .empty [.ledger (.createPending sampleEnv samplePending),
    .ledger (.sealRecord (envAt 1) (lit "r1"))] (World.new .empty)

def sampleDispatcher : Dispatcher := Dispatcher.empty.registerTarget 0 0

/-- A dispatch of it that writes these chunks. -/
def dispatchOf (chunks : List SteleChunk) : DispatchArgs :=
  ⟨lit "r1",⟨0,[.str (lit "x")]⟩,envAt 2,envAt 3,envAt 4,.ok chunks,.wrote,fun _ => [],
    fun _ => ⟨envAt 8,envAt 9,.removed none,fun _ => []⟩⟩

/-- Its chunk_id is a lone surrogate, which validate_chunks lets through. -/
def surrogateChunk : SteleChunk := {sampleChunk with chunkId := [0xD800]}

/-- The tree of the record, if it can be read, decodes. -/
def treeReads (w : World) : Bool :=
  match getRecord (lit "r1") w.db with
  | .ok live => match live.artifactHash with
    | .text hash => match w.archive.read .checksum hash with
      | .ok data => (decodeTree data).isOk
      | .error _ => true
    | _ => true
  | .error _ => true

lemma treeReads_decodes {w : World} {live : ArtifactRecord} {hash : PyStr} {data : Bytes} (h : treeReads w = true)
    (hl : getRecord (lit "r1") w.db = .ok live) (hh : live.artifactHash = .text hash)
    (hd : w.archive.read .checksum hash = .ok data) : ∃ m, decodeTree data = .ok m := by
  simp only [treeReads,hl,hh,hd] at h
  cases ht : decodeTree data with
  | ok m => exact ⟨m,rfl⟩
  | error _ =>
    rw [ht] at h
    cases h

/-- A dispatch of the lone surrogate raises; before the other one there is no delivery, and no event has
the hash of one that it appends. -/
lemma sealed_facts :
    (match ((sampleDispatcher.dispatch .checksum sampleClasses (dispatchOf [surrogateChunk])).exec sealedWorld).1 with
      | .error exc => decide (exc = .unicodeEncodeError)
      | .ok _ => false) = true ∧
    treeReads sealedWorld = true ∧ sealedWorld.db.deliveries = [] ∧ sealedWorld.db.deliveryEvents = [] ∧
    sealedWorld.db.events.length = 2 ∧
    (match canonicalText ((sampleClasses 0).asdict [.str (lit "x")]) with
      | .ok encoded => decide (FreshHash .checksum sealedWorld.db.events (lit "delivery.opened") (envAt 2).uuid
          (deliveryBody (lit "r1") (lit "Target") encoded) (lit "t"))
      | .error _ => false) = true ∧
    (match (DeliveryLog.openDelivery .checksum (envAt 2) (lit "r1") (some (TargetValue.toTarget sampleClasses
        ⟨0,[.str (lit "x")]⟩))).exec sealedWorld with
      | (.error _,_) => false
      | (.ok id,u) => (match intentDigest .checksum id [sampleChunk] (firstIntent u.db id) with
          | .ok digest => decide (FreshHash .checksum u.db.events (lit "delivery.event") id
              (intentArgs [sampleChunk] digest (envAt 3).uuid).body (lit "t"))
          | .error _ => false) &&
        (match (DeliveryLog.appendIntent .checksum (envAt 3) id [sampleChunk]).exec u with
          | (.ok _,v) => decide (FreshHash .checksum v.db.events (lit "delivery.event") id
              (Dispatcher.conclusionArgs [sampleChunk] (envAt 3).uuid .wrote).body (lit "t"))
          | (.error _,_) => false)) = true := by decide +kernel

/-- The chunks pass validation, and then the digest of append_intent cannot be computed: the exception
leaves dispatch, with nothing logged of the attempt. -/
theorem dispatch_escapes : (anyRules .checksum sampleClasses).rely (World.new .empty) sealedWorld ∧
    validateChunks .checksum [surrogateChunk] = .ok () ∧
    (∃ u, (sampleDispatcher.dispatch .checksum sampleClasses (dispatchOf [surrogateChunk])).exec sealedWorld =
      (.error .unicodeEncodeError,u)) ∧
    ¬Contained .checksum sampleClasses sampleDispatcher (dispatchOf [surrogateChunk]) sealedWorld
      ((sampleDispatcher.dispatch .checksum sampleClasses (dispatchOf [surrogateChunk])).exec sealedWorld).1
      ((sampleDispatcher.dispatch .checksum sampleClasses (dispatchOf [surrogateChunk])).exec sealedWorld).2 := by
  have hrun := sealed_facts.1
  rcases hx : (sampleDispatcher.dispatch .checksum sampleClasses (dispatchOf [surrogateChunk])).exec
    sealedWorld with ⟨exc | r,u⟩
  all_goals rw [hx] at hrun
  · obtain rfl := of_decide_eq_true hrun
    exact ⟨runCalls_reachable _ _,by decide +kernel,⟨u,rfl⟩,not_contained (not_refusal_of_builtin rfl)⟩
  · cases hrun

lemma sample_prepare : sampleDispatcher.prepare .checksum (dispatchOf [sampleChunk]) = .ok ([sampleChunk],0) := by
  have hv : validateChunks .checksum [sampleChunk] = .ok () := by decide +kernel
  simp only [Dispatcher.prepare,dispatchOf,hv,bind,Except.bind]
  rfl

lemma sample_available :
    DispatchAvailable .checksum sampleClasses sampleDispatcher (dispatchOf [sampleChunk]) sealedWorld := by
  obtain ⟨-,-,hdeliveries,hevents,hlength,hopens,hlogs⟩ := sealed_facts
  refine {
    opening := ⟨by decide,by decide,by decide⟩
    attempt := ⟨by decide,by decide,by decide⟩
    conclusion := ⟨by decide,by decide,by decide⟩
    newDelivery := by rw [hdeliveries]; exact List.forall_mem_nil _
    newLog := by rw [hevents]; exact List.forall_mem_nil _
    listed := fun chunks h => ?_
    room := by rw [hlength]; decide
    opens := fun encoded h => ?_
    fails := fun id u exc _ h => ?_
    binds := fun id u chunks writer digest hopen hp hd => ?_
    concludes := fun id u v chunks writer hopen hp hv => ?_ }
  · obtain rfl := Except.ok.inj h
    decide
  · replace h : canonicalText ((sampleClasses 0).asdict [.str (lit "x")]) = .ok encoded := h
    rw [h] at hopens
    exact of_decide_eq_true hopens
  · rw [sample_prepare] at h
    cases h
  · obtain ⟨rfl,-⟩ := Prod.mk.inj (Except.ok.inj (sample_prepare.symm.trans hp))
    replace hopen : (DeliveryLog.openDelivery .checksum (envAt 2) (lit "r1") (some (TargetValue.toTarget
      sampleClasses ⟨0,[.str (lit "x")]⟩))).exec sealedWorld = (.ok id,u) := hopen
    rw [hopen] at hlogs
    obtain ⟨hbinds,-⟩ := Bool.and_eq_true_iff.mp hlogs
    rw [hd] at hbinds
    exact of_decide_eq_true hbinds
  · obtain ⟨rfl,-⟩ := Prod.mk.inj (Except.ok.inj (sample_prepare.symm.trans hp))
    replace hopen : (DeliveryLog.openDelivery .checksum (envAt 2) (lit "r1") (some (TargetValue.toTarget
      sampleClasses ⟨0,[.str (lit "x")]⟩))).exec sealedWorld = (.ok id,u) := hopen
    rw [hopen] at hlogs
    obtain ⟨-,hconcludes⟩ := Bool.and_eq_true_iff.mp hlogs
    replace hv : (DeliveryLog.appendIntent .checksum (envAt 3) id [sampleChunk]).exec u = (.ok (envAt 3).uuid,v) := hv
    rw [hv] at hconcludes
    exact of_decide_eq_true hconcludes

lemma sample_containable :
    Containable .checksum sampleClasses sampleDispatcher (dispatchOf [sampleChunk]) sealedWorld := by
  obtain ⟨-,htree,-,hevents,-⟩ := sealed_facts
  refine ⟨encodable_lit _,fun live hl _ => ⟨fun hash data hh hd => treeReads_decodes htree hl hh hd,
    fun _ => ⟨encodable_lit _,?_,fun _ => ?_⟩⟩⟩
  · have hw : canonicalText ((sampleClasses 0).asdict [.str (lit "x")]) = .ok (lit "\x7b\"name\":\"x\"\x7d") := by
      decide +kernel
    exact ⟨_,hw⟩
  · have hfirst : ∀ id, firstIntent sealedWorld.db id = none := by
      intro id
      refine firstIntent_none.mpr fun q hq => ?_
      have := hq.1
      rw [hevents] at this
      cases this
    unfold AttemptStorable
    rw [sample_prepare]
    refine ⟨?_,fun _ => trivial⟩
    rw [hfirst]
    intro c hc
    obtain rfl := List.mem_singleton.mp hc
    exact ⟨encodable_lit _,writable_nat (n := 1) (by decide)⟩

theorem dispatch_contained_iff_sealed :
    Contained .checksum sampleClasses sampleDispatcher (dispatchOf [sampleChunk]) sealedWorld
      ((sampleDispatcher.dispatch .checksum sampleClasses (dispatchOf [sampleChunk])).exec sealedWorld).1
      ((sampleDispatcher.dispatch .checksum sampleClasses (dispatchOf [sampleChunk])).exec sealedWorld).2 :=
  (dispatch_contained_iff .checksum sampleClasses sampleDispatcher (dispatchOf [sampleChunk]) .empty sealedWorld
    (runCalls_reachable _ _) sample_available).mpr sample_containable

end Samples

end Stele
