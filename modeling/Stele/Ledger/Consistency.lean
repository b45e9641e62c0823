import Stele.Ledger.Transactions

/-! The ledger stays verifiable: every transaction commits to what it writes, so folding the
chain rebuilds the tables, and verify_ledger finds nothing to report. -/
namespace Stele
open Python Interleaving

variable {H : Hasher}

/-- The row holds some record, and the chain says the same of it. -/
def RecordMatches (H : Hasher) (r : RecordRow) (f : RecordFields) : Prop :=
  ∃ d, r.Holds H d ∧ (r.compared d).Alike f

def DeliveryMatches (r : DeliveryRow) (f : DeliveryFields) : Prop :=
  List.Forall₂ Alike r.fields.values f.values

def ReplayMatches (r : ReplayRow) (f : ReplayFields) : Prop :=
  List.Forall₂ Alike r.fields.values f.values

/-- Every row of the tables is what the chain says, in the order in which it was logged. -/
structure TablesMatch (H : Hasher) (db : Db) (s : Logged) : Prop where
  records : Dict.Sim (RecordMatches H) (Dict.keyed RecordRow.recordId db.records) s.records
  deliveries : Dict.Sim DeliveryMatches (Dict.keyed DeliveryRow.dispatchId db.deliveries) s.deliveries
  deliveryEvents : Dict.Sim (List.Forall₂ (List.Forall₂ Alike)) (actualEvents db.deliveryEvents)
    s.deliveryEvents
  replays : Dict.Sim ReplayMatches (Dict.keyed ReplayRow.replayId db.replays) s.replays

/-- Different keys, all of them text. -/
def TextKeys (ks : List TextCell) : Prop := ks.Nodup ∧ ∀ k ∈ ks, ∃ t, k = .text t

structure WellKeyed (db : Db) : Prop where
  records : TextKeys (db.records.map RecordRow.recordId)
  deliveries : TextKeys (db.deliveries.map DeliveryRow.dispatchId)
  replays : TextKeys (db.replays.map ReplayRow.replayId)
  eventIds : db.deliveryEvents.Pairwise fun a b => a.eventId < b.eventId
  events : ∀ r ∈ db.deliveryEvents, ∃ t, r.dispatchId = .text t

/-- The chain is whole, and the tables hold what it says. -/
structure Consistent (H : Hasher) (db : Db) : Prop where
  chained : Chained H db.events
  logged : ∃ s, replayChain db.events = .ok (s,[]) ∧ TablesMatch H db s
  keys : WellKeyed db

lemma TextKeys.concat {ks : List TextCell} (h : TextKeys ks) {t : PyStr}
    (hn : ∀ k ∈ ks, k ≠ .text t) : TextKeys (ks++[.text t]) := by
  refine ⟨List.nodup_append.mpr ⟨h.1,by simp,fun a ha b hb => ?_⟩,fun k hk => ?_⟩
  · rw [List.mem_singleton.mp hb]
    exact hn a ha
  · rcases List.mem_append.mp hk with hk | hk
    · exact h.2 k hk
    · exact ⟨t,List.mem_singleton.mp hk⟩

lemma Consistent.uniqueIds {db : Db} (h : Consistent H db) : UniqueIds db.records := by
  intro id
  have hc := List.nodup_iff_count_le_one.mp h.keys.records.1 (.text id)
  rw [List.count,List.countP_map] at hc
  refine (List.countP_mono_left fun r _ hr => ?_).trans hc
  simpa using hr

lemma Consistent.holds {db : Db} (h : Consistent H db) {r : RecordRow} (hr : r ∈ db.records) :
    ∃ d, r.Holds H d := by
  obtain ⟨s,_,hs⟩ := h.logged
  obtain ⟨q,_,_,d,hd,_⟩ := forall₂_mem hs.records (List.mem_map_of_mem hr)
  exact ⟨d,hd⟩

section Replay

/-- One more logged event is one more step of the fold. -/
lemma replayChain_logs {events : List EventRow} {s s' : Logged} {r : EventRow} {kind subject : PyStr}
    {body : PyVal} (hc : Chained H events) (hr : replayChain events = .ok (s,[]))
    (hl : r.Logs H events kind subject body)
    (hs : s.apply (.text kind) (.text subject) (canonicalImage body) = (.ok (),s')) :
    replayChain (events++[r]) = .ok (s',[]) := by
  rw [replayChain,replayChainBy,(hl.chained hc).orderBySeq_eq,List.foldlM_append]
  rw [replayChain,replayChainBy,hc.orderBySeq_eq] at hr
  rw [hr]
  have he : replayEventBy loadsColumn (s,[]) r = .ok (s',[]) := by
    simp only [replayEventBy,hl.loads,hl.kind,hl.subject,hs]
  simp only [List.foldlM_cons,List.foldlM_nil,he,bind,Except.bind]
  rfl

variable {db : Db} {e : Env}

/-- create_pending's record and its record.created. -/
lemma Consistent.create {recordId at' : PyStr} {row : Except Exc RecordRow} {db' : Db}
    (h : Consistent H db)
    (hrow : ∀ r, row = .ok r → ∃ d, r.Holds H d ∧ d.recordId = recordId ∧ d.state = .pending)
    (ht : createTx H recordId at' row db = .ok ((),db')) : Consistent H db' := by
  obtain ⟨r,body,ev,hr,hb,rfl,hl,_,hid,_⟩ := createTx_ok ht
  obtain ⟨d,hd,rfl,hstate⟩ := hrow r hr
  obtain rfl := Except.ok.inj (hb.symm.trans hd.body)
  obtain ⟨s,hs,hm⟩ := h.logged
  obtain ⟨f,hf,halike⟩ := hd.logged hstate
  have hnew : ∀ q ∈ db.records, q.recordId ≠ .text d.recordId := by
    have := hid (by simp [hd.recordId])
    rwa [hd.recordId] at this
  have hkey : TextCell.text d.recordId ∉ s.records.keys := by
    rw [← hm.records.keys_eq,Dict.keys_keyed]
    rintro hmem
    obtain ⟨q,hq,hqe⟩ := List.mem_map.mp hmem
    exact hnew q hq hqe
  have hs' : s.apply (.text (lit "record.created")) (.text d.recordId)
      (canonicalImage (.dict (RecordRow.Holds.bodyItems r d))) =
      (.ok (),{s with records := s.records.set (.text d.recordId) f}) := by
    rw [Logged.apply,if_pos (Or.inl rfl),hf]
  refine ⟨hl.chained h.chained,⟨_,replayChain_logs h.chained hs hl hs',?_⟩,?_⟩
  · refine ⟨?_,hm.deliveries,hm.deliveryEvents,hm.replays⟩
    rw [Dict.set_new hkey,Dict.keyed,List.map_append,List.map_singleton,hd.recordId]
    exact hm.records.concat _ ⟨d,hd,halike⟩
  · refine ⟨?_,h.keys.deliveries,h.keys.replays,h.keys.eventIds,h.keys.events⟩
    rw [List.map_append,List.map_singleton,hd.recordId]
    refine h.keys.records.concat fun k hk => ?_
    obtain ⟨q,hq,rfl⟩ := List.mem_map.mp hk
    exact hnew q hq

/-- The state that an event of this kind leaves a record in. -/
lemma IsTransition.recordState {t : Transition} (h : IsTransition t) :
    recordState (.text t.kind) = some t.toState ∧ ¬(TextCell.text t.kind = .text (lit "record.created") ∨
      TextCell.text t.kind = .text (lit "record.imported")) := by
  cases h <;>
    simp [Stele.recordState,sealTransition,failTransition,invalidateTransition]

/-- A transition of a record and its event. -/
lemma Consistent.move {id : PyStr} {t : Transition} {b : Bool} {db' : Db} (h : Consistent H db)
    (ht : IsTransition t) (htx : transitionTx H e id t db = .ok (b,db')) : Consistent H db' := by
  obtain ⟨_,rfl,_⟩ | ⟨_,finalizedAt,error,ev,_,rfl,hl,_⟩ := transitionTx_ok h.uniqueIds htx
  · exact h
  obtain ⟨s,hs,hm⟩ := h.logged
  obtain ⟨hkind,hne⟩ := ht.recordState
  have hs' : s.apply (.text t.kind) (.text id) (canonicalImage t.body) = (.ok (),{s with
      records := s.records.modify (.text id) fun f => {f with state := .str t.toState.value}}) := by
    rw [Logged.apply,if_neg hne,hkind]
  have hids : (db.records.map fun r => r.movedIf id t.toState finalizedAt error).map
      RecordRow.recordId = db.records.map RecordRow.recordId := by
    rw [List.map_map]
    refine List.map_congr_left fun r _ => ?_
    simp only [Function.comp_apply,RecordRow.movedIf]
    split_ifs <;> rfl
  refine ⟨hl.chained h.chained,⟨_,replayChain_logs h.chained hs hl hs',?_⟩,?_⟩
  · refine ⟨?_,hm.deliveries,hm.deliveryEvents,hm.replays⟩
    have hmod := hm.records.modify (.text id)
      (f := fun r => r.moved t.toState finalizedAt error)
      (g := fun f => {f with state := .str t.toState.value}) ?_
    · have hkeyed : Dict.keyed RecordRow.recordId
          (db.records.map fun r => r.movedIf id t.toState finalizedAt error) =
          (Dict.keyed RecordRow.recordId db.records).modify (.text id)
            fun r => r.moved t.toState finalizedAt error := by
        rw [Dict.keyed,Dict.keyed,Dict.modify,List.map_map,List.map_map]
        refine List.map_congr_left fun r _ => ?_
        simp only [Function.comp_apply,RecordRow.movedIf]
        split_ifs <;> rfl
      rw [hkeyed]
      exact hmod
    · rintro r f ⟨d,hd,hf⟩
      refine ⟨{d with state := t.toState},hd.moved _ _ _,?_⟩
      simp only [RecordFields.Alike,RecordFields.items,List.map_cons,List.map_nil,RecordRow.compared,
        List.forall₂_cons,List.Forall₂.nil,and_true] at hf ⊢
      exact ⟨hf.1,hf.2.1,hf.2.2.1,hf.2.2.2.1,hf.2.2.2.2.1,hf.2.2.2.2.2.1,Alike.refl trivial⟩
  · refine ⟨?_,h.keys.deliveries,h.keys.replays,h.keys.eventIds,h.keys.events⟩
    rw [hids]
    exact h.keys.records

/-- open_delivery's row and its delivery.opened. -/
lemma Consistent.opened {recordId kind encoded : PyStr} {db' : Db} (h : Consistent H db)
    (ht : openTx H e recordId kind encoded db = .ok ((),db')) : Consistent H db' := by
  obtain rfl | ⟨at',ev,rfl,hl,hnew,_⟩ := openTx_ok ht
  · exact h
  obtain ⟨s,hs,hm⟩ := h.logged
  have hkey : TextCell.text e.uuid ∉ s.deliveries.keys := by
    rw [← hm.deliveries.keys_eq,Dict.keys_keyed]
    rintro hmem
    obtain ⟨q,hq,hqe⟩ := List.mem_map.mp hmem
    exact (hnew q hq).1 hqe
  have hlogged : loggedDelivery (canonicalImage (deliveryBody recordId kind encoded)) =
      .ok ⟨.str recordId,.str kind,.str encoded⟩ := by
    have hj : ∀ kvs, deliveryBody recordId kind encoded = .dict kvs → StrDict kvs := by
      rintro _ ⟨⟩
      exact ⟨by simp [StrKeys],by simp⟩
    rw [loggedDelivery,deliveryBody,itemAt_image (hj _ rfl) rfl,itemAt_image (hj _ rfl) rfl,
      itemAt_image (hj _ rfl) rfl]
    rfl
  have hs' : s.apply (.text (lit "delivery.opened")) (.text e.uuid)
      (canonicalImage (deliveryBody recordId kind encoded)) = (.ok (),{s with
        deliveries := s.deliveries.set (.text e.uuid) ⟨.str recordId,.str kind,.str encoded⟩}) := by
    simp [Logged.apply,recordState,hlogged]
  refine ⟨hl.chained h.chained,⟨_,replayChain_logs h.chained hs hl hs',?_⟩,?_⟩
  · refine ⟨hm.records,?_,hm.deliveryEvents,hm.replays⟩
    rw [Dict.set_new hkey,Dict.keyed,List.map_append,List.map_singleton]
    exact hm.deliveries.concat _ (.cons (Alike.refl trivial) (.cons (Alike.refl trivial)
      (.cons (Alike.refl trivial) .nil)))
  · refine ⟨h.keys.records,?_,h.keys.replays,h.keys.eventIds,h.keys.events⟩
    rw [List.map_append,List.map_singleton]
    refine h.keys.deliveries.concat fun k hk => ?_
    obtain ⟨q,hq,rfl⟩ := List.mem_map.mp hk
    exact (hnew q hq).1

lemma replayRow_ok {r : ReplayResult} {row : ReplayRow} (h : r.row = .ok row) :
    row.replayId = .text r.replayId ∧ row.recordId = .text r.recordId ∧
      row.outcome = .text r.outcome.value ∧ row.reason = .text r.reason ∧
      row.replayArtifactHash = .ofOption r.replayArtifactHash ∧
      policyCell r.policy = .ok row.policy ∧ row.platform = .text r.platform := by
  obtain ⟨_,h1,h⟩ := except_bind_ok.mp h
  obtain ⟨_,h2,h⟩ := except_bind_ok.mp h
  obtain ⟨_,h3,h⟩ := except_bind_ok.mp h
  obtain ⟨_,_,h⟩ := except_bind_ok.mp h
  obtain ⟨_,h5,h⟩ := except_bind_ok.mp h
  obtain ⟨_,_,h⟩ := except_bind_ok.mp h
  obtain ⟨_,_,h⟩ := except_bind_ok.mp h
  obtain ⟨_,h8,h⟩ := except_bind_ok.mp h
  obtain ⟨_,_,h⟩ := except_bind_ok.mp h
  obtain ⟨_,h10,h⟩ := except_bind_ok.mp h
  obtain ⟨_,_,h⟩ := except_bind_ok.mp h
  obtain rfl := Except.ok.inj h
  exact ⟨bindText_ok h1,bindText_ok h2,rfl,bindText_ok h3,bindOption_ok h5,h8,bindText_ok h10⟩

lemma canonicalImage_optionStr (s : Option PyStr) :
    canonicalImage (optionStrPy s) = optionStrPy s := by cases s <;> rfl

lemma canonicalImage_optionInt (i : Option PyInt) :
    canonicalImage (optionIntPy i) = optionIntPy i := by
  cases i with
  | none => rfl
  | some i => cases i <;> rfl

lemma alike_ofOption (s : Option PyStr) : Alike (TextCell.ofOption s).toPy (optionStrPy s) := by
  cases s <;> exact Alike.refl trivial

lemma alike_bindOptionInt {i : Option PyInt} {c : Cell} (h : bindOptionInt i = .ok c) :
    Alike c.toPy (optionIntPy i) := by
  cases i with
  | none =>
    obtain rfl := Except.ok.inj h
    exact Alike.refl trivial
  | some i =>
    obtain rfl := bindInt_ok h
    cases i with
    | int i => exact Alike.refl trivial
    | bool b => exact alike_bool b

/-- ReplayLog.append's row and its replay.logged. -/
lemma Consistent.replay {r : ReplayResult} {db' : Db} (h : Consistent H db)
    (ht : replayTx H e r db = .ok ((),db')) : Consistent H db' := by
  obtain ⟨row,ev,hrow,rfl,hl,hnew⟩ := replayTx_ok ht
  obtain ⟨hid,hrecord,houtcome,_,hhash,_⟩ := replayRow_ok hrow
  have hnew : ∀ q ∈ db.replays, q.replayId ≠ .text r.replayId := fun q hq => by
    have := hnew q hq (by simp [hid])
    rwa [hid] at this
  obtain ⟨s,hs,hm⟩ := h.logged
  have hkey : TextCell.text r.replayId ∉ s.replays.keys := by
    rw [← hm.replays.keys_eq,Dict.keys_keyed]
    rintro hmem
    obtain ⟨q,hq,hqe⟩ := List.mem_map.mp hmem
    exact hnew q hq hqe
  have hlogged : loggedReplay (canonicalImage r.body) =
      .ok ⟨.str r.recordId,.str r.outcome.value,optionStrPy r.replayArtifactHash⟩ := by
    have hj : ∀ kvs, r.body = .dict kvs → StrDict kvs := by
      rintro _ ⟨⟩
      exact ⟨by simp [StrKeys],by simp⟩
    rw [loggedReplay,ReplayResult.body,itemOr_image (hj _ rfl) rfl,itemOr_image (hj _ rfl) rfl,
      itemOr_image (hj _ rfl) rfl,canonicalImage_optionStr]
    rfl
  have hs' : s.apply (.text (lit "replay.logged")) (.text r.replayId) (canonicalImage r.body) =
      (.ok (),{s with
        replays := s.replays.set (.text r.replayId)
          ⟨.str r.recordId,.str r.outcome.value,optionStrPy r.replayArtifactHash⟩}) := by
    simp [Logged.apply,recordState,hlogged]
  refine ⟨hl.chained h.chained,⟨_,replayChain_logs h.chained hs hl hs',?_⟩,?_⟩
  · refine ⟨hm.records,hm.deliveries,hm.deliveryEvents,?_⟩
    rw [Dict.set_new hkey,Dict.keyed,List.map_append,List.map_singleton,hid]
    refine hm.replays.concat _ ?_
    simp only [ReplayMatches,ReplayRow.fields,ReplayFields.values,hrecord,houtcome,hhash]
    exact .cons (Alike.refl trivial) (.cons (Alike.refl trivial) (.cons (alike_ofOption _) .nil))
  · refine ⟨h.keys.records,h.keys.deliveries,?_,h.keys.eventIds,h.keys.events⟩
    rw [List.map_append,List.map_singleton,hid]
    refine h.keys.replays.concat fun k hk => ?_
    obtain ⟨q,hq,rfl⟩ := List.mem_map.mp hk
    exact hnew q hq

lemma foldl_max_le (xs : List ℤ) (m : ℤ) : m ≤ xs.foldl max m ∧ ∀ x ∈ xs, x ≤ xs.foldl max m := by
  induction xs generalizing m with
  | nil => simp
  | cons x xs ih =>
    obtain ⟨h1,h2⟩ := ih (max m x)
    rw [List.foldl_cons]
    refine ⟨(le_max_left m x).trans h1,fun y hy => ?_⟩
    rcases List.mem_cons.mp hy with rfl | hy
    · exact (le_max_right m y).trans h1
    · exact h2 y hy

lemma lt_nextEventId {r : DeliveryEventRow} (hr : r ∈ db.deliveryEvents) :
    r.eventId < nextEventId db := by
  have := (foldl_max_le (db.deliveryEvents.map DeliveryEventRow.eventId) 0).2 _
    (List.mem_map_of_mem hr)
  unfold nextEventId
  omega

lemma orderByEventId_eq {rows : List DeliveryEventRow}
    (h : rows.Pairwise fun a b => a.eventId < b.eventId) : orderByEventId rows = rows :=
  (h.imp fun hab => le_of_lt hab).insertionSort_eq

lemma eventRow_ok {id : ℤ} {dispatchId now : PyStr} {a : EventArgs} {row : DeliveryEventRow}
    (h : eventRow id dispatchId now a = .ok row) : row.eventId = id ∧
      row.dispatchId = .text dispatchId ∧ row.event = .text a.event ∧
      bindOptionInt a.planned = .ok row.planned ∧ row.chunksDigest = .ofOption a.chunksDigest ∧
      bindOptionInt a.done = .ok row.done ∧ row.error = .ofOption a.error ∧
      row.attemptId = .ofOption a.attemptId ∧ row.at' = .text now := by
  obtain ⟨_,h1,h⟩ := except_bind_ok.mp h
  obtain ⟨_,h2,h⟩ := except_bind_ok.mp h
  obtain ⟨_,h3,h⟩ := except_bind_ok.mp h
  obtain ⟨_,h4,h⟩ := except_bind_ok.mp h
  obtain ⟨_,h5,h⟩ := except_bind_ok.mp h
  obtain ⟨_,h6,h⟩ := except_bind_ok.mp h
  obtain ⟨_,h7,h⟩ := except_bind_ok.mp h
  obtain ⟨_,h8,h⟩ := except_bind_ok.mp h
  obtain rfl := Except.ok.inj h
  exact ⟨rfl,bindText_ok h1,bindText_ok h2,h3,bindOption_ok h4,h5,bindOption_ok h6,
    bindOption_ok h8,bindText_ok h7⟩

lemma eventTuple_body (a : EventArgs) : eventTuple (canonicalImage a.body) =
    .ok [.str a.event,optionIntPy a.planned,optionStrPy a.chunksDigest,optionIntPy a.done,
      optionStrPy a.error,optionStrPy a.attemptId] := by
  have hj : ∀ kvs, a.body = .dict kvs → StrDict kvs := by
    rintro _ ⟨⟩
    exact ⟨by simp [StrKeys],by simp⟩
  rw [eventTuple,EventArgs.body,itemOr_image (hj _ rfl) rfl,itemAt_image (hj _ rfl) rfl,
    itemAt_image (hj _ rfl) rfl,itemAt_image (hj _ rfl) rfl,itemAt_image (hj _ rfl) rfl,
    itemAt_image (hj _ rfl) rfl,canonicalImage_optionStr,canonicalImage_optionStr,
    canonicalImage_optionStr,canonicalImage_optionInt,canonicalImage_optionInt]
  rfl

/-- A delivery event and its delivery.event. -/
lemma Consistent.event {id : PyStr} {a : EventArgs} {db' : Db} (h : Consistent H db)
    (ht : insertTx H e id a db = .ok ((),db')) : Consistent H db' := by
  obtain ⟨row,ev,hrow,rfl,hl,_⟩ := insertTx_ok ht
  obtain ⟨hid,hdispatch,hevent,hplanned,hdigest,hdone,herror,hattempt,_⟩ := eventRow_ok hrow
  obtain ⟨s,hs,hm⟩ := h.logged
  have hs' : s.apply (.text (lit "delivery.event")) (.text id) (canonicalImage a.body) = (.ok (),
      {s with
        deliveryEvents := (s.deliveryEvents.setDefault (.text id) []).modify (.text id)
          fun ts => ts++[[.str a.event,optionIntPy a.planned,optionStrPy a.chunksDigest,
            optionIntPy a.done,optionStrPy a.error,optionStrPy a.attemptId]]}) := by
    simp [Logged.apply,recordState,eventTuple_body]
  have hids : (db.deliveryEvents++[row]).Pairwise fun a b => a.eventId < b.eventId := by
    refine List.pairwise_append.mpr ⟨h.keys.eventIds,List.pairwise_singleton _ _,fun q hq r hr => ?_⟩
    rw [List.mem_singleton.mp hr,hid]
    exact lt_nextEventId hq
  refine ⟨hl.chained h.chained,⟨_,replayChain_logs h.chained hs hl hs',?_⟩,?_⟩
  · refine ⟨hm.records,hm.deliveries,?_,hm.replays⟩
    have hold := hm.deliveryEvents
    rw [actualEvents,orderByEventId_eq h.keys.eventIds] at hold
    rw [actualEvents,orderByEventId_eq hids,List.foldl_append,List.foldl_cons,List.foldl_nil,hdispatch]
    have hmod := (hold.setDefault (.text id) .nil).modify (.text id)
      (f := fun ts => ts++[row.tuple])
      (g := fun ts => ts++[[.str a.event,optionIntPy a.planned,optionStrPy a.chunksDigest,
        optionIntPy a.done,optionStrPy a.error,optionStrPy a.attemptId]]) ?_
    · exact hmod
    intro v w hvw
    refine List.rel_append hvw (.cons ?_ .nil)
    simp only [DeliveryEventRow.tuple,hevent,hdigest,herror,hattempt]
    exact .cons (Alike.refl trivial) (.cons (alike_bindOptionInt hplanned) (.cons (alike_ofOption _)
      (.cons (alike_bindOptionInt hdone) (.cons (alike_ofOption _) (.cons (alike_ofOption _) .nil)))))
  · refine ⟨h.keys.records,h.keys.deliveries,h.keys.replays,hids,fun r hr => ?_⟩
    rcases List.mem_append.mp hr with hr | hr
    · exact h.keys.events r hr
    · rw [List.mem_singleton.mp hr]
      exact ⟨id,hdispatch⟩

/-- A sign-off adds an event that no table shows. -/
lemma Consistent.signOff {a : SignOffArgs} {db' : Db} (h : Consistent H db)
    (ht : signOffTx H e a db = .ok ((),db')) : Consistent H db' := by
  obtain ⟨ev,rfl,hl⟩ := signOffTx_ok ht
  obtain ⟨s,hs,hm⟩ := h.logged
  have hs' : s.apply (.text signoffEvent) (.text a.corpusId) (canonicalImage a.body) = (.ok (),s) := by
    simp [Logged.apply,recordState,signoffEvent]
  exact ⟨hl.chained h.chained,⟨s,replayChain_logs h.chained hs hl hs',hm.records,hm.deliveries,
    hm.deliveryEvents,hm.replays⟩,⟨h.keys.records,h.keys.deliveries,h.keys.replays,h.keys.eventIds,
      h.keys.events⟩⟩

/-- Every action of every call keeps the ledger consistent. -/
theorem Consistent.step {P : World → PyStr → Transition → Prop} {w w' : World}
    (h : Consistent H w.db) (hs : LedgerStep H P w w') : Consistent H w'.db := by
  cases hs with
  | stay => exact h
  | create hrow ht => exact h.create hrow ht
  | move ht _ htx => exact h.move ht htx
  | opened ht => exact h.opened ht
  | event ht => exact h.event ht
  | replay ht => exact h.replay ht
  | signOff ht => exact h.signOff ht
  | archive => exact h

end Replay

section Verified

lemma mapM_str {ks : List TextCell} (h : ∀ k ∈ ks, ∃ t, k = .text t) :
    ∃ ss, ks.mapM TextCell.str? = some ss ∧ ss.map .text = ks := by
  induction ks with
  | nil => exact ⟨[],rfl,rfl⟩
  | cons k ks ih =>
    obtain ⟨t,rfl⟩ := h k (by simp)
    obtain ⟨ss,hs,hm⟩ := ih fun q hq => h q (List.mem_cons_of_mem _ hq)
    exact ⟨t :: ss,by simp [List.mapM_cons,TextCell.str?,hs],by simp [hm]⟩

/-- Text keys can be sorted, and all of them are listed. -/
lemma sortedKeys_text {a b : List TextCell} (ha : ∀ k ∈ a, ∃ t, k = .text t)
    (hb : ∀ k ∈ b, ∃ t, k = .text t) :
    ∃ ks, sortedKeys a b = .ok ks ∧ ∀ k, k ∈ ks ↔ k ∈ a ∨ k ∈ b := by
  have hall : ∀ k ∈ (a++b).dedup, ∃ t, k = .text t := by
    intro k hk
    rcases List.mem_append.mp (List.mem_dedup.mp hk) with hk | hk
    · exact ha k hk
    · exact hb k hk
  unfold sortedKeys
  simp only
  split_ifs
  · exact ⟨_,rfl,fun k => by rw [List.mem_dedup,List.mem_append]⟩
  · obtain ⟨ss,hs,hm⟩ := mapM_str hall
    simp only [hs]
    refine ⟨_,rfl,fun k => ?_⟩
    have hk : k ∈ a++b ↔ k ∈ ss.map TextCell.text := by rw [hm,List.mem_dedup]
    rw [← List.mem_append,hk,List.mem_map,List.mem_map]
    simp only [List.mem_insertionSort]

variable {db : Db} {s : Logged}

/-- The keys of two dicts that hold the same keys. -/
lemma sortedKeys_sim {V W : Type} {r : V → W → Prop} {d : Dict TextCell V} {e : Dict TextCell W}
    (h : Dict.Sim r d e) (hd : ∀ k ∈ d.keys, ∃ t, k = .text t) :
    ∃ ks, sortedKeys d.keys e.keys = .ok ks ∧ ∀ k ∈ ks, k ∈ d.keys := by
  obtain ⟨ks,hks,hmem⟩ := sortedKeys_text hd (h.keys_eq ▸ hd)
  refine ⟨ks,hks,fun k hk => ?_⟩
  rw [hmem,← h.keys_eq,or_self] at hk
  exact hk

lemma recordProblems_nil {r : RecordRow} {f : RecordFields} (h : RecordMatches H r f)
    (id : TextCell) : recordProblems H id (some r) (some f) = .ok [] := by
  obtain ⟨d,hd,ha⟩ := h
  have hitems : differingFields id (r.compared d) f = [] := by
    simp only [RecordFields.Alike,RecordFields.items,List.map_cons,List.map_nil,
      List.forall₂_cons,List.Forall₂.nil,and_true] at ha
    obtain ⟨h1,h2,h3,h4,h5,h6,h7⟩ := ha
    simp [differingFields,RecordFields.items,h1.eq,h2.eq,h3.eq,h4.eq,h5.eq,h6.eq,h7.eq]
  have hfields : r.fieldsBy loadsColumn H = .ok (r.compared d,d.artifactHash) := hd.fields
  simp [recordProblems,recordProblemsBy,hfields,hitems,hd.artifactHash,TextCell.toPy,PyVal.pyEq]

lemma mapM_const {α : Type} {f : α → Except Exc (List LedgerProblem)} {xs : List α}
    (h : ∀ x ∈ xs, f x = .ok []) : ∃ ys, xs.mapM f = .ok ys ∧ ys.flatten = [] := by
  induction xs with
  | nil => exact ⟨[],rfl,rfl⟩
  | cons x xs ih =>
    obtain ⟨ys,hy,hf⟩ := ih fun z hz => h z (List.mem_cons_of_mem _ hz)
    refine ⟨[] :: ys,?_,by simpa using hf⟩
    rw [List.mapM_cons,h x (by simp)]
    simp only [bind,Except.bind,hy]
    rfl

lemma actualEvents_text {rows : List DeliveryEventRow} (h : ∀ r ∈ rows, ∃ t, r.dispatchId = .text t) :
    ∀ k ∈ (actualEvents rows).keys, ∃ t, k = .text t := by
  have hd : ∀ (rows : List DeliveryEventRow) (d : Dict TextCell (List EventTuple)),
      (∀ r ∈ rows, ∃ t, r.dispatchId = .text t) → (∀ k ∈ d.keys, ∃ t, k = .text t) →
      ∀ k ∈ (rows.foldl (fun d r => (d.setDefault r.dispatchId []).modify r.dispatchId
        fun ts => ts++[r.tuple]) d).keys, ∃ t, k = .text t := by
    intro rows
    induction rows with
    | nil => exact fun d _ hd => hd
    | cons r rows ih =>
      intro d hr hd
      refine ih _ (fun q hq => hr q (List.mem_cons_of_mem _ hq)) ?_
      rw [Dict.keys_modify,Dict.keys_setDefault]
      intro k hk
      split_ifs at hk
      · exact hd k hk
      · rcases List.mem_append.mp hk with hk | hk
        · exact hd k hk
        · exact List.mem_singleton.mp hk ▸ hr r (by simp)
  refine hd _ [] (fun r hr => h r ?_) (by simp)
  exact (List.mem_insertionSort _).mp hr

lemma eventProblems_nil {as bs : List EventTuple}
    (h : List.Forall₂ (List.Forall₂ Alike) as bs) (id : TextCell) :
    eventProblems id (some as) (some bs) = [] := by
  have ht : List.Forall₂ Alike (as.map PyVal.tuple) (bs.map PyVal.tuple) := by
    rw [List.forall₂_map_left_iff,List.forall₂_map_right_iff]
    exact h.imp fun _ _ => alike_tuple
  rw [eventProblems,sameTuples,Option.getD_some,Option.getD_some,(alike_list ht).1]
  rfl

/-- Tables that hold what the chain says raise no problem. -/
lemma tableProblems_nil (hm : TablesMatch H db s) (hk : WellKeyed db) :
    tableProblems H db s = .ok [] := by
  have h1 := sortedKeys_sim hm.records (by rw [Dict.keys_keyed]; exact hk.records.2)
  have h2 := sortedKeys_sim hm.deliveries (by rw [Dict.keys_keyed]; exact hk.deliveries.2)
  have h3 := sortedKeys_sim hm.deliveryEvents (actualEvents_text hk.events)
  have h4 := sortedKeys_sim hm.replays (by rw [Dict.keys_keyed]; exact hk.replays.2)
  obtain ⟨ks1,hs1,hm1⟩ := h1
  obtain ⟨ks2,hs2,hm2⟩ := h2
  obtain ⟨ks3,hs3,hm3⟩ := h3
  obtain ⟨ks4,hs4,hm4⟩ := h4
  obtain ⟨rs,hrs,hflat⟩ : ∃ rs, ks1.mapM (fun id => recordProblemsBy loadsColumn H id
      ((Dict.keyed RecordRow.recordId db.records).get id) (s.records.get id)) = .ok rs ∧
      rs.flatten = [] := by
    refine mapM_const fun id hid => ?_
    obtain ⟨r,f,hr,hf,hrf⟩ := hm.records.lookup (hm1 id hid)
    rw [hr,hf]
    exact recordProblems_nil hrf id
  have hd : ks2.flatMap (fun id => deliveryProblems id
      ((Dict.keyed DeliveryRow.dispatchId db.deliveries).get id) (s.deliveries.get id)) = [] := by
    refine List.flatMap_eq_nil_iff.mpr fun id hid => ?_
    obtain ⟨r,f,hr,hf,hrf⟩ := hm.deliveries.lookup (hm2 id hid)
    rw [hr,hf,deliveryProblems,(alike_list hrf).1]
    rfl
  have he : ks3.flatMap (fun id => eventProblems id ((actualEvents db.deliveryEvents).get id)
      (s.deliveryEvents.get id)) = [] := by
    refine List.flatMap_eq_nil_iff.mpr fun id hid => ?_
    obtain ⟨r,f,hr,hf,hrf⟩ := hm.deliveryEvents.lookup (hm3 id hid)
    rw [hr,hf]
    exact eventProblems_nil hrf id
  have hp : ks4.flatMap (fun id => replayProblems id
      ((Dict.keyed ReplayRow.replayId db.replays).get id) (s.replays.get id)) = [] := by
    refine List.flatMap_eq_nil_iff.mpr fun id hid => ?_
    obtain ⟨r,f,hr,hf,hrf⟩ := hm.replays.lookup (hm4 id hid)
    rw [hr,hf,replayProblems,(alike_list hrf).1]
    rfl
  unfold tableProblems tableProblemsBy
  simp only [Dict.ofRows_eq hk.records.1,Dict.ofRows_eq hk.deliveries.1,Dict.ofRows_eq hk.replays.1,
    hs1,hs2,hs3,hs4,hrs,bind,Except.bind,hd,he,hp,hflat]
  rfl

/-- verify_ledger has nothing to report on a consistent ledger. -/
theorem Consistent.verify (h : Consistent H db) : ∃ report, verifyLedger H db none = .ok report ∧
    report.chain.problems = [] ∧ report.problems = [] := by
  obtain ⟨chain,hc,hp⟩ := h.chained.verify
  obtain ⟨s,hs,hm⟩ := h.logged
  refine ⟨⟨chain,[]⟩,?_,hp,rfl⟩
  have hs' : replayChainBy loadsColumn db.events = .ok (s,[]) := hs
  have ht : tableProblemsBy loadsColumn H db s = .ok [] := tableProblems_nil hm h.keys
  simp only [verifyLedger,verifyLedgerBy,hc,hs',ht,bind,Except.bind]
  rfl

end Verified

section Runs

lemma consistent_new : Consistent H Db.new :=
  ⟨trivial,⟨.empty,rfl,⟨.nil,.nil,.nil,.nil⟩⟩,⟨⟨List.nodup_nil,by simp [Db.new]⟩,
    ⟨List.nodup_nil,by simp [Db.new]⟩,⟨List.nodup_nil,by simp [Db.new]⟩,.nil,by simp [Db.new]⟩⟩

/-- No transition is excluded. -/
def AnyTransition : World → PyStr → Transition → Prop := fun _ _ _ => True

/-- Any sequence of ledger steps, and of changes outside the database. -/
def Rules.ledger (H : Hasher) (P : World → PyStr → Transition → Prop) : Rules World where
  rely := Relation.ReflTransGen fun w w' => LedgerStep H P w w' ∨ w.db = w'.db
  allowed _ _ := True
  refl _ := .refl
  trans h h' := h.trans h'

lemma Consistent.run {P : World → PyStr → Transition → Prop} {w w' : World}
    (h : Consistent H w.db) (hr : (Rules.ledger H P).rely w w') : Consistent H w'.db := by
  induction hr with
  | refl => exact h
  | tail _ hs ih =>
    rcases hs with hs | hs
    · exact ih.step hs
    · exact hs ▸ ih

/-- In every state that any interleaving of calls reaches, whatever becomes of the archive
and of the targets: the chain is whole, folding it gives the tables, and verify_ledger
reports nothing. -/
theorem ledger_verifies (H : Hasher) (a : Archive) (p : Pool LedgerCall World (Except Exc Unit))
    (h : Interleaved (LedgerCall.prog H) (fun w w' => w.db = w'.db) (fun _ _ => True)
      (World.new a) p) :
    Chained H p.shared.db.events ∧
    (∃ s, replayChain p.shared.db.events = .ok (s,[]) ∧ TablesMatch H p.shared.db s) ∧
    ∃ report, verifyLedger H p.shared.db none = .ok report ∧ report.chain.problems = [] ∧
      report.problems = [] := by
  have hk := h.known (R := Rules.ledger H AnyTransition) (fun _ _ => LedgerStep H AnyTransition)
    (fun _ _ _ _ _ => True) (fun a b hab => .single (Or.inr hab))
    (fun _ _ _ _ hg => .single (Or.inl hg))
    (fun c w _ => c.steps (fun t ht => ⟨ht,fun _ _ => trivial⟩) [] w)
  have hc : Consistent H p.shared.db := Consistent.run consistent_new hk.1
  exact ⟨hc.chained,hc.logged,hc.verify⟩

def sampleParser : ParserIdentity :=
  ⟨lit "p",lit "1",none,none,by decide,version_one,no_image,no_module⟩

/-- One run with one output file. -/
def samplePending : PendingArgs :=
  ⟨lit "run",⟨1,[lit "out"]⟩,[⟨1,[lit "out",lit "a.txt"]⟩],sampleParser,.dict [],none,none,none,none⟩

def sampleEnv : Env := ⟨lit "r1",lit "t0",lit "t1",fun _ => .ok [104,105]⟩

/-- The ledger after that run was recorded. -/
def sampleLedger : World :=
  (LedgerCall.prog .checksum (.createPending sampleEnv samplePending)).final (World.new .empty)

theorem ledger_verifies_sample : sampleLedger.db.records.length = 1 ∧
    ∃ report, verifyLedger .checksum sampleLedger.db none = .ok report ∧
      report.chain.problems = [] ∧ report.problems = [] := by
  have h0 : Interleaved (LedgerCall.prog .checksum) (fun w w' => w.db = w'.db) (fun _ _ => True)
    (World.new .empty) ⟨World.new .empty,[]⟩ := Relation.ReflTransGen.refl
  obtain ⟨ts,h⟩ : ∃ ts, Interleaved (LedgerCall.prog .checksum) (fun w w' => w.db = w'.db) (fun _ _ => True)
      (World.new .empty) ⟨sampleLedger,ts⟩ := h0.final (.createPending sampleEnv samplePending)
  exact ⟨by decide +kernel,(ledger_verifies .checksum .empty _ h).2.2⟩

end Runs

end Stele
