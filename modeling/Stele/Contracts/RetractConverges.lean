import Stele.Contracts.Dispatching
import Stele.Contracts.Removal

/-! Removing a record's deliveries comes to an end: once every attempt has its outcome, a removal
that succeeds is the last one. Until then each removal is made again. -/
namespace Stele
open Python Interleaving Removal

variable {H : Hasher} {classes : ℕ → TargetClass} {d : Dispatcher} {ds : Dispatcher → Prop}

section Log

variable {log rest : List DeliveryEvent} {e : DeliveryEvent} {w : WriteFold} {a : PyStr}

def DeliveryEvent.isOutcome (e : DeliveryEvent) : Prop := e.event = .receipt ∨ e.event = .failure

/-- An event of an attempt: its intent or its outcome. -/
def DeliveryEvent.isWrite (e : DeliveryEvent) : Prop := e.event = .intent ∨ e.isOutcome

/-- The write events carry attempt_ids. -/
def WritesNamed (log : List DeliveryEvent) : Prop := ∀ e ∈ log, e.isWrite → e.attemptId ≠ none

/-- uuid4() gave each intent an attempt_id that no event before it carries. -/
def FreshIntents (log : List DeliveryEvent) : Prop :=
  log.Pairwise fun e f => f.event = .intent → ∀ a, f.attemptId = some a → e.attemptId ≠ some a

/-- The log leaves open whether the target holds something: an attempt has no outcome, or
something was written after the last removal receipt. -/
inductive Open (log : List DeliveryEvent) : Prop
  | unresolved {i : DeliveryEvent} (h : i ∈ log) (hi : i.event = .intent)
    (ho : ∀ o ∈ log, o.isOutcome → o.attemptId ≠ i.attemptId)
  | written {l r : List DeliveryEvent} {o : DeliveryEvent} (h : log = l++o :: r)
    (hw : o.event = .receipt ∨ (o.event = .failure ∧ o.done ≠ some 0)) (hr : ∀ f ∈ r, f.event ≠ .removalReceipt)

abbrev foldLog (log : List DeliveryEvent) : WriteFold := log.foldl WriteFold.event .start

/-- A log that leaves it open counts as one that may have written. -/
theorem Open.value (h : Open log) (hn : WritesNamed log) : (foldLog log).value = true := by
  cases h with
  | @unresolved e he hi ho =>
    obtain ⟨a,ha⟩ := Option.ne_none_iff_exists'.mp (hn e he (Or.inl hi))
    have hm := outstanding_of_unresolved (d := opened log) (a := a) ⟨⟨e,he,hi,ha⟩,fun o hom hout hoa =>
      ho o hom hout (hoa.trans ha.symm)⟩
    have hne : (foldLog log).outstanding.isEmpty = false := by
      cases hl : (foldLog log).outstanding with
      | nil =>
        rw [Delivery.writeFold,opened] at hm
        rw [hl] at hm
        exact absurd hm List.not_mem_nil
      | cons => rfl
    rw [WriteFold.value,hne,Bool.not_false,Bool.or_true]
  | @written l r e hl hw hr =>
    subst hl
    have hstart : ((foldLog l).event e).written = true := by
      rcases hw with hw | ⟨hw,hd⟩
      · rw [event_receipt hw,WriteFold.close_written]
      · rw [event_failure hw,if_pos hd,WriteFold.close_written]
    have hend : ∀ r : List DeliveryEvent, (∀ f ∈ r, f.event ≠ .removalReceipt) → ∀ v : WriteFold,
        v.written = true → (r.foldl WriteFold.event v).written = true := by
      intro r
      induction r with
      | nil => exact fun _ v hv => hv
      | cons f r ih =>
        intro hr v hv
        rw [List.forall_mem_cons] at hr
        exact ih hr.2 _ (written_event hv hr.1)
    rw [foldLog,List.foldl_append,List.foldl_cons,WriteFold.value,hend r hr _ hstart]
    rfl

end Log

section Rows

variable {w w' : World} {db db' : Db} {id : PyStr}

def intentCell : TextCell := .text DeliveryEventKind.intent.value

/-- A new intent's attempt_id is one that no event of its delivery carries. -/
def freshIntents (w w' : World) : Bool :=
  w'.db.deliveryEvents.all fun r => decide (r ∈ w.db.deliveryEvents) || decide (r.event ≠ intentCell) ||
    decide (r.attemptId = .null) || w.db.deliveryEvents.all fun q =>
      decide (q.dispatchId ≠ r.dispatchId) || decide (q.attemptId ≠ r.attemptId)

lemma freshIntents_new (h : freshIntents w w' = true) {q r : DeliveryEventRow} (hr : r ∈ w'.db.deliveryEvents)
    (hn : r ∉ w.db.deliveryEvents) (hi : r.event = intentCell) {a : PyStr} (ha : r.attemptId = .text a)
    (hq : q ∈ w.db.deliveryEvents) (hid : q.dispatchId = r.dispatchId) : q.attemptId ≠ .text a := by
  simp only [freshIntents,List.all_eq_true,Bool.or_eq_true,decide_eq_true_eq] at h
  rcases h r hr with ((h | h) | h) | h
  · exact absurd h hn
  · exact absurd hi h
  · rw [ha] at h
    cases h
  · rw [← ha]
    exact (h q hq).resolve_left fun hne => hne hid

/-- No event before an intent carries its attempt_id. -/
def FreshRows (db : Db) : Prop :=
  db.deliveryEvents.Pairwise fun q r => q.dispatchId = r.dispatchId → r.event = intentCell →
    ∀ a, r.attemptId = .text a → q.attemptId ≠ .text a

/-- The events of a delivery, as they are read. -/
def logOf (db : Db) (dispatchId : TextCell) : List DeliveryEvent :=
  (eventsOf db dispatchId).filterMap DeliveryEventRow.toEvent

lemma LogsChange.events_grow (h : LogsChange db db') : db.deliveryEvents <+: db'.deliveryEvents := by
  cases h with
  | none _ he | delivery _ _ he => rw [he]
  | event _ _ _ row _ he => exact he ▸ List.prefix_append _ _

lemma LogsChange.fresh (h : LogsChange w.db w'.db) (hf : FreshRows w.db) (ha : freshIntents w w' = true) :
    FreshRows w'.db := by
  cases h with
  | none _ he | delivery _ _ he => rw [FreshRows,he]; exact hf
  | event id now a row hd he hr =>
    have hnew : row ∉ w.db.deliveryEvents := by
      intro hm
      have hlt := lt_nextEventId hm
      rw [(eventRow_ok hr).1] at hlt
      exact lt_irrefl _ hlt
    rw [FreshRows,he]
    refine List.pairwise_append.mpr ⟨hf,List.pairwise_singleton _ _,fun q hq r hr hid hi b hb => ?_⟩
    obtain rfl := List.mem_singleton.mp hr
    exact freshIntents_new ha (he ▸ by simp) hnew hi hb hq hid

/-- The others' steps, when uuid4() gives fresh attempt_ids. -/
abbrev freshRules (H : Hasher) (classes : ℕ → TargetClass) : Rules World :=
  Rules.dispatcher H classes (fun _ => True) fun w w' => freshIntents w w' = true

/-- What every run keeps of the ledger. -/
structure LogsKept (H : Hasher) (db : Db) : Prop where
  consistent : Consistent H db
  fresh : FreshRows db

lemma LogsKept.run (h : LogsKept H w.db) (hr : (freshRules H classes).rely w w') : LogsKept H w'.db := by
  induction hr with
  | refl => exact h
  | tail _ hs ih =>
    rcases hs with ⟨hs,ha⟩ | hs
    · have hrun : (freshRules H classes).rely _ _ := .single (Or.inl ⟨hs,ha⟩)
      exact ⟨ih.consistent.dispatched hrun,hs.logs.fresh ih.fresh ha⟩
    · exact hs.db ▸ ih

lemma events_grow (hr : (freshRules H classes).rely w w') : w.db.deliveryEvents <+: w'.db.deliveryEvents := by
  induction hr with
  | refl => exact List.prefix_rfl
  | tail _ hs ih =>
    rcases hs with hs | hs
    · exact ih.trans hs.1.logs.events_grow
    · exact hs.db ▸ ih

lemma logOf_eq (h : Consistent H db) (cell : TextCell) : logOf db cell =
    (db.deliveryEvents.filter fun r => decide (r.dispatchId = cell)).filterMap DeliveryEventRow.toEvent := by
  rw [logOf,eventsOf,orderByEventId_eq h.keys.eventIds]

/-- What is read of a row. -/
lemma toEvent_ok {r : DeliveryEventRow} {e : DeliveryEvent} (h : r.toEvent = some e) :
    r.event = .text e.event.value ∧ e.attemptId = r.attemptId.str? := by
  obtain ⟨k,hk,rfl⟩ := Option.map_eq_some_iff.mp h
  have := List.find?_some hk
  exact ⟨by simpa using this,rfl⟩

lemma str?_eq {c : TextCell} {a : PyStr} : c.str? = some a ↔ c = .text a := by
  cases c <;> simp [TextCell.str?]

lemma LogsKept.freshIntents (h : LogsKept H db) (cell : TextCell) : FreshIntents (logOf db cell) := by
  rw [logOf_eq h.consistent,FreshIntents]
  have hrows : (db.deliveryEvents.filter fun r => decide (r.dispatchId = cell)).Pairwise fun q r =>
      r.event = intentCell → ∀ a, r.attemptId = .text a → q.attemptId ≠ .text a := by
    refine List.pairwise_filter.mpr (h.fresh.imp fun hqr hq hr => ?_)
    exact hqr ((of_decide_eq_true hq).trans (of_decide_eq_true hr).symm)
  refine List.Pairwise.filterMap _ (fun q r hqr e he f hf hi a ha => ?_) hrows
  obtain ⟨-,hea⟩ := toEvent_ok he
  obtain ⟨hfk,hfa⟩ := toEvent_ok hf
  rw [hea,Ne,str?_eq]
  exact hqr (by rw [hfk,hi]; rfl) a (str?_eq.mp (hfa.symm.trans ha))

/-- What was in the log stays its beginning. -/
lemma logOf_prefix (h : Consistent H db) (h' : Consistent H db')
    (hp : db.deliveryEvents <+: db'.deliveryEvents) (cell : TextCell) :
    ∃ new, db'.deliveryEvents = db.deliveryEvents++new ∧ logOf db' cell = logOf db cell++
      (new.filter fun r => decide (r.dispatchId = cell)).filterMap DeliveryEventRow.toEvent := by
  obtain ⟨new,hnew⟩ := hp
  refine ⟨new,hnew.symm,?_⟩
  rw [logOf_eq h,logOf_eq h',← hnew,List.filter_append,List.filterMap_append]

end Rows

section Retract

variable {start s : World} {own : List (World × World)} {id : PyStr}

/-- The delivery was read, after the start, as one that may have been written. -/
def Seen (H : Hasher) (start now : World) (id : PyStr) : Prop :=
  ∃ (z : World) (row : DeliveryRow) (delivery : Delivery), LogsKept H z.db ∧ start.db.deliveryEvents <+: z.db.deliveryEvents ∧
    z.db.deliveryEvents <+: now.db.deliveryEvents ∧ row ∈ z.db.deliveries ∧
    deliveryOfRow z.db row = .ok delivery ∧ delivery.dispatchId = id ∧ delivery.possiblyWritten = true

lemma Seen.mono {now now' : World} (h : Seen H start now id) (hr : (freshRules H classes).rely now now') :
    Seen H start now' id := by
  obtain ⟨z,row,delivery,hk,h1,h2,h⟩ := h
  exact ⟨z,row,delivery,hk,h1,h2.trans (events_grow hr),h⟩

/-- A step that removes only what was seen to be possibly written. -/
def RemovesSeen (H : Hasher) (classes : ℕ → TargetClass) (start w w' : World) : Prop :=
  DispatcherStep H classes (fun _ => True) w w' ∧
    (w'.removals = w.removals ∨ ∃ call, w'.removals = w.removals++[call] ∧ Seen H start w call.dispatchId)

/-- A removal receipt of the delivery was logged, after the start. -/
def ReceiptLogged (start : World) (own : List (World × World)) (id : PyStr) : Prop :=
  ∃ q ∈ own, ∃ row, start.db.deliveryEvents <+: q.1.db.deliveryEvents ∧
    q.2.db.deliveryEvents = q.1.db.deliveryEvents++[row] ∧ row.dispatchId = .text id ∧
    row.event = .text DeliveryEventKind.removalReceipt.value

/-- What is reported of a delivery. -/
structure Reported (H : Hasher) (start : World) (own : List (World × World)) (r : RemovalResult) : Prop where
  seen : ∃ q ∈ own, Seen H start q.1 r.dispatchId
  receipt : r.removed = true → ReceiptLogged start own r.dispatchId

lemma Reported.mono {own own' : List (World × World)} {r : RemovalResult} (h : Reported H start own r)
    (hp : own <+: own') : Reported H start own' r :=
  ⟨h.seen.imp fun _ hq => ⟨hp.subset hq.1,hq.2⟩,fun hr => (h.receipt hr).imp fun _ hq => ⟨hp.subset hq.1,hq.2⟩⟩

lemma seenRely {w w' : World} (h : RemovesSeen H classes start w w') (ha : freshIntents w w' = true) :
    (freshRules H classes).rely w w' := relied h.1 ha

lemma ledger_removesSeen {w w' : World} (h : LedgerStep H AnyTransition w w') :
    RemovesSeen H classes start w w' := ⟨.ledger h,Or.inl h.writers.2⟩

/-- One SELECT. -/
lemma query_seen {α : Type} {f : Db → Except Exc α} :
    Yields (freshRules H classes) (RemovesSeen H classes start)
      (fun a own' t => ∃ u, (freshRules H classes).rely s u ∧ (freshRules H classes).rely u t ∧
        f u.db = .ok a ∧ own' = own++[(u,u)]) (Op.query f) own s :=
  Meets.atomic fun u hu _ => ⟨ledger_removesSeen (.stay u),fun _ ht _ ha => ⟨u,hu,ht,ha,rfl⟩⟩

/-- One event more in the log. -/
lemma append_seen {e : Env} {a : EventArgs} :
    Yields (freshRules H classes) (RemovesSeen H classes start)
      (fun _ own' _ => ∃ u v row, (freshRules H classes).rely s u ∧ own' = own++[(u,v)] ∧
        v.db.deliveryEvents = u.db.deliveryEvents++[row] ∧ row.dispatchId = .text id ∧
        row.event = .text a.event) (DeliveryLog.append H e id a) own s := by
  refine Meets.atomic fun u hu _ => ?_
  rcases writeTransaction_cases (Tx.onIntegrity (insertTx H e id a) .valueError) u.db with
    ⟨_,db,hb,hw⟩ | ⟨exc,_,hw⟩
  · have hins := onIntegrity_ok hb
    rw [hw]
    refine ⟨ledger_removesSeen (.event hins),fun t _ _ _ => ?_⟩
    obtain ⟨row,ev,hrow,rfl,-⟩ := insertTx_ok hins
    obtain ⟨-,hid,hev,-⟩ := eventRow_ok hrow
    exact ⟨u,_,row,hu,rfl,rfl,hid,hev⟩
  · rw [hw]
    exact ⟨ledger_removesSeen (.stay u),fun _ _ _ ha => by cases ha⟩

/-- What is seen when a record's deliveries are read. -/
lemma readDeliveries_seen {rows : List DeliveryRow} (hk : LogsKept H s.db)
    (hs : (freshRules H classes).rely start s) (hrows : rows ⊆ s.db.deliveries) :
    Yields (freshRules H classes) (RemovesSeen H classes start)
      (fun read _ t => ∀ delivery ∈ read, delivery.possiblyWritten = true → Seen H start t delivery.dispatchId)
      (readDeliveries rows) own s := by
  induction rows generalizing own s with
  | nil => exact Yields.pure fun _ _ => List.forall_mem_nil _
  | cons row rows ih =>
    obtain ⟨hrow,hrows⟩ := List.cons_subset.mp hrows
    refine Yields.bind (fun _ _ => seenRely) query_seen fun delivery own' t ht _ hq => ?_
    obtain ⟨u,hu,hut,hread,-⟩ := hq
    have hseen : delivery.possiblyWritten = true → Seen H start t delivery.dispatchId := fun hp =>
      ⟨u,row,delivery,hk.run hu,(events_grow hs).trans (events_grow hu),events_grow hut,
        Rules.dispatcher_deliveries hu hrow,hread,rfl,hp⟩
    refine Yields.bind (fun _ _ => seenRely) (ih (hk.run ht) ((freshRules H classes).trans hs ht)
      (List.Subset.trans hrows (Rules.dispatcher_deliveries ht))) fun read _ t' ht' _ hv => Yields.pure fun t'' ht'' => ?_
    have hend := (freshRules H classes).trans ht' ht''
    refine List.forall_mem_cons.mpr ⟨fun hp => (hseen hp).mono hend,fun x hx hp => (hv x hx hp).mono ht''⟩

lemma forRecord_seen {recordId : PyStr} (hk : LogsKept H s.db) (hs : (freshRules H classes).rely start s) :
    Yields (freshRules H classes) (RemovesSeen H classes start)
      (fun read _ t => ∀ delivery ∈ read, delivery.possiblyWritten = true → Seen H start t delivery.dispatchId)
      (DeliveryLog.forRecord recordId) own s := by
  refine Yields.bind (fun _ _ => seenRely) query_seen fun rows own' t ht _ hq => ?_
  obtain ⟨u,hu,hut,hread,-⟩ := hq
  refine readDeliveries_seen (hk.run ht) ((freshRules H classes).trans hs ht) fun row hrow => ?_
  exact Rules.dispatcher_deliveries hut ((mem_deliveriesOf hread).mp hrow).1

lemma removalFailed_seen {e : Env} {repr : PyStr} (h : Seen H start s id) :
    Yields (freshRules H classes) (RemovesSeen H classes start)
      (fun r own' _ => r.dispatchId = id ∧ Reported H start own' r)
      (Dispatcher.removalFailed H e id repr) own s := by
  refine Yields.bind (fun _ _ => seenRely) append_seen fun _ own' t _ _ hq => Yields.pure fun _ _ => ?_
  obtain ⟨u,v,row,hu,rfl,-⟩ := hq
  exact ⟨rfl,⟨(u,v),by simp,h.mono hu⟩,fun hr => by cases hr⟩

lemma remove_seen (hs : (freshRules H classes).rely start s) {c : RemovalArgs} {delivery : Delivery}
    (h : Seen H start s delivery.dispatchId)
    (hc : ∀ call, d.remover classes delivery = .ok call → Removable classes d s.db call) :
    Yields (freshRules H classes) (RemovesSeen H classes start)
      (fun r own' _ => Reported H start own' r) (d.remove H classes c delivery) own s := by
  unfold Dispatcher.remove
  cases hr : d.remover classes delivery with
  | error exc => exact (removalFailed_seen h).mono fun _ _ _ hv => hv.2
  | ok call =>
    have hcid : call.dispatchId = delivery.dispatchId := by
      obtain ⟨⟨targetType,writer⟩,-,hr⟩ := except_bind_ok.mp hr
      obtain ⟨target,-,hr⟩ := except_bind_ok.mp hr
      rw [← Except.ok.inj hr]
    refine Yields.bind (fun _ _ => seenRely) append_seen fun _ own1 s1 h1 _ _ => ?_
    have hcall : Yields (freshRules H classes) (RemovesSeen H classes start) (fun _ _ _ => True)
        (Op.removeDelivery call) own1 s1 := Meets.atomic fun u hu _ => by
      have hsu := (freshRules H classes).trans h1 hu
      refine ⟨⟨.remove call trivial ((hc call hr).mono (Rules.dispatcher_deliveries hsu)),
        Or.inr ⟨call,rfl,?_⟩⟩,fun _ _ _ _ => trivial⟩
      rw [hcid]
      exact h.mono hsu
    refine Yields.bind (fun _ _ => seenRely) hcall fun _ own2 s2 h2 _ _ => ?_
    have h12 := (freshRules H classes).trans h1 h2
    cases c.outcome with
    | raised repr => exact (removalFailed_seen (h.mono h12)).mono fun _ _ _ hv => hv.2
    | removed n =>
      refine Yields.bind (fun _ _ => seenRely) append_seen fun _ own3 s3 _ _ hq => Yields.pure fun _ _ => ?_
      obtain ⟨u,v,row,hu,rfl,hrow,hid,hev⟩ := hq
      have hsu := (freshRules H classes).trans h12 hu
      exact ⟨⟨(u,v),by simp,h.mono hsu⟩,fun _ => ⟨(u,v),by simp,row,
        events_grow ((freshRules H classes).trans hs hsu),hrow,hid,hev⟩⟩

lemma removeAll_seen {c : ℕ → RemovalArgs} (deliveries : List Delivery) : ∀ (i : ℕ)
    (own : List (World × World)) (s : World), (freshRules H classes).rely start s →
    (∀ delivery ∈ deliveries, delivery.possiblyWritten = true → Seen H start s delivery.dispatchId) →
    (∀ delivery ∈ deliveries, ∀ call, d.remover classes delivery = .ok call → Removable classes d s.db call) →
    Yields (freshRules H classes) (RemovesSeen H classes start)
      (fun rs own' _ => ∀ r ∈ rs, Reported H start own' r) (d.removeAll H classes c i deliveries) own s := by
  induction deliveries with
  | nil => exact fun _ _ _ _ _ _ => Yields.pure fun _ _ => List.forall_mem_nil _
  | cons delivery deliveries ih =>
    intro i own s hs hseen hc
    rw [List.forall_mem_cons] at hseen hc
    rw [Dispatcher.removeAll]
    split_ifs with hp
    · exact ih (i+1) own s hs hseen.2 hc.2
    · refine Yields.bind (fun _ _ => seenRely) (remove_seen hs (hseen.1 (by simpa using hp)) hc.1) ?_
      intro r own' t ht _ hr
      have hrest := ih (i+1) own' t ((freshRules H classes).trans hs ht)
        (fun x hx hxp => (hseen.2 x hx hxp).mono ht)
        fun x hx call hcall => (hc.2 x hx call hcall).mono (Rules.dispatcher_deliveries ht)
      refine Yields.bind (fun _ _ => seenRely) hrest fun rs own'' _ _ hown hv => Yields.pure fun _ _ => ?_
      exact List.forall_mem_cons.mpr ⟨hr.mono hown,hv⟩

/-- retract reports, and removes, only what it saw to be possibly written. -/
lemma retract_seen {c : ℕ → RemovalArgs} {recordId : PyStr} (hk : LogsKept H s.db)
    (hs : (freshRules H classes).rely start s) :
    Yields (freshRules H classes) (RemovesSeen H classes start)
      (fun rs own' _ => ∀ r ∈ rs, Reported H start own' r) (d.retract H classes c recordId) own s := by
  refine Yields.bind (fun _ _ => seenRely) query_seen fun record own1 s1 h1 _ _ => ?_
  refine Yields.refuse fun _ => ?_
  have hk1 := hk.run h1
  have hs1 := (freshRules H classes).trans hs h1
  refine Yields.bind (fun _ _ => seenRely) (Yields.and (forRecord_seen hk1 hs1) forRecord_yields) ?_
  rintro deliveries own2 s2 h2 - ⟨hseen,rows,hrows,hsub,-⟩
  refine removeAll_seen deliveries 0 own2 s2 ((freshRules H classes).trans hs1 h2) hseen ?_
  intro delivery hm call hcall
  obtain ⟨row,hrow,hread⟩ := forall₂_mem hrows.flip hm
  exact remover_removable (hsub hrow) hread hcall

lemma invalidate_seen {e : Env} {c : ℕ → RemovalArgs} {recordId reason : PyStr} (hk : LogsKept H s.db)
    (hs : (freshRules H classes).rely start s) :
    Yields (freshRules H classes) (RemovesSeen H classes start)
      (fun rs own' _ => ∀ r ∈ rs, Reported H start own' r)
      (d.invalidate H classes e c recordId reason) own s := by
  refine Yields.bind (fun _ _ => seenRely) query_seen fun record own1 s1 h1 _ _ => ?_
  have hs1 := (freshRules H classes).trans hs h1
  refine Yields.ite (fun _ => ?_) fun _ => retract_seen (hk.run h1) hs1
  have hinv : Acts (freshRules H classes) (LedgerStep H AnyTransition) (fun _ => True)
      (LedgerStore.invalidate H e recordId reason) :=
    invalidate_acts (fun note => ⟨.invalidated note,fun _ _ => trivial⟩) e recordId reason
  have hyields : Yields (freshRules H classes) (RemovesSeen H classes start) (fun _ _ _ => True)
      (LedgerStore.invalidate H e recordId reason) own1 s1 :=
    Meets.weaken (fun _ _ => ledger_removesSeen) (hinv own1 s1)
  refine Yields.bind (fun _ _ => seenRely) hyields fun _ own2 s2 h2 _ _ => ?_
  exact retract_seen (hk.run ((freshRules H classes).trans h1 h2)) ((freshRules H classes).trans hs1 h2)

end Retract

section Closed

variable {start later now : World} {own : List (World × World)} {id : PyStr}

end Closed

section Runs

/-- A call of a process with its own registry. -/
structure ProcessCall where
  d : Dispatcher
  call : DispatcherCall

def ProcessCall.prog (H : Hasher) (classes : ℕ → TargetClass) (c : ProcessCall) :
    Prog World (Except Exc CallResult) := c.call.prog H classes c.d

abbrev ProcessPool := Pool ProcessCall World (Except Exc CallResult)

/-- What a removing call does in its steps. -/
def ProcessCall.Steps (H : Hasher) (classes : ℕ → TargetClass) (c : ProcessCall) (start w w' : World) : Prop :=
  (DispatcherStep H classes (fun _ => True) w w' ∧ freshIntents w w' = true) ∧
    (c.call.retracts ≠ none → RemovesSeen H classes start w w')

/-- What a removing call comes to. -/
def ProcessCall.Done (H : Hasher) (classes : ℕ → TargetClass) (c : ProcessCall) (start : World)
    (r : Except Exc CallResult) (own : List (World × World)) (_ : World) : Prop :=
  LogsKept H start.db ∧ ∀ record rs, c.call.retracts = some record → r = .ok (.removed rs) →
    (∀ row ∈ start.db.deliveries, row.recordId = .text record → Handled classes c.d own row) ∧
    ∀ r ∈ rs, Reported H start own r

lemma ProcessCall.meets {c : ProcessCall} {w : World} (hk : LogsKept H w.db) :
    Meets (freshRules H classes) (c.Steps H classes w) (c.Done H classes w) (c.prog H classes) [] w := by
  obtain ⟨d,call⟩ := c
  have hsteps : ∀ b b', RemovesSeen H classes w b b' ∧ freshIntents b b' = true →
      (ProcessCall.mk d call).Steps H classes w b b' := fun b b' hb => ⟨⟨hb.1.1,hb.2⟩,fun _ => hb.1⟩
  have hother : call.retracts = none → Meets (freshRules H classes)
      ((ProcessCall.mk d call).Steps H classes w) ((ProcessCall.mk d call).Done H classes w)
      (call.prog H classes d) [] w := fun hnone => by
    refine (Meets.weaken (fun b b' hb => ?_) (Meets.only_allowed (DispatcherCall.meets trivial call w))).mono ?_
    · exact ⟨hb,fun hne => absurd hnone hne⟩
    · exact fun r own t _ => ⟨hk,fun record rs hrec => by rw [hnone] at hrec; cases hrec⟩
  have hremoving : ∀ {op : Op (List RemovalResult)} {id : PyStr}, call.retracts = some id →
      call.prog H classes d = (fun r => r.map .removed) <$> op.run →
      Yields (freshRules H classes) (RemovesSeen H classes w)
        (fun rs own' _ => ∀ r ∈ rs, Reported H w own' r) op [] w →
      Yields (freshRules H classes) (DispatcherStep H classes fun _ => True)
        (fun _ own' _ => ∀ row ∈ w.db.deliveries, row.recordId = .text id → Handled classes d own' row) op [] w →
      Meets (freshRules H classes) ((ProcessCall.mk d call).Steps H classes w)
        ((ProcessCall.mk d call).Done H classes w) (call.prog H classes d) [] w := by
    intro op id hid hprog hseen hall
    rw [hprog]
    refine Meets.map ((Meets.weaken hsteps (Meets.only_allowed (Yields.and hseen hall))).mono ?_)
    refine fun r own t hr => ⟨hk,fun record rs hrec hres => ?_⟩
    obtain rfl := Option.some.inj (hid.symm.trans hrec)
    cases r with
    | error e => cases hres
    | ok r =>
      obtain rfl := CallResult.removed.inj (Except.ok.inj hres)
      exact ⟨(hr r rfl).2,(hr r rfl).1⟩
  cases call with
  | ledger c => exact hother rfl
  | dispatch c => exact hother rfl
  | retract id c => exact hremoving rfl rfl (retract_seen hk .refl) (retract_yields trivial)
  | invalidate e id reason c => exact hremoving rfl rfl (invalidate_seen hk .refl) (invalidate_yields trivial)

end Runs

end Stele
