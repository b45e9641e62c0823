import Stele.Contracts.Dispatching

/-! A delivered delivery is not written again, as long as no attempt of it that was still under
way logs its intent or its failure after the receipt. -/
namespace Stele
open Python Interleaving

variable {H : Hasher} {classes : ℕ → TargetClass} {d : Dispatcher} {ds : Dispatcher → Prop}

/-- The calls that create and seal records and deliver them; none of them removes anything. -/
inductive DeliveryCall
  | createPending (e : Env) (a : PendingArgs)
  | sealRecord (e : Env) (recordId : PyStr)
  | dispatch (d : Dispatcher) (c : DispatchArgs)

/-- Who runs it: dispatchers in different processes may have different registries. -/
def DeliveryCall.dispatcher : DeliveryCall → Dispatcher
  | .dispatch d _ => d
  | _ => .empty

def DeliveryCall.toCall : DeliveryCall → DispatcherCall
  | .createPending e a => .ledger (.createPending e a)
  | .sealRecord e id => .ledger (.sealRecord e id)
  | .dispatch _ c => .dispatch c

def DeliveryCall.prog (H : Hasher) (classes : ℕ → TargetClass) (c : DeliveryCall) :
    Prog World (Except Exc CallResult) := c.toCall.prog H classes c.dispatcher

abbrev DeliveryPool := Pool DeliveryCall World (Except Exc CallResult)

def receiptCell : TextCell := .text DeliveryEventKind.receipt.value

/-- Only receipts are appended to a log that has a receipt. -/
def settled (w w' : World) : Bool :=
  w'.db.deliveryEvents.all fun r => decide (r ∈ w.db.deliveryEvents) ||
    decide (r.event = receiptCell) ||
    w.db.deliveryEvents.all fun q => decide (q.dispatchId ≠ r.dispatchId) || decide (q.event ≠ receiptCell)

/-- In each log only receipts follow a receipt. -/
def Concluded (db : Db) : Prop :=
  db.deliveryEvents.Pairwise fun a b =>
    a.dispatchId = b.dispatchId → a.event = receiptCell → b.event = receiptCell

/-- The UNIQUE constraint of deliveries. -/
def UniqueTargets (db : Db) : Prop :=
  (db.deliveries.map fun row => (row.recordId,row.targetKind,row.target)).Nodup

structure DeliveriesKept (H : Hasher) (db : Db) : Prop where
  consistent : Consistent H db
  concluded : Concluded db
  unique : UniqueTargets db
  bound : ∀ row ∈ db.deliveries, row.Bound

section Kept

variable {w w' : World} {db db' : Db}

lemma settled_iff : settled w w' = true ↔ ∀ r ∈ w'.db.deliveryEvents, r ∉ w.db.deliveryEvents →
    r.event ≠ receiptCell → ∀ q ∈ w.db.deliveryEvents, q.dispatchId = r.dispatchId →
      q.event ≠ receiptCell := by
  simp only [settled,List.all_eq_true,Bool.or_eq_true,decide_eq_true_eq]
  refine forall₂_congr fun r _ => ⟨fun h hn hr q hq hid => ?_,fun h => ?_⟩
  · rcases h with (h | h) | h
    · exact absurd h hn
    · exact absurd h hr
    · exact (h q hq).resolve_left fun hne => hne hid
  · by_cases hm : r ∈ w.db.deliveryEvents
    · exact Or.inl (Or.inl hm)
    · by_cases hr : r.event = receiptCell
      · exact Or.inl (Or.inr hr)
      · refine Or.inr fun q hq => ?_
        by_cases hid : q.dispatchId = r.dispatchId
        · exact Or.inr (h hm hr q hq hid)
        · exact Or.inl hid

lemma LogsChange.unique (h : LogsChange db db') (hu : UniqueTargets db) : UniqueTargets db' := by
  cases h with
  | none hd | event _ _ _ _ hd => rw [UniqueTargets,hd]; exact hu
  | delivery row hd _ _ hnew =>
    rw [UniqueTargets,hd,List.map_append,List.map_singleton]
    refine List.nodup_append.mpr ⟨hu,List.nodup_singleton _,fun x hx y hy hxy => ?_⟩
    obtain ⟨q,hq,rfl⟩ := List.mem_map.mp hx
    rw [List.mem_singleton.mp hy] at hxy
    obtain ⟨h1,h2⟩ := Prod.mk.inj hxy
    exact hnew q hq ⟨h1,Prod.mk.inj h2⟩

lemma LogsChange.bound (h : LogsChange db db') (hb : ∀ row ∈ db.deliveries, row.Bound) :
    ∀ row ∈ db'.deliveries, row.Bound := by
  cases h with
  | none hd | event _ _ _ _ hd => rw [hd]; exact hb
  | delivery row hd _ hbound =>
    rw [hd]
    exact List.forall_mem_append.mpr ⟨hb,List.forall_mem_singleton.mpr hbound⟩

/-- A settled step leaves only receipts after a receipt. -/
lemma LogsChange.concluded (h : LogsChange w.db w'.db) (hc : Concluded w.db)
    (hs : settled w w' = true) : Concluded w'.db := by
  cases h with
  | none _ he | delivery _ _ he => rw [Concluded,he]; exact hc
  | event id now a row hd he hr =>
    have hnew : row ∉ w.db.deliveryEvents := by
      intro hm
      have hlt := lt_nextEventId hm
      rw [(eventRow_ok hr).1] at hlt
      omega
    rw [Concluded,he]
    refine List.pairwise_append.mpr ⟨hc,List.pairwise_singleton _ _,fun q hq r hr hid hrec => ?_⟩
    obtain rfl := List.mem_singleton.mp hr
    by_contra hne
    exact settled_iff.mp hs r (he ▸ by simp) hnew hne q hq hid hrec

lemma deliveriesKept_new : DeliveriesKept H Db.new :=
  ⟨consistent_new,List.Pairwise.nil,List.nodup_nil,List.forall_mem_nil _⟩

/-- The others' steps, as long as they are settled. -/
abbrev settledRules (H : Hasher) (classes : ℕ → TargetClass) (ds : Dispatcher → Prop) : Rules World :=
  Rules.dispatcher H classes ds fun w w' => settled w w' = true

lemma DeliveriesKept.run (h : DeliveriesKept H w.db) (hr : (settledRules H classes ds).rely w w') :
    DeliveriesKept H w'.db := by
  induction hr with
  | refl => exact h
  | tail _ hs ih =>
    rcases hs with ⟨hs,ha⟩ | hs
    · have hrun : (settledRules H classes ds).rely _ _ := .single (Or.inl ⟨hs,ha⟩)
      exact ⟨ih.consistent.dispatched hrun,hs.logs.concluded ih.concluded ha,hs.logs.unique ih.unique,
        hs.logs.bound ih.bound⟩
    · exact hs.db ▸ ih

lemma Rules.dispatcher_events {allowed : World → World → Prop}
    (h : (Rules.dispatcher H classes ds allowed).rely w w') :
    w.db.deliveryEvents ⊆ w'.db.deliveryEvents := by
  induction h with
  | refl => exact List.Subset.refl _
  | tail _ hs ih =>
    rcases hs with hs | hs
    · exact List.Subset.trans ih hs.1.logs.subset.2
    · exact hs.db ▸ ih

end Kept

/-- The delivery of the record to the target has a receipt. -/
structure Receipted (classes : ℕ → TargetClass) (db : Db) (recordId : PyStr) (t : TargetValue)
    (id : PyStr) (row : DeliveryRow) : Prop where
  mem : row ∈ db.deliveries
  records : row.Records classes id t
  recordId : row.recordId = .text recordId
  receipt : ∃ q ∈ db.deliveryEvents, q.dispatchId = .text id ∧ q.event = receiptCell

section Delivered

variable {db : Db} {recordId id : PyStr} {t : TargetValue} {row : DeliveryRow}

lemma Receipted.run {w w' : World} {allowed : World → World → Prop}
    (h : Receipted classes w.db recordId t id row)
    (hr : (Rules.dispatcher H classes ds allowed).rely w w') :
    Receipted classes w'.db recordId t id row :=
  ⟨Rules.dispatcher_deliveries hr h.mem,h.records,h.recordId,
    h.receipt.imp fun _ hq => ⟨Rules.dispatcher_events hr hq.1,hq.2⟩⟩

/-- A row of a known kind is read as an event of it. -/
lemma toEvent_receipt {q : DeliveryEventRow} (h : q.event = receiptCell) :
    ∃ e, q.toEvent = some e ∧ e.event = .receipt := by
  rw [DeliveryEventRow.toEvent,h]
  exact ⟨_,rfl,rfl⟩

/-- Its last event is a receipt, so it is read as delivered. -/
lemma Receipted.getDelivery (hk : DeliveriesKept H db) (h : Receipted classes db recordId t id row) :
    ∃ delivery, Stele.getDelivery id db = .ok delivery ∧ delivery.status = .delivered := by
  have hid := h.records.dispatchId
  obtain ⟨text,htext,hct⟩ := h.records.target
  have henc : Encodable id := by
    have := (hk.bound row h.mem).dispatchId
    rwa [hid] at this
  obtain ⟨row',hf⟩ := Option.isSome_iff_exists.mp (List.find?_isSome
    (p := fun d : DeliveryRow => decide (d.dispatchId = .text id)).mpr ⟨row,h.mem,by simp [hid]⟩)
  have hid' := List.find?_some hf
  rw [decide_eq_true_eq] at hid'
  obtain rfl := hk.consistent.delivery_eq h.mem (List.mem_of_find?_eq_some hf) (by rw [hid,hid'])
  refine ⟨⟨id,row.recordId.get,row.targetKind.get,canonicalImage ((classes t.cls).asdict t.values),
    row.createdAt.get,(eventsOf db row.dispatchId).filterMap DeliveryEventRow.toEvent⟩,?_,?_⟩
  · simp only [Stele.getDelivery,bindText,henc,if_true,hf,deliveryOfRow,htext,loadsColumn,
      loads_canonicalText hct,hid,bind,Except.bind]
    rfl
  · obtain ⟨q,hq,hqid,hqr⟩ := h.receipt
    have hlog : eventsOf db row.dispatchId =
        db.deliveryEvents.filter fun r => decide (r.dispatchId = .text id) := by
      rw [eventsOf,orderByEventId_eq hk.consistent.keys.eventIds,hid]
    have hmem : q ∈ eventsOf db row.dispatchId := by
      rw [hlog]
      exact List.mem_filter.mpr ⟨hq,by simp [hqid]⟩
    have hpair : (eventsOf db row.dispatchId).Pairwise fun a b =>
        a.dispatchId = b.dispatchId → a.event = receiptCell → b.event = receiptCell := by
      rw [hlog]
      exact hk.concluded.filter _
    have hids : ∀ r ∈ eventsOf db row.dispatchId, r.dispatchId = .text id := by
      rw [hlog]
      exact fun r hr => of_decide_eq_true (List.mem_filter.mp hr).2
    -- the last event is the receipt, or comes after it
    rcases List.eq_nil_or_concat' (eventsOf db row.dispatchId) with hnil | ⟨init,last,hlast⟩
    · rw [hnil] at hmem
      cases hmem
    rw [hlast] at hmem hpair hids
    have hreceipt : last.event = receiptCell := by
      rcases List.mem_append.mp hmem with hm | hm
      · refine (List.pairwise_append.mp hpair).2.2 q hm last (by simp) ?_ hqr
        rw [hqid,hids last (by simp)]
      · exact List.mem_singleton.mp hm ▸ hqr
    obtain ⟨e,he,hkind⟩ := toEvent_receipt hreceipt
    simp only [Delivery.status,hlast,List.filterMap_append,List.filterMap_cons,he,List.filterMap_nil,
      List.getLast?_concat,hkind]

/-- open_delivery adds nothing, and finds it. -/
lemma Receipted.find (hk : DeliveriesKept H db) (h : Receipted classes db recordId t id row) :
    ∃ text, canonicalText ((classes t.cls).asdict t.values) = .ok text ∧
      findDispatchId recordId (classes t.cls).name text db = .ok id ∧
      ∀ e : Env, Encodable e.uuid → Encodable e.now →
        openTx H e recordId (classes t.cls).name text db = .ok ((),db) := by
  obtain ⟨text,htext,hct⟩ := h.records.target
  refine ⟨text,hct,?_,fun e hu hn => ?_⟩
  · obtain ⟨row',hf⟩ := Option.isSome_iff_exists.mp (List.find?_isSome (p := fun d : DeliveryRow =>
      decide (d.recordId = .text recordId) && decide (d.targetKind = .text (classes t.cls).name) &&
        decide (d.target = .text text)).mpr
      ⟨row,h.mem,by simp [h.recordId,h.records.kind,htext]⟩)
    have hrow := List.find?_some hf
    simp only [Bool.and_eq_true,decide_eq_true_eq] at hrow
    have hsame : row' = row := by
      refine List.inj_on_of_nodup_map hk.unique (List.mem_of_find?_eq_some hf) h.mem ?_
      rw [hrow.1.1,hrow.1.2,hrow.2,h.recordId,h.records.kind,htext]
    obtain rfl := hsame
    obtain ⟨_,_,_,_,_⟩ := row'
    obtain rfl := h.records.dispatchId
    rw [findDispatchId,hf]
  · have hb := hk.bound row h.mem
    have hrec : Encodable recordId := by
      have := hb.recordId
      rwa [h.recordId] at this
    have hkind : Encodable (classes t.cls).name := by
      have := hb.kind
      rwa [h.records.kind] at this
    have hany : (db.deliveries.any fun d => decide (d.dispatchId = .text e.uuid) ||
        (decide (d.recordId = .text recordId) && decide (d.targetKind = .text (classes t.cls).name) &&
          decide (d.target = .text text))) = true :=
      List.any_eq_true.mpr ⟨row,h.mem,by simp [h.recordId,h.records.kind,htext]⟩
    simp only [openTx,bindText,hu,hn,hrec,hkind,(canonicalText_ok.mp hct).2,if_true,insertDelivery,hany,
      bind,Except.bind]
    rfl

/-- The dispatch was refused before it opened its delivery: the record could not be read as
sealed, or its bundle did not verify. -/
inductive Refused (H : Hasher) (c : DispatchArgs) (own : List (World × World)) : Prop
  | unsealed (q : World × World) (hq : q ∈ own)
    (h : ∀ live, getRecord c.recordId q.1.db = .ok live → live.state ≠ .sealed)
  | unverified (q q' : World × World) (live : ArtifactRecord) (hq : q ∈ own) (hq' : q' ∈ own)
    (hl : getRecord c.recordId q.1.db = .ok live)
    (h : Dispatcher.verifyBundle H live c.recordId q'.1.archive ≠ .ok ())

lemma openTx_times {e : Env} {kind encoded : PyStr} {db' : Db}
    (h : openTx H e recordId kind encoded db = .ok ((),db')) : Encodable e.uuid ∧ Encodable e.now := by
  obtain ⟨_,h1,h⟩ := except_bind_ok.mp h
  obtain ⟨_,_,h⟩ := except_bind_ok.mp h
  obtain ⟨_,_,h⟩ := except_bind_ok.mp h
  obtain ⟨_,_,h⟩ := except_bind_ok.mp h
  obtain ⟨_,h5,_⟩ := except_bind_ok.mp h
  exact ⟨bindText_encodable h1,bindText_encodable h5⟩

/-- What a dispatch of a delivered delivery comes to, with an id and a time that can be bound. -/
def AlreadyDelivered (H : Hasher) (c : DispatchArgs) (r : Except Exc DispatchResult)
    (own : List (World × World)) : Prop :=
  Encodable c.opening.uuid → Encodable c.opening.now →
    (∃ res, r = .ok res ∧ res.alreadyDelivered = true) ∨ Refused H c own

section Meets

variable {c : DispatchArgs} {s w : World} {own : List (World × World)}
  {Q : Except Exc DispatchResult → List (World × World) → World → Prop} {k : PyStr → Op DispatchResult}

/-- open_delivery finds the delivery that has the receipt. -/
lemma Receipted.openDelivery (hk : DeliveriesKept H s.db)
    (h : Receipted classes s.db c.recordId c.target id row)
    (hnext : ∀ own' t, (settledRules H classes ds).rely s t →
      Meets (settledRules H classes ds) (LedgerStep H AnyTransition) Q (k id).run own' t)
    (hfail : ∀ e own' t, ¬(Encodable c.opening.uuid ∧ Encodable c.opening.now) → Q (.error e) own' t) :
    Meets (settledRules H classes ds) (LedgerStep H AnyTransition) Q
      (DeliveryLog.openDelivery H c.opening c.recordId (some (c.target.toTarget classes)) >>= k).run own s := by
  have keep : ∀ {u}, (settledRules H classes ds).rely s u → DeliveriesKept H u.db ∧
      Receipted classes u.db c.recordId c.target id row := fun hu => ⟨hk.run hu,h.run hu⟩
  obtain ⟨text,ht,-,-⟩ := h.find hk
  refine Meets.bindExcept ?_
  have hlift : encodeTarget (some (c.target.toTarget classes)) =
      .ok ((classes c.target.cls).name,text) := by
    rw [encodeTarget,TargetValue.toTarget,ht]
    rfl
  refine Meets.bindExcept (Meets.ret fun t1 h1 => ?_)
  rw [hlift]
  refine Meets.bindExcept (Meets.atomic fun t2 h2 _ => ?_)
  have hk2 := keep ((settledRules H classes ds).trans h1 h2)
  obtain ⟨text',ht',-,hopen⟩ := hk2.2.find hk2.1
  obtain rfl := Except.ok.inj (ht.symm.trans ht')
  rcases writeTransaction_cases
    (openTx H c.opening c.recordId (classes c.target.cls).name text) t2.db with ⟨a,db,hb,hw⟩ | ⟨e,hb,hw⟩
  · obtain ⟨hu,hn⟩ := openTx_times hb
    obtain ⟨-,rfl⟩ := Prod.mk.inj (Except.ok.inj (hb.symm.trans (hopen c.opening hu hn)))
    dsimp only
    rw [hw]
    refine ⟨.stay t2,fun t3 h3 => Meets.atomic fun t4 h4 _ => ⟨.stay t4,fun t5 h5 => ?_⟩⟩
    have h34 := (settledRules H classes ds).trans h3 h4
    have hk4 := keep ((settledRules H classes ds).trans h1 ((settledRules H classes ds).trans h2 h34))
    obtain ⟨text',ht',hfind,-⟩ := hk4.2.find hk4.1
    obtain rfl := Except.ok.inj (ht.symm.trans ht')
    dsimp only
    rw [hfind]
    exact hnext _ _ ((settledRules H classes ds).trans h1 ((settledRules H classes ds).trans h2
      ((settledRules H classes ds).trans h34 h5)))
  · dsimp only
    rw [hw]
    refine ⟨.stay t2,fun t3 _ => hfail _ _ _ fun henc => ?_⟩
    rw [hopen c.opening henc.1 henc.2] at hb
    cases hb

/-- A dispatch that starts after the receipt reads that, and its steps write nothing. -/
lemma Receipted.dispatch (hk : DeliveriesKept H w.db)
    (h : Receipted classes w.db c.recordId c.target id row) :
    Meets (settledRules H classes ds) (LedgerStep H AnyTransition)
      (fun r own _ => AlreadyDelivered H c r own) (d.dispatch H classes c).run [] w := by
  refine Meets.bindExcept (Meets.atomic fun t1 h1 _ => ⟨.stay t1,fun u1 hu1 => ?_⟩)
  cases hlive : getRecord c.recordId t1.db with
  | error e =>
    exact fun _ _ => Or.inr (.unsealed (t1,t1) (by simp) fun live hl => by rw [hlive] at hl; cases hl)
  | ok live =>
    by_cases hs : live.state = .sealed
    · dsimp only
      rw [if_neg (not_not.mpr hs)]
      refine Meets.bindExcept (Meets.atomic fun t2 h2 _ => ⟨.archive (.refl _),fun u2 hu2 => ?_⟩)
      dsimp only
      cases hv : Dispatcher.verifyBundle H live c.recordId t2.archive with
      | error e =>
        exact fun _ _ => Or.inr (.unverified (t1,t1) (t2,t2) live (by simp)
          (List.mem_append_right _ List.mem_cons_self) hlive (by rw [hv]; nofun))
      | ok _ =>
        have hw2 : (settledRules H classes ds).rely w u2 := (settledRules H classes ds).trans h1
          ((settledRules H classes ds).trans hu1 ((settledRules H classes ds).trans h2 hu2))
        refine (h.run hw2).openDelivery (hk.run hw2) (fun own t ht => ?_) fun _ _ _ hn hu hnow =>
          absurd ⟨hu,hnow⟩ hn
        refine Meets.bindExcept (Meets.atomic fun t3 h3 _ => ⟨.stay t3,fun u3 _ => ?_⟩)
        have hw3 := (settledRules H classes ds).trans hw2 ((settledRules H classes ds).trans ht h3)
        obtain ⟨delivery,hget,hstatus⟩ := (h.run hw3).getDelivery (hk.run hw3)
        dsimp only
        rw [hget]
        dsimp only
        rw [if_pos hstatus]
        exact fun _ _ _ _ => Or.inl ⟨_,rfl,rfl⟩
    · dsimp only
      rw [if_pos hs]
      exact fun _ _ _ _ => Or.inr (.unsealed (t1,t1) (by simp) fun l hl => by
        rw [hlive] at hl
        exact Except.ok.inj hl ▸ hs)

end Meets

end Delivered

section Runs

/-- From its receipt on, a delivery is not written again: a dispatch that starts later calls no
writer at all, and comes to the result "already delivered" unless it is refused. -/
structure DeliveredOnce (H : Hasher) (classes : ℕ → TargetClass) (p : DeliveryPool) : Prop where
  unwritten : ∀ t ∈ p.threads, ∀ d c id row, t.call = .dispatch d c →
    Receipted classes t.start.db c.recordId c.target id row → ∀ q ∈ t.own, q.2.writes = q.1.writes
  delivered : ∀ t ∈ p.threads, ∀ d c id row r, t.call = .dispatch d c →
    Receipted classes t.start.db c.recordId c.target id row → Encodable c.opening.uuid →
    Encodable c.opening.now → t.prog = .ret r →
      (∃ res, r = .ok (.dispatched res) ∧ res.alreadyDelivered = true) ∨ Refused H c t.own

/-- What a call does in its steps, and what it comes to. -/
def DeliveryCall.Steps (H : Hasher) (classes : ℕ → TargetClass) (c : DeliveryCall)
    (start w w' : World) : Prop :=
  (DispatcherStep H classes (fun _ => True) w w' ∧ settled w w' = true) ∧
    ∀ d a id row, c = .dispatch d a → Receipted classes start.db a.recordId a.target id row →
      w'.writes = w.writes

def DeliveryCall.Done (H : Hasher) (classes : ℕ → TargetClass) (c : DeliveryCall) (start : World)
    (r : Except Exc CallResult) (own : List (World × World)) (_ : World) : Prop :=
  ∀ d a id row, c = .dispatch d a → Receipted classes start.db a.recordId a.target id row →
    Encodable a.opening.uuid → Encodable a.opening.now →
      (∃ res, r = .ok (.dispatched res) ∧ res.alreadyDelivered = true) ∨ Refused H a own

lemma DeliveryCall.meets {c : DeliveryCall} {w : World} (hk : DeliveriesKept H w.db) :
    Meets (settledRules H classes fun _ => True) (c.Steps H classes w) (c.Done H classes w)
      (c.prog H classes) [] w := by
  have hany : Meets (settledRules H classes fun _ => True)
      (fun a b => DispatcherStep H classes (fun _ => True) a b ∧ settled a b = true)
      (fun _ _ _ => True) (c.prog H classes) [] w :=
    Meets.only_allowed ((DispatcherCall.meets trivial c.toCall w).mono fun _ _ _ _ => trivial)
  by_cases hr : ∃ d a id row, c = .dispatch d a ∧ Receipted classes w.db a.recordId a.target id row
  · obtain ⟨d,a,id,row,rfl,hrec⟩ := hr
    have hm : Meets (settledRules H classes fun _ => True)
        (fun a b => LedgerStep H AnyTransition a b ∧ settled a b = true)
        (fun r own _ => AlreadyDelivered H a r own) (d.dispatch H classes a).run [] w :=
      Meets.only_allowed (hrec.dispatch hk)
    refine Meets.map ((Meets.weaken (fun b b' hb => ?_) hm).mono fun r own t hd => ?_)
    · exact ⟨⟨.ledger hb.1,hb.2⟩,fun _ _ _ _ _ _ => hb.1.writers.1⟩
    · intro d' a' _ _ he _ hu hn
      obtain ⟨-,rfl⟩ := DeliveryCall.dispatch.inj he
      rcases hd hu hn with ⟨res,rfl,hres⟩ | href
      · exact Or.inl ⟨res,rfl,hres⟩
      · exact Or.inr href
  · refine (Meets.weaken (fun b b' hb => ⟨hb,?_⟩) hany).mono fun _ _ _ _ => ?_
    · exact fun d a id row hc hrec => absurd ⟨d,a,id,row,hc,hrec⟩ hr
    · exact fun d a id row hc hrec => absurd ⟨d,a,id,row,hc,hrec⟩ hr

/-- In every run in which an attempt logs its intent or its failure only while its delivery
has no receipt, a delivered delivery is never written again. -/
theorem delivered_once (H : Hasher) (classes : ℕ → TargetClass) (a : Archive) (p : DeliveryPool)
    (h : Interleaved (DeliveryCall.prog H classes) Outside (fun w w' => settled w w' = true)
      (World.new a) p) : DeliveredOnce H classes p := by
  have hk := h.known (R := settledRules H classes fun _ => True)
    (fun c start => c.Steps H classes start) (fun c start => c.Done H classes start)
    (fun _ _ hab => .single (Or.inr hab)) (fun _ _ _ _ hg => .single (Or.inl hg.1))
    (fun c w hw => DeliveryCall.meets (deliveriesKept_new.run hw))
  refine ⟨fun t ht d c id row hc hrec q hq => ?_,fun t ht d c id row r hc hrec hu hn hr => ?_⟩
  · exact ((hk.2 t ht).own q hq).2 d c id row hc hrec
  · have hm := (hk.2 t ht).meets
    rw [hr] at hm
    exact hm _ ((settledRules H classes fun _ => True).refl _) d c id row hc hrec hu hn

/-- One attempt to deliver the sample record. -/
def sampleAttempt (n : ℕ) (write : WriteOutcome) : DeliveryCall :=
  .dispatch (Dispatcher.empty.registerTarget 0 0) ⟨lit "r1",⟨0,[.str (lit "x")]⟩,envAt n,envAt (n+1),
    envAt (n+2),.ok [sampleChunk],write,fun _ => [],fun _ => ⟨envAt n,envAt n,.removed none,fun _ => []⟩⟩

/-- The record is created and sealed. -/
def sampleStart : List (Turn DeliveryCall) :=
  Turn.spawn (.createPending sampleEnv samplePending) :: List.replicate 4 (Turn.act 0)++
    Turn.spawn (.sealRecord (envAt 0) (lit "r1")) :: List.replicate 6 (Turn.act 0)

/-- Two attempts announce their writes; one is received, and then the other one fails. A third
attempt starts after that. -/
def overlappingTurns : List (Turn DeliveryCall) :=
  sampleStart++Turn.spawn (sampleAttempt 1 .wrote) :: List.replicate 7 (Turn.act 0)++
    Turn.spawn (sampleAttempt 4 (.raised [])) :: List.replicate 7 (Turn.act 0)++
    List.replicate 3 (Turn.act 1)++List.replicate 3 (Turn.act 0)++
    Turn.spawn (sampleAttempt 7 .wrote) :: List.replicate 10 (Turn.act 0)

def playTurns (check : World → World → Bool) (ts : List (Turn DeliveryCall)) : Bool × DeliveryPool :=
  Pool.turns (DeliveryCall.prog .checksum sampleClasses) check ts ⟨World.new .empty,[]⟩

/-- The record a call dispatches, and its target as the ledger spells it. -/
def DeliveryCall.dispatched : DeliveryCall → Option (TextCell × Option TextCell)
  | .dispatch _ c => some (.text c.recordId,
    (canonicalText ((sampleClasses c.target.cls).asdict c.target.values)).toOption.map .text)
  | _ => none

/-- What a call dispatches, the deliveries and the log that it found when it started, and how many
writes each of its steps was. -/
structure CallTrace where
  dispatched : Option (TextCell × Option TextCell)
  rows : List (TextCell × TextCell × TextCell × TextCell)
  log : List (TextCell × TextCell)
  writes : List ℕ
  deriving DecidableEq

def lastCall (p : DeliveryPool) : Option CallTrace :=
  p.threads.head?.map fun t => ⟨t.call.dispatched,
    t.start.db.deliveries.map fun row => (row.dispatchId,row.recordId,row.targetKind,row.target),
    t.start.db.deliveryEvents.map fun q => (q.dispatchId,q.event),
    t.own.map fun q => q.2.writes.length-q.1.writes.length⟩

def sampleTarget : PyStr := lit "\x7b\"name\":\"x\"\x7d"

/-- When the last call started, the sample delivery had a receipt. -/
lemma lastCall_receipted {p : DeliveryPool} {es : List (TextCell × TextCell)} {ns : List ℕ}
    (h : lastCall p = some ⟨some (.text (lit "r1"),some (.text sampleTarget)),[(.text (lit "u1"),
      .text (lit "r1"),.text (lit "Target"),.text sampleTarget)],es,ns⟩)
    (he : (.text (lit "u1"),receiptCell) ∈ es) :
    ∃ t ∈ p.threads, t.own.map (fun q => q.2.writes.length-q.1.writes.length) = ns ∧
      ∃ d c row, t.call = .dispatch d c ∧
        Receipted sampleClasses t.start.db c.recordId c.target (lit "u1") row := by
  obtain ⟨t,ht,hf⟩ := Option.map_eq_some_iff.mp h
  obtain ⟨hcall,hrows,rfl,rfl⟩ := CallTrace.mk.inj hf
  obtain ⟨row,_,hd,hrow,-⟩ := List.map_eq_cons_iff.mp hrows
  simp only [Prod.mk.injEq] at hrow
  obtain ⟨q,hq,hqe⟩ := List.mem_map.mp he
  obtain ⟨hqid,hqr⟩ := Prod.mk.inj hqe
  cases hc : t.call with
  | dispatch d c =>
    rw [hc] at hcall
    obtain ⟨hrec,htarget⟩ := Prod.mk.inj (Option.some.inj hcall)
    obtain ⟨text,hok,htext⟩ := Option.map_eq_some_iff.mp htarget
    refine ⟨t,List.mem_of_head? ht,rfl,d,c,row,hc,by rw [hd]; exact List.mem_cons_self,
      ⟨hrow.1,hrow.2.2.1,sampleTarget,hrow.2.2.2,?_⟩,hrow.2.1.trans hrec.symm,q,hq,hqid,hqr⟩
    obtain rfl := TextCell.text.inj htext
    cases hc : canonicalText ((sampleClasses c.target.cls).asdict c.target.values) with
    | error e => rw [hc] at hok; cases hok
    | ok text => rw [hc] at hok; exact congrArg _ (Option.some.inj hok)
  | _ => rw [hc] at hcall; cases hcall

/-- The same attempts one after the other. -/
def sequentialTurns : List (Turn DeliveryCall) :=
  sampleStart++Turn.spawn (sampleAttempt 1 .wrote) :: List.replicate 10 (Turn.act 0)++
    Turn.spawn (sampleAttempt 4 .wrote) :: List.replicate 10 (Turn.act 0)

/-- What the calls of the two schedules found and wrote. -/
lemma sample_runs : ((playTurns settled sequentialTurns).1,lastCall (playTurns settled sequentialTurns).2) =
      (true,some ⟨some (.text (lit "r1"),some (.text sampleTarget)),
        [(.text (lit "u1"),.text (lit "r1"),.text (lit "Target"),.text sampleTarget)],
        [(.text (lit "u1"),.text (lit "intent")),(.text (lit "u1"),receiptCell)],[0,0,0,0,0]⟩) ∧
    ((playTurns (fun _ _ => true) overlappingTurns).1,
        lastCall (playTurns (fun _ _ => true) overlappingTurns).2) =
      (true,some ⟨some (.text (lit "r1"),some (.text sampleTarget)),
        [(.text (lit "u1"),.text (lit "r1"),.text (lit "Target"),.text sampleTarget)],
        [(.text (lit "u1"),.text (lit "intent")),(.text (lit "u1"),.text (lit "intent")),
          (.text (lit "u1"),receiptCell),(.text (lit "u1"),.text (lit "failure"))],
        [0,0,0,0,0,0,1,0,0,0]⟩) := by
  decide +kernel

/-- The second one finds the receipt of the first. -/
theorem delivered_once_sample : ∃ p : DeliveryPool, DeliveredOnce .checksum sampleClasses p ∧
    ∃ t ∈ p.threads, t.own.length = 5 ∧ ∃ d c row, t.call = .dispatch d c ∧
      Receipted sampleClasses t.start.db c.recordId c.target (lit "u1") row := by
  obtain ⟨hok,hlast⟩ := Prod.mk.inj sample_runs.1
  have h : Interleaved (DeliveryCall.prog .checksum sampleClasses) Outside
      (fun w w' => settled w w' = true) (World.new .empty) (playTurns settled sequentialTurns).2 :=
    Interleaved.turns (fun _ _ h => h) sequentialTurns (Runs.Reaches.refl _) hok
  obtain ⟨t,ht,hown,hrec⟩ := lastCall_receipted hlast (by simp)
  refine ⟨_,delivered_once .checksum sampleClasses .empty _ h,t,ht,?_,hrec⟩
  have hlen := congrArg List.length hown
  rwa [List.length_map] at hlen

/-- An attempt that fails after another attempt's receipt: the next dispatch writes again. -/
theorem delivered_again : ¬∀ (H : Hasher) (classes : ℕ → TargetClass) (a : Archive) (p : DeliveryPool),
    Interleaved (DeliveryCall.prog H classes) Outside (fun _ _ => True) (World.new a) p →
    DeliveredOnce H classes p := by
  intro hall
  obtain ⟨hok,hlast⟩ := Prod.mk.inj sample_runs.2
  have h : Interleaved (DeliveryCall.prog .checksum sampleClasses) Outside (fun _ _ => True)
      (World.new .empty) (playTurns (fun _ _ => true) overlappingTurns).2 :=
    Interleaved.turns (fun _ _ _ => trivial) overlappingTurns (Runs.Reaches.refl _) hok
  obtain ⟨t,ht,hown,d,c,row,hcall,hrec⟩ := lastCall_receipted hlast (by simp)
  have hunwritten := (hall .checksum sampleClasses .empty _ h).unwritten t ht d c (lit "u1") row hcall hrec
  have hsame : ∀ n ∈ t.own.map (fun q => q.2.writes.length-q.1.writes.length), n = 0 := by
    intro n hn
    obtain ⟨q,hq,rfl⟩ := List.mem_map.mp hn
    rw [hunwritten q hq,Nat.sub_self]
  rw [hown] at hsame
  exact absurd (hsame 1 (by simp)) Nat.one_ne_zero

end Runs

end Stele
