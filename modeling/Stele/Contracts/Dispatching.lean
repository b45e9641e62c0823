import Stele.Contracts.Dispatcher
import Stele.Ledger.Consistency

/-! What the calls of one dispatcher do to the ledger and to the target writers, whatever
other calls do in between: each delivery's writes and removals meet at one target. -/
namespace Stele
open Python Interleaving

variable {H : Hasher} {classes : ℕ → TargetClass} {d : Dispatcher} {ds : Dispatcher → Prop}
  {allowed : World → World → Prop}

/-- The row is the delivery of this id, to this target. -/
structure DeliveryRow.Records (classes : ℕ → TargetClass) (row : DeliveryRow) (id : PyStr)
    (t : TargetValue) : Prop where
  dispatchId : row.dispatchId = .text id
  kind : row.targetKind = .text (classes t.cls).name
  target : ∃ text, row.target = .text text ∧
    canonicalText ((classes t.cls).asdict t.values) = .ok text

def Recorded (classes : ℕ → TargetClass) (db : Db) (id : PyStr) (t : TargetValue) : Prop :=
  ∃ row ∈ db.deliveries, row.Records classes id t

/-- The call is the one that the row of its delivery leads to. -/
def Removable (classes : ℕ → TargetClass) (d : Dispatcher) (db : Db) (c : RemovalCall) : Prop :=
  ∃ row ∈ db.deliveries, ∃ target, row.dispatchId.get = c.dispatchId ∧
    loadsColumn row.target = .ok target ∧
    d.writerByName classes row.targetKind.get = .ok (c.target.cls,c.writer) ∧
    construct classes c.target.cls target = .ok c.target

/-- One action of a call of one of these dispatchers, or of any other call of the ledger's
writers. -/
inductive DispatcherStep (H : Hasher) (classes : ℕ → TargetClass) (ds : Dispatcher → Prop) :
    World → World → Prop
  | ledger {w w' : World} (h : LedgerStep H AnyTransition w w') : DispatcherStep H classes ds w w'
  | write {w : World} {d : Dispatcher} (c : Write) (hd : ds d)
    (hw : d.writers.get c.target.cls = some c.writer) (h : Recorded classes w.db c.dispatchId c.target) :
    DispatcherStep H classes ds w {w with writes := w.writes++[c]}
  | remove {w : World} {d : Dispatcher} (c : RemovalCall) (hd : ds d) (h : Removable classes d w.db c) :
    DispatcherStep H classes ds w {w with removals := w.removals++[c]}

/-- Other processes may do anything to the archive; the ledger is written through calls. -/
structure Outside (w w' : World) : Prop where
  db : w.db = w'.db
  writes : w.writes = w'.writes
  removals : w.removals = w'.removals

/-- Between two actions of a call others may do what is allowed of these steps. -/
def Rules.dispatcher (H : Hasher) (classes : ℕ → TargetClass) (ds : Dispatcher → Prop)
    (allowed : World → World → Prop) : Rules World where
  rely := Relation.ReflTransGen fun w w' =>
    (DispatcherStep H classes ds w w' ∧ allowed w w') ∨ Outside w w'
  allowed := allowed
  refl _ := .refl
  trans h h' := h.trans h'

section Steps

variable {w w' : World}

lemma LedgerStep.writers {P : World → PyStr → Transition → Prop} (h : LedgerStep H P w w') :
    w'.writes = w.writes ∧ w'.removals = w.removals := by
  cases h <;> exact ⟨rfl,rfl⟩

lemma transitionTx_logs {e : Env} {id : PyStr} {t : Transition} {b : Bool} {db db' : Db}
    (h : transitionTx H e id t db = .ok (b,db')) :
    db'.deliveries = db.deliveries ∧ db'.deliveryEvents = db.deliveryEvents := by
  obtain ⟨_,_,h⟩ := except_bind_ok.mp h
  obtain ⟨_,_,h⟩ := except_bind_ok.mp h
  obtain ⟨_,_,h⟩ := except_bind_ok.mp h
  simp only at h
  split at h
  · obtain ⟨⟨ev,db2⟩,he,h⟩ := except_bind_ok.mp h
    obtain ⟨_,rfl⟩ := Prod.mk.inj (Except.ok.inj h)
    obtain ⟨_,rfl,_⟩ := appendEvent_logs he
    exact ⟨rfl,rfl⟩
  · obtain ⟨_,rfl⟩ := Prod.mk.inj (Except.ok.inj h)
    exact ⟨rfl,rfl⟩

lemma bindText_encodable {s : PyStr} {c : TextCell} (h : bindText s = .ok c) : Encodable s := by
  unfold bindText at h
  split_ifs at h with he
  exact he

/-- The texts of a delivery are those that sqlite3 could bind. -/
structure DeliveryRow.Bound (row : DeliveryRow) : Prop where
  dispatchId : Encodable row.dispatchId.get
  recordId : Encodable row.recordId.get
  kind : Encodable row.targetKind.get
  target : Encodable row.target.get

lemma openTx_bound {e : Env} {recordId kind encoded : PyStr} {db db' : Db}
    (h : openTx H e recordId kind encoded db = .ok ((),db')) (at' : TextCell) :
    DeliveryRow.Bound ⟨.text e.uuid,.text recordId,.text kind,.text encoded,at'⟩ := by
  obtain ⟨_,h1,h⟩ := except_bind_ok.mp h
  obtain ⟨_,h2,h⟩ := except_bind_ok.mp h
  obtain ⟨_,h3,h⟩ := except_bind_ok.mp h
  obtain ⟨_,h4,h⟩ := except_bind_ok.mp h
  exact ⟨bindText_encodable h1,bindText_encodable h2,bindText_encodable h3,bindText_encodable h4⟩

/-- What a step does to the deliveries and their logs: nothing, or one new row. -/
inductive LogsChange (db db' : Db) : Prop
  | none (hd : db'.deliveries = db.deliveries) (he : db'.deliveryEvents = db.deliveryEvents)
  | delivery (row : DeliveryRow) (hd : db'.deliveries = db.deliveries++[row])
    (he : db'.deliveryEvents = db.deliveryEvents) (hb : row.Bound)
    (hnew : ∀ q ∈ db.deliveries,
      ¬(q.recordId = row.recordId ∧ q.targetKind = row.targetKind ∧ q.target = row.target))
  | event (id now : PyStr) (a : EventArgs) (row : DeliveryEventRow)
    (hd : db'.deliveries = db.deliveries) (he : db'.deliveryEvents = db.deliveryEvents++[row])
    (hr : eventRow (nextEventId db) id now a = .ok row) (hp : breaksPayload db row = false)
    (hk : row.event ∈ eventKinds.map fun k => TextCell.text k.value)

lemma LedgerStep.logs {P : World → PyStr → Transition → Prop} (h : LedgerStep H P w w') :
    LogsChange w.db w'.db := by
  cases h with
  | stay | archive => exact .none rfl rfl
  | create _ ht =>
    obtain ⟨_,_,_,_,_,rfl,_⟩ := createTx_ok ht
    exact .none rfl rfl
  | move _ _ ht => exact .none (transitionTx_logs ht).1 (transitionTx_logs ht).2
  | opened ht =>
    obtain rfl | ⟨at',_,rfl,_,hnew,_⟩ := openTx_ok ht
    · exact .none rfl rfl
    · exact .delivery _ rfl rfl (openTx_bound ht at') fun q hq => (hnew q hq).2
  | event ht =>
    obtain ⟨row,_,hr,rfl,_,hp,hk,_⟩ := insertTx_ok ht
    exact .event _ _ _ row rfl rfl hr hp hk
  | replay ht =>
    obtain ⟨_,_,_,rfl,_⟩ := replayTx_ok ht
    exact .none rfl rfl
  | signOff ht =>
    obtain ⟨_,rfl,_⟩ := signOffTx_ok ht
    exact .none rfl rfl

/-- Deliveries and events are only ever added. -/
lemma LogsChange.subset {db db' : Db} (h : LogsChange db db') :
    db.deliveries ⊆ db'.deliveries ∧ db.deliveryEvents ⊆ db'.deliveryEvents := by
  cases h with
  | none hd he => exact ⟨hd ▸ List.Subset.refl _,he ▸ List.Subset.refl _⟩
  | delivery row hd he => exact ⟨hd ▸ List.subset_append_left _ _,he ▸ List.Subset.refl _⟩
  | event _ _ _ row hd he => exact ⟨hd ▸ List.Subset.refl _,he ▸ List.subset_append_left _ _⟩

lemma LedgerStep.deliveries {P : World → PyStr → Transition → Prop} (h : LedgerStep H P w w') :
    w.db.deliveries ⊆ w'.db.deliveries := h.logs.subset.1

lemma DispatcherStep.logs (h : DispatcherStep H classes ds w w') : LogsChange w.db w'.db := by
  cases h with
  | ledger h => exact h.logs
  | write | remove => exact .none rfl rfl

lemma DispatcherStep.deliveries (h : DispatcherStep H classes ds w w') :
    w.db.deliveries ⊆ w'.db.deliveries := h.logs.subset.1

lemma Rules.dispatcher_deliveries (h : (Rules.dispatcher H classes ds allowed).rely w w') :
    w.db.deliveries ⊆ w'.db.deliveries := by
  induction h with
  | refl => exact List.Subset.refl _
  | tail _ hs ih =>
    rcases hs with hs | hs
    · exact List.Subset.trans ih hs.1.deliveries
    · exact hs.db ▸ ih

lemma Consistent.dispatched (h : Consistent H w.db) (hr : (Rules.dispatcher H classes ds allowed).rely w w') :
    Consistent H w'.db := by
  induction hr with
  | refl => exact h
  | tail _ hs ih =>
    rcases hs with hs | hs
    · cases hs.1 with
      | ledger hs => exact ih.step hs
      | write | remove => exact ih
    · exact hs.db ▸ ih

/-- Rows of one dispatch_id are one row. -/
lemma Consistent.delivery_eq {db : Db} (hc : Consistent H db) {row row' : DeliveryRow}
    (hr : row ∈ db.deliveries) (hr' : row' ∈ db.deliveries) (h : row.dispatchId.get = row'.dispatchId.get) :
    row = row' := by
  obtain ⟨s,hs⟩ := hc.keys.deliveries.2 _ (List.mem_map_of_mem hr)
  obtain ⟨s',hs'⟩ := hc.keys.deliveries.2 _ (List.mem_map_of_mem hr')
  refine List.inj_on_of_nodup_map hc.keys.deliveries.1 hr hr' ?_
  rw [hs,hs'] at h ⊢
  exact congrArg TextCell.text h

lemma Recorded.mono {db db' : Db} {id : PyStr} {t : TargetValue} (h : Recorded classes db id t)
    (hs : db.deliveries ⊆ db'.deliveries) : Recorded classes db' id t :=
  h.imp fun _ hr => ⟨hs hr.1,hr.2⟩

lemma Removable.mono {db db' : Db} {c : RemovalCall} (h : Removable classes d db c)
    (hs : db.deliveries ⊆ db'.deliveries) : Removable classes d db' c :=
  h.imp fun _ hr => ⟨hs hr.1,hr.2⟩

/-- What the target writers were called with is what the deliveries say. -/
structure Accounted (classes : ℕ → TargetClass) (ds : Dispatcher → Prop) (w : World) : Prop where
  writes : ∀ c ∈ w.writes, (∃ d, ds d ∧ d.writers.get c.target.cls = some c.writer) ∧
    Recorded classes w.db c.dispatchId c.target
  removals : ∀ c ∈ w.removals, ∃ d, ds d ∧ Removable classes d w.db c

lemma Accounted.mono (h : Accounted classes ds w) (hd : w.db.deliveries ⊆ w'.db.deliveries)
    (hw : w'.writes = w.writes) (hr : w'.removals = w.removals) : Accounted classes ds w' where
  writes c hc := (h.writes c (hw ▸ hc)).imp_right fun hc => hc.mono hd
  removals c hc := (h.removals c (hr ▸ hc)).imp fun _ hc => ⟨hc.1,hc.2.mono hd⟩

lemma Accounted.step (h : Accounted classes ds w) (hs : DispatcherStep H classes ds w w') :
    Accounted classes ds w' := by
  cases hs with
  | ledger hs => exact h.mono hs.deliveries hs.writers.1 hs.writers.2
  | write c hd hw hc =>
    refine ⟨fun x hx => ?_,h.removals⟩
    rcases List.mem_append.mp hx with hx | hx
    · exact h.writes x hx
    · obtain rfl := List.mem_singleton.mp hx
      exact ⟨⟨_,hd,hw⟩,hc⟩
  | remove c hd hc =>
    refine ⟨h.writes,fun x hx => ?_⟩
    rcases List.mem_append.mp hx with hx | hx
    · exact h.removals x hx
    · obtain rfl := List.mem_singleton.mp hx
      exact ⟨_,hd,hc⟩

lemma Accounted.run (h : Accounted classes ds w) (hr : (Rules.dispatcher H classes ds allowed).rely w w') :
    Accounted classes ds w' := by
  induction hr with
  | refl => exact h
  | tail _ hs ih =>
    rcases hs with hs | hs
    · exact ih.step hs.1
    · exact ih.mono (hs.db ▸ List.Subset.refl _) hs.writes.symm hs.removals.symm

lemma accounted_new (a : Archive) : Accounted classes ds (World.new a) :=
  ⟨List.forall_mem_nil _,List.forall_mem_nil _⟩

end Steps

section Calls

/-- One of the actions is this call of a writer's remove_delivery. -/
def Called (own : List (World × World)) (c : RemovalCall) : Prop :=
  ∃ q ∈ own, q.2 = {q.1 with removals := q.1.removals++[c]}

/-- One of the actions read the row's delivery. -/
def ReadBack (own : List (World × World)) (row : DeliveryRow) (delivery : Delivery) : Prop :=
  ∃ q ∈ own, deliveryOfRow q.1.db row = .ok delivery

lemma Called.mono {own own' : List (World × World)} {c : RemovalCall} (h : Called own c)
    (hp : own <+: own') : Called own' c := h.imp fun _ hq => ⟨hp.subset hq.1,hq.2⟩

lemma ReadBack.mono {own own' : List (World × World)} {row : DeliveryRow} {delivery : Delivery}
    (h : ReadBack own row delivery) (hp : own <+: own') : ReadBack own' row delivery :=
  h.imp fun _ hq => ⟨hp.subset hq.1,hq.2⟩

lemma deliveryOfRow_ok {db : Db} {row : DeliveryRow} {delivery : Delivery}
    (h : deliveryOfRow db row = .ok delivery) : delivery.dispatchId = row.dispatchId.get ∧
      delivery.recordId = row.recordId.get ∧ delivery.targetKind = row.targetKind.get ∧
      loadsColumn row.target = .ok delivery.target := by
  obtain ⟨target,ht,h⟩ := except_bind_ok.mp h
  obtain rfl := Except.ok.inj h
  exact ⟨rfl,rfl,rfl,ht⟩

/-- What a delivery that was read leads to is what its row leads to. -/
lemma remover_removable {db : Db} {own : List (World × World)} {row : DeliveryRow}
    {delivery : Delivery} {c : RemovalCall} (hm : row ∈ db.deliveries) (hr : ReadBack own row delivery)
    (h : d.remover classes delivery = .ok c) : Removable classes d db c := by
  obtain ⟨q,-,hq⟩ := hr
  obtain ⟨hid,-,hkind,htarget⟩ := deliveryOfRow_ok hq
  obtain ⟨⟨targetType,writer⟩,hw,h⟩ := except_bind_ok.mp h
  obtain ⟨target,hc,h⟩ := except_bind_ok.mp h
  obtain rfl := Except.ok.inj h
  have hcls : target.cls = targetType := by
    cases hd : delivery.target with
    | dict kwargs =>
      rw [hd,construct] at hc
      cases hi : (classes targetType).init kwargs with
      | error e => rw [hi] at hc; cases hc
      | ok values =>
        rw [hi] at hc
        exact congrArg TargetValue.cls (Except.ok.inj hc).symm
    | _ => rw [hd] at hc; cases hc
  refine ⟨row,hm,delivery.target,hid.symm,htarget,?_,?_⟩
  · rw [← hkind,hcls]
    exact hw
  · rw [hcls]
    exact hc

variable {own : List (World × World)} {s : World}

lemma relied {w w' : World} (h : DispatcherStep H classes ds w w') (ha : allowed w w') :
    (Rules.dispatcher H classes ds allowed).rely w w' := .single (Or.inl ⟨h,ha⟩)

/-- What a ledger call does is a part of a dispatcher's call. -/
lemma Acts.yields {α : Type} {V : α → Prop} {p : Op α}
    (h : Acts (Rules.dispatcher H classes ds allowed) (LedgerStep H AnyTransition) V p) :
    Yields (Rules.dispatcher H classes ds allowed) (DispatcherStep H classes ds) (fun a _ _ => V a) p own s :=
  Meets.weaken (fun _ _ => .ledger) (h own s)

lemma query_yields {α : Type} {f : Db → Except Exc α} :
    Yields (Rules.dispatcher H classes ds allowed) (DispatcherStep H classes ds)
      (fun a own' t => ∃ u, (Rules.dispatcher H classes ds allowed).rely s u ∧
        (Rules.dispatcher H classes ds allowed).rely u t ∧ f u.db = .ok a ∧ own' = own++[(u,u)])
      (Op.query f) own s :=
  Meets.atomic fun u hu _ => ⟨.ledger (.stay u),fun _ ht _ ha => ⟨u,hu,ht,ha,rfl⟩⟩

/-- The events of the rows are read one row at a time. -/
lemma readDeliveries_yields (rows : List DeliveryRow) :
    Yields (Rules.dispatcher H classes ds allowed) (DispatcherStep H classes ds)
      (fun read own' _ => List.Forall₂ (ReadBack own') rows read) (readDeliveries rows) own s := by
  induction rows generalizing own s with
  | nil => exact Yields.pure fun _ _ => .nil
  | cons row rows ih =>
    refine Yields.bind (fun _ _ => relied) query_yields fun delivery own' t _ _ hq => ?_
    obtain ⟨u,-,-,hu,rfl⟩ := hq
    refine Yields.bind (fun _ _ => relied) ih fun _ own'' _ _ hown hread => Yields.pure fun _ _ => ?_
    exact .cons ⟨(u,u),hown.subset (List.mem_append_right _ List.mem_cons_self),hu⟩ hread

lemma removalFailed_yields (e : Env) (id repr : PyStr) :
    Yields (Rules.dispatcher H classes ds allowed) (DispatcherStep H classes ds) (fun _ _ _ => True)
      (Dispatcher.removalFailed H e id repr) own s :=
  Acts.yields (.bind (append_acts e id _) fun _ _ => .pure trivial)

/-- A delivery whose writer and target are found is removed through them. -/
lemma remove_yields (hd : ds d) {c : RemovalArgs} {delivery : Delivery}
    (h : ∀ call, d.remover classes delivery = .ok call → Removable classes d s.db call) :
    Yields (Rules.dispatcher H classes ds allowed) (DispatcherStep H classes ds)
      (fun _ own' _ => ∀ call, d.remover classes delivery = .ok call → Called own' call)
      (d.remove H classes c delivery) own s := by
  unfold Dispatcher.remove
  cases hr : d.remover classes delivery with
  | error exc => exact (removalFailed_yields _ _ _).mono fun _ _ _ _ _ he => by cases he
  | ok call =>
    refine Yields.bind (fun _ _ => relied) (Acts.yields (append_acts _ _ _)) fun _ own' t ht _ _ => ?_
    have hcall : Yields (Rules.dispatcher H classes ds allowed) (DispatcherStep H classes ds)
        (fun _ own'' _ => Called own'' call) (Op.removeDelivery call) own' t :=
      Meets.atomic fun u hu _ => ⟨.remove call hd ((h call hr).mono (Rules.dispatcher_deliveries
        ((Rules.dispatcher H classes ds allowed).trans ht hu))),fun _ _ _ _ =>
          ⟨_,List.mem_append_right _ List.mem_cons_self,rfl⟩⟩
    refine Yields.bind (fun _ _ => relied) hcall fun _ own'' t' _ _ hc => ?_
    have done : ∀ {α : Type} {p : Op α}, Yields (Rules.dispatcher H classes ds allowed)
        (DispatcherStep H classes ds) (fun _ _ _ => True) p own'' t' →
        Yields (Rules.dispatcher H classes ds allowed) (DispatcherStep H classes ds)
          (fun _ o _ => ∀ x, (Except.ok call : Except Exc RemovalCall) = .ok x → Called o x) p own'' t' := by
      intro α p hp
      refine (Meets.reached (fun _ _ => relied) hp).mono fun r o u hu a _ x hx => ?_
      obtain rfl := Except.ok.inj hx
      exact hc.mono hu.2.1
    cases c.outcome with
    | raised repr => exact done (removalFailed_yields _ _ _)
    | removed n =>
      exact done (Acts.yields (.bind (append_acts _ _ _) fun _ _ => .pure trivial))

/-- The loop removes each delivery that may have been written. -/
lemma removeAll_yields (hd : ds d) {c : ℕ → RemovalArgs} (deliveries : List Delivery) : ∀ (i : ℕ)
    (own : List (World × World)) (s : World), (∀ delivery ∈ deliveries, ∀ call,
      d.remover classes delivery = .ok call → Removable classes d s.db call) →
    Yields (Rules.dispatcher H classes ds allowed) (DispatcherStep H classes ds)
      (fun _ own' _ => ∀ delivery ∈ deliveries, delivery.possiblyWritten = true → ∀ call,
        d.remover classes delivery = .ok call → Called own' call)
      (d.removeAll H classes c i deliveries) own s := by
  induction deliveries with
  | nil => exact fun _ _ _ _ => Yields.pure fun _ _ => List.forall_mem_nil _
  | cons delivery deliveries ih =>
    intro i own s h
    rw [List.forall_mem_cons] at h
    rw [Dispatcher.removeAll]
    split_ifs with hp
    · refine (ih (i+1) own s h.2).mono fun _ _ _ hv => List.forall_mem_cons.mpr ⟨?_,hv⟩
      rw [hp]
      exact fun hf => by cases hf
    · refine Yields.bind (fun _ _ => relied) (remove_yields hd h.1) fun _ own' t ht _ hc => ?_
      have hrest := ih (i+1) own' t fun x hx call hcall =>
        (h.2 x hx call hcall).mono (Rules.dispatcher_deliveries ht)
      refine Yields.bind (fun _ _ => relied) hrest fun _ own'' _ _ hown hv => Yields.pure fun _ _ => ?_
      exact List.forall_mem_cons.mpr ⟨fun _ call hcall => (hc call hcall).mono hown,hv⟩

/-- A delivery is read, and then removed unless its log shows that nothing of it is held. -/
def Handled (classes : ℕ → TargetClass) (d : Dispatcher) (own : List (World × World))
    (row : DeliveryRow) : Prop :=
  ∃ delivery, ReadBack own row delivery ∧ (delivery.possiblyWritten = false ∨
    ∀ call, d.remover classes delivery = .ok call → Called own call)

lemma mem_deliveriesOf {id : PyStr} {db : Db} {rows : List DeliveryRow}
    (h : deliveriesOf id db = .ok rows) {row : DeliveryRow} :
    row ∈ rows ↔ row ∈ db.deliveries ∧ row.recordId = .text id := by
  obtain ⟨_,_,h⟩ := except_bind_ok.mp h
  obtain rfl := Except.ok.inj h
  rw [(List.perm_insertionSort _ _).mem_iff,List.mem_filter,decide_eq_true_eq]

/-- The deliveries that the record has when it is asked for them. -/
lemma forRecord_yields {id : PyStr} :
    Yields (Rules.dispatcher H classes ds allowed) (DispatcherStep H classes ds)
      (fun read own' t => ∃ rows, List.Forall₂ (ReadBack own') rows read ∧ rows ⊆ t.db.deliveries ∧
        ∀ row ∈ s.db.deliveries, row.recordId = .text id → row ∈ rows)
      (DeliveryLog.forRecord id) own s := by
  refine Yields.bind (fun _ _ => relied) query_yields fun rows own1 s1 h1 _ hq => ?_
  obtain ⟨u,hu,hu1,hrows,rfl⟩ := hq
  refine (Meets.reached (fun _ _ => relied) (readDeliveries_yields rows)).mono ?_
  intro r own2 t ⟨ht,_,hr⟩ read hread
  refine ⟨rows,hr read hread,fun row hrow => ?_,fun row hrow hid => ?_⟩
  · exact Rules.dispatcher_deliveries ((Rules.dispatcher H classes ds allowed).trans hu1 ht)
      ((mem_deliveriesOf hrows).mp hrow).1
  · exact (mem_deliveriesOf hrows).mpr ⟨Rules.dispatcher_deliveries hu hrow,hid⟩

/-- retract handles every delivery that the record had when it was called. -/
lemma retract_yields (hd : ds d) {c : ℕ → RemovalArgs} {id : PyStr} :
    Yields (Rules.dispatcher H classes ds allowed) (DispatcherStep H classes ds)
      (fun _ own' _ => ∀ row ∈ s.db.deliveries, row.recordId = .text id → Handled classes d own' row)
      (d.retract H classes c id) own s := by
  refine Yields.bind (fun _ _ => relied) query_yields fun record own1 s1 h1 _ _ => ?_
  refine Yields.refuse fun _ => Yields.bind (fun _ _ => relied) forRecord_yields ?_
  intro deliveries own2 s2 h2 _ ⟨rows,hrows,hsub,hall⟩
  have hrem : ∀ delivery ∈ deliveries, ∀ call, d.remover classes delivery = .ok call →
      Removable classes d s2.db call := by
    intro delivery hm call hcall
    obtain ⟨row,hrow,hread⟩ := forall₂_mem hrows.flip hm
    exact remover_removable (hsub hrow) hread hcall
  refine (Meets.reached (fun _ _ => relied) (removeAll_yields hd deliveries 0 own2 s2 hrem)).mono ?_
  intro r own3 t ⟨_,hown,hr⟩ results hres row hrow hid
  obtain ⟨delivery,hm,hread⟩ := forall₂_mem hrows (hall row (Rules.dispatcher_deliveries h1 hrow) hid)
  refine ⟨delivery,hread.mono hown,?_⟩
  cases hp : delivery.possiblyWritten with
  | false => exact Or.inl rfl
  | true => exact Or.inr (hr results hres delivery hm hp)

/-- invalidate handles them too. -/
lemma invalidate_yields (hd : ds d) {e : Env} {c : ℕ → RemovalArgs} {id reason : PyStr} :
    Yields (Rules.dispatcher H classes ds allowed) (DispatcherStep H classes ds)
      (fun _ own' _ => ∀ row ∈ s.db.deliveries, row.recordId = .text id → Handled classes d own' row)
      (d.invalidate H classes e c id reason) own s := by
  refine Yields.bind (fun _ _ => relied) query_yields fun record own1 s1 h1 _ _ => ?_
  have hrest : ∀ own' t, (Rules.dispatcher H classes ds allowed).rely s1 t →
      Yields (Rules.dispatcher H classes ds allowed) (DispatcherStep H classes ds)
        (fun _ own' _ => ∀ row ∈ s.db.deliveries, row.recordId = .text id → Handled classes d own' row)
        (d.retract H classes c id) own' t := fun own' t ht =>
    (retract_yields hd).mono fun _ _ _ hv row hrow => hv row
      (Rules.dispatcher_deliveries ((Rules.dispatcher H classes ds allowed).trans h1 ht) hrow)
  refine Yields.ite (fun _ => ?_) fun _ => hrest _ _ .refl
  have hinv : Acts (Rules.dispatcher H classes ds allowed) (LedgerStep H AnyTransition) (fun _ => True)
      (LedgerStore.invalidate H e id reason) :=
    invalidate_acts (fun note => ⟨.invalidated note,fun _ _ => trivial⟩) e id reason
  exact Yields.bind (fun _ _ => relied) hinv.yields fun _ own' t ht _ _ => hrest own' t ht

lemma lift_yields {α : Type} {r : Except Exc α} :
    Yields (Rules.dispatcher H classes ds allowed) (DispatcherStep H classes ds) (fun a _ _ => r = .ok a)
      (Op.lift r) own s := fun _ _ _ ha => ha

/-- The delivery that open_delivery finds is one to the target. -/
lemma openDelivery_yields {e : Env} {id : PyStr} {t : TargetValue} :
    Yields (Rules.dispatcher H classes ds allowed) (DispatcherStep H classes ds)
      (fun dispatchId _ w => Recorded classes w.db dispatchId t)
      (DeliveryLog.openDelivery H e id (some (t.toTarget classes))) own s := by
  refine Yields.bind (fun _ _ => relied) lift_yields fun p own1 s1 _ _ hp => ?_
  obtain ⟨text,ht,rfl⟩ : ∃ text, canonicalText ((classes t.cls).asdict t.values) = .ok text ∧
      p = ((classes t.cls).name,text) := by
    simp only [encodeTarget,TargetValue.toTarget] at hp
    cases hc : canonicalText ((classes t.cls).asdict t.values) with
    | error e => rw [hc] at hp; cases hp
    | ok text => rw [hc] at hp; exact ⟨text,rfl,(Except.ok.inj hp).symm⟩
  have hopen : Acts (Rules.dispatcher H classes ds allowed) (LedgerStep H AnyTransition) (fun _ => True)
      (Op.transaction (openTx H e id (classes t.cls).name text)) :=
    .transaction .stay fun w _ db h => .opened h
  refine Yields.bind (fun _ _ => relied) hopen.yields fun _ own2 s2 _ _ _ => query_yields.mono ?_
  intro dispatchId own3 w ⟨u,_,hw,hu,_⟩
  refine Recorded.mono ?_ (Rules.dispatcher_deliveries hw)
  unfold findDispatchId at hu
  split at hu
  · rename_i x _ _ _ _ hf
    obtain rfl := Except.ok.inj hu
    have hrow := List.find?_some hf
    simp only [Bool.and_eq_true,decide_eq_true_eq] at hrow
    exact ⟨_,List.mem_of_find?_eq_some hf,rfl,hrow.1.2,text,hrow.2,ht⟩
  · cases hu

lemma getDelivery_id {id : PyStr} {db : Db} {delivery : Delivery} (h : getDelivery id db = .ok delivery) :
    delivery.dispatchId = id := by
  obtain ⟨_,_,h⟩ := except_bind_ok.mp h
  split at h
  · cases h
  · rename_i row hf
    have hid := List.find?_some hf
    rw [decide_eq_true_eq] at hid
    rw [(deliveryOfRow_ok h).1,hid]
    rfl

lemma getDelivery_yields {id : PyStr} :
    Yields (Rules.dispatcher H classes ds allowed) (DispatcherStep H classes ds)
      (fun delivery _ _ => delivery.dispatchId = id) (Op.query (getDelivery id)) own s :=
  query_yields.mono fun _ _ _ ⟨_,_,_,hu,_⟩ => getDelivery_id hu

/-- After its intent an attempt writes to its target, and to no other. -/
lemma attempt_yields (hd : ds d) {c : DispatchArgs} {id : PyStr} {chunks : List SteleChunk} {writer : ℕ}
    (hw : d.writers.get c.target.cls = some writer) (h : Recorded classes s.db id c.target) :
    Yields (Rules.dispatcher H classes ds allowed) (DispatcherStep H classes ds)
      (fun r _ _ => r.dispatchId = id) (d.attempt H classes c id chunks writer) own s := by
  have hintent : Acts (Rules.dispatcher H classes ds allowed) (LedgerStep H AnyTransition) (fun _ => True)
      (Op.handle (Except.ok <$> DeliveryLog.appendIntent H c.attempt id chunks)
        Dispatcher.isPayloadConflict fun exc => return .error exc) :=
    .handle (.bind (appendIntent_acts c.attempt id chunks) fun _ _ => .pure trivial) fun _ => .pure trivial
  refine Yields.bind (fun _ _ => relied) hintent.yields fun r own1 s1 h1 _ _ => ?_
  cases r with
  | error exc =>
    exact Yields.bind (fun _ _ => relied) getDelivery_yields fun _ _ _ _ _ hid => .pure fun _ _ => hid
  | ok attemptId =>
    have hwrite : Yields (Rules.dispatcher H classes ds allowed) (DispatcherStep H classes ds)
        (fun _ _ _ => True) (Op.writeChunks ⟨writer,id,c.target,chunks⟩) own1 s1 :=
      Meets.atomic fun u hu _ => ⟨.write ⟨writer,id,c.target,chunks⟩ hd hw (h.mono
        (Rules.dispatcher_deliveries ((Rules.dispatcher H classes ds allowed).trans h1 hu))),
          fun _ _ _ _ => trivial⟩
    refine Yields.bind (fun _ _ => relied) hwrite fun _ _ _ _ _ _ => ?_
    refine Yields.bind (fun _ _ => relied) (Acts.yields (append_acts _ _ _)) fun _ _ _ _ _ _ => ?_
    refine Yields.bind (fun _ _ => relied) query_yields fun record _ _ _ _ _ => ?_
    have hend : ∀ own t, Yields (Rules.dispatcher H classes ds allowed) (DispatcherStep H classes ds)
        (fun r _ _ => r.dispatchId = id)
        (Op.query (getDelivery id) >>= fun delivery => return dispatchResult delivery c.target false)
        own t := fun _ _ =>
      Yields.bind (fun _ _ => relied) getDelivery_yields fun _ _ _ _ _ hid => .pure fun _ _ => hid
    refine Yields.ite (fun _ => ?_) fun _ => hend _ _
    exact Yields.bind (fun _ _ => relied) (retract_yields hd) fun _ _ _ _ _ _ => hend _ _

/-- The dispatch_id that dispatch returns is that of a delivery to its target. -/
lemma dispatch_yields (hd : ds d) {c : DispatchArgs} :
    Yields (Rules.dispatcher H classes ds allowed) (DispatcherStep H classes ds)
      (fun r _ w => Recorded classes w.db r.dispatchId c.target) (d.dispatch H classes c) own s := by
  refine Yields.bind (fun _ _ => relied) query_yields fun live _ _ _ _ _ => Yields.refuse fun _ => ?_
  have hverify : Acts (Rules.dispatcher H classes ds allowed) (LedgerStep H AnyTransition) (fun _ => True)
      (Op.onArchive fun a => (Dispatcher.verifyBundle H live c.recordId a,a)) := .onArchive .stay
  refine Yields.bind (fun _ _ => relied) hverify.yields fun _ _ _ _ _ _ => ?_
  refine Yields.bind (fun _ _ => relied) openDelivery_yields fun id own1 s1 _ _ hrec => ?_
  -- from here on every result has this dispatch_id
  have named : ∀ {p : Op DispatchResult} {own t}, (Rules.dispatcher H classes ds allowed).rely s1 t →
      Yields (Rules.dispatcher H classes ds allowed) (DispatcherStep H classes ds)
        (fun r _ _ => r.dispatchId = id) p own t →
      Yields (Rules.dispatcher H classes ds allowed) (DispatcherStep H classes ds)
        (fun r _ w => Recorded classes w.db r.dispatchId c.target) p own t := by
    intro p own t ht hp
    refine (Meets.reached (fun _ _ => relied) hp).mono fun r _ w ⟨hw,_,hr⟩ a ha => ?_
    have hid : a.dispatchId = id := hr a ha
    change Recorded classes w.db a.dispatchId c.target
    rw [hid]
    exact hrec.mono (Rules.dispatcher_deliveries ((Rules.dispatcher H classes ds allowed).trans ht hw))
  refine Yields.bind (fun _ _ => relied) getDelivery_yields fun delivery _ s2 h2 _ hid => ?_
  refine Yields.ite (fun _ => named h2 (.pure fun _ _ => hid)) fun _ => ?_
  cases hp : d.prepare H c with
  | error exc =>
    refine Yields.bind (fun _ _ => relied) (Acts.yields (append_acts _ _ _)) fun _ _ s3 h3 _ _ => ?_
    refine named ((Rules.dispatcher H classes ds allowed).trans h2 h3) ?_
    exact Yields.bind (fun _ _ => relied) getDelivery_yields fun _ _ _ _ _ hid => .pure fun _ _ => hid
  | ok p =>
    obtain ⟨chunks,writer⟩ := p
    obtain ⟨_,_,h⟩ := except_bind_ok.mp hp
    obtain ⟨_,_,h⟩ := except_bind_ok.mp h
    obtain ⟨w,hw,h⟩ := except_bind_ok.mp h
    obtain ⟨_,rfl⟩ := Prod.mk.inj (Except.ok.inj h)
    refine named h2 (attempt_yields hd ?_ (hrec.mono (Rules.dispatcher_deliveries h2)))
    cases hg : d.writers.get c.target.cls with
    | none => rw [Dispatcher.writerFor,hg] at hw; cases hw
    | some x =>
      rw [Dispatcher.writerFor,hg] at hw
      exact congrArg some (Except.ok.inj hw)

end Calls

section Runs

/-- The calls of one dispatcher, and those of everybody else on the ledger. -/
inductive DispatcherCall
  | ledger (c : LedgerCall)
  | dispatch (c : DispatchArgs)
  | retract (recordId : PyStr) (c : ℕ → RemovalArgs)
  | invalidate (e : Env) (recordId reason : PyStr) (c : ℕ → RemovalArgs)

inductive CallResult
  | ledger
  | dispatched (r : DispatchResult)
  | removed (rs : List RemovalResult)

def DispatcherCall.prog (H : Hasher) (classes : ℕ → TargetClass) (d : Dispatcher) :
    DispatcherCall → Prog World (Except Exc CallResult)
  | .ledger c => (fun r => r.map fun _ => .ledger) <$> c.prog H
  | .dispatch c => (fun r => r.map .dispatched) <$> (d.dispatch H classes c).run
  | .retract id c => (fun r => r.map .removed) <$> (d.retract H classes c id).run
  | .invalidate e id reason c => (fun r => r.map .removed) <$> (d.invalidate H classes e c id reason).run

/-- The record whose deliveries the call removes. -/
def DispatcherCall.retracts : DispatcherCall → Option PyStr
  | .retract id _ | .invalidate _ id _ _ => some id
  | _ => none

abbrev DispatcherPool := Pool DispatcherCall World (Except Exc CallResult)

/-- What is known of a call that has returned. -/
def DispatcherCall.Done (classes : ℕ → TargetClass) (d : Dispatcher) (c : DispatcherCall)
    (start : World) (r : Except Exc CallResult) (own : List (World × World)) (w : World) : Prop :=
  (∀ a res, c = .dispatch a → r = .ok (.dispatched res) →
    Recorded classes w.db res.dispatchId a.target) ∧
  ∀ record rs, c.retracts = some record → r = .ok (.removed rs) → ∀ row ∈ start.db.deliveries,
    row.recordId = .text record → Handled classes d own row

lemma DispatcherCall.meets (hd : ds d) (c : DispatcherCall) (w : World) :
    Meets (Rules.dispatcher H classes ds allowed) (DispatcherStep H classes ds) (c.Done classes d w)
      (c.prog H classes d) [] w := by
  cases c with
  | ledger c =>
    refine Meets.map ((Meets.weaken (fun _ _ => .ledger)
      (c.steps (fun t ht => ⟨ht,fun _ _ => trivial⟩) [] w)).mono fun r _ _ _ => ⟨?_,?_⟩)
    · exact fun _ _ h => by cases h
    · exact fun _ _ h => by cases h
  | dispatch c =>
    refine Meets.map (Meets.mono (dispatch_yields hd) fun r _ _ hr => ⟨?_,?_⟩)
    · intro a res ha hres
      obtain rfl := DispatcherCall.dispatch.inj ha
      cases r with
      | error e => cases hres
      | ok r => exact CallResult.dispatched.inj (Except.ok.inj hres) ▸ hr r rfl
    · exact fun _ _ h => by cases h
  | retract id c =>
    refine Meets.map (Meets.mono (retract_yields hd) fun r _ _ hr => ⟨?_,?_⟩)
    · exact fun _ _ h => by cases h
    · intro record rs hrec hres
      obtain rfl := Option.some.inj hrec
      cases r with
      | error e => cases hres
      | ok r => exact hr r rfl
  | invalidate e id reason c =>
    refine Meets.map (Meets.mono (invalidate_yields hd) fun r _ _ hr => ⟨?_,?_⟩)
    · exact fun _ _ h => by cases h
    · intro record rs hrec hres
      obtain rfl := Option.some.inj hrec
      cases r with
      | error e => cases hres
      | ok r => exact hr r rfl

/-- Calls that run one after the other. -/
def runCalls (H : Hasher) (classes : ℕ → TargetClass) (d : Dispatcher) (cs : List DispatcherCall)
    (w : World) : World := cs.foldl (fun w c => ((c.prog H classes d).run w).2) w

lemma runCalls_interleaved (cs : List DispatcherCall) {w₀ w : World}
    {ts : List (Thread DispatcherCall World (Except Exc CallResult))}
    (h : Interleaved (DispatcherCall.prog H classes d) Outside (fun _ _ => True) w₀ ⟨w,ts⟩) :
    ∃ us, Interleaved (DispatcherCall.prog H classes d) Outside (fun _ _ => True) w₀
      ⟨runCalls H classes d cs w,us⟩ := by
  induction cs generalizing w ts with
  | nil => exact ⟨ts,h⟩
  | cons c cs ih =>
    obtain ⟨own,h⟩ := h.call c
    exact ih h

/-- Two modules may each have a dataclass of this name. -/
def sampleClasses (_ : ℕ) : TargetClass := .plain (lit "Target") [lit "name"] (by decide)

def sampleChunk : SteleChunk :=
  ⟨lit "c",lit "hi",Hasher.checksum.hexdigest (utf8 (lit "hi")),.int 1,.dict []⟩

def envAt (n : ℕ) : Env := ⟨[cp 'u',digit n],[cp 't',digit n],lit "t",fun _ => .ok [104,105]⟩

end Runs

end Stele
