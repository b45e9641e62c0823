import Stele.Contracts.DeliveredOnce
import Stele.Contracts.RetractConverges

/-! What a DispatchResult says of the call that returned it. The result is read from the delivery's
log after the attempt, so it is the call's own only while nothing else has been logged there. -/
namespace Stele
open Python Interleaving

variable {H : Hasher} {classes : ℕ → TargetClass} {d : Dispatcher} {c : DispatchArgs} {id : PyStr}

def failureCell : TextCell := .text DeliveryEventKind.failure.value

/-- The action logs this row, the outcome of an attempt of the delivery. -/
def LogsOutcome (id : PyStr) (q : World × World) (row : DeliveryEventRow) : Prop :=
  q.2.db.deliveryEvents = q.1.db.deliveryEvents++[row] ∧ row.dispatchId = .text id ∧
    (row.event = receiptCell ∨ row.event = failureCell)

/-- The outcome that the call itself has logged. -/
def OwnOutcome (own : List (World × World)) (id : PyStr) (row : DeliveryEventRow) : Prop :=
  ∃ q ∈ own, LogsOutcome id q row

/-- The call read the delivery as delivered: its fifth action, after the record, the bundle, the
opening and the dispatch_id. -/
def ReadDelivered (own : List (World × World)) (id : PyStr) (delivery : Delivery) : Prop :=
  ∃ q, own[4]? = some q ∧ getDelivery id q.1.db = .ok delivery ∧ delivery.status = .delivered

/-- What an attempt of this call may log as its outcome. -/
inductive DispatchArgs.Outcome (H : Hasher) (d : Dispatcher) (c : DispatchArgs) : EventArgs → Prop
  | unwritten {exc : Exc} (h : d.prepare H c = .error exc) :
    c.Outcome H d ⟨DeliveryEventKind.failure.value,none,none,some (.int 0),some (c.repr exc),
      some c.attempt.uuid⟩
  | attempted {chunks : List SteleChunk} {writer : ℕ} (h : d.prepare H c = .ok (chunks,writer)) :
    c.Outcome H d (Dispatcher.conclusionArgs chunks c.attempt.uuid c.write)

section Removals

variable {R : Rules World} {G : World → World → Prop}

lemma readDeliveries_acts (hstay : ∀ w, G w w) (rows : List DeliveryRow) :
    Acts R G (fun _ => True) (readDeliveries rows) := by
  induction rows with
  | nil => exact .pure trivial
  | cons row rows ih => exact .bind (.query hstay) fun _ _ => .bind ih fun _ _ => .pure trivial

/-- The actions of retract: it leaves the ledger and the writes alone, or logs an event that is neither a
receipt nor a failure. -/
lemma retract_acts {r : ℕ → RemovalArgs} {record : PyStr}
    (hstay : ∀ w w' : World, w'.db = w.db → w'.writes = w.writes → G w w')
    (hlog : ∀ (k : DeliveryEventKind) (e : Env) (id : PyStr) (a : EventArgs) (w : World) (db : Db),
      a.event = k.value → k ≠ .receipt ∧ k ≠ .failure → insertTx H e id a w.db = .ok ((),db) →
        G w {w with db := db}) :
    Acts R G (fun _ => True) (d.retract H classes r record) := by
  have hsame : ∀ w, G w w := fun w => hstay w w rfl rfl
  have happend : ∀ {e : Env} {id : PyStr} {a : EventArgs} (k : DeliveryEventKind), a.event = k.value →
      k ≠ .receipt ∧ k ≠ .failure → Acts R G (fun _ => True) (DeliveryLog.append H e id a) :=
    fun k ha hk => .transaction hsame fun w _ db h => hlog k _ _ _ w db ha hk (onIntegrity_ok h)
  have hfailed : ∀ {e : Env} {id repr : PyStr}, Acts R G (fun _ => True) (Dispatcher.removalFailed H e id repr) :=
    .bind (happend .removalFailure rfl (by decide)) fun _ _ => .pure trivial
  have hremove : ∀ (c : RemovalArgs) (delivery : Delivery),
      Acts R G (fun _ => True) (d.remove H classes c delivery) := by
    intro c delivery
    unfold Dispatcher.remove
    cases d.remover classes delivery with
    | error exc => exact hfailed
    | ok call =>
      have hcall : Acts R G (fun _ => True) (Op.removeDelivery call) :=
        fun _ _ => Meets.atomic fun t _ _ => ⟨hstay _ _ rfl rfl,fun _ _ _ _ => trivial⟩
      refine .bind (happend .removalIntent rfl (by decide)) fun _ _ => .bind hcall fun _ _ => ?_
      cases c.outcome with
      | raised repr => exact hfailed
      | removed n => exact .bind (happend .removalReceipt rfl (by decide)) fun _ _ => .pure trivial
  have hall : ∀ (deliveries : List Delivery) (i : ℕ),
      Acts R G (fun _ => True) (d.removeAll H classes r i deliveries) := by
    intro deliveries
    induction deliveries with
    | nil => exact fun _ => .pure trivial
    | cons delivery deliveries ih =>
      intro i
      rw [Dispatcher.removeAll]
      split_ifs
      · exact ih (i+1)
      · exact .bind (hremove _ _) fun _ _ => .bind (ih (i+1)) fun _ _ => .pure trivial
  refine .bind (.query hsame) fun _ _ => .refuse fun _ => ?_
  exact .bind (.bind (.query hsame) fun rows _ => readDeliveries_acts hsame rows) fun deliveries _ => hall deliveries 0

end Removals

section Quiet

variable {α : Type} {R : Rules World}

/-- The action logs no outcome. -/
def Quiet (w w' : World) : Prop :=
  ∀ row, w'.db.deliveryEvents = w.db.deliveryEvents++[row] →
    row.event ≠ receiptCell ∧ row.event ≠ failureCell

lemma Quiet.logs {q : World × World} (h : Quiet q.1 q.2) (row : DeliveryEventRow) : ¬LogsOutcome id q row := by
  rintro ⟨he,-,ho⟩
  exact ho.elim (h row he).1 (h row he).2

lemma quiet_of_eq {w w' : World} (h : w'.db.deliveryEvents = w.db.deliveryEvents) : Quiet w w' := by
  intro row he
  have := congrArg List.length (h.symm.trans he)
  rw [List.length_append,List.length_singleton] at this
  omega

/-- An event that is neither a receipt nor a failure. -/
lemma insertTx_quiet {e : Env} {a : EventArgs} {w : World} {db : Db} (k : DeliveryEventKind)
    (ha : a.event = k.value) (hk : k ≠ .receipt ∧ k ≠ .failure)
    (h : insertTx H e id a w.db = .ok ((),db)) : Quiet w {w with db := db} := by
  intro row he
  obtain ⟨row',_,hrow,rfl,-⟩ := insertTx_ok h
  obtain rfl := List.singleton_inj.mp (List.append_cancel_left he)
  rw [(eventRow_ok hrow).2.2.1,ha]
  cases k with
  | receipt => exact absurd rfl hk.1
  | failure => exact absurd rfl hk.2
  | _ => exact ⟨by decide,by decide⟩

lemma quiet_singleton {x y : World} (h : Quiet x y) : ∀ q ∈ [(x,y)], Quiet q.1 q.2 :=
  List.forall_mem_singleton.mpr h

/-- Removals log no outcome of an attempt. -/
lemma retract_quiet {r : ℕ → RemovalArgs} {record : PyStr} :
    Acts R Quiet (fun _ => True) (d.retract H classes r record) :=
  retract_acts (fun _ _ hd _ => quiet_of_eq (congrArg Db.deliveryEvents hd))
    fun k _ _ _ _ _ ha hk h => insertTx_quiet k ha hk h

end Quiet

section Telling

variable {α β : Type} {R : Rules World} {V : α → List (World × World) → World → Prop}
  {own : List (World × World)} {s : World}

/-- What is known of the call when it returns, whatever its actions are. -/
abbrev Tells (R : Rules World) (V : α → List (World × World) → World → Prop) (p : Op α)
    (own : List (World × World)) (s : World) : Prop := Yields R (fun _ _ => True) V p own s

namespace Tells

lemma bind {U : β → List (World × World) → World → Prop} {p : Op β} {k : β → Op α}
    (h : Tells R U p own s) (hk : ∀ b own' t, U b own' t → Tells R V (k b) own' t) :
    Tells R V (p >>= k) own s := by
  refine Meets.bindExcept (Meets.mono h fun r own' t hr => ?_)
  cases r with
  | ok b => exact hk b own' t (hr b rfl)
  | error e => exact fun a ha => by cases ha

lemma atomic {f : World → Except Exc β × World} {k : β → Op α}
    (h : ∀ b t, (f t).1 = .ok b → Tells R V (k b) (own++[(t,(f t).2)]) (f t).2) :
    Tells R V (ExceptT.mk (.atomic f) >>= k) own s := by
  refine Meets.bindExcept (Meets.atomic fun t _ _ => ⟨trivial,fun u hu => ?_⟩)
  cases hf : (f t).1 with
  | ok b => exact Meets.rely (h b t hf) hu
  | error e => exact fun a ha => by cases ha

lemma query {f : Db → Except Exc β} {k : β → Op α}
    (h : ∀ b t, f t.db = .ok b → Tells R V (k b) (own++[(t,t)]) t) :
    Tells R V (Op.query f >>= k) own s := atomic h

lemma onArchive {f : Archive → Except Exc β × Archive} {k : β → Op α}
    (h : ∀ b t u, u.db = t.db → Tells R V (k b) (own++[(t,u)]) u) :
    Tells R V (Op.onArchive f >>= k) own s := atomic fun b t _ => h b t _ rfl

lemma writeChunks {w : Write} {k : Unit → Op α}
    (h : ∀ t u, u.db = t.db → Tells R V (k ()) (own++[(t,u)]) u) :
    Tells R V (Op.writeChunks w >>= k) own s := atomic fun _ t _ => h t _ rfl

lemma transaction {body : Tx β} {k : β → Op α}
    (h : ∀ b t db, body t.db = .ok (b,db) →
      Tells R V (k b) (own++[(t,{t with db := db})]) {t with db := db}) :
    Tells R V (Op.transaction body >>= k) own s := by
  refine atomic fun b t hb => ?_
  rcases writeTransaction_cases body t.db with ⟨b',db,hbody,hw⟩ | ⟨e,_,hw⟩
  · simp only [hw] at hb ⊢
    obtain rfl := Except.ok.inj hb
    exact h b' t db hbody
  · simp only [hw] at hb
    cases hb

lemma lift {r : Except Exc β} {k : β → Op α} (h : ∀ b, r = .ok b → Tells R V (k b) own s) :
    Tells R V (Op.lift r >>= k) own s := by
  refine Meets.bindExcept fun t ht => ?_
  cases r with
  | ok b => exact Meets.rely (h b rfl) ht
  | error e => exact fun a ha => by cases ha

/-- append_intent with the handler around it. -/
lemma appendIntent {e : Env} {chunks : List SteleChunk} {k : Except Exc PyStr → Op α}
    (hok : ∀ t db, intentTx H e id chunks t.db = .ok ((),db) →
      Tells R V (k (.ok e.uuid)) (own++[(t,{t with db := db})]) {t with db := db})
    (hrefused : ∀ exc t, Dispatcher.isPayloadConflict exc = true →
      Tells R V (k (.error exc)) (own++[(t,t)]) t) :
    Tells R V (Op.handle (Except.ok <$> DeliveryLog.appendIntent H e id chunks)
      Dispatcher.isPayloadConflict (fun exc => return .error exc) >>= k) own s := by
  refine Meets.bindExcept (Meets.bind (Meets.bindExcept (Meets.bindExcept
    (Meets.atomic fun t _ _ => ⟨trivial,fun u hu => ?_⟩))))
  rcases writeTransaction_cases (intentTx H e id chunks) t.db with ⟨_,db,hb,hw⟩ | ⟨exc,_,hw⟩
  · rw [hw] at hu ⊢
    exact fun v hv x hx y hy => Meets.rely (hok t db hb) (R.trans hu (R.trans hv (R.trans hx hy)))
  · rw [hw] at hu ⊢
    simp only
    split_ifs with hc
    · exact fun v hv => Meets.rely (hrefused exc t hc) (R.trans hu hv)
    · exact fun _ _ _ ha => by cases ha

/-- DeliveryLog.append, and what it logs. -/
lemma append {e : Env} {a : EventArgs} {k : Unit → Op α}
    (h : ∀ t db, insertTx H e id a t.db = .ok ((),db) →
      Tells R V (k ()) (own++[(t,{t with db := db})]) {t with db := db}) :
    Tells R V (DeliveryLog.append H e id a >>= k) own s :=
  transaction fun _ t db hb => h t db (onIntegrity_ok hb)

/-- open_delivery, in two actions that log no outcome. -/
lemma openDelivery {e : Env} {recordId : PyStr} {t : Option Target} {k : PyStr → Op α}
    (h : ∀ id x y z, Quiet x y → Tells R V (k id) (own++[(x,y),(z,z)]) z) :
    Tells R V (DeliveryLog.openDelivery H e recordId t >>= k) own s := by
  refine bind (U := fun _ own' u => ∃ x y z, Quiet x y ∧ own' = own++[(x,y),(z,z)] ∧ R.rely z u) ?_ ?_
  · refine lift fun p _ => transaction fun _ x db hx => ?_
    have hq : Quiet x {x with db := db} := by
      obtain rfl | ⟨_,_,rfl,_⟩ := openTx_ok hx
      · exact quiet_of_eq rfl
      · exact quiet_of_eq rfl
    exact Meets.atomic fun z _ _ => ⟨trivial,fun u hu _ _ => ⟨x,_,z,hq,by simp,hu⟩⟩
  · rintro id own' u ⟨x,y,z,hq,rfl,hu⟩
    exact Meets.rely (h id x y z hq) hu

/-- The removals of retract log no outcome. -/
lemma retract {r : ℕ → RemovalArgs} {record : PyStr} {k : List RemovalResult → Op α}
    (h : ∀ rs more t, (∀ q ∈ more, Quiet q.1 q.2) → Tells R V (k rs) (own++more) t) :
    Tells R V (d.retract H classes r record >>= k) own s := by
  refine bind (U := fun _ own' _ => ∃ more, own' = own++more ∧ ∀ q ∈ more, Quiet q.1 q.2) ?_ ?_
  · exact (Meets.weaken (fun _ _ _ => trivial) (Meets.traced (retract_quiet own s))).mono
      fun _ _ _ hr _ _ => hr.2
  · rintro rs own' t ⟨more,rfl,hq⟩
    exact h rs more t hq

end Tells

end Telling

section Told

variable {own : List (World × World)} {s : World} {r : DispatchResult}

/-- The one outcome that the call has logged, by its action q. -/
structure Concludes (H : Hasher) (d : Dispatcher) (c : DispatchArgs) (id : PyStr)
    (own : List (World × World)) (q : World × World) (row : DeliveryEventRow) : Prop where
  mem : q ∈ own
  logs : LogsOutcome id q row
  args : ∃ n now a, c.Outcome H d a ∧ eventRow n id now a = .ok row
  only : ∀ x ∈ own, x = q ∨ Quiet x.1 x.2

/-- How a call of dispatch comes to its result. -/
inductive Told (H : Hasher) (d : Dispatcher) (c : DispatchArgs) (own : List (World × World)) :
    DispatchResult → Prop
  | delivered {id : PyStr} {delivery : Delivery} (hr : ReadDelivered own id delivery)
    (hq : ∀ q ∈ own, Quiet q.1 q.2) : Told H d c own (dispatchResult delivery c.target true)
  | refused {id : PyStr} {delivery : Delivery} {exc : Exc} (hn : ∀ x, ¬ReadDelivered own id x)
    (hq : ∀ q ∈ own, Quiet q.1 q.2) (hid : delivery.dispatchId = id)
    (he : Dispatcher.isPayloadConflict exc = true) :
    Told H d c own (refusedResult delivery c.target (c.repr exc))
  | concluded {id : PyStr} {q : World × World} {row : DeliveryEventRow} {z : World} {delivery : Delivery}
    (hn : ∀ x, ¬ReadDelivered own id x) (hc : Concludes H d c id own q row)
    (hz : own.getLast? = some (z,z)) (hr : getDelivery id z.db = .ok delivery) :
    Told H d c own (dispatchResult delivery c.target false)

/-- What the call has done before its attempt: it has logged no outcome, and it did not read the
delivery as delivered. -/
structure Undelivered (id : PyStr) (own : List (World × World)) : Prop where
  quiet : ∀ q ∈ own, Quiet q.1 q.2
  read : ∃ q ∈ own[4]?, ∀ delivery, getDelivery id q.1.db = .ok delivery → delivery.status ≠ .delivered

namespace Undelivered

lemma append {more : List (World × World)} (h : Undelivered id own) (hm : ∀ q ∈ more, Quiet q.1 q.2) :
    Undelivered id (own++more) := by
  obtain ⟨q,hq,hd⟩ := h.read
  refine ⟨List.forall_mem_append.mpr ⟨h.quiet,hm⟩,q,?_,hd⟩
  rwa [List.getElem?_append_left (List.getElem?_eq_some_iff.mp hq).1]

lemma not_read {more : List (World × World)} (h : Undelivered id own) (x : Delivery) :
    ¬ReadDelivered (own++more) id x := by
  obtain ⟨q,hq,hd⟩ := h.read
  rintro ⟨q',hq',hr,hs⟩
  rw [List.getElem?_append_left (List.getElem?_eq_some_iff.mp hq).1] at hq'
  obtain rfl := Option.some.inj (hq.symm.trans hq')
  exact hd x hr hs

end Undelivered

variable {R : Rules World}

/-- After the outcome of the attempt and any removals, the delivery is read for the result. -/
lemma concluded_tells {e : Env} {a : EventArgs} {t : World} {db : Db} {pre : List (World × World)}
    (more : List (World × World)) (hpre : Undelivered id pre) (ha : c.Outcome H d a)
    (he : a.event = DeliveryEventKind.receipt.value ∨ a.event = DeliveryEventKind.failure.value)
    (hi : insertTx H e id a t.db = .ok ((),db)) (hmore : ∀ q ∈ more, Quiet q.1 q.2) :
    Tells R (fun r own' _ => Told H d c own' r)
      (Op.query (getDelivery id) >>= fun delivery => return dispatchResult delivery c.target false)
      (pre++(t,{t with db := db}) :: more) s := by
  refine Tells.query fun delivery z hr => Yields.pure fun _ _ => ?_
  obtain ⟨row,_,hrow,hdb,-⟩ := insertTx_ok hi
  obtain ⟨-,hid,hev,-⟩ := eventRow_ok hrow
  have hlast : (pre++(t,{t with db := db}) :: more++[(z,z)]).getLast? = some (z,z) := List.getLast?_concat
  rw [List.append_assoc] at hlast ⊢
  refine .concluded (fun x => hpre.not_read x) (⟨by simp,⟨congrArg Db.deliveryEvents hdb,hid,?_⟩,
    ⟨_,_,a,ha,hrow⟩,?_⟩ : Concludes H d c id _ (t,{t with db := db}) row) hlast hr
  · rw [hev]
    exact he.imp (congrArg TextCell.text) (congrArg TextCell.text)
  · intro x hx
    simp only [List.cons_append,List.mem_append,List.mem_cons,List.not_mem_nil,or_false] at hx
    rcases hx with hx | rfl | hx | rfl
    · exact Or.inr (hpre.quiet x hx)
    · exact Or.inl rfl
    · exact Or.inr (hmore x hx)
    · exact Or.inr (quiet_of_eq rfl)

lemma attempt_tells {chunks : List SteleChunk} {writer : ℕ} (h : Undelivered id own)
    (hp : d.prepare H c = .ok (chunks,writer)) :
    Tells R (fun r own' _ => Told H d c own' r) (d.attempt H classes c id chunks writer) own s := by
  unfold Dispatcher.attempt
  refine Tells.appendIntent (fun t db hi => ?_) fun exc t hc => ?_
  · obtain ⟨digest,_,hi⟩ := intentTx_ok hi
    have h1 := h.append (quiet_singleton (insertTx_quiet .intent rfl (by decide) hi))
    refine Tells.writeChunks fun t1 u1 hu1 => ?_
    have h2 := h1.append (quiet_singleton (quiet_of_eq (congrArg Db.deliveryEvents hu1)))
    refine Tells.append fun t2 db2 hi2 => ?_
    have he : (Dispatcher.conclusionArgs chunks c.attempt.uuid c.write).event =
          DeliveryEventKind.receipt.value ∨
        (Dispatcher.conclusionArgs chunks c.attempt.uuid c.write).event =
          DeliveryEventKind.failure.value := by
      cases c.write with
      | wrote => exact Or.inl rfl
      | landedSome _ _ => exact Or.inr rfl
      | raised _ => exact Or.inr rfl
    refine Tells.query fun record t3 _ => ?_
    rw [List.append_assoc _ [_] [_]]
    refine Yields.ite (fun _ => Tells.retract fun _ more t4 hm => ?_) fun _ => ?_
    · rw [List.append_assoc]
      refine concluded_tells _ h2 (.attempted hp) he hi2 ?_
      exact List.forall_mem_cons.mpr ⟨quiet_of_eq rfl,hm⟩
    · exact concluded_tells _ h2 (.attempted hp) he hi2 (quiet_singleton (quiet_of_eq rfl))
  · refine Tells.query fun delivery t1 hr => Yields.pure fun _ _ => ?_
    refine .refused (fun x => ?_) ?_ (getDelivery_id hr) hc
    · rw [List.append_assoc]
      exact h.not_read x
    · refine List.forall_mem_append.mpr ⟨List.forall_mem_append.mpr ⟨h.quiet,?_⟩,?_⟩ <;>
        exact quiet_singleton (quiet_of_eq rfl)

/-- Every result of dispatch comes about in one of these ways. -/
theorem dispatch_tells : Tells R (fun r own' _ => Told H d c own' r) (d.dispatch H classes c) [] s := by
  refine Tells.query fun live t0 _ => Yields.refuse fun _ => Tells.onArchive fun _ t1 u1 h1 => ?_
  refine Tells.openDelivery fun id x y z hxy => Tells.query fun delivery t hread => ?_
  have hquiet : ∀ q ∈ ([]++[(t0,t0)]++[(t1,u1)]++[(x,y),(z,z)]++[(t,t)] : List (World × World)),
      Quiet q.1 q.2 := by
    intro q hq
    simp only [List.nil_append,List.cons_append,List.mem_cons,List.not_mem_nil,or_false] at hq
    rcases hq with rfl | rfl | rfl | rfl | rfl
    · exact quiet_of_eq rfl
    · exact quiet_of_eq (congrArg Db.deliveryEvents h1)
    · exact hxy
    · exact quiet_of_eq rfl
    · exact quiet_of_eq rfl
  refine Yields.ite (fun hd => Yields.pure fun _ _ => ?_) fun hd => ?_
  · exact .delivered ⟨(t,t),rfl,hread,hd⟩ hquiet
  have hun : Undelivered id ([]++[(t0,t0)]++[(t1,u1)]++[(x,y),(z,z)]++[(t,t)]) := by
    refine ⟨hquiet,(t,t),rfl,fun delivery' hr hs => ?_⟩
    obtain rfl := Except.ok.inj (hread.symm.trans hr)
    exact hd hs
  cases hp : d.prepare H c with
  | error exc =>
    refine Tells.append fun t2 db hi => ?_
    exact concluded_tells [] hun (.unwritten hp) (Or.inr rfl) hi (List.forall_mem_nil _)
  | ok p => exact attempt_tells hun hp

end Told

section Described

variable {own : List (World × World)} {r : DispatchResult} {delivery : Delivery}
  {log : List DeliveryEvent} {e : DeliveryEvent} {db db' : Db} {row : DeliveryEventRow}

/-- The result of a log that ends with the outcome of an attempt. -/
lemma dispatchResult_last (target : TargetValue) (b : Bool) (h : delivery.events = log++[e])
    (he : e.event = .receipt ∨ e.event = .failure) :
    (dispatchResult delivery target b).success = decide (e.event = .receipt) ∧
    (dispatchResult delivery target b).chunksWritten = e.done ∧
    (dispatchResult delivery target b).error = if e.event = .receipt then none else e.error := by
  unfold dispatchResult Delivery.status Delivery.lastError
  rw [h,List.getLast?_concat,List.reverse_append]
  rcases he with he | he <;> simp [he]

lemma delivered_last (h : delivery.status = .delivered) :
    ∃ log e, delivery.events = log++[e] ∧ e.event = .receipt := by
  unfold Delivery.status at h
  cases hl : delivery.events.getLast? with
  | none => simp [hl] at h
  | some e =>
    obtain ⟨log,hlog⟩ := List.getLast?_eq_some_iff.mp hl
    refine ⟨log,e,hlog,?_⟩
    cases he : e.event <;> simp [hl,he] at h ⊢

lemma getDelivery_events (h : getDelivery id db = .ok delivery) : delivery.events = logOf db (.text id) := by
  obtain ⟨_,_,h⟩ := except_bind_ok.mp h
  split at h
  · cases h
  · rename_i row hf
    have hid : row.dispatchId = .text id := by simpa using List.find?_some hf
    obtain ⟨target,-,h⟩ := except_bind_ok.mp h
    rw [← Except.ok.inj h,hid]
    rfl

lemma toEvent_outcome (h : row.event = receiptCell ∨ row.event = failureCell) : ∃ e, row.toEvent = some e ∧
    (e.event = .receipt ∨ e.event = .failure) ∧ (e.event = .receipt ↔ row.event = receiptCell) ∧
    e.done = row.done.int? ∧ e.error = row.error.str? := by
  unfold DeliveryEventRow.toEvent
  rcases h with h | h <;> rw [h]
  · exact ⟨_,rfl,Or.inl rfl,by simp,rfl,rfl⟩
  · exact ⟨_,rfl,Or.inr rfl,by simp [failureCell,receiptCell]; decide,rfl,rfl⟩

/-- The log after an outcome ends with it. -/
lemma logOf_outcome (h : Consistent H db) (h' : Consistent H db')
    (hrow : db'.deliveryEvents = db.deliveryEvents++[row]) (hid : row.dispatchId = .text id)
    (he : row.toEvent = some e) : logOf db' (.text id) = logOf db (.text id)++[e] := by
  obtain ⟨new,hnew,hlog⟩ := logOf_prefix h h' ⟨[row],hrow.symm⟩ (.text id)
  obtain rfl := List.append_cancel_left (hnew.symm.trans hrow)
  rw [hlog]
  simp [hid,he]

/-- Nothing has been logged of the delivery between the call's own outcome and its last action,
which reads the log for the result. -/
def Undisturbed (own : List (World × World)) (id : PyStr) : Prop :=
  ∀ q ∈ own, ∀ row, LogsOutcome id q row → ∀ z ∈ own.getLast?,
    logOf z.1.db (.text id) = logOf q.2.db (.text id)

/-- The result says of the call what the call itself did. -/
structure DescribesOwn (H : Hasher) (d : Dispatcher) (c : DispatchArgs) (own : List (World × World))
    (r : DispatchResult) : Prop where
  status : r.success = true ↔ (∃ row, OwnOutcome own r.dispatchId row ∧ row.event = receiptCell) ∨
    ∃ delivery, ReadDelivered own r.dispatchId delivery
  /-- The count and the error are those of its own outcome, -/
  outcome : ∀ row, OwnOutcome own r.dispatchId row →
    r.chunksWritten = row.done.int? ∧ r.error = row.error.str? ∧
    ∃ n now a, c.Outcome H d a ∧ eventRow n r.dispatchId now a = .ok row
  /-- or the count is that of the receipt of an earlier attempt; -/
  earlier : ∀ delivery, ReadDelivered own r.dispatchId delivery →
    ∃ e ∈ delivery.events.getLast?, e.event = .receipt ∧ r.chunksWritten = e.done
  /-- a call whose payload was refused wrote nothing. -/
  refused : (∀ row, ¬OwnOutcome own r.dispatchId row) →
    (∀ delivery, ¬ReadDelivered own r.dispatchId delivery) →
    r.chunksWritten = some 0 ∧
      ∃ exc, Dispatcher.isPayloadConflict exc = true ∧ r.error = some (c.repr exc)

lemma Quiet.no_outcome (h : ∀ q ∈ own, Quiet q.1 q.2) : ¬OwnOutcome own id row :=
  fun ⟨q,hq,hrow⟩ => (h q hq).logs row hrow

lemma Concludes.unique {q : World × World} {row' : DeliveryEventRow} (h : Concludes H d c id own q row)
    (h' : OwnOutcome own id row') : row' = row := by
  obtain ⟨x,hx,hrow⟩ := h'
  rcases h.only x hx with rfl | hq
  · exact List.singleton_inj.mp (List.append_cancel_left (hrow.1.symm.trans h.logs.1))
  · exact absurd hrow (hq.logs row')

/-- A receipt has no error. -/
lemma DispatchArgs.Outcome.receipt {a : EventArgs} (h : c.Outcome H d a)
    (ha : a.event = DeliveryEventKind.receipt.value) : a.error = none := by
  have hne : DeliveryEventKind.failure.value ≠ DeliveryEventKind.receipt.value := by decide
  cases h with
  | unwritten => exact absurd ha hne
  | attempted =>
    revert ha
    cases c.write with
    | wrote => exact fun _ => rfl
    | landedSome | raised => exact fun ha => absurd ha hne

theorem Told.describes (h : Told H d c own r)
    (hc : ∀ q ∈ own, Consistent H q.1.db ∧ Consistent H q.2.db) (hu : Undisturbed own r.dispatchId) :
    DescribesOwn H d c own r := by
  cases h with
  | @delivered i delivery hr hq =>
    obtain ⟨q,hq4,hread,hs⟩ := hr
    obtain rfl : delivery.dispatchId = i := getDelivery_id hread
    obtain ⟨log,e,hev,he⟩ := delivered_last hs
    obtain ⟨h1,h2,-⟩ := dispatchResult_last c.target true hev (Or.inl he)
    refine ⟨iff_of_true (by rw [h1]; exact decide_eq_true he) (Or.inr ⟨delivery,q,hq4,hread,hs⟩),
      fun row hrow => absurd hrow (Quiet.no_outcome hq),?_,
      fun _ hn => absurd ⟨q,hq4,hread,hs⟩ (hn delivery)⟩
    rintro delivery' ⟨q',hq',hread',-⟩
    obtain rfl := Option.some.inj (hq4.symm.trans hq')
    obtain rfl := Except.ok.inj (hread.symm.trans hread')
    exact ⟨e,by rw [hev]; exact List.getLast?_concat,he,h2⟩
  | @refused i delivery exc hn hq hid he =>
    obtain rfl := hid
    refine ⟨iff_of_false (by simp [refusedResult]) ?_,fun row hrow => absurd hrow (Quiet.no_outcome hq),
      fun x hx => absurd hx (hn x),fun _ _ => ⟨rfl,exc,he,rfl⟩⟩
    rintro (⟨row,hrow,-⟩ | ⟨x,hx⟩)
    · exact Quiet.no_outcome hq hrow
    · exact hn x hx
  | @concluded i q row z delivery hn hcon hz hr =>
    obtain rfl : delivery.dispatchId = i := getDelivery_id hr
    obtain ⟨e,he,hkind,hreceipt,hdone,herror⟩ := toEvent_outcome hcon.logs.2.2
    obtain ⟨hc1,hc2⟩ := hc q hcon.mem
    have hlog := logOf_outcome hc1 hc2 hcon.logs.1 hcon.logs.2.1 he
    have hsame : logOf z.db (.text delivery.dispatchId) = logOf q.2.db (.text delivery.dispatchId) :=
      hu q hcon.mem row hcon.logs (z,z) hz
    rw [← hsame,← getDelivery_events hr] at hlog
    obtain ⟨h1,h2,h3⟩ := dispatchResult_last c.target false hlog hkind
    refine ⟨?_,?_,fun x hx => absurd hx (hn x),fun hno => absurd ⟨q,hcon.mem,hcon.logs⟩ (hno row)⟩
    · rw [h1,decide_eq_true_eq,hreceipt]
      constructor
      · exact fun h => Or.inl ⟨row,⟨q,hcon.mem,hcon.logs⟩,h⟩
      · rintro (⟨row',hrow',h⟩ | ⟨x,hx⟩)
        · exact hcon.unique hrow' ▸ h
        · exact absurd hx (hn x)
    · intro row' hrow'
      obtain rfl := hcon.unique hrow'
      refine ⟨h2.trans hdone,?_,hcon.args⟩
      obtain ⟨n,now,a,ha,hrow⟩ := hcon.args
      rw [h3,← herror]
      split_ifs with hrec
      · have hnone := ha.receipt (by
          have := (hreceipt.mp hrec).symm.trans (eventRow_ok hrow).2.2.1
          exact (TextCell.text.inj this).symm)
        rw [herror,(eventRow_ok hrow).2.2.2.2.2.2.1,hnone]
        rfl
      · rfl

end Described

section Runs

/-- Any action is allowed. -/
abbrev anyRules (H : Hasher) (classes : ℕ → TargetClass) : Rules World :=
  Rules.dispatcher H classes (fun _ => True) fun _ _ => True

/-- What is known of a call of dispatch that has returned. -/
def ProcessCall.TellsOwn (H : Hasher) (c : ProcessCall) (r : Except Exc CallResult)
    (own : List (World × World)) : Prop :=
  ∀ a res, c.call = .dispatch a → r = .ok (.dispatched res) → Told H c.d a own res

lemma ProcessCall.tells (c : ProcessCall) {w : World} (hc : Consistent H w.db) :
    Meets (anyRules H classes) (fun a b => DispatcherStep H classes (fun _ => True) a b ∧
        Consistent H a.db ∧ Consistent H b.db)
      (fun r own _ => c.TellsOwn H r own) (c.prog H classes) [] w := by
  refine Meets.kept (I := fun w => Consistent H w.db) (fun _ _ hr h => h.dispatched hr)
    (fun _ _ => relied) ?_ hc
  obtain ⟨d,call⟩ := c
  cases call with
  | dispatch c =>
    refine Meets.map (Meets.mono (Yields.and (dispatch_yields trivial) dispatch_tells) ?_)
    intro r own t hr a res ha hres
    obtain rfl := DispatcherCall.dispatch.inj ha
    cases r with
    | error e => cases hres
    | ok r => exact CallResult.dispatched.inj (Except.ok.inj hres) ▸ (hr r rfl).2
  | _ => exact (DispatcherCall.meets trivial _ w).mono fun r own t _ a res ha _ => by cases ha

/-- In every interleaving of any calls: a result of dispatch describes the call that returned it,
unless something has been logged of the delivery between the call's own outcome and its last read. -/
theorem dispatch_describes_own (H : Hasher) (classes : ℕ → TargetClass) (a : Archive) (p : ProcessPool)
    (h : Interleaved (ProcessCall.prog H classes) Outside (fun _ _ => True) (World.new a) p) :
    ∀ t ∈ p.threads, ∀ c r, t.call.call = .dispatch c → t.prog = .ret (.ok (.dispatched r)) →
      Undisturbed t.own r.dispatchId → DescribesOwn H t.call.d c t.own r := by
  intro t ht c r hcall hret hu
  have hk := h.known (R := anyRules H classes)
    (fun _ _ a b => DispatcherStep H classes (fun _ => True) a b ∧ Consistent H a.db ∧ Consistent H b.db)
    (fun c _ r own _ => c.TellsOwn H r own) (fun _ _ hab => .single (Or.inr hab))
    (fun _ _ _ _ hg => relied hg.1 trivial) (fun c w hw => c.tells (consistent_new.dispatched hw))
  obtain ⟨-,hown,hm⟩ := hk.2 t ht
  rw [hret] at hm
  exact Told.describes (hm _ ((anyRules H classes).refl _) c r hcall rfl) (fun q hq => (hown q hq).2) hu

instance (id : PyStr) (q : World × World) (row : DeliveryEventRow) : Decidable (LogsOutcome id q row) :=
  inferInstanceAs (Decidable (_ ∧ _ ∧ (_ ∨ _)))

instance (own : List (World × World)) (id : PyStr) : Decidable (Undisturbed own id) :=
  decidable_of_iff (∀ q ∈ own, ∀ row ∈ q.2.db.deliveryEvents.getLast?, LogsOutcome id q row →
      ∀ z ∈ own.getLast?, logOf z.1.db (.text id) = logOf q.2.db (.text id))
    ⟨fun h q hq row hrow => h q hq row (by rw [hrow.1]; exact List.getLast?_concat) hrow,
      fun h q hq row _ hrow => h q hq row hrow⟩

/-- What a call of dispatch was given and what it has returned. -/
def dispatchedOf (t : Thread ProcessCall World (Except Exc CallResult)) :
    Option (DispatchArgs × DispatchResult) :=
  match t.call.call,t.prog with
  | .dispatch c,.ret (.ok (.dispatched r)) => some (c,r)
  | _,_ => none

lemma dispatchedOf_eq {t : Thread ProcessCall World (Except Exc CallResult)} {r : DispatchResult}
    (h : dispatchedOf t = some (c,r)) : t.call.call = .dispatch c ∧ t.prog = .ret (.ok (.dispatched r)) := by
  unfold dispatchedOf at h
  split at h
  · rename_i hc hp
    obtain ⟨rfl,rfl⟩ := Prod.mk.inj (Option.some.inj h)
    exact ⟨hc,hp⟩
  · cases h

/-- A call of dispatch with its own attempt_id. -/
def racingCall (n : ℕ) (write : WriteOutcome) : ProcessCall :=
  ⟨Dispatcher.empty.registerTarget 0 0,.dispatch ⟨lit "r1",⟨0,[.str (lit "x")]⟩,envAt 2,envAt n,envAt (n+1),
    .ok [sampleChunk],write,fun _ => [],fun _ => ⟨envAt 8,envAt 9,.removed none,fun _ => []⟩⟩⟩

/-- Two attempts of one delivery overlap: one of them writes, the other fails. The schedule says
how they take turns once both have written. -/
def racingTurns (ends : List (Turn ProcessCall)) : List (Turn ProcessCall) :=
  (Turn.spawn ⟨.empty,.ledger (.createPending sampleEnv samplePending)⟩ :: List.replicate 12 (Turn.act 0))++
  (Turn.spawn ⟨.empty,.ledger (.sealRecord (envAt 1) (lit "r1"))⟩ :: List.replicate 12 (Turn.act 0))++
  (Turn.spawn (racingCall 3 .wrote) :: List.replicate 5 (Turn.act 0))++
  (Turn.spawn (racingCall 5 (.raised (lit "boom"))) :: List.replicate 7 (Turn.act 0))++
  List.replicate 2 (Turn.act 1)++ends

def racingPool (ends : List (Turn ProcessCall)) : Bool × ProcessPool :=
  Pool.turns (ProcessCall.prog .checksum sampleClasses) (fun _ _ => true) (racingTurns ends)
    ⟨World.new .empty,[]⟩

lemma racing_run (ends : List (Turn ProcessCall)) :
    Interleaved (ProcessCall.prog .checksum sampleClasses) Outside (fun _ _ => True) (World.new .empty)
      (racingPool ends).2 := by
  have hpass : ∀ (ts : List (Turn ProcessCall)) (p : ProcessPool),
      (Pool.turns (ProcessCall.prog .checksum sampleClasses) (fun _ _ => true) ts p).1 = true := by
    intro ts
    induction ts with
    | nil => exact fun _ => rfl
    | cons t ts ih => cases t <;> exact fun p => ih _
  exact Interleaved.turns (fun _ _ _ => trivial) (racingTurns ends) (Runs.Reaches.refl _) (hpass _ _)

/-- The failure is logged first. -/
def failureFirst : ProcessPool := (racingPool ([.act 0,.act 1,.act 1,.act 1])).2

/-- The receipt is logged first, and the failure before the call reads its result. -/
def receiptFirst : ProcessPool := (racingPool ([.act 1,.act 0,.act 1,.act 1])).2

/-- A check of the call that writes, once it has returned. -/
def checkWriter (p : ProcessPool)
    (f : Thread ProcessCall World (Except Exc CallResult) → DispatchResult → Bool) : Bool :=
  p.threads[1]?.elim false fun t => (dispatchedOf t).elim false fun x => f t x.2

lemma checkWriter_iff {p : ProcessPool}
    {f : Thread ProcessCall World (Except Exc CallResult) → DispatchResult → Bool}
    (h : checkWriter p f = true) : ∃ t ∈ p.threads, ∃ c r, t.call.call = .dispatch c ∧
      t.prog = .ret (.ok (.dispatched r)) ∧ f t r = true := by
  unfold checkWriter at h
  cases ht : p.threads[1]? with
  | none => rw [ht] at h; cases h
  | some t =>
    cases hx : dispatchedOf t with
    | none => rw [ht,Option.elim_some,hx] at h; cases h
    | some x =>
      rw [ht,Option.elim_some,hx] at h
      obtain ⟨hc,hp⟩ := dispatchedOf_eq (c := x.1) (r := x.2) hx
      exact ⟨t,List.mem_of_getElem? ht,x.1,x.2,hc,hp,h⟩

/-- How the two schedules end. -/
lemma racing_facts :
    checkWriter failureFirst (fun t r => decide (Undisturbed t.own r.dispatchId ∧ r.success = true)) = true ∧
    checkWriter receiptFirst (fun t r => (t.own.any fun q => q.2.db.deliveryEvents.getLast?.any fun row =>
        decide (LogsOutcome r.dispatchId q row ∧ row.event = receiptCell)) &&
      decide (r.success = false ∧ r.chunksWritten = none ∧ r.error = some (lit "boom"))) = true := by
  decide +kernel

theorem dispatch_describes_own_racing : ∃ t ∈ failureFirst.threads, ∃ c r,
    t.call.call = .dispatch c ∧ t.prog = .ret (.ok (.dispatched r)) ∧ r.success = true ∧
      DescribesOwn .checksum t.call.d c t.own r := by
  obtain ⟨t,ht,c,r,hc,hp,hcheck⟩ := checkWriter_iff racing_facts.1
  obtain ⟨hu,hs⟩ := of_decide_eq_true hcheck
  exact ⟨t,ht,c,r,hc,hp,hs,dispatch_describes_own .checksum sampleClasses .empty failureFirst
    (racing_run _) t ht c r hc hp hu⟩

/-- With the receipt first, the call that has written is reported as failed, with the error of the
other one. -/
theorem dispatch_reports_other : Interleaved (ProcessCall.prog .checksum sampleClasses) Outside
      (fun _ _ => True) (World.new .empty) receiptFirst ∧
    ∃ t ∈ receiptFirst.threads, ∃ c r, t.call.call = .dispatch c ∧ t.prog = .ret (.ok (.dispatched r)) ∧
      (∃ row, OwnOutcome t.own r.dispatchId row ∧ row.event = receiptCell) ∧ r.success = false ∧
      r.chunksWritten = none ∧ r.error = some (lit "boom") ∧ ¬DescribesOwn .checksum t.call.d c t.own r := by
  obtain ⟨t,ht,c,r,hc,hp,hcheck⟩ := checkWriter_iff racing_facts.2
  obtain ⟨hown,hr⟩ := Bool.and_eq_true_iff.mp hcheck
  obtain ⟨q,hq,hrow⟩ := List.any_eq_true.mp hown
  obtain ⟨row,-,hrow⟩ := (Option.any_eq_true _ _).mp hrow
  obtain ⟨hlog,hev⟩ := of_decide_eq_true hrow
  obtain ⟨hs,hn,he⟩ := of_decide_eq_true hr
  refine ⟨racing_run _,t,ht,c,r,hc,hp,⟨row,⟨q,hq,hlog⟩,hev⟩,hs,hn,he,fun hd => ?_⟩
  have hsuccess := hd.status.mpr (Or.inl ⟨row,⟨q,hq,hlog⟩,hev⟩)
  rw [hs] at hsuccess
  cases hsuccess

end Runs

end Stele
