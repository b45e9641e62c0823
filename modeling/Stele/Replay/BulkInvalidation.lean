import Stele.Contracts.OwnResult
import Stele.Replay.Invalidation

/-! What the bulk invalidations come to while other connections move the same records: they get
through their lists exactly when no record is final by the time of its pass. -/
namespace Stele
open Python Interleaving

variable {H : Hasher} {classes : ℕ → TargetClass} {e : Env} {id note : PyStr} {w w' : World} {db db' : Db}

/-- The record is sealed or pending. -/
def StillLive (db : Db) (id : PyStr) : Prop :=
  stateOrNone db id = some .pending ∨ stateOrNone db id = some .sealed

def IsInvalidated (db : Db) (id : PyStr) : Prop := stateOrNone db id = some .invalidated

/-- The action that invalidates the record. -/
def Invalidates (id : PyStr) (q : World × World) : Prop :=
  StillLive q.1.db id ∧ IsInvalidated q.2.db id

/-- A ledger that was only written through its calls. -/
structure LedgerKept (H : Hasher) (db : Db) : Prop where
  consistent : Consistent H db
  history : HistoryHolds db

lemma ledgerKept_new : LedgerKept H Db.new := ⟨consistent_new,historyHolds_new⟩

section Kept

/-- For the ledger, a writer's call is no step. -/
lemma ledger_rely (h : (anyRules H classes).rely w w') : (ledgerRules H).rely w w' := by
  induction h with
  | refl => exact .refl
  | tail _ hs ih =>
    refine Relation.ReflTransGen.tail ih ?_
    rcases hs with ⟨h,-⟩ | h
    · cases h with
      | ledger h => exact Or.inl h
      | write | remove => exact Or.inr rfl
    · exact Or.inr h.db

lemma LedgerKept.run (h : LedgerKept H w.db) (hr : (anyRules H classes).rely w w') : LedgerKept H w'.db :=
  ⟨h.consistent.run (ledger_rely hr),(Rules.ledger_history h.consistent h.history (ledger_rely hr)).1⟩

lemma stateOrNone_getRecord {s : ArtifactState} : stateOrNone db id = some s ↔
    ∃ record, getRecord id db = .ok record ∧ record.state = s := by
  unfold stateOrNone
  cases getRecord id db <;> simp

lemma stateOrNone_bound {s : ArtifactState} (h : stateOrNone db id = some s) : bindText id = .ok (.text id) := by
  obtain ⟨record,hr,-⟩ := stateOrNone_getRecord.mp h
  exact (getRecord_id hr).2

/-- FAILED and INVALIDATED are final. -/
lemma final_run {s : ArtifactState} (hk : LedgerKept H w.db) (hr : (anyRules H classes).rely w w')
    (hs : s = .invalidated ∨ s = .failed) (h : stateOrNone w.db id = some s) : stateOrNone w'.db id = some s := by
  have hid := stateOrNone_bound h
  obtain ⟨r,hm,hrid,hrs⟩ := (stateOrNone_iff hk.consistent hid).mp h
  obtain ⟨r',hm',hb⟩ := (Rules.ledger_history hk.consistent hk.history (ledger_rely hr)).2.rows r hm
  have hstate : r'.state = r.state := by
    rcases hs with rfl | rfl
    · rw [hb.invalidated hrs]
    · exact hb.failed hrs
  obtain ⟨_,_,_,rfl⟩ := hb.kept
  exact (stateOrNone_iff (hk.run hr).consistent hid).mpr ⟨_,hm',hrid,hstate.trans hrs⟩

lemma IsInvalidated.run (hk : LedgerKept H w.db) (hr : (anyRules H classes).rely w w')
    (h : IsInvalidated w.db id) : IsInvalidated w'.db id := final_run hk hr (Or.inl rfl) h

lemma StillLive.found (h : StillLive db id) : ∃ record, getRecord id db = .ok record := by
  rcases h with h | h
  all_goals
    obtain ⟨record,hr,-⟩ := stateOrNone_getRecord.mp h
    exact ⟨record,hr⟩

lemma not_live_final {s : ArtifactState} (h : stateOrNone db id = some s) (hs : s = .invalidated ∨ s = .failed) :
    ¬StillLive db id := by
  rintro (hl | hl) <;> rw [h] at hl <;> rcases hs with rfl | rfl <;> cases hl

lemma live_state {s : ArtifactState} (h : stateOrNone db id = some s) (hs : ¬(s = .invalidated ∨ s = .failed)) :
    StillLive db id := by
  cases s with
  | pending => exact Or.inl h
  | «sealed» => exact Or.inr h
  | failed | invalidated => exact absurd (by simp) hs

/-- The guarded update of invalidate finds a row exactly when the record is sealed or pending. -/
lemma live_iff (note : PyStr) (hc : Consistent H db) (hid : bindText id = .ok (.text id)) : StillLive db id ↔
    ∃ r ∈ db.records, r.admits id (invalidateTransition note).fromStates = true := by
  have hadm : ∀ r : RecordRow, r.admits id (invalidateTransition note).fromStates = true ↔
      r.recordId = .text id ∧ (r.state = .text ArtifactState.pending.value ∨
        r.state = .text ArtifactState.sealed.value) := by
    intro r
    simp [RecordRow.admits,invalidateTransition]
  unfold StillLive
  rw [stateOrNone_iff hc hid,stateOrNone_iff hc hid]
  constructor
  · rintro (⟨r,hr,hrid,hrs⟩ | ⟨r,hr,hrid,hrs⟩)
    · exact ⟨r,hr,(hadm r).mpr ⟨hrid,Or.inl hrs⟩⟩
    · exact ⟨r,hr,(hadm r).mpr ⟨hrid,Or.inr hrs⟩⟩
  · rintro ⟨r,hr,ha⟩
    obtain ⟨hrid,hrs⟩ := (hadm r).mp ha
    exact hrs.imp (fun hrs => ⟨r,hr,hrid,hrs⟩) fun hrs => ⟨r,hr,hrid,hrs⟩

/-- A committed transition leaves the other records as they were. -/
lemma transitionTx_frame {t : Transition} {i : PyStr} {s : ArtifactState} (hc : Consistent H db)
    (ht : IsTransition t) (h : transitionTx H e id t db = .ok (true,db')) (hne : i ≠ id)
    (hs : stateOrNone db' i = some s) : stateOrNone db i = some s := by
  have hi := stateOrNone_bound hs
  obtain ⟨r',hr',hrid,hrs⟩ := (stateOrNone_iff (hc.move ht h) hi).mp hs
  obtain ⟨hb,_⟩ | ⟨_,finalizedAt,error,ev,_,rfl,_⟩ := transitionTx_ok hc.uniqueIds h
  · cases hb
  obtain ⟨r,hr,rfl⟩ := List.mem_map.mp hr'
  rw [RecordRow.movedIf_recordId] at hrid
  have hother : r.recordId ≠ .text id := by
    rw [hrid]
    exact fun he => hne (TextCell.text.inj he)
  rw [RecordRow.movedIf_neg hother] at hrs
  exact (stateOrNone_iff hc hi).mpr ⟨r,hr,hrid,hrs⟩

end Kept

section Passes

/-- While the pass reads and updates its record it is sealed or pending, and its note can be stored. -/
def CalmPass (id note : PyStr) (own : List (World × World)) : Prop :=
  Encodable note ∧ ∀ q ∈ own.take 2, StillLive q.1.db id

/-- With the ledger available: the clock's texts can be stored, the log has numbers left, and no
event of it has the hash of the new one. -/
structure CanLog (H : Hasher) (e : Env) (id note : PyStr) (own : List (World × World)) : Prop where
  textual : e.Textual
  room : ∀ q ∈ own, Appendable q.1.db.events
  fresh : ∀ q ∈ own, FreshHash H q.1.db.events (lit "record.invalidated") id
    (invalidateTransition note).body e.at'

lemma CanLog.mono {own own' : List (World × World)} (h : CanLog H e id note own')
    (hs : ∀ q ∈ own, q ∈ own') : CanLog H e id note own :=
  ⟨h.textual,fun q hq => h.room q (hs q hq),fun q hq => h.fresh q (hs q hq)⟩

/-- What only reads invalidates nothing. -/
lemma not_invalidates_self : ¬Invalidates id (w,w) := fun h => not_live_final h.2 (Or.inl rfl) h.1

/-- How a pass of LedgerStore.invalidate ends. -/
def InvalidatePass (H : Hasher) (e : Env) (id note : PyStr) (own : List (World × World))
    (r : Except Exc ArtifactRecord) (t : World) : Prop :=
  match r with
  | .ok x => x.recordId = .text id ∧ (∀ more, CalmPass id note (own++more)) ∧ IsInvalidated t.db id ∧
      ∀ i, (∃ q ∈ own, Invalidates i q) ↔ i = id
  | .error _ => CanLog H e id note own → ¬CalmPass id note own

/-- The update of invalidate, which commits or finds no row that it may change. -/
lemma invalidateTx_cases (hc : Consistent H db) (he : e.Textual) (ha : Appendable db.events)
    (hf : FreshHash H db.events (lit "record.invalidated") id (invalidateTransition note).body e.at')
    (hn : Encodable note) (hl : StillLive db id) :
    ∃ db', transitionTx H e id (invalidateTransition note) db = .ok (true,db') := by
  have hid : bindText id = .ok (.text id) := hl.elim stateOrNone_bound stateOrNone_bound
  obtain ⟨r,hr,hadm⟩ := (live_iff note hc hid).mp hl
  refine transitionTx_total hc hid he ?_ (encodable_lit _) (writable_dict fun p hp => ?_) hr hadm ha hf
  · rintro x hx
    obtain rfl := Option.some.inj hx
    exact encodable_append.mpr ⟨encodable_lit _,hn⟩
  · obtain rfl := List.mem_singleton.mp hp
    exact ⟨⟨_,rfl,encodable_lit _⟩,writable_str hn⟩

/-- A committed update of invalidate. -/
lemma invalidateTx_ok (hc : Consistent H w.db)
    (h : transitionTx H e id (invalidateTransition note) w.db = .ok (true,db')) :
    Encodable note ∧ StillLive w.db id ∧ IsInvalidated db' id ∧
      ∀ i, Invalidates i (w,{w with db := db'}) ↔ i = id := by
  have hid : bindText id = .ok (.text id) := by
    obtain ⟨_,_,h⟩ := except_bind_ok.mp h
    obtain ⟨_,_,h⟩ := except_bind_ok.mp h
    obtain ⟨_,h,_⟩ := except_bind_ok.mp h
    exact bindText_ok h ▸ h
  have hstate : IsInvalidated db' id := transitionTx_state hc (.invalidated note) h
  have hlive : StillLive w.db id := by
    obtain ⟨hb,_⟩ | ⟨_,_,_,_,_,_,_,r,hr,ha⟩ := transitionTx_ok hc.uniqueIds h
    · cases hb
    · exact (live_iff note hc hid).mpr ⟨r,hr,ha⟩
  refine ⟨?_,hlive,hstate,fun i => ⟨fun hi => ?_,fun hi => hi ▸ ⟨hlive,hstate⟩⟩⟩
  · obtain ⟨_,_,h⟩ := except_bind_ok.mp h
    obtain ⟨error,herr,_⟩ := except_bind_ok.mp h
    replace herr : (bindText (lit "INVALIDATED: "++note)).map some = .ok error := herr
    cases hb : bindText (lit "INVALIDATED: "++note) with
    | error exc =>
      rw [hb] at herr
      cases herr
    | ok c => exact (encodable_append.mp (bindText_total.mp ⟨c,hb⟩)).2
  · by_contra hne
    exact not_live_final (transitionTx_frame hc (.invalidated note) h hne hi.2) (Or.inl rfl) hi.1

variable {own : List (World × World)}

/-- How the guarded update ends, alone. -/
def TransitionPass (H : Hasher) (e : Env) (id note : PyStr) (own : List (World × World))
    (r : Except Exc Unit) (t : World) : Prop :=
  match r with
  | .ok _ => ∃ q, own = [q] ∧ Encodable note ∧ StillLive q.1.db id ∧ IsInvalidated t.db id ∧
      ∀ i, Invalidates i q ↔ i = id
  | .error _ => CanLog H e id note own → Encodable note → ∃ q, own.head? = some q ∧ ¬StillLive q.1.db id

lemma stay_step (w : World) : DispatcherStep H classes (fun _ => True) w w := .ledger (.stay w)

/-- A query, and what goes on from what it read. -/
lemma query_meets {α : Type} {f : Db → Except Exc α}
    {Q : Except Exc α → List (World × World) → World → Prop}
    (h : ∀ t u, (anyRules H classes).rely w t → (anyRules H classes).rely t u → Q (f t.db) (own++[(t,t)]) u) :
    Meets (anyRules H classes) (DispatcherStep H classes fun _ => True) Q (Op.query f).run own w :=
  Meets.atomic fun t ht _ => ⟨stay_step t,fun u hu => h t u ht hu⟩

/-- Each own action acts on a state that the start has led to. -/
lemma since {α : Type} {Q : Except Exc α → List (World × World) → World → Prop} {p : Op α}
    (h : Meets (anyRules H classes) (DispatcherStep H classes fun _ => True) Q p.run own w) :
    Meets (anyRules H classes) (DispatcherStep H classes fun _ => True)
      (fun r own' t => Q r own' t ∧ ∃ mine, own' = own++mine ∧ ∀ q ∈ mine, (anyRules H classes).rely w q.1)
      p.run own w := by
  have hkept := Meets.kept (I := (anyRules H classes).rely w) (fun _ _ hr hw => (anyRules H classes).trans hw hr)
    (fun _ _ hg _ => relied hg trivial) h ((anyRules H classes).refl w)
  refine Meets.weaken (fun _ _ hg => hg.1) ((Meets.traced hkept).mono ?_)
  rintro r own' t ⟨hq,mine,hown,hm⟩
  exact ⟨hq,mine,hown,fun q hq => (hm q hq).2.1⟩

/-- A transaction, which commits or leaves the database as it was. -/
lemma transaction_meets {α : Type} {body : Tx α} {Q : Except Exc α → List (World × World) → World → Prop}
    (hstep : ∀ t a db, body t.db = .ok (a,db) → LedgerStep H AnyTransition t {t with db := db})
    (hok : ∀ t a db u, (anyRules H classes).rely w t → body t.db = .ok (a,db) →
      (anyRules H classes).rely {t with db := db} u → Q (.ok a) (own++[(t,{t with db := db})]) u)
    (herr : ∀ t exc u, (anyRules H classes).rely w t → body t.db = .error exc →
      (anyRules H classes).rely t u → Q (.error exc) (own++[(t,t)]) u) :
    Meets (anyRules H classes) (DispatcherStep H classes fun _ => True) Q (Op.transaction body).run own w := by
  refine Meets.atomic fun t ht _ => ?_
  rcases writeTransaction_cases body t.db with ⟨a,db,hb,hw⟩ | ⟨exc,hb,hw⟩
  · rw [hw]
    exact ⟨.ledger (hstep t a db hb),fun u hu => hok t a db u ht hb hu⟩
  · rw [hw]
    exact ⟨stay_step t,fun u hu => herr t exc u ht hb hu⟩

/-- An update that does not commit did not find the record sealed or pending. -/
lemma dead_of_uncommitted (hc : Consistent H w.db)
    (h : ∀ db', transitionTx H e id (invalidateTransition note) w.db ≠ .ok (true,db'))
    (hq : own.head? = some (w,w')) (hcan : CanLog H e id note own) (hn : Encodable note) :
    ∃ q, own.head? = some q ∧ ¬StillLive q.1.db id := by
  have hm : (w,w') ∈ own := List.mem_of_mem_head? hq
  have ha := hcan.room _ hm
  have hf := hcan.fresh _ hm
  dsimp only at ha hf
  refine ⟨(w,w'),hq,fun hl => ?_⟩
  obtain ⟨db',htx⟩ := invalidateTx_cases hc hcan.textual ha hf hn hl
  exact h db' htx

lemma transition_pass (hk : LedgerKept H w.db) : Meets (anyRules H classes)
    (DispatcherStep H classes fun _ => True)
    (fun r own' t => ∃ mine, own' = own++mine ∧ TransitionPass H e id note mine r t)
    (LedgerStore.transition H e id (invalidateTransition note)).run own w := by
  refine Meets.bindExcept (transaction_meets (fun t b db hb => .move (.invalidated note) trivial hb) ?_ ?_)
  · intro t b db u ht hb hu
    have hkt := hk.run ht
    have hstep : DispatcherStep H classes (fun _ => True) t {t with db := db} :=
      .ledger (.move (.invalidated note) trivial hb)
    have hkd : LedgerKept H db := hkt.run (relied hstep trivial)
    cases b with
    | true =>
      obtain ⟨hn,hl,hi,hinv⟩ := invalidateTx_ok hkt.consistent hb
      refine Meets.ret fun v hv => ⟨_,rfl,_,rfl,hn,hl,?_,hinv⟩
      exact IsInvalidated.run (w := {t with db := db}) hkd ((anyRules H classes).trans hu hv) hi
    | false =>
      have hno : ∀ db', transitionTx H e id (invalidateTransition note) t.db ≠ .ok (true,db') := by
        intro db' htx
        rw [htx] at hb
        cases (Prod.mk.inj (Except.ok.inj hb)).1
      -- the call raises, whatever it then reads
      refine Meets.bindExcept (query_meets fun v x _ _ => ?_)
      have hend : ∀ exc : Exc, ∃ mine, own++[(t,{t with db := db})]++[(v,v)] = own++mine ∧
          TransitionPass H e id note mine (.error exc) x := fun exc =>
        ⟨[(t,{t with db := db}),(v,v)],List.append_assoc ..,dead_of_uncommitted hkt.consistent hno rfl⟩
      cases getRecord id v.db with
      | ok record => exact Meets.ret fun y _ => hend (.invalidTransition (lit "invalidate") id record.state.value)
      | error exc => exact hend exc
  · intro t exc u ht hb hu
    refine ⟨[(t,t)],rfl,dead_of_uncommitted (hk.run ht).consistent (fun db' htx => ?_) rfl⟩
    rw [htx] at hb
    cases hb

/-- Every pass of LedgerStore.invalidate, whatever the others do. -/
lemma invalidate_pass (hk : LedgerKept H w.db) : Meets (anyRules H classes)
    (DispatcherStep H classes fun _ => True)
    (fun r own' t => ∃ mine, own' = own++mine ∧ InvalidatePass H e id note mine r t)
    (LedgerStore.invalidate H e id note).run own w := by
  refine Meets.bindExcept (query_meets fun t u ht hu => ?_)
  cases hr : getRecord id t.db with
  | error exc =>
    refine ⟨[(t,t)],rfl,fun _ hcalm => ?_⟩
    have hl : StillLive t.db id := hcalm.2 (t,t) (List.mem_singleton_self _)
    obtain ⟨record,hrecord⟩ := hl.found
    cases hr.symm.trans hrecord
  | ok record =>
    have hstate : stateOrNone t.db id = some record.state := stateOrNone_getRecord.mpr ⟨record,hr,rfl⟩
    by_cases hfinal : record.state = .invalidated ∨ record.state = .failed
    · simp only [if_pos hfinal]
      refine Meets.ret fun v _ => ⟨[(t,t)],rfl,fun _ hcalm => ?_⟩
      exact not_live_final hstate hfinal (hcalm.2 (t,t) (List.mem_singleton_self _))
    · simp only [if_neg hfinal]
      have hku := hk.run ((anyRules H classes).trans ht hu)
      refine Meets.bindExcept ((Meets.reached (fun _ _ => relied) (transition_pass hku)).mono ?_)
      rintro r own' v ⟨huv,-,mine,rfl,hp⟩
      have hkv := hku.run huv
      cases r with
      | error exc =>
        refine ⟨(t,t) :: mine,by simp,fun hcan hcalm => ?_⟩
        obtain ⟨q,hq,hdead⟩ := hp (hcan.mono fun _ => List.mem_cons_of_mem _) hcalm.1
        obtain ⟨rest,rfl⟩ := List.head?_eq_some_iff.mp hq
        exact hdead (hcalm.2 q (by simp))
      | ok _ =>
        obtain ⟨q,rfl,hn,hl,hi,hinv⟩ := hp
        refine query_meets fun x y hx hy => ?_
        obtain ⟨r,hm,hrid,-⟩ := (stateOrNone_iff hkv.consistent (stateOrNone_bound hi)).mp hi
        have hix := IsInvalidated.run hkv hx hi
        obtain ⟨record',hrecord',-⟩ := stateOrNone_getRecord.mp hix
        rw [hrecord']
        refine ⟨[(t,t),q,(x,x)],by simp,(getRecord_id hrecord').1,fun more => ⟨hn,?_⟩,?_,?_⟩
        · simpa using ⟨live_state hstate hfinal,hl⟩
        · exact IsInvalidated.run (hkv.run hx) hy hix
        · intro i
          rw [← hinv i]
          simp [not_invalidates_self]

end Passes

section Lists

variable {α : Type} {f : ℕ → α → Op ArtifactRecord} {idOf noteOf : α → PyStr} {env : ℕ → Env}
  {selected : List α} {us : List (Pass World Exc α ArtifactRecord)} {own : List (World × World)}
  {r : Except Exc (List ArtifactRecord)}

/-- What a bulk invalidation should come to: every selected record has its pass, those that are still
live then end INVALIDATED, and the call returns the records that it has invalidated. -/
structure Completes (idOf : α → PyStr) (selected : List α) (us : List (Pass World Exc α ArtifactRecord))
    (own : List (World × World)) (r : Except Exc (List ArtifactRecord)) (w : World) : Prop where
  every : us.map Pass.elem = selected
  invalidated : ∀ u ∈ us, (∀ q ∈ u.own.head?, StillLive q.1.db (idOf u.elem)) →
    IsInvalidated w.db (idOf u.elem)
  returned : ∃ rs, r = .ok rs ∧ ∀ i, (∃ x ∈ rs, x.recordId = .text i) ↔ ∃ q ∈ own, Invalidates i q

/-- The passes of LedgerStore.invalidate on a list. -/
def invalidations (H : Hasher) (env : ℕ → Env) (idOf noteOf : α → PyStr) (i : ℕ) (a : α) : Op ArtifactRecord :=
  LedgerStore.invalidate H (env i) (idOf a) (noteOf a)

lemma invalidations_meets (hk : LedgerKept H w.db) (as : List α) : Meets (anyRules H classes)
    (DispatcherStep H classes fun _ => True)
    (fun r own' t => ∃ us, Passes (invalidations H env idOf noteOf) 0 as us r ∧
      own' = own++(us.map Pass.own).flatten ∧
      ∀ u ∈ us, InvalidatePass H (env u.place) (idOf u.elem) (noteOf u.elem) u.own u.result t ∧ LedgerKept H t.db)
    (each (invalidations H env idOf noteOf) 0 as).run own w := by
  refine each_meets (I := fun w => LedgerKept H w.db) (fun s t hr hs => hs.run hr) (fun _ _ hg _ => relied hg trivial)
    ?_ (fun i a own s hs => ?_) as hk
  · rintro ⟨i,a,own,r⟩ s t hr ⟨hp,hs⟩
    refine ⟨?_,hs.run hr⟩
    cases r with
    | error exc => exact hp
    | ok x => exact ⟨hp.1,hp.2.1,IsInvalidated.run hs hr hp.2.2.1,hp.2.2.2⟩
  · refine (Meets.reached (fun _ _ => relied) (invalidate_pass hs)).mono ?_
    rintro r own' t ⟨hst,-,mine,hown,hp⟩
    exact ⟨mine,hown,hp,hs.run hst⟩

/-- The list is gone through, and the claim of the call is true, exactly when each pass is calm. -/
theorem completes_iff (hp : Passes f 0 selected us r)
    (hu : ∀ u ∈ us, InvalidatePass H (env u.place) (idOf u.elem) (noteOf u.elem) u.own u.result w)
    (hcan : ∀ u ∈ us, CanLog H (env u.place) (idOf u.elem) (noteOf u.elem) u.own)
    (hown : ∀ i, (∃ q ∈ own, Invalidates i q) ↔ ∃ u ∈ us, ∃ q ∈ u.own, Invalidates i q) :
    Completes idOf selected us own r w ↔ ∀ u ∈ us, CalmPass (idOf u.elem) (noteOf u.elem) u.own := by
  constructor
  · rintro ⟨-,-,rs,rfl,-⟩ u hm
    obtain ⟨x,-,hx⟩ := List.mem_map.mp (hp.ok.2 ▸ List.mem_map_of_mem hm)
    have hpu := hu u hm
    rw [← hx] at hpu
    have hcalm := hpu.2.1 []
    rwa [List.append_nil] at hcalm
  · intro hcalm
    have hok : ∀ u ∈ us, ∃ x, u.result = .ok x := by
      intro u hm
      cases hr : u.result with
      | ok x => exact ⟨x,rfl⟩
      | error exc =>
        have hpu := hu u hm
        rw [hr] at hpu
        exact absurd (hcalm u hm) (hpu (hcan u hm))
    obtain ⟨rs,rfl⟩ := hp.total hok
    have hpass : ∀ u ∈ us, ∃ x ∈ rs, u.result = .ok x ∧
        InvalidatePass H (env u.place) (idOf u.elem) (noteOf u.elem) u.own (.ok x) w := fun u hm => by
      obtain ⟨x,hx,he⟩ := List.mem_map.mp (hp.ok.2 ▸ List.mem_map_of_mem hm)
      have hpu := hu u hm
      rw [← he] at hpu
      exact ⟨x,hx,he.symm,hpu⟩
    refine ⟨hp.ok.1,fun u hm _ => ?_,rs,rfl,fun i => ?_⟩
    · obtain ⟨x,-,-,hpu⟩ := hpass u hm
      exact hpu.2.2.1
    · rw [hown]
      constructor
      · rintro ⟨x,hx,hxi⟩
        have hmem : Except.ok x ∈ us.map Pass.result := hp.ok.2 ▸ List.mem_map_of_mem hx
        obtain ⟨u,hm,hux⟩ := List.mem_map.mp hmem
        obtain ⟨y,-,huy,hpu⟩ := hpass u hm
        obtain rfl := Except.ok.inj (hux.symm.trans huy)
        exact ⟨u,hm,(hpu.2.2.2 i).mpr (TextCell.text.inj (hxi.symm.trans hpu.1))⟩
      · rintro ⟨u,hm,hq⟩
        obtain ⟨x,hx,-,hpu⟩ := hpass u hm
        obtain rfl := (hpu.2.2.2 i).mp hq
        exact ⟨x,hx,hpu.1⟩

end Lists

section Diverged

variable {d : Dispatcher} {reason : PyStr} {own : List (World × World)}

/-- What Dispatcher.invalidate does before its removals. -/
def settle (H : Hasher) (e : Env) (recordId reason : PyStr) : Op Unit := do
  let record ← Op.query (getRecord recordId)
  if record.state ≠ .invalidated then
    let _ ← LedgerStore.invalidate H e recordId reason

lemma invalidate_eq (c : ℕ → RemovalArgs) :
    d.invalidate H classes e c id reason = settle H e id reason >>= fun _ => d.retract H classes c id := by
  unfold Dispatcher.invalidate settle
  rw [bind_assoc]
  congr 1
  funext record
  split_ifs
  · rw [bind_assoc]
    rfl
  · rfl

/-- The Dispatcher finds its record invalidated, or a pass of LedgerStore.invalidate is calm. -/
def CalmSettle (id reason : PyStr) (own : List (World × World)) : Prop :=
  (∃ q ∈ own.head?, IsInvalidated q.1.db id) ∨ (Encodable reason ∧ ∀ q ∈ own.take 3, StillLive q.1.db id)

/-- How the invalidation of a Dispatcher ends. -/
def SettlePass (H : Hasher) (e : Env) (id reason : PyStr) (own : List (World × World))
    (r : Except Exc Unit) (t : World) : Prop :=
  match r with
  | .ok _ => (∀ more, CalmSettle id reason (own++more)) ∧ IsInvalidated t.db id
  | .error _ => CanLog H e id reason own → ¬CalmSettle id reason own

lemma not_calm {more : List (World × World)} (h : ¬IsInvalidated w.db id)
    (hm : ¬(StillLive w.db id ∧ CalmPass id reason more)) : ¬CalmSettle id reason ((w,w') :: more) := by
  rintro (⟨q,hq,hi⟩ | ⟨hn,hl⟩)
  · obtain rfl := Option.some.inj hq
    exact h hi
  · rw [List.take_succ_cons,List.forall_mem_cons] at hl
    exact hm ⟨hl.1,hn,hl.2⟩

lemma settle_pass (hk : LedgerKept H w.db) : Meets (anyRules H classes)
    (DispatcherStep H classes fun _ => True)
    (fun r own' t => ∃ mine, own' = own++mine ∧ SettlePass H e id reason mine r t)
    (settle H e id reason).run own w := by
  refine Meets.bindExcept (query_meets fun t u ht hu => ?_)
  have hkt := hk.run ht
  cases hr : getRecord id t.db with
  | error exc =>
    refine ⟨[(t,t)],rfl,fun _ => not_calm ?_ fun h => ?_⟩
    · intro hi
      obtain ⟨record,hrecord,-⟩ := stateOrNone_getRecord.mp hi
      cases hr.symm.trans hrecord
    · obtain ⟨record,hrecord⟩ := h.1.found
      cases hr.symm.trans hrecord
  | ok record =>
    have hstate : stateOrNone t.db id = some record.state := stateOrNone_getRecord.mpr ⟨record,hr,rfl⟩
    by_cases hi : record.state = .invalidated
    · have hit : IsInvalidated t.db id := hstate.trans (congrArg some hi)
      simp only [hi,ne_eq,not_true,if_false]
      refine Meets.ret fun v hv => ⟨[(t,t)],rfl,fun more => Or.inl ⟨(t,t),rfl,hit⟩,?_⟩
      exact hit.run hkt ((anyRules H classes).trans hu hv)
    · have hnt : ¬IsInvalidated t.db id := fun h => hi (Option.some.inj (hstate.symm.trans h))
      simp only [if_pos hi]
      refine Meets.bindExcept ((Meets.reached (fun _ _ => relied) (since (invalidate_pass (hkt.run hu)))).mono ?_)
      rintro r own' v ⟨huv,-,⟨mine,rfl,hp⟩,mine',heq,hsince⟩
      obtain rfl := List.append_cancel_left heq
      cases r with
      | error exc =>
        refine ⟨(t,t) :: mine,by simp,fun hcan => not_calm hnt fun h => ?_⟩
        exact hp (hcan.mono fun _ => List.mem_cons_of_mem _) h.2
      | ok x =>
        obtain ⟨-,hcalm,hiv,hinv⟩ := hp
        -- what is live later is not final yet
        obtain ⟨q,hq,hlive,-⟩ := (hinv id).mpr rfl
        have hl : StillLive t.db id := live_state hstate fun hfinal =>
          not_live_final (final_run hkt ((anyRules H classes).trans hu (hsince q hq)) hfinal hstate) hfinal hlive
        refine Meets.ret fun y hy => ⟨(t,t) :: mine,by simp,fun more => Or.inr ?_,?_⟩
        · obtain ⟨hn,hnext⟩ := hcalm more
          refine ⟨hn,?_⟩
          rw [List.cons_append,List.take_succ_cons,List.forall_mem_cons]
          exact ⟨hl,hnext⟩
        · exact hiv.run ((hkt.run hu).run huv) hy

/-- The Dispatcher's invalidation ended, and then its removals did so. -/
def Settled (H : Hasher) (classes : ℕ → TargetClass) (d : Dispatcher) (e : Env) (c : ℕ → RemovalArgs)
    (id reason : PyStr) (own : List (World × World)) (r : Except Exc (List RemovalResult)) : Prop :=
  ∃ mine rest, own = mine++rest ∧ (settle H e id reason).run.Took mine (.ok ()) ∧
    (d.retract H classes c id).run.Took rest r

/-- How a pass of Dispatcher.invalidate ends. -/
inductive DispatcherPass (H : Hasher) (classes : ℕ → TargetClass) (d : Dispatcher) (e : Env)
    (c : ℕ → RemovalArgs) (id reason : PyStr) (own : List (World × World))
    (r : Except Exc (List RemovalResult)) (t : World) : Prop
  | settled (h : Settled H classes d e c id reason own r) (hc : CalmSettle id reason own)
    (hi : IsInvalidated t.db id)
  | refused {exc : Exc} (hr : r = .error exc) (h : (settle H e id reason).run.Took own (.error exc))
    (hc : CanLog H e id reason own → ¬CalmSettle id reason own)

lemma DispatcherPass.run {c : ℕ → RemovalArgs} {r : Except Exc (List RemovalResult)} (hk : LedgerKept H w.db)
    (hr : (anyRules H classes).rely w w') (h : DispatcherPass H classes d e c id reason own r w) :
    DispatcherPass H classes d e c id reason own r w' := by
  cases h with
  | settled h hc hi => exact .settled h hc (hi.run hk hr)
  | refused he h hc => exact .refused he h hc

lemma dispatcher_pass {c : ℕ → RemovalArgs} (hk : LedgerKept H w.db) : Meets (anyRules H classes)
    (DispatcherStep H classes fun _ => True)
    (fun r own' t => ∃ mine, own' = own++mine ∧ DispatcherPass H classes d e c id reason mine r t)
    (d.invalidate H classes e c id reason).run own w := by
  rw [invalidate_eq]
  refine Meets.bindExcept ((Meets.reached (fun _ _ => relied) (Meets.took (settle_pass hk))).mono ?_)
  rintro r own' t ⟨hst,-,⟨mine,rfl,hp⟩,mine',heq,htook⟩
  obtain rfl := List.append_cancel_left heq
  cases r with
  | error exc => exact ⟨mine,rfl,.refused rfl htook hp⟩
  | ok _ =>
    have hretract : Yields (anyRules H classes) (DispatcherStep H classes fun _ => True) _
        (d.retract H classes c id) (own++mine) t := retract_yields trivial
    refine (Meets.reached (fun _ _ => relied) (Meets.took hretract)).mono ?_
    rintro r own' u ⟨htu,-,-,rest,rfl,hrest⟩
    refine ⟨mine++rest,List.append_assoc ..,.settled ⟨mine,rest,rfl,htook,hrest⟩ (hp.1 rest) ?_⟩
    exact hp.2.run (hk.run hst) htu

variable {env : ℕ → Env} {removal : ℕ → ℕ → RemovalArgs} {results : List ReplayResult}
  {us : List (Pass World Exc ReplayResult (List RemovalResult))} {r : Except Exc (List (List RemovalResult))}

/-- The passes of Dispatcher.invalidate on the diverged results. -/
def removals (H : Hasher) (classes : ℕ → TargetClass) (d : Dispatcher) (env : ℕ → Env)
    (removal : ℕ → ℕ → RemovalArgs) (i : ℕ) (a : ReplayResult) : Op (List RemovalResult) :=
  d.invalidate H classes (env i) (removal i) a.recordId (divergedReason a)

lemma removals_meets (hk : LedgerKept H w.db) (as : List ReplayResult) : Meets (anyRules H classes)
    (DispatcherStep H classes fun _ => True)
    (fun r own' t => ∃ us, Passes (removals H classes d env removal) 0 as us r ∧
      own' = own++(us.map Pass.own).flatten ∧ ∀ u ∈ us, DispatcherPass H classes d (env u.place)
        (removal u.place) u.elem.recordId (divergedReason u.elem) u.own u.result t ∧ LedgerKept H t.db)
    (each (removals H classes d env removal) 0 as).run own w := by
  refine each_meets (I := fun w => LedgerKept H w.db) (fun s t hr hs => hs.run hr) (fun _ _ hg _ => relied hg trivial)
    ?_ (fun i a own s hs => ?_) as hk
  · exact fun u s t hr hp => ⟨hp.1.run hp.2 hr,hp.2.run hr⟩
  · refine (Meets.reached (fun _ _ => relied) (dispatcher_pass hs)).mono ?_
    rintro r own' t ⟨hst,-,mine,hown,hp⟩
    exact ⟨mine,hown,hp,hs.run hst⟩

/-- What invalidate_diverged should come to: every diverged record has its pass, unless removing what
one has delivered raised, and each that is still live then ends INVALIDATED. -/
structure CompletesDiverged (H : Hasher) (classes : ℕ → TargetClass) (d : Dispatcher) (env : ℕ → Env)
    (removal : ℕ → ℕ → RemovalArgs) (results : List ReplayResult)
    (us : List (Pass World Exc ReplayResult (List RemovalResult))) (r : Except Exc (List (List RemovalResult)))
    (w : World) : Prop where
  every : (us.map Pass.elem = results ∧ ∃ rs, r = .ok rs) ∨ ∃ u ∈ us.getLast?, ∃ exc, r = .error exc ∧
    Settled H classes d (env u.place) (removal u.place) u.elem.recordId (divergedReason u.elem) u.own (.error exc)
  invalidated : ∀ u ∈ us, (∀ q ∈ u.own.head?, StillLive q.1.db u.elem.recordId) →
    IsInvalidated w.db u.elem.recordId

theorem completesDiverged_iff (hp : Passes (removals H classes d env removal) 0 results us r)
    (hu : ∀ u ∈ us, DispatcherPass H classes d (env u.place) (removal u.place) u.elem.recordId
      (divergedReason u.elem) u.own u.result w)
    (hcan : ∀ u ∈ us, CanLog H (env u.place) u.elem.recordId (divergedReason u.elem) u.own) :
    CompletesDiverged H classes d env removal results us r w ↔
      ∀ u ∈ us, CalmSettle u.elem.recordId (divergedReason u.elem) u.own := by
  constructor
  · rintro ⟨hevery,-⟩ u hm
    cases hu u hm with
    | settled _ hc _ => exact hc
    | refused hr h _ =>
      obtain ⟨hlast,rfl⟩ := hp.stopped hm hr
      rcases hevery with ⟨-,rs,hrs⟩ | ⟨u',hu',exc',-,mine,rest,hown,hmine,-⟩
      · cases hrs
      · obtain rfl := Option.some.inj (hlast.symm.trans hu')
        rw [hown] at h
        cases (Prog.took_unique hmine h).2
  · intro hcalm
    have hsettled : ∀ u ∈ us, Settled H classes d (env u.place) (removal u.place) u.elem.recordId
        (divergedReason u.elem) u.own u.result ∧ IsInvalidated w.db u.elem.recordId := by
      intro u hm
      cases hu u hm with
      | settled h _ hi => exact ⟨h,hi⟩
      | refused _ _ hc => exact absurd (hcalm u hm) (hc (hcan u hm))
    refine ⟨?_,fun u hm _ => (hsettled u hm).2⟩
    cases r with
    | ok rs => exact Or.inl ⟨hp.ok.1,rs,rfl⟩
    | error exc =>
      by_cases hall : ∀ u ∈ us, ∃ b, u.result = .ok b
      · obtain ⟨rs,hrs⟩ := hp.total hall
        cases hrs
      · push Not at hall
        obtain ⟨u,hm,hne⟩ := hall
        cases hr : u.result with
        | ok b => exact absurd hr (hne b)
        | error exc' =>
          obtain ⟨hlast,he⟩ := hp.stopped hm hr
          obtain rfl := Except.error.inj he
          exact Or.inr ⟨u,hlast,exc,rfl,hr ▸ (hsettled u hm).1⟩

end Diverged

section Calls

/-- What a call on a list is known for: it completes exactly when each of its passes is calm. -/
def CompletesIfCalm {α : Type} (H : Hasher) (env : ℕ → Env) (idOf noteOf : α → PyStr) (selected : List α)
    (own : List (World × World)) (r : Except Exc (List ArtifactRecord)) (w : World) : Prop :=
  ∃ us, Passes (invalidations H env idOf noteOf) 0 selected us r ∧ own = (us.map Pass.own).flatten ∧
    ((∀ u ∈ us, CanLog H (env u.place) (idOf u.elem) (noteOf u.elem) u.own) →
      (Completes idOf selected us own r w ↔ ∀ u ∈ us, CalmPass (idOf u.elem) (noteOf u.elem) u.own))

lemma completesIfCalm {α : Type} {env : ℕ → Env} {idOf noteOf : α → PyStr} {selected : List α}
    {us : List (Pass World Exc α ArtifactRecord)} {r : Except Exc (List ArtifactRecord)}
    (hp : Passes (invalidations H env idOf noteOf) 0 selected us r)
    (hu : ∀ u ∈ us, InvalidatePass H (env u.place) (idOf u.elem) (noteOf u.elem) u.own u.result w ∧
      LedgerKept H w.db) :
    CompletesIfCalm H env idOf noteOf selected (us.map Pass.own).flatten r w := by
  refine ⟨us,hp,rfl,fun hcan => completes_iff hp (fun u hm => (hu u hm).1) hcan fun i => ?_⟩
  simp only [List.mem_flatten,List.mem_map]
  constructor
  · rintro ⟨q,⟨_,⟨u,hm,rfl⟩,hq⟩,hi⟩
    exact ⟨u,hm,q,hq,hi⟩
  · rintro ⟨u,hm,q,hq,hi⟩
    exact ⟨q,⟨_,⟨u,hm,rfl⟩,hq⟩,hi⟩

/-- What is known of a call that has ended: when the bulk invalidation that it is does what it
should. The first action of invalidate_by_source_hash is its selection. -/
def BatchCall.Exact (H : Hasher) (U : Unicode) (classes : ℕ → TargetClass) :
    BatchCall → List (World × World) → Except Exc BatchResult → World → Prop
  | .other _,_,_,_ => True
  | .bySourceHash e hash reason note,own,r,w => ∃ q rest res, own = q :: rest ∧ r = res.map .invalidated ∧
    (Encodable hash → ∃ records, findBySourceHash hash q.1.db = .ok records ∧
      CompletesIfCalm H e (fun r : ArtifactRecord => r.recordId.get) (fun _ => reasonNote reason note)
        (sourceCandidates records) rest res w) ∧
    (¬Encodable hash → ∃ exc, res = .error exc)
  | .drifted e candidates note,own,r,w => ∃ res, r = res.map .invalidated ∧
    CompletesIfCalm H e (fun c : ValidationCandidate => c.record.recordId.get)
      (fun c => reasonNote (driftReason c.validation) (note++lit ": "++c.validation.driftSummary U))
      (driftedCandidates candidates) own res w
  | .diverged d e c results,own,r,w => ∃ us res,
    Passes (removals H classes d e c) 0 (divergedResults results) us res ∧
    own = (us.map Pass.own).flatten ∧ r = res.map (fun rs => .removed rs.flatten) ∧
    ((∀ u ∈ us, CanLog H (e u.place) u.elem.recordId (divergedReason u.elem) u.own) →
      (CompletesDiverged H classes d e c (divergedResults results) us res w ↔
        ∀ u ∈ us, CalmSettle u.elem.recordId (divergedReason u.elem) u.own))

/-- The rows of a ledger that is written through its calls can be read. -/
lemma findBySourceHash_total {hash : PyStr} (hc : Consistent H db) (h : Encodable hash) :
    ∃ records, findBySourceHash hash db = .ok records := by
  have hrows : ∀ rows : List RecordRow, (∀ r ∈ rows, r ∈ db.records) →
      ∃ records, rows.mapM rowToRecord = .ok records := by
    intro rows hsub
    obtain ⟨records,hrecords,-⟩ := mapM_total (P := fun _ => True) fun r hr => by
      obtain ⟨x,hx⟩ := hc.holds (hsub r hr)
      exact ⟨_,hx.rowToRecord,trivial⟩
    exact ⟨records,hrecords⟩
  simp only [findBySourceHash,bindText,h,if_true,bind,Except.bind]
  exact hrows _ fun r hr => (List.mem_filter.mp ((List.mem_insertionSort _).mp hr)).1

lemma BatchCall.meets {U : Unicode} (c : BatchCall) (hk : LedgerKept H w.db) :
    Meets (anyRules H classes) (DispatcherStep H classes fun _ => True)
      (fun r own' t => c.Exact H U classes own' r t) (c.prog H U classes) [] w := by
  cases c with
  | other c => exact Meets.map ((DispatcherCall.meets trivial c.call w).mono fun _ _ _ _ => trivial)
  | drifted e candidates note =>
    refine Meets.map ((invalidations_meets hk (driftedCandidates candidates)).mono ?_)
    rintro r own' t ⟨us,hp,rfl,hu⟩
    exact ⟨r,rfl,completesIfCalm hp hu⟩
  | bySourceHash e hash reason note =>
    refine Meets.map (Meets.bindExcept (query_meets fun t u ht hu => ?_))
    have hkt := hk.run ht
    cases hr : findBySourceHash hash t.db with
    | error exc =>
      refine ⟨(t,t),[],.error exc,rfl,rfl,fun h => ?_,fun _ => ⟨exc,rfl⟩⟩
      obtain ⟨records,hrecords⟩ := findBySourceHash_total hkt.consistent h
      cases hr.symm.trans hrecords
    | ok records =>
      refine (invalidations_meets (hkt.run hu) (sourceCandidates records)).mono ?_
      rintro r own' v ⟨us,hp,rfl,hus⟩
      refine ⟨(t,t),_,r,rfl,rfl,fun _ => ⟨records,hr,completesIfCalm hp hus⟩,fun h => ?_⟩
      exact absurd hr (by simp [findBySourceHash,bindText,h,bind,Except.bind])
  | diverged d e c results =>
    refine Meets.map (Meets.bindExcept ((removals_meets hk (divergedResults results)).mono ?_))
    rintro r own' t ⟨us,hp,rfl,hu⟩
    cases r with
    | error exc => exact ⟨us,_,hp,rfl,rfl,fun hcan => completesDiverged_iff hp (fun u hm => (hu u hm).1) hcan⟩
    | ok rs =>
      refine Meets.ret fun v hv => ⟨us,.ok rs,hp,rfl,rfl,fun hcan => completesDiverged_iff hp (fun u hm => ?_) hcan⟩
      exact (hu u hm).1.run (hu u hm).2 hv

/-- A ledger that any number of processes share, in any interleaving: a bulk invalidation gets through
its list, with every record INVALIDATED that is live when its turn comes and the records returned that
it has invalidated, exactly when every record of the list is live as its pass reads and updates it
(or, for invalidate_diverged, is found invalidated), and the texts that it writes can be encoded. -/
theorem bulk_invalidation_completes_iff (H : Hasher) (U : Unicode) (classes : ℕ → TargetClass) (a : Archive)
    (p : Pool BatchCall World (Except Exc BatchResult))
    (h : Interleaved (BatchCall.prog H U classes) Outside (fun _ _ => True) (World.new a) p)
    (t : Thread BatchCall World (Except Exc BatchResult)) (ht : t ∈ p.threads) (r : Except Exc BatchResult)
    (hr : t.prog = .ret r) : t.call.Exact H U classes t.own r p.shared := by
  have hk := Interleaved.known (R := anyRules H classes) h
    (fun _ _ => DispatcherStep H classes fun _ => True) (fun c _ r own t => c.Exact H U classes own r t)
    (fun _ _ ho => .single (Or.inr ho)) (fun _ _ _ _ hg => relied hg trivial)
    (fun c w hw => c.meets (LedgerKept.run (w := World.new a) ledgerKept_new hw))
  have hm := (hk.2 t ht).meets
  rw [hr] at hm
  exact hm _ ((anyRules H classes).refl _)

end Calls

section Samples

instance (db : Db) (id : PyStr) : Decidable (StillLive db id) := inferInstanceAs (Decidable (_ ∨ _))

instance (db : Db) (id : PyStr) : Decidable (IsInvalidated db id) := inferInstanceAs (Decidable (_ = _))

def pendingCall (e : Env) (runId : PyStr) : BatchCall :=
  .other ⟨.empty,.ledger (.createPending e {samplePending with runId := runId})⟩

/-- Two pending records. -/
def pendingWorld : World :=
  ((pendingCall (envAt 2) (lit "b")).prog .checksum .ascii sampleClasses).final
    (((pendingCall sampleEnv (lit "a")).prog .checksum .ascii sampleClasses).final (World.new .empty))

/-- What a validation pass finds drifted of these records. -/
def driftedSample (ids : List PyStr) : List ValidationCandidate :=
  ids.filterMap fun id => (getRecord id pendingWorld.db).toOption.map fun r => ⟨r,.drift,[lit "a"],[],[]⟩

def driftedCall (ids : List PyStr) : BatchCall := .drifted (fun i => envAt (i+3)) (driftedSample ids) []

lemma sample_run (ids : List PyStr) : ∃ p,
    Interleaved (BatchCall.prog .checksum .ascii sampleClasses) Outside (fun _ _ => True) (World.new .empty) p ∧
    p.shared = (((driftedCall ids).prog .checksum .ascii sampleClasses).run pendingWorld).2 ∧
    ∃ t ∈ p.threads, t.call = driftedCall ids ∧
      t.prog = .ret (((driftedCall ids).prog .checksum .ascii sampleClasses).run pendingWorld).1 ∧
      t.own = ((driftedCall ids).prog .checksum .ascii sampleClasses).trace pendingWorld := by
  have hnew : Interleaved (BatchCall.prog .checksum .ascii sampleClasses) Outside (fun _ _ => True)
      (World.new .empty) ⟨World.new .empty,[]⟩ := Relation.ReflTransGen.refl
  obtain ⟨_,h⟩ := hnew.final (pendingCall sampleEnv (lit "a"))
  obtain ⟨ts,h⟩ : ∃ ts, Interleaved (BatchCall.prog .checksum .ascii sampleClasses) Outside (fun _ _ => True)
      (World.new .empty) ⟨pendingWorld,ts⟩ := h.final (pendingCall (envAt 2) (lit "b"))
  exact ⟨_,h.trans (Pool.call_trace _ _ _ ts (driftedCall ids)),rfl,_,List.mem_cons_self,rfl,rfl,rfl⟩

/-- What driftedCall invalidates, with the environment and the note of each pass. -/
abbrev sampleEnvs (i : ℕ) : Env := envAt (i+3)

abbrev sampleId (c : ValidationCandidate) : PyStr := c.record.recordId.get

abbrev sampleNote (c : ValidationCandidate) : PyStr :=
  reasonNote (driftReason c.validation) ([]++lit ": "++c.validation.driftSummary .ascii)

def samplePasses (ids : List PyStr) : List (Pass World Exc ValidationCandidate ArtifactRecord) :=
  passesAlone (invalidations .checksum sampleEnvs sampleId sampleNote) 0
    (driftedCandidates (driftedSample ids)) pendingWorld

instance (i : ℤ) : Decidable (IsInt64 i) := inferInstanceAs (Decidable (_ ∧ _))

instance (events : List EventRow) : Decidable (Appendable events) :=
  decidable_of_iff (IsInt64 (nextLink events).1 ∧ (nextLink events).2 = .text (nextLink events).2.get ∧
    Encodable (nextLink events).2.get)
    ⟨fun h => ⟨h.1,_,h.2⟩,fun ⟨h,s,hs,he⟩ => by rw [hs]; exact ⟨h,rfl,he⟩⟩

instance (e : Env) : Decidable e.Textual :=
  decidable_of_iff (Encodable e.uuid ∧ Encodable e.now ∧ Encodable e.at')
    ⟨fun h => ⟨h.1,h.2.1,h.2.2⟩,fun h => ⟨h.uuid,h.now,h.at'⟩⟩

instance (H : Hasher) (e : Env) (id note : PyStr) (own : List (World × World)) : Decidable (CanLog H e id note own) :=
  decidable_of_iff (e.Textual ∧ (∀ q ∈ own, Appendable q.1.db.events) ∧ ∀ q ∈ own,
    FreshHash H q.1.db.events (lit "record.invalidated") id (invalidateTransition note).body e.at')
    ⟨fun h => ⟨h.1,h.2.1,h.2.2⟩,fun h => ⟨h.textual,h.room,h.fresh⟩⟩

instance (id note : PyStr) (own : List (World × World)) : Decidable (CalmPass id note own) :=
  inferInstanceAs (Decidable (_ ∧ _))

lemma drifted_trace (env : ℕ → Env) (candidates : List ValidationCandidate) (note : PyStr) (w : World) :
    ((BatchCall.drifted env candidates note).prog .checksum .ascii sampleClasses).trace w =
      (each (invalidations .checksum env sampleId fun c => reasonNote (driftReason c.validation)
        (note++lit ": "++c.validation.driftSummary .ascii)) 0 (driftedCandidates candidates)).run.trace w :=
  Prog.trace_map _ _ _

/-- The call returned both records. -/
def invalidatedBoth : Except Exc BatchResult → Bool
  | .ok (.invalidated rs) => decide (rs.map ArtifactRecord.recordId = [.text (lit "r1"),.text (lit "u2")])
  | _ => false

lemma invalidatedBoth_ok {r : Except Exc BatchResult} (h : invalidatedBoth r = true) :
    ∃ rs, r = .ok (.invalidated rs) ∧ rs.map ArtifactRecord.recordId = [.text (lit "r1"),.text (lit "u2")] := by
  unfold invalidatedBoth at h
  split at h
  · exact ⟨_,rfl,of_decide_eq_true h⟩
  · cases h

/-- The call stopped at r1, which it had invalidated, before u2. -/
def stoppedAtFirst (r : Except Exc BatchResult × World) : Bool :=
  decide (IsInvalidated r.2.db (lit "r1")) && decide (StillLive r.2.db (lit "u2")) && match r.1 with
    | .error exc => decide (exc = .invalidTransition (lit "invalidate") (lit "r1") ArtifactState.invalidated.value)
    | .ok _ => false

/-- The runs of the two calls. -/
lemma drifted_facts :
    (invalidatedBoth (((driftedCall [lit "r1",lit "u2"]).prog .checksum .ascii sampleClasses).run
        pendingWorld).1 = true ∧
      (samplePasses [lit "r1",lit "u2"]).all (fun u =>
        decide (CanLog .checksum (sampleEnvs u.place) (sampleId u.elem) (sampleNote u.elem) u.own) &&
          decide (CalmPass (sampleId u.elem) (sampleNote u.elem) u.own)) = true) ∧
    stoppedAtFirst (((driftedCall [lit "r1",lit "r1",lit "u2"]).prog .checksum .ascii sampleClasses).run
      pendingWorld) = true ∧
    (driftedCandidates (driftedSample [lit "r1",lit "r1",lit "u2"])).map (fun c => c.record.recordId) =
      [.text (lit "r1"),.text (lit "r1"),.text (lit "u2")] := by
  decide +kernel

/-- Two records that drifted: each pass is calm, and the call completes. -/
theorem bulk_invalidation_completes_iff_sample : ∃ (p : Pool BatchCall World (Except Exc BatchResult))
    (t : Thread BatchCall World (Except Exc BatchResult)) (rs : List ArtifactRecord)
    (us : List (Pass World Exc ValidationCandidate ArtifactRecord)), t ∈ p.threads ∧
      t.call = driftedCall [lit "r1",lit "u2"] ∧ t.prog = .ret (.ok (.invalidated rs)) ∧
      rs.map ArtifactRecord.recordId = [.text (lit "r1"),.text (lit "u2")] ∧
      t.call.Exact .checksum .ascii sampleClasses t.own (.ok (.invalidated rs)) p.shared ∧
      Passes (invalidations .checksum sampleEnvs sampleId sampleNote) 0
        (driftedCandidates (driftedSample [lit "r1",lit "u2"])) us (.ok rs) ∧
      (∀ u ∈ us, CanLog .checksum (sampleEnvs u.place) (sampleId u.elem) (sampleNote u.elem) u.own) ∧
      (∀ u ∈ us, CalmPass (sampleId u.elem) (sampleNote u.elem) u.own) ∧
      Completes sampleId (driftedCandidates (driftedSample [lit "r1",lit "u2"])) us t.own (.ok rs) p.shared := by
  obtain ⟨⟨hrun,hall⟩,-⟩ := drifted_facts
  obtain ⟨p,h,-,t,ht,hc,hr,hown⟩ := sample_run [lit "r1",lit "u2"]
  obtain ⟨rs,hres,hids⟩ := invalidatedBoth_ok hrun
  rw [hres] at hr
  have hexact := bulk_invalidation_completes_iff .checksum .ascii sampleClasses .empty p h t ht _ hr
  have hcall := hexact
  rw [hc] at hcall
  obtain ⟨res,hres',us,hp,hflat,hiff⟩ := hcall
  obtain rfl : res = .ok rs := by
    cases res with
    | error _ => cases hres'
    | ok _ => rw [BatchResult.invalidated.inj (Except.ok.inj hres')]
  -- the passes are those of the call alone
  have hus : us = samplePasses [lit "r1",lit "u2"] :=
    hp.alone (hflat.symm.trans (hown.trans (drifted_trace sampleEnvs _ [] pendingWorld)))
  simp only [List.all_eq_true,Bool.and_eq_true,decide_eq_true_eq,← hus] at hall
  have hcan := fun u hu => (hall u hu).1
  have hcalm := fun u hu => (hall u hu).2
  exact ⟨p,t,rs,us,ht,hc,hr,hids,hexact,hp,hcan,hcalm,(hiff hcan).mpr hcalm⟩

/-- A record that is listed twice stops the call, and the one after it stays live. -/
theorem bulk_invalidation_stops : ∃ p,
    Interleaved (BatchCall.prog .checksum .ascii sampleClasses) Outside (fun _ _ => True) (World.new .empty) p ∧
    ∃ t ∈ p.threads, t.call = driftedCall [lit "r1",lit "r1",lit "u2"] ∧
      (driftedCandidates (driftedSample [lit "r1",lit "r1",lit "u2"])).map (fun c => c.record.recordId) =
        [.text (lit "r1"),.text (lit "r1"),.text (lit "u2")] ∧
      t.prog = .ret (.error (.invalidTransition (lit "invalidate") (lit "r1") ArtifactState.invalidated.value)) ∧
      IsInvalidated p.shared.db (lit "r1") ∧ StillLive p.shared.db (lit "u2") := by
  obtain ⟨-,hrun,hlist⟩ := drifted_facts
  obtain ⟨p,h,hs,t,ht,hc,hr,-⟩ := sample_run [lit "r1",lit "r1",lit "u2"]
  simp only [stoppedAtFirst,Bool.and_eq_true,decide_eq_true_eq] at hrun
  obtain ⟨⟨hi,hl⟩,hexc⟩ := hrun
  refine ⟨p,h,t,ht,hc,hlist,?_,hs ▸ hi,hs ▸ hl⟩
  split at hexc
  · rename_i exc hres
    rw [hr,hres,of_decide_eq_true hexc]
  · cases hexc

end Samples

end Stele
