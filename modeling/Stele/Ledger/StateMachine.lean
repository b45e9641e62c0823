import Stele.Ledger.Consistency

/-! The record state machine: which record events a record can have, that its row is in the
state of the last one, that final states stay, and that a refused call changes nothing. -/
namespace Stele
open Python Interleaving

variable {H : Hasher}

/-- A kind that starts with "record.". -/
def isRecordKind : TextCell → Bool
  | .text s => (lit "record.").isPrefixOf s
  | _ => false

/-- The record.* events of one record, in chain order. -/
def recordEvents (db : Db) (id : PyStr) : List EventRow :=
  (orderBySeq db.events).filter fun r => decide (r.subject = .text id) && isRecordKind r.kind

def createdKind : TextCell := .text (lit "record.created")
def sealedKind : TextCell := .text (lit "record.sealed")
def failedKind : TextCell := .text (lit "record.failed")
def invalidatedKind : TextCell := .text (lit "record.invalidated")

/-- The kinds of events that a record can have, and the state that they leave it in. -/
inductive History : List TextCell → ArtifactState → Prop
  | created : History [createdKind] .pending
  | failed (n : ℕ) : History (createdKind :: List.replicate (n+1) failedKind) .failed
  | sealed : History [createdKind,sealedKind] .sealed
  | sealedInvalidated : History [createdKind,sealedKind,invalidatedKind] .invalidated
  | invalidated : History [createdKind,invalidatedKind] .invalidated

/-- A transition continues the history of a record that it may change. -/
lemma IsTransition.history {t : Transition} (ht : IsTransition t) {ks : List TextCell}
    {s : ArtifactState} (h : History ks s) (hs : s ∈ t.fromStates) :
    History (ks++[.text t.kind]) t.toState := by
  cases ht with
  | sealed hash =>
    obtain rfl : s = .pending := by simpa [sealTransition] using hs
    cases h
    exact .sealed
  | failed error =>
    rcases (by simpa [failTransition] using hs : s = .pending ∨ s = .failed) with rfl | rfl
    · cases h
      exact .failed 0
    · cases h with
      | failed n =>
        have he : createdKind :: List.replicate (n+1) failedKind++[failedKind] =
            createdKind :: List.replicate (n+1+1) failedKind := by
          rw [List.cons_append,← List.replicate_succ']
        exact he ▸ .failed (n+1)
  | invalidated reason_note =>
    rcases (by simpa [invalidateTransition] using hs : s = .pending ∨ s = .sealed) with rfl | rfl
    · cases h
      exact .invalidated
    · cases h
      exact .sealedInvalidated

/-- Every row is in the state that its history leaves it in, and nothing else has one. -/
structure HistoryHolds (db : Db) : Prop where
  rows : ∀ r ∈ db.records, ∃ id s, r.recordId = .text id ∧ r.state = .text s.value ∧
    History ((recordEvents db id).map EventRow.kind) s
  events : ∀ id, recordEvents db id ≠ [] → ∃ r ∈ db.records, r.recordId = .text id

/-- What may become of a row: the record it holds stays, failed stays failed, and an
invalidated row stays as it is. -/
structure RecordRow.Becomes (r r' : RecordRow) : Prop where
  kept : ∃ s finalizedAt error, r' = {r with state := s, finalizedAt := finalizedAt, error := error}
  failed : r.state = .text ArtifactState.failed.value → r'.state = r.state
  invalidated : r.state = .text ArtifactState.invalidated.value → r' = r

lemma RecordRow.Becomes.refl (r : RecordRow) : r.Becomes r :=
  ⟨⟨r.state,r.finalizedAt,r.error,rfl⟩,fun _ => rfl,fun _ => rfl⟩

lemma RecordRow.Becomes.trans {r q t : RecordRow} (h : r.Becomes q) (h' : q.Becomes t) :
    r.Becomes t := by
  refine ⟨?_,fun hf => ?_,fun hi => ?_⟩
  · obtain ⟨_,_,_,rfl⟩ := h.kept
    obtain ⟨s,f,e,rfl⟩ := h'.kept
    exact ⟨s,f,e,rfl⟩
  · rw [h'.failed (h.failed hf ▸ hf),h.failed hf]
  · obtain rfl := h.invalidated hi
    exact h'.invalidated hi

/-- No row is lost, and every row becomes what it may; an invalidated record gets no more
events. -/
structure Evolves (a b : Db) : Prop where
  rows : ∀ r ∈ a.records, ∃ r' ∈ b.records, r.Becomes r'
  events : ∀ r ∈ a.records, r.state = .text ArtifactState.invalidated.value →
    ∀ id, r.recordId = .text id → recordEvents b id = recordEvents a id

lemma Evolves.refl (a : Db) : Evolves a a := ⟨fun r hr => ⟨r,hr,.refl r⟩,fun _ _ _ _ _ => rfl⟩

lemma Evolves.trans {a b c : Db} (h : Evolves a b) (h' : Evolves b c) : Evolves a c := by
  refine ⟨fun r hr => ?_,fun r hr hi id hid => ?_⟩
  · obtain ⟨q,hq,hrq⟩ := h.rows r hr
    obtain ⟨t,ht,hqt⟩ := h'.rows q hq
    exact ⟨t,ht,hrq.trans hqt⟩
  · obtain ⟨q,hq,hrq⟩ := h.rows r hr
    obtain rfl := hrq.invalidated hi
    rw [h'.events q hq hi id hid,h.events q hr hi id hid]

section Events

variable {db : Db} {ev : EventRow} {kind subject : PyStr} {body : PyVal}

lemma recordEvents_logs (hc : Chained H db.events) (hl : ev.Logs H db.events kind subject body)
    (db' : Db) (he : db'.events = db.events++[ev]) (id : PyStr) :
    recordEvents db' id = recordEvents db id++
      if subject = id ∧ isRecordKind (.text kind) = true then [ev] else [] := by
  rw [recordEvents,recordEvents,he,(hl.chained hc).orderBySeq_eq,hc.orderBySeq_eq,List.filter_append]
  congr 1
  by_cases h : subject = id ∧ isRecordKind (.text kind) = true
  · rw [if_pos h,List.filter_cons_of_pos (by simp [hl.kind,hl.subject,h.1,h.2]),List.filter_nil]
  · rw [if_neg h,List.filter_cons_of_neg (by simpa [hl.kind,hl.subject] using h),List.filter_nil]

/-- Other events are no part of any record's history. -/
lemma recordEvents_other (hc : Chained H db.events) (hl : ev.Logs H db.events kind subject body)
    {db' : Db} (he : db'.events = db.events++[ev]) (hk : isRecordKind (.text kind) = false)
    (id : PyStr) : recordEvents db' id = recordEvents db id := by
  rw [recordEvents_logs hc hl db' he,if_neg (by simp [hk]),List.append_nil]

lemma IsTransition.isRecordKind {t : Transition} (ht : IsTransition t) :
    isRecordKind (.text t.kind) = true := by
  cases ht <;> rfl

end Events

section Steps

variable {w w' : World} {P : World → PyStr → Transition → Prop}

/-- The rows and the record events are not touched. -/
lemma keeps_history {db db' : Db} (hr : db'.records = db.records)
    (he : ∀ id, recordEvents db' id = recordEvents db id) (h : HistoryHolds db) :
    HistoryHolds db' ∧ Evolves db db' := by
  refine ⟨⟨?_,?_⟩,⟨fun r hm => ⟨r,hr ▸ hm,.refl r⟩,fun _ _ _ id _ => he id⟩⟩
  · simpa only [hr,he] using h.rows
  · simpa only [hr,he] using h.events

lemma create_history {recordId at' : PyStr} {row : Except Exc RecordRow} {db db' : Db}
    (hc : Consistent H db) (h : HistoryHolds db)
    (hrow : ∀ r, row = .ok r → ∃ d, r.Holds H d ∧ d.recordId = recordId ∧ d.state = .pending)
    (ht : createTx H recordId at' row db = .ok ((),db')) : HistoryHolds db' ∧ Evolves db db' := by
  obtain ⟨r,body,ev,hr,_,rfl,hl,_,hid,_⟩ := createTx_ok ht
  obtain ⟨d,hd,rfl,hstate⟩ := hrow r hr
  have hnew : ∀ q ∈ db.records, q.recordId ≠ .text d.recordId := by
    have := hid (by simp [hd.recordId])
    rwa [hd.recordId] at this
  have hev := fun id => recordEvents_logs hc.chained hl
    {db with records := db.records++[r], events := db.events++[ev]} rfl id
  have hempty : recordEvents db d.recordId = [] := by
    by_contra hne
    obtain ⟨q,hq,hqe⟩ := h.events _ hne
    exact hnew q hq hqe
  have hold : ∀ q ∈ db.records, ∀ id, q.recordId = .text id →
      recordEvents {db with records := db.records++[r], events := db.events++[ev]} id =
        recordEvents db id := by
    intro q hq id hqid
    rw [hev,if_neg (fun hs => hnew q hq (by rw [hqid,hs.1])),List.append_nil]
  refine ⟨⟨fun q hq => ?_,fun id hne => ?_⟩,⟨fun q hq => ⟨q,List.mem_append_left _ hq,.refl q⟩,
    fun q hq _ id hqid => hold q hq id hqid⟩⟩
  · rcases List.mem_append.mp hq with hq | hq
    · obtain ⟨id,s,h1,h2,h3⟩ := h.rows q hq
      exact ⟨id,s,h1,h2,by rw [hold q hq id h1]; exact h3⟩
    · obtain rfl := List.mem_singleton.mp hq
      refine ⟨d.recordId,.pending,hd.recordId,hstate ▸ hd.state,?_⟩
      rw [hev,hempty,if_pos ⟨rfl,rfl⟩,List.nil_append,List.map_singleton,hl.kind]
      exact .created
  · by_cases he : d.recordId = id
    · exact ⟨r,by simp,he ▸ hd.recordId⟩
    · rw [hev,if_neg fun hs => he hs.1,List.append_nil] at hne
      obtain ⟨q,hq,hqid⟩ := h.events id hne
      exact ⟨q,List.mem_append_left _ hq,hqid⟩

lemma move_history {e : Env} {id : PyStr} {t : Transition} {b : Bool} {db db' : Db}
    (hc : Consistent H db) (h : HistoryHolds db) (ht : IsTransition t)
    (htx : transitionTx H e id t db = .ok (b,db')) : HistoryHolds db' ∧ Evolves db db' := by
  obtain ⟨_,rfl,_⟩ | ⟨_,finalizedAt,error,ev,_,rfl,hl,r,hr,ha⟩ := transitionTx_ok hc.uniqueIds htx
  · exact ⟨h,.refl _⟩
  obtain ⟨hrid,s,hs,hrs⟩ := RecordRow.admits_iff.mp ha
  obtain ⟨id',s',hid',hs',hist⟩ := h.rows r hr
  obtain rfl : id = id' := by simpa [hrid] using hid'
  obtain rfl : s = s' := ArtifactState.value_inj.mp (by simpa [hrs] using hs')
  have hev := fun i => recordEvents_logs hc.chained hl
    {db with
      records := db.records.map fun r => r.movedIf id t.toState finalizedAt error,
      events := db.events++[ev]} rfl i
  have hown : ∀ q ∈ db.records, q.recordId = .text id → q = r :=
    fun q hq hqid => hc.uniqueIds.eq hq hr hqid hrid
  -- the one row that moves was in a state that the transition may leave
  have hfinal : s ≠ .invalidated ∧ (s = .failed → t.toState = .failed) := by
    cases ht <;> cases s <;> simp_all [sealTransition,failTransition,invalidateTransition]
  refine ⟨⟨fun q hq => ?_,fun i hne => ?_⟩,⟨fun q hq => ⟨_,List.mem_map_of_mem hq,?_⟩,
    fun q hq hi i hqi => ?_⟩⟩
  · obtain ⟨x,hx,rfl⟩ := List.mem_map.mp hq
    obtain ⟨i,u,h1,h2,h3⟩ := h.rows x hx
    by_cases hid : x.recordId = .text id
    · obtain rfl := hown x hx hid
      rw [RecordRow.movedIf_pos hid]
      refine ⟨id,t.toState,hid,rfl,?_⟩
      rw [hev,if_pos ⟨rfl,ht.isRecordKind⟩,List.map_append,List.map_singleton,hl.kind]
      exact ht.history hist hs
    · rw [RecordRow.movedIf_neg hid]
      refine ⟨i,u,h1,h2,?_⟩
      rw [hev,if_neg fun hs => hid (by rw [h1,hs.1]),List.append_nil]
      exact h3
  · by_cases he : id = i
    · refine ⟨_,List.mem_map_of_mem hr,?_⟩
      rw [RecordRow.movedIf_pos hrid,← he]
      exact hrid
    · rw [hev,if_neg fun hs => he hs.1,List.append_nil] at hne
      obtain ⟨x,hx,hxid⟩ := h.events i hne
      refine ⟨_,List.mem_map_of_mem hx,?_⟩
      rw [RecordRow.movedIf_recordId]
      exact hxid
  · by_cases hid : q.recordId = .text id
    · obtain rfl := hown q hq hid
      rw [RecordRow.movedIf_pos hid]
      refine ⟨⟨_,_,_,rfl⟩,fun hf => ?_,fun hi => ?_⟩
      · have : s = .failed := ArtifactState.value_inj.mp (by simpa [hrs] using hf)
        rw [hf,← hfinal.2 this]
        rfl
      · exact absurd (ArtifactState.value_inj.mp (by simpa [hrs] using hi)) hfinal.1
    · rw [RecordRow.movedIf_neg hid]
      exact .refl q
  · rw [hev,if_neg,List.append_nil]
    rintro ⟨rfl,_⟩
    obtain rfl := hown q hq hqi
    exact hfinal.1 (ArtifactState.value_inj.mp (by simpa [hrs] using hi))

/-- Every action of every call keeps the histories, and lets rows become only what they may. -/
theorem LedgerStep.history (hc : Consistent H w.db) (h : HistoryHolds w.db)
    (hs : LedgerStep H P w w') : HistoryHolds w'.db ∧ Evolves w.db w'.db := by
  cases hs with
  | stay => exact ⟨h,.refl _⟩
  | create hrow ht => exact create_history hc h hrow ht
  | move ht _ htx => exact move_history hc h ht htx
  | opened ht =>
    obtain rfl | ⟨at',ev,rfl,hl,_⟩ := openTx_ok ht
    · exact ⟨h,.refl _⟩
    · exact keeps_history rfl (recordEvents_other hc.chained hl rfl rfl) h
  | event ht =>
    obtain ⟨row,ev,_,rfl,hl,_⟩ := insertTx_ok ht
    exact keeps_history rfl (recordEvents_other hc.chained hl rfl rfl) h
  | replay ht =>
    obtain ⟨row,ev,_,rfl,hl,_⟩ := replayTx_ok ht
    exact keeps_history rfl (recordEvents_other hc.chained hl rfl rfl) h
  | signOff ht =>
    obtain ⟨ev,rfl,hl⟩ := signOffTx_ok ht
    exact keeps_history rfl (recordEvents_other hc.chained hl rfl rfl) h
  | archive => exact ⟨h,.refl _⟩

/-- Over any sequence of actions of any calls. -/
theorem Rules.ledger_history (hc : Consistent H w.db) (h : HistoryHolds w.db)
    (hr : (Rules.ledger H P).rely w w') : HistoryHolds w'.db ∧ Evolves w.db w'.db := by
  induction hr with
  | refl => exact ⟨h,.refl _⟩
  | @tail b c hbc hs ih =>
    rcases hs with hs | hs
    · have hb := LedgerStep.history (hc.run hbc) ih.1 hs
      exact ⟨hb.1,ih.2.trans hb.2⟩
    · exact hs ▸ ih

end Steps

section Refusals

variable {α : Type} {R : Rules World} {G : World → World → Prop} {own : List (World × World)}
  {w : World}

/-- None of these actions touched the database. -/
def Silent (own : List (World × World)) : Prop := ∀ q ∈ own, q.2.db = q.1.db

lemma Silent.concat (h : Silent own) {q : World × World} (hq : q.2.db = q.1.db) :
    Silent (own++[q]) := by
  intro x hx
  rcases List.mem_append.mp hx with hx | hx
  · exact h x hx
  · exact List.mem_singleton.mp hx ▸ hq

/-- A call that raises has not touched the database. -/
def Refusal (r : Except Exc α) (own : List (World × World)) : Prop := ∀ e, r = .error e → Silent own

lemma Silent.query {β : Type} {f : Db → Except Exc β} {k : β → Op α} (h : Silent own)
    (hG : ∀ w, G w w)
    (hk : ∀ b own t, Silent own → R.rely w t →
      Meets R G (fun r own _ => Refusal r own) (k b).run own t) :
    Meets R G (fun r own _ => Refusal r own) (Op.query f >>= k).run own w := by
  refine Meets.bindExcept (Meets.atomic fun t ht _ => ⟨hG t,fun u hu => ?_⟩)
  have hs := h.concat (q := (t,t)) rfl
  cases f t.db with
  | ok b => exact hk b _ u hs (R.trans ht hu)
  | error e => exact fun _ _ => hs

/-- The record can be read as long as the ledger is kept. -/
lemma Consistent.getRecord {db : Db} (h : Consistent H db) {id : PyStr}
    (hid : bindText id = .ok (.text id)) (hr : ∃ r ∈ db.records, r.recordId = .text id) :
    ∃ x, Stele.getRecord id db = .ok x := by
  obtain ⟨r,hf⟩ := Option.isSome_iff_exists.mp
    (List.find?_isSome (p := fun r : RecordRow => decide (r.recordId = .text id)).mpr
      (hr.imp fun r hr => ⟨hr.1,by simpa using hr.2⟩))
  obtain ⟨d,hd⟩ := h.holds (List.mem_of_find?_eq_some hf)
  simp only [Stele.getRecord,hid,findRecord,hf,hd.rowToRecord,bind,Except.bind]
  exact ⟨_,rfl⟩

/-- What a transition leaves: the record is there, or nothing was touched. -/
def Moved (H : Hasher) (id : PyStr) (r : Except Exc Unit) (own : List (World × World)) (w : World) : Prop :=
  match r with
  | .ok _ => (Consistent H w.db ∧ HistoryHolds w.db) ∧ bindText id = .ok (.text id) ∧
      ∃ x ∈ w.db.records, x.recordId = .text id
  | .error _ => Silent own

/-- The others' actions, as seen from a ledger kept so far. -/
abbrev ledgerRules (H : Hasher) : Rules World := Rules.ledger H AnyTransition

variable {id : PyStr} {e : Env} {t : Transition}

lemma Evolves.has {a b : Db} (h : Evolves a b) (hr : ∃ x ∈ a.records, x.recordId = .text id) :
    ∃ x ∈ b.records, x.recordId = .text id := by
  obtain ⟨x,hx,hid⟩ := hr
  obtain ⟨y,hy,hb⟩ := h.rows x hx
  obtain ⟨_,_,_,rfl⟩ := hb.kept
  exact ⟨_,hy,hid⟩

/-- The guarded update finds the row and logs, or the call raises with nothing touched. -/
lemma transition_moved (ht : IsTransition t) (hc : Consistent H w.db) (hh : HistoryHolds w.db)
    (hs : Silent own) : Meets (ledgerRules H) (LedgerStep H AnyTransition) (Moved H id)
      (LedgerStore.transition H e id t).run own w := by
  refine Meets.bindExcept (Meets.atomic fun u hu _ => ?_)
  have hcu := hc.run hu
  have hhu := (Rules.ledger_history hc hh hu).1
  rcases writeTransaction_cases (transitionTx H e id t) u.db with ⟨b,db,hb,hw⟩ | ⟨exc,_,hw⟩
  · have hstep : LedgerStep H AnyTransition u {u with db := db} := .move ht trivial hb
    rw [hw]
    refine ⟨hstep,fun v hv => ?_⟩
    obtain ⟨rfl,rfl,_⟩ | ⟨rfl,f,error,ev,_,hdb,_,r,hr,ha⟩ := transitionTx_ok hcu.uniqueIds hb
    · -- no row to change: the call raises, whatever it then reads
      refine Meets.bindExcept (Meets.atomic fun x _ _ => ⟨.stay x,fun y _ => ?_⟩)
      have hs' := (hs.concat (q := (u,{u with db := u.db})) rfl).concat (q := (x,x)) rfl
      cases getRecord id x.db with
      | ok record => exact fun _ _ => hs'
      | error _ => exact hs'
    · have hid : bindText id = .ok (.text id) := by
        obtain ⟨_,_,h⟩ := except_bind_ok.mp hb
        obtain ⟨_,_,h⟩ := except_bind_ok.mp h
        obtain ⟨c,h,_⟩ := except_bind_ok.mp h
        exact bindText_ok h ▸ h
      have hrow : ∃ x ∈ db.records, x.recordId = .text id := by
        rw [hdb]
        refine ⟨_,List.mem_map_of_mem hr,?_⟩
        rw [RecordRow.movedIf_recordId]
        exact (RecordRow.admits_iff.mp ha).1
      intro x hx
      have hd := hstep.history hcu hhu
      have hvx := (ledgerRules H).trans hv hx
      have hx' := Rules.ledger_history (hcu.step hstep) hd.1 hvx
      exact ⟨⟨(hcu.step hstep).run hvx,hx'.1⟩,hid,hx'.2.has hrow⟩
  · rw [hw]
    exact ⟨.stay u,fun v _ => hs.concat (q := (u,{u with db := u.db})) rfl⟩

/-- A transition, and then the record as it is. -/
lemma transition_refusal (ht : IsTransition t) (hc : Consistent H w.db) (hh : HistoryHolds w.db)
    (hs : Silent own) : Meets (ledgerRules H) (LedgerStep H AnyTransition)
      (fun r own _ => Refusal r own)
      (LedgerStore.transition H e id t >>= fun _ => Op.query (getRecord id)).run own w := by
  refine Meets.bindExcept ((transition_moved ht hc hh hs).mono ?_)
  intro r own w hr
  cases r with
  | error exc => exact fun _ _ => hr
  | ok _ =>
    obtain ⟨⟨hc,hh⟩,hid,hrow⟩ := hr
    refine Meets.atomic fun u hu _ => ⟨.stay u,fun _ _ exc he => ?_⟩
    obtain ⟨x,hx⟩ := (hc.run hu).getRecord hid ((Rules.ledger_history hc hh hu).2.has hrow)
    rw [hx] at he
    cases he

/-- seal, fail and invalidate. -/
def LedgerCall.isTransition : LedgerCall → Bool
  | .sealRecord _ _ | .fail _ _ _ | .invalidate _ _ _ => true
  | _ => false

lemma Refusal.throw {exc : Exc} (hs : Silent own) :
    Meets R G (fun r own _ => Refusal r own) (throw exc : Op α).run own w := fun _ _ _ _ => hs

/-- A call of a transition that raises has touched nothing. -/
lemma LedgerCall.refusal {c : LedgerCall} (hcall : c.isTransition = true) (hc : Consistent H w.db)
    (hh : HistoryHolds w.db) : Meets (ledgerRules H) (LedgerStep H AnyTransition)
      (fun r own _ => Refusal r own) (c.prog H) [] w := by
  have hnil : Silent [] := fun _ hq => by cases hq
  have hmap : ∀ {p : Op ArtifactRecord}, Meets (ledgerRules H) (LedgerStep H AnyTransition)
      (fun r own _ => Refusal r own) p.run [] w → Meets (ledgerRules H) (LedgerStep H AnyTransition)
      (fun r own _ => Refusal r own) p.outcome [] w := by
    refine fun h => Meets.map (h.mono fun r own t hr e he => ?_)
    cases r with
    | ok a => cases he
    | error e' => exact hr e' rfl
  have hkeep : ∀ {u}, (ledgerRules H).rely w u → Consistent H u.db ∧ HistoryHolds u.db :=
    fun hu => ⟨hc.run hu,(Rules.ledger_history hc hh hu).1⟩
  cases c with
  | sealRecord e id =>
    refine hmap (hnil.query .stay fun record own u hs hu => ?_)
    by_cases hp : record.state = .pending
    · rw [if_neg (not_not.mpr hp)]
      refine Meets.bindExcept (Meets.atomic fun v hv _ =>
        ⟨.archive (archiveRecord_grows _ _ _),fun x hx => ?_⟩)
      have harch : (ledgerRules H).rely v
          {v with archive := (archiveRecord H e.reads record v.archive).2} := .single (Or.inr rfl)
      have hx' := hkeep ((ledgerRules H).trans (Relation.ReflTransGen.trans hu (.trans hv harch)) hx)
      have hs' := hs.concat (q := (v,{v with archive := (archiveRecord H e.reads record v.archive).2})) rfl
      cases (archiveRecord H e.reads record v.archive).1 with
      | error exc => exact fun _ _ => hs'
      | ok _ => exact transition_refusal (.sealed _) hx'.1 hx'.2 hs'
    · rw [if_pos hp]
      exact Refusal.throw hs
  | fail e id error =>
    refine hmap (hnil.query .stay fun record own u hs hu => ?_)
    split_ifs
    · exact Refusal.throw hs
    · exact transition_refusal (.failed _) (hkeep hu).1 (hkeep hu).2 hs
  | invalidate e id note =>
    refine hmap (hnil.query .stay fun record own u hs hu => ?_)
    split_ifs
    · exact Refusal.throw hs
    · exact transition_refusal (.invalidated _) (hkeep hu).1 (hkeep hu).2 hs
  | _ => cases hcall

end Refusals

section Runs

lemma historyHolds_new : HistoryHolds Db.new := ⟨by simp [Db.new],by simp [Db.new,recordEvents,orderBySeq]⟩

/-- In every state that any interleaving of calls reaches: each record's events are a history
that its row is at the end of, from there on no final state is left and an invalidated record
stays as it is, and a transition that raised has changed nothing. -/
theorem record_state_machine (H : Hasher) (a : Archive)
    (p p' : Pool LedgerCall World (Except Exc Unit))
    (h : Interleaved (LedgerCall.prog H) (fun w w' => w.db = w'.db) (fun _ _ => True)
      (World.new a) p)
    (h' : Runs.Reaches (Step (LedgerCall.prog H) fun w w' => w.db = w'.db)
      (Label.Allows fun _ _ => True) p p') :
    HistoryHolds p.shared.db ∧ Evolves p.shared.db p'.shared.db ∧
    ∀ t ∈ p.threads, t.call.isTransition = true → ∀ e, t.prog = .ret (.error e) →
      ∀ q ∈ t.own, q.2.db = q.1.db := by
  have hstart : ∀ {w}, (ledgerRules H).rely (World.new a) w →
      Consistent H w.db ∧ HistoryHolds w.db := fun hw =>
    ⟨consistent_new.run hw,(Rules.ledger_history consistent_new historyHolds_new hw).1⟩
  have hops : ∀ (c : LedgerCall) (w : World), (ledgerRules H).rely (World.new a) w →
      Meets (ledgerRules H) (LedgerStep H AnyTransition)
        (fun r own _ => c.isTransition = true → Refusal r own) (c.prog H) [] w := by
    intro c w hw
    cases hc : c.isTransition with
    | true => exact (c.refusal hc (hstart hw).1 (hstart hw).2).mono fun _ _ _ hr _ => hr
    | false =>
      refine (c.steps (fun t ht => ⟨ht,fun _ _ => trivial⟩) [] w).mono fun _ _ _ _ hr => ?_
      cases hr
  have hk := h.known (R := ledgerRules H) (fun _ _ => LedgerStep H AnyTransition)
    (fun c _ r own _ => c.isTransition = true → Refusal r own) (fun _ _ hab => .single (Or.inr hab))
    (fun _ _ _ _ hg => .single (Or.inl hg)) hops
  have hk' := knownFrom (R := ledgerRules H) h' (fun _ _ => LedgerStep H AnyTransition)
    (fun c _ r own _ => c.isTransition = true → Refusal r own) (fun _ _ hab => .single (Or.inr hab))
    (fun _ _ _ _ hg => .single (Or.inl hg))
    (fun c w hw => hops c w ((ledgerRules H).trans hk.1 hw)) hk.2
  obtain ⟨hc,hh⟩ := hstart hk.1
  refine ⟨hh,(Rules.ledger_history hc hh hk'.1).2,fun t ht hcall e he => ?_⟩
  have hm := (hk.2 t ht).meets
  rw [he] at hm
  exact hm _ ((ledgerRules H).refl _) hcall e rfl

/-- The sample record, invalidated. -/
def sampleInvalidated : World :=
  (LedgerCall.prog .checksum (.invalidate sampleEnv (lit "r1") (lit "bad"))).final sampleLedger

/-- Sealing it then is refused. -/
def sampleSeal : Except Exc Unit × World :=
  (LedgerCall.prog .checksum (.sealRecord sampleEnv (lit "r1"))).run sampleInvalidated

lemma sampleSeal_refused : sampleSeal.1 = .error (.invalidTransition (lit "seal") (lit "r1") (lit "invalidated")) ∧
    (recordEvents sampleSeal.2.db (lit "r1")).map EventRow.kind = [createdKind,invalidatedKind] := by
  decide +kernel

theorem record_state_machine_sample :
    HistoryHolds sampleSeal.2.db ∧
    (recordEvents sampleSeal.2.db (lit "r1")).map EventRow.kind = [createdKind,invalidatedKind] ∧
    ∃ t : Thread LedgerCall World (Except Exc Unit), t.prog = .ret sampleSeal.1 ∧
      sampleSeal.1.isOk = false ∧ ∀ q ∈ t.own, q.2.db = q.1.db := by
  have h0 : Interleaved (LedgerCall.prog .checksum) (fun w w' => w.db = w'.db) (fun _ _ => True)
    (World.new .empty) ⟨World.new .empty,[]⟩ := Relation.ReflTransGen.refl
  obtain ⟨ts1,h1⟩ := h0.final (.createPending sampleEnv samplePending)
  obtain ⟨ts2,h2⟩ : ∃ ts, Interleaved (LedgerCall.prog .checksum) (fun w w' => w.db = w'.db) (fun _ _ => True)
      (World.new .empty) ⟨sampleInvalidated,ts⟩ := h1.final (.invalidate sampleEnv (lit "r1") (lit "bad"))
  -- the value of the last run is not needed
  have hrefused : ∀ s : Except Exc Unit × World, (LedgerCall.prog .checksum (.sealRecord sampleEnv (lit "r1"))).run
      sampleInvalidated = s → s.1 = .error (.invalidTransition (lit "seal") (lit "r1") (lit "invalidated")) →
      HistoryHolds s.2.db ∧ ∃ t : Thread LedgerCall World (Except Exc Unit), t.prog = .ret s.1 ∧
        s.1.isOk = false ∧ ∀ q ∈ t.own, q.2.db = q.1.db := by
    intro s hs hr
    obtain ⟨own,h3⟩ := h2.call (.sealRecord sampleEnv (lit "r1"))
    rw [hs] at h3
    have hm := record_state_machine .checksum .empty _ _ h3 (Runs.Reaches.refl _)
    exact ⟨hm.1,_,rfl,by rw [hr]; rfl,hm.2.2 _ List.mem_cons_self rfl _ (congrArg Prog.ret hr)⟩
  obtain ⟨hr,hkinds⟩ := sampleSeal_refused
  obtain ⟨hh,hthread⟩ := hrefused sampleSeal rfl hr
  exact ⟨hh,hkinds,hthread⟩

end Runs

end Stele
