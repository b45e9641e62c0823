import Stele.Ledger.Steps
import Stele.Ledger.ChainVerification

/-! What each transaction has done when it commits: the rows it added or changed, and the
one event it logged. -/
namespace Stele
open Python

variable {H : Hasher}

/-- The row is the next event of the chain, with this content. -/
structure EventRow.Logs (H : Hasher) (r : EventRow) (events : List EventRow) (kind subject : PyStr)
    (body : PyVal) : Prop where
  kind : r.kind = .text kind
  subject : r.subject = .text subject
  body : ∃ text, r.body = .text text ∧ canonicalText body = .ok text
  follows : Follows H (nextLink events).2 (nextLink events).1 r

lemma appendEvent_logs {kind subject at' : PyStr} {body : PyVal} {db db' : Db} {ev : Event}
    (h : appendEvent H kind subject body at' db = .ok (ev,db')) :
    ∃ r, db' = {db with events := db.events++[r]} ∧ r.Logs H db.events kind subject body := by
  obtain ⟨text,r,ht,rfl,h1,h2,h3,_,h5⟩ := appendEvent_ok h
  exact ⟨r,rfl,h1,h2,⟨text,h3,ht⟩,h5⟩

lemma EventRow.Logs.chained {r : EventRow} {events : List EventRow} {kind subject : PyStr}
    {body : PyVal} (h : r.Logs H events kind subject body) (hc : Chained H events) :
    Chained H (events++[r]) := by
  have hf := h.follows
  rw [hc.nextLink_eq] at hf
  refine chainedFrom_concat.mpr ⟨hc,?_⟩
  rwa [add_comm (1 : ℤ)]

lemma EventRow.Logs.loads {r : EventRow} {events : List EventRow} {kind subject : PyStr}
    {body : PyVal} (h : r.Logs H events kind subject body) :
    loadsColumn r.body = .ok (canonicalImage body) := by
  obtain ⟨text,hb,ht⟩ := h.body
  rw [hb,loadsColumn,loads_canonicalText ht]
  rfl

lemma insertRecord_ok {r : RecordRow} {db db' : Db} (h : insertRecord r db = .ok ((),db')) :
    db' = {db with records := db.records++[r]} ∧ r.checks = true ∧
      (r.recordId ≠ .null → ∀ q ∈ db.records, q.recordId ≠ r.recordId) ∧
      ∀ q ∈ db.records, q.runId ≠ r.runId := by
  unfold insertRecord at h
  split_ifs at h with h1 h2 h3 h4
  obtain ⟨_,rfl⟩ := Prod.mk.inj (Except.ok.inj h)
  refine ⟨rfl,by simpa using h2,fun hn q hq he => h3 ⟨hn,?_⟩,fun q hq he => h4 ?_⟩
  · exact List.any_eq_true.mpr ⟨q,hq,by simpa using he⟩
  · exact List.any_eq_true.mpr ⟨q,hq,by simpa using he⟩

/-- create_pending's transaction: the record, and what it commits to. -/
lemma createTx_ok {recordId at' : PyStr} {row : Except Exc RecordRow} {db db' : Db}
    (h : createTx H recordId at' row db = .ok ((),db')) : ∃ r body ev, row = .ok r ∧
      recordBody r = .ok body ∧
      db' = {db with records := db.records++[r], events := db.events++[ev]} ∧
      ev.Logs H db.events (lit "record.created") recordId body ∧ r.checks = true ∧
      (r.recordId ≠ .null → ∀ q ∈ db.records, q.recordId ≠ r.recordId) ∧
      ∀ q ∈ db.records, q.runId ≠ r.runId := by
  obtain ⟨r,hr,h⟩ := except_bind_ok.mp h
  obtain ⟨⟨_,db1⟩,hi,h⟩ := except_bind_ok.mp h
  obtain ⟨body,hb,h⟩ := except_bind_ok.mp h
  obtain ⟨⟨ev,db2⟩,he,h⟩ := except_bind_ok.mp h
  obtain ⟨_,rfl⟩ := Prod.mk.inj (Except.ok.inj h)
  obtain ⟨rfl,hc,hid,hrun⟩ := insertRecord_ok hi
  obtain ⟨q,rfl,hq⟩ := appendEvent_logs he
  exact ⟨r,body,q,hr,hb,rfl,hq,hc,hid,hrun⟩

lemma RecordRow.admits_iff {r : RecordRow} {id : PyStr} {states : List ArtifactState} :
    r.admits id states = true ↔ r.recordId = .text id ∧ ∃ s ∈ states, r.state = .text s.value := by
  rw [admits,Bool.and_eq_true,decide_eq_true_eq,decide_eq_true_eq,List.mem_map]
  simp only [eq_comm]

/-- No two records have one id; what is no text is no id. -/
def UniqueIds (rows : List RecordRow) : Prop :=
  ∀ id : PyStr, rows.countP (fun r => decide (r.recordId = .text id)) ≤ 1

lemma eq_of_countP_le_one {α : Type} {p : α → Bool} {xs : List α} (h : xs.countP p ≤ 1) {x y : α}
    (hx : x ∈ xs) (hy : y ∈ xs) (hpx : p x = true) (hpy : p y = true) : x = y := by
  induction xs with
  | nil => cases hx
  | cons z xs ih =>
    have other : ∀ w ∈ xs, p w = true → p z = true → False := by
      intro w hw hpw hpz
      have := List.countP_pos_iff.mpr ⟨w,hw,hpw⟩
      rw [List.countP_cons_of_pos hpz] at h
      omega
    rcases List.mem_cons.mp hx with hxz | hx
    · rcases List.mem_cons.mp hy with hyz | hy
      · exact hxz.trans hyz.symm
      · exact (other y hy hpy (hxz ▸ hpx)).elim
    · rcases List.mem_cons.mp hy with hyz | hy
      · exact (other x hx hpx (hyz ▸ hpy)).elim
      · exact ih ((List.sublist_cons_self z xs).countP_le.trans h) hx hy

lemma UniqueIds.eq {rows : List RecordRow} (h : UniqueIds rows) {r q : RecordRow} (hr : r ∈ rows)
    (hq : q ∈ rows) {id : PyStr} (hri : r.recordId = .text id) (hqi : q.recordId = .text id) :
    r = q :=
  eq_of_countP_le_one (h id) hr hq (by simpa using hri) (by simpa using hqi)

/-- The row of the record that the transition is about, moved whatever its state. -/
def RecordRow.movedIf (r : RecordRow) (id : PyStr) (s : ArtifactState) (finalizedAt : TextCell)
    (error : Option TextCell) : RecordRow :=
  if r.recordId = .text id then r.moved s finalizedAt error else r

section MovedIf

variable {r : RecordRow} {id : PyStr} {s : ArtifactState} {finalizedAt : TextCell}
  {error : Option TextCell}

lemma RecordRow.movedIf_pos (h : r.recordId = .text id) :
    r.movedIf id s finalizedAt error = r.moved s finalizedAt error := if_pos h

lemma RecordRow.movedIf_neg (h : r.recordId ≠ .text id) : r.movedIf id s finalizedAt error = r :=
  if_neg h

lemma RecordRow.movedIf_recordId : (r.movedIf id s finalizedAt error).recordId = r.recordId := by
  unfold movedIf
  split_ifs <;> rfl

end MovedIf

/-- A transition either finds no row that it may change, and changes nothing, or changes
the one row of its record and logs it. -/
lemma transitionTx_ok {e : Env} {id : PyStr} {t : Transition} {b : Bool} {db db' : Db}
    (hu : UniqueIds db.records) (h : transitionTx H e id t db = .ok (b,db')) :
    (b = false ∧ db' = db ∧ ∀ r ∈ db.records, r.admits id t.fromStates = false) ∨
    (b = true ∧ ∃ finalizedAt error ev, bindError t.error = .ok error ∧
      db' = {db with
        records := db.records.map fun r => r.movedIf id t.toState finalizedAt error,
        events := db.events++[ev]} ∧
      ev.Logs H db.events t.kind id t.body ∧ ∃ r ∈ db.records, r.admits id t.fromStates = true) := by
  obtain ⟨finalizedAt,_,h⟩ := except_bind_ok.mp h
  obtain ⟨error,herr,h⟩ := except_bind_ok.mp h
  obtain ⟨_,_,h⟩ := except_bind_ok.mp h
  have hle : db.records.countP (fun r => r.admits id t.fromStates) ≤ 1 := by
    refine (List.countP_mono_left fun r _ ha => ?_).trans (hu id)
    simpa using (RecordRow.admits_iff.mp ha).1
  simp only at h
  split at h
  · rename_i hn
    obtain ⟨⟨ev,db2⟩,he,h⟩ := except_bind_ok.mp h
    obtain ⟨rfl,rfl⟩ := Prod.mk.inj (Except.ok.inj h)
    obtain ⟨q,rfl,hq⟩ := appendEvent_logs he
    obtain ⟨r,hr,ha⟩ := List.countP_pos_iff.mp (hn ▸ Nat.one_pos)
    refine Or.inr ⟨rfl,finalizedAt,error,q,herr,?_,hq,r,hr,ha⟩
    have hmap : (db.records.map fun x => x.updated id t finalizedAt error) =
        db.records.map fun x => x.movedIf id t.toState finalizedAt error := by
      refine List.map_congr_left fun x hx => ?_
      unfold RecordRow.updated RecordRow.movedIf
      by_cases hi : x.recordId = .text id
      · obtain rfl := hu.eq hx hr hi (RecordRow.admits_iff.mp ha).1
        rw [if_pos ha,if_pos hi]
      · rw [if_neg fun hx => hi (RecordRow.admits_iff.mp hx).1,if_neg hi]
    rw [hmap]
  · rename_i hn
    obtain ⟨rfl,rfl⟩ := Prod.mk.inj (Except.ok.inj h)
    have h0 : db.records.countP (fun r => r.admits id t.fromStates) = 0 := by omega
    have hno : ∀ r ∈ db.records, r.admits id t.fromStates = false := by
      intro r hr
      simpa using List.countP_eq_zero.mp h0 r hr
    refine Or.inl ⟨rfl,?_,hno⟩
    have hmap : (db.records.map fun x => x.updated id t finalizedAt error) = db.records := by
      refine (List.map_congr_left fun x hx => ?_).trans (List.map_id _)
      rw [RecordRow.updated,hno x hx]
      rfl
    rw [hmap]

/-- open_delivery's transaction: a row and its event, or nothing when there is one. -/
lemma openTx_ok {e : Env} {recordId kind encoded : PyStr} {db db' : Db}
    (h : openTx H e recordId kind encoded db = .ok ((),db')) : db' = db ∨
      ∃ at' ev, db' = {db with
        deliveries := db.deliveries++
          [⟨.text e.uuid,.text recordId,.text kind,.text encoded,at'⟩],
        events := db.events++[ev]} ∧
      ev.Logs H db.events (lit "delivery.opened") e.uuid (deliveryBody recordId kind encoded) ∧
      (∀ d ∈ db.deliveries, d.dispatchId ≠ .text e.uuid ∧
        ¬(d.recordId = .text recordId ∧ d.targetKind = .text kind ∧ d.target = .text encoded)) ∧
      ∃ r ∈ db.records, r.recordId = .text recordId := by
  obtain ⟨_,h1,h⟩ := except_bind_ok.mp h
  obtain ⟨_,h2,h⟩ := except_bind_ok.mp h
  obtain ⟨_,h3,h⟩ := except_bind_ok.mp h
  obtain ⟨_,h4,h⟩ := except_bind_ok.mp h
  obtain ⟨at',_,h⟩ := except_bind_ok.mp h
  obtain ⟨⟨inserted,db1⟩,hi,h⟩ := except_bind_ok.mp h
  obtain rfl := bindText_ok h1
  obtain rfl := bindText_ok h2
  obtain rfl := bindText_ok h3
  obtain rfl := bindText_ok h4
  unfold insertDelivery at hi
  split_ifs at hi with ha hb
  · obtain ⟨rfl,rfl⟩ := Prod.mk.inj (Except.ok.inj hi)
    exact Or.inl (Prod.mk.inj (Except.ok.inj h)).2.symm
  · obtain ⟨rfl,rfl⟩ := Prod.mk.inj (Except.ok.inj hi)
    obtain ⟨⟨ev,db2⟩,he,h⟩ := except_bind_ok.mp h
    obtain ⟨_,rfl⟩ := Prod.mk.inj (Except.ok.inj h)
    obtain ⟨q,rfl,hq⟩ := appendEvent_logs he
    refine Or.inr ⟨at',q,rfl,hq,fun d hd => ?_,?_⟩
    · constructor
      · exact fun he => ha (List.any_eq_true.mpr ⟨d,hd,by simp [he]⟩)
      · exact fun he => ha (List.any_eq_true.mpr ⟨d,hd,by simp [he.1,he.2.1,he.2.2]⟩)
    · simpa using hb

/-- _insert: a row and its event. -/
lemma insertTx_ok {e : Env} {id : PyStr} {a : EventArgs} {db db' : Db}
    (h : insertTx H e id a db = .ok ((),db')) : ∃ row ev, eventRow (nextEventId db) id e.now a = .ok row ∧
      db' = {db with deliveryEvents := db.deliveryEvents++[row], events := db.events++[ev]} ∧
      ev.Logs H db.events (lit "delivery.event") id a.body ∧ breaksPayload db row = false ∧
      (row.event ∈ eventKinds.map fun k => TextCell.text k.value) ∧
      ∃ d ∈ db.deliveries, d.dispatchId = row.dispatchId := by
  obtain ⟨row,hr,h⟩ := except_bind_ok.mp h
  obtain ⟨⟨_,db1⟩,hi,h⟩ := except_bind_ok.mp h
  obtain ⟨⟨ev,db2⟩,he,h⟩ := except_bind_ok.mp h
  obtain ⟨_,rfl⟩ := Prod.mk.inj (Except.ok.inj h)
  unfold insertDeliveryEvent at hi
  split_ifs at hi with h1 h2 h3 h4
  obtain ⟨_,rfl⟩ := Prod.mk.inj (Except.ok.inj hi)
  obtain ⟨q,rfl,hq⟩ := appendEvent_logs he
  exact ⟨row,q,hr,rfl,hq,by simpa using h1,by simpa using h3,by simpa using h4⟩

lemma replayTx_ok {e : Env} {r : ReplayResult} {db db' : Db}
    (h : replayTx H e r db = .ok ((),db')) : ∃ row ev, r.row = .ok row ∧
      db' = {db with replays := db.replays++[row], events := db.events++[ev]} ∧
      ev.Logs H db.events (lit "replay.logged") r.replayId r.body ∧
      ∀ q ∈ db.replays, row.replayId ≠ .null → q.replayId ≠ row.replayId := by
  obtain ⟨row,hr,h⟩ := except_bind_ok.mp h
  obtain ⟨⟨_,db1⟩,hi,h⟩ := except_bind_ok.mp h
  obtain ⟨⟨ev,db2⟩,he,h⟩ := except_bind_ok.mp h
  obtain ⟨_,rfl⟩ := Prod.mk.inj (Except.ok.inj h)
  unfold insertReplay at hi
  split_ifs at hi with h1 h2 h3 h4
  obtain ⟨_,rfl⟩ := Prod.mk.inj (Except.ok.inj hi)
  obtain ⟨q,rfl,hq⟩ := appendEvent_logs he
  exact ⟨row,q,hr,rfl,hq,fun x hx hn he => h3 ⟨hn,List.any_eq_true.mpr ⟨x,hx,by simpa using he⟩⟩⟩

lemma signOffTx_ok {e : Env} {s : SignOffArgs} {db db' : Db}
    (h : signOffTx H e s db = .ok ((),db')) : ∃ ev, db' = {db with events := db.events++[ev]} ∧
      ev.Logs H db.events signoffEvent s.corpusId s.body := by
  obtain ⟨⟨ev,db2⟩,he,h⟩ := except_bind_ok.mp h
  obtain ⟨_,rfl⟩ := Prod.mk.inj (Except.ok.inj h)
  exact appendEvent_logs he

end Stele
