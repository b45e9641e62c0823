import Stele.Ledger.Appending
import Stele.Ledger.LedgerTransaction
import Stele.Ledger.StateMachine

/-! How ledger_transaction leaves its record, whatever the block does and wherever the seal is
interrupted. -/
namespace Stele
open Python Interleaving

variable {H : Hasher} {w w' : World} {id : PyStr}

section Silent

variable {α β : Type}

/-- Alone, the call leaves the database as it is. -/
def KeepsDb (p : Op α) : Prop := ∀ w, (p.exec w).2.db = w.db

namespace KeepsDb

lemma pure (a : α) : KeepsDb (pure a) := fun _ => rfl

lemma onArchive (f : Archive → Except Exc α × Archive) : KeepsDb (Op.onArchive f) := fun _ => rfl

lemma bind {p : Op α} {k : α → Op β} (hp : KeepsDb p) (hk : ∀ a, KeepsDb (k a)) : KeepsDb (p >>= k) := by
  intro w
  have h := hp w
  rw [Op.exec_bind]
  rcases hx : p.exec w with ⟨r,u⟩
  rw [hx] at h
  cases r with
  | ok a => exact (hk a u).trans h
  | error e => exact h

/-- if c: raise e, and then the rest. -/
lemma refuse {c : Prop} [Decidable c] {e : Exc} {k : Unit → Op β} (h : KeepsDb (k ())) :
    KeepsDb (if c then (MonadExcept.throw e >>= k) else k ()) := by
  split_ifs
  · exact fun _ => rfl
  · exact h

end KeepsDb

lemma recordInput_keeps (snapshot : Option Snapshot) (source : Option Source) :
    KeepsDb (recordInput H snapshot source) := by
  unfold recordInput
  cases source with
  | none =>
    cases snapshot with
    | none => exact .pure _
    | some s => exact .bind (.onArchive _) fun _ => .refuse (.bind (.onArchive _) fun _ => .refuse (.pure _))
  | some t =>
    cases snapshot with
    | none => exact .refuse (.bind (.onArchive _) fun _ => .pure _)
    | some s =>
      refine .bind (.onArchive _) fun _ => .refuse (.bind (.onArchive _) fun _ => .refuse (.refuse ?_))
      exact .bind (.onArchive _) fun _ => .pure _

end Silent

namespace Alone

variable {α : Type} {P : World → PyStr → Transition → Prop} {V : α → Prop} {p : Op α}

/-- What a call alone leads to, and what it returns. -/
lemma run (h : Acts (Rules.ledger H P) (LedgerStep H P) V p) (w : World) :
    (Rules.ledger H P).rely w (p.exec w).2 ∧ ∀ a, (p.exec w).1 = .ok a → V a := by
  obtain ⟨hr,_,hV⟩ := Meets.run (R := Rules.ledger H P) (fun _ _ hg => .single (Or.inl hg))
    (fun _ _ => trivial) (h [] w)
  exact ⟨hr,hV⟩

/-- What it has led to where it is interrupted. -/
lemma attempt (h : Acts (Rules.ledger H P) (LedgerStep H P) V p) (i : Option (ℕ × Raised)) (w : World) :
    (Rules.ledger H P).rely w (p.attempt i w).2 := by
  cases i with
  | none => exact (run h w).1
  | some i =>
    exact Meets.after (R := Rules.ledger H P) (fun _ _ hg => .single (Or.inl hg)) (fun _ _ => trivial)
      (h [] w) i.1

end Alone

/-- A call alone keeps the ledger consistent. -/
lemma LedgerCall.consistent_final (c : LedgerCall) (h : Consistent H w.db) : Consistent H ((c.prog H).final w).db :=
  Consistent.run h (Meets.run (R := Rules.ledger H AnyTransition) (fun _ _ hg => .single (Or.inl hg))
    (fun _ _ => trivial) (c.steps (fun _ ht => ⟨ht,fun _ _ => trivial⟩) [] w)).1

section Creating

variable {e : Env} {a : PendingArgs}

/-- The transaction of create_pending, which raises again whatever the database refuses. -/
lemma createTransaction_cases (row : Except Exc RecordRow) (runId : PyStr) :
    let p := Op.handle (Op.transaction (createTx H e.uuid e.at' row)) Exc.isIntegrityError fun exc => do
      match ← Op.query (getByRunId runId) with
      | none => throw exc
      | some existing => throw (.duplicateRun runId existing.recordId.get existing.state.value)
    (∃ db, createTx H e.uuid e.at' row w.db = .ok ((),db) ∧ p.exec w = (.ok (),{w with db := db})) ∨
      ∃ exc, p.exec w = (.error exc,w) := by
  intro p
  have hp : p.exec w = _ := Op.exec_handle _ _ _
  rw [hp,Op.exec_transaction]
  rcases writeTransaction_cases (createTx H e.uuid e.at' row) w.db with ⟨_,db,hb,hw⟩ | ⟨exc,_,hw⟩
  · exact Or.inl ⟨db,hb,by rw [hw]⟩
  · refine Or.inr ?_
    rw [hw]
    simp only
    split_ifs
    · rw [Op.exec_bind,Op.exec_query]
      cases getByRunId runId w.db with
      | error e' => exact ⟨e',rfl⟩
      | ok existing => cases existing <;> exact ⟨_,rfl⟩
    · exact ⟨exc,rfl⟩

variable {input : InputColumns} {config manifestJson hash : PyStr} {conditions : Option PyStr}
  {manifest : Manifest}

lemma Op.outcome_final {α : Type} (p : Op α) (w : World) : p.outcome.final w = (p.exec w).2 :=
  congrArg Prod.snd (Prog.run_bind p.run (fun r => .ret (r.map fun _ => ())) w)

/-- A Snapshot that the archive has is recorded as it is. -/
lemma recordInput_exec {s : Snapshot} (hh : w.archive.hasSnapshot s.digest s.kind = .ok true)
    (hg : w.archive.getSnapshot s.digest s.kind = .ok s) :
    (recordInput H (some s) none).exec w = (.ok ⟨some s.digest,some s.kind.value,none,none⟩,w) := by
  unfold recordInput
  simp only [Op.exec_bind,Op.exec_onArchive,hh]
  rw [if_neg (by decide)]
  simp only [Op.exec_bind,Op.exec_onArchive,hg]
  rw [if_neg (not_not_intro rfl)]
  rfl

/-- After its checks, create_pending leaves what its transaction leaves. -/
lemma createPending_exec (hp : Prepared H e a input config conditions manifest hash manifestJson)
    (ha : a.artifactPaths ≠ []) (hi : (recordInput H a.inputSnapshot a.source).exec w = (.ok input,w)) :
    ((LedgerStore.createPending H e a).exec w).2 = {w with db :=
      (writeTransaction (createTx H e.uuid e.at' (pendingRow e.uuid e.now a input (.text config)
        (.ofOption conditions) manifestJson hash)) w.db).2} := by
  unfold LedgerStore.createPending
  rw [if_neg ha]
  simp only [Op.exec_bind,Op.exec_lift,hp.config,hp.conditions,hp.built,hp.hashed,hp.text,hi]
  rw [Op.exec_handle,Op.exec_transaction]
  rcases writeTransaction_cases (createTx H e.uuid e.at' (pendingRow e.uuid e.now a input (.text config)
    (.ofOption conditions) manifestJson hash)) w.db with ⟨_,db,_,hw⟩ | ⟨exc,_,hw⟩
  · rw [hw]
    rfl
  · rw [hw]
    simp only
    split_ifs
    · rw [Op.exec_bind,Op.exec_query]
      cases getByRunId a.runId w.db with
      | error e' => rfl
      | ok existing => cases existing <;> rfl
    · rfl

/-- What was created can be read. -/
lemma Prepared.read {db : Db} (h : Prepared H e a input config conditions manifest hash manifestJson)
    (hc : Consistent H w.db) (ht : createTx H e.uuid e.at'
      (pendingRow e.uuid e.now a input (.text config) (.ofOption conditions) manifestJson hash) w.db =
        .ok ((),db)) : ∃ record, getRecord e.uuid db = .ok record := by
  have hc' := hc.create (fun r hr => by
    obtain ⟨_,_,_,hd,_⟩ := h.holds hr
    exact ⟨_,hd,rfl,rfl⟩) ht
  obtain ⟨r,body,ev,hr,_,rfl,_⟩ := createTx_ok ht
  obtain ⟨_,_,_,hd,_⟩ := h.holds hr
  obtain ⟨cell,hid,_⟩ := except_bind_ok.mp hr
  exact hc'.getRecord (bindText_ok hid ▸ hid) ⟨r,by simp,hd.recordId⟩

/-- create_pending alone: its record can be read, or nothing has been recorded. -/
lemma createPending_ends (hc : Consistent H w.db) :
    (LedgerStore.createPending H e a).Ends w fun r w' => match r with
      | .ok record => getRecord e.uuid w'.db = .ok record
      | .error _ => w'.db = w.db := by
  unfold LedgerStore.createPending
  refine .refuse (fun _ => rfl) fun _ => ?_
  refine .lift (fun config hconfig => ?_) fun _ => rfl
  refine .lift (fun conditions hconditions => ?_) fun _ => rfl
  have hkeep := recordInput_keeps (H := H) a.inputSnapshot a.source w
  refine .bind (fun input w1 hinput => ?_) fun _ w1 hinput => by rwa [hinput] at hkeep
  rw [hinput] at hkeep
  replace hkeep : w1.db = w.db := hkeep
  have hkind : input.sourceKind = a.inputSnapshot.map fun s => s.kind.value := by
    exact (Alone.run (H := H) (recordInput_acts (P := AnyTransition) a.inputSnapshot a.source) w).2 input
      (congrArg Prod.fst hinput)
  refine .lift (fun manifest hmanifest => ?_) fun _ => hkeep
  refine .lift (fun hash hhash => ?_) fun _ => hkeep
  refine .lift (fun text htext => ?_) fun _ => hkeep
  have hp : Prepared H e a input config conditions manifest hash text :=
    ⟨hconfig,hconditions,hkind,hmanifest,hhash,htext⟩
  refine .bind (fun _ w2 htx => ?_) fun _ w2 htx => ?_
  · rcases createTransaction_cases (w := w1) (H := H) (e := e) _ a.runId with ⟨db,hdb,hrun⟩ | ⟨exc,hrun⟩
    · obtain ⟨_,rfl⟩ := Prod.mk.inj (hrun.symm.trans htx)
      obtain ⟨record,hrecord⟩ := hp.read (hkeep ▸ hc) hdb
      rw [Op.Ends,Op.exec_query,hrecord]
    · cases (Prod.mk.inj (hrun.symm.trans htx)).1
  · rcases createTransaction_cases (w := w1) (H := H) (e := e) _ a.runId with ⟨db,hdb,hrun⟩ | ⟨exc,hrun⟩
    · cases (Prod.mk.inj (hrun.symm.trans htx)).1
    · obtain ⟨_,rfl⟩ := Prod.mk.inj (hrun.symm.trans htx)
      exact hkeep

end Creating

section State

variable {e : Env} {t : Transition} {db db' : Db} {s : ArtifactState} {r : RecordRow}

lemma getRecord_id {record : ArtifactRecord} (h : getRecord id db = .ok record) :
    record.recordId = .text id ∧ bindText id = .ok (.text id) := by
  obtain ⟨cell,hid,h⟩ := except_bind_ok.mp h
  refine ⟨?_,bindText_ok hid ▸ hid⟩
  cases hf : findRecord db id with
  | none =>
    rw [hf] at h
    cases h
  | some r =>
    rw [hf] at h
    obtain ⟨_,_,h⟩ := except_bind_ok.mp h
    obtain ⟨_,_,h⟩ := except_bind_ok.mp h
    obtain ⟨_,_,h⟩ := except_bind_ok.mp h
    obtain ⟨_,_,h⟩ := except_bind_ok.mp h
    obtain ⟨_,_,h⟩ := except_bind_ok.mp h
    obtain ⟨_,_,h⟩ := except_bind_ok.mp h
    obtain rfl := Except.ok.inj h
    simpa using List.find?_some hf

/-- _state_or_none of a kept ledger reads the state column of the record's row. -/
lemma stateOrNone_iff (hc : Consistent H db) (hid : bindText id = .ok (.text id)) :
    stateOrNone db id = some s ↔
      ∃ r ∈ db.records, r.recordId = .text id ∧ r.state = .text s.value := by
  unfold stateOrNone getRecord
  cases hf : findRecord db id with
  | none =>
    have hnone := List.find?_eq_none.mp hf
    refine iff_of_false (by simp [hid,bind,Except.bind]) ?_
    rintro ⟨r,hr,hrid,_⟩
    exact hnone r hr (by simpa using hrid)
  | some r =>
    have hr := List.mem_of_find?_eq_some hf
    have hrid : r.recordId = .text id := by simpa using List.find?_some hf
    obtain ⟨d,hd⟩ := hc.holds hr
    simp only [hid,hd.rowToRecord,bind,Except.bind,Option.some.injEq]
    constructor
    · rintro rfl
      exact ⟨r,hr,hrid,hd.state⟩
    · rintro ⟨q,hq,hqid,hqs⟩
      obtain rfl := hc.uniqueIds.eq hq hr hqid hrid
      exact ArtifactState.value_inj.mp (by simpa [hd.state] using hqs)

/-- What a committed transition leaves. -/
lemma transitionTx_state (hc : Consistent H db) (ht : IsTransition t)
    (h : transitionTx H e id t db = .ok (true,db')) : stateOrNone db' id = some t.toState := by
  obtain ⟨_,_,h1⟩ := except_bind_ok.mp h
  obtain ⟨_,_,h1⟩ := except_bind_ok.mp h1
  obtain ⟨_,h2,_⟩ := except_bind_ok.mp h1
  rw [stateOrNone_iff (hc.move ht h) (bindText_ok h2 ▸ h2)]
  obtain ⟨hb,_⟩ | ⟨_,finalizedAt,error,ev,_,rfl,_,r,hr,ha⟩ := transitionTx_ok hc.uniqueIds h
  · cases hb
  · have hrid := (RecordRow.admits_iff.mp ha).1
    exact ⟨_,List.mem_map_of_mem hr,by rw [RecordRow.movedIf_pos hrid]; exact hrid,
      by rw [RecordRow.movedIf_pos hrid]; rfl⟩

/-- A transition of a record that it may change commits. -/
lemma transitionTx_total (hc : Consistent H db) (hid : bindText id = .ok (.text id)) (he : e.Textual)
    (herr : ∀ x ∈ t.error, Encodable x) (hkind : Encodable t.kind) (hbody : Writable t.body)
    (hr : r ∈ db.records) (hadm : r.admits id t.fromStates = true) (ha : Appendable db.events)
    (hf : FreshHash H db.events t.kind id t.body e.at') :
    ∃ db', transitionTx H e id t db = .ok (true,db') := by
  obtain ⟨finalizedAt,hnow⟩ := bindText_total.mpr he.now
  obtain ⟨error,herror⟩ : ∃ error, bindError t.error = .ok error := by
    cases ht : t.error with
    | none => exact ⟨_,rfl⟩
    | some x =>
      obtain ⟨c,hx⟩ := bindText_total.mpr (herr x ht)
      exact ⟨some c,by rw [bindError,hx]; rfl⟩
  have hcount : db.records.countP (fun r => r.admits id t.fromStates) = 1 := by
    refine le_antisymm ?_ (List.countP_pos_iff.mpr ⟨r,hr,hadm⟩)
    refine (List.countP_mono_left fun q _ hq => ?_).trans (hc.uniqueIds id)
    simpa using (RecordRow.admits_iff.mp hq).1
  have hlog : Appendable ({db with
    records := db.records.map fun r => r.updated id t finalizedAt error} : Db).events := ha
  obtain ⟨ev,db',hev⟩ := appendEvent_total hlog hkind (bindText_total.mp ⟨_,hid⟩) hbody he.at' hf
  refine ⟨db',?_⟩
  unfold transitionTx
  simp only [hnow,herror,hid,hcount,hev,bind,Except.bind,if_true]
  rfl

lemma transition_exec (htx : transitionTx H e id t w.db = .ok (true,db')) :
    (LedgerStore.transition H e id t).exec w = (.ok (),{w with db := db'}) := by
  unfold LedgerStore.transition
  rw [Op.exec_bind,Op.exec_transaction,writeTransaction,htx]
  rfl

/-- fail leaves no record pending, and final ones as they are. -/
lemma fail_leaves {error : PyStr} (hc : Consistent H w.db) (hs : stateOrNone w.db id = some s)
    (he : e.Textual) (herr : Encodable error) (ha : Appendable w.db.events)
    (hf : FreshHash H w.db.events (lit "record.failed") id (failTransition error).body e.at') :
    stateOrNone ((LedgerStore.fail H e id error).exec w).2.db id =
      some (if s = .sealed ∨ s = .invalidated then s else .failed) := by
  obtain ⟨record,hrecord,rfl⟩ : ∃ record, getRecord id w.db = .ok record ∧ record.state = s := by
    unfold stateOrNone at hs
    cases hg : getRecord id w.db with
    | error _ => simp [hg] at hs
    | ok record => exact ⟨record,rfl,by simpa [hg] using hs⟩
  have hid := (getRecord_id hrecord).2
  unfold LedgerStore.fail
  rw [Op.exec_bind,Op.exec_query,hrecord]
  simp only
  split_ifs with h
  · exact hs
  obtain ⟨r,hr,hrid,hrs⟩ := (stateOrNone_iff hc hid).mp hs
  have hadm : r.admits id (failTransition error).fromStates = true := by
    refine RecordRow.admits_iff.mpr ⟨hrid,record.state,?_,hrs⟩
    cases hrec : record.state <;> simp_all [failTransition]
  obtain ⟨db',htx⟩ := transitionTx_total hc hid he
    (t := failTransition error) (by simpa [failTransition] using herr) (encodable_lit _)
    (writable_dict fun p hp => by
      obtain rfl := List.mem_singleton.mp hp
      exact ⟨⟨_,rfl,encodable_lit _⟩,writable_str herr⟩) hr hadm ha hf
  rw [Op.exec_bind,transition_exec htx]
  exact transitionTx_state hc (.failed error) htx

/-- What a transition that returned leaves. -/
lemma transition_leaves (hc : Consistent H w.db) (ht : IsTransition t)
    (h : (LedgerStore.transition H e id t).exec w = (.ok (),w')) :
    Consistent H w'.db ∧ stateOrNone w'.db id = some t.toState := by
  unfold LedgerStore.transition at h
  rw [Op.exec_bind,Op.exec_transaction] at h
  rcases writeTransaction_cases (transitionTx H e id t) w.db with ⟨b,db,hb,hw⟩ | ⟨exc,_,hw⟩
  · rw [hw] at h
    cases b with
    | true =>
      obtain ⟨_,rfl⟩ := Prod.mk.inj h
      exact ⟨hc.move ht hb,transitionTx_state hc ht hb⟩
    | false =>
      simp only [if_true,Op.exec_bind,Op.exec_query] at h
      cases hg : getRecord id db <;> rw [hg] at h <;> cases (Prod.mk.inj h).1
  · rw [hw] at h
    cases (Prod.mk.inj h).1

/-- seal that returns leaves its record sealed. -/
lemma seal_leaves (hc : Consistent H w.db) : (LedgerStore.seal H e id).Ends w fun r w' =>
    match r with
    | .ok _ => stateOrNone w'.db id = some .sealed
    | .error _ => True := by
  unfold LedgerStore.seal
  refine .query (fun record _ => ?_) fun _ _ => trivial
  refine .refuse (fun _ => trivial) fun _ => ?_
  refine .bind (fun _ u hu => ?_) fun _ _ _ => trivial
  obtain ⟨_,rfl⟩ := Prod.mk.inj hu
  refine .bind (fun _ v hv => ?_) fun _ _ _ => trivial
  have hstate := (transition_leaves (w := {w with archive := (archiveRecord H e.reads record w.archive).2})
    hc (.sealed _) hv).2
  rw [Op.Ends,Op.exec_query]
  cases getRecord id v.db with
  | ok record => exact hstate
  | error _ => trivial

end State

section Final

variable {r : RecordRow} {s : ArtifactState}

/-- What leaves sealed and invalidated records alone, such as what the context does itself. -/
def SealOrFail : World → PyStr → Transition → Prop :=
  fun _ _ t => .sealed ∉ t.fromStates ∧ .invalidated ∉ t.fromStates

lemma seal_sealOrFail (hash : TextCell) : Admits SealOrFail (sealTransition hash) :=
  ⟨.sealed hash,fun _ _ => by simp [SealOrFail,sealTransition]⟩

/-- The row of a final record stays as it is. -/
lemma LedgerStep.final (hc : Consistent H w.db) (h : LedgerStep H SealOrFail w w')
    (hr : r ∈ w.db.records) (hrs : r.state = .text s.value) (hs : s = .sealed ∨ s = .invalidated) :
    r ∈ w'.db.records := by
  cases h with
  | stay => exact hr
  | create hrow ht =>
    obtain ⟨q,_,_,_,_,rfl,_⟩ := createTx_ok ht
    exact List.mem_append_left _ hr
  | @move e id t b db ht hp htx =>
    obtain ⟨_,rfl,_⟩ | ⟨_,finalizedAt,error,ev,_,rfl,_,q,hq,ha⟩ := transitionTx_ok hc.uniqueIds htx
    · exact hr
    obtain ⟨hqid,s',hs',hqs⟩ := RecordRow.admits_iff.mp ha
    refine List.mem_map.mpr ⟨r,hr,RecordRow.movedIf_neg fun hrid => ?_⟩
    obtain rfl := hc.uniqueIds.eq hr hq hrid hqid
    obtain rfl : s = s' := ArtifactState.value_inj.mp (by simpa [hrs] using hqs)
    rcases hs with rfl | rfl
    · exact hp.1 hs'
    · exact hp.2 hs'
  | opened ht =>
    obtain rfl | ⟨_,_,rfl,_⟩ := openTx_ok ht
    · exact hr
    · exact hr
  | event ht =>
    obtain ⟨_,_,_,rfl,_⟩ := insertTx_ok ht
    exact hr
  | replay ht =>
    obtain ⟨_,_,_,rfl,_⟩ := replayTx_ok ht
    exact hr
  | signOff ht =>
    obtain ⟨_,rfl,_⟩ := signOffTx_ok ht
    exact hr
  | archive => exact hr

lemma Rules.final_rows (hc : Consistent H w.db) (h : (Rules.ledger H SealOrFail).rely w w')
    (hr : r ∈ w.db.records) (hrs : r.state = .text s.value) (hs : s = .sealed ∨ s = .invalidated) :
    r ∈ w'.db.records := by
  induction h with
  | refl => exact hr
  | tail hab hstep ih =>
    rcases hstep with hstep | hstep
    · exact hstep.final (hc.run hab) ih hrs hs
    · exact hstep ▸ ih

/-- A final record keeps its state. -/
lemma Rules.final (hc : Consistent H w.db) (hid : bindText id = .ok (.text id))
    (h : (Rules.ledger H SealOrFail).rely w w') (hs : s = .sealed ∨ s = .invalidated)
    (hw : stateOrNone w.db id = some s) : stateOrNone w'.db id = some s := by
  obtain ⟨r,hr,hrid,hrs⟩ := (stateOrNone_iff hc hid).mp hw
  exact (stateOrNone_iff (hc.run h) hid).mpr ⟨r,Rules.final_rows hc h hr hrs hs,hrid,hrs⟩

end Final

section Exit

variable {c : TransactionArgs} {record : ArtifactRecord} {x : Raised}

/-- A whole chain can be continued while there are numbers left. -/
lemma Chained.appendable {events : List EventRow} (h : Chained H events)
    (hroom : events.length+1 < 2^63) : Appendable events := by
  refine ⟨?_,?_⟩
  · rw [h.nextLink_eq,IsInt64]
    constructor <;> dsimp only <;> omega
  · rw [h.nextLink_eq]
    rcases List.eq_nil_or_concat events with rfl | ⟨rows,r,rfl⟩
    · exact ⟨genesis,rfl,by decide +kernel⟩
    · rw [List.concat_eq_append] at h ⊢
      obtain ⟨_,_,d,hd,hhash⟩ := (chainedFrom_concat.mp h).2
      obtain ⟨b,_,rfl⟩ := rowHash_ok hd
      exact ⟨_,by simpa using hhash,digest_encodable (H.digest_form b)⟩

/-- With the ledger available: the block uses it through its calls only, and where a failure is to
be logged, the log has a number left and no event with the hash of the new one. -/
structure Available (H : Hasher) (c : TransactionArgs) (w : World) : Prop where
  block : ∀ record u, (ledgerRules H).rely u (c.block record u).2
  textual : c.failing.Textual
  repr : ∀ x, Encodable (c.repr x)
  room : ∀ record x u, transactionEnding H c w = (.failing record x,u) → u.db.events.length+1 < 2^63
  fresh : ∀ record x u, transactionEnding H c w = (.failing record x,u) →
    FreshHash H u.db.events (lit "record.failed") record.recordId.get
      (failTransition (c.repr x)).body c.failing.at'

/-- A kept ledger with a record of this id. -/
structure HasRecord (H : Hasher) (id : PyStr) (w : World) : Prop where
  consistent : Consistent H w.db
  history : HistoryHolds w.db
  bound : bindText id = .ok (.text id)
  row : ∃ r ∈ w.db.records, r.recordId = .text id

namespace HasRecord

variable {P : World → PyStr → Transition → Prop} {s : ArtifactState}

lemma run (h : HasRecord H id w) (hr : (Rules.ledger H P).rely w w') : HasRecord H id w' := by
  obtain ⟨hh,he⟩ := Rules.ledger_history h.consistent h.history hr
  exact ⟨h.consistent.run hr,hh,h.bound,he.has h.row⟩

lemma state (h : HasRecord H id w) : ∃ s, stateOrNone w.db id = some s := by
  obtain ⟨x,hx⟩ := h.consistent.getRecord h.bound h.row
  exact ⟨x.state,by rw [stateOrNone,hx]⟩

lemma final (h : HasRecord H id w) (hr : (Rules.ledger H SealOrFail).rely w w')
    (hs : s = .sealed ∨ s = .invalidated) (hw : stateOrNone w.db id = some s) :
    stateOrNone w'.db id = some s := Rules.final h.consistent h.bound hr hs hw

/-- The end of a block that returned: sealed, or a failure to record; final states stay. -/
lemma sealOnExit (h : HasRecord H id w) (hid : record.recordId = .text id) :
    HasRecord H id (sealOnExit H c record w).2 ∧
      (∀ s, s = .sealed ∨ s = .invalidated → stateOrNone w.db id = some s →
        stateOrNone (Stele.sealOnExit H c record w).2.db id = some s) ∧
      match (Stele.sealOnExit H c record w).1 with
      | .clean => stateOrNone (Stele.sealOnExit H c record w).2.db id = some .sealed
      | .refused _ => False
      | .failing r _ => r = record := by
  have hget : record.recordId.get = id := by rw [hid]; rfl
  have hrely := Alone.attempt (seal_acts (H := H) (P := SealOrFail) seal_sealOrFail c.sealing id)
    c.interruption w
  have hseal : (LedgerStore.seal H c.sealing id).Ends w _ := seal_leaves h.consistent
  have hreturned : ∀ a u, (LedgerStore.seal H c.sealing id).attempt c.interruption w = (.ok a,u) →
      stateOrNone u.db id = some .sealed := by
    intro a u ha
    cases hi : c.interruption with
    | some i => rw [hi] at ha; cases (Prod.mk.inj ha).1
    | none =>
      rw [hi] at ha
      obtain ⟨hok,rfl⟩ := Prod.mk.inj ha
      unfold Op.Ends at hseal
      cases hx : ((LedgerStore.seal H c.sealing id).exec w).1 with
      | ok record => rwa [hx] at hseal
      | error _ => rw [hx] at hok; cases hok
  unfold Stele.sealOnExit
  rw [hget]
  rcases hr : (LedgerStore.seal H c.sealing id).attempt c.interruption w with ⟨x | a,u⟩
  all_goals
    rw [hr] at hrely
    have hkeep := fun s hs => h.final (s := s) hrely hs
  · simp only
    split_ifs with hx
    · exact ⟨h.run hrely,hkeep,hx.2⟩
    · exact ⟨h.run hrely,hkeep,rfl⟩
  · exact ⟨h.run hrely,hkeep,hreturned a u hr⟩

end HasRecord

/-- On entry either nothing is recorded, or there is a record. -/
lemma enterTransaction_cases (hc : Consistent H w.db) (hh : HistoryHolds w.db) :
    match enterTransaction H c w with
    | (.error _,u) => u.db = w.db
    | (.ok record,u) => ∃ id, record.recordId = .text id ∧ HasRecord H id u := by
  unfold enterTransaction
  cases c.admit with
  | error e => rfl
  | ok args =>
    have hends := createPending_ends (e := c.creating) (a := args) hc
    have hrely := (Alone.run (createPending_acts (H := H) (P := AnyTransition) c.creating args) w).1
    unfold Op.Ends at hends
    simp only
    rcases hx : (LedgerStore.createPending H c.creating args).exec w with ⟨e | record,u⟩
    all_goals rw [hx] at hends hrely
    · exact hends
    · obtain ⟨hrid,hbound⟩ := getRecord_id hends
      have hcu := hc.run hrely
      have hstate : stateOrNone u.db c.creating.uuid = some record.state := by rw [stateOrNone,hends]
      obtain ⟨r,hr,hrid',_⟩ := (stateOrNone_iff hcu hbound).mp hstate
      exact ⟨_,hrid,hcu,(Rules.ledger_history hc hh hrely).1,hbound,r,hr,hrid'⟩

/-- What leaves the context, and the state of its record then, for a record that was created. -/
structure TransactionOutcome (H : Hasher) (c : TransactionArgs) (w u : World) (record : ArtifactRecord)
    (id : PyStr) : Prop where
  /-- Nothing leaves it only if the record is sealed. -/
  sealed : (ledgerTransaction H c w).1 = none →
    stateOrNone (ledgerTransaction H c w).2.db id = some .sealed
  finished : ∀ x, (ledgerTransaction H c w).1 = some x →
    ∃ s, stateOrNone (ledgerTransaction H c w).2.db id = some s ∧ s ≠ .pending
  /-- What the block raised leaves it. -/
  raised : c.result.sameBundle record = true → ∀ x, (c.block record u).1 = some x →
    (ledgerTransaction H c w).1 = some x
  /-- What the block has made final stays so. -/
  blockFinal : c.result.sameBundle record = true → ∀ s, s = .sealed ∨ s = .invalidated →
    stateOrNone (c.block record u).2.db id = some s →
    stateOrNone (ledgerTransaction H c w).2.db id = some s
  /-- What is final once the seal has returned or raised stays so. -/
  final : ∀ s, s = .sealed ∨ s = .invalidated →
    stateOrNone (transactionEnding H c w).2.db id = some s →
    stateOrNone (ledgerTransaction H c w).2.db id = some s

variable {u : World}

/-- How a context that has a record ends. -/
lemma transactionEnding_cases (ha : Available H c w) (he : enterTransaction H c w = (.ok record,u))
    (hid : record.recordId = .text id) (h : HasRecord H id u) :
    HasRecord H id (transactionEnding H c w).2 ∧
      (c.result.sameBundle record = true → ∀ s, s = .sealed ∨ s = .invalidated →
        stateOrNone (c.block record u).2.db id = some s →
        stateOrNone (transactionEnding H c w).2.db id = some s) ∧
      match (transactionEnding H c w).1 with
      | .clean => stateOrNone (transactionEnding H c w).2.db id = some .sealed ∧
          (c.result.sameBundle record = true → (c.block record u).1 = none)
      | .refused _ => False
      | .failing r x => r = record ∧
          (c.result.sameBundle record = true → ∀ y, (c.block record u).1 = some y → x = y) := by
  have hblock := h.run (ha.block record u)
  unfold transactionEnding
  rw [he]
  simp only
  cases hb : c.result.sameBundle record with
  | false =>
    rw [if_neg (by simp)]
    exact ⟨h,nofun,rfl,nofun⟩
  | true =>
    rw [if_pos rfl]
    unfold runBlock
    rcases hv : c.block record u with ⟨_ | x,v⟩
    all_goals rw [hv] at hblock
    · obtain ⟨h1,h2,h3⟩ := hblock.sealOnExit (c := c) hid
      refine ⟨h1,fun _ => h2,?_⟩
      revert h3
      cases (sealOnExit H c record v).1 with
      | clean => exact fun h3 => ⟨h3,fun _ => rfl⟩
      | refused _ => exact False.elim
      | failing r x => exact fun h3 => ⟨h3,fun _ => nofun⟩
    · exact ⟨hblock,fun _ _ _ hs => hs,rfl,fun _ y hy => Option.some.inj hy⟩

/-- A failure that was recorded: it leaves the context, and the record is not pending. -/
lemma failing_leaves (ha : Available H c w) (h : HasRecord H id u) (hid : record.recordId = .text id)
    (he : transactionEnding H c w = (.failing record x,u)) :
    (ledgerTransaction H c w).1 = some x ∧
      ∀ s, stateOrNone u.db id = some s → stateOrNone (ledgerTransaction H c w).2.db id =
        some (if s = .sealed ∨ s = .invalidated then s else .failed) := by
  have hget : record.recordId.get = id := by rw [hid]; rfl
  have happ := h.consistent.chained.appendable (ha.room record x u he)
  have hfresh := ha.fresh record x u he
  unfold ledgerTransaction
  rw [he]
  refine ⟨rfl,fun s hs => ?_⟩
  simp only [failQuietly]
  rw [hget] at hfresh ⊢
  exact fail_leaves h.consistent hs ha.textual (ha.repr x) happ hfresh

/-- Before there is a record, an exception that leaves the context has recorded nothing. Once there
is one: nothing leaves the context only if the record is SEALED, with an exception it is never
PENDING, what the block raises is what leaves, and a record that the block or the seal has made
SEALED or INVALIDATED stays so. -/
theorem ledgerTransaction_outcome (H : Hasher) (c : TransactionArgs) (w : World)
    (hc : Consistent H w.db) (hh : HistoryHolds w.db) (ha : Available H c w) :
    (∀ e u, enterTransaction H c w = (.error e,u) →
      ledgerTransaction H c w = (some (.exc e),u) ∧ u.db = w.db) ∧
    ∀ record u, enterTransaction H c w = (.ok record,u) →
      ∃ id, record.recordId = .text id ∧ TransactionOutcome H c w u record id := by
  have henter := enterTransaction_cases (c := c) hc hh
  refine ⟨fun e u he => ?_,fun record u he => ?_⟩
  all_goals rw [he] at henter
  · refine ⟨?_,henter⟩
    rw [ledgerTransaction,transactionEnding,he]
  obtain ⟨id,hid,hrec⟩ := henter
  refine ⟨id,hid,?_⟩
  obtain ⟨hend,hkept,hcases⟩ := transactionEnding_cases ha he hid hrec
  rcases ht : transactionEnding H c w with ⟨_ | _ | ⟨r,x⟩,v⟩
  all_goals rw [ht] at hend hkept hcases
  · -- nothing leaves
    have hout : ledgerTransaction H c w = (none,v) := by rw [ledgerTransaction,ht]
    obtain ⟨hsealed,hreturned⟩ := hcases
    exact {
      sealed _ := by rw [hout]; exact hsealed
      finished x hx := by rw [hout] at hx; cases hx
      raised hb x hx := by rw [hreturned hb] at hx; cases hx
      blockFinal hb s hs hst := by rw [hout]; exact hkept hb s hs hst
      final s hs hst := by rw [ht] at hst; rw [hout]; exact hst }
  · exact hcases.elim
  · obtain ⟨rfl,hraised⟩ := hcases
    obtain ⟨hleft,hstate⟩ := failing_leaves ha hend hid ht
    obtain ⟨s,hs⟩ := hend.state
    have hfinal : ∀ s, s = .sealed ∨ s = .invalidated → stateOrNone v.db id = some s →
        stateOrNone (ledgerTransaction H c w).2.db id = some s := by
      intro s hs hst
      rw [hstate s hst,if_pos hs]
    exact {
      sealed hn := by rw [hleft] at hn; cases hn
      finished _ _ := by
        refine ⟨_,hstate s hs,?_⟩
        split_ifs with h
        · rcases h with rfl | rfl <;> simp
        · simp
      raised hb y hy := by rw [hleft,hraised hb y hy]
      blockFinal hb s hs hst := hfinal s hs (hkept hb s hs hst)
      final s hs hst := by rw [ht] at hst; exact hfinal s hs hst }

/-- A block that seals its record and is then stopped by a KeyboardInterrupt. -/
def sampleTransaction : TransactionArgs where
  result := ⟨lit "run",0,false,false,⟨1,[lit "out"]⟩,[⟨1,[lit "out",lit "a.txt"]⟩],none,none,none,none,
    none,none,[]⟩
  parser := sampleParser
  parserConfig := .dict []
  source := none
  runConditions := none
  creating := sampleEnv
  sealing := sampleEnv
  failing := sampleEnv
  block record w := (some (.other 7 false),
    ((LedgerStore.seal .checksum sampleEnv record.recordId.get).exec w).2)
  interruption := none
  repr _ := lit "KeyboardInterrupt()"

/-- The block was entered and has sealed its record. -/
def sealedInBlock : Except Exc ArtifactRecord × World → Bool
  | (.ok r,v) => decide (r.recordId = .text (lit "r1") ∧
      stateOrNone (sampleTransaction.block r v).2.db (lit "r1") = some .sealed)
  | _ => false

/-- The record can still be failed. -/
def canFail : Ending × World → Bool
  | (.failing r _,v) => decide (FreshHash .checksum v.db.events (lit "record.failed") r.recordId.get
      (failTransition (lit "KeyboardInterrupt()")).body (lit "t1"))
  | _ => false

lemma sampleTransaction_facts :
    (transactionEnding .checksum sampleTransaction (World.new .empty)).2.db.events.length+1 < 2^63 ∧
    canFail (transactionEnding .checksum sampleTransaction (World.new .empty)) = true ∧
    sealedInBlock (enterTransaction .checksum sampleTransaction (World.new .empty)) = true := by
  decide +kernel

lemma sampleTransaction_available : Available .checksum sampleTransaction (World.new .empty) where
  block record u := (Alone.run (seal_acts (fun hash => ⟨.sealed hash,fun _ _ => trivial⟩) _ _) u).1
  textual := ⟨encodable_lit _,encodable_lit _,encodable_lit _⟩
  repr _ := encodable_lit _
  room record x u h := by
    have hroom := sampleTransaction_facts.1
    rwa [h] at hroom
  fresh record x u h := by
    have hfresh := sampleTransaction_facts.2.1
    rw [h] at hfresh
    exact of_decide_eq_true hfresh

theorem ledgerTransaction_outcome_interrupted :
    (ledgerTransaction .checksum sampleTransaction (World.new .empty)).1 = some (.other 7 false) ∧
    stateOrNone (ledgerTransaction .checksum sampleTransaction (World.new .empty)).2.db (lit "r1") =
      some .sealed := by
  have hout := ledgerTransaction_outcome .checksum sampleTransaction (World.new .empty) consistent_new
    historyHolds_new sampleTransaction_available
  have hrun := sampleTransaction_facts.2.2
  rcases he : enterTransaction .checksum sampleTransaction (World.new .empty) with ⟨e | record,u⟩
  all_goals rw [he] at hrun
  · cases hrun
  obtain ⟨hid,hsealed⟩ := of_decide_eq_true hrun
  obtain ⟨id,hrid,h⟩ := hout.2 record u he
  obtain rfl : id = lit "r1" := TextCell.text.inj (hrid.symm.trans hid)
  have hbundle : sampleTransaction.result.sameBundle record = true := rfl
  have hraised : (sampleTransaction.block record u).1 = some (.other 7 false) := rfl
  exact ⟨h.raised hbundle _ hraised,h.blockFinal hbundle .sealed (Or.inl rfl) hsealed⟩

end Exit

end Stele
