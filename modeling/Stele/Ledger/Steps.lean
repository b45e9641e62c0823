import Stele.Ledger.Rows

/-! What one action of a ledger call does to the shared state, and that every call is made
of such actions, whatever happens between them. -/
namespace Stele
open Python Interleaving

variable {H : Hasher}

inductive IsTransition : Transition → Prop
  | sealed (hash : TextCell) : IsTransition (sealTransition hash)
  | failed (error : PyStr) : IsTransition (failTransition error)
  | invalidated (reason_note : PyStr) : IsTransition (invalidateTransition reason_note)

/-- Nothing published is altered or removed. -/
structure Archive.Grows (a b : Archive) : Prop where
  blobs : ∀ d x, a.blobs d = some x → b.blobs d = some x
  snapshots : ∀ k d x, a.snapshots k d = some x → b.snapshots k d = some x
  sources : ∀ d x, a.sources d = some x → b.sources d = some x

namespace Archive.Grows

lemma refl (a : Archive) : a.Grows a := ⟨fun _ _ h => h,fun _ _ _ h => h,fun _ _ h => h⟩

lemma trans {a b c : Archive} (h : a.Grows b) (h' : b.Grows c) : a.Grows c :=
  ⟨fun d x hx => h'.blobs d x (h.blobs d x hx),fun k d x hx => h'.snapshots k d x (h.snapshots k d x hx),
    fun d x hx => h'.sources d x (h.sources d x hx)⟩

end Archive.Grows

/-- One action of a call. `P` restricts the transitions of records. -/
inductive LedgerStep (H : Hasher) (P : World → PyStr → Transition → Prop) : World → World → Prop
  | stay (w : World) : LedgerStep H P w w
  | create {w : World} {recordId at' : PyStr} {row : Except Exc RecordRow} {db : Db}
    (hrow : ∀ r, row = .ok r → ∃ d, r.Holds H d ∧ d.recordId = recordId ∧ d.state = .pending)
    (h : createTx H recordId at' row w.db = .ok ((),db)) : LedgerStep H P w {w with db := db}
  | move {w : World} {e : Env} {recordId : PyStr} {t : Transition} {b : Bool} {db : Db}
    (ht : IsTransition t) (hp : P w recordId t)
    (h : transitionTx H e recordId t w.db = .ok (b,db)) : LedgerStep H P w {w with db := db}
  | opened {w : World} {e : Env} {recordId kind encoded : PyStr} {db : Db}
    (h : openTx H e recordId kind encoded w.db = .ok ((),db)) : LedgerStep H P w {w with db := db}
  | event {w : World} {e : Env} {dispatchId : PyStr} {a : EventArgs} {db : Db}
    (h : insertTx H e dispatchId a w.db = .ok ((),db)) : LedgerStep H P w {w with db := db}
  | replay {w : World} {e : Env} {r : ReplayResult} {db : Db}
    (h : replayTx H e r w.db = .ok ((),db)) : LedgerStep H P w {w with db := db}
  | signOff {w : World} {e : Env} {s : SignOffArgs} {db : Db}
    (h : signOffTx H e s w.db = .ok ((),db)) : LedgerStep H P w {w with db := db}
  | archive {w : World} {a : Archive} (h : w.archive.Grows a) :
    LedgerStep H P w {w with archive := a}

/-- One call of the ledger's writers, with its arguments and what it takes from outside. -/
inductive LedgerCall
  | createPending (e : Env) (a : PendingArgs)
  | sealRecord (e : Env) (recordId : PyStr)
  | fail (e : Env) (recordId error : PyStr)
  | invalidate (e : Env) (recordId reason_note : PyStr)
  | openDelivery (e : Env) (recordId : PyStr) (target : Option Target)
  | append (e : Env) (dispatchId : PyStr) (a : EventArgs)
  | appendIntent (e : Env) (dispatchId : PyStr) (chunks : List SteleChunk)
  | appendUnwrittenFailure (e : Env) (dispatchId error : PyStr)
  | replay (e : Env) (r : ReplayResult)
  | signOff (e : Env) (s : SignOffArgs)

/-- What callers of any of them see: that it returned, or what it raised. -/
def Op.outcome {α : Type} (p : Op α) : Prog World (Except Exc Unit) :=
  (fun r => r.map fun _ => ()) <$> p.run

def LedgerCall.prog (H : Hasher) : LedgerCall → Prog World (Except Exc Unit)
  | .createPending e a => (LedgerStore.createPending H e a).outcome
  | .sealRecord e id => (LedgerStore.seal H e id).outcome
  | .fail e id error => (LedgerStore.fail H e id error).outcome
  | .invalidate e id note => (LedgerStore.invalidate H e id note).outcome
  | .openDelivery e id target => (DeliveryLog.openDelivery H e id target).outcome
  | .append e id a => (DeliveryLog.append H e id a).outcome
  | .appendIntent e id chunks => (DeliveryLog.appendIntent H e id chunks).outcome
  | .appendUnwrittenFailure e id error => (DeliveryLog.appendUnwrittenFailure H e id error).outcome
  | .replay e r => (ReplayLog.append H e r).outcome
  | .signOff e s => (SignOff.append H e s).outcome

section Archive

lemma Archive.putBytes_grows (data : Bytes) (a : Archive) : a.Grows (a.putBytes H data).2 := by
  unfold putBytes
  cases hb : a.blobs (H.hexdigest data) with
  | none =>
    refine ⟨fun d x hx => ?_,fun _ _ _ h => h,fun _ _ h => h⟩
    simp only
    split_ifs with hd
    · rw [hd,hb] at hx
      cases hx
    · exact hx
  | some stored =>
    simp only
    split_ifs <;> exact .refl a

lemma Archive.putTree_grows (m : Manifest) (a : Archive) : a.Grows (a.putTree H m).2 := by
  unfold putTree
  split
  · exact .refl a
  · exact putBytes_grows _ a

lemma Archive.putSource_grows (s : Source) (a : Archive) : a.Grows (a.putSource H s).2 := by
  unfold putSource
  split
  · exact .refl a
  rename_i data _
  cases hs : a.sources (H.hexdigest data) with
  | some stored =>
    simp only
    split_ifs <;> exact .refl a
  | none =>
    refine ⟨fun _ _ h => h,fun _ _ _ h => h,fun d x hx => ?_⟩
    simp only
    split_ifs with hd
    · rw [hd,hs] at hx
      cases hx
    · exact hx

lemma ingestArtifacts_grows (dir : PurePath) (reads : Reads) (paths : List PurePath) :
    ∀ (i : ℕ) (m : Manifest) (a : Archive), a.Grows (ingestArtifacts H dir reads paths i m a).2 := by
  induction paths with
  | nil => exact fun _ _ a => .refl a
  | cons path paths ih =>
    intro i m a
    rw [ingestArtifacts]
    split
    · exact .refl a
    rename_i rel data _
    have hp := Archive.putBytes_grows (H := H) data a
    generalize a.putBytes H data = q at hp
    obtain ⟨r,b⟩ := q
    cases r with
    | error e => exact hp
    | ok digest => exact hp.trans (ih _ _ _)

lemma archiveBundle_grows (dir : PurePath) (manifest : PyVal) (hash : PyStr) (reads : Reads)
    (a : Archive) : a.Grows (archiveBundle H dir manifest hash reads a).2 := by
  unfold archiveBundle
  split
  · exact .refl a
  rename_i paths _
  have hi := ingestArtifacts_grows (H := H) dir reads
    (paths.map fun p => dir.join (.ofStr p)) 0 [] a
  generalize ingestArtifacts H dir reads (paths.map fun p => dir.join (.ofStr p)) 0 [] a = q at hi
  obtain ⟨r,b⟩ := q
  split
  · rename_i heq
    obtain ⟨_,rfl⟩ := Prod.mk.inj heq
    split <;> exact hi
  · rename_i heq
    obtain ⟨_,rfl⟩ := Prod.mk.inj heq
    exact hi
  · rename_i stored _ heq
    obtain ⟨_,rfl⟩ := Prod.mk.inj heq
    split_ifs
    · exact hi
    · have ht := Archive.putTree_grows (H := H) stored b
      generalize b.putTree H stored = q at ht
      obtain ⟨r,c⟩ := q
      cases r with
      | error e => exact hi.trans ht
      | ok digest =>
        simp only
        split_ifs <;> exact hi.trans ht

lemma archiveRecord_grows (reads : Reads) (r : ArtifactRecord) (a : Archive) :
    a.Grows (archiveRecord H reads r a).2 := by
  unfold archiveRecord
  split
  · exact archiveBundle_grows _ _ _ _ a
  · exact .refl a

end Archive

section Acts

variable {α β : Type} {R : Rules World} {G : World → World → Prop}

/-- Every action of p is in G, and what it returns satisfies V. -/
def Acts (R : Rules World) (G : World → World → Prop) (V : α → Prop) (p : Op α) : Prop :=
  ∀ own w, Meets R G (fun r _ _ => ∀ a, r = .ok a → V a) p.run own w

variable {V V' : α → Prop} {U : β → Prop}

namespace Acts

lemma bind {p : Op α} {k : α → Op β} (h : Acts R G V p) (hk : ∀ a, V a → Acts R G U (k a)) :
    Acts R G U (p >>= k) := by
  intro own w
  refine Meets.bindExcept ((h own w).mono ?_)
  intro r own t hr
  cases r with
  | ok a => exact hk a (hr a rfl) own t
  | error e => exact fun a h => by cases h

lemma pure {a : α} (h : V a) : Acts R G V (pure a) := fun _ _ _ _ _ hb => Except.ok.inj hb ▸ h

lemma throw (e : Exc) : Acts R G V (throw e) := fun _ _ _ _ _ hb => by cases hb

lemma lift {r : Except Exc α} (h : ∀ a, r = .ok a → V a) : Acts R G V (Op.lift r) :=
  fun _ _ _ _ => h

lemma query {f : Db → Except Exc α} (h : ∀ w, G w w) : Acts R G (fun _ => True) (Op.query f) :=
  fun _ _ => Meets.atomic fun t _ _ => ⟨h t,fun _ _ _ _ => trivial⟩

lemma onArchive {f : Archive → Except Exc α × Archive}
    (h : ∀ w, G w {w with archive := (f w.archive).2}) :
    Acts R G (fun _ => True) (Op.onArchive f) :=
  fun _ _ => Meets.atomic fun t _ _ => ⟨h t,fun _ _ _ _ => trivial⟩

/-- A transaction that does what G allows when it commits. -/
lemma transaction {body : Tx α} (hstay : ∀ w, G w w)
    (h : ∀ w a db, body w.db = .ok (a,db) → G w {w with db := db}) :
    Acts R G (fun _ => True) (Op.transaction body) := by
  refine fun _ _ => Meets.atomic fun t _ _ => ⟨?_,fun _ _ _ _ => trivial⟩
  rcases writeTransaction_cases body t.db with ⟨a,db,hb,hw⟩ | ⟨e,_,hw⟩
  · rw [hw]
    exact h t a db hb
  · rw [hw]
    exact hstay t

lemma handle {p : Op α} {catches : Exc → Bool} {handler : Exc → Op α} (h : Acts R G V p)
    (hh : ∀ e, Acts R G V (handler e)) : Acts R G V (Op.handle p catches handler) := by
  intro own w
  refine Meets.bind ((h own w).mono ?_)
  intro r own t hr
  cases r with
  | ok a => exact fun _ _ => hr
  | error e =>
    simp only
    split_ifs
    · exact hh e own t
    · exact fun _ _ a ha => by cases ha

lemma ite {c : Prop} [Decidable c] {p q : Op α} (hp : c → Acts R G V p) (hq : ¬c → Acts R G V q) :
    Acts R G V (if c then p else q) := by
  split_ifs with h
  · exact hp h
  · exact hq h

/-- if c: raise e, and then the rest. -/
lemma refuse {c : Prop} [Decidable c] {e : Exc} {k : Unit → Op β} (h : ¬c → Acts R G U (k ())) :
    Acts R G U (if c then (MonadExcept.throw e >>= k) else k ()) :=
  ite (fun _ => bind (V := fun _ => False) (throw e) fun _ hf => hf.elim) h

/-- The outcome of a call is one too. -/
lemma outcome {p : Op α} (h : Acts R G V p) (own : List (World × World)) (w : World) :
    Meets R G (fun _ _ _ => True) p.outcome own w :=
  Meets.map ((h own w).mono fun _ _ _ _ => trivial)

end Acts

end Acts

section Calls

variable {R : Rules World} {P : World → PyStr → Transition → Prop}

/-- The transitions that `P` always lets through. -/
def Admits (P : World → PyStr → Transition → Prop) (t : Transition) : Prop :=
  IsTransition t ∧ ∀ w id, P w id t

lemma transition_acts {e : Env} {recordId : PyStr} {t : Transition} (ht : Admits P t) :
    Acts R (LedgerStep H P) (fun _ => True) (LedgerStore.transition H e recordId t) := by
  refine .bind (.transaction .stay fun w b db h => .move ht.1 (ht.2 w recordId) h) fun b _ => ?_
  refine .ite (fun _ => ?_) fun _ => .pure trivial
  exact .bind (.query .stay) fun _ _ => .throw _

lemma fail_acts (hP : ∀ error, Admits P (failTransition error)) (e : Env) (id error : PyStr) :
    Acts R (LedgerStep H P) (fun _ => True) (LedgerStore.fail H e id error) := by
  refine .bind (.query .stay) fun record _ => ?_
  exact .refuse fun _ => .bind (transition_acts (hP error)) fun _ _ => .query .stay

lemma invalidate_acts (hP : ∀ note, Admits P (invalidateTransition note)) (e : Env)
    (id note : PyStr) :
    Acts R (LedgerStep H P) (fun _ => True) (LedgerStore.invalidate H e id note) := by
  refine .bind (.query .stay) fun record _ => ?_
  exact .refuse fun _ => .bind (transition_acts (hP note)) fun _ _ => .query .stay

lemma seal_acts (hP : ∀ hash, Admits P (sealTransition hash)) (e : Env) (id : PyStr) :
    Acts R (LedgerStep H P) (fun _ => True) (LedgerStore.seal H e id) := by
  refine .bind (.query .stay) fun record _ => ?_
  refine .refuse fun _ => .bind (.onArchive fun w => .archive (archiveRecord_grows _ _ _)) fun _ _ => ?_
  exact .bind (transition_acts (hP _)) fun _ _ => .query .stay

/-- The input columns name the kind of the Snapshot that was given. -/
lemma recordInput_acts (snapshot : Option Snapshot) (source : Option Source) :
    Acts R (LedgerStep H P) (fun input => input.sourceKind = snapshot.map fun s => s.kind.value)
      (recordInput H snapshot source) := by
  unfold recordInput
  cases source with
  | none =>
    cases snapshot with
    | none => exact .pure rfl
    | some s =>
      refine .bind (.onArchive fun w => .stay w) fun stored _ => .refuse fun _ => ?_
      exact .bind (.onArchive fun w => .stay w) fun archived _ => .refuse fun _ => .pure rfl
  | some t =>
    cases snapshot with
    | none =>
      exact .refuse fun _ => .bind (.onArchive fun w => .archive (Archive.putSource_grows t _)) fun _ _ => .pure rfl
    | some s =>
      refine .bind (.onArchive fun w => .stay w) fun stored _ => .refuse fun _ => ?_
      refine .bind (.onArchive fun w => .stay w) fun archived _ => .refuse fun _ => .refuse fun _ => ?_
      exact .bind (.onArchive fun w => .archive (Archive.putSource_grows t _)) fun _ _ => .pure rfl

lemma createPending_acts (e : Env) (a : PendingArgs) :
    Acts R (LedgerStep H P) (fun _ => True) (LedgerStore.createPending H e a) := by
  unfold LedgerStore.createPending
  refine .refuse fun _ => ?_
  refine .bind (.lift fun _ h => h) fun config hconfig => ?_
  refine .bind (.lift fun _ h => h) fun conditions hconditions => ?_
  refine .bind (recordInput_acts _ _) fun input hinput => ?_
  refine .bind (.lift fun _ h => h) fun manifest hmanifest => ?_
  refine .bind (.lift fun _ h => h) fun hash hhash => ?_
  refine .bind (.lift fun _ h => h) fun text htext => ?_
  refine .bind (V := fun _ => True) (.handle (.transaction .stay fun w _ db h => ?_) fun exc => ?_)
    fun _ _ => .query .stay
  · refine .create (fun r hr => ?_) h
    have hp : Prepared H e a input config conditions manifest hash text :=
      ⟨hconfig,hconditions,hinput,hmanifest,hhash,htext⟩
    obtain ⟨c,_,_,hd,_⟩ := hp.holds hr
    exact ⟨_,hd,rfl,rfl⟩
  · refine .bind (.query .stay) fun existing _ => ?_
    cases existing with
    | none => exact .throw _
    | some r => exact .throw _

lemma openDelivery_acts (e : Env) (id : PyStr) (target : Option Target) :
    Acts R (LedgerStep H P) (fun _ => True) (DeliveryLog.openDelivery H e id target) := by
  refine .bind (V := fun _ => True) (.lift fun _ _ => trivial) fun p _ => ?_
  exact .bind (.transaction .stay fun w _ db h => .opened h) fun _ _ => .query .stay

lemma onIntegrity_ok {α : Type} {x : Tx α} {f : Exc} {db : Db} {r : α × Db}
    (h : Tx.onIntegrity x f db = .ok r) : x db = .ok r := by
  unfold Tx.onIntegrity at h
  cases hx : x db with
  | ok s => rw [hx] at h; exact h
  | error e => rw [hx] at h; cases h

lemma append_acts (e : Env) (id : PyStr) (a : EventArgs) :
    Acts R (LedgerStep H P) (fun _ => True) (DeliveryLog.append H e id a) :=
  .transaction .stay fun _ _ _ h => .event (onIntegrity_ok h)

lemma intentTx_ok {e : Env} {id : PyStr} {chunks : List SteleChunk} {db db' : Db}
    (h : intentTx H e id chunks db = .ok ((),db')) : ∃ digest,
      intentDigest H id chunks (firstIntent db id) = .ok digest ∧
      insertTx H e id (intentArgs chunks digest e.uuid) db = .ok ((),db') := by
  obtain ⟨_,_,h⟩ := except_bind_ok.mp h
  obtain ⟨digest,hd,h⟩ := except_bind_ok.mp h
  exact ⟨digest,hd,onIntegrity_ok h⟩

lemma appendIntent_acts (e : Env) (id : PyStr) (chunks : List SteleChunk) :
    Acts R (LedgerStep H P) (fun _ => True) (DeliveryLog.appendIntent H e id chunks) := by
  refine .bind (.transaction .stay fun w _ db h => ?_) fun _ _ => .pure trivial
  obtain ⟨digest,_,h⟩ := intentTx_ok h
  exact .event h

/-- Every call is made of ledger steps. -/
theorem LedgerCall.steps (hP : ∀ t, IsTransition t → Admits P t) (c : LedgerCall)
    (own : List (World × World)) (w : World) :
    Meets R (LedgerStep H P) (fun _ _ _ => True) (c.prog H) own w := by
  cases c with
  | createPending e a => exact (createPending_acts e a).outcome own w
  | sealRecord e id => exact (seal_acts (fun _ => hP _ (.sealed _)) e id).outcome own w
  | fail e id error => exact (fail_acts (fun _ => hP _ (.failed _)) e id error).outcome own w
  | invalidate e id note => exact (invalidate_acts (fun _ => hP _ (.invalidated _)) e id note).outcome own w
  | openDelivery e id target => exact (openDelivery_acts e id target).outcome own w
  | append e id a => exact (append_acts e id a).outcome own w
  | appendIntent e id chunks => exact (appendIntent_acts e id chunks).outcome own w
  | appendUnwrittenFailure e id error => exact (append_acts e id _).outcome own w
  | replay e r => exact Acts.outcome (.transaction .stay fun _ _ _ h => .replay h) own w
  | signOff e s => exact Acts.outcome (.transaction .stay fun _ _ _ h => .signOff h) own w

end Calls

end Stele
