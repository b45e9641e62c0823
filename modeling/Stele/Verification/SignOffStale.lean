import Stele.Ledger.Bundles
import Stele.Lib.Interruption
import Stele.Lib.Ownership
import Stele.Verification.SignOffChain

/-! A sign-off over the life of its ledger: what a check that passed has seen, and that from then
on every check says exactly whether the records that the report covers are still sealed. -/
namespace Stele
open Python Interleaving

variable {H : Hasher} {real : PyFloat → PyStr} {env : World → World → Prop} {w w' u v t : World}

section Records

variable {db db' : Db} {c : PyVal × PyVal}

/-- The row of the record that a report names by its id, with the artifact hash it names. -/
structure NamedRow (real : PyFloat → PyStr) (db : Db) (c : PyVal × PyVal) (r : RecordRow) : Prop where
  mem : r ∈ db.records
  id : ∃ text, comparedText real c.1 = .ok (some text) ∧ r.recordId = .text text
  hash : r.artifactHash.toPy.pyEq c.2 = true

/-- The record is SEALED with that hash. -/
def SealedAs (real : PyFloat → PyStr) (db : Db) (c : PyVal × PyVal) : Prop :=
  ∃ r, NamedRow real db c r ∧ r.state = .text ArtifactState.sealed.value

/-- The record was sealed with that hash, whatever has become of it. -/
def WasSealed (real : PyFloat → PyStr) (db : Db) (c : PyVal × PyVal) : Prop :=
  ∃ r, NamedRow real db c r ∧ ∃ id, r.recordId = .text id ∧ sealedKind ∈ (recordEvents db id).map EventRow.kind

lemma NamedRow.unique {r q : RecordRow} (hc : Consistent H db) (hr : NamedRow real db c r)
    (hq : NamedRow real db c q) : r = q := by
  obtain ⟨a,ha,hra⟩ := hr.id
  obtain ⟨b,hb,hqb⟩ := hq.id
  obtain rfl := Option.some.inj (Except.ok.inj (ha.symm.trans hb))
  exact hc.uniqueIds.eq hr.mem hq.mem hra hqb

lemma SealedAs.was (h : OwnLedger H db) (hs : SealedAs real db c) : WasSealed real db c := by
  obtain ⟨r,hr,hstate⟩ := hs
  obtain ⟨id,s,hid,hrs,hist⟩ := h.history.rows r hr.mem
  obtain rfl : s = .sealed := ArtifactState.value_inj.mp (TextCell.text.inj (hrs.symm.trans hstate))
  refine ⟨r,hr,id,hid,?_⟩
  generalize (recordEvents db id).map EventRow.kind = kinds at hist
  cases hist
  simp

/-- What was sealed is sealed or invalidated. -/
lemma WasSealed.state (h : OwnLedger H db) (hs : WasSealed real db c) : SealedAs real db c ∨
    ∃ r, NamedRow real db c r ∧ r.state = .text ArtifactState.invalidated.value := by
  obtain ⟨r,hr,id,hid,hk⟩ := hs
  obtain ⟨id',s,hid',hrs,hist⟩ := h.history.rows r hr.mem
  obtain rfl := TextCell.text.inj (hid.symm.trans hid')
  generalize (recordEvents db id).map EventRow.kind = kinds at hist hk
  cases hist with
  | created => simp [createdKind,sealedKind] at hk
  | failed n => simp [createdKind,sealedKind,failedKind] at hk
  | «sealed» => exact Or.inl ⟨r,hr,hrs⟩
  | sealedInvalidated => exact Or.inr ⟨r,hr,hrs⟩
  | invalidated => simp [createdKind,sealedKind,invalidatedKind] at hk

lemma NamedRow.becomes {r : RecordRow} (he : Evolves db db') (hr : NamedRow real db c r) :
    ∃ r', NamedRow real db' c r' ∧ r.Becomes r' := by
  obtain ⟨r',hr',hb⟩ := he.rows r hr.mem
  obtain ⟨_,_,_,rfl⟩ := hb.kept
  exact ⟨_,⟨hr',hr.id,hr.hash⟩,hb⟩

lemma WasSealed.run (h : OwnLedger H w.db) (hr : (ledgerRules H).rely w w') (hs : WasSealed real w.db c) :
    WasSealed real w'.db c := by
  obtain ⟨hw,he,hp⟩ := h.run hr
  obtain ⟨r,hn,id,hid,hk⟩ := hs
  obtain ⟨r',hn',hb⟩ := hn.becomes he
  refine ⟨r',hn',id,?_,?_⟩
  · obtain ⟨_,_,_,rfl⟩ := hb.kept
    exact hid
  · obtain ⟨e,hm,hkind⟩ := List.mem_map.mp hk
    obtain ⟨hm,hsub⟩ := List.mem_filter.mp hm
    refine List.mem_map.mpr ⟨e,List.mem_filter.mpr ⟨?_,hsub⟩,hkind⟩
    exact (List.mem_insertionSort _).mpr (hp.subset ((List.mem_insertionSort _).mp hm))

/-- What was sealed and is sealed in the end was sealed all the time. -/
lemma WasSealed.between (h : OwnLedger H w.db) (hs : WasSealed real w.db c) (hwu : (ledgerRules H).rely w u)
    (hut : (ledgerRules H).rely u t) (ht : SealedAs real t.db c) : SealedAs real u.db c := by
  have hu := (h.run hwu).1
  rcases (hs.run h hwu).state hu with hs | ⟨r,hn,hinv⟩
  · exact hs
  · obtain ⟨htl,he,-⟩ := hu.run hut
    obtain ⟨r',hn',hb⟩ := hn.becomes he
    obtain rfl := hb.invalidated hinv
    obtain ⟨q,hq,hsealed⟩ := ht
    obtain rfl := hn'.unique htl.consistent hq
    rw [hinv] at hsealed
    exact absurd (ArtifactState.value_inj.mp (TextCell.text.inj hsealed)) (by decide)

lemma findRecord_row {text : PyStr} {r : RecordRow} (hc : Consistent H db) :
    findRecord db text = some r ↔ r ∈ db.records ∧ r.recordId = .text text := by
  have found : ∀ {q}, findRecord db text = some q → q ∈ db.records ∧ q.recordId = .text text := fun hf =>
    ⟨List.mem_of_find?_eq_some hf,by simpa using List.find?_some hf⟩
  refine ⟨found,fun h => ?_⟩
  obtain ⟨hm,hid⟩ := h
  cases hf : findRecord db text with
  | none => exact absurd hid (by simpa using List.find?_eq_none.mp hf r hm)
  | some q =>
    obtain ⟨hq,hqid⟩ := found hf
    rw [hc.uniqueIds.eq hq hm hqid hid]

/-- ledger.get, on the row that the id names. -/
lemma recordNamed_row {id : PyVal} {record : ArtifactRecord} (hc : Consistent H db)
    (h : recordNamed real id db = .ok (some record)) : ∃ r ∈ db.records,
      (∃ text, comparedText real id = .ok (some text) ∧ r.recordId = .text text) ∧
      record.artifactHash = r.artifactHash ∧ r.state = .text record.state.value := by
  obtain ⟨text,ht,h⟩ := except_bind_ok.mp h
  cases text with
  | none => cases h
  | some text =>
    dsimp only at h
    cases hr : findRecord db text with
    | none =>
      rw [hr] at h
      cases h
    | some r =>
      obtain ⟨hm,hid⟩ := (findRecord_row hc).mp hr
      obtain ⟨d,hd⟩ := hc.holds hm
      rw [hr] at h
      dsimp only at h
      rw [hd.rowToRecord] at h
      obtain rfl := Option.some.inj (Except.ok.inj h)
      exact ⟨r,hm,⟨text,ht,hid⟩,rfl,hd.state⟩

lemma NamedRow.record {r : RecordRow} (hc : Consistent H db) (hr : NamedRow real db c r) :
    ∃ record, recordNamed real c.1 db = .ok (some record) ∧ record.artifactHash = r.artifactHash ∧
      r.state = .text record.state.value := by
  obtain ⟨text,ht,hid⟩ := hr.id
  obtain ⟨d,hd⟩ := hc.holds hr.mem
  have hrec := hd.rowToRecord
  generalize hx : ArtifactRecord.mk _ _ _ _ _ _ _ _ _ _ _ _ _ _ _ _ = record at hrec
  refine ⟨record,?_,by rw [← hx],by rw [← hx,hd.state]⟩
  simp only [recordNamed,ht,bind,Except.bind,(findRecord_row hc).mpr ⟨hr.mem,hid⟩,hrec,Except.map]

/-- namedProblems is silent exactly on a record that is SEALED as the row says. -/
lemma namedProblems_iff {doc row : PyVal} {lane : PyKey} (hc : Consistent H db)
    (hrow : itemOr row "artifact_hash" .none = .ok c.2) :
    (recordNamed real c.1 db >>= namedProblems doc lane row c.1) = .ok [] ↔ SealedAs real db c := by
  have raised : ∀ f : PyVal → RecheckProblem, (itemAt doc "path").map (fun path => [f path]) ≠ .ok [] := by
    intro f
    cases itemAt doc "path" <;> simp [Except.map]
  constructor
  · intro hp
    obtain ⟨found,hf,hp⟩ := except_bind_ok.mp hp
    cases found with
    | none => exact absurd hp (raised _)
    | some record =>
      obtain ⟨r,hm,hid,hhash,hstate⟩ := recordNamed_row hc hf
      simp only [namedProblems,hrow,bind,Except.bind] at hp
      split_ifs at hp with hs he
      · exact absurd hp (raised _)
      · exact ⟨r,⟨hm,hid,hhash ▸ he⟩,by rw [hstate,not_not.mp hs]⟩
      · exact absurd hp (raised _)
  · rintro ⟨r,hn,hsealed⟩
    obtain ⟨record,hrec,hhash,hstate⟩ := hn.record hc
    have hs : record.state = .sealed :=
      ArtifactState.value_inj.mp (TextCell.text.inj (hstate.symm.trans hsealed))
    have he : record.artifactHash.toPy.pyEq c.2 = true := hhash ▸ hn.hash
    simp only [hrec,namedProblems,hrow,hs,he,bind,Except.bind,pure,Except.pure,ne_eq,not_true,if_false,if_true]

end Records

section Vouching

/-- The rules of the ledger's calls, when `env` is what else may happen. -/
def Rules.ledgerWith (H : Hasher) (env : World → World → Prop) : Rules World where
  rely := Relation.ReflTransGen fun w w' => LedgerStep H AnyTransition w w' ∨ env w w'
  allowed _ _ := True
  refl _ := .refl
  trans h h' := h.trans h'

/-- Nothing but the ledger's calls writes the database. -/
def LeavesDb (env : World → World → Prop) : Prop := ∀ w w', env w w' → w.db = w'.db

lemma ledgerWith_step (a b : World) (h : LedgerStep H AnyTransition a b)
    (_ : (Rules.ledgerWith H env).allowed a b) : (Rules.ledgerWith H env).rely a b := .single (Or.inl h)

lemma LeavesDb.rely (henv : LeavesDb env) (h : (Rules.ledgerWith H env).rely w w') :
    (ledgerRules H).rely w w' := by
  induction h with
  | refl => exact .refl
  | tail _ hs ih => exact ih.tail (hs.imp id (henv _ _))

/-- The record was SEALED with that hash at some time between the two states. -/
def SealedSince (real : PyFloat → PyStr) (H : Hasher) (env : World → World → Prop) (w t : World)
    (c : PyVal × PyVal) : Prop :=
  ∃ u, (Rules.ledgerWith H env).rely w u ∧ (Rules.ledgerWith H env).rely u t ∧ SealedAs real u.db c

/-- A list of problems that was made between the two states, and what it says of the records that
it covers: it is empty only if each was sealed at some time, and it is if each was all the time.
`stands` is what else it looks at. -/
structure Vouches (real : PyFloat → PyStr) (H : Hasher) (env : World → World → Prop) {β : Type}
    (covered : List (PyVal × PyVal)) (stands : Db → Prop) (w : World) (r : Except Exc (List β)) (t : World) :
    Prop where
  sound : r = .ok [] → stands t.db ∧ ∀ c ∈ covered, SealedSince real H env w t c
  complete : stands w.db → (∀ c ∈ covered, WasSealed real w.db c ∧ SealedAs real t.db c) → r = .ok []

/-- It stays so as the ledger goes on. -/
def Stays (H : Hasher) (stands : Db → Prop) : Prop :=
  ∀ w w' : World, OwnLedger H w.db → (ledgerRules H).rely w w' → stands w.db → stands w'.db

variable {β : Type} {covered : List (PyVal × PyVal)} {stands : Db → Prop} {r : Except Exc (List β)}

lemma Vouches.earlier (henv : LeavesDb env) (hs : Stays H stands) (hw : OwnLedger H w.db)
    (hr : (Rules.ledgerWith H env).rely w w') (h : Vouches real H env covered stands w' r t) :
    Vouches real H env covered stands w r t := by
  refine ⟨fun hnil => ⟨(h.sound hnil).1,fun c hc => ?_⟩,fun hst hall => ?_⟩
  · obtain ⟨u,hwu,hut,hu⟩ := (h.sound hnil).2 c hc
    exact ⟨u,hr.trans hwu,hut,hu⟩
  · exact h.complete (hs w w' hw (henv.rely hr) hst) fun c hc =>
      ⟨(hall c hc).1.run hw (henv.rely hr),(hall c hc).2⟩

lemma Vouches.later (henv : LeavesDb env) (hs : Stays H stands) (hw : OwnLedger H w.db)
    (hwt : (Rules.ledgerWith H env).rely w t) (htv : (Rules.ledgerWith H env).rely t v)
    (h : Vouches real H env covered stands w r t) : Vouches real H env covered stands w r v := by
  refine ⟨fun hnil => ⟨?_,fun c hc => ?_⟩,fun hst hall => ?_⟩
  · exact hs t v (hw.run (henv.rely hwt)).1 (henv.rely htv) (h.sound hnil).1
  · obtain ⟨u,hwu,hut,hu⟩ := (h.sound hnil).2 c hc
    exact ⟨u,hwu,hut.trans htv,hu⟩
  · exact h.complete hst fun c hc => ⟨(hall c hc).1,
      (hall c hc).1.between hw (henv.rely hwt) (henv.rely htv) (hall c hc).2⟩

/-- What a program of the check comes to, from wherever it starts. -/
def CallVouches (real : PyFloat → PyStr) (H : Hasher) (env : World → World → Prop)
    (covered : List (PyVal × PyVal)) (stands : Db → Prop) (p : Op (List β)) : Prop :=
  ∀ w own, OwnLedger H w.db → Meets (Rules.ledgerWith H env) (LedgerStep H AnyTransition)
    (fun r _ t => Vouches real H env covered stands w r t) p.run own w

section Programs

variable {α : Type} {own : List (World × World)} {Q : Except Exc (List β) → List (World × World) → World → Prop}

/-- One read of the database, and what follows it. -/
lemma queried_meets {f : Db → Except Exc α} {k : α → Op (List β)}
    (herr : ∀ u v e, (Rules.ledgerWith H env).rely w u → (Rules.ledgerWith H env).rely u v →
      f u.db = .error e → Q (.error e) (own++[(u,u)]) v)
    (hok : ∀ u b, (Rules.ledgerWith H env).rely w u → f u.db = .ok b →
      Meets (Rules.ledgerWith H env) (LedgerStep H AnyTransition) Q (k b).run (own++[(u,u)]) u) :
    Meets (Rules.ledgerWith H env) (LedgerStep H AnyTransition) Q (Op.query f >>= k).run own w := by
  refine Meets.bindExcept (Meets.atomic fun u hu _ => ⟨.stay u,fun v hv => ?_⟩)
  cases hf : f u.db with
  | error e => exact herr u v e hu hv hf
  | ok b => exact (hok u b hu hf).rely hv

/-- One read of the archive, and what follows it. -/
lemma read_meets {f : Archive → Except Exc α} {k : α → Op (List β)}
    (herr : ∀ u v e, (Rules.ledgerWith H env).rely w u → (Rules.ledgerWith H env).rely u v →
      f u.archive = .error e → Q (.error e) (own++[(u,u)]) v)
    (hok : ∀ u b, (Rules.ledgerWith H env).rely w u → f u.archive = .ok b →
      Meets (Rules.ledgerWith H env) (LedgerStep H AnyTransition) Q (k b).run (own++[(u,u)]) u) :
    Meets (Rules.ledgerWith H env) (LedgerStep H AnyTransition) Q
      (Op.onArchive (fun a => (f a,a)) >>= k).run own w := by
  refine Meets.bindExcept (Meets.atomic fun u hu _ => ⟨.stay u,fun v hv => ?_⟩)
  dsimp only
  cases hf : f u.archive with
  | error e => exact herr u v e hu hv hf
  | ok b => exact (hok u b hu hf).rely hv

/-- What takes no step, and what follows it. -/
lemma lift_meets {x : Except Exc α} {k : α → Op (List β)}
    (herr : ∀ v e, (Rules.ledgerWith H env).rely w v → x = .error e → Q (.error e) own v)
    (hok : ∀ b, x = .ok b → Meets (Rules.ledgerWith H env) (LedgerStep H AnyTransition) Q (k b).run own w) :
    Meets (Rules.ledgerWith H env) (LedgerStep H AnyTransition) Q (Op.lift x >>= k).run own w := by
  refine Meets.bindExcept fun v hv => ?_
  cases hx : x with
  | error e => exact herr v e hv hx
  | ok b => exact (hok b hx).rely hv

/-- A loop vouches for what each of its passes vouches for. -/
lemma each_vouched (cov : α → List (PyVal × PyVal)) (henv : LeavesDb env) {f : ℕ → α → Op (List β)}
    {st : α → Db → Prop} (hst : ∀ a, Stays H (st a)) (hf : ∀ i a, CallVouches real H env (cov a) (st a) (f i a))
    (as : List α) : CallVouches real H env (as.flatMap cov) (fun db => ∀ a ∈ as, st a db)
      (each f 0 as >>= fun found => pure found.flatten) := by
  intro w own hw
  have hloop : Meets (Rules.ledgerWith H env) (LedgerStep H AnyTransition) _ (each f 0 as).run own w :=
    each_meets (I := fun s => (Rules.ledgerWith H env).rely w s)
      (P := fun u t => (Rules.ledgerWith H env).rely w t ∧ Vouches real H env (cov u.elem) (st u.elem) w u.result t)
      (fun s t hst hs => Relation.ReflTransGen.trans hs hst) ledgerWith_step
      (fun u s t hst' hp => ⟨hp.1.trans hst',hp.2.later henv (hst _) hw hp.1 hst'⟩) ?_ as .refl
  · refine Meets.bindExcept ((Meets.reached ledgerWith_step hloop).mono ?_)
    rintro r own' t ⟨hwt,-,us,hus,-,hall⟩
    have hmem : ∀ u ∈ us, u.elem ∈ as := fun u hu => hus.elems.subset (List.mem_map_of_mem hu)
    have hv : Vouches real H env (as.flatMap cov) (fun db => ∀ a ∈ as, st a db) w (r.map List.flatten) t := by
      refine ⟨fun hnil => ?_,fun hs hc => ?_⟩
      · cases r with
        | error e => cases hnil
        | ok bs =>
          obtain ⟨helem,hresult⟩ := hus.ok
          have hbs := List.flatten_eq_nil_iff.mp (Except.ok.inj hnil)
          have hsound : ∀ a ∈ as, st a t.db ∧ ∀ c ∈ cov a, SealedSince real H env w t c := by
            intro a ha
            obtain ⟨u,hu,rfl⟩ := List.mem_map.mp (helem ▸ ha)
            obtain ⟨b,hb,hub⟩ := List.mem_map.mp (hresult ▸ List.mem_map_of_mem hu : u.result ∈ bs.map .ok)
            exact (hall u hu).2.sound (by rw [← hub,hbs b hb])
          refine ⟨fun a ha => (hsound a ha).1,fun c hc => ?_⟩
          obtain ⟨a,ha,hca⟩ := List.mem_flatMap.mp hc
          exact (hsound a ha).2 c hca
      · have hres : ∀ u ∈ us, u.result = .ok [] := fun u hu =>
          (hall u hu).2.complete (hs _ (hmem u hu)) fun c hcu =>
            hc c (List.mem_flatMap.mpr ⟨_,hmem u hu,hcu⟩)
        obtain ⟨bs,rfl⟩ := hus.total fun u hu => ⟨[],hres u hu⟩
        obtain ⟨-,hresult⟩ := hus.ok
        refine congrArg Except.ok (List.flatten_eq_nil_iff.mpr fun b hb => ?_)
        obtain ⟨u,hu,hub⟩ := List.mem_map.mp (hresult ▸ List.mem_map_of_mem hb : Except.ok b ∈ us.map Pass.result)
        exact Except.ok.inj (hub.symm.trans (hres u hu))
    cases r with
    | error e => exact hv
    | ok bs => exact fun v htv => hv.later henv (fun w w' hw hr hs a ha => hst a w w' hw hr (hs a ha)) hw hwt htv
  · intro i a own s hs
    have hsw := hw.run (henv.rely hs)
    refine ((Meets.reached ledgerWith_step (Meets.traced (hf i a s own hsw.1))).mono ?_)
    rintro r own' t ⟨hst',-,hv,more,rfl,-⟩
    exact ⟨more,rfl,hs.trans hst',hv.earlier henv (hst a) hw hs⟩

end Programs

end Vouching

section Checks

variable {lane : PyKey} {doc row : PyVal} {report : VerificationReport} {digest : PyStr}

/-- The record and the artifact hash that a lane's row names. -/
def namedBy (row : PyVal) : Option (PyVal × PyVal) :=
  match itemOr row "record_id" .none,itemOr row "artifact_hash" .none with
  | .ok id,.ok hash => if truthy id then some (id,hash) else none
  | _,_ => none

/-- The lanes of a document, none where it has no dict of them. -/
def lanesOf (doc : PyVal) : List (PyKey × PyVal) := ((itemAt doc "lanes" >>= itemsOf).toOption).getD []

/-- The documents of a report. -/
def VerificationReport.documents (r : VerificationReport) : List PyVal :=
  ((itemAt r.data "documents" >>= elementsOf).toOption).getD []

def coveredBy (doc : PyVal) : List (PyVal × PyVal) := (lanesOf doc).flatMap fun p => (namedBy p.2).toList

/-- The records that a report covers: the id and the artifact hash under which each lane names one. -/
def VerificationReport.covered (r : VerificationReport) : List (PyVal × PyVal) := r.documents.flatMap coveredBy

/-- A row that `.get` works on. -/
def IsRow (row : PyVal) : Prop := ∃ kvs, row = .dict kvs

def IsDocument (doc : PyVal) : Prop :=
  (∃ lanes, (itemAt doc "lanes" >>= itemsOf) = .ok lanes) ∧ ∀ p ∈ lanesOf doc, IsRow p.2

/-- The chain contains the head that the report states. -/
def VerificationReport.HeadIn (r : VerificationReport) (db : Db) : Prop :=
  ∃ anchor, r.ledgerHead = .ok anchor ∧ AnchorIn db.events anchor

/-- The report can be rechecked, and its head is one that verify has nothing to say of. -/
structure VerificationReport.Stands (r : VerificationReport) (db : Db) : Prop where
  head : ∃ anchor, r.ledgerHead = .ok anchor ∧ HoldsAnchor db.events anchor
  documents : ∃ docs, (itemAt r.data "documents" >>= elementsOf) = .ok docs
  rows : ∀ doc ∈ r.documents, IsDocument doc

lemma stays_const (P : Prop) : Stays H fun _ => P := fun _ _ _ _ h => h

variable (real lane doc) in
lemma recheckLane_vouched (henv : LeavesDb env) : CallVouches real H env (namedBy row).toList (fun _ => IsRow row)
    (recheckLane real doc lane row) := by
  intro w own hw
  refine lift_meets (fun v e _ he => ⟨fun h => (by cases h),?_⟩) fun id hid => ?_
  · rintro ⟨kvs,rfl⟩
    cases he
  obtain ⟨kvs,rfl⟩ : IsRow row := by
    cases row with
    | dict kvs => exact ⟨kvs,rfl⟩
    | _ => cases hid
  obtain ⟨hash,hhash⟩ : ∃ hash, itemOr (.dict kvs) "artifact_hash" .none = .ok hash := ⟨_,rfl⟩
  have hnamed : namedBy (.dict kvs) = if truthy id then some (id,hash) else none := by
    rw [namedBy,hid,hhash]
  cases hd : truthy id with
  | false =>
    rw [hd] at hnamed
    exact fun v _ => ⟨fun _ => ⟨⟨kvs,rfl⟩,by simp [hnamed]⟩,fun _ _ => rfl⟩
  | true =>
    rw [hd,if_pos rfl] at hnamed
    rw [hnamed,Option.toList_some]
    -- the one record that is read, at some u between w and the end
    have hiff : ∀ {u : World}, (Rules.ledgerWith H env).rely w u →
        ((recordNamed real id u.db >>= namedProblems doc lane (.dict kvs) id) = .ok [] ↔
          SealedAs real u.db (id,hash)) := fun hwu =>
      namedProblems_iff (c := (id,hash)) (hw.run (henv.rely hwu)).1.consistent hhash
    refine queried_meets (fun u v e hwu huv he => ⟨fun h => (by cases h),fun _ hall => ?_⟩) fun u record hwu hrec => ?_
    · obtain ⟨hwas,hsealed⟩ := hall _ (List.mem_singleton_self _)
      have hu := (hiff hwu).mpr (hwas.between hw (henv.rely hwu) (henv.rely huv) hsealed)
      rw [he] at hu
      cases hu
    · intro v huv
      have hu := hiff hwu
      rw [hrec] at hu
      refine ⟨fun h => ⟨⟨kvs,rfl⟩,List.forall_mem_singleton.mpr ⟨u,hwu,huv,hu.mp h⟩⟩,fun _ hall => hu.mpr ?_⟩
      obtain ⟨hwas,hsealed⟩ := hall _ (List.mem_singleton_self _)
      exact hwas.between hw (henv.rely hwu) (henv.rely huv) hsealed

variable (real doc) in
lemma recheckDocument_vouched (henv : LeavesDb env) : CallVouches real H env (coveredBy doc)
    (fun _ => IsDocument doc) (recheckDocument real doc) := by
  intro w own hw
  refine lift_meets (fun v e _ he => ⟨fun h => (by cases h),fun hdoc => ?_⟩) fun lanes hl => ?_
  · obtain ⟨lanes,hl⟩ := hdoc.1
    rw [he] at hl
    cases hl
  have hlanes : lanesOf doc = lanes := by
    rw [lanesOf,hl]
    rfl
  have hloop := each_vouched (fun p => (namedBy p.2).toList) henv (fun p => stays_const (IsRow p.2))
    (fun _ p => recheckLane_vouched real p.1 doc henv) lanes w own hw
  refine hloop.mono fun r _ t h => ⟨fun hnil => ?_,fun hdoc hall => ?_⟩
  · obtain ⟨hrows,hsealed⟩ := h.sound hnil
    exact ⟨⟨⟨lanes,hl⟩,hlanes.symm ▸ hrows⟩,by rw [coveredBy,hlanes]; exact hsealed⟩
  · rw [coveredBy,hlanes] at hall
    exact h.complete (hlanes ▸ hdoc.2) hall

/-- What is made of a result. -/
lemma map_meets {α β : Type} {own : List (World × World)} {R : Rules World} {G : World → World → Prop}
    {Q : Except Exc β → List (World × World) → World → Prop} {g : α → β} {p : Op α}
    (h : Meets R G (fun r own t => Q (r.map g) own t) p.run own w) : Meets R G Q (g <$> p).run own w := by
  rw [ExceptT.run_map]
  exact Meets.map h

lemma stands_stays (report : VerificationReport) : Stays H report.Stands := by
  intro w w' hw hr hs
  obtain ⟨hw',-,more,hmore⟩ := hw.run hr
  obtain ⟨anchor,ha,hin⟩ := hs.head
  refine ⟨⟨anchor,ha,?_⟩,hs.documents,hs.rows⟩
  have hc := hw'.consistent.chained
  rw [← hmore] at hc ⊢
  exact hin.append hc

/-- recheck is silent exactly while the report's head is in the chain and its records are sealed. -/
lemma recheck_vouched (henv : LeavesDb env) :
    CallVouches real H env report.covered report.Stands (recheck H real report) := by
  intro w own hw
  refine lift_meets (fun v e _ he => ⟨fun h => (by cases h),fun hs => ?_⟩) fun anchor ha => ?_
  · obtain ⟨anchor,ha,-⟩ := hs.head
    rw [he] at ha
    cases ha
  have hanchor : ∀ {u}, (Rules.ledgerWith H env).rely w u → report.Stands w.db → HoldsAnchor u.db.events anchor := by
    intro u hwu hs
    obtain ⟨b,hb,hin⟩ := (stands_stays report w u hw (henv.rely hwu) hs).head
    obtain rfl := Except.ok.inj (ha.symm.trans hb)
    exact hin
  refine queried_meets (fun u v e hwu _ he => ⟨fun h => (by cases h),fun hs => ?_⟩) fun u chain hwu hchain => ?_
  · have hv := (verifyAt_iff (hw.run (henv.rely hwu)).1.consistent.chained).mpr (hanchor hwu hs)
    rw [he] at hv
    cases hv
  have hu := (hw.run (henv.rely hwu)).1
  refine lift_meets (fun v e _ he => ⟨fun h => (by cases h),fun hs => ?_⟩) fun docs hd => ?_
  · obtain ⟨docs,hd⟩ := hs.documents
    rw [he] at hd
    cases hd
  have hdocs : report.documents = docs := by
    rw [VerificationReport.documents,hd]
    rfl
  have hloop := each_vouched coveredBy henv (fun doc => stays_const (IsDocument doc))
    (fun _ doc => recheckDocument_vouched real doc henv) docs u (own++[(u,u)]) hu
  have heq : (each (fun _ doc => recheckDocument real doc) 0 docs >>= fun found =>
      (pure (chain.map RecheckProblem.eventLog++found.flatten) : Op (List RecheckProblem))) =
      (fun x => chain.map RecheckProblem.eventLog++x) <$>
        (each (fun _ doc => recheckDocument real doc) 0 docs >>= fun found => pure found.flatten) := by
    simp only [map_bind,map_pure]
  rw [heq]
  refine map_meets ((Meets.reached ledgerWith_step hloop).mono ?_)
  rintro r _ t ⟨hut,-,h⟩
  have hv := h.earlier henv (fun w w' _ _ hs => hs) hw hwu
  refine ⟨fun hnil => ?_,fun hs hall => ?_⟩
  · cases r with
    | error e => cases hnil
    | ok found =>
      obtain ⟨hc,hf⟩ := List.append_eq_nil_iff.mp (Except.ok.inj hnil)
      obtain ⟨hrows,hsealed⟩ := hv.sound (congrArg Except.ok hf)
      have hin := (verifyAt_iff hu.consistent.chained).mp (hchain.trans (congrArg Except.ok (List.map_eq_nil_iff.mp hc)))
      have hst : report.Stands u.db := ⟨⟨anchor,ha,hin⟩,⟨docs,hd⟩,hdocs.symm ▸ hrows⟩
      refine ⟨stands_stays report u t hu (henv.rely hut) hst,?_⟩
      rw [VerificationReport.covered,hdocs]
      exact hsealed
  · have hc := (verifyAt_iff hu.consistent.chained).mpr (hanchor hwu hs)
    obtain rfl := Except.ok.inj (hchain.symm.trans hc)
    rw [VerificationReport.covered,hdocs] at hall
    rw [hv.complete (hdocs ▸ hs.rows) hall]
    rfl

/-- The report that a digest stands for, one that passed. -/
structure Accepted (H : Hasher) (digest : PyStr) (report : VerificationReport) : Prop where
  isDigest : Stele.isDigest digest = true
  hash : H.hexdigest report.canonical = digest
  format : VerificationReport.fromCanonical report.canonical = .ok (.ok report)
  passed : report.passed = .ok true

/-- `env` does not touch the archived report. -/
def KeepsReport (env : World → World → Prop) (digest : PyStr) (data : Bytes) : Prop :=
  ∀ w w', env w w' → w.archive.blobs digest = some data → w'.archive.blobs digest = some data

lemma KeepsReport.rely {data : Bytes} (henv : KeepsReport env digest data)
    (h : (Rules.ledgerWith H env).rely w w') (hw : w.archive.blobs digest = some data) :
    w'.archive.blobs digest = some data := by
  induction h with
  | refl => exact hw
  | tail _ hs ih =>
    rcases hs with hs | hs
    · cases hs with
      | archive hg => exact hg.blobs _ _ ih
      | _ => exact ih
    · exact henv _ _ hs ih

lemma fromCanonical_data {data : Bytes} (h : VerificationReport.fromCanonical data = .ok (.ok report)) :
    report.canonical = data := by
  unfold VerificationReport.fromCanonical at h
  split at h
  · cases h
  · rename_i kvs _
    split_ifs at h
    · cases h
    split at h
    · cases h
    · cases hc : canonicalJson (.dict kvs) with
      | error e =>
        rw [hc] at h
        cases h
      | ok encoded =>
        rw [hc] at h
        have h := Except.ok.inj h
        dsimp only at h
        split_ifs at h
        rw [← Except.ok.inj h]
  · cases h

/-- The archive gives a report for a digest only as the bytes that hash to it. -/
lemma signedOffReport_iff {a : Archive} : signedOffReport H digest a = .ok (.ok report) ↔ isDigest digest = true ∧
    a.blobs digest = some report.canonical ∧ H.hexdigest report.canonical = digest ∧
    VerificationReport.fromCanonical report.canonical = .ok (.ok report) := by
  unfold signedOffReport Archive.read
  constructor
  · intro h
    by_cases hd : isDigest digest = false
    · rw [if_pos hd] at h
      cases h
    · rw [if_neg hd] at h
      cases hb : a.blobs digest with
      | none =>
        rw [hb] at h
        cases h
      | some data =>
        rw [hb] at h
        dsimp only at h
        by_cases hh : H.hexdigest data = digest
        · rw [if_pos hh] at h
          dsimp only at h
          cases hf : VerificationReport.fromCanonical data with
          | error e =>
            rw [hf] at h
            cases h
          | ok r =>
            rw [hf] at h
            cases r with
            | error p => cases h
            | ok report' =>
              obtain rfl := Except.ok.inj (Except.ok.inj h)
              obtain rfl := fromCanonical_data hf
              exact ⟨by simpa using hd,rfl,hh,hf⟩
        · rw [if_neg hh] at h
          cases h
  · rintro ⟨hd,hb,hh,hf⟩
    rw [if_neg (by simp [hd]),hb]
    dsimp only
    rw [if_pos hh]
    dsimp only
    rw [hf]
    rfl

/-- What a check that began in w has come to in t. -/
structure CheckVouches (real : PyFloat → PyStr) (H : Hasher) (env : World → World → Prop) (digest : PyStr)
    (w : World) (r : Except Exc (List SignOffProblem)) (t : World) : Prop where
  sound : r = .ok [] → SignedOff t.db.events digest ∧ ∃ report, Accepted H digest report ∧
    report.Stands t.db ∧ ∀ c ∈ report.covered, SealedSince real H env w t c
  complete : ∀ report, Accepted H digest report → KeepsReport env digest report.canonical →
    w.archive.blobs digest = some report.canonical → SignedOff w.db.events digest → report.Stands w.db →
    (∀ c ∈ report.covered, WasSealed real w.db c ∧ SealedAs real t.db c) → r = .ok []

lemma SignedOff.run (h : OwnLedger H w.db) (hr : (ledgerRules H).rely w w')
    (hs : SignedOff w.db.events digest) : SignedOff w'.db.events digest := by
  obtain ⟨r,hm,hlogged⟩ := hs
  exact ⟨r,(h.run hr).2.2.subset hm,hlogged⟩

lemma CheckVouches.earlier {r : Except Exc (List SignOffProblem)} (henv : LeavesDb env) (hw : OwnLedger H w.db)
    (hr : (Rules.ledgerWith H env).rely w w') (h : CheckVouches real H env digest w' r t) :
    CheckVouches real H env digest w r t := by
  refine ⟨fun hnil => ?_,fun report ha hk hb hs hst hall => ?_⟩
  · obtain ⟨hs,report,ha,hst,hc⟩ := h.sound hnil
    refine ⟨hs,report,ha,hst,fun c hm => ?_⟩
    obtain ⟨u,hwu,hut,hu⟩ := hc c hm
    exact ⟨u,hr.trans hwu,hut,hu⟩
  · exact h.complete report ha hk (hk.rely hr hb) (hs.run hw (henv.rely hr))
      (stands_stays report w w' hw (henv.rely hr) hst) fun c hm =>
        ⟨(hall c hm).1.run hw (henv.rely hr),(hall c hm).2⟩

lemma CheckVouches.later {r : Except Exc (List SignOffProblem)} (henv : LeavesDb env) (hw : OwnLedger H w.db)
    (hwt : (Rules.ledgerWith H env).rely w t) (htv : (Rules.ledgerWith H env).rely t v)
    (h : CheckVouches real H env digest w r t) : CheckVouches real H env digest w r v := by
  have ht := (hw.run (henv.rely hwt)).1
  refine ⟨fun hnil => ?_,fun report ha hk hb hs hst hall => ?_⟩
  · obtain ⟨hs,report,ha,hst,hc⟩ := h.sound hnil
    refine ⟨hs.run ht (henv.rely htv),report,ha,stands_stays report t v ht (henv.rely htv) hst,fun c hm => ?_⟩
    obtain ⟨u,hwu,hut,hu⟩ := hc c hm
    exact ⟨u,hwu,hut.trans htv,hu⟩
  · exact h.complete report ha hk hb hs hst fun c hm => ⟨(hall c hm).1,
      (hall c hm).1.between hw (henv.rely hwt) (henv.rely htv) (hall c hm).2⟩

variable (report) in
/-- The rest of check_sign_off, once it has read a report. -/
lemma checkReport_meets (henv : LeavesDb env) (hw : OwnLedger H w.db) (own : List (World × World)) :
    Meets (Rules.ledgerWith H env) (LedgerStep H AnyTransition) (fun r _ t =>
      (r = .ok [] → report.passed = .ok true ∧ report.Stands t.db ∧
        ∀ c ∈ report.covered, SealedSince real H env w t c) ∧
      (report.passed = .ok true → report.Stands w.db →
        (∀ c ∈ report.covered, WasSealed real w.db c ∧ SealedAs real t.db c) → r = .ok []))
      (checkReport H real [] (.ok report)).run own w := by
  refine lift_meets (fun v e _ he => ⟨fun h => (by cases h),fun hp => ?_⟩) fun passed hp => ?_
  · rw [he] at hp
    cases hp
  have heq : (recheck H real report >>= fun stale => (pure ([].map SignOffProblem.eventLog++
      (if passed then [] else [.notPassed])++stale.map SignOffProblem.stale) : Op (List SignOffProblem))) =
      (fun stale => (if passed then [] else [.notPassed])++stale.map SignOffProblem.stale) <$>
        recheck H real report := by
    simp only [List.map_nil,List.nil_append,bind_pure_comp]
  rw [heq]
  refine map_meets ((recheck_vouched henv w own hw).mono ?_)
  intro r _ t h
  refine ⟨fun hnil => ?_,fun hpass hs hall => ?_⟩
  · cases r with
    | error e => cases hnil
    | ok stale =>
      obtain ⟨hn,hstale⟩ := List.append_eq_nil_iff.mp (Except.ok.inj hnil)
      have hpassed : passed = true := by
        by_contra hf
        rw [if_neg hf] at hn
        cases hn
      exact ⟨hpassed ▸ hp,h.sound (congrArg Except.ok (List.map_eq_nil_iff.mp hstale))⟩
  · obtain rfl := Except.ok.inj (hp.symm.trans hpass)
    rw [h.complete hs hall]
    rfl

/-- An event of the chain is an anchor that it contains. -/
lemma entry_anchored {rows : List EventRow} {r : EventRow} (hc : Chained H rows) (hr : r ∈ rows) :
    HoldsAnchor rows (some (.int r.seq,r.hash.toPy)) := by
  have hself : r.isNumbered (.int r.seq) = true := by simp [EventRow.isNumbered_iff,PyVal.num]
  rintro _ ⟨⟩
  refine ⟨fun q hq => ?_,Or.inl ⟨r,hr,hself⟩⟩
  rintro _ ⟨⟩ hn
  have hseq := EventRow.isNumbered_inj hn hself
  obtain ⟨i,hi⟩ := List.getElem?_of_mem hr
  obtain ⟨j,hj⟩ := List.getElem?_of_mem hq
  have h1 := hc.seq hi
  have h2 := hc.seq hj
  obtain rfl : i = j := by omega
  obtain rfl := Option.some.inj (hi.symm.trans hj)
  simp [EventRow.hasHash]

/-- What check_sign_off comes to, whatever the ledger's calls do meanwhile. -/
theorem checkSignOff_meets (henv : LeavesDb env) (hw : OwnLedger H w.db) (own : List (World × World)) :
    Meets (Rules.ledgerWith H env) (LedgerStep H AnyTransition)
      (fun r _ t => CheckVouches real H env digest w r t) (checkSignOff H real digest).run own w := by
  refine queried_meets (fun u v e hwu _ he => ?_) fun u entries hwu hentries => ?_
  · obtain ⟨entries,hok,-⟩ := signOffs_last digest (hw.run (henv.rely hwu)).1.consistent.chained
      (hw.run (henv.rely hwu)).1.readable
    rw [he] at hok
    cases hok
  have hu := (hw.run (henv.rely hwu)).1
  obtain ⟨entries',hok,hsigned,hlast⟩ := signOffs_last digest hu.consistent.chained hu.readable
  obtain rfl := Except.ok.inj (hentries.symm.trans hok)
  cases hl : (entriesOf digest entries).getLast? with
  | none =>
    refine fun v huv => ⟨fun h => (by cases h),fun report _ _ _ hs => ?_⟩
    exact absurd hl (hsigned.mp (hs.run hw (henv.rely hwu)))
  | some entry =>
    have hs : SignedOff u.db.events digest := hsigned.mpr (by rw [hl]; simp)
    obtain ⟨row,hrow,hof⟩ := hlast entry hl
    refine lift_meets (fun v e _ he => ?_) fun seq hseq => ?_
    · rw [hof.seq] at he
      cases he
    refine lift_meets (fun v e _ he => ?_) fun hash hhash => ?_
    · rw [hof.hash] at he
      cases he
    obtain rfl := Except.ok.inj (hof.seq.symm.trans hseq)
    obtain rfl := Except.ok.inj (hof.hash.symm.trans hhash)
    have hchain : ∀ {v}, (Rules.ledgerWith H env).rely u v →
        EventLog.verifyAt H v.db.events (some (.int row.seq,row.hash.toPy)) = .ok [] := by
      intro v huv
      obtain ⟨hv,-,hp⟩ := hu.run (henv.rely huv)
      exact (verifyAt_iff hv.consistent.chained).mpr (entry_anchored hv.consistent.chained (hp.subset hrow))
    refine queried_meets (fun v x e huv _ he => ?_) fun v chain huv hc => ?_
    · rw [hchain huv] at he
      cases he
    obtain rfl := Except.ok.inj (hc.symm.trans (hchain huv))
    have hwv := hwu.trans huv
    have hread : ∀ {x : World} {report : VerificationReport}, Accepted H digest report →
        x.archive.blobs digest = some report.canonical → signedOffReport H digest x.archive = .ok (.ok report) :=
      fun ha hb => signedOffReport_iff.mpr ⟨ha.isDigest,hb,ha.hash,ha.format⟩
    refine read_meets (fun x y e hvx _ he => ⟨fun h => (by cases h),fun report ha hk hb _ _ _ => ?_⟩)
      fun x given hvx hr => ?_
    · rw [hread ha (hk.rely (hwv.trans hvx) hb)] at he
      cases he
    have hwx := hwv.trans hvx
    have hx := (hw.run (henv.rely hwx)).1
    have hsx : SignedOff x.db.events digest := hs.run hu (henv.rely (huv.trans hvx))
    cases given with
    | error p =>
      refine fun z _ => ⟨fun h => (by cases h),fun report ha hk hb _ _ _ => ?_⟩
      rw [hread ha (hk.rely hwx hb)] at hr
      cases hr
    | ok report =>
      obtain ⟨hdig,-,hhash,hfmt⟩ := signedOffReport_iff.mp hr
      refine ((Meets.reached ledgerWith_step (checkReport_meets report henv hx _)).mono ?_)
      rintro r _ t ⟨hxt,-,hsound,hcomplete⟩
      have hback : CheckVouches real H env digest x r t := by
        refine ⟨fun hnil => ?_,fun other ha hk hb _ hst hall => ?_⟩
        · obtain ⟨hpass,hst,hsealed⟩ := hsound hnil
          exact ⟨hsx.run hx (henv.rely hxt),report,⟨hdig,hhash,hfmt,hpass⟩,hst,hsealed⟩
        · obtain rfl := Except.ok.inj (Except.ok.inj (hr.symm.trans (hread ha hb)))
          exact hcomplete ha.passed hst hall
      exact hback.earlier henv hw hwx

end Checks

section Runs

/-- The ledger's calls, and checks of sign-offs. -/
inductive SignOffCall
  | ledger (c : LedgerCall)
  | check (report_digest : PyStr)

def SignOffCall.prog (H : Hasher) (real : PyFloat → PyStr) :
    SignOffCall → Prog World (Except Exc (List SignOffProblem))
  | .ledger c => (fun r => r.map fun _ => []) <$> c.prog H
  | .check report_digest => (checkSignOff H real report_digest).run

variable {p p' : Pool SignOffCall World (Except Exc (List SignOffProblem))} {digest : PyStr}

variable (real) in
lemma SignOffCall.meets (henv : LeavesDb env) (hw : OwnLedger H w.db) (c : SignOffCall) :
    Meets (Rules.ledgerWith H env) (LedgerStep H AnyTransition)
      (fun r _ t => ∀ digest, c = .check digest → CheckVouches real H env digest w r t) (c.prog H real) [] w := by
  cases c with
  | ledger c =>
    refine Meets.map ((c.steps (fun t ht => ⟨ht,fun _ _ => trivial⟩) [] w).mono fun _ _ _ _ d h => ?_)
    cases h
  | check d =>
    refine (checkSignOff_meets henv hw []).mono fun r _ t h d' hd => ?_
    cases hd
    exact h

lemma each_looks {α β : Type} {f : ℕ → α → Op β} (hf : ∀ i a, Ownership.Looks (f i a).run) (as : List α) (i : ℕ) :
    Ownership.Looks (each f i as).run := by
  induction as generalizing i with
  | nil => exact trivial
  | cons a as ih => exact .bindExcept (hf i a) fun _ => .bindExcept (ih (i+1)) fun _ => trivial

/-- A check leaves everything as it is. -/
lemma checkSignOff_looks (digest : PyStr) : Ownership.Looks (checkSignOff H real digest).run := by
  have lift : ∀ {α : Type} (r : Except Exc α), Ownership.Looks (Op.lift r).run := fun _ => trivial
  have query : ∀ {α : Type} (f : Db → Except Exc α), Ownership.Looks (Op.query f).run :=
    fun _ => .atomic fun _ => rfl
  have hlane : ∀ doc lane row, Ownership.Looks (recheckLane real doc lane row).run := fun doc lane row => by
    refine .bindExcept (lift _) fun id => ?_
    by_cases ht : truthy id = false
    · rw [if_pos ht]
      exact trivial
    · rw [if_neg ht]
      exact .bindExcept (query _) fun _ => lift _
  have hdoc : ∀ doc, Ownership.Looks (recheckDocument real doc).run := fun doc =>
    .bindExcept (lift _) fun lanes => .bindExcept (each_looks (fun _ p => hlane doc p.1 p.2) lanes 0) fun _ => trivial
  have hrecheck : ∀ report, Ownership.Looks (recheck H real report).run := fun report =>
    .bindExcept (lift _) fun _ => .bindExcept (query _) fun _ => .bindExcept (lift _) fun docs =>
      .bindExcept (each_looks (fun _ doc => hdoc doc) docs 0) fun _ => trivial
  refine .bindExcept (query _) fun entries => ?_
  cases (entriesOf digest entries).getLast? with
  | none => exact trivial
  | some entry =>
    refine .bindExcept (lift _) fun _ => .bindExcept (lift _) fun _ => .bindExcept (query _) fun chain => ?_
    refine .bindExcept (.atomic fun _ => rfl) fun r => ?_
    cases r with
    | error p => exact trivial
    | ok report => exact .bindExcept (lift _) fun _ => .bindExcept (hrecheck report) fun _ => trivial

/-- What calls of either kind have made of a new ledger. -/
lemma ledgerWith_reached {a : Archive} (henv : LeavesDb env)
    (h : Interleaved (SignOffCall.prog H real) env (fun _ _ => True) (World.new a) p) :
    (Rules.ledgerWith H env).rely (World.new a) p.shared ∧ OwnLedger H p.shared.db := by
  have own : ∀ {w}, (Rules.ledgerWith H env).rely (World.new a) w → OwnLedger H w.db := fun hw =>
    (ownLedger_new.run (w := World.new a) (LeavesDb.rely henv hw)).1
  have hk := h.known (R := Rules.ledgerWith H env) (fun _ _ => LedgerStep H AnyTransition) (fun _ _ _ _ _ => True)
    (fun _ _ hab => .single (Or.inr hab)) (fun _ _ _ _ hg => .single (Or.inl hg))
    fun c w hw => (SignOffCall.meets real henv (own hw) c).mono fun _ _ _ _ => trivial
  exact ⟨hk.1,own hk.1⟩

/-- Two reports that one digest stands for are one, when its bytes are the only ones. -/
lemma Accepted.unique {report other : VerificationReport} (hd : ∀ x y, H.hexdigest x = digest → H.hexdigest y = digest → x = y)
    (h : Accepted H digest report) (h' : Accepted H digest other) : report = other := by
  have hx := hd _ _ h.hash h'.hash
  have hf := h.format
  rw [hx,h'.format] at hf
  exact (Except.ok.inj (Except.ok.inj hf)).symm

/-- Once a check of a sign-off has passed, whatever calls overlap it: the chain contains the sign-off
and the head that its report states, the report says that it passed, and each record that it covers was
sealed as the report says. A check that begins later, which is what its mark says, does not pass when one
of them is no longer SEALED by then; and while all of them are and the archived report is left alone, it
passes. -/
theorem sign_off_stands (H : Hasher) (real : PyFloat → PyStr) (env : World → World → Prop) (a : Archive)
    (digest : PyStr) (p : Pool SignOffCall World (Except Exc (List SignOffProblem)))
    (p' : Pool (SignOffCall × Bool) World (Except Exc (List SignOffProblem)))
    (henv : ∀ w w', env w w' → w.db = w'.db)
    (hdigest : ∀ x y, H.hexdigest x = digest → H.hexdigest y = digest → x = y)
    (h : Interleaved (SignOffCall.prog H real) env (fun _ _ => True) (World.new a) p)
    (h' : Runs.Reaches (Step (marked (SignOffCall.prog H real)) env) (Label.Allows fun _ _ => True)
      (p.mark false) p')
    (hpassed : ∃ t ∈ p.threads, t.call = .check digest ∧ t.prog = .ret (.ok [])) :
    ∃ report, Accepted H digest report ∧ SignedOff p.shared.db.events digest ∧ report.HeadIn p.shared.db ∧
      (∀ c ∈ report.covered, WasSealed real p.shared.db c) ∧
      ∀ t ∈ p'.threads, t.call = (.check digest,true) → ∀ r, t.prog = .ret r →
        ((∃ c ∈ report.covered, ¬SealedAs real p.shared.db c) → r ≠ .ok []) ∧
        (KeepsReport env digest report.canonical → p.shared.archive.blobs digest = some report.canonical →
          (∀ c ∈ report.covered, SealedAs real p'.shared.db c) → r = .ok []) := by
  have henv' : ∀ a b, env a b → (Rules.ledgerWith H env).rely a b := fun _ _ hab => .single (Or.inr hab)
  have hG : ∀ b b', LedgerStep H AnyTransition b b' → (Rules.ledgerWith H env).rely b b' := fun _ _ hg =>
    .single (Or.inl hg)
  have own : ∀ {w}, (Rules.ledgerWith H env).rely (World.new a) w → OwnLedger H w.db := fun hw =>
    (ownLedger_new.run (w := World.new a) (LeavesDb.rely henv hw)).1
  have hk := h.known (R := Rules.ledgerWith H env) (fun _ _ => LedgerStep H AnyTransition)
    (fun c start r _ w => OwnLedger H start.db ∧ ∀ d, c = .check d → CheckVouches real H env d start r w)
    henv' (fun _ _ => hG) fun c w hw => (SignOffCall.meets real henv (own hw) c).mono fun _ _ _ hr => ⟨own hw,hr⟩
  have hp := own hk.1
  -- what the check that passed has seen
  obtain ⟨t,ht,hcall,hret⟩ := hpassed
  have hm := (hk.2 t ht).meets
  rw [hret] at hm
  obtain ⟨hstart,hv⟩ := hm p.shared ((Rules.ledgerWith H env).refl _)
  obtain ⟨hsigned,report,hacc,hst,hsealed⟩ := (hv digest hcall).sound rfl
  have hwas : ∀ c ∈ report.covered, WasSealed real p.shared.db c := by
    intro c hc
    obtain ⟨u,htu,hup,hu⟩ := hsealed c hc
    have hou := (hstart.run (LeavesDb.rely henv htu)).1
    exact (hu.was hou).run hou (LeavesDb.rely henv hup)
  obtain ⟨anchor,hanchor,hholds⟩ := hst.head
  refine ⟨report,hacc,hsigned,⟨anchor,hanchor,hholds.anchorIn hp.consistent.chained⟩,hwas,?_⟩
  -- what later checks come to, counted from here
  have hk' := knownFrom (R := Rules.ledgerWith H env) h' (fun _ _ => LedgerStep H AnyTransition)
    (fun c _ r _ w => c = (.check digest,true) → CheckVouches real H env digest p.shared r w) henv'
    (fun _ _ => hG) ?_ ?_
  · intro t ht hcall r hret
    have hm := (hk'.2 t ht).meets
    rw [hret] at hm
    have hv := hm p'.shared ((Rules.ledgerWith H env).refl _) hcall
    refine ⟨?_,fun hkeep hb hall => ?_⟩
    · rintro ⟨c,hc,hnot⟩ hnil
      obtain ⟨-,other,hacc',-,hsealed'⟩ := hv.sound hnil
      obtain rfl := hacc.unique hdigest hacc'
      obtain ⟨u,hpu,-,hu⟩ := hsealed' c hc
      exact hnot ((hwas c hc).between hp .refl (LeavesDb.rely henv hpu) hu)
    · exact hv.complete report hacc hkeep hb hsigned hst fun c hc => ⟨hwas c hc,hall c hc⟩
  · intro c w hw
    have hcw := own (hk.1.trans hw)
    refine (SignOffCall.meets real henv hcw c.1).mono fun r _ t hr hc => ?_
    exact (hr digest (congrArg Prod.fst hc)).earlier henv hp hw
  · -- what was under way has the other mark
    intro t ht
    obtain ⟨u,hu,rfl⟩ := List.mem_map.mp ht
    refine ⟨(hk.2 u hu).start,(hk.2 u hu).own,(hk.2 u hu).meets.mono fun _ _ _ _ hc => ?_⟩
    cases congrArg Prod.snd hc

lemma fromCanonical_canonical {kvs : List (PyKey × PyVal)} {data : Bytes}
    (hi : canonicalImage (.dict kvs) = .dict kvs) (h : canonicalJson (.dict kvs) = .ok data)
    (hs : (getItem kvs (lit "schema")).pyEq (.str (lit "stele.verification-report")) = true)
    (hv : (getItem kvs (lit "schema_version")).pyEq (.int 1) = true)
    (hk : reportKeys.find? (fun key => (PyVal.find kvs (.str (lit key))).isNone) = none) :
    VerificationReport.fromCanonical data = .ok (.ok ⟨.dict kvs,data⟩) := by
  obtain ⟨t,ht,rfl⟩ := canonicalJson_ok.mp h
  have hl : (decode (utf8 t)).bind loads = some (.dict kvs) := by
    rw [decode_utf8 (canonicalText_ok.mp ht).2,Option.bind_some,loads_canonicalText ht,hi]
  unfold VerificationReport.fromCanonical
  rw [hl]
  dsimp only
  rw [if_neg (by simp [hs,hv]),hk]
  simp [h,Except.map]

lemma marking_accepted {v : PyVal} {data : Bytes} (hf : VerificationReport.fromCanonical data = .ok (.ok ⟨v,data⟩))
    (hp : (itemAt v "passed").map truthy = .ok true) : Accepted (.marking data) markedDigest ⟨v,data⟩ :=
  ⟨by decide,marking_self data,hf,hp⟩

lemma report_facts {v : PyVal} {data : Bytes} {covered : List (PyVal × PyVal)} {P : Db → Prop}
    (ha : Accepted H digest ⟨v,data⟩) (hc : VerificationReport.covered ⟨v,data⟩ = covered)
    (hs : ∀ db, P db → VerificationReport.Stands ⟨v,data⟩ db) :
    ∃ report : VerificationReport, Accepted H digest report ∧ report.canonical = data ∧ report.covered = covered ∧
      ∀ db, P db → report.Stands db := ⟨_,ha,rfl,hc,hs⟩

/-- A sign-off event is logged, or nothing is. -/
lemma signOff_logged (H : Hasher) (real : PyFloat → PyStr) (e : Env) (s : SignOffArgs) (w : World) :
    (((SignOffCall.ledger (.signOff e s)).prog H real).run w).2 = w ∨
      SignedOff (((SignOffCall.ledger (.signOff e s)).prog H real).run w).2.db.events s.reportDigest := by
  have hrun : (((SignOffCall.ledger (.signOff e s)).prog H real).run w).2 =
      {w with db := (writeTransaction (signOffTx H e s) w.db).2} := rfl
  rw [hrun]
  rcases writeTransaction_cases (signOffTx H e s) w.db with ⟨_,db,hb,hw⟩ | ⟨_,_,hw⟩
  · obtain ⟨ev,rfl,hl⟩ := signOffTx_ok hb
    rw [hw]
    exact Or.inr ⟨ev,List.mem_append_right _ (List.mem_singleton_self _),hl.kind,s,rfl,hl.loads⟩
  · rw [hw]
    exact Or.inl rfl

/-- The world after these calls, one after the other. -/
def afterCalls (H : Hasher) (cs : List SignOffCall) (w : World) : World :=
  cs.foldl (fun w c => ((c.prog H fun _ => []).run w).2) w

lemma afterCalls_concat (H : Hasher) (cs : List SignOffCall) (c : SignOffCall) (w : World) :
    afterCalls H (cs++[c]) w = ((c.prog H fun _ => []).run (afterCalls H cs w)).2 := by
  rw [afterCalls,List.foldl_append]
  rfl

lemma afterCalls_one (H : Hasher) (c : SignOffCall) (w : World) :
    afterCalls H [c] w = ((c.prog H fun _ => []).run w).2 := rfl

lemma afterCalls_reached (H : Hasher) (a : Archive) (cs : List SignOffCall) : ∃ ts,
    Interleaved (SignOffCall.prog H fun _ => []) (fun w w' => w = w') (fun _ _ => True) (World.new a)
      ⟨afterCalls H cs (World.new a),ts⟩ := by
  induction cs using List.reverseRecOn with
  | nil => exact ⟨[],Relation.ReflTransGen.refl⟩
  | append_singleton cs c ih =>
    obtain ⟨ts,h⟩ := ih
    obtain ⟨own,h⟩ := h.call c
    rw [afterCalls,List.foldl_append]
    exact ⟨_,h⟩

/-- The sample record's artifact_hash. -/
def markedHash : PyStr := hexDigits 64 0x0660438e500b812848eaecdab787a1e73f3c28ac07c7173f5d368c61b4f86d7c

/-- The hash of the event that seals it. -/
def markedHead : PyStr := hexDigits 64 0x0fb4cfdd7fdd3a5d7f4ece97f59fda4a19da7ffba6cc37bbb1d26df2b653f8a3

/-- A report on the sample record, at the event that seals it. -/
def markedReport : PyVal :=
  .dict [(.str (lit "baseline"),.none),(.str (lit "corpus"),.none),
    (.str (lit "documents"),.list [.dict [(.str (lit "lanes"),.dict [(.str (lit "l"),.dict
      [(.str (lit "artifact_hash"),.str markedHash),
        (.str (lit "record_id"),.str (lit "r1"))])])]]),
    (.str (lit "gates"),.list []),(.str (lit "lanes"),.none),(.str (lit "ledger"),.dict [(.str (lit "head"),.dict
      [(.str (lit "hash"),.str markedHead),(.str (lit "seq"),.int 2)])]),
    (.str (lit "parser"),.none),(.str (lit "passed"),.bool true),
    (.str (lit "schema"),.str (lit "stele.verification-report")),(.str (lit "schema_version"),.int 1),
    (.str (lit "summary"),.none),(.str (lit "waivers"),.none)]

def markedBytes : Bytes := (canonicalJson markedReport).toOption.getD []

def reportHasher : Hasher := .marking markedBytes

/-- An archive of one blob. -/
def Archive.holding (digest : PyStr) (data : Bytes) : Archive :=
  {Archive.empty with blobs := fun d => if d = digest then some data else none}

lemma holding_blob (digest : PyStr) (data : Bytes) : (Archive.holding digest data).blobs digest = some data := if_pos rfl

/-- The archived report, and no ledger yet. -/
def reportArchive : Archive := .holding markedDigest markedBytes

def markedSignOff : SignOffArgs := ⟨markedDigest,lit "c",.none,.none,.none,.none,.none,.none,0,lit "s",[]⟩

/-- The record is made and sealed, and then the report signed off. -/
def recordingCalls : List SignOffCall :=
  [.ledger (.createPending sampleEnv samplePending),.ledger (.sealRecord sampleEnv (lit "r1"))]

def signingCalls : List SignOffCall := recordingCalls++[.ledger (.signOff sampleEnv markedSignOff)]

def signedSample : World := afterCalls reportHasher signingCalls (World.new reportArchive)

/-- The record is invalidated. -/
def staleSample : World := afterCalls reportHasher [.ledger (.invalidate sampleEnv (lit "r1") (lit "bad"))] signedSample

/-- What a check finds. -/
def checkSample (w : World) : Except Exc (List SignOffProblem) :=
  (((SignOffCall.check markedDigest).prog reportHasher fun _ => []).run w).1

lemma checkSample_eq (w : World) :
    checkSample w = (((SignOffCall.check markedDigest).prog reportHasher fun _ => []).run w).1 := rfl

/-- What the calls have made of the record and of the chain. -/
lemma sample_facts : (signedSample.db.records.map fun r => (r.recordId,r.artifactHash,r.state)) =
      [(.text (lit "r1"),.text markedHash,.text ArtifactState.sealed.value)] ∧
    signedSample.db.events.length = 3 ∧
    (afterCalls reportHasher recordingCalls (World.new reportArchive)).db.events.length = 2 ∧
    staleSample.db.records.map RecordRow.state = [.text ArtifactState.invalidated.value] ∧
    (2,.text markedHead) ∈ signedSample.db.events.map fun r => (r.seq,r.hash) := by decide +kernel

lemma markedBytes_canonical : canonicalJson markedReport = .ok markedBytes := by
  have hok : (canonicalJson markedReport).toOption.isSome = true := by decide +kernel
  unfold markedBytes
  cases h : canonicalJson markedReport with
  | error e =>
    rw [h] at hok
    cases hok
  | ok data => rfl

lemma markedReport_image : canonicalImage markedReport = markedReport := rfl

lemma markedReport_format :
    VerificationReport.fromCanonical markedBytes = .ok (.ok ⟨markedReport,markedBytes⟩) :=
  fromCanonical_canonical markedReport_image markedBytes_canonical (by decide +kernel) (by decide +kernel)
    (by decide +kernel)

lemma markedReport_passed : (itemAt markedReport "passed").map truthy = .ok true := rfl

lemma markedReport_accepted : Accepted reportHasher markedDigest ⟨markedReport,markedBytes⟩ :=
  marking_accepted markedReport_format markedReport_passed

lemma markedReport_covered :
    VerificationReport.covered ⟨markedReport,markedBytes⟩ = [(.str (lit "r1"),.str markedHash)] := rfl

/-- The chain contains the report's head. -/
def Db.HasHead (db : Db) : Prop :=
  Chained reportHasher db.events ∧ (2,.text markedHead) ∈ db.events.map fun r => (r.seq,r.hash)

lemma markedReport_stands (db : Db) (h : db.HasHead) : VerificationReport.Stands ⟨markedReport,markedBytes⟩ db where
  head := by
    obtain ⟨hc,hhead⟩ := h
    obtain ⟨r,hr,he⟩ := List.mem_map.mp hhead
    obtain ⟨hseq,hhash⟩ := Prod.mk.inj he
    have hin := entry_anchored hc hr
    rw [hseq,hhash] at hin
    exact ⟨some (.int 2,.str markedHead),rfl,hin⟩
  documents := ⟨_,rfl⟩
  rows := by
    intro doc hdoc
    obtain rfl := List.mem_singleton.mp hdoc
    refine ⟨⟨_,rfl⟩,fun p hp => ?_⟩
    obtain rfl := List.mem_singleton.mp hp
    exact ⟨_,rfl⟩

/-- The report, its bytes not spelled out. -/
lemma markedReport_facts : ∃ report : VerificationReport, Accepted reportHasher markedDigest report ∧
    report.canonical = markedBytes ∧ report.covered = [(.str (lit "r1"),.str markedHash)] ∧
    ∀ db, Db.HasHead db → report.Stands db :=
  report_facts markedReport_accepted markedReport_covered markedReport_stands

/-- The world after the sign-off, not spelled out. -/
lemma signed_run : ∃ w ts, w = signedSample ∧ Interleaved (SignOffCall.prog reportHasher fun _ => [])
      (fun w w' => w = w') (fun _ _ => True) (World.new reportArchive) ⟨w,ts⟩ ∧
    SignedOff w.db.events markedDigest := by
  obtain ⟨ts,h⟩ := afterCalls_reached reportHasher reportArchive signingCalls
  refine ⟨signedSample,ts,rfl,h,?_⟩
  obtain ⟨-,hevents,hbefore,-⟩ := sample_facts
  have hsigned := afterCalls_concat reportHasher recordingCalls (.ledger (.signOff sampleEnv markedSignOff))
    (World.new reportArchive)
  change signedSample = _ at hsigned
  rcases signOff_logged reportHasher (fun _ => []) sampleEnv markedSignOff
    (afterCalls reportHasher recordingCalls (World.new reportArchive)) with hsame | hs
  · rw [hsigned,hsame,hbefore] at hevents
    cases hevents
  · exact hsigned ▸ hs

/-- The first check passes: the record is SEALED as the report says. -/
lemma checkSample_signed : checkSample signedSample = .ok [] := by
  obtain ⟨w,ts,hw,h,hsigned⟩ := signed_run
  have hrecords := sample_facts.1
  have hhead := sample_facts.2.2.2.2
  rw [← hw] at hrecords hhead ⊢
  have henv : LeavesDb (fun w w' : World => w = w') := fun _ _ he => congrArg World.db he
  have hkeep : KeepsReport (fun w w' => w = w') markedDigest markedBytes := fun _ _ he hb => he ▸ hb
  obtain ⟨hrely,hown⟩ := ledgerWith_reached henv h
  obtain ⟨-,own,hq⟩ := Meets.run (fun a b hg => ledgerWith_step a b hg trivial) (fun _ _ => trivial)
    (SignOffCall.meets (fun _ => []) henv hown (.check markedDigest))
  have hlook : (((SignOffCall.check markedDigest).prog reportHasher fun _ => []).run w).2 = w :=
    (checkSignOff_looks markedDigest).run w
  rw [hlook] at hq
  obtain ⟨report,haccepted,hbytes,hcovered,hstands⟩ := markedReport_facts
  rw [← hbytes] at hkeep
  refine (hq markedDigest rfl).complete report haccepted hkeep (hkeep.rely hrely ?_) hsigned
    (hstands _ ⟨hown.consistent.chained,hhead⟩) fun c hc => ?_
  · rw [hbytes]
    exact holding_blob markedDigest markedBytes
  have hsealed : SealedAs (fun _ => []) w.db c := by
    rw [hcovered,List.mem_singleton] at hc
    obtain ⟨r,hr,he⟩ := List.mem_map.mp (hrecords ▸ List.mem_singleton_self _)
    obtain ⟨hid,he⟩ := Prod.mk.inj he
    obtain ⟨hhash,hstate⟩ := Prod.mk.inj he
    subst hc
    exact ⟨r,⟨hr,⟨_,rfl,hid⟩,by simp [hhash,TextCell.toPy,PyVal.pyEq]⟩,hstate⟩
  exact ⟨hsealed.was hown,hsealed⟩

theorem sign_off_stands_stale : checkSample signedSample = .ok [] ∧ checkSample staleSample ≠ .ok [] := by
  refine ⟨checkSample_signed,?_⟩
  have hpassed := checkSample_signed
  obtain ⟨-,-,-,hstate,-⟩ := sample_facts
  obtain ⟨w,ts,hw,h,-⟩ := signed_run
  have hstale : staleSample = (((SignOffCall.ledger (.invalidate sampleEnv (lit "r1") (lit "bad"))).prog reportHasher
      fun _ => []).run w).2 := by
    rw [hw,staleSample]
    exact afterCalls_one reportHasher _ _
  rw [← hw] at hpassed
  have hlook : (((SignOffCall.check markedDigest).prog reportHasher fun _ => []).run w).2 = w :=
    (checkSignOff_looks markedDigest).run w
  rw [checkSample_eq] at hpassed ⊢
  generalize staleSample = w' at hstale hstate ⊢
  obtain ⟨own,h⟩ := h.call (.check markedDigest)
  rw [hlook] at h
  obtain ⟨own',h⟩ := h.call (.ledger (.invalidate sampleEnv (lit "r1") (lit "bad")))
  rw [← hstale] at h
  obtain ⟨own'',h'⟩ := Pool.call (marked (SignOffCall.prog reportHasher fun _ => [])) (fun w w' => w = w')
    w' _ (.check markedDigest,true)
  obtain ⟨report,hacc,-,-,-,hlater⟩ := sign_off_stands reportHasher (fun _ => []) (fun w w' => w = w') _ markedDigest
    _ _ (fun w w' h => congrArg World.db h) (marking_oneContent _)
    h h' ⟨_,List.mem_cons_of_mem _ List.mem_cons_self,rfl,congrArg Prog.ret hpassed⟩
  obtain ⟨report',haccepted,-,hcovered,-⟩ := markedReport_facts
  obtain rfl := hacc.unique (marking_oneContent _) haccepted
  refine (hlater _ List.mem_cons_self rfl _ rfl).1 ⟨_,hcovered ▸ List.mem_singleton_self _,?_⟩
  rintro ⟨r,hr,hsealed⟩
  have hinvalid : r.state = .text ArtifactState.invalidated.value :=
    List.mem_singleton.mp (hstate ▸ List.mem_map_of_mem hr.mem)
  rw [hinvalid] at hsealed
  exact absurd (ArtifactState.value_inj.mp (TextCell.text.inj hsealed)) (by decide)

end Runs

end Stele
