import Stele.Ledger.Bundles
import Stele.Ledger.StateMachine

/-! SEALED means archived: from the moment that a record is sealed, its bundle can be read from the
archive, whatever becomes of the files that it was taken from. -/
namespace Stele
open Python Interleaving

variable {H : Hasher} {env : World → World → Prop} {w w' v : World} {a b : Archive} {db : Db} {r r' : RecordRow}

/-- The bundle that the row names is in the archive. -/
def RecordRow.Archived (H : Hasher) (a : Archive) (r : RecordRow) : Prop :=
  ∃ hash m, r.artifactHash = .text hash ∧ loadsColumn r.artifactManifest = .ok (Manifest.toPy m) ∧
    (Dict.keys m).Nodup ∧ BundleArchived H a hash m

/-- A record.sealed of the record has been logged. -/
def EverSealed (db : Db) (r : RecordRow) : Prop :=
  ∃ id, r.recordId = .text id ∧ sealedKind ∈ (recordEvents db id).map EventRow.kind

/-- Only a record whose bundle is in the archive is sealed. -/
def SealsArchived (H : Hasher) (w : World) (id : PyStr) (t : Transition) : Prop :=
  t.toState = .sealed → ∀ r ∈ w.db.records, r.recordId = .text id → r.Archived H w.archive

/-- Every record that was ever sealed has its bundle in the archive. -/
structure Archiving (H : Hasher) (w : World) : Prop where
  consistent : Consistent H w.db
  history : HistoryHolds w.db
  archived : ∀ r ∈ w.db.records, EverSealed w.db r → r.Archived H w.archive

lemma archiving_new (a : Archive) : Archiving H (World.new a) :=
  ⟨consistent_new,⟨by simp [World.new,Db.new],fun id h => absurd rfl h⟩,by simp [World.new,Db.new]⟩

lemma RecordRow.Archived.becomes (h : r.Archived H a) (hr : r.Becomes r') (hg : a.Grows b) : r'.Archived H b := by
  obtain ⟨hash,m,hh,hm,hk,hb⟩ := h
  obtain ⟨_,_,_,rfl⟩ := hr.kept
  exact ⟨hash,m,hh,hm,hk,hb.grows hg⟩

lemma EverSealed.of_sealed (hh : HistoryHolds db) (hr : r ∈ db.records)
    (hs : r.state = .text ArtifactState.sealed.value) : EverSealed db r := by
  obtain ⟨id,s,hid,hst,hist⟩ := hh.rows r hr
  obtain rfl := ArtifactState.value_inj.mp (TextCell.text.inj (hs.symm.trans hst))
  refine ⟨id,hid,?_⟩
  generalize (recordEvents db id).map EventRow.kind = ks at hist
  cases hist
  exact List.mem_cons_of_mem _ List.mem_cons_self

section Steps

variable {P : World → PyStr → Transition → Prop}

lemma LedgerStep.grows (h : LedgerStep H P w w') : w.archive.Grows w'.archive := by
  cases h with
  | archive h => exact h
  | _ => exact .refl _

/-- A step logs record.sealed only with a transition that seals. -/
lemma LedgerStep.seals {id : PyStr} (hc : Consistent H w.db) (h : LedgerStep H P w w')
    (hs : sealedKind ∈ (recordEvents w'.db id).map EventRow.kind) :
    sealedKind ∈ (recordEvents w.db id).map EventRow.kind ∨
      (∃ r ∈ w.db.records, r.recordId = .text id) ∧ ∃ t, t.toState = .sealed ∧ P w id t := by
  have other : ∀ {db' : Db} {ev : EventRow} {kind subject : PyStr} {body : PyVal},
      ev.Logs H w.db.events kind subject body → db'.events = w.db.events++[ev] → sealedKind ≠ .text kind →
      sealedKind ∈ (recordEvents db' id).map EventRow.kind →
      sealedKind ∈ (recordEvents w.db id).map EventRow.kind := by
    intro db' ev kind subject body hl he hk hm
    rw [recordEvents_logs hc.chained hl db' he] at hm
    split_ifs at hm
    · rw [List.map_append,List.mem_append] at hm
      refine hm.resolve_right fun hm => ?_
      rw [List.map_singleton,List.mem_singleton,hl.kind] at hm
      exact hk hm
    · rwa [List.append_nil] at hm
  cases h with
  | stay => exact Or.inl hs
  | archive => exact Or.inl hs
  | create hrow ht =>
    obtain ⟨r,body,ev,-,-,rfl,hl,-⟩ := createTx_ok ht
    exact Or.inl (other hl rfl (by decide) hs)
  | opened ht =>
    obtain rfl | ⟨at',ev,rfl,hl,-⟩ := openTx_ok ht
    · exact Or.inl hs
    · exact Or.inl (other hl rfl (by decide) hs)
  | event ht =>
    obtain ⟨row,ev,-,rfl,hl,-⟩ := insertTx_ok ht
    exact Or.inl (other hl rfl (by decide) hs)
  | replay ht =>
    obtain ⟨row,ev,-,rfl,hl,-⟩ := replayTx_ok ht
    exact Or.inl (other hl rfl (by decide) hs)
  | signOff ht =>
    obtain ⟨ev,rfl,hl⟩ := signOffTx_ok ht
    exact Or.inl (other hl rfl (by decide) hs)
  | @move e id' t b db' ht hp htx =>
    obtain ⟨-,rfl,-⟩ | ⟨-,finalizedAt,error,ev,-,rfl,hl,r,hr,ha⟩ := transitionTx_ok hc.uniqueIds htx
    · exact Or.inl hs
    have hrid := (RecordRow.admits_iff.mp ha).1
    cases ht with
    | failed => exact Or.inl (other hl rfl (show sealedKind ≠ failedKind by decide) hs)
    | invalidated => exact Or.inl (other hl rfl (show sealedKind ≠ invalidatedKind by decide) hs)
    | «sealed» hash =>
      rw [recordEvents_logs hc.chained hl _ rfl] at hs
      split_ifs at hs with hid
      · obtain ⟨rfl,-⟩ := hid
        exact Or.inr ⟨⟨r,hr,hrid⟩,_,rfl,hp⟩
      · rw [List.append_nil] at hs
        exact Or.inl hs

/-- Every action of every call keeps what was sealed in the archive. -/
theorem Archiving.step (h : Archiving H w) (hs : LedgerStep H (SealsArchived H) w w') : Archiving H w' := by
  have hc := h.consistent.step hs
  obtain ⟨hh,he⟩ := hs.history h.consistent h.history
  refine ⟨hc,hh,fun r' hr' hsealed => ?_⟩
  obtain ⟨id,hid,hk⟩ := hsealed
  have since : ∀ r ∈ w.db.records, r.recordId = .text id → r.Archived H w.archive → r'.Archived H w'.archive := by
    intro r hr hrid harch
    obtain ⟨q,hq,hb⟩ := he.rows r hr
    have hqid : q.recordId = .text id := by
      obtain ⟨_,_,_,rfl⟩ := hb.kept
      exact hrid
    obtain rfl := hc.uniqueIds.eq hq hr' hqid hid
    exact harch.becomes hb hs.grows
  rcases hs.seals h.consistent hk with hk | ⟨⟨r,hr,hrid⟩,t,ht,hp⟩
  · obtain ⟨r,hr,hrid⟩ := h.history.events id fun hnil => by rw [hnil] at hk; cases hk
    exact since r hr hrid (h.archived r hr ⟨id,hrid,hk⟩)
  · exact since r hr hrid (hp ht r hr hrid)

end Steps

section Runs

/-- The others' steps, and what happens to the archive meanwhile. -/
def Rules.archiving (H : Hasher) (env : World → World → Prop) : Rules World where
  rely := Relation.ReflTransGen fun w w' => LedgerStep H (SealsArchived H) w w' ∨ env w w'
  allowed _ _ := True
  refl _ := .refl
  trans h h' := h.trans h'

/-- Nothing outside changes the ledger, or what is published. -/
def LeavesArchived (env : World → World → Prop) : Prop :=
  ∀ w w', env w w' → w.db = w'.db ∧ w.archive.Grows w'.archive

lemma archiving_step (w w' : World) (h : LedgerStep H (SealsArchived H) w w') (_ : (Rules.archiving H env).allowed w w') :
    (Rules.archiving H env).rely w w' := .single (Or.inl h)

lemma LeavesArchived.ledger (henv : LeavesArchived env) (h : (Rules.archiving H env).rely w w') :
    (Rules.ledger H (SealsArchived H)).rely w w' := by
  induction h with
  | refl => exact .refl
  | tail _ hs ih => exact ih.tail (hs.imp id fun he => (henv _ _ he).1)

lemma LeavesArchived.grows (henv : LeavesArchived env) (h : (Rules.archiving H env).rely w w') :
    w.archive.Grows w'.archive := by
  induction h with
  | refl => exact .refl _
  | tail _ hs ih =>
    rcases hs with hs | hs
    · exact ih.trans hs.grows
    · exact ih.trans (henv _ _ hs).2

lemma Archiving.run (henv : LeavesArchived env) (h : Archiving H w) (hr : (Rules.archiving H env).rely w w') :
    Archiving H w' := by
  induction hr with
  | refl => exact h
  | tail _ hs ih =>
    rcases hs with hs | hs
    · exact ih.step hs
    · obtain ⟨hdb,hg⟩ := henv _ _ hs
      refine ⟨hdb ▸ ih.consistent,hdb ▸ ih.history,fun r hr hsealed => ?_⟩
      rw [← hdb] at hr hsealed
      exact (ih.archived r hr hsealed).becomes (.refl r) hg

section Calls

variable {α : Type} {id : PyStr} {own : List (World × World)} {e : Env}

/-- A transition that may be made whenever its turn comes. -/
lemma transition_yields {R : Rules World} {P : World → PyStr → Transition → Prop} {t : Transition}
    (hG : ∀ a b, LedgerStep H P a b → R.allowed a b → R.rely a b) (ht : IsTransition t)
    (hp : ∀ u, R.rely w u → P u id t) :
    Yields R (LedgerStep H P) (fun _ _ _ => True) (LedgerStore.transition H e id t) own w := by
  refine Yields.bind (V := fun _ _ _ => True) hG ?_ fun b own' u _ _ _ => ?_
  · refine Meets.atomic fun u hu _ => ⟨?_,fun _ _ _ _ => trivial⟩
    rcases writeTransaction_cases (transitionTx H e id t) u.db with ⟨b,db,hb,hw⟩ | ⟨exc,_,hw⟩
    · rw [hw]
      exact .move ht (hp u hu) hb
    · rw [hw]
      exact .stay u
  · refine .ite (fun _ => ?_) fun _ => .pure fun _ _ => trivial
    exact Acts.bind (.query .stay) (fun _ _ => .throw _) own' u

/-- The rows of a record name this bundle. -/
def NamesBundle (db : Db) (id hash : PyStr) (m : Manifest) : Prop :=
  ∀ r ∈ db.records, r.recordId = .text id → r.artifactHash = .text hash ∧
    loadsColumn r.artifactManifest = .ok m.toPy

/-- A record that was read names the bundle that its row goes on naming. -/
lemma getRecord_names {record : ArtifactRecord} (hc : Consistent H db) (h : getRecord id db = .ok record) :
    ∃ hash m, record.artifactHash = .text hash ∧ record.artifactManifest = Manifest.toPy m ∧
      (Dict.keys m).Nodup ∧ ∀ db', Consistent H db' → Evolves db db' → NamesBundle db' id hash m := by
  obtain ⟨_,_,h⟩ := except_bind_ok.mp h
  cases hf : findRecord db id with
  | none => rw [hf] at h; cases h
  | some q =>
    rw [hf] at h
    have hq := List.mem_of_find?_eq_some hf
    have hqid : q.recordId = .text id := by simpa using List.find?_some hf
    obtain ⟨d,hd⟩ := hc.holds hq
    obtain rfl := Except.ok.inj (hd.rowToRecord.symm.trans h)
    refine ⟨d.artifactHash,d.manifest,hd.artifactHash,rfl,hd.paths,fun db' hc' he r hr hid => ?_⟩
    obtain ⟨q',hq',hb⟩ := he.rows q hq
    obtain ⟨_,_,_,rfl⟩ := hb.kept
    obtain rfl := hc'.uniqueIds.eq hr hq' hid hqid
    obtain ⟨t,ht,hl⟩ := hd.artifactManifest
    exact ⟨hd.artifactHash,by simp [ht,loadsColumn,hl]⟩

lemma archiveRecord_ok {reads : Reads} {record : ArtifactRecord} {hash : PyStr} {m : Manifest}
    (hh : record.artifactHash = .text hash) (hm : record.artifactManifest = m.toPy) (hk : (Dict.keys m).Nodup)
    (h : (archiveRecord H reads record a).1 = .ok ()) :
    BundleArchived H (archiveRecord H reads record a).2 hash m := by
  unfold archiveRecord at h ⊢
  rw [hh,hm] at h ⊢
  cases hd : record.artifactDir with
  | text dir =>
    rw [hd] at h
    exact archiveBundle_ok hk (Prod.ext h rfl)
  | _ => rw [hd] at h; cases h

/-- seal archives the bundle of the record that it read before it seals. -/
lemma seal_archiving (henv : LeavesArchived env) (hw : Archiving H w) :
    Meets (Rules.archiving H env) (LedgerStep H (SealsArchived H)) (fun _ _ _ => True)
      (LedgerStore.seal H e id).outcome own w := by
  have hG := @archiving_step H env
  suffices h : Yields (Rules.archiving H env) (LedgerStep H (SealsArchived H)) (fun _ _ _ => True)
      (LedgerStore.seal H e id) own w from Meets.map (Meets.mono h fun _ _ _ _ => trivial)
  unfold LedgerStore.seal
  refine Yields.bind hG (V := fun record _ u => ∃ hash m, record.artifactHash = .text hash ∧
    record.artifactManifest = Manifest.toPy m ∧ (Dict.keys m).Nodup ∧
      ∀ v, (Rules.archiving H env).rely u v → NamesBundle v.db id hash m) ?_ ?_
  · refine Meets.atomic fun u hu _ => ⟨.stay u,fun t hut record hread => ?_⟩
    have hu := hw.run henv hu
    obtain ⟨hash,m,hh,hm,hk,hnames⟩ := getRecord_names hu.consistent hread
    refine ⟨hash,m,hh,hm,hk,fun v htv => ?_⟩
    have huv := henv.ledger ((Rules.archiving H env).trans hut htv)
    exact hnames v.db (hu.consistent.run huv) (Rules.ledger_history hu.consistent hu.history huv).2
  rintro record own' u - - ⟨hash,m,hh,hm,hk,hnames⟩
  refine .refuse fun _ => ?_
  refine Yields.bind hG (V := fun _ _ v => BundleArchived H v.archive hash m) ?_ fun _ own'' v huv _ harch => ?_
  · refine Meets.atomic fun v _ _ => ⟨.archive (archiveRecord_grows _ _ _),fun t hvt _ hok => ?_⟩
    exact (archiveRecord_ok hh hm hk hok).grows (henv.grows hvt)
  refine Yields.bind hG (V := fun _ _ _ => True) ?_ fun _ _ _ _ _ _ => Acts.query .stay _ _
  refine transition_yields hG (.sealed _) fun t hvt _ r hr hid => ?_
  obtain ⟨hrh,hrm⟩ := hnames t ((Rules.archiving H env).trans huv hvt) r hr hid
  exact ⟨hash,m,hrh,hrm,hk,harch.grows (henv.grows hvt)⟩

/-- Every call seals only what is in the archive. -/
theorem LedgerCall.archiving (henv : LeavesArchived env) (hw : Archiving H w) (c : LedgerCall) :
    Meets (Rules.archiving H env) (LedgerStep H (SealsArchived H)) (fun _ _ _ => True) (c.prog H) own w := by
  have hfail : ∀ error, Admits (SealsArchived H) (failTransition error) :=
    fun error => ⟨.failed error,fun _ _ h => by cases h⟩
  have hinvalidate : ∀ note, Admits (SealsArchived H) (invalidateTransition note) :=
    fun note => ⟨.invalidated note,fun _ _ h => by cases h⟩
  cases c with
  | sealRecord e id => exact seal_archiving henv hw
  | createPending e a => exact (createPending_acts e a).outcome own w
  | fail e id error => exact (fail_acts hfail e id error).outcome own w
  | invalidate e id note => exact (invalidate_acts hinvalidate e id note).outcome own w
  | openDelivery e id target => exact (openDelivery_acts e id target).outcome own w
  | append e id a => exact (append_acts e id a).outcome own w
  | appendIntent e id chunks => exact (appendIntent_acts e id chunks).outcome own w
  | appendUnwrittenFailure e id error => exact (append_acts e id _).outcome own w
  | replay e r => exact Acts.outcome (.transaction .stay fun _ _ _ h => .replay h) own w
  | signOff e s => exact Acts.outcome (.transaction .stay fun _ _ _ h => .signOff h) own w

end Calls

/-- Whatever calls overlap, and whatever the disk gives them: once a record is sealed, its row keeps
naming one bundle, whose files the archive gives, the same bytes at any later time; and the archived
tree lists just these files, so that verify_archived_bundle succeeds, unless other bytes have the
record's artifact_hash. -/
theorem sealed_archived (H : Hasher) (env : World → World → Prop) (a : Archive)
    (p p' : Pool LedgerCall World (Except Exc Unit))
    (henv : ∀ w w', env w w' → w.db = w'.db ∧ w.archive.Grows w'.archive)
    (h : Interleaved (LedgerCall.prog H) env (fun _ _ => True) (World.new a) p)
    (h' : Runs.Reaches (Step (LedgerCall.prog H) env) (Label.Allows fun _ _ => True) p p') :
    ∀ r ∈ p.shared.db.records, r.state = .text ArtifactState.sealed.value ∨ EverSealed p.shared.db r →
      ∃ r' ∈ p'.shared.db.records, ∃ hash m, r'.recordId = r.recordId ∧ r'.artifactHash = .text hash ∧
        r.artifactHash = .text hash ∧ loadsColumn r'.artifactManifest = .ok (Manifest.toPy m) ∧
        (∀ q ∈ m, ∃ data, p.shared.archive.read H q.2 = .ok data ∧ p'.shared.archive.read H q.2 = .ok data) ∧
        (OneContent H hash → verifyArchivedBundle H p'.shared.archive hash m.toPy = .ok ()) := by
  have hops : ∀ c w, (Rules.archiving H env).rely (World.new a) w → Meets (Rules.archiving H env)
      (LedgerStep H (SealsArchived H)) (fun _ _ _ => True) (LedgerCall.prog H c) [] w :=
    fun c w hw => c.archiving henv ((archiving_new a).run henv hw)
  have hG : ∀ (_ : LedgerCall) (_ b b' : World), LedgerStep H (SealsArchived H) b b' →
      (Rules.archiving H env).rely b b' := fun _ _ _ _ hs => .single (Or.inl hs)
  have henv' : ∀ b b', env b b' → (Rules.archiving H env).rely b b' := fun _ _ he => .single (Or.inr he)
  have hk := h.known (R := Rules.archiving H env) (fun _ _ => LedgerStep H (SealsArchived H))
    (fun _ _ _ _ _ => True) henv' hG hops
  have hk' := knownFrom (R := Rules.archiving H env) h' (fun _ _ => LedgerStep H (SealsArchived H))
    (fun _ _ _ _ _ => True) henv' hG (fun c w hw => hops c w (hk.1.trans hw)) hk.2
  have hp := (archiving_new a).run henv hk.1
  have hg := LeavesArchived.grows henv hk'.1
  intro r hr hs
  obtain ⟨hash,m,hh,hm,hn,hb⟩ := hp.archived r hr (hs.elim (EverSealed.of_sealed hp.history hr) id)
  obtain ⟨r',hr',hbecomes⟩ :=
    (Rules.ledger_history hp.consistent hp.history (LeavesArchived.ledger henv hk'.1)).2.rows r hr
  obtain ⟨_,_,_,rfl⟩ := hbecomes.kept
  refine ⟨_,hr',hash,m,rfl,hh,hh,hm,fun q hq => ?_,fun hu => ?_⟩
  · obtain ⟨data,hd⟩ := hb.files q hq
    exact ⟨data,hd,hg.read hd⟩
  · have hb' := hb.grows hg
    exact (verifyArchivedBundle_iff hn).mpr ⟨hb'.tree hu,hb'.files⟩

/-- The tree object of the sample run's one file. -/
def bundleTree : Bytes :=
  (encodeManifest [(lit "a.txt",cp '0' :: hexDigits 63 ([104,105].foldl (fun a c => a*257+c+1) 0))]).toOption.getD []

def bundleHasher : Hasher := .marking bundleTree

/-- The ledger after that run was recorded and sealed. -/
def sealedLedger : World :=
  (LedgerCall.prog bundleHasher (.sealRecord sampleEnv (lit "r1"))).final
    ((LedgerCall.prog bundleHasher (.createPending sampleEnv samplePending)).final (World.new .empty))

def invalidatedLedger : World :=
  (LedgerCall.prog bundleHasher (.invalidate sampleEnv (lit "r1") (lit "bad"))).final sealedLedger

lemma sealedLedger_rows : (sealedLedger.db.records.map fun r => (r.state,r.artifactHash)) =
      [(.text ArtifactState.sealed.value,.text markedDigest)] ∧
    (invalidatedLedger.db.records.map RecordRow.state) = [.text ArtifactState.invalidated.value] := by decide +kernel

/-- The sample, its worlds not spelled out. -/
lemma sealed_run : ∃ w w' ts ts', w' = invalidatedLedger ∧
    Interleaved (LedgerCall.prog bundleHasher) (fun w w' => w = w') (fun _ _ => True) (World.new .empty) ⟨w,ts⟩ ∧
    Runs.Reaches (Step (LedgerCall.prog bundleHasher) fun w w' => w = w') (Label.Allows fun _ _ => True)
      ⟨w,ts⟩ ⟨w',ts'⟩ ∧
    (∃ r ∈ w.db.records, r.state = .text ArtifactState.sealed.value ∧ r.artifactHash = .text markedDigest) ∧
    ∀ r ∈ w'.db.records, r.state = .text ArtifactState.invalidated.value := by
  obtain ⟨ts,h⟩ := Interleaved.final (Relation.ReflTransGen.refl : Interleaved (LedgerCall.prog bundleHasher)
    (fun w w' => w = w') (fun _ _ => True) (World.new .empty) ⟨World.new .empty,[]⟩) (.createPending sampleEnv samplePending)
  obtain ⟨ts',h⟩ := h.final (.sealRecord sampleEnv (lit "r1"))
  obtain ⟨ts'',h'⟩ := Pool.final (LedgerCall.prog bundleHasher) (fun w w' => w = w') sealedLedger ts'
    (.invalidate sampleEnv (lit "r1") (lit "bad"))
  obtain ⟨hsealed,hinvalid⟩ := sealedLedger_rows
  refine ⟨sealedLedger,invalidatedLedger,_,_,rfl,h,h',?_,?_⟩
  · obtain ⟨r,hr,he⟩ := List.mem_map.mp (hsealed ▸ List.mem_singleton_self _)
    exact ⟨r,hr,(Prod.mk.inj he).1,(Prod.mk.inj he).2⟩
  · intro r hr
    exact List.mem_singleton.mp (hinvalid ▸ List.mem_map_of_mem hr)

theorem sealed_archived_invalidated : ∃ r ∈ invalidatedLedger.db.records,
    r.state = .text ArtifactState.invalidated.value ∧ ∃ m, loadsColumn r.artifactManifest = .ok (Manifest.toPy m) ∧
      verifyArchivedBundle bundleHasher invalidatedLedger.archive markedDigest m.toPy = .ok () := by
  obtain ⟨w,w',ts,ts',hw',h,h',⟨r,hr,hs,hh⟩,hinvalid⟩ := sealed_run
  obtain ⟨r',hr',hash,m,-,-,hhash,hm,-,hverify⟩ := sealed_archived bundleHasher (fun w w' => w = w') .empty _ _
    (fun w w' he => he ▸ ⟨rfl,.refl _⟩) h h' r hr (Or.inl hs)
  obtain rfl := TextCell.text.inj (hh.symm.trans hhash)
  rw [← hw']
  exact ⟨r',hr',hinvalid r' hr',m,hm,hverify (marking_oneContent _)⟩

end Runs

end Stele
