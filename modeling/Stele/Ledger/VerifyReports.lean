import Stele.Ledger.Appending
import Stele.Archive.StrictRecords

/-! verify_ledger on any content of the tables: when it returns a report, and that a report
never misses an event that was altered or cannot be folded. -/
namespace Stele
open Python

variable {H : Hasher} {db : Db} {deep : PyStr → Bool}

section Stored

/-- Stored text is UTF-8. TEXT that is not is kept with a lone surrogate for each byte that
does not decode. -/
def TextCell.isUtf8 : TextCell → Bool
  | .text s => decide (Encodable s)
  | _ => true

def Cell.isUtf8 : Cell → Bool
  | .text s => decide (Encodable s)
  | _ => true

def RecordRow.columns (r : RecordRow) : List TextCell :=
  [r.recordId,r.runId,r.sourcePath,r.sourceId,r.sourceHash,r.sourceKind,r.parserName,r.parserVersion,
    r.parserImageDigest,r.parserModuleSha256,r.parserConfig,r.backend,r.artifactDir,
    r.artifactManifest,r.artifactHash,r.state,r.createdAt,r.finalizedAt,r.error,r.legacySourceHash,
    r.runConditions]

def DeliveryRow.columns (r : DeliveryRow) : List TextCell :=
  [r.dispatchId,r.recordId,r.targetKind,r.target,r.createdAt]

def DeliveryEventRow.columns (r : DeliveryEventRow) : List TextCell :=
  [r.dispatchId,r.event,r.chunksDigest,r.error,r.at',r.attemptId]

def ReplayRow.columns (r : ReplayRow) : List TextCell :=
  [r.replayId,r.recordId,r.outcome,r.reason,r.replayRunId,r.replayArtifactHash,r.differences,
    r.policy,r.backend,r.platform,r.replayedAt]

def EventRow.columns (r : EventRow) : List TextCell :=
  [r.kind,r.subject,r.body,r.at',r.prevHash,r.hash]

/-- Every column of every row is one that sqlite3 can return. -/
def Db.isUtf8 (db : Db) : Bool :=
  (db.records.all fun r => r.columns.all TextCell.isUtf8) &&
  (db.deliveries.all fun r => r.columns.all TextCell.isUtf8) &&
  (db.deliveryEvents.all fun r => r.columns.all TextCell.isUtf8 && [r.planned,r.done].all Cell.isUtf8) &&
  (db.replays.all fun r => r.columns.all TextCell.isUtf8) &&
  db.events.all fun r => r.columns.all TextCell.isUtf8

/-- Reading all the tables. -/
def Db.fetch (db : Db) : Except Exc Db := if db.isUtf8 then .ok db else .error .operationalError

/-- The column's JSON text is one of the `deep` ones. -/
def TextCell.nested (deep : PyStr → Bool) : TextCell → Bool
  | .null => false
  | .text s => deep s
  | .blob b => (decodeDetected b).any deep

/-- json.loads(column), where `deep` texts are nested beyond the interpreter's recursion limit. -/
def loadsWithin (deep : PyStr → Bool) : TextCell → Except Exc PyVal :=
  limited (TextCell.nested deep) loadsColumn

/-- verify_ledger of what is stored. Every row is read, so where it is refused matters only for
which exception comes first. -/
def verifyStored (H : Hasher) (deep : PyStr → Bool) (db : Db) (anchor : Anchor) :
    Except Exc LedgerReport := do
  let db ← db.fetch
  verifyLedgerBy (loadsWithin deep) H db anchor

end Stored

section Keys

/-- Two keys that sorted() can compare, or that are one key. -/
def TextCell.Orders (a b : TextCell) : Prop :=
  a = b ∨ (a.str?.isSome ∧ b.str?.isSome) ∨ (a.bytes?.isSome ∧ b.bytes?.isSome)

lemma mapM_isSome {α β : Type} (f : α → Option β) (xs : List α) :
    (xs.mapM f).isSome ↔ ∀ x ∈ xs, (f x).isSome := by
  induction xs with
  | nil => simp
  | cons x xs ih =>
    rw [List.mapM_cons,List.forall_mem_cons,← ih]
    cases f x with
    | none => simp
    | some y => cases xs.mapM f <;> simp

lemma TextCell.str_bytes {c : TextCell} (h : c.str?.isSome) : ¬c.bytes?.isSome := by
  cases c <;> simp_all [TextCell.str?,TextCell.bytes?]

/-- sorted succeeds exactly when any two of the keys compare. -/
lemma sortedKeys_total {a b : List TextCell} :
    (∃ ks, sortedKeys a b = .ok ks) ↔ ∀ x ∈ a++b, ∀ y ∈ a++b, x.Orders y := by
  have hmem : ∀ x, x ∈ (a++b).dedup ↔ x ∈ a++b := fun x => List.mem_dedup
  have hnodup := List.nodup_dedup (a++b)
  simp only [← hmem]
  unfold sortedKeys
  generalize (a++b).dedup = ks at hnodup ⊢
  match ks,hnodup with
  | [],_ => exact iff_of_true ⟨[],rfl⟩ (by simp)
  | [k],_ => exact iff_of_true ⟨[k],rfl⟩ (by simp [TextCell.Orders])
  | k :: l :: ks,hnodup =>
    have hkl : k ≠ l := fun h => (List.nodup_cons.mp hnodup).1 (h ▸ List.mem_cons_self)
    have hstr := mapM_isSome TextCell.str? (k :: l :: ks)
    have hbytes := mapM_isSome TextCell.bytes? (k :: l :: ks)
    have hlen : ¬(k :: l :: ks).length ≤ 1 := by simp
    have hk : k ∈ k :: l :: ks := by simp
    have hl : l ∈ k :: l :: ks := by simp
    simp only [hlen,if_false]
    generalize k :: l :: ks = keys at hstr hbytes hk hl ⊢
    constructor
    · rintro ⟨zs,h⟩ x hx y hy
      cases hs : keys.mapM TextCell.str? with
      | some ss =>
        have hall := hstr.mp (by rw [hs]; rfl)
        exact Or.inr (Or.inl ⟨hall x hx,hall y hy⟩)
      | none =>
        cases hb : keys.mapM TextCell.bytes? with
        | some bs =>
          have hall := hbytes.mp (by rw [hb]; rfl)
          exact Or.inr (Or.inr ⟨hall x hx,hall y hy⟩)
        | none => simp [hs,hb] at h
    · intro h
      -- two different keys decide whether all of them are text or all are bytes
      rcases h k hk l hl with heq | ⟨hs,-⟩ | ⟨hb,-⟩
      · exact absurd heq hkl
      · have hall : ∀ x ∈ keys, x.str?.isSome := by
          intro x hx
          rcases h k hk x hx with rfl | ⟨-,hx⟩ | ⟨hb,-⟩
          · exact hs
          · exact hx
          · exact absurd hb (TextCell.str_bytes hs)
        obtain ⟨ss,hss⟩ := Option.isSome_iff_exists.mp (hstr.mpr hall)
        exact ⟨_,by rw [hss]⟩
      · have hall : ∀ x ∈ keys, x.bytes?.isSome := by
          intro x hx
          rcases h k hk x hx with rfl | ⟨hs,-⟩ | ⟨-,hx⟩
          · exact hb
          · exact absurd hb (TextCell.str_bytes hs)
          · exact hx
        obtain ⟨bs,hbs⟩ := Option.isSome_iff_exists.mp (hbytes.mpr hall)
        cases hs : keys.mapM TextCell.str? with
        | some ss => exact ⟨_,rfl⟩
        | none => exact ⟨_,by rw [hbs]⟩

end Keys

section Folding

/-- Whatever x raises, the except clause `catches` catches. -/
def RaisesOnly {α : Type} (catches : Exc → Bool) (x : Except Exc α) : Prop :=
  ∀ e, x = .error e → catches e = true

namespace RaisesOnly

variable {α β : Type} {catches : Exc → Bool}

lemma ok (a : α) : RaisesOnly catches (.ok a : Except Exc α) := nofun

lemma error {e : Exc} (h : catches e = true) : RaisesOnly catches (.error e : Except Exc α) :=
  fun _ he => Except.error.inj he ▸ h

lemma bind {x : Except Exc α} {f : α → Except Exc β} (hx : RaisesOnly catches x)
    (hf : ∀ a, RaisesOnly catches (f a)) : RaisesOnly catches (x >>= f) := by
  cases x with
  | error e => exact fun e' he => hx e' (by cases he; rfl)
  | ok a => exact hf a

lemma map {x : Except Exc α} (f : α → β) (hx : RaisesOnly catches x) : RaisesOnly catches (x.map f) := by
  cases x with
  | error e => exact fun e' he => hx e' (congrArg Except.error (Except.error.inj he))
  | ok a => exact ok _

lemma mapM {f : α → Except Exc β} {xs : List α} (hf : ∀ a, RaisesOnly catches (f a)) :
    RaisesOnly catches (xs.mapM f) := by
  induction xs with
  | nil => exact ok _
  | cons a xs ih =>
    rw [List.mapM_cons]
    exact (hf a).bind fun b => ih.bind fun bs => ok _

end RaisesOnly

lemma itemAt_raises (b : PyVal) (k : String) : RaisesOnly Exc.isMalformed (itemAt b k) := by
  unfold itemAt
  split
  · rename_i kvs
    cases PyVal.find kvs (.str (lit k)) with
    | none => exact .error rfl
    | some v => exact .ok v
  · exact .error rfl

lemma itemOr_raises (b : PyVal) (k : String) (v : PyVal) : RaisesOnly Exc.isMalformed (itemOr b k v) := by
  unfold itemOr
  split
  · exact .ok _
  · exact .error rfl

lemma loggedRecord_raises (b : PyVal) : RaisesOnly Exc.isMalformed (loggedRecord b) :=
  (itemAt_raises b _).bind fun _ => (itemAt_raises b _).bind fun _ => (itemOr_raises b _ _).bind fun _ =>
    (itemOr_raises b _ _).bind fun _ => (itemOr_raises b _ _).bind fun _ =>
    (itemOr_raises b _ _).bind fun _ => (itemOr_raises b _ _).bind fun _ => .ok _

lemma loggedDelivery_raises (b : PyVal) : RaisesOnly Exc.isMalformed (loggedDelivery b) :=
  (itemAt_raises b _).bind fun _ => (itemAt_raises b _).bind fun _ => (itemAt_raises b _).bind fun _ =>
    .ok _

lemma loggedReplay_raises (b : PyVal) : RaisesOnly Exc.isMalformed (loggedReplay b) :=
  (itemOr_raises b _ _).bind fun _ => (itemOr_raises b _ _).bind fun _ => (itemOr_raises b _ _).bind fun _ =>
    .ok _

lemma eventTuple_raises (b : PyVal) : RaisesOnly Exc.isMalformed (eventTuple b) :=
  (itemOr_raises b _ _).bind fun _ => (itemAt_raises b _).bind fun _ => (itemAt_raises b _).bind fun _ =>
    (itemAt_raises b _).bind fun _ => (itemAt_raises b _).bind fun _ => (itemAt_raises b _).bind fun _ =>
    .ok _

lemma loadsColumn_raises (c : TextCell) :
    RaisesOnly (fun e => decide (e = .typeError ∨ e = .valueError)) (loadsColumn c) := by
  cases c with
  | null => exact .error rfl
  | text s =>
    rw [loadsColumn]
    cases loads s with
    | none => exact .error rfl
    | some v => exact .ok v
  | blob b =>
    rw [loadsColumn]
    cases loadsBytes b with
    | none => exact .error rfl
    | some v => exact .ok v

/-- The four parts of what the chain says. -/
inductive LoggedTable
  | records
  | deliveries
  | deliveryEvents
  | replays

def Logged.ids (s : Logged) : LoggedTable → List TextCell
  | .records => s.records.keys
  | .deliveries => s.deliveries.keys
  | .deliveryEvents => s.deliveryEvents.keys
  | .replays => s.replays.keys

/-- An event of this kind with this body makes an entry in the table. -/
def Enters (kind : TextCell) (b : PyVal) : LoggedTable → Prop
  | .records => (kind = .text (lit "record.created") ∨ kind = .text (lit "record.imported")) ∧
      ∃ f, loggedRecord b = .ok f
  | .deliveries => (kind = .text (lit "delivery.opened") ∨ kind = .text (lit "delivery.imported")) ∧
      ∃ f, loggedDelivery b = .ok f
  | .deliveryEvents =>
      kind = .text (lit "delivery.event") ∨ kind = .text (lit "delivery_event.imported")
  | .replays => (kind = .text (lit "replay.logged") ∨ kind = .text (lit "replay.imported")) ∧
      ∃ f, loggedReplay b = .ok f

lemma mem_keys_set {V : Type} {d : Dict TextCell V} {k l : TextCell} {v : V} :
    l ∈ (d.set k v).keys ↔ l ∈ d.keys ∨ l = k := by
  rw [Dict.keys_set]
  split_ifs with hk
  · exact ⟨Or.inl,fun h => h.elim id fun he => he ▸ hk⟩
  · simp

lemma mem_keys_setDefault {V : Type} {d : Dict TextCell V} {k l : TextCell} {v : V} :
    l ∈ (d.setDefault k v).keys ↔ l ∈ d.keys ∨ l = k := by
  rw [Dict.keys_setDefault]
  split_ifs with hk
  · exact ⟨Or.inl,fun h => h.elim id fun he => he ▸ hk⟩
  · simp

/-- What one event adds to the entries, and what it may raise; the second does not depend on
the entries that there are. -/
lemma Logged.apply_spec (s : Logged) (kind subject : TextCell) (b : PyVal) :
    (∀ t k, k ∈ (s.apply kind subject b).2.ids t ↔ k ∈ s.ids t ∨ k = subject ∧ Enters kind b t) ∧
    RaisesOnly Exc.isMalformed (s.apply kind subject b).1 ∧
    ∀ s' : Logged, (s'.apply kind subject b).1 = (s.apply kind subject b).1 := by
  unfold Logged.apply
  by_cases h1 : kind = .text (lit "record.created") ∨ kind = .text (lit "record.imported")
  · have hE : ∀ t, Enters kind b t ↔ t = .records ∧ ∃ f, loggedRecord b = .ok f := by
      intro t
      rcases h1 with rfl | rfl <;> cases t <;> simp [Enters]
    simp only [h1,if_true,hE]
    cases hf : loggedRecord b with
    | error e => exact ⟨by simp,.error (loggedRecord_raises b e hf),fun _ => rfl⟩
    | ok f =>
      refine ⟨fun t k => ?_,.ok _,fun _ => rfl⟩
      cases t <;> simp [Logged.ids,mem_keys_set]
  simp only [h1,if_false]
  cases hs : recordState kind with
  | some state =>
    have hE : ∀ t, ¬Enters kind b t := by
      intro t
      unfold recordState at hs
      split_ifs at hs with h2 h3 h4 h5
      · exact absurd (Or.inl h2) h1
      all_goals subst kind; cases t <;> simp [Enters]
    refine ⟨fun t k => ?_,.ok _,fun _ => rfl⟩
    cases t <;> simp [Logged.ids,hE]
  | none =>
    by_cases h2 : kind = .text (lit "delivery.opened") ∨ kind = .text (lit "delivery.imported")
    · have hE : ∀ t, Enters kind b t ↔ t = .deliveries ∧ ∃ f, loggedDelivery b = .ok f := by
        intro t
        rcases h2 with rfl | rfl <;> cases t <;> simp [Enters]
      simp only [h2,if_true,hE]
      cases hf : loggedDelivery b with
      | error e => exact ⟨by simp,.error (loggedDelivery_raises b e hf),fun _ => rfl⟩
      | ok f =>
        refine ⟨fun t k => ?_,.ok _,fun _ => rfl⟩
        cases t <;> simp [Logged.ids,mem_keys_set]
    simp only [h2,if_false]
    by_cases h3 : kind = .text (lit "delivery.event") ∨ kind = .text (lit "delivery_event.imported")
    · have hE : ∀ t, Enters kind b t ↔ t = .deliveryEvents := by
        intro t
        rcases h3 with rfl | rfl <;> cases t <;> simp [Enters]
      simp only [h3,if_true,hE]
      cases hf : eventTuple b with
      | error e =>
        refine ⟨fun t k => ?_,.error (eventTuple_raises b e hf),fun _ => rfl⟩
        cases t <;> simp [Logged.ids,mem_keys_setDefault]
      | ok f =>
        refine ⟨fun t k => ?_,.ok _,fun _ => rfl⟩
        cases t <;> simp [Logged.ids,mem_keys_setDefault]
    simp only [h3,if_false]
    by_cases h4 : kind = .text (lit "replay.logged") ∨ kind = .text (lit "replay.imported")
    · have hE : ∀ t, Enters kind b t ↔ t = .replays ∧ ∃ f, loggedReplay b = .ok f := by
        intro t
        rcases h4 with rfl | rfl <;> cases t <;> simp [Enters]
      simp only [h4,if_true,hE]
      cases hf : loggedReplay b with
      | error e => exact ⟨by simp,.error (loggedReplay_raises b e hf),fun _ => rfl⟩
      | ok f =>
        refine ⟨fun t k => ?_,.ok _,fun _ => rfl⟩
        cases t <;> simp [Logged.ids,mem_keys_set]
    have hE : ∀ t, ¬Enters kind b t := by
      intro t
      cases t <;> simp [Enters,h1,h2,h3,h4]
    simp only [h4,if_false]
    exact ⟨by simp [hE],.ok _,fun _ => trivial⟩

/-- The body decodes, and folds into any state. -/
def EventRow.Folds (r : EventRow) : Prop :=
  ∃ b, loadsColumn r.body = .ok b ∧ ∀ s : Logged, (s.apply r.kind r.subject b).1 = .ok ()

/-- The event makes an entry under its subject in the table. -/
def EventRow.EntersIn (r : EventRow) (t : LoggedTable) : Prop :=
  ∃ b, loadsColumn r.body = .ok b ∧ Enters r.kind b t

lemma loadsWithin_deep {c : TextCell} (h : c.nested deep = true) :
    loadsWithin deep c = .error .recursionError := if_pos h

lemma loadsWithin_shallow {c : TextCell} (h : c.nested deep = false) :
    loadsWithin deep c = loadsColumn c := by
  rw [loadsWithin,limited,h]
  rfl

/-- An event whose body is not nested too deep adds its entries, and a problem unless it folds. -/
lemma replayEvent_spec {r : EventRow} (h : r.body.nested deep = false) (s : Logged)
    (ps : List LedgerProblem) : ∃ s' new, replayEventBy (loadsWithin deep) (s,ps) r = .ok (s',ps++new) ∧
      (∀ t k, k ∈ s'.ids t ↔ k ∈ s.ids t ∨ k = r.subject ∧ r.EntersIn t) ∧ (new = [] ↔ r.Folds) := by
  unfold replayEventBy
  rw [loadsWithin_shallow h]
  cases hb : loadsColumn r.body with
  | error e =>
    have he : e.isMalformed = true := by
      have := loadsColumn_raises r.body e hb
      rcases of_decide_eq_true this with rfl | rfl <;> rfl
    refine ⟨s,[.malformedBody r.seq r.kind e],by simp only [he,if_true],fun t k => ?_,?_⟩
    · simp [EventRow.EntersIn,hb]
    · simp [EventRow.Folds,hb]
  | ok b =>
    obtain ⟨hids,hraises,hany⟩ := s.apply_spec r.kind r.subject b
    have hids' : ∀ t k, k ∈ (s.apply r.kind r.subject b).2.ids t ↔
        k ∈ s.ids t ∨ k = r.subject ∧ r.EntersIn t := by
      intro t k
      simp [hids,EventRow.EntersIn,hb]
    have hfolds : r.Folds ↔ (s.apply r.kind r.subject b).1 = .ok () := by
      constructor
      · rintro ⟨b',hb',h⟩
        obtain rfl := Except.ok.inj (hb.symm.trans hb')
        exact h s
      · exact fun h => ⟨b,hb,fun s' => (hany s').trans h⟩
    rw [hfolds]
    rcases hx : s.apply r.kind r.subject b with ⟨result,s'⟩
    rw [hx] at hids' hraises
    cases result with
    | error e =>
      refine ⟨s',[.malformedBody r.seq r.kind e],?_,hids',by simp⟩
      have he : e.isMalformed = true := hraises e rfl
      simp only [hx,he,if_true]
    | ok u => exact ⟨s',[],by simp only [hx,List.append_nil],hids',by simp⟩

lemma replayEvent_deep {r : EventRow} (h : r.body.nested deep = true) (acc : Logged × List LedgerProblem) :
    replayEventBy (loadsWithin deep) acc r = .error .recursionError := by
  rw [replayEventBy,loadsWithin_deep h]
  rfl

/-- The replay of a whole chain. -/
lemma replayEvents_spec {rows : List EventRow} (h : ∀ r ∈ rows, r.body.nested deep = false) (s : Logged)
    (ps : List LedgerProblem) : ∃ s' new,
      rows.foldlM (replayEventBy (loadsWithin deep)) (s,ps) = .ok (s',ps++new) ∧
      (∀ t k, k ∈ s'.ids t ↔ k ∈ s.ids t ∨ ∃ r ∈ rows, k = r.subject ∧ r.EntersIn t) ∧
      (new = [] ↔ ∀ r ∈ rows, r.Folds) := by
  induction rows generalizing s ps with
  | nil => exact ⟨s,[],by simp; rfl,by simp,by simp⟩
  | cons r rows ih =>
    obtain ⟨s1,new1,h1,hids1,hnew1⟩ := replayEvent_spec (h r (by simp)) s ps
    obtain ⟨s2,new2,h2,hids2,hnew2⟩ := ih (fun q hq => h q (List.mem_cons_of_mem _ hq)) s1 (ps++new1)
    refine ⟨s2,new1++new2,?_,fun t k => ?_,?_⟩
    · rw [List.foldlM_cons,h1,← List.append_assoc]
      exact h2
    · rw [hids2,hids1,List.exists_mem_cons_iff,or_assoc]
    · rw [List.append_eq_nil_iff,hnew1,hnew2,List.forall_mem_cons]

lemma replayChain_spec (h : ∀ r ∈ db.events, r.body.nested deep = false) : ∃ s new,
    replayChainBy (loadsWithin deep) db.events = .ok (s,new) ∧
      (∀ t k, k ∈ s.ids t ↔ ∃ r ∈ db.events, k = r.subject ∧ r.EntersIn t) ∧
      (new = [] ↔ ∀ r ∈ db.events, r.Folds) := by
  have hmem : ∀ r, r ∈ orderBySeq db.events ↔ r ∈ db.events := fun r => List.mem_insertionSort _
  obtain ⟨s,new,hrun,hids,hnew⟩ := replayEvents_spec (fun r hr => h r ((hmem r).mp hr)) .empty []
  refine ⟨s,new,hrun,fun t k => ?_,by simp only [hnew,hmem]⟩
  have hempty : k ∉ Logged.empty.ids t := by cases t <;> simp [Logged.ids,Logged.empty]
  simp only [hids,hempty,false_or,hmem]

/-- A replay that ends has met no event that is nested too deep. -/
lemma replayChain_bodies {acc : Logged × List LedgerProblem}
    (h : replayChainBy (loadsWithin deep) db.events = .ok acc) :
    ∀ r ∈ db.events, r.body.nested deep = false := by
  have hrows : ∀ (rows : List EventRow) (x : Logged × List LedgerProblem),
      rows.foldlM (replayEventBy (loadsWithin deep)) x = .ok acc → ∀ r ∈ rows, r.body.nested deep = false := by
    intro rows
    induction rows with
    | nil => simp
    | cons r rows ih =>
      intro x hx
      rw [List.foldlM_cons] at hx
      obtain ⟨y,hy,hrest⟩ := except_bind_ok.mp hx
      refine List.forall_mem_cons.mpr ⟨?_,ih y hrest⟩
      by_contra hd
      rw [replayEvent_deep (Bool.eq_true_of_not_eq_false hd)] at hy
      cases hy
  exact fun r hr => hrows _ _ h r ((List.mem_insertionSort _).mpr hr)

end Folding

section Tables

def Db.ids (db : Db) : LoggedTable → List TextCell
  | .records => db.records.map RecordRow.recordId
  | .deliveries => db.deliveries.map DeliveryRow.dispatchId
  | .deliveryEvents => db.deliveryEvents.map DeliveryEventRow.dispatchId
  | .replays => db.replays.map ReplayRow.replayId

lemma mem_keys_ofRows {R : Type} (key : R → TextCell) (rows : List R) {k : TextCell} :
    k ∈ (Dict.ofRows key rows).keys ↔ k ∈ rows.map key := by
  have hd : ∀ d : Dict TextCell R, k ∈ (rows.foldl (fun d r => d.set (key r) r) d).keys ↔
      k ∈ d.keys ∨ k ∈ rows.map key := by
    induction rows with
    | nil => simp
    | cons r rows ih =>
      intro d
      rw [List.foldl_cons,ih,mem_keys_set,List.map_cons,List.mem_cons,or_assoc]
  simpa [Dict.ofRows] using hd []

lemma mem_keys_actualEvents (rows : List DeliveryEventRow) {k : TextCell} :
    k ∈ (actualEvents rows).keys ↔ k ∈ rows.map DeliveryEventRow.dispatchId := by
  have hd : ∀ (rows : List DeliveryEventRow) (d : Dict TextCell (List EventTuple)),
      k ∈ (rows.foldl (fun d r => (d.setDefault r.dispatchId []).modify r.dispatchId
        fun ts => ts++[r.tuple]) d).keys ↔ k ∈ d.keys ∨ k ∈ rows.map DeliveryEventRow.dispatchId := by
    intro rows
    induction rows with
    | nil => simp
    | cons r rows ih =>
      intro d
      rw [List.foldl_cons,ih,Dict.keys_modify,mem_keys_setDefault,List.map_cons,List.mem_cons,or_assoc]
  have h := hd (orderByEventId rows) []
  simpa [actualEvents,orderByEventId,List.mem_insertionSort] using h

lemma eq_map_of_mapM {α β : Type} {f : α → Option β} {g : β → α} (hfg : ∀ a b, f a = some b → a = g b)
    {xs : List α} {ys : List β} (h : xs.mapM f = some ys) : xs = ys.map g := by
  induction xs generalizing ys with
  | nil => obtain rfl : [] = ys := by simpa using h
           rfl
  | cons x xs ih =>
    rw [List.mapM_cons] at h
    obtain ⟨y,hy,h⟩ := Option.bind_eq_some_iff.mp h
    obtain ⟨zs,hzs,h⟩ := Option.bind_eq_some_iff.mp h
    obtain rfl := Option.some.inj h
    rw [List.map_cons,← ih hzs,← hfg x y hy]

/-- The sorted keys are those of both. -/
lemma sortedKeys_mem {a b ks : List TextCell} (h : sortedKeys a b = .ok ks) {k : TextCell} :
    k ∈ ks ↔ k ∈ a++b := by
  have htext : ∀ c s, TextCell.str? c = some s → c = .text s := by
    intro c s hc
    cases c <;> simp_all [TextCell.str?]
  have hblob : ∀ c s, TextCell.bytes? c = some s → c = .blob s := by
    intro c s hc
    cases c <;> simp_all [TextCell.bytes?]
  rw [show k ∈ a++b ↔ k ∈ (a++b).dedup from List.mem_dedup.symm]
  unfold sortedKeys at h
  generalize (a++b).dedup = keys at h ⊢
  simp only at h
  split_ifs at h with hlen
  · rw [Except.ok.inj h]
  split at h
  · rename_i ss hs
    rw [← Except.ok.inj h,eq_map_of_mapM htext hs]
    simp [List.mem_insertionSort]
  · rename_i bs hs _
    rw [← Except.ok.inj h,eq_map_of_mapM hblob hs]
    simp [List.mem_insertionSort]
  · cases h

lemma mapM_ok_iff {ε α β : Type} {f : α → Except ε β} {xs : List α} :
    (∃ ys, xs.mapM f = .ok ys) ↔ ∀ x ∈ xs, ∃ y, f x = .ok y := by
  constructor
  · rintro ⟨ys,h⟩ x hx
    obtain ⟨y,-,hy⟩ := forall₂_mem (mapM_ok.mp h) hx
    exact ⟨y,hy⟩
  · intro h
    obtain ⟨ys,hys,-⟩ := mapM_total (P := fun _ => True) fun x hx =>
      (h x hx).imp fun y hy => ⟨hy,trivial⟩
    exact ⟨ys,hys⟩

/-- The comparison of the tables goes through when the keys of each sort and the records that
are in both places can be read. -/
lemma tableProblems_total {load : TextCell → Except Exc PyVal} {s : Logged} :
    (∃ ps, tableProblemsBy load H db s = .ok ps) ↔
      (∀ t, ∀ x ∈ db.ids t++s.ids t, ∀ y ∈ db.ids t++s.ids t, x.Orders y) ∧
      ∀ id r f, (Dict.ofRows RecordRow.recordId db.records).get id = some r →
        s.records.get id = some f → ∃ ps, recordProblemsBy load H id (some r) (some f) = .ok ps := by
  have hsorted : ∀ {a b c d : List TextCell}, (∀ k, k ∈ a ↔ k ∈ c) → (∀ k, k ∈ b ↔ k ∈ d) →
      ((∃ ks, sortedKeys a b = .ok ks) ↔ ∀ x ∈ c++d, ∀ y ∈ c++d, x.Orders y) := by
    intro a b c d hac hbd
    simp only [sortedKeys_total,List.mem_append,hac,hbd]
  have hrec := hsorted (b := s.records.keys) (d := s.ids .records)
    (fun k => mem_keys_ofRows RecordRow.recordId db.records) fun _ => Iff.rfl
  have hdel := hsorted (b := s.deliveries.keys) (d := s.ids .deliveries)
    (fun k => mem_keys_ofRows DeliveryRow.dispatchId db.deliveries) fun _ => Iff.rfl
  have hev := hsorted (b := s.deliveryEvents.keys) (d := s.ids .deliveryEvents)
    (fun k => mem_keys_actualEvents db.deliveryEvents) fun _ => Iff.rfl
  have hrep := hsorted (b := s.replays.keys) (d := s.ids .replays)
    (fun k => mem_keys_ofRows ReplayRow.replayId db.replays) fun _ => Iff.rfl
  have hall : (∀ t, ∀ x ∈ db.ids t++s.ids t, ∀ y ∈ db.ids t++s.ids t, x.Orders y) ↔
      (∃ ks, sortedKeys (Dict.ofRows RecordRow.recordId db.records).keys s.records.keys = .ok ks) ∧
      (∃ ks, sortedKeys (Dict.ofRows DeliveryRow.dispatchId db.deliveries).keys s.deliveries.keys = .ok ks) ∧
      (∃ ks, sortedKeys (actualEvents db.deliveryEvents).keys s.deliveryEvents.keys = .ok ks) ∧
      ∃ ks, sortedKeys (Dict.ofRows ReplayRow.replayId db.replays).keys s.replays.keys = .ok ks := by
    rw [hrec,hdel,hev,hrep]
    exact ⟨fun h => ⟨h .records,h .deliveries,h .deliveryEvents,h .replays⟩,fun h t => by cases t; exacts [h.1,h.2.1,h.2.2.1,h.2.2.2]⟩
  rw [hall]
  unfold tableProblemsBy
  constructor
  · rintro ⟨ps,h⟩
    obtain ⟨ids,h1,h⟩ := except_bind_ok.mp h
    obtain ⟨records,h2,h⟩ := except_bind_ok.mp h
    obtain ⟨ids3,h3,h⟩ := except_bind_ok.mp h
    obtain ⟨ids4,h4,h⟩ := except_bind_ok.mp h
    obtain ⟨ids5,h5,_⟩ := except_bind_ok.mp h
    refine ⟨⟨⟨_,h1⟩,⟨_,h3⟩,⟨_,h4⟩,⟨_,h5⟩⟩,fun id r f hr hf => ?_⟩
    have hid : id ∈ ids := (sortedKeys_mem h1).mpr (List.mem_append_left _
      (List.mem_map.mpr ⟨_,Dict.mem_of_get hr,rfl⟩))
    have := mapM_ok_iff.mp ⟨_,h2⟩ id hid
    rwa [hr,hf] at this
  · rintro ⟨⟨⟨ids,h1⟩,⟨ids3,h3⟩,⟨ids4,h4⟩,⟨ids5,h5⟩⟩,hrecord⟩
    obtain ⟨records,h2⟩ : ∃ ys, ids.mapM (fun id => recordProblemsBy load H id
        ((Dict.ofRows RecordRow.recordId db.records).get id) (s.records.get id)) = .ok ys := by
      refine mapM_ok_iff.mpr fun id _ => ?_
      cases hr : (Dict.ofRows RecordRow.recordId db.records).get id with
      | none => exact ⟨_,rfl⟩
      | some r =>
        cases hf : s.records.get id with
        | none => exact ⟨_,rfl⟩
        | some f => exact hrecord id r f hr hf
    exact ⟨_,except_bind_ok.mpr ⟨_,h1,except_bind_ok.mpr ⟨_,h2,except_bind_ok.mpr ⟨_,h3,
      except_bind_ok.mpr ⟨_,h4,except_bind_ok.mpr ⟨_,h5,rfl⟩⟩⟩⟩⟩⟩

/-- The column is NULL or a JSON text. -/
def TextCell.Reads (c : TextCell) : Prop := ∃ v, loadsNullable c = .ok v

/-- A column that is nested too deep is read: those before it are read first, and what is no
JSON ends the reading. -/
def RecordRow.Nested (deep : PyStr → Bool) (r : RecordRow) : Prop :=
  r.parserConfig.nested deep = true ∨
  (r.parserConfig.Reads ∧ r.runConditions.nested deep = true) ∨
  (r.parserConfig.Reads ∧ r.runConditions.Reads ∧ r.artifactManifest.nested deep = true)

lemma loadNullable_within (c : TextCell) : loadNullableBy (loadsWithin deep) c =
    if c.nested deep then .error .recursionError else loadsNullable c := by
  cases c with
  | null => rfl
  | text s =>
    simp only [loadNullableBy,loadsWithin,limited,loadsNullable]
    split_ifs <;> rfl
  | blob b =>
    simp only [loadNullableBy,loadsWithin,limited,loadsNullable]
    split_ifs <;> rfl

lemma columnError_of {e : Exc} (h : decide (e = .typeError ∨ e = .valueError) = true) :
    e.isColumnError = true := by
  rcases of_decide_eq_true h with rfl | rfl <;> rfl

lemma loadsNullable_raises (c : TextCell) : RaisesOnly Exc.isColumnError (loadsNullable c) := by
  cases c with
  | null => exact .ok _
  | text s => exact .map _ fun e he => columnError_of (loadsColumn_raises _ e he)
  | blob b => exact .map _ fun e he => columnError_of (loadsColumn_raises _ e he)

lemma manifestHash_raises (v : PyVal) : RaisesOnly Exc.isColumnError (manifestHash H v) := by
  have hentry : ∀ p, RaisesOnly Exc.isColumnError (manifestEntry p) := by
    intro p
    unfold manifestEntry
    split
    · unfold encodeEntry
      split_ifs
      · exact .ok _
      · exact .error rfl
    · refine .error ?_
      split_ifs <;> rfl
    · exact .error rfl
  unfold manifestHash
  split
  · exact .map _ (.mapM hentry)
  · exact .ok _
  · exact .ok _
  · exact .error rfl

/-- The columns of a record that is compared are read, or refused as malformed, unless one of
them is nested too deep. -/
lemma recordProblems_total {r : RecordRow} {id : TextCell} {f : RecordFields} :
    (∃ ps, recordProblemsBy (loadsWithin deep) H id (some r) (some f) = .ok ps) ↔ ¬r.Nested deep := by
  have hfields : (∃ ps, recordProblemsBy (loadsWithin deep) H id (some r) (some f) = .ok ps) ↔
      RaisesOnly Exc.isColumnError (r.fieldsBy (loadsWithin deep) H) := by
    simp only [recordProblemsBy]
    cases hx : r.fieldsBy (loadsWithin deep) H with
    | error e =>
      cases he : e.isColumnError with
      | true => exact iff_of_true ⟨_,if_pos he⟩ (.error he)
      | false =>
        refine iff_of_false (by simp [he]) fun h => ?_
        rw [h e rfl] at he
        cases he
    | ok p => exact iff_of_true ⟨_,rfl⟩ (.ok p)
  rw [hfields]
  have hdeep : ¬RaisesOnly Exc.isColumnError (.error .recursionError : Except Exc (RecordFields × PyStr)) :=
    fun h => by cases h _ rfl
  unfold RecordRow.fieldsBy RecordRow.Nested TextCell.Reads
  rw [loadNullable_within,loadNullable_within]
  cases h1 : r.parserConfig.nested deep with
  | true => exact iff_of_false hdeep fun h => h (Or.inl rfl)
  | false =>
    have hc := loadsNullable_raises r.parserConfig
    cases hv1 : loadsNullable r.parserConfig with
    | error e =>
      rw [hv1] at hc
      exact iff_of_true (.error (hc e rfl)) (by simp)
    | ok config =>
      cases h2 : r.runConditions.nested deep with
      | true => exact iff_of_false hdeep fun h => h (Or.inr (Or.inl ⟨⟨_,rfl⟩,rfl⟩))
      | false =>
        have hc := loadsNullable_raises r.runConditions
        cases hv2 : loadsNullable r.runConditions with
        | error e =>
          rw [hv2] at hc
          exact iff_of_true (.error (hc e rfl)) (by simp)
        | ok conditions =>
          cases h3 : r.artifactManifest.nested deep with
          | true =>
            rw [loadsWithin_deep h3]
            exact iff_of_false hdeep fun h => h (Or.inr (Or.inr ⟨⟨_,rfl⟩,⟨_,rfl⟩,rfl⟩))
          | false =>
            rw [loadsWithin_shallow h3]
            refine iff_of_true ?_ (by simp)
            have hm : RaisesOnly Exc.isColumnError (loadsColumn r.artifactManifest) :=
              fun e he => columnError_of (loadsColumn_raises _ e he)
            exact hm.bind fun v => (manifestHash_raises v).bind fun hash => .ok _

end Tables

section Reports

/-- The stored hash is the one that is recomputed. -/
def EventRow.HashMatches (H : Hasher) (r : EventRow) : Prop :=
  ∃ d, r.rowHash H = .ok d ∧ r.hash = .text d

/-- What the tables must hold for verify_ledger to get through them. -/
structure Verifiable (deep : PyStr → Bool) (db : Db) : Prop where
  utf8 : db.isUtf8 = true
  /-- no BLOB where the hash of an event needs text -/
  hashed : ∀ r ∈ db.events, ∀ c ∈ r.hashed, c.bytes? = none
  bodies : ∀ r ∈ db.events, r.body.nested deep = false
  records : ∀ id r, (Dict.ofRows RecordRow.recordId db.records).get id = some r →
    (∃ q ∈ db.events, id = q.subject ∧ q.EntersIn .records) → ¬r.Nested deep
  /-- of any two ids of one table and of the events logged for it, both are text or both BLOBs -/
  ids : ∀ t x y, (x ∈ db.ids t ∨ ∃ r ∈ db.events, x = r.subject ∧ r.EntersIn t) →
    (y ∈ db.ids t ∨ ∃ r ∈ db.events, y = r.subject ∧ r.EntersIn t) → x.Orders y

lemma Db.isUtf8_events (h : db.isUtf8 = true) : ∀ r ∈ db.events, ∀ c ∈ r.columns, c.isUtf8 = true := by
  simp only [Db.isUtf8,Bool.and_eq_true,List.all_eq_true] at h
  exact h.2

/-- In what sqlite3 returns, a column can be hashed unless it is a BLOB. -/
lemma hashable_of_utf8 {c : TextCell} (h : c.isUtf8 = true) : c.Hashable ↔ c.bytes? = none := by
  cases c with
  | null => simp [TextCell.Hashable,TextCell.bytes?]
  | text s => simpa [TextCell.Hashable,TextCell.bytes?,TextCell.isUtf8] using h
  | blob b => simp [TextCell.Hashable,TextCell.bytes?]

/-- verify_ledger gets through exactly such tables. -/
lemma verifyStored_total (H : Hasher) (anchor : Anchor) (hseq : ∀ r ∈ db.events, IsInt64 r.seq) :
    (∃ report, verifyStored H deep db anchor = .ok report) ↔ Verifiable deep db := by
  unfold verifyStored Db.fetch
  cases hu : db.isUtf8 with
  | false => exact iff_of_false (by rintro ⟨_,⟨⟩⟩) fun h => by simpa [hu] using h.utf8
  | true =>
    have hchain : (∃ report, EventLog.verify H db.events anchor = .ok report) ↔
        ∀ r ∈ db.events, ∀ c ∈ r.hashed, c.bytes? = none := by
      rw [verify_total]
      refine forall₂_congr fun r hr => ?_
      rw [rowHash_total (hseq r hr)]
      refine forall₂_congr fun c hc => hashable_of_utf8 (Db.isUtf8_events hu r hr c ?_)
      exact List.subset_append_left r.hashed [r.hash] hc
    simp only [if_true]
    change (∃ report, verifyLedgerBy (loadsWithin deep) H db anchor = .ok report) ↔ _
    unfold verifyLedgerBy
    constructor
    · rintro ⟨report,h⟩
      obtain ⟨chain,hc,h⟩ := except_bind_ok.mp h
      obtain ⟨⟨s,malformed⟩,hs,h⟩ := except_bind_ok.mp h
      obtain ⟨problems,hp,-⟩ := except_bind_ok.mp h
      have hbodies := replayChain_bodies hs
      obtain ⟨s',new,hs',hids,-⟩ := replayChain_spec hbodies
      obtain ⟨rfl,rfl⟩ := Prod.mk.inj (Except.ok.inj (hs'.symm.trans hs))
      obtain ⟨hkeys,hrecords⟩ := tableProblems_total.mp ⟨problems,hp⟩
      refine ⟨hu,hchain.mp ⟨chain,hc⟩,hbodies,fun id r hr hid => ?_,fun t x y hx hy => ?_⟩
      · obtain ⟨f,hf⟩ := Option.ne_none_iff_exists'.mp fun hn =>
          Dict.get_eq_none.mp hn ((hids .records id).mpr hid)
        exact recordProblems_total.mp (hrecords id r f hr hf)
      · rw [← hids] at hx hy
        exact hkeys t x (List.mem_append.mpr hx) y (List.mem_append.mpr hy)
    · intro hv
      obtain ⟨chain,hc⟩ := hchain.mpr hv.hashed
      obtain ⟨s,new,hs,hids,-⟩ := replayChain_spec hv.bodies
      obtain ⟨problems,hp⟩ : ∃ ps, tableProblemsBy (loadsWithin deep) H db s = .ok ps := by
        refine tableProblems_total.mpr ⟨fun t x hx y hy => ?_,fun id r f hr hf => ?_⟩
        · rw [List.mem_append,hids] at hx hy
          exact hv.ids t x y hx hy
        · refine recordProblems_total.mpr (hv.records id r hr ((hids .records id).mp ?_))
          exact List.mem_map.mpr ⟨_,Dict.mem_of_get hf,rfl⟩
      exact ⟨_,except_bind_ok.mpr ⟨_,hc,except_bind_ok.mpr ⟨_,hs,except_bind_ok.mpr ⟨_,hp,rfl⟩⟩⟩⟩

/-- A report without problems: every event folds, and has the hash that is stored. -/
lemma verifyStored_sound {anchor : Anchor} {report : LedgerReport}
    (h : verifyStored H deep db anchor = .ok report) (hok : report.ok = true) :
    ∀ r ∈ db.events, r.Folds ∧ r.HashMatches H := by
  obtain ⟨stored,hstored,hrun⟩ := except_bind_ok.mp h
  obtain rfl : stored = db := by
    unfold Db.fetch at hstored
    split_ifs at hstored
    exact (Except.ok.inj hstored).symm
  obtain ⟨chain,hc,hrun⟩ := except_bind_ok.mp hrun
  obtain ⟨⟨s,malformed⟩,hs,hrun⟩ := except_bind_ok.mp hrun
  obtain ⟨problems,hp,hrun⟩ := except_bind_ok.mp hrun
  obtain rfl := Except.ok.inj hrun
  simp only [LedgerReport.ok,Bool.and_eq_true,List.isEmpty_iff,List.append_eq_nil_iff] at hok
  obtain ⟨hchain,hmalformed,-⟩ := hok
  obtain ⟨s',new,hs',-,hnew⟩ := replayChain_spec (replayChain_bodies hs)
  obtain ⟨-,rfl⟩ := Prod.mk.inj (Except.ok.inj (hs'.symm.trans hs))
  have hchained := ((verify_problems hc).mp hchain).1
  exact fun r hr => ⟨hnew.mp hmalformed r hr,
    ChainedFrom.hash hchained r ((List.mem_insertionSort _).mpr hr)⟩

/-- verify_ledger returns a report that has a problem whenever some event does not decode and
fold or has another hash, exactly when every stored text is UTF-8, no event has a BLOB where
its hash needs text, no JSON that is read is nested beyond the recursion limit, and the ids that
are sorted together can be compared. -/
theorem verifyLedger_total_iff (H : Hasher) (deep : PyStr → Bool) (db : Db) (anchor : Anchor)
    (hseq : ∀ r ∈ db.events, IsInt64 r.seq) :
    (∃ report, verifyStored H deep db anchor = .ok report ∧
      ((∃ r ∈ db.events, ¬r.Folds ∨ ¬r.HashMatches H) → report.ok = false)) ↔
    Verifiable deep db := by
  rw [← verifyStored_total H anchor hseq]
  refine exists_congr fun report => and_iff_left_of_imp fun h => ?_
  rintro ⟨r,hr,hbad⟩
  by_contra hok
  obtain ⟨hfolds,hhash⟩ := verifyStored_sound h (by simpa using hok) r hr
  exact hbad.elim (fun hn => hn hfolds) fun hn => hn hhash

/-- A ledger whose chain is one event. -/
def oneEvent (r : EventRow) : Db := {Db.new with events := [r]}

lemma oneEvent_seq (c : TextCell) :
    ∀ r ∈ (oneEvent {failedRow1 with kind := c}).events, IsInt64 r.seq := by
  intro r hr
  obtain rfl := List.mem_singleton.mp hr
  change -(2^63) ≤ (1 : ℤ) ∧ (1 : ℤ) < 2^63
  norm_num

theorem verifyLedger_total_iff_failed : ∃ report,
    verifyStored .checksum (fun _ => false) (oneEvent failedRow1) none = .ok report ∧
      ((∃ r ∈ (oneEvent failedRow1).events, ¬r.Folds ∨ ¬r.HashMatches .checksum) → report.ok = false) := by
  refine (verifyLedger_total_iff .checksum (fun _ => false) (oneEvent failedRow1) none
    (oneEvent_seq failedRow1.kind)).mpr ⟨by decide +kernel,?_,?_,?_,?_⟩
  · intro r hr
    obtain rfl := List.mem_singleton.mp hr
    simp [EventRow.hashed,failedRow1,failedRow,TextCell.bytes?]
  · intro r hr
    obtain rfl := List.mem_singleton.mp hr
    rfl
  · intro id r hr
    cases hr
  · have hno : ∀ t x, ¬(x ∈ (oneEvent failedRow1).ids t ∨
        ∃ r ∈ (oneEvent failedRow1).events, x = r.subject ∧ r.EntersIn t) := by
      rintro t x (hx | ⟨r,hr,-,b,-,hb⟩)
      · cases t <;> cases hx
      · obtain rfl := List.mem_singleton.mp hr
        cases t <;> simp [Enters,failedRow1,failedRow] at hb
    exact fun t x y hx => absurd hx (hno t x)

/-- An event whose kind was overwritten with bytes ends verification with a TypeError. -/
theorem verifyLedger_raises : ¬∀ (H : Hasher) (deep : PyStr → Bool) (db : Db) (anchor : Anchor),
    (∀ r ∈ db.events, IsInt64 r.seq) → ∃ report, verifyStored H deep db anchor = .ok report := by
  intro hall
  have hseq := oneEvent_seq (.blob [])
  have hv := (verifyStored_total .checksum none hseq).mp (hall .checksum (fun _ => false) _ none hseq)
  have := hv.hashed _ (List.mem_singleton_self _) (.blob []) (by simp [EventRow.hashed])
  cases this

end Reports

end Stele
