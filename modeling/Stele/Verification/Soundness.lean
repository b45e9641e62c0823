import Stele.Archive.Writable
import Stele.Ledger.TransactionExit
import Stele.Verification.Report

/-! What a passed report vouches for: every document ran on every lane, and every sealed run
is the record that the journal names. Of the bundle itself it vouches only for what was read
from the archive. -/
namespace Stele
open Python

variable {H : Hasher} {U : Unicode} {E : ReportEnv} {x : ReportInputs}

/-- The latest observation of a document on a lane. -/
def observed (x : ReportInputs) (path name : PyStr) : Option Observation :=
  Dict.get (latestObservations x.journal.observations) (path,name)

section Records

/-- The record that a sealed observation names is that run: sealed, on this lane's backend, by
the campaign's parser and configuration, from this document. -/
structure RunOf (H : Hasher) (x : ReportInputs) (o : Observation) (sha256 : PyStr)
    (r : ArtifactRecord) : Prop where
  record : observedRecord x o = .ok r
  sealed : r.state = .sealed
  run : r.runId = .ofOption o.runId ∧ r.artifactHash = .ofOption o.artifactHash
  parser : ∃ p, r.parser = some p ∧ NameVersion.mk p.name p.version = x.journal.header.parser
  backend : r.backend = .ofOption (laneBackend x o.lane)
  config : ∃ c, r.parserConfig = some c ∧ configDigest H c = .ok x.journal.header.parserConfigDigest
  source : r.sourceHash = .text sha256

/-- check found nothing: the run is what it should be, its files are intact somewhere, and
nobody else cited the record before. -/
structure Cleared (H : Hasher) (E : ReportEnv) (x : ReportInputs) (claimed : Dict PyStr PyStr)
    (o : Observation) (sha256 : PyStr) (r : ArtifactRecord) : Prop where
  run : RunOf H x o sha256 r
  intact : ∃ v, validateArtifact H E.disk x.archive r = .ok v ∧ (v.status = .ok ∨ v.status = .archived)
  first : claimed.get r.recordId.get = some (claimantOf o)

/-- What was claimed stays claimed by the same. -/
def Keeps (claimed claimed' : Dict PyStr PyStr) : Prop :=
  ∀ id first, claimed.get id = some first → claimed'.get id = some first

lemma Cleared.keeps {claimed claimed' : Dict PyStr PyStr} {o : Observation} {sha256 : PyStr}
    {r : ArtifactRecord} (h : Cleared H E x claimed o sha256 r) (hk : Keeps claimed claimed') :
    Cleared H E x claimed' o sha256 r := ⟨h.run,h.intact,hk _ _ h.first⟩

lemma problemIf_nil {c : Bool} {p : ReportText} : problemIf c p = [] ↔ c = false := by
  cases c <;> simp [problemIf]

lemma recordMismatches_nil {o : Observation} {sha256 first : PyStr} {r : ArtifactRecord}
    {digest : Option PyStr} (hr : observedRecord x o = .ok r)
    (hd : ∀ d, digest = some d → ∃ c, r.parserConfig = some c ∧ configDigest H c = .ok d)
    (h : recordMismatches x o sha256 r digest first = []) :
    RunOf H x o sha256 r ∧ first = claimantOf o := by
  simp only [recordMismatches,List.append_eq_nil_iff,problemIf_nil,decide_eq_false_iff_not,
    not_not,not_or] at h
  obtain ⟨⟨⟨⟨⟨⟨hstate,hrun⟩,hparser⟩,hbackend⟩,hconfig⟩,hfirst⟩,hsource⟩ := h
  obtain ⟨p,hp,hpv⟩ := Option.map_eq_some_iff.mp hparser
  exact ⟨⟨hr,hstate,hrun,⟨p,hp,hpv⟩,hbackend,hd _ hconfig,hsource⟩,hfirst⟩

/-- One check: claims are kept, and without a problem the run is cleared. -/
lemma checkRecord_ok {claimed claimed' : Dict PyStr PyStr} {o : Observation} {sha256 : PyStr}
    {c : Checked} (h : checkRecord H U E x claimed o sha256 = .ok (c,claimed')) :
    Keeps claimed claimed' ∧ (c.problems = [] → ∃ r, Cleared H E x claimed' o sha256 r) := by
  unfold checkRecord at h
  split at h
  · obtain ⟨rfl,rfl⟩ := Prod.mk.inj (Except.ok.inj h)
    exact ⟨fun _ _ h => h,fun hp => absurd hp (List.cons_ne_nil _ _)⟩
  · cases h
  rename_i r hr
  obtain ⟨digest,hdigest,h⟩ := except_bind_ok.mp h
  obtain ⟨v,hv,h⟩ := except_bind_ok.mp h
  have hd : ∀ d, digest = some d → ∃ c, r.parserConfig = some c ∧ configDigest H c = .ok d := by
    rintro d rfl
    unfold recordDigest at hdigest
    cases hc : r.parserConfig with
    | none => rw [hc] at hdigest; cases hdigest
    | some config =>
      rw [hc] at hdigest
      simp only at hdigest
      cases hcd : configDigest H config with
      | error e => rw [hcd] at hdigest; cases hdigest
      | ok d' =>
        rw [hcd] at hdigest
        obtain rfl := Option.some.inj (Except.ok.inj hdigest)
        exact ⟨config,rfl,hcd⟩
  have hkeep : Keeps claimed (claimed.setDefault r.recordId.get (claimantOf o)) :=
    fun _ _ hg => Dict.get_setDefault_some hg _ _
  have clear : recordMismatches x o sha256 r digest
      (((claimed.setDefault r.recordId.get (claimantOf o)).get r.recordId.get).getD []) = [] →
      (v.status = .ok ∨ v.status = .archived) →
      ∃ q, Cleared H E x (claimed.setDefault r.recordId.get (claimantOf o)) o sha256 q := by
    intro hm hs
    obtain ⟨hrun,hfirst⟩ := recordMismatches_nil hr hd hm
    refine ⟨r,hrun,⟨v,hv,hs⟩,?_⟩
    rw [Dict.get_setDefault] at hfirst ⊢
    exact congrArg some hfirst
  split_ifs at h with hs hx
  · obtain ⟨rfl,rfl⟩ := Prod.mk.inj (Except.ok.inj h)
    exact ⟨hkeep,fun hp => absurd hp (by simp)⟩
  · obtain ⟨⟨units,found⟩,_,h⟩ := except_bind_ok.mp h
    obtain ⟨rfl,rfl⟩ := Prod.mk.inj (Except.ok.inj h)
    exact ⟨hkeep,fun hp => clear (List.append_eq_nil_iff.mp hp).1 (by tauto)⟩
  · obtain ⟨rfl,rfl⟩ := Prod.mk.inj (Except.ok.inj h)
    exact ⟨hkeep,fun hp => clear hp (by tauto)⟩

end Records

section Loops

/-- The document has an observation on the lane, and a sealed one is cleared. -/
def PairCleared (H : Hasher) (E : ReportEnv) (x : ReportInputs) (claimed : Dict PyStr PyStr)
    (entry : CorpusEntry) (name : PyStr) : Prop :=
  ∃ o, observed x entry.path name = some o ∧
    (o.status = .sealed → ∃ r, Cleared H E x claimed o entry.sha256 r)

lemma PairCleared.keeps {claimed claimed' : Dict PyStr PyStr} {entry : CorpusEntry} {name : PyStr}
    (h : PairCleared H E x claimed entry name) (hk : Keeps claimed claimed') :
    PairCleared H E x claimed' entry name := by
  obtain ⟨o,ho,hc⟩ := h
  exact ⟨o,ho,fun hs => (hc hs).imp fun _ hr => hr.keeps hk⟩

lemma lane_keeps {entry : CorpusEntry} {s t : LaneScan} {name : PyStr}
    (h : s.lane H U E x entry name = .ok t) : Keeps s.claimed t.claimed := by
  unfold LaneScan.lane at h
  split at h
  · obtain rfl := Except.ok.inj h
    exact fun _ _ h => h
  · rename_i o _
    split_ifs at h with hs
    · obtain ⟨⟨c,claimed⟩,hc,h⟩ := except_bind_ok.mp h
      obtain rfl := Except.ok.inj h
      exact (checkRecord_ok hc).1
    · obtain rfl := Except.ok.inj h
      exact fun _ _ h => h

/-- One lane: without a problem and with nothing missing, the pair is cleared. -/
lemma lane_cleared {entry : CorpusEntry} {s t : LaneScan} {name : PyStr}
    (h : s.lane H U E x entry name = .ok t) (ht : t.problems = [] ∧ t.missing = 0) :
    (s.problems = [] ∧ s.missing = 0) ∧ PairCleared H E x t.claimed entry name := by
  unfold LaneScan.lane at h
  split at h
  · obtain rfl := Except.ok.inj h
    exact absurd ht.2 (Nat.succ_ne_zero _)
  · rename_i o ho
    split_ifs at h with hs
    · obtain ⟨⟨c,claimed⟩,hc,h⟩ := except_bind_ok.mp h
      obtain rfl := Except.ok.inj h
      obtain ⟨hp,hcp⟩ := List.append_eq_nil_iff.mp ht.1
      exact ⟨⟨hp,ht.2⟩,o,ho,fun _ => (checkRecord_ok hc).2 (List.map_eq_nil_iff.mp hcp)⟩
    · obtain rfl := Except.ok.inj h
      exact ⟨ht,o,ho,fun h => absurd h hs⟩

lemma lanes_sound (entry : CorpusEntry) : Scan.Sound (LaneScan.lane H U E x entry)
    (fun s => s.problems = [] ∧ s.missing = 0) (fun s name => PairCleared H E x s.claimed entry name) where
  keeps h hb := hb.keeps (lane_keeps h)
  element := lane_cleared

lemma lanes_keep {entry : CorpusEntry} {names : List PyStr} {s t : LaneScan}
    (h : names.foldlM (LaneScan.lane H U E x entry) s = .ok t) : Keeps s.claimed t.claimed :=
  Scan.keeps (P := fun u => Keeps s.claimed u.claimed)
    (fun hst hs id first hg => lane_keeps hst id first (hs id first hg)) h fun _ _ h => h

/-- One document. -/
lemma documents_sound (index : List Waiver) : Scan.Sound (Tally.document H U E x index)
    (fun t => t.integrity = [] ∧ t.missing = 0)
    (fun t entry => ∀ name ∈ lanes x, PairCleared H E x t.claimed entry name) where
  keeps {t entry t' b} h hb := by
    obtain ⟨s,hs,h⟩ := except_bind_ok.mp h
    obtain ⟨c,_,h⟩ := except_bind_ok.mp h
    obtain rfl := Except.ok.inj h
    exact fun name hn => (hb name hn).keeps (lanes_keep hs)
  element {t entry t'} h ht := by
    obtain ⟨s,hs,h⟩ := except_bind_ok.mp h
    obtain ⟨c,_,h⟩ := except_bind_ok.mp h
    obtain rfl := Except.ok.inj h
    obtain ⟨hi,hp⟩ := List.append_eq_nil_iff.mp ht.1
    obtain ⟨⟨_,hm⟩,hall⟩ := (lanes_sound entry).run hs ⟨List.map_eq_nil_iff.mp hp,ht.2⟩
    exact ⟨⟨hi,hm⟩,hall⟩

/-- A report that passed has cleared every pair, all of them with the same claims. -/
theorem passed_cleared {f : Findings} (h : findingsOf H U E x = .ok f) (hp : f.passed = true) :
    ∃ claimed, ∀ entry ∈ x.corpus.entries, ∀ name ∈ lanes x,
      PairCleared H E x claimed entry name := by
  unfold findingsOf at h
  obtain ⟨corpusId,_,h⟩ := except_bind_ok.mp h
  split_ifs at h with hid
  · cases h
  obtain ⟨index,_,h⟩ := except_bind_ok.mp h
  obtain ⟨t,ht,h⟩ := except_bind_ok.mp h
  obtain ⟨ledger,_,h⟩ := except_bind_ok.mp h
  obtain ⟨summary,_,h⟩ := except_bind_ok.mp h
  obtain ⟨gateRows,hg,h⟩ := except_bind_ok.mp h
  obtain rfl := Except.ok.inj h
  unfold gatesOf at hg
  obtain ⟨corpus,_,hg⟩ := except_bind_ok.mp hg
  by_cases hb : x.journal.header.baseline ∈ lanes x
  swap
  · rw [if_pos hb] at hg
    cases hg
  rw [if_neg (not_not.mpr hb)] at hg
  obtain ⟨rest,_,hg⟩ := except_bind_ok.mp hg
  obtain rfl := Except.ok.inj hg
  simp only [Findings.passed,fixedGates,List.all_append,List.all_cons,Bool.and_eq_true,
    decide_eq_true_eq,List.isEmpty_iff] at hp
  obtain ⟨_,⟨⟨hm,_⟩,_,_,hi,_⟩,_⟩ := hp
  exact ⟨t.claimed,((documents_sound index).run ht ⟨hi,hm⟩).2⟩

end Loops

section Bundles

/-- The bundle of a record verifies in the archive. -/
def Archived (H : Hasher) (x : ReportInputs) (r : ArtifactRecord) : Prop :=
  ∃ hash, r.artifactHash = .text hash ∧
    verifyArchivedBundle H x.archive hash r.artifactManifest = .ok ()

/-- Its tree object is in the archive, and decodes to its manifest. -/
def TreeArchived (H : Hasher) (x : ReportInputs) (r : ArtifactRecord) : Prop :=
  ∃ hash m, r.artifactHash = .text hash ∧ x.archive.readTree H hash = .ok m ∧
    m.toPy.pyEq r.artifactManifest = true

/-- Each of its files that lies on disk with its hash is in the archive as well. -/
def DiskArchived (H : Hasher) (E : ReportEnv) (x : ReportInputs) (r : ArtifactRecord) : Prop :=
  ∀ dir items, r.artifactDir = .text dir → manifestItems r.artifactManifest = .ok items →
    ∀ p ∈ items, ∀ actual, E.disk (.ofStr dir) (.ofStr p.1) = .ok actual →
      (PyVal.str actual).pyEq p.2 = true → verifyBlob H x.archive p.2 = .ok ()

lemma manifestDigests_items {v : PyVal} {items : List (PyStr × PyVal)}
    (h : manifestItems v = .ok items) : manifestDigests v = .ok (items.map Prod.snd) := by
  cases v with
  | dict kvs =>
    have hf := mapM_ok.mp h
    refine congrArg Except.ok ?_
    induction hf with
    | nil => rfl
    | @cons p q kvs items hp _ ih =>
      have hq : p.2 = q.2 := by
        cases hk : p.1 with
        | str s =>
          rw [hk] at hp
          exact congrArg Prod.snd (Except.ok.inj hp)
        | _ => rw [hk] at hp; cases hp
      rw [List.map_cons,List.map_cons,hq,ih (mapM_ok.mpr ‹_›)]
  | _ => cases h

lemma forM_ok {α : Type} {f : α → Except Exc Unit} {xs : List α} :
    xs.forM f = .ok () ↔ ∀ a ∈ xs, f a = .ok () := by
  induction xs with
  | nil => exact ⟨fun _ => List.forall_mem_nil _,fun _ => rfl⟩
  | cons a xs ih =>
    rw [List.forall_mem_cons,← ih]
    change (f a >>= fun _ => xs.forM f) = .ok () ↔ _
    rw [except_bind_ok]
    exact ⟨fun ⟨_,ha,hxs⟩ => ⟨ha,hxs⟩,fun ⟨ha,hxs⟩ => ⟨_,ha,hxs⟩⟩

/-- For a run whose files are intact somewhere, this is what the archive still has to hold. -/
lemma archived_iff {r : ArtifactRecord} {v : ValidationResult}
    (hv : validateArtifact H E.disk x.archive r = .ok v) (hs : v.status = .ok ∨ v.status = .archived) :
    Archived H x r ↔ TreeArchived H x r ∧ DiskArchived H E x r := by
  obtain ⟨dir,items,hdir,hitems,hintact⟩ := validateArtifact_intact hv hs
  have hdigests := manifestDigests_items hitems
  have hbundle : ∀ hash, verifyArchivedBundle H x.archive hash r.artifactManifest = .ok () ↔
      (∃ m, x.archive.readTree H hash = .ok m ∧ m.toPy.pyEq r.artifactManifest = true) ∧
        ∀ p ∈ items, verifyBlob H x.archive p.2 = .ok () := by
    intro hash
    unfold verifyArchivedBundle
    rw [except_bind_ok]
    constructor
    · rintro ⟨m,hm,h⟩
      split_ifs at h with heq
      rw [hdigests] at h
      exact ⟨⟨m,hm,by simpa using heq⟩,fun p hp => forM_ok.mp h _ (List.mem_map_of_mem hp)⟩
    · rintro ⟨⟨m,hm,heq⟩,hall⟩
      refine ⟨m,hm,?_⟩
      rw [if_neg (by simp [heq]),hdigests]
      refine forM_ok.mpr fun d hd => ?_
      obtain ⟨p,hp,rfl⟩ := List.mem_map.mp hd
      exact hall p hp
  constructor
  · rintro ⟨hash,hh,hb⟩
    obtain ⟨⟨m,hm,heq⟩,hall⟩ := (hbundle hash).mp hb
    refine ⟨⟨hash,m,hh,hm,heq⟩,fun dir' items' _ hi p hp _ _ _ => ?_⟩
    rw [hitems] at hi
    exact hall p (Except.ok.inj hi ▸ hp)
  · rintro ⟨⟨hash,m,hh,hm,heq⟩,hdisk⟩
    refine ⟨hash,hh,(hbundle hash).mpr ⟨⟨m,hm,heq⟩,fun p hp => ?_⟩⟩
    rcases hintact p hp with ⟨actual,ha,heq⟩ | ⟨_,ha⟩
    · exact hdisk dir items hdir hitems p hp actual ha heq
    · exact ha

end Bundles

section Reports

/-- The latest observation of a document of the corpus on a lane of the campaign. -/
def Latest (x : ReportInputs) (entry : CorpusEntry) (name : PyStr) (o : Observation) : Prop :=
  entry ∈ x.corpus.entries ∧ name ∈ lanes x ∧ observed x entry.path name = some o

/-- What a passed report is to mean. -/
structure ReportSound (H : Hasher) (x : ReportInputs) : Prop where
  covered : ∀ entry ∈ x.corpus.entries, ∀ name ∈ lanes x, ∃ o, Latest x entry name o
  backed : ∀ {entry name o}, Latest x entry name o → o.status = .sealed →
    ∃ r, RunOf H x o entry.sha256 r ∧ Archived H x r
  alone : ∀ {entry name o entry' name' o'}, Latest x entry name o → o.status = .sealed →
    Latest x entry' name' o' → o'.recordId = o.recordId → entry'.path = entry.path ∧ name' = name

/-- The archive holds the tree of every sealed run, and what of its files the disk holds; and two
pairs that name one record are both sealed and told apart by the text "<path> [<lane>]". -/
structure Vouched (H : Hasher) (E : ReportEnv) (x : ReportInputs) : Prop where
  archive : ∀ {entry name o r}, Latest x entry name o → o.status = .sealed →
    observedRecord x o = .ok r → TreeArchived H x r ∧ DiskArchived H E x r
  claims : ∀ {entry name o entry' name' o'}, Latest x entry name o → o.status = .sealed →
    Latest x entry' name' o' → o'.recordId = o.recordId →
    (entry'.path = entry.path ∧ name' = name) ∨ (o'.status = .sealed ∧ claimantOf o' ≠ claimantOf o)

lemma Latest.cleared {claimed : Dict PyStr PyStr} {entry : CorpusEntry} {name : PyStr} {o : Observation}
    (hall : ∀ entry ∈ x.corpus.entries, ∀ name ∈ lanes x, PairCleared H E x claimed entry name)
    (h : Latest x entry name o) (hs : o.status = .sealed) :
    ∃ r, Cleared H E x claimed o entry.sha256 r := by
  obtain ⟨he,hn,ho⟩ := h
  obtain ⟨o',ho',hc⟩ := hall entry he name hn
  obtain rfl := Option.some.inj (ho'.symm.trans ho)
  exact hc hs

lemma itemAt_ne {k l : String} {v : PyVal} {kvs : List (PyKey × PyVal)} (h : k ≠ l) :
    itemAt (.dict ((.str (lit k),v) :: kvs)) l = itemAt (.dict kvs) l := by
  simp only [itemAt,find_lit_ne h]

lemma itemAt_self {k : String} {v : PyVal} {kvs : List (PyKey × PyVal)} :
    itemAt (.dict ((.str (lit k),v) :: kvs)) k = .ok v := by
  simp only [itemAt,find_lit,Option.elim_some]

/-- The data of a report says whether every gate passed. -/
lemma reportItems_passed {f : Findings} {corpusId : PyStr} {policy : PyVal} {canonical : Bytes} :
    VerificationReport.passed ⟨.dict (reportItems E x f corpusId policy),canonical⟩ = .ok f.passed := by
  have hitem : itemAt (.dict (reportItems E x f corpusId policy)) "passed" = .ok (.bool f.passed) := by
    unfold reportItems
    iterate 15 rw [itemAt_ne (by decide)]
    exact itemAt_self
  rw [VerificationReport.passed,hitem]
  rfl

lemma buildReport_passed {report : VerificationReport} (h : buildReport H U E x = .ok report)
    (hp : report.passed = .ok true) : ∃ f, findingsOf H U E x = .ok f ∧ f.passed = true := by
  obtain ⟨f,hf,h⟩ := except_bind_ok.mp h
  obtain ⟨corpusId,_,h⟩ := except_bind_ok.mp h
  obtain ⟨policy,_,h⟩ := except_bind_ok.mp h
  obtain ⟨canonical,_,h⟩ := except_bind_ok.mp h
  obtain rfl := Except.ok.inj h
  rw [reportItems_passed] at hp
  exact ⟨f,hf,Except.ok.inj hp⟩

/-- A passed report means what it should exactly when the archive itself holds what was only
read from disk, and no two pairs that share a record look the same. -/
theorem passed_report_sound_iff (H : Hasher) (U : Unicode) (E : ReportEnv) (x : ReportInputs)
    (report : VerificationReport) (h : buildReport H U E x = .ok report)
    (hp : report.passed = .ok true) : ReportSound H x ↔ Vouched H E x := by
  obtain ⟨f,hf,hfp⟩ := buildReport_passed h hp
  obtain ⟨claimed,hall⟩ := passed_cleared hf hfp
  constructor
  · intro hs
    refine ⟨fun hl hsealed hr => ?_,fun hl hsealed hl' hid => Or.inl (hs.alone hl hsealed hl' hid)⟩
    obtain ⟨q,hq⟩ := hl.cleared hall hsealed
    obtain ⟨q',hrun,harch⟩ := hs.backed hl hsealed
    obtain rfl := Except.ok.inj (hq.run.record.symm.trans hr)
    obtain rfl := Except.ok.inj (hrun.record.symm.trans hr)
    obtain ⟨v,hv,hok⟩ := hq.intact
    exact (archived_iff hv hok).mp harch
  · intro hv
    refine ⟨fun entry he name hn => ?_,fun hl hsealed => ?_,fun hl hsealed hl' hid => ?_⟩
    · obtain ⟨o,ho,_⟩ := hall entry he name hn
      exact ⟨o,he,hn,ho⟩
    · obtain ⟨r,hr⟩ := hl.cleared hall hsealed
      obtain ⟨v,hval,hok⟩ := hr.intact
      exact ⟨r,hr.run,(archived_iff hval hok).mpr (hv.archive hl hsealed hr.run.record)⟩
    · rcases hv.claims hl hsealed hl' hid with hsame | ⟨hsealed',hne⟩
      · exact hsame
      -- both were cleared with the same claims, so they claim the record with one text
      obtain ⟨r,hr⟩ := hl.cleared hall hsealed
      obtain ⟨r',hr'⟩ := hl'.cleared hall hsealed'
      have hrec := hr'.run.record
      unfold observedRecord at hrec
      rw [hid,← observedRecord,hr.run.record] at hrec
      obtain rfl := Except.ok.inj hrec
      exact absurd (Option.some.inj (hr'.first.symm.trans hr.first)) hne

end Reports

section Written

variable {f : Findings} {corpusId : PyStr} {policy : PyVal}

/-- A gate without examples is written when its detail is. -/
lemma gateRow_writable {g : GateRow} (hd : Encodable (E.text g.detail)) (he : g.examples = []) :
    Writable (g.toPy E) := by
  rw [GateRow.toPy,if_pos he,List.append_nil,writable_keys (by simp)]
  simp [writable_str_iff,hd,writable_bool]

/-- A report is written when what it says of its inputs is, and what it found. -/
lemma reportItems_writable {db : Db} {f' : Findings}
    (h : Writable (.dict (reportItems E {x with db := db} f' corpusId policy)))
    (hhead : Writable (headPy (EventLog.head x.db.events)))
    (hdocs : Writable (.list f.tally.documents)) (hsummary : Writable f.summary)
    (hgates : ∀ g ∈ f.gateRows, Writable (g.toPy E)) :
    Writable (.dict (reportItems E x f corpusId policy)) := by
  have hledger : Writable (.dict [(.str (lit "head"),headPy (EventLog.head x.db.events)),
      (.str (lit "verified"),.bool f.ledgerOk)]) := by
    rw [writable_keys (by simp)]
    simp [hhead,writable_bool]
  have hrows : Writable (.list (f.gateRows.map (GateRow.toPy E))) :=
    writable_list (List.forall_mem_map.mpr hgates)
  rw [writable_keys (by simp [reportItems])] at h ⊢
  simp only [reportItems,List.forall_mem_cons] at h ⊢
  obtain ⟨h1,h2,h3,h4,h5,h6,h7,h8,h9,-,h11,h12,-⟩ := h
  exact ⟨h1,h2,h3,h4,h5,h6,h7,h8,h9,hledger,h11,h12,hdocs,hsummary,hrows,writable_bool _,List.forall_mem_nil _⟩

lemma ok_getD {α : Type} {r : Except Exc α} (d : α) (h : r.toOption.isSome = true) :
    r = .ok (r.toOption.getD d) := by
  cases r with
  | error e => cases h
  | ok a => rfl

lemma writable_of_isSome {v : PyVal} (h : (canonicalText v).toOption.isSome = true) : Writable v :=
  ⟨_,ok_getD [] h⟩

/-- A campaign in which nothing went wrong, with neither policy, thresholds nor waivers and nothing
to compare. -/
structure CleanRun (H : Hasher) (U : Unicode) (E : ReportEnv) (x : ReportInputs) (t : Tally) : Prop where
  policy : x.policy = none
  thresholds : x.gates.maxBaselineFailureRate = .none ∧ x.gates.maxSlowdown = .none
  waivers : x.waivers = []
  candidates : candidates x = []
  root : x.root = some (.ok [])
  baseline : x.journal.header.baseline ∈ lanes x
  produced : 0 < statusCount x x.journal.header.baseline .sealed
  documents : 0 < x.corpus.entries.length
  corpusId : x.corpus.corpusId H = .ok x.journal.header.corpusId
  tally : x.corpus.entries.foldlM (Tally.document H U E x []) .start = .ok t
  covered : t.missing = 0
  quiet : t.errors = [] ∧ t.integrity = [] ∧ t.unwaived = []
  ledger : ∃ r, verifyLedger H x.db none = .ok r ∧ r.chain.problems = [] ∧ r.problems = []

/-- The gate passes, has no examples, and says a literal or has values in it. -/
structure GateRow.Clean (g : GateRow) : Prop where
  passed : g.passed = true
  examples : g.examples = []
  detail : ∀ {s}, g.detail = .plain s → Encodable s

namespace CleanRun

variable {t : Tally}

lemma gates (h : CleanRun H U E x t) {r : LedgerReport} (hc : r.chain.problems = []) (hp : r.problems = []) :
    ∃ rows, gatesOf E x [] t r = .ok rows ∧ ∀ g ∈ rows, g.Clean := by
  obtain ⟨herrors,hintegrity,hunwaived⟩ := h.quiet
  have hcorpus : corpusGate x = .ok ⟨"corpus_unchanged",true,.corpusChanged 0,[]⟩ := by
    rw [corpusGate,h.root]
    rfl
  have hthresholds : thresholdGates E x t = .ok [] := by
    rw [thresholdGates,h.thresholds.1,h.thresholds.2]
    rfl
  refine ⟨⟨"corpus_unchanged",true,.corpusChanged 0,[]⟩ :: (fixedGates x [] t r++[]),?_,?_⟩
  · rw [gatesOf,hcorpus]
    simp only [hthresholds,h.baseline,not_true_eq_false,if_false,bind,Except.bind]
    rfl
  · have hledger : GateRow.Clean ⟨"ledger_verified",r.ok,.plain (lit (if r.ok then
        "the event chain and the ledger tables agree" else "the ledger does not verify")),
        r.chain.problems.map .chain++r.problems.map .ledger⟩ :=
      ⟨by simp [LedgerReport.ok,hc,hp],by simp [hc,hp],fun hs => ReportText.plain.inj hs ▸ encodable_lit _⟩
    simp only [List.append_nil,fixedGates,List.forall_mem_cons]
    exact ⟨⟨rfl,rfl,nofun⟩,⟨decide_eq_true ⟨h.covered,h.documents⟩,rfl,nofun⟩,
      ⟨decide_eq_true h.produced,rfl,nofun⟩,⟨List.isEmpty_iff.mpr herrors,herrors,nofun⟩,
      ⟨List.isEmpty_iff.mpr hintegrity,hintegrity,nofun⟩,hledger,
      ⟨List.isEmpty_iff.mpr hunwaived,hunwaived,nofun⟩,⟨rfl,rfl,nofun⟩,List.forall_mem_nil _⟩

lemma summary (h : CleanRun H U E x t) : summaryOf E x t = summaryOf E x .start := by
  simp only [summaryOf,h.candidates,List.mapM_nil]

/-- The findings pass. -/
lemma findings (h : CleanRun H U E x t) {summary : PyVal} (hs : summaryOf E x t = .ok summary) :
    ∃ rows ledgerOk, findingsOf H U E x = .ok ⟨t,rows,ledgerOk,summary⟩ ∧ ∀ g ∈ rows, g.Clean := by
  obtain ⟨r,hr,hc,hp⟩ := h.ledger
  obtain ⟨rows,hrows,hclean⟩ := h.gates hc hp
  have hindex : waiverIndex x = .ok [] := by
    rw [waiverIndex,h.waivers]
    rfl
  refine ⟨rows,r.ok,except_bind_ok.mpr ⟨_,h.corpusId,?_⟩,hclean⟩
  rw [if_neg (not_not_intro rfl)]
  exact except_bind_ok.mpr ⟨_,hindex,except_bind_ok.mpr ⟨t,h.tally,except_bind_ok.mpr ⟨r,hr,
    except_bind_ok.mpr ⟨summary,hs,except_bind_ok.mpr ⟨rows,hrows,rfl⟩⟩⟩⟩⟩

/-- The report passes, if it can be written. -/
lemma report (h : CleanRun H U E x t) {summary : PyVal} (hs : summaryOf E x t = .ok summary)
    (htext : ∀ {p : ReportText}, (∀ {s}, p = .plain s → Encodable s) → Encodable (E.text p))
    (hdocs : Writable (.list t.documents)) (hsummary : Writable summary)
    (hhead : Writable (headPy (EventLog.head x.db.events)))
    (hheader : Writable (.dict (reportItems E {x with db := Db.new} ⟨.start,[],true,.none⟩
      x.journal.header.corpusId .none))) :
    ∃ report, buildReport H U E x = .ok report ∧ report.passed = .ok true := by
  obtain ⟨rows,ledgerOk,hf,hclean⟩ := h.findings hs
  have hgates : ∀ g ∈ rows, Writable (g.toPy E) := fun g hg =>
    gateRow_writable (htext (hclean g hg).detail) (hclean g hg).examples
  obtain ⟨text,ht⟩ : Writable (.dict (reportItems E x ⟨t,rows,ledgerOk,summary⟩ x.journal.header.corpusId .none)) :=
    reportItems_writable hheader hhead hdocs hsummary hgates
  have hc : canonicalJson (.dict (reportItems E x ⟨t,rows,ledgerOk,summary⟩ x.journal.header.corpusId .none)) =
      .ok (utf8 text) := by
    rw [canonicalJson,ht]
    rfl
  have hp : describePolicy x = .ok .none := by
    rw [describePolicy,h.policy]
  have hpassed : Findings.passed ⟨t,rows,ledgerOk,summary⟩ = true :=
    List.all_eq_true.mpr fun g hg => (hclean g hg).passed
  exact ⟨_,except_bind_ok.mpr ⟨_,hf,except_bind_ok.mpr ⟨_,h.corpusId,except_bind_ok.mpr ⟨_,hp,
    except_bind_ok.mpr ⟨_,hc,rfl⟩⟩⟩⟩,reportItems_passed.trans (congrArg _ hpassed)⟩

end CleanRun

end Written

section Sample

/-- The document that a sample run read. -/
def sampleInput : Snapshot where
  kind := .file
  digest := Hasher.checksum.hexdigest [100]
  size := 1
  fileCount := 1
  digest_form := Hasher.checksum.digest_form _
  one_file := fun _ => rfl

/-- An archive that holds it. -/
def sampleArchive : Archive where
  blobs d := if d = sampleInput.digest then some [100] else none
  snapshots k d := if k = .file ∧ d = sampleInput.digest then sampleInput.toCanonical.toOption else none
  sources _ := none

/-- The ledger after the run was recorded and sealed. -/
def sampleRun : World :=
  (LedgerCall.prog .checksum (.sealRecord sampleEnv (lit "r1"))).final
    ((LedgerCall.prog .checksum (.createPending sampleEnv
      { samplePending with inputSnapshot := some sampleInput, backend := some (lit "b") })).final
        (World.new sampleArchive))

def sampleCorpus : Corpus where
  name := lit "c"
  entries := [⟨lit "a",sampleInput.digest,1,by decide,sampleInput.digest_form⟩]
  excluded := []
  name_ne := by decide
  sorted := List.pairwise_singleton _ _
  unique := List.nodup_singleton _
  excluded_sorted := List.Pairwise.nil
  disjoint := List.forall_mem_nil _

/-- Its one document was sealed on its one lane. -/
def sampleObservation : Observation where
  path := lit "a"
  lane := lit "b"
  status := .sealed
  backend := some (lit "b")
  runId := some (lit "run")
  recordId := some (lit "r1")
  artifactHash := (findRecord sampleRun.db (lit "r1")).map fun r => r.artifactHash.get
  failure := none
  telemetry := none
  detail := none

/-- The texts of a report in which nothing went wrong. -/
def sampleText : ReportText → PyStr
  | .plain s => s
  | .corpusChanged 0 => lit "every document still hashes as in the manifest"
  | .coverage 1 1 false => lit "1/1 document-lane runs observed"
  | .baselineSealed 1 => lit "the baseline sealed 1 document(s)"
  | .runErrors 0 => lit "no Stele, host or containment errors"
  | .integrityProblems 0 => lit "every sealed record verifies against the ledger, archive and corpus"
  | .unwaivedFindings 0 => lit "every candidate agrees with the baseline or is waived"
  | .unusedWaivers 0 => lit "every waiver matches a finding"
  | _ => []

/-- The output still lies where the run left it. There are no numbers to compute with. -/
def sampleReportEnv : ReportEnv where
  disk _ _ := .ok (Hasher.checksum.hexdigest [104,105])
  now := lit "t2"
  floats := ⟨fun _ => .error .typeError,fun _ _ => .error .typeError,fun _ => .error .typeError,
    fun _ => .error .typeError,fun _ _ => .error .typeError,fun _ _ => .error .typeError,fun _ _ => .none⟩
  text := sampleText

/-- The campaign over it, reported on with an archive that holds nothing. -/
def sampleInputs : ReportInputs where
  db := sampleRun.db
  archive := .empty
  corpus := sampleCorpus
  journal := ⟨⟨(sampleCorpus.corpusId .checksum).toOption.getD [],[⟨lit "b",lit "b"⟩],lit "b",
    ⟨lit "p",lit "1"⟩,(configDigest .checksum (.dict [])).toOption.getD []⟩,[sampleObservation]⟩
  root := some (.ok [])
  policy := none
  gates := ⟨.none,.none,.bool true⟩
  waivers := []

/-- The same with the bundle of the run in the archive. -/
def archivedInputs : ReportInputs :=
  {sampleInputs with archive := ((Archive.empty.putBytes .checksum [104,105]).2.putTree .checksum
    [(lit "a.txt",Hasher.checksum.hexdigest [104,105])]).2}

/-- The arguments of the run. -/
def sampleArgs : PendingArgs :=
  {samplePending with inputSnapshot := some sampleInput, backend := some (lit "b")}

def sampleColumns : InputColumns := ⟨some sampleInput.digest,some sampleInput.kind.value,none,none⟩

def sampleFiles : Manifest := [(lit "a.txt",Hasher.checksum.hexdigest [104,105])]

def sampleHash : PyStr := (sha256Manifest .checksum sampleFiles).toOption.getD []

def sampleManifest : PyStr := (manifestText sampleFiles).toOption.getD []

lemma sample_prepared : Prepared .checksum sampleEnv sampleArgs sampleColumns (lit "{}") none sampleFiles
    sampleHash sampleManifest where
  config := by decide +kernel
  conditions := rfl
  kind := rfl
  built := by decide +kernel
  hashed := ok_getD [] (by decide +kernel)
  text := ok_getD [] (by decide +kernel)

/-- The ledger between the two calls. -/
def sampleBetween : World := {World.new sampleArchive with db :=
  (writeTransaction (createTx .checksum sampleEnv.uuid sampleEnv.at' (pendingRow sampleEnv.uuid sampleEnv.now
    sampleArgs sampleColumns (.text (lit "{}")) (.ofOption none) sampleManifest sampleHash)) Db.new).2}

lemma sampleInput_written : sampleInput.toCanonical.toOption.isSome = true := by
  decide +kernel

lemma sampleRun_eq :
    sampleRun = (LedgerCall.prog .checksum (.sealRecord sampleEnv (lit "r1"))).final sampleBetween := by
  obtain ⟨data,hd⟩ : ∃ data, sampleInput.toCanonical = .ok data := ⟨_,ok_getD [] sampleInput_written⟩
  have hs : sampleArchive.snapshots .file sampleInput.digest = some data := by
    simp only [sampleArchive,and_self,if_true,hd,Except.toOption]
  have hh : sampleArchive.hasSnapshot sampleInput.digest .file = .ok true := by
    rw [Archive.hasSnapshot,sampleInput.digest_form,hs]
    rfl
  have hg : sampleArchive.getSnapshot sampleInput.digest .file = .ok sampleInput := by
    rw [Archive.getSnapshot,if_neg (by simp [sampleInput.digest_form]),hs]
    simp only [Snapshot.fromCanonical_toCanonical hd]
    exact if_pos ⟨rfl,trivial⟩
  have hbetween : (LedgerCall.prog .checksum (.createPending sampleEnv sampleArgs)).final
      (World.new sampleArchive) = sampleBetween :=
    (Op.outcome_final _ _).trans (createPending_exec (w := World.new sampleArchive) sample_prepared
      (List.cons_ne_nil _ _) (recordInput_exec hh hg))
  exact congrArg (LedgerCall.prog .checksum (.sealRecord sampleEnv (lit "r1"))).final hbetween

/-- Nothing went wrong, and what is said of the documents is written. -/
def Tally.fits (t : Tally) : Bool :=
  decide (t.missing = 0) && t.errors.isEmpty && t.integrity.isEmpty && t.unwaived.isEmpty &&
    (canonicalText (.list t.documents)).toOption.isSome

/-- Nothing went wrong in either campaign. -/
lemma sample_tallies :
    ((sampleInputs.corpus.entries.foldlM (Tally.document .checksum .ascii sampleReportEnv sampleInputs [])
      .start).map Tally.fits).toOption = some true ∧
    ((sampleInputs.corpus.entries.foldlM (Tally.document .checksum .ascii sampleReportEnv archivedInputs [])
      .start).map Tally.fits).toOption = some true ∧
    (canonicalText (headPy (EventLog.head sampleInputs.db.events))).toOption.isSome = true := by
  unfold archivedInputs sampleInputs sampleObservation
  rw [sampleRun_eq]
  decide +kernel

/-- In the second archive the bundle verifies. -/
lemma archived_bundle :
    (observedRecord archivedInputs sampleObservation).bind (fun r => match r.artifactHash with
      | .text hash => verifyArchivedBundle .checksum archivedInputs.archive hash r.artifactManifest
      | _ => .error .typeError) = .ok () := by
  unfold archivedInputs sampleInputs sampleObservation
  rw [sampleRun_eq]
  decide +kernel

lemma sample_summary :
    ((summaryOf sampleReportEnv sampleInputs .start).bind canonicalText).toOption.isSome = true := by
  unfold sampleInputs sampleObservation
  rw [sampleRun_eq]
  decide +kernel

lemma sample_header : (canonicalText (.dict (reportItems sampleReportEnv {sampleInputs with db := Db.new}
    ⟨.start,[],true,.none⟩ sampleInputs.journal.header.corpusId .none))).toOption.isSome = true := by
  decide +kernel

lemma sampleText_encodable {p : ReportText} (h : ∀ {s}, p = .plain s → Encodable s) :
    Encodable (sampleText p) := by
  unfold sampleText
  split
  case h_1 => exact h rfl
  all_goals first
    | exact encodable_lit _
    | exact encodable_nil

/-- The ledger of the run verifies. -/
lemma sampleRun_verifies : ∃ r, verifyLedger .checksum sampleRun.db none = .ok r ∧
    r.chain.problems = [] ∧ r.problems = [] :=
  (LedgerCall.consistent_final _ (LedgerCall.consistent_final (w := World.new sampleArchive) _ consistent_new)).verify

lemma ReportInputs.eta (x : ReportInputs) :
    x = ⟨x.db,x.archive,x.corpus,x.journal,x.root,x.policy,x.gates,x.waivers⟩ := rfl

lemma sample_campaign : candidates sampleInputs = [] ∧ sampleInputs.journal.header.baseline ∈ lanes sampleInputs ∧
    0 < statusCount sampleInputs sampleInputs.journal.header.baseline .sealed ∧
    sampleInputs.corpus.corpusId .checksum = .ok sampleInputs.journal.header.corpusId := by
  decide +kernel

lemma ReportInputs.mk_db (w : World) {a : Archive} {c : Corpus} {j : Journal}
    {root : Option (Except Exc (List PyStr))} {p : Option ComparisonPolicy} {g : Gates} {ws : List Waiver} :
    (ReportInputs.mk w.db a c j root p g ws).db = w.db := rfl

-- the equation by unfolding would have the run evaluated
lemma sampleInputs_db : sampleInputs.db = sampleRun.db := ReportInputs.mk_db sampleRun

/-- Whatever the archive, the campaign is clean if its tally is. -/
lemma sample_clean {a : Archive} {t : Tally} (hx : x = sampleInputs)
    (ht : x.corpus.entries.foldlM (Tally.document .checksum .ascii sampleReportEnv {x with archive := a} [])
      .start = .ok t) (hmissing : t.missing = 0)
    (hquiet : t.errors = [] ∧ t.integrity = [] ∧ t.unwaived = []) :
    CleanRun .checksum .ascii sampleReportEnv {x with archive := a} t := by
  obtain ⟨hcandidates,hbaseline,hproduced,hid⟩ := sample_campaign
  have hdb : x.db = sampleRun.db := hx ▸ sampleInputs_db
  rw [← hx] at hcandidates hbaseline hproduced hid
  exact {
    policy := by rw [hx]; rfl
    thresholds := by rw [hx]; exact ⟨rfl,rfl⟩
    waivers := by rw [hx]; rfl
    candidates := hcandidates
    root := by rw [hx]; rfl
    baseline := hbaseline
    produced := hproduced
    documents := by rw [hx]; exact Nat.zero_lt_one
    corpusId := hid
    tally := ht
    covered := hmissing
    quiet := hquiet
    ledger := hdb ▸ sampleRun_verifies }

/-- And then the report is built. -/
lemma sample_report {y : ReportInputs} {a : Archive} (hx : x = sampleInputs) (hy : y = {x with archive := a})
    (h : ((x.corpus.entries.foldlM (Tally.document .checksum .ascii sampleReportEnv y [])
      .start).map Tally.fits).toOption = some true) :
    ∃ report, buildReport .checksum .ascii sampleReportEnv y = .ok report ∧ report.passed = .ok true := by
  subst hy
  have hhead := sample_tallies.2.2
  have hheader := sample_header
  have hsummary := sample_summary
  rw [← hx] at hhead hheader hsummary
  cases ht : x.corpus.entries.foldlM (Tally.document .checksum .ascii sampleReportEnv {x with archive := a} [])
    .start with
  | error e => rw [ht] at h; cases h
  | ok t =>
    rw [ht] at h
    have hfits : t.fits = true := Option.some.inj h
    simp only [Tally.fits,Bool.and_eq_true,decide_eq_true_eq,List.isEmpty_iff] at hfits
    obtain ⟨⟨⟨⟨hmissing,herrors⟩,hintegrity⟩,hunwaived⟩,hdocs⟩ := hfits
    have hclean := sample_clean hx ht hmissing ⟨herrors,hintegrity,hunwaived⟩
    cases hs : summaryOf sampleReportEnv x .start with
    | error e => rw [hs] at hsummary; cases hsummary
    | ok summary =>
      rw [hs] at hsummary
      exact hclean.report (hclean.summary.trans hs) sampleText_encodable (writable_of_isSome hdocs)
        (writable_of_isSome hsummary) (writable_of_isSome hhead) (writable_of_isSome hheader)

lemma archived_latest {entry : CorpusEntry} {name : PyStr} {o : Observation} (h : Latest archivedInputs entry name o) :
    entry.path = lit "a" ∧ name = lit "b" ∧ o = sampleObservation := by
  obtain ⟨he,hn,ho⟩ := h
  obtain rfl := List.mem_singleton.mp he
  obtain rfl := List.mem_singleton.mp hn
  exact ⟨rfl,rfl,(Option.some.inj ho).symm⟩

lemma archived_sample {r : ArtifactRecord} (h : observedRecord archivedInputs sampleObservation = .ok r) :
    Archived .checksum archivedInputs r := by
  have hv := archived_bundle
  rw [h] at hv
  change (match r.artifactHash with
    | .text hash => verifyArchivedBundle .checksum archivedInputs.archive hash r.artifactManifest
    | _ => .error .typeError) = .ok () at hv
  unfold Archived
  split at hv
  · rename_i hash hhash
    exact ⟨hash,hhash,hv⟩
  · cases hv

/-- The one sealed run is in the archive: the report passes, and means what it should. -/
theorem passed_report_sound_iff_sample : ∃ report,
    buildReport .checksum .ascii sampleReportEnv archivedInputs = .ok report ∧ report.passed = .ok true ∧
    Vouched .checksum sampleReportEnv archivedInputs ∧ ReportSound .checksum archivedInputs := by
  obtain ⟨report,hb,hp⟩ := sample_report rfl rfl sample_tallies.2.1
  have hvouched : Vouched .checksum sampleReportEnv archivedInputs := by
    obtain ⟨f,hf,hfp⟩ := buildReport_passed hb hp
    obtain ⟨claimed,hall⟩ := passed_cleared hf hfp
    refine ⟨fun hl hsealed hr => ?_,fun hl _ hl' _ => Or.inl ?_⟩
    · obtain ⟨q,hq⟩ := hl.cleared hall hsealed
      obtain rfl := Except.ok.inj (hq.run.record.symm.trans hr)
      obtain ⟨v,hv,hok⟩ := hq.intact
      obtain ⟨-,-,rfl⟩ := archived_latest hl
      exact (archived_iff hv hok).mp (archived_sample hr)
    · obtain ⟨hpath,hname,-⟩ := archived_latest hl
      obtain ⟨hpath',hname',-⟩ := archived_latest hl'
      exact ⟨hpath'.trans hpath.symm,hname'.trans hname.symm⟩
  exact ⟨report,hb,hp,hvouched,
    (passed_report_sound_iff .checksum .ascii sampleReportEnv archivedInputs report hb hp).mpr hvouched⟩

lemma sampleLatest : Latest sampleInputs ⟨lit "a",sampleInput.digest,1,by decide,sampleInput.digest_form⟩
    (lit "b") sampleObservation := ⟨List.mem_singleton.mpr rfl,List.mem_singleton.mpr rfl,rfl⟩

/-- A report passes although the archive does not hold the bundle that it vouches for. -/
theorem passed_report_unsound : ∃ report,
    buildReport .checksum .ascii sampleReportEnv sampleInputs = .ok report ∧
    report.passed = .ok true ∧ ¬ReportSound .checksum sampleInputs := by
  obtain ⟨report,hb,hp⟩ := sample_report rfl (ReportInputs.eta _) sample_tallies.1
  refine ⟨report,hb,hp,fun hs => ?_⟩
  obtain ⟨r,_,hash,_,hv⟩ := hs.backed sampleLatest rfl
  obtain ⟨m,hm,_⟩ := except_bind_ok.mp hv
  obtain ⟨data,hd,_⟩ := except_bind_ok.mp hm
  have hempty : sampleInputs.archive.blobs hash = none := rfl
  unfold Archive.read at hd
  rw [hempty] at hd
  split_ifs at hd

end Sample

end Stele
