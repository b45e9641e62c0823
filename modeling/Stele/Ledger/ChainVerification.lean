import Stele.Ledger.Events

/-! Well-formed chains: append_event keeps them, EventLog.verify accepts exactly them, and
an anchored event fixes everything before it. -/
namespace Stele
open Python

variable {H : Hasher}

/-- The row follows the one with number n-1 and hash p, and has its own hash. -/
structure Follows (H : Hasher) (p : TextCell) (n : ℤ) (r : EventRow) : Prop where
  seq : r.seq = n
  prev : r.prevHash = p
  hash : ∃ d, r.rowHash H = .ok d ∧ r.hash = .text d

/-- Numbered on from n, each row following the one before. -/
def ChainedFrom (H : Hasher) : TextCell → ℤ → List EventRow → Prop
  | _,_,[] => True
  | p,n,r :: rows => Follows H p n r ∧ ChainedFrom H r.hash (n+1) rows

/-- A whole chain, numbered from 1. -/
def Chained (H : Hasher) (rows : List EventRow) : Prop := ChainedFrom H (.text genesis) 1 rows

lemma chainedFrom_concat {p : TextCell} {n : ℤ} {rows : List EventRow} {r : EventRow} :
    ChainedFrom H p n (rows++[r]) ↔ ChainedFrom H p n rows ∧
      Follows H (HashChain.last EventRow.hash p rows) (n+rows.length) r := by
  induction rows generalizing p n with
  | nil => simp [ChainedFrom]
  | cons q rows ih =>
    rw [List.cons_append,ChainedFrom,ChainedFrom,ih,HashChain.last_cons,and_assoc,
      List.length_cons,Nat.cast_add,Nat.cast_one,add_assoc n 1,add_comm 1 (rows.length : ℤ)]

lemma ChainedFrom.linked {p : TextCell} {n : ℤ} {rows : List EventRow}
    (h : ChainedFrom H p n rows) : HashChain.Linked EventRow.prevHash EventRow.hash p rows := by
  induction rows generalizing p n with
  | nil => trivial
  | cons r rows ih => exact ⟨h.1.prev,ih h.2⟩

lemma ChainedFrom.seq {p : TextCell} {n : ℤ} {rows : List EventRow} (h : ChainedFrom H p n rows) :
    ∀ {i : ℕ} {r : EventRow}, rows[i]? = some r → r.seq = n+i := by
  induction rows generalizing p n with
  | nil => intro i r hr; simp at hr
  | cons q rows ih =>
    intro i r hr
    cases i with
    | zero =>
      obtain rfl : q = r := by simpa using hr
      simpa using h.1.seq
    | succ i =>
      have hi := ih h.2 (by simpa using hr)
      rw [hi,Nat.cast_succ]
      omega

lemma ChainedFrom.hash {p : TextCell} {n : ℤ} {rows : List EventRow} (h : ChainedFrom H p n rows) :
    ∀ r ∈ rows, ∃ d, r.rowHash H = .ok d ∧ r.hash = .text d := by
  induction rows generalizing p n with
  | nil => simp
  | cons q rows ih =>
    intro r hr
    rcases List.mem_cons.mp hr with rfl | hr
    · exact h.1.hash
    · exact ih h.2 r hr

lemma ChainedFrom.le {p : TextCell} {n : ℤ} {rows : List EventRow} (h : ChainedFrom H p n rows) :
    ∀ r ∈ rows, n ≤ r.seq := by
  intro r hr
  obtain ⟨i,hi⟩ := List.getElem?_of_mem hr
  rw [h.seq hi]
  omega

lemma ChainedFrom.pairwise {p : TextCell} {n : ℤ} {rows : List EventRow}
    (h : ChainedFrom H p n rows) : rows.Pairwise fun a b => a.seq ≤ b.seq := by
  induction rows generalizing p n with
  | nil => exact .nil
  | cons r rows ih =>
    refine .cons (fun q hq => ?_) (ih h.2)
    have := h.2.le q hq
    rw [h.1.seq]
    omega

/-- A chain is stored in the order in which it is read. -/
lemma Chained.orderBySeq_eq {rows : List EventRow} (h : Chained H rows) : orderBySeq rows = rows :=
  h.pairwise.insertionSort_eq

lemma Chained.nextLink_eq {rows : List EventRow} (h : Chained H rows) : nextLink rows =
    ((rows.length : ℤ)+1,HashChain.last EventRow.hash (.text genesis) rows) := by
  rw [nextLink,h.orderBySeq_eq]
  cases hl : rows.getLast? with
  | none => simp [List.getLast?_eq_none_iff.mp hl]
  | some r =>
    have hn : rows[rows.length-1]? = some r := by rw [← List.getLast?_eq_getElem?]; exact hl
    have hs := h.seq hn
    have hpos : 0 < rows.length := List.length_pos_of_mem (List.mem_of_getLast? hl)
    simp only [Prod.mk.injEq,HashChain.last,hl,Option.map_some,Option.getD_some,and_true]
    omega

/-- The whole effect of append_event: one row, with the next number and link. -/
lemma appendEvent_ok {kind subject at' : PyStr} {body : PyVal} {db db' : Db} {ev : Event}
    (h : appendEvent H kind subject body at' db = .ok (ev,db')) : ∃ text r,
      canonicalText body = .ok text ∧ db' = {db with events := db.events++[r]} ∧
      r.kind = .text kind ∧ r.subject = .text subject ∧ r.body = .text text ∧ r.at' = .text at' ∧
      Follows H (nextLink db.events).2 (nextLink db.events).1 r := by
  unfold appendEvent at h
  generalize hl : nextLink db.events = link at h
  obtain ⟨seq,prev⟩ := link
  simp only at h
  split at h
  · cases h
  rename_i text ht
  split at h
  · cases h
  rename_i digest hd
  split at h
  · cases h
  rename_i hi
  obtain ⟨rfl,rfl⟩ := Prod.mk.inj (Except.ok.inj h)
  unfold insertEvent at hi
  split_ifs at hi
  obtain ⟨_,rfl⟩ := Prod.mk.inj (Except.ok.inj hi)
  exact ⟨text,_,ht,rfl,rfl,rfl,rfl,rfl,rfl,rfl,digest,hd,rfl⟩

/-- append_event keeps the chain. -/
theorem Chained.appendEvent {kind subject at' : PyStr} {body : PyVal} {db db' : Db} {ev : Event}
    (hc : Chained H db.events) (h : appendEvent H kind subject body at' db = .ok (ev,db')) :
    Chained H db'.events := by
  obtain ⟨text,r,_,rfl,_,_,_,_,hf⟩ := appendEvent_ok h
  rw [hc.nextLink_eq] at hf
  refine chainedFrom_concat.mpr ⟨hc,?_⟩
  rwa [add_comm (1 : ℤ)]

section Scan

variable {anchor : Anchor}

/-- The anchor's own row, when the loop meets it, has the anchored hash. -/
def AnchorHolds (anchor : Anchor) (r : EventRow) : Prop :=
  ∀ p ∈ anchor, r.seq = p.1 → r.hash = .text p.2

/-- What one row of the loop leaves behind. -/
lemma ChainScan.row_ok {s s' : ChainScan} {r : EventRow} (h : s.row H anchor r = .ok s') :
    s'.prev = r.hash ∧ s'.expectedSeq = r.seq+1 ∧ s'.head = some (r.seq,r.hash) ∧
    ((∀ p ∈ anchor, r.seq ≠ p.1) → s'.anchorSeen = s.anchorSeen) ∧
    (s'.problems = [] ↔ s.problems = [] ∧ Follows H s.prev s.expectedSeq r ∧
      AnchorHolds anchor r) := by
  unfold row at h
  split at h
  · cases h
  rename_i digest hd
  obtain rfl := Except.ok.inj h
  have hf : Follows H s.prev s.expectedSeq r ↔
      r.seq = s.expectedSeq ∧ r.prevHash = s.prev ∧ TextCell.text digest = r.hash := by
    constructor
    · rintro ⟨h1,h2,d,h3,h4⟩
      obtain rfl := Except.ok.inj (hd.symm.trans h3)
      exact ⟨h1,h2,h4.symm⟩
    · rintro ⟨h1,h2,h3⟩
      exact ⟨h1,h2,digest,hd,h3.symm⟩
  refine ⟨rfl,rfl,rfl,?_,?_⟩
  · cases anchor with
    | none => simp
    | some p => intro hp; simp [hp p rfl]
  · rw [hf]
    cases anchor with
    | none => simp [AnchorHolds]
    | some p =>
      obtain ⟨a,x⟩ := p
      simp only [AnchorHolds,Option.mem_def,Option.some.injEq,forall_eq']
      by_cases ha : r.seq = a <;> simp [ha,and_assoc]

lemma ChainScan.rows_ok {rows : List EventRow} : ∀ {s s' : ChainScan},
    rows.foldlM (ChainScan.row H anchor) s = .ok s' →
    s'.head = (rows.getLast?.map fun r => (r.seq,r.hash)).or s.head ∧
    ((∀ r ∈ rows, ∀ p ∈ anchor, r.seq ≠ p.1) → s'.anchorSeen = s.anchorSeen) ∧
    (s'.problems = [] ↔ s.problems = [] ∧ ChainedFrom H s.prev s.expectedSeq rows ∧
      ∀ r ∈ rows, AnchorHolds anchor r) := by
  induction rows with
  | nil =>
    intro s s' h
    obtain rfl := Except.ok.inj h
    simp [ChainedFrom]
  | cons r rows ih =>
    intro s s' h
    rw [List.foldlM_cons] at h
    obtain ⟨t,ht,h⟩ := except_bind_ok.mp h
    obtain ⟨hp,he,hh,ha,hpr⟩ := ChainScan.row_ok ht
    obtain ⟨ihh,iha,ihp⟩ := ih h
    refine ⟨?_,?_,?_⟩
    · rw [ihh,hh]
      cases rows with
      | nil => rfl
      | cons q rows => simp [List.getLast?_eq_some_getLast]
    · intro hne
      rw [iha fun q hq => hne q (List.mem_cons_of_mem _ hq),ha (hne r (by simp))]
    · rw [ihp,hpr,hp,he,ChainedFrom,List.forall_mem_cons]
      constructor
      · rintro ⟨⟨h1,h2,h3⟩,h4,h5⟩
        exact ⟨h1,⟨h2,h2.seq ▸ h4⟩,h3,h5⟩
      · rintro ⟨h1,⟨h2,h4⟩,h3,h5⟩
        exact ⟨⟨h1,h2,h3⟩,h2.seq.symm ▸ h4,h5⟩

/-- What a report without problems says about the table. -/
theorem verify_ok {rows : List EventRow} {report : ChainReport}
    (h : EventLog.verify H rows anchor = .ok report) (hp : report.problems = []) :
    Chained H (orderBySeq rows) ∧ (∀ r ∈ orderBySeq rows, AnchorHolds anchor r) ∧
      ∀ p ∈ anchor, 1 ≤ p.1 → p.1 ≤ (orderBySeq rows).length := by
  unfold EventLog.verify at h
  cases hs : (orderBySeq rows).foldlM (ChainScan.row H anchor) (.start anchor) with
  | error e => rw [hs] at h; cases h
  | ok s =>
    rw [hs] at h
    obtain rfl := Except.ok.inj h
    obtain ⟨hhead,hseen,hprob⟩ := ChainScan.rows_ok hs
    obtain ⟨hp,ht⟩ := List.append_eq_nil_iff.mp hp
    obtain ⟨_,hc,ha⟩ := hprob.mp hp
    refine ⟨hc,ha,?_⟩
    intro p hpa h1
    obtain rfl := Option.mem_def.mp hpa
    by_contra hlt
    -- no row has the anchored number, so the loop ends without seeing it
    have hle : ∀ r ∈ orderBySeq rows, r.seq < p.1 := by
      intro r hr
      obtain ⟨i,hi⟩ := List.getElem?_of_mem hr
      have := hc.seq hi
      have := (List.getElem?_eq_some_iff.mp hi).1
      simp only [ChainScan.start] at *
      omega
    have hns := hseen fun r hr q hq => by
      obtain rfl := Option.some.inj hq
      exact (hle r hr).ne
    simp only [ChainScan.start,Option.isNone_some,Option.or_none] at hns hhead
    simp only [hns,hhead,Bool.not_false,Bool.true_and] at ht
    split_ifs at ht with hl
    refine hl ?_
    rw [Option.all_eq_true]
    intro x hx
    obtain ⟨r,hr,rfl⟩ := Option.map_eq_some_iff.mp hx
    simpa using hle r (List.mem_of_getLast? hr)

/-- Conversely, a chain is verified without problems. -/
theorem Chained.verify {rows : List EventRow} (h : Chained H rows) :
    ∃ report, EventLog.verify H rows none = .ok report ∧ report.problems = [] := by
  have run : ∀ (rows : List EventRow) (s : ChainScan), s.problems = [] →
      ChainedFrom H s.prev s.expectedSeq rows →
      ∃ s', rows.foldlM (ChainScan.row H none) s = .ok s' ∧ s'.problems = [] := by
    intro rows
    induction rows with
    | nil => exact fun _ hs _ => ⟨_,rfl,hs⟩
    | cons r rows ih =>
      intro s hs hc
      obtain ⟨d,hd,_⟩ := hc.1.hash
      obtain ⟨t,ht⟩ : ∃ t, s.row H none r = .ok t := by
        rw [ChainScan.row,hd]
        exact ⟨_,rfl⟩
      obtain ⟨htp,hte,_,_,hpr⟩ := ChainScan.row_ok ht
      have hts := hpr.mpr ⟨hs,hc.1,by simp [AnchorHolds]⟩
      obtain ⟨s',hs',hp⟩ := ih t hts (by rw [htp,hte,hc.1.seq]; exact hc.2)
      exact ⟨s',by rw [List.foldlM_cons,ht]; exact hs',hp⟩
  obtain ⟨s,hs,hp⟩ := run rows (.start none) rfl h
  refine ⟨s.report none,?_,by simp [ChainScan.report,hp]⟩
  rw [EventLog.verify,h.orderBySeq_eq,hs]
  rfl

end Scan

section Anchored

lemma eventObject_image (seq : ℤ) (kind subject body at' prev : PyVal) :
    canonicalImage (eventObject seq kind subject body at' prev) =
      .dict [(.str (lit "at"),canonicalImage at'),(.str (lit "body"),canonicalImage body),
        (.str (lit "kind"),canonicalImage kind),(.str (lit "prev"),canonicalImage prev),
        (.str (lit "seq"),.int seq),(.str (lit "subject"),canonicalImage subject)] := rfl

lemma canonicalImage_toPy (c : TextCell) : canonicalImage c.toPy = c.toPy := by cases c <;> rfl

lemma TextCell.toPy_inj {c d : TextCell} : c.toPy = d.toPy ↔ c = d := by
  cases c <;> cases d <;> simp [TextCell.toPy]

/-- The bytes that a row's hash is taken of. -/
def EventRow.encoding (r : EventRow) : Except Exc Bytes :=
  canonicalJson (eventObject r.seq r.kind.toPy r.subject.toPy r.body.toPy r.at'.toPy
    r.prevHash.toPy)

/-- The byte strings that the chain hashes in these tables. -/
def encodings (rows : List EventRow) : Set Bytes := {b | ∃ r ∈ rows, r.encoding = .ok b}

lemma rowHash_ok {r : EventRow} {d : PyStr} (h : r.rowHash H = .ok d) :
    ∃ b, r.encoding = .ok b ∧ H.hexdigest b = d := by
  unfold EventRow.rowHash eventHash at h
  cases hb : r.encoding with
  | error e => rw [EventRow.encoding] at hb; rw [hb] at h; cases h
  | ok b =>
    rw [EventRow.encoding] at hb
    rw [hb] at h
    exact ⟨b,rfl,Except.ok.inj h⟩

/-- Every column but the hash itself can be read off the hashed bytes. -/
lemma encoding_inj {r q : EventRow} {b : Bytes} (hr : r.encoding = .ok b) (hq : q.encoding = .ok b) :
    r.seq = q.seq ∧ r.kind = q.kind ∧ r.subject = q.subject ∧ r.body = q.body ∧ r.at' = q.at' ∧
      r.prevHash = q.prevHash := by
  have h := canonicalJson_inj hr hq
  simp only [eventObject_image,canonicalImage_toPy] at h
  simp only [PyVal.dict.injEq,List.cons.injEq,Prod.mk.injEq,true_and,TextCell.toPy_inj,
    PyVal.int.injEq,and_true] at h
  obtain ⟨h1,h2,h3,h4,h5,h6⟩ := h
  exact ⟨h5,h3,h6,h2,h1,h4⟩

lemma eq_of_hash {C C' : List EventRow} (hinj : Set.InjOn H.hexdigest (encodings (C++C')))
    (hC : ∀ r ∈ C, ∃ d, r.rowHash H = .ok d ∧ r.hash = .text d)
    (hC' : ∀ r ∈ C', ∃ d, r.rowHash H = .ok d ∧ r.hash = .text d) :
    ∀ r ∈ C, ∀ q ∈ C', r.hash = q.hash → r = q := by
  intro r hr q hq h
  obtain ⟨d,hd,hrd⟩ := hC r hr
  obtain ⟨e,he,hqe⟩ := hC' q hq
  obtain ⟨b,hb,rfl⟩ := rowHash_ok hd
  obtain ⟨c,hc,rfl⟩ := rowHash_ok he
  rw [hrd,hqe] at h
  have hbc := hinj ⟨r,by simp [hr],hb⟩ ⟨q,by simp [hq],hc⟩ (TextCell.text.inj h)
  obtain ⟨h1,h2,h3,h4,h5,h6⟩ := encoding_inj hb (hbc ▸ hc)
  obtain ⟨_,_,_,_,_,_,_⟩ := r
  obtain ⟨_,_,_,_,_,_,_⟩ := q
  simp_all

/-- The tables that append_event builds, starting from an empty one. -/
inductive BuiltChain (H : Hasher) : List EventRow → Prop
  | nil : BuiltChain H []
  | append {db db' : Db} {kind subject at' : PyStr} {body : PyVal} {ev : Event} :
    BuiltChain H db.events → appendEvent H kind subject body at' db = .ok (ev,db') →
      BuiltChain H db'.events

lemma BuiltChain.chained {rows : List EventRow} (h : BuiltChain H rows) : Chained H rows := by
  induction h with
  | nil => trivial
  | append _ ha ih => exact ih.appendEvent ha

/-- A table that verifies against an anchor taken from a chain has at least the anchored
number of events, and up to there it holds exactly that chain's rows. -/
theorem verify_anchor_agrees (H : Hasher) (C C' : List EventRow) (s : ℤ) (h : PyStr)
    (report : ChainReport) (hC : BuiltChain H C) (ha : ∃ r ∈ C, r.seq = s ∧ r.hash = .text h)
    (hinj : Set.InjOn H.hexdigest (encodings (C++C')))
    (hv : EventLog.verify H C' (some (s,h)) = .ok report) (hp : report.problems = []) :
    s ≤ C'.length ∧ ∀ r : EventRow, r.seq ≤ s → (r ∈ C' ↔ r ∈ C) := by
  obtain ⟨hc',hanchor,hlen⟩ := verify_ok hv hp
  have hc := hC.chained
  obtain ⟨a,haC,rfl,hah⟩ := ha
  obtain ⟨i,hi⟩ := List.getElem?_of_mem haC
  have hseq := hc.seq hi
  have hmem : ∀ r, r ∈ orderBySeq C' ↔ r ∈ C' := fun r => List.mem_insertionSort _
  have hl : (orderBySeq C').length = C'.length := List.length_insertionSort _ _
  have hle := hlen _ rfl (by simp only; omega)
  obtain ⟨b,hb⟩ : ∃ b, (orderBySeq C')[i]? = some b :=
    ⟨_,List.getElem?_eq_getElem (by simp only at hle; omega)⟩
  have hbs := hc'.seq hb
  have hbh := hanchor b (List.mem_of_getElem? hb) _ rfl (by simp only; omega)
  have htake := HashChain.take_eq_of_hash EventRow.prevHash EventRow.hash hc.linked hc'.linked
    (eq_of_hash (fun x ⟨r,hr,hx⟩ y ⟨q,hq,hy⟩ => hinj ⟨r,by simpa [hmem] using hr,hx⟩
      ⟨q,by simpa [hmem] using hq,hy⟩) hc.hash hc'.hash) hi hb (hah.trans hbh.symm)
  refine ⟨by rw [← hl]; exact hle,fun r hr => ?_⟩
  rw [← hmem]
  -- rows numbered up to s are the first s of either table
  have first : ∀ {rows : List EventRow}, Chained H rows → (r ∈ rows ↔ r ∈ rows.take (i+1)) := by
    intro rows hrows
    refine ⟨fun hm => ?_,List.mem_of_mem_take⟩
    obtain ⟨j,hj⟩ := List.getElem?_of_mem hm
    have := hrows.seq hj
    exact List.mem_of_getElem? (i := j) (by rw [List.getElem?_take_of_lt (by omega)]; exact hj)
  rw [first hc',first hc,htake]

/-- Rows that hold their own hash and differ whenever they are different have no collision. -/
lemma injOn_encodings {rows : List EventRow}
    (hrows : ∀ r ∈ rows, r.rowHash H = .ok r.hash.get)
    (hne : ∀ r ∈ rows, ∀ q ∈ rows, r.hash = q.hash → r = q)
    (htext : ∀ r ∈ rows, ∃ d, r.hash = .text d) : Set.InjOn H.hexdigest (encodings rows) := by
  rintro b ⟨r,hr,hb⟩ c ⟨q,hq,hc⟩ h
  obtain ⟨d,hd⟩ := htext r hr
  obtain ⟨e,he⟩ := htext q hq
  have hrr := hrows r hr
  have hqq := hrows q hq
  rw [hd,TextCell.get] at hrr
  rw [he,TextCell.get] at hqq
  obtain ⟨b',hb',hbd⟩ := rowHash_ok hrr
  obtain ⟨c',hc',hce⟩ := rowHash_ok hqq
  obtain rfl := Except.ok.inj (hb.symm.trans hb')
  obtain rfl := Except.ok.inj (hc.symm.trans hc')
  obtain rfl := hne r hr q hq (by rw [hd,he,← hbd,← hce,h])
  exact Except.ok.inj (hb.symm.trans hc)

/-- The row of a record.failed event. -/
def failedRow (seq : ℤ) (subject : String) (prev : TextCell) : EventRow :=
  ⟨seq,.text (lit "record.failed"),.text (lit subject),.text (lit "\x7b\"error\":\"e\"\x7d"),
    .text (lit "t"),prev,.text ((eventHash .checksum seq (.str (lit "record.failed"))
      (.str (lit subject)) (.str (lit "\x7b\"error\":\"e\"\x7d")) (.str (lit "t")) prev.toPy).toOption.getD [])⟩

def failedRow1 : EventRow := failedRow 1 "a" (.text genesis)

lemma BuiltChain.first {kind subject at' : PyStr} {body : PyVal} {db : Db}
    (h : (appendEvent H kind subject body at' Db.new).toOption.map Prod.snd = some db) :
    BuiltChain H db.events := by
  cases ha : appendEvent H kind subject body at' Db.new with
  | error e => rw [ha] at h; cases h
  | ok p =>
    rw [ha] at h
    obtain rfl := Option.some.inj h
    exact .append .nil ha

lemma builtChain_failedRow1 : BuiltChain .checksum [failedRow1] := by
  have h : (appendEvent .checksum (lit "record.failed") (lit "a")
      (.dict [(.str (lit "error"),.str (lit "e"))]) (lit "t") Db.new).toOption.map Prod.snd =
      some ⟨[],[],[],[],[failedRow1]⟩ := by decide +kernel
  exact .first h

def failedRow2 : EventRow := failedRow 2 "b" failedRow1.hash

/-- The tail may be forged, and its rows stored in any order: event 1 is still the same. -/
theorem verify_anchor_agrees_forgedTail : 1 ≤ [failedRow2,failedRow1].length ∧
    ∀ r : EventRow, r.seq ≤ 1 → (r ∈ [failedRow2,failedRow1] ↔ r ∈ [failedRow1]) := by
  have hrows : ∀ r ∈ [failedRow1,failedRow2,failedRow1],
      r.rowHash .checksum = .ok r.hash.get := by decide +kernel
  have hne : ∀ r ∈ [failedRow1,failedRow2,failedRow1],
      ∀ q ∈ [failedRow1,failedRow2,failedRow1], r.hash = q.hash → r = q := by decide +kernel
  have hv : EventLog.verify .checksum [failedRow2,failedRow1] (some (1,failedRow1.hash.get)) =
      .ok ⟨2,some (2,failedRow2.hash),[]⟩ := by decide +kernel
  have h := verify_anchor_agrees .checksum [failedRow1] [failedRow2,failedRow1] 1
    failedRow1.hash.get _ builtChain_failedRow1 ⟨failedRow1,by simp,rfl,by simp only [failedRow1,failedRow,TextCell.get]⟩
    (injOn_encodings hrows hne (by simp [failedRow1,failedRow2,failedRow])) hv rfl
  exact ⟨by decide,h.2⟩

end Anchored

end Stele
