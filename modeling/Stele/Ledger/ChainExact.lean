import Stele.Archive.Clean
import Stele.Ledger.ChainVerification

/-! EventLog.verify on any table of events: when it returns, and what a report without problems
says. -/
namespace Stele
open Python

variable {H : Hasher} {anchor : Anchor}

/-- A value that canonical JSON can write. -/
def TextCell.Hashable : TextCell → Prop
  | .null => True
  | .text s => Encodable s
  | .blob _ => False

/-- The columns that an event's hash covers, beside its number. -/
def EventRow.hashed (r : EventRow) : List TextCell := [r.kind,r.subject,r.body,r.at',r.prevHash]

/-- A number of SQLite. -/
def IsInt64 (i : ℤ) : Prop := -(2^63) ≤ i ∧ i < 2^63

/-- What sqlite3 returns for a row whose other columns are text. -/
structure EventRow.Textual (r : EventRow) : Prop where
  seq : IsInt64 r.seq
  columns : ∀ c ∈ [r.kind,r.subject,r.body,r.at',r.prevHash,r.hash], ∃ s, c = .text s ∧ Encodable s

section Total

lemma writable_toPy {c : TextCell} : Writable c.toPy ↔ c.Hashable := by
  cases c with
  | null => exact iff_of_true writable_none trivial
  | text s => exact ⟨encodable_of_writable,writable_str⟩
  | blob b =>
    refine iff_of_false (fun ⟨t,ht⟩ => ?_) not_false
    cases (canonicalText_ok.mp ht).1

lemma writable_int64 {i : ℤ} (h : IsInt64 i) : Writable (.int i) := by
  have hn : i.natAbs < 10^19 := by
    unfold IsInt64 at h
    norm_num
    omega
  have hd : (Nat.digits 10 i.natAbs).length ≤ 19 :=
    (Nat.digits_length_le_iff (by norm_num) i.natAbs).mpr hn
  refine writable_int ?_
  rw [natText_length,maxStrDigits]
  omega

/-- A row has a hash when each of its columns can be written. -/
lemma rowHash_total {r : EventRow} (hs : IsInt64 r.seq) :
    (∃ d, r.rowHash H = .ok d) ↔ ∀ c ∈ r.hashed, c.Hashable := by
  have hd : (∃ d, r.rowHash H = .ok d) ↔
      Writable (eventObject r.seq r.kind.toPy r.subject.toPy r.body.toPy r.at'.toPy r.prevHash.toPy) := by
    unfold EventRow.rowHash eventHash canonicalJson Writable
    cases canonicalText (eventObject r.seq r.kind.toPy r.subject.toPy r.body.toPy r.at'.toPy
      r.prevHash.toPy) with
    | error e => simp [Except.map]
    | ok t => simp [Except.map]
  rw [hd]
  constructor
  · intro hw c hc
    apply writable_toPy.mp
    simp only [EventRow.hashed,List.mem_cons,List.not_mem_nil,or_false] at hc
    rcases hc with rfl | rfl | rfl | rfl | rfl
    · exact hw.item (p := (.str (lit "kind"),r.kind.toPy)) (by simp)
    · exact hw.item (p := (.str (lit "subject"),r.subject.toPy)) (by simp)
    · exact hw.item (p := (.str (lit "body"),r.body.toPy)) (by simp)
    · exact hw.item (p := (.str (lit "at"),r.at'.toPy)) (by simp)
    · exact hw.item (p := (.str (lit "prev"),r.prevHash.toPy)) (by simp)
  · intro hc
    have hcol : ∀ c ∈ r.hashed, Writable c.toPy := fun c h => writable_toPy.mpr (hc c h)
    simp only [EventRow.hashed,List.forall_mem_cons] at hcol
    obtain ⟨hk,hsub,hb,ha,hp,-⟩ := hcol
    refine writable_dict fun p hp' => ?_
    simp only [List.mem_cons,List.not_mem_nil,or_false] at hp'
    rcases hp' with rfl | rfl | rfl | rfl | rfl | rfl
    · exact ⟨⟨_,rfl,encodable_lit _⟩,writable_int64 hs⟩
    all_goals exact ⟨⟨_,rfl,encodable_lit _⟩,by assumption⟩

lemma EventRow.Textual.rowHash {r : EventRow} (h : r.Textual) : ∃ d, r.rowHash H = .ok d := by
  refine (rowHash_total h.seq).mpr fun c hc => ?_
  obtain ⟨s,rfl,hs⟩ := h.columns c (List.subset_append_left r.hashed [r.hash] hc)
  exact hs

lemma ChainScan.row_total {s : ChainScan} {r : EventRow} :
    (∃ s', s.row H anchor r = .ok s') ↔ ∃ d, r.rowHash H = .ok d := by
  unfold ChainScan.row
  cases r.rowHash H with
  | error e => simp
  | ok d => simp

lemma ChainScan.rows_total {rows : List EventRow} {s : ChainScan} :
    (∃ s', rows.foldlM (ChainScan.row H anchor) s = .ok s') ↔ ∀ r ∈ rows, ∃ d, r.rowHash H = .ok d := by
  induction rows generalizing s with
  | nil => exact iff_of_true ⟨s,rfl⟩ nofun
  | cons r rows ih =>
    simp only [List.foldlM_cons,List.forall_mem_cons]
    constructor
    · rintro ⟨s',h⟩
      obtain ⟨t,ht,h⟩ := except_bind_ok.mp h
      exact ⟨ChainScan.row_total.mp ⟨t,ht⟩,ih.mp ⟨s',h⟩⟩
    · rintro ⟨hr,hrows⟩
      obtain ⟨t,ht⟩ : ∃ t, s.row H anchor r = .ok t := ChainScan.row_total.mpr hr
      obtain ⟨s',hs'⟩ := (ih (s := t)).mpr hrows
      exact ⟨s',except_bind_ok.mpr ⟨t,ht,hs'⟩⟩

/-- verify returns a report exactly when every row can be hashed. -/
theorem verify_total {rows : List EventRow} :
    (∃ report, EventLog.verify H rows anchor = .ok report) ↔ ∀ r ∈ rows, ∃ d, r.rowHash H = .ok d := by
  have hmem : ∀ r, r ∈ orderBySeq rows ↔ r ∈ rows := fun r => List.mem_insertionSort _
  have hscan : (∃ s, (orderBySeq rows).foldlM (ChainScan.row H anchor) (.start anchor) = .ok s) ↔
      ∀ r ∈ orderBySeq rows, ∃ d, r.rowHash H = .ok d := ChainScan.rows_total
  simp only [hmem] at hscan
  rw [← hscan,EventLog.verify]
  cases (orderBySeq rows).foldlM (ChainScan.row H anchor) (.start anchor) with
  | error e => simp [Except.map]
  | ok s => simp [Except.map]

end Total

section Exact

lemma Chained.seq_inj {rows : List EventRow} (h : Chained H rows) {r q : EventRow} (hr : r ∈ rows)
    (hq : q ∈ rows) (he : r.seq = q.seq) : r = q := by
  obtain ⟨i,hi⟩ := List.getElem?_of_mem hr
  obtain ⟨j,hj⟩ := List.getElem?_of_mem hq
  have hij : i = j := by
    have := h.seq hi
    have := h.seq hj
    omega
  subst hij
  exact Option.some.inj (hi.symm.trans hj)

lemma Chained.last_seq {rows : List EventRow} (h : Chained H rows) {l : EventRow}
    (hl : rows.getLast? = some l) : l.seq = rows.length := by
  have hpos : 0 < rows.length := List.length_pos_of_mem (List.mem_of_getLast? hl)
  rw [List.getLast?_eq_getElem?] at hl
  have := h.seq hl
  omega

lemma Chained.le_last {rows : List EventRow} (h : Chained H rows) {r l : EventRow} (hr : r ∈ rows)
    (hl : rows.getLast? = some l) : r.seq ≤ l.seq := by
  obtain ⟨i,hi⟩ := List.getElem?_of_mem hr
  have hlt := (List.getElem?_eq_some_iff.mp hi).1
  rw [h.last_seq hl,h.seq hi]
  omega

/-- An anchored number that no row of the chain has is not positive, or beyond its end. -/
lemma Chained.no_seq {rows : List EventRow} (h : Chained H rows) {a : ℤ}
    (hn : ∀ r ∈ rows, r.seq ≠ a) : a ≤ 0 ∨ (rows.length : ℤ) < a := by
  by_contra hc
  push Not at hc
  obtain ⟨i,hi⟩ : ∃ i : ℕ, a = i+1 := ⟨(a-1).toNat,by omega⟩
  have hlt : i < rows.length := by omega
  have hs := h.seq (List.getElem?_eq_getElem hlt)
  exact hn _ (List.getElem_mem hlt) (by omega)

/-- What a report without problems says, and nothing else: an anchor below the chain is accepted
unseen. -/
theorem verify_problems {rows : List EventRow} {report : ChainReport}
    (h : EventLog.verify H rows anchor = .ok report) : report.problems = [] ↔
      Chained H (orderBySeq rows) ∧ ∀ p ∈ anchor, (p.1 ≤ 0 ∧ rows ≠ []) ∨
        ∃ r ∈ rows, r.seq = p.1 ∧ r.hash = .text p.2 := by
  unfold EventLog.verify at h
  cases hs : (orderBySeq rows).foldlM (ChainScan.row H anchor) (.start anchor) with
  | error e => rw [hs] at h; cases h
  | ok s =>
    rw [hs] at h
    obtain rfl := Except.ok.inj h
    obtain ⟨hhead,hseen,hprob⟩ := ChainScan.rows_ok hs
    have hmem : ∀ r, r ∈ orderBySeq rows ↔ r ∈ rows := fun r => List.mem_insertionSort _
    have hnil : orderBySeq rows = [] ↔ rows = [] := by
      rw [← List.length_eq_zero_iff,← List.length_eq_zero_iff,orderBySeq,List.length_insertionSort]
    simp only [← hmem,ne_eq,← hnil]
    generalize orderBySeq rows = sorted at *
    have hreport : (s.report anchor).problems = [] ↔ s.problems = [] ∧
        ∀ p ∈ anchor, ¬(s.anchorSeen = false ∧ ∀ q ∈ s.head, q.1 < p.1) := by
      simp only [ChainScan.report,List.append_eq_nil_iff]
      cases anchor with
      | none => simp
      | some p => simp [Option.all_eq_true]
    rw [hreport,hprob]
    simp only [ChainScan.start,true_and,and_assoc]
    refine and_congr_right fun hc => ?_
    replace hc : Chained H sorted := hc
    cases anchor with
    | none => simp [AnchorHolds]
    | some p =>
      obtain ⟨a,x⟩ := p
      simp only [AnchorHolds,Option.mem_def,Option.some.injEq,forall_eq']
      by_cases hex : ∃ r ∈ sorted, r.seq = a
      · -- the anchored row is there, so the loop ends at it or beyond it
        obtain ⟨r,hr,rfl⟩ := hex
        have hpos : 1 ≤ r.seq := hc.le r hr
        obtain ⟨l,hl⟩ : ∃ l, sorted.getLast? = some l :=
          Option.isSome_iff_exists.mp (List.getLast?_isSome.mpr (List.ne_nil_of_mem hr))
        have hle : r.seq ≤ l.seq := hc.le_last hr hl
        have hnot : ¬(s.anchorSeen = false ∧ ∀ q, s.head = some q → q.1 < r.seq) := by
          rintro ⟨-,hlt⟩
          exact absurd (hlt (l.seq,l.hash) (by rw [hhead,hl]; rfl)) (not_lt.mpr hle)
        simp only [hnot,not_false_iff,and_true]
        constructor
        · exact fun ha => Or.inr ⟨r,hr,rfl,ha r hr rfl⟩
        · rintro (⟨hle0,-⟩ | ⟨q,hq,hqs,hqh⟩) t ht hts
          · omega
          · obtain rfl := hc.seq_inj ht hq (hts.trans hqs.symm)
            exact hqh
      · push Not at hex
        have hs' : s.anchorSeen = false := by
          rw [hseen fun r hr p hp => by obtain rfl := Option.some.inj hp; exact hex r hr]
          rfl
        have hvac : ∀ r ∈ sorted, r.seq = a → r.hash = .text x := fun r hr he => absurd he (hex r hr)
        have hno : ¬∃ r ∈ sorted, r.seq = a ∧ r.hash = .text x := by
          rintro ⟨r,hr,he,-⟩
          exact hex r hr he
        simp only [hs',hno,or_false,true_and,iff_true_intro hvac]
        cases hl : sorted.getLast? with
        | none =>
          have hnil : sorted = [] := List.getLast?_eq_none_iff.mp hl
          have hhead : s.head = none := by rw [hhead,hl]; rfl
          simp [hnil,hhead]
        | some l =>
          have hmem := List.mem_of_getLast? hl
          have hhead : s.head = some (l.seq,l.hash) := by rw [hhead,hl]; rfl
          have hlen := hc.last_seq hl
          have hpos : 1 ≤ l.seq := hc.le l hmem
          have hno := hc.no_seq hex
          simp only [hhead,Option.some.injEq,forall_eq',List.ne_nil_of_mem hmem,not_false_iff,and_true]
          omega

lemma encodable_genesis : Encodable genesis :=
  encodable_ascii fun c hc => by rw [List.eq_of_mem_replicate hc]; decide

end Exact

end Stele
