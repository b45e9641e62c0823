import Stele.Ledger.StateMachine
import Stele.Verification.SignOff

/-! The chain under a sign-off: which anchors it contains, which entries its events give, and that
both stay as the ledger goes on. -/
namespace Stele
open Python Interleaving

variable {H : Hasher}

section Anchors

variable {anchor : Option (PyVal × PyVal)} {rows more : List EventRow} {seq hash : PyVal} {s : ChainScan}
  {r q : EventRow}

lemma EventRow.isNumbered_iff : r.isNumbered seq = true ↔ seq.num = some (.ofInt r.seq) := by
  simp [isNumbered,PyVal.pyEq]

lemma ofInt_le {i j : ℤ} : NumVal.le (.ofInt i) (.ofInt j) = true ↔ i ≤ j := by
  simp only [NumVal.ofInt,NumVal.le,decide_eq_true_eq]
  exact mul_le_mul_iff_left₀ (by positivity)

/-- One number cannot name two rows, and what the chain's end is not before, no later row is. -/
lemma EventRow.isNumbered_inj (hr : r.isNumbered seq = true) (hq : q.isNumbered seq = true) : r.seq = q.seq := by
  rw [isNumbered_iff] at hr hq
  have h := Option.some.inj (hr.symm.trans hq)
  exact le_antisymm (ofInt_le.mp (h ▸ ofInt_le.mpr le_rfl)) (ofInt_le.mp (h ▸ ofInt_le.mpr le_rfl))

lemma intLt_numbered {i : ℤ} (h : intLt i seq = .ok false) (hr : r.isNumbered seq = true) : r.seq ≤ i := by
  rw [EventRow.isNumbered_iff] at hr
  unfold intLt at h
  rw [hr] at h
  have hle := Except.ok.inj h
  exact ofInt_le.mp (by simpa using hle)

/-- The row that the anchor's number names has the anchored hash. -/
def Unmoved (anchor : Option (PyVal × PyVal)) (r : EventRow) : Prop :=
  ∀ a ∈ anchor, r.isNumbered a.1 = true → r.hasHash a.2 = true

variable (anchor) in
/-- What verify's loop does with a row of the chain. -/
lemma ChainScan.rowAt_ok (hf : Follows H s.prev s.expectedSeq r) : ∃ t, s.rowAt H anchor r = .ok t ∧
    t.prev = r.hash ∧ t.expectedSeq = s.expectedSeq+1 ∧ t.head = some (r.seq,r.hash) ∧
    (t.problems = [] ↔ s.problems = [] ∧ Unmoved anchor r) ∧
    ∀ a ∈ anchor, t.anchorSeen = if r.isNumbered a.1 then r.hasHash a.2 else s.anchorSeen := by
  obtain ⟨d,hd,_⟩ := hf.hash
  obtain ⟨t,ht⟩ : ∃ t, s.row H none r = .ok t := by
    rw [ChainScan.row,hd]
    exact ⟨_,rfl⟩
  obtain ⟨hprev,hexp,hhead,hseen,hprob⟩ := ChainScan.row_ok ht
  have hsame : t.problems = [] ↔ s.problems = [] := by
    rw [hprob]
    exact ⟨fun h => h.1,fun h => ⟨h,hf,by simp [AnchorHolds]⟩⟩
  have hseen := hseen (by simp)
  rw [hf.seq] at hexp
  unfold rowAt
  rw [ht]
  cases anchor with
  | none => exact ⟨t,rfl,hprev,hexp,hhead,by simp [hsame,Unmoved],by simp⟩
  | some a =>
    obtain ⟨seq,hash⟩ := a
    by_cases hn : r.isNumbered seq = true
    · refine ⟨{t with
        problems := t.problems++if r.hasHash hash then [] else [.anchorHash r.seq],
        anchorSeen := r.hasHash hash},by simp [hn,bind,Except.bind,pure,Except.pure],hprev,hexp,hhead,?_,?_⟩
      · simp [hsame,Unmoved,hn]
      · simp [hn]
    · refine ⟨t,by simp [hn,bind,Except.bind,pure,Except.pure],hprev,hexp,hhead,?_,?_⟩
      · simp [hsame,Unmoved,hn]
      · simp [hn,hseen]

variable (anchor) in
lemma ChainScan.rowsAt_ok : ∀ {s : ChainScan}, ChainedFrom H s.prev s.expectedSeq rows →
    ∃ t, rows.foldlM (ChainScan.rowAt H anchor) s = .ok t ∧
      t.head = (rows.getLast?.map fun r => (r.seq,r.hash)).or s.head ∧
      (t.problems = [] ↔ s.problems = [] ∧ ∀ r ∈ rows, Unmoved anchor r) ∧
      ((∀ r ∈ rows, Unmoved anchor r) → ∀ a ∈ anchor,
        t.anchorSeen = (s.anchorSeen || rows.any fun r => r.isNumbered a.1)) := by
  induction rows with
  | nil => exact fun _ => ⟨_,rfl,by simp,by simp,by simp⟩
  | cons r rows ih =>
    intro s hc
    obtain ⟨t,ht,hp,he,hh,hpr,hs⟩ := ChainScan.rowAt_ok anchor hc.1
    obtain ⟨u,hu,huh,hup,hus⟩ := ih (s := t) (by rw [hp,he]; exact hc.2)
    refine ⟨u,by rw [List.foldlM_cons,ht]; exact hu,?_,?_,fun hall a ha => ?_⟩
    · rw [huh,hh]
      cases rows with
      | nil => rfl
      | cons q rows => simp [List.getLast?_eq_some_getLast]
    · rw [hup,hpr,List.forall_mem_cons,and_assoc]
    · obtain ⟨hr,hrows⟩ := List.forall_mem_cons.mp hall
      rw [hus hrows a ha,hs a ha,List.any_cons]
      by_cases hn : r.isNumbered a.1 = true
      · simp [hn,hr a ha hn]
      · simp [hn]

/-- The chain contains the anchored event, or the anchor names no event and none that is missing. -/
def HoldsAnchor (rows : List EventRow) (anchor : Option (PyVal × PyVal)) : Prop :=
  ∀ a ∈ anchor, (∀ r ∈ rows, Unmoved anchor r) ∧ ((∃ r ∈ rows, r.isNumbered a.1 = true) ∨
    ∃ r ∈ rows.getLast?, intLt r.seq a.1 = .ok false)

/-- verify has nothing to say of a whole chain exactly when the anchor is in it. -/
theorem verifyAt_iff (hc : Chained H rows) : EventLog.verifyAt H rows anchor = .ok [] ↔ HoldsAnchor rows anchor := by
  obtain ⟨t,ht,hh,hp,hs⟩ := ChainScan.rowsAt_ok anchor
    (s := {ChainScan.start none with anchorSeen := anchor.isNone}) hc
  have hv : EventLog.verifyAt H rows anchor =
      (t.endsBefore anchor).map fun ended => t.problems.map .problem++ended := by
    rw [EventLog.verifyAt,hc.orderBySeq_eq,ht]
    cases he : t.endsBefore anchor <;> simp [he,bind,Except.bind,pure,Except.pure,Except.map]
  have hnil : EventLog.verifyAt H rows anchor = .ok [] ↔ t.problems = [] ∧ t.endsBefore anchor = .ok [] := by
    rw [hv]
    cases t.endsBefore anchor with
    | error e => simp [Except.map]
    | ok ended => simp [Except.map]
  rw [hnil,hp]
  cases anchor with
  | none => simp [HoldsAnchor,ChainScan.start,ChainScan.endsBefore,Unmoved]
  | some a =>
    obtain ⟨seq,hash⟩ := a
    simp only [ChainScan.start,true_and,HoldsAnchor,Option.mem_def,Option.some.injEq,forall_eq']
    refine and_congr_right fun hall => ?_
    have hseen := hs hall (seq,hash) rfl
    simp only [ChainScan.start,Option.isNone_some,Bool.false_or] at hseen hh
    unfold ChainScan.endsBefore
    rw [hseen,hh]
    by_cases hn : ∃ r ∈ rows, r.isNumbered seq = true
    · simp [List.any_eq_true.mpr hn,hn]
    · have hany : (rows.any fun r => r.isNumbered seq) = false := by simpa using hn
      rw [hany]
      simp only [hn,false_or,Bool.false_eq_true,if_false,Option.or_none]
      cases hl : rows.getLast? with
      | none => simp
      | some last =>
        simp only [Option.map_some,Option.some.injEq,exists_eq_left']
        cases intLt last.seq seq with
        | error e => simp [Except.map]
        | ok before => cases before <;> simp [Except.map]

/-- The chain contains the anchored event, where the anchor's number is an integer from 1 on. -/
def AnchorIn (rows : List EventRow) (anchor : Option (PyVal × PyVal)) : Prop :=
  ∀ a ∈ anchor, ∀ i : ℤ, 1 ≤ i → a.1.num = some (.ofInt i) → ∃ r ∈ rows, r.seq = i ∧ r.hasHash a.2 = true

lemma HoldsAnchor.anchorIn (hc : Chained H rows) (h : HoldsAnchor rows anchor) : AnchorIn rows anchor := by
  intro a ha i hi hnum
  obtain ⟨hold,hseen⟩ := h a ha
  have hrow : ∃ r ∈ rows, r.seq = i := by
    rcases hseen with ⟨r,hr,hn⟩ | ⟨last,hlast,hlt⟩
    · have heq := Option.some.inj (hnum.symm.trans (EventRow.isNumbered_iff.mp hn))
      exact ⟨r,hr,le_antisymm (ofInt_le.mp (heq ▸ ofInt_le.mpr le_rfl)) (ofInt_le.mp (heq ▸ ofInt_le.mpr le_rfl))⟩
    · -- the chain does not end before the number, and it is numbered from 1 on
      have hle : i ≤ last.seq := by
        unfold intLt at hlt
        rw [hnum] at hlt
        have hle := Except.ok.inj hlt
        exact ofInt_le.mp (by simpa using hle)
      obtain ⟨k,hk⟩ := List.getElem?_of_mem (List.mem_of_getLast? hlast)
      have hend := hc.seq hk
      have hklt := (List.getElem?_eq_some_iff.mp hk).1
      have hlt : i.toNat-1 < rows.length := by omega
      obtain ⟨r,hr⟩ : ∃ r, rows[i.toNat-1]? = some r := ⟨_,List.getElem?_eq_getElem hlt⟩
      have hseq := hc.seq hr
      exact ⟨r,List.mem_of_getElem? hr,by omega⟩
  obtain ⟨r,hr,rfl⟩ := hrow
  exact ⟨r,hr,rfl,hold r hr a ha (EventRow.isNumbered_iff.mpr hnum)⟩

/-- A chain that goes on still contains it. -/
theorem HoldsAnchor.append (hc : Chained H (rows++more)) (h : HoldsAnchor rows anchor) : HoldsAnchor (rows++more) anchor := by
  intro a ha
  obtain ⟨hold,hseen⟩ := h a ha
  have later : ∀ r ∈ rows, ∀ q ∈ more, r.seq < q.seq := by
    intro r hr q hq
    obtain ⟨i,hi⟩ := List.getElem?_of_mem hr
    obtain ⟨j,hj⟩ := List.getElem?_of_mem hq
    have hlt := (List.getElem?_eq_some_iff.mp hi).1
    have h1 := hc.seq (i := i) (r := r) (by rw [List.getElem?_append_left hlt]; exact hi)
    have h2 := hc.seq (i := rows.length+j) (r := q) (by
      rw [List.getElem?_append_right (by omega)]
      simpa using hj)
    omega
  have hfresh : ∀ q ∈ more, q.isNumbered a.1 = false := by
    intro q hq
    by_contra hn
    have hn : q.isNumbered a.1 = true := by simpa using hn
    rcases hseen with ⟨r,hr,hrn⟩ | ⟨r,hr,hlt⟩
    · exact (later r hr q hq).ne (EventRow.isNumbered_inj hrn hn)
    · exact absurd (intLt_numbered hlt hn) (not_le.mpr (later r (List.mem_of_getLast? hr) q hq))
  refine ⟨fun r hr => ?_,?_⟩
  · rcases List.mem_append.mp hr with hr | hr
    · exact hold r hr
    · intro b hb hn
      obtain rfl := Option.mem_unique ha hb
      rw [hfresh r hr] at hn
      cases hn
  · rcases hseen with ⟨r,hr,hn⟩ | ⟨r,hr,hlt⟩
    · exact Or.inl ⟨r,List.mem_append_left _ hr,hn⟩
    · cases more with
      | nil => exact Or.inr ⟨r,by simpa using hr,hlt⟩
      | cons q more =>
        refine Or.inr ⟨(q :: more).getLast (by simp),?_,?_⟩
        · simp [List.getLast?_eq_some_getLast]
        · -- the last row is later than r, which is not before the number
          have hlast := later r (List.mem_of_getLast? hr) _ (List.getLast_mem (l := q :: more) (by simp))
          revert hlt
          unfold intLt
          cases hnum : a.1.num with
          | none => cases a.1 <;> simp
          | some x =>
            intro hlt
            have hx : x.le (.ofInt r.seq) = true := by simpa using Except.ok.inj hlt
            have hle : x.le (.ofInt ((q :: more).getLast (by simp)).seq) = true := by
              cases x with
              | inf neg => simpa [NumVal.le,NumVal.ofInt] using hx
              | fin z =>
                simp only [NumVal.le,NumVal.ofInt,decide_eq_true_eq] at hx ⊢
                exact hx.trans (mul_le_mul_of_nonneg_right hlast.le (by positivity))
            simp [hle]

end Anchors

section Entries

variable {kvs kws d : List (PyKey × PyVal)} {r : EventRow} {a : SignOffArgs} {k : PyStr}

lemma find_setKey {s : PyStr} {v : PyVal} :
    PyVal.find (setKey d (.str s) v) (.str k) = if s = k then some v else PyVal.find d (.str k) := by
  have hstr : ∀ l : PyKey, l.eq (.str s) = true → (l.eq (.str k) = true ↔ s = k) := by
    intro l hl
    rw [keyEq_str_right.mp hl]
    simp
  induction d with
  | nil => by_cases h : s = k <;> simp [setKey,PyVal.find,h]
  | cons p d ih =>
    obtain ⟨l,w⟩ := p
    rw [setKey]
    by_cases hl : l.eq (.str s) = true
    · rw [if_pos hl]
      by_cases h : s = k
      · simp [PyVal.find,h,(hstr l hl).mpr h]
      · simp [PyVal.find,h,Bool.eq_false_iff.mpr fun he => h ((hstr l hl).mp he)]
    · rw [if_neg hl]
      by_cases hk : l.eq (.str k) = true
      · have hne : s ≠ k := fun h => hl (h ▸ hk)
        simp [PyVal.find,hk,hne]
      · have hk' : l.eq (.str k) = false := by simpa using hk
        unfold PyVal.find at ih ⊢
        rw [List.find?_cons,hk',List.find?_cons,hk']
        exact ih

/-- {**d, **kws}: what kws has under a key, else what d has. -/
lemma find_merged (hs : StrKeys kws) (hn : (kws.map Prod.fst).Nodup) :
    PyVal.find (kws.foldl (fun d p => setKey d p.1 p.2) d) (.str k) =
      (PyVal.find kws (.str k)).or (PyVal.find d (.str k)) := by
  induction kws generalizing d with
  | nil => rfl
  | cons p kws ih =>
    obtain ⟨s,hp⟩ := hs p (by simp)
    obtain ⟨l,v⟩ := p
    obtain rfl : l = .str s := hp
    obtain ⟨hnew,hn⟩ := List.nodup_cons.mp hn
    rw [List.foldl_cons,ih (fun q hq => hs q (List.mem_cons_of_mem _ hq)) hn,find_setKey]
    by_cases h : s = k
    · subst h
      have hnone : PyVal.find kws (.str s) = none := by
        rw [PyVal.find,Option.map_eq_none_iff,List.find?_eq_none]
        intro q hq he
        exact hnew (List.mem_map.mpr ⟨q,hq,keyEq_str_right.mp he⟩)
      rw [hnone,if_pos rfl]
      simp [PyVal.find]
    · simp [PyVal.find,h]

/-- What an entry of sign_off's own event holds: its place in the chain, and the body's items. -/
structure EntryOf (r : EventRow) (digest : PyStr) (entry : List (PyKey × PyVal)) : Prop where
  seq : itemAt (.dict entry) "seq" = .ok (.int r.seq)
  hash : itemAt (.dict entry) "hash" = .ok r.hash.toPy
  digest : getItem entry (lit "report_digest") = .str digest

lemma SignOffArgs.body_strDict (a : SignOffArgs) : ∃ kvs, a.body = .dict kvs ∧ StrDict kvs :=
  ⟨_,rfl,by simp [StrKeys],by simp⟩

/-- A dict with string keys is still one after it was written and read. -/
lemma image_strDict (h : StrDict kvs) : ∃ kws, canonicalImage (.dict kvs) = .dict kws ∧ StrDict kws ∧
    ∀ k : PyStr, PyVal.find kws (.str k) = (PyVal.find kvs (.str k)).map canonicalImage := by
  have he := toJson_strDict (o := canonicalOpts) h
  have hp := sortItems_perm canonicalOpts kvs
  refine ⟨_,he,⟨?_,?_⟩,fun k => find_toJson h he k⟩
  · intro p hm
    obtain ⟨q,hq,rfl⟩ := List.mem_map.mp hm
    exact h.keys q (hp.mem_iff.mp hq)
  · rw [List.map_map]
    exact (hp.map Prod.fst).nodup_iff.mpr h.nodup

/-- sign_offs has an entry for each event that sign_off has logged. -/
lemma signOffOf_logged (hk : r.kind = .text signoffEvent) (hl : loadsColumn r.body = .ok (canonicalImage a.body)) :
    ∃ entry, signOffOf r = .ok (some entry) ∧ EntryOf r a.reportDigest entry := by
  obtain ⟨kvs,hb,hd⟩ := a.body_strDict
  obtain ⟨kws,hi,hw,hf⟩ := image_strDict hd
  rw [hb,hi] at hl
  refine ⟨_,by simp only [signOffOf,hl,hk,signOffEntry,bind,Except.bind,if_true]; rfl,?_⟩
  obtain rfl := PyVal.dict.inj hb
  refine ⟨?_,?_,?_⟩
  · rw [itemAt,find_merged hw.keys hw.nodup,hf]
    simp [PyVal.find]
  · rw [itemAt,find_merged hw.keys hw.nodup,hf]
    simp [PyVal.find]
  · rw [getItem,find_merged hw.keys hw.nodup,hf]
    simp [PyVal.find,canonicalImage,PyVal.toJson]

/-- Every body can be read, and what looks like a sign-off was logged as one. -/
def SignOffsReadable (rows : List EventRow) : Prop :=
  ∀ r ∈ rows, ∃ body, loadsColumn r.body = .ok (canonicalImage body) ∧
    (r.kind = .text signoffEvent → ∃ a : SignOffArgs, body = a.body)

/-- The report's sign-off is in the chain. -/
def SignedOff (rows : List EventRow) (digest : PyStr) : Prop :=
  ∃ r ∈ rows, r.kind = .text signoffEvent ∧ ∃ a : SignOffArgs, a.reportDigest = digest ∧
    loadsColumn r.body = .ok (canonicalImage a.body)

lemma filterMapM_ok {α β ε : Type} {f : α → Except ε (Option β)} {g : α → Option β} {xs : List α}
    (h : ∀ x ∈ xs, f x = .ok (g x)) : xs.filterMapM f = .ok (xs.filterMap g) := by
  induction xs with
  | nil => rfl
  | cons x xs ih =>
    rw [List.filterMapM_cons,h x (by simp),ih fun y hy => h y (List.mem_cons_of_mem _ hy),List.filterMap_cons]
    cases g x <;> rfl

/-- The latest entry of a report is that of an event in the chain, and there is none exactly when
it was not signed off. -/
theorem signOffs_last {rows : List EventRow} (digest : PyStr) (hc : Chained H rows) (hr : SignOffsReadable rows) :
    ∃ entries, signOffs rows = .ok entries ∧ (SignedOff rows digest ↔ (entriesOf digest entries).getLast? ≠ none) ∧
      ∀ entry ∈ (entriesOf digest entries).getLast?, ∃ r ∈ rows, EntryOf r digest entry := by
  have hentry : ∀ r ∈ rows, ∃ e, signOffOf r = .ok e ∧ (∀ entry ∈ e, ∃ d, EntryOf r d entry ∧
      r.kind = .text signoffEvent ∧ ∃ a : SignOffArgs, a.reportDigest = d ∧
        loadsColumn r.body = .ok (canonicalImage a.body)) ∧ (r.kind = .text signoffEvent → e ≠ none) := by
    intro r hm
    obtain ⟨body,hl,hk⟩ := hr r hm
    by_cases hkind : r.kind = .text signoffEvent
    · obtain ⟨a,rfl⟩ := hk hkind
      obtain ⟨entry,he,hof⟩ := signOffOf_logged hkind hl
      refine ⟨_,he,?_,by simp⟩
      rintro _ ⟨⟩
      exact ⟨_,hof,hkind,a,rfl,hl⟩
    · refine ⟨none,?_,by simp,fun h => absurd h hkind⟩
      simp only [signOffOf,hl,hkind,if_false,bind,Except.bind]
      rfl
  have hpos : ((orderBySeq rows).filter fun r => decide (0 < r.seq)) = rows := by
    rw [hc.orderBySeq_eq,List.filter_eq_self]
    intro r hm
    have := hc.le r hm
    simp only [decide_eq_true_eq]
    omega
  have hok : signOffs rows = .ok (rows.filterMap fun r => (signOffOf r).toOption.join) := by
    rw [signOffs,hpos]
    refine filterMapM_ok fun r hm => ?_
    obtain ⟨e,he,-⟩ := hentry r hm
    rw [he]
    cases e <;> rfl
  have hin : ∀ entry ∈ entriesOf digest (rows.filterMap fun r => (signOffOf r).toOption.join),
      ∃ r ∈ rows, EntryOf r digest entry ∧ r.kind = .text signoffEvent ∧ ∃ a : SignOffArgs,
        a.reportDigest = digest ∧ loadsColumn r.body = .ok (canonicalImage a.body) := by
    intro entry he
    obtain ⟨hmem,hdig⟩ := List.mem_filter.mp he
    obtain ⟨r,hm,hj⟩ := List.mem_filterMap.mp hmem
    obtain ⟨e,hs,hall,-⟩ := hentry r hm
    rw [hs] at hj
    cases e with
    | none => cases hj
    | some x =>
      obtain rfl : x = entry := by simpa [Except.toOption] using hj
      obtain ⟨d,hof,hlogged⟩ := hall x rfl
      rw [hof.digest] at hdig
      obtain rfl : d = digest := by simpa [PyVal.pyEq] using hdig
      exact ⟨r,hm,hof,hlogged⟩
  refine ⟨_,hok,⟨?_,fun hne => ?_⟩,fun entry he => ?_⟩
  · rintro ⟨r,hm,hkind,a,rfl,hl⟩ hnone
    obtain ⟨entry,he,hof⟩ := signOffOf_logged hkind hl
    have hmem : entry ∈ entriesOf a.reportDigest (rows.filterMap fun r => (signOffOf r).toOption.join) := by
      rw [entriesOf,List.mem_filter,List.mem_filterMap]
      exact ⟨⟨r,hm,by rw [he]; rfl⟩,by rw [hof.digest]; simp [PyVal.pyEq]⟩
    rw [List.getLast?_eq_none_iff.mp hnone] at hmem
    cases hmem
  · obtain ⟨entry,he⟩ := Option.ne_none_iff_exists'.mp hne
    obtain ⟨r,hm,-,hkind,a,ha⟩ := hin entry (List.mem_of_getLast? he)
    exact ⟨r,hm,hkind,a,ha⟩
  · obtain ⟨r,hm,hof,-⟩ := hin entry (List.mem_of_getLast? he)
    exact ⟨r,hm,hof⟩

end Entries

section Grows

variable {w w' : World} {P : World → PyStr → Transition → Prop}

lemma IsTransition.not_signOff {t : Transition} (h : IsTransition t) : t.kind ≠ signoffEvent := by
  cases h <;> simp [sealTransition,failTransition,invalidateTransition,signoffEvent]

/-- The events that a step adds can be read, and only sign_off logs sign-offs. -/
lemma LedgerStep.appends (hc : Consistent H w.db) (h : LedgerStep H P w w') :
    ∃ new, w'.db.events = w.db.events++new ∧ SignOffsReadable new := by
  have logged : ∀ {ev : EventRow} {kind subject : PyStr} {body : PyVal},
      ev.Logs H w.db.events kind subject body → (kind = signoffEvent → ∃ a : SignOffArgs, body = a.body) →
      SignOffsReadable [ev] := by
    intro ev kind subject body hl hk
    refine List.forall_mem_singleton.mpr ⟨body,hl.loads,fun he => hk ?_⟩
    exact TextCell.text.inj (hl.kind.symm.trans he)
  have silent : w.db.events = w.db.events++[] ∧ SignOffsReadable [] :=
    ⟨(List.append_nil _).symm,List.forall_mem_nil _⟩
  cases h with
  | stay | archive => exact ⟨[],silent⟩
  | create hrow ht =>
    obtain ⟨r,body,ev,-,-,rfl,hl,-⟩ := createTx_ok ht
    exact ⟨[ev],rfl,logged hl (by simp [signoffEvent])⟩
  | move ht _ htx =>
    obtain ⟨_,rfl,_⟩ | ⟨_,_,_,ev,_,rfl,hl,_⟩ := transitionTx_ok hc.uniqueIds htx
    · exact ⟨[],silent⟩
    · exact ⟨[ev],rfl,logged hl fun h => absurd h ht.not_signOff⟩
  | opened ht =>
    obtain rfl | ⟨at',ev,rfl,hl,_⟩ := openTx_ok ht
    · exact ⟨[],silent⟩
    · exact ⟨[ev],rfl,logged hl (by simp [signoffEvent])⟩
  | event ht =>
    obtain ⟨row,ev,_,rfl,hl,_⟩ := insertTx_ok ht
    exact ⟨[ev],rfl,logged hl (by simp [signoffEvent])⟩
  | replay ht =>
    obtain ⟨row,ev,_,rfl,hl,_⟩ := replayTx_ok ht
    exact ⟨[ev],rfl,logged hl (by simp [signoffEvent])⟩
  | signOff ht =>
    obtain ⟨ev,rfl,hl⟩ := signOffTx_ok ht
    exact ⟨[ev],rfl,logged hl fun _ => ⟨_,rfl⟩⟩

/-- A ledger that only its own calls have written. -/
structure OwnLedger (H : Hasher) (db : Db) : Prop where
  consistent : Consistent H db
  history : HistoryHolds db
  readable : SignOffsReadable db.events

lemma ownLedger_new : OwnLedger H Db.new := ⟨consistent_new,historyHolds_new,List.forall_mem_nil _⟩

/-- It stays one, its rows become what they may and its chain only grows. -/
theorem OwnLedger.run (h : OwnLedger H w.db) (hr : (ledgerRules H).rely w w') :
    OwnLedger H w'.db ∧ Evolves w.db w'.db ∧ w.db.events <+: w'.db.events := by
  have hh := Rules.ledger_history h.consistent h.history hr
  suffices SignOffsReadable w'.db.events ∧ w.db.events <+: w'.db.events from
    ⟨⟨h.consistent.run hr,hh.1,this.1⟩,hh.2,this.2⟩
  clear hh
  induction hr with
  | refl => exact ⟨h.readable,List.prefix_rfl⟩
  | @tail b c hbc hs ih =>
    rcases hs with hs | hs
    · obtain ⟨new,hnew,hread⟩ := hs.appends (h.consistent.run hbc)
      rw [hnew]
      exact ⟨List.forall_mem_append.mpr ⟨ih.1,hread⟩,ih.2.trans (List.prefix_append _ _)⟩
    · exact hs ▸ ih

end Grows

end Stele
