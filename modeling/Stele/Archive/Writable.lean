import Stele.Archive.Records
import Mathlib.Data.Nat.Digits.Lemmas

/-! Which values canonical JSON can write, from their parts and back. -/
namespace Stele
open Python

/-- canonical_json(v) succeeds. -/
def Writable (v : PyVal) : Prop := ∃ t, canonicalText v = .ok t

section Writable

variable {s : PyStr} {xs : List PyVal} {kvs : List (PyKey × PyVal)}

lemma writable_iff {v : PyVal} : Writable v ↔ ∃ t, dumps canonicalOpts v = .ok t ∧ Encodable t := by
  unfold Writable
  exact exists_congr fun t => canonicalText_ok

lemma writable_none : Writable .none := writable_iff.mpr ⟨_,rfl,encodable_lit _⟩

lemma writable_bool (b : Bool) : Writable (.bool b) := by
  cases b <;> exact writable_iff.mpr ⟨_,rfl,encodable_lit _⟩

lemma hexDigit_encodable (n : ℕ) : (hexDigit n).val < 128 := by
  have h : n%16 < 16 := Nat.mod_lt _ (by decide)
  unfold hexDigit
  generalize n%16 = d at h ⊢
  interval_cases d <;> decide

lemma quote_encodable (h : Encodable s) : Encodable (quote canonicalOpts s) := by
  have hchar : ∀ c ∈ s, Encodable (escapeChar false c) := by
    intro c hc
    have hs := h c hc
    unfold escapeChar
    split_ifs with h1 h2 h3 h4 h5 h6 h7
    · simp only [encodable_cons,hs,encodable_nil,and_true]
      decide
    any_goals decide
    · have hc' : c.val < 0x10000 := by
        rcases h7 with h7 | h7
        · omega
        · cases h7.1
      rw [unicodeEscape,if_pos hc',hexEscape]
      refine encodable_ascii fun d hd => ?_
      simp only [List.mem_cons,List.not_mem_nil,or_false] at hd
      rcases hd with rfl | rfl | rfl | rfl | rfl | rfl
      · decide
      · decide
      all_goals exact hexDigit_encodable _
    · simp [hs]
  have hall : Encodable (s.flatMap (escapeChar false)) := by
    intro c hc
    obtain ⟨d,hd,hcd⟩ := List.mem_flatMap.mp hc
    exact hchar d hd c hcd
  rw [quote,encodable_cons,encodable_append]
  exact ⟨by decide,hall,by decide⟩

lemma writable_str (h : Encodable s) : Writable (.str s) := writable_iff.mpr ⟨_,rfl,quote_encodable h⟩

lemma natText_encodable (n : ℕ) : Encodable (natText n) := by
  refine encodable_ascii fun c hc => ?_
  have := natText_digits n c hc
  simp only [isDigit,decide_eq_true_eq] at this
  omega

lemma writable_nat {n : ℕ} (h : (natText n).length ≤ maxStrDigits) : Writable (.int n) := by
  refine writable_iff.mpr ⟨natText n,?_,natText_encodable n⟩
  rw [dumps,intText,Int.natAbs_natCast,if_pos h,decide_eq_false (Int.natCast_nonneg n).not_gt]
  rfl

lemma intercalate_encodable {sep : PyStr} (hs : Encodable sep) {ts : List PyStr}
    (h : ∀ t ∈ ts, Encodable t) : Encodable (sep.intercalate ts) := by
  induction ts with
  | nil => simp
  | cons t ts ih =>
    cases ts with
    | nil => simpa using h
    | cons u ts =>
      have hi := ih fun w hw => h w (List.mem_cons_of_mem _ hw)
      rw [List.intercalate_cons_cons]
      simp only [encodable_append]
      exact ⟨⟨h t (by simp),hs⟩,hi⟩

lemma mapM_total {ε α β : Type} {f : α → Except ε β} {P : β → Prop} {l : List α}
    (h : ∀ x ∈ l, ∃ y, f x = .ok y ∧ P y) : ∃ ys, l.mapM f = .ok ys ∧ ∀ y ∈ ys, P y := by
  induction l with
  | nil => exact ⟨[],rfl,nofun⟩
  | cons x l ih =>
    obtain ⟨y,hy,hp⟩ := h x (by simp)
    obtain ⟨ys,hys,hps⟩ := ih fun z hz => h z (List.mem_cons_of_mem _ hz)
    refine ⟨y :: ys,?_,List.forall_mem_cons.mpr ⟨hp,hps⟩⟩
    rw [List.mapM_cons,hy,hys]
    rfl

lemma writable_list (h : ∀ x ∈ xs, Writable x) : Writable (.list xs) := by
  obtain ⟨ts,hts,he⟩ := mapM_total fun x hx => writable_iff.mp (h x hx)
  have hd := dumpsList_ok.mpr (mapM_ok.mp hts)
  refine writable_iff.mpr ⟨_,by rw [dumps,hd]; rfl,?_⟩
  simp only [encodable_cons,encodable_append]
  exact ⟨by decide,intercalate_encodable (by decide) he,by decide⟩

lemma writable_dict (h : ∀ p ∈ kvs, (∃ k, p.1 = .str k ∧ Encodable k) ∧ Writable p.2) :
    Writable (.dict kvs) := by
  have hk : StrKeys kvs := fun p hp => by
    obtain ⟨⟨k,hk,-⟩,-⟩ := h p hp
    exact ⟨k,hk⟩
  have hm : ∀ p ∈ sortItems canonicalOpts kvs, ∃ t, member canonicalOpts p = .ok t ∧ Encodable t := by
    intro p hp
    obtain ⟨⟨k,hk,hek⟩,hw⟩ := h p ((sortItems_perm _ kvs).mem_iff.mp hp)
    obtain ⟨t,ht,het⟩ := writable_iff.mp hw
    refine ⟨quote canonicalOpts k++(canonicalOpts.keySep++t),?_,?_⟩
    · rw [member,hk,ht]
      rfl
    · simp only [encodable_append]
      exact ⟨quote_encodable hek,by decide,het⟩
  obtain ⟨ts,hts,he⟩ := mapM_total hm
  refine writable_iff.mpr ⟨_,by rw [dumps_strDict hk,hts]; rfl,?_⟩
  simp only [encodable_cons,encodable_append]
  exact ⟨by decide,intercalate_encodable (by decide) he,by decide⟩

lemma encodable_of_quote (h : Encodable (quote canonicalOpts s)) : Encodable s := by
  rw [quote,encodable_cons,encodable_append] at h
  intro c hc
  by_contra hs
  have hsur : 0xD800 ≤ c.val := by
    simp only [Bool.not_eq_false,CodePoint.isSurrogate,decide_eq_true_eq] at hs
    exact hs.1
  have he : escapeChar false c = [c] := by
    have hne : ∀ d : CodePoint, d.val < 0xD800 → c ≠ d := fun d hd he => by
      subst he
      omega
    unfold escapeChar
    rw [if_neg (by rintro (h | h) <;> exact hne _ (by decide) h),if_neg (hne 10 (by decide)),
      if_neg (hne 13 (by decide)),if_neg (hne 9 (by decide)),if_neg (hne 12 (by decide)),
      if_neg (hne 8 (by decide)),if_neg (by rintro (h | h); omega; cases h.1)]
  exact hs (h.2.1 c (List.mem_flatMap.mpr ⟨c,hc,he ▸ List.mem_singleton_self c⟩))

lemma encodable_of_writable (h : Writable (.str s)) : Encodable s := by
  obtain ⟨t,ht,he⟩ := writable_iff.mp h
  obtain rfl := Except.ok.inj ht
  exact encodable_of_quote he

lemma encodable_of_intercalate {sep : PyStr} {ts : List PyStr} (h : Encodable (sep.intercalate ts)) :
    ∀ t ∈ ts, Encodable t := by
  induction ts with
  | nil => exact nofun
  | cons t ts ih =>
    cases ts with
    | nil => simpa using h
    | cons u ts =>
      rw [List.intercalate_cons_cons] at h
      simp only [encodable_append] at h
      exact List.forall_mem_cons.mpr ⟨h.1.1,ih h.2⟩

/-- Every item of a dict that can be written can be written itself. -/
lemma Writable.item (h : Writable (.dict kvs)) {p : PyKey × PyVal} (hp : p ∈ kvs) : Writable p.2 := by
  obtain ⟨t,ht,he⟩ := writable_iff.mp h
  obtain ⟨ts,hts,rfl⟩ := dumps_dict_ok ht
  obtain ⟨u,hu,hm⟩ := forall₂_mem hts ((sortItems_perm _ kvs).mem_iff.mpr hp)
  obtain ⟨w,hw,rfl⟩ := member_ok hm
  simp only [encodable_cons,encodable_append] at he
  have heu := encodable_of_intercalate he.2.1 _ hu
  simp only [encodable_append] at heu
  exact writable_iff.mpr ⟨w,hw,heu.2.2⟩

lemma Writable.elem (h : Writable (.list xs)) {x : PyVal} (hx : x ∈ xs) : Writable x := by
  obtain ⟨t,ht,he⟩ := writable_iff.mp h
  obtain ⟨ts,hts,rfl⟩ := dumps_list_ok ht
  obtain ⟨u,hu,hxu⟩ := forall₂_mem hts hx
  simp only [encodable_cons,encodable_append] at he
  exact writable_iff.mpr ⟨u,hxu,encodable_of_intercalate he.2.1 _ hu⟩

/-- A dict with encodable keys is written when its values are. -/
lemma writable_keys (hk : ∀ p ∈ kvs, ∃ k, p.1 = .str k ∧ Encodable k) :
    Writable (.dict kvs) ↔ ∀ p ∈ kvs, Writable p.2 :=
  ⟨fun h _ hp => h.item hp,fun h => writable_dict fun p hp => ⟨hk p hp,h p hp⟩⟩

lemma writable_elems : Writable (.list xs) ↔ ∀ x ∈ xs, Writable x :=
  ⟨fun h _ hx => h.elem hx,writable_list⟩

lemma writable_str_iff : Writable (.str s) ↔ Encodable s := ⟨encodable_of_writable,writable_str⟩

/-- A number is written when it has few enough digits. -/
lemma writable_nat_iff {n : ℕ} : Writable (.int n) ↔ (natText n).length ≤ maxStrDigits := by
  refine ⟨fun h => ?_,writable_nat⟩
  obtain ⟨t,ht,-⟩ := writable_iff.mp h
  rw [dumps,intText,Int.natAbs_natCast] at ht
  split_ifs at ht with hn
  exact hn

end Writable

end Stele
