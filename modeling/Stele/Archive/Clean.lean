import Stele.Archive.Writable
import Stele.Python.JsonLoads

/-! What json.loads returns and canonical JSON refuses to write: lone surrogates, NaN and
infinities, anywhere in the value. -/
namespace Stele
open Python

mutual
/-- No lone surrogate in a string or a key, no NaN and no infinity. -/
def Clean : PyVal → Prop
  | .float f => ∃ x, f = .finite x
  | .str s => Encodable s
  | .list xs | .tuple xs => CleanList xs
  | .dict kvs => CleanItems kvs
  | .none | .bool _ | .int _ | .bytes _ | .object _ => True
def CleanList : List PyVal → Prop
  | [] => True
  | x :: xs => Clean x ∧ CleanList xs
def CleanItems : List (PyKey × PyVal) → Prop
  | [] => True
  | (k,v) :: kvs => (∀ s, k = .str s → Encodable s) ∧ Clean v ∧ CleanItems kvs
end

section Clean

variable {xs : List PyVal} {kvs : List (PyKey × PyVal)}

@[simp] lemma clean_str {s : PyStr} : Clean (.str s) ↔ Encodable s := by rw [Clean]

@[simp] lemma clean_float {f : PyFloat} : Clean (.float f) ↔ ∃ x, f = .finite x := by rw [Clean]

lemma clean_list : Clean (.list xs) ↔ ∀ x ∈ xs, Clean x := by
  rw [Clean]
  induction xs with
  | nil => simp [CleanList]
  | cons x xs ih => rw [CleanList,ih,List.forall_mem_cons]

lemma clean_tuple : Clean (.tuple xs) ↔ Clean (.list xs) := by simp [Clean]

lemma clean_dict : Clean (.dict kvs) ↔ ∀ p ∈ kvs, (∀ s, p.1 = .str s → Encodable s) ∧ Clean p.2 := by
  rw [Clean]
  induction kvs with
  | nil => simp [CleanItems]
  | cons p kvs ih => rw [CleanItems,ih,List.forall_mem_cons,and_assoc]

end Clean

section Writable

variable {s : PyStr} {xs : List PyVal} {kvs : List (PyKey × PyVal)}

lemma writable_int {i : ℤ} (h : (natText i.natAbs).length ≤ maxStrDigits) : Writable (.int i) := by
  refine writable_iff.mpr ⟨_,by rw [dumps,intText,if_pos h],?_⟩
  rw [encodable_append]
  refine ⟨?_,natText_encodable _⟩
  unfold NumToken.signText
  split_ifs <;> simp [cp]
  decide

lemma digits_encodable (h : ∀ c ∈ s, isDigit c = true) : Encodable s := by
  refine encodable_ascii fun c hc => ?_
  have := h c hc
  simp only [isDigit,decide_eq_true_eq] at this
  omega

lemma token_encodable {t : NumToken} (ht : t.Valid) : Encodable t.text := by
  obtain ⟨-,hint,hfrac,hexp⟩ := ht
  simp only [NumToken.text,encodable_append]
  refine ⟨?_,digits_encodable hint,?_,?_⟩
  · cases t.neg <;> decide
  · cases hf : t.frac with
    | none => simp [NumToken.fracText]
    | some ds =>
      rw [NumToken.fracText,encodable_cons]
      exact ⟨by decide,digits_encodable (hfrac ds hf).2⟩
  · cases he : t.exp with
    | none => simp [NumToken.expText]
    | some e =>
      obtain ⟨neg,ds⟩ := e
      rw [NumToken.expText,encodable_cons,encodable_cons]
      exact ⟨by decide,by cases neg <;> decide,digits_encodable (hexp _ he).2⟩

lemma writable_float (f : Finite64) : Writable (.float (.finite f)) :=
  writable_iff.mpr ⟨_,rfl,token_encodable f.token_valid⟩

/-- Every key of a dict that can be written is encodable. -/
lemma Writable.key (h : Writable (.dict kvs)) {p : PyKey × PyVal} (hp : p ∈ kvs)
    (hk : p.1 = .str s) : Encodable s := by
  obtain ⟨t,ht,he⟩ := writable_iff.mp h
  obtain ⟨ts,hts,rfl⟩ := dumps_dict_ok ht
  obtain ⟨u,hu,hm⟩ := forall₂_mem hts ((sortItems_perm _ kvs).mem_iff.mpr hp)
  rw [member,hk] at hm
  obtain ⟨w,hw,hm⟩ := except_bind_ok.mp hm
  obtain rfl := Except.ok.inj hw
  obtain ⟨x,-,hm⟩ := except_bind_ok.mp hm
  obtain rfl := Except.ok.inj hm
  simp only [encodable_cons,encodable_append] at he
  have heu := encodable_of_intercalate he.2.1 _ hu
  rw [encodable_append] at heu
  exact encodable_of_quote heu.1

lemma Writable.clean {v : PyVal} (h : Writable v) : Clean v := by
  induction v using PyVal.ind with
  | none | bool b | int i | bytes b | object i => simp [Clean]
  | float f =>
    obtain ⟨t,ht,-⟩ := writable_iff.mp h
    exact clean_float.mpr (floatText_finite rfl ht)
  | str s => exact clean_str.mpr (encodable_of_writable h)
  | list xs ih => exact clean_list.mpr fun x hx => ih x hx (h.elem hx)
  | tuple xs ih =>
    have hl : Writable (.list xs) := by
      obtain ⟨t,ht,he⟩ := writable_iff.mp h
      exact writable_iff.mpr ⟨t,dumps_tuple _ xs ▸ ht,he⟩
    exact clean_tuple.mpr (clean_list.mpr fun x hx => ih x hx (hl.elem hx))
  | dict kvs ih => exact clean_dict.mpr fun p hp => ⟨fun s hs => h.key hp hs,ih p hp (h.item hp)⟩

lemma spanDigits_digits (s : PyStr) : ∀ c ∈ (spanDigits s).1, isDigit c = true := by
  induction s with
  | nil => exact List.forall_mem_nil _
  | cons c s ih =>
    rw [spanDigits]
    split_ifs with hc
    · exact List.forall_mem_cons.mpr ⟨hc,ih⟩
    · exact List.forall_mem_nil _

lemma lexInt_digits {ds r : PyStr} (h : lexInt s = some (ds,r)) :
    ds ≠ [] ∧ ∀ c ∈ ds, isDigit c = true := by
  unfold lexInt at h
  split at h
  · cases h
  · rename_i c s
    split_ifs at h with h0 hc
    · obtain ⟨rfl,-⟩ := Prod.mk.inj (Option.some.inj h)
      exact ⟨by simp,fun d hd => List.mem_singleton.mp hd ▸ by decide⟩
    · have hds : (spanDigits (c :: s)).1 = ds := congrArg Prod.fst (Option.some.inj h)
      rw [← hds]
      exact ⟨by simp [spanDigits,hc],spanDigits_digits _⟩

lemma lexNumber_int {t : NumToken} {r : PyStr} (h : lexNumber s = some (t,r)) :
    t.int ≠ [] ∧ ∀ c ∈ t.int, isDigit c = true := by
  unfold lexNumber at h
  simp only at h
  split at h
  · cases h
  · rename_i ds q hi
    obtain ⟨rfl,-⟩ := Prod.mk.inj (Option.some.inj h)
    exact lexInt_digits hi

/-- A scalar that was read is written unless it is NaN or infinite: its number has no more
digits than its token. -/
lemma scanScalar_writable {r : PyStr} {v : PyVal} (h : scanScalar s = some (v,r)) (hc : Clean v) :
    Writable v := by
  unfold scanScalar at h
  split at h
  · rename_i p hp
    obtain rfl := Option.some.inj h
    obtain ⟨c,hm,hc'⟩ := List.exists_of_findSome?_eq_some hp
    obtain ⟨q,-,hq⟩ := Option.map_eq_some_iff.mp hc'
    obtain ⟨rfl,-⟩ := Prod.mk.inj hq
    simp only [constants,List.mem_cons,List.not_mem_nil,or_false] at hm
    rcases hm with rfl | rfl | rfl | rfl | rfl | rfl
    · exact writable_none
    · exact writable_bool _
    · exact writable_bool _
    all_goals simp at hc
  · split at h
    · cases h
    · rename_i t q ht
      obtain ⟨w,hw,he⟩ := Option.map_eq_some_iff.mp h
      obtain ⟨rfl,-⟩ := Prod.mk.inj he
      unfold NumToken.value at hw
      have hn := natText_natOf (lexNumber_int ht).1 (lexNumber_int ht).2
      split_ifs at hw with hf hl
      · obtain rfl := Option.some.inj hw
        obtain ⟨x,hx⟩ := clean_float.mp hc
        rw [hx]
        exact writable_float x
      all_goals
        obtain rfl := Option.some.inj hw
        exact writable_int (by simpa using hn.trans hl)

/-- What cannot be written is a TypeError, a ValueError or a UnicodeEncodeError. -/
lemma canonicalText_error {v : PyVal} (h : ¬Writable v) : ∃ e, canonicalText v = .error e ∧
    (e = .typeError ∨ e = .valueError ∨ e = .unicodeEncodeError) := by
  cases hd : dumps canonicalOpts v with
  | error e =>
    refine ⟨.ofJson e,by rw [canonicalText,hd],?_⟩
    cases e <;> simp [Exc.ofJson]
  | ok t =>
    have he : ¬Encodable t := fun he => h (writable_iff.mpr ⟨t,hd,he⟩)
    refine ⟨.unicodeEncodeError,?_,by simp⟩
    rw [canonicalText,hd]
    exact if_neg he

/-- What was loaded can be written exactly when it is clean. -/
theorem writable_iff_clean {t : PyStr} {v : PyVal} (h : loads t = some v) : Writable v ↔ Clean v := by
  refine ⟨Writable.clean,loads_ind (fun s hs => writable_str (clean_str.mp hs))
    (fun s v r => scanScalar_writable) (fun xs ih hc => writable_list fun x hx =>
      ih x hx (clean_list.mp hc x hx)) (fun kvs hs ih hc => writable_dict fun p hp => ?_) h⟩
  obtain ⟨k,hk⟩ := hs.keys p hp
  obtain ⟨hke,hpc⟩ := clean_dict.mp hc p hp
  exact ⟨⟨k,hk,hke k hk⟩,ih p hp hpc⟩

end Writable

end Stele
