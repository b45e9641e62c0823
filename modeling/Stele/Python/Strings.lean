import Stele.Python.Json

/-! The methods of `str` that take a text apart: partition, rpartition, split and replace. -/
namespace Python

/-- s.partition(sep), for a separator that is not empty; `none` when it does not occur. -/
def partition (sep : PyStr) : PyStr → Option (PyStr × PyStr)
  | [] => if sep.isPrefixOf [] then some ([],[]) else none
  | c :: s =>
    if sep.isPrefixOf (c :: s) then some ([],(c :: s).drop sep.length)
    else (partition sep s).map fun p => (c :: p.1,p.2)

/-- s.rpartition(c); `none` when c does not occur. -/
def rpartition (c : CodePoint) : PyStr → Option (PyStr × PyStr)
  | [] => none
  | d :: s =>
    match rpartition c s with
    | some (l,r) => some (d :: l,r)
    | none => if d = c then some ([],s) else none

/-- s[len(p):] if s.startswith(p). -/
def dropPrefix (p s : PyStr) : Option PyStr := if p.isPrefixOf s then some (s.drop p.length) else none

/-- s.replace(old, new), for a text to replace that is not empty; the fuel is len(s). -/
def replaceFuel (old new : PyStr) : ℕ → PyStr → PyStr
  | _,[] => []
  | 0,s => s
  | n+1,c :: s =>
    if old.isPrefixOf (c :: s) then new++replaceFuel old new n ((c :: s).drop old.length)
    else c :: replaceFuel old new n s

def replace (old new s : PyStr) : PyStr := replaceFuel old new s.length s

section Lemmas

variable {s t l r p : PyStr} {c : CodePoint}

lemma dropPrefix_append (p s : PyStr) : dropPrefix p (p++s) = some s := by
  rw [dropPrefix,if_pos (List.isPrefixOf_iff_prefix.mpr (List.prefix_append p s)),List.drop_left]

/-- What holds of every character of the separator and the parts. -/
lemma forall_mem_intercalate {P : CodePoint → Prop} {sep : PyStr} {ts : List PyStr} (hsep : ∀ c ∈ sep, P c)
    (h : ∀ t ∈ ts, ∀ c ∈ t, P c) : ∀ c ∈ List.intercalate sep ts, P c := by
  induction ts with
  | nil => nofun
  | cons t ts ih =>
    obtain ⟨ht,hts⟩ := List.forall_mem_cons.mp h
    cases ts with
    | nil => rwa [List.intercalate_singleton]
    | cons u ts =>
      rw [List.intercalate_cons_cons]
      simp only [List.forall_mem_append]
      exact ⟨⟨ht,hsep⟩,ih hts⟩

/-- The first separator is the one after a part that does not have its first character. -/
lemma partition_append (sep : PyStr) (h : c ∉ l) (r : PyStr) :
    partition (c :: sep) (l++(c :: sep)++r) = some (l,r) := by
  induction l with
  | nil =>
    have hp : (c :: sep).isPrefixOf (c :: (sep++r)) = true :=
      List.isPrefixOf_iff_prefix.mpr ⟨r,by simp⟩
    simp only [List.nil_append,List.cons_append,partition,hp,if_true]
    rw [← List.cons_append,List.drop_left]
  | cons d l ih =>
    have hd : c ≠ d := fun he => h (he ▸ List.mem_cons_self)
    have hp : ¬(c :: sep).isPrefixOf (d :: (l++(c :: sep)++r)) = true := by simp [hd]
    rw [List.cons_append,List.cons_append,partition,if_neg hp,ih fun hm => h (List.mem_cons_of_mem _ hm)]
    rfl

lemma rpartition_none (h : c ∉ s) : rpartition c s = none := by
  induction s with
  | nil => rfl
  | cons d s ih =>
    rw [rpartition,ih fun hm => h (List.mem_cons_of_mem _ hm)]
    exact if_neg fun hd : d = c => h (hd ▸ List.mem_cons_self)

/-- The last separator is the one before a part that does not have it. -/
lemma rpartition_append (l : PyStr) (h : c ∉ r) : rpartition c (l++c :: r) = some (l,r) := by
  induction l with
  | nil => rw [List.nil_append,rpartition,rpartition_none h]; exact if_pos rfl
  | cons d l ih => rw [List.cons_append,rpartition,ih]

end Lemmas

/-- [0-9]+ without a needless zero: 0|[1-9][0-9]*. -/
def isUint (s : PyStr) : Bool :=
  match s with
  | [] => false
  | c :: r => (c :: r).all isDigit && (decide (r = []) || decide (c ≠ cp '0'))

/-- str(n) of a natural number; `none` is ValueError. -/
def strInt (n : ℕ) : Option PyStr :=
  if (natText n).length ≤ maxStrDigits then some (natText n) else none

/-- int(s) of ASCII digits; `none` is ValueError. -/
def intDigits (s : PyStr) : Option ℕ := if s.length ≤ maxStrDigits then some (natOf s) else none

lemma isUint_natText (n : ℕ) : isUint (natText n) = true := by
  have hd := natText_digits n
  have hn := natText_ne_nil n
  cases ht : natText n with
  | nil => exact absurd ht hn
  | cons c r =>
    rw [ht] at hd
    have hall : (c :: r).all isDigit = true := List.all_eq_true.mpr hd
    rw [isUint,hall,Bool.true_and,Bool.or_eq_true,decide_eq_true_eq,decide_eq_true_eq]
    by_cases h0 : n = 0
    · left
      subst h0
      exact (List.cons.inj (ht.symm.trans (by decide : natText 0 = [digit 0]))).2
    · right
      intro hc
      have hz := natText_head_ne_zero h0
      rw [ht,hc,cp_zero] at hz
      exact hz rfl

lemma intDigits_strInt {n : ℕ} {t : PyStr} (h : strInt n = some t) :
    intDigits t = some n ∧ isUint t = true ∧ ∀ c ∈ t, isDigit c = true := by
  unfold strInt at h
  split_ifs at h with hl
  obtain rfl := Option.some.inj h
  exact ⟨by rw [intDigits,if_pos hl,natOf_natText],isUint_natText n,natText_digits n⟩

/-- The numbers that str writes are those of at most 4300 digits. -/
lemma strInt_of_lt {n : ℕ} (h : n < 10^maxStrDigits) : strInt n = some (natText n) := by
  refine if_pos ?_
  unfold natText
  split_ifs with h0
  · simp [maxStrDigits]
  · rw [List.length_reverse,List.length_map]
    exact (Nat.digits_length_le_iff (by decide) _).mpr h

end Python
