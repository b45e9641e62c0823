import Stele.Replay.Policy

/-! What the tolerance policy accepts, place by place: two values are accepted when they agree at
every place that both of them have, each float by the tolerance of its nearest named key. -/
namespace Stele
open Python

/-- One step into a value. -/
inductive JsonStep
  | key (k : PyStr)
  | index (i : ℕ)

/-- The value at a place. -/
def valueAt : PyVal → List JsonStep → Option PyVal
  | v,[] => some v
  | v,.key k :: path => match v with
    | .dict kvs => (PyVal.find kvs (.str k)).bind fun w => valueAt w path
    | _ => none
  | v,.index i :: path => match v with
    | .list xs => xs[i]?.bind fun w => valueAt w path
    | _ => none

/-- Both dicts have the key, or neither has. -/
def BothHave (kvs kws : List (PyKey × PyVal)) (k : PyStr) : Prop :=
  (PyVal.find kvs (.str k)).isSome = (PyVal.find kws (.str k)).isSome

/-- Two values agree at their own place, whatever lies within them. -/
inductive Agree (ignored : List PyStr) (t : Tolerance) : PyVal → PyVal → Prop
  | none : Agree ignored t .none .none
  | bool (b : Bool) : Agree ignored t (.bool b) (.bool b)
  | int (i : ℤ) : Agree ignored t (.int i) (.int i)
  | str (s : PyStr) : Agree ignored t (.str s) (.str s)
  | number {a b : PyVal} {x y : NumVal} (ha : isNumber a = true) (hb : isNumber b = true)
      (hf : (isFloat a || isFloat b) = true) (hx : a.num = some x) (hy : b.num = some y)
      (h : t.isclose x y = true) : Agree ignored t a b
  | list {xs ys : List PyVal} (h : xs.length = ys.length) : Agree ignored t (.list xs) (.list ys)
  | dict {kvs kws : List (PyKey × PyVal)} (h : ∀ k, k ∉ ignored → BothHave kvs kws k) :
      Agree ignored t (.dict kvs) (.dict kws)

/-- Structurally equal JSON: numbers by their value, booleans apart from them. -/
inductive SameJson : PyVal → PyVal → Prop
  | none : SameJson .none .none
  | bool (b : Bool) : SameJson (.bool b) (.bool b)
  | str (s : PyStr) : SameJson (.str s) (.str s)
  | number {a b : PyVal} {x : NumVal} (ha : isNumber a = true) (hb : isNumber b = true)
      (hx : a.num = some x) (hy : b.num = some x) : SameJson a b
  | list {xs ys : List PyVal} (h : List.Forall₂ SameJson xs ys) : SameJson (.list xs) (.list ys)
  | dict {kvs kws : List (PyKey × PyVal)} (hk : ∀ k, BothHave kvs kws k)
      (h : ∀ k v w, PyVal.find kvs (.str k) = some v → PyVal.find kws (.str k) = some w → SameJson v w) :
      SameJson (.dict kvs) (.dict kws)

namespace Tolerance

variable {t u : Tolerance} {x y : NumVal} {i j : ℤ}

/-- Both tolerances of u are as large. -/
def Le (t u : Tolerance) : Prop := t.relTol ≤ u.relTol ∧ t.absTol ≤ u.absTol

def Zero (t : Tolerance) : Prop := t.relTol = 0 ∧ t.absTol = 0

lemma isclose_fin : t.isclose (.fin i) (.fin j) = true ↔ i = j ∨ |(j-i : ℚ)| ≤ |t.relTol*j| ∨
    |(j-i : ℚ)| ≤ |t.relTol*i| ∨ |(j-i : ℚ)| ≤ t.absTol*2^emin := by
  simp only [isclose,Bool.or_eq_true,decide_eq_true_eq,or_assoc]

lemma isclose_inf (neg : Bool) : t.isclose (.inf neg) y = decide (.inf neg = y) := by
  cases y <;> rfl

lemma isclose_fin_inf (neg : Bool) : t.isclose (.fin i) (.inf neg) = false := rfl

lemma isclose_self (t : Tolerance) (x : NumVal) : t.isclose x x = true := by
  cases x with
  | fin i => exact isclose_fin.mpr (.inl rfl)
  | inf neg => exact decide_eq_true rfl

lemma isclose_symm (h : t.isclose x y = true) : t.isclose y x = true := by
  cases x with
  | fin i =>
    cases y with
    | fin j =>
      rw [isclose_fin] at h ⊢
      rw [abs_sub_comm] at h
      rcases h with h | h | h | h
      · exact .inl h.symm
      · exact .inr (.inr (.inl h))
      · exact .inr (.inl h)
      · exact .inr (.inr (.inr h))
    | inf neg =>
      rw [isclose_fin_inf] at h
      cases h
  | inf neg =>
    rw [isclose_inf,decide_eq_true_eq] at h
    exact h ▸ t.isclose_self _

lemma isclose_mono (htu : t.Le u) (h : t.isclose x y = true) : u.isclose x y = true := by
  obtain ⟨hr,ha⟩ := htu
  have hrel : ∀ q : ℚ, |t.relTol*q| ≤ |u.relTol*q| := by
    intro q
    rw [abs_mul,abs_mul,abs_of_nonneg t.rel_nonneg,abs_of_nonneg u.rel_nonneg]
    exact mul_le_mul_of_nonneg_right hr (by positivity)
  have habs : t.absTol*2^emin ≤ u.absTol*2^emin := by
    generalize emin = n
    exact mul_le_mul_of_nonneg_right ha (pow_nonneg (by norm_num) n)
  cases x with
  | fin i =>
    cases y with
    | fin j =>
      rw [isclose_fin] at h ⊢
      rcases h with h | h | h | h
      · exact .inl h
      · exact .inr (.inl (h.trans (hrel j)))
      · exact .inr (.inr (.inl (h.trans (hrel i))))
      · exact .inr (.inr (.inr (h.trans habs)))
    | inf neg =>
      rw [isclose_fin_inf] at h
      cases h
  | inf neg =>
    rw [isclose_inf] at h ⊢
    exact h

/-- Without tolerance numbers are close when they are equal. -/
lemma isclose_zero (ht : t.Zero) : t.isclose x y = true ↔ x = y := by
  constructor
  · intro h
    cases x with
    | fin i =>
      cases y with
      | fin j =>
        rw [isclose_fin,ht.1,ht.2] at h
        simp only [zero_mul,abs_zero,abs_nonpos_iff,or_self] at h
        rcases h with h | h
        · rw [h]
        · rw [Int.cast_inj.mp (sub_eq_zero.mp h)]
      | inf neg =>
        rw [isclose_fin_inf] at h
        cases h
    | inf neg =>
      rw [isclose_inf] at h
      exact of_decide_eq_true h
  · rintro rfl
    exact t.isclose_self x

end Tolerance

namespace JsonTolerancePolicy

variable {P Q : JsonTolerancePolicy} {a b : PyVal} {t : Tolerance} {place : PyStr} {path : List JsonStep}
  {kvs kws : List (PyKey × PyVal)} {xs ys : List PyVal}

/-- The tolerance at a place, from the tolerance t on. -/
def tolFrom (P : JsonTolerancePolicy) : Tolerance → List JsonStep → Tolerance
  | t,[] => t
  | t,.key k :: path => P.tolFrom (P.inner t k) path
  | t,.index _ :: path => P.tolFrom t path

/-- The tolerance that a key names. -/
def named (P : JsonTolerancePolicy) : JsonStep → Option Tolerance
  | .key k => P.keyTolerances.get k
  | .index _ => none

/-- The tolerance of the nearest enclosing key that key_tolerances names, the default if none. -/
def tolAt (P : JsonTolerancePolicy) (path : List JsonStep) : Tolerance :=
  (path.reverse.findSome? P.named).getD P.default

/-- No key on the way is ignored. -/
def Seen (P : JsonTolerancePolicy) (path : List JsonStep) : Prop := ∀ k, .key k ∈ path → k ∉ P.ignoreKeys

lemma tolFrom_eq (P : JsonTolerancePolicy) (t : Tolerance) (path : List JsonStep) :
    P.tolFrom t path = (path.reverse.findSome? P.named).getD t := by
  induction path generalizing t with
  | nil => rfl
  | cons s path ih =>
    rw [List.reverse_cons,List.findSome?_append]
    cases s with
    | key k =>
      rw [tolFrom,ih]
      cases path.reverse.findSome? P.named <;> simp [named,inner]
    | index i =>
      rw [tolFrom,ih]
      cases path.reverse.findSome? P.named <;> simp [named]

/-- The values agree at every place that both have and no ignored key hides. -/
def AgreeFrom (P : JsonTolerancePolicy) (t : Tolerance) (a b : PyVal) : Prop :=
  ∀ path x y, P.Seen path → valueAt a path = some x → valueAt b path = some y →
    Agree P.ignoreKeys (P.tolFrom t path) x y

lemma ofInt_inj {i j : ℤ} (h : NumVal.ofInt i = NumVal.ofInt j) : i = j := by
  rw [NumVal.ofInt,NumVal.ofInt,NumVal.fin.injEq] at h
  generalize emin = n at h
  exact Int.eq_of_mul_eq_mul_right (pow_ne_zero n (by decide)) h

/-- What is compared with ==: two values of one type that are no floats. -/
lemma agree_of_same (ha : a.Loaded) (hs : typeIs a b = true) (he : a.pyEq b = true)
    (hf : isFloat a = false) (hl : ∀ xs, a ≠ .list xs) (hd : ∀ kvs, a ≠ .dict kvs) (ignored : List PyStr) :
    Agree ignored t a b := by
  cases a with
  | none =>
    cases b <;> first | exact .none | cases hs
  | bool x =>
    cases b with
    | bool y =>
      simp only [PyVal.pyEq,PyVal.num,decide_eq_true_eq,Option.some.injEq] at he
      have hxy := ofInt_inj he
      have : x = y := by
        cases x <;> cases y <;> first | rfl | cases hxy
      exact this ▸ .bool x
    | _ => cases hs
  | int i =>
    cases b with
    | int j =>
      simp only [PyVal.pyEq,PyVal.num,decide_eq_true_eq,Option.some.injEq] at he
      rw [ofInt_inj he]
      exact .int i
    | _ => cases hs
  | float f => cases hf
  | str u =>
    cases b with
    | str v =>
      simp only [PyVal.pyEq,decide_eq_true_eq] at he
      exact he ▸ .str u
    | _ => cases hs
  | list xs => exact absurd rfl (hl xs)
  | dict kvs => exact absurd rfl (hd kvs)
  | bytes | tuple | object => exact ha.elim

lemma leaf_nil (ha : a.Loaded) (hl : ∀ xs ys, ¬(a = .list xs ∧ b = .list ys))
    (hd : ∀ kvs kws, ¬(a = .dict kvs ∧ b = .dict kws)) (ignored : List PyStr) :
    leaf a b place t = [] ↔ Agree ignored t a b := by
  unfold leaf
  by_cases hn : (isNumber a && isNumber b && (isFloat a || isFloat b)) = true
  · rw [if_pos hn]
    rw [Bool.and_eq_true,Bool.and_eq_true] at hn
    obtain ⟨⟨hna,hnb⟩,hf⟩ := hn
    constructor
    · intro h
      split at h
      · split_ifs at h with hc
        exact .number hna hnb hf ‹_› ‹_› hc
      · cases h
    · intro h
      cases h with
      | number _ _ _ hx hy hc => simp only [hx,hy,hc,if_true]
      | int i => cases hf
      | none | bool b | str u | list hlen | dict hk => cases hna
  · rw [if_neg hn]
    constructor
    · intro h
      split_ifs at h with hd'
      rw [Bool.or_eq_true,not_or,Bool.not_eq_true',Bool.not_eq_true',Bool.not_eq_false,Bool.not_eq_false] at hd'
      obtain ⟨hs,he⟩ := hd'
      refine agree_of_same ha hs he ?_ ?_ ?_ ignored
      · cases a with
        | float f =>
          cases b with
          | float g => exact absurd rfl hn
          | _ => cases hs
        | _ => rfl
      · rintro xs rfl
        cases b with
        | list ys => exact hl xs ys ⟨rfl,rfl⟩
        | _ => cases hs
      · rintro kvs rfl
        cases b with
        | dict kws => exact hd kvs kws ⟨rfl,rfl⟩
        | _ => cases hs
    · intro h
      cases h with
      | none => rfl
      | bool x => simp [typeIs,PyVal.pyEq,PyVal.num]
      | int i => simp [typeIs,PyVal.pyEq,PyVal.num]
      | str u => simp [typeIs,PyVal.pyEq]
      | number hna hnb hf => exact absurd (by rw [hna,hnb,hf]; rfl) hn
      | list hlen => exact absurd ⟨rfl,rfl⟩ (hl _ _)
      | dict hk => exact absurd ⟨rfl,rfl⟩ (hd _ _)

lemma mem_keys {k : PyStr} (h : (PyVal.dict kvs).Loaded) :
    k ∈ P.keys kvs ↔ k ∉ P.ignoreKeys ∧ (PyVal.find kvs (.str k)).isSome = true := by
  rw [keys,List.mem_filter,decide_eq_true_eq,and_comm,List.mem_filterMap,Option.isSome_iff_exists]
  refine and_congr_right fun _ => ⟨?_,?_⟩
  · rintro ⟨⟨l,v⟩,hp,hk⟩
    cases l with
    | str l =>
      obtain rfl := Option.some.inj hk
      exact ⟨v,(find_str h.strDict.nodup).mpr hp⟩
    | _ => cases hk
  · rintro ⟨v,hv⟩
    exact ⟨_,(find_str h.strDict.nodup).mp hv,rfl⟩

lemma insertionSort_nil {α : Type} (r : α → α → Prop) [DecidableRel r] {l : List α} :
    l.insertionSort r = [] ↔ l = [] := by
  rw [List.eq_nil_iff_forall_not_mem,List.eq_nil_iff_forall_not_mem]
  exact forall_congr' fun x => not_congr (List.mem_insertionSort r)

lemma oneSided_nil {ka kb : List PyStr} : oneSided ka kb place = [] ↔ ∀ k, k ∈ ka ↔ k ∈ kb := by
  rw [oneSided,List.map_eq_nil_iff,insertionSort_nil,List.append_eq_nil_iff,List.filter_eq_nil_iff,
    List.filter_eq_nil_iff]
  simp only [decide_eq_true_eq,not_not]
  exact ⟨fun h k => ⟨h.1 k,h.2 k⟩,fun h => ⟨fun k => (h k).mp,fun k => (h k).mpr⟩⟩

lemma mem_walkItems {p : PyStr × List Finding} : p ∈ P.walkItems kvs kws place t ↔
    ∃ k x y, (.str k,x) ∈ kvs ∧ k ∉ P.ignoreKeys ∧ PyVal.find kws (.str k) = some y ∧
      p = (k,P.walk x y (place++cp '/' :: k) (P.inner t k)) := by
  induction kvs with
  | nil => simp [walkItems]
  | cons q kvs ih =>
    obtain ⟨l,v⟩ := q
    have hskip : (∀ k, l = .str k → k ∉ P.ignoreKeys → PyVal.find kws (.str k) = none) →
        P.walkItems ((l,v) :: kvs) kws place t = P.walkItems kvs kws place t →
        (p ∈ P.walkItems ((l,v) :: kvs) kws place t ↔ ∃ k x y, (.str k,x) ∈ (l,v) :: kvs ∧ k ∉ P.ignoreKeys ∧
          PyVal.find kws (.str k) = some y ∧ p = (k,P.walk x y (place++cp '/' :: k) (P.inner t k))) := by
      intro hl he
      rw [he,ih]
      refine exists_congr fun k => exists_congr fun x => exists_congr fun y => ?_
      constructor
      · rintro ⟨hm,h⟩
        exact ⟨List.mem_cons_of_mem _ hm,h⟩
      · rintro ⟨hm,hk,hf,h⟩
        rcases List.mem_cons.mp hm with he | hm
        · obtain ⟨rfl,rfl⟩ := Prod.mk.inj he
          rw [hl k rfl hk] at hf
          cases hf
        · exact ⟨hm,hk,hf,h⟩
    cases l with
    | str l =>
      by_cases hig : l ∈ P.ignoreKeys
      · refine hskip (fun k hk h => absurd (PyKey.str.inj hk ▸ hig) h) ?_
        rw [walkItems,if_pos hig]
      · cases hf : PyVal.find kws (.str l) with
        | none =>
          refine hskip (fun k hk _ => PyKey.str.inj hk ▸ hf) ?_
          simp only [walkItems,if_neg hig,hf]
        | some y =>
          simp only [walkItems,if_neg hig,hf,List.mem_cons,ih]
          constructor
          · rintro (rfl | ⟨k,x,y,hm,h⟩)
            · exact ⟨l,v,y,.inl rfl,hig,hf,rfl⟩
            · exact ⟨k,x,y,.inr hm,h⟩
          · rintro ⟨k,x,z,he | hm,hk,hz,rfl⟩
            · obtain ⟨hkl,rfl⟩ := Prod.mk.inj he
              obtain rfl := PyKey.str.inj hkl
              obtain rfl := Option.some.inj (hz.symm.trans hf)
              exact .inl rfl
            · exact .inr ⟨k,x,z,hm,hk,hz,rfl⟩
    | _ =>
      refine hskip (fun _ h => by cases h) ?_
      rw [walkItems]
      intro h
      simp

lemma walkItems_nil (h : (PyVal.dict kvs).Loaded) :
    ((P.walkItems kvs kws place t).insertionSort fun p q => p.1 ≤ q.1).flatMap Prod.snd = [] ↔
      ∀ k x y, k ∉ P.ignoreKeys → PyVal.find kvs (.str k) = some x → PyVal.find kws (.str k) = some y →
        P.walk x y (place++cp '/' :: k) (P.inner t k) = [] := by
  rw [List.flatMap_eq_nil_iff]
  simp only [List.mem_insertionSort,mem_walkItems,find_str h.strDict.nodup]
  constructor
  · intro hall k x y hk hx hy
    exact hall _ ⟨k,x,y,hx,hk,hy,rfl⟩
  · rintro hall p ⟨k,x,y,hx,hk,hy,rfl⟩
    exact hall k x y hk hx hy

lemma walkList_nil (i : ℕ) : P.walkList xs ys i place t = [] ↔
    ∀ j x y, xs[j]? = some x → ys[j]? = some y →
      P.walk x y (place++cp '[' :: (natText (i+j)++[cp ']'])) t = [] := by
  induction xs generalizing ys i with
  | nil => simp [walkList]
  | cons x xs ih =>
    cases ys with
    | nil => simp [walkList]
    | cons y ys =>
      rw [walkList,List.append_eq_nil_iff,ih]
      constructor
      · rintro ⟨hx,hxs⟩ j u v hu hv
        cases j with
        | zero =>
          obtain rfl := Option.some.inj hu
          obtain rfl := Option.some.inj hv
          exact hx
        | succ j =>
          have := hxs j u v hu hv
          rwa [Nat.add_assoc,Nat.add_comm 1 j] at this
      · intro h
        refine ⟨h 0 x y rfl rfl,fun j u v hu hv => ?_⟩
        have := h (j+1) u v hu hv
        rwa [Nat.add_comm j 1,← Nat.add_assoc] at this

/-- A scalar has no place but its own. -/
lemma agreeFrom_leaf (h : ∀ s path, valueAt a (s :: path) = none ∨ valueAt b (s :: path) = none) :
    P.AgreeFrom t a b ↔ Agree P.ignoreKeys t a b := by
  constructor
  · intro hall
    exact hall [] a b nofun rfl rfl
  · intro hab path x y _ hx hy
    cases path with
    | nil =>
      obtain rfl := Option.some.inj hx
      obtain rfl := Option.some.inj hy
      exact hab
    | cons s path =>
      rcases h s path with h | h
      · rw [h] at hx
        cases hx
      · rw [h] at hy
        cases hy

lemma agreeFrom_dict : P.AgreeFrom t (.dict kvs) (.dict kws) ↔
    (∀ k, k ∉ P.ignoreKeys → BothHave kvs kws k) ∧
    ∀ k x y, k ∉ P.ignoreKeys → PyVal.find kvs (.str k) = some x → PyVal.find kws (.str k) = some y →
      P.AgreeFrom (P.inner t k) x y := by
  constructor
  · intro h
    constructor
    · cases h [] _ _ nofun rfl rfl with
      | number ha => cases ha
      | dict hk => exact hk
    · intro k x y hk hx hy path u v hs hu hv
      refine h (.key k :: path) u v (fun l hl => ?_) ?_ ?_
      · rcases List.mem_cons.mp hl with he | hl
        · exact JsonStep.key.inj he ▸ hk
        · exact hs l hl
      · rw [valueAt,hx]
        exact hu
      · rw [valueAt,hy]
        exact hv
  · rintro ⟨hk,hall⟩ path u v hs hu hv
    cases path with
    | nil =>
      obtain rfl := Option.some.inj hu
      obtain rfl := Option.some.inj hv
      exact .dict hk
    | cons s path =>
      cases s with
      | index i => cases hu
      | key k =>
        obtain ⟨x,hx,hu⟩ := Option.bind_eq_some_iff.mp hu
        obtain ⟨y,hy,hv⟩ := Option.bind_eq_some_iff.mp hv
        exact hall k x y (hs k List.mem_cons_self) hx hy path u v
          (fun l hl => hs l (List.mem_cons_of_mem _ hl)) hu hv

lemma agreeFrom_list : P.AgreeFrom t (.list xs) (.list ys) ↔ xs.length = ys.length ∧
    ∀ (i : ℕ) x y, xs[i]? = some x → ys[i]? = some y → P.AgreeFrom t x y := by
  constructor
  · intro h
    constructor
    · cases h [] _ _ nofun rfl rfl with
      | number ha => cases ha
      | list hlen => exact hlen
    · intro i x y hx hy path u v hs hu hv
      refine h (.index i :: path) u v (fun l hl => ?_) ?_ ?_
      · rcases List.mem_cons.mp hl with he | hl
        · cases he
        · exact hs l hl
      · rw [valueAt,hx]
        exact hu
      · rw [valueAt,hy]
        exact hv
  · rintro ⟨hlen,hall⟩ path u v hs hu hv
    cases path with
    | nil =>
      obtain rfl := Option.some.inj hu
      obtain rfl := Option.some.inj hv
      exact .list hlen
    | cons s path =>
      cases s with
      | key k => cases hu
      | index i =>
        obtain ⟨x,hx,hu⟩ := Option.bind_eq_some_iff.mp hu
        obtain ⟨y,hy,hv⟩ := Option.bind_eq_some_iff.mp hv
        exact hall i x y hx hy path u v (fun l hl => hs l (List.mem_cons_of_mem _ hl)) hu hv

lemma walk_leaf (hl : ∀ xs ys, ¬(a = .list xs ∧ b = .list ys)) (hd : ∀ kvs kws, ¬(a = .dict kvs ∧ b = .dict kws)) :
    P.walk a b place t = leaf a b place t := by
  cases a with
  | dict kvs =>
    cases b with
    | dict kws => exact absurd ⟨rfl,rfl⟩ (hd kvs kws)
    | _ => rfl
  | list xs =>
    cases b with
    | list ys => exact absurd ⟨rfl,rfl⟩ (hl xs ys)
    | _ => rfl
  | _ => rfl

/-- A walk without findings: the values agree at every place. -/
theorem walk_nil (ha : a.Loaded) (hb : b.Loaded) (place : PyStr) (t : Tolerance) :
    P.walk a b place t = [] ↔ P.AgreeFrom t a b := by
  induction a using PyVal.ind generalizing b place t with
  | dict kvs ih =>
    cases b with
    | dict kws =>
      rw [walk,List.append_eq_nil_iff,oneSided_nil,walkItems_nil ha,agreeFrom_dict]
      refine and_congr ?_ ?_
      · simp only [mem_keys ha,mem_keys hb,and_congr_right_iff]
        exact forall_congr' fun k => imp_congr_right fun _ => Bool.eq_iff_iff.symm
      · refine forall_congr' fun k => forall_congr' fun x => forall_congr' fun y =>
          forall_congr' fun hk => forall_congr' fun hx => forall_congr' fun hy => ?_
        have hx' := (find_str ha.strDict.nodup).mp hx
        have hy' := (find_str hb.strDict.nodup).mp hy
        exact ih _ hx' (ha.item hx') (hb.item hy') _ _
    | _ =>
      rw [agreeFrom_leaf fun s path => by cases s <;> simp [valueAt],walk_leaf (by simp) (by simp)]
      exact leaf_nil ha (by simp) (by simp) _
  | list xs ih =>
    cases b with
    | list ys =>
      rw [walk,agreeFrom_list]
      by_cases hlen : xs.length = ys.length
      · rw [if_neg (not_not_intro hlen),walkList_nil]
        simp only [hlen,true_and]
        refine forall_congr' fun i => forall_congr' fun x => forall_congr' fun y =>
          forall_congr' fun hx => forall_congr' fun hy => ?_
        have hx' := List.mem_of_getElem? hx
        exact ih x hx' (ha.elem hx') (hb.elem (List.mem_of_getElem? hy)) _ _
      · rw [if_pos hlen]
        exact iff_of_false (List.cons_ne_nil _ _) fun h => hlen h.1
    | _ =>
      rw [agreeFrom_leaf fun s path => by cases s <;> simp [valueAt],walk_leaf (by simp) (by simp)]
      exact leaf_nil ha (by simp) (by simp) _
  | bytes | tuple | object => exact ha.elim
  | _ =>
    rw [agreeFrom_leaf fun s path => by cases s <;> simp [valueAt],walk_leaf (by simp) (by simp)]
    exact leaf_nil ha (by simp) (by simp) _

section Places

variable {ignored more : List PyStr} {u : Tolerance} {x y : PyVal}

lemma bothHave_symm {k : PyStr} (h : BothHave kvs kws k) : BothHave kws kvs k := Eq.symm h

lemma agree_symm (h : Agree ignored t x y) : Agree ignored t y x := by
  cases h with
  | none => exact .none
  | bool b => exact .bool b
  | int i => exact .int i
  | str s => exact .str s
  | number ha hb hf hx hy hc => exact .number hb ha (by rwa [Bool.or_comm]) hy hx (Tolerance.isclose_symm hc)
  | list hlen => exact .list hlen.symm
  | dict hk => exact .dict fun k hki => bothHave_symm (hk k hki)

/-- A larger tolerance and more ignored keys keep what agrees. -/
lemma agree_mono (hi : ignored ⊆ more) (htu : t.Le u) (h : Agree ignored t x y) : Agree more u x y := by
  cases h with
  | none => exact .none
  | bool b => exact .bool b
  | int i => exact .int i
  | str s => exact .str s
  | number ha hb hf hx hy hc => exact .number ha hb hf hx hy (Tolerance.isclose_mono htu hc)
  | list hlen => exact .list hlen
  | dict hk => exact .dict fun k hki => hk k fun hm => hki (hi hm)

end Places

/-- Q has larger tolerances for the same keys, and ignores more of them. -/
structure Looser (P Q : JsonTolerancePolicy) : Prop where
  default : P.default.Le Q.default
  ignored : P.ignoreKeys ⊆ Q.ignoreKeys
  named : ∀ k, (P.keyTolerances.get k = none ∧ Q.keyTolerances.get k = none) ∨
    ∃ t u, P.keyTolerances.get k = some t ∧ Q.keyTolerances.get k = some u ∧ t.Le u

/-- No tolerance at all, and no ignored key. -/
structure Exact (P : JsonTolerancePolicy) : Prop where
  default : P.default.Zero
  ignored : P.ignoreKeys = []
  named : ∀ k t, P.keyTolerances.get k = some t → t.Zero

lemma agreeFrom_symm (h : P.AgreeFrom t a b) : P.AgreeFrom t b a :=
  fun path x y hs hx hy => agree_symm (h path y x hs hy hx)

lemma Looser.tolFrom (h : P.Looser Q) {u : Tolerance} (htu : t.Le u) (path : List JsonStep) :
    (P.tolFrom t path).Le (Q.tolFrom u path) := by
  induction path generalizing t u with
  | nil => exact htu
  | cons s path ih =>
    cases s with
    | key k =>
      refine ih ?_
      unfold inner
      rcases h.named k with ⟨hp,hq⟩ | ⟨t',u',hp,hq,hle⟩
      · rw [hp,hq]
        exact htu
      · rw [hp,hq]
        exact hle
    | index i => exact ih htu

lemma Looser.agreeFrom (h : P.Looser Q) (hab : P.AgreeFrom P.default a b) : Q.AgreeFrom Q.default a b :=
  fun path x y hs hx hy => agree_mono h.ignored (h.tolFrom h.default path)
    (hab path x y (fun k hk hm => hs k hk (h.ignored hm)) hx hy)

lemma Exact.tolFrom (h : P.Exact) (ht : t.Zero) (path : List JsonStep) : (P.tolFrom t path).Zero := by
  induction path generalizing t with
  | nil => exact ht
  | cons s path ih =>
    cases s with
    | key k =>
      refine ih ?_
      unfold inner
      cases hk : P.keyTolerances.get k with
      | none => exact ht
      | some u => exact h.named k u hk
    | index i => exact ih ht

lemma forall₂_of_getElem? {α : Type} {r : α → α → Prop} {us vs : List α} (hlen : us.length = vs.length)
    (h : ∀ (i : ℕ) x y, us[i]? = some x → vs[i]? = some y → r x y) : List.Forall₂ r us vs := by
  induction us generalizing vs with
  | nil =>
    obtain rfl := List.length_eq_zero_iff.mp hlen.symm
    exact .nil
  | cons u us ih =>
    cases vs with
    | nil => cases hlen
    | cons v vs => exact .cons (h 0 u v rfl rfl) (ih (Nat.succ.inj hlen) fun i => h (i+1))

lemma getElem?_of_forall₂ {α : Type} {r : α → α → Prop} {us vs : List α} {i : ℕ} {x y : α}
    (h : List.Forall₂ r us vs) (hx : us[i]? = some x) (hy : vs[i]? = some y) : r x y := by
  induction h generalizing i with
  | nil => cases hx
  | cons huv _ ih =>
    cases i with
    | zero =>
      obtain rfl := Option.some.inj hx
      obtain rfl := Option.some.inj hy
      exact huv
    | succ i => exact ih hx hy

lemma valueAt_number {s : JsonStep} (h : isNumber a = true) : valueAt a (s :: path) = none := by
  cases a with
  | int i => cases s <;> rfl
  | float f => cases s <;> rfl
  | _ => cases h

lemma sameJson_of_agree {x y : PyVal} {ignored : List PyStr} (ht : t.Zero) (h : Agree ignored t x y)
    (hl : ∀ xs, x ≠ .list xs) (hd : ∀ kvs, x ≠ .dict kvs) : SameJson x y := by
  cases h with
  | none => exact .none
  | bool b => exact .bool b
  | int i => exact .number rfl rfl rfl rfl
  | str s => exact .str s
  | number ha hb _ hx hy hc =>
    rw [Tolerance.isclose_zero ht] at hc
    exact .number ha hb hx (hc ▸ hy)
  | list hlen => exact absurd rfl (hl _)
  | dict hk => exact absurd rfl (hd _)

lemma agree_of_sameJson {x y : PyVal} (h : SameJson x y) (t : Tolerance) : Agree [] t x y := by
  cases h with
  | none => exact .none
  | bool b => exact .bool b
  | str s => exact .str s
  | number ha hb hx hy =>
    by_cases hf : (isFloat x || isFloat y) = true
    · exact .number ha hb hf hx hy (t.isclose_self _)
    · rw [Bool.or_eq_true,not_or] at hf
      cases x with
      | int i =>
        cases y with
        | int j =>
          rw [ofInt_inj (Option.some.inj (hx.trans hy.symm))]
          exact .int j
        | float f => exact absurd rfl hf.2
        | _ => cases hb
      | float f => exact absurd rfl hf.1
      | _ => cases ha
  | list hxs => exact .list hxs.length_eq
  | dict hk _ => exact .dict fun k _ => hk k

/-- Without tolerance and ignored keys what agrees at every place is equal. -/
theorem Exact.agreeFrom_iff (h : P.Exact) (ht : t.Zero) : P.AgreeFrom t a b ↔ SameJson a b := by
  constructor
  · intro hab
    induction a using PyVal.ind generalizing b t with
    | dict kvs ih =>
      cases b with
      | dict kws =>
        obtain ⟨hk,hall⟩ := agreeFrom_dict.mp hab
        rw [h.ignored] at hk hall
        refine .dict (fun k => hk k List.not_mem_nil) fun k v w hv hw => ?_
        obtain ⟨p,hp,rfl⟩ := Option.map_eq_some_iff.mp hv
        exact ih p (List.mem_of_find?_eq_some hp) (h.tolFrom ht [.key k]) (hall k _ w List.not_mem_nil hv hw)
      | _ =>
        cases hab [] _ _ nofun rfl rfl with
        | number ha => cases ha
    | list xs ih =>
      cases b with
      | list ys =>
        obtain ⟨hlen,hall⟩ := agreeFrom_list.mp hab
        exact .list (forall₂_of_getElem? hlen fun i x y hx hy =>
          ih x (List.mem_of_getElem? hx) ht (hall i x y hx hy))
      | _ =>
        cases hab [] _ _ nofun rfl rfl with
        | number ha => cases ha
    | _ => exact sameJson_of_agree ht (hab [] _ _ nofun rfl rfl) nofun nofun
  · intro hab path x y hs hx hy
    rw [h.ignored]
    induction path generalizing a b t with
    | nil =>
      obtain rfl := Option.some.inj hx
      obtain rfl := Option.some.inj hy
      exact agree_of_sameJson hab _
    | cons s path ih =>
      cases s with
      | key k =>
        cases hab with
        | dict hk hall =>
          obtain ⟨v,hv,hx⟩ := Option.bind_eq_some_iff.mp hx
          obtain ⟨w,hw,hy⟩ := Option.bind_eq_some_iff.mp hy
          exact ih (h.tolFrom ht [.key k]) (hall k v w hv hw) (fun l hl => hs l (List.mem_cons_of_mem _ hl)) hx hy
        | number ha =>
          rw [valueAt_number ha] at hx
          cases hx
        | _ => cases hx
      | index i =>
        cases hab with
        | list hall =>
          obtain ⟨v,hv,hx⟩ := Option.bind_eq_some_iff.mp hx
          obtain ⟨w,hw,hy⟩ := Option.bind_eq_some_iff.mp hy
          exact ih ht (getElem?_of_forall₂ hall hv hw) (fun l hl => hs l (List.mem_cons_of_mem _ hl)) hx hy
        | number ha =>
          rw [valueAt_number ha] at hx
          cases hx
        | _ => cases hx

section Files

variable {H : Hasher} {archive : Archive} {recorded replayed : Dict PyStr PyStr} {p d e : PyStr} {data : Bytes}
  {v : PyVal}

lemma lineValues_loaded {text : PyStr} {vs : List PyVal} (h : lineValues text = some vs) : ∀ v ∈ vs, v.Loaded := by
  unfold lineValues at h
  generalize (splitLines text).filter _ = ls at h
  induction ls generalizing vs with
  | nil =>
    obtain rfl := Option.some.inj h
    exact List.forall_mem_nil _
  | cons l ls ih =>
    rw [List.mapM_cons] at h
    obtain ⟨v,hv,h⟩ := Option.bind_eq_some_iff.mp h
    obtain ⟨ws,hws,h⟩ := Option.bind_eq_some_iff.mp h
    obtain rfl := Option.some.inj h
    exact List.forall_mem_cons.mpr ⟨loads_loaded hv,ih hws⟩

lemma parsed_loaded (h : parsed p data = some v) : v.Loaded := by
  unfold parsed at h
  split_ifs at h
  · obtain ⟨vs,hvs,rfl⟩ := Option.map_eq_some_iff.mp h
    obtain ⟨text,-,ht⟩ := Option.bind_eq_some_iff.mp hvs
    exact PyVal.loadedList_iff.mpr (lineValues_loaded ht)
  · exact loadsBytes_loaded h

lemma compareJson_nil {x y : Bytes} : P.compareJson p x y = [] ↔
    ∃ left right, parsed p x = some left ∧ parsed p y = some right ∧ P.AgreeFrom P.default left right := by
  unfold compareJson
  cases hx : parsed p x with
  | none => simp
  | some left =>
    cases hy : parsed p y with
    | none => simp
    | some right =>
      dsimp only
      rw [walk_nil (parsed_loaded hx) (parsed_loaded hy)]
      constructor
      · intro h
        exact ⟨left,right,rfl,rfl,h⟩
      · rintro ⟨_,_,hl,hr,h⟩
        rwa [Option.some.inj hl,Option.some.inj hr]

/-- A file whose digest differs is compared as JSON by its name. -/
def isJsonPath (path : PyStr) : Bool := endsWith path (lit ".json") || endsWith path (lit ".jsonl")

/-- The contents of a path are read from the archive and satisfy R as JSON. -/
def JsonFiles (H : Hasher) (archive : Archive) (R : PyVal → PyVal → Prop) (p d e : PyStr) : Prop :=
  isJsonPath p = true ∧ ∃ a b left right, archive.read H d = .ok a ∧ archive.read H e = .ok b ∧
    parsed p a = some left ∧ parsed p b = some right ∧ R left right

lemma comparePath_nil : comparePath H P archive p d e = .ok [] ↔
    d = e ∨ JsonFiles H archive (P.AgreeFrom P.default) p d e := by
  unfold comparePath
  by_cases hde : d = e
  · rw [if_pos hde]
    exact iff_of_true rfl (.inl hde)
  rw [if_neg hde]
  by_cases hj : isJsonPath p = true
  · rw [if_pos (show (endsWith p (lit ".json") || endsWith p (lit ".jsonl")) = true from hj)]
    constructor
    · intro h
      obtain ⟨a,ha,h⟩ := except_bind_ok.mp h
      obtain ⟨b,hb,h⟩ := except_bind_ok.mp h
      obtain ⟨left,right,hl,hr,hab⟩ := compareJson_nil.mp (Except.ok.inj h)
      exact .inr ⟨hj,a,b,left,right,ha,hb,hl,hr,hab⟩
    · rintro (h | ⟨-,a,b,left,right,ha,hb,hl,hr,hab⟩)
      · exact absurd h hde
      · refine except_bind_ok.mpr ⟨a,ha,except_bind_ok.mpr ⟨b,hb,?_⟩⟩
        exact congrArg Except.ok (compareJson_nil.mpr ⟨left,right,hl,hr,hab⟩)
  · rw [if_neg (show ¬(endsWith p (lit ".json") || endsWith p (lit ".jsonl")) = true from hj)]
    exact iff_of_false nofun fun h => h.elim hde fun h => hj h.1

lemma mapM_flatten_nil {α β : Type} {f : α → Except Exc (List β)} {l : List α} :
    (∃ r, l.mapM f = .ok r ∧ r.flatten = []) ↔ ∀ x ∈ l, f x = .ok [] := by
  constructor
  · rintro ⟨r,hr,hnil⟩ x hx
    obtain ⟨y,hy,hf⟩ := forall₂_mem (mapM_ok.mp hr) hx
    rwa [List.flatten_eq_nil_iff.mp hnil y hy] at hf
  · intro h
    refine ⟨l.map fun _ => [],mapM_ok.mpr ?_,by simp⟩
    rw [List.forall₂_map_right_iff,List.forall₂_same]
    exact h

/-- The same paths on both sides, and R between the digests of each. -/
def PathWise (R : PyStr → PyStr → PyStr → Prop) (recorded replayed : Dict PyStr PyStr) : Prop :=
  (∀ p, p ∈ recorded.keys ↔ p ∈ replayed.keys) ∧
    ∀ p d e, recorded.get p = some d → replayed.get p = some e → R p d e

/-- Acceptance, path by path. -/
theorem accepts_iff : P.Accepts H archive recorded replayed ↔
    PathWise (fun p d e => d = e ∨ JsonFiles H archive (P.AgreeFrom P.default) p d e) recorded replayed := by
  have hpath : (∀ p, p ∈ recorded.keys → p ∈ replayed.keys →
      compareAt H P recorded replayed archive p = .ok []) ↔ ∀ p d e, recorded.get p = some d → replayed.get p = some e →
        d = e ∨ JsonFiles H archive (P.AgreeFrom P.default) p d e := by
    refine forall_congr' fun p => ?_
    constructor
    · intro h d e hd he
      have hdk : p ∈ recorded.keys := by
        by_contra hn
        rw [Dict.get_eq_none.mpr hn] at hd
        cases hd
      have hek : p ∈ replayed.keys := by
        by_contra hn
        rw [Dict.get_eq_none.mpr hn] at he
        cases he
      have := h hdk hek
      rw [compareAt,hd,he] at this
      exact comparePath_nil.mp this
    · intro h hdk hek
      cases hd : recorded.get p with
      | none => exact absurd hdk (Dict.get_eq_none.mp hd)
      | some d =>
        cases he : replayed.get p with
        | none => exact absurd hek (Dict.get_eq_none.mp he)
        | some e =>
          rw [compareAt,hd,he]
          exact comparePath_nil.mpr (h d e hd he)
  have hsub : ∀ ka kb : List PyStr, (ka.filter (· ∉ kb)).insertionSort (· ≤ ·) = [] ↔ ∀ p ∈ ka, p ∈ kb := by
    intro ka kb
    rw [insertionSort_nil,List.filter_eq_nil_iff]
    simp only [decide_eq_true_eq,not_not]
  unfold Accepts compare PathWise
  rw [← hpath]
  constructor
  · rintro ⟨verdict,h,hacc⟩
    obtain ⟨r,hr,h⟩ := except_bind_ok.mp h
    obtain rfl := Except.ok.inj h
    rw [List.isEmpty_iff,List.append_eq_nil_iff,List.append_eq_nil_iff,List.map_eq_nil_iff,
      List.map_eq_nil_iff,hsub,hsub] at hacc
    refine ⟨fun p => ⟨hacc.1.1 p,hacc.1.2 p⟩,fun p hp hq => ?_⟩
    refine mapM_flatten_nil.mp ⟨r,hr,hacc.2⟩ p ((List.mem_insertionSort _).mpr (List.mem_filter.mpr ⟨hp,?_⟩))
    exact decide_eq_true hq
  · rintro ⟨hkeys,hall⟩
    have hcommon : ∀ p ∈ (recorded.keys.filter (· ∈ replayed.keys)).insertionSort (· ≤ ·),
        compareAt H P recorded replayed archive p = .ok [] := by
      intro p hp
      obtain ⟨hp,hq⟩ := List.mem_filter.mp ((List.mem_insertionSort _).mp hp)
      exact hall p hp (of_decide_eq_true hq)
    obtain ⟨r,hr,hnil⟩ := mapM_flatten_nil.mpr hcommon
    refine ⟨_,except_bind_ok.mpr ⟨r,hr,rfl⟩,?_⟩
    rw [List.isEmpty_iff,List.append_eq_nil_iff,List.append_eq_nil_iff,List.map_eq_nil_iff,
      List.map_eq_nil_iff,hsub,hsub]
    exact ⟨⟨fun p hp => (hkeys p).mp hp,fun p hp => (hkeys p).mpr hp⟩,hnil⟩

/-- Two digests of the same bytes. -/
def SameBytes (H : Hasher) (archive : Archive) (d e : PyStr) : Prop :=
  d = e ∨ ∃ data, archive.read H d = .ok data ∧ archive.read H e = .ok data

/-- Bytes that were read have one digest. -/
lemma SameBytes.eq (h : SameBytes H archive d e) : d = e := by
  have hdigest : ∀ {d data}, archive.read H d = .ok data → H.hexdigest data = d := by
    intro d data hr
    unfold Archive.read at hr
    split_ifs at hr
    split at hr
    · cases hr
    · split_ifs at hr with he
      cases hr
      exact he
  rcases h with h | ⟨data,hd,he⟩
  · exact h
  · rw [← hdigest hd,hdigest he]

lemma PathWise.imp {R S : PyStr → PyStr → PyStr → Prop} (h : PathWise R recorded replayed)
    (hrs : ∀ p d e, R p d e → S p d e) : PathWise S recorded replayed :=
  ⟨h.1,fun p d e hd he => hrs p d e (h.2 p d e hd he)⟩

lemma JsonFiles.imp {R S : PyVal → PyVal → Prop} (h : JsonFiles H archive R p d e)
    (hrs : ∀ a b, R a b → S a b) : JsonFiles H archive S p d e := by
  obtain ⟨hj,a,b,left,right,ha,hb,hl,hr,hab⟩ := h
  exact ⟨hj,a,b,left,right,ha,hb,hl,hr,hrs _ _ hab⟩

lemma accepts_symm (h : P.Accepts H archive recorded replayed) : P.Accepts H archive replayed recorded := by
  obtain ⟨hkeys,hall⟩ := accepts_iff.mp h
  refine accepts_iff.mpr ⟨fun p => (hkeys p).symm,fun p d e hd he => ?_⟩
  rcases hall p e d he hd with h | ⟨hj,a,b,left,right,ha,hb,hl,hr,hab⟩
  · exact .inl h.symm
  · exact .inr ⟨hj,b,a,right,left,hb,ha,hr,hl,agreeFrom_symm hab⟩

/-- The policy is a coherent comparison: symmetric, reflexive, monotone, equality when nothing is
tolerated, and judged at each place by the tolerance of its nearest named key. -/
theorem policy_coherent (H : Hasher) (archive : Archive) :
    (∀ (P : JsonTolerancePolicy) recorded replayed,
      P.Accepts H archive recorded replayed ↔ P.Accepts H archive replayed recorded) ∧
    (∀ (P : JsonTolerancePolicy) recorded, P.Accepts H archive recorded recorded) ∧
    (∀ (P Q : JsonTolerancePolicy) recorded replayed, P.Looser Q →
      P.Accepts H archive recorded replayed → Q.Accepts H archive recorded replayed) ∧
    (∀ (P : JsonTolerancePolicy) recorded replayed, P.Exact → (P.Accepts H archive recorded replayed ↔
      PathWise (fun p d e => SameBytes H archive d e ∨ JsonFiles H archive SameJson p d e) recorded replayed)) ∧
    ∀ (P : JsonTolerancePolicy) a b place, a.Loaded → b.Loaded → (P.walk a b place P.default = [] ↔
      ∀ path x y, P.Seen path → valueAt a path = some x → valueAt b path = some y →
        Agree P.ignoreKeys (P.tolAt path) x y) := by
  refine ⟨fun P m n => ⟨accepts_symm,accepts_symm⟩,fun P m => ?_,fun P Q m n hpq h => ?_,fun P m n hP => ?_,
    fun P a b place ha hb => ?_⟩
  · exact accepts_iff.mpr ⟨fun _ => Iff.rfl,fun p d e hd he => .inl (Option.some.inj (hd.symm.trans he))⟩
  · exact accepts_iff.mpr ((accepts_iff.mp h).imp fun p d e hde =>
      hde.imp_right fun hj => hj.imp fun a b hab => hpq.agreeFrom hab)
  · rw [accepts_iff]
    constructor
    · intro h
      exact h.imp fun p d e hde => hde.imp .inl fun hj => hj.imp fun a b => (hP.agreeFrom_iff hP.default).mp
    · intro h
      exact h.imp fun p d e hde => hde.imp SameBytes.eq fun hj =>
        hj.imp fun a b => (hP.agreeFrom_iff hP.default).mpr
  · rw [walk_nil ha hb]
    simp only [AgreeFrom,tolFrom_eq]
    rfl

end Files

end JsonTolerancePolicy

end Stele
