import Mathlib.Data.List.Basic
import Mathlib.Data.List.Nodup
import Mathlib.Data.List.Forall2

/-! Insertion-ordered dictionaries as lists of items, and when two of them hold related
values under the same keys in the same order. -/

/-- A dictionary, in the order in which its keys were first set. -/
abbrev Dict (K V : Type) := List (K × V)

namespace Dict

variable {K V W R : Type}

def keys (d : Dict K V) : List K := d.map Prod.fst

@[simp] lemma keys_nil : keys ([] : Dict K V) = [] := rfl

@[simp] lemma keys_append (d e : Dict K V) : keys (d++e) = keys d++keys e := List.map_append

/-- Each row under its key. -/
def keyed (key : R → K) (rows : List R) : Dict K R := rows.map fun r => (key r,r)

@[simp] lemma keys_keyed (key : R → K) (rows : List R) : (keyed key rows).keys = rows.map key := by
  rw [keys,keyed,List.map_map]
  rfl

/-- The same keys in the same order, and related values. -/
def Sim (r : V → W → Prop) (d : Dict K V) (e : Dict K W) : Prop :=
  List.Forall₂ (fun p q => p.1 = q.1 ∧ r p.2 q.2) d e

namespace Sim

variable {r : V → W → Prop} {d : Dict K V} {e : Dict K W}

lemma keys_eq (h : Sim r d e) : d.keys = e.keys := by
  induction h with
  | nil => rfl
  | cons hp _ ih => exact congrArg₂ _ hp.1 ih

lemma concat (h : Sim r d e) (k : K) {v : V} {w : W} (hr : r v w) :
    Sim r (d++[(k,v)]) (e++[(k,w)]) :=
  List.rel_append h (.cons ⟨rfl,hr⟩ .nil)

end Sim

variable [DecidableEq K]

def get (d : Dict K V) (k : K) : Option V := d.lookup k

/-- d[k] = v. -/
def set : Dict K V → K → V → Dict K V
  | [],k,v => [(k,v)]
  | (l,w) :: d,k,v => if l = k then (l,v) :: d else (l,w) :: set d k v

/-- d.setdefault(k, v), without the result. -/
def setDefault (d : Dict K V) (k : K) (v : V) : Dict K V :=
  if k ∈ d.keys then d else d++[(k,v)]

/-- d[k] = f(d[k]), if there is a d[k]. -/
def modify (d : Dict K V) (k : K) (f : V → V) : Dict K V :=
  d.map fun p => if p.1 = k then (p.1,f p.2) else p

/-- {key(r): r for r in rows}. -/
def ofRows (key : R → K) (rows : List R) : Dict K R := rows.foldl (fun d r => d.set (key r) r) []

@[simp] lemma keys_modify (d : Dict K V) (k : K) (f : V → V) : (d.modify k f).keys = d.keys := by
  rw [keys,modify,List.map_map]
  refine List.map_congr_left fun p _ => ?_
  simp only [Function.comp_apply]
  split_ifs <;> rfl

lemma keys_setDefault (d : Dict K V) (k : K) (v : V) :
    (d.setDefault k v).keys = if k ∈ d.keys then d.keys else d.keys++[k] := by
  unfold setDefault
  split_ifs <;> simp [keys]

lemma set_new {d : Dict K V} {k : K} (h : k ∉ d.keys) (v : V) : d.set k v = d++[(k,v)] := by
  induction d with
  | nil => rfl
  | cons p d ih =>
    rw [keys,List.map_cons,List.mem_cons,not_or] at h
    rw [set,if_neg (Ne.symm h.1),ih h.2,List.cons_append]

lemma keys_set (d : Dict K V) (k : K) (v : V) :
    (d.set k v).keys = if k ∈ d.keys then d.keys else d.keys++[k] := by
  induction d with
  | nil => rfl
  | cons p d ih =>
    rw [set]
    by_cases hp : p.1 = k
    · rw [if_pos hp,if_pos (by simp [keys,hp])]
      rfl
    · have hk : k ∈ keys (p :: d) ↔ k ∈ keys d := by simp [keys,Ne.symm hp]
      simp only [if_neg hp,hk]
      rw [keys,List.map_cons,← keys,ih]
      split_ifs <;> rfl

lemma nodup_set {d : Dict K V} (h : d.keys.Nodup) (k : K) (v : V) : (d.set k v).keys.Nodup := by
  rw [keys_set]
  split_ifs with hk
  · exact h
  · exact List.nodup_append.mpr ⟨h,by simp,fun a ha b hb => by
      rw [List.mem_singleton.mp hb]
      exact fun hab => hk (hab ▸ ha)⟩

lemma get_cons (k l : K) (v : V) (d : Dict K V) :
    get ((l,v) :: d) k = if k = l then some v else d.get k := by
  rw [get,List.lookup_cons]
  by_cases h : k = l
  · simp [h]
  · rw [beq_false_of_ne h,if_neg h]
    rfl

lemma get_eq_none {d : Dict K V} {k : K} : d.get k = none ↔ k ∉ d.keys := by
  induction d with
  | nil => simp [get]
  | cons p d ih =>
    rw [get_cons]
    by_cases h : k = p.1 <;> simp [h,keys] at ih ⊢
    exact ih

lemma get_of_mem {d : Dict K V} (hn : d.keys.Nodup) {k : K} {v : V} (h : (k,v) ∈ d) :
    d.get k = some v := by
  induction d with
  | nil => simp at h
  | cons p d ih =>
    rw [keys,List.map_cons,List.nodup_cons] at hn
    rw [get_cons]
    rcases List.mem_cons.mp h with rfl | h
    · simp
    · have hne : k ≠ p.1 := fun hk => hn.1 (List.mem_map.mpr ⟨_,h,hk⟩)
      rw [if_neg hne]
      exact ih hn.2 h

lemma mem_of_get {d : Dict K V} {k : K} {v : V} (h : d.get k = some v) : (k,v) ∈ d := by
  induction d with
  | nil => simp [get] at h
  | cons p d ih =>
    rw [get_cons] at h
    split_ifs at h with hk
    · obtain rfl := Option.some.inj h
      exact List.mem_cons.mpr (Or.inl (by rw [hk]))
    · exact List.mem_cons_of_mem _ (ih h)

lemma get_set (d : Dict K V) (k l : K) (v : V) : (d.set k v).get l = if l = k then some v else d.get l := by
  induction d with
  | nil => rw [set,get_cons]
  | cons p d ih =>
    rw [set]
    by_cases hp : p.1 = k
    · rw [if_pos hp,get_cons,get_cons,hp]
      split_ifs <;> rfl
    · rw [if_neg hp,get_cons,get_cons,ih]
      by_cases hl : l = p.1
      · rw [if_pos hl,if_pos hl,if_neg (fun h => hp (hl.symm.trans h))]
      · rw [if_neg hl,if_neg hl]

lemma mem_set {d : Dict K V} {k : K} {v : V} {p : K × V} (h : p ∈ d.set k v) :
    p ∈ d ∨ p = (k,v) := by
  induction d with
  | nil => exact Or.inr (List.mem_singleton.mp h)
  | cons q d ih =>
    rw [set] at h
    split_ifs at h with hk
    · rcases List.mem_cons.mp h with rfl | h
      · exact Or.inr (by rw [hk])
      · exact Or.inl (List.mem_cons_of_mem _ h)
    · rcases List.mem_cons.mp h with rfl | h
      · exact Or.inl List.mem_cons_self
      · exact (ih h).imp_left (List.mem_cons_of_mem _)

lemma get_setDefault (d : Dict K V) (k : K) (v : V) :
    (d.setDefault k v).get k = some ((d.get k).getD v) := by
  unfold setDefault
  split_ifs with hk
  · obtain ⟨w,hw⟩ := Option.ne_none_iff_exists'.mp fun hn => get_eq_none.mp hn hk
    rw [hw,Option.getD_some]
  · rw [get_eq_none.mpr hk,get,List.lookup_append]
    simp [show d.lookup k = none from get_eq_none.mpr hk]

lemma get_setDefault_some {d : Dict K V} {l : K} {w : V} (h : d.get l = some w) (k : K) (v : V) :
    (d.setDefault k v).get l = some w := by
  unfold setDefault
  split_ifs
  · exact h
  · rw [get,List.lookup_append,show d.lookup l = some w from h,Option.some_or]

/-- Rows with different keys: the dictionary lists them as they are. -/
lemma ofRows_eq {key : R → K} {rows : List R} (h : (rows.map key).Nodup) :
    ofRows key rows = keyed key rows := by
  have hd : ∀ d : Dict K R, (d.keys++rows.map key).Nodup →
      rows.foldl (fun d r => d.set (key r) r) d = d++keyed key rows := by
    clear h
    induction rows with
    | nil => simp [keyed]
    | cons r rows ih =>
      intro d hn
      have hk : key r ∉ d.keys := fun hm => (List.nodup_append.mp hn).2.2 _ hm _ (by simp) rfl
      rw [List.foldl_cons,set_new hk,ih]
      · simp [keyed]
      · simpa [keys] using hn
  exact hd [] (by simpa using h)

namespace Sim

variable {r : V → W → Prop} {d : Dict K V} {e : Dict K W}

lemma get (h : Sim r d e) {k : K} {v : V} {w : W} (hv : d.get k = some v) (hw : e.get k = some w) :
    r v w := by
  induction h with
  | nil => simp [Dict.get] at hv
  | @cons p q d e hp _ ih =>
    rw [get_cons] at hv hw
    rw [← hp.1] at hw
    split_ifs at hv hw with hk
    · obtain rfl := Option.some.inj hv
      obtain rfl := Option.some.inj hw
      exact hp.2
    · exact ih hv hw

lemma lookup (h : Sim r d e) {k : K} (hk : k ∈ d.keys) :
    ∃ v w, d.get k = some v ∧ e.get k = some w ∧ r v w := by
  obtain ⟨v,hv⟩ := Option.ne_none_iff_exists'.mp fun hn => get_eq_none.mp hn hk
  obtain ⟨w,hw⟩ := Option.ne_none_iff_exists'.mp fun hn => get_eq_none.mp hn (h.keys_eq ▸ hk)
  exact ⟨v,w,hv,hw,h.get hv hw⟩

lemma setDefault (h : Sim r d e) (k : K) {v : V} {w : W} (hr : r v w) :
    Sim r (d.setDefault k v) (e.setDefault k w) := by
  unfold Dict.setDefault
  rw [h.keys_eq]
  split_ifs
  · exact h
  · exact h.concat k hr

lemma modify (h : Sim r d e) (k : K) {f : V → V} {g : W → W}
    (hfg : ∀ v w, r v w → r (f v) (g w)) : Sim r (d.modify k f) (e.modify k g) := by
  induction h with
  | nil => exact .nil
  | @cons p q d e hp _ ih =>
    refine .cons ?_ ih
    by_cases hk : p.1 = k
    · simp only [hk,hp.1 ▸ hk,if_true,true_and]
      exact hfg _ _ hp.2
    · simp only [hk,hp.1 ▸ hk,if_false]
      exact hp

end Sim

end Dict
