import Mathlib.Data.List.Basic
import Mathlib.Tactic.Cases

/-! Records of varying length in a stream that is read page by page, where a page may cut a record
anywhere: the whole records of a page are the longest run that fits in it, and a reader that goes on
after the last of them has every record once. -/
namespace Records

/-- How records are written one after the other, and how the first one is read. -/
structure Format (α β : Type) where
  enc : α → List β
  dec : List β → Option (α × List β)
  Fine : α → Prop
  enc_ne : ∀ a, enc a ≠ []
  dec_enc : ∀ {a}, Fine a → ∀ r, dec (enc a++r) = some (a,r)
  dec_more : ∀ {s a r}, dec s = some (a,r) → ∀ t, dec (s++t) = some (a,r++t)
  dec_nil : dec [] = none

namespace Format

variable {α β : Type} (F : Format α β)

/-- The stream of all records. -/
def encAll (as : List α) : List β := as.flatMap F.enc

/-- The whole records at the start of a page, by a loop of at most so many turns. -/
def readAll : ℕ → List β → List α
  | 0,_ => []
  | k+1,s => match F.dec s with
    | none => []
    | some (a,r) => a :: readAll k r

/-- The records that fit in n. -/
def fitting : List α → ℕ → List α
  | [],_ => []
  | a :: as,n => if (F.enc a).length ≤ n then a :: fitting as (n-(F.enc a).length) else []

variable {F} {a : α} {as : List α} {n : ℕ}

@[simp] lemma encAll_nil : F.encAll [] = [] := rfl

@[simp] lemma encAll_cons : F.encAll (a :: as) = F.enc a++F.encAll as := List.flatMap_cons

lemma enc_pos (a : α) : 0 < (F.enc a).length := List.length_pos_iff.mpr (F.enc_ne a)

/-- A record that is cut is not read. -/
lemma dec_cut (ha : F.Fine a) (hn : n < (F.enc a).length) : F.dec ((F.enc a).take n) = none := by
  cases h : F.dec ((F.enc a).take n) with
  | none => rfl
  | some p =>
    obtain ⟨b,r⟩ := p
    have hmore := F.dec_more h ((F.enc a).drop n)
    have hself := F.dec_enc ha []
    rw [List.take_append_drop] at hmore
    rw [List.append_nil,hmore] at hself
    have hdrop := (List.append_eq_nil_iff.mp (Prod.mk.inj (Option.some.inj hself)).2).2
    rw [List.drop_eq_nil_iff] at hdrop
    omega

lemma fitting_begins (as : List α) (n : ℕ) : F.fitting as n <+: as := by
  induction as generalizing n with
  | nil => exact List.nil_prefix
  | cons a as ih =>
    rw [fitting]
    split_ifs
    · exact List.cons_prefix_cons.mpr ⟨rfl,ih _⟩
    · exact List.nil_prefix

lemma fitting_drop (as : List α) (n : ℕ) : F.fitting as n++as.drop (F.fitting as n).length = as :=
  List.prefix_iff_eq_append.mp (fitting_begins as n)

lemma fitting_all (h : (F.encAll as).length ≤ n) : F.fitting as n = as := by
  induction as generalizing n with
  | nil => rfl
  | cons a as ih =>
    rw [encAll_cons,List.length_append] at h
    rw [fitting,if_pos (by omega),ih (by omega)]

lemma fitting_ne (h : (F.enc a).length ≤ n) : F.fitting (a :: as) n ≠ [] := by
  rw [fitting,if_pos h]
  exact List.cons_ne_nil _ _

lemma fitting_le (as : List α) (n : ℕ) : (F.encAll (F.fitting as n)).length ≤ n := by
  induction as generalizing n with
  | nil => exact Nat.zero_le _
  | cons a as ih =>
    rw [fitting]
    split_ifs
    · rw [encAll_cons,List.length_append]
      have := ih (n-(F.enc a).length)
      omega
    · exact Nat.zero_le _

/-- No more records are whole than it takes to fill the page. -/
lemma fitting_length_le {j : ℕ} (h : n ≤ (F.encAll (as.take j)).length ∨ as.length ≤ j) :
    (F.fitting as n).length ≤ j := by
  induction as generalizing n j with
  | nil => exact Nat.zero_le _
  | cons a as ih =>
    have hpos := enc_pos (F := F) a
    rw [fitting]
    split_ifs with hn
    · cases j with
      | zero =>
        rw [List.take_zero,encAll_nil] at h
        simp only [List.length_nil,List.length_cons] at h
        omega
      | succ j =>
        rw [List.take_succ_cons,encAll_cons,List.length_append,List.length_cons] at h
        have := ih (n := n-(F.enc a).length) (j := j) (by omega)
        rw [List.length_cons]
        omega
    · exact Nat.zero_le _

lemma enc_le (h : a ∈ as) : (F.enc a).length ≤ (F.encAll as).length := by
  induction h with
  | head => simp
  | tail b _ ih =>
    rw [encAll_cons,List.length_append]
    omega

/-- The whole records of a page are those that fit in it. -/
theorem readAll_take (hall : ∀ a ∈ as, F.Fine a) {k : ℕ} (hk : ((F.encAll as).take n).length ≤ k) :
    F.readAll k ((F.encAll as).take n) = F.fitting as n := by
  induction as generalizing n k with
  | nil =>
    rw [encAll_nil,List.take_nil]
    cases k with
    | zero => rfl
    | succ k => simp only [readAll,F.dec_nil,fitting]
  | cons a as ih =>
    obtain ⟨ha,has⟩ := List.forall_mem_cons.mp hall
    have hpos := enc_pos (F := F) a
    rw [encAll_cons,List.take_append] at hk ⊢
    rw [fitting]
    by_cases hn : (F.enc a).length ≤ n
    · rw [List.take_of_length_le hn,List.length_append] at hk
      rw [List.take_of_length_le hn,if_pos hn]
      obtain ⟨k,rfl⟩ := Nat.exists_eq_add_of_le' (show 1 ≤ k by omega)
      simp only [readAll,F.dec_enc ha]
      rw [ih has (by omega)]
    · have hzero : n-(F.enc a).length = 0 := by omega
      rw [if_neg hn,hzero,List.take_zero,List.append_nil]
      cases k with
      | zero => rfl
      | succ k => simp only [readAll,dec_cut ha (Nat.lt_of_not_le hn)]

/-- A page that is not full holds all that is left. -/
lemma fitting_short (h : ((F.encAll as).take n).length < n) : F.fitting as n = as := by
  refine fitting_all ?_
  rw [List.length_take] at h
  omega

variable (F)

/-- What a reader has after pages of these sizes, and whether it has met the end: a page that is not
full. Each page begins after the last whole record of the one before. -/
def paged : List α → List ℕ → List α × Bool
  | _,[] => ([],false)
  | as,n :: ns =>
    if ((F.encAll as).take n).length < n then (F.fitting as n,true)
    else (F.fitting as n++(paged (as.drop (F.fitting as n).length) ns).1,
      (paged (as.drop (F.fitting as n).length) ns).2)

/-- Each page has room for the next record, or for something where there is none. -/
def Roomy : List α → List ℕ → Prop
  | _,[] => True
  | as,n :: ns => 0 < n ∧ (∀ a ∈ as.head?, (F.enc a).length ≤ n) ∧ Roomy (as.drop (F.fitting as n).length) ns

variable {F}

/-- Nothing is had twice or out of order. -/
theorem paged_begins (as : List α) (ns : List ℕ) : (F.paged as ns).1 <+: as := by
  induction ns generalizing as with
  | nil => exact List.nil_prefix
  | cons n ns ih =>
    rw [paged]
    split_ifs
    · exact fitting_begins as n
    · obtain ⟨more,hmore⟩ := ih (as.drop (F.fitting as n).length)
      refine ⟨more,?_⟩
      rw [List.append_assoc,hmore,fitting_drop]

/-- At the end nothing is missing. -/
theorem paged_ended {ns : List ℕ} (h : (F.paged as ns).2 = true) : (F.paged as ns).1 = as := by
  induction ns generalizing as with
  | nil => cases h
  | cons n ns ih =>
    rw [paged] at h ⊢
    split_ifs at h ⊢ with hshort
    · exact fitting_short hshort
    · rw [ih h,fitting_drop]

/-- One page more than there are records meets the end. -/
theorem paged_enough {ns : List ℕ} (h : F.Roomy as ns) (hlen : as.length < ns.length) : (F.paged as ns).2 = true := by
  induction ns generalizing as with
  | nil => cases hlen
  | cons n ns ih =>
    obtain ⟨hpos,hhead,hrest⟩ := h
    rw [paged]
    split_ifs with hshort
    · rfl
    · refine ih hrest ?_
      cases as with
      | nil =>
        rw [encAll_nil,List.take_nil] at hshort
        exact absurd hpos hshort
      | cons a as =>
        have hne : F.fitting (a :: as) n ≠ [] := fitting_ne (hhead a rfl)
        have hfit := List.length_pos_iff.mpr hne
        rw [List.length_drop]
        simp only [List.length_cons] at hlen ⊢
        omega

end Format

end Records
