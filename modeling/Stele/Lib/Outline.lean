import Mathlib.Data.List.Induction

/-! Outlines: items in a row, some of which open a section of some level. A stack of the open
sections gives each item the section it is in. -/
namespace Outline

variable {κ : Type}

/-- The open sections without those of level l or deeper, the innermost first. -/
def close (l : ℕ) (s : List (ℕ × κ)) : List (ℕ × κ) := s.dropWhile fun h => decide (l ≤ h.1)

/-- The sections an item is in: one that opens a section closes those as deep as its own. -/
def around (s : List (ℕ × κ)) : Option ℕ → List (ℕ × κ)
  | some l => close l s
  | none => s

def step (s : List (ℕ × κ)) (x : Option ℕ × κ) : List (ℕ × κ) :=
  match x.1 with
  | some l => (l,x.2) :: close l s
  | none => s

/-- The sections open after the items. -/
def stack (xs : List (Option ℕ × κ)) : List (ℕ × κ) := xs.foldl step []

/-- The section that an item after xs is in. -/
def parent (xs : List (Option ℕ × κ)) (l : Option ℕ) : Option κ := (around (stack xs) l).head?.map Prod.snd

/-- A section of level l with the items c after it is around an item of level n: none of c closes it. -/
def Encloses (n l : ℕ) (c : List (Option ℕ × κ)) : Prop := l < n ∧ ∀ x ∈ c, ∀ m ∈ x.1, l < m

/-- The last section of xs. -/
def Last (xs : List (Option ℕ × κ)) (k : κ) : Prop :=
  ∃ a l c, xs = a++(some l,k) :: c ∧ ∀ x ∈ c, x.1 = none

/-- The nearest section of xs around an item of level n. -/
def Nearest (n : ℕ) (xs : List (Option ℕ × κ)) (k : κ) : Prop :=
  ∃ a l c, xs = a++(some l,k) :: c ∧ Encloses n l c ∧
    ∀ a' m j c', c = a'++(some m,j) :: c' → ¬Encloses n m c'

variable {xs c : List (Option ℕ × κ)} {x : Option ℕ × κ} {s : List (ℕ × κ)} {k : κ} {l m n : ℕ}

@[simp] lemma stack_concat (xs : List (Option ℕ × κ)) (x : Option ℕ × κ) :
    stack (xs++[x]) = step (stack xs) x := by
  rw [stack,List.foldl_append]
  rfl

lemma close_cons_of_le (h : n ≤ l) : close n ((l,k) :: s) = close n s :=
  List.dropWhile_cons_of_pos (decide_eq_true h)

lemma close_cons_of_lt (h : l < n) : close n ((l,k) :: s) = (l,k) :: s :=
  List.dropWhile_cons_of_neg (by simpa using h)

lemma close_close (h : n ≤ l) (s : List (ℕ × κ)) : close n (close l s) = close n s := by
  induction s with
  | nil => rfl
  | cons p s ih =>
    by_cases hp : l ≤ p.1
    · rw [close_cons_of_le hp,ih,close_cons_of_le (Nat.le_trans h hp)]
    · rw [close_cons_of_lt (Nat.lt_of_not_le hp)]

lemma lt_of_mem_close {p : ℕ × κ} (hs : s.Pairwise fun a b => b.1 < a.1) (hp : p ∈ close l s) : p.1 < l := by
  induction s with
  | nil => cases hp
  | cons q s ih =>
    obtain ⟨hq,hs⟩ := List.pairwise_cons.mp hs
    by_cases hl : l ≤ q.1
    · rw [close_cons_of_le hl] at hp
      exact ih hs hp
    · rw [close_cons_of_lt (Nat.lt_of_not_le hl)] at hp
      rcases List.mem_cons.mp hp with rfl | hp
      · exact Nat.lt_of_not_le hl
      · exact Nat.lt_trans (hq p hp) (Nat.lt_of_not_le hl)

/-- The levels of the open sections go down from the innermost one. -/
theorem stack_sorted (xs : List (Option ℕ × κ)) : (stack xs).Pairwise fun a b => b.1 < a.1 := by
  induction xs using List.reverseRecOn with
  | nil => exact .nil
  | append_singleton xs x ih =>
    rw [stack_concat]
    obtain ⟨_ | l,k⟩ := x
    · exact ih
    · exact .cons (fun p hp => lt_of_mem_close ih hp) (ih.sublist (List.dropWhile_sublist _))

lemma concat_eq {a : List (Option ℕ × κ)} (h : xs++[x] = a++(some l,k) :: c) :
    (a = xs ∧ x = (some l,k) ∧ c = []) ∨ ∃ c', c = c'++[x] ∧ xs = a++(some l,k) :: c' := by
  rcases List.eq_nil_or_concat c with rfl | ⟨c',y,rfl⟩
  · obtain ⟨rfl,hx⟩ := List.append_inj' h rfl
    exact .inl ⟨rfl,List.singleton_inj.mp hx,rfl⟩
  · rw [List.concat_eq_append,← List.cons_append,← List.append_assoc] at h
    obtain ⟨rfl,hx⟩ := List.append_inj' h rfl
    obtain rfl := List.singleton_inj.mp hx
    exact .inr ⟨c',List.concat_eq_append,rfl⟩

lemma Encloses.concat : Encloses n l (c++[x]) ↔ Encloses n l c ∧ ∀ m ∈ x.1, l < m := by
  rw [Encloses,Encloses,List.forall_mem_append,List.forall_mem_singleton,and_assoc]

/-- An item as deep as n neither is around an item of level n nor closes what is. -/
lemma Nearest.concat (hx : ∀ m ∈ x.1, n ≤ m) (h : Nearest n xs k) : Nearest n (xs++[x]) k := by
  obtain ⟨a,l,c,rfl,hl,hc⟩ := h
  refine ⟨a,l,c++[x],by simp,Encloses.concat.mpr ⟨hl,fun m hm => Nat.lt_of_lt_of_le hl.1 (hx m hm)⟩,?_⟩
  intro a' m j c' he hm
  rcases concat_eq he with ⟨rfl,rfl,rfl⟩ | ⟨c'',rfl,rfl⟩
  · exact absurd hm.1 (Nat.not_lt.mpr (hx m rfl))
  · exact hc a' m j c'' rfl (Encloses.concat.mp hm).1

/-- An item that opens no section is in the last one. -/
theorem parent_none (xs : List (Option ℕ × κ)) : match parent xs none with
    | some k => Last xs k
    | none => ∀ x ∈ xs, x.1 = none := by
  induction xs using List.reverseRecOn with
  | nil => exact List.forall_mem_nil _
  | append_singleton xs x ih =>
    obtain ⟨_ | l,j⟩ := x
    · have hp : parent (xs++[(none,j)]) none = parent xs none := by
        rw [parent,stack_concat]
        rfl
      rw [hp]
      cases hk : parent xs none with
      | none =>
        rw [hk] at ih
        exact List.forall_mem_append.mpr ⟨ih,List.forall_mem_singleton.mpr rfl⟩
      | some k =>
        rw [hk] at ih
        obtain ⟨a,l,c,rfl,hc⟩ := ih
        exact ⟨a,l,c++[(none,j)],by simp,List.forall_mem_append.mpr ⟨hc,List.forall_mem_singleton.mpr rfl⟩⟩
    · have hp : parent (xs++[(some l,j)]) none = some j := by
        rw [parent,stack_concat]
        rfl
      rw [hp]
      exact ⟨xs,l,[],rfl,List.forall_mem_nil _⟩

/-- An item that opens a section is in the nearest one that is around it. -/
theorem parent_some (n : ℕ) (xs : List (Option ℕ × κ)) : match parent xs (some n) with
    | some k => Nearest n xs k
    | none => ∀ a l k c, xs = a++(some l,k) :: c → ¬Encloses n l c := by
  induction xs using List.reverseRecOn with
  | nil =>
    intro a l k c he
    simp at he
  | append_singleton xs x ih =>
    by_cases hx : ∀ m ∈ x.1, n ≤ m
    · have hp : parent (xs++[x]) (some n) = parent xs (some n) := by
        obtain ⟨_ | m,j⟩ := x
        · rw [parent,stack_concat]
          rfl
        · have hm : n ≤ m := hx m rfl
          have : close n ((m,j) :: close m (stack xs)) = close n (stack xs) := by
            rw [close_cons_of_le hm,close_close hm]
          rw [parent,stack_concat,parent]
          exact congrArg (fun s => s.head?.map Prod.snd) this
      rw [hp]
      cases hk : parent xs (some n) with
      | some k =>
        rw [hk] at ih
        exact Nearest.concat hx ih
      | none =>
        rw [hk] at ih
        intro a l k c he hl
        rcases concat_eq he with ⟨rfl,rfl,rfl⟩ | ⟨c',rfl,hxs⟩
        · exact absurd hl.1 (Nat.not_lt.mpr (hx l rfl))
        · exact ih a l k c' hxs (Encloses.concat.mp hl).1
    · obtain ⟨_ | m,j⟩ := x
      · exact absurd (fun m hm => by cases hm) hx
      have hm : m < n := Nat.lt_of_not_le fun h => hx fun m' hm' => Option.some.inj hm' ▸ h
      have hp : parent (xs++[(some m,j)]) (some n) = some j := by
        rw [parent,stack_concat,around,step,close_cons_of_lt hm]
        rfl
      rw [hp]
      exact ⟨xs,m,[],rfl,⟨hm,List.forall_mem_nil _⟩,fun a' m' j' c' he => by simp at he⟩

end Outline
