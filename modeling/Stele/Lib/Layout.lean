import Mathlib.Algebra.BigOperators.Group.List.Basic
import Mathlib.Algebra.GroupWithZero.Nat
import Mathlib.Data.List.Basic

/-! Items laid end to end: where each of them begins, and that they fill the whole length. -/
namespace Layout

variable {α β : Type} {size : α → ℕ} {n i : ℕ} {xs ys : List α} {p : ℕ × α}

/-- The items with their places, the first at n. -/
def places (size : α → ℕ) : ℕ → List α → List (ℕ × α)
  | _,[] => []
  | n,x :: xs => (n,x) :: places size (n+size x) xs

def total (size : α → ℕ) (xs : List α) : ℕ := (xs.map size).sum

@[simp] lemma total_nil : total size [] = 0 := rfl

@[simp] lemma total_cons (x : α) : total size (x :: xs) = size x+total size xs := by
  simp [total]

@[simp] lemma total_append : total size (xs++ys) = total size xs+total size ys := by
  simp [total]

lemma total_flatMap (f : β → List α) (xs : List β) :
    total size (xs.flatMap f) = total (fun b => total size (f b)) xs := by
  induction xs with
  | nil => rfl
  | cons x xs ih => rw [List.flatMap_cons,total_append,ih,total_cons]

lemma places_append : places size n (xs++ys) = places size n xs++places size (n+total size xs) ys := by
  induction xs generalizing n with
  | nil => simp [places]
  | cons x xs ih => simp [places,ih,Nat.add_assoc]

/-- Where an item lies tells what comes before it. -/
theorem mem_places : p ∈ places size n xs ↔ ∃ pre post, xs = pre++p.2 :: post ∧ p.1 = n+total size pre := by
  constructor
  · intro h
    induction xs generalizing n with
    | nil => cases h
    | cons x xs ih =>
      rcases List.mem_cons.mp h with rfl | h
      · exact ⟨[],xs,rfl,rfl⟩
      · obtain ⟨pre,post,rfl,hp⟩ := ih h
        exact ⟨x :: pre,post,rfl,by rw [hp,total_cons,Nat.add_assoc]⟩
  · rintro ⟨pre,post,rfl,hp⟩
    rw [places_append,places]
    refine List.mem_append_right _ ?_
    rw [← hp]
    exact List.mem_cons_self

lemma mem_of_mem_places (h : p ∈ places size n xs) : p.2 ∈ xs := by
  obtain ⟨pre,post,rfl,-⟩ := mem_places.mp h
  exact List.mem_append_right _ List.mem_cons_self

lemma places_bounds (h : p ∈ places size n xs) : n ≤ p.1 ∧ p.1+size p.2 ≤ n+total size xs := by
  obtain ⟨pre,post,rfl,hp⟩ := mem_places.mp h
  rw [total_append,total_cons]
  omega

/-- No two items share a place. -/
theorem places_pairwise : (places size n xs).Pairwise fun a b => a.1+size a.2 ≤ b.1 := by
  induction xs generalizing n with
  | nil => exact .nil
  | cons x xs ih => exact .cons (fun p hp => (places_bounds hp).1) ih

/-- Every place is some item's. -/
theorem exists_place (hn : n ≤ i) (hi : i < n+total size xs) :
    ∃ p ∈ places size n xs, p.1 ≤ i ∧ i < p.1+size p.2 := by
  induction xs generalizing n with
  | nil =>
    rw [total_nil] at hi
    omega
  | cons x xs ih =>
    rw [total_cons] at hi
    by_cases h : i < n+size x
    · exact ⟨(n,x),List.mem_cons_self,hn,h⟩
    · obtain ⟨p,hp,hpi⟩ := ih (n := n+size x) (by omega) (by omega)
      exact ⟨p,List.mem_cons_of_mem _ hp,hpi⟩

/-- Items made of items. -/
theorem places_flatMap (f : β → List α) (xs : List β) (n : ℕ) :
    places size n (xs.flatMap f) =
      (places (fun b => total size (f b)) n xs).flatMap fun p => places size p.1 (f p.2) := by
  induction xs generalizing n with
  | nil => rfl
  | cons x xs ih => rw [List.flatMap_cons,places_append,ih,places,List.flatMap_cons]

lemma total_length (xs : List (List α)) : total List.length xs = xs.flatten.length := by
  rw [total,List.length_flatten]

end Layout
