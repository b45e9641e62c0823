import Mathlib.Data.List.Basic
import Mathlib.Tactic.Cases

/-! Command lines whose options each take a fixed number of values, up to the first word that is no
option: the words of a list of options read back as those options, whatever their values are. -/
namespace Options

variable {α : Type}

/-- The words of options with their values. -/
def words (os : List (α × List α)) : List α := os.flatMap fun o => o.1 :: o.2

/-- Reads options up to a word that is none, in less than so many turns; `none` where the values of
one are cut short. -/
def read (arity : α → Option ℕ) : ℕ → List α → Option (List (α × List α) × List α)
  | 0,_ => none
  | _+1,[] => some ([],[])
  | k+1,a :: as =>
    match arity a with
    | none => some ([],a :: as)
    | some n =>
      if n ≤ as.length then (read arity k (as.drop n)).map fun r => ((a,as.take n) :: r.1,r.2) else none

/-- Each option has as many values as it takes. -/
def Fits (arity : α → Option ℕ) (os : List (α × List α)) : Prop := ∀ o ∈ os, arity o.1 = some o.2.length

section

variable {arity : α → Option ℕ} {os os' : List (α × List α)} {rest : List α} {k : ℕ}

@[simp] lemma words_nil : words ([] : List (α × List α)) = [] := rfl

@[simp] lemma words_cons (o : α × List α) (os : List (α × List α)) : words (o :: os) = o.1 :: (o.2++words os) :=
  List.flatMap_cons

@[simp] lemma words_append (os os' : List (α × List α)) : words (os++os') = words os++words os' :=
  List.flatMap_append

@[simp] lemma fits_nil : Fits arity [] := nofun

@[simp] lemma fits_cons {o : α × List α} : Fits arity (o :: os) ↔ arity o.1 = some o.2.length ∧ Fits arity os :=
  List.forall_mem_cons

@[simp] lemma fits_append : Fits arity (os++os') ↔ Fits arity os ∧ Fits arity os' := List.forall_mem_append

/-- A value is never taken for an option. -/
theorem read_words (h : Fits arity os) (hrest : ∀ a ∈ rest.head?, arity a = none)
    (hk : (words os++rest).length < k) : read arity k (words os++rest) = some (os,rest) := by
  induction os generalizing k with
  | nil =>
    obtain ⟨k,rfl⟩ := Nat.exists_eq_add_of_lt hk
    rw [words_nil,List.nil_append]
    cases rest with
    | nil => rfl
    | cons a rest => rw [read,hrest a rfl]
  | cons o os ih =>
    obtain ⟨ho,hos⟩ := fits_cons.mp h
    simp only [words_cons,List.cons_append,List.length_cons,List.append_assoc,List.length_append] at hk
    obtain ⟨k,rfl⟩ := Nat.exists_eq_add_of_le' (show 1 ≤ k by omega)
    rw [words_cons,List.cons_append,List.append_assoc,read,ho]
    simp only
    rw [if_pos (by simp),List.drop_left,List.take_left,ih hos (by rw [List.length_append]; omega)]
    rfl

end

section

variable [DecidableEq α] {n m : α} 

/-- The values of each option of this name, in order. -/
def pick (n : α) (os : List (α × List α)) : List (List α) := (os.filter fun o => decide (o.1 = n)).map Prod.snd

@[simp] lemma pick_nil (n : α) : pick n [] = [] := rfl

@[simp] lemma pick_append (n : α) (os os' : List (α × List α)) : pick n (os++os') = pick n os++pick n os' := by
  rw [pick,List.filter_append,List.map_append]
  rfl

lemma pick_cons (o : α × List α) (os : List (α × List α)) :
    pick n (o :: os) = if o.1 = n then o.2 :: pick n os else pick n os := by
  by_cases h : o.1 = n
  · simp [pick,h]
  · simp [pick,h]

@[simp] lemma pick_map_same {β : Type} (n : α) (f : β → List α) (l : List β) :
    pick n (l.map fun b => (n,f b)) = l.map f := by
  induction l with
  | nil => rfl
  | cons b l ih => rw [List.map_cons,pick_cons,if_pos rfl,ih,List.map_cons]

lemma pick_map_other {β : Type} (h : m ≠ n) (f : β → List α) (l : List β) :
    pick n (l.map fun b => (m,f b)) = [] := by
  induction l with
  | nil => rfl
  | cons b l ih => rw [List.map_cons,pick_cons,if_neg h,ih]

end

end Options
