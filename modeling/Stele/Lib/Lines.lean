import Mathlib.Data.List.Basic
import Mathlib.Data.List.Induction

/-! A file of lines that is only appended to, and what a writer that dies leaves of it: whole
lines and the beginning of one more, which the next writer cuts off. -/
namespace Lines

variable {α : Type} {sep : α}

/-- The lines, a separator after each. -/
def joined (sep : α) (ls : List (List α)) : List α := ls.flatMap fun l => l++[sep]

/-- What comes up to the last separator, it included. -/
def complete [DecidableEq α] (sep : α) (s : List α) : List α := (s.reverse.dropWhile (fun a => a ≠ sep)).reverse

/-- The parts between the separators; the last one is what comes after all of them. -/
def split [DecidableEq α] (sep : α) : List α → List (List α)
  | [] => [[]]
  | a :: s =>
    if a = sep then [] :: split sep s
    else match split sep s with
      | [] => [[a]]
      | l :: ls => (a :: l) :: ls

section Parts

variable {l s t : List α} {ls ms : List (List α)}

@[simp] lemma joined_nil : joined sep ([] : List (List α)) = [] := rfl

lemma joined_cons : joined sep (l :: ls) = l++sep :: joined sep ls := by
  simp [joined]

lemma joined_append : joined sep (ls++ms) = joined sep ls++joined sep ms := List.flatMap_append

lemma joined_snoc : joined sep (ls++[l]) = joined sep ls++(l++[sep]) := by
  simp [joined]

/-- The file ends with a separator exactly when nothing is torn. -/
lemma getLast_joined (h : sep ∉ t) (hl : ls ≠ []) :
    (joined sep ls++t).getLast? = some sep ↔ t = [] := by
  constructor
  · intro he
    by_contra ht
    rw [List.getLast?_append_of_ne_nil _ ht] at he
    exact h (List.mem_of_getLast? he)
  · rintro rfl
    obtain ⟨ms,m,rfl⟩ := List.eq_nil_or_concat ls |>.resolve_left hl
    rw [List.concat_eq_append,joined_snoc,List.append_nil,← List.append_assoc,List.getLast?_concat]

variable [DecidableEq α]

lemma split_free (h : sep ∉ t) : split sep t = [t] := by
  induction t with
  | nil => rfl
  | cons a t ih =>
    rw [List.mem_cons,not_or] at h
    rw [split,if_neg fun he => h.1 he.symm,ih h.2]

lemma split_line (h : sep ∉ l) : split sep (l++sep :: s) = l :: split sep s := by
  induction l with
  | nil => rw [List.nil_append,split,if_pos rfl]
  | cons a l ih =>
    rw [List.mem_cons,not_or] at h
    rw [List.cons_append,split,if_neg fun he => h.1 he.symm,ih h.2]

/-- Splitting gives the lines back, and what follows them. -/
theorem split_joined (h : ∀ l ∈ ls, sep ∉ l) (ht : sep ∉ t) : split sep (joined sep ls++t) = ls++[t] := by
  induction ls with
  | nil => exact split_free ht
  | cons l ls ih =>
    rw [List.forall_mem_cons] at h
    rw [joined_cons,List.append_assoc,List.cons_append,split_line h.1,ih h.2,List.cons_append]

lemma complete_free (h : sep ∉ t) : complete sep (s++t) = complete sep s := by
  induction t using List.reverseRecOn with
  | nil => rw [List.append_nil]
  | append_singleton t a ih =>
    rw [List.mem_append,List.mem_singleton,not_or] at h
    rw [← ih h.1,complete,complete,← List.append_assoc,List.reverse_append,List.reverse_singleton,
      List.singleton_append,List.dropWhile_cons_of_pos]
    simpa using fun he => h.2 he.symm

lemma complete_joined : complete sep (joined sep ls) = joined sep ls := by
  induction ls using List.reverseRecOn with
  | nil => rfl
  | append_singleton ls l _ =>
    rw [joined_snoc,← List.append_assoc,complete,List.reverse_append,List.reverse_singleton,
      List.singleton_append,List.dropWhile_cons_of_neg (by simp),List.reverse_cons,List.reverse_reverse]

/-- What is cut off is what follows the last line. -/
theorem complete_torn (h : sep ∉ t) : complete sep (joined sep ls++t) = joined sep ls := by
  rw [complete_free h,complete_joined]

end Parts

section Deaths

/-- What a writer does to its file. -/
inductive Effect (α : Type)
  | truncate (n : ℕ)
  | append (data : List α)

def Effect.apply : Effect α → List α → List α
  | .truncate n,file => file.take n
  | .append data,file => file++data

def perform (es : List (Effect α)) (file : List α) : List α := es.foldl (fun f e => e.apply f) file

/-- The writer dies after n effects: nothing of the next one, or the beginning of what it appends,
has reached the file. -/
inductive Leaves : List (Effect α) → List α → ℕ → List α → Prop
  | stop (es : List (Effect α)) (file : List α) : Leaves es file 0 file
  | torn {data t file : List α} (es : List (Effect α)) : t <+: data → t.length < data.length →
      Leaves (.append data :: es) file 0 (file++t)
  | step {e : Effect α} {es : List (Effect α)} {file file' : List α} {n : ℕ} :
      Leaves es (e.apply file) n file' → Leaves (e :: es) file (n+1) file'

variable {es fs : List (Effect α)} {file file' : List α} {n : ℕ}

lemma perform_append : perform (es++fs) file = perform fs (perform es file) := List.foldl_append

/-- It dies in the first part, or after all of it in the second. -/
lemma leaves_append (h : Leaves (es++fs) file n file') : (n ≤ es.length ∧ Leaves es file n file') ∨
    ∃ m, n = es.length+m ∧ Leaves fs (perform es file) m file' := by
  induction es generalizing file n with
  | nil => exact Or.inr ⟨n,by simp,h⟩
  | cons e es ih =>
    cases h with
    | stop => exact Or.inl ⟨Nat.zero_le _,.stop _ _⟩
    | torn _ ht hl => exact Or.inl ⟨Nat.zero_le _,.torn _ ht hl⟩
    | step h =>
      rcases ih h with ⟨hn,hd⟩ | ⟨m,hn,hd⟩
      · exact Or.inl ⟨by simpa using hn,.step hd⟩
      · exact Or.inr ⟨m,by simp only [hn,List.length_cons]; omega,hd⟩

lemma torn_free {l t : List α} (h : sep ∉ l) (ht : t <+: l++[sep]) (hl : t.length < (l++[sep]).length) :
    sep ∉ t := by
  rw [List.length_append,List.length_singleton] at hl
  have hp : t <+: l := List.prefix_of_prefix_length_le ht (List.prefix_append l [sep]) (by omega)
  exact fun hm => h (hp.subset hm)

/-- A writer of lines that dies leaves the lines it completed and something without a separator. -/
theorem leaves_lines {ls : List (List α)} (h : ∀ l ∈ ls, sep ∉ l)
    (hd : Leaves (ls.map fun l => .append (l++[sep])) file n file') :
    n ≤ ls.length ∧ ∃ t, sep ∉ t ∧ file' = file++joined sep (ls.take n)++t := by
  induction ls generalizing file n with
  | nil =>
    cases hd
    exact ⟨Nat.le_refl _,[],List.not_mem_nil,by simp [joined]⟩
  | cons l ls ih =>
    rw [List.forall_mem_cons] at h
    rw [List.map_cons] at hd
    cases hd with
    | stop => exact ⟨Nat.zero_le _,[],List.not_mem_nil,by simp [joined]⟩
    | torn _ ht hl => exact ⟨Nat.zero_le _,_,torn_free h.1 ht hl,by simp [joined]⟩
    | step hd =>
      obtain ⟨hn,t,ht,rfl⟩ := ih h.2 hd
      refine ⟨by simpa using hn,t,ht,?_⟩
      simp [Effect.apply,joined]

/-- A writer of lines that is not interrupted. -/
lemma perform_lines (ls : List (List α)) (file : List α) :
    perform (ls.map fun l => .append (l++[sep])) file = file++joined sep ls := by
  induction ls generalizing file with
  | nil => simp [perform,joined]
  | cons l ls ih =>
    have hstep : perform ((l :: ls).map fun l => .append (l++[sep])) file =
        perform (ls.map fun l => .append (l++[sep])) (file++(l++[sep])) := rfl
    rw [hstep,ih]
    simp [joined]

end Deaths

end Lines
