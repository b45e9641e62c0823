import Mathlib.Data.List.Basic
import Stele.Errors

/-! Generators, which yield before they raise. -/
namespace Stele

/-- What a generator yields, and what it raises after that. -/
structure Gen (α : Type) where
  items : List α
  raised : Option Exc

namespace Gen

variable {α β : Type}

def raise (e : Exc) : Gen α := ⟨[],some e⟩

/-- yield from g, then h. -/
def append (g h : Gen α) : Gen α :=
  match g.raised with
  | some _ => g
  | none => ⟨g.items++h.items,h.raised⟩

/-- What is computed before the next yield may raise. -/
def after (x : Except Exc β) (k : β → Gen α) : Gen α :=
  match x with
  | .error e => raise e
  | .ok b => k b

variable {g h : Gen α} {a : α} {x : Except Exc β} {k : β → Gen α}

lemma append_raised (hr : (g.append h).raised = none) :
    g.raised = none ∧ h.raised = none ∧ (g.append h).items = g.items++h.items := by
  unfold append at hr ⊢
  cases hg : g.raised with
  | none =>
    rw [hg] at hr
    exact ⟨rfl,hr,rfl⟩
  | some e =>
    rw [hg] at hr
    rw [hr] at hg
    cases hg

lemma append_none (hg : g.raised = none) : g.append h = ⟨g.items++h.items,h.raised⟩ := by
  rw [append,hg]

lemma mem_append (ha : a ∈ (g.append h).items) : a ∈ g.items ∨ a ∈ h.items := by
  unfold append at ha
  cases hr : g.raised with
  | some e =>
    rw [hr] at ha
    exact Or.inl ha
  | none =>
    rw [hr] at ha
    exact List.mem_append.mp ha

lemma after_raised (h : (after x k).raised = none) : ∃ y, x = .ok y ∧ after x k = k y := by
  cases x with
  | error e => cases h
  | ok y => exact ⟨y,rfl,rfl⟩

lemma mem_after (ha : a ∈ (after x k).items) : ∃ y, x = .ok y ∧ a ∈ (k y).items := by
  cases x with
  | error e => exact absurd ha List.not_mem_nil
  | ok y => exact ⟨y,rfl,ha⟩

/-- The generator raises exactly if `fails`, and otherwise yields what `shows` says. -/
structure Gives (g : Gen α) (fails : Prop) (shows : α → Prop) : Prop where
  raised : g.raised = none ↔ ¬fails
  items : g.raised = none → ∀ a, a ∈ g.items ↔ shows a

namespace Gives

variable {fails fails' : Prop} {shows shows' : α → Prop}

lemma nothing : Gives (⟨[],none⟩ : Gen α) False fun _ => False :=
  ⟨iff_of_true rfl id,fun _ _ => iff_of_false List.not_mem_nil id⟩

lemma append (hg : g.Gives fails shows) (hh : h.Gives fails' shows') :
    (g.append h).Gives (fails ∨ fails') fun a => shows a ∨ shows' a := by
  constructor
  · rw [not_or,← hg.raised,← hh.raised]
    constructor
    · intro ha
      obtain ⟨hl,hr,-⟩ := append_raised ha
      exact ⟨hl,hr⟩
    · rintro ⟨hl,hr⟩
      rw [append_none hl]
      exact hr
  · intro ha a
    obtain ⟨hl,hr,happ⟩ := append_raised ha
    rw [happ,List.mem_append,hg.items hl,hh.items hr]

lemma congr (hg : g.Gives fails shows) (hf : fails ↔ fails') (hs : ∀ a, shows a ↔ shows' a) :
    g.Gives fails' shows' :=
  ⟨hg.raised.trans (not_congr hf),fun hr a => (hg.items hr a).trans (hs a)⟩

end Gives

end Gen

end Stele
