import Mathlib.Data.List.Basic

/-! Scans that may fail and that collect findings on the way: when a scan ends clean, each
element passed, whatever the scan keeps in its state. -/
namespace Scan

variable {σ α ε : Type} (step : σ → α → Except ε σ) (Clean : σ → Prop) (Passed : σ → α → Prop)

/-- What is known of an element stays known, and a step that ends clean began clean and let
its element pass. -/
structure Sound : Prop where
  keeps : ∀ {s a t b}, step s a = .ok t → Passed s b → Passed t b
  element : ∀ {s a t}, step s a = .ok t → Clean t → Clean s ∧ Passed t a

variable {step Clean Passed}

lemma foldlM_cons_ok {s t : σ} {a : α} {xs : List α} :
    (a :: xs).foldlM step s = .ok t ↔ ∃ u, step s a = .ok u ∧ xs.foldlM step u = .ok t := by
  rw [List.foldlM_cons]
  cases h : step s a with
  | error e =>
    constructor
    · intro ht
      cases ht
    · rintro ⟨_,hu,_⟩
      cases hu
  | ok u =>
    constructor
    · intro ht
      exact ⟨u,rfl,ht⟩
    · rintro ⟨_,hu,ht⟩
      obtain rfl := Except.ok.inj hu
      exact ht

/-- What each step keeps, the scan keeps. -/
theorem keeps {P : σ → Prop} (h : ∀ {s a t}, step s a = .ok t → P s → P t) {xs : List α} {s t : σ}
    (hs : xs.foldlM step s = .ok t) (hP : P s) : P t := by
  induction xs generalizing s with
  | nil => exact Except.ok.inj hs ▸ hP
  | cons a xs ih =>
    obtain ⟨u,hu,hs⟩ := foldlM_cons_ok.mp hs
    exact ih hs (h hu hP)

namespace Sound

/-- A clean end: every element passed. -/
theorem run (h : Sound step Clean Passed) {xs : List α} {s t : σ} (hs : xs.foldlM step s = .ok t)
    (hc : Clean t) : Clean s ∧ ∀ a ∈ xs, Passed t a := by
  induction xs generalizing s with
  | nil => exact ⟨Except.ok.inj hs ▸ hc,List.forall_mem_nil _⟩
  | cons a xs ih =>
    obtain ⟨u,hu,hs⟩ := foldlM_cons_ok.mp hs
    obtain ⟨hcu,hxs⟩ := ih hs
    obtain ⟨hcs,ha⟩ := h.element hu hcu
    exact ⟨hcs,List.forall_mem_cons.mpr ⟨Scan.keeps (fun hst => h.keeps hst) hs ha,hxs⟩⟩

end Sound

end Scan
