import Stele.Lib.Interleaving

/-! A program alone: run to its end, or interrupted after some of its actions. -/
namespace Interleaving

variable {S α : Type} {R : Rules S} {G : S → S → Prop} {Q : α → List (S × S) → S → Prop}

/-- The state after the first n actions of a program alone, or after all of them. -/
def Prog.after : ℕ → Prog S α → S → S
  | 0,_,s => s
  | _+1,.ret _,s => s
  | n+1,.act f next,s => (next s).after n (f s)

/-- Wherever it is interrupted, a program has led where its actions lead. -/
lemma Meets.after (hG : ∀ a b, G a b → R.rely a b) (hall : ∀ a b, R.allowed a b) {p : Prog S α}
    {own : List (S × S)} {s : S} (h : Meets R G Q p own s) (n : ℕ) : R.rely s (p.after n s) := by
  induction n generalizing p own s with
  | zero => exact R.refl s
  | succ n ih =>
    cases p with
    | ret a => exact R.refl s
    | act f next =>
      obtain ⟨hg,hnext⟩ := h s (R.refl s) (hall _ _)
      exact R.trans (hG _ _ hg) (ih hnext)

/-- What a program that is left alone returns and leaves. -/
lemma Meets.run (hG : ∀ a b, G a b → R.rely a b) (hall : ∀ a b, R.allowed a b) {p : Prog S α}
    {own : List (S × S)} {s : S} (h : Meets R G Q p own s) :
    R.rely s (p.run s).2 ∧ ∃ own', Q (p.run s).1 own' (p.run s).2 := by
  induction p generalizing own s with
  | ret a => exact ⟨R.refl s,own,h s (R.refl s)⟩
  | act f next ih =>
    obtain ⟨hg,hnext⟩ := h s (R.refl s) (hall _ _)
    obtain ⟨hr,hq⟩ := ih s hnext
    exact ⟨R.trans (hG _ _ hg) hr,hq⟩

end Interleaving
