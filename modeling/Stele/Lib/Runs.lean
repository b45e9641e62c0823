import Mathlib.Logic.Relation

/-! Runs of a labelled transition system, and the induction that carries an invariant
along them. A run may be restricted to the steps that meet a condition. -/
namespace Runs

variable {S L : Type} {step : S → L → S → Prop} {allowed : S → L → Prop}

/-- One step, whatever its label, that the condition allows. -/
def Allowed (step : S → L → S → Prop) (allowed : S → L → Prop) (s t : S) : Prop :=
  ∃ l, step s l t ∧ allowed s l

/-- `t` is reached from `s` by steps that all meet the condition. -/
def Reaches (step : S → L → S → Prop) (allowed : S → L → Prop) : S → S → Prop :=
  Relation.ReflTransGen (Allowed step allowed)

lemma Reaches.refl (s : S) : Reaches step allowed s s := Relation.ReflTransGen.refl

lemma Reaches.tail {s t u : S} (h : Reaches step allowed s t) {l : L} (hs : step t l u)
    (ha : allowed t l) : Reaches step allowed s u := Relation.ReflTransGen.tail h ⟨l,hs,ha⟩

lemma Reaches.trans {s t u : S} (h : Reaches step allowed s t) (h' : Reaches step allowed t u) :
    Reaches step allowed s u := Relation.ReflTransGen.trans h h'

/-- What holds at the start and is kept by every allowed step holds in every state reached. -/
theorem Reaches.invariant {I : S → Prop} {s t : S} (h : Reaches step allowed s t) (h0 : I s)
    (hstep : ∀ a l b, I a → step a l b → allowed a l → I b) : I t := by
  induction h with
  | refl => exact h0
  | tail _ hst ih =>
    obtain ⟨l,hs,ha⟩ := hst
    exact hstep _ l _ ih hs ha

/-- The same, when the step may also use that its source was reached. -/
theorem Reaches.invariant_reached {I : S → Prop} {s t : S} (h : Reaches step allowed s t)
    (h0 : I s) (hstep : ∀ a l b, Reaches step allowed s a → I a → step a l b → allowed a l → I b) :
    I t := by
  induction h with
  | refl => exact h0
  | tail hr hst ih =>
    obtain ⟨l,hs,ha⟩ := hst
    exact hstep _ l _ hr ih hs ha

end Runs
