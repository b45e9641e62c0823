import Mathlib.Tactic.Linarith
import Stele.Lib.Interleaving

/-! Interleaved calls that make resources of their own. Resources are numbered in the order in
which they are made, so one belongs to the call whose action made it, and a call need only rely
on the others leaving its own alone. -/
namespace Ownership
open Interleaving

variable {S α β ι ε : Type}

/-- How many resources have been made, and what the others may do to a call that owns some. -/
structure Rules (S : Type) where
  size : S → ℕ
  rely : (ℕ → Prop) → S → S → Prop
  refl : ∀ O s, rely O s s
  trans : ∀ {O s t u}, rely O s t → rely O t u → rely O s u
  weaken : ∀ {O s t}, rely O s t → rely (fun _ => False) s t
  grows : ∀ {O s t}, rely O s t → size s ≤ size t

variable {R : Rules S}

/-- What a call owns after an action: also what the action has made. -/
def Rules.made (R : Rules S) (O : ℕ → Prop) (s t : S) (i : ℕ) : Prop :=
  O i ∨ R.size s ≤ i ∧ i < R.size t

/-- The resources that a call's own actions have made. -/
def Rules.mine (R : Rules S) (own : List (S × S)) (i : ℕ) : Prop :=
  ∃ q ∈ own, R.size q.1 ≤ i ∧ i < R.size q.2

/-- An action that any other call can rely on, whatever it owns. -/
def Rules.Fair (R : Rules S) (O : ℕ → Prop) (s t : S) : Prop :=
  ∀ O' : ℕ → Prop, (∀ i, O' i → i < R.size s ∧ ¬O i) → R.rely O' s t

/-- From s on, whatever the others do: every own action is fair, and the result, what is owned
then and any later state satisfy `Q`. -/
def Meets (R : Rules S) (Q : α → (ℕ → Prop) → S → Prop) : Prog S α → (ℕ → Prop) → S → Prop
  | .ret a,O,s => ∀ t, R.rely O s t → Q a O t
  | .act f next,O,s => ∀ t, R.rely O s t →
      R.Fair O t (f t) ∧ Meets R Q (next t) (R.made O t (f t)) (f t)

@[simp] lemma mine_nil : R.mine [] = fun _ => False := by
  funext i
  simp [Rules.mine]

lemma mine_concat (own : List (S × S)) (s t : S) :
    R.mine (own++[(s,t)]) = R.made (R.mine own) s t := by
  funext i
  simp [Rules.mine,Rules.made,or_and_right,exists_or]

@[simp] lemma made_self (O : ℕ → Prop) (s : S) : R.made O s s = O := by
  funext i
  refine propext ⟨?_,Or.inl⟩
  rintro (h | ⟨h,h'⟩)
  · exact h
  · omega

lemma Rules.Fair.nobody {O : ℕ → Prop} {s t : S} (h : R.Fair O s t) : R.rely (fun _ => False) s t :=
  h _ nofun

lemma Rules.fair_self (O : ℕ → Prop) (s : S) : R.Fair O s s := fun O' _ => R.refl O' s

namespace Meets

variable {Q Q' : α → (ℕ → Prop) → S → Prop} {p : Prog S α} {O : ℕ → Prop} {s t : S}

lemma rely (h : Meets R Q p O s) (hst : R.rely O s t) : Meets R Q p O t := by
  cases p with
  | ret a => exact fun u hu => h u (R.trans hst hu)
  | act f next => exact fun u hu => h u (R.trans hst hu)

lemma ret {a : α} (h : ∀ t, R.rely O s t → Q a O t) : Meets R Q (.ret a) O s := h

lemma mono (h : Meets R Q p O s) (hQ : ∀ a O t, Q a O t → Q' a O t) : Meets R Q' p O s := by
  induction p generalizing O s with
  | ret a => exact fun t ht => hQ a O t (h t ht)
  | act f next ih =>
    intro t ht
    exact ⟨(h t ht).1,ih t (h t ht).2⟩

/-- What no fair action changes still holds in the end. -/
lemma frame {F : S → Prop} (hF : ∀ {s t}, R.rely (fun _ => False) s t → F s → F t) (hs : F s)
    (h : Meets R Q p O s) : Meets R (fun a O t => Q a O t ∧ F t) p O s := by
  induction p generalizing O s with
  | ret a => exact fun t ht => ⟨h t ht,hF (R.weaken ht) hs⟩
  | act f next ih =>
    intro t ht
    obtain ⟨hfair,hnext⟩ := h t ht
    exact ⟨hfair,ih t (hF hfair.nobody (hF (R.weaken ht) hs)) hnext⟩

lemma atomic {f : S → α × S} (h : ∀ t, R.rely O s t → R.Fair O t (f t).2 ∧
    ∀ u, R.rely (R.made O t (f t).2) (f t).2 u → Q (f t).1 (R.made O t (f t).2) u) :
    Meets R Q (.atomic f) O s := h

/-- An action that only looks. -/
lemma look {f : S → α × S} (hf : ∀ t, (f t).2 = t)
    (h : ∀ t u, R.rely O s t → R.rely O t u → Q (f t).1 O u) : Meets R Q (.atomic f) O s := by
  refine atomic fun t ht => ?_
  rw [hf t,made_self]
  exact ⟨Rules.fair_self O t,fun u hu => h t u ht hu⟩

/-- One program after the other. -/
lemma bind {Q : β → (ℕ → Prop) → S → Prop} {k : α → Prog S β}
    (h : Meets R (fun a O t => Meets R Q (k a) O t) p O s) : Meets R Q (p >>= k) O s := by
  change Meets R Q (p.bind k) O s
  induction p generalizing O s with
  | ret a => exact h s (R.refl _ s)
  | act f next ih =>
    intro t ht
    exact ⟨(h t ht).1,ih t (h t ht).2⟩

/-- One program after the other, unless the first one raises. -/
lemma bindExcept {Q : Except ε β → (ℕ → Prop) → S → Prop} {p : ExceptT ε (Prog S) α}
    {k : α → ExceptT ε (Prog S) β}
    (h : Meets R (fun r O t => match r with
      | .ok a => Meets R Q (k a).run O t
      | .error e => Q (.error e) O t) p.run O s) : Meets R Q (p >>= k).run O s := by
  rw [ExceptT.run_bind]
  refine bind ?_
  generalize p.run = q at h
  induction q generalizing O s with
  | ret r =>
    cases r with
    | ok a => exact h
    | error e => exact fun t ht => ret fun u hu => h u (R.trans ht hu)
  | act f next ih =>
    intro t ht
    exact ⟨(h t ht).1,ih t (h t ht).2⟩

end Meets

/-- A program that only looks. -/
def Looks : Prog S α → Prop
  | .ret _ => True
  | .act f next => ∀ s, f s = s ∧ Looks (next s)

namespace Looks

variable {Q : α → (ℕ → Prop) → S → Prop} {p : Prog S α} {O : ℕ → Prop} {s : S}

lemma atomic {f : S → α × S} (hf : ∀ s, (f s).2 = s) : Looks (.atomic f) := fun s => ⟨hf s,trivial⟩

lemma bind {k : α → Prog S β} (h : Looks p) (hk : ∀ a, Looks (k a)) : Looks (p >>= k) := by
  change Looks (p.bind k)
  induction p with
  | ret a => exact hk a
  | act f next ih => exact fun s => ⟨(h s).1,ih s (h s).2⟩

lemma bindExcept {p : ExceptT ε (Prog S) α} {k : α → ExceptT ε (Prog S) β} (h : Looks p.run)
    (hk : ∀ a, Looks (k a).run) : Looks (p >>= k).run := by
  rw [ExceptT.run_bind]
  refine h.bind fun r => ?_
  cases r with
  | ok a => exact hk a
  | error e => exact trivial

lemma meets (h : Looks p) (hQ : ∀ a t, R.rely O s t → Q a O t) : Meets R Q p O s := by
  induction p generalizing s with
  | ret a => exact fun t ht => hQ a t ht
  | act f next ih =>
    intro t ht
    obtain ⟨hf,hn⟩ := h t
    rw [hf,made_self]
    exact ⟨Rules.fair_self O t,ih t hn fun a u hu => hQ a u (R.trans ht hu)⟩

lemma run (h : Looks p) (s : S) : (p.run s).2 = s := by
  induction p generalizing s with
  | ret a => rfl
  | act f next ih =>
    obtain ⟨hf,hn⟩ := h s
    rw [Prog.run,ih s hn,hf]

end Looks

/-- Whatever the others do, every own action is in `G`. -/
def Does (R : Rules S) (G : S → S → Prop) : Prog S α → (ℕ → Prop) → S → Prop
  | .ret _,_,_ => True
  | .act f next,O,s => ∀ t, R.rely O s t → G t (f t) ∧ Does R G (next t) (R.made O t (f t)) (f t)

namespace Does

variable {G : S → S → Prop} {Q : α → (ℕ → Prop) → S → Prop} {p : Prog S α} {O : ℕ → Prop} {s t : S}

lemma rely (h : Does R G p O s) (hst : R.rely O s t) : Does R G p O t := by
  cases p with
  | ret a => exact trivial
  | act f next => exact fun u hu => h u (R.trans hst hu)

lemma atomic {f : S → α × S} (h : ∀ t, R.rely O s t → G t (f t).2) : Does R G (.atomic f) O s :=
  fun t ht => ⟨h t ht,trivial⟩

/-- One program after the other; the second starts where the first has led. -/
lemma bind {k : α → Prog S β} (h : Does R G p O s) (hm : Meets R Q p O s)
    (hk : ∀ a O t, Q a O t → Does R G (k a) O t) : Does R G (p >>= k) O s := by
  change Does R G (p.bind k) O s
  induction p generalizing O s with
  | ret a => exact hk a O s (hm s (R.refl O s))
  | act f next ih => exact fun t ht => ⟨(h t ht).1,ih t (h t ht).2 (hm t ht).2⟩

/-- The same when the second program may start anywhere. -/
lemma bind_any {k : α → Prog S β} (h : Does R G p O s) (hk : ∀ a O t, Does R G (k a) O t) :
    Does R G (p >>= k) O s := by
  change Does R G (p.bind k) O s
  induction p generalizing O s with
  | ret a => exact hk a O s
  | act f next ih => exact fun t ht => ⟨(h t ht).1,ih t (h t ht).2⟩

lemma bindExcept {Q : Except ε α → (ℕ → Prop) → S → Prop} {p : ExceptT ε (Prog S) α}
    {k : α → ExceptT ε (Prog S) β} (h : Does R G p.run O s) (hm : Meets R Q p.run O s)
    (hk : ∀ a O t, Q (.ok a) O t → Does R G (k a).run O t) : Does R G (p >>= k).run O s := by
  rw [ExceptT.run_bind]
  refine h.bind hm fun r O t hr => ?_
  cases r with
  | ok a => exact hk a O t hr
  | error e => exact trivial

lemma bindExcept_any {p : ExceptT ε (Prog S) α} {k : α → ExceptT ε (Prog S) β}
    (h : Does R G p.run O s) (hk : ∀ a O t, Does R G (k a).run O t) : Does R G (p >>= k).run O s := by
  rw [ExceptT.run_bind]
  refine h.bind_any fun r O t => ?_
  cases r with
  | ok a => exact hk a O t
  | error e => exact trivial

end Does

lemma Looks.does {G : S → S → Prop} (hG : ∀ s, G s s) {p : Prog S α} {O : ℕ → Prop} {s : S}
    (h : Looks p) : Does R G p O s := by
  induction p generalizing O s with
  | ret a => exact trivial
  | act f next ih =>
    intro t _
    obtain ⟨hf,hn⟩ := h t
    exact ⟨hf.symm ▸ hG t,ih t hn⟩

/-- What is known of a call: what it owns exists, and its part of the rules is met. -/
structure Known (R : Rules S) (Q : ι → S → α → (ℕ → Prop) → S → Prop) (s : S)
    (t : Thread ι S α) : Prop where
  made : ∀ i, R.mine t.own i → i < R.size s
  meets : Meets R (Q t.call t.start) t.prog (R.mine t.own) s

/-- Two calls own nothing in common. -/
def Apart (R : Rules S) (t u : Thread ι S α) : Prop := ∀ i, R.mine t.own i → ¬R.mine u.own i

lemma Apart.symm {t u : Thread ι S α} (h : Apart R t u) : Apart R u t := fun i hu ht => h i ht hu

lemma Known.rely {Q : ι → S → α → (ℕ → Prop) → S → Prop} {s s' : S} {t : Thread ι S α}
    (h : Known R Q s t) (hs : R.rely (R.mine t.own) s s') : Known R Q s' t :=
  ⟨fun i hi => lt_of_lt_of_le (h.made i hi) (R.grows hs),h.meets.rely hs⟩

/-- The invariant of a pool: each call is known, and any two are apart. -/
structure Sound (R : Rules S) (Q : ι → S → α → (ℕ → Prop) → S → Prop) (s₀ : S)
    (p : Pool ι S α) : Prop where
  since : R.rely (fun _ => False) s₀ p.shared
  known : ∀ t ∈ p.threads, Known R Q p.shared t
  apart : p.threads.Pairwise (Apart R)

section Pools

variable {Q : ι → S → α → (ℕ → Prop) → S → Prop} {s₀ s start : S} {c : ι} {f : S → S}
  {next : S → Prog S α} {own : List (S × S)} {ts us : List (Thread ι S α)} {p q : Pool ι S α}

lemma pairwise_apart {t : Thread ι S α} : (ts++t :: us).Pairwise (Apart R) ↔
    (ts++us).Pairwise (Apart R) ∧ ∀ u ∈ ts++us, Apart R t u := by
  rw [List.pairwise_middle Apart.symm,List.pairwise_cons]
  exact and_comm

lemma mem_middle {t u : Thread ι S α} (h : u ∈ ts++us) : u ∈ ts++t :: us :=
  List.mem_append.mpr ((List.mem_append.mp h).imp_right (List.mem_cons_of_mem _))

/-- What the other calls own is left alone by the action that a call takes. -/
lemma Sound.others (h : Sound R Q s₀ ⟨s,ts++⟨c,start,.act f next,own⟩ :: us⟩) :
    ∀ t ∈ ts++us, R.rely (R.mine t.own) s (f s) := by
  obtain ⟨-,hknown,hpair⟩ := h
  obtain ⟨hfair,-⟩ := (hknown ⟨c,start,.act f next,own⟩ (by simp)).meets s (R.refl _ s)
  intro t ht
  exact hfair _ fun i hi =>
    ⟨(hknown t (mem_middle ht)).made i hi,fun hm => (pairwise_apart.mp hpair).2 t ht i hm hi⟩

/-- Every action that a call takes keeps the invariant. -/
lemma Sound.act (h : Sound R Q s₀ ⟨s,ts++⟨c,start,.act f next,own⟩ :: us⟩) :
    Sound R Q s₀ ⟨f s,ts++⟨c,start,next s,own++[(s,f s)]⟩ :: us⟩ ∧
      R.rely (fun _ => False) s (f s) := by
  have hkept : ∀ t ∈ ts++us, Known R Q (f s) t := fun t ht =>
    (h.known t (mem_middle ht)).rely (h.others t ht)
  obtain ⟨hsince,hknown,hpair⟩ := h
  obtain ⟨hmade,hmeets⟩ := hknown ⟨c,start,.act f next,own⟩ (by simp)
  obtain ⟨hfair,hnext⟩ := hmeets s (R.refl _ s)
  obtain ⟨hothers,hapart⟩ := pairwise_apart.mp hpair
  have hgrows : R.size s ≤ R.size (f s) := R.grows hfair.nobody
  refine ⟨⟨R.trans hsince hfair.nobody,fun t ht => ?_,?_⟩,hfair.nobody⟩
  · rcases List.mem_append.mp ht with ht | ht
    · exact hkept t (List.mem_append_left _ ht)
    rcases List.mem_cons.mp ht with rfl | ht
    · refine ⟨fun i hi => ?_,?_⟩
      · rw [mine_concat] at hi
        rcases hi with hi | hi
        · exact lt_of_lt_of_le (hmade i hi) hgrows
        · exact hi.2
      · rw [mine_concat]
        exact hnext
    · exact hkept t (List.mem_append_right _ ht)
  · refine pairwise_apart.mpr ⟨hothers,fun t ht i hi hit => ?_⟩
    rw [mine_concat] at hi
    rcases hi with hi | hi
    · exact hapart t ht i hi hit
    · exact absurd ((hknown t (mem_middle ht)).made i hit) (not_lt.mpr hi.1)

lemma Sound.step {ops : ι → Prog S α} {l : Label ι S} (h : Sound R Q s₀ p)
    (hstep : Step ops (fun _ _ => False) p l q)
    (hops : ∀ c a, R.rely (fun _ => False) s₀ a → Meets R (Q c a) (ops c) (fun _ => False) a) :
    Sound R Q s₀ q ∧ R.rely (fun _ => False) p.shared q.shared := by
  cases hstep with
  | spawn c a ts =>
    obtain ⟨hsince,hknown,hpair⟩ := h
    refine ⟨⟨hsince,fun t ht => ?_,List.pairwise_cons.mpr ⟨fun t _ i hi => ?_,hpair⟩⟩,R.refl _ a⟩
    · rcases List.mem_cons.mp ht with rfl | ht
      · refine ⟨fun i hi => ?_,?_⟩
        · rw [mine_nil] at hi
          exact hi.elim
        · rw [mine_nil]
          exact hops c a hsince
      · exact hknown t ht
    · rw [mine_nil] at hi
      exact hi.elim
  | act c a start f next own ts us => exact h.act
  | die a t ts us =>
    obtain ⟨hsince,hknown,hpair⟩ := h
    exact ⟨⟨hsince,fun u hu => hknown u (mem_middle hu),(pairwise_apart.mp hpair).1⟩,R.refl _ a⟩
  | outside a b ts he => exact he.elim

/-- The invariant in every later state of the pool, which the calls have been fair to. -/
theorem Sound.reaches {ops : ι → Prog S α} {allowed : S → S → Prop} (h : Sound R Q s₀ p)
    (hr : Runs.Reaches (Step ops fun _ _ => False) (Label.Allows allowed) p q)
    (hops : ∀ c a, R.rely (fun _ => False) s₀ a → Meets R (Q c a) (ops c) (fun _ => False) a) :
    Sound R Q s₀ q ∧ R.rely (fun _ => False) p.shared q.shared := by
  refine hr.invariant (I := fun b => Sound R Q s₀ b ∧ R.rely (fun _ => False) p.shared b.shared)
    ⟨h,R.refl _ _⟩ fun a l b ha hstep _ => ?_
  obtain ⟨hb,hab⟩ := ha.1.step hstep hops
  exact ⟨hb,R.trans ha.2 hab⟩

/-- What the actions in `G` that are allowed keep is kept along a run of calls that do nothing else. -/
theorem Sound.invariant {G : S → S → Prop} {I : S → Prop} {ops : ι → Prog S α} {allowed : S → S → Prop}
    (h : Sound R Q s₀ p) (hd : ∀ t ∈ p.threads, Does R G t.prog (R.mine t.own) p.shared)
    (hr : Runs.Reaches (Step ops fun _ _ => False) (Label.Allows allowed) p q)
    (hops : ∀ c a, R.rely (fun _ => False) s₀ a →
      Meets R (Q c a) (ops c) (fun _ => False) a ∧ Does R G (ops c) (fun _ => False) a)
    (hI : ∀ s t, R.rely (fun _ => False) s₀ s → G s t → allowed s t → I s → I t) (hp : I p.shared) :
    I q.shared := by
  refine (hr.invariant (I := fun b => Sound R Q s₀ b ∧ I b.shared ∧
    ∀ t ∈ b.threads, Does R G t.prog (R.mine t.own) b.shared) ⟨h,hp,hd⟩ ?_).2.1
  rintro a l b ⟨ha,hi,hd⟩ hstep hl
  refine ⟨(ha.step hstep fun c s hs => (hops c s hs).1).1,?_⟩
  cases hstep with
  | spawn c s ts =>
    refine ⟨hi,List.forall_mem_cons.mpr ⟨?_,hd⟩⟩
    rw [mine_nil]
    exact (hops c s ha.since).2
  | act c s start f next own ts us =>
    obtain ⟨hg,hn⟩ := hd ⟨c,start,.act f next,own⟩ (by simp) s (R.refl _ s)
    have hothers : ∀ t ∈ ts++us, Does R G t.prog (R.mine t.own) (f s) := fun t ht =>
      (hd t (mem_middle ht)).rely (ha.others t ht)
    refine ⟨hI s (f s) ha.since hg hl hi,fun t ht => ?_⟩
    rcases List.mem_append.mp ht with ht | ht
    · exact hothers t (List.mem_append_left _ ht)
    rcases List.mem_cons.mp ht with rfl | ht
    · rw [mine_concat]
      exact hn
    · exact hothers t (List.mem_append_right _ ht)
  | die s t ts us => exact ⟨hi,fun u hu => hd u (mem_middle hu)⟩
  | outside s t ts he => exact he.elim

/-- A pool in which no call is under way. -/
lemma Sound.initial (s : S) : Sound R Q s ⟨s,[]⟩ := ⟨R.refl _ s,nofun,List.Pairwise.nil⟩

end Pools

end Ownership
