import Mathlib.Data.Nat.Notation
import Stele.Lib.Runs

/-! Programs of atomic actions on a shared state, and every interleaving of any number of
them. A call may stop for ever after any of its actions. -/
namespace Interleaving

variable {S α β ι ε : Type}

/-- A program returns, or acts once and goes on with the state that it acted on. -/
inductive Prog (S α : Type)
  | ret (a : α)
  | act (f : S → S) (next : S → Prog S α)

namespace Prog

def bind : Prog S α → (α → Prog S β) → Prog S β
  | .ret a,k => k a
  | .act f next,k => .act f fun s => (next s).bind k

instance : Monad (Prog S) where
  pure := .ret
  bind := bind

/-- One action and its result. -/
def atomic (f : S → α × S) : Prog S α := .act (fun s => (f s).2) fun s => .ret (f s).1

/-- The program alone, from start to end. -/
def run : Prog S α → S → α × S
  | .ret a,s => (a,s)
  | .act f next,s => (next s).run (f s)

@[simp] lemma run_ret (a : α) (s : S) : (Prog.ret a).run s = (a,s) := rfl

@[simp] lemma run_pure (a : α) (s : S) : (pure a : Prog S α).run s = (a,s) := rfl

@[simp] lemma run_atomic (f : S → α × S) (s : S) : (atomic f).run s = f s := rfl

@[simp] lemma run_bind (p : Prog S α) (k : α → Prog S β) (s : S) :
    (p >>= k).run s = (k (p.run s).1).run (p.run s).2 := by
  change (p.bind k).run s = _
  induction p generalizing s with
  | ret a => rfl
  | act f next ih => exact ih s (f s)

/-- The actions of a program that runs alone. -/
def trace : Prog S α → S → List (S × S)
  | .ret _,_ => []
  | .act f next,s => (s,f s) :: (next s).trace (f s)

lemma trace_bind (p : Prog S α) (k : α → Prog S β) (s : S) :
    (p >>= k).trace s = p.trace s++(k (p.run s).1).trace (p.run s).2 := by
  change (p.bind k).trace s = _
  induction p generalizing s with
  | ret a => rfl
  | act f next ih => exact congrArg ((s,f s) :: ·) (ih s (f s))

lemma trace_map (f : α → β) (p : Prog S α) (s : S) : (f <$> p).trace s = p.trace s :=
  (trace_bind p (fun a => .ret (f a)) s).trans (List.append_nil _)

end Prog

/-- What the others may do between two actions, which actions are considered, and what
each own action does. -/
structure Rules (S : Type) where
  rely : S → S → Prop
  allowed : S → S → Prop
  refl : ∀ s, rely s s
  trans : ∀ {s t u}, rely s t → rely t u → rely s u

variable {R : Rules S} {G : S → S → Prop}

/-- From s on, whatever the others do: every own action is in `G`, and the result, the own
actions and any later state satisfy `Q`. -/
def Meets (R : Rules S) (G : S → S → Prop) (Q : α → List (S × S) → S → Prop) :
    Prog S α → List (S × S) → S → Prop
  | .ret a,own,s => ∀ t, R.rely s t → Q a own t
  | .act f next,own,s => ∀ t, R.rely s t → R.allowed t (f t) →
      G t (f t) ∧ Meets R G Q (next t) (own++[(t,f t)]) (f t)

namespace Meets

variable {Q Q' : α → List (S × S) → S → Prop} {p : Prog S α} {own : List (S × S)} {s t : S}

/-- The others' steps change nothing about it. -/
lemma rely (h : Meets R G Q p own s) (hst : R.rely s t) : Meets R G Q p own t := by
  cases p with
  | ret a => exact fun u hu => h u (R.trans hst hu)
  | act f next => exact fun u hu => h u (R.trans hst hu)

lemma ret {a : α} (h : ∀ t, R.rely s t → Q a own t) : Meets R G Q (.ret a) own s := h

lemma mono (h : Meets R G Q p own s) (hQ : ∀ a own t, Q a own t → Q' a own t) :
    Meets R G Q' p own s := by
  induction p generalizing own s with
  | ret a => exact fun t ht => hQ a own t (h t ht)
  | act f next ih =>
    intro t ht ha
    exact ⟨(h t ht ha).1,ih t (h t ht ha).2⟩

lemma atomic {f : S → α × S} (h : ∀ t, R.rely s t → R.allowed t (f t).2 →
    G t (f t).2 ∧ ∀ u, R.rely (f t).2 u → Q (f t).1 (own++[(t,(f t).2)]) u) :
    Meets R G Q (.atomic f) own s := h

/-- One program after the other. -/
lemma bind {Q : β → List (S × S) → S → Prop} {k : α → Prog S β}
    (h : Meets R G (fun a own t => Meets R G Q (k a) own t) p own s) :
    Meets R G Q (p >>= k) own s := by
  change Meets R G Q (p.bind k) own s
  induction p generalizing own s with
  | ret a => exact h s (R.refl s)
  | act f next ih =>
    intro t ht ha
    exact ⟨(h t ht ha).1,ih t (h t ht ha).2⟩

/-- What is relied on holds from the start of a program to its end, and its actions add up. -/
lemma reached (hG : ∀ a b, G a b → R.allowed a b → R.rely a b) (h : Meets R G Q p own s) :
    Meets R G (fun a own' t => R.rely s t ∧ own <+: own' ∧ Q a own' t) p own s := by
  induction p generalizing own s with
  | ret a => exact fun t ht => ⟨ht,List.prefix_rfl,h t ht⟩
  | act f next ih =>
    intro t ht ha
    obtain ⟨hg,hm⟩ := h t ht ha
    refine ⟨hg,(ih t hm).mono fun a own' u hu => ⟨?_,?_,hu.2.2⟩⟩
    · exact R.trans ht (R.trans (hG _ _ hg ha) hu.1)
    · exact (List.prefix_append _ _).trans hu.2.1

lemma map {Q : β → List (S × S) → S → Prop} {f : α → β}
    (h : Meets R G (fun a own t => Q (f a) own t) p own s) : Meets R G Q (f <$> p) own s := by
  change Meets R G Q (p.bind fun a => .ret (f a)) own s
  induction p generalizing own s with
  | ret a => exact h
  | act f next ih =>
    intro t ht ha
    exact ⟨(h t ht ha).1,ih t (h t ht ha).2⟩

/-- One program after the other, unless the first one raises. -/
lemma bindExcept {Q : Except ε β → List (S × S) → S → Prop} {p : ExceptT ε (Prog S) α}
    {k : α → ExceptT ε (Prog S) β}
    (h : Meets R G (fun r own t => match r with
      | .ok a => Meets R G Q (k a).run own t
      | .error e => Q (.error e) own t) p.run own s) : Meets R G Q (p >>= k).run own s := by
  rw [ExceptT.run_bind]
  refine bind ?_
  generalize p.run = q at h
  induction q generalizing own s with
  | ret r =>
    cases r with
    | ok a => exact h
    | error e => exact fun t ht => ret fun u hu => h u (R.trans ht hu)
  | act f next ih =>
    intro t ht ha
    exact ⟨(h t ht ha).1,ih t (h t ht ha).2⟩

/-- What is allowed may be more. -/
lemma weaken {G' : S → S → Prop} (hG : ∀ a b, G a b → G' a b) (h : Meets R G Q p own s) :
    Meets R G' Q p own s := by
  induction p generalizing own s with
  | ret a => exact h
  | act f next ih => exact fun t ht ha => ⟨hG _ _ (h t ht ha).1,ih t (h t ht ha).2⟩

/-- The actions that are considered are the allowed ones. -/
lemma only_allowed (h : Meets R G Q p own s) :
    Meets R (fun a b => G a b ∧ R.allowed a b) Q p own s := by
  induction p generalizing own s with
  | ret a => exact h
  | act f next ih => exact fun t ht ha => ⟨⟨(h t ht ha).1,ha⟩,ih t (h t ht ha).2⟩

/-- The own actions only grow, and by actions in G. -/
lemma traced (h : Meets R G Q p own s) :
    Meets R G (fun a own' t => Q a own' t ∧ ∃ more, own' = own++more ∧ ∀ q ∈ more, G q.1 q.2)
      p own s := by
  induction p generalizing own s with
  | ret a => exact fun t ht => ⟨h t ht,[],(List.append_nil own).symm,List.forall_mem_nil _⟩
  | act f next ih =>
    intro t ht ha
    obtain ⟨hg,hm⟩ := h t ht ha
    refine ⟨hg,(ih t hm).mono ?_⟩
    rintro a own' u ⟨hq,more,rfl,hmore⟩
    exact ⟨hq,(t,f t) :: more,by simp,List.forall_mem_cons.mpr ⟨hg,hmore⟩⟩

/-- What the others and the own actions keep holds before and after each own action. -/
lemma kept {I : S → Prop} (hR : ∀ a b, R.rely a b → I a → I b)
    (hG : ∀ a b, G a b → R.allowed a b → R.rely a b) (h : Meets R G Q p own s) (hs : I s) :
    Meets R (fun a b => G a b ∧ I a ∧ I b) Q p own s := by
  induction p generalizing own s with
  | ret a => exact h
  | act f next ih =>
    intro t ht ha
    obtain ⟨hg,hm⟩ := h t ht ha
    have ht' := hR _ _ ht hs
    have hf := hR _ _ (hG _ _ hg ha) ht'
    exact ⟨⟨hg,ht',hf⟩,ih t hm hf⟩

end Meets

/-- Every own action is in `G`; if p returns, what it returns, the own actions and any later
state satisfy `V`. -/
def Yields (R : Rules S) (G : S → S → Prop) (V : α → List (S × S) → S → Prop)
    (p : ExceptT ε (Prog S) α) (own : List (S × S)) (s : S) : Prop :=
  Meets R G (fun r own t => ∀ a, r = .ok a → V a own t) p.run own s

namespace Yields

variable {V V' : α → List (S × S) → S → Prop} {U : β → List (S × S) → S → Prop}
  {p : ExceptT ε (Prog S) α} {own : List (S × S)} {s : S}

lemma mono (h : Yields R G V p own s) (hV : ∀ a own t, V a own t → V' a own t) :
    Yields R G V' p own s :=
  Meets.mono h fun _ _ _ hr a ha => hV a _ _ (hr a ha)

/-- Two things that are known of one program. -/
lemma and {G' : S → S → Prop} (h : Yields R G V p own s) (h' : Yields R G' V' p own s) :
    Yields R G (fun a own t => V a own t ∧ V' a own t) p own s := by
  have both : ∀ {q : Prog S (Except ε α)} {own : List (S × S)} {s : S},
      Meets R G (fun r own t => ∀ a, r = .ok a → V a own t) q own s →
      Meets R G' (fun r own t => ∀ a, r = .ok a → V' a own t) q own s →
      Meets R G (fun r own t => ∀ a, r = .ok a → V a own t ∧ V' a own t) q own s := by
    intro q
    induction q with
    | ret r => exact fun h h' t ht a ha => ⟨h t ht a ha,h' t ht a ha⟩
    | act f next ih =>
      intro own s h h' t ht ha
      exact ⟨(h t ht ha).1,ih t (h t ht ha).2 (h' t ht ha).2⟩
  exact both h h'

lemma pure {a : α} (h : ∀ t, R.rely s t → V a own t) :
    Yields R G V (pure a : ExceptT ε (Prog S) α) own s :=
  fun t ht _ hb => Except.ok.inj hb ▸ h t ht

/-- One program after the other; the second starts where the first has led. -/
lemma bind {k : α → ExceptT ε (Prog S) β} (hG : ∀ a b, G a b → R.allowed a b → R.rely a b)
    (h : Yields R G V p own s)
    (hk : ∀ a own' t, R.rely s t → own <+: own' → V a own' t → Yields R G U (k a) own' t) :
    Yields R G U (p >>= k) own s := by
  refine Meets.bindExcept ((Meets.reached hG h).mono ?_)
  intro r own' t ⟨ht,hown,hr⟩
  cases r with
  | ok a => exact hk a own' t ht hown (hr a rfl)
  | error e => exact fun b h => by cases h

lemma ite {c : Prop} [Decidable c] {p q : ExceptT ε (Prog S) α} (hp : c → Yields R G V p own s)
    (hq : ¬c → Yields R G V q own s) : Yields R G V (if c then p else q) own s := by
  by_cases h : c
  · rw [if_pos h]
    exact hp h
  · rw [if_neg h]
    exact hq h

/-- if c: raise e, and then the rest. -/
lemma refuse {c : Prop} [Decidable c] {e : ε} {k : Unit → ExceptT ε (Prog S) β}
    (h : ¬c → Yields R G U (k ()) own s) :
    Yields R G U (if c then (MonadExcept.throw e >>= k) else k ()) own s := by
  refine ite (fun _ => ?_) h
  change Meets R G _ (.ret (Except.error e)) own s
  exact fun _ _ _ hb => by cases hb

end Yields

/-- A call under way, or ended: where it started, what is left of it and what it has done. -/
structure Thread (ι S α : Type) where
  call : ι
  start : S
  prog : Prog S α
  own : List (S × S)

structure Pool (ι S α : Type) where
  shared : S
  threads : List (Thread ι S α)

inductive Label (ι S : Type)
  | spawn (c : ι)
  | act (c : ι) (s t : S)
  | die (c : ι)
  | outside (s t : S)

/-- Any call may start at any time, act next, or die; the environment may act in between. -/
inductive Step (ops : ι → Prog S α) (env : S → S → Prop) :
    Pool ι S α → Label ι S → Pool ι S α → Prop
  | spawn (c : ι) (s : S) (ts : List (Thread ι S α)) :
    Step ops env ⟨s,ts⟩ (.spawn c) ⟨s,⟨c,s,ops c,[]⟩ :: ts⟩
  | act (c : ι) (s start : S) (f : S → S) (next : S → Prog S α) (own : List (S × S))
    (ts us : List (Thread ι S α)) :
    Step ops env ⟨s,ts++⟨c,start,.act f next,own⟩ :: us⟩ (.act c s (f s))
      ⟨f s,ts++⟨c,start,next s,own++[(s,f s)]⟩ :: us⟩
  | die (s : S) (t : Thread ι S α) (ts us : List (Thread ι S α)) :
    Step ops env ⟨s,ts++t :: us⟩ (.die t.call) ⟨s,ts++us⟩
  | outside (s t : S) (ts : List (Thread ι S α)) :
    env s t → Step ops env ⟨s,ts⟩ (.outside s t) ⟨t,ts⟩

/-- A condition on actions, as one on the steps of a pool. -/
def Label.Allows (allowed : S → S → Prop) (_ : Pool ι S α) : Label ι S → Prop
  | .act _ s t => allowed s t
  | _ => True

/-- The runs of all interleavings, from a state with no call under way. -/
def Interleaved (ops : ι → Prog S α) (env allowed : S → S → Prop) (s : S) (p : Pool ι S α) : Prop :=
  Runs.Reaches (Step ops env) (Label.Allows allowed) ⟨s,[]⟩ p

/-- A call that is started and left alone runs to its end. -/
lemma Pool.call_trace (ops : ι → Prog S α) (env : S → S → Prop) (s : S) (ts : List (Thread ι S α)) (c : ι) :
    Runs.Reaches (Step ops env) (Label.Allows fun _ _ => True) ⟨s,ts⟩
      ⟨((ops c).run s).2,⟨c,s,.ret ((ops c).run s).1,(ops c).trace s⟩ :: ts⟩ := by
  have alone : ∀ (q : Prog S α) (t : S) (own : List (S × S)),
      Runs.Reaches (Step ops env) (Label.Allows fun _ _ => True) ⟨t,⟨c,s,q,own⟩ :: ts⟩
        ⟨(q.run t).2,⟨c,s,.ret (q.run t).1,own++q.trace t⟩ :: ts⟩ := by
    intro q
    induction q with
    | ret a =>
      intro t own
      rw [Prog.trace,List.append_nil]
      exact .refl _
    | act f next ih =>
      intro t own
      have h := ih t (f t) (own++[(t,f t)])
      rw [List.append_assoc] at h
      exact (Runs.Reaches.refl _).tail (.act c t s f next own [] ts) trivial |>.trans h
  exact (Runs.Reaches.refl _).tail (.spawn c s ts) trivial |>.trans (alone (ops c) s [])

lemma Pool.call (ops : ι → Prog S α) (env : S → S → Prop) (s : S) (ts : List (Thread ι S α)) (c : ι) :
    ∃ own, Runs.Reaches (Step ops env) (Label.Allows fun _ _ => True) ⟨s,ts⟩
      ⟨((ops c).run s).2,⟨c,s,.ret ((ops c).run s).1,own⟩ :: ts⟩ :=
  ⟨_,Pool.call_trace ops env s ts c⟩

lemma Interleaved.call {ops : ι → Prog S α} {env : S → S → Prop} {s₀ s : S}
    {ts : List (Thread ι S α)} (h : Interleaved ops env (fun _ _ => True) s₀ ⟨s,ts⟩) (c : ι) :
    ∃ own, Interleaved ops env (fun _ _ => True) s₀
      ⟨((ops c).run s).2,⟨c,s,.ret ((ops c).run s).1,own⟩ :: ts⟩ :=
  (Pool.call ops env s ts c).imp fun _ => h.trans

/-- What a program that runs alone leaves. -/
def Prog.final (p : Prog S α) (s : S) : S := (p.run s).2

lemma Pool.final (ops : ι → Prog S α) (env : S → S → Prop) (s : S) (ts : List (Thread ι S α)) (c : ι) :
    ∃ us, Runs.Reaches (Step ops env) (Label.Allows fun _ _ => True) ⟨s,ts⟩ ⟨(ops c).final s,us⟩ :=
  ⟨_,Pool.call_trace ops env s ts c⟩

lemma Interleaved.final {ops : ι → Prog S α} {env : S → S → Prop} {s₀ s : S} {ts : List (Thread ι S α)}
    (h : Interleaved ops env (fun _ _ => True) s₀ ⟨s,ts⟩) (c : ι) :
    ∃ us, Interleaved ops env (fun _ _ => True) s₀ ⟨(ops c).final s,us⟩ :=
  (Pool.final ops env s ts c).imp fun _ => h.trans

/-- Calls that carry a mark, such as that they begin after some moment of a run. -/
def marked (ops : ι → Prog S α) (c : ι × Bool) : Prog S α := ops c.1

def Thread.mark (mark : Bool) (t : Thread ι S α) : Thread (ι × Bool) S α :=
  ⟨(t.call,mark),t.start,t.prog,t.own⟩

/-- The pool with this mark on every call under way or ended. -/
def Pool.mark (mark : Bool) (p : Pool ι S α) : Pool (ι × Bool) S α :=
  ⟨p.shared,p.threads.map (Thread.mark mark)⟩

/-- One turn of a schedule: a call starts, or the i-th of those under way acts. -/
inductive Turn (ι : Type)
  | spawn (c : ι)
  | act (i : ℕ)

def Pool.turn (ops : ι → Prog S α) (p : Pool ι S α) : Turn ι → Pool ι S α
  | .spawn c => ⟨p.shared,⟨c,p.shared,ops c,[]⟩ :: p.threads⟩
  | .act i =>
    match p.threads[i]? with
    | some ⟨c,start,.act f next,own⟩ =>
      ⟨f p.shared,p.threads.take i++⟨c,start,next p.shared,own++[(p.shared,f p.shared)]⟩ ::
        p.threads.drop (i+1)⟩
    | _ => p

/-- A schedule, and whether each of its actions passes the check. -/
def Pool.turns (ops : ι → Prog S α) (check : S → S → Bool) : List (Turn ι) → Pool ι S α → Bool × Pool ι S α
  | [],p => (true,p)
  | t :: ts,p =>
    let q := p.turn ops t
    let r := Pool.turns ops check ts q
    (match t with
      | .spawn _ => r.1
      | .act _ => check p.shared q.shared && r.1,r.2)

lemma Interleaved.turn {ops : ι → Prog S α} {env allowed : S → S → Prop} {s : S} {p : Pool ι S α}
    (h : Interleaved ops env allowed s p) (t : Turn ι)
    (ha : ∀ i, t = .act i → allowed p.shared (p.turn ops t).shared) :
    Interleaved ops env allowed s (p.turn ops t) := by
  obtain ⟨shared,threads⟩ := p
  cases t with
  | spawn c => exact h.tail (.spawn c shared threads) trivial
  | act i =>
    have ha := ha i rfl
    rw [Pool.turn] at ha ⊢
    split at ha
    · rename_i c start f next own hi
      obtain ⟨hlt,hget⟩ := List.getElem?_eq_some_iff.mp hi
      have hsplit : threads = threads.take i++⟨c,start,.act f next,own⟩ :: threads.drop (i+1) := by
        rw [← hget,List.getElem_cons_drop,List.take_append_drop]
      rw [hsplit] at h
      exact h.tail (.act c shared start f next own _ _) ha
    · exact h

/-- A schedule whose actions all pass is a run. -/
lemma Interleaved.turns {ops : ι → Prog S α} {env allowed : S → S → Prop} {check : S → S → Bool}
    (hcheck : ∀ a b, check a b = true → allowed a b) {s : S} (ts : List (Turn ι)) :
    ∀ {p : Pool ι S α}, Interleaved ops env allowed s p → (p.turns ops check ts).1 = true →
      Interleaved ops env allowed s (p.turns ops check ts).2 := by
  induction ts with
  | nil => exact fun h _ => h
  | cons t ts ih =>
    intro p h hok
    cases t with
    | spawn c => exact ih (h.turn (.spawn c) fun _ he => by cases he) hok
    | act i =>
      obtain ⟨hc,hok⟩ := Bool.and_eq_true_iff.mp hok
      exact ih (h.turn (.act i) fun _ _ => hcheck _ _ hc) hok

/-- What is known of a call: where it started, its own actions and what it still does. -/
structure Known (R : Rules S) (G : ι → S → S → S → Prop)
    (Q : ι → S → α → List (S × S) → S → Prop) (s : S) (t : Thread ι S α) : Prop where
  start : R.rely t.start s
  own : ∀ q ∈ t.own, G t.call t.start q.1 q.2
  meets : Meets R (G t.call t.start) (Q t.call t.start) t.prog t.own s

lemma Known.rely {G : ι → S → S → S → Prop} {Q : ι → S → α → List (S × S) → S → Prop} {s s' : S}
    {t : Thread ι S α} (h : Known R G Q s t) (hs : R.rely s s') : Known R G Q s' t :=
  ⟨R.trans h.start hs,h.own,h.meets.rely hs⟩

/-- When every call meets its part and every part is something the others rely on, what is
known of the calls under way stays known. -/
theorem knownFrom {ops : ι → Prog S α} {env : S → S → Prop} {p p' : Pool ι S α}
    (h : Runs.Reaches (Step ops env) (Label.Allows R.allowed) p p') (G : ι → S → S → S → Prop)
    (Q : ι → S → α → List (S × S) → S → Prop) (henv : ∀ a b, env a b → R.rely a b)
    (hG : ∀ c a b b', G c a b b' → R.rely b b')
    (hops : ∀ c a, R.rely p.shared a → Meets R (G c a) (Q c a) (ops c) [] a)
    (hp : ∀ t ∈ p.threads, Known R G Q p.shared t) :
    R.rely p.shared p'.shared ∧ ∀ t ∈ p'.threads, Known R G Q p'.shared t := by
  refine h.invariant (I := fun q => R.rely p.shared q.shared ∧
    ∀ t ∈ q.threads, Known R G Q q.shared t) ⟨R.refl _,hp⟩ ?_
  intro a l b ⟨hs,hk⟩ hstep hl
  cases hstep with
  | spawn c a ts =>
    refine ⟨hs,fun t ht => ?_⟩
    rcases List.mem_cons.mp ht with rfl | ht
    · exact ⟨R.refl a,by simp,hops c a hs⟩
    · exact hk t ht
  | act c a start f next own ts us =>
    obtain ⟨h1,h2,h3⟩ := hk ⟨c,start,.act f next,own⟩ (by simp)
    obtain ⟨hg,hm⟩ := h3 a (R.refl a) hl
    have hr := hG c start a (f a) hg
    have hold : ∀ t ∈ ts++us, Known R G Q (f a) t := fun t ht =>
      (hk t (List.mem_append.mpr ((List.mem_append.mp ht).imp_right (List.mem_cons_of_mem _)))).rely hr
    refine ⟨R.trans hs hr,fun t ht => ?_⟩
    rcases List.mem_append.mp ht with ht | ht
    · exact hold t (List.mem_append_left _ ht)
    rcases List.mem_cons.mp ht with rfl | ht
    · refine ⟨R.trans h1 hr,fun q hq => ?_,hm⟩
      rcases List.mem_append.mp hq with hq | hq
      · exact h2 q hq
      · rw [List.mem_singleton.mp hq]
        exact hg
    · exact hold t (List.mem_append_right _ ht)
  | die a t ts us =>
    refine ⟨hs,fun u hu => hk u ?_⟩
    exact List.mem_append.mpr ((List.mem_append.mp hu).imp_right (List.mem_cons_of_mem _))
  | outside a b ts he => exact ⟨R.trans hs (henv a b he),fun t ht => (hk t ht).rely (henv a b he)⟩

/-- So it is known of every interleaving of any number of calls. -/
theorem Interleaved.known {ops : ι → Prog S α} {env : S → S → Prop} {s : S} {p : Pool ι S α}
    (h : Interleaved ops env R.allowed s p) (G : ι → S → S → S → Prop)
    (Q : ι → S → α → List (S × S) → S → Prop) (henv : ∀ a b, env a b → R.rely a b)
    (hG : ∀ c a b b', G c a b b' → R.rely b b')
    (hops : ∀ c a, R.rely s a → Meets R (G c a) (Q c a) (ops c) [] a) :
    R.rely s p.shared ∧ ∀ t ∈ p.threads, Known R G Q p.shared t :=
  knownFrom h G Q henv hG hops (by simp)

/-- The shared state has only gone on from what a call left when it acted. -/
theorem Interleaved.seen {ops : ι → Prog S α} {env : S → S → Prop} {s : S} {p : Pool ι S α}
    (h : Interleaved ops env R.allowed s p) (G : ι → S → S → S → Prop)
    (Q : ι → S → α → List (S × S) → S → Prop) (henv : ∀ a b, env a b → R.rely a b)
    (hG : ∀ c a b b', G c a b b' → R.rely b b')
    (hops : ∀ c a, R.rely s a → Meets R (G c a) (Q c a) (ops c) [] a) :
    ∀ t ∈ p.threads, ∀ q ∈ t.own, R.rely q.2 p.shared := by
  refine Runs.Reaches.invariant_reached (I := fun p => ∀ t ∈ p.threads, ∀ q ∈ t.own, R.rely q.2 p.shared)
    h (by simp) ?_
  intro a l b hr ih hstep hl
  have hk := Interleaved.known hr G Q henv hG hops
  cases hstep with
  | spawn c a ts => exact List.forall_mem_cons.mpr ⟨by simp,ih⟩
  | act c a start f next own ts us =>
    have hm := (hk.2 ⟨c,start,.act f next,own⟩ (by simp)).meets
    have hact := hG c start a (f a) (hm a (R.refl a) hl).1
    have hold : ∀ t ∈ ts++⟨c,start,.act f next,own⟩ :: us, ∀ q ∈ t.own, R.rely q.2 (f a) :=
      fun t ht q hq => R.trans (ih t ht q hq) hact
    obtain ⟨hts,hus⟩ := List.forall_mem_append.mp hold
    obtain ⟨hown,hus⟩ := List.forall_mem_cons.mp hus
    refine List.forall_mem_append.mpr ⟨hts,List.forall_mem_cons.mpr ⟨?_,hus⟩⟩
    exact List.forall_mem_append.mpr ⟨hown,List.forall_mem_singleton.mpr (R.refl _)⟩
  | die a t ts us =>
    obtain ⟨hts,hus⟩ := List.forall_mem_append.mp ih
    exact List.forall_mem_append.mpr ⟨hts,(List.forall_mem_cons.mp hus).2⟩
  | outside a b ts he => exact fun t ht q hq => R.trans (ih t ht q hq) (henv a b he)

/-- A call that is started and then alone in acting is the first thread. -/
lemma Pool.turns_head (ops : ι → Prog S α) (check : S → S → Bool) (c : ι) (n : ℕ) (p : Pool ι S α) :
    ∃ t ∈ (p.turns ops check (.spawn c :: List.replicate n (.act 0))).2.threads.head?, t.call = c := by
  have hacts : ∀ (n : ℕ) (p : Pool ι S α), (∃ t ∈ p.threads.head?, t.call = c) →
      ∃ t ∈ (p.turns ops check (List.replicate n (.act 0))).2.threads.head?, t.call = c := by
    intro n
    induction n with
    | zero => exact fun p h => h
    | succ n ih =>
      intro p ⟨t,ht,hc⟩
      refine ih _ ?_
      obtain ⟨s,ts⟩ := p
      obtain ⟨us,rfl⟩ := List.head?_eq_some_iff.mp ht
      obtain ⟨_,start,prog,own⟩ := t
      cases prog with
      | ret a => exact ⟨_,rfl,hc⟩
      | act f next => exact ⟨_,rfl,hc⟩
  exact hacts n _ ⟨_,rfl,rfl⟩

end Interleaving
