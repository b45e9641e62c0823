import Stele.Lib.Interleaving

/-! A loop that runs one program for each element of a list, and what its actions say of the pass
of each element, whatever others do in between. -/
namespace Interleaving

variable {S α β ε : Type} {R : Rules S} {G : S → S → Prop}

instance : LawfulMonad (Prog S) := by
  refine LawfulMonad.mk' (Prog S) (fun p => ?_) (fun _ _ => rfl) fun p k l => ?_
  · change p.bind (fun a => .ret a) = p
    induction p with
    | ret a => rfl
    | act f next ih => exact congrArg (Prog.act f) (funext ih)
  · change (p.bind k).bind l = p.bind fun a => (k a).bind l
    induction p with
    | ret a => rfl
    | act f next ih => exact congrArg (Prog.act f) (funext ih)

/-- These actions are all that p does, and it returns `a`. -/
def Prog.Took : Prog S α → List (S × S) → α → Prop
  | .ret b,own,a => own = [] ∧ b = a
  | .act f next,own,a => ∃ s rest, own = (s,f s) :: rest ∧ (next s).Took rest a

namespace Prog

/-- A program that returned after these actions took no more. -/
lemma took_unique {p : Prog S α} {own more : List (S × S)} {a b : α} (h : p.Took own a)
    (h' : p.Took (own++more) b) : more = [] ∧ a = b := by
  induction p generalizing own with
  | ret c =>
    obtain ⟨rfl,rfl⟩ := h
    exact h'
  | act f next ih =>
    obtain ⟨s,rest,rfl,h⟩ := h
    obtain ⟨t,rest',heq,h'⟩ := h'
    obtain ⟨hq,rfl⟩ := List.cons.inj heq
    obtain rfl := (Prod.mk.inj hq).1
    exact ih s h h'

/-- Actions that begin like those of the program alone are those, with its result. -/
lemma took_trace {p : Prog S α} {s : S} {own rest more : List (S × S)} {a : α} (h : p.Took own a)
    (heq : own++rest = p.trace s++more) : own = p.trace s ∧ a = (p.run s).1 := by
  induction p generalizing own s with
  | ret c => exact ⟨h.1,h.2.symm⟩
  | act f next ih =>
    obtain ⟨t,own',rfl,h⟩ := h
    obtain ⟨hq,heq⟩ := List.cons.inj heq
    obtain rfl := (Prod.mk.inj hq).1
    obtain ⟨hown,ha⟩ := ih t h heq
    exact ⟨congrArg ((t,f t) :: ·) hown,ha⟩

end Prog

/-- The own actions are those that the program took. -/
lemma Meets.took {Q : α → List (S × S) → S → Prop} {p : Prog S α} {own : List (S × S)} {s : S}
    (h : Meets R G Q p own s) :
    Meets R G (fun a own' t => Q a own' t ∧ ∃ mine, own' = own++mine ∧ p.Took mine a) p own s := by
  induction p generalizing own s with
  | ret a => exact fun t ht => ⟨h t ht,[],(List.append_nil own).symm,rfl,rfl⟩
  | act f next ih =>
    intro t ht ha
    obtain ⟨hg,hm⟩ := h t ht ha
    refine ⟨hg,(ih t hm).mono ?_⟩
    rintro a own' u ⟨hq,mine,rfl,hmine⟩
    exact ⟨hq,(t,f t) :: mine,by simp,t,mine,rfl,hmine⟩

/-- for a in as: the results, in order; the program of an element may depend on its place. -/
def each (f : ℕ → α → ExceptT ε (Prog S) β) : ℕ → List α → ExceptT ε (Prog S) (List β)
  | _,[] => pure []
  | i,a :: as => do
    let b ← f i a
    let bs ← each f (i+1) as
    return b :: bs

/-- The pass of one element: its place, what its program did and what came of it. -/
structure Pass (S ε α β : Type) where
  place : ℕ
  elem : α
  own : List (S × S)
  result : Except ε β

/-- The passes of a run of the loop, which ends with the first one that raises. -/
inductive Passes (f : ℕ → α → ExceptT ε (Prog S) β) :
    ℕ → List α → List (Pass S ε α β) → Except ε (List β) → Prop
  | done (i : ℕ) : Passes f i [] [] (.ok [])
  | raised {i : ℕ} {a : α} {as : List α} {own : List (S × S)} {e : ε}
    (h : (f i a).run.Took own (.error e)) : Passes f i (a :: as) [⟨i,a,own,.error e⟩] (.error e)
  | next {i : ℕ} {a : α} {as : List α} {own : List (S × S)} {b : β} {us : List (Pass S ε α β)}
    {r : Except ε (List β)} (h : (f i a).run.Took own (.ok b)) (hr : Passes f (i+1) as us r) :
    Passes f i (a :: as) (⟨i,a,own,.ok b⟩ :: us) (r.map fun bs => b :: bs)

/-- The passes of a loop that runs alone. -/
def passesAlone (f : ℕ → α → ExceptT ε (Prog S) β) : ℕ → List α → S → List (Pass S ε α β)
  | _,[],_ => []
  | i,a :: as,s =>
    ⟨i,a,(f i a).run.trace s,((f i a).run.run s).1⟩ :: match ((f i a).run.run s).1 with
      | .ok _ => passesAlone f (i+1) as ((f i a).run.run s).2
      | .error _ => []

namespace Passes

variable {f : ℕ → α → ExceptT ε (Prog S) β} {i : ℕ} {as : List α} {us : List (Pass S ε α β)}
  {r : Except ε (List β)} {bs : List β}

/-- The passes are those of the first elements. -/
lemma elems (h : Passes f i as us r) : us.map Pass.elem <+: as := by
  induction h with
  | done i => exact List.prefix_rfl
  | raised h => exact ⟨_,rfl⟩
  | next h _ ih => exact (List.prefix_cons_inj _).mpr ih

/-- A loop that ends gave every element its pass, and none of them raised. -/
lemma ok (h : Passes f i as us (.ok bs)) : us.map Pass.elem = as ∧ us.map Pass.result = bs.map .ok := by
  generalize hr : (Except.ok bs : Except ε (List β)) = r at h
  induction h generalizing bs with
  | done i =>
    obtain rfl := Except.ok.inj hr
    exact ⟨rfl,rfl⟩
  | raised h => cases hr
  | @next i a as own b us r h _ ih =>
    cases r with
    | error e => cases hr
    | ok cs =>
      obtain rfl := Except.ok.inj hr
      obtain ⟨helem,hresult⟩ := ih rfl
      exact ⟨by rw [List.map_cons,helem],by rw [List.map_cons,hresult,List.map_cons]⟩

/-- A loop that no pass stops ends. -/
lemma total (h : Passes f i as us r) (hu : ∀ u ∈ us, ∃ b, u.result = .ok b) : ∃ bs, r = .ok bs := by
  induction h with
  | done i => exact ⟨[],rfl⟩
  | raised h =>
    obtain ⟨b,hb⟩ := hu _ (List.mem_singleton_self _)
    cases hb
  | next h _ ih =>
    obtain ⟨bs,rfl⟩ := ih fun u hm => hu u (List.mem_cons_of_mem _ hm)
    exact ⟨_,rfl⟩

/-- The last pass is the one that stops a loop. -/
lemma stopped (h : Passes f i as us r) {u : Pass S ε α β} (hu : u ∈ us) {e : ε} (he : u.result = .error e) :
    us.getLast? = some u ∧ r = .error e := by
  induction h with
  | done i => cases hu
  | raised h =>
    obtain rfl := List.mem_singleton.mp hu
    exact ⟨rfl,by rw [Except.error.inj he]⟩
  | next h _ ih =>
    rcases List.mem_cons.mp hu with rfl | hu
    · cases he
    · obtain ⟨hlast,rfl⟩ := ih hu
      exact ⟨by rw [List.getLast?_cons,hlast]; rfl,rfl⟩

/-- A loop whose actions are those of the loop alone has the passes of that. -/
lemma alone {s : S} (h : Passes f i as us r) (heq : (us.map Pass.own).flatten = (each f i as).run.trace s) :
    us = passesAlone f i as s := by
  induction h generalizing s with
  | done i => rfl
  | raised h =>
    rw [each,ExceptT.run_bind,Prog.trace_bind] at heq
    obtain ⟨hown,hres⟩ := Prog.took_trace h heq
    rw [passesAlone,← hown,← hres]
  | @next i a as own b us r h _ ih =>
    rw [each,ExceptT.run_bind,Prog.trace_bind] at heq
    obtain ⟨hown,hres⟩ := Prog.took_trace h heq
    rw [List.map_cons,List.flatten_cons,← hown,← hres] at heq
    have hrest : (us.map Pass.own).flatten = _ := List.append_cancel_left heq
    dsimp only at hrest
    rw [ExceptT.run_bind,Prog.trace_bind] at hrest
    rw [passesAlone,← hown,← hres,ih (hrest.trans ?_)]
    cases ((each f (i+1) as).run.run ((f i a).run.run s).2).1 <;> exact List.append_nil _

end Passes

/-- What is known of each pass, and stays known, is known of every pass of a loop. -/
theorem each_meets {I : S → Prop} {P : Pass S ε α β → S → Prop} (hI : ∀ s t, R.rely s t → I s → I t)
    (hG : ∀ s t, G s t → R.allowed s t → R.rely s t) (hP : ∀ u s t, R.rely s t → P u s → P u t)
    {f : ℕ → α → ExceptT ε (Prog S) β}
    (hf : ∀ i a own s, I s → Meets R G (fun r own' t => ∃ mine, own' = own++mine ∧ P ⟨i,a,mine,r⟩ t)
      (f i a).run own s) (as : List α) :
    ∀ {i : ℕ} {own : List (S × S)} {s : S}, I s → Meets R G (fun r own' t => ∃ us, Passes f i as us r ∧
      own' = own++(us.map Pass.own).flatten ∧ ∀ u ∈ us, P u t) (each f i as).run own s := by
  induction as with
  | nil =>
    intro i own s _
    exact fun t _ => ⟨[],.done i,(List.append_nil own).symm,List.forall_mem_nil _⟩
  | cons a as ih =>
    intro i own s hs
    refine Meets.bindExcept ((Meets.reached hG (Meets.took (hf i a own s hs))).mono ?_)
    rintro r own' t ⟨hst,-,⟨mine,rfl,hp⟩,mine',heq,htook⟩
    obtain rfl := List.append_cancel_left heq
    cases r with
    | error e => exact ⟨_,.raised htook,by simp,List.forall_mem_singleton.mpr hp⟩
    | ok b =>
      refine Meets.bindExcept ((Meets.reached hG (ih (hI s t hst hs))).mono ?_)
      rintro r own' u ⟨htu,-,us,hus,rfl,hpu⟩
      have hall : ∀ x ∈ ⟨i,a,mine,.ok b⟩ :: us, P x u :=
        List.forall_mem_cons.mpr ⟨hP _ t u htu hp,hpu⟩
      cases r with
      | error e => exact ⟨_,.next htook hus,by simp,hall⟩
      | ok bs =>
        refine fun v hv => ⟨_,.next htook hus,by simp,fun x hx => ?_⟩
        exact hP x u v hv (hall x hx)

end Interleaving
