import Mathlib.Data.List.Basic
import Mathlib.Tactic.Linarith

/-! Typed brackets around string literals: the texts in which they match, with a bound on how
deep they nest, and the scanner that finds a matching bracket with a stack. -/
namespace Brackets

/-- The characters a scanner looks at: quote and escape, and each opening bracket's own closing
one. -/
structure Lexis (α : Type) where
  quote : α
  escape : α
  closing : α → Option α
  isClosing : α → Bool
  quote_ne_escape : quote ≠ escape
  closing_quote : closing quote = none
  closing_ok : ∀ {o c}, closing o = some c → isClosing c = true ∧ closing c = none ∧ c ≠ quote

structure Scanner (α : Type) where
  stack : List α
  inString : Bool
  escaped : Bool

inductive Fault | deep | mismatch
  deriving DecidableEq

variable {α : Type}

/-- What follows the quote that opens a literal, up to the one that closes it. -/
inductive Literal (L : Lexis α) : List α → Prop
  | close : Literal L [L.quote]
  | escape {c s} : Literal L s → Literal L (L.escape :: c :: s)
  | char {c s} : c ≠ L.escape → c ≠ L.quote → Literal L s → Literal L (c :: s)

/-- Texts whose brackets match, nested at most `d` deep. -/
inductive Balanced (L : Lexis α) : ℕ → List α → Prop
  | nil {d} : Balanced L d []
  | char {d c s} : c ≠ L.quote → L.closing c = none → L.isClosing c = false → Balanced L d s →
      Balanced L d (c :: s)
  | literal {d t s} : Literal L t → Balanced L d s → Balanced L d (L.quote :: (t++s))
  | group {d o t c s} : L.closing o = some c → Balanced L d t → Balanced L (d+1) s →
      Balanced L (d+1) (o :: (t++c :: s))

variable [DecidableEq α] {L : Lexis α} {limit : ℕ}

/-- One character, with at most `limit` brackets open. Nothing is read once the stack is
empty. -/
def Scanner.step (L : Lexis α) (limit : ℕ) (s : Scanner α) (c : α) : Except Fault (Scanner α) :=
  match s.stack with
  | [] => .error .mismatch
  | o :: rest =>
    if s.inString then
      if s.escaped then .ok { s with escaped := false }
      else if c = L.escape then .ok { s with escaped := true }
      else if c = L.quote then .ok { s with inString := false }
      else .ok s
    else if c = L.quote then .ok { s with inString := true }
    else if (L.closing c).isSome then
      if limit ≤ s.stack.length then .error .deep else .ok { s with stack := c :: s.stack }
    else if L.isClosing c then
      if L.closing o = some c then .ok { s with stack := rest } else .error .mismatch
    else .ok s

def Scanner.run (L : Lexis α) (limit : ℕ) (s : Scanner α) (x : List α) :
    Except Fault (Scanner α) := x.foldlM (Scanner.step L limit) s

namespace Scanner

/-- Outside a literal, with these brackets open. -/
abbrev between (st : List α) : Scanner α := ⟨st,false,false⟩

section Steps

variable {s t : Scanner α} {c o : α} {x st : List α}

@[simp] lemma run_nil : run L limit s [] = .ok s := rfl

lemma run_cons : run L limit s (c :: x) = (step L limit s c).bind fun t => run L limit t x := rfl

lemma run_cons_ok (h : step L limit s c = .ok t) : run L limit s (c :: x) = run L limit t x := by
  rw [run_cons,h]
  rfl

lemma run_cons_eq_ok {u : Scanner α} (h : run L limit s (c :: x) = .ok u) :
    ∃ t, step L limit s c = .ok t ∧ run L limit t x = .ok u := by
  rw [run_cons] at h
  cases hs : step L limit s c with
  | error e =>
    rw [hs] at h
    cases h
  | ok t =>
    rw [hs] at h
    exact ⟨t,rfl,h⟩

lemma run_append (y : List α) : run L limit s (x++y) =
    (run L limit s x).bind fun t => run L limit t y := List.foldlM_append ..

lemma step_closed (h : s.stack = []) : step L limit s c = .error .mismatch := by
  rw [step,h]

/-- What the scanner has closed stays closed: it reads nothing more. -/
lemma run_closed (h : s.stack = []) (hr : run L limit s x = .ok t) : x = [] ∧ t = s := by
  cases x with
  | nil =>
    cases hr
    exact ⟨rfl,rfl⟩
  | cons c x =>
    obtain ⟨u,hu,-⟩ := run_cons_eq_ok hr
    rw [step_closed h] at hu
    cases hu

lemma step_quote : step L limit (between (o :: st)) L.quote = .ok ⟨o :: st,true,false⟩ := by
  simp [step]

lemma step_char (hq : c ≠ L.quote) (ho : L.closing c = none) (hc : L.isClosing c = false) :
    step L limit (between (o :: st)) c = .ok (between (o :: st)) := by
  simp [step,hq,ho,hc]

lemma step_open {p : α} (h : L.closing c = some p) (hl : (o :: st).length < limit) :
    step L limit (between (o :: st)) c = .ok (between (c :: o :: st)) := by
  have hq : c ≠ L.quote := by
    rintro rfl
    rw [L.closing_quote] at h
    cases h
  simp only [step,if_neg hq,h,Option.isSome_some,if_true,if_neg (Nat.not_le_of_lt hl)]
  rfl

lemma step_close (h : L.closing o = some c) :
    step L limit (between (o :: st)) c = .ok (between st) := by
  obtain ⟨hc,hn,hq⟩ := L.closing_ok h
  simp [step,hq,hn,hc,h]

end Steps

section Matching

variable {st x r t : List α} {s : Scanner α} {o : α} {d : ℕ}

lemma run_literal (h : Literal L t) (r : List α) :
    run L limit ⟨o :: st,true,false⟩ (t++r) = run L limit (between (o :: st)) r := by
  induction h with
  | close => exact run_cons_ok (by simp [step,L.quote_ne_escape])
  | @escape c s _ ih =>
    rw [List.cons_append,run_cons_ok (t := ⟨o :: st,true,true⟩) (by simp [step])]
    rw [List.cons_append,run_cons_ok (t := ⟨o :: st,true,false⟩) (by simp [step])]
    exact ih
  | @char c s he hq _ ih =>
    rw [List.cons_append,run_cons_ok (t := ⟨o :: st,true,false⟩) (by simp [step,he,hq])]
    exact ih

/-- A balanced text leaves the scanner as it was. -/
theorem run_balanced (h : Balanced L d t) (hd : (o :: st).length+d ≤ limit) (r : List α) :
    run L limit (between (o :: st)) (t++r) = run L limit (between (o :: st)) r := by
  induction h generalizing o st r with
  | nil => rfl
  | char hq ho hc _ ih =>
    rw [List.cons_append,run_cons_ok (step_char hq ho hc)]
    exact ih hd r
  | literal hl _ ih =>
    rw [List.cons_append,run_cons_ok step_quote,List.append_assoc,run_literal hl]
    exact ih hd r
  | @group d p t c s hp _ _ iht ihs =>
    have hl : (p :: o :: st).length+d ≤ limit := by
      simp only [List.length_cons] at hd ⊢
      omega
    rw [List.cons_append,run_cons_ok (step_open hp (by simp only [List.length_cons] at hl ⊢; omega)),
      List.append_assoc,iht hl,List.cons_append,run_cons_ok (step_close hp)]
    exact ihs hd r

/-- Inside a literal the stack does not move, so a run that takes brackets off ends the literal. -/
lemma literal_of_run {n : ℕ} (hn : x.length ≤ n) (h : run L limit ⟨o :: st,true,false⟩ x = .ok s)
    (hs : s.stack.length ≤ st.length) :
    ∃ t r, x = t++r ∧ Literal L t ∧ run L limit (between (o :: st)) r = .ok s := by
  induction n generalizing x with
  | zero =>
    rw [List.length_eq_zero_iff.mp (Nat.le_zero.mp hn)] at h
    cases h
    simp at hs
  | succ n ih =>
    cases x with
    | nil =>
      cases h
      simp at hs
    | cons c x =>
      have hx : x.length ≤ n := by simpa using hn
      obtain ⟨u,hu,hr⟩ := run_cons_eq_ok h
      by_cases he : c = L.escape
      · -- the next character, whatever it is, belongs to the escape
        subst he
        have hu' : u = ⟨o :: st,true,true⟩ := by simpa [step,eq_comm] using hu
        subst hu'
        cases x with
        | nil =>
          cases hr
          simp at hs
        | cons c x =>
          obtain ⟨v,hv,hr⟩ := run_cons_eq_ok hr
          have hv' : v = ⟨o :: st,true,false⟩ := by simpa [step,eq_comm] using hv
          subst hv'
          obtain ⟨t,r,rfl,ht,hrun⟩ := ih (by simp only [List.length_cons] at hx; omega) hr
          exact ⟨L.escape :: c :: t,r,rfl,ht.escape,hrun⟩
      · by_cases hq : c = L.quote
        · subst hq
          have hu' : u = between (o :: st) := by simpa [step,L.quote_ne_escape,eq_comm] using hu
          subst hu'
          exact ⟨[L.quote],x,rfl,Literal.close,hr⟩
        · have hu' : u = ⟨o :: st,true,false⟩ := by simpa [step,he,hq,eq_comm] using hu
          subst hu'
          obtain ⟨t,r,rfl,ht,hrun⟩ := ih hx hr
          exact ⟨c :: t,r,rfl,ht.char he hq,hrun⟩

/-- A run that takes the innermost open bracket off has read a balanced text and its closing
bracket. The induction is on the length, as the text after a group is not a part of the group. -/
theorem balanced_of_run {n : ℕ} (hn : x.length ≤ n)
    (h : run L limit (between (o :: st)) x = .ok s) (hs : s.stack.length ≤ st.length) :
    ∃ t c r, x = t++c :: r ∧ L.closing o = some c ∧ Balanced L (limit-(o :: st).length) t ∧
      run L limit (between st) r = .ok s := by
  induction n generalizing x o st with
  | zero =>
    rw [List.length_eq_zero_iff.mp (Nat.le_zero.mp hn)] at h
    cases h
    simp at hs
  | succ n ih =>
    cases x with
    | nil =>
      cases h
      simp at hs
    | cons y x =>
      have hx : x.length ≤ n := by simpa using hn
      obtain ⟨u,hu,hr⟩ := run_cons_eq_ok h
      by_cases hq : y = L.quote
      · subst hq
        rw [step_quote] at hu
        cases hu
        obtain ⟨l,x',rfl,hl,hr'⟩ := literal_of_run le_rfl hr hs
        obtain ⟨t,c,r,rfl,hc,ht,hrun⟩ := ih (by simp only [List.length_append] at hx; omega) hr' hs
        exact ⟨L.quote :: (l++t),c,r,by simp,hc,ht.literal hl,hrun⟩
      cases ho : L.closing y with
      | some p =>
        have hlt : (o :: st).length < limit := by
          by_contra hle
          simp only [step,if_neg hq,ho,Option.isSome_some,if_true,
            if_pos (Nat.le_of_not_lt hle)] at hu
          cases hu
        rw [step_open ho hlt] at hu
        cases hu
        obtain ⟨g,c,x',rfl,hc,hg,hr'⟩ := ih hx hr (hs.trans (Nat.le_succ _))
        obtain ⟨t,e,r,rfl,he,ht,hrun⟩ := ih (by simp only [List.length_append,List.length_cons] at hx; omega) hr' hs
        have hd : limit-(o :: st).length = limit-(y :: o :: st).length+1 := by
          simp only [List.length_cons] at hlt ⊢
          omega
        rw [hd] at ht ⊢
        exact ⟨y :: (g++c :: t),e,r,by simp,he,hg.group hc ht,hrun⟩
      | none =>
        cases hc : L.isClosing y with
        | true =>
          have hm : L.closing o = some y := by
            by_contra hm
            simp [step,hq,ho,hc,hm] at hu
          rw [step_close hm] at hu
          cases hu
          exact ⟨[],y,x,rfl,hm,Balanced.nil,hr⟩
        | false =>
          rw [step_char hq ho hc] at hu
          cases hu
          obtain ⟨t,c,r,rfl,hcl,ht,hrun⟩ := ih hx hr hs
          exact ⟨y :: t,c,r,rfl,hcl,ht.char hq ho hc,hrun⟩

/-- The scanner closes a bracket exactly at the one that matches it. -/
theorem run_closes_iff (hl : 0 < limit) : run L limit (between [o]) x = .ok s ∧ s.stack = [] ↔
    s = between [] ∧ ∃ t c, x = t++[c] ∧ L.closing o = some c ∧ Balanced L (limit-1) t := by
  constructor
  · rintro ⟨h,hs⟩
    obtain ⟨t,c,r,rfl,hc,ht,hr⟩ := balanced_of_run le_rfl h (by simp [hs])
    obtain ⟨rfl,rfl⟩ := run_closed rfl hr
    exact ⟨rfl,t,c,rfl,hc,ht⟩
  · rintro ⟨rfl,t,c,rfl,hc,ht⟩
    refine ⟨?_,rfl⟩
    rw [run_balanced ht (by simp only [List.length_singleton]; omega),run_cons_ok (step_close hc)]
    rfl

end Matching

section Completion

variable {s t : Scanner α} {c o : α} {x st : List α}

/-- What a run of the scanner keeps: only opening brackets are open, and only in a literal is
anything escaped. -/
def Sound (L : Lexis α) (s : Scanner α) : Prop :=
  (∀ o ∈ s.stack, (L.closing o).isSome) ∧ (s.inString = false → s.escaped = false)

lemma Sound.step (hs : Sound L s) (h : step L limit s c = .ok t) : Sound L t := by
  obtain ⟨st,i,e⟩ := s
  obtain ⟨hst,hesc⟩ := hs
  cases st with
  | nil => cases h
  | cons o rest =>
    rw [Scanner.step] at h
    dsimp only at hst hesc h
    split_ifs at h with hin hes hc hq hq ho hd hcl hm
    all_goals cases h
    · exact ⟨hst,fun hf => absurd (hin.symm.trans hf) Bool.noConfusion⟩
    · exact ⟨hst,fun hf => absurd (hin.symm.trans hf) Bool.noConfusion⟩
    · exact ⟨hst,fun _ => Bool.eq_false_iff.mpr hes⟩
    · exact ⟨hst,fun hf => absurd (hin.symm.trans hf) Bool.noConfusion⟩
    · exact ⟨hst,fun _ => hesc (Bool.eq_false_iff.mpr hin)⟩
    · refine ⟨fun p hp => ?_,hesc⟩
      rcases List.mem_cons.mp hp with rfl | hp
      · exact ho
      · exact hst p hp
    · exact ⟨fun p hp => hst p (List.mem_cons_of_mem _ hp),hesc⟩
    · exact ⟨hst,hesc⟩

lemma Sound.run (hs : Sound L s) (h : run L limit s x = .ok t) : Sound L t := by
  induction x generalizing s with
  | nil =>
    cases h
    exact hs
  | cons c x ih =>
    obtain ⟨u,hu,hr⟩ := run_cons_eq_ok h
    exact ih (hs.step hu) hr

/-- A literal can be ended. -/
lemma literal_ends (hs : Sound L s) (hst : s.stack ≠ []) :
    ∃ z, run L limit s z = .ok (between s.stack) := by
  obtain ⟨st,i,e⟩ := s
  cases st with
  | nil => exact absurd rfl hst
  | cons o st =>
    cases i with
    | false =>
      obtain rfl : e = false := hs.2 rfl
      exact ⟨[],rfl⟩
    | true =>
      have hlast : run L limit ⟨o :: st,true,false⟩ [L.quote] = .ok (between (o :: st)) :=
        run_cons_ok (by simp [Scanner.step,L.quote_ne_escape])
      cases e with
      | false => exact ⟨[L.quote],hlast⟩
      | true =>
        refine ⟨[L.quote,L.quote],?_⟩
        rw [run_cons_ok (t := ⟨o :: st,true,false⟩) (by simp [Scanner.step]),hlast]

/-- Open brackets can be closed. -/
lemma brackets_close (h : ∀ o ∈ st, (L.closing o).isSome) :
    ∃ z, run L limit (between st) z = .ok (between []) := by
  induction st with
  | nil => exact ⟨[],rfl⟩
  | cons o st ih =>
    obtain ⟨c,hc⟩ := Option.isSome_iff_exists.mp (h o (List.mem_cons_self ..))
    obtain ⟨z,hz⟩ := ih fun p hp => h p (List.mem_cons_of_mem _ hp)
    exact ⟨c :: z,by rw [run_cons_ok (step_close hc),hz]⟩

/-- A text that leaves brackets open is the beginning of one that closes them. -/
theorem run_completes (hs : Sound L s) (h : run L limit s x = .ok t) (ht : t.stack ≠ []) :
    ∃ z, run L limit s (x++z) = .ok (between []) := by
  have hsound : Sound L t := hs.run h
  have hliteral : ∃ y, run L limit t y = .ok (between t.stack) := literal_ends hsound ht
  have hbrackets : ∃ z, run L limit (between t.stack) z = .ok (between []) := brackets_close hsound.1
  obtain ⟨y,hy⟩ := hliteral
  obtain ⟨z,hz⟩ := hbrackets
  refine ⟨y++z,?_⟩
  rw [run_append,h,← hz,← List.append_nil z]
  change run L limit t (y++(z++[])) = _
  rw [run_append,hy,List.append_nil]
  rfl

end Completion

end Scanner

end Brackets
