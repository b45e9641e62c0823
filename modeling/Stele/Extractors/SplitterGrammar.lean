import Stele.Extractors.SplitterScan

/-! The exports that the splitter accepts, as a grammar, and the scan against it: it gets to the
end of exactly these, finds their elements, and stops in an element exactly where none goes on. -/
namespace Stele.Splitter
open Python (Bytes)
open Brackets (Scanner Balanced)

/-- ws*. -/
def Space (w : Bytes) : Prop := ∀ c ∈ w, c = 32 ∨ c = 10 ∨ c = 13 ∨ c = 9

/-- ws* c ws*. -/
def Around (c : UInt8) (g : Bytes) : Prop := ∃ a b, Space a ∧ Space b ∧ g = a++c :: b

/-- A brace, what it encloses and the brace that matches it: brackets match in kind outside
string literals, and at most 4096 are open at once. -/
def Element (e : Bytes) : Prop := ∃ t, Balanced lexis 4095 t ∧ e = 123 :: (t++[125])

/-- Elements separated by ws* ',' ws*, each with its place when the first byte is at `pos`. -/
inductive Separated : ℕ → List (ℕ × Bytes) → Bytes → Prop
  | nil {pos} : Separated pos [] []
  | one {pos e} : Element e → Separated pos [(pos,e)] e
  | cons {pos e g f es r} : Element e → Around 44 g → Separated (pos+e.length+g.length) (f :: es) r →
      Separated pos ((pos,e) :: f :: es) (e++(g++r))

/-- An export and its elements: ws* '[' ws* (elements) ws* ']' ws*. -/
def Export (es : List (ℕ × Bytes)) (x : Bytes) : Prop :=
  es.length ≤ 1000000 ∧ ∃ o m c, Around 91 o ∧ Separated o.length es m ∧ Around 93 c ∧ x = o++(m++c)

/-- What stands before an element that begins behind the elements `es`: ws* '[' ws* and, behind
the last of them, ws* ',' ws*. -/
def Before (es : List (ℕ × Bytes)) (p : Bytes) : Prop :=
  ∃ o m g, Around 91 o ∧ Separated o.length es m ∧ (if es = [] then g = [] else Around 44 g) ∧
    p = o++(m++g)

/-- The input goes wrong in an element: behind the elements `es` it opens another and holds `w` of
it, with which an element begins, but none begins with `w` and the byte after it. -/
def GoesWrong (x : Bytes) (es : List (ℕ × Bytes)) (w : Bytes) : Prop :=
  es.length ≤ 999999 ∧ ∃ p b c r, Before es p ∧ w = 123 :: b ∧ x = p++(w++c :: r) ∧
    ¬Element w ∧ (∃ z, Element (w++z)) ∧ ∀ z, ¬Element (w++c :: z)

/-- An element, as the scanner finds its end. -/
lemma element_iff {w : Bytes} : Element w ↔ ∃ b sc, w = 123 :: b ∧
    Scanner.run lexis 4096 (Scanner.between [123]) b = .ok sc ∧ sc.stack = [] := by
  constructor
  · rintro ⟨t,ht,rfl⟩
    have h : Scanner.run lexis 4096 (Scanner.between [123]) (t++[125]) = .ok (Scanner.between []) ∧
        (Scanner.between ([] : Bytes)).stack = [] :=
      (Scanner.run_closes_iff (by decide)).mpr ⟨rfl,t,125,rfl,rfl,ht⟩
    exact ⟨t++[125],Scanner.between [],rfl,h⟩
  · rintro ⟨b,sc,rfl,h⟩
    obtain ⟨-,t,c,rfl,hc,ht⟩ := (Scanner.run_closes_iff (by decide)).mp h
    obtain rfl : 125 = c := Option.some.inj hc
    exact ⟨t,ht,rfl⟩

/-- An element can begin with what the scanner gets through. -/
lemma element_begins_iff {b : Bytes} : (∃ z, Element (123 :: b++z)) ↔
    ∃ sc, Scanner.run lexis 4096 (Scanner.between [123]) b = .ok sc := by
  constructor
  · rintro ⟨z,hz⟩
    obtain ⟨b',sc,hb',hrun,-⟩ := element_iff.mp hz
    obtain rfl : b++z = b' := (List.cons.inj hb').2
    rw [Scanner.run_append] at hrun
    cases hb : Scanner.run lexis 4096 (Scanner.between [123]) b with
    | error e =>
      rw [hb] at hrun
      cases hrun
    | ok sc => exact ⟨sc,rfl⟩
  · rintro ⟨sc,h⟩
    by_cases hsc : sc.stack = []
    · exact ⟨[],by rw [List.append_nil]; exact element_iff.mpr ⟨b,sc,rfl,h,hsc⟩⟩
    · have hsound : Scanner.Sound lexis (Scanner.between [123]) := ⟨List.forall_mem_singleton.mpr rfl,fun _ => rfl⟩
      obtain ⟨z,hz⟩ := Scanner.run_completes hsound h hsc
      exact ⟨z,element_iff.mpr ⟨b++z,_,rfl,hz,rfl⟩⟩

/-- No element goes on with the byte at which the scanner of an open one stops. -/
lemma element_stops_iff {b : Bytes} {c : UInt8} :
    (¬Element (123 :: b) ∧ (∃ z, Element (123 :: b++z)) ∧ ∀ z, ¬Element (123 :: b++c :: z)) ↔
    ∃ sc f, Scanner.run lexis 4096 (Scanner.between [123]) b = .ok sc ∧ sc.stack ≠ [] ∧
      sc.step lexis 4096 c = .error f := by
  have hsnoc : ∀ z, 123 :: b++c :: z = 123 :: (b++[c])++z := fun z => by simp
  constructor
  · rintro ⟨hw,hz,hc⟩
    obtain ⟨sc,hb⟩ := element_begins_iff.mp hz
    have hopen : sc.stack ≠ [] := fun h0 => hw (element_iff.mpr ⟨b,sc,rfl,hb,h0⟩)
    cases hs : sc.step lexis 4096 c with
    | error f => exact ⟨sc,f,hb,hopen,hs⟩
    | ok u =>
      have hrun : Scanner.run lexis 4096 (Scanner.between [123]) (b++[c]) = .ok u := by
        rw [Scanner.run_append,hb]
        exact Scanner.run_cons_ok hs
      obtain ⟨z,hz'⟩ := element_begins_iff.mpr ⟨u,hrun⟩
      exact absurd (by rwa [hsnoc]) (hc z)
  · rintro ⟨sc,f,hb,hopen,hs⟩
    refine ⟨fun h => ?_,element_begins_iff.mpr ⟨sc,hb⟩,fun z h => ?_⟩
    · obtain ⟨b',sc',hb',hrun,h0⟩ := element_iff.mp h
      obtain rfl : b = b' := (List.cons.inj hb').2
      obtain rfl : sc = sc' := Except.ok.inj (hb.symm.trans hrun)
      exact hopen h0
    · rw [hsnoc] at h
      obtain ⟨u,hu⟩ := element_begins_iff.mp ⟨z,h⟩
      rw [Scanner.run_append,hb] at hu
      change (sc.step lexis 4096 c).bind _ = _ at hu
      rw [hs] at hu
      cases hu

section Layout

variable {pos : ℕ} {es : List (ℕ × Bytes)} {x e m : Bytes}

/-- The elements lie in the text one behind the other. -/
lemma Separated.slices (h : Separated pos es m) :
    (∀ s ∈ es, pos ≤ s.1 ∧ s.1+s.2.length ≤ pos+m.length ∧ (m.drop (s.1-pos)).take s.2.length = s.2) ∧
      es.Pairwise fun s t => s.1+s.2.length ≤ t.1 := by
  induction h with
  | nil => exact ⟨nofun,List.Pairwise.nil⟩
  | @one pos e _ =>
    refine ⟨fun s hs => ?_,List.pairwise_singleton _ _⟩
    rw [List.mem_singleton] at hs
    subst hs
    simp
  | @cons pos e g f es r _ _ _ ih =>
    refine ⟨fun s hs => ?_,List.pairwise_cons.mpr ⟨fun s hs => ?_,ih.2⟩⟩
    · rcases List.mem_cons.mp hs with rfl | hs
      · simp only [List.length_append]
        refine ⟨le_rfl,by omega,?_⟩
        rw [Nat.sub_self,List.drop_zero,List.take_left']
        rfl
      · obtain ⟨h1,h2,h3⟩ := ih.1 s hs
        simp only [List.length_append]
        refine ⟨by omega,by omega,?_⟩
        have hd : s.1-pos = (e++g).length+(s.1-(pos+e.length+g.length)) := by
          rw [List.length_append]
          omega
        rw [hd,← List.append_assoc,List.drop_append]
        rw [List.drop_eq_nil_of_le (by omega),Nat.add_sub_cancel_left]
        exact h3
    · obtain ⟨h1,-,-⟩ := ih.1 s hs
      dsimp only
      omega

/-- In a text that the elements lie in, the k-th one is the slice at its offset, and the slices
are disjoint and increasing. -/
lemma slices_within {o c : Bytes} (h : Separated o.length es m) :
    (∀ s ∈ es, s.1+s.2.length ≤ (o++(m++c)).length ∧ ((o++(m++c)).drop s.1).take s.2.length = s.2) ∧
      es.Pairwise fun s t => s.1+s.2.length ≤ t.1 := by
  refine ⟨fun s hs => ?_,h.slices.2⟩
  obtain ⟨h1,h2,h3⟩ := h.slices.1 s hs
  have hl : s.2.length ≤ (m.drop (s.1-o.length)).length := by
    rw [List.length_drop]
    omega
  constructor
  · simp only [List.length_append]
    omega
  · rw [List.drop_append,List.drop_eq_nil_of_le h1,List.nil_append,List.drop_append,List.take_append,
      Nat.sub_eq_zero_of_le hl,List.take_zero,List.append_nil]
    exact h3

lemma Export.slices (h : Export es x) :
    (∀ s ∈ es, s.1+s.2.length ≤ x.length ∧ (x.drop s.1).take s.2.length = s.2) ∧
      es.Pairwise fun s t => s.1+s.2.length ≤ t.1 := by
  obtain ⟨-,o,m,c,-,hm,-,rfl⟩ := h
  exact slices_within hm

lemma Before.slices {p : Bytes} (h : Before es p) (y : Bytes) :
    ∀ s ∈ es, ((p++y).drop s.1).take s.2.length = s.2 := by
  obtain ⟨o,m,g,-,hm,-,rfl⟩ := h
  intro s hs
  rw [List.append_assoc,List.append_assoc]
  exact ((slices_within hm).1 s hs).2

/-- One more element behind a separator. -/
lemma Separated.snoc {g : Bytes} (h : Separated pos es m)
    (hg : if es = [] then g = [] else Around 44 g) (he : Element e) :
    Separated pos (es++[(pos+m.length+g.length,e)]) (m++(g++e)) := by
  induction h with
  | nil =>
    rw [if_pos rfl] at hg
    subst hg
    exact .one he
  | @one pos f hf =>
    rw [if_neg (List.cons_ne_nil _ _)] at hg
    exact .cons hf hg (.one he)
  | @cons pos f g' f' es r hf hg' _ ih =>
    rw [if_neg (List.cons_ne_nil _ _)] at hg ih
    have hpos : pos+f.length+g'.length+r.length+g.length = pos+(f++(g'++r)).length+g.length := by
      simp only [List.length_append]
      omega
    have hs : Separated pos ((pos,f) :: (f' :: es++[(pos+f.length+g'.length+r.length+g.length,e)]))
        (f++(g'++(r++(g++e)))) := .cons hf hg' (ih hg)
    rw [hpos] at hs
    simpa only [List.append_assoc,List.cons_append] using hs

end Layout

section Accepts

variable {pos : ℕ} {s t : Scan} {x y r w g e : Bytes} {c : UInt8} {es : List (ℕ × Bytes)}

lemma Scan.run_cons (h : s.step pos c = .ok t) (x : Bytes) : s.run pos (c :: x) = t.run (pos+1) x := by
  rw [Scan.run,h]

lemma isSpace_eq : isSpace c = true ↔ c = 32 ∨ c = 10 ∨ c = 13 ∨ c = 9 := decide_eq_true_iff

lemma step_space (hp : s.phase ≠ .inside) (hc : isSpace c = true) : s.step pos c = .ok s := by
  rw [Scan.step]
  cases h : s.phase with
  | inside => exact absurd h hp
  | _ => simp only [hc,if_true]

lemma run_space (hp : s.phase ≠ .inside) (hw : Space w) (r : Bytes) :
    s.run pos (w++r) = s.run (pos+w.length) r := by
  induction w generalizing pos with
  | nil => rfl
  | cons c w ih =>
    rw [List.cons_append,Scan.run_cons (step_space hp (isSpace_eq.mpr (hw c (List.mem_cons_self ..)))),
      ih fun d hd => hw d (List.mem_cons_of_mem _ hd),List.length_cons,Nat.add_assoc,Nat.add_comm 1]

/-- A separator: spaces, one byte that moves the parser on, spaces. -/
lemma run_around (hg : Around c g) (hs : s.phase ≠ .inside) (ht : t.phase ≠ .inside)
    (hst : ∀ pos, s.step pos c = .ok t) (r : Bytes) : s.run pos (g++r) = t.run (pos+g.length) r := by
  obtain ⟨a,b,ha,hb,rfl⟩ := hg
  rw [List.append_assoc,run_space hs ha,List.cons_append,Scan.run_cons (hst _),run_space ht hb]
  simp only [List.length_append,List.length_cons]
  congr 1
  omega

/-- Bytes that leave brackets open only add to the element. -/
lemma run_inside (hin : s.phase = .inside) {sc : Scanner UInt8}
    (h : s.scanner.run lexis 4096 x = .ok sc) (hsc : sc.stack ≠ []) (r : Bytes) :
    s.run pos (x++r) = Scan.run (pos+x.length) r { s with scanner := sc, current := s.current++x } := by
  induction x generalizing pos s with
  | nil =>
    cases h
    rw [List.append_nil]
    rfl
  | cons c x ih =>
    obtain ⟨u,hu,hr⟩ := Scanner.run_cons_eq_ok h
    have hne : u.stack ≠ [] := fun h0 => hsc (by rw [(Scanner.run_closed h0 hr).2,h0])
    have hstep : s.step pos c = .ok { s with scanner := u, current := s.current++[c] } := by
      rw [step_inside hin,hu]
      exact if_neg hne
    rw [List.cons_append,Scan.run_cons hstep,
      ih (s := { s with scanner := u, current := s.current++[c] }) hin hr]
    simp only [List.append_assoc,List.singleton_append,List.length_cons]
    congr 1
    omega

lemma Scan.open_ok (hn : s.done.length ≤ 999999) : s.open pos 123 = .ok { s with
    phase := .inside, scanner := Scanner.between [123], offset := pos, current := [123] } := by
  rw [Scan.open,if_neg (not_not_intro rfl),if_neg (by omega)]

/-- A whole element where one is expected. -/
lemma run_element (he : Element e) (hp : s.phase = .firstElement ∨ s.phase = .nextElement)
    (hn : s.done.length ≤ 999999) : ∃ t : Scan, t.phase = .afterElement ∧
      t.done = s.done++[(pos,e)] ∧ ∀ r, s.run pos (e++r) = t.run (pos+e.length) r := by
  obtain ⟨b,hb,rfl⟩ := he
  have hopen : s.step pos 123 = .ok { s with
      phase := .inside, scanner := Scanner.between [123], offset := pos, current := [123] } := by
    have hsp : ¬isSpace 123 = true := by decide
    have h93 : (123 : UInt8) ≠ 93 := by decide
    rw [Scan.step]
    rcases hp with hp | hp
    · rw [hp]
      simp only [if_neg hsp,if_neg h93]
      exact Scan.open_ok hn
    · rw [hp]
      simp only [if_neg hsp]
      exact Scan.open_ok hn
  have hbody : Scanner.run lexis 4096 (Scanner.between [123]) b = .ok (Scanner.between [123]) := by
    have h0 : Scanner.run lexis 4096 (Scanner.between [123]) (b++[]) = .ok (Scanner.between [123]) :=
      Scanner.run_balanced hb (by decide) []
    rwa [List.append_nil] at h0
  have hclose : Scanner.step lexis 4096 (Scanner.between [123]) 125 = .ok (Scanner.between []) :=
    Scanner.step_close rfl
  refine ⟨{ s with
    phase := .afterElement, scanner := Scanner.between [], offset := pos, current := 123 :: b,
    done := s.done++[(pos,123 :: (b++[125]))] },rfl,rfl,fun r => ?_⟩
  rw [List.cons_append,Scan.run_cons hopen,List.append_assoc,run_inside rfl hbody (by decide)]
  have hlast : Scan.step (pos+1+b.length) 125 { s with
      phase := .inside, scanner := Scanner.between [123], offset := pos, current := [123]++b } = .ok
      { s with
        phase := .afterElement, scanner := Scanner.between [], offset := pos, current := 123 :: b,
        done := s.done++[(pos,123 :: (b++[125]))] } := by
    rw [step_inside rfl]
    simp only [hclose,if_true]
    rfl
  rw [List.singleton_append,Scan.run_cons hlast]
  simp only [List.length_cons,List.length_append,List.length_nil]
  congr 1
  omega

lemma run_separated (h : Separated pos es x) (hne : es ≠ [])
    (hp : s.phase = .firstElement ∨ s.phase = .nextElement) (hn : s.done.length+es.length ≤ 1000000) :
    ∃ t : Scan, t.phase = .afterElement ∧ t.done = s.done++es ∧
      ∀ r, s.run pos (x++r) = t.run (pos+x.length) r := by
  induction h generalizing s with
  | nil => exact absurd rfl hne
  | one he =>
    simp only [List.length_singleton] at hn
    exact run_element he hp (by omega)
  | @cons pos e g f es r he hg _ ih =>
    simp only [List.length_cons] at hn
    have hfirst : ∃ u : Scan, u.phase = .afterElement ∧ u.done = s.done++[(pos,e)] ∧
        ∀ r, s.run pos (e++r) = u.run (pos+e.length) r := run_element he hp (by omega)
    obtain ⟨u,hu,hud,hur⟩ := hfirst
    have hcomma : ∀ pos, u.step pos 44 = .ok { u with phase := .nextElement } := fun pos => by
      rw [Scan.step,hu]
      rfl
    obtain ⟨t,ht,htd,htr⟩ := ih (s := { u with phase := .nextElement }) (List.cons_ne_nil _ _) (Or.inr rfl)
      (by simp only [hud,List.length_append,List.length_cons,List.length_nil]; omega)
    refine ⟨t,ht,by rw [htd,hud,List.append_assoc]; rfl,fun z => ?_⟩
    rw [List.append_assoc,hur,List.append_assoc,run_around hg (by rw [hu]; decide) (by simp) hcomma,htr]
    simp only [List.length_append,Nat.add_assoc]

/-- The splitter gets to the end of every export. -/
theorem run_export (h : Export es x) :
    ∃ t : Scan, Scan.initial.run 0 x = .ok t ∧ t.phase = .afterArray ∧ t.done = es := by
  obtain ⟨hn,o,m,c,ho,hm,hc,rfl⟩ := h
  have hopen : ∀ pos, Scan.initial.step pos 91 = .ok { Scan.initial with phase := .firstElement } :=
    fun _ => rfl
  have hclose : ∀ u : Scan, u.phase = .firstElement ∨ u.phase = .afterElement →
      ∀ pos, u.run pos c = .ok { u with phase := .afterArray } := fun u hu pos => by
    have hstep : ∀ pos, u.step pos 93 = .ok { u with phase := .afterArray } := fun pos => by
      rw [Scan.step]
      rcases hu with hu | hu <;> rw [hu] <;> rfl
    have hout : u.phase ≠ .inside := by
      rcases hu with hu | hu <;> rw [hu] <;> decide
    have h0 : u.run pos (c++[]) = .ok { u with phase := .afterArray } :=
      run_around hc hout (by simp) hstep []
    rwa [List.append_nil] at h0
  rw [run_around ho (by decide) (by simp) hopen,Nat.zero_add]
  by_cases hes : es = []
  · subst hes
    cases hm
    exact ⟨_,hclose _ (Or.inl rfl) _,rfl,rfl⟩
  · obtain ⟨t,ht,htd,htr⟩ := run_separated hm hes
      (s := { Scan.initial with phase := .firstElement }) (Or.inl rfl) (by simpa [Scan.initial] using hn)
    rw [htr]
    exact ⟨_,hclose t (Or.inr ht) _,rfl,htd⟩

/-- The splitter is ready for an element wherever one may begin. -/
lemma run_before (h : Before es x) (hn : es.length ≤ 1000000) :
    ∃ t : Scan, (t.phase = .firstElement ∨ t.phase = .nextElement) ∧ t.done = es ∧
      ∀ r, Scan.initial.run 0 (x++r) = t.run x.length r := by
  obtain ⟨o,m,g,ho,hm,hg,rfl⟩ := h
  have hopen : ∀ pos, Scan.initial.step pos 91 = .ok { Scan.initial with phase := .firstElement } :=
    fun _ => rfl
  by_cases hes : es = []
  · subst hes
    cases hm
    rw [if_pos rfl] at hg
    subst hg
    refine ⟨{ Scan.initial with phase := .firstElement },Or.inl rfl,rfl,fun r => ?_⟩
    rw [List.append_nil,List.append_nil,run_around ho (by decide) (by simp) hopen,Nat.zero_add]
  · rw [if_neg hes] at hg
    obtain ⟨t,ht,htd,htr⟩ := run_separated hm hes
      (s := { Scan.initial with phase := .firstElement }) (Or.inl rfl) (by simpa [Scan.initial] using hn)
    have hcomma : ∀ pos, t.step pos 44 = .ok { t with phase := .nextElement } := fun pos => by
      rw [Scan.step,ht]
      rfl
    refine ⟨{ t with phase := .nextElement },Or.inr rfl,htd,fun r => ?_⟩
    rw [List.append_assoc,run_around ho (by decide) (by simp) hopen,Nat.zero_add,List.append_assoc,htr,
      run_around hg (by rw [ht]; decide) (by simp) hcomma]
    simp only [List.length_append,Nat.add_assoc]

/-- A byte behind its beginning `w` with which no element goes on stops the splitter. -/
theorem run_goesWrong (h : GoesWrong x es w) : ∃ e, ∃ t : Scan,
    Scan.initial.run 0 x = .error (e,t) ∧ t.phase = .inside ∧ t.done = es ∧ t.current = w := by
  obtain ⟨hn,p,b,c,r,hp,rfl,rfl,hstop⟩ := h
  obtain ⟨sc,f,hb,hsc,hf⟩ := element_stops_iff.mp hstop
  obtain ⟨t,htp,htd,htr⟩ := run_before hp (by omega)
  have hstart : t.step p.length 123 = .ok { t with
      phase := .inside, scanner := Scanner.between [123], offset := p.length, current := [123] } := by
    rw [Scan.step]
    rcases htp with h | h <;> rw [h] <;> exact Scan.open_ok (by rw [htd]; exact hn)
  rw [htr,List.cons_append,Scan.run_cons hstart,run_inside rfl hb hsc,Scan.run,step_inside rfl]
  dsimp only
  rw [hf]
  exact ⟨_,_,rfl,rfl,htd,rfl⟩

end Accepts

section Layout

variable {x : Bytes} {es : List (ℕ × Bytes)} {s t : Scan} {pre : Bytes} {c : UInt8} {e : String}

lemma Space.snoc {w : Bytes} (hw : Space w) (hc : isSpace c = true) : Space (w++[c]) := fun d hd => by
  rcases List.mem_append.mp hd with hd | hd
  · exact hw d hd
  · rw [List.mem_singleton.mp hd]
    exact isSpace_eq.mp hc

lemma Around.snoc {d : UInt8} {g : Bytes} (hg : Around d g) (hc : isSpace c = true) :
    Around d (g++[c]) := by
  obtain ⟨a,b,ha,hb,rfl⟩ := hg
  exact ⟨a,b++[c],ha,hb.snoc hc,by simp⟩

lemma Before.snoc (h : Before es pre) (hc : isSpace c = true) : Before es (pre++[c]) := by
  obtain ⟨o,m,g,ho,hm,hg,rfl⟩ := h
  by_cases hes : es = []
  · subst hes
    cases hm
    rw [if_pos rfl] at hg
    subst hg
    exact ⟨o++[c],[],[],ho.snoc hc,.nil,by rw [if_pos rfl],by simp⟩
  · rw [if_neg hes] at hg
    exact ⟨o,m,g++[c],ho,hm,by rw [if_neg hes]; exact hg.snoc hc,by simp⟩

lemma run_cons_eq_ok {pos : ℕ} (h : s.run pos (c :: x) = .ok t) :
    ∃ u, s.step pos c = .ok u ∧ u.run (pos+1) x = .ok t := by
  rw [Scan.run] at h
  cases hs : s.step pos c with
  | error e =>
    rw [hs] at h
    cases h
  | ok u =>
    rw [hs] at h
    exact ⟨u,rfl,h⟩

/-- How the bytes read so far lie, by the state of the parser. -/
def Scan.Laid (pre : Bytes) (s : Scan) : Prop :=
  match s.phase with
  | .beforeArray => s.done = [] ∧ Space pre
  | .firstElement => s.done = [] ∧ Before s.done pre
  | .inside => s.done.length ≤ 999999 ∧ ∃ p b, Before s.done p ∧ pre = p++123 :: b ∧
      s.offset = p.length ∧ s.current = 123 :: b ∧ s.scanner.stack ≠ [] ∧
      Scanner.run lexis 4096 (Scanner.between [123]) b = .ok s.scanner
  | .afterElement => s.done ≠ [] ∧ s.done.length ≤ 1000000 ∧ ∃ o m a, Around 91 o ∧
      Separated o.length s.done m ∧ Space a ∧ pre = o++(m++a)
  | .nextElement => s.done ≠ [] ∧ Before s.done pre
  | .afterArray => Export s.done pre

lemma Scan.Laid.open (hs : Before s.done pre) (h : s.open pre.length c = .ok t) :
    t.Laid (pre++[c]) := by
  rw [Scan.open] at h
  by_cases hc : c = 123
  · by_cases hn : s.done.length > 999999
    · rw [if_neg (not_not_intro hc),if_pos hn] at h
      cases h
    · rw [if_neg (not_not_intro hc),if_neg hn] at h
      cases h
      subst hc
      exact ⟨not_lt.mp hn,pre,[],hs,rfl,rfl,rfl,List.cons_ne_nil _ _,rfl⟩
  · rw [if_pos hc] at h
    cases h

lemma Scan.Laid.space (hs : s.Laid pre) (hin : s.phase ≠ .inside) (hc : isSpace c = true) :
    s.Laid (pre++[c]) := by
  rw [Scan.Laid] at hs ⊢
  cases hp : s.phase with
  | inside => exact absurd hp hin
  | beforeArray =>
    rw [hp] at hs
    exact ⟨hs.1,hs.2.snoc hc⟩
  | firstElement =>
    rw [hp] at hs
    exact ⟨hs.1,hs.2.snoc hc⟩
  | nextElement =>
    rw [hp] at hs
    exact ⟨hs.1,hs.2.snoc hc⟩
  | afterElement =>
    rw [hp] at hs
    obtain ⟨hne,hl,o,m,a,ho,hm,ha,rfl⟩ := hs
    exact ⟨hne,hl,o,m,a++[c],ho,hm,ha.snoc hc,by simp⟩
  | afterArray =>
    rw [hp] at hs
    obtain ⟨hl,o,m,d,ho,hm,hd,rfl⟩ := hs
    exact ⟨hl,o,m,d++[c],ho,hm,hd.snoc hc,by simp⟩

/-- A byte of an element: the element is finished exactly with its last bracket. -/
lemma Scan.Laid.inside (hs : s.Laid pre) (hin : s.phase = .inside) (h : s.step pre.length c = .ok t) :
    t.Laid (pre++[c]) := by
  rw [Scan.Laid,hin] at hs
  obtain ⟨hn,p,b,hp,rfl,hoff,hcur,hopen,hrun⟩ := hs
  rw [step_inside hin] at h
  cases hsc : s.scanner.step lexis 4096 c with
  | error f =>
    rw [hsc] at h
    cases h
  | ok sc =>
    have hnext : Scanner.run lexis 4096 (Scanner.between [123]) (b++[c]) = .ok sc := by
      rw [Scanner.run_append,hrun]
      exact Scanner.run_cons_ok hsc
    rw [hsc] at h
    dsimp only at h
    by_cases hst : sc.stack = []
    · rw [if_pos hst] at h
      cases h
      obtain ⟨o,m,g,ho,hm,hg,rfl⟩ := hp
      have he : Element (123 :: (b++[c])) := element_iff.mpr ⟨_,sc,rfl,hnext,hst⟩
      have hplace : s.offset = o.length+m.length+g.length := by
        rw [hoff]
        simp only [List.length_append,Nat.add_assoc]
      have hl : (s.done++[(s.offset,s.current++[c])]).length ≤ 1000000 := by
        rw [List.length_append,List.length_singleton]
        omega
      refine ⟨List.append_ne_nil_of_right_ne_nil _ (List.cons_ne_nil _ _),hl,o,
        m++(g++123 :: (b++[c])),[],ho,?_,List.forall_mem_nil _,?_⟩
      · rw [hcur,hplace]
        exact hm.snoc hg he
      · simp
    · rw [if_neg hst] at h
      cases h
      simp only [Scan.Laid,hin]
      exact ⟨hn,p,b++[c],hp,by simp,hoff,by rw [hcur]; rfl,hst,hnext⟩

/-- One byte keeps the layout. -/
lemma Scan.Laid.step (hs : s.Laid pre) (h : s.step pre.length c = .ok t) : t.Laid (pre++[c]) := by
  by_cases hin : s.phase = .inside
  · exact hs.inside hin h
  by_cases hsp : isSpace c = true
  · obtain rfl : s = t := Except.ok.inj ((step_space hin hsp).symm.trans h)
    exact hs.space hin hsp
  have hout : s.Laid pre := hs
  rw [Scan.Laid] at hs
  rw [Scan.step] at h
  cases hp : s.phase with
  | inside => exact absurd hp hin
  | beforeArray =>
    simp only [hp,if_neg hsp] at h hs
    by_cases hc : c = 91
    · subst hc
      rw [if_neg (not_not_intro rfl)] at h
      cases h
      refine ⟨hs.1,pre++[91],[],[],⟨pre,[],hs.2,List.forall_mem_nil _,rfl⟩,?_,?_,by simp⟩
      · rw [hs.1]
        exact .nil
      · rw [if_pos hs.1]
    · rw [if_pos hc] at h
      cases h
  | firstElement =>
    simp only [hp,if_neg hsp] at h hs
    by_cases hc : c = 93
    · rw [if_pos hc] at h
      cases h
      subst hc
      obtain ⟨hnil,o,m,g,ho,hm,hg,rfl⟩ := hs
      rw [if_pos hnil] at hg
      subst hg
      refine ⟨by rw [hnil]; exact Nat.zero_le _,o,m,[93],ho,hm,?_,by simp⟩
      exact ⟨[],[],List.forall_mem_nil _,List.forall_mem_nil _,rfl⟩
    · rw [if_neg hc] at h
      exact Scan.Laid.open hs.2 h
  | nextElement =>
    simp only [hp,if_neg hsp] at h hs
    exact Scan.Laid.open hs.2 h
  | afterElement =>
    simp only [hp,if_neg hsp] at h hs
    obtain ⟨hne,hl,o,m,a,ho,hm,ha,rfl⟩ := hs
    by_cases h1 : c = 44
    · subst h1
      rw [if_pos rfl] at h
      cases h
      refine ⟨hne,o,m,a++[44],ho,hm,?_,by simp⟩
      rw [if_neg hne]
      exact ⟨a,[],ha,List.forall_mem_nil _,rfl⟩
    · rw [if_neg h1] at h
      by_cases h2 : c = 93
      · rw [if_pos h2] at h
        cases h
        subst h2
        exact ⟨hl,o,m,a++[93],ho,hm,⟨a,[],ha,List.forall_mem_nil _,rfl⟩,by simp⟩
      · rw [if_neg h2] at h
        cases h
  | afterArray =>
    simp only [hp,if_neg hsp] at h
    cases h

lemma Scan.Laid.run (hs : s.Laid pre) (h : s.run pre.length x = .ok t) : t.Laid (pre++x) := by
  induction x generalizing pre s with
  | nil =>
    cases h
    rwa [List.append_nil]
  | cons c x ih =>
    obtain ⟨u,hu,hr⟩ := run_cons_eq_ok h
    have hlen : (pre++[c]).length = pre.length+1 := by simp
    have hl : t.Laid (pre++[c]++x) := ih (hs.step hu) (by rw [hlen]; exact hr)
    rwa [List.append_assoc] at hl

lemma laid_initial : Scan.initial.Laid [] := ⟨rfl,List.forall_mem_nil _⟩

/-- What gets to the end is an export, of the elements that were found. -/
theorem export_of_run (h : Scan.initial.run 0 x = .ok t) (ht : t.phase = .afterArray) :
    Export t.done x := by
  have hl : t.Laid x := laid_initial.run h
  rwa [Scan.Laid,ht] at hl

/-- A scan that stops has kept the layout up to the byte that stops it. -/
lemma Scan.Laid.run_error (hs : s.Laid pre) (h : s.run pre.length x = .error (e,t)) :
    ∃ y c r, x = y++c :: r ∧ t.Laid (pre++y) ∧ t.step (pre++y).length c = .error e := by
  induction x generalizing pre s with
  | nil => cases h
  | cons c x ih =>
    rw [Scan.run] at h
    cases hst : s.step pre.length c with
    | error f =>
      rw [hst] at h
      cases h
      exact ⟨[],c,x,rfl,by rwa [List.append_nil],by rwa [List.append_nil]⟩
    | ok u =>
      rw [hst] at h
      have hlen : (pre++[c]).length = pre.length+1 := by simp
      obtain ⟨y,d,r,rfl,hl,hd⟩ := ih (hs.step hst) (by rw [hlen]; exact h)
      rw [List.append_assoc] at hl hd
      exact ⟨c :: y,d,r,rfl,hl,hd⟩

/-- A scan stops in an element exactly where the input goes wrong in one. -/
theorem goesWrong_iff {w : Bytes} : GoesWrong x es w ↔ ∃ e, ∃ t : Scan,
    Scan.initial.run 0 x = .error (e,t) ∧ t.phase = .inside ∧ t.done = es ∧ t.current = w := by
  refine ⟨run_goesWrong,?_⟩
  rintro ⟨e,t,hrun,hin,rfl,rfl⟩
  obtain ⟨y,c,r,rfl,hl,hstep⟩ := laid_initial.run_error hrun
  rw [List.nil_append,Scan.Laid,hin] at hl
  obtain ⟨hn,p,b,hp,rfl,-,hcur,hopen,hb⟩ := hl
  have hfault : ∃ f, t.scanner.step lexis 4096 c = .error f := by
    rw [step_inside hin] at hstep
    cases hs : t.scanner.step lexis 4096 c with
    | error f => exact ⟨f,rfl⟩
    | ok u =>
      rw [hs] at hstep
      dsimp only at hstep
      split_ifs at hstep
  obtain ⟨f,hf⟩ := hfault
  rw [hcur]
  exact ⟨hn,p,b,c,r,hp,rfl,by simp,element_stops_iff.mpr ⟨t.scanner,f,hb,hopen,hf⟩⟩

end Layout

end Stele.Splitter
