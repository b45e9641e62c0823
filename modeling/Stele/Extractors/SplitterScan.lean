import Stele.Extractors.Splitter
import Stele.Lib.Brackets

/-! The splitter without its buffer: what it makes of its input byte by byte, and that the
machine follows it however the host cuts the reads and the writes. -/
namespace Stele.Splitter
open Python (Bytes)
open Brackets (Scanner Fault)

/-- The characters that `$element_byte` looks at. -/
def lexis : Brackets.Lexis UInt8 where
  quote := 34
  escape := 92
  closing c := if c = 123 then some 125 else if c = 91 then some 93 else none
  isClosing c := decide (c = 125 ∨ c = 93)
  quote_ne_escape := by decide
  closing_quote := by decide
  closing_ok {o c} h := by
    by_cases h1 : o = 123
    · rw [if_pos h1] at h
      cases h
      decide
    · by_cases h2 : o = 91
      · rw [if_neg h1,if_pos h2] at h
        cases h
        decide
      · rw [if_neg h1,if_neg h2] at h
        cases h

/-- The state after a number of bytes: the finished elements, each with its offset, and the
element that is being read. -/
structure Scan where
  phase : Phase
  scanner : Scanner UInt8
  done : List (ℕ × Bytes)
  offset : ℕ
  current : Bytes

def Scan.initial : Scan := ⟨.beforeArray,Scanner.between [],[],0,[]⟩

def faultMessage : Fault → String
  | .deep => "elements are nested more than 4096 levels deep\n"
  | .mismatch => "mismatched bracket inside an element\n"

/-- The byte that opens an element. -/
def Scan.open (pos : ℕ) (c : UInt8) (s : Scan) : Except String Scan :=
  if c ≠ 123 then .error "expected a JSON object as an array element\n"
  else if s.done.length > 999999 then .error "more than 999999 conversations\n"
  else .ok { s with phase := .inside, scanner := Scanner.between [123], offset := pos, current := [123] }

/-- One byte, at this place of the input. -/
def Scan.step (pos : ℕ) (c : UInt8) (s : Scan) : Except String Scan :=
  match s.phase with
  | .inside =>
    match s.scanner.step lexis 4096 c with
    | .error e => .error (faultMessage e)
    | .ok b =>
      if b.stack = [] then
        .ok { s with phase := .afterElement, scanner := b, done := s.done++[(s.offset,s.current++[c])] }
      else .ok { s with scanner := b, current := s.current++[c] }
  | .beforeArray =>
    if isSpace c then .ok s
    else if c ≠ 91 then .error "input is not a JSON array\n" else .ok { s with phase := .firstElement }
  | .firstElement =>
    if isSpace c then .ok s
    else if c = 93 then .ok { s with phase := .afterArray } else s.open pos c
  | .nextElement => if isSpace c then .ok s else s.open pos c
  | .afterElement =>
    if isSpace c then .ok s
    else if c = 44 then .ok { s with phase := .nextElement }
    else if c = 93 then .ok { s with phase := .afterArray }
    else .error "expected ',' or ']' after an element\n"
  | .afterArray => if isSpace c then .ok s else .error "unexpected data after the JSON array\n"

/-- The bytes from a place on; an error comes with the state before the byte it is about. -/
def Scan.run : ℕ → Bytes → Scan → Except (String × Scan) Scan
  | _,[],s => .ok s
  | pos,c :: rest,s =>
    match s.step pos c with
    | .error e => .error (e,s)
    | .ok t => run (pos+1) rest t

/-- The lines of index.jsonl. -/
def indexLines (es : List (ℕ × Bytes)) : Bytes := es.zipIdx.flatMap fun e =>
  indexLine e.2 (fileName e.2) (UInt64.ofNat e.1.1) (UInt64.ofNat e.1.2.length)

def conversations (es : List (ℕ × Bytes)) : List (Bytes × Bytes) :=
  es.zipIdx.map fun e => (fileName e.2,e.1.2)

/-- The output directory when `w` of the element being read has been written. -/
def Scan.files (s : Scan) (w : Bytes) : List (Bytes × Bytes) :=
  (indexName,indexLines s.done) :: (conversations s.done++
    if s.phase = .inside then [(fileName s.done.length,w)] else [])

section Names

lemma digits_length (k n : ℕ) : (digits k n).length = k := by
  induction k generalizing n with
  | zero => rfl
  | succ k ih => rw [digits,List.length_append,ih,List.length_singleton]

lemma digit_injective {m n : ℕ} (h : UInt8.ofNat (48+m%10) = UInt8.ofNat (48+n%10)) : m%10 = n%10 := by
  have h' := congrArg UInt8.toNat h
  rw [UInt8.toNat_ofNat',UInt8.toNat_ofNat'] at h'
  omega

lemma digits_injective {k m n : ℕ} (hm : m < 10^k) (hn : n < 10^k) (h : digits k m = digits k n) :
    m = n := by
  induction k generalizing m n with
  | zero => omega
  | succ k ih =>
    rw [digits,digits] at h
    obtain ⟨hq,hr⟩ := List.append_inj h (by rw [digits_length,digits_length])
    have hr' := digit_injective (List.singleton_inj.mp hr)
    have hq' := ih (Nat.div_lt_of_lt_mul (by rwa [mul_comm,← pow_succ]))
      (Nat.div_lt_of_lt_mul (by rwa [mul_comm,← pow_succ])) hq
    omega

lemma fileName_injective {m n : ℕ} (hm : m < 10^6) (hn : n < 10^6) (h : fileName m = fileName n) :
    m = n := by
  rw [fileName,fileName,List.append_left_inj,List.append_right_inj] at h
  exact digits_injective hm hn h

lemma fileName_ne_indexName (n : ℕ) : fileName n ≠ indexName := fun h => by
  have hc : (ascii "conversation-").head? = some 99 := by decide +kernel
  have hi : indexName.head? = some 105 := by decide +kernel
  have h' := congrArg List.head? h
  rw [fileName,List.append_assoc,List.head?_append,hc,hi,Option.some_or] at h'
  exact absurd h' (by decide)

lemma conversations_length (es : List (ℕ × Bytes)) : (conversations es).length = es.length := by
  simp [conversations]

lemma mem_conversations {es : List (ℕ × Bytes)} {f : Bytes × Bytes} (h : f ∈ conversations es) :
    ∃ k < es.length, f.1 = fileName k := by
  obtain ⟨e,he,rfl⟩ := List.mem_map.mp h
  exact ⟨e.2,by simpa using List.snd_lt_of_mem_zipIdx he,rfl⟩

lemma conversations_concat (es : List (ℕ × Bytes)) (e : ℕ × Bytes) :
    conversations (es++[e]) = conversations es++[(fileName es.length,e.2)] := by
  simp [conversations,List.zipIdx_append]

lemma indexLines_concat (es : List (ℕ × Bytes)) (e : ℕ × Bytes) : indexLines (es++[e]) =
    indexLines es++indexLine es.length (fileName es.length) (UInt64.ofNat e.1) (UInt64.ofNat e.2.length) := by
  simp [indexLines,List.zipIdx_append]

/-- O_EXCL never meets a file of the same name. -/
lemma fileName_fresh {s : Scan} (hn : s.done.length < 10^6) (hp : s.phase ≠ .inside) (w : Bytes) :
    fileName s.done.length ∉ (s.files w).map Prod.fst := by
  simp only [Scan.files,if_neg hp,List.append_nil,List.map_cons,List.mem_cons,not_or]
  refine ⟨fileName_ne_indexName _,fun h => ?_⟩
  obtain ⟨f,hf,hfn⟩ := List.mem_map.mp h
  obtain ⟨k,hk,hfk⟩ := mem_conversations hf
  exact absurd (fileName_injective (hk.trans hn) hn (hfk.symm.trans hfn)) (by omega)

end Names

section Writes

variable {host : Host} {m : Machine}

/-- Every write succeeds, if only for a part of what was asked. -/
def Host.Writes (host : Host) : Prop := ∀ t n, (host.accepts t n).isSome

lemma modify_nothing (fs : List (Bytes × Bytes)) (fd : ℕ) :
    (fs.modify fd fun f => (f.1,f.2++[])) = fs := by
  have hid : (fun f : Bytes × Bytes => (f.1,f.2++[])) = id := by
    funext f
    rw [List.append_nil,id]
  rw [hid,List.modify_id]

/-- However many short writes it takes, all of it is written once and in order. -/
lemma writeAll_ok (hw : host.Writes) (fd : ℕ) (p : Bytes) (m : Machine) :
    ∃ t, writeAll host fd p m =
      ({ m with writes := t, files := m.files.modify fd fun f => (f.1,f.2++p) },true) := by
  induction hn : p.length using Nat.strong_induction_on generalizing p m with
  | _ n ih =>
    rw [writeAll]
    by_cases hp : p = []
    · subst hp
      exact ⟨m.writes,by rw [dif_pos rfl,modify_nothing]⟩
    · rw [dif_neg hp]
      split
      · next hk =>
        have := hw m.writes p.length
        rw [hk] at this
        cases this
      · next k hk =>
        have hpos := host.accepts_pos hk (List.length_pos_of_ne_nil hp)
        have hle := host.accepts_le hk
        obtain ⟨t,ht⟩ := ih (p.drop k).length (by rw [List.length_drop]; omega) (p.drop k)
          (m.append fd (p.take k)) rfl
        refine ⟨t,ht.trans ?_⟩
        have hf : ((fun f : Bytes × Bytes => (f.1,f.2++p.drop k)) ∘
            fun f : Bytes × Bytes => (f.1,f.2++p.take k)) = fun f : Bytes × Bytes => (f.1,f.2++p) := by
          funext f
          simp only [Function.comp_apply,List.append_assoc,List.take_append_drop]
        simp only [Machine.append,List.modify_modify_eq,hf]

/-- Bytes [run_start, end) of the buffer reach the current file. -/
lemma flushRun_ok (hw : host.Writes) (stop : ℕ) (m : Machine) :
    ∃ t, flushRun host stop m = .ok { m with
      writes := t
      files := m.files.modify m.outFd fun f => (f.1,f.2++(m.buffer.take stop).drop m.runStart) } := by
  rw [flushRun]
  by_cases h : stop > m.runStart
  · obtain ⟨t,ht⟩ := writeAll_ok hw m.outFd ((m.buffer.take stop).drop m.runStart) m
    exact ⟨t,by rw [if_pos h,ht]⟩
  · have hd : (m.buffer.take stop).drop m.runStart = [] := by
      rw [List.drop_eq_nil_iff,List.length_take]
      omega
    exact ⟨m.writes,by rw [if_neg h,hd,modify_nothing]⟩

end Writes

/-- Inside an element, at index i of the buffer: its open brackets, its file and what of it the
buffer still holds, after `w` on disk. -/
structure InElement (base : ℕ) (b : Bytes) (i : ℕ) (w : Bytes) (m : Machine) (s : Scan) : Prop where
  stack : m.stack ≠ []
  scanner : s.scanner = ⟨m.stack,m.inString,m.escaped⟩
  outFd : m.outFd = s.done.length+1
  name : m.name = fileName s.done.length
  start : m.elementStart = UInt64.ofNat s.offset
  place : s.offset+s.current.length = base+i
  few : s.done.length < 10^6
  run : m.runStart ≤ i
  pending : w++(b.take i).drop m.runStart = s.current

/-- The machine at index i of a buffer that starts at `base`, and the scan at the same byte. -/
structure Holds (base : ℕ) (b : Bytes) (i : ℕ) (w : Bytes) (m : Machine) (s : Scan) : Prop where
  state : m.state = s.phase
  count : m.count = s.done.length
  indexFd : m.indexFd = 0
  base_eq : m.chunkOffset = UInt64.ofNat base
  buffer : m.buffer = b
  files : m.files = s.files w
  element : s.phase = .inside → InElement base b i w m s

section Step

variable {host : Host} {base i : ℕ} {b w : Bytes} {m : Machine} {s t : Scan} {c : UInt8} {e : String}

/-- The test of `$pop`. -/
lemma closing_eq_some {o : UInt8} (h : c = 125 ∨ c = 93) :
    lexis.closing o = some c ↔ o = if c = 125 then 123 else 91 := by
  rcases h with rfl | rfl
  · by_cases ho : o = 123 <;> simp [lexis,ho]
  · by_cases ho : o = 123
    · subst ho
      decide
    · simp [lexis,ho]

/-- `$element_byte` is the scanner on the machine's own brackets, up to the byte that finishes
the element. -/
lemma elementByte_step (host : Host) (i : ℕ) (c : UInt8) (h : m.stack ≠ []) :
    match Scanner.step lexis 4096 ⟨m.stack,m.inString,m.escaped⟩ c with
    | .error e => ∃ m', elementByte host c i m = fail (faultMessage e) 2 m' ∧ m'.files = m.files
    | .ok sc => elementByte host c i m =
        if sc.stack = [] then finishElement host i
          { m with stack := sc.stack, inString := sc.inString, escaped := sc.escaped }
        else .ok { m with stack := sc.stack, inString := sc.inString, escaped := sc.escaped } := by
  obtain ⟨phase,stack,inString,escaped,count,offset,start,run,buffer,name,fd,index,files,writes⟩ := m
  obtain ⟨o,rest,rfl⟩ := List.exists_cons_of_ne_nil h
  cases inString with
  | true =>
    cases escaped with
    | true => rfl
    | false =>
      by_cases h1 : c = 92
      · subst h1
        rfl
      · by_cases h2 : c = 34
        · subst h2
          rfl
        · simp [Scanner.step,lexis,elementByte,h1,h2]
  | false =>
    by_cases h1 : c = 34
    · subst h1
      simp [Scanner.step,lexis,elementByte]
    by_cases h2 : c = 123 ∨ c = 91
    · have hs : (lexis.closing c).isSome := by
        rcases h2 with rfl | rfl <;> decide
      have hq : c ≠ lexis.quote := h1
      simp only [Scanner.step,elementByte,if_neg h1,if_neg hq,if_pos hs,if_pos h2,push,ge_iff_le]
      by_cases hl : 4096 ≤ (o :: rest).length
      · simp only [if_pos hl]
        exact ⟨_,rfl,rfl⟩
      · simp only [if_neg hl]
        rfl
    · have hs : ¬(lexis.closing c).isSome := by
        rw [not_or] at h2
        simp [lexis,h2.1,h2.2]
      have hq : c ≠ lexis.quote := h1
      simp only [Scanner.step,elementByte,if_neg h1,if_neg hq,if_neg hs,if_neg h2]
      by_cases h3 : c = 125 ∨ c = 93
      · have hc : lexis.isClosing c = true := decide_eq_true h3
        simp only [hc,if_true,if_pos h3,pop,closing_eq_some h3]
        by_cases ho : o = if c = 125 then 123 else 91
        · rw [if_pos ho,if_neg (not_not_intro ho)]
          rfl
        · rw [if_neg ho,if_pos ho]
          exact ⟨_,rfl,rfl⟩
      · have hc : lexis.isClosing c = false := decide_eq_false h3
        simp [hc,h3]

lemma files_outside (h : s.phase ≠ .inside) (w v : Bytes) : s.files w = s.files v := by
  simp only [Scan.files,if_neg h]

lemma files_append (h : s.phase = .inside) (w p : Bytes) :
    ((s.files w).modify (s.done.length+1) fun f => (f.1,f.2++p)) = s.files (w++p) := by
  have hm : ∀ (fs : List (Bytes × Bytes)) (f : Bytes × Bytes) (g : Bytes × Bytes → Bytes × Bytes),
      (fs++[f]).modify fs.length g = fs++[g f] := fun fs f g => by
    induction fs with
    | nil => rfl
    | cons x fs ih => rw [List.cons_append,List.length_cons,List.modify_succ_cons,ih,List.cons_append]
  simp only [Scan.files,if_pos h,List.modify_succ_cons]
  rw [← conversations_length,hm]

lemma InElement.pending_next (h : InElement base b i w m s) (hc : b.take (i+1) = b.take i++[c]) :
    w++(b.take (i+1)).drop m.runStart = s.current++[c] := by
  have hl : m.runStart ≤ (b.take i).length := by
    have := congrArg List.length hc
    simp only [List.length_take,List.length_append,List.length_singleton] at this ⊢
    have := h.run
    omega
  rw [hc,List.drop_append_of_le_length hl,← List.append_assoc,h.pending]

/-- Another byte of the element, of which nothing is written yet. -/
lemma Holds.advance (h : Holds base b i w m s) (hin : s.phase = .inside)
    (hc : b.take (i+1) = b.take i++[c]) {sc : Scanner UInt8} (hsc : sc.stack ≠ []) :
    Holds base b (i+1) w { m with stack := sc.stack, inString := sc.inString, escaped := sc.escaped }
      { s with scanner := sc, current := s.current++[c] } where
  state := h.state
  count := h.count
  indexFd := h.indexFd
  base_eq := h.base_eq
  buffer := h.buffer
  files := h.files
  element _ := by
    have he := h.element hin
    exact {
      stack := hsc
      scanner := rfl
      outFd := he.outFd
      name := he.name
      start := he.start
      place := by
        have := he.place
        simp only [List.length_append,List.length_singleton]
        omega
      few := he.few
      run := he.run.trans (Nat.le_succ i)
      pending := he.pending_next hc }

/-- The last byte of the element: what is left of it is written, then its index line. -/
lemma Holds.finish (hw : host.Writes) (h : Holds base b i w m s) (hin : s.phase = .inside)
    (hc : b.take (i+1) = b.take i++[c]) (sc : Scanner UInt8) :
    ∃ m', finishElement host i
        { m with stack := sc.stack, inString := sc.inString, escaped := sc.escaped } = .ok m' ∧
      Holds base b (i+1) w m' { s with
        phase := .afterElement
        scanner := sc
        done := s.done++[(s.offset,s.current++[c])] } := by
  have he := h.element hin
  obtain ⟨u,hu⟩ := flushRun_ok hw (i+1)
    { m with stack := sc.stack, inString := sc.inString, escaped := sc.escaped }
  have hfl : (m.files.modify m.outFd fun f => (f.1,f.2++(m.buffer.take (i+1)).drop m.runStart)) =
      s.files (s.current++[c]) := by
    rw [h.files,he.outFd,files_append hin,h.buffer,he.pending_next hc]
  have hlen : m.chunkOffset+UInt64.ofNat (i+1)-m.elementStart =
      UInt64.ofNat (s.current++[c]).length := by
    have hp : base+(i+1) = (s.current++[c]).length+s.offset := by
      have := he.place
      simp only [List.length_append,List.length_singleton]
      omega
    rw [h.base_eq,he.start,← UInt64.ofNat_add,hp,UInt64.ofNat_add]
    exact UInt64.add_sub_cancel ..
  rw [finishElement,hu]
  dsimp only [bind,Except.bind]
  rw [hfl,hlen,h.count,he.name,he.start,h.indexFd]
  obtain ⟨v,hv⟩ := writeAll_ok hw 0 (indexLine s.done.length (fileName s.done.length)
    (UInt64.ofNat s.offset) (UInt64.ofNat (s.current++[c]).length)) { m with
      stack := sc.stack, inString := sc.inString, escaped := sc.escaped, count := s.done.length,
      elementStart := UInt64.ofNat s.offset, name := fileName s.done.length, indexFd := 0,
      writes := u, files := s.files (s.current++[c]) }
  rw [hv]
  refine ⟨_,rfl,rfl,?_,rfl,h.base_eq,h.buffer,?_,nofun⟩
  · simp
  · simp only [Scan.files,if_pos hin,List.modify_zero_cons,indexLines_concat,conversations_concat,
      reduceCtorEq,if_false,List.append_nil]

/-- The first byte of an element opens its file, and the byte is not yet written. -/
lemma Holds.open (h : Holds base b i w m s) (hp : s.phase ≠ .inside)
    (hc : b.take (i+1) = b.take i++[123]) (hn : ¬s.done.length > 999999) :
    ∃ m', startElement i m = .ok m' ∧ Holds base b (i+1) [] m' { s with
      phase := .inside, scanner := Scanner.between [123], offset := base+i, current := [123] } := by
  have hfresh : fileName s.done.length ∉ m.files.map Prod.fst := by
    rw [h.files]
    exact fileName_fresh (by omega) hp w
  have hfiles : m.files = (indexName,indexLines s.done) :: conversations s.done := by
    rw [h.files,Scan.files,if_neg hp,List.append_nil]
  have hi : (b.take i).length = i := by
    have := congrArg List.length hc
    simp only [List.length_take,List.length_append,List.length_singleton] at this ⊢
    omega
  simp only [startElement,h.count,if_neg hn,pathOpen,if_neg hfresh,push]
  refine ⟨_,rfl,rfl,rfl,h.indexFd,h.base_eq,h.buffer,?_,fun _ => ?_⟩
  · simp only [Scan.files,if_true,hfiles,List.cons_append]
  · exact {
      stack := by simp
      scanner := rfl
      outFd := by simp only [hfiles,List.length_cons,conversations_length]
      name := rfl
      start := by rw [h.base_eq,← UInt64.ofNat_add]
      place := by simp only [List.length_singleton]; omega
      few := by simp only; omega
      run := Nat.le_succ i
      pending := by rw [hc,List.drop_append,hi,Nat.sub_self,List.drop_eq_nil_of_le hi.le]; rfl }

lemma Holds.opens (h : Holds base b i w m s) (hp : s.phase ≠ .inside)
    (hc : b.take (i+1) = b.take i++[c]) (hs : s.open (base+i) c = .ok t) :
    ∃ m' v, (if c ≠ 123 then fail "expected a JSON object as an array element\n" 2 m
      else startElement i m) = .ok m' ∧ Holds base b (i+1) v m' t := by
  rw [Scan.open] at hs
  by_cases h1 : c = 123
  · subst h1
    rw [if_neg (not_not_intro rfl)] at hs ⊢
    by_cases hn : s.done.length > 999999
    · rw [if_pos hn] at hs
      cases hs
    · rw [if_neg hn] at hs
      cases hs
      obtain ⟨m',hm,hh⟩ := h.open hp hc hn
      exact ⟨m',[],hm,hh⟩
  · rw [if_pos h1] at hs
    cases hs

/-- A byte of the array structure that only moves the parser on. -/
lemma Holds.move (h : Holds base b i w m s) {p : Phase} (hp : s.phase ≠ .inside) (hq : p ≠ .inside) :
    Holds base b (i+1) w { m with state := p } { s with phase := p } where
  state := rfl
  count := h.count
  indexFd := h.indexFd
  base_eq := h.base_eq
  buffer := h.buffer
  files := by
    rw [h.files,Scan.files,Scan.files,if_neg hp,if_neg hq]
  element hin := absurd hin hq

lemma Holds.space (h : Holds base b i w m s) (hp : s.phase ≠ .inside) : Holds base b (i+1) w m s := by
  have hm : { m with state := s.phase } = m := by rw [← h.state]
  have := h.move hp hp
  rwa [hm] at this

lemma step_inside (hin : s.phase = .inside) (pos : ℕ) (c : UInt8) : s.step pos c =
    match s.scanner.step lexis 4096 c with
    | .error e => .error (faultMessage e)
    | .ok b =>
      if b.stack = [] then
        .ok { s with phase := .afterElement, scanner := b, done := s.done++[(s.offset,s.current++[c])] }
      else .ok { s with scanner := b, current := s.current++[c] } := by
  rw [Scan.step,hin]

/-- One byte that the scan accepts. -/
theorem byte_ok (hw : host.Writes) (h : Holds base b i w m s) (hc : b.take (i+1) = b.take i++[c])
    (hs : s.step (base+i) c = .ok t) :
    ∃ m' v, byte host c i m = .ok m' ∧ Holds base b (i+1) v m' t := by
  by_cases hin : s.phase = .inside
  · have he := h.element hin
    have hb := elementByte_step host i c he.stack
    rw [byte,if_pos (h.state.trans hin)]
    rw [step_inside hin,he.scanner] at hs
    cases hsc : Scanner.step lexis 4096 ⟨m.stack,m.inString,m.escaped⟩ c with
    | error e =>
      rw [hsc] at hs
      cases hs
    | ok sc =>
      rw [hsc] at hs hb
      dsimp only at hs hb
      rw [hb]
      by_cases hst : sc.stack = []
      · rw [if_pos hst] at hs ⊢
        cases hs
        obtain ⟨m',hm,hh⟩ := h.finish hw hin hc sc
        exact ⟨m',w,hm,hh⟩
      · rw [if_neg hst] at hs ⊢
        cases hs
        exact ⟨_,w,rfl,h.advance hin hc hst⟩
  · rw [byte,if_neg (h.state ▸ hin),structureByte,h.state]
    rw [Scan.step] at hs
    by_cases hsp : isSpace c = true
    · have ht : t = s := by
        cases hph : s.phase <;> simp_all
      subst ht
      exact ⟨m,w,if_pos hsp,h.space hin⟩
    rw [if_neg hsp]
    cases hph : s.phase with
    | inside => exact absurd hph hin
    | beforeArray =>
      simp only [hph,if_neg hsp] at hs ⊢
      by_cases h1 : c = 91
      · rw [if_neg (not_not_intro h1)] at hs ⊢
        cases hs
        exact ⟨_,w,rfl,h.move hin nofun⟩
      · rw [if_pos h1] at hs
        cases hs
    | firstElement =>
      simp only [hph,if_neg hsp] at hs ⊢
      by_cases h1 : c = 93
      · rw [if_pos h1] at hs ⊢
        cases hs
        exact ⟨_,w,rfl,h.move hin nofun⟩
      · rw [if_neg h1] at hs ⊢
        exact h.opens hin hc hs
    | nextElement =>
      simp only [hph,if_neg hsp] at hs ⊢
      exact h.opens hin hc hs
    | afterElement =>
      simp only [hph,if_neg hsp] at hs ⊢
      by_cases h1 : c = 44
      · rw [if_pos h1] at hs ⊢
        cases hs
        exact ⟨_,w,rfl,h.move hin nofun⟩
      · by_cases h2 : c = 93
        · rw [if_neg h1,if_pos h2] at hs ⊢
          cases hs
          exact ⟨_,w,rfl,h.move hin nofun⟩
        · rw [if_neg h1,if_neg h2] at hs
          cases hs
    | afterArray =>
      simp only [hph,if_neg hsp] at hs
      cases hs

lemma Holds.open_error (h : Holds base b i w m s) (hs : s.open (base+i) c = .error e) :
    ∃ m', (if c ≠ 123 then fail "expected a JSON object as an array element\n" 2 m
      else startElement i m) = fail e 2 m' ∧ m'.files = s.files w := by
  rw [Scan.open] at hs
  by_cases h1 : c ≠ 123
  · rw [if_pos h1] at hs ⊢
    cases hs
    exact ⟨m,rfl,h.files⟩
  · rw [if_neg h1] at hs ⊢
    by_cases hn : s.done.length > 999999
    · rw [if_pos hn] at hs
      cases hs
      rw [startElement,h.count,if_pos hn]
      exact ⟨m,rfl,h.files⟩
    · rw [if_neg hn] at hs
      cases hs

/-- One byte that it rejects: the exit status is 2, and the files are as they were. -/
theorem byte_error (host : Host) (h : Holds base b i w m s) (hs : s.step (base+i) c = .error e) :
    ∃ m', byte host c i m = fail e 2 m' ∧ m'.files = s.files w := by
  by_cases hin : s.phase = .inside
  · have he := h.element hin
    have hb := elementByte_step host i c he.stack
    rw [byte,if_pos (h.state.trans hin)]
    rw [step_inside hin,he.scanner] at hs
    cases hsc : Scanner.step lexis 4096 ⟨m.stack,m.inString,m.escaped⟩ c with
    | error f =>
      rw [hsc] at hs hb
      cases hs
      obtain ⟨m',hm,hf⟩ := hb
      exact ⟨m',hm,hf.trans h.files⟩
    | ok sc =>
      rw [hsc] at hs
      dsimp only at hs
      by_cases hst : sc.stack = []
      · rw [if_pos hst] at hs
        cases hs
      · rw [if_neg hst] at hs
        cases hs
  · rw [byte,if_neg (h.state ▸ hin),structureByte,h.state]
    rw [Scan.step] at hs
    by_cases hsp : isSpace c = true
    · cases hph : s.phase <;> simp_all
    rw [if_neg hsp]
    cases hph : s.phase with
    | inside => exact absurd hph hin
    | beforeArray =>
      simp only [hph,if_neg hsp] at hs ⊢
      by_cases h1 : c ≠ 91
      · rw [if_pos h1] at hs ⊢
        cases hs
        exact ⟨m,rfl,h.files⟩
      · rw [if_neg h1] at hs
        cases hs
    | firstElement =>
      simp only [hph,if_neg hsp] at hs ⊢
      by_cases h1 : c = 93
      · rw [if_pos h1] at hs
        cases hs
      · rw [if_neg h1] at hs ⊢
        exact h.open_error hs
    | nextElement =>
      simp only [hph,if_neg hsp] at hs ⊢
      exact h.open_error hs
    | afterElement =>
      simp only [hph,if_neg hsp] at hs ⊢
      by_cases h1 : c = 44
      · rw [if_pos h1] at hs
        cases hs
      · by_cases h2 : c = 93
        · rw [if_neg h1,if_pos h2] at hs
          cases hs
        · rw [if_neg h1,if_neg h2] at hs ⊢
          cases hs
          exact ⟨m,rfl,h.files⟩
    | afterArray =>
      simp only [hph,if_neg hsp] at hs ⊢
      cases hs
      exact ⟨m,rfl,h.files⟩

/-- What is written of the element being read is a part of it. -/
lemma Holds.written (h : Holds base b i w m s) (hin : s.phase = .inside) : w <+: s.current :=
  ⟨_,(h.element hin).pending⟩

/-- How a run of the machine ends, when the scan ends so from where it stands. -/
def Ends (r : Result) (scan : Except (String × Scan) Scan) (good : Machine → Scan → Prop) : Prop :=
  match scan with
  | .ok t => ∃ m', r = .ok m' ∧ good m' t
  | .error (e,t) => ∃ m' w, r = fail e 2 m' ∧ m'.files = t.files w ∧
      (t.phase = .inside → w <+: t.current)

/-- The bytes of a buffer, from index i on. -/
theorem bytes_ends (hw : host.Writes) {rest : Bytes} (h : Holds base b i w m s)
    (hb : b = b.take i++rest) (hi : (b.take i).length = i) :
    Ends (bytes host i rest m) (s.run (base+i) rest) fun m' t => ∃ v, Holds base b b.length v m' t := by
  induction rest generalizing i m s w with
  | nil =>
    have hl : i = b.length := by
      have := congrArg List.length hb
      simp only [List.append_nil] at this
      omega
    subst hl
    exact ⟨m,rfl,w,h⟩
  | cons c rest ih =>
    have hc : b.take (i+1) = b.take i++[c] := by
      conv_lhs => rw [hb]
      rw [List.take_append,hi,List.take_of_length_le (by omega)]
      simp
    rw [Scan.run,bytes]
    cases hs : s.step (base+i) c with
    | error e =>
      obtain ⟨m',hm,hf⟩ := byte_error host h hs
      refine ⟨m',w,?_,hf,h.written⟩
      rw [hm]
      rfl
    | ok t =>
      obtain ⟨m',v,hm,hh⟩ := byte_ok hw h hc hs
      rw [hm]
      refine ih hh ?_ ?_
      · rw [hc,List.append_assoc]
        exact hb
      · rw [hc,List.length_append,hi,List.length_singleton]

lemma Scan.run_append (pos : ℕ) (x y : Bytes) (s : Scan) : s.run pos (x++y) =
    match s.run pos x with
    | .error e => .error e
    | .ok t => t.run (pos+x.length) y := by
  induction x generalizing pos s with
  | nil => rfl
  | cons c x ih =>
    rw [List.cons_append,Scan.run,Scan.run]
    cases s.step pos c with
    | error e => rfl
    | ok t =>
      simp only [ih,List.length_cons,Nat.add_assoc,Nat.add_comm 1]

/-- Between two reads everything of the element that was read is on disk. -/
def Between (base : ℕ) (m : Machine) (s : Scan) : Prop :=
  ∀ chunk, Holds base chunk 0 s.current { m with buffer := chunk, runStart := 0 } s

/-- The flush at the end of a buffer. -/
lemma Holds.refill (hw : host.Writes) (h : Holds base b b.length w m s) :
    ∃ m', endOfBuffer host b.length m = .ok m' ∧
      Between (base+b.length) { m' with chunkOffset := m'.chunkOffset+UInt64.ofNat b.length } s := by
  by_cases hin : s.phase = .inside
  · have he := h.element hin
    obtain ⟨u,hu⟩ := flushRun_ok hw b.length m
    have hfl : (m.files.modify m.outFd fun f => (f.1,f.2++(m.buffer.take b.length).drop m.runStart)) =
        s.files s.current := by
      rw [h.files,he.outFd,files_append hin,h.buffer,he.pending]
    rw [endOfBuffer,if_pos (h.state.trans hin),hu,hfl]
    refine ⟨_,rfl,fun chunk => ?_⟩
    exact {
      state := h.state
      count := h.count
      indexFd := h.indexFd
      base_eq := by rw [UInt64.ofNat_add,← h.base_eq]
      buffer := rfl
      files := rfl
      element := fun _ => {
        stack := he.stack
        scanner := he.scanner
        outFd := he.outFd
        name := he.name
        start := he.start
        place := he.place
        few := he.few
        run := le_rfl
        pending := List.append_nil _ } }
  · rw [endOfBuffer,if_neg (h.state ▸ hin)]
    refine ⟨m,rfl,fun chunk => ?_⟩
    exact {
      state := h.state
      count := h.count
      indexFd := h.indexFd
      base_eq := by rw [UInt64.ofNat_add,← h.base_eq]
      buffer := rfl
      files := h.files.trans (files_outside hin _ _)
      element := fun hp => absurd hp hin }

/-- The read loop, over reads that each return something. -/
theorem chunks_ends (hw : host.Writes) {reads : List Bytes} (hr : ∀ chunk ∈ reads, chunk ≠ [])
    (h : Between base m s) : Ends (chunks host reads m) (s.run base reads.flatten)
      fun m' t => Between (base+reads.flatten.length) m' t := by
  induction reads generalizing base m s with
  | nil => exact ⟨m,rfl,h⟩
  | cons chunk reads ih =>
    have hne : chunk.length ≠ 0 := fun h0 =>
      hr chunk (List.mem_cons_self ..) (List.length_eq_zero_iff.mp h0)
    have hb : Ends (bytes host 0 chunk { m with buffer := chunk, runStart := 0 }) (s.run (base+0) chunk)
        fun m' t => ∃ v, Holds base chunk chunk.length v m' t := bytes_ends hw (h chunk) (by simp) (by simp)
    rw [chunks,if_neg hne,List.flatten_cons,Scan.run_append]
    rw [Nat.add_zero] at hb
    cases hs : s.run base chunk with
    | error e =>
      rw [hs] at hb
      obtain ⟨m',w,hm,hf⟩ := hb
      exact ⟨m',w,by rw [hm]; rfl,hf⟩
    | ok t =>
      rw [hs] at hb
      obtain ⟨m',hm,v,hh⟩ := hb
      obtain ⟨m₂,hm₂,hbt⟩ := hh.refill hw
      have := ih (fun c hc => hr c (List.mem_cons_of_mem _ hc)) hbt
      rw [hm]
      dsimp only [bind,Except.bind]
      rw [hm₂,List.length_append,← Nat.add_assoc]
      exact this

end Step

/-- What the whole run leaves, as far as the input decides it. -/
theorem start_ends {host : Host} (hw : host.Writes) {reads : List Bytes}
    (hr : ∀ chunk ∈ reads, chunk ≠ []) :
    match Scan.initial.run 0 reads.flatten with
    | .ok t => start host reads =
        if t.phase = .afterArray then ⟨0,"split "++toString t.done.length++" conversations\n",t.files []⟩
        else ⟨2,"chatgpt-split: input ends before the JSON array is closed\n",t.files t.current⟩
    | .error (e,t) => ∃ w, start host reads = ⟨2,"chatgpt-split: "++e,t.files w⟩ ∧
        (t.phase = .inside → w <+: t.current) := by
  have h0 : Between 0 { Machine.initial with indexFd := 0, files := [(indexName,[])] } Scan.initial :=
    fun chunk => ⟨rfl,rfl,rfl,rfl,rfl,rfl,nofun⟩
  have hc := chunks_ends hw hr h0
  have hsplit : split host reads =
      (chunks host reads { Machine.initial with indexFd := 0, files := [(indexName,[])] }).bind fun m =>
        if m.state ≠ .afterArray then fail "input ends before the JSON array is closed\n" 2 m
        else .ok m := rfl
  cases hs : Scan.initial.run 0 reads.flatten with
  | error p =>
    rw [hs] at hc
    obtain ⟨m,w,hm,hf,hpre⟩ := hc
    refine ⟨w,?_,hpre⟩
    rw [start,hsplit,hm,fail]
    simp only [Except.bind,hf]
  | ok t =>
    rw [hs] at hc
    obtain ⟨m,hm,hbt⟩ := hc
    have hh := hbt []
    have hst : m.state = t.phase := hh.state
    have hcount : m.count = t.done.length := hh.count
    have hfiles : m.files = t.files t.current := hh.files
    rw [start,hsplit,hm]
    dsimp only [Except.bind]
    by_cases ha : t.phase = .afterArray
    · have hout : t.phase ≠ .inside := by rw [ha]; nofun
      rw [if_neg (by rw [hst]; exact not_not_intro ha),if_pos ha]
      dsimp only
      rw [hcount,hfiles,files_outside hout t.current []]
    · rw [if_pos (by rw [hst]; exact ha),if_neg ha,fail]
      dsimp only
      rw [hfiles]
      rfl

end Stele.Splitter
