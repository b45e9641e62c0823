import Stele.Extractors.SplitterGrammar

/-! What the splitter leaves in the output directory, in terms of the grammar of its input. -/
namespace Stele.Splitter
open Python (Bytes)
open Brackets (Scanner)

section Text

/-- conversation-%06d.json. -/
def pathText (k : ℕ) : String :=
  "conversation-"++String.ofList ((Nat.toDigits 10 k).leftpad 6 '0')++".json"

lemma pathText_eq (k : ℕ) : pathText k =
    "conversation-"++String.ofList ((Nat.toDigits 10 k).leftpad 6 '0')++".json" := rfl

/-- A line of index.jsonl. -/
def lineText (k offset length : ℕ) : String :=
  "\x7b\"index\":"++toString k++",\"path\":\""++pathText k++"\",\"offset\":"++toString offset++
    ",\"length\":"++toString length++"\x7d\n"

lemma lineText_eq (k offset length : ℕ) : lineText k offset length =
    "\x7b\"index\":"++toString k++",\"path\":\""++pathText k++"\",\"offset\":"++toString offset++
      ",\"length\":"++toString length++"\x7d\n" := rfl

lemma ascii_append (s t : String) : ascii (s++t) = ascii s++ascii t := by
  rw [ascii,String.toList_append,List.map_append]
  rfl

lemma ascii_ofList (cs : List Char) : ascii (String.ofList cs) = cs.map fun c => UInt8.ofNat c.toNat := by
  rw [ascii,String.toList_ofList]

lemma ascii_toString (n : ℕ) :
    ascii (toString n) = (Nat.toDigits 10 n).map fun c => UInt8.ofNat c.toNat := by
  rw [Nat.toString_eq_ofList_toDigits,ascii_ofList]

lemma digitChar_byte {d : ℕ} (h : d < 10) : UInt8.ofNat d.digitChar.toNat = UInt8.ofNat (48+d) := by
  have hall : ∀ d : Fin 10, UInt8.ofNat d.val.digitChar.toNat = UInt8.ofNat (48+d.val) := by decide
  exact hall ⟨d,h⟩

lemma decimalOnto_eq (v : ℕ) (acc : Bytes) : decimalOnto v acc = ascii (toString v)++acc := by
  induction v using Nat.strong_induction_on generalizing acc with
  | _ v ih =>
    rw [decimalOnto,ascii_toString]
    by_cases h : v < 10
    · have h0 : v/10 = 0 := Nat.div_eq_of_lt h
      simp only [h0,if_true,Nat.mod_eq_of_lt h,Nat.toDigits_of_lt_base h,List.map_cons,List.map_nil,
        digitChar_byte h]
      rfl
    · have h0 : v/10 ≠ 0 := by omega
      simp only [if_neg h0]
      rw [ih (v/10) (by omega),ascii_toString,Nat.toDigits_of_base_le (n := v) (by decide) (not_lt.mp h),
        List.map_append,List.append_assoc,List.map_cons,List.map_nil,
        digitChar_byte (Nat.mod_lt v (by decide))]
      rfl

lemma decimal_ofNat (n : ℕ) : decimal (UInt64.ofNat n) = ascii (toString (n%2^64)) := by
  rw [decimal,decimalOnto_eq,List.append_nil,UInt64.toNat_ofNat']

lemma leftpad_concat {α : Type} (k : ℕ) (a d : α) (xs : List α) :
    (xs++[d]).leftpad (k+1) a = xs.leftpad k a++[d] := by
  rw [List.leftpad,List.leftpad,List.length_append,List.length_singleton,Nat.add_sub_add_right,
    List.append_assoc]

lemma digits_eq (k : ℕ) : ∀ {n : ℕ}, n < 10^(k+1) →
    digits (k+1) n = ascii (String.ofList ((Nat.toDigits 10 n).leftpad (k+1) '0')) := by
  induction k with
  | zero =>
    intro n hn
    have h : n < 10 := by simpa using hn
    rw [ascii_ofList,digits,digits,Nat.toDigits_of_lt_base h,Nat.mod_eq_of_lt h]
    simp [List.leftpad,digitChar_byte h]
  | succ k ih =>
    intro n hn
    have hq : n/10 < 10^(k+1) := Nat.div_lt_of_lt_mul (by rwa [mul_comm,← pow_succ])
    rw [digits,ih hq,ascii_ofList,ascii_ofList]
    by_cases h : n < 10
    · have h0 : n/10 = 0 := Nat.div_eq_of_lt h
      have hz : (Nat.toDigits 10 0).leftpad (k+1) '0' = List.leftpad (k+1) '0' [] := by
        rw [Nat.toDigits_zero,List.leftpad,List.leftpad,List.length_singleton,Nat.add_sub_cancel,
          List.length_nil,Nat.sub_zero,List.append_nil,List.replicate_succ']
      rw [h0,hz,Nat.toDigits_of_lt_base h,Nat.mod_eq_of_lt h,← digitChar_byte h]
      change _ = List.map _ (List.leftpad (k+1+1) '0' ([]++[n.digitChar]))
      rw [leftpad_concat,List.map_append]
      rfl
    · rw [Nat.toDigits_of_base_le (by decide) (not_lt.mp h),leftpad_concat,List.map_append,
        ← digitChar_byte (Nat.mod_lt n (by decide))]
      rfl

lemma fileName_eq {k : ℕ} (h : k < 10^6) : fileName k = ascii (pathText k) := by
  rw [fileName,pathText_eq,ascii_append,ascii_append,digits_eq 5 h]

lemma indexLine_eq {k : ℕ} (h : k < 10^6) (offset length : ℕ) :
    indexLine k (fileName k) (UInt64.ofNat offset) (UInt64.ofNat length) =
      ascii (lineText k (offset%2^64) (length%2^64)) := by
  have hk : k%2^64 = k := Nat.mod_eq_of_lt (h.trans (by decide))
  simp only [indexLine,lineText_eq,ascii_append,decimal_ofNat,fileName_eq h,hk]

end Text

/-- The reads that a host can make of an input: up to 64 KiB each, and never nothing before the
end. -/
def Reads (x : Bytes) (reads : List Bytes) : Prop :=
  reads.flatten = x ∧ ∀ chunk ∈ reads, 0 < chunk.length ∧ chunk.length ≤ 65536

/-- A status and the files, but for one whose content is only known to begin `cut`'s bytes. -/
structure Outcome where
  status : ℕ
  files : List (Bytes × Bytes)
  cut : Option (Bytes × Bytes)

def Exit.Leaves (e : Exit) (o : Outcome) : Prop :=
  e.status = o.status ∧
    match o.cut with
    | none => e.files = o.files
    | some (name,content) => ∃ w, w <+: content ∧ e.files = o.files++[(name,w)]

/-- The output directory of an export with these elements: index.jsonl and a file for each. -/
def outputOf (x : Bytes) (es : List (ℕ × Bytes)) : List (Bytes × Bytes) :=
  (ascii "index.jsonl",es.zipIdx.flatMap fun e =>
      ascii (lineText e.2 (e.1.1%2^64) (e.1.2.length%2^64))) ::
    es.zipIdx.map fun e => (ascii (pathText e.2),(x.drop e.1.1).take e.1.2.length)

section Outcome

variable {x : Bytes} {es : List (ℕ × Bytes)}

/-- What the scan of an input says about every run on it. -/
def outcome (x : Bytes) : Outcome :=
  match Scan.initial.run 0 x with
  | .ok t => if t.phase = .afterArray then ⟨0,t.files [],none⟩ else ⟨2,t.files t.current,none⟩
  | .error (_,t) => ⟨2,(indexName,indexLines t.done) :: conversations t.done,
      if t.phase = .inside then some (fileName t.done.length,t.current) else none⟩

lemma start_leaves {host : Host} (hw : host.Writes) {reads : List Bytes} (hr : Reads x reads) :
    (start host reads).Leaves (outcome x) := by
  have hne : ∀ chunk ∈ reads, chunk ≠ [] := fun chunk hc => List.length_pos_iff.mp (hr.2 chunk hc).1
  have h := start_ends hw hne
  rw [hr.1] at h
  rw [outcome]
  cases hs : Scan.initial.run 0 x with
  | ok t =>
    rw [hs] at h
    dsimp only at h ⊢
    rw [h]
    by_cases ha : t.phase = .afterArray
    · rw [if_pos ha,if_pos ha]
      exact ⟨rfl,rfl⟩
    · rw [if_neg ha,if_neg ha]
      exact ⟨rfl,rfl⟩
  | error p =>
    rw [hs] at h
    obtain ⟨w,h,hpre⟩ := h
    rw [h]
    refine ⟨rfl,?_⟩
    by_cases hin : p.2.phase = .inside
    · simp only [if_pos hin]
      refine ⟨w,hpre hin,?_⟩
      rw [Scan.files,if_pos hin]
      rfl
    · simp only [if_neg hin,Scan.files,List.append_nil]

lemma files_done (hn : es.length ≤ 1000000) (h : ∀ s ∈ es, (x.drop s.1).take s.2.length = s.2) :
    (indexName,indexLines es) :: conversations es = outputOf x es := by
  have hk : ∀ e ∈ es.zipIdx, e.2 < 10^6 := fun e he => by
    have := List.snd_lt_of_mem_zipIdx he
    omega
  have hlines : indexLines es =
      es.zipIdx.flatMap fun e => ascii (lineText e.2 (e.1.1%2^64) (e.1.2.length%2^64)) := by
    rw [indexLines,List.flatMap_def,List.flatMap_def]
    exact congrArg List.flatten (List.map_congr_left fun e he => indexLine_eq (hk e he) _ _)
  have hfiles : conversations es =
      es.zipIdx.map fun e => (ascii (pathText e.2),(x.drop e.1.1).take e.1.2.length) :=
    List.map_congr_left fun e he => by
      have hmem : e.1 ∈ es := List.fst_mem_of_mem_zipIdx he
      rw [fileName_eq (hk e he),h e.1 hmem]
  rw [outputOf,hlines,hfiles,indexName]

lemma outcome_export (h : Export es x) : outcome x = ⟨0,outputOf x es,none⟩ := by
  obtain ⟨t,hrun,ht,rfl⟩ := run_export h
  have hout : t.phase ≠ .inside := by
    rw [ht]
    decide
  rw [outcome,hrun]
  simp only [if_pos ht,Scan.files,if_neg hout,List.append_nil]
  rw [files_done h.1 fun s hs => (h.slices.1 s hs).2]

lemma outcome_goesWrong {w : Bytes} (h : GoesWrong x es w) :
    outcome x = ⟨2,outputOf x es,some (ascii (pathText es.length),w)⟩ := by
  obtain ⟨e,t,hrun,hin,rfl,rfl⟩ := goesWrong_iff.mp h
  obtain ⟨hn,p,b,c,r,hp,-,rfl,-⟩ := h
  have hfiles : (indexName,indexLines t.done) :: conversations t.done = outputOf _ t.done :=
    files_done (by omega) (hp.slices (t.current++c :: r))
  rw [outcome,hrun]
  simp only [if_pos hin]
  rw [hfiles,fileName_eq (by omega)]

/-- Only of an input that goes wrong in an element a file is left to the reads. -/
lemma outcome_cut (h : (outcome x).cut ≠ none) : ∃ es w, GoesWrong x es w := by
  rw [outcome] at h
  cases hs : Scan.initial.run 0 x with
  | ok t =>
    rw [hs] at h
    by_cases ha : t.phase = .afterArray <;> simp [ha] at h
  | error p =>
    obtain ⟨e,t⟩ := p
    rw [hs] at h
    by_cases hin : t.phase = .inside
    · exact ⟨t.done,t.current,goesWrong_iff.mpr ⟨e,t,hs,hin,rfl,rfl⟩⟩
    · simp [hin] at h

/-- What goes wrong in an element is not the beginning of an export. -/
lemma GoesWrong.not_export {w : Bytes} (h : GoesWrong x es w) (y : Bytes) (fs : List (ℕ × Bytes)) :
    ¬Export fs (x++y) := by
  obtain ⟨e,t,hrun,-⟩ := goesWrong_iff.mp h
  intro hy
  obtain ⟨u,hu,-,-⟩ := run_export hy
  rw [Scan.run_append,hrun] at hu
  cases hu

end Outcome

/-- On every input, however its reads and writes are cut: the status and the files depend on the
input alone, except for the file of an element in which the input goes wrong, which holds a prefix
of what the input holds of that element. The status is 0 exactly for the exports, and then the
files are their slices and the index. -/
theorem split_exact (x : Bytes) : ∃ o : Outcome,
    (∀ (host : Host) (reads : List Bytes), host.Writes → Reads x reads →
      (start host reads).Leaves o) ∧
    (o.status = 0 ∨ o.status = 2) ∧ (o.status = 0 ↔ ∃ es, Export es x) ∧
    (o.cut = none ↔ ∀ es w, ¬GoesWrong x es w) ∧
    (∀ es w, GoesWrong x es w → o = ⟨2,outputOf x es,some (ascii (pathText es.length),w)⟩ ∧
      ∀ y fs, ¬Export fs (x++y)) ∧
    ∀ es, Export es x → o = ⟨0,outputOf x es,none⟩ ∧
      (∀ s ∈ es, s.1+s.2.length ≤ x.length ∧ (x.drop s.1).take s.2.length = s.2) ∧
      es.Pairwise (fun s t => s.1+s.2.length ≤ t.1) ∧
      (x.length < 2^64 → ∀ s ∈ es, s.1%2^64 = s.1 ∧ s.2.length%2^64 = s.2.length) := by
  refine ⟨outcome x,fun host reads hw hr => start_leaves hw hr,?_,⟨fun h => ?_,?_⟩,⟨?_,fun h => ?_⟩,
    fun es w h => ⟨outcome_goesWrong h,h.not_export⟩,fun es h => ?_⟩
  · rw [outcome]
    split
    · split
      · exact Or.inl rfl
      · exact Or.inr rfl
    · exact Or.inr rfl
  · rw [outcome] at h
    cases hs : Scan.initial.run 0 x with
    | error p =>
      rw [hs] at h
      cases h
    | ok t =>
      rw [hs] at h
      by_cases ha : t.phase = .afterArray
      · exact ⟨t.done,export_of_run hs ha⟩
      · simp only [if_neg ha] at h
        cases h
  · rintro ⟨es,h⟩
    rw [outcome_export h]
  · intro hcut es w h
    rw [outcome_goesWrong h] at hcut
    cases hcut
  · by_contra hcut
    obtain ⟨es,w,hw⟩ := outcome_cut hcut
    exact h es w hw
  · refine ⟨outcome_export h,h.slices.1,h.slices.2,fun hx s hs => ?_⟩
    have := (h.slices.1 s hs).1
    exact ⟨Nat.mod_eq_of_lt (by omega),Nat.mod_eq_of_lt (by omega)⟩

/-- A host that takes every write whole. -/
def Host.whole : Host where
  accepts _ n := some n
  accepts_pos h hn := by
    cases h
    exact hn
  accepts_le h := by
    cases h
    exact le_rfl

/-- One export, whose element is written whole, and one input that goes wrong behind the opening
brace of its first element. -/
theorem split_exact_sample :
    (∃ o : Outcome, (start Host.whole [ascii "[\x7b\x7d]"]).Leaves o ∧
      o = ⟨0,outputOf (ascii "[\x7b\x7d]") [(1,ascii "\x7b\x7d")],none⟩) ∧
    ∃ o : Outcome, (start Host.whole [ascii "[\x7b]"]).Leaves o ∧
      o = ⟨2,outputOf (ascii "[\x7b]") [],some (ascii (pathText 0),ascii "\x7b")⟩ := by
  have hwhole : Host.whole.Writes := fun _ _ => rfl
  have hbracket : ∀ c, Around c [c] := fun _ =>
    ⟨[],[],List.forall_mem_nil _,List.forall_mem_nil _,rfl⟩
  constructor
  · obtain ⟨o,hruns,-,-,-,-,h⟩ := split_exact (ascii "[\x7b\x7d]")
    have hexport : Export [(1,ascii "\x7b\x7d")] (ascii "[\x7b\x7d]") :=
      ⟨by decide,[91],[123,125],[93],hbracket 91,.one ⟨[],.nil,rfl⟩,hbracket 93,rfl⟩
    exact ⟨o,hruns _ _ hwhole ⟨rfl,by decide⟩,(h _ hexport).1⟩
  · obtain ⟨o,hruns,-,-,-,h,-⟩ := split_exact (ascii "[\x7b]")
    have hstop : ∃ sc f, Scanner.run lexis 4096 (Scanner.between [123]) [] = .ok sc ∧ sc.stack ≠ [] ∧
        sc.step lexis 4096 93 = .error f := ⟨_,.mismatch,rfl,by decide,rfl⟩
    have hwrong : GoesWrong (ascii "[\x7b]") [] (ascii "\x7b") :=
      ⟨by decide,[91],[],93,[],⟨[91],[],[],hbracket 91,.nil,rfl,rfl⟩,rfl,rfl,
        element_stops_iff.mpr hstop⟩
    exact ⟨o,hruns _ _ hwhole ⟨rfl,by decide⟩,(h _ _ hwrong).1⟩

/-- The exception is real: of the element in `[{]` a host that makes two reads of the input
finds the first byte on disk, and one that makes a single read finds nothing. -/
theorem split_cut_by_reads : ∃ (host : Host) (reads reads' : List Bytes), host.Writes ∧
    Reads (ascii "[\x7b]") reads ∧ Reads (ascii "[\x7b]") reads' ∧
    (start host reads).files = [(ascii "index.jsonl",[]),(ascii "conversation-000000.json",[])] ∧
    (start host reads').files =
      [(ascii "index.jsonl",[]),(ascii "conversation-000000.json",ascii "\x7b")] := by
  refine ⟨Host.whole,[ascii "[\x7b]"],[ascii "[\x7b",ascii "]"],fun _ _ => rfl,?_,?_,?_,?_⟩
  · exact ⟨rfl,by decide +kernel⟩
  · exact ⟨rfl,by decide +kernel⟩
  · decide +kernel
  · decide +kernel

end Stele.Splitter
