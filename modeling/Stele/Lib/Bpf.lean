import Mathlib.Data.List.Basic
import Mathlib.Tactic.Linarith

/-! Classic BPF: the instructions that seccomp filters are made of, their 8-byte encoding, and
what a program returns. Jumps only go forward, so a program is what is left of it. -/
namespace Bpf

/-- The numbers of a struct sock_filter. -/
structure Insn where
  code : ℕ
  jt : ℕ
  jf : ℕ
  k : ℕ
  deriving DecidableEq

abbrev Word := BitVec 32

/-- BPF_LD|BPF_W|BPF_ABS, BPF_JMP|BPF_K with BPF_JEQ, BPF_JGE and BPF_JSET, BPF_RET|BPF_K. -/
def ldWAbs : ℕ := 0x20
def jeqK : ℕ := 0x15
def jgeK : ℕ := 0x35
def jsetK : ℕ := 0x45
def retK : ℕ := 0x06

/-- The outcome of a conditional jump on the accumulator. -/
def Insn.test (i : Insn) (a : Word) : Option Bool :=
  if i.code = jeqK then some (decide (a = BitVec.ofNat 32 i.k))
  else if i.code = jgeK then some (decide (BitVec.ofNat 32 i.k ≤ a))
  else if i.code = jsetK then some (decide (a &&& BitVec.ofNat 32 i.k ≠ 0))
  else none

/-- What the program returns; `none` if it runs past its end, reads outside the data or meets
another instruction. -/
def exec (load : ℕ → Option Word) : List Insn → Word → Option Word
  | [],_ => none
  | i :: rest,a =>
    if i.code = retK then some (BitVec.ofNat 32 i.k)
    else if i.code = ldWAbs then
      match load i.k with
      | none => none
      | some v => exec load rest v
    else
      match i.test a with
      | none => none
      | some b => exec load (rest.drop (if b then i.jt else i.jf)) a
termination_by p => p.length
decreasing_by
  · simp
  · simp only [List.length_drop,List.length_cons]; omega

/-- Both targets of every jump are instructions of the program. -/
def JumpsInside : List Insn → Prop
  | [] => True
  | i :: rest => (i.code ≠ retK → i.code ≠ ldWAbs → i.jt < rest.length ∧ i.jf < rest.length) ∧
      JumpsInside rest

instance : (p : List Insn) → Decidable (JumpsInside p)
  | [] => isTrue trivial
  | i :: rest =>
    have := instDecidableJumpsInside rest
    inferInstanceAs (Decidable ((i.code ≠ retK → i.code ≠ ldWAbs →
      i.jt < rest.length ∧ i.jf < rest.length) ∧ JumpsInside rest))

section Exec

variable {load : ℕ → Option Word} {rest : List Insn} {a v : Word} {k jt jf : ℕ}

@[simp] lemma exec_ret : exec load (⟨retK,jt,jf,k⟩ :: rest) a = some (BitVec.ofNat 32 k) := by
  rw [exec]
  rfl

lemma exec_ld (h : load k = some v) : exec load (⟨ldWAbs,jt,jf,k⟩ :: rest) a = exec load rest v := by
  rw [exec,if_neg (by simp [ldWAbs,retK]),if_pos rfl,h]

lemma exec_jeq : exec load (⟨jeqK,jt,jf,k⟩ :: rest) a =
    exec load (rest.drop (if a = BitVec.ofNat 32 k then jt else jf)) a := by
  rw [exec,if_neg (by simp [jeqK,retK]),if_neg (by simp [jeqK,ldWAbs])]
  simp [Insn.test]

lemma exec_jge : exec load (⟨jgeK,jt,jf,k⟩ :: rest) a =
    exec load (rest.drop (if BitVec.ofNat 32 k ≤ a then jt else jf)) a := by
  rw [exec,if_neg (by simp [jgeK,retK]),if_neg (by simp [jgeK,ldWAbs])]
  simp [Insn.test,jgeK,jeqK]

lemma exec_jset : exec load (⟨jsetK,jt,jf,k⟩ :: rest) a =
    exec load (rest.drop (if a &&& BitVec.ofNat 32 k ≠ 0 then jt else jf)) a := by
  rw [exec,if_neg (by simp [jsetK,retK]),if_neg (by simp [jsetK,ldWAbs])]
  simp [Insn.test,jsetK,jgeK,jeqK]

/-- Return r on any of the numbers: one comparison after the other, each before its verdict. -/
def returnOn (ks : List ℕ) (r : ℕ) : List Insn := ks.flatMap fun k => [⟨jeqK,0,1,k⟩,⟨retK,0,0,r⟩]

lemma exec_returnOn (ks : List ℕ) (r : ℕ) : exec load (returnOn ks r++rest) a =
    if a ∈ ks.map (BitVec.ofNat 32) then some (BitVec.ofNat 32 r) else exec load rest a := by
  induction ks with
  | nil => rfl
  | cons k ks ih =>
    change exec load (⟨jeqK,0,1,k⟩ :: ⟨retK,0,0,r⟩ :: (returnOn ks r++rest)) a = _
    rw [exec_jeq,List.map_cons]
    by_cases h : a = BitVec.ofNat 32 k
    · rw [if_pos h,if_pos (List.mem_cons.mpr (Or.inl h))]
      exact exec_ret
    · rw [if_neg h]
      simp only [List.mem_cons,h,false_or]
      exact ih

end Exec

section Encoding

/-- n octets of a number, the least significant first. -/
def littleEndian : ℕ → ℕ → List UInt8
  | 0,_ => []
  | n+1,v => UInt8.ofNat v :: littleEndian n (v/256)

def ofLittleEndian : List UInt8 → ℕ
  | [] => 0
  | b :: s => b.toNat+256*ofLittleEndian s

/-- The numbers that fit their fields: unsigned short, two unsigned chars, unsigned int. -/
def Insn.Fits (i : Insn) : Prop := i.code < 2^16 ∧ i.jt < 2^8 ∧ i.jf < 2^8 ∧ i.k < 2^32

instance (i : Insn) : Decidable i.Fits := by unfold Insn.Fits; infer_instance

/-- A struct sock_filter, little-endian. -/
def Insn.encode (i : Insn) : List UInt8 :=
  littleEndian 2 i.code++(UInt8.ofNat i.jt :: UInt8.ofNat i.jf :: littleEndian 4 i.k)

/-- The array of struct sock_filter that the octets are; `none` when the last one is cut. -/
def decode : List UInt8 → Option (List Insn)
  | [] => some []
  | a :: b :: c :: d :: e :: f :: g :: h :: rest =>
    (decode rest).map fun p =>
      ⟨ofLittleEndian [a,b],c.toNat,d.toNat,ofLittleEndian [e,f,g,h]⟩ :: p
  | _ => none

lemma decode_encode_cons {i : Insn} (h : i.Fits) (rest : List UInt8) :
    decode (i.encode++rest) = (decode rest).map fun p => i :: p := by
  obtain ⟨code,jt,jf,k⟩ := i
  obtain ⟨h1,h2,h3,h4⟩ := h
  dsimp only at h1 h2 h3 h4
  simp only [Insn.encode,littleEndian,List.cons_append,List.nil_append,decode,ofLittleEndian,
    UInt8.toNat_ofNat']
  refine congrArg (fun j => (decode rest).map fun p => j :: p) ?_
  rw [Insn.mk.injEq]
  omega

/-- Reading back what was packed. -/
theorem decode_encode {p : List Insn} (h : ∀ i ∈ p, i.Fits) :
    decode (p.flatMap Insn.encode) = some p := by
  induction p with
  | nil => rfl
  | cons i p ih =>
    rw [List.flatMap_cons,decode_encode_cons (h i (by simp)),ih fun j hj => h j (List.mem_cons_of_mem _ hj)]
    rfl

end Encoding

end Bpf
