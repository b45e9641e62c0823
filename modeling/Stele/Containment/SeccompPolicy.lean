import Stele.Containment.Seccomp

/-! The compiled filter decides every call as the policy says. -/
namespace Stele
open Python Bpf

/-- struct seccomp_data. -/
structure SeccompData where
  nr : Word
  arch : Word
  instructionPointer : BitVec 64
  args : Fin 6 → BitVec 64

namespace SeccompData

def low (x : BitVec 64) : Word := x.setWidth 32
def high (x : BitVec 64) : Word := (x >>> 32).setWidth 32

/-- The data as 32-bit words, the low word of each longer one first. -/
def words (d : SeccompData) : List Word :=
  [d.nr,d.arch,low d.instructionPointer,high d.instructionPointer]++
    (List.finRange 6).flatMap fun i => [low (d.args i),high (d.args i)]

/-- A 32-bit load, which has to be aligned. -/
def load (d : SeccompData) (k : ℕ) : Option Word := if k%4 = 0 then d.words[k/4]? else none

end SeccompData

namespace Seccomp

variable {arch : Arch} {d : SeccompData}

/-- The number belongs to one of the names in the table of the architecture. -/
def Named (arch : Arch) (names : List Syscall) (nr : Word) : Prop :=
  ∃ n ∈ names, ∃ k, arch.table.lookup n = some k ∧ nr = BitVec.ofNat 32 k

/-- What the policy kills. -/
def Killed (arch : Arch) (d : SeccompData) : Prop :=
  d.arch ≠ BitVec.ofNat 32 arch.audit ∨
  (arch = .x8664 ∧ BitVec.ofNat 32 x32SyscallBit ≤ d.nr) ∨
  Named arch killedSyscalls d.nr ∨
  (Named arch [.clone] d.nr ∧ SeccompData.low (d.args 0) &&& BitVec.ofNat 32 cloneNewMask ≠ 0)

/-- A terminal-injection ioctl. -/
def Injects (arch : Arch) (d : SeccompData) : Prop :=
  Named arch [.ioctl] d.nr ∧ (SeccompData.low (d.args 1) = BitVec.ofNat 32 tiocsti ∨
    SeccompData.low (d.args 1) = BitVec.ofNat 32 tioclinux)

/-- The numbers of the names that the table has. -/
def Arch.numbers (arch : Arch) (names : List Syscall) : List ℕ := names.filterMap fun n => arch.table.lookup n

lemma named_iff {names : List Syscall} {nr : Word} :
    Named arch names nr ↔ nr ∈ (arch.numbers names).map (BitVec.ofNat 32) := by
  simp only [Named,Arch.numbers,List.mem_map,List.mem_filterMap]
  constructor
  · rintro ⟨n,hn,k,hk,rfl⟩
    exact ⟨k,⟨n,hn,hk⟩,rfl⟩
  · rintro ⟨k,⟨n,hn,hk⟩,rfl⟩
    exact ⟨n,hn,k,hk,rfl⟩

def Arch.cloneNr (arch : Arch) : ℕ := (arch.table.lookup .clone).getD 0
def Arch.ioctlNr (arch : Arch) : ℕ := (arch.table.lookup .ioctl).getD 0

/-- The end of the program: the ioctl rule and the default. -/
def ioctlRule (arch : Arch) : List Insn :=
  ⟨jeqK,0,6,arch.ioctlNr⟩ :: ⟨ldWAbs,0,0,24⟩ ::
    (returnOn [tiocsti,tioclinux] (retErrno ||| eperm)++[⟨retK,0,0,retAllow⟩,⟨retK,0,0,retAllow⟩])

/-- From the clone rule on. -/
def cloneRule (arch : Arch) : List Insn :=
  ⟨jeqK,0,4,arch.cloneNr⟩ :: ⟨ldWAbs,0,0,16⟩ :: ⟨jsetK,0,1,cloneNewMask⟩ :: ⟨retK,0,0,retKill⟩ ::
    ⟨retK,0,0,retAllow⟩ :: ioctlRule arch

/-- From the comparisons with single numbers on. -/
def numberRules (arch : Arch) : List Insn :=
  returnOn (arch.numbers killedSyscalls) retKill++
    (returnOn (arch.numbers enosysSyscalls) (retErrno ||| enosys)++cloneRule arch)

def x32Rule (arch : Arch) : List Insn :=
  if arch.rejectX32 then [⟨jgeK,0,1,x32SyscallBit⟩,⟨retK,0,0,retKill⟩] else []

/-- The whole program, in the blocks that decide. -/
def blocks (arch : Arch) : List Insn :=
  ⟨ldWAbs,0,0,4⟩ :: ⟨jeqK,1,0,arch.audit⟩ :: ⟨retK,0,0,retKill⟩ :: ⟨ldWAbs,0,0,0⟩ ::
    (x32Rule arch++numberRules arch)

lemma program_eq (arch : Arch) : program arch = .ok (blocks arch) := by cases arch <;> rfl

section Exec

variable {a : Word}

lemma exec_ioctlRule : exec d.load (ioctlRule arch) a =
    some (if a = BitVec.ofNat 32 arch.ioctlNr ∧ (SeccompData.low (d.args 1) = BitVec.ofNat 32 tiocsti ∨
      SeccompData.low (d.args 1) = BitVec.ofNat 32 tioclinux) then BitVec.ofNat 32 (retErrno ||| eperm)
      else BitVec.ofNat 32 retAllow) := by
  have hload : d.load 24 = some (SeccompData.low (d.args 1)) := rfl
  rw [ioctlRule,exec_jeq]
  by_cases h : a = BitVec.ofNat 32 arch.ioctlNr
  · rw [if_pos h,List.drop_zero,exec_ld hload,exec_returnOn]
    simp only [List.map_cons,List.map_nil,List.mem_cons,List.not_mem_nil,or_false,h,true_and]
    split_ifs
    · rfl
    · exact exec_ret
  · rw [if_neg h,if_neg fun hx => h hx.1]
    exact exec_ret

lemma exec_cloneRule : exec d.load (cloneRule arch) a =
    if a = BitVec.ofNat 32 arch.cloneNr then
      some (if SeccompData.low (d.args 0) &&& BitVec.ofNat 32 cloneNewMask ≠ 0
        then BitVec.ofNat 32 retKill else BitVec.ofNat 32 retAllow)
    else exec d.load (ioctlRule arch) a := by
  have hload : d.load 16 = some (SeccompData.low (d.args 0)) := rfl
  rw [cloneRule,exec_jeq]
  split_ifs with h hm
  · rw [List.drop_zero,exec_ld hload,exec_jset,if_pos hm]
    exact exec_ret
  · rw [List.drop_zero,exec_ld hload,exec_jset,if_neg hm]
    exact exec_ret
  · rfl

lemma exec_x32Rule (rest : List Insn) : exec d.load (x32Rule arch++rest) a =
    if arch = .x8664 ∧ BitVec.ofNat 32 x32SyscallBit ≤ a then some (BitVec.ofNat 32 retKill)
    else exec d.load rest a := by
  cases arch with
  | x8664 =>
    change exec d.load (⟨jgeK,0,1,x32SyscallBit⟩ :: ⟨retK,0,0,retKill⟩ :: rest) a = _
    rw [exec_jge]
    by_cases h : BitVec.ofNat 32 x32SyscallBit ≤ a
    · rw [if_pos h,if_pos ⟨rfl,h⟩]
      exact exec_ret
    · rw [if_neg h,if_neg fun hx => h hx.2]
      rfl
  | aarch64 =>
    rw [if_neg (fun h => by cases h.1)]
    rfl

/-- The program on any data: the first condition that holds decides. -/
lemma exec_blocks (d : SeccompData) : exec d.load (blocks arch) 0 = some (
    if d.arch ≠ BitVec.ofNat 32 arch.audit then BitVec.ofNat 32 retKill
    else if arch = .x8664 ∧ BitVec.ofNat 32 x32SyscallBit ≤ d.nr then BitVec.ofNat 32 retKill
    else if d.nr ∈ (arch.numbers killedSyscalls).map (BitVec.ofNat 32) then BitVec.ofNat 32 retKill
    else if d.nr ∈ (arch.numbers enosysSyscalls).map (BitVec.ofNat 32)
      then BitVec.ofNat 32 (retErrno ||| enosys)
    else if d.nr = BitVec.ofNat 32 arch.cloneNr then
      if SeccompData.low (d.args 0) &&& BitVec.ofNat 32 cloneNewMask ≠ 0
        then BitVec.ofNat 32 retKill else BitVec.ofNat 32 retAllow
    else if d.nr = BitVec.ofNat 32 arch.ioctlNr ∧
      (SeccompData.low (d.args 1) = BitVec.ofNat 32 tiocsti ∨
        SeccompData.low (d.args 1) = BitVec.ofNat 32 tioclinux)
      then BitVec.ofNat 32 (retErrno ||| eperm)
    else BitVec.ofNat 32 retAllow) := by
  have harch : d.load 4 = some d.arch := rfl
  have hnr : d.load 0 = some d.nr := rfl
  rw [blocks,exec_ld harch,exec_jeq]
  by_cases h : d.arch = BitVec.ofNat 32 arch.audit
  · rw [if_pos h,if_neg (not_not.mpr h)]
    change exec d.load (⟨ldWAbs,0,0,0⟩ :: (x32Rule arch++numberRules arch)) d.arch = _
    rw [exec_ld hnr,exec_x32Rule,numberRules,exec_returnOn,exec_returnOn,exec_cloneRule,exec_ioctlRule]
    simp only [apply_ite some]
  · rw [if_neg h,if_pos h]
    exact exec_ret

end Exec

lemma blocks_fit (arch : Arch) : ∀ i ∈ blocks arch, i.Fits := by
  cases arch <;> decide +kernel

lemma jumpsInside_blocks (arch : Arch) : JumpsInside (blocks arch) := by
  cases arch <;> decide +kernel

lemma mapM_pack {p : List Insn} (h : ∀ i ∈ p, i.Fits) : p.mapM pack = .ok (p.map Insn.encode) := by
  induction p with
  | nil => rfl
  | cons i p ih =>
    rw [List.mapM_cons,pack,if_pos (h i (by simp)),ih fun j hj => h j (List.mem_cons_of_mem _ hj)]
    rfl

/-- The octets of build_filter are the blocks, packed. -/
lemma buildFilter_eq {machine : PyStr} (h : normalizeMachine machine = some arch) :
    buildFilter machine = .ok ((blocks arch).flatMap Insn.encode) := by
  rw [buildFilter,h]
  simp only [program_eq,bind,Except.bind,mapM_pack (blocks_fit arch)]
  rfl

lemma named_single {n : Syscall} {k : ℕ} (h : arch.table.lookup n = some k) {nr : Word} :
    Named arch [n] nr ↔ nr = BitVec.ofNat 32 k := by
  constructor
  · rintro ⟨m,hm,j,hj,rfl⟩
    rw [List.mem_singleton.mp hm,h] at hj
    rw [Option.some.inj hj]
  · rintro rfl
    exact ⟨n,List.mem_singleton_self n,k,h,rfl⟩

lemma named_clone {nr : Word} : Named arch [.clone] nr ↔ nr = BitVec.ofNat 32 arch.cloneNr :=
  named_single (by cases arch <;> rfl)

lemma named_ioctl {nr : Word} : Named arch [.ioctl] nr ↔ nr = BitVec.ofNat 32 arch.ioctlNr :=
  named_single (by cases arch <;> rfl)

/-- No number has two rules. -/
lemma numbers_apart (arch : Arch) :
    BitVec.ofNat 32 arch.cloneNr ∉ (arch.numbers enosysSyscalls).map (BitVec.ofNat 32) ∧
    BitVec.ofNat 32 arch.ioctlNr ∉ (arch.numbers enosysSyscalls).map (BitVec.ofNat 32) ∧
    BitVec.ofNat 32 arch.cloneNr ≠ BitVec.ofNat 32 arch.ioctlNr := by
  cases arch <;> decide

lemma verdicts_apart : (BitVec.ofNat 32 retKill : Word) ≠ BitVec.ofNat 32 (retErrno ||| enosys) ∧
    (BitVec.ofNat 32 retKill : Word) ≠ BitVec.ofNat 32 (retErrno ||| eperm) ∧
    (BitVec.ofNat 32 retKill : Word) ≠ BitVec.ofNat 32 retAllow ∧
    (BitVec.ofNat 32 (retErrno ||| enosys) : Word) ≠ BitVec.ofNat 32 (retErrno ||| eperm) ∧
    (BitVec.ofNat 32 (retErrno ||| enosys) : Word) ≠ BitVec.ofNat 32 retAllow ∧
    (BitVec.ofNat 32 (retErrno ||| eperm) : Word) ≠ BitVec.ofNat 32 retAllow := by decide

/-- Which verdict a chain of conditions comes to, when no two of its later ones hold at once. -/
lemma chain_verdict {k e p a : Word} (hke : k ≠ e) (hkp : k ≠ p) (hka : k ≠ a) (hep : e ≠ p)
    (hea : e ≠ a) (hpa : p ≠ a) (A X K E C M I : Prop) [Decidable A] [Decidable X] [Decidable K]
    [Decidable E] [Decidable C] [Decidable M] [Decidable I] (hCE : C → ¬E) (hIE : I → ¬E)
    (hCI : C → ¬I) :
    let v := if A then k else if X then k else if K then k else if E then e
      else if C then if M then k else a else if I then p else a
    (v = k ↔ A ∨ X ∨ K ∨ C ∧ M) ∧ (v = e ↔ ¬(A ∨ X ∨ K ∨ C ∧ M) ∧ E) ∧
      (v = p ↔ ¬(A ∨ X ∨ K ∨ C ∧ M) ∧ I) ∧ (v = a ↔ ¬(A ∨ X ∨ K ∨ C ∧ M) ∧ ¬E ∧ ¬I) := by
  intro v
  by_cases hA : A
  · simp [v,hA,hke,hkp,hka]
  by_cases hX : X
  · simp [v,hA,hX,hke,hkp,hka]
  by_cases hK : K
  · simp [v,hA,hX,hK,hke,hkp,hka]
  by_cases hE : E
  · have hC : ¬C := fun h => hCE h hE
    have hI : ¬I := fun h => hIE h hE
    simp [v,hA,hX,hK,hE,hC,hI,hke.symm,hep,hea]
  by_cases hC : C
  · have hI := hCI hC
    by_cases hM : M
    · simp [v,hA,hX,hK,hE,hC,hM,hke,hkp,hka]
    · simp [v,hA,hX,hK,hE,hC,hM,hI,hka.symm,hea.symm,hpa.symm]
  by_cases hI : I
  · simp [v,hA,hX,hK,hE,hC,hI,hkp.symm,hep.symm,hpa]
  · simp [v,hA,hX,hK,hE,hC,hI,hka.symm,hea.symm,hpa.symm]

/-- build_filter gives a program for the supported architectures and only these; all its jumps
land inside it, and on any data it returns one verdict, the one the policy has for the call. -/
theorem filter_policy (machine : PyStr) :
    match normalizeMachine machine with
    | none => buildFilter machine = .error .valueError
    | some arch => ∃ octets prog, buildFilter machine = .ok octets ∧ Bpf.decode octets = some prog ∧
        JumpsInside prog ∧ ∀ d : SeccompData, ∃ v, exec d.load prog 0 = some v ∧
          (v = BitVec.ofNat 32 retKill ↔ Killed arch d) ∧
          (v = BitVec.ofNat 32 (retErrno ||| enosys) ↔
            ¬Killed arch d ∧ Named arch enosysSyscalls d.nr) ∧
          (v = BitVec.ofNat 32 (retErrno ||| eperm) ↔ ¬Killed arch d ∧ Injects arch d) ∧
          (v = BitVec.ofNat 32 retAllow ↔
            ¬Killed arch d ∧ ¬Named arch enosysSyscalls d.nr ∧ ¬Injects arch d) := by
  cases hm : normalizeMachine machine with
  | none =>
    simp only
    rw [buildFilter,hm]
  | some arch =>
    simp only
    refine ⟨_,_,buildFilter_eq hm,decode_encode (blocks_fit arch),jumpsInside_blocks arch,fun d => ?_⟩
    refine ⟨_,exec_blocks d,?_⟩
    obtain ⟨v1,v2,v3,v4,v5,v6⟩ := verdicts_apart
    obtain ⟨n1,n2,n3⟩ := numbers_apart arch
    unfold Killed Injects
    rw [named_clone,named_ioctl,named_iff,named_iff]
    exact chain_verdict v1 v2 v3 v4 v5 v6 _ _ _ _ _ _ _ (fun h => h ▸ n1) (fun h => h.1 ▸ n2)
      fun h hi => n3 (h.symm.trans hi.1)

end Seccomp

end Stele
