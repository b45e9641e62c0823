import Stele.Errors
import Stele.Lib.Bpf

/-! The seccomp filter of the bubblewrap backend: the policy's tables, and the classic-BPF
program that is compiled from them. -/
namespace Stele
open Python Bpf

inductive Syscall
  | ptrace | processVmReadv | processVmWritev | kcmp | pidfdGetfd | processMadvise | keyctl
  | addKey | requestKey | bpf | perfEventOpen | userfaultfd | kexecLoad | kexecFileLoad
  | initModule | finitModule | deleteModule | mount | umount2 | pivotRoot | chroot | unshare
  | setns | openTree | moveMount | fsopen | fsconfig | fsmount | fspick | mountSetattr
  | openByHandleAt | nameToHandleAt | acct | swapon | swapoff | reboot | syslog | quotactl
  | quotactlFd | lookupDcookie | iopl | ioperm | uselib | sysctl | clone3 | ioUringSetup
  | ioUringEnter | ioUringRegister | clone | ioctl
  deriving DecidableEq

namespace Seccomp

/-- SECCOMP_RET_KILL_PROCESS, SECCOMP_RET_ERRNO, SECCOMP_RET_ALLOW. -/
def retKill : ℕ := 0x80000000
def retErrno : ℕ := 0x00050000
def retAllow : ℕ := 0x7FFF0000

/-- _OFF_NR and _OFF_ARCH. -/
def offNr : ℕ := 0
def offArch : ℕ := 4

/-- _arg_low: the low word of an argument. -/
def argLow (index : ℕ) : ℕ := 16+8*index

def eperm : ℕ := 1
def enosys : ℕ := 38

/-- _CLONE_NEW_MASK. -/
def cloneNewMask : ℕ := 0x7E020000

/-- _X32_SYSCALL_BIT. -/
def x32SyscallBit : ℕ := 0x40000000

def tiocsti : ℕ := 0x5412
def tioclinux : ℕ := 0x541C

/-- KILLED_SYSCALLS. -/
def killedSyscalls : List Syscall :=
  [.ptrace,.processVmReadv,.processVmWritev,.kcmp,.pidfdGetfd,.processMadvise,.keyctl,.addKey,
   .requestKey,.bpf,.perfEventOpen,.userfaultfd,.kexecLoad,.kexecFileLoad,.initModule,
   .finitModule,.deleteModule,.mount,.umount2,.pivotRoot,.chroot,.unshare,.setns,.openTree,
   .moveMount,.fsopen,.fsconfig,.fsmount,.fspick,.mountSetattr,.openByHandleAt,.nameToHandleAt,
   .acct,.swapon,.swapoff,.reboot,.syslog,.quotactl,.quotactlFd,.lookupDcookie,.iopl,.ioperm,
   .uselib,.sysctl]

/-- ENOSYS_SYSCALLS. -/
def enosysSyscalls : List Syscall := [.clone3,.ioUringSetup,.ioUringEnter,.ioUringRegister]

abbrev Table := List (Syscall × ℕ)

/-- _COMMON_NEW. -/
def commonNew : Table :=
  [(.openTree,428),(.moveMount,429),(.fsopen,430),(.fsconfig,431),(.fsmount,432),(.fspick,433),
   (.clone3,435),(.pidfdGetfd,438),(.processMadvise,440),(.mountSetattr,442),(.quotactlFd,443),
   (.ioUringSetup,425),(.ioUringEnter,426),(.ioUringRegister,427)]

/-- _X86_64. -/
def x8664Table : Table :=
  [(.ptrace,101),(.processVmReadv,310),(.processVmWritev,311),(.kcmp,312),(.keyctl,250),
   (.addKey,248),(.requestKey,249),(.bpf,321),(.perfEventOpen,298),(.userfaultfd,323),
   (.kexecLoad,246),(.kexecFileLoad,320),(.initModule,175),(.finitModule,313),(.deleteModule,176),
   (.mount,165),(.umount2,166),(.pivotRoot,155),(.chroot,161),(.unshare,272),(.setns,308),
   (.openByHandleAt,304),(.nameToHandleAt,303),(.acct,163),(.swapon,167),(.swapoff,168),
   (.reboot,169),(.syslog,103),(.quotactl,179),(.lookupDcookie,212),(.iopl,172),(.ioperm,173),
   (.uselib,134),(.sysctl,156),(.clone,56),(.ioctl,16)]++
  commonNew

/-- _AARCH64. -/
def aarch64Table : Table :=
  [(.ptrace,117),(.processVmReadv,270),(.processVmWritev,271),(.kcmp,272),(.keyctl,219),
   (.addKey,217),(.requestKey,218),(.bpf,280),(.perfEventOpen,241),(.userfaultfd,282),
   (.kexecLoad,104),(.kexecFileLoad,294),(.initModule,105),(.finitModule,273),(.deleteModule,106),
   (.mount,40),(.umount2,39),(.pivotRoot,41),(.chroot,51),(.unshare,97),(.setns,268),
   (.openByHandleAt,265),(.nameToHandleAt,264),(.acct,89),(.swapon,224),(.swapoff,225),
   (.reboot,142),(.syslog,116),(.quotactl,60),(.lookupDcookie,18),(.clone,220),(.ioctl,29)]++
  commonNew

inductive Arch
  | x8664
  | aarch64
  deriving DecidableEq

namespace Arch

def name : Arch → PyStr
  | x8664 => lit "x86_64"
  | aarch64 => lit "aarch64"

/-- _ARCHES: AUDIT_ARCH_*, the syscall table, and whether x32 numbers are rejected. -/
def audit : Arch → ℕ
  | x8664 => 0xC000003E
  | aarch64 => 0xC00000B7

def table : Arch → Table
  | x8664 => x8664Table
  | aarch64 => aarch64Table

def rejectX32 : Arch → Bool
  | x8664 => true
  | aarch64 => false

end Arch

/-- str.lower(), as far as the names of architectures can tell: no other character than an
ASCII capital becomes a letter of theirs. -/
def lowerAscii (s : PyStr) : PyStr :=
  s.map fun c => if 65 ≤ c.val ∧ c.val ≤ 90 then Fin.ofNat _ (c.val+32) else c

/-- normalize_machine. -/
def normalizeMachine (machine : PyStr) : Option Arch :=
  let m := lowerAscii machine
  let m := if m = lit "amd64" then lit "x86_64" else if m = lit "arm64" then lit "aarch64" else m
  if m = Arch.name .x8664 then some .x8664 else if m = Arch.name .aarch64 then some .aarch64 else none

def stmt (code k : ℕ) : Insn := ⟨code,0,0,k⟩
def jump (code k jt jf : ℕ) : Insn := ⟨code,jt,jf,k⟩

/-- table[name]. -/
def number (table : Table) (name : Syscall) : Except Exc ℕ :=
  match table.lookup name with
  | none => .error .keyError
  | some n => .ok n

/-- The rules: a syscall and its verdict. -/
def ruleNames (table : Table) : List (Syscall × ℕ) :=
  (killedSyscalls.filter fun n => (table.lookup n).isSome).map (fun n => (n,retKill))++
    enosysSyscalls.map fun n => (n,retErrno ||| enosys)

/-- The instructions of build_filter. -/
def program (arch : Arch) : Except Exc (List Insn) := do
  let table := arch.table
  let start := [stmt ldWAbs offArch,jump jeqK arch.audit 1 0,stmt retK retKill,stmt ldWAbs offNr]
  let x32 := if arch.rejectX32 then [jump jgeK x32SyscallBit 0 1,stmt retK retKill] else []
  let rules ← (ruleNames table).mapM fun r => do
    let n ← number table r.1
    return [jump jeqK n 0 1,stmt retK r.2]
  let clone ← number table .clone
  let cloneRule := [jump jeqK clone 0 4,stmt ldWAbs (argLow 0),jump jsetK cloneNewMask 0 1,
    stmt retK retKill,stmt retK retAllow]
  let ioctl ← number table .ioctl
  let injection := [tiocsti,tioclinux]
  let ioctlRule := [jump jeqK ioctl 0 (2*injection.length+2),stmt ldWAbs (argLow 1)]
  let commands := injection.flatMap fun cmd => [jump jeqK cmd 0 1,stmt retK (retErrno ||| eperm)]
  return start++x32++rules.flatten++cloneRule++ioctlRule++commands++
    [stmt retK retAllow]++[stmt retK retAllow]

/-- struct.pack("<HBBI", *ins); a number that does not fit is a struct.error. -/
def pack (i : Insn) : Except Exc (List UInt8) := if i.Fits then .ok i.encode else .error .valueError

/-- build_filter. -/
def buildFilter (machine : PyStr) : Except Exc Bytes :=
  match normalizeMachine machine with
  | none => .error .valueError
  | some arch => do
    let prog ← program arch
    let parts ← prog.mapM pack
    return parts.flatten

end Seccomp

end Stele
