import Stele.Errors
import Stele.Lib.Dict
import Stele.Lib.Options
import Stele.Python.Path

/-! The command line of the bubblewrap sandbox and of the Landlock launcher in it. Read back by the
fixed number of values each option takes, it is the declared sandbox, whatever the strings of the
configuration are. -/
namespace Python

/-- path.name. -/
def PurePath.name (p : PurePath) : PyStr := p.parts.getLastD []

end Python

namespace Stele
open Python

def sandboxOutput : PyStr := lit "/stele/output"
def sandboxInputDir : PyStr := lit "/stele/input"
def sandboxScript : PyStr := lit "/stele/parser"
def sandboxLandlock : PyStr := lit "/stele/landlock"

/-- _LANDLOCK_WRITE_DEVICES, _SYS_RO_REQUIRED, _SYS_RO_TRY and _EPHEMERAL_TMPFS. -/
def landlockWriteDevices : List PyStr := [lit "/dev/null",lit "/dev/zero",lit "/dev/full"]
def sysRoRequired : List PyStr := [lit "/usr"]
def sysRoTry : List PyStr := [lit "/lib",lit "/lib64",lit "/lib32",lit "/lib/x86_64-linux-gnu"]
def ephemeralTmpfs : List PyStr := [lit "/home",lit "/mnt",lit "/root",lit "/run",lit "/var"]

/-- One sandboxed parser invocation. -/
structure SandboxConfig where
  command : List PyStr
  artifactDir : PurePath
  inputPath : Option PurePath
  scriptPath : Option PurePath
  extraRoBinds : List (PyStr × PyStr)
  env : Dict PyStr PyStr
  timeoutSeconds : ℤ
  execAllowlist : List PyStr
  writableScratch : Bool
  maxOutputBytes : ℕ
  maxOutputFiles : ℕ
  env_nodup : env.keys.Nodup

/-- How to start the Landlock launcher: an interpreter in the sandbox, and the launcher's host path. -/
structure LandlockLaunch where
  python : PyStr
  script : PyStr

/-- Where the input is in the sandbox. -/
def inputDest (path : PurePath) : PyStr := sandboxInputDir++lit "/"++path.name

namespace BubblewrapSandbox

/-- _landlock_prefix. -/
def landlockPrefix (config : SandboxConfig) : Option LandlockLaunch → List PyStr
  | none => []
  | some l =>
    [l.python,lit "-I",lit "-S",lit "-B",sandboxLandlock,lit "--write",sandboxOutput]
      ++(if config.writableScratch then [lit "--write",lit "/tmp"] else [])
      ++landlockWriteDevices.flatMap (fun device => [lit "--write-dev",device])
      ++config.execAllowlist.flatMap (fun program => [lit "--exec",program])
      ++[lit "--"]

/-- build_argv; making the artifact directory can fail. -/
def buildArgv (mkdir : Except Exc Unit) (config : SandboxConfig) (seccompFd : Option ℕ)
    (landlock : Option LandlockLaunch) : Except Exc (List PyStr) := do
  mkdir
  return [lit "bwrap"]
    ++sysRoRequired.flatMap (fun path => [lit "--ro-bind",path,path])
    ++sysRoTry.flatMap (fun path => [lit "--ro-bind-try",path,path])
    ++[lit "--proc",lit "/proc"]++[lit "--dev",lit "/dev"]++[lit "--tmpfs",lit "/tmp"]
    ++ephemeralTmpfs.flatMap (fun path => [lit "--tmpfs",path])
    ++[lit "--bind",config.artifactDir.toStr,sandboxOutput]
    ++config.inputPath.toList.flatMap (fun path => [lit "--ro-bind",path.toStr,inputDest path])
    ++config.scriptPath.toList.flatMap (fun path => [lit "--ro-bind",path.toStr,sandboxScript])
    ++config.extraRoBinds.flatMap (fun b => [lit "--ro-bind",b.1,b.2])
    ++landlock.toList.flatMap (fun l => [lit "--ro-bind",l.script,sandboxLandlock])
    ++[lit "--remount-ro",lit "/"]
    ++[lit "--unshare-user",lit "--uid",lit "0",lit "--gid",lit "0",lit "--unshare-net",lit "--unshare-pid",
      lit "--unshare-uts",lit "--unshare-ipc",lit "--unshare-cgroup-try",lit "--new-session",
      lit "--die-with-parent"]
    ++seccompFd.toList.flatMap (fun fd => [lit "--seccomp",natText fd])
    ++[lit "--clearenv"]
    ++[lit "--setenv",lit "PATH",lit "/usr/local/bin:/usr/bin:/bin"]
    ++[lit "--setenv",lit "STELE_OUTPUT_DIR",sandboxOutput]
    ++config.inputPath.toList.flatMap (fun path => [lit "--setenv",lit "STELE_INPUT_PATH",inputDest path])
    ++config.env.flatMap (fun p => [lit "--setenv",p.1,p.2])
    ++[lit "--chdir",sandboxOutput]
    ++([lit "--"]++landlockPrefix config landlock++config.command)

end BubblewrapSandbox

namespace Landlock

/-- What the launcher is told. -/
structure Args where
  writeDirs : List PyStr
  writeDevices : List PyStr
  execFiles : List PyStr

/-- The option loop of main: the arguments, and what follows "--"; `none` is "bad argument". -/
def mainLoop : List PyStr → Args → Option (Args × List PyStr)
  | [],args => some (args,[])
  | [a],args => if a = lit "--" then some (args,[]) else none
  | a :: v :: rest,args =>
    if a = lit "--" then some (args,v :: rest)
    else if a = lit "--write" then mainLoop rest { args with writeDirs := args.writeDirs++[v] }
    else if a = lit "--write-dev" then mainLoop rest { args with writeDevices := args.writeDevices++[v] }
    else if a = lit "--exec" then mainLoop rest { args with execFiles := args.execFiles++[v] }
    else none

/-- The arguments and the command of main; `none` is the exit with a launcher failure. -/
def main (argv : List PyStr) : Option (Args × List PyStr) :=
  match mainLoop argv ⟨[],[],[]⟩ with
  | some (args,command) => if command = [] then none else some (args,command)
  | none => none

section Loop

variable {args : Args} {rest : List PyStr}

lemma mainLoop_end (args : Args) (rest : List PyStr) : mainLoop (lit "--" :: rest) args = some (args,rest) := by
  cases rest with
  | nil => rw [mainLoop,if_pos rfl]
  | cons v rest => rw [mainLoop,if_pos rfl]

lemma mainLoop_write (v : PyStr) (rest : List PyStr) (args : Args) :
    mainLoop (lit "--write" :: v :: rest) args = mainLoop rest { args with writeDirs := args.writeDirs++[v] } := by
  rw [mainLoop,if_neg (by simp),if_pos rfl]

/-- Each of these words is taken as a device, also one that looks like an option. -/
lemma mainLoop_devices (vs : List PyStr) (args : Args) :
    mainLoop (vs.flatMap (fun v => [lit "--write-dev",v])++rest) args
      = mainLoop rest { args with writeDevices := args.writeDevices++vs } := by
  induction vs generalizing args with
  | nil => rw [List.append_nil]; rfl
  | cons v vs ih =>
    rw [List.flatMap_cons,List.append_assoc,List.cons_append,List.singleton_append,mainLoop,if_neg (by simp),
      if_neg (by simp),if_pos rfl,ih,List.append_assoc,List.singleton_append]

lemma mainLoop_programs (vs : List PyStr) (args : Args) :
    mainLoop (vs.flatMap (fun v => [lit "--exec",v])++rest) args
      = mainLoop rest { args with execFiles := args.execFiles++vs } := by
  induction vs generalizing args with
  | nil => rw [List.append_nil]; rfl
  | cons v vs ih =>
    rw [List.flatMap_cons,List.append_assoc,List.cons_append,List.singleton_append,mainLoop,if_neg (by simp),
      if_neg (by simp),if_neg (by simp),if_pos rfl,ih,List.append_assoc,List.singleton_append]

end Loop

end Landlock

namespace Bwrap

/-- The options of bwrap that bind a host path or are given here, with the number of their values. -/
def options : Dict PyStr ℕ :=
  [(lit "--bind",2),(lit "--bind-try",2),(lit "--dev-bind",2),(lit "--dev-bind-try",2),(lit "--ro-bind",2),
   (lit "--ro-bind-try",2),(lit "--proc",1),(lit "--dev",1),(lit "--tmpfs",1),(lit "--remount-ro",1),
   (lit "--unshare-user",0),(lit "--uid",1),(lit "--gid",1),(lit "--unshare-net",0),(lit "--share-net",0),
   (lit "--unshare-pid",0),(lit "--unshare-uts",0),(lit "--unshare-ipc",0),(lit "--unshare-cgroup-try",0),
   (lit "--new-session",0),(lit "--die-with-parent",0),(lit "--seccomp",1),(lit "--clearenv",0),
   (lit "--setenv",2),(lit "--chdir",1)]

def arity (word : PyStr) : Option ℕ := options.get word

/-- A sandbox that a command line asks for. -/
structure View where
  options : List (PyStr × List PyStr)
  command : List PyStr

/-- The words of bwrap: its options, "--", the command. -/
def decode : List PyStr → Option View
  | [] => none
  | _ :: words =>
    match Options.read arity (words.length+1) words with
    | some (options,word :: command) => if word = lit "--" then some ⟨options,command⟩ else none
    | _ => none

namespace View

/-- The host paths that can be written, with where they are. -/
def writable (s : View) : List (List PyStr) :=
  Options.pick (lit "--bind") s.options++Options.pick (lit "--bind-try") s.options
    ++Options.pick (lit "--dev-bind") s.options++Options.pick (lit "--dev-bind-try") s.options

def readonly (s : View) : List (List PyStr) :=
  Options.pick (lit "--ro-bind") s.options++Options.pick (lit "--ro-bind-try") s.options

def env (s : View) : List (List PyStr) := Options.pick (lit "--setenv") s.options

def networkOff (s : View) : Prop :=
  Options.pick (lit "--unshare-net") s.options ≠ [] ∧ Options.pick (lit "--share-net") s.options = []

end View

end Bwrap

namespace BubblewrapSandbox

/-- The options of a configuration. -/
def declared (config : SandboxConfig) (seccompFd : Option ℕ) (landlock : Option LandlockLaunch) :
    List (PyStr × List PyStr) :=
  sysRoRequired.map (fun path => (lit "--ro-bind",[path,path]))
    ++sysRoTry.map (fun path => (lit "--ro-bind-try",[path,path]))
    ++[(lit "--proc",[lit "/proc"]),(lit "--dev",[lit "/dev"]),(lit "--tmpfs",[lit "/tmp"])]
    ++ephemeralTmpfs.map (fun path => (lit "--tmpfs",[path]))
    ++[(lit "--bind",[config.artifactDir.toStr,sandboxOutput])]
    ++config.inputPath.toList.map (fun path => (lit "--ro-bind",[path.toStr,inputDest path]))
    ++config.scriptPath.toList.map (fun path => (lit "--ro-bind",[path.toStr,sandboxScript]))
    ++config.extraRoBinds.map (fun b => (lit "--ro-bind",[b.1,b.2]))
    ++landlock.toList.map (fun l => (lit "--ro-bind",[l.script,sandboxLandlock]))
    ++[(lit "--remount-ro",[lit "/"]),(lit "--unshare-user",[]),(lit "--uid",[lit "0"]),(lit "--gid",[lit "0"]),
      (lit "--unshare-net",[]),(lit "--unshare-pid",[]),(lit "--unshare-uts",[]),(lit "--unshare-ipc",[]),
      (lit "--unshare-cgroup-try",[]),(lit "--new-session",[]),(lit "--die-with-parent",[])]
    ++seccompFd.toList.map (fun fd => (lit "--seccomp",[natText fd]))
    ++[(lit "--clearenv",[]),(lit "--setenv",[lit "PATH",lit "/usr/local/bin:/usr/bin:/bin"]),
      (lit "--setenv",[lit "STELE_OUTPUT_DIR",sandboxOutput])]
    ++config.inputPath.toList.map (fun path => (lit "--setenv",[lit "STELE_INPUT_PATH",inputDest path]))
    ++config.env.map (fun p => (lit "--setenv",[p.1,p.2]))
    ++[(lit "--chdir",[sandboxOutput])]

lemma words_map {β : Type} (n : PyStr) (f : β → List PyStr) (l : List β) :
    Options.words (l.map fun b => (n,f b)) = l.flatMap fun b => n :: f b := List.flatMap_map _ _ l

lemma fits_map {β : Type} {n : PyStr} {k : ℕ} {f : β → List PyStr} (hn : Bwrap.arity n = some k)
    (hf : ∀ b, (f b).length = k) (l : List β) : Options.Fits Bwrap.arity (l.map fun b => (n,f b)) := by
  intro o ho
  obtain ⟨b,-,rfl⟩ := List.mem_map.mp ho
  rw [hn,hf]

lemma buildArgv_words {config : SandboxConfig} {fd : Option ℕ} {landlock : Option LandlockLaunch} :
    buildArgv (.ok ()) config fd landlock = .ok (lit "bwrap" :: (Options.words (declared config fd landlock)
      ++lit "--" :: (landlockPrefix config landlock++config.command))) := by
  simp [buildArgv,declared,words_map]

lemma declared_fits (config : SandboxConfig) (fd : Option ℕ) (landlock : Option LandlockLaunch) :
    Options.Fits Bwrap.arity (declared config fd landlock) := by
  have hro : Bwrap.arity (lit "--ro-bind") = some 2 := by decide +kernel
  have htry : Bwrap.arity (lit "--ro-bind-try") = some 2 := by decide +kernel
  have htmpfs : Bwrap.arity (lit "--tmpfs") = some 1 := by decide +kernel
  have hseccomp : Bwrap.arity (lit "--seccomp") = some 1 := by decide +kernel
  have hsetenv : Bwrap.arity (lit "--setenv") = some 2 := by decide +kernel
  simp only [declared,Options.fits_append]
  refine ⟨⟨⟨⟨⟨⟨⟨⟨⟨⟨⟨⟨⟨⟨fits_map hro (fun _ => rfl) _,fits_map htry (fun _ => rfl) _⟩,?_⟩,
    fits_map htmpfs (fun _ => rfl) _⟩,?_⟩,fits_map hro (fun _ => rfl) _⟩,fits_map hro (fun _ => rfl) _⟩,
    fits_map hro (fun _ => rfl) _⟩,fits_map hro (fun _ => rfl) _⟩,?_⟩,fits_map hseccomp (fun _ => rfl) _⟩,?_⟩,
    fits_map hsetenv (fun _ => rfl) _⟩,fits_map hsetenv (fun _ => rfl) _⟩,?_⟩
  all_goals
    simp only [Options.fits_cons,Options.fits_nil,List.length_cons,List.length_nil]
    decide +kernel

/-- The launcher's own loop gives back what the sandbox declares, and the command. -/
lemma landlockPrefix_main (config : SandboxConfig) (l : LandlockLaunch) (h : config.command ≠ []) :
    ∃ words, landlockPrefix config (some l) = [l.python,lit "-I",lit "-S",lit "-B",sandboxLandlock]++words
      ∧ Landlock.main (words++config.command)
        = some (⟨sandboxOutput :: (if config.writableScratch then [lit "/tmp"] else []),landlockWriteDevices,
          config.execAllowlist⟩,config.command) := by
  refine ⟨[lit "--write",sandboxOutput]++((if config.writableScratch then [lit "--write",lit "/tmp"] else [])
      ++(landlockWriteDevices.flatMap (fun device => [lit "--write-dev",device])
      ++(config.execAllowlist.flatMap (fun program => [lit "--exec",program])++[lit "--"]))),?_,?_⟩
  · simp [landlockPrefix]
  · have hloop : Landlock.mainLoop ([lit "--write",sandboxOutput]++((if config.writableScratch then
        [lit "--write",lit "/tmp"] else [])++(landlockWriteDevices.flatMap (fun device => [lit "--write-dev",device])
        ++(config.execAllowlist.flatMap (fun program => [lit "--exec",program])++[lit "--"])))++config.command)
        ⟨[],[],[]⟩ = some (⟨sandboxOutput :: (if config.writableScratch then [lit "/tmp"] else []),
          landlockWriteDevices,config.execAllowlist⟩,config.command) := by
      simp only [List.append_assoc,List.cons_append,List.nil_append]
      rw [Landlock.mainLoop_write]
      cases config.writableScratch with
      | false =>
        rw [if_neg Bool.false_ne_true,if_neg Bool.false_ne_true,List.nil_append,Landlock.mainLoop_devices,
          Landlock.mainLoop_programs,Landlock.mainLoop_end]
        rfl
      | true =>
        rw [if_pos rfl,if_pos rfl,List.cons_append,List.cons_append,List.nil_append,Landlock.mainLoop_write,
          Landlock.mainLoop_devices,Landlock.mainLoop_programs,Landlock.mainLoop_end]
        rfl
    rw [Landlock.main,hloop]
    exact if_neg h

/-- What the sandbox runs: the command, or the launcher that confines itself and then runs it. -/
def Runs (config : SandboxConfig) (command : List PyStr) : Option LandlockLaunch → Prop
  | none => command = config.command
  | some l => ∃ words, command = [l.python,lit "-I",lit "-S",lit "-B",sandboxLandlock]++words
      ∧ Landlock.main words = some (⟨sandboxOutput :: (if config.writableScratch then [lit "/tmp"] else []),
        landlockWriteDevices,config.execAllowlist⟩,config.command)

/-- The read-only binds of a configuration. -/
def roBinds (config : SandboxConfig) (landlock : Option LandlockLaunch) : List (List PyStr) :=
  sysRoRequired.map (fun path => [path,path])
    ++config.inputPath.toList.map (fun path => [path.toStr,inputDest path])
    ++config.scriptPath.toList.map (fun path => [path.toStr,sandboxScript])
    ++config.extraRoBinds.map (fun b => [b.1,b.2])
    ++landlock.toList.map (fun l => [l.script,sandboxLandlock])
    ++sysRoTry.map (fun path => [path,path])

/-- The variables of a configuration, each over the ones before it. -/
def settings (config : SandboxConfig) : List (List PyStr) :=
  [[lit "PATH",lit "/usr/local/bin:/usr/bin:/bin"],[lit "STELE_OUTPUT_DIR",sandboxOutput]]
    ++config.inputPath.toList.map (fun path => [lit "STELE_INPUT_PATH",inputDest path])
    ++config.env.map (fun p => [p.1,p.2])

/-- The words of a sandbox, read back: its only writable bind is the artifact directory, the network is
off, and it runs the command under the declared confinement. -/
theorem buildArgv_decode {mkdir : Except Exc Unit} {config : SandboxConfig} {fd : Option ℕ}
    {landlock : Option LandlockLaunch} {argv : List PyStr} (h : buildArgv mkdir config fd landlock = .ok argv)
    (hcommand : config.command ≠ []) :
    ∃ s, Bwrap.decode argv = some s ∧ s.writable = [[config.artifactDir.toStr,sandboxOutput]] ∧ s.networkOff
      ∧ s.readonly = roBinds config landlock ∧ s.env = settings config ∧ Runs config s.command landlock := by
  cases mkdir with
  | error e => cases h
  | ok _ =>
  rw [buildArgv_words] at h
  obtain rfl := Except.ok.inj h
  refine ⟨⟨declared config fd landlock,landlockPrefix config landlock++config.command⟩,?_,?_,?_,?_,?_,?_⟩
  · have hstop : Bwrap.arity (lit "--") = none := by decide +kernel
    rw [Bwrap.decode,Options.read_words (declared_fits config fd landlock) (by simpa using hstop) (Nat.lt_succ_self _)]
    simp
  · simp [Bwrap.View.writable,declared,Options.pick_cons,Options.pick_map_other]
  · simp [Bwrap.View.networkOff,declared,Options.pick_cons,Options.pick_map_other]
  · simp [Bwrap.View.readonly,declared,roBinds,Options.pick_cons,Options.pick_map_other]
  · simp [Bwrap.View.env,declared,settings,Options.pick_cons,Options.pick_map_other]
  · cases landlock with
    | none => rfl
    | some l =>
      obtain ⟨words,hwords,hmain⟩ := landlockPrefix_main config l hcommand
      exact ⟨words++config.command,by rw [hwords,List.append_assoc],hmain⟩

end BubblewrapSandbox

end Stele
