import Stele.Containment.Sandbox
import Stele.Python.JsonRoundTrip
import Stele.Python.Strings

/-! The command line of the container backend: one value for each option up to the image, mounts as
comma-separated fields, environment entries up to their first "=". What it accepts reads back as the
declared sandbox. -/
namespace Stele
open Python

inductive EngineKind
  | podman
  | docker
  deriving DecidableEq

/-- What the container engine reports about itself, as far as a command line depends on it. -/
structure EngineInfo where
  kind : EngineKind
  gpuFlags : List PyStr
  /-- The flags that parse_engine_info gives. -/
  gpuFlags_form : gpuFlags ∈ [[],[lit "--device",lit "nvidia.com/gpu=all"],[lit "--gpus",lit "all"]]

/-- _Probe. -/
structure Probe where
  engine : Option PyStr
  info : Option EngineInfo
  imageId : Option PyStr
  problem : Option PyStr

/-- The backend's own settings; cpus and pids_limit as str() gives them. -/
structure OciBackend where
  image : PyStr
  runtime : PyStr
  gpu : Bool
  memory : PyStr
  cpus : PyStr
  pidsLimit : PyStr
  tmpfsSize : PyStr

def isNameStart (c : CodePoint) : Bool :=
  decide (65 ≤ c.val ∧ c.val ≤ 90) || decide (97 ≤ c.val ∧ c.val ≤ 122) || decide (c = cp '_')

/-- _ENV_KEY_RE.match(key): "$" also matches before a newline at the end. -/
def isEnvKey (key : PyStr) : Bool :=
  match if key.getLast? = some (cp '\n') then key.dropLast else key with
  | [] => false
  | c :: s => isNameStart c && s.all fun c => isNameStart c || isDigit c

/-- The characters that would change a mount spec. -/
def isMountSpecial (c : CodePoint) : Bool := decide (c ∈ [cp ',',cp '"',cp '\n',cp '\r',0])

/-- The fields of a --mount value. -/
def bindFields (src dst : PyStr) (readonly : Bool) : List PyStr :=
  [lit "type=bind",lit "source="++src,lit "target="++dst]++(if readonly then [lit "readonly"] else [])

/-- _bind. -/
def bindMount (src dst : PyStr) (readonly : Bool) : Except Exc PyStr :=
  if (bindFields src dst readonly).any (fun field => field.any isMountSpecial) then .error .valueError
  else .ok (List.intercalate [cp ','] (bindFields src dst readonly))

/-- The variables of every run. -/
def ownEnvironment (config : SandboxConfig) : Dict PyStr PyStr :=
  (lit "STELE_OUTPUT_DIR",sandboxOutput) :: config.inputPath.toList.map fun path => (lit "STELE_INPUT_PATH",inputDest path)

/-- env.update(config.env), in the order of the dict. -/
def environment (config : SandboxConfig) : Dict PyStr PyStr :=
  config.env.foldl (fun d p => d.set p.1 p.2) (ownEnvironment config)

/-- f"{key}={val}". -/
def envEntry (p : PyStr × PyStr) : Except Exc PyStr :=
  if isEnvKey p.1 then .ok (p.1++lit "="++p.2) else .error .valueError

namespace OciBackend

/-- probe.image_id or self.image. -/
def imageWord (b : OciBackend) (probe : Probe) : PyStr :=
  match probe.imageId with
  | some i => if i = [] then b.image else i
  | none => b.image

/-- What is given to podman only. -/
def podmanArgs (kind : EngineKind) (config : SandboxConfig) : Except Exc (List PyStr) :=
  match kind with
  | .docker => .ok []
  | .podman => match strInt (max 1 config.timeoutSeconds).toNat with
    | none => .error .valueError
    | some t => .ok [lit "--read-only-tmpfs=false",lit "--timeout",t]

def userArgs : Option (ℕ × ℕ) → List PyStr
  | none => [lit "--userns",lit "keep-id"]
  | some (uid,gid) => [lit "--user",natText uid++lit ":"++natText gid]

/-- build_argv. -/
def buildArgv (mkdir : Except Exc Unit) (b : OciBackend) (probe : Probe) (config : SandboxConfig)
    (containerName : PyStr) (user : Option (ℕ × ℕ)) : Except Exc (List PyStr) :=
  match probe.problem,probe.info,probe.engine,config.command with
  | none,some info,some engine,entry :: args => do
    let podman ← podmanArgs info.kind config
    mkdir
    let output ← bindMount config.artifactDir.toStr sandboxOutput false
    let input ← config.inputPath.toList.mapM fun path => bindMount path.toStr (inputDest path) true
    let script ← config.scriptPath.toList.mapM fun path => bindMount path.toStr sandboxScript true
    let extra ← config.extraRoBinds.mapM fun b => bindMount b.1 b.2 true
    let env ← (environment config).mapM envEntry
    return [engine,lit "run",lit "--rm",lit "--name",containerName,lit "--pull",lit "never",lit "--runtime",b.runtime,
        lit "--network",lit "none",lit "--read-only",lit "--cap-drop",lit "ALL",lit "--security-opt",
        lit "no-new-privileges",lit "--ipc",lit "private",lit "--memory",b.memory,lit "--memory-swap",b.memory,
        lit "--cpus",b.cpus,lit "--pids-limit",b.pidsLimit]
      ++podman++userArgs user++(if b.gpu then info.gpuFlags else [])
      ++(lit "/tmp" :: ephemeralTmpfs).flatMap (fun path =>
        [lit "--tmpfs",path++lit ":rw,nosuid,nodev,size="++b.tmpfsSize++lit ",mode=1777"])
      ++[lit "--mount",output]++(input++script++extra).flatMap (fun m => [lit "--mount",m])
      ++env.flatMap (fun e => [lit "--env",e])++[lit "--workdir",sandboxOutput]
      ++[lit "--entrypoint",entry,b.imageWord probe]++args
  | none,some _,some _,[] => .error .valueError
  | _,_,_,_ => .error .unsupportedBackend

end OciBackend

namespace Engine

/-- The options of an engine's run that mount something or are given here, with the number of their
values. -/
def options : Dict PyStr ℕ :=
  [(lit "--rm",0),(lit "--name",1),(lit "--pull",1),(lit "--runtime",1),(lit "--network",1),(lit "--read-only",0),
   (lit "--cap-drop",1),(lit "--security-opt",1),(lit "--ipc",1),(lit "--memory",1),(lit "--memory-swap",1),
   (lit "--cpus",1),(lit "--pids-limit",1),(lit "--read-only-tmpfs=false",0),(lit "--timeout",1),
   (lit "--userns",1),(lit "--user",1),(lit "--device",1),(lit "--gpus",1),(lit "--tmpfs",1),(lit "--mount",1),
   (lit "--volume",1),(lit "-v",1),(lit "--env",1),(lit "--workdir",1),(lit "--entrypoint",1)]

def arity (word : PyStr) : Option ℕ := options.get word

/-- A mount that an engine is asked for. -/
structure Mount where
  type : PyStr
  source : PyStr
  target : PyStr
  readonly : Bool
  deriving DecidableEq

/-- One field of a --mount value. -/
def mountField (m : Mount) (field : PyStr) : Option Mount :=
  match partition (lit "=") field with
  | none => if field = lit "readonly" then some { m with readonly := true } else none
  | some (key,value) =>
    if key = lit "type" then some { m with type := value }
    else if key = lit "source" then some { m with source := value }
    else if key = lit "target" then some { m with target := value }
    else none

/-- A --mount value: one line of comma-separated fields, none of them quoted. -/
def parseMount (value : PyStr) : Option Mount :=
  if value.any fun c => decide (c ∈ [cp '"',cp '\n',cp '\r']) then none
  else (value.splitOn (cp ',')).foldlM mountField ⟨[],[],[],false⟩

/-- A container that a command line asks for. -/
structure View where
  options : List (PyStr × List PyStr)
  image : PyStr
  args : List PyStr

/-- The words of an engine: its name, run, the options, the image, and what it is to run there. -/
def decode : List PyStr → Option View
  | _ :: sub :: words =>
    if sub ≠ lit "run" then none
    else match Options.read arity (words.length+1) words with
      | some (options,image :: args) => if image.head? = some (cp '-') then none else some ⟨options,image,args⟩
      | _ => none
  | _ => none

namespace View

/-- What one option says, each time it is given. -/
def values (s : View) (name : PyStr) : List PyStr := (Options.pick name s.options).flatten

/-- The mounts; `none` if one of them cannot be read. -/
def mounts (s : View) : Option (List Mount) := (s.values (lit "--mount")).mapM parseMount

def volumes (s : View) : List PyStr := s.values (lit "--volume")++s.values (lit "-v")

/-- The environment, split at the first "=". -/
def env (s : View) : Option (List (PyStr × PyStr)) := (s.values (lit "--env")).mapM (partition (lit "="))

def command (s : View) : List PyStr := s.values (lit "--entrypoint")++s.args

end View

/-- The options that say what is bound, what the environment and the command are, and whether there is
a network. -/
def telling : List PyStr :=
  [lit "--network",lit "--mount",lit "--volume",lit "-v",lit "--env",lit "--entrypoint"]

/-- Options that are none of them. -/
def Neutral (os : List (PyStr × List PyStr)) : Prop := ∀ o ∈ os, arity o.1 = some o.2.length ∧ o.1 ∉ telling

section Neutral

variable {os os' : List (PyStr × List PyStr)} {n word : PyStr}

lemma Neutral.fits (h : Neutral os) : Options.Fits arity os := fun o ho => (h o ho).1

lemma Neutral.pick (h : Neutral os) (hn : n ∈ telling) : Options.pick n os = [] := by
  induction os with
  | nil => rfl
  | cons o os ih =>
    obtain ⟨⟨-,ho⟩,hos⟩ := List.forall_mem_cons.mp h
    have hne : o.1 ≠ n := by
      rintro rfl
      exact ho hn
    rw [Options.pick_cons,if_neg hne,ih hos]

/-- A word that is an option begins with "-". -/
lemma arity_none (h : word.head? ≠ some (cp '-')) : arity word = none := by
  have htable : ∀ p ∈ options, p.1.head? = some (cp '-') := by decide +kernel
  cases harity : arity word with
  | none => rfl
  | some k => exact absurd (htable _ (Dict.mem_of_get (d := options) harity)) h

end Neutral

end Engine

section Mounts

variable {src dst value : PyStr} {readonly : Bool}

/-- The fields of a mount whose values have no special character are read one by one. -/
lemma parseMount_intercalate {fields : List PyStr} (h : ∀ field ∈ fields, ∀ c ∈ field, isMountSpecial c = false)
    (hne : fields ≠ []) :
    Engine.parseMount (List.intercalate [cp ','] fields) = fields.foldlM Engine.mountField ⟨[],[],[],false⟩ := by
  have hline : ∀ c ∈ List.intercalate [cp ','] fields, c ∉ [cp '"',cp '\n',cp '\r'] := by
    refine forall_mem_intercalate (by simp) fun field hfield c hc hspecial => ?_
    have hnot := h field hfield c hc
    rw [isMountSpecial,decide_eq_false_iff_not] at hnot
    simp only [List.mem_cons,List.not_mem_nil,or_false] at hspecial hnot
    tauto
  have hcomma : ∀ field ∈ fields, cp ',' ∉ field := fun field hfield hc => by
    have hnot := h field hfield _ hc
    revert hnot
    decide
  rw [Engine.parseMount,if_neg,List.splitOn_intercalate _ hcomma hne]
  intro hany
  obtain ⟨c,hc,hspecial⟩ := List.any_eq_true.mp hany
  exact hline c hc (of_decide_eq_true hspecial)

lemma mountField_value {key : PyStr} (hkey : cp '=' ∉ key) (v : PyStr) :
    partition (lit "=") (key++lit "="++v) = some (key,v) := partition_append [] hkey v

/-- A mount that is accepted says what was asked for, and nothing else. -/
lemma parseMount_bindMount (h : bindMount src dst readonly = .ok value) :
    Engine.parseMount value = some ⟨lit "bind",src,dst,readonly⟩ := by
  unfold bindMount at h
  split_ifs at h with hspecial
  · obtain rfl := Except.ok.inj h
    rw [parseMount_intercalate]
    · have htype : Engine.mountField ⟨[],[],[],false⟩ (lit "type=bind") = some ⟨lit "bind",[],[],false⟩ := by
        decide +kernel
      have hsource : Engine.mountField ⟨lit "bind",[],[],false⟩ (lit "source="++src) = some ⟨lit "bind",src,[],false⟩ := by
        rw [Engine.mountField,show lit "source=" = lit "source"++lit "=" from rfl,mountField_value (by decide)]
        simp
      have htarget : Engine.mountField ⟨lit "bind",src,[],false⟩ (lit "target="++dst) = some ⟨lit "bind",src,dst,false⟩ := by
        rw [Engine.mountField,show lit "target=" = lit "target"++lit "=" from rfl,mountField_value (by decide)]
        simp
      have hreadonly : Engine.mountField ⟨lit "bind",src,dst,false⟩ (lit "readonly") = some ⟨lit "bind",src,dst,true⟩ := by
        rw [Engine.mountField,show partition (lit "=") (lit "readonly") = none from by decide +kernel]
        simp
      cases readonly with
      | false =>
        simp only [bindFields,Bool.false_eq_true,if_false,List.append_nil,List.foldlM_cons,htype,hsource,htarget,
          Option.bind_eq_bind,Option.bind_some,List.foldlM_nil]
        rfl
      | true =>
        simp only [bindFields,if_true,List.cons_append,List.nil_append,List.foldlM_cons,htype,hsource,htarget,hreadonly,
          Option.bind_eq_bind,Option.bind_some,List.foldlM_nil]
        rfl
    · intro field hfield c hc
      by_contra hc'
      rw [Bool.not_eq_false] at hc'
      exact hspecial (List.any_eq_true.mpr ⟨field,hfield,List.any_eq_true.mpr ⟨c,hc,hc'⟩⟩)
    · simp [bindFields]

lemma parseMounts {ps : List (PyStr × PyStr)} {ms : List PyStr}
    (h : ps.mapM (fun p => bindMount p.1 p.2 true) = .ok ms) :
    ms.mapM Engine.parseMount = some (ps.map fun p => ⟨lit "bind",p.1,p.2,true⟩) := by
  rw [mapM_ok] at h
  induction h with
  | nil => rfl
  | cons hp _ ih => rw [List.mapM_cons,parseMount_bindMount hp,ih]; rfl

end Mounts

section Environment

variable {p : PyStr × PyStr} {entry : PyStr}

/-- A name has no "=", so an entry is split where the name ends. -/
lemma partition_envEntry (h : envEntry p = .ok entry) : partition (lit "=") entry = some p := by
  unfold envEntry at h
  split_ifs at h with hkey
  obtain rfl := Except.ok.inj h
  refine mountField_value (fun hmem => ?_) p.2
  have hchars : ∀ (c : CodePoint) (s : PyStr),
      (isNameStart c && s.all fun c => isNameStart c || isDigit c) = true → cp '=' ∉ c :: s := by
    intro c s hs hmem
    rw [Bool.and_eq_true,List.all_eq_true] at hs
    rcases List.mem_cons.mp hmem with rfl | hmem
    · exact absurd hs.1 (by decide)
    · exact absurd (hs.2 _ hmem) (by decide)
  unfold isEnvKey at hkey
  split_ifs at hkey with hnewline
  · obtain ⟨s,hs⟩ := List.getLast?_eq_some_iff.mp hnewline
    rw [hs,List.dropLast_concat] at hkey
    rw [hs,List.mem_append] at hmem
    rcases hmem with hmem | hmem
    · cases s with
      | nil => cases hkey
      | cons c s => exact hchars c s hkey hmem
    · exact absurd hmem (by decide)
  · cases hs : p.1 with
    | nil =>
      rw [hs] at hkey
      cases hkey
    | cons c s =>
      rw [hs] at hkey hmem
      exact hchars c s hkey hmem

lemma partition_envEntries {ps : List (PyStr × PyStr)} {es : List PyStr} (h : ps.mapM envEntry = .ok es) :
    es.mapM (partition (lit "=")) = some ps := by
  rw [mapM_ok] at h
  induction h with
  | nil => rfl
  | cons hp _ ih => rw [List.mapM_cons,partition_envEntry hp,ih]; rfl

/-- What a run is given is the configuration's environment, over the variables of every run. -/
lemma environment_get (config : SandboxConfig) (key : PyStr) :
    (environment config).get key = (config.env.get key).or ((ownEnvironment config).get key) := by
  have hupdate : ∀ (env d : Dict PyStr PyStr), env.keys.Nodup →
      (env.foldl (fun d p => d.set p.1 p.2) d).get key = (env.get key).or (d.get key) := by
    intro env
    induction env with
    | nil => exact fun d _ => rfl
    | cons p env ih =>
      intro d hnodup
      rw [Dict.keys,List.map_cons,List.nodup_cons] at hnodup
      rw [List.foldl_cons,ih _ hnodup.2,Dict.get_set,Dict.get_cons]
      by_cases hkey : key = p.1
      · rw [if_pos hkey,if_pos hkey,hkey,Dict.get_eq_none.mpr hnodup.1]
        rfl
      · rw [if_neg hkey,if_neg hkey]
  exact hupdate config.env _ config.env_nodup

end Environment

namespace OciBackend

variable {mkdir : Except Exc Unit} {b : OciBackend} {probe : Probe} {config : SandboxConfig} {name : PyStr}
  {user : Option (ℕ × ℕ)} {argv : List PyStr}

open Engine

lemma podmanArgs_words {kind : EngineKind} {ws : List PyStr} (h : podmanArgs kind config = .ok ws) :
    ∃ os, ws = Options.words os ∧ Neutral os := by
  cases kind with
  | docker => exact ⟨[],(Except.ok.inj h).symm,nofun⟩
  | podman =>
    unfold podmanArgs at h
    dsimp only at h
    split at h
    · cases h
    · rename_i t ht
      refine ⟨[(lit "--read-only-tmpfs=false",[]),(lit "--timeout",[t])],(Except.ok.inj h).symm,?_⟩
      simp only [Neutral,List.forall_mem_cons]
      exact ⟨by decide +kernel,⟨show arity (lit "--timeout") = some 1 by decide +kernel,by decide +kernel⟩,nofun⟩

lemma userArgs_words (user : Option (ℕ × ℕ)) : ∃ os, userArgs user = Options.words os ∧ Neutral os := by
  cases user with
  | none =>
    refine ⟨[(lit "--userns",[lit "keep-id"])],rfl,?_⟩
    simp only [Neutral,List.forall_mem_cons]
    exact ⟨by decide +kernel,nofun⟩
  | some u =>
    refine ⟨[(lit "--user",[natText u.1++lit ":"++natText u.2])],rfl,?_⟩
    simp only [Neutral,List.forall_mem_cons]
    exact ⟨⟨show arity (lit "--user") = some 1 by decide +kernel,by decide +kernel⟩,nofun⟩

lemma gpuArgs_words (info : EngineInfo) (gpu : Bool) :
    ∃ os, (if gpu then info.gpuFlags else []) = Options.words os ∧ Neutral os := by
  cases gpu with
  | false => exact ⟨[],rfl,nofun⟩
  | true =>
    have hform := info.gpuFlags_form
    simp only [List.mem_cons,List.not_mem_nil,or_false] at hform
    rw [if_pos rfl]
    rcases hform with h | h | h
    · exact ⟨[],h,nofun⟩
    · exact ⟨[(lit "--device",[lit "nvidia.com/gpu=all"])],h,by
        simp only [Neutral,List.forall_mem_cons]
        exact ⟨by decide +kernel,nofun⟩⟩
    · exact ⟨[(lit "--gpus",[lit "all"])],h,by
        simp only [Neutral,List.forall_mem_cons]
        exact ⟨by decide +kernel,nofun⟩⟩

/-- The options of a run, up to what the engine's kind, the user and the GPUs add. -/
def declared (b : OciBackend) (name : PyStr) (extra : List (PyStr × List PyStr)) (mounts env : List PyStr)
    (entry : PyStr) : List (PyStr × List PyStr) :=
  [(lit "--rm",[]),(lit "--name",[name]),(lit "--pull",[lit "never"]),(lit "--runtime",[b.runtime]),
      (lit "--network",[lit "none"]),(lit "--read-only",[]),(lit "--cap-drop",[lit "ALL"]),
      (lit "--security-opt",[lit "no-new-privileges"]),(lit "--ipc",[lit "private"]),(lit "--memory",[b.memory]),
      (lit "--memory-swap",[b.memory]),(lit "--cpus",[b.cpus]),(lit "--pids-limit",[b.pidsLimit])]
    ++extra
    ++(lit "/tmp" :: ephemeralTmpfs).map (fun path =>
      (lit "--tmpfs",[path++lit ":rw,nosuid,nodev,size="++b.tmpfsSize++lit ",mode=1777"]))
    ++mounts.map (fun m => (lit "--mount",[m]))++env.map (fun e => (lit "--env",[e]))
    ++[(lit "--workdir",[sandboxOutput]),(lit "--entrypoint",[entry])]

lemma declared_fits {extra : List (PyStr × List PyStr)} (hextra : Options.Fits arity extra) (b : OciBackend)
    (name : PyStr) (mounts env : List PyStr) (entry : PyStr) :
    Options.Fits arity (declared b name extra mounts env entry) := by
  have hone : ∀ {β : Type} {n : PyStr} {f : β → PyStr}, arity n = some 1 →
      ∀ l : List β, Options.Fits arity (l.map fun x => (n,[f x])) := by
    intro β n f hn l o ho
    obtain ⟨x,-,rfl⟩ := List.mem_map.mp ho
    exact hn
  simp only [declared,Options.fits_append]
  refine ⟨⟨⟨⟨⟨?_,hextra⟩,hone (by decide +kernel) _⟩,hone (by decide +kernel) _⟩,hone (by decide +kernel) _⟩,?_⟩
  all_goals
    simp only [Options.fits_cons,Options.fits_nil,List.length_cons,List.length_nil]
    decide +kernel

/-- The words of a run are those of its options, the image, and the rest of the command. -/
lemma buildArgv_words (h : buildArgv mkdir b probe config name user = .ok argv) :
    ∃ engine extra output input script binds env entry args, config.command = entry :: args ∧ Neutral extra
      ∧ bindMount config.artifactDir.toStr sandboxOutput false = .ok output
      ∧ config.inputPath.toList.mapM (fun path => bindMount path.toStr (inputDest path) true) = .ok input
      ∧ config.scriptPath.toList.mapM (fun path => bindMount path.toStr sandboxScript true) = .ok script
      ∧ config.extraRoBinds.mapM (fun b => bindMount b.1 b.2 true) = .ok binds
      ∧ (environment config).mapM envEntry = .ok env
      ∧ argv = engine :: lit "run" ::
        (Options.words (declared b name extra (output :: (input++script++binds)) env entry)++b.imageWord probe :: args) := by
  unfold buildArgv at h
  split at h
  · rename_i info engine entry args _ _ _ hcommand
    obtain ⟨podman,hpodman,h⟩ := except_bind_ok.mp h
    obtain ⟨-,-,h⟩ := except_bind_ok.mp h
    obtain ⟨output,houtput,h⟩ := except_bind_ok.mp h
    obtain ⟨input,hinput,h⟩ := except_bind_ok.mp h
    obtain ⟨script,hscript,h⟩ := except_bind_ok.mp h
    obtain ⟨binds,hbinds,h⟩ := except_bind_ok.mp h
    obtain ⟨env,henv,h⟩ := except_bind_ok.mp h
    obtain ⟨os₁,rfl,h₁⟩ := podmanArgs_words hpodman
    obtain ⟨os₂,hwords₂,h₂⟩ := userArgs_words user
    obtain ⟨os₃,hwords₃,h₃⟩ := gpuArgs_words info b.gpu
    rw [hwords₂,hwords₃] at h
    refine ⟨engine,os₁++os₂++os₃,output,input,script,binds,env,entry,args,hcommand,?_,houtput,hinput,hscript,hbinds,
      henv,?_⟩
    · simp only [Neutral,List.forall_mem_append]
      exact ⟨⟨h₁,h₂⟩,h₃⟩
    · obtain rfl := Except.ok.inj h
      have hmap : ∀ {β : Type} (n : PyStr) (f : β → List PyStr) (l : List β),
          Options.words (l.map fun x => (n,f x)) = l.flatMap fun x => n :: f x := fun n f l => List.flatMap_map _ _ l
      simp [declared,hmap]
  · cases h
  · cases h

/-- The mounts of a configuration: only the artifact directory can be written. -/
def binds (config : SandboxConfig) : List Mount :=
  ⟨lit "bind",config.artifactDir.toStr,sandboxOutput,false⟩
    :: ((config.inputPath.toList.map fun path => (path.toStr,inputDest path))
      ++(config.scriptPath.toList.map fun path => (path.toStr,sandboxScript))++config.extraRoBinds).map
        fun p => ⟨lit "bind",p.1,p.2,true⟩

/-- The words of a run, read back: the binds, the environment and the command are the configuration's,
and there is no network. -/
theorem buildArgv_decode (h : buildArgv mkdir b probe config name user = .ok argv)
    (himage : (b.imageWord probe).head? ≠ some (cp '-')) :
    ∃ s, Engine.decode argv = some s ∧ s.image = b.imageWord probe ∧ s.values (lit "--network") = [lit "none"]
      ∧ s.mounts = some (binds config) ∧ s.volumes = [] ∧ s.env = some (environment config)
      ∧ s.command = config.command := by
  obtain ⟨engine,extra,output,input,script,ro,env,entry,args,hcommand,hextra,houtput,hinput,hscript,hro,henv,rfl⟩ :=
    buildArgv_words h
  have hfits := declared_fits hextra.fits b name (output :: (input++script++ro)) env entry
  have hpick : ∀ n ∈ telling, Options.pick n extra = [] := fun n hn => hextra.pick hn
  simp only [telling,List.forall_mem_cons] at hpick
  obtain ⟨hnetwork,hmount,hvolume,hv,henvs,hentry,-⟩ := hpick
  have hone : ∀ l : List PyStr, (l.map fun x => [x]).flatten = l := fun l => by
    rw [← List.flatMap_def,List.flatMap_singleton']
  refine ⟨⟨declared b name extra (output :: (input++script++ro)) env entry,b.imageWord probe,args⟩,?_,rfl,?_,?_,?_,?_,?_⟩
  · have hstop : ∀ a ∈ (b.imageWord probe :: args).head?, arity a = none := by simpa using arity_none himage
    have hread := Options.read_words hfits hstop (Nat.lt_succ_self _)
    simp only [Engine.decode,ne_eq,not_true_eq_false,if_false,hread,if_neg himage]
  · simp [View.values,declared,Options.pick_cons,Options.pick_map_other,hnetwork]
  · have hall : (((config.inputPath.toList.map fun path => (path.toStr,inputDest path))
        ++(config.scriptPath.toList.map fun path => (path.toStr,sandboxScript))++config.extraRoBinds).mapM
          fun p => bindMount p.1 p.2 true) = .ok (input++script++ro) := by
      rw [mapM_ok] at hinput hscript hro ⊢
      exact List.rel_append (List.rel_append (List.forall₂_map_left_iff.mpr hinput) (List.forall₂_map_left_iff.mpr hscript)) hro
    have hvalues : View.values ⟨declared b name extra (output :: (input++script++ro)) env entry,b.imageWord probe,args⟩
        (lit "--mount") = output :: (input++script++ro) := by
      simp [View.values,declared,Options.pick_cons,Options.pick_map_other,hmount,hone]
    rw [View.mounts,hvalues,List.mapM_cons,parseMount_bindMount houtput,parseMounts hall]
    rfl
  · simp [View.volumes,View.values,declared,Options.pick_cons,Options.pick_map_other,hvolume,hv]
  · have hvalues : View.values ⟨declared b name extra (output :: (input++script++ro)) env entry,b.imageWord probe,args⟩
        (lit "--env") = env := by
      simp [View.values,declared,Options.pick_cons,Options.pick_map_other,henvs,hone]
    rw [View.env,hvalues,partition_envEntries henv]
  · rw [hcommand]
    simp [View.command,View.values,declared,Options.pick_cons,Options.pick_map_other,hentry]

end OciBackend

/-- Command lines cannot be injected: whatever the strings of a configuration are, the words that either
backend accepts read back as the configuration's sandbox. -/
theorem sandbox_argv (config : SandboxConfig) (hcommand : config.command ≠ []) :
    (∀ {mkdir fd landlock argv}, BubblewrapSandbox.buildArgv mkdir config fd landlock = .ok argv →
      ∃ s, Bwrap.decode argv = some s ∧ s.writable = [[config.artifactDir.toStr,sandboxOutput]] ∧ s.networkOff
        ∧ s.readonly = BubblewrapSandbox.roBinds config landlock ∧ s.env = BubblewrapSandbox.settings config
        ∧ BubblewrapSandbox.Runs config s.command landlock)
    ∧ ∀ {mkdir b probe name user argv}, OciBackend.buildArgv mkdir b probe config name user = .ok argv →
      (b.imageWord probe).head? ≠ some (cp '-') →
      ∃ s, Engine.decode argv = some s ∧ s.image = b.imageWord probe ∧ s.values (lit "--network") = [lit "none"]
        ∧ s.mounts = some (OciBackend.binds config) ∧ s.volumes = []
        ∧ (OciBackend.binds config).filter (fun m => !m.readonly)
          = [⟨lit "bind",config.artifactDir.toStr,sandboxOutput,false⟩]
        ∧ (∃ env, s.env = some env ∧ ∀ key, Dict.get env key = (config.env.get key).or ((ownEnvironment config).get key))
        ∧ s.command = config.command := by
  refine ⟨fun h => ?_,fun h himage => ?_⟩
  · exact BubblewrapSandbox.buildArgv_decode h hcommand
  · obtain ⟨s,hs,hword,hnetwork,hmounts,hvolumes,henv,hcmd⟩ := OciBackend.buildArgv_decode h himage
    refine ⟨s,hs,hword,hnetwork,hmounts,hvolumes,?_,⟨_,henv,environment_get config⟩,hcmd⟩
    rw [OciBackend.binds,List.filter_cons_of_pos rfl,List.filter_eq_nil_iff.mpr]
    intro m hm
    obtain ⟨p,-,rfl⟩ := List.mem_map.mp hm
    simp

/-- Strings that look like options, separators and ends of options. -/
def hostileConfig : SandboxConfig where
  command := [lit "--",lit "--bind",lit "/"]
  artifactDir := ⟨1,[lit "--bind",lit "out=1"]⟩
  inputPath := some ⟨1,[lit "in",lit "--mount=type=bind"]⟩
  scriptPath := none
  extraRoBinds := [(lit "--",lit "/x=readonly"),(lit "--bind",lit "/stele/output")]
  env := [(lit "STELE_INPUT_PATH",lit "=--share-net")]
  timeoutSeconds := -5
  execAllowlist := [lit "--",lit "--write"]
  writableScratch := false
  maxOutputBytes := 0
  maxOutputFiles := 0
  env_nodup := List.nodup_singleton _

def plainBackend : OciBackend := ⟨lit "python:3.12",lit "runc",false,lit "2g",lit "2.0",lit "512",lit "256m"⟩

def podmanProbe : Probe := ⟨some (lit "/usr/bin/podman"),some ⟨.podman,[],by simp⟩,some (lit "sha256:2f17"),none⟩

/-- What such strings are read back as. -/
theorem sandbox_argv_hostile :
    (∃ argv s, BubblewrapSandbox.buildArgv (.ok ()) hostileConfig none (some ⟨lit "python3",lit "--exec"⟩) = .ok argv
      ∧ Bwrap.decode argv = some s ∧ s.writable = [[hostileConfig.artifactDir.toStr,sandboxOutput]]
      ∧ BubblewrapSandbox.Runs hostileConfig s.command (some ⟨lit "python3",lit "--exec"⟩))
    ∧ ∃ argv s, OciBackend.buildArgv (.ok ()) plainBackend podmanProbe hostileConfig (lit "--rm") none = .ok argv
      ∧ Engine.decode argv = some s ∧ s.mounts = some (OciBackend.binds hostileConfig)
      ∧ s.command = hostileConfig.command := by
  obtain ⟨hbwrap,hoci⟩ := sandbox_argv hostileConfig (by decide)
  have hok : (OciBackend.buildArgv (.ok ()) plainBackend podmanProbe hostileConfig (lit "--rm") none).toOption.isSome
      = true := by decide +kernel
  cases hargv : OciBackend.buildArgv (.ok ()) plainBackend podmanProbe hostileConfig (lit "--rm") none with
  | error e =>
    rw [hargv] at hok
    cases hok
  | ok argv =>
    obtain ⟨s,hs,hwritable,-,-,-,hruns⟩ :=
      @hbwrap (.ok ()) none (some ⟨lit "python3",lit "--exec"⟩) _ rfl
    obtain ⟨t,ht,-,-,hmounts,-,-,-,hcommand⟩ := hoci hargv (by decide +kernel)
    exact ⟨⟨_,s,rfl,hs,hwritable,hruns⟩,argv,t,rfl,ht,hmounts,hcommand⟩

end Stele
