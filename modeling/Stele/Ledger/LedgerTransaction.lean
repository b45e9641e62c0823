import Stele.Ledger.Alone
import Stele.Ledger.Store
import Stele.Python.Objects

/-! ledger_transaction: a sandbox run becomes a PENDING record, which the end of the with block
seals or fails. -/
namespace Stele
open Python Interleaving

/-- What ledger_transaction reads of a sandbox run. -/
structure SandboxResult where
  runId : PyStr
  exitCode : ℤ
  timedOut : Bool
  /-- failure is not None -/
  failed : Bool
  artifactDir : PurePath
  artifactPaths : List PurePath
  inputSha256 : Option PyStr
  inputSnapshot : Option Snapshot
  backend : Option PyStr
  imageDigest : Option PyStr
  moduleSha256 : Option PyStr
  artifactBundleDigest : Option PyStr
  /-- telemetry.limits; empty without telemetry -/
  limits : Dict PyStr PyVal

def SandboxResult.succeeded (r : SandboxResult) : Bool :=
  !r.failed && decide (r.exitCode = 0) && !r.timedOut

/-- measured_parser_identity. -/
def measuredParserIdentity (parser : ParserIdentity) (r : SandboxResult) :
    Except Exc ParserIdentity :=
  if parser.imageDigest ≠ none ∧ parser.imageDigest ≠ r.imageDigest then .error .provenance
  else if parser.moduleSha256 ≠ none ∧ parser.moduleSha256 ≠ r.moduleSha256 then .error .provenance
  else (ParserIdentity.make (.str parser.name) (.str parser.version)
    (RunConditions.optionPy .str r.imageDigest) (RunConditions.optionPy .str r.moduleSha256)).elim
      (.error .valueError) .ok

/-- _check_input. -/
def checkInput (r : SandboxResult) : Except Exc Unit :=
  match r.inputSha256,r.inputSnapshot with
  | none,none => .ok ()
  | some digest,some snapshot => if snapshot.digest ≠ digest then .error .provenance else .ok ()
  | _,_ => .error .provenance

/-- _same_limit. -/
def sameLimit : PyVal → PyVal → Except Exc Bool
  | .float stated,.int applied =>
    (floatOfInt applied).elim (.error .overflowError) fun f => .ok (PyVal.pyEq (.float f) (.float stated))
  | stated,applied => .ok (sameType stated applied && stated.pyEq applied)

/-- The stated limits, each under the key of _APPLIED_LIMITS. -/
def RunConditions.stated (c : RunConditions) : List (PyStr × PyVal) :=
  [(lit "memory",optionPy .str c.memory),(lit "cpus",optionPy .float c.cpus),
    (lit "pids",optionPy (fun n : ℕ => .int n) c.pidsLimit),
    (lit "timeout_seconds",optionPy (fun n : ℕ => .int n) c.timeoutSeconds)]

/-- One stated limit that the backend does not confirm. -/
def limitProblem (applied : Dict PyStr PyVal) : PyStr × PyVal → Except Exc Bool
  | (_,.none) => .ok false
  | (key,stated) =>
    match applied.get key with
    | none => .ok true
    | some v => (sameLimit stated v).map not

/-- _check_run_conditions. -/
def checkRunConditions (r : SandboxResult) : Option RunConditions → Except Exc Unit
  | none => .ok ()
  | some c => do
    let deviceProblem := match r.limits.get (lit "gpu") with
      | some gpu => decide ((if truthy gpu then Device.gpu else .cpu) ≠ c.device)
      | none => decide (c.device = .gpu)
    let problems ← c.stated.mapM (limitProblem r.limits)
    if deviceProblem || problems.any id then .error .provenance else .ok ()

/-- One use of the context manager, and what it takes from outside: the block, an exception that
may interrupt the seal, and the repr of exceptions. -/
structure TransactionArgs where
  result : SandboxResult
  parser : ParserIdentity
  parserConfig : PyVal
  source : Option Source
  runConditions : Option RunConditions
  creating : Env
  sealing : Env
  failing : Env
  block : ArtifactRecord → World → Option Raised × World
  interruption : Option (ℕ × Raised)
  repr : Raised → PyStr

/-- The checks on entry, and the arguments of create_pending. -/
def TransactionArgs.admit (c : TransactionArgs) : Except Exc PendingArgs := do
  if c.result.succeeded = false then throw .sandboxFailed
  if c.result.artifactPaths = [] then throw .sandboxFailed
  checkInput c.result
  checkRunConditions c.result c.runConditions
  let identity ← measuredParserIdentity c.parser c.result
  return ⟨c.result.runId,c.result.artifactDir,c.result.artifactPaths,identity,c.parserConfig,
    c.result.inputSnapshot,c.source,c.result.backend,c.runConditions⟩

/-- How a transaction ends: cleanly, with an exception before there is a record, or with one
after, which _fail_quietly records before it is raised. -/
inductive Ending
  | clean
  | refused (x : Raised)
  | failing (record : ArtifactRecord) (x : Raised)

section

variable (H : Hasher) (c : TransactionArgs)

/-- Up to the PENDING record. -/
def enterTransaction (w : World) : Except Exc ArtifactRecord × World :=
  match c.admit with
  | .error e => (.error e,w)
  | .ok args => (LedgerStore.createPending H c.creating args).exec w

/-- _state_or_none. -/
def stateOrNone (db : Db) (recordId : PyStr) : Option ArtifactState :=
  match getRecord recordId db with
  | .ok record => some record.state
  | .error _ => none

/-- _fail_quietly: whatever fail raises is swallowed. -/
def failQuietly (recordId : PyStr) (x : Raised) (w : World) : World :=
  ((LedgerStore.fail H c.failing recordId (c.repr x)).exec w).2

/-- The end of a block that returned. -/
def sealOnExit (record : ArtifactRecord) (w : World) : Ending × World :=
  match (LedgerStore.seal H c.sealing record.recordId.get).attempt c.interruption w with
  | (.ok _,w') => (.clean,w')
  | (.error x,w') =>
    if x.isException = true ∧ stateOrNone w'.db record.recordId.get = some .sealed then (.clean,w')
    else (.failing record x,w')

/-- The with block and its end. -/
def runBlock (record : ArtifactRecord) (w : World) : Ending × World :=
  match c.block record w with
  | (some x,w') => (.failing record x,w')
  | (none,w') => sealOnExit H c record w'

/-- The bundle that the run archived is the one that was recorded. -/
def SandboxResult.sameBundle (r : SandboxResult) (record : ArtifactRecord) : Bool :=
  r.artifactBundleDigest.all fun digest => decide (record.artifactHash = .text digest)

def transactionEnding (w : World) : Ending × World :=
  match enterTransaction H c w with
  | (.error e,w') => (.refused (.exc e),w')
  | (.ok record,w') =>
    if c.result.sameBundle record then runBlock H c record w'
    else (.failing record (.exc .provenance),w')

/-- ledger_transaction: what leaves the with statement, if anything. -/
def ledgerTransaction (w : World) : Option Raised × World :=
  match transactionEnding H c w with
  | (.clean,w') => (none,w')
  | (.refused x,w') => (some x,w')
  | (.failing record x,w') => (some x,failQuietly H c record.recordId.get x w')

end

end Stele
