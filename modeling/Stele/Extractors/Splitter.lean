import Mathlib.Tactic.Linarith
import Stele.Python.Text

/-! The ChatGPT export splitter, a WebAssembly module: `$start_element` to `_start` of
chatgpt_export_split.wat. Its i32 globals stay far below 2^32 and are numbers; the input
offsets are i64. The environment it is started in, which `_start` checks first, is in order. -/
namespace Stele.Splitter
open Python (Bytes)

/-- The parser states of `$state`, 0 to 5. -/
inductive Phase | beforeArray | firstElement | inside | afterElement | nextElement | afterArray
  deriving DecidableEq

/-- The globals, the parts of the memory that outlive a call, and the output directory: the
names and contents of its files, oldest first. A file's descriptor is its place there. -/
structure Machine where
  state : Phase
  /-- The bracket stack, `$depth` entries, the innermost first. -/
  stack : Bytes
  inString : Bool
  escaped : Bool
  count : ℕ
  chunkOffset : UInt64
  elementStart : UInt64
  runStart : ℕ
  buffer : Bytes
  name : Bytes
  outFd : ℕ
  indexFd : ℕ
  files : List (Bytes × Bytes)
  writes : ℕ

def Machine.initial : Machine where
  state := .beforeArray
  stack := []
  inString := false
  escaped := false
  count := 0
  chunkOffset := 0
  elementStart := 0
  runStart := 0
  buffer := []
  name := []
  outFd := 0xffffffff
  indexFd := 0xffffffff
  files := []
  writes := 0

/-- proc_exit: the status, what was reported on stderr, and the machine as it was left. -/
structure Halt where
  status : ℕ
  report : String
  machine : Machine

abbrev Result := Except Halt Machine

/-- What the host makes of the writes: of its t-th, of n octets, how many it takes, or an
error. -/
structure Host where
  accepts : ℕ → ℕ → Option ℕ
  accepts_pos : ∀ {t n k}, accepts t n = some k → 0 < n → 0 < k
  accepts_le : ∀ {t n k}, accepts t n = some k → k ≤ n

def ascii (s : String) : Bytes := s.toList.map fun c => UInt8.ofNat c.toNat

def Machine.append (fd : ℕ) (p : Bytes) (m : Machine) : Machine :=
  { m with writes := m.writes+1, files := m.files.modify fd fun f => (f.1,f.2++p) }

variable (host : Host)

/-- `$write_all`; false when the host reports an error. -/
def writeAll (fd : ℕ) (p : Bytes) (m : Machine) : Machine × Bool :=
  if h : p = [] then (m,true)
  else
    match hk : host.accepts m.writes p.length with
    | none => ({ m with writes := m.writes+1 },false)
    | some k => writeAll fd (p.drop k) (m.append fd (p.take k))
termination_by p.length
decreasing_by
  have hp : 0 < p.length := List.length_pos_of_ne_nil h
  have := host.accepts_pos hk hp
  rw [List.length_drop]
  omega

def fail (message : String) (code : ℕ) (m : Machine) : Result :=
  .error ⟨code,"chatgpt-split: "++message,m⟩

/-- path_open with O_CREAT | O_EXCL in the output directory. -/
def pathOpen (name : Bytes) (m : Machine) : Option (ℕ × Machine) :=
  if name ∈ m.files.map Prod.fst then none
  else some (m.files.length,{ m with files := m.files++[(name,[])] })

/-- `$decimal`: the digits of v before those already there. -/
def decimalOnto (v : ℕ) (acc : Bytes) : Bytes :=
  let acc := UInt8.ofNat (48+v%10) :: acc
  if v/10 = 0 then acc else decimalOnto (v/10) acc
termination_by v

def decimal (v : UInt64) : Bytes := decimalOnto v.toNat []

/-- The digit loop of `$start_element`: k digits of n. -/
def digits : ℕ → ℕ → Bytes
  | 0,_ => []
  | k+1,n => digits k (n/10)++[UInt8.ofNat (48+n%10)]

def fileName (n : ℕ) : Bytes := ascii "conversation-"++digits 6 n++ascii ".json"

def indexName : Bytes := ascii "index.jsonl"

def push (c : UInt8) (m : Machine) : Result :=
  if m.stack.length ≥ 4096 then fail "elements are nested more than 4096 levels deep\n" 2 m
  else .ok { m with stack := c :: m.stack }

/-- `$pop`. An element has an open bracket until it is finished, so the stack is not empty. -/
def pop (c : UInt8) (m : Machine) : Result :=
  match m.stack with
  | [] => fail "mismatched bracket inside an element\n" 2 m
  | top :: rest =>
    if top ≠ (if c = 125 then 123 else 91) then
      fail "mismatched bracket inside an element\n" 2 { m with stack := rest }
    else .ok { m with stack := rest }

def startElement (i : ℕ) (m : Machine) : Result :=
  if m.count > 999999 then fail "more than 999999 conversations\n" 2 m
  else
    let m := { m with name := fileName m.count }
    match pathOpen m.name m with
    | none => fail "cannot write to the output directory\n" 3 m
    | some (fd,m) =>
      (push 123 { m with
        outFd := fd
        elementStart := m.chunkOffset+UInt64.ofNat i
        runStart := i
        stack := []
        inString := false
        escaped := false }).map fun m => { m with state := .inside }

/-- Write buffer bytes [run_start, end) of the current element. -/
def flushRun (stop : ℕ) (m : Machine) : Result :=
  if stop > m.runStart then
    match writeAll host m.outFd ((m.buffer.take stop).drop m.runStart) m with
    | (m,true) => .ok m
    | (m,false) => fail "cannot write to the output directory\n" 3 m
  else .ok m

/-- The line that `$finish_element` puts together. -/
def indexLine (count : ℕ) (name : Bytes) (offset length : UInt64) : Bytes :=
  ascii "\x7b\"index\":"++decimal (UInt64.ofNat count)++ascii ",\"path\":\""++name++
    ascii "\",\"offset\":"++decimal offset++ascii ",\"length\":"++decimal length++ascii "\x7d\n"

def finishElement (i : ℕ) (m : Machine) : Result := do
  let m ← flushRun host (i+1) m
  let stop := m.chunkOffset+UInt64.ofNat (i+1)
  match writeAll host m.indexFd (indexLine m.count m.name m.elementStart (stop-m.elementStart)) m with
  | (m,true) => .ok { m with count := m.count+1, state := .afterElement }
  | (m,false) => fail "cannot write to the output directory\n" 3 m

def isSpace (c : UInt8) : Bool := decide (c = 32 ∨ c = 10 ∨ c = 13 ∨ c = 9)

/-- `$element_byte`: one byte inside an element. -/
def elementByte (c : UInt8) (i : ℕ) (m : Machine) : Result :=
  if m.inString then
    if m.escaped then .ok { m with escaped := false }
    else if c = 92 then .ok { m with escaped := true }
    else if c = 34 then .ok { m with inString := false }
    else .ok m
  else if c = 34 then .ok { m with inString := true }
  else if c = 123 ∨ c = 91 then push c m
  else if c = 125 ∨ c = 93 then do
    let m ← pop c m
    if m.stack = [] then finishElement host i m else .ok m
  else .ok m

/-- `$structure_byte`: one byte of array structure between elements. -/
def structureByte (c : UInt8) (i : ℕ) (m : Machine) : Result :=
  if isSpace c then .ok m
  else
    match m.state with
    | .beforeArray =>
      if c ≠ 91 then fail "input is not a JSON array\n" 2 m else .ok { m with state := .firstElement }
    | .firstElement =>
      if c = 93 then .ok { m with state := .afterArray }
      else if c ≠ 123 then fail "expected a JSON object as an array element\n" 2 m
      else startElement i m
    | .nextElement =>
      if c ≠ 123 then fail "expected a JSON object as an array element\n" 2 m
      else startElement i m
    | .afterElement =>
      if c = 44 then .ok { m with state := .nextElement }
      else if c = 93 then .ok { m with state := .afterArray }
      else fail "expected ',' or ']' after an element\n" 2 m
    | _ => fail "unexpected data after the JSON array\n" 2 m

def byte (c : UInt8) (i : ℕ) (m : Machine) : Result :=
  if m.state = .inside then elementByte host c i m else structureByte c i m

/-- The bytes of a chunk from index i on. -/
def bytes : ℕ → Bytes → Machine → Result
  | _,[],m => .ok m
  | i,c :: rest,m => do
    let m ← byte host c i m
    bytes (i+1) rest m

/-- The n bytes of the buffer are read: an element that goes on is flushed. -/
def endOfBuffer (n : ℕ) (m : Machine) : Result :=
  if m.state = .inside then flushRun host n m else .ok m

/-- The read loop, over what the reads return; an empty one is the end of the file. -/
def chunks : List Bytes → Machine → Result
  | [],m => .ok m
  | chunk :: rest,m =>
    if chunk.length = 0 then .ok m
    else do
      let m ← bytes host 0 chunk { m with buffer := chunk, runStart := 0 }
      let m ← endOfBuffer host chunk.length m
      chunks rest { m with chunkOffset := m.chunkOffset+UInt64.ofNat chunk.length }

def split (reads : List Bytes) : Result :=
  match pathOpen indexName Machine.initial with
  | none => fail "cannot write to the output directory\n" 3 Machine.initial
  | some (fd,m) => do
    let m ← chunks host reads { m with indexFd := fd }
    if m.state ≠ .afterArray then fail "input ends before the JSON array is closed\n" 2 m
    else .ok m

/-- The exit status, what it reports on stderr or stdout, and the files it leaves. -/
structure Exit where
  status : ℕ
  report : String
  files : List (Bytes × Bytes)
  deriving DecidableEq

/-- `_start`. -/
def start (reads : List Bytes) : Exit :=
  match split host reads with
  | .ok m => ⟨0,"split "++toString m.count++" conversations\n",m.files⟩
  | .error h => ⟨h.status,h.report,h.machine.files⟩

end Stele.Splitter
