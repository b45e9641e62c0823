import Stele.Archive.Store
import Stele.Python.JsonLoads
import Stele.Python.Objects
import Mathlib.Algebra.Order.Ring.Rat

/-! JsonTolerancePolicy: when the outputs of a replay count as equivalent to the recorded ones.
Numbers are compared as the exact rationals they stand for. -/
namespace Stele
open Python

/-- Tolerance: how far a replayed float may move. -/
structure Tolerance where
  relTol : ℚ
  absTol : ℚ
  rel_nonneg : 0 ≤ relTol
  abs_nonneg : 0 ≤ absTol

/-- math.isclose, past the conversion to numbers. An infinity is close to itself only. -/
def Tolerance.isclose (t : Tolerance) : NumVal → NumVal → Bool
  | .fin x,.fin y =>
    let diff : ℚ := |y-x|
    decide (x = y) || decide (diff ≤ |t.relTol*y|) || decide (diff ≤ |t.relTol*x|) ||
      decide (diff ≤ t.absTol*2^emin)
  | x,y => decide (x = y)

/-- _is_number. -/
def isNumber : PyVal → Bool
  | .int _ | .float _ => true
  | _ => false

def isFloat : PyVal → Bool
  | .float _ => true
  | _ => false

/-- type(a) is type(b), of values that json.loads gives. -/
def typeIs : PyVal → PyVal → Bool
  | .none,.none | .bool _,.bool _ | .int _,.int _ | .float _,.float _ | .str _,.str _ | .list _,.list _
  | .dict _,.dict _ => true
  | _,_ => false

/-- Why a replay is not accepted; the places are the texts that _walk builds. -/
inductive Finding
  /- "missing from replay: {path}", "not in the record: {path}", "bytes differ: {path}",
  "not comparable as JSON: {path}: {exc}" -/
  | missing (path : PyStr)
  | notInRecord (path : PyStr)
  | bytesDiffer (path : PyStr)
  | notComparable (path : PyStr)
  /- "key only on one side: {where}", "length {len(a)} != {len(b)}: {where}", "{a!r} != {b!r} beyond
  tolerance (rel {rel_tol}, abs {abs_tol}): {where}", "{a!r} != {b!r}: {where}" -/
  | oneSide (place : PyStr)
  | lengths (m n : ℕ) (place : PyStr)
  | beyond (a b : PyVal) (t : Tolerance) (place : PyStr)
  | differ (a b : PyVal) (place : PyStr)

structure PolicyVerdict where
  accepted : Bool
  findings : List Finding

structure JsonTolerancePolicy where
  relTol : ℚ
  absTol : ℚ
  ignoreKeys : List PyStr
  keyTolerances : Dict PyStr Tolerance
  rel_nonneg : 0 ≤ relTol
  abs_nonneg : 0 ≤ absTol

namespace JsonTolerancePolicy

def default (P : JsonTolerancePolicy) : Tolerance := ⟨P.relTol,P.absTol,P.rel_nonneg,P.abs_nonneg⟩

/-- self.key_tolerances.get(key, tol). -/
def inner (P : JsonTolerancePolicy) (t : Tolerance) (key : PyStr) : Tolerance :=
  (P.keyTolerances.get key).getD t

/-- {k for k in a if k not in self.ignore_keys}. -/
def keys (P : JsonTolerancePolicy) (kvs : List (PyKey × PyVal)) : List PyStr :=
  (kvs.filterMap fun p => match p.1 with
    | .str k => some k
    | _ => none).filter fun k => decide (k ∉ P.ignoreKeys)

/-- Two values that are neither two dicts nor two lists. -/
def leaf (a b : PyVal) (place : PyStr) (t : Tolerance) : List Finding :=
  if isNumber a && isNumber b && (isFloat a || isFloat b) then
    match a.num,b.num with
    | some x,some y => if t.isclose x y then [] else [.beyond a b t place]
    | _,_ => [.beyond a b t place]
  else if !typeIs a b || !a.pyEq b then [.differ a b place]
  else []

def oneSided (ka kb : List PyStr) (place : PyStr) : List Finding :=
  ((ka.filter (· ∉ kb)++kb.filter (· ∉ ka)).insertionSort (· ≤ ·)).map fun k =>
    .oneSide (place++cp '/' :: k)

mutual
/-- _walk. The findings of the common keys stand in the order of the keys. -/
def walk (P : JsonTolerancePolicy) : PyVal → PyVal → PyStr → Tolerance → List Finding
  | .dict kvs,b,place,t => match b with
    | .dict kws => oneSided (P.keys kvs) (P.keys kws) place++
        ((walkItems P kvs kws place t).insertionSort fun p q => p.1 ≤ q.1).flatMap Prod.snd
    | b => leaf (.dict kvs) b place t
  | .list xs,b,place,t => match b with
    | .list ys => if xs.length ≠ ys.length then [.lengths xs.length ys.length place]
      else walkList P xs ys 0 place t
    | b => leaf (.list xs) b place t
  | a,b,place,t => leaf a b place t
/-- The elements of two lists, from the index i on. -/
def walkList (P : JsonTolerancePolicy) : List PyVal → List PyVal → ℕ → PyStr → Tolerance → List Finding
  | [],_,_,_,_ => []
  | x :: xs,ys,i,place,t => match ys with
    | [] => []
    | y :: ys => walk P x y (place++cp '[' :: (natText i++[cp ']'])) t++walkList P xs ys (i+1) place t
/-- The findings under each key of both dicts. -/
def walkItems (P : JsonTolerancePolicy) : List (PyKey × PyVal) → List (PyKey × PyVal) → PyStr → Tolerance →
    List (PyStr × List Finding)
  | [],_,_,_ => []
  | (k,x) :: kvs,kws,place,t => match k with
    | .str key =>
      if key ∈ P.ignoreKeys then walkItems P kvs kws place t
      else match PyVal.find kws (.str key) with
        | some y => (key,walk P x y (place++cp '/' :: key) (P.inner t key)) :: walkItems P kvs kws place t
        | none => walkItems P kvs kws place t
    | _ => walkItems P kvs kws place t
end

/-- s.endswith(p). -/
def endsWith (s p : PyStr) : Bool := p.isSuffixOf s

/-- The values of the lines that are not blank. -/
def lineValues (text : PyStr) : Option (List PyVal) :=
  ((splitLines text).filter fun line => decide (strip line ≠ [])).mapM loads

/-- What _compare_json compares of a file; `none` is a ValueError. -/
def parsed (path : PyStr) (data : Bytes) : Option PyVal :=
  if endsWith path (lit ".jsonl") then ((decode data).bind lineValues).map .list else loadsBytes data

/-- _compare_json. -/
def compareJson (P : JsonTolerancePolicy) (path : PyStr) (a b : Bytes) : List Finding :=
  match parsed path a,parsed path b with
  | some left,some right => P.walk left right path P.default
  | _,_ => [.notComparable path]

/-- The findings of a path of both sides. -/
def comparePath (H : Hasher) (P : JsonTolerancePolicy) (archive : Archive) (path d e : PyStr) :
    Except Exc (List Finding) :=
  if d = e then .ok []
  else if endsWith path (lit ".json") || endsWith path (lit ".jsonl") then do
    let a ← archive.read H d
    let b ← archive.read H e
    return P.compareJson path a b
  else .ok [.bytesDiffer path]

/-- The findings of a common path: recorded[path] against replayed[path]. -/
def compareAt (H : Hasher) (P : JsonTolerancePolicy) (recorded replayed : Dict PyStr PyStr) (archive : Archive)
    (path : PyStr) : Except Exc (List Finding) :=
  match recorded.get path,replayed.get path with
  | some d,some e => comparePath H P archive path d e
  | _,_ => .error .keyError

/-- compare. -/
def compare (H : Hasher) (P : JsonTolerancePolicy) (recorded replayed : Dict PyStr PyStr) (archive : Archive) :
    Except Exc PolicyVerdict := do
  let sorted := fun paths : List PyStr => paths.insertionSort (· ≤ ·)
  let missing := (sorted (recorded.keys.filter (· ∉ replayed.keys))).map Finding.missing
  let added := (sorted (replayed.keys.filter (· ∉ recorded.keys))).map Finding.notInRecord
  let differing ← (sorted (recorded.keys.filter (· ∈ replayed.keys))).mapM
    (compareAt H P recorded replayed archive)
  let findings := missing++added++differing.flatten
  return ⟨findings.isEmpty,findings⟩

/-- The outputs of the replay are accepted. -/
def Accepts (H : Hasher) (P : JsonTolerancePolicy) (archive : Archive) (recorded replayed : Dict PyStr PyStr) : Prop :=
  ∃ verdict, P.compare H recorded replayed archive = .ok verdict ∧ verdict.accepted = true

end JsonTolerancePolicy

end Stele
