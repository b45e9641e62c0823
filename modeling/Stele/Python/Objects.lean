import Stele.Python.Strings
import Stele.Python.JsonImage
import Mathlib.Data.List.DropRight

/-! What Python code does with values that json.loads gave it: truth, dict.get, str(), int(),
and the whitespace of str and bytes. -/
namespace Python

/-- What repr takes from the Unicode database: str.isprintable of one character. -/
structure Unicode where
  printable : CodePoint → Bool

/-- The database as far as ASCII is concerned. -/
def Unicode.ascii : Unicode := ⟨fun c => decide (32 ≤ c.val ∧ c.val < 127)⟩

/-- bool(v). -/
def truthy : PyVal → Bool
  | .none => false
  | .bool b => b
  | .int i => decide (i ≠ 0)
  | .float (.finite f) => decide (f.mant ≠ 0)
  | .float _ => true
  | .str s => decide (s ≠ [])
  | .bytes b => decide (b ≠ [])
  | .list xs => decide (xs.length ≠ 0)
  | .tuple xs => decide (xs.length ≠ 0)
  | .dict kvs => decide (kvs.length ≠ 0)
  | .object _ => true

/-- a or b. -/
def orElse (a b : PyVal) : PyVal := if truthy a then a else b

/-- d.get(k). -/
def getItem (kvs : List (PyKey × PyVal)) (k : PyStr) : PyVal := (PyVal.find kvs (.str k)).getD .none

/-- str.isspace of one character. -/
def isWhitespace (c : CodePoint) : Bool :=
  decide (9 ≤ c.val ∧ c.val ≤ 13) || decide (0x1C ≤ c.val ∧ c.val ≤ 0x20) ||
    decide (c.val ∈ [0x85,0xA0,0x1680,0x2028,0x2029,0x202F,0x205F,0x3000]) ||
    decide (0x2000 ≤ c.val ∧ c.val ≤ 0x200A)

/-- s.strip(). -/
def strip (s : PyStr) : PyStr := (s.dropWhile isWhitespace).rdropWhile isWhitespace

/-- The line boundaries of str.splitlines, "\r\n" apart. -/
def isLineBreak (c : CodePoint) : Bool :=
  decide (10 ≤ c.val ∧ c.val ≤ 13) || decide (0x1C ≤ c.val ∧ c.val ≤ 0x1E) ||
    decide (c.val ∈ [0x85,0x2028,0x2029])

/-- The lines after the part `line` of the first one. -/
def splitLinesFrom : PyStr → PyStr → List PyStr
  | [],line => if line = [] then [] else [line]
  | c :: s,line =>
    if isLineBreak c then
      match s with
      | d :: r => if c = cp '\r' ∧ d = cp '\n' then line :: splitLinesFrom r [] else line :: splitLinesFrom (d :: r) []
      | [] => [line]
    else splitLinesFrom s (line++[c])

/-- s.splitlines(). -/
def splitLines (s : PyStr) : List PyStr := splitLinesFrom s []

/-- repr of one character of a string that is quoted with q. -/
def reprChar (U : Unicode) (q c : CodePoint) : PyStr :=
  if c = q ∨ c = cp '\\' then [cp '\\',c]
  else if c = cp '\t' then lit "\\t"
  else if c = cp '\n' then lit "\\n"
  else if c = cp '\r' then lit "\\r"
  else if 32 ≤ c.val ∧ c.val < 127 then [c]
  else if 127 < c.val ∧ U.printable c then [c]
  else if c.val ≤ 0xFF then lit "\\x"++hexPad 2 c.val
  else if c.val ≤ 0xFFFF then lit "\\u"++hexPad 4 c.val
  else lit "\\U"++hexPad 8 c.val
where
  hexPad : ℕ → ℕ → PyStr
    | 0,_ => []
    | k+1,n => hexPad k (n/16)++[hexDigit n]

def reprStr (U : Unicode) (s : PyStr) : PyStr :=
  let q : CodePoint := if 39 ∈ s ∧ 34 ∉ s then 34 else 39
  q :: (s.flatMap (reprChar U q)++[q])

def reprFloat : PyFloat → PyStr
  | .finite f => f.token.text
  | .inf neg => lit (if neg then "-inf" else "inf")
  | .nan => lit "nan"

def reprKey (U : Unicode) : PyKey → Except JsonError PyStr
  | .none => .ok (lit "None")
  | .bool b => .ok (lit (if b then "True" else "False"))
  | .int i => intText i
  | .float f => .ok (reprFloat f)
  | .str s => .ok (reprStr U s)
  | .other _ => .error .typeError

mutual
/-- repr(v) of what json.loads gives; an int with too many digits is a ValueError. -/
def repr (U : Unicode) : PyVal → Except JsonError PyStr
  | .none => .ok (lit "None")
  | .bool b => .ok (lit (if b then "True" else "False"))
  | .int i => intText i
  | .float f => .ok (reprFloat f)
  | .str s => .ok (reprStr U s)
  | .list xs => do
    let ts ← reprList U xs
    return cp '[' :: ((lit ", ").intercalate ts++[cp ']'])
  | .dict kvs => do
    let ts ← reprItems U kvs
    return cp '{' :: ((lit ", ").intercalate ts++[cp '}'])
  | .tuple _ | .bytes _ | .object _ => .error .typeError
def reprList (U : Unicode) : List PyVal → Except JsonError (List PyStr)
  | [] => .ok []
  | x :: xs => do
    let t ← repr U x
    let ts ← reprList U xs
    return t :: ts
def reprItems (U : Unicode) : List (PyKey × PyVal) → Except JsonError (List PyStr)
  | [] => .ok []
  | (k,v) :: kvs => do
    let s ← reprKey U k
    let t ← repr U v
    let ts ← reprItems U kvs
    return (s++(lit ": "++t)) :: ts
end

/-- str(v), and what an f-string writes of v. -/
def str (U : Unicode) : PyVal → Except JsonError PyStr
  | .str s => .ok s
  | v => repr U v

end Python
