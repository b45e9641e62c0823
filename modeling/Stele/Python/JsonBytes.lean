import Stele.Python.JsonImage

/-! json.loads of a bytes object: the encoding is detected from the first bytes, and
lone surrogates are let through. -/
namespace Python

/-- A code point; `none` past the last one. -/
def codePoint (n : ℕ) : Option CodePoint := if h : n < 0x110000 then some ⟨n,h⟩ else none

/-- The value of a UTF-8 continuation byte. -/
def continuation (b : UInt8) : Option ℕ :=
  if 0x80 ≤ b.toNat ∧ b.toNat < 0xC0 then some (b.toNat-0x80) else none

/-- A UTF-8 sequence of k continuation bytes that stands for at least lo. -/
def decodeTail : ℕ → ℕ → ℕ → Bytes → Option (CodePoint × Bytes)
  | 0,lo,n,s => if lo ≤ n then (codePoint n).map fun c => (c,s) else none
  | k+1,lo,n,b :: s =>
    match continuation b with
    | none => none
    | some d => decodeTail k lo (n*64+d) s
  | _+1,_,_,[] => none

/-- decode("utf-8", "surrogatepass"); the fuel is the number of bytes. -/
def decodeUtf8 : ℕ → Bytes → Option PyStr
  | _,[] => some []
  | 0,_ :: _ => none
  | fuel+1,b :: s =>
    let n := b.toNat
    let first :=
      if n < 0x80 then decodeTail 0 0 n s
      else if 0xC0 ≤ n ∧ n < 0xE0 then decodeTail 1 0x80 (n-0xC0) s
      else if 0xE0 ≤ n ∧ n < 0xF0 then decodeTail 2 0x800 (n-0xE0) s
      else if 0xF0 ≤ n ∧ n < 0xF8 then decodeTail 3 0x10000 (n-0xF0) s
      else none
    match first with
    | none => none
    | some (c,r) => (decodeUtf8 fuel r).map fun t => c :: t

/-- The number that k bytes make, in either byte order. -/
def unitOf (big : Bool) (s : Bytes) : ℕ :=
  (if big then s else s.reverse).foldl (fun n b => n*256+b.toNat) 0

/-- The code units of k bytes each; `none` when the last one is cut. -/
def codeUnits (big : Bool) (k : ℕ) : ℕ → Bytes → Option (List ℕ)
  | _,[] => some []
  | 0,_ :: _ => none
  | fuel+1,s =>
    if s.length < k then none
    else (codeUnits big k fuel (s.drop k)).map fun ns => unitOf big (s.take k) :: ns

/-- UTF-16 code units, surrogate pairs joined. -/
def joinUnits : List ℕ → PyStr
  | [] => []
  | [a] => [Fin.ofNat _ a]
  | a :: b :: ns =>
    if isHigh a && isLow b then Fin.ofNat _ (joinSurrogates a b) :: joinUnits ns
    else Fin.ofNat _ a :: joinUnits (b :: ns)

def decodeUtf16 (big : Bool) (s : Bytes) : Option PyStr := (codeUnits big 2 s.length s).map joinUnits

def decodeUtf32 (big : Bool) (s : Bytes) : Option PyStr :=
  match codeUnits big 4 s.length s with
  | none => none
  | some ns => ns.mapM codePoint

/-- s.decode(detect_encoding(s), "surrogatepass"); a byte order mark is dropped. -/
def decodeDetected (s : Bytes) : Option PyStr :=
  if [0x00,0x00,0xFE,0xFF] <+: s then decodeUtf32 true (s.drop 4)
  else if [0xFF,0xFE,0x00,0x00] <+: s then decodeUtf32 false (s.drop 4)
  else if [0xFE,0xFF] <+: s then decodeUtf16 true (s.drop 2)
  else if [0xFF,0xFE] <+: s then decodeUtf16 false (s.drop 2)
  else if [0xEF,0xBB,0xBF] <+: s then decodeUtf8 (s.length-3) (s.drop 3)
  else match s with
  | a :: b :: c :: d :: _ =>
    if a = 0 then (if b = 0 then decodeUtf32 true s else decodeUtf16 true s)
    else if b = 0 then (if c = 0 ∧ d = 0 then decodeUtf32 false s else decodeUtf16 false s)
    else decodeUtf8 s.length s
  | [a,b] =>
    if a = 0 then decodeUtf16 true s
    else if b = 0 then decodeUtf16 false s
    else decodeUtf8 2 s
  | _ => decodeUtf8 s.length s

/-- json.loads of a bytes object; `none` is ValueError. -/
def loadsBytes (s : Bytes) : Option PyVal := (decodeDetected s).bind loads

end Python
