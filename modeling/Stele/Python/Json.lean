import Stele.Python.Value
import Mathlib.Data.List.Sort

/-! json.dumps and json.loads. The writer escapes, sorts and separates as CPython's
does; the reader is strict and keeps the last of two values with one key. -/
namespace Python

inductive JsonError
  | typeError
  | valueError
  deriving DecidableEq

/-- sort_keys, ensure_ascii, allow_nan, and whether a blank follows each separator. -/
structure DumpOpts where
  sortKeys : Bool
  ensureAscii : Bool
  allowNan : Bool
  spaced : Bool

/-- json.dumps(v) without options. -/
def defaultOpts : DumpOpts := ⟨false,true,true,true⟩

/-- sort_keys=True, separators=(",", ":"), ensure_ascii=False, allow_nan=False. -/
def canonicalOpts : DumpOpts := ⟨true,false,false,false⟩

def hexDigit (n : ℕ) : CodePoint :=
  Fin.ofNat _ (if n%16 < 10 then 48+n%16 else 87+n%16)

/-- \uXXXX in lower case. -/
def hexEscape (n : ℕ) : PyStr :=
  [cp '\\',cp 'u',hexDigit (n/0x1000),hexDigit (n/0x100),hexDigit (n/0x10),hexDigit n]

/-- A code point above the BMP is written as a surrogate pair. -/
def unicodeEscape (c : CodePoint) : PyStr :=
  if c.val < 0x10000 then hexEscape c.val
  else hexEscape (0xD800+(c.val-0x10000)/0x400)++hexEscape (0xDC00+(c.val-0x10000)%0x400)

/-- The escapes of one letter, as (letter, character). -/
def shortEscapes : List (CodePoint × CodePoint) :=
  [(cp '"',cp '"'),(cp '\\',cp '\\'),(cp '/',cp '/'),(cp 'b',8),(cp 'f',12),(cp 'n',10),
    (cp 'r',13),(cp 't',9)]

def escapeChar (ascii : Bool) (c : CodePoint) : PyStr :=
  if c = cp '"' ∨ c = cp '\\' then [cp '\\',c]
  else if c = 10 then [cp '\\',cp 'n']
  else if c = 13 then [cp '\\',cp 'r']
  else if c = 9 then [cp '\\',cp 't']
  else if c = 12 then [cp '\\',cp 'f']
  else if c = 8 then [cp '\\',cp 'b']
  else if c.val < 0x20 ∨ (ascii = true ∧ 0x7E < c.val) then unicodeEscape c
  else [c]

def quote (o : DumpOpts) (s : PyStr) : PyStr :=
  cp '"' :: (s.flatMap (escapeChar o.ensureAscii)++[cp '"'])

/-- sys.int_info.default_max_str_digits. -/
def maxStrDigits : ℕ := 4300

/-- repr of an int; too many digits are a ValueError. -/
def intText (i : ℤ) : Except JsonError PyStr :=
  if (natText i.natAbs).length ≤ maxStrDigits then
    .ok (NumToken.signText (decide (i < 0))++natText i.natAbs)
  else .error .valueError

def floatText (o : DumpOpts) : PyFloat → Except JsonError PyStr
  | .finite f => .ok f.token.text
  | .inf neg =>
    if o.allowNan then .ok (lit (if neg then "-Infinity" else "Infinity")) else .error .valueError
  | .nan => if o.allowNan then .ok (lit "NaN") else .error .valueError

def boolText (b : Bool) : PyStr := lit (if b then "true" else "false")

/-- Keys are written as strings: str, float, bool, None and int are accepted. -/
def keyText (o : DumpOpts) : PyKey → Except JsonError PyStr
  | .str s => .ok s
  | .float f => floatText o f
  | .bool b => .ok (boolText b)
  | .none => .ok (lit "null")
  | .int i => intText i
  | .other _ => .error .typeError

def DumpOpts.pad (o : DumpOpts) : PyStr := if o.spaced then [cp ' '] else []
def DumpOpts.itemSep (o : DumpOpts) : PyStr := cp ',' :: o.pad
def DumpOpts.keySep (o : DumpOpts) : PyStr := cp ':' :: o.pad

/-- a <= b of two keys that Python can order. -/
def PyKey.le (a b : PyKey) : Bool :=
  match a,b with
  | .str s,.str t => decide (s ≤ t)
  | a,b => match a.num,b.num with
    | some x,some y => x.le y
    | _,_ => true

def PyKey.isStr : PyKey → Bool
  | .str _ => true
  | _ => false

/-- Two keys of kinds that < does not relate make sorted() raise TypeError. -/
def sortable (ks : List PyKey) : Bool :=
  decide (ks.length ≤ 1) || ks.all PyKey.isStr || ks.all fun k => k.num.isSome

def sortItems {α : Type} (o : DumpOpts) (kvs : List (PyKey × α)) : List (PyKey × α) :=
  if o.sortKeys then kvs.insertionSort fun p q => p.1.le q.1 = true else kvs

mutual
/-- json.dumps(v, ...). -/
def dumps (o : DumpOpts) : PyVal → Except JsonError PyStr
  | .none => .ok (lit "null")
  | .bool b => .ok (boolText b)
  | .int i => intText i
  | .float f => floatText o f
  | .str s => .ok (quote o s)
  | .list xs => do
    let ts ← dumpsList o xs
    return cp '[' :: (o.itemSep.intercalate ts++[cp ']'])
  | .tuple xs => do
    let ts ← dumpsList o xs
    return cp '[' :: (o.itemSep.intercalate ts++[cp ']'])
  | .dict kvs =>
    if o.sortKeys && !sortable (kvs.map Prod.fst) then .error .typeError
    else do
      let ts ← (sortItems o (dumpsItems o kvs)).mapM Prod.snd
      return cp '{' :: (o.itemSep.intercalate ts++[cp '}'])
  | .bytes _ => .error .typeError
  | .object _ => .error .typeError
def dumpsList (o : DumpOpts) : List PyVal → Except JsonError (List PyStr)
  | [] => .ok []
  | x :: xs => do
    let t ← dumps o x
    let ts ← dumpsList o xs
    return t :: ts
def dumpsItems (o : DumpOpts) : List (PyKey × PyVal) → List (PyKey × Except JsonError PyStr)
  | [] => []
  | (k,v) :: kvs =>
    (k,do
      let ks ← keyText o k
      let t ← dumps o v
      return quote o ks++(o.keySep++t)) :: dumpsItems o kvs
end

def isSpace (c : CodePoint) : Bool := decide (c = 32 ∨ c = 9 ∨ c = 10 ∨ c = 13)

def skipWs : PyStr → PyStr
  | [] => []
  | c :: s => if isSpace c then skipWs s else c :: s

def hexVal (c : CodePoint) : Option ℕ :=
  if 48 ≤ c.val ∧ c.val ≤ 57 then some (c.val-48)
  else if 97 ≤ c.val ∧ c.val ≤ 102 then some (c.val-87)
  else if 65 ≤ c.val ∧ c.val ≤ 70 then some (c.val-55)
  else none

/-- Four hexadecimal digits and what follows them. -/
def scanHex4 : PyStr → Option (ℕ × PyStr)
  | a :: b :: c :: d :: s =>
    match hexVal a,hexVal b,hexVal c,hexVal d with
    | some a,some b,some c,some d => some (((a*16+b)*16+c)*16+d,s)
    | _,_,_,_ => none
  | _ => none

def isHigh (n : ℕ) : Bool := decide (0xD800 ≤ n ∧ n < 0xDC00)
def isLow (n : ℕ) : Bool := decide (0xDC00 ≤ n ∧ n < 0xE000)

def joinSurrogates (a b : ℕ) : ℕ := 0x10000+(a-0xD800)*0x400+(b-0xDC00)

/-- After \u: one escape, or two that are a surrogate pair. -/
def scanUnicode (s : PyStr) : Option (CodePoint × PyStr) :=
  match scanHex4 s with
  | none => none
  | some (a,r) =>
    match isHigh a,r with
    | true,b :: u :: r' =>
      if b = cp '\\' ∧ u = cp 'u' then
        match scanHex4 r' with
        | none => none
        | some (d,r'') =>
          if isLow d then some (Fin.ofNat _ (joinSurrogates a d),r'') else some (Fin.ofNat _ a,r)
      else some (Fin.ofNat _ a,r)
    | _,_ => some (Fin.ofNat _ a,r)

/-- After a backslash. -/
def scanEscape : PyStr → Option (CodePoint × PyStr)
  | [] => none
  | c :: s =>
    if c = cp 'u' then scanUnicode s
    else (shortEscapes.find? fun p => p.1 = c).map fun p => (p.2,s)

/-- After the opening quote: the string and what follows its closing quote. -/
def scanString : ℕ → PyStr → Option (PyStr × PyStr)
  | 0,_ => none
  | _,[] => none
  | n+1,c :: s =>
    if c = cp '"' then some ([],s)
    else if c = cp '\\' then
      match scanEscape s with
      | none => none
      | some (d,s) => (scanString n s).map fun p => (d :: p.1,p.2)
    else if c.val < 0x20 then none
    else (scanString n s).map fun p => (c :: p.1,p.2)

/-- The number of a token: an int unless it has a fraction or an exponent. -/
def NumToken.value (t : NumToken) : Option PyVal :=
  if t.frac.isSome || t.exp.isSome then some (.float t.toFloat)
  else if t.int.length ≤ maxStrDigits then
    some (.int (if t.neg then -(natOf t.int : ℤ) else natOf t.int))
  else none

/-- The constants, with what each is read as. -/
def constants : List (PyStr × PyVal) :=
  [(lit "null",.none),(lit "true",.bool true),(lit "false",.bool false),
    (lit "NaN",.float .nan),(lit "Infinity",.float (.inf false)),
    (lit "-Infinity",.float (.inf true))]

/-- What follows the prefix p, when s starts with it. -/
def afterPrefix : PyStr → PyStr → Option PyStr
  | [],s => some s
  | c :: p,d :: s => if c = d then afterPrefix p s else none
  | _ :: _,[] => none

def scanScalar (s : PyStr) : Option (PyVal × PyStr) :=
  match constants.findSome? fun c => (afterPrefix c.1 s).map fun r => (c.2,r) with
  | some p => some p
  | none =>
    match lexNumber s with
    | none => none
    | some (t,r) => t.value.map fun v => (v,r)

/-- d[k] = v. -/
def setItem {α : Type} (kvs : List (PyKey × α)) (k : PyKey) (v : α) : List (PyKey × α) :=
  match kvs with
  | [] => [(k,v)]
  | (l,w) :: kvs => if l.eq k then (l,v) :: kvs else (l,w) :: setItem kvs k v

/-- The dict that setting these items in order builds. -/
def dictOf {α : Type} (items : List (PyKey × α)) : List (PyKey × α) :=
  items.foldl (fun d p => setItem d p.1 p.2) []

mutual
/-- scan_once; the fuel bounds the nesting and the number of members. -/
def scanValue : ℕ → PyStr → Option (PyVal × PyStr)
  | 0,_ => none
  | _,[] => none
  | n+1,c :: s =>
    if c = cp '"' then (scanString s.length s).map fun p => (.str p.1,p.2)
    else if c = cp '[' then
      match skipWs s with
      | [] => none
      | d :: r =>
        if d = cp ']' then some (.list [],r)
        else (scanElems n (d :: r)).map fun p => (.list p.1,p.2)
    else if c = cp '{' then
      match skipWs s with
      | [] => none
      | d :: r =>
        if d = cp '}' then some (.dict [],r)
        else (scanMembers n (d :: r)).map fun p => (.dict (dictOf p.1),p.2)
    else scanScalar (c :: s)
def scanElems : ℕ → PyStr → Option (List PyVal × PyStr)
  | 0,_ => none
  | n+1,s =>
    match scanValue n s with
    | none => none
    | some (v,r) =>
      match skipWs r with
      | [] => none
      | c :: r =>
        if c = cp ']' then some ([v],r)
        else if c = cp ',' then (scanElems n (skipWs r)).map fun p => (v :: p.1,p.2)
        else none
def scanMembers : ℕ → PyStr → Option (List (PyKey × PyVal) × PyStr)
  | 0,_ => none
  | _,[] => none
  | n+1,c :: s =>
    if c = cp '"' then
      match scanString s.length s with
      | none => none
      | some (k,r) =>
        match skipWs r with
        | [] => none
        | c :: r =>
          if c = cp ':' then
            match scanValue n (skipWs r) with
            | none => none
            | some (v,r) =>
              match skipWs r with
              | [] => none
              | c :: r =>
                if c = cp '}' then some ([(.str k,v)],r)
                else if c = cp ',' then
                  (scanMembers n (skipWs r)).map fun p => ((.str k,v) :: p.1,p.2)
                else none
          else none
    else none
end

/-- json.loads(s) of a str; `none` is ValueError. A leading BOM and extra data are errors. -/
def loads (s : PyStr) : Option PyVal :=
  if s.head? = some 0xFEFF then none
  else match scanValue (s.length+1) (skipWs s) with
  | none => none
  | some (v,r) => if skipWs r = [] then some v else none

end Python
