import Stele.Python.Binary64

/-! Python values: what json handles, what sqlite3 returns, and the objects json
refuses. Equality is Python's `==`, under which 1, 1.0 and True are equal. -/
namespace Python

/-- A hashable key. `other` is any key that json cannot write. -/
inductive PyKey
  | none
  | bool (b : Bool)
  | int (i : ℤ)
  | float (f : PyFloat)
  | str (s : PyStr)
  | other (id : ℕ)
  deriving DecidableEq

/-- `object` is any other object; it equals itself only. -/
inductive PyVal
  | none
  | bool (b : Bool)
  | int (i : ℤ)
  | float (f : PyFloat)
  | str (s : PyStr)
  | bytes (b : Bytes)
  | list (xs : List PyVal)
  | tuple (xs : List PyVal)
  | dict (kvs : List (PyKey × PyVal))
  | object (id : ℕ)

/-- An exact number, finite ones in units of 2^-emin. -/
inductive NumVal
  | fin (z : ℤ)
  | inf (neg : Bool)
  deriving DecidableEq

namespace NumVal

def le : NumVal → NumVal → Bool
  | .inf neg,.inf neg' => neg || !neg'
  | .inf neg,.fin _ => neg
  | .fin _,.inf neg => !neg
  | .fin a,.fin b => decide (a ≤ b)

def ofInt (i : ℤ) : NumVal := .fin (i*2^emin)

end NumVal

def Finite64.signedUnits (f : Finite64) : ℤ := if f.neg then -(f.units : ℤ) else f.units

/-- The number a float stands for; `nan` has none and equals nothing. -/
def PyFloat.num : PyFloat → Option NumVal
  | .finite f => some (.fin f.signedUnits)
  | .inf neg => some (.inf neg)
  | .nan => Option.none

def PyKey.num : PyKey → Option NumVal
  | .bool b => some (.ofInt b.toNat)
  | .int i => some (.ofInt i)
  | .float f => f.num
  | _ => Option.none

def PyVal.num : PyVal → Option NumVal
  | .bool b => some (.ofInt b.toNat)
  | .int i => some (.ofInt i)
  | .float f => f.num
  | _ => Option.none

/-- Equality of dictionary keys. -/
def PyKey.eq (a b : PyKey) : Bool :=
  match a,b with
  | .none,.none => true
  | .str s,.str t => decide (s = t)
  | .other i,.other j => decide (i = j)
  | a,b => a.num.isSome && decide (a.num = b.num)

namespace PyVal

/-- Induction on values: the elements of a list and the values of a dict come first. -/
@[elab_as_elim]
theorem ind {P : PyVal → Prop} (none : P .none) (bool : ∀ b, P (.bool b)) (int : ∀ i, P (.int i))
    (float : ∀ f, P (.float f)) (str : ∀ s, P (.str s)) (bytes : ∀ b, P (.bytes b))
    (list : ∀ xs, (∀ x ∈ xs, P x) → P (.list xs))
    (tuple : ∀ xs, (∀ x ∈ xs, P x) → P (.tuple xs))
    (dict : ∀ kvs, (∀ p ∈ kvs, P p.2) → P (.dict kvs)) (object : ∀ i, P (.object i)) (v : PyVal) :
    P v :=
  @PyVal.rec P (fun xs => ∀ x ∈ xs, P x) (fun kvs => ∀ p ∈ kvs, P p.2) (fun p => P p.2)
    none bool int float str bytes list tuple dict object
    (fun _ h => absurd h List.not_mem_nil)
    (fun _ _ hx hxs _ h => (List.mem_cons.mp h).elim (fun e => e ▸ hx) (hxs _))
    (fun _ h => absurd h List.not_mem_nil)
    (fun _ _ hp hps _ h => (List.mem_cons.mp h).elim (fun e => e ▸ hp) (hps _))
    (fun _ _ h => h) v

/-- d.get(k) on an association list. -/
def find (kvs : List (PyKey × PyVal)) (k : PyKey) : Option PyVal :=
  (kvs.find? fun p => p.1.eq k).map Prod.snd

mutual
/-- a == b. -/
def pyEq : PyVal → PyVal → Bool
  | .none,b => match b with | .none => true | _ => false
  | .bool x,b => decide (b.num = some (.ofInt x.toNat))
  | .int x,b => decide (b.num = some (.ofInt x))
  | .float x,b => x.num.isSome && decide (b.num = x.num)
  | .str s,b => match b with | .str t => decide (s = t) | _ => false
  | .bytes s,b => match b with | .bytes t => decide (s = t) | _ => false
  | .list xs,b => match b with | .list ys => pyEqList xs ys | _ => false
  | .tuple xs,b => match b with | .tuple ys => pyEqList xs ys | _ => false
  | .dict kvs,b => match b with
    | .dict kws => decide (kvs.length = kws.length) && pyEqItems kvs kws
    | _ => false
  | .object i,b => match b with | .object j => decide (i = j) | _ => false
def pyEqList : List PyVal → List PyVal → Bool
  | [],ys => ys.isEmpty
  | x :: xs,ys => match ys with | [] => false | y :: ys => pyEq x y && pyEqList xs ys
def pyEqItems : List (PyKey × PyVal) → List (PyKey × PyVal) → Bool
  | [],_ => true
  | (k,v) :: kvs,kws =>
    (match find kws k with | some w => pyEq v w | Option.none => false) && pyEqItems kvs kws
end

mutual
/-- A JSON value: finite floats, string keys, no key twice. -/
def IsJson : PyVal → Prop
  | .none | .bool _ | .int _ | .str _ => True
  | .float f => ∃ x, f = .finite x
  | .list xs => IsJsonList xs
  | .dict kvs => (kvs.map Prod.fst).Nodup ∧ IsJsonItems kvs
  | .bytes _ | .tuple _ | .object _ => False
def IsJsonList : List PyVal → Prop
  | [] => True
  | x :: xs => IsJson x ∧ IsJsonList xs
def IsJsonItems : List (PyKey × PyVal) → Prop
  | [] => True
  | (k,v) :: kvs => (∃ s, k = .str s) ∧ IsJson v ∧ IsJsonItems kvs
end

lemma isJsonList_iff {xs : List PyVal} : IsJsonList xs ↔ ∀ x ∈ xs, x.IsJson := by
  induction xs with
  | nil => simp [IsJsonList]
  | cons x xs ih => simp [IsJsonList,ih]

lemma isJsonItems_iff {kvs : List (PyKey × PyVal)} :
    IsJsonItems kvs ↔ ∀ p ∈ kvs, (∃ s, p.1 = .str s) ∧ p.2.IsJson := by
  induction kvs with
  | nil => simp [IsJsonItems]
  | cons p kvs ih =>
    obtain ⟨k,v⟩ := p
    simp [IsJsonItems,ih,and_assoc]

@[simp] lemma keyEq_str {s t : PyStr} : PyKey.eq (.str s) (.str t) = decide (s = t) := rfl

end PyVal

end Python
