import Stele.Python.Text
import Mathlib.Data.Nat.Digits.Lemmas
import Mathlib.Tactic.Ring

/-! Decimal numerals: the digit strings of naturals and the number tokens of
JSON text, written out and read back. -/
namespace Python

def digit (d : ℕ) : CodePoint := Fin.ofNat _ (48+d)

def isDigit (c : CodePoint) : Bool := decide (48 ≤ c.val ∧ c.val ≤ 57)

/-- The value of a digit string. -/
def natOf (s : PyStr) : ℕ := s.foldl (fun a c => 10*a+(c.val-48)) 0

/-- The decimal digits of a natural, most significant first. -/
def natText (n : ℕ) : PyStr :=
  if n = 0 then [digit 0] else ((Nat.digits 10 n).map digit).reverse

@[simp] lemma digit_val {d : ℕ} (h : d < 10) : (digit d).val = 48+d := by
  simp only [digit,Fin.ofNat_eq_cast,Fin.val_natCast]
  exact Nat.mod_eq_of_lt (by omega)

@[simp] lemma isDigit_digit {d : ℕ} (h : d < 10) : isDigit (digit d) = true := by
  simp only [isDigit,digit_val h,decide_eq_true_eq]
  omega

@[simp] lemma cp_zero : cp '0' = digit 0 := by decide

@[simp] theorem natOf_nil : natOf [] = 0 := rfl

lemma natOf_concat (s : PyStr) (c : CodePoint) : natOf (s++[c]) = 10*natOf s+(c.val-48) := by
  simp [natOf]

theorem natOf_append (s t : PyStr) : natOf (s++t) = natOf s*10^t.length+natOf t := by
  induction t using List.reverseRecOn with
  | nil => simp
  | append_singleton t c ih =>
    rw [← List.append_assoc,natOf_concat,natOf_concat,ih]
    simp only [List.length_append,List.length_cons,List.length_nil,pow_succ]
    ring

@[simp] lemma natOf_zeros (k : ℕ) : natOf (List.replicate k (digit 0)) = 0 := by
  induction k with
  | zero => rfl
  | succ k ih => rw [List.replicate_succ',natOf_concat,ih]; rfl

theorem natOf_natText (n : ℕ) : natOf (natText n) = n := by
  unfold natText
  split_ifs with h
  · subst h; rfl
  · have hd : ∀ l : List ℕ, (∀ d ∈ l, d < 10) → natOf (l.map digit).reverse = Nat.ofDigits 10 l := by
      intro l hl
      induction l with
      | nil => rfl
      | cons d l ih =>
        have hh := digit_val (hl d (by simp))
        rw [List.map_cons,List.reverse_cons,natOf_concat,ih fun e he => hl e (by simp [he]),
          Nat.ofDigits_cons,hh]
        omega
    rw [hd _ fun d hd => Nat.digits_lt_base (by decide) hd,Nat.ofDigits_digits]

lemma natText_digits (n : ℕ) : ∀ c ∈ natText n, isDigit c = true := by
  unfold natText
  split_ifs with h
  · intro c hc; rw [List.mem_singleton.mp hc]; decide
  · intro c hc
    obtain ⟨d,hd,rfl⟩ := List.mem_map.mp (List.mem_reverse.mp hc)
    exact isDigit_digit (Nat.digits_lt_base (by decide) hd)

lemma natText_ne_nil (n : ℕ) : natText n ≠ [] := by
  unfold natText
  split_ifs with h
  · simp
  · simp [Nat.digits_ne_nil_iff_ne_zero.mpr h]

theorem natText_injective : Function.Injective natText := fun m n h => by
  rw [← natOf_natText m,h,natOf_natText]

lemma natText_length (n : ℕ) : (natText n).length = max 1 (Nat.digits 10 n).length := by
  unfold natText
  split_ifs with h
  · subst h
    rfl
  · have := List.length_pos_iff.mpr (Nat.digits_ne_nil_iff_ne_zero (b := 10) |>.mpr h)
    rw [List.length_reverse,List.length_map]
    omega

lemma natOf_lt {s : PyStr} (h : ∀ c ∈ s, isDigit c = true) : natOf s < 10^s.length := by
  induction s using List.reverseRecOn with
  | nil => decide
  | append_singleton s c ih =>
    have hs := ih fun d hd => h d (by simp [hd])
    have hc := h c (by simp)
    simp only [isDigit,decide_eq_true_eq] at hc
    rw [natOf_concat,List.length_append,List.length_singleton,pow_succ]
    omega

/-- A number has no more digits than any digit string that denotes it. -/
lemma natText_natOf {s : PyStr} (hs : s ≠ []) (h : ∀ c ∈ s, isDigit c = true) :
    (natText (natOf s)).length ≤ s.length := by
  rw [natText_length]
  have hd := (Nat.digits_length_le_iff (by decide : 1 < 10) (natOf s)).mpr (natOf_lt h)
  exact max_le (List.length_pos_iff.mpr hs) hd

/-- Only zero is written with a leading zero. -/
lemma natText_head_ne_zero {n : ℕ} (h : n ≠ 0) : (natText n).head? ≠ some (digit 0) := by
  have hd := (Nat.digits_ne_nil_iff_ne_zero (b := 10)).mpr h
  rw [natText,if_neg h,List.head?_reverse,List.getLast?_map]
  rw [List.getLast?_eq_some_getLast hd]
  simp only [Option.map_some,ne_eq,Option.some.injEq]
  intro he
  have hl : (Nat.digits 10 n).getLast hd < 10 :=
    Nat.digits_lt_base (by decide) (List.getLast_mem hd)
  have hv := congrArg Fin.val he
  rw [digit_val hl,digit_val (by decide)] at hv
  exact Nat.getLast_digit_ne_zero 10 h (by omega)

/-- A JSON number: sign, integer digits, and the optional fraction and exponent. -/
structure NumToken where
  neg : Bool
  int : PyStr
  frac : Option PyStr
  exp : Option (Bool × PyStr)
  deriving DecidableEq

namespace NumToken

def signText (neg : Bool) : PyStr := if neg then [cp '-'] else []

def fracText : Option PyStr → PyStr
  | none => []
  | some ds => cp '.' :: ds

def expText : Option (Bool × PyStr) → PyStr
  | none => []
  | some (neg,ds) => cp 'e' :: (if neg then cp '-' else cp '+') :: ds

/-- The token as Python writes it: a lower-case exponent with an explicit sign. -/
def text (t : NumToken) : PyStr := signText t.neg++(t.int++(fracText t.frac++expText t.exp))

/-- (-?(?:0|[1-9]\d*))(\.\d+)?([eE][-+]?\d+)? -/
def Valid (t : NumToken) : Prop :=
  (t.int = [digit 0] ∨ (t.int ≠ [] ∧ t.int.head? ≠ some (digit 0))) ∧
  (∀ c ∈ t.int, isDigit c = true) ∧
  (∀ ds ∈ t.frac, ds ≠ [] ∧ ∀ c ∈ ds, isDigit c = true) ∧
  (∀ e ∈ t.exp, e.2 ≠ [] ∧ ∀ c ∈ e.2, isDigit c = true)

end NumToken

/-- The longest run of digits at the front. -/
def spanDigits : PyStr → PyStr × PyStr
  | [] => ([],[])
  | c :: s => if isDigit c then ((c :: (spanDigits s).1),(spanDigits s).2) else ([],c :: s)

def lexFrac : PyStr → Option PyStr × PyStr
  | [] => (none,[])
  | c :: s =>
    if c = cp '.' ∧ (spanDigits s).1 ≠ [] then (some (spanDigits s).1,(spanDigits s).2)
    else (none,c :: s)

def lexExpSign : PyStr → Bool × PyStr
  | [] => (false,[])
  | c :: s => if c = cp '-' then (true,s) else if c = cp '+' then (false,s) else (false,c :: s)

def lexExp : PyStr → Option (Bool × PyStr) × PyStr
  | [] => (none,[])
  | c :: s =>
    if (c = cp 'e' ∨ c = cp 'E') ∧ (spanDigits (lexExpSign s).2).1 ≠ [] then
      (some ((lexExpSign s).1,(spanDigits (lexExpSign s).2).1),(spanDigits (lexExpSign s).2).2)
    else (none,c :: s)

/-- The integer part: a single zero, or digits that do not start with one. -/
def lexInt (s : PyStr) : Option (PyStr × PyStr) :=
  match s with
  | [] => none
  | c :: r =>
    if c = digit 0 then some ([digit 0],r)
    else if isDigit c then some (spanDigits (c :: r))
    else none

/-- The number at the front of the text, as json's scanner matches it. -/
def lexNumber (s : PyStr) : Option (NumToken × PyStr) :=
  let (neg,s) := match s with
    | [] => (false,[])
    | c :: r => if c = cp '-' then (true,r) else (false,c :: r)
  match lexInt s with
  | none => none
  | some (int,s) =>
    let (frac,s) := lexFrac s
    let (exp,s) := lexExp s
    some (⟨neg,int,frac,exp⟩,s)

/-- Nothing that could continue a number token. -/
def NumEnd (r : PyStr) : Prop :=
  ∀ c ∈ r.head?, isDigit c = false ∧ c ≠ cp '.' ∧ c ≠ cp 'e' ∧ c ≠ cp 'E'

@[simp] lemma numEnd_nil : NumEnd [] := by simp [NumEnd]

lemma numEnd_cons {c : CodePoint} {r : PyStr} : NumEnd (c :: r) ↔
    isDigit c = false ∧ c ≠ cp '.' ∧ c ≠ cp 'e' ∧ c ≠ cp 'E' := by simp [NumEnd]

lemma spanDigits_append {ds r : PyStr} (hd : ∀ c ∈ ds, isDigit c = true)
    (hr : ∀ c ∈ r.head?, isDigit c = false) : spanDigits (ds++r) = (ds,r) := by
  induction ds with
  | nil =>
    cases r with
    | nil => rfl
    | cons c r => simp [spanDigits,hr c (by simp)]
  | cons c ds ih =>
    simp [spanDigits,hd c (by simp),ih fun d h => hd d (by simp [h])]

lemma lexExp_text {e : Option (Bool × PyStr)} {r : PyStr}
    (he : ∀ x ∈ e, x.2 ≠ [] ∧ ∀ c ∈ x.2, isDigit c = true) (hr : NumEnd r) :
    lexExp (NumToken.expText e++r) = (e,r) := by
  cases e with
  | none =>
    cases r with
    | nil => rfl
    | cons c r =>
      have h := numEnd_cons.mp hr
      simp [NumToken.expText,lexExp,h.2.2.1,h.2.2.2]
  | some p =>
    obtain ⟨neg,ds⟩ := p
    obtain ⟨hne,hds⟩ := he _ rfl
    have hs := spanDigits_append hds fun c hc => (hr c hc).1
    cases neg <;> simp [NumToken.expText,lexExp,lexExpSign,hs,hne]

lemma lexFrac_text {f : Option PyStr} {r : PyStr}
    (hf : ∀ ds ∈ f, ds ≠ [] ∧ ∀ c ∈ ds, isDigit c = true)
    (hr : ∀ c ∈ r.head?, isDigit c = false ∧ c ≠ cp '.') :
    lexFrac (NumToken.fracText f++r) = (f,r) := by
  cases f with
  | none =>
    cases r with
    | nil => rfl
    | cons c r => simp [NumToken.fracText,lexFrac,(hr c (by simp)).2]
  | some ds =>
    obtain ⟨hne,hds⟩ := hf _ rfl
    have hs := spanDigits_append hds fun c hc => (hr c hc).1
    simp [NumToken.fracText,lexFrac,hs,hne]

lemma lexInt_text {ds r : PyStr}
    (hz : ds = [digit 0] ∨ (ds ≠ [] ∧ ds.head? ≠ some (digit 0)))
    (hd : ∀ c ∈ ds, isDigit c = true) (hr : ∀ c ∈ r.head?, isDigit c = false) :
    lexInt (ds++r) = some (ds,r) := by
  cases ds with
  | nil => simp at hz
  | cons c ds =>
    rcases hz with h | ⟨_,h⟩
    · obtain ⟨rfl,rfl⟩ : c = digit 0 ∧ ds = [] := by simpa using h
      simp [lexInt]
    · have hc : c ≠ digit 0 := by simpa using h
      have hs := spanDigits_append hd hr
      rw [List.cons_append] at hs ⊢
      simp [lexInt,hc,hd c (by simp),hs]

lemma expText_head (e : Option (Bool × PyStr)) {r : PyStr} (hr : NumEnd r) :
    ∀ c ∈ (NumToken.expText e++r).head?, isDigit c = false ∧ c ≠ cp '.' := by
  cases e with
  | none => exact fun c hc => ⟨(hr c hc).1,(hr c hc).2.1⟩
  | some p =>
    intro c hc
    obtain rfl : cp 'e' = c := by simpa [NumToken.expText] using hc
    decide

lemma fracText_head (f : Option PyStr) {r : PyStr}
    (hr : ∀ c ∈ r.head?, isDigit c = false ∧ c ≠ cp '.') :
    ∀ c ∈ (NumToken.fracText f++r).head?, isDigit c = false := by
  cases f with
  | none => exact fun c hc => (hr c hc).1
  | some ds =>
    intro c hc
    obtain rfl : cp '.' = c := by simpa [NumToken.fracText] using hc
    decide

/-- A valid token is read back whole from any text that cannot continue it. -/
theorem lexNumber_text {t : NumToken} (ht : t.Valid) {r : PyStr} (hr : NumEnd r) :
    lexNumber (t.text++r) = some (t,r) := by
  obtain ⟨neg,int,frac,exp⟩ := t
  obtain ⟨hz,hi,hf,he⟩ := ht
  have hexp := lexExp_text he hr
  have hfrac := lexFrac_text hf (expText_head exp hr)
  have hint := lexInt_text hz hi (fracText_head frac (expText_head exp hr))
  have hsign : ∀ c ∈ int.head?, c ≠ cp '-' := by
    intro c hc h
    have := hi c (List.mem_of_mem_head? hc)
    rw [h] at this
    exact absurd this (by decide)
  cases int with
  | nil => simp at hz
  | cons c ds =>
    have hc := hsign c (by simp)
    cases neg <;>
      simp_all [lexNumber,NumToken.text,NumToken.signText,List.append_assoc]

end Python
