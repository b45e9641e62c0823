import Stele.Python.Decimal
import Mathlib.Data.Nat.Log
import Mathlib.Tactic.Linarith
import Mathlib.Tactic.Positivity

/-! Binary64 numbers: reading a decimal with correct rounding, and Python's
repr, the shortest decimal that reads back as the same number. -/
namespace Python

/-- The least binary64 exponent, negated. -/
def emin : ℕ := 1074

/-- ± mant · 2^(exp-emin), subnormal exactly when `exp` is zero. -/
structure Finite64 where
  neg : Bool
  mant : ℕ
  exp : ℕ
  mant_lt : mant < 2^53
  normal : exp = 0 ∨ 2^52 ≤ mant
  exp_le : exp ≤ 2045
  deriving DecidableEq

inductive PyFloat
  | finite (f : Finite64)
  | inf (neg : Bool)
  | nan
  deriving DecidableEq

/-- num/den rounded to an integer, ties to even. -/
def roundHalfEven (num den : ℕ) : ℕ :=
  let q := num/den
  let r := num%den
  if 2*r < den then q else if den < 2*r then q+1 else if q%2 = 0 then q else q+1

lemma roundHalfEven_mul (q : ℕ) {den : ℕ} (h : 0 < den) : roundHalfEven (q*den) den = q := by
  simp [roundHalfEven,Nat.mul_div_cancel _ h,h]

lemma roundHalfEven_scale (num den : ℕ) {k : ℕ} (hk : 0 < k) :
    roundHalfEven (num*k) (den*k) = roundHalfEven num den := by
  have hd : num*k/(den*k) = num/den := Nat.mul_div_mul_right _ _ hk
  have hm : num*k%(den*k) = num%den*k := Nat.mul_mod_mul_right k num den
  simp only [roundHalfEven,hd,hm]
  have h1 : 2*(num%den*k) < den*k ↔ 2*(num%den) < den := by
    rw [← Nat.mul_assoc]; exact Nat.mul_lt_mul_right hk
  have h2 : den*k < 2*(num%den*k) ↔ den < 2*(num%den) := by
    rw [← Nat.mul_assoc]; exact Nat.mul_lt_mul_right hk
  simp only [h1,h2]

/-- The exponent whose 53-bit window holds num/den, counted from the smallest. -/
def windowExp (num den : ℕ) : ℕ := Nat.log 2 (num*2^emin/den)-52

def mkFinite (neg : Bool) (m e : ℕ) : PyFloat :=
  if h : m < 2^53 ∧ (e = 0 ∨ 2^52 ≤ m) ∧ e ≤ 2045 then .finite ⟨neg,m,e,h.1,h.2.1,h.2.2⟩
  else if h : m = 2^53 ∧ e+1 ≤ 2045 then
    .finite ⟨neg,2^52,e+1,by decide,Or.inr le_rfl,h.2⟩
  else .inf neg

/-- float(): the binary64 nearest to ±num/den, infinite past the largest. -/
def nearest (neg : Bool) (num den : ℕ) : PyFloat :=
  let e := windowExp num den
  mkFinite neg (roundHalfEven (num*2^emin) (den*2^e)) e

lemma windowExp_scale (num den : ℕ) {k : ℕ} (hk : 0 < k) :
    windowExp (num*k) (den*k) = windowExp num den := by
  unfold windowExp
  rw [Nat.mul_right_comm,Nat.mul_div_mul_right _ _ hk]

lemma nearest_scale (neg : Bool) (num den : ℕ) {k : ℕ} (hk : 0 < k) :
    nearest neg (num*k) (den*k) = nearest neg num den := by
  simp only [nearest,windowExp_scale num den hk]
  rw [Nat.mul_right_comm num k,Nat.mul_right_comm den k,roundHalfEven_scale _ _ hk]

/-- Rounding depends on the quotient only. -/
theorem nearest_congr (neg : Bool) {a b c d : ℕ} (hb : 0 < b) (hd : 0 < d) (h : a*d = c*b) :
    nearest neg a b = nearest neg c d := by
  rw [← nearest_scale neg a b hd,← nearest_scale neg c d hb,h,Nat.mul_comm b d]

namespace Finite64

/-- The magnitude in units of 2^-emin. -/
def units (f : Finite64) : ℕ := f.mant*2^f.exp

lemma windowExp_units (f : Finite64) : windowExp f.units (2^emin) = f.exp := by
  have hp : 0 < 2^emin := by positivity
  rw [windowExp,Nat.mul_div_cancel _ hp,units]
  by_cases hm : f.mant = 0
  · have he : f.exp = 0 := by
      rcases f.normal with h | h
      · exact h
      · rw [hm] at h; exact absurd h (by decide)
    simp [hm,he]
  · have hlog : Nat.log 2 (f.mant*2^f.exp) = Nat.log 2 f.mant+f.exp := by
      generalize f.exp = e
      induction e with
      | zero => simp
      | succ e ih =>
        rw [pow_succ,← Nat.mul_assoc,Nat.log_mul_base (by decide) (Nat.mul_ne_zero hm (by positivity)),ih]
        omega
    have hlt : Nat.log 2 f.mant < 53 := Nat.log_lt_of_lt_pow hm f.mant_lt
    rw [hlog]
    rcases f.normal with he | he
    · omega
    · have hge := Nat.le_log_of_pow_le (by decide) he
      omega

/-- Rounding leaves a representable value alone. -/
theorem nearest_units (f : Finite64) : nearest f.neg f.units (2^emin) = .finite f := by
  have hp : 0 < 2^emin*2^f.exp := by positivity
  have hr : roundHalfEven (f.units*2^emin) (2^emin*2^f.exp) = f.mant := by
    rw [units,show f.mant*2^f.exp*2^emin = f.mant*(2^emin*2^f.exp) by ring]
    exact roundHalfEven_mul _ hp
  simp only [nearest,windowExp_units,hr]
  rw [mkFinite,dif_pos ⟨f.mant_lt,f.normal,f.exp_le⟩]

end Finite64

/-- digits · 10^-scale. -/
structure Decimal where
  digits : ℕ
  scale : ℤ
  deriving DecidableEq

namespace Decimal

def num (d : Decimal) : ℕ := d.digits*10^(-d.scale).toNat
def den (d : Decimal) : ℕ := 10^d.scale.toNat

lemma den_pos (d : Decimal) : 0 < d.den := by unfold den; positivity

def toFloat (neg : Bool) (d : Decimal) : PyFloat := nearest neg d.num d.den

/-- Moving a zero between the digits and the scale keeps the number. -/
lemma toFloat_shift (neg : Bool) (n k : ℕ) (s : ℤ) :
    toFloat neg ⟨n*10^k,s+k⟩ = toFloat neg ⟨n,s⟩ := by
  apply nearest_congr neg (den_pos _) (den_pos _)
  simp only [num,den]
  have h : k+(-(s+k)).toNat+s.toNat = (-s).toNat+(s+k).toNat := by omega
  calc n*10^k*10^(-(s+k)).toNat*10^s.toNat = n*10^(k+(-(s+k)).toNat+s.toNat) := by
        rw [pow_add,pow_add]; ring
    _ = n*10^(-s).toNat*10^(s+k).toNat := by rw [h,pow_add]; ring

/-- Drop trailing zeros, as many as the fuel allows. -/
def strip : ℕ → Decimal → Decimal
  | 0,d => d
  | n+1,d => if d.digits%10 = 0 then strip n ⟨d.digits/10,d.scale-1⟩ else d

lemma toFloat_strip (neg : Bool) (n : ℕ) (d : Decimal) : (strip n d).toFloat neg = d.toFloat neg := by
  induction n generalizing d with
  | zero => rfl
  | succ n ih =>
    rw [strip]
    split_ifs with h
    · rw [ih]
      have hs := toFloat_shift neg (d.digits/10) 1 (d.scale-1)
      rw [← hs]
      congr 1
      obtain ⟨m,s⟩ := d
      simp only [Decimal.mk.injEq]
      constructor
      · have := Nat.div_add_mod m 10
        simp only at h
        omega
      · simp
    · rfl

end Decimal

namespace Finite64

/-- The decimal point sits after this many digits of the expansion. -/
def decpt (f : Finite64) : ℤ := (Nat.log 10 (f.units*10^400/2^emin) : ℤ)+1-400

/-- The two n-digit decimals around the number, the nearer one first. -/
def neighbours (f : Finite64) (n : ℕ) : List Decimal :=
  let s : ℤ := n-f.decpt
  let num := f.units*10^s.toNat
  let den := 2^emin*10^(-s).toNat
  let near := roundHalfEven num den
  [⟨near,s⟩,⟨if near = num/den then near+1 else num/den,s⟩]

/-- An n-digit decimal that reads back as the number, if there is one. -/
def tryDigits (f : Finite64) (n : ℕ) : Option Decimal :=
  (f.neighbours n).find? fun d => d.toFloat f.neg = .finite f

/-- The whole binary expansion in decimal. -/
def exactDecimal (f : Finite64) : Decimal := ⟨f.units*5^emin,emin⟩

/-- The shortest decimal that reads back. Seventeen digits always suffice; past
them stands the exact expansion. -/
def shortest (f : Finite64) : Decimal :=
  Decimal.strip 1100
    (((List.range 17).findSome? fun i => f.tryDigits (i+1)).getD f.exactDecimal)

lemma tryDigits_toFloat {f : Finite64} {n : ℕ} {d : Decimal} (h : f.tryDigits n = some d) :
    d.toFloat f.neg = .finite f := by
  unfold tryDigits at h
  simpa using List.find?_some h

lemma exactDecimal_toFloat (f : Finite64) : f.exactDecimal.toFloat f.neg = .finite f := by
  rw [← f.nearest_units]
  apply nearest_congr _ (Decimal.den_pos _) (Nat.two_pow_pos emin)
  simp only [exactDecimal,Decimal.num,Decimal.den]
  rw [Int.toNat_natCast,show (-(emin : ℤ)).toNat = 0 by omega,pow_zero,mul_one,
    Nat.mul_assoc,← Nat.mul_pow]

theorem shortest_toFloat (f : Finite64) : f.shortest.toFloat f.neg = .finite f := by
  rw [shortest,Decimal.toFloat_strip]
  cases h : (List.range 17).findSome? fun i => f.tryDigits (i+1) with
  | none => exact f.exactDecimal_toFloat
  | some d =>
    obtain ⟨i,_,hi⟩ := List.exists_of_findSome?_eq_some h
    exact tryDigits_toFloat hi

end Finite64

/-- Plain notation: the point sits after `p` of the digits. -/
def plainToken (neg : Bool) (ds : PyStr) (p : ℤ) : NumToken :=
  if p ≤ 0 then ⟨neg,[digit 0],some (List.replicate (-p).toNat (digit 0)++ds),none⟩
  else if ds.length ≤ p.toNat then
    ⟨neg,ds++List.replicate (p.toNat-ds.length) (digit 0),some [digit 0],none⟩
  else ⟨neg,ds.take p.toNat,some (ds.drop p.toNat),none⟩

/-- Exponents are padded to two digits. -/
def padExp (n : ℕ) : PyStr :=
  if (natText n).length < 2 then digit 0 :: natText n else natText n

/-- Scientific notation: one digit before the point. -/
def scientificToken (neg : Bool) (ds : PyStr) (p : ℤ) : NumToken :=
  ⟨neg,ds.take 1,if ds.length ≤ 1 then none else some (ds.drop 1),
    some (decide (p-1 < 0),padExp (p-1).natAbs)⟩

/-- float.__repr__ chooses plain notation for -4 < p ≤ 16. -/
def reprToken (neg : Bool) (ds : PyStr) (p : ℤ) : NumToken :=
  if -4 < p ∧ p ≤ 16 then plainToken neg ds p else scientificToken neg ds p

def Finite64.token (f : Finite64) : NumToken :=
  if f.mant = 0 then ⟨f.neg,[digit 0],some [digit 0],none⟩
  else reprToken f.neg (natText f.shortest.digits)
    ((natText f.shortest.digits).length-f.shortest.scale)

def NumToken.expValue : Option (Bool × PyStr) → ℤ
  | none => 0
  | some (neg,ds) => if neg then -(natOf ds : ℤ) else natOf ds

/-- The decimal a token denotes. -/
def NumToken.decimal (t : NumToken) : Decimal :=
  ⟨natOf (t.int++t.frac.getD []),(t.frac.getD []).length-NumToken.expValue t.exp⟩

/-- float(text) on a number token. -/
def NumToken.toFloat (t : NumToken) : PyFloat := t.decimal.toFloat t.neg

section ReprToken
variable {neg : Bool} {ds : PyStr} {p : ℤ}

lemma isDigit_zero : isDigit (digit 0) = true := by decide

lemma isDigit_zeros {k : ℕ} : ∀ c ∈ List.replicate k (digit 0), isDigit c = true := by
  intro c hc
  rw [List.eq_of_mem_replicate hc]
  exact isDigit_zero

lemma natOf_padExp (n : ℕ) : natOf (padExp n) = n := by
  unfold padExp
  split_ifs
  · have h := natOf_append [digit 0] (natText n)
    rw [natOf_natText] at h
    simpa [natOf] using h
  · exact natOf_natText n

lemma padExp_digits (n : ℕ) : padExp n ≠ [] ∧ ∀ c ∈ padExp n, isDigit c = true := by
  unfold padExp
  split_ifs
  · refine ⟨by simp,fun c hc => ?_⟩
    rcases List.mem_cons.mp hc with rfl | h
    · exact isDigit_zero
    · exact natText_digits _ c h
  · exact ⟨natText_ne_nil _,natText_digits _⟩

lemma plainToken_valid (hne : ds ≠ []) (hd : ∀ c ∈ ds, isDigit c = true)
    (hz : ds.head? ≠ some (digit 0)) : (plainToken neg ds p).Valid := by
  unfold plainToken
  split_ifs with h1 h2
  · refine ⟨Or.inl rfl,by simp,?_,by simp⟩
    simp only [Option.mem_some_iff,forall_eq']
    refine ⟨by simp [hne],fun c hc => ?_⟩
    rcases List.mem_append.mp hc with h | h
    · exact isDigit_zeros c h
    · exact hd c h
  · refine ⟨Or.inr ⟨by simp [hne],?_⟩,fun c hc => ?_,by simp,by simp⟩
    · rwa [List.head?_append_of_ne_nil _ hne]
    · rcases List.mem_append.mp hc with h | h
      · exact hd c h
      · exact isDigit_zeros c h
  · have hp : p.toNat ≠ 0 := by omega
    refine ⟨Or.inr ⟨by simp [hp,hne],?_⟩,fun c hc => hd c (List.mem_of_mem_take hc),?_,by simp⟩
    · rwa [List.head?_take,if_neg hp]
    · simp only [Option.mem_some_iff,forall_eq']
      exact ⟨by simpa using h2,fun c hc => hd c (List.mem_of_mem_drop hc)⟩

lemma scientificToken_valid (hne : ds ≠ []) (hd : ∀ c ∈ ds, isDigit c = true)
    (hz : ds.head? ≠ some (digit 0)) : (scientificToken neg ds p).Valid := by
  refine ⟨Or.inr ⟨by simp [scientificToken,hne],?_⟩,
    fun c hc => hd c (List.mem_of_mem_take hc),?_,?_⟩
  · rwa [scientificToken,List.head?_take,if_neg one_ne_zero]
  · intro x hx
    simp only [scientificToken] at hx
    split at hx
    · contradiction
    · rename_i hl
      rw [← Option.some.inj hx]
      exact ⟨fun h => hl (List.drop_eq_nil_iff.mp h),fun c hc => hd c (List.mem_of_mem_drop hc)⟩
  · intro x hx
    rw [← Option.some.inj hx]
    exact padExp_digits _

theorem reprToken_valid (hne : ds ≠ []) (hd : ∀ c ∈ ds, isDigit c = true)
    (hz : ds.head? ≠ some (digit 0)) : (reprToken neg ds p).Valid := by
  unfold reprToken
  split
  · exact plainToken_valid hne hd hz
  · exact scientificToken_valid hne hd hz

lemma plainToken_toFloat (hne : ds ≠ []) :
    (plainToken neg ds p).toFloat = Decimal.toFloat neg ⟨natOf ds,ds.length-p⟩ := by
  have hlen : 0 < ds.length := List.length_pos_of_ne_nil hne
  unfold plainToken
  split_ifs with h1 h2
  · simp only [NumToken.toFloat,NumToken.decimal,NumToken.expValue,Option.getD_some]
    congr 2
    · rw [natOf_append,natOf_append,natOf_zeros]
      simp [natOf]
    · simp only [List.length_append,List.length_replicate]
      omega
  · simp only [NumToken.toFloat,NumToken.decimal,NumToken.expValue,Option.getD_some]
    rw [← Decimal.toFloat_shift neg (natOf ds) (p.toNat-ds.length+1) (ds.length-p)]
    congr 2
    · rw [natOf_append,natOf_append,natOf_zeros]
      simp [natOf,pow_succ,Nat.mul_assoc]
    · simp only [List.length_cons,List.length_nil]
      omega
  · simp only [NumToken.toFloat,NumToken.decimal,NumToken.expValue,Option.getD_some,List.take_append_drop,
      List.length_drop]
    congr 2
    omega

lemma scientificToken_toFloat (hne : ds ≠ []) :
    (scientificToken neg ds p).toFloat = Decimal.toFloat neg ⟨natOf ds,ds.length-p⟩ := by
  have hlen : 0 < ds.length := List.length_pos_of_ne_nil hne
  have hf : (scientificToken neg ds p).frac.getD [] = ds.drop 1 := by
    simp only [scientificToken]
    split
    · rename_i h
      simp [List.drop_eq_nil_of_le h]
    · rfl
  have he : NumToken.expValue (scientificToken neg ds p).exp = p-1 := by
    simp only [scientificToken,NumToken.expValue,natOf_padExp,decide_eq_true_eq]
    split_ifs with h
    · rw [Int.ofNat_natAbs_of_nonpos h.le,neg_neg]
    · exact Int.natAbs_of_nonneg (by omega)
  rw [NumToken.toFloat,NumToken.decimal,hf,he]
  simp only [scientificToken,List.take_append_drop,List.length_drop]
  congr 2
  omega

/-- The layout of the digits does not change the number. -/
theorem reprToken_toFloat (hne : ds ≠ []) :
    (reprToken neg ds p).toFloat = Decimal.toFloat neg ⟨natOf ds,ds.length-p⟩ := by
  unfold reprToken
  split
  · exact plainToken_toFloat hne
  · exact scientificToken_toFloat hne

end ReprToken

namespace Finite64

lemma roundHalfEven_zero (den : ℕ) : roundHalfEven 0 den = 0 := by
  unfold roundHalfEven
  simp only [Nat.zero_div,Nat.zero_mod,mul_zero,if_true]
  split_ifs
  · rfl
  · omega
  · rfl

lemma windowExp_zero (den : ℕ) : windowExp 0 den = 0 := by
  rw [windowExp,Nat.zero_mul,Nat.zero_div,Nat.log_zero_right]

lemma nearest_zero (neg : Bool) (den : ℕ) :
    nearest neg 0 den = .finite ⟨neg,0,0,by decide,Or.inl rfl,by decide⟩ := by
  simp only [nearest,windowExp_zero,Nat.zero_mul,roundHalfEven_zero]
  rw [mkFinite,dif_pos ⟨by decide,Or.inl rfl,by decide⟩]

lemma toFloat_zero (neg : Bool) (s : ℤ) :
    Decimal.toFloat neg ⟨0,s⟩ = .finite ⟨neg,0,0,by decide,Or.inl rfl,by decide⟩ := by
  rw [Decimal.toFloat,Decimal.num,Nat.zero_mul,nearest_zero]

lemma shortest_digits_ne_zero {f : Finite64} (h : f.mant ≠ 0) : f.shortest.digits ≠ 0 := by
  intro hd
  have hs := f.shortest_toFloat
  generalize f.shortest = d at hd hs
  obtain ⟨n,s⟩ := d
  obtain rfl : n = 0 := hd
  rw [toFloat_zero] at hs
  exact h (congrArg mant (PyFloat.finite.inj hs)).symm

theorem token_valid (f : Finite64) : f.token.Valid := by
  unfold token
  split_ifs with h
  · have hz : isDigit (digit 0) = true := by decide
    exact ⟨Or.inl rfl,by simp [hz],by simp [hz],by simp⟩
  · exact reprToken_valid (natText_ne_nil _) (natText_digits _)
      (natText_head_ne_zero (shortest_digits_ne_zero h))

lemma zero_decimal (neg : Bool) :
    NumToken.decimal ⟨neg,[digit 0],some [digit 0],none⟩ = ⟨0,1⟩ := by
  simp [NumToken.decimal,NumToken.expValue,natOf]

/-- float(repr(f)) == f, bit for bit. -/
theorem token_toFloat (f : Finite64) : f.token.toFloat = .finite f := by
  unfold token
  split
  · rename_i h
    have he : f.exp = 0 := by
      rcases f.normal with he | he
      · exact he
      · rw [h] at he; exact absurd he (by decide)
    obtain ⟨neg,m,e,h1,h2,h3⟩ := f
    obtain rfl : m = 0 := h
    obtain rfl : e = 0 := he
    rw [NumToken.toFloat,zero_decimal,toFloat_zero]
  · have hs := f.shortest_toFloat
    generalize f.shortest = d at hs ⊢
    obtain ⟨n,s⟩ := d
    rw [reprToken_toFloat (natText_ne_nil _),natOf_natText,sub_sub_cancel]
    exact hs

end Finite64

end Python
