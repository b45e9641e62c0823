import Mathlib.Data.Fin.Basic
import Mathlib.Data.List.Basic
import Mathlib.Order.Lattice

/-! Python text and bytes. A `str` is a list of code points, lone surrogates
included, so encoding it as UTF-8 can fail; `bytes` are lists of octets. -/
namespace Python

abbrev CodePoint := Fin 0x110000
abbrev PyStr := List CodePoint
abbrev Bytes := List UInt8

instance codePoint_neZero : @NeZero Nat Zero.ofOfNat0 0x110000 := ⟨by decide⟩

instance : LawfulBEq CodePoint := instLawfulBEq

instance : LawfulBEq PyStr := List.instLawfulBEq

theorem char_toNat_lt (c : Char) : c.toNat < 0x110000 := by
  rcases c.valid with h | ⟨_,h⟩
  · exact lt_trans h (by decide)
  · exact h

/-- The code point of a character. -/
def cp (c : Char) : CodePoint := ⟨c.toNat,char_toNat_lt c⟩

/-- A string literal of the source. -/
def lit (s : String) : PyStr := s.toList.map cp

@[simp] theorem cp_inj {c d : Char} : cp c = cp d ↔ c = d := by
  constructor
  · intro h
    exact Char.toNat_inj.mp (Fin.mk.inj h)
  · rintro rfl; rfl

@[simp] theorem lit_inj {s t : String} : lit s = lit t ↔ s = t := by
  constructor
  · intro h
    exact String.toList_inj.mp ((List.map_injective_iff.mpr fun _ _ => cp_inj.mp) h)
  · rintro rfl; rfl

namespace CodePoint

/-- Surrogates are the code points that UTF-8 cannot encode. -/
def isSurrogate (c : CodePoint) : Bool := decide (0xD800 ≤ c.val ∧ c.val < 0xE000)

def toChar (c : CodePoint) : Char := Char.ofNat c.val

end CodePoint

namespace CodePoint

lemma isValidChar_of_not_surrogate {c : CodePoint} (h : c.isSurrogate = false) :
    c.val.isValidChar := by
  have hc := c.isLt
  simp only [isSurrogate,decide_eq_false_iff_not,not_and,not_lt] at h
  unfold Nat.isValidChar
  omega

@[simp] theorem cp_toChar {c : CodePoint} (h : c.isSurrogate = false) : cp c.toChar = c := by
  have hv := isValidChar_of_not_surrogate h
  apply Fin.ext
  change (Char.ofNat c.val).toNat = c.val
  rw [Char.ofNat,dif_pos hv]
  rfl

@[simp] theorem toChar_cp (c : Char) : (cp c).toChar = c := Char.ofNat_toNat c

@[simp] theorem isSurrogate_cp (c : Char) : (cp c).isSurrogate = false := by
  have h := c.valid
  simp only [isSurrogate,decide_eq_false_iff_not,not_and,not_lt]
  change c.val.toNat.isValidChar at h
  unfold Nat.isValidChar at h
  intro hs
  change 0xD800 ≤ c.val.toNat at hs
  change 0xE000 ≤ c.val.toNat
  omega

end CodePoint

/-- No lone surrogate: the strings that have a UTF-8 form. -/
def Encodable (s : PyStr) : Prop := ∀ c ∈ s, c.isSurrogate = false

instance (s : PyStr) : Decidable (Encodable s) := List.decidableBAll _ s

@[simp] theorem encodable_nil : Encodable [] := by simp [Encodable]
@[simp] theorem encodable_cons {c : CodePoint} {s : PyStr} :
    Encodable (c :: s) ↔ c.isSurrogate = false ∧ Encodable s := by simp [Encodable]
@[simp] theorem encodable_append {s t : PyStr} :
    Encodable (s ++ t) ↔ Encodable s ∧ Encodable t := by simp [Encodable,or_imp,forall_and]
@[simp] theorem encodable_lit (s : String) : Encodable (lit s) := by simp [Encodable,lit]

/-- The UTF-8 bytes of an encodable string. -/
def utf8 (s : PyStr) : Bytes := s.flatMap fun c => String.utf8EncodeChar c.toChar

/-- str.encode("utf-8"); `none` is UnicodeEncodeError. -/
def encode (s : PyStr) : Option Bytes := if Encodable s then some (utf8 s) else none

/-- bytes.decode("utf-8"); `none` is UnicodeDecodeError. -/
def decode (b : Bytes) : Option PyStr :=
  b.toByteArray.utf8Decode?.map fun cs => cs.toList.map cp

@[simp] theorem encode_eq_some {s : PyStr} {b : Bytes} :
    encode s = some b ↔ Encodable s ∧ utf8 s = b := by simp [encode]

@[simp] theorem utf8_append (s t : PyStr) : utf8 (s ++ t) = utf8 s ++ utf8 t := by simp [utf8]

lemma map_cp_toChar {s : PyStr} (h : Encodable s) : (s.map CodePoint.toChar).map cp = s := by
  rw [List.map_map]
  conv_rhs => rw [← List.map_id s]
  exact List.map_congr_left fun c hc => CodePoint.cp_toChar (h c hc)

lemma utf8_toByteArray (s : PyStr) :
    (utf8 s).toByteArray = (s.map CodePoint.toChar).utf8Encode := by
  simp [utf8,List.utf8Encode,List.flatMap_map]

theorem decode_utf8 {s : PyStr} (h : Encodable s) : decode (utf8 s) = some s := by
  rw [decode,utf8_toByteArray,List.utf8Decode?_utf8Encode]
  simp only [Option.map_some,map_cp_toChar h]

theorem decode_encode {s : PyStr} {b : Bytes} (h : encode s = some b) : decode b = some s := by
  obtain ⟨hs,rfl⟩ := encode_eq_some.mp h
  exact decode_utf8 hs

lemma encodable_ascii {s : PyStr} (h : ∀ c ∈ s, c.val < 128) : Encodable s := by
  intro c hc
  have := h c hc
  simp only [CodePoint.isSurrogate,decide_eq_false_iff_not,not_and,not_lt]
  omega

/-- A code point below 128 is one byte. -/
lemma utf8_ascii {s : PyStr} (h : ∀ c ∈ s, c.val < 128) :
    utf8 s = s.map fun c => UInt8.ofNat c.val := by
  induction s with
  | nil => rfl
  | cons c s ih =>
    have hc := h c (by simp)
    have hv : c.toChar.val.toNat = c.val := by
      have hn : c.isSurrogate = false := by
        simp only [CodePoint.isSurrogate,decide_eq_false_iff_not,not_and,not_lt]; omega
      exact congrArg Fin.val (CodePoint.cp_toChar hn)
    have he : String.utf8EncodeChar c.toChar = [UInt8.ofNat c.val] := by
      unfold String.utf8EncodeChar
      simp only [hv,if_pos (show c.val ≤ 127 by omega)]
    rw [utf8,List.flatMap_cons,he,List.map_cons,← ih fun d hd => h d (List.mem_cons_of_mem _ hd)]
    rfl

/-- Two encodable strings with the same bytes are equal. -/
theorem utf8_injOn {s t : PyStr} (hs : Encodable s) (ht : Encodable t) (h : utf8 s = utf8 t) :
    s = t := by
  have he := decode_utf8 hs
  rw [h,decode_utf8 ht] at he
  exact (Option.some.inj he).symm

/-- What decodes was encodable, and encodes back to the same bytes. -/
theorem encode_decode {b : Bytes} {s : PyStr} (h : decode b = some s) : encode s = some b := by
  simp only [decode,Option.map_eq_some_iff] at h
  obtain ⟨cs,hcs,rfl⟩ := h
  have hg : cs.toList.utf8Encode = b.toByteArray := by
    have hi : (b.toByteArray.utf8Decode?).isSome = true := by simp [hcs]
    have hr := ByteArray.utf8Encode_get_utf8Decode? (b := b.toByteArray) (h := hi)
    simpa [hcs] using hr
  have he : Encodable (cs.toList.map cp) := by simp [Encodable]
  refine encode_eq_some.mpr ⟨he,?_⟩
  have hb := utf8_toByteArray (cs.toList.map cp)
  rw [List.map_map] at hb
  have hid : CodePoint.toChar ∘ cp = id := by funext c; simp
  rw [hid,List.map_id,hg] at hb
  exact List.toByteArray_inj.mp hb

end Python
