import Stele.Python.Strings

/-! Percent-encoding: urllib.parse's quote and unquote. -/
namespace Python.Urllib

/-- The octets that quote never escapes: letters, digits and "_.-~". -/
def alwaysSafe (b : UInt8) : Bool :=
  decide (65 ≤ b.toNat ∧ b.toNat ≤ 90) || decide (97 ≤ b.toNat ∧ b.toNat ≤ 122) ||
    decide (48 ≤ b.toNat ∧ b.toNat ≤ 57) || decide (b ∈ [95,46,45,126])

/-- "0123456789ABCDEF"[d]. -/
def upperHex (d : ℕ) : CodePoint := if d < 10 then digit d else Fin.ofNat _ (55+d)

/-- The octet itself, or %XX. -/
def quoteByte (safe : Bytes) (b : UInt8) : PyStr :=
  if alwaysSafe b || decide (b ∈ safe) then [Fin.ofNat _ b.toNat]
  else [cp '%',upperHex (b.toNat/16),upperHex (b.toNat%16)]

/-- quote(s, safe=safe); `none` is UnicodeEncodeError. -/
def quote (safe : Bytes) (s : PyStr) : Option PyStr := (encode s).map fun b => b.flatMap (quoteByte safe)

/-- quote's default: "/". -/
def slash : Bytes := [47]

/-- The value of a hexadecimal digit of either case. -/
def hexOctet (b : UInt8) : Option ℕ :=
  if 48 ≤ b.toNat ∧ b.toNat ≤ 57 then some (b.toNat-48)
  else if 65 ≤ b.toNat ∧ b.toNat ≤ 70 then some (b.toNat-55)
  else if 97 ≤ b.toNat ∧ b.toNat ≤ 102 then some (b.toNat-87)
  else none

/-- unquote_to_bytes: every % before two hexadecimal digits is an octet, any other stays. -/
def unquoteBytes : Bytes → Bytes
  | b :: h :: l :: s =>
    if b = 37 then
      match hexOctet h,hexOctet l with
      | some x,some y => UInt8.ofNat (16*x+y) :: unquoteBytes s
      | _,_ => b :: unquoteBytes (h :: l :: s)
    else b :: unquoteBytes (h :: l :: s)
  | s => s

/-- How many octets at the start of bytes that begin no UTF-8 sequence one U+FFFD stands for:
the part that could still begin one. -/
def brokenLength : Bytes → ℕ
  | a :: b :: s =>
    let second := if a = 0xE0 then (0xA0 ≤ b ∧ b ≤ 0xBF) else if a = 0xED then (0x80 ≤ b ∧ b ≤ 0x9F)
      else if a = 0xF0 then (0x90 ≤ b ∧ b ≤ 0xBF) else if a = 0xF4 then (0x80 ≤ b ∧ b ≤ 0x8F)
      else (0x80 ≤ b ∧ b ≤ 0xBF)
    if a < 0xE0 ∨ 0xF4 < a ∨ ¬second then 1
    else if a < 0xF0 then 2
    else match s with
      | c :: _ => if 0x80 ≤ c ∧ c ≤ 0xBF then 3 else 2
      | [] => 2
  | _ => 1

/-- s.decode("utf-8", "replace"); the fuel is the number of octets. -/
def decodeReplaceFuel : ℕ → Bytes → PyStr
  | _,[] => []
  | 0,_ => []
  | n+1,b :: s =>
    match (b :: s).toByteArray.utf8DecodeChar? 0 with
    | some c => cp c :: decodeReplaceFuel n ((b :: s).drop c.utf8Size)
    | none => 0xFFFD :: decodeReplaceFuel n ((b :: s).drop (brokenLength (b :: s)))

def decodeReplace (s : Bytes) : PyStr := decodeReplaceFuel s.length s

/-- The ASCII runs of the text are unquoted one by one; what is between them stays. -/
def unquoteRuns : PyStr → Bytes → PyStr
  | [],run => decodeReplace (unquoteBytes run)
  | c :: s,run =>
    if c.val < 128 then unquoteRuns s (run++[UInt8.ofNat c.val])
    else decodeReplace (unquoteBytes run)++c :: unquoteRuns s []

/-- unquote(s). -/
def unquote (s : PyStr) : PyStr := if cp '%' ∈ s then unquoteRuns s [] else s

section RoundTrip

variable {safe : Bytes} {b : UInt8} {s t : PyStr}

/-- Decoding what encoding gave, whatever the errors would be replaced by. -/
theorem decodeReplace_utf8 (h : Encodable s) : decodeReplace (utf8 s) = s := by
  have hfuel : ∀ n, (utf8 s).length ≤ n → decodeReplaceFuel n (utf8 s) = s := by
    induction s with
    | nil => intro n _; cases n <;> rfl
    | cons c s ih =>
      intro n hn
      rw [encodable_cons] at h
      have hu : utf8 (c :: s) = String.utf8EncodeChar c.toChar++utf8 s := rfl
      have hlen := String.length_utf8EncodeChar c.toChar
      have hpos := Char.utf8Size_pos c.toChar
      rw [hu] at hn ⊢
      cases hb : String.utf8EncodeChar c.toChar++utf8 s with
      | nil =>
        have := congrArg List.length hb
        rw [List.length_append,hlen,List.length_nil] at this
        omega
      | cons x xs =>
        rw [hb] at hn
        obtain _ | n := n
        · simp at hn
        have hdec : (x :: xs).toByteArray.utf8DecodeChar? 0 = some c.toChar := by
          rw [← hb,List.toByteArray_append]
          exact ByteArray.utf8DecodeChar?_utf8EncodeChar_append
        have hdrop : (x :: xs).drop c.toChar.utf8Size = utf8 s := by
          rw [← hb,← hlen,List.drop_left]
        have hle : (utf8 s).length ≤ n := by
          have := congrArg List.length hb
          rw [List.length_append,hlen] at this
          omega
        rw [decodeReplaceFuel,hdec]
        simp only [hdrop,ih h.2 n hle,CodePoint.cp_toChar h.1]
  exact hfuel _ le_rfl

lemma hexOctet_upperHex {d : ℕ} (h : d < 16) :
    hexOctet (UInt8.ofNat (upperHex d).val) = some d ∧ (upperHex d).val < 128 := by
  interval_cases d <;> decide

/-- The ASCII characters as octets. -/
def asciiOctets (s : PyStr) : Bytes := s.map fun c => UInt8.ofNat c.val

lemma unquoteBytes_cons (h : b ≠ 37) (r : Bytes) : unquoteBytes (b :: r) = b :: unquoteBytes r := by
  rcases r with _ | ⟨x,_ | ⟨y,r⟩⟩
  · rfl
  · rfl
  · rw [unquoteBytes,if_neg h]

lemma octet_val (b : UInt8) : ((Fin.ofNat 0x110000 b.toNat : CodePoint)).val = b.toNat := by
  have := b.toNat_lt
  exact Nat.mod_eq_of_lt (by omega)

lemma unquoteBytes_quoteByte (hs : 37 ∉ safe) (b : UInt8) (r : Bytes) :
    unquoteBytes (asciiOctets (quoteByte safe b)++r) = b :: unquoteBytes r := by
  unfold quoteByte
  split_ifs with h
  · have hb : b ≠ 37 := by
      rintro rfl
      simp only [Bool.or_eq_true,decide_eq_true_eq] at h
      exact h.elim (fun h => by revert h; decide) hs
    change unquoteBytes (UInt8.ofNat (Fin.ofNat 0x110000 b.toNat : CodePoint).val :: r) = _
    rw [octet_val,UInt8.ofNat_toNat,unquoteBytes_cons hb]
  · have hlt := b.toNat_lt
    have h1 := (hexOctet_upperHex (show b.toNat/16 < 16 by omega)).1
    have h2 := (hexOctet_upperHex (show b.toNat%16 < 16 by omega)).1
    have hv : 16*(b.toNat/16)+b.toNat%16 = b.toNat := by omega
    change unquoteBytes (37 :: UInt8.ofNat (upperHex (b.toNat/16)).val ::
      UInt8.ofNat (upperHex (b.toNat%16)).val :: r) = _
    rw [unquoteBytes,if_pos rfl,h1,h2]
    simp only [hv,UInt8.ofNat_toNat]

lemma asciiOctets_append (s t : PyStr) : asciiOctets (s++t) = asciiOctets s++asciiOctets t :=
  List.map_append

lemma unquoteBytes_flatMap (hs : 37 ∉ safe) (bs : Bytes) :
    unquoteBytes (asciiOctets (bs.flatMap (quoteByte safe))) = bs := by
  induction bs with
  | nil => rfl
  | cons b bs ih => rw [List.flatMap_cons,asciiOctets_append,unquoteBytes_quoteByte hs,ih]

lemma unquoteBytes_self {bs : Bytes} (h : 37 ∉ bs) : unquoteBytes bs = bs := by
  induction bs with
  | nil => rfl
  | cons b bs ih =>
    rw [unquoteBytes_cons (fun hb => h (hb ▸ List.mem_cons_self)),ih fun hm => h (List.mem_cons_of_mem _ hm)]

lemma unquoteRuns_ascii (h : ∀ c ∈ s, c.val < 128) (run : Bytes) :
    unquoteRuns s run = decodeReplace (unquoteBytes (run++asciiOctets s)) := by
  induction s generalizing run with
  | nil => rw [unquoteRuns,asciiOctets,List.map_nil,List.append_nil]
  | cons c s ih =>
    rw [unquoteRuns,if_pos (h c (by simp)),ih fun d hd => h d (List.mem_cons_of_mem _ hd),
      List.append_assoc]
    rfl

/-- A text of ASCII characters is unquoted as one run, also when it has no "%". -/
lemma unquote_ascii (h : ∀ c ∈ s, c.val < 128) :
    unquote s = decodeReplace (unquoteBytes (asciiOctets s)) := by
  unfold unquote
  split_ifs with hp
  · exact unquoteRuns_ascii h []
  · have hn : 37 ∉ asciiOctets s := by
      intro hm
      obtain ⟨c,hc,he⟩ := List.mem_map.mp hm
      have hv := congrArg UInt8.toNat he
      rw [UInt8.toNat_ofNat'] at hv
      have hlt := h c hc
      have hcp : c = cp '%' := Fin.ext (by
        change c.val = 37
        simp only [UInt8.reduceToNat] at hv
        omega)
      exact hp (hcp ▸ hc)
    rw [unquoteBytes_self hn,asciiOctets,← utf8_ascii h,decodeReplace_utf8 (encodable_ascii h)]

/-- What quote writes of an octet is in the alphabet of percent-encoding. -/
lemma quoteByte_chars (hl : ∀ b ∈ safe, b < 128) (b : UInt8) : ∀ c ∈ quoteByte safe b, c.val < 128 ∧
    (c = cp '%' ∨ alwaysSafe (UInt8.ofNat c.val) = true ∨ UInt8.ofNat c.val ∈ safe) := by
  intro c hc
  have hlt := b.toNat_lt
  unfold quoteByte at hc
  split_ifs at hc with h
  · obtain rfl := List.mem_singleton.mp hc
    rw [octet_val,UInt8.ofNat_toNat]
    rw [Bool.or_eq_true,decide_eq_true_eq] at h
    refine ⟨?_,Or.inr h⟩
    rcases h with h | h
    · simp only [alwaysSafe,Bool.or_eq_true,decide_eq_true_eq] at h
      rcases h with ((h | h) | h) | h
      · omega
      · omega
      · omega
      · simp only [List.mem_cons,List.not_mem_nil,or_false] at h
        rcases h with rfl | rfl | rfl | rfl <;> decide
    · exact UInt8.lt_iff_toNat_lt.mp (hl b h)
  · have hex : ∀ d < 16, (upperHex d).val < 128 ∧ alwaysSafe (UInt8.ofNat (upperHex d).val) = true := by
      intro d hd
      interval_cases d <;> decide
    simp only [List.mem_cons,List.not_mem_nil,or_false] at hc
    rcases hc with rfl | rfl | rfl
    · exact ⟨by decide,Or.inl rfl⟩
    · exact ⟨(hex _ (by omega)).1,Or.inr (Or.inl (hex _ (by omega)).2)⟩
    · exact ⟨(hex _ (by omega)).1,Or.inr (Or.inl (hex _ (by omega)).2)⟩

lemma quote_chars (hl : ∀ b ∈ safe, b < 128) (h : quote safe s = some t) : ∀ c ∈ t, c.val < 128 ∧
    (c = cp '%' ∨ alwaysSafe (UInt8.ofNat c.val) = true ∨ UInt8.ofNat c.val ∈ safe) := by
  obtain ⟨bs,_,rfl⟩ := Option.map_eq_some_iff.mp h
  intro c hc
  obtain ⟨b,_,hb⟩ := List.mem_flatMap.mp hc
  exact quoteByte_chars hl b c hb

/-- A character that is neither safe nor "%" is not in what quote writes. -/
lemma not_mem_quote (hl : ∀ b ∈ safe, b < 128) (h : quote safe s = some t) {c : CodePoint}
    (hc : c ≠ cp '%' ∧ alwaysSafe (UInt8.ofNat c.val) = false ∧ UInt8.ofNat c.val ∉ safe) : c ∉ t := by
  intro hm
  rcases (quote_chars hl h c hm).2 with he | he | he
  · exact hc.1 he
  · rw [hc.2.1] at he
    cases he
  · exact hc.2.2 he

/-- unquote takes back what quote did, whatever else was safe. -/
theorem unquote_quote (hs : 37 ∉ safe) (hl : ∀ b ∈ safe, b < 128) (h : quote safe s = some t) :
    unquote t = s := by
  rw [unquote_ascii fun c hc => (quote_chars hl h c hc).1]
  obtain ⟨bs,hb,rfl⟩ := Option.map_eq_some_iff.mp h
  obtain ⟨he,rfl⟩ := encode_eq_some.mp hb
  rw [unquoteBytes_flatMap hs,decodeReplace_utf8 he]

lemma quote_isSome : (∃ t, quote safe s = some t) ↔ Encodable s := by
  constructor
  · rintro ⟨t,h⟩
    obtain ⟨bs,hb,_⟩ := Option.map_eq_some_iff.mp h
    exact (encode_eq_some.mp hb).1
  · intro h
    exact ⟨_,by rw [quote,encode,if_pos h]; rfl⟩

end RoundTrip

end Python.Urllib
