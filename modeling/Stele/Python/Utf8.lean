import Stele.Python.JsonBytes

/-! json.loads of the bytes of canonical JSON: they are taken as UTF-8, and read as the text they
encode. No control character is among them, so no line break is. -/
namespace Python

section Bytes

variable {c : CodePoint} {s : PyStr}

lemma toChar_val (h : c.isSurrogate = false) : c.toChar.val.toNat = c.val :=
  congrArg Fin.val (CodePoint.cp_toChar h)

lemma ofNat_toNat {n : ℕ} (h : n < 256) : (UInt8.ofNat n).toNat = n := by
  rw [UInt8.toNat_ofNat']
  exact Nat.mod_eq_of_lt h

lemma continuation_ofNat (n : ℕ) : continuation (UInt8.ofNat (n%0x40+0x80)) = some (n%0x40) := by
  have h : n%0x40 < 0x40 := Nat.mod_lt _ (by decide)
  rw [continuation,ofNat_toNat (by omega),if_pos (by omega),Nat.add_sub_cancel]

lemma codePoint_val (c : CodePoint) : codePoint c.val = some c := dif_pos c.isLt

/-- The bytes of one character are read as that character. -/
lemma decodeUtf8_char (h : c.isSurrogate = false) (fuel : ℕ) (r : Bytes) :
    decodeUtf8 (fuel+1) (String.utf8EncodeChar c.toChar++r) = (decodeUtf8 fuel r).map fun t => c :: t := by
  have hv := toChar_val h
  have hc := c.isLt
  have hcode := codePoint_val c
  unfold String.utf8EncodeChar
  simp only [hv]
  generalize c.val = v at *
  split_ifs with h1 h2 h3
  · have hb : (UInt8.ofNat v).toNat = v := ofNat_toNat (by omega)
    simp only [List.cons_append,List.nil_append,decodeUtf8,hb]
    rw [if_pos (by omega),decodeTail,if_pos (Nat.zero_le _),hcode]
    rfl
  · have hb : (UInt8.ofNat (v/64%0x20+0xc0)).toNat = v/64+0xc0 := by
      rw [ofNat_toNat (by omega)]
      omega
    simp only [List.cons_append,List.nil_append,decodeUtf8,hb]
    have hn : (v/64+0xc0-0xC0)*64+v%0x40 = v := by omega
    rw [if_neg (by omega),if_pos (by omega),decodeTail,continuation_ofNat]
    simp only [hn]
    rw [decodeTail,if_pos (by omega),hcode]
    rfl
  · have hb : (UInt8.ofNat (v/4096%0x10+0xe0)).toNat = v/4096+0xe0 := by
      rw [ofNat_toNat (by omega)]
      omega
    simp only [List.cons_append,List.nil_append,decodeUtf8,hb]
    have hn : ((v/4096+0xe0-0xE0)*64+v/64%0x40)*64+v%0x40 = v := by omega
    rw [if_neg (by omega),if_neg (by omega),if_pos (by omega),decodeTail,continuation_ofNat]
    simp only
    rw [decodeTail,continuation_ofNat]
    simp only [hn]
    rw [decodeTail,if_pos (by omega),hcode]
    rfl
  · have hb : (UInt8.ofNat (v/262144%0x08+0xf0)).toNat = v/262144+0xf0 := by
      rw [ofNat_toNat (by omega)]
      omega
    simp only [List.cons_append,List.nil_append,decodeUtf8,hb]
    have hn : (((v/262144+0xf0-0xF0)*64+v/4096%0x40)*64+v/64%0x40)*64+v%0x40 = v := by omega
    rw [if_neg (by omega),if_neg (by omega),if_neg (by omega),if_pos (by omega),decodeTail,
      continuation_ofNat]
    simp only
    rw [decodeTail,continuation_ofNat]
    simp only
    rw [decodeTail,continuation_ofNat]
    simp only [hn]
    rw [decodeTail,if_pos (by omega),hcode]
    rfl

/-- The bytes of a text are read as that text. -/
theorem decodeUtf8_utf8 (h : Encodable s) {fuel : ℕ} (hf : s.length ≤ fuel) :
    decodeUtf8 fuel (utf8 s) = some s := by
  induction s generalizing fuel with
  | nil => cases fuel <;> rfl
  | cons c s ih =>
    rw [encodable_cons] at h
    obtain ⟨n,rfl⟩ := Nat.exists_eq_add_of_le' (show 1 ≤ fuel from Nat.le_trans (by simp) hf)
    have hu : utf8 (c :: s) = String.utf8EncodeChar c.toChar++utf8 s := List.flatMap_cons
    rw [hu,decodeUtf8_char h.1,ih h.2 (by simpa using hf)]
    rfl

/-- A byte below 128 stands for itself. -/
lemma mem_utf8 (h : Encodable s) {b : UInt8} (hb : b ∈ utf8 s) (hl : b.toNat < 128) :
    ∃ c ∈ s, c.val = b.toNat := by
  obtain ⟨c,hc,hm⟩ := List.mem_flatMap.mp hb
  refine ⟨c,hc,?_⟩
  have hv := toChar_val (h c hc)
  have hlt := c.isLt
  unfold String.utf8EncodeChar at hm
  simp only [hv] at hm
  generalize c.val = v at *
  have tail : ∀ n, (UInt8.ofNat (n%0x40+0x80)).toNat = n%0x40+0x80 := fun n => ofNat_toNat (by omega)
  split_ifs at hm with h1 h2 h3
  · rw [List.mem_singleton.mp hm,ofNat_toNat (by omega)]
  · simp only [List.mem_cons,List.not_mem_nil,or_false] at hm
    rcases hm with rfl | rfl
    · rw [ofNat_toNat (by omega)] at hl
      omega
    · rw [tail] at hl
      omega
  · simp only [List.mem_cons,List.not_mem_nil,or_false] at hm
    rcases hm with rfl | rfl | rfl
    · rw [ofNat_toNat (by omega)] at hl
      omega
    · rw [tail] at hl
      omega
    · rw [tail] at hl
      omega
  · simp only [List.mem_cons,List.not_mem_nil,or_false] at hm
    rcases hm with rfl | rfl | rfl | rfl
    · rw [ofNat_toNat (by omega)] at hl
      omega
    · rw [tail] at hl
      omega
    · rw [tail] at hl
      omega
    · rw [tail] at hl
      omega

lemma length_le_utf8 (s : PyStr) : s.length ≤ (utf8 s).length := by
  induction s with
  | nil => exact Nat.le_refl _
  | cons c s ih =>
    have hu : utf8 (c :: s) = String.utf8EncodeChar c.toChar++utf8 s := List.flatMap_cons
    have hne : 0 < (String.utf8EncodeChar c.toChar).length :=
      List.length_pos_of_ne_nil String.utf8EncodeChar_ne_nil
    rw [hu,List.length_append,List.length_cons]
    omega

/-- Bytes that begin with two ASCII characters are taken as UTF-8. -/
lemma decodeDetected_ascii {x y : UInt8} (hx : x ≠ 0 ∧ x.toNat < 128) (hy : y ≠ 0) (r : Bytes) :
    decodeDetected (x :: y :: r) = decodeUtf8 (x :: y :: r).length (x :: y :: r) := by
  have mark : ∀ {z : UInt8}, 128 ≤ z.toNat → x ≠ z := by
    rintro z hz rfl
    omega
  have hno : ∀ {z : UInt8} {p : Bytes}, z ≠ x → ¬(z :: p) <+: (x :: y :: r) :=
    fun hz hp => hz (List.cons_prefix_cons.mp hp).1
  unfold decodeDetected
  rw [if_neg (hno hx.1.symm),if_neg (hno (mark (by decide)).symm),
    if_neg (hno (mark (by decide)).symm),if_neg (hno (mark (by decide)).symm),
    if_neg (hno (mark (by decide)).symm)]
  match r with
  | [] | z :: w :: _ => simp only [if_neg hx.1,if_neg hy,List.length_cons,List.length_nil]
  | [z] => rfl

/-- A text that begins with two ASCII characters is loaded from its bytes as it is. -/
theorem loadsBytes_utf8 {a b : CodePoint} {t : PyStr} (ha : 0 < a.val ∧ a.val < 128)
    (hb : 0 < b.val ∧ b.val < 128) (ht : Encodable t) :
    loadsBytes (utf8 (a :: b :: t)) = loads (a :: b :: t) := by
  have hascii : ∀ c : CodePoint, 0 < c.val ∧ c.val < 128 → c.isSurrogate = false ∧
      utf8 [c] = [UInt8.ofNat c.val] := by
    intro c hc
    refine ⟨?_,utf8_ascii fun d hd => List.mem_singleton.mp hd ▸ hc.2⟩
    simp only [CodePoint.isSurrogate,decide_eq_false_iff_not,not_and,not_lt]
    omega
  have he : Encodable (a :: b :: t) :=
    encodable_cons.mpr ⟨(hascii a ha).1,encodable_cons.mpr ⟨(hascii b hb).1,ht⟩⟩
  have hu : utf8 (a :: b :: t) = UInt8.ofNat a.val :: UInt8.ofNat b.val :: utf8 t := by
    rw [← List.singleton_append,utf8_append,(hascii a ha).2,← List.singleton_append (l := t),
      utf8_append,(hascii b hb).2]
    rfl
  have hne : ∀ c : CodePoint, 0 < c.val ∧ c.val < 128 → UInt8.ofNat c.val ≠ 0 := by
    intro c hc h
    have := congrArg UInt8.toNat h
    rw [ofNat_toNat (by omega)] at this
    change c.val = 0 at this
    omega
  have hd : decodeDetected (utf8 (a :: b :: t)) = some (a :: b :: t) := by
    have hlt : (UInt8.ofNat a.val).toNat < 128 := by
      rw [ofNat_toNat (by omega)]
      exact ha.2
    rw [hu,decodeDetected_ascii ⟨hne a ha,hlt⟩ (hne b hb),← hu]
    exact decodeUtf8_utf8 he (length_le_utf8 _)
  rw [loadsBytes,hd]
  rfl

/-- The text of a dict is loaded from its bytes as it is. -/
lemma loadsBytes_dict {o : DumpOpts} {kvs : List (PyKey × PyVal)} {t : PyStr}
    (h : dumps o (.dict kvs) = .ok t) (ht : Encodable t) : loadsBytes (utf8 t) = loads t := by
  obtain ⟨ts,hts,rfl⟩ := dumps_dict_ok h
  cases ts with
  | nil => exact loadsBytes_utf8 (by decide) (by decide) encodable_nil
  | cons u us =>
    obtain ⟨p,-,hm⟩ := forall₂_mem hts.flip (List.mem_cons_self (a := u))
    obtain ⟨w,-,rfl⟩ := member_ok hm
    obtain ⟨r,hr⟩ := intercalate_head o.itemSep (quote o (keyStr o p.1)++(o.keySep++w)) us
    rw [hr] at ht ⊢
    exact loadsBytes_utf8 (by decide) (by decide) (encodable_cons.mp (encodable_cons.mp ht).2).2

end Bytes

section Lines

variable {o : DumpOpts} {s t : PyStr}

/-- No control character: none below the blank. -/
def NoControl (s : PyStr) : Prop := ∀ c ∈ s, 0x20 ≤ c.val

instance (s : PyStr) : Decidable (NoControl s) := List.decidableBAll _ s

@[simp] lemma noControl_nil : NoControl [] := List.forall_mem_nil _

@[simp] lemma noControl_cons {c : CodePoint} : NoControl (c :: s) ↔ 0x20 ≤ c.val ∧ NoControl s :=
  List.forall_mem_cons

@[simp] lemma noControl_append : NoControl (s++t) ↔ NoControl s ∧ NoControl t :=
  List.forall_mem_append

lemma hexDigit_noControl (n : ℕ) : 0x20 ≤ (hexDigit n).val := by
  have h : n%16 < 16 := Nat.mod_lt _ (by decide)
  unfold hexDigit
  generalize n%16 = d at h ⊢
  interval_cases d <;> decide

lemma quote_noControl (o : DumpOpts) (s : PyStr) : NoControl (quote o s) := by
  have hex : ∀ n, NoControl (hexEscape n) := by
    intro n
    simp only [hexEscape,noControl_cons,hexDigit_noControl,noControl_nil,and_true]
    decide
  have hchar : ∀ c, NoControl (escapeChar o.ensureAscii c) := by
    intro c
    unfold escapeChar
    split_ifs with h1 h2 h3 h4 h5 h6 h7
    · rcases h1 with rfl | rfl <;> decide
    any_goals decide
    · unfold unicodeEscape
      split_ifs
      · exact hex _
      · exact noControl_append.mpr ⟨hex _,hex _⟩
    · simp only [noControl_cons,noControl_nil,and_true]
      by_contra hc
      exact h7 (Or.inl (by omega))
  rw [quote,noControl_cons,noControl_append]
  refine ⟨by decide,fun c hc => ?_,by decide⟩
  obtain ⟨d,-,hd⟩ := List.mem_flatMap.mp hc
  exact hchar d c hd

lemma intercalate_noControl {sep : PyStr} (hs : NoControl sep) {ts : List PyStr}
    (h : ∀ t ∈ ts, NoControl t) : NoControl (sep.intercalate ts) := by
  induction ts with
  | nil => exact noControl_nil
  | cons t ts ih =>
    rw [List.forall_mem_cons] at h
    cases ts with
    | nil => simpa using h.1
    | cons u ts =>
      rw [List.intercalate_cons_cons]
      simp only [noControl_append]
      exact ⟨⟨h.1,hs⟩,ih h.2⟩

lemma digits_noControl (h : ∀ c ∈ s, isDigit c = true) : NoControl s := by
  intro c hc
  have := h c hc
  simp only [isDigit,decide_eq_true_eq] at this
  omega

lemma token_noControl {t : NumToken} (ht : t.Valid) : NoControl t.text := by
  obtain ⟨-,hint,hfrac,hexp⟩ := ht
  simp only [NumToken.text,noControl_append]
  refine ⟨?_,digits_noControl hint,?_,?_⟩
  · cases t.neg <;> decide
  · cases hf : t.frac with
    | none => simp [NumToken.fracText]
    | some ds =>
      rw [NumToken.fracText,noControl_cons]
      exact ⟨by decide,digits_noControl (hfrac ds hf).2⟩
  · cases he : t.exp with
    | none => simp [NumToken.expText]
    | some e =>
      obtain ⟨neg,ds⟩ := e
      rw [NumToken.expText,noControl_cons,noControl_cons]
      exact ⟨by decide,by cases neg <;> decide,digits_noControl (hexp _ he).2⟩

lemma sep_noControl (o : DumpOpts) : NoControl o.itemSep ∧ NoControl o.keySep := by
  have hpad : NoControl o.pad := by
    unfold DumpOpts.pad
    split_ifs <;> decide
  exact ⟨noControl_cons.mpr ⟨by decide,hpad⟩,noControl_cons.mpr ⟨by decide,hpad⟩⟩

/-- What json writes has no control character in it. -/
theorem dumps_noControl {v : PyVal} : ∀ {t}, dumps o v = .ok t → NoControl t := by
  have hlist : ∀ xs : List PyVal, (∀ x ∈ xs, ∀ {t}, dumps o x = .ok t → NoControl t) →
      ∀ {t}, dumps o (.list xs) = .ok t → NoControl t := by
    intro xs ih t h
    obtain ⟨ts,hts,rfl⟩ := dumps_list_ok h
    rw [noControl_cons,noControl_append]
    refine ⟨by decide,intercalate_noControl (sep_noControl o).1 fun u hu => ?_,by decide⟩
    obtain ⟨x,hx,hd⟩ := forall₂_mem hts.flip hu
    exact ih x hx hd
  have hbool : ∀ b, NoControl (boolText b) := by intro b; cases b <;> decide
  induction v using PyVal.ind with
  | none =>
    intro t h
    obtain rfl := Except.ok.inj h
    decide
  | bool b =>
    intro t h
    obtain rfl := Except.ok.inj h
    exact hbool b
  | int i =>
    intro t h
    rw [dumps,intText] at h
    split_ifs at h
    obtain rfl := Except.ok.inj h
    refine noControl_append.mpr ⟨?_,digits_noControl (natText_digits _)⟩
    unfold NumToken.signText
    split_ifs <;> decide
  | float f =>
    intro t h
    cases f with
    | finite x =>
      obtain rfl := Except.ok.inj h
      exact token_noControl x.token_valid
    | inf neg =>
      rw [dumps,floatText] at h
      split_ifs at h
      · obtain rfl := Except.ok.inj h
        decide
      · obtain rfl := Except.ok.inj h
        decide
    | nan =>
      rw [dumps,floatText] at h
      split_ifs at h
      obtain rfl := Except.ok.inj h
      decide
  | str s =>
    intro t h
    obtain rfl := Except.ok.inj h
    exact quote_noControl o s
  | bytes b => intro t h; simp [dumps] at h
  | list xs ih => exact hlist xs ih
  | tuple xs ih => exact fun h => hlist xs ih (dumps_tuple o xs ▸ h)
  | dict kvs ih =>
    intro t h
    obtain ⟨ts,hts,rfl⟩ := dumps_dict_ok h
    rw [noControl_cons,noControl_append]
    refine ⟨by decide,intercalate_noControl (sep_noControl o).1 fun u hu => ?_,by decide⟩
    obtain ⟨p,hp,hm⟩ := forall₂_mem hts.flip hu
    obtain ⟨w,hw,rfl⟩ := member_ok hm
    exact noControl_append.mpr ⟨quote_noControl o _,noControl_append.mpr
      ⟨(sep_noControl o).2,ih p ((sortItems_perm o kvs).mem_iff.mp hp) hw⟩⟩
  | object i => intro t h; simp [dumps] at h

/-- So its bytes have no line break. -/
theorem dumps_oneLine {v : PyVal} (h : dumps o v = .ok t) (he : Encodable t) : 10 ∉ utf8 t := by
  intro hm
  obtain ⟨c,hc,hv⟩ := mem_utf8 he hm (by decide)
  have := dumps_noControl h c hc
  rw [hv] at this
  exact absurd this (by decide)

end Lines

end Python
