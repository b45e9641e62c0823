import Stele.Python.Json
import Mathlib.Tactic.IntervalCases

/-! json.loads after json.dumps: what comes back is the value with tuples read as lists,
keys as strings and, when they are sorted, the items in key order. -/
namespace Python

section Strings

lemma hexVal_hexDigit (n : ℕ) : hexVal (hexDigit n) = some (n%16) := by
  have h : n%16 < 16 := Nat.mod_lt _ (by decide)
  unfold hexDigit
  generalize n%16 = d at h ⊢
  interval_cases d <;> decide

lemma scanHex4_hexEscape {n : ℕ} (h : n < 0x10000) (r : PyStr) :
    scanHex4 ((hexEscape n).drop 2++r) = some (n,r) := by
  simp only [hexEscape,List.drop_succ_cons,List.drop_zero,List.cons_append,List.nil_append,scanHex4,
    hexVal_hexDigit,Option.some.injEq,Prod.mk.injEq,and_true]
  omega

lemma hexEscape_eq (n : ℕ) : hexEscape n = cp '\\' :: cp 'u' :: (hexEscape n).drop 2 := rfl

lemma scanUnicode_bmp {n : ℕ} (h : n < 0x10000) (hs : isHigh n = false) (r : PyStr) :
    scanUnicode ((hexEscape n).drop 2++r) = some (Fin.ofNat _ n,r) := by
  simp only [scanUnicode,scanHex4_hexEscape h,hs]

lemma scanUnicode_pair {a b : ℕ} (ha : isHigh a = true) (hb : isLow b = true) (r : PyStr) :
    scanUnicode ((hexEscape a).drop 2++(hexEscape b++r)) =
      some (Fin.ofNat _ (joinSurrogates a b),r) := by
  have ha' : a < 0x10000 := by simp only [isHigh,decide_eq_true_eq] at ha; omega
  have hb' : b < 0x10000 := by simp only [isLow,decide_eq_true_eq] at hb; omega
  rw [scanUnicode,scanHex4_hexEscape ha',hexEscape_eq b]
  simp only [List.cons_append,ha]
  rw [scanHex4_hexEscape hb']
  simp [hb]

lemma scanEscape_unicode {c : CodePoint} (h : c.isSurrogate = false) (r : PyStr) :
    ∃ s, unicodeEscape c++r = cp '\\' :: s ∧ scanEscape s = some (c,r) := by
  have hc := c.isLt
  simp only [CodePoint.isSurrogate,decide_eq_false_iff_not,not_and,not_lt] at h
  unfold unicodeEscape
  split_ifs with hb
  · refine ⟨cp 'u' :: ((hexEscape c.val).drop 2++r),by rw [hexEscape_eq c.val]; rfl,?_⟩
    have hs : isHigh c.val = false := by
      simp only [isHigh,decide_eq_false_iff_not,not_and,not_lt]; omega
    rw [scanEscape,if_pos rfl,scanUnicode_bmp hb hs]
    exact congrArg (fun d => some (d,r)) (Fin.ofNat_val_eq_self c)
  · set a := 0xD800+(c.val-0x10000)/0x400 with ha
    set b := 0xDC00+(c.val-0x10000)%0x400 with hb'
    refine ⟨cp 'u' :: ((hexEscape a).drop 2++(hexEscape b++r)),by
      rw [List.append_assoc,hexEscape_eq a]; rfl,?_⟩
    have hh : isHigh a = true := by simp only [isHigh,decide_eq_true_eq]; omega
    have hl : isLow b = true := by simp only [isLow,decide_eq_true_eq]; omega
    rw [scanEscape,if_pos rfl,scanUnicode_pair hh hl]
    have hj : joinSurrogates a b = c.val := by unfold joinSurrogates; omega
    rw [hj]
    exact congrArg (fun d => some (d,r)) (Fin.ofNat_val_eq_self c)

/-- An escaped character is read back in one step. -/
lemma scanString_escapeChar {ascii : Bool} {c : CodePoint}
    (h : ascii = true → c.isSurrogate = false) (n : ℕ) (r : PyStr) :
    scanString (n+1) (escapeChar ascii c++r) = (scanString n r).map fun p => (c :: p.1,p.2) := by
  have short : ∀ l : CodePoint, scanEscape (l :: r) = some (c,r) →
      scanString (n+1) ([cp '\\',l]++r) = (scanString n r).map fun p => (c :: p.1,p.2) := by
    intro l hl
    rw [List.cons_append,List.cons_append,List.nil_append,scanString,if_neg (by decide),if_pos rfl,hl]
  unfold escapeChar
  split_ifs with h1 h2 h3 h4 h5 h6 h7
  · rcases h1 with rfl | rfl <;> exact short _ rfl
  · subst h2; exact short _ rfl
  · subst h3; exact short _ rfl
  · subst h4; exact short _ rfl
  · subst h5; exact short _ rfl
  · subst h6; exact short _ rfl
  · have hs : c.isSurrogate = false := by
      rcases h7 with h7 | h7
      · simp only [CodePoint.isSurrogate,decide_eq_false_iff_not,not_and,not_lt]; omega
      · exact h h7.1
    obtain ⟨s,he,hs⟩ := scanEscape_unicode hs r
    rw [he,scanString,if_neg (by decide),if_pos rfl,hs]
  · obtain ⟨hq,hb⟩ := not_or.mp h1
    rw [List.cons_append,List.nil_append,scanString,if_neg hq,if_neg hb,
      if_neg fun hl => h7 (Or.inl hl)]

lemma escapeChar_ne_nil (ascii : Bool) (c : CodePoint) : escapeChar ascii c ≠ [] := by
  unfold escapeChar unicodeEscape hexEscape
  split_ifs <;> simp

theorem scanString_quote {o : DumpOpts} {s : PyStr} (h : o.ensureAscii = true → Encodable s)
    {n : ℕ} (r : PyStr) (hn : (s.flatMap (escapeChar o.ensureAscii)).length < n) :
    scanString n (s.flatMap (escapeChar o.ensureAscii)++cp '"' :: r) = some (s,r) := by
  induction s generalizing n with
  | nil =>
    cases n with
    | zero => simp at hn
    | succ n => rfl
  | cons c s ih =>
    cases n with
    | zero => simp at hn
    | succ n =>
      have hc := List.length_pos_of_ne_nil (escapeChar_ne_nil o.ensureAscii c)
      rw [List.flatMap_cons,List.length_append] at hn
      rw [List.flatMap_cons,List.append_assoc,
        scanString_escapeChar fun ha => (encodable_cons.mp (h ha)).1,
        ih (fun ha => (encodable_cons.mp (h ha)).2) (by omega)]
      rfl

end Strings

section Scalars

/-- What may follow a value inside a document. -/
def ValueEnd (r : PyStr) : Prop := ∀ c ∈ r.head?, c = cp ',' ∨ c = cp ']' ∨ c = cp '}'

@[simp] lemma valueEnd_nil : ValueEnd [] := by simp [ValueEnd]

lemma ValueEnd.numEnd {r : PyStr} (h : ValueEnd r) : NumEnd r := by
  intro c hc
  rcases h c hc with rfl | rfl | rfl <;> decide

lemma token_head {t : NumToken} (ht : t.Valid) (r : PyStr) : ∃ d s, isDigit d = true ∧
    (t.text++r = d :: s ∨ t.text++r = cp '-' :: d :: s) := by
  obtain ⟨neg,int,frac,exp⟩ := t
  cases int with
  | nil => obtain h | ⟨h,_⟩ := ht.1 <;> simp at h
  | cons d ds =>
    refine ⟨d,ds++(NumToken.fracText frac++NumToken.expText exp)++r,ht.2.1 d (by simp),?_⟩
    cases neg
    · exact Or.inl (by simp [NumToken.text,NumToken.signText])
    · exact Or.inr (by simp [NumToken.text,NumToken.signText])

lemma scanScalar_token {t : NumToken} (ht : t.Valid) {r : PyStr} (hr : NumEnd r) :
    scanScalar (t.text++r) = t.value.map fun v => (v,r) := by
  have hc : (constants.findSome? fun c => (afterPrefix c.1 (t.text++r)).map fun r => (c.2,r)) =
      none := by
    obtain ⟨d,s,hd,h⟩ := token_head ht r
    have hne : ∀ c, isDigit c = false → ¬c = d := by rintro c hc rfl; simp [hc] at hd
    have hn := hne (cp 'n') (by decide)
    have ht := hne (cp 't') (by decide)
    have hf := hne (cp 'f') (by decide)
    have hN := hne (cp 'N') (by decide)
    have hI := hne (cp 'I') (by decide)
    have hm := hne (cp '-') (by decide)
    rcases h with h | h <;> rw [h] <;> simp [constants,lit,afterPrefix,hn,ht,hf,hN,hI,hm]
  rw [scanScalar,hc]
  simp only [lexNumber_text ht hr]

lemma scanScalar_constant (p : PyStr × PyVal) (hp : p ∈ constants) (r : PyStr) :
    scanScalar (p.1++r) = some (p.2,r) := by
  simp only [constants,List.mem_cons,List.not_mem_nil,or_false] at hp
  rcases hp with rfl | rfl | rfl | rfl | rfl | rfl <;>
    simp [scanScalar,constants,lit,afterPrefix]

/-- The text of a value that is neither a string nor a container. -/
structure ScalarText (v : PyVal) (t : PyStr) : Prop where
  head : ∃ c s, t = c :: s ∧
    isSpace c = false ∧ c ≠ cp ']' ∧ c ≠ cp '"' ∧ c ≠ cp '[' ∧ c ≠ cp '{' ∧ c ≠ 0xFEFF
  scan : ∀ r, NumEnd r → scanScalar (t++r) = some (v,r)

lemma scalarText_token {t : NumToken} (ht : t.Valid) {v : PyVal} (hv : t.value = some v) :
    ScalarText v t.text := by
  refine ⟨?_,fun r hr => by rw [scanScalar_token ht hr,hv]; rfl⟩
  obtain ⟨d,s,hd,h⟩ := token_head ht []
  rw [List.append_nil] at h
  rcases h with h | h
  · refine ⟨d,s,h,?_,?_,?_,?_,?_,?_⟩
    · simp only [isDigit,decide_eq_true_eq] at hd
      simp only [isSpace,decide_eq_false_iff_not]
      rintro (rfl | rfl | rfl | rfl) <;> exact absurd hd (by decide)
    all_goals rintro rfl; exact absurd hd (by decide)
  · exact ⟨_,_,h,by decide,by decide,by decide,by decide,by decide,by decide⟩

lemma scalarText_constant {t : PyStr} {v : PyVal} (hp : (t,v) ∈ constants) : ScalarText v t := by
  refine ⟨?_,fun r _ => scanScalar_constant (t,v) hp r⟩
  simp only [constants,List.mem_cons,List.not_mem_nil,or_false,Prod.mk.injEq] at hp
  rcases hp with ⟨rfl,_⟩ | ⟨rfl,_⟩ | ⟨rfl,_⟩ | ⟨rfl,_⟩ | ⟨rfl,_⟩ | ⟨rfl,_⟩ <;>
    exact ⟨_,_,by simp only [lit]; rfl,by decide,by decide,by decide,by decide,by decide,by decide⟩

lemma scalarText_none : ScalarText .none (lit "null") :=
  scalarText_constant (by simp [constants])

lemma scalarText_bool (b : Bool) : ScalarText (.bool b) (boolText b) :=
  scalarText_constant (by cases b <;> simp [constants,boolText])

lemma scalarText_int {i : ℤ} {t : PyStr} (h : intText i = .ok t) : ScalarText (.int i) t := by
  unfold intText at h
  split_ifs at h with hl
  obtain rfl := Except.ok.inj h
  have hv : NumToken.Valid ⟨decide (i < 0),natText i.natAbs,none,none⟩ := by
    refine ⟨?_,natText_digits _,by simp,by simp⟩
    rcases Nat.eq_zero_or_pos i.natAbs with h0 | h0
    · exact Or.inl (by rw [h0]; rfl)
    · exact Or.inr ⟨natText_ne_nil _,natText_head_ne_zero h0.ne'⟩
  have hs := scalarText_token hv (v := .int i) ?_
  · simpa [NumToken.text,NumToken.fracText,NumToken.expText] using hs
  · simp only [NumToken.value,Option.isSome_none,Bool.or_self,Bool.false_eq_true,if_false,hl,if_true,
      natOf_natText,decide_eq_true_eq,Option.some.injEq,PyVal.int.injEq]
    split_ifs <;> omega

lemma Finite64.token_value (f : Finite64) : f.token.value = some (.float (.finite f)) := by
  have hp : (f.token.frac.isSome || f.token.exp.isSome) = true := by
    unfold Finite64.token reprToken plainToken scientificToken
    split_ifs <;> simp
  rw [NumToken.value,if_pos hp,Finite64.token_toFloat]

lemma scalarText_float {o : DumpOpts} {f : PyFloat} {t : PyStr} (h : floatText o f = .ok t) :
    ScalarText (.float f) t := by
  cases f with
  | finite f =>
    obtain rfl := Except.ok.inj h
    exact scalarText_token f.token_valid f.token_value
  | inf neg =>
    by_cases ha : o.allowNan = true
    · rw [floatText,if_pos ha] at h
      obtain rfl := Except.ok.inj h
      exact scalarText_constant (by cases neg <;> simp [constants])
    · simp [floatText,ha] at h
  | nan =>
    simp only [floatText] at h
    split_ifs at h
    obtain rfl := Except.ok.inj h
    exact scalarText_constant (by simp [constants])

lemma ScalarText.scanValue {v : PyVal} {t : PyStr} (h : ScalarText v t) {n : ℕ}
    (hn : t.length ≤ n) {r : PyStr} (hr : NumEnd r) : scanValue n (t++r) = some (v,r) := by
  have hs := h.scan r hr
  obtain ⟨c,s,rfl,_,_,hq,hb,hc,_⟩ := h.head
  cases n with
  | zero => simp at hn
  | succ n =>
    rw [List.cons_append] at hs ⊢
    rw [Python.scanValue,if_neg hq,if_neg hb,if_neg hc,hs]

end Scalars

section Values

/-- What the key is called in the text. -/
def keyStr (o : DumpOpts) (k : PyKey) : PyStr :=
  match keyText o k with
  | .ok s => s
  | .error _ => []

namespace PyVal

mutual
/-- The value that json.loads reads from json.dumps(v, ...). -/
def toJson (o : DumpOpts) : PyVal → PyVal
  | .none => .none
  | .bool b => .bool b
  | .int i => .int i
  | .float f => .float f
  | .str s => .str s
  | .bytes b => .bytes b
  | .list xs => .list (toJsonList o xs)
  | .tuple xs => .list (toJsonList o xs)
  | .dict kvs =>
    .dict (dictOf ((sortItems o (toJsonItems o kvs)).map fun p => (.str (keyStr o p.1),p.2)))
  | .object i => .object i
def toJsonList (o : DumpOpts) : List PyVal → List PyVal
  | [] => []
  | x :: xs => toJson o x :: toJsonList o xs
def toJsonItems (o : DumpOpts) : List (PyKey × PyVal) → List (PyKey × PyVal)
  | [] => []
  | (k,v) :: kvs => (k,toJson o v) :: toJsonItems o kvs
end

mutual
/-- Every string that the text of v quotes. -/
def texts (o : DumpOpts) : PyVal → List PyStr
  | .str s => [s]
  | .list xs => textsList o xs
  | .tuple xs => textsList o xs
  | .dict kvs => textsItems o kvs
  | _ => []
def textsList (o : DumpOpts) : List PyVal → List PyStr
  | [] => []
  | x :: xs => texts o x++textsList o xs
def textsItems (o : DumpOpts) : List (PyKey × PyVal) → List PyStr
  | [] => []
  | (k,v) :: kvs => keyStr o k :: (texts o v++textsItems o kvs)
end

/-- With ensure_ascii, a pair of lone surrogates would come back as one character. -/
def TextsOk (o : DumpOpts) (v : PyVal) : Prop :=
  o.ensureAscii = true → ∀ s ∈ v.texts o, Encodable s

end PyVal

open PyVal

lemma toJsonList_eq (o : DumpOpts) (xs : List PyVal) : toJsonList o xs = xs.map (toJson o) := by
  induction xs with
  | nil => rfl
  | cons x xs ih => rw [toJsonList,ih,List.map_cons]

lemma toJsonItems_eq (o : DumpOpts) (kvs : List (PyKey × PyVal)) :
    toJsonItems o kvs = kvs.map fun p => (p.1,toJson o p.2) := by
  induction kvs with
  | nil => rfl
  | cons p kvs ih => rw [toJsonItems,ih,List.map_cons]

lemma texts_list {o : DumpOpts} {xs : List PyVal} (h : ∀ s ∈ textsList o xs, Encodable s) :
    ∀ x ∈ xs, ∀ s ∈ x.texts o, Encodable s := by
  induction xs with
  | nil => simp
  | cons x xs ih =>
    simp only [textsList,List.mem_append,or_imp,forall_and] at h
    intro y hy
    rcases List.mem_cons.mp hy with rfl | hy
    · exact h.1
    · exact ih h.2 y hy

lemma texts_items {o : DumpOpts} {kvs : List (PyKey × PyVal)}
    (h : ∀ s ∈ textsItems o kvs, Encodable s) :
    ∀ p ∈ kvs, Encodable (keyStr o p.1) ∧ ∀ s ∈ p.2.texts o, Encodable s := by
  induction kvs with
  | nil => simp
  | cons p kvs ih =>
    obtain ⟨k,v⟩ := p
    simp only [textsItems,List.mem_cons,List.mem_append,or_imp,forall_and,forall_eq] at h
    intro q hq
    rcases List.mem_cons.mp hq with rfl | hq
    · exact ⟨h.1,h.2.1⟩
    · exact ih h.2.2 q hq

lemma except_bind_ok {ε α β : Type} {x : Except ε α} {f : α → Except ε β} {b : β} :
    (x >>= f) = .ok b ↔ ∃ a, x = .ok a ∧ f a = .ok b := by
  cases x with
  | error e => simp [bind,Except.bind]
  | ok a => simp [bind,Except.bind]

lemma mapM_ok {ε α β : Type} {f : α → Except ε β} {xs : List α} {ys : List β} :
    xs.mapM f = .ok ys ↔ List.Forall₂ (fun x y => f x = .ok y) xs ys := by
  induction xs generalizing ys with
  | nil => simp [List.mapM_nil,pure,Except.pure,eq_comm]
  | cons x xs ih =>
    simp only [List.mapM_cons,except_bind_ok,ih,pure,Except.pure,Except.ok.injEq]
    constructor
    · rintro ⟨y,hy,ys,hys,rfl⟩
      exact .cons hy hys
    · rintro (_ | ⟨hy,hys⟩)
      exact ⟨_,hy,_,hys,rfl⟩

lemma dumpsList_ok {o : DumpOpts} {xs : List PyVal} {ts : List PyStr} :
    dumpsList o xs = .ok ts ↔ List.Forall₂ (fun x t => dumps o x = .ok t) xs ts := by
  rw [← mapM_ok]
  induction xs generalizing ts with
  | nil => rfl
  | cons x xs ih => simp only [dumpsList,List.mapM_cons,except_bind_ok,ih]

/-- One item of a dict: the quoted key, the separator and the value. -/
def member (o : DumpOpts) (p : PyKey × PyVal) : Except JsonError PyStr := do
  let ks ← keyText o p.1
  let t ← dumps o p.2
  return quote o ks++(o.keySep++t)

lemma dumpsItems_eq (o : DumpOpts) (kvs : List (PyKey × PyVal)) :
    dumpsItems o kvs = kvs.map fun p => (p.1,member o p) := by
  induction kvs with
  | nil => rfl
  | cons p kvs ih => rw [dumpsItems,ih,List.map_cons,member]

lemma sortItems_map {α β : Type} (o : DumpOpts) (f : PyKey × α → β) (kvs : List (PyKey × α)) :
    sortItems o (kvs.map fun p => (p.1,f p)) = (sortItems o kvs).map fun p => (p.1,f p) := by
  unfold sortItems
  split_ifs
  · exact (List.map_insertionSort (fun p q : PyKey × α => p.1.le q.1 = true)
      (fun p q : PyKey × β => p.1.le q.1 = true) (fun p => (p.1,f p)) kvs
      fun _ _ _ _ => Iff.rfl).symm
  · rfl

lemma sortItems_perm {α : Type} (o : DumpOpts) (kvs : List (PyKey × α)) :
    (sortItems o kvs).Perm kvs := by
  unfold sortItems
  split_ifs
  · exact List.perm_insertionSort _ _
  · exact .refl _

lemma dumps_dict_ok {o : DumpOpts} {kvs : List (PyKey × PyVal)} {t : PyStr}
    (h : dumps o (.dict kvs) = .ok t) : ∃ ts,
      List.Forall₂ (fun p t => member o p = .ok t) (sortItems o kvs) ts ∧
      t = cp '{' :: (o.itemSep.intercalate ts++[cp '}']) := by
  rw [dumps] at h
  split_ifs at h
  obtain ⟨ts,hts,h⟩ := except_bind_ok.mp h
  rw [dumpsItems_eq,sortItems_map,List.mapM_map,mapM_ok] at hts
  exact ⟨ts,hts,(Except.ok.inj h).symm⟩

lemma dumps_list_ok {o : DumpOpts} {xs : List PyVal} {t : PyStr}
    (h : dumps o (.list xs) = .ok t) : ∃ ts,
      List.Forall₂ (fun x t => dumps o x = .ok t) xs ts ∧
      t = cp '[' :: (o.itemSep.intercalate ts++[cp ']']) := by
  rw [dumps] at h
  obtain ⟨ts,hts,h⟩ := except_bind_ok.mp h
  exact ⟨ts,dumpsList_ok.mp hts,(Except.ok.inj h).symm⟩

lemma dumps_tuple (o : DumpOpts) (xs : List PyVal) : dumps o (.tuple xs) = dumps o (.list xs) := by
  rw [dumps,dumps]

/-- Text that skipWs leaves as it is. -/
def NoSpace (s : PyStr) : Prop := ∀ c ∈ s.head?, isSpace c = false

lemma noSpace_cons {c : CodePoint} {s : PyStr} : NoSpace (c :: s) ↔ isSpace c = false := by
  simp [NoSpace]

lemma skipWs_noSpace {s : PyStr} (h : NoSpace s) : skipWs s = s := by
  cases s with
  | nil => rfl
  | cons c s => rw [skipWs,if_neg (by simp [noSpace_cons.mp h])]

lemma skipWs_pad (o : DumpOpts) {s : PyStr} (h : NoSpace s) : skipWs (o.pad++s) = s := by
  unfold DumpOpts.pad
  split_ifs
  · rw [List.cons_append,List.nil_append,skipWs,if_pos (by decide),skipWs_noSpace h]
  · exact skipWs_noSpace h

/-- A text starts with a mark of its own kind, never with a blank or a closing bracket. -/
lemma dumps_head {o : DumpOpts} {v : PyVal} {t : PyStr} (h : dumps o v = .ok t) :
    ∃ c s, t = c :: s ∧ isSpace c = false ∧ c ≠ cp ']' ∧ c ≠ 0xFEFF := by
  have scalar : ScalarText v t → _ := fun hs =>
    let ⟨c,s,h1,h2,h3,_,_,_,h4⟩ := hs.head
    (⟨c,s,h1,h2,h3,h4⟩ : ∃ c s, t = c :: s ∧ isSpace c = false ∧ c ≠ cp ']' ∧ c ≠ 0xFEFF)
  cases v with
  | none => obtain rfl := Except.ok.inj h; exact scalar scalarText_none
  | bool b => obtain rfl := Except.ok.inj h; exact scalar (scalarText_bool b)
  | int i => exact scalar (scalarText_int h)
  | float f => exact scalar (scalarText_float h)
  | str s => obtain rfl := Except.ok.inj h; exact ⟨_,_,rfl,by decide,by decide,by decide⟩
  | list xs =>
    obtain ⟨ts,_,rfl⟩ := dumps_list_ok h
    exact ⟨_,_,rfl,by decide,by decide,by decide⟩
  | tuple xs =>
    obtain ⟨ts,_,rfl⟩ := dumps_list_ok (dumps_tuple o xs ▸ h)
    exact ⟨_,_,rfl,by decide,by decide,by decide⟩
  | dict kvs =>
    obtain ⟨ts,_,rfl⟩ := dumps_dict_ok h
    exact ⟨_,_,rfl,by decide,by decide,by decide⟩
  | bytes b => simp [dumps] at h
  | object i => simp [dumps] at h

/-- The value is read back from its text, whatever follows. -/
def ReadsBack (o : DumpOpts) (v : PyVal) : Prop :=
  ∀ t, dumps o v = .ok t → TextsOk o v → ∀ n r, t.length ≤ n → ValueEnd r →
    scanValue n (t++r) = some (v.toJson o,r)

lemma intercalate_head (sep t : PyStr) (ts : List PyStr) :
    ∃ s, sep.intercalate (t :: ts) = t++s := by
  cases ts with
  | nil => exact ⟨[],by simp⟩
  | cons u ts => exact ⟨sep++sep.intercalate (u :: ts),by simp⟩

lemma noSpace_dumps {o : DumpOpts} {v : PyVal} {t : PyStr} (h : dumps o v = .ok t) (s : PyStr) :
    NoSpace (t++s) := by
  obtain ⟨c,u,rfl,hc,_⟩ := dumps_head h
  exact noSpace_cons.mpr hc

lemma scanElems_last {n : ℕ} {s r : PyStr} {v : PyVal} (h : scanValue n s = some (v,cp ']' :: r)) :
    scanElems (n+1) s = some ([v],r) := by
  rw [scanElems,h]
  rfl

lemma scanElems_more {o : DumpOpts} {n : ℕ} {s r : PyStr} {v : PyVal}
    (h : scanValue n s = some (v,o.itemSep++r)) (hr : NoSpace r) :
    scanElems (n+1) s = (scanElems n r).map fun p => (v :: p.1,p.2) := by
  rw [scanElems,h]
  simp only [DumpOpts.itemSep,List.cons_append]
  rw [skipWs_noSpace (noSpace_cons.mpr (by decide))]
  simp only [reduceIte,skipWs_pad o hr]
  rfl

lemma scanElems_dumps {o : DumpOpts} {x : PyVal} {xs : List PyVal} {ts : List PyStr}
    (hd : List.Forall₂ (fun x t => dumps o x = .ok t) (x :: xs) ts)
    (ht : ∀ y ∈ x :: xs, TextsOk o y) (hx : ∀ y ∈ x :: xs, ReadsBack o y) (n : ℕ) (r : PyStr)
    (hn : (o.itemSep.intercalate ts).length ≤ n) :
    scanElems (n+1) (o.itemSep.intercalate ts++cp ']' :: r) =
      some ((x :: xs).map (toJson o),r) := by
  induction xs generalizing x ts n with
  | nil =>
    obtain _ | ⟨hd,_ | _⟩ := hd
    rename_i t
    rw [List.intercalate_singleton] at hn ⊢
    exact scanElems_last (hx x (by simp) t hd (ht x (by simp)) _ _ hn (by simp [ValueEnd]))
  | cons y ys ih =>
    obtain _ | ⟨hd,_ | ⟨hu,hus⟩⟩ := hd
    rename_i t u us
    rw [List.intercalate_cons_cons,List.append_assoc] at hn ⊢
    have hl : n ≠ 0 := by simp [DumpOpts.itemSep] at hn; omega
    obtain ⟨n,rfl⟩ := Nat.exists_eq_succ_of_ne_zero hl
    have hrest := ih (.cons hu hus) (fun z hz => ht z (List.mem_cons_of_mem _ hz))
      (fun z hz => hx z (List.mem_cons_of_mem _ hz)) n
      (by simp [DumpOpts.itemSep] at hn ⊢; omega)
    obtain ⟨s,hs⟩ := intercalate_head o.itemSep u us
    have hr := hx x (by simp) t hd (ht x (by simp)) (n+1)
      (o.itemSep++(o.itemSep.intercalate (u :: us)++cp ']' :: r))
      (by simp only [List.length_append] at hn; omega) (by simp [ValueEnd,DumpOpts.itemSep])
    rw [List.append_assoc,scanElems_more hr ?_,hrest]
    · rfl
    · rw [hs,List.append_assoc]
      exact noSpace_dumps hu _

lemma scanString_quoted {o : DumpOpts} {s : PyStr} (h : o.ensureAscii = true → Encodable s)
    (r : PyStr) : ∃ u, quote o s++r = cp '"' :: u ∧ scanString u.length u = some (s,r) := by
  refine ⟨s.flatMap (escapeChar o.ensureAscii)++cp '"' :: r,by simp [quote],?_⟩
  exact scanString_quote h r (by simp)

/-- What follows a member's value: the end of the dict, or another member. -/
def afterMember (n : ℕ) (k : PyStr) (v : PyVal) : PyStr → Option (List (PyKey × PyVal) × PyStr)
  | [] => none
  | c :: r =>
    if c = cp '}' then some ([(.str k,v)],r)
    else if c = cp ',' then (scanMembers n (skipWs r)).map fun p => ((.str k,v) :: p.1,p.2)
    else none

lemma scanMembers_value {o : DumpOpts} {n : ℕ} {k s r : PyStr} {v : PyVal}
    (hk : o.ensureAscii = true → Encodable k) (hs : NoSpace s) (hv : scanValue n s = some (v,r)) :
    scanMembers (n+1) (quote o k++(o.keySep++s)) = afterMember n k v (skipWs r) := by
  obtain ⟨u,hu,hk⟩ := scanString_quoted hk (o.keySep++s)
  rw [hu,scanMembers,if_pos rfl,hk]
  simp only [DumpOpts.keySep,List.cons_append]
  rw [skipWs_noSpace (noSpace_cons.mpr (by decide))]
  simp only [reduceIte,skipWs_pad o hs,hv]
  cases skipWs r <;> rfl

lemma scanMembers_last {o : DumpOpts} {n : ℕ} {k s r : PyStr} {v : PyVal}
    (hk : o.ensureAscii = true → Encodable k) (hs : NoSpace s)
    (hv : scanValue n s = some (v,cp '}' :: r)) :
    scanMembers (n+1) (quote o k++(o.keySep++s)) = some ([(.str k,v)],r) := by
  rw [scanMembers_value hk hs hv,skipWs_noSpace (noSpace_cons.mpr (by decide))]
  rfl

lemma scanMembers_more {o : DumpOpts} {n : ℕ} {k s r : PyStr} {v : PyVal}
    (hk : o.ensureAscii = true → Encodable k) (hs : NoSpace s)
    (hv : scanValue n s = some (v,o.itemSep++r)) (hr : NoSpace r) :
    scanMembers (n+1) (quote o k++(o.keySep++s)) =
      (scanMembers n r).map fun p => ((.str k,v) :: p.1,p.2) := by
  have hsep : NoSpace (o.itemSep++r) := noSpace_cons.mpr (by decide)
  rw [scanMembers_value hk hs hv,skipWs_noSpace hsep]
  simp only [DumpOpts.itemSep,List.cons_append,afterMember,skipWs_pad o hr]
  rfl

lemma member_ok {o : DumpOpts} {p : PyKey × PyVal} {t : PyStr} (h : member o p = .ok t) :
    ∃ u, dumps o p.2 = .ok u ∧ t = quote o (keyStr o p.1)++(o.keySep++u) := by
  obtain ⟨ks,hk,h⟩ := except_bind_ok.mp h
  obtain ⟨u,hu,h⟩ := except_bind_ok.mp h
  refine ⟨u,hu,?_⟩
  rw [keyStr,hk]
  exact (Except.ok.inj h).symm

/-- The item as the reader returns it. -/
def readItem (o : DumpOpts) (p : PyKey × PyVal) : PyKey × PyVal := (.str (keyStr o p.1),p.2.toJson o)

lemma scanMembers_dumps {o : DumpOpts} {p : PyKey × PyVal} {ps : List (PyKey × PyVal)}
    {ts : List PyStr} (hd : List.Forall₂ (fun p t => member o p = .ok t) (p :: ps) ts)
    (hk : ∀ q ∈ p :: ps, o.ensureAscii = true → Encodable (keyStr o q.1))
    (ht : ∀ q ∈ p :: ps, TextsOk o q.2) (hx : ∀ q ∈ p :: ps, ReadsBack o q.2) (n : ℕ) (r : PyStr)
    (hn : (o.itemSep.intercalate ts).length ≤ n) :
    scanMembers (n+1) (o.itemSep.intercalate ts++cp '}' :: r) =
      some ((p :: ps).map (readItem o),r) := by
  induction ps generalizing p ts n with
  | nil =>
    obtain _ | ⟨hd,_ | _⟩ := hd
    obtain ⟨u,hu,rfl⟩ := member_ok hd
    rw [List.intercalate_singleton] at hn ⊢
    have hv := hx p (by simp) u hu (ht p (by simp)) n (cp '}' :: r)
      (by simp only [List.length_append] at hn; omega) (by simp [ValueEnd])
    rw [List.append_assoc,List.append_assoc]
    exact scanMembers_last (hk p (by simp)) (noSpace_dumps hu _) hv
  | cons q qs ih =>
    obtain _ | ⟨hd,_ | ⟨hq,hqs⟩⟩ := hd
    rename_i t w ws
    rw [List.intercalate_cons_cons,List.append_assoc] at hn ⊢
    have hl : n ≠ 0 := by simp [DumpOpts.itemSep] at hn; omega
    obtain ⟨n,rfl⟩ := Nat.exists_eq_succ_of_ne_zero hl
    have hrest := ih (.cons hq hqs) (fun z hz => hk z (List.mem_cons_of_mem _ hz))
      (fun z hz => ht z (List.mem_cons_of_mem _ hz)) (fun z hz => hx z (List.mem_cons_of_mem _ hz)) n
      (by simp [DumpOpts.itemSep] at hn ⊢; omega)
    obtain ⟨u,hu,rfl⟩ := member_ok hd
    have hv := hx p (by simp) u hu (ht p (by simp)) (n+1)
      (o.itemSep++(o.itemSep.intercalate (w :: ws)++cp '}' :: r))
      (by simp only [List.length_append] at hn; omega) (by simp [ValueEnd,DumpOpts.itemSep])
    have hw : NoSpace (o.itemSep.intercalate (w :: ws)++cp '}' :: r) := by
      obtain ⟨s,hs⟩ := intercalate_head o.itemSep w ws
      obtain ⟨x,_,rfl⟩ := member_ok hq
      rw [hs]
      exact noSpace_cons.mpr (by decide)
    simp only [List.append_assoc]
    rw [scanMembers_more (hk p (by simp)) (noSpace_dumps hu _) hv hw,hrest]
    rfl

lemma toJson_dict (o : DumpOpts) (kvs : List (PyKey × PyVal)) :
    toJson o (.dict kvs) = .dict (dictOf ((sortItems o kvs).map (readItem o))) := by
  rw [toJson,toJsonItems_eq,sortItems_map,List.map_map]
  rfl

lemma readsBack_scalar {o : DumpOpts} {v : PyVal} (hv : v.toJson o = v)
    (h : ∀ t, dumps o v = .ok t → ScalarText v t) : ReadsBack o v := by
  intro t ht _ n r hn hr
  rw [(h t ht).scanValue hn hr.numEnd,hv]

lemma readsBack_list {o : DumpOpts} {xs : List PyVal} (ih : ∀ x ∈ xs, ReadsBack o x) :
    ReadsBack o (.list xs) := by
  intro t ht hs n r hn _
  obtain ⟨ts,hts,rfl⟩ := dumps_list_ok ht
  obtain ⟨n,rfl⟩ := Nat.exists_eq_succ_of_ne_zero (n := n) (by rintro rfl; simp at hn)
  rw [List.cons_append,scanValue,if_neg (by decide),if_pos rfl,List.append_assoc,toJson,toJsonList_eq]
  cases hts with
  | nil => rfl
  | @cons x t xs ts hx hxs =>
    have hd : List.Forall₂ (fun x t => dumps o x = .ok t) (x :: xs) (t :: ts) := .cons hx hxs
    obtain ⟨m,rfl⟩ := Nat.exists_eq_succ_of_ne_zero (n := n) (by rintro rfl; simp at hn)
    have hm := scanElems_dumps hd (fun y hy he => texts_list (hs he) y hy) ih m r
      (by simp at hn; omega)
    obtain ⟨s,hi⟩ := intercalate_head o.itemSep t ts
    obtain ⟨c,w,rfl,hc,hb,_⟩ := dumps_head hx
    rw [hi] at hm ⊢
    simp only [List.cons_append,List.nil_append] at hm ⊢
    rw [skipWs_noSpace (noSpace_cons.mpr hc)]
    simp only [if_neg hb,Nat.succ_eq_add_one,hm]
    rfl

lemma readsBack_dict {o : DumpOpts} {kvs : List (PyKey × PyVal)}
    (ih : ∀ p ∈ kvs, ReadsBack o p.2) : ReadsBack o (.dict kvs) := by
  intro t ht hs n r hn _
  obtain ⟨ts,hts,rfl⟩ := dumps_dict_ok ht
  obtain ⟨n,rfl⟩ := Nat.exists_eq_succ_of_ne_zero (n := n) (by rintro rfl; simp at hn)
  have hmem : ∀ p ∈ sortItems o kvs, p ∈ kvs := fun p => (sortItems_perm o kvs).mem_iff.mp
  rw [List.cons_append,scanValue,if_neg (by decide),if_neg (by decide),if_pos rfl,
    List.append_assoc,toJson_dict]
  generalize sortItems o kvs = items at hts hmem
  cases hts with
  | nil => rfl
  | @cons p t ps ts hp hps =>
    have hd : List.Forall₂ (fun p t => member o p = .ok t) (p :: ps) (t :: ts) := .cons hp hps
    obtain ⟨m,rfl⟩ := Nat.exists_eq_succ_of_ne_zero (n := n) (by rintro rfl; simp at hn)
    have hm := scanMembers_dumps hd (fun q hq he => (texts_items (hs he) q (hmem q hq)).1)
      (fun q hq he => (texts_items (hs he) q (hmem q hq)).2) (fun q hq => ih q (hmem q hq)) m r
      (by simp at hn; omega)
    obtain ⟨s,hi⟩ := intercalate_head o.itemSep t ts
    obtain ⟨u,_,rfl⟩ := member_ok hp
    rw [hi] at hm ⊢
    simp only [quote,List.cons_append,List.nil_append] at hm ⊢
    rw [skipWs_noSpace (noSpace_cons.mpr (by decide))]
    simp only [if_neg (show cp '"' ≠ cp '}' by decide),Nat.succ_eq_add_one,hm]
    rfl

theorem readsBack (o : DumpOpts) (v : PyVal) : ReadsBack o v := by
  induction v using PyVal.ind with
  | none => exact readsBack_scalar rfl fun t ht => Except.ok.inj ht ▸ scalarText_none
  | bool b => exact readsBack_scalar rfl fun t ht => Except.ok.inj ht ▸ scalarText_bool b
  | int i => exact readsBack_scalar rfl fun t ht => scalarText_int ht
  | float f => exact readsBack_scalar rfl fun t ht => scalarText_float ht
  | str s =>
    intro t ht hs n r hn _
    obtain rfl := Except.ok.inj ht
    obtain ⟨n,rfl⟩ := Nat.exists_eq_succ_of_ne_zero (n := n) (by rintro rfl; simp [quote] at hn)
    obtain ⟨u,hu,hq⟩ := scanString_quoted (fun he => hs he s (by simp [texts])) r
    rw [hu,scanValue,if_pos rfl,hq]
    rfl
  | bytes b => intro t ht; simp [dumps] at ht
  | list xs ih => exact readsBack_list ih
  | tuple xs ih =>
    intro t ht hs
    exact readsBack_list ih t (dumps_tuple o xs ▸ ht) hs
  | dict kvs ih => exact readsBack_dict ih
  | object i => intro t ht; simp [dumps] at ht

/-- json.loads(json.dumps(v, ...)) is the value json makes of v. -/
theorem loads_dumps {o : DumpOpts} {v : PyVal} {t : PyStr} (h : dumps o v = .ok t)
    (ht : TextsOk o v) : loads t = some (v.toJson o) := by
  have hr := readsBack o v t h ht (t.length+1) [] (by omega) valueEnd_nil
  have hw := noSpace_dumps h []
  rw [List.append_nil] at hr hw
  have hb : ¬t.head? = some 0xFEFF := by
    obtain ⟨c,s,rfl,_,_,hc⟩ := dumps_head h
    simpa using hc
  rw [loads,if_neg hb,skipWs_noSpace hw,hr]
  rfl

end Values

end Python
