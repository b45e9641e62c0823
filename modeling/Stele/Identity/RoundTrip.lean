import Stele.Identity.Refs

/-! One reference, one string: formatting and parsing are inverse to each other. -/
namespace Stele
open Python Urllib

section Characters

variable {s t : PyStr} {c : CodePoint}

lemma isRecordIdChar_of_mem (h : isRecordId s = true) : ∀ c ∈ s, isRecordIdChar c = true := by
  cases s with
  | nil => cases h
  | cons d s =>
    rw [isRecordId,Bool.and_eq_true,List.all_eq_true] at h
    intro c hc
    rcases List.mem_cons.mp hc with rfl | hc
    · rw [isRecordIdChar,h.1,Bool.true_or]
    · exact h.2 c hc

lemma not_mem_recordId (h : isRecordId s = true) (hc : isRecordIdChar c = false) : c ∉ s := by
  intro hm
  rw [isRecordIdChar_of_mem h c hm] at hc
  cases hc

lemma not_mem_digest (h : isDigest s = true) (hc : c.val < 48 ∨ 57 < c.val ∧ c.val < 97) : c ∉ s := by
  intro hm
  simp only [isDigest,Bool.and_eq_true,List.all_eq_true,Bool.or_eq_true,decide_eq_true_eq] at h
  have := h.2 c hm
  omega

lemma not_mem_digits (h : ∀ c ∈ s, isDigit c = true) (hc : isDigit c = false) : c ∉ s := by
  intro hm
  rw [h c hm] at hc
  cases hc

lemma formatQuote_ok {safe : Bytes} (h : formatQuote safe s = .ok t) : quote safe s = some t := by
  unfold formatQuote at h
  cases hq : quote safe s with
  | none => rw [hq] at h; cases h
  | some u => rw [hq] at h; exact congrArg some (Except.ok.inj h)

lemma slash_safe : 37 ∉ slash ∧ ∀ b ∈ slash, b < 128 := by decide +kernel

/-- What quote writes of a path or a pointer has none of the separators. -/
lemma not_mem_slash_quote (h : formatQuote slash s = .ok t)
    (hc : c ≠ cp '%' ∧ alwaysSafe (UInt8.ofNat c.val) = false ∧ UInt8.ofNat c.val ∉ slash) : c ∉ t :=
  not_mem_quote slash_safe.2 (formatQuote_ok h) hc

lemma unquote_slash (h : formatQuote slash s = .ok t) : unquote t = s :=
  unquote_quote slash_safe.1 slash_safe.2 (formatQuote_ok h)

lemma unquote_nothing (h : formatQuote [] s = .ok t) : unquote t = s :=
  unquote_quote (by simp) (by simp) (formatQuote_ok h)

lemma uint_formatInt {n : ℕ} (h : formatInt n = .ok t) (what : PyStr) :
    uint t what = .ok n ∧ ∀ c ∈ t, isDigit c = true := by
  unfold formatInt at h
  cases hn : strInt n with
  | none => rw [hn] at h; cases h
  | some u =>
    rw [hn] at h
    obtain rfl := Except.ok.inj h
    obtain ⟨h1,h2,h3⟩ := intDigits_strInt hn
    refine ⟨?_,h3⟩
    rw [uint,if_neg (by rw [h2]; decide),h1]

end Characters

section Parts

variable {rest text : PyStr}

/-- The first separator of one character is found after a part without it. -/
lemma partition_char {c : CodePoint} {l : PyStr} (h : c ∉ l) (r : PyStr) :
    partition [c] (l++[c]++r) = some (l,r) := partition_append [] h r

lemma splitAt_append (l : PyStr) {d : PyStr} (h : isDigest d = true) (what : PyStr) :
    splitAt (l++cp '@' :: d) what = .ok (l,d) := by
  rw [splitAt,rpartition_append l (not_mem_digest h (by decide))]

lemma checkDigest_ok {d : PyStr} (h : isDigest d = true) (what : PyStr) :
    checkDigest d what = .ok ⟨d,h⟩ := dif_pos h

lemma checkRecordId_ok {r : PyStr} (h : isRecordId r = true) : checkRecordId r = .ok ⟨r,h⟩ :=
  dif_pos h

lemma RecordRef.make_self (r : RecordRef) : RecordRef.make r.recordId r.artifactHash = .ok r := by
  rw [make,checkRecordId_ok r.recordId_form,checkDigest_ok r.artifactHash_form]
  rfl

lemma SourceRef.make_self (r : SourceRef) : SourceRef.make r.sourceId = .ok r := by
  rw [make,checkDigest_ok r.sourceId_form]
  rfl

lemma SnapshotRef.parse_str (r : SnapshotRef) :
    SnapshotRef.parse (r.kind.value++lit ":"++r.digest) = .ok r := by
  have hk : cp ':' ∉ r.kind.value := by cases r.kind <;> decide
  have hv : SnapshotKind.ofValue r.kind.value = some r.kind := by cases r.kind <;> decide
  rw [parse,show lit ":" = [cp ':'] from rfl,partition_char hk]
  simp only [make,hv,checkDigest_ok r.digest_form]
  rfl

lemma RecordRef.parse_str (r : RecordRef) :
    RecordRef.parse (r.recordId++cp '@' :: r.artifactHash) = .ok r := by
  rw [parse,splitAt_append _ r.artifactHash_form]
  exact r.make_self

lemma ObservationRef.parse_str (r : ObservationRef) :
    ObservationRef.parse (r.recordId++cp '@' :: r.digest) = .ok r := by
  rw [parse,splitAt_append _ r.digest_form]
  simp only [bind,Except.bind,make,checkRecordId_ok r.recordId_form,checkDigest_ok r.digest_form]
  rfl

lemma EventRef.parse_str (r : EventRef) {n : PyStr} (h : formatInt r.seq = .ok n) :
    EventRef.parse (n++cp '@' :: r.hash) = .ok r := by
  rw [parse,splitAt_append _ r.hash_form]
  simp only [bind,Except.bind,(uint_formatInt h _).1,make,dif_pos r.seq_pos,checkDigest_ok r.hash_form]
  rfl

/-- The constructor gives an anchor back from its quoted parts. -/
lemma makeAnchor_self (a : Extraction.Anchor) {artifact : PyStr} (h : formatQuote slash a.artifact = .ok artifact) :
    makeAnchor artifact a.digest a.place.toArgs.1 a.place.toArgs.2.1 a.place.toArgs.2.2 = .ok a := by
  rw [makeAnchor,unquote_slash h,a.make_self]

lemma parseFragment_ok (a : Extraction.Anchor) {artifact fragment : PyStr}
    (h : formatQuote slash a.artifact = .ok artifact) (hf : a.place.fragment = .ok fragment) :
    parseFragment artifact a.digest fragment = .ok a := by
  have hself := makeAnchor_self a h
  unfold parseFragment
  cases hp : a.place with
  | range start stop =>
    rw [hp] at hf hself
    obtain ⟨s,hs,hf⟩ := except_bind_ok.mp hf
    obtain ⟨e,he,hf⟩ := except_bind_ok.mp hf
    obtain rfl := Except.ok.inj hf
    have hd : cp '-' ∉ s := not_mem_digits (uint_formatInt hs []).2 (by decide)
    have hpart : partition (lit "-") (s++cp '-' :: e) = some (s,e) := by
      have := partition_char hd e
      rwa [List.append_assoc] at this
    simp only [dropPrefix_append,hpart,(uint_formatInt hs _).1,(uint_formatInt he _).1,bind,Except.bind]
    exact hself
  | pointer p r =>
    rw [hp] at hf hself
    obtain ⟨qp,hqp,hf⟩ := except_bind_ok.mp hf
    obtain ⟨qr,hqr,hf⟩ := except_bind_ok.mp hf
    obtain rfl := Except.ok.inj hf
    have hb : dropPrefix (lit "bytes=") (lit "pointer="++(qp++lit "&render="++qr)) = none := rfl
    have hamp : cp '&' ∉ qp := not_mem_slash_quote hqp (by decide)
    have hpart : partition (lit "&render=") (qp++lit "&render="++qr) = some (qp,qr) :=
      partition_append (lit "render=") hamp qr
    simp only [hb,dropPrefix_append,hpart,unquote_slash hqp,unquote_nothing hqr]
    exact hself

lemma AnchorRef.parse_str (r : AnchorRef) {artifact fragment : PyStr}
    (h : formatQuote slash r.anchor.artifact = .ok artifact)
    (hf : r.anchor.place.fragment = .ok fragment) :
    AnchorRef.parse ((r.record.recordId++cp '@' :: r.record.artifactHash)++lit "/"++
      (artifact++cp '@' :: r.anchor.digest)++lit "#"++fragment) = .ok r := by
  have hrec : ∀ c, isRecordIdChar c = false → (c.val < 48 ∨ 57 < c.val ∧ c.val < 97) → c ≠ cp '@' →
      c ∉ r.record.recordId++cp '@' :: r.record.artifactHash := by
    intro c h1 h2 h3
    simp only [List.mem_append,List.mem_cons,not_or]
    exact ⟨not_mem_recordId r.record.recordId_form h1,h3,not_mem_digest r.record.artifactHash_form h2⟩
  have hhash : cp '#' ∉ (r.record.recordId++cp '@' :: r.record.artifactHash)++lit "/"++
      (artifact++cp '@' :: r.anchor.digest) := by
    intro hm
    rcases List.mem_append.mp hm with hm | hm
    · rcases List.mem_append.mp hm with hm | hm
      · exact hrec _ (by decide) (by decide) (by decide) hm
      · revert hm; decide
    · rcases List.mem_append.mp hm with hm | hm
      · exact not_mem_slash_quote h (by decide) hm
      · rcases List.mem_cons.mp hm with hm | hm
        · revert hm; decide
        · exact not_mem_digest r.anchor.digest_form (by decide) hm
  have hslash : cp '/' ∉ r.record.recordId++cp '@' :: r.record.artifactHash :=
    hrec _ (by decide) (by decide) (by decide)
  unfold parse
  rw [show lit "#" = [cp '#'] from rfl,partition_char hhash]
  dsimp only
  rw [show lit "/" = [cp '/'] from rfl,partition_char hslash]
  dsimp only
  rw [splitAt_append _ r.record.artifactHash_form]
  simp only [bind,Except.bind,r.record.make_self,splitAt_append _ r.anchor.digest_form,
    parseFragment_ok r.anchor h hf]
  rfl

end Parts

/-- Each kind's own part is parsed back. -/
lemma parseRef_of_parts {kind rest text : PyStr} {ref : Ref} (hk : cp ':' ∉ kind)
    (hp : parseKind kind rest = some (.ok ref)) (ht : text = refPrefix++(kind++lit ":"++rest))
    (hs : ref.str = .ok text) : parseRef text = .ok ref := by
  have hpart : partition (lit ":") (kind++lit ":"++rest) = some (kind,rest) := partition_char hk rest
  have hdrop : dropPrefix refPrefix text = some (kind++lit ":"++rest) := by rw [ht,dropPrefix_append]
  rw [parseRef,hdrop]
  simp only [hpart,hp,bind,Except.bind,hs,ne_eq,not_true,if_false]
  rfl

theorem parseRef_str {r : Ref} {t : PyStr} (h : r.str = .ok t) : parseRef t = .ok r := by
  have hs := h
  cases r with
  | source r =>
    have ht := (Except.ok.inj h).symm
    exact parseRef_of_parts (by decide) (by simp [parseKind,r.make_self,Except.map]) ht hs
  | snapshot r =>
    have ht := (Except.ok.inj h).symm
    exact parseRef_of_parts (by decide) (by simp [parseKind,-List.append_assoc,r.parse_str,Except.map]) ht hs
  | record r =>
    have ht := (Except.ok.inj h).symm
    exact parseRef_of_parts (by decide) (by simp [parseKind,r.parse_str,Except.map]) ht hs
  | observation r =>
    have ht := (Except.ok.inj h).symm
    exact parseRef_of_parts (by decide) (by simp [parseKind,r.parse_str,Except.map]) ht hs
  | anchor r =>
    obtain ⟨fragment,hf,h⟩ := except_bind_ok.mp h
    obtain ⟨artifact,ha,h⟩ := except_bind_ok.mp h
    have ht := (Except.ok.inj h).symm
    have hp := r.parse_str ha hf
    exact parseRef_of_parts (by decide) (by simp only [parseKind,hp,Except.map,lit_inj]; rfl) ht hs
  | event r =>
    obtain ⟨n,hn,h⟩ := except_bind_ok.mp h
    have ht := (Except.ok.inj h).symm
    exact parseRef_of_parts (by decide) (by simp [parseKind,r.parse_str hn,Except.map]) ht hs

theorem str_parseRef {t : PyStr} {r : Ref} (h : parseRef t = .ok r) : r.str = .ok t := by
  unfold parseRef at h
  split at h
  · cases h
  · split at h
    · cases h
    · split at h
      · cases h
      · obtain ⟨ref,_,h⟩ := except_bind_ok.mp h
        obtain ⟨back,hb,h⟩ := except_bind_ok.mp h
        split_ifs at h with hne
        · cases h
        · obtain rfl := Except.ok.inj h
          rw [hb,not_not.mp hne]

/-- The text has a UTF-8 form and the integers are short enough for str. -/
def Ref.Printable : Ref → Prop
  | .anchor r => Encodable r.anchor.artifact ∧ match r.anchor.place with
    | .range start stop => start < 10^maxStrDigits ∧ stop < 10^maxStrDigits
    | .pointer p render => Encodable p ∧ Encodable render
  | .event r => r.seq < 10^maxStrDigits
  | _ => True

lemma formatInt_of_lt {n : ℕ} (h : n < 10^maxStrDigits) : formatInt n = .ok (natText n) := by
  rw [formatInt,strInt_of_lt h]

lemma formatQuote_of_encodable {s : PyStr} (h : Encodable s) (safe : Bytes) :
    ∃ t, formatQuote safe s = .ok t := by
  have hq : ∃ t, quote safe s = some t := quote_isSome.mpr h
  obtain ⟨t,ht⟩ := hq
  exact ⟨t,by rw [formatQuote,ht]⟩

lemma Ref.Printable.str {r : Ref} (h : r.Printable) : ∃ t, r.str = .ok t := by
  cases r with
  | anchor r =>
    obtain ⟨artifact,ha⟩ := formatQuote_of_encodable h.1 slash
    have hf : ∃ fragment, r.anchor.place.fragment = .ok fragment := by
      have h2 := h.2
      cases hp : r.anchor.place with
      | range start stop =>
        rw [hp] at h2
        simp only [Place.fragment,formatInt_of_lt h2.1,formatInt_of_lt h2.2]
        exact ⟨_,rfl⟩
      | pointer p render =>
        rw [hp] at h2
        obtain ⟨qp,hqp⟩ := formatQuote_of_encodable h2.1 slash
        obtain ⟨qr,hqr⟩ := formatQuote_of_encodable h2.2 []
        simp only [Place.fragment,hqp,hqr]
        exact ⟨_,rfl⟩
    obtain ⟨fragment,hf⟩ := hf
    simp only [Ref.str,AnchorRef.str,hf,ha]
    exact ⟨_,rfl⟩
  | event r =>
    simp only [Ref.str,EventRef.str,formatInt_of_lt (show r.seq < 10^maxStrDigits from h)]
    exact ⟨_,rfl⟩
  | _ => exact ⟨_,rfl⟩

/-- Every reference that can be printed is read back from its string; no two references of
any types have one string; and what is accepted is printed as it was. -/
theorem ref_round_trip :
    (∀ r : Ref, r.Printable → ∃ t, r.str = .ok t ∧ parseRef t = .ok r) ∧
    (∀ (r q : Ref) (t : PyStr), r.str = .ok t → q.str = .ok t → r = q) ∧
    (∀ (t : PyStr) (r : Ref), parseRef t = .ok r → r.str = .ok t) := by
  refine ⟨fun r h => ?_,fun r q t hr hq => ?_,fun t r h => str_parseRef h⟩
  · obtain ⟨t,ht⟩ := h.str
    exact ⟨t,ht,parseRef_str ht⟩
  · have h := parseRef_str hr
    rw [parseRef_str hq] at h
    exact (Except.ok.inj h).symm

def sampleDigest : PyStr := List.replicate 64 (cp 'a')

/-- A message whose node id has the separators in it. -/
def sampleAnchorRef : Ref :=
  .anchor ⟨⟨lit "r-1",sampleDigest,by decide,by decide⟩,
    ⟨lit "文書/a@b#c&d=e%.json",sampleDigest,.pointer (lit "/mapping/a~1b c/message") (lit "chatgpt-message"),
      by decide,by decide,by decide⟩⟩

theorem ref_round_trip_sample :
    ∃ t, sampleAnchorRef.str = .ok t ∧ parseRef t = .ok sampleAnchorRef ∧
      (∀ q : Ref, q.str = .ok t → sampleAnchorRef = q) ∧
      ∀ r : Ref, parseRef t = .ok r → r.str = .ok t := by
  obtain ⟨t,ht,hp⟩ := ref_round_trip.1 sampleAnchorRef ⟨by decide,by decide,by decide⟩
  exact ⟨t,ht,hp,fun q hq => ref_round_trip.2.1 _ q t ht hq,ref_round_trip.2.2 t⟩

end Stele
