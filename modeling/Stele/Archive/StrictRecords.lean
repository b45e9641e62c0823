import Stele.Archive.Clean
import Stele.Archive.Metadata

/-! How strict the Source and Snapshot codecs are: what is written is read back, and exactly
which byte strings are neither the canonical bytes of a record nor a RecordFormatError. -/
namespace Stele
open Python

/-- The bytes are the canonical ones of the record that is returned, or a RecordFormatError is
raised. -/
def StrictOn {α : Type} (fromCanonical : Bytes → Except Exc α) (toCanonical : α → Except Exc Bytes)
    (data : Bytes) : Prop :=
  (∃ r, fromCanonical data = .ok r ∧ toCanonical r = .ok data) ∨
    fromCanonical data = .error .recordFormat

/-- A record that to_canonical writes and from_canonical reads back. -/
def RoundTrips {α : Type} (fromCanonical : Bytes → Except Exc α) (toCanonical : α → Except Exc Bytes)
    (r : α) : Prop := ∃ data, toCanonical r = .ok data ∧ fromCanonical data = .ok r

/-- The values that == 1 and are not the int. -/
def oneFloat : PyFloat := nearest false 1 1

/-- A kind of record: its schema, its fields, and its constructor as a function of their values. -/
structure RecordType (α : Type) where
  schema : PyStr
  fields : List String
  values : α → List PyVal
  make : List PyVal → Option α
  make_iff : ∀ vs r, make vs = some r ↔ vs = values r
  length_values : ∀ r, (values r).length = fields.length
  nodup : ("schema" :: "schema_version" :: fields).Nodup
  scalar : ∀ r, ∀ v ∈ values r, v.IsJson ∧ canonicalImage v = v

namespace RecordType

variable {α : Type} (T : RecordType α) {data : Bytes} {r : α} {v : PyVal}
  {kvs : List (PyKey × PyVal)}

/-- What to_canonical writes, with any value for the version. -/
def items (v : PyVal) (r : α) : List (PyKey × PyVal) :=
  (.str (lit "schema"),.str T.schema) :: (.str (lit "schema_version"),v) ::
    List.zipWith (fun f w => (PyKey.str (lit f),w)) T.fields (T.values r)

def toCanonical (r : α) : Except Exc Bytes := canonicalJson (.dict (T.items (.int schemaVersion) r))

def fromCanonical (data : Bytes) : Except Exc α :=
  match parseRecord data T.schema T.fields with
  | .error e => .error e
  | .ok kvs => match T.make (T.fields.map (getStr kvs)) with
    | none => .error .recordFormat
    | some r => .ok r

/-- The bytes are a JSON object with the schema, a version that == 1 and exactly the fields. -/
structure Object (data : Bytes) (kvs : List (PyKey × PyVal)) : Prop where
  loads : (decode data).bind loads = some (.dict kvs)
  schema : (getStr kvs "schema").pyEq (.str T.schema) = true
  version : (getStr kvs "schema_version").pyEq (.int schemaVersion) = true
  length : kvs.length = T.fields.length+2
  fields : ∀ f ∈ T.fields, (PyVal.find kvs (.str (lit f))).isSome = true

section Parse

variable {T}

lemma Object.parse (h : T.Object data kvs) : parseRecord data T.schema T.fields =
    match canonicalJson (.dict kvs) with
    | .error e => .error e
    | .ok b => if b = data then .ok kvs else .error .recordFormat := by
  have hf : (T.fields.all fun f => (PyVal.find kvs (.str (lit f))).isSome) = true :=
    List.all_eq_true.mpr h.fields
  rw [parseRecord,h.loads]
  cases hc : canonicalJson (.dict kvs) <;>
    simp only [h.schema,h.version,h.length,hf,hc,Bool.true_eq_false,if_false,ne_eq,not_true_eq_false,or_self]

lemma parse_other (h : ∀ kvs, ¬T.Object data kvs) :
    parseRecord data T.schema T.fields = .error .recordFormat := by
  unfold parseRecord
  split
  · rename_i kvs hl
    split_ifs with hs hv hf
    · rfl
    · rfl
    · rfl
    · rw [not_or,not_not,Bool.not_eq_false,List.all_eq_true] at hf
      exact absurd ⟨hl,by simpa using hs,by simpa using hv,hf.1,hf.2⟩ (h kvs)
  · rfl

lemma Object.strDict (h : T.Object data kvs) : StrDict kvs := by
  obtain ⟨t,-,ht⟩ := Option.bind_eq_some_iff.mp h.loads
  exact (loads_loaded ht).strDict

end Parse

section Items

lemma length_items : (T.items v r).length = T.fields.length+2 := by
  simp [items,T.length_values]

lemma keys_items : (T.items v r).map Prod.fst =
    ("schema" :: "schema_version" :: T.fields).map fun f => PyKey.str (lit f) := by
  have h : ∀ (fs : List String) (vs : List PyVal), vs.length = fs.length →
      (List.zipWith (fun f w => (PyKey.str (lit f),w)) fs vs).map Prod.fst =
        fs.map fun f => PyKey.str (lit f) := by
    intro fs
    induction fs with
    | nil => simp
    | cons f fs ih =>
      intro vs hl
      cases vs with
      | nil => simp at hl
      | cons w vs => simp [ih vs (by simpa using hl)]
  simp [items,h _ _ (T.length_values r)]

lemma items_strDict : StrDict (T.items v r) where
  keys p hp := by
    have hk := List.mem_map_of_mem (f := Prod.fst) hp
    rw [keys_items] at hk
    obtain ⟨f,-,hf⟩ := List.mem_map.mp hk
    exact ⟨_,hf.symm⟩
  nodup := by
    rw [keys_items]
    exact T.nodup.map fun f g h => lit_inj.mp (PyKey.str.inj h)

lemma getStr_mem (h : StrDict kvs) {k : String} {w : PyVal} (hm : (.str (lit k),w) ∈ kvs) :
    getStr kvs k = w := by rw [getStr,(find_str h.nodup).mpr hm,Option.getD_some]

lemma values_items : T.fields.map (getStr (T.items v r)) = T.values r := by
  have h : ∀ (fs : List String) (vs : List PyVal) (kvs : List (PyKey × PyVal)), StrDict kvs →
      vs.length = fs.length → List.zipWith (fun f w => (PyKey.str (lit f),w)) fs vs ⊆ kvs →
      fs.map (getStr kvs) = vs := by
    intro fs
    induction fs with
    | nil => intro vs _ _ hl _; simpa [eq_comm] using hl
    | cons f fs ih =>
      intro vs kvs hs hl hsub
      cases vs with
      | nil => simp at hl
      | cons w vs =>
        rw [List.zipWith_cons_cons,List.cons_subset] at hsub
        rw [List.map_cons,getStr_mem hs hsub.1,ih vs kvs hs (by simpa using hl) hsub.2]
  exact h _ _ _ T.items_strDict (T.length_values r) fun p hp =>
    List.mem_cons_of_mem _ (List.mem_cons_of_mem _ hp)

/-- An object whose fields have the values of a record is that record's, in any order. -/
lemma Object.perm (h : T.Object data kvs) (hr : T.fields.map (getStr kvs) = T.values r) :
    (T.items (getStr kvs "schema_version") r).Perm kvs := by
  have hs := h.strDict
  have hmem : ∀ {k : String} {w : PyVal}, PyVal.find kvs (.str (lit k)) = some w →
      (PyKey.str (lit k),w) ∈ kvs := fun hf => (find_str hs.nodup).mp hf
  have hfind : ∀ {k : String} {w : PyVal}, (getStr kvs k).pyEq w = true → PyVal.pyEq .none w = false →
      (PyKey.str (lit k),getStr kvs k) ∈ kvs := by
    intro k w hk hn
    cases hf : PyVal.find kvs (.str (lit k)) with
    | none => rw [getStr,hf,Option.getD_none,hn] at hk; cases hk
    | some u => rw [getStr,hf]; exact hmem hf
  have hschema : getStr kvs "schema" = .str T.schema := by
    have := h.schema
    cases hv : getStr kvs "schema" with
    | str s => rw [hv] at this; simpa [PyVal.pyEq] using this
    | float f => rw [hv] at this; cases hf : f.num <;> simp [PyVal.pyEq,PyVal.num,hf] at this
    | _ => rw [hv] at this; simp [PyVal.pyEq,PyVal.num] at this
  have hzip : ∀ fs : List String, (∀ f ∈ fs, (PyVal.find kvs (.str (lit f))).isSome = true) →
      List.zipWith (fun f w => (PyKey.str (lit f),w)) fs (fs.map (getStr kvs)) ⊆ kvs := by
    intro fs
    induction fs with
    | nil => simp
    | cons f fs ih =>
      intro hfs
      obtain ⟨w,hw⟩ := Option.isSome_iff_exists.mp (hfs f (by simp))
      rw [List.map_cons,List.zipWith_cons_cons,List.cons_subset]
      refine ⟨?_,ih fun g hg => hfs g (List.mem_cons_of_mem _ hg)⟩
      rw [getStr,hw]
      exact hmem hw
  refine (List.Nodup.subperm ?_ ?_).perm_of_length_le ?_
  · exact List.Nodup.of_map _ T.items_strDict.nodup
  · rw [items,List.cons_subset,List.cons_subset,← hr]
    refine ⟨hschema ▸ hfind h.schema rfl,hfind h.version rfl,hzip _ h.fields⟩
  · rw [length_items,h.length]

lemma isJson_items (hv : v.IsJson) : (PyVal.dict (T.items v r)).IsJson := by
  rw [PyVal.IsJson,PyVal.isJsonItems_iff]
  refine ⟨T.items_strDict.nodup,fun p hp => ⟨T.items_strDict.keys p hp,?_⟩⟩
  rcases List.mem_cons.mp hp with rfl | hp
  · trivial
  rcases List.mem_cons.mp hp with rfl | hp
  · exact hv
  obtain ⟨i,hi,rfl⟩ := List.mem_iff_getElem.mp hp
  rw [List.getElem_zipWith]
  exact (T.scalar r _ (List.getElem_mem _)).1

/-- The canonical bytes of a record's items, whatever value of the version, are read back. -/
lemma read_items (hv : v.IsJson) (hi : canonicalImage v = v)
    (hone : v.pyEq (.int schemaVersion) = true) (h : canonicalJson (.dict (T.items v r)) = .ok data) :
    T.fromCanonical data = .ok r := by
  have hs := T.items_strDict (v := v) (r := r)
  have hval : ∀ p ∈ T.items v r, canonicalImage p.2 = p.2 := by
    intro p hp
    rcases List.mem_cons.mp hp with rfl | hp
    · rfl
    rcases List.mem_cons.mp hp with rfl | hp
    · exact hi
    obtain ⟨i,hi,rfl⟩ := List.mem_iff_getElem.mp hp
    rw [List.getElem_zipWith]
    exact (T.scalar r _ (List.getElem_mem _)).2
  have himage : canonicalImage (.dict (T.items v r)) = .dict (sortItems canonicalOpts (T.items v r)) := by
    refine (toJson_strDict hs).trans (congrArg _ ?_)
    refine (List.map_congr_left fun p hp => ?_).trans (List.map_id _)
    exact Prod.ext rfl (hval p ((sortItems_perm _ _).mem_iff.mp hp))
  have hperm := sortItems_perm canonicalOpts (T.items v r)
  have hget : ∀ k : String, getStr (sortItems canonicalOpts (T.items v r)) k = getStr (T.items v r) k := by
    intro k
    rw [getStr,find_toJson hs himage,getStr]
    cases hf : PyVal.find (T.items v r) (.str (lit k)) with
    | none => rfl
    | some w => exact hval _ ((find_str hs.nodup).mp hf)
  have hparse := parseRecord_canonicalJson T.schema T.fields h himage (T.isJson_items hv)
    ((hget _).trans (getStr_mem hs (by simp [items])))
    (by rw [hget,getStr_mem hs (w := v) (by simp [items])]; exact hone)
    (by rw [hperm.length_eq,length_items]) fun f hf => by
      rw [find_toJson hs himage,Option.isSome_map]
      have hk : PyKey.str (lit f) ∈ (T.items v r).map Prod.fst := by
        rw [keys_items]
        exact List.mem_map_of_mem (by simp [hf])
      obtain ⟨p,hp,hpk⟩ := List.mem_map.mp hk
      rw [(find_str (v := p.2) hs.nodup).mpr (by rw [← hpk]; exact hp)]
      rfl
  have hvalues : T.fields.map (getStr (sortItems canonicalOpts (T.items v r))) = T.values r := by
    rw [← T.values_items (v := v)]
    exact List.map_congr_left fun f _ => hget f
  rw [fromCanonical,hparse]
  simp only [(T.make_iff _ _).mpr hvalues]

end Items

/-- Objects of one record with one image have one version. -/
lemma version_image {w : PyVal}
    (h : canonicalImage (.dict (T.items v r)) = canonicalImage (.dict (T.items w r))) :
    canonicalImage v = canonicalImage w := by
  have hmem : ∀ u, PyVal.find (T.items u r) (.str (lit "schema_version")) = some u := fun u =>
    (find_str T.items_strDict.nodup).mpr (by simp [items])
  have hw := toJson_strDict (o := canonicalOpts) (T.items_strDict (v := w) (r := r))
  have hfind := find_toJson (T.items_strDict (v := v)) (h.trans hw) (lit "schema_version")
  rw [find_toJson T.items_strDict hw,hmem,hmem] at hfind
  exact (Option.some.inj hfind).symm

section Strict

/-- Not nested too deeply; a JSON object of the schema, if it is one, without lone surrogates,
NaN and infinities; and not a record's canonical bytes with true or 1.0 for the version. -/
structure Admissible (deep : Bytes → Bool) (data : Bytes) : Prop where
  depth : deep data = false
  clean : ∀ kvs, T.Object data kvs → Clean (.dict kvs)
  version : ∀ r v, v = .bool true ∨ v = .float oneFloat →
    canonicalJson (.dict (T.items v r)) ≠ .ok data

lemma oneFloat_num : oneFloat.num = some (.ofInt 1) := by decide +kernel

/-- A value that == 1 is 1, true or 1.0. -/
lemma eq_one (h : v.pyEq (.int schemaVersion) = true) :
    v = .int schemaVersion ∨ v = .bool true ∨ v = .float oneFloat := by
  cases v with
  | bool b =>
    cases b with
    | true => simp
    | false => simp [PyVal.pyEq,PyVal.num,NumVal.ofInt,schemaVersion,emin] at h
  | int i =>
    simp only [PyVal.pyEq,PyVal.num,NumVal.ofInt,decide_eq_true_eq,Option.some.injEq,
      NumVal.fin.injEq] at h
    exact Or.inl (congrArg _ (mul_right_cancel₀ (by positivity) h).symm)
  | float f =>
    cases f with
    | finite x =>
      simp only [PyVal.pyEq,PyFloat.num,PyVal.num,NumVal.ofInt,decide_eq_true_eq,
        Option.some.injEq,NumVal.fin.injEq,Option.isSome_some,Bool.true_and,schemaVersion,
        one_mul,Finite64.signedUnits] at h
      refine Or.inr (Or.inr ?_)
      split_ifs at h with hneg
      · have : (0 : ℤ) < 2^emin := by positivity
        omega
      · have hu : x.units = 2^emin := by exact_mod_cast h.symm
        have hx := x.nearest_units
        rw [hu,Bool.eq_false_iff.mpr hneg] at hx
        rw [← hx,oneFloat,nearest_congr false (by positivity) one_pos (by ring : 2^emin*1 = 1*2^emin)]
    | inf neg => simp [PyVal.pyEq,PyFloat.num,PyVal.num,NumVal.ofInt] at h
    | nan => simp [PyVal.pyEq,PyFloat.num] at h
  | _ => simp [PyVal.pyEq] at h

lemma pyEq_one (h : v = .bool true ∨ v = .float oneFloat) :
    v.IsJson ∧ canonicalImage v = v ∧ v.pyEq (.int schemaVersion) = true := by
  rcases h with rfl | rfl
  · exact ⟨trivial,rfl,by simp [PyVal.pyEq,PyVal.num,schemaVersion]⟩
  · refine ⟨?_,rfl,?_⟩
    · cases hf : oneFloat with
      | finite x => exact ⟨x,rfl⟩
      | inf neg => have := oneFloat_num; rw [hf] at this; simp [PyFloat.num,NumVal.ofInt] at this
      | nan => have := oneFloat_num; rw [hf] at this; simp [PyFloat.num] at this
    · simp [PyVal.pyEq,PyVal.num,oneFloat_num,schemaVersion]

variable {T}

/-- An object of the schema that canonical JSON can write is a record's, or is refused. -/
lemma Object.strictOn (h : T.Object data kvs) (hc : Clean (.dict kvs))
    (hv : ∀ r v, v = .bool true ∨ v = .float oneFloat →
      canonicalJson (.dict (T.items v r)) ≠ .ok data) :
    StrictOn T.fromCanonical T.toCanonical data := by
  obtain ⟨t,-,ht⟩ := Option.bind_eq_some_iff.mp h.loads
  obtain ⟨u,hu⟩ := (writable_iff_clean ht).mpr hc
  have hb := canonicalJson_ok.mpr ⟨u,hu,rfl⟩
  have hparse := h.parse
  rw [hb] at hparse
  simp only at hparse
  split_ifs at hparse with hd
  · rw [hd] at hb
    cases hm : T.make (T.fields.map (getStr kvs)) with
    | none =>
      refine Or.inr ?_
      rw [fromCanonical,hparse]
      simp only [hm]
    | some r =>
      have hp := h.perm T ((T.make_iff _ _).mp hm)
      have hitems : canonicalJson (.dict (T.items (getStr kvs "schema_version") r)) = .ok data := by
        rw [← hb,canonicalJson,canonicalJson,canonicalText,canonicalText,
          dumps_perm rfl T.items_strDict hp]
      refine Or.inl ⟨r,?_,?_⟩
      · rw [fromCanonical,hparse]
        simp only [hm]
      · rcases eq_one h.version with hone | hother
        · rwa [hone] at hitems
        · exact absurd hitems (hv r _ hother)
  · refine Or.inr ?_
    rw [fromCanonical,hparse]

lemma Object.error (h : T.Object data kvs) (hc : ¬Clean (.dict kvs)) :
    ∃ e, T.fromCanonical data = .error e ∧ e ≠ .recordFormat := by
  obtain ⟨t,-,ht⟩ := Option.bind_eq_some_iff.mp h.loads
  have hw := mt (writable_iff_clean ht).mp hc
  obtain ⟨e,he,hne⟩ := canonicalText_error hw
  refine ⟨e,?_,by rcases hne with rfl | rfl | rfl <;> simp⟩
  rw [fromCanonical,h.parse,canonicalJson,he]
  rfl

/-- from_canonical is strict on exactly the admissible bytes. -/
theorem strictOn_iff (deep : Bytes → Bool) :
    StrictOn (limited deep T.fromCanonical) T.toCanonical data ↔ T.Admissible deep data := by
  cases hdeep : deep data with
  | true =>
    have hl : limited deep T.fromCanonical data = .error .recursionError := if_pos hdeep
    constructor
    · rintro (⟨r,hr,-⟩ | he)
      · rw [hl] at hr
        cases hr
      · rw [hl] at he
        cases he
    · exact fun h => absurd h.depth (by simp [hdeep])
  | false =>
    have hl : limited deep T.fromCanonical data = T.fromCanonical data := if_neg (by simp [hdeep])
    have hs : StrictOn (limited deep T.fromCanonical) T.toCanonical data ↔
        StrictOn T.fromCanonical T.toCanonical data := by rw [StrictOn,StrictOn,hl]
    rw [hs]
    constructor
    · refine fun h => ⟨hdeep,fun kvs hobj => ?_,fun r v hv hd => ?_⟩
      · by_contra hc
        obtain ⟨e,he,hne⟩ := hobj.error hc
        rcases h with ⟨r,hr,-⟩ | h
        · rw [he] at hr
          cases hr
        · exact hne (Except.error.inj (he.symm.trans h))
      · obtain ⟨hj,hi,hone⟩ := pyEq_one hv
        have hread := T.read_items hj hi hone hd
        rcases h with ⟨s,hs,hd'⟩ | h
        · obtain rfl : s = r := Except.ok.inj (hs.symm.trans hread)
          have hfind := T.version_image (canonicalJson_inj hd hd')
          rw [hi] at hfind
          rcases hv with rfl | rfl <;> cases hfind
        · rw [hread] at h
          cases h
    · rintro ⟨-,hclean,hversion⟩
      by_cases hobj : ∃ kvs, T.Object data kvs
      · obtain ⟨kvs,hobj⟩ := hobj
        exact hobj.strictOn (hclean kvs hobj) hversion
      · refine Or.inr ?_
        rw [fromCanonical,parse_other (not_exists.mp hobj)]

/-- One record has one accepted form. -/
lemma Admissible.one_form {deep : Bytes → Bool} {data' : Bytes} (h : T.Admissible deep data)
    (h' : T.Admissible deep data') (hr : T.fromCanonical data = .ok r)
    (hr' : T.fromCanonical data' = .ok r) : data = data' := by
  have form : ∀ b, T.Admissible deep b → T.fromCanonical b = .ok r → T.toCanonical r = .ok b := by
    intro b hb hbr
    have hl : limited deep T.fromCanonical b = .ok r := by
      rw [limited,if_neg (by simp [hb.depth]),hbr]
    rcases (strictOn_iff deep).mpr hb with ⟨s,hs,ht⟩ | he
    · obtain rfl := Except.ok.inj (hs.symm.trans hl)
      exact ht
    · rw [hl] at he
      cases he
  exact Except.ok.inj ((form _ h hr).symm.trans (form _ h' hr'))

end Strict

end RecordType

section Records

def sourceRecord : RecordType Source where
  schema := sourceSchema
  fields := ["locator"]
  values s := [.str s.locator]
  make vs := match vs with
    | [l] => Source.make l
    | _ => none
  make_iff vs s := by
    split
    · rename_i l
      obtain ⟨locator,hl⟩ := s
      cases l with
      | str l =>
        by_cases h : l ≠ []
        · simp [Source.make,h]
        · rw [not_not] at h
          simp [Source.make,h,Ne.symm hl]
      | _ => simp [Source.make]
    · rename_i h
      simpa using h (.str s.locator)
  length_values _ := rfl
  nodup := by decide
  scalar s v hv := by
    obtain rfl := List.mem_singleton.mp hv
    exact ⟨trivial,rfl⟩

lemma SnapshotKind.ofValue_eq {s : PyStr} {k : SnapshotKind} :
    ofValue s = some k ↔ s = k.value := by
  constructor
  · intro h
    unfold ofValue at h
    split_ifs at h with h1 h2
    · obtain rfl := Option.some.inj h
      exact h1
    · obtain rfl := Option.some.inj h
      exact h2
  · rintro rfl
    exact ofValue_value k

def snapshotRecord : RecordType Snapshot where
  schema := snapshotSchema
  fields := ["kind","digest","size","file_count"]
  values s := [.str s.kind.value,.str s.digest,.int s.size,.int s.fileCount]
  make vs := match vs with
    | [k,d,n,c] => Snapshot.make k d n c
    | _ => none
  make_iff vs s := by
    constructor
    · intro h
      split at h
      · rename_i k d n c
        unfold Snapshot.make at h
        split at h
        · rename_i k d n c
          split at h
          · cases h
          · rename_i kind hk
            split_ifs at h with hd
            obtain rfl := Option.some.inj h
            rw [SnapshotKind.ofValue_eq.mp hk]
            rfl
        · cases h
      · cases h
    · rintro rfl
      exact s.make_self
  length_values _ := rfl
  nodup := by decide
  scalar s v hv := by
    simp only [List.mem_cons,List.not_mem_nil,or_false] at hv
    rcases hv with rfl | rfl | rfl | rfl <;> exact ⟨trivial,rfl⟩

lemma sourceRecord_from : sourceRecord.fromCanonical = Source.fromCanonical := by
  funext data
  rw [RecordType.fromCanonical,Source.fromCanonical]
  have hf : sourceRecord.fields = ["locator"] := rfl
  rw [show sourceRecord.schema = sourceSchema from rfl,hf]
  cases parseRecord data sourceSchema ["locator"] with
  | error e => rfl
  | ok kvs =>
    have hm : sourceRecord.make (["locator"].map (getStr kvs)) = Source.make (getStr kvs "locator") := rfl
    simp only [hm]
    cases Source.make (getStr kvs "locator") <;> rfl

lemma snapshotRecord_from : snapshotRecord.fromCanonical = Snapshot.fromCanonical := by
  funext data
  rw [RecordType.fromCanonical,Snapshot.fromCanonical]
  have hf : snapshotRecord.fields = ["kind","digest","size","file_count"] := rfl
  rw [show snapshotRecord.schema = snapshotSchema from rfl,hf]
  cases parseRecord data snapshotSchema ["kind","digest","size","file_count"] with
  | error e => rfl
  | ok kvs =>
    have hm : snapshotRecord.make (["kind","digest","size","file_count"].map (getStr kvs)) =
        Snapshot.make (getStr kvs "kind") (getStr kvs "digest") (getStr kvs "size")
          (getStr kvs "file_count") := rfl
    simp only [hm]
    generalize Snapshot.make _ _ _ _ = made
    cases made <;> rfl

lemma Source.writable {s : Source} (h : Encodable s.locator) : Writable s.toPy := by
  refine writable_dict fun p hp => ?_
  simp only [List.mem_cons,List.not_mem_nil,or_false] at hp
  rcases hp with rfl | rfl | rfl
  · exact ⟨⟨_,rfl,encodable_lit _⟩,writable_str (encodable_lit _)⟩
  · exact ⟨⟨_,rfl,encodable_lit _⟩,writable_int (by decide)⟩
  · exact ⟨⟨_,rfl,encodable_lit _⟩,writable_str h⟩

lemma Snapshot.writable_iff {s : Snapshot} : Writable s.toPy ↔
    (natText s.size).length ≤ maxStrDigits ∧ (natText s.fileCount).length ≤ maxStrDigits := by
  refine ⟨fun h => ⟨writable_nat_iff.mp (h.item (p := (.str (lit "size"),_)) (by simp)),
    writable_nat_iff.mp (h.item (p := (.str (lit "file_count"),_)) (by simp))⟩,
    fun h => writable_dict fun p hp => ?_⟩
  have hd := encodable_ascii fun c hc => (digest_chars s.digest_form c hc).2
  simp only [List.mem_cons,List.not_mem_nil,or_false] at hp
  rcases hp with rfl | rfl | rfl | rfl | rfl | rfl <;> refine ⟨⟨_,rfl,encodable_lit _⟩,?_⟩
  · exact writable_str (encodable_lit _)
  · exact writable_int (by decide)
  · cases s.kind <;> exact writable_str (encodable_lit _)
  · exact writable_str hd
  · exact writable_nat h.1
  · exact writable_nat h.2

lemma toCanonical_ok {v : PyVal} : Writable v ↔ ∃ data, canonicalJson v = .ok data :=
  ⟨fun ⟨t,ht⟩ => ⟨_,canonicalJson_ok.mpr ⟨t,ht,rfl⟩⟩,fun ⟨_,h⟩ =>
    (canonicalJson_ok.mp h).imp fun _ => And.left⟩

end Records

/-- A Source with encodable text is read back; a Snapshot is exactly when its numbers have at
most 4300 digits. Both readers are strict on exactly the admissible bytes, of which one record
has one form. (A record's own bytes nest one level, which no recursion limit refuses.) -/
theorem strict_records_iff (deep : Bytes → Bool) :
    (∀ s : Source, Encodable s.locator → RoundTrips Source.fromCanonical Source.toCanonical s) ∧
    (∀ s : Snapshot, RoundTrips Snapshot.fromCanonical Snapshot.toCanonical s ↔
      (natText s.size).length ≤ maxStrDigits ∧ (natText s.fileCount).length ≤ maxStrDigits) ∧
    (∀ data, StrictOn (limited deep Source.fromCanonical) Source.toCanonical data ↔
      sourceRecord.Admissible deep data) ∧
    (∀ data, StrictOn (limited deep Snapshot.fromCanonical) Snapshot.toCanonical data ↔
      snapshotRecord.Admissible deep data) ∧
    (∀ (s : Source) (data data' : Bytes), sourceRecord.Admissible deep data →
      sourceRecord.Admissible deep data' → Source.fromCanonical data = .ok s →
      Source.fromCanonical data' = .ok s → data = data') ∧
    ∀ (s : Snapshot) (data data' : Bytes), snapshotRecord.Admissible deep data →
      snapshotRecord.Admissible deep data' → Snapshot.fromCanonical data = .ok s →
      Snapshot.fromCanonical data' = .ok s → data = data' := by
  rw [← sourceRecord_from,← snapshotRecord_from]
  refine ⟨fun s hs => ?_,fun s => ?_,fun data => RecordType.strictOn_iff (T := sourceRecord) deep,
    fun data => RecordType.strictOn_iff (T := snapshotRecord) deep,
    fun s data data' h h' => h.one_form h',fun s data data' h h' => h.one_form h'⟩
  · obtain ⟨data,hd⟩ := toCanonical_ok.mp (Source.writable hs)
    exact ⟨data,hd,sourceRecord_from ▸ Source.fromCanonical_toCanonical hd⟩
  · rw [← Snapshot.writable_iff,toCanonical_ok]
    constructor
    · rintro ⟨data,hd,-⟩
      exact ⟨data,hd⟩
    · rintro ⟨data,hd⟩
      exact ⟨data,hd,snapshotRecord_from ▸ Snapshot.fromCanonical_toCanonical hd⟩

/-- A canonical Source with true for its version, and one whose locator is a lone surrogate. -/
def sampleTrueVersion : PyStr :=
  lit "\x7b\"locator\":\"x\",\"schema\":\"stele.source\",\"schema_version\":true\x7d"

def sampleSurrogate : PyStr :=
  lit "\x7b\"locator\":\"\\ud800\",\"schema\":\"stele.source\",\"schema_version\":1\x7d"

/-- A Source record with a lone surrogate for its locator. -/
def surrogateLocated : Option PyVal → Bool
  | some (.dict kvs) => (getStr kvs "locator").pyEq (.str [0xD800]) &&
    (getStr kvs "schema").pyEq (.str sourceSchema) &&
    (getStr kvs "schema_version").pyEq (.int schemaVersion) && decide (kvs.length = 3)
  | _ => false

lemma sampleSurrogate_object : ∃ kvs, sourceRecord.Object (utf8 sampleSurrogate) kvs ∧
    ¬Clean (.dict kvs) := by
  have hl : (decode (utf8 sampleSurrogate)).bind loads = loads sampleSurrogate := by
    rw [sampleSurrogate,decode_utf8 (encodable_lit _),Option.bind_some]
  have h : surrogateLocated (loads sampleSurrogate) = true := by decide +kernel
  unfold surrogateLocated at h
  split at h
  · rename_i kvs hk
    simp only [Bool.and_eq_true,decide_eq_true_eq] at h
    obtain ⟨⟨⟨hloc,hs⟩,hv⟩,hlen⟩ := h
    cases hf : PyVal.find kvs (.str (lit "locator")) with
    | none =>
      rw [getStr,hf] at hloc
      simp [PyVal.pyEq] at hloc
    | some w =>
      refine ⟨kvs,⟨hl.trans hk,hs,hv,hlen,?_⟩,fun hc => ?_⟩
      · intro f hm
        obtain rfl := List.mem_singleton.mp hm
        rw [hf]
        rfl
      · rw [getStr,hf,Option.getD_some] at hloc
        have hw : w = .str [0xD800] := by
          cases w with
          | str s => simpa [PyVal.pyEq] using hloc
          | float f => cases hf : f.num <;> simp [PyVal.pyEq,PyVal.num,hf] at hloc
          | _ => simp [PyVal.pyEq,PyVal.num] at hloc
        have hmem := (find_str (loads_loaded hk).strDict.nodup).mp hf
        have he := (clean_dict.mp hc _ hmem).2
        rw [hw,clean_str] at he
        exact absurd he (by decide)
  · cases h

/-- The readers return a record with other bytes, raise UnicodeEncodeError, and a Snapshot may be
too large to be written. -/
theorem strict_records_fail : ¬StrictOn Source.fromCanonical Source.toCanonical (utf8 sampleTrueVersion) ∧
    ¬StrictOn Source.fromCanonical Source.toCanonical (utf8 sampleSurrogate) ∧
    ∃ s : Snapshot, ¬RoundTrips Snapshot.fromCanonical Snapshot.toCanonical s := by
  have hstrict : ∀ data, StrictOn Source.fromCanonical Source.toCanonical data →
      sourceRecord.Admissible (fun _ => false) data := fun data h =>
    (RecordType.strictOn_iff (T := sourceRecord) fun _ => false).mp (sourceRecord_from ▸ h)
  refine ⟨fun h => ?_,fun h => ?_,?_⟩
  · refine (hstrict _ h).version ⟨lit "x",by decide⟩ (.bool true) (Or.inl rfl) ?_
    exact canonicalJson_ok.mpr ⟨sampleTrueVersion,by decide +kernel,rfl⟩
  · obtain ⟨kvs,hobj,hc⟩ := sampleSurrogate_object
    exact hc ((hstrict _ h).clean kvs hobj)
  · refine ⟨⟨.file,Hasher.checksum.hexdigest [],10^maxStrDigits,1,Hasher.checksum.digest_form _,fun _ => rfl⟩,?_⟩
    rintro ⟨data,hd,-⟩
    have hn := (Snapshot.writable_iff.mp (toCanonical_ok.mpr ⟨data,hd⟩)).1
    rw [natText_length] at hn
    have := (Nat.digits_length_le_iff (by decide) _).mp ((le_max_right _ _).trans hn)
    exact absurd this (lt_irrefl _)

end Stele
