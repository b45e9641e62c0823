import Stele.Archive.StrictRecords
import Stele.Extraction.Parts
import Stele.Python.JsonEqual

/-! The Extraction codec: exactly which extractions are read back equal, and on exactly which
bytes the reader is strict. -/
namespace Stele
open Python

section Dicts

variable {kvs : List (PyKey × PyVal)} {fs : List PyStr}

lemma getItem_mem (hs : StrDict kvs) {p : PyKey × PyVal} (hp : p ∈ kvs) {f : PyStr} (hf : p.1 = .str f) :
    getItem kvs f = p.2 := by
  rw [getItem,(find_str (v := p.2) hs.nodup).mpr (by rw [← hf]; exact hp),Option.getD_some]

/-- A dict is clean when its fields are. -/
lemma clean_fields (hs : StrDict kvs) (hk : ∀ p ∈ kvs, ∃ f ∈ fs, p.1 = .str f)
    (h : ∀ f ∈ fs, Encodable f ∧ Clean (getItem kvs f)) : Clean (.dict kvs) := by
  refine clean_dict.mpr fun p hp => ?_
  obtain ⟨f,hf,he⟩ := hk p hp
  obtain ⟨hfe,hc⟩ := h f hf
  rw [getItem_mem hs hp he] at hc
  refine ⟨fun s hs => ?_,hc⟩
  rw [he] at hs
  exact PyKey.str.inj hs ▸ hfe

lemma Writable.getItem (h : Writable (.dict kvs)) (k : PyStr) : Writable (getItem kvs k) := by
  rw [Python.getItem]
  cases hf : PyVal.find kvs (.str k) with
  | none => exact writable_none
  | some v =>
    rw [PyVal.find,Option.map_eq_some_iff] at hf
    obtain ⟨p,hp,rfl⟩ := hf
    exact h.item (List.mem_of_find?_eq_some hp)

lemma writable_float_iff {f : PyFloat} : Writable (.float f) ↔ ∃ x, f = .finite x := by
  refine ⟨fun h => clean_float.mp h.clean,?_⟩
  rintro ⟨x,rfl⟩
  exact writable_float x

end Dicts

section Written

lemma NameVersion.writable_iff {n : NameVersion} :
    Writable n.toPy ↔ Encodable n.name ∧ Encodable n.version := by
  rw [toPy,writable_keys]
  · simp [writable_str_iff]
  · simp

/-- Encodable text, and numbers of at most 4300 digits. -/
def Place.Plain : Place → Prop
  | .range start stop => (natText start).length ≤ maxStrDigits ∧ (natText stop).length ≤ maxStrDigits
  | .pointer p r => Encodable p ∧ Encodable r

lemma Extraction.Anchor.writable_iff {a : Extraction.Anchor} :
    Writable a.toJson ↔ Encodable a.artifact ∧ a.place.Plain := by
  have hd := digest_encodable a.digest_form
  rw [toJson]
  cases a.place with
  | range start stop =>
    rw [writable_keys]
    · simp [writable_str_iff,writable_elems,writable_nat_iff,hd,Place.Plain]
    · simp
  | pointer p r =>
    rw [writable_keys]
    · simp [writable_str_iff,hd,Place.Plain]
    · simp

namespace ExtractionUnit

lemma writable_natPy_iff {n : Option ℕ} :
    Writable (natPy n) ↔ ∀ m ∈ n, (natText m).length ≤ maxStrDigits := by
  cases n with
  | none => simp [natPy,writable_none]
  | some m => simp [natPy,writable_nat_iff]

/-- A unit is written when its parts are; its kind and its attributes always are. -/
lemma writable_iff {u : ExtractionUnit} : Writable u.toJson ↔
    (Encodable u.id ∧ Encodable u.text) ∧ Writable (.int u.order) ∧ Writable (natPy u.page) ∧
      Writable (bboxPy u.bbox) ∧ Writable (natPy u.level) ∧ Writable u.parent ∧ Writable u.anchor.toJson := by
  have hkind : Encodable u.kind.value := by cases u.kind <;> exact encodable_lit _
  have hattr : Writable (.dict u.attributes) := u.attributes_json
  rw [toJson,writable_keys]
  · simp only [List.forall_mem_cons,writable_str_iff,hkind,hattr,List.not_mem_nil,false_implies,
      implies_true,and_true,true_and,and_assoc]
  · simp

end ExtractionUnit

lemma Extraction.writable_iff {e : Extraction} : Writable e.toPy ↔ Encodable e.recordId ∧
    (Encodable e.parser.name ∧ Encodable e.parser.version) ∧
    (Encodable e.normalizer.name ∧ Encodable e.normalizer.version) ∧
    ∀ u ∈ e.units, Writable u.toJson := by
  have hs : Writable schemaName := writable_str (encodable_lit _)
  have hv : Writable schemaVersion := writable_int (by decide)
  have hh : Encodable e.artifactHash := digest_encodable e.artifactHash_form
  have hsh : Writable (RunConditions.optionPy .str e.sourceHash) := by
    have hf := e.sourceHash_form
    cases hsome : e.sourceHash with
    | none => exact writable_none
    | some s => exact writable_str (digest_encodable (hf s hsome))
  rw [toPy,writable_keys]
  · simp only [List.forall_mem_cons,writable_str_iff,hs,hv,hh,hsh,NameVersion.writable_iff,
      writable_elems,List.forall_mem_map,List.not_mem_nil,false_implies,implies_true,and_true,true_and]
  · simp

end Written

section Objects

variable {kvs : List (PyKey × PyVal)} {u : ExtractionUnit} {e : Extraction} {a : Extraction.Anchor}

lemma nearest_ne_nan (neg : Bool) (num den : ℕ) : nearest neg num den ≠ .nan := by
  have hm : ∀ m k, mkFinite neg m k ≠ .nan := by
    intro m k
    unfold mkFinite
    split_ifs <;> simp
  exact hm _ _

lemma floatOfInt_finite {i : ℤ} {f : PyFloat} (h : floatOfInt i = some f) : ∃ x, f = .finite x := by
  -- the function is unfolded, not its value: the kernel would compute the rounding
  obtain ⟨g,hg⟩ : ∃ g, floatOfInt = g := ⟨_,rfl⟩
  rw [hg] at h
  delta floatOfInt at hg
  rw [← hg] at h
  have hn := nearest_ne_nan (decide (i < 0)) i.natAbs 1
  revert h hn
  beta_reduce
  generalize nearest (decide (i < 0)) i.natAbs 1 = r
  intro h hn
  cases r with
  | finite x => exact ⟨x,(Option.some.inj h).symm⟩
  | inf neg => cases h
  | nan => exact absurd rfl hn

/-- A number is clean exactly when its float is written. -/
lemma readNumber_clean {v : PyVal} {f : PyFloat} (h : readNumber v = some (.ok f)) :
    Clean v ↔ ∃ x, f = .finite x := by
  rcases readNumber_cases h with ⟨g,rfl,hg⟩ | ⟨i,g,rfl,hi,hg⟩ | ⟨i,rfl,-,he⟩
  · obtain rfl := Except.ok.inj hg
    exact clean_float
  · obtain rfl := Except.ok.inj hg
    simp [Clean,floatOfInt_finite hi]
  · cases he

lemma bboxPy_writable {b : Bbox} : Writable (ExtractionUnit.bboxPy (some b)) ↔
    ∀ f ∈ [b.1,b.2.1,b.2.2.1,b.2.2.2], ∃ x, f = .finite x := by
  simp [ExtractionUnit.bboxPy,writable_elems,writable_float_iff]

/-- A bbox is clean exactly when the floats that are kept of it are written. -/
lemma readBbox_clean {id : PyStr} {v : PyVal} {b : Option Bbox} (h : readBbox id v = .ok b) :
    Clean v ↔ Writable (ExtractionUnit.bboxPy b) := by
  rcases readBbox_ok h with ⟨rfl,rfl⟩ | ⟨x,xs,rfl,hv,hx⟩
  · simp [Clean,ExtractionUnit.bboxPy,writable_none]
  · have hlist : Clean v ↔ ∀ y ∈ xs, Clean y := by
      rcases hv with rfl | rfl
      · exact clean_list
      · exact clean_tuple.trans clean_list
    rw [hlist,bboxPy_writable]
    constructor
    · intro hc f hf
      obtain ⟨y,hy,hr⟩ := forall₂_mem hx.flip hf
      exact (readNumber_clean hr).mp (hc y hy)
    · intro hw y hy
      obtain ⟨f,hf,hr⟩ := forall₂_mem hx hy
      exact (readNumber_clean hr).mpr (hw f hf)

namespace Extraction.Anchor.Object

lemma writable (h : a.Object kvs) (hw : Writable (.dict kvs)) : Writable a.toJson := by
  refine writable_iff.mpr ⟨?_,?_⟩
  · exact encodable_of_writable (h.artifact ▸ hw.getItem _)
  · have hp := h.place
    cases hpl : a.place with
    | range start stop =>
      rw [hpl] at hp
      have hr : Writable (.list [.int start,.int stop]) := hp.1 ▸ hw.getItem _
      exact ⟨writable_nat_iff.mp (hr.elem (by simp)),writable_nat_iff.mp (hr.elem (by simp))⟩
    | pointer p r =>
      rw [hpl] at hp
      exact ⟨encodable_of_writable (hp.2.1 ▸ hw.getItem _),encodable_of_writable (hp.2.2 ▸ hw.getItem _)⟩

lemma clean (h : a.Object kvs) (hs : StrDict kvs) (hw : Writable a.toJson) : Clean (.dict kvs) := by
  obtain ⟨ha,hpl⟩ := writable_iff.mp hw
  have hp := h.place
  refine clean_fields hs h.keys ?_
  simp only [List.forall_mem_cons,encodable_lit,true_and,List.not_mem_nil,false_implies,implies_true,
    and_true,h.artifact,h.digest,clean_str]
  refine ⟨ha,digest_encodable a.digest_form,?_⟩
  cases hplace : a.place with
  | range start stop =>
    rw [hplace] at hp
    rw [hp.1,hp.2.1,hp.2.2]
    simp [Clean,CleanList]
  | pointer p r =>
    rw [hplace] at hp hpl
    rw [hp.1,hp.2.1,hp.2.2]
    simpa [Clean] using show Encodable p ∧ Encodable r from hpl

end Extraction.Anchor.Object

namespace ExtractionUnit

lemma Object.writable (h : u.Object kvs) (hw : Writable (.dict kvs)) : Writable u.toJson := by
  obtain ⟨aks,ha,haobj⟩ := Extraction.Anchor.fromJson_ok h.anchor
  refine writable_iff.mpr ⟨⟨?_,?_⟩,?_,?_,?_,?_,?_,?_⟩
  · exact encodable_of_writable (h.made.id ▸ hw.getItem _)
  · exact encodable_of_writable (h.made.text ▸ hw.getItem _)
  · exact h.made.order ▸ hw.getItem _
  · exact h.made.page ▸ hw.getItem _
  · exact (readBbox_clean h.made.bbox).mp (hw.getItem _).clean
  · exact h.made.level ▸ hw.getItem _
  · exact h.made.parent ▸ hw.getItem _
  · exact haobj.writable (ha ▸ hw.getItem _)

lemma natPy_clean (n : Option ℕ) : Clean (natPy n) := by cases n <;> simp [natPy,Clean]

lemma Object.clean (h : u.Object kvs) (hl : (PyVal.dict kvs).Loaded) (hw : Writable u.toJson) :
    Clean (.dict kvs) := by
  obtain ⟨aks,ha,haobj⟩ := Extraction.Anchor.fromJson_ok h.anchor
  obtain ⟨⟨hid,htext⟩,-,-,hbbox,-,hparent,hanchor⟩ := writable_iff.mp hw
  have hattr : Writable (.dict u.attributes) := u.attributes_json
  have haks : StrDict aks := by
    have := hl.getItem (lit "anchor")
    rw [← Python.getItem,ha] at this
    exact this.strDict
  have hkind : Encodable u.kind.value := by cases u.kind <;> exact encodable_lit _
  refine clean_fields hl.strDict h.keys ?_
  simp only [fields,List.forall_mem_cons,encodable_lit,true_and,List.not_mem_nil,false_implies,
    implies_true,and_true,h.made.id,h.made.kind,h.made.text,h.made.order,h.made.page,h.made.level,
    h.made.parent,h.made.attributes,ha,clean_str,natPy_clean,hid,htext,hkind,hattr.clean,hparent.clean,
    readBbox_clean h.made.bbox,hbbox,haobj.clean haks hanchor]
  simp [Clean]

end ExtractionUnit

namespace Extraction.Object

lemma writable (h : e.Object kvs) (hw : Writable (.dict kvs)) : Writable e.toPy := by
  have pair : ∀ {k : PyStr} {n : NameVersion}, NameVersion.read (getItem kvs k) = some n →
      Encodable n.name ∧ Encodable n.version := by
    intro k n hn
    obtain ⟨nks,hnks,-,hname,hversion⟩ := NameVersion.read_ok hn
    have hwn : Writable (.dict nks) := hnks ▸ hw.getItem _
    exact ⟨encodable_of_writable (hname ▸ hwn.getItem _),encodable_of_writable (hversion ▸ hwn.getItem _)⟩
  obtain ⟨us,hus,hunits⟩ := h.units
  refine Extraction.writable_iff.mpr ⟨?_,pair h.parser,pair h.normalizer,fun u hu => ?_⟩
  · exact encodable_of_writable (h.recordId ▸ hw.getItem _)
  · obtain ⟨w,hwm,hwu⟩ := forall₂_mem hunits.flip hu
    obtain ⟨uks,rfl,hobj⟩ := ExtractionUnit.fromJson_object hwu
    have hlist : Writable (.list us) := hus ▸ hw.getItem _
    exact hobj.writable (hlist.elem hwm)

lemma clean (h : e.Object kvs) (hl : (PyVal.dict kvs).Loaded) (hw : Writable e.toPy) :
    Clean (.dict kvs) := by
  obtain ⟨hr,hp,hn,hu⟩ := Extraction.writable_iff.mp hw
  have pair : ∀ {k : PyStr} {n : NameVersion}, NameVersion.read (getItem kvs k) = some n →
      Encodable n.name ∧ Encodable n.version → Clean (getItem kvs k) := by
    intro k n hn he
    obtain ⟨nks,hnks,hkeys,hname,hversion⟩ := NameVersion.read_ok hn
    have hnl := hl.getItem k
    rw [← Python.getItem,hnks] at hnl
    rw [hnks]
    refine clean_fields hnl.strDict hkeys ?_
    simp [hname,hversion,he]
  have hschema : Clean (getItem kvs (lit "schema")) := by
    rw [pyEq_str.mp h.schema]
    exact clean_str.mpr (encodable_lit _)
  have hversion : Clean (getItem kvs (lit "schema_version")) := by
    rcases RecordType.eq_one h.version with hv | hv | hv
    · simp [hv,Clean]
    · simp [hv,Clean]
    · obtain ⟨x,hx⟩ := (RecordType.pyEq_one (Or.inr rfl)).1
      simp [hv,hx]
  have hsource : Clean (RunConditions.optionPy .str e.sourceHash) := by
    have hf := e.sourceHash_form
    cases hs : e.sourceHash with
    | none => simp [RunConditions.optionPy,Clean]
    | some s => exact clean_str.mpr (digest_encodable (hf s hs))
  obtain ⟨us,hus,hunits⟩ := h.units
  have hlist : Clean (.list us) := by
    refine clean_list.mpr fun w hwm => ?_
    obtain ⟨u,hum,hwu⟩ := forall₂_mem hunits hwm
    obtain ⟨uks,rfl,hobj⟩ := ExtractionUnit.fromJson_object hwu
    have hul := hl.getItem (lit "units")
    rw [← Python.getItem,hus] at hul
    exact hobj.clean (hul.elem hwm) (hu u hum)
  refine clean_fields hl.strDict (hasFields_keys h.fields) ?_
  simp only [Extraction.fields,List.forall_mem_cons,encodable_lit,List.not_mem_nil,false_implies,implies_true,
    and_true,hschema,hversion,h.recordId,h.artifactHash,h.sourceHash,hus,clean_str,hr,hsource,
    hlist,digest_encodable e.artifactHash_form,pair h.parser hp,pair h.normalizer hn]

end Extraction.Object

end Objects

section Equality

variable {e f : Extraction} {u v : ExtractionUnit}

/-- The fields, as == compares them. -/
def Extraction.Anchor.values (a : Extraction.Anchor) : PyVal :=
  .tuple [.str a.artifact,.str a.digest,
    match a.place.toArgs.1 with
    | none => .none
    | some (start,stop) => .tuple [start,stop],a.place.toArgs.2.1,a.place.toArgs.2.2]

namespace ExtractionUnit

def bboxValues : Option Bbox → PyVal
  | none => .none
  | some (a,b,c,d) => .tuple [.float a,.float b,.float c,.float d]

def values (u : ExtractionUnit) : PyVal :=
  .tuple [.str u.id,.str u.kind.value,.str u.text,.int u.order,u.anchor.values,natPy u.page,
    bboxValues u.bbox,natPy u.level,u.parent,.dict u.attributes]

/-- Everything of the unit can be written, and its attributes are JSON: no tuples in them, and
only distinct strings for keys. -/
structure Plain (u : ExtractionUnit) : Prop where
  id : Encodable u.id
  text : Encodable u.text
  artifact : Encodable u.anchor.artifact
  place : u.anchor.place.Plain
  order : (natText u.order).length ≤ maxStrDigits
  page : ∀ n ∈ u.page, (natText n).length ≤ maxStrDigits
  level : ∀ n ∈ u.level, (natText n).length ≤ maxStrDigits
  bbox : ∀ b ∈ u.bbox, ∀ f ∈ [b.1,b.2.1,b.2.2.1,b.2.2.2], ∃ x, f = .finite x
  attributes : (PyVal.dict u.attributes).IsJson

end ExtractionUnit

namespace Extraction

def values (e : Extraction) : PyVal :=
  .tuple [.str e.recordId,.str e.artifactHash,RunConditions.optionPy .str e.sourceHash,e.parser.toPy,
    e.normalizer.toPy,.tuple (e.units.map ExtractionUnit.values)]

/-- What to_canonical writes is read back, and the two are ==. -/
def ReadsBack (e : Extraction) : Prop :=
  ∃ data f, e.toCanonical = .ok data ∧ fromCanonical data = .ok f ∧ e.values.pyEq f.values = true

/-- All text is encodable, numbers have at most 4300 digits, and the units are plain. -/
structure Plain (e : Extraction) : Prop where
  recordId : Encodable e.recordId
  parser : Encodable e.parser.name ∧ Encodable e.parser.version
  normalizer : Encodable e.normalizer.name ∧ Encodable e.normalizer.version
  units : ∀ u ∈ e.units, u.Plain

end Extraction

lemma bboxPy_plain {b : Option Bbox} : Writable (ExtractionUnit.bboxPy b) ↔
    ∀ c ∈ b, ∀ f ∈ [c.1,c.2.1,c.2.2.1,c.2.2.2], ∃ x, f = .finite x := by
  cases b with
  | none => simp [ExtractionUnit.bboxPy,writable_none]
  | some b => simp [bboxPy_writable]

lemma ExtractionUnit.plain_iff (hp : Writable u.parent) :
    u.Plain ↔ Writable u.toJson ∧ (PyVal.dict u.attributes).IsJson := by
  rw [writable_iff,Extraction.Anchor.writable_iff,writable_natPy_iff,writable_natPy_iff,writable_nat_iff,
    bboxPy_plain]
  constructor
  · intro h
    exact ⟨⟨⟨h.id,h.text⟩,h.order,h.page,h.bbox,h.level,hp,h.artifact,h.place⟩,h.attributes⟩
  · rintro ⟨⟨⟨hi,ht⟩,ho,hpg,hb,hl,-,ha,hpl⟩,hj⟩
    exact ⟨hi,ht,ha,hpl,ho,hpg,hl,hb,hj⟩

/-- A parent is None or a unit's id. -/
lemma Extraction.parent_writable (e : Extraction) (hi : ∀ u ∈ e.units, Encodable u.id) :
    ∀ u ∈ e.units, Writable u.parent := by
  intro u hu
  have hp := e.parents u hu
  unfold ExtractionUnit.parentOk at hp
  cases hpar : u.parent with
  | none => exact writable_none
  | str p =>
    simp only [hpar,List.any_eq_true,decide_eq_true_eq] at hp
    obtain ⟨v,hv,rfl,-⟩ := hp
    exact writable_str (hi v hv)
  | _ => simp [hpar] at hp

lemma Extraction.plain_iff : e.Plain ↔
    Writable e.toPy ∧ ∀ u ∈ e.units, (PyVal.dict u.attributes).IsJson := by
  rw [Extraction.writable_iff]
  constructor
  · intro h
    have hpar := e.parent_writable fun u hu => (h.units u hu).id
    exact ⟨⟨h.recordId,h.parser,h.normalizer,fun u hu => (((ExtractionUnit.plain_iff (hpar u hu)).mp
      (h.units u hu)).1)⟩,fun u hu => (h.units u hu).attributes⟩
  · rintro ⟨⟨hr,hp,hn,hu⟩,hj⟩
    have hpar := e.parent_writable fun u hum => (ExtractionUnit.writable_iff.mp (hu u hum)).1.1
    exact ⟨hr,hp,hn,fun u hum => (ExtractionUnit.plain_iff (hpar u hum)).mpr ⟨hu u hum,hj u hum⟩⟩

lemma pyEq_natPy (n : Option ℕ) : (ExtractionUnit.natPy n).pyEq (ExtractionUnit.natPy n) = true := by
  cases n <;> simp [ExtractionUnit.natPy,PyVal.pyEq,PyVal.num]

lemma pyEq_bbox {b : Option Bbox} (h : Writable (ExtractionUnit.bboxPy b)) :
    (ExtractionUnit.bboxValues b).pyEq (ExtractionUnit.bboxValues b) = true := by
  cases b with
  | none => rfl
  | some b =>
    have hf : ∀ g : PyFloat, (∃ x, g = .finite x) → (PyVal.float g).pyEq (.float g) = true := by
      rintro _ ⟨x,rfl⟩
      simp [PyVal.pyEq,PyVal.num,PyFloat.num]
    rw [bboxPy_writable] at h
    simp only [List.forall_mem_cons] at h
    exact pyEq_tuple.mpr (.cons (hf _ h.1) (.cons (hf _ h.2.1) (.cons (hf _ h.2.2.1)
      (.cons (hf _ h.2.2.2.1) .nil))))

lemma pyEq_anchor (a : Extraction.Anchor) : a.values.pyEq a.values = true := by
  cases hp : a.place <;> simp [Extraction.Anchor.values,hp,Place.toArgs,PyVal.pyEq,PyVal.pyEqList,PyVal.num]

/-- A unit that differs in the order of its attributes only is ==. -/
lemma ExtractionUnit.Same.pyEq (h : u.Same v) (hw : Writable u.toJson)
    (hj : (PyVal.dict u.attributes).IsJson) (hp : u.parent.pyEq u.parent = true) :
    u.values.pyEq v.values = true := by
  have hattr : (PyVal.dict u.attributes).pyEq (.dict v.attributes) = true := by
    rw [h.attributes]
    exact pyEq_toJson hj
  have hb := pyEq_bbox (ExtractionUnit.writable_iff.mp hw).2.2.2.1
  have hstr : ∀ s : PyStr, (PyVal.str s).pyEq (.str s) = true := fun s => pyEq_str.mpr rfl
  have hint : (PyVal.int u.order).pyEq (.int u.order) = true := by simp [PyVal.pyEq,PyVal.num]
  rw [values,values,h.id,h.kind,h.text,h.order,h.anchor,h.page,h.bbox,h.level,h.parent]
  rw [PyVal.pyEq]
  simp only [PyVal.pyEqList,hstr,hint,pyEq_anchor,pyEq_natPy,hb,hp,hattr,Bool.and_true,List.isEmpty_nil]

namespace Extraction

/-- An extraction is what the constructor makes of its own parts. -/
lemma make_self (e : Extraction) {p n : PyVal} (hp : NameVersion.read p = some e.parser)
    (hn : NameVersion.read n = some e.normalizer) : make (.str e.recordId) (.str e.artifactHash)
      (RunConditions.optionPy .str e.sourceHash) p n e.units = .ok e := by
  have hs : optionStr (RunConditions.optionPy .str e.sourceHash) = some e.sourceHash := by
    cases e.sourceHash <;> rfl
  simp only [make,dif_neg e.recordId_ne,dif_pos e.artifactHash_form,hs,dif_pos e.sourceHash_form,hp,hn,
    dif_pos e.ids,dif_pos e.orders,dif_pos e.parents]

lemma Object.ofObject {kvs : List (PyKey × PyVal)} (h : e.Object kvs) : ofObject kvs = .ok e := by
  obtain ⟨us,hus,hunits⟩ := h.units
  rw [ofObject_units h.fields h.schema h.version hus,mapM_ok.mpr hunits,h.recordId,h.artifactHash,h.sourceHash]
  exact e.make_self h.parser h.normalizer

/-- What is returned was read from an object, and has exactly these bytes. -/
lemma fromCanonical_ok {data : Bytes} (h : fromCanonical data = .ok e) :
    ∃ kvs, (decode data).bind loads = some (.dict kvs) ∧ e.Object kvs ∧ e.toCanonical = .ok data := by
  unfold fromCanonical at h
  split at h
  · cases h
  · rename_i kvs hl
    obtain ⟨f,hf,h⟩ := except_bind_ok.mp h
    obtain ⟨back,hb,h⟩ := except_bind_ok.mp h
    split_ifs at h with hd
    · cases h
    obtain rfl := Except.ok.inj h
    have hodd : ¬OddUnit kvs := by
      intro ho
      obtain ⟨d,hd,-⟩ := ho.error
      rw [hf] at hd
      cases hd
    rcases ofObject_cases hodd with ⟨g,hg,hobj⟩ | ⟨p,hp⟩
    · obtain rfl := Except.ok.inj (hf.symm.trans hg)
      exact ⟨kvs,hl,hobj,hb.trans (congrArg _ (not_not.mp hd))⟩
    · rw [hf] at hp
      cases hp
  · cases h

/-- Each unit that is read back was read from what canonical JSON makes of the one written. -/
lemma units_image {data : Bytes} (hd : e.toCanonical = .ok data) (hf : fromCanonical data = .ok f) :
    List.Forall₂ (fun u v => ExtractionUnit.fromJson (canonicalImage u.toJson) = .ok v) e.units f.units := by
  obtain ⟨kvs,hl,hobj,-⟩ := fromCanonical_ok hf
  have himage : canonicalImage (.dict e.items) = .dict kvs :=
    Option.some.inj ((loads_canonicalJson hd).symm.trans hl)
  obtain ⟨us,hus,hunits⟩ := hobj.units
  have hget := getItem_image e.items_strDict himage (lit "units")
  rw [hus] at hget
  have hlist : getItem e.items (lit "units") = .list (e.units.map ExtractionUnit.toJson) := rfl
  rw [hlist,canonicalImage,PyVal.toJson,toJsonList_eq] at hget
  rw [PyVal.list.inj hget,List.map_map,List.forall₂_map_left_iff] at hunits
  exact hunits

/-- An extraction is read back equal exactly when it is plain. -/
theorem readsBack_iff : e.ReadsBack ↔ e.Plain := by
  rw [plain_iff]
  constructor
  · rintro ⟨data,f,hd,hf,heq⟩
    obtain ⟨t,ht,-⟩ := canonicalJson_ok.mp hd
    refine ⟨⟨t,ht⟩,fun u hu => ?_⟩
    have hvalues : List.Forall₂ (fun u v : ExtractionUnit => u.values.pyEq v.values = true) e.units f.units := by
      rw [values,values,PyVal.pyEq] at heq
      simp only [PyVal.pyEqList,Bool.and_eq_true] at heq
      obtain ⟨-,-,-,-,-,hunits,-⟩ := heq
      exact List.forall₂_map_right_iff.mp (List.forall₂_map_left_iff.mp (pyEq_tuple.mp hunits))
    obtain ⟨v,-,hv,hread⟩ := forall₂_mem (forall₂_both hvalues (units_image hd hf)) hu
    obtain ⟨kws,hk,hobj⟩ := ExtractionUnit.fromJson_object hread
    have hattr : canonicalImage (.dict u.attributes) = .dict v.attributes := by
      rw [← hobj.made.attributes,getItem_image u.items_strDict hk]
      rfl
    have hpy : (PyVal.dict u.attributes).pyEq (.dict v.attributes) = true := by
      rw [ExtractionUnit.values,ExtractionUnit.values,PyVal.pyEq] at hv
      simp only [PyVal.pyEqList,Bool.and_eq_true] at hv
      obtain ⟨-,-,-,-,-,-,-,-,-,hattributes,-⟩ := hv
      exact hattributes
    rw [← hattr] at hpy
    obtain ⟨w,hw,-⟩ := Stele.writable_iff.mp u.attributes_json
    exact isJson_of_pyEq rfl hw hpy
  · rintro ⟨hw,hj⟩
    obtain ⟨data,hd⟩ := toCanonical_ok.mp hw
    obtain ⟨f,hf,hsame⟩ := e.fromCanonical_toCanonical (fun u hu => (hj u hu).loaded) hd
    refine ⟨data,f,hd,hf,?_⟩
    have hunits := Extraction.writable_iff.mp hw
    have hsource : (RunConditions.optionPy .str e.sourceHash).pyEq (RunConditions.optionPy .str e.sourceHash) =
        true := by cases e.sourceHash <;> simp [RunConditions.optionPy,PyVal.pyEq]
    have hpair : ∀ n : NameVersion, n.toPy.pyEq n.toPy = true := by
      intro n
      simp [NameVersion.toPy,PyVal.pyEq,PyVal.pyEqItems,PyVal.find,lit]
    rw [values,values,hsame.recordId,hsame.artifactHash,hsame.sourceHash,hsame.parser,hsame.normalizer]
    refine pyEq_tuple.mpr (.cons (pyEq_str.mpr rfl) (.cons (pyEq_str.mpr rfl) (.cons hsource
      (.cons (hpair _) (.cons (hpair _) (.cons (pyEq_tuple.mpr ?_) .nil))))))
    rw [List.forall₂_map_left_iff,List.forall₂_map_right_iff]
    have hparent : ∀ u ∈ e.units, u.parent.pyEq u.parent = true := by
      intro u hu
      have hp := e.parents u hu
      unfold ExtractionUnit.parentOk at hp
      cases hpar : u.parent with
      | none => rfl
      | str p => exact pyEq_str.mpr rfl
      | _ => simp [hpar] at hp
    refine (forall₂_mem_imp hsame.units.flip fun u hu v hs => ?_).flip
    exact hs.pyEq (hunits.2.2.2 u hu) (hj u hu) (hparent u hu)

end Extraction

end Equality

section Strict

variable {deep : Bytes → Bool} {data : Bytes}

namespace Extraction

/-- The bytes are the canonical ones of the extraction that is returned, or the contract's own
error is raised. -/
def StrictOn (deep : Bytes → Bool) (data : Bytes) : Prop :=
  (∃ e, limited deep fromCanonical data = .ok e ∧ e.toCanonical = .ok data) ∨
    ∃ p, limited deep fromCanonical data = .error (.extractionFormat p)

/-- Not nested too deeply; no unit of an unhashable kind or with a bbox too large for floats is
reached; and an object of an extraction's fields has no lone surrogate, NaN or infinity in it. -/
structure Admissible (deep : Bytes → Bool) (data : Bytes) : Prop where
  depth : deep data = false
  units : ∀ kvs, (decode data).bind loads = some (.dict kvs) → ¬OddUnit kvs
  clean : ∀ kvs, (decode data).bind loads = some (.dict kvs) → ∀ e : Extraction, e.Object kvs →
    Clean (.dict kvs)

lemma fromCanonical_object {kvs : List (PyKey × PyVal)} (h : (decode data).bind loads = some (.dict kvs)) :
    fromCanonical data = (do
      let e ← ofObject kvs
      let back ← e.toCanonical
      if back ≠ data then formatError .notCanonical else return e) := by
  rw [fromCanonical,h]

/-- What can be written is the same bytes, or is refused as not canonical. -/
lemma Object.strictOn {kvs : List (PyKey × PyVal)} {e : Extraction}
    (hl : (decode data).bind loads = some (.dict kvs)) (h : e.Object kvs) (hw : Writable e.toPy) :
    (fromCanonical data = .ok e ∧ e.toCanonical = .ok data) ∨
      fromCanonical data = formatError .notCanonical := by
  obtain ⟨back,hb⟩ := toCanonical_ok.mp hw
  have hto : e.toCanonical = .ok back := hb
  have hstep : fromCanonical data = if back ≠ data then formatError .notCanonical else .ok e := by
    rw [fromCanonical_object hl,h.ofObject]
    change (do let back ← e.toCanonical; if back ≠ data then formatError .notCanonical else pure e) = _
    rw [hto]
    rfl
  by_cases hd : back = data
  · obtain rfl := hd
    exact Or.inl ⟨hstep.trans (if_neg (by simp)),hto⟩
  · exact Or.inr (hstep.trans (if_pos hd))

/-- What cannot be written escapes as another error. -/
lemma Object.escapes {kvs : List (PyKey × PyVal)} {e : Extraction}
    (hl : (decode data).bind loads = some (.dict kvs)) (h : e.Object kvs) (hw : ¬Writable e.toPy) :
    ∃ x, fromCanonical data = .error x ∧ ∀ p, x ≠ .extractionFormat p := by
  obtain ⟨x,hx,hor⟩ := canonicalText_error hw
  have hto : e.toCanonical = .error x := by
    rw [toCanonical,canonicalJson,hx]
    rfl
  refine ⟨x,?_,by rcases hor with rfl | rfl | rfl <;> simp⟩
  rw [fromCanonical_object hl,h.ofObject]
  change (do let back ← e.toCanonical; if back ≠ data then formatError .notCanonical else pure e) = _
  rw [hto]
  rfl

/-- from_canonical is strict on exactly the admissible bytes. -/
theorem strictOn_iff : StrictOn deep data ↔ Admissible deep data := by
  by_cases hdeep : deep data = true
  · have hl : limited deep fromCanonical data = .error .recursionError := if_pos hdeep
    refine ⟨fun h => ?_,fun h => absurd h.depth (by simp [hdeep])⟩
    rcases h with ⟨e,he,-⟩ | ⟨p,hp⟩
    · rw [hl] at he
      cases he
    · rw [hl] at hp
      cases hp
  have hlim : limited deep fromCanonical data = fromCanonical data := if_neg hdeep
  rw [StrictOn,hlim]
  constructor
  · intro h
    have hno : ∀ x, fromCanonical data = .error x → (∀ p, x ≠ .extractionFormat p) → False := by
      intro x hx hne
      rcases h with ⟨e,he,-⟩ | ⟨p,hp⟩
      · rw [hx] at he
        cases he
      · exact hne p (Except.error.inj (hx.symm.trans hp))
    refine ⟨by simpa using hdeep,fun kvs hl ho => ?_,fun kvs hl e he => ?_⟩
    · obtain ⟨x,hx,hor⟩ := ho.error
      refine hno x ?_ (by rcases hor with rfl | rfl <;> simp)
      rw [fromCanonical_object hl,hx]
      rfl
    · obtain ⟨t,-,ht⟩ := Option.bind_eq_some_iff.mp hl
      by_cases hw : Writable e.toPy
      · exact he.clean (loads_loaded ht) hw
      · obtain ⟨x,hx,hne⟩ := he.escapes hl hw
        exact (hno x hx hne).elim
  · intro h
    cases hl : (decode data).bind loads with
    | none =>
      refine Or.inr ⟨.notJson,?_⟩
      rw [fromCanonical,hl]
      rfl
    | some v =>
      cases v with
      | dict kvs =>
        rcases ofObject_cases (h.units kvs hl) with ⟨e,-,hobj⟩ | ⟨p,hp⟩
        · obtain ⟨t,-,ht⟩ := Option.bind_eq_some_iff.mp hl
          have hw := (writable_iff_clean ht).mpr (h.clean kvs hl e hobj)
          rcases hobj.strictOn hl (hobj.writable hw) with ⟨hok,hto⟩ | hp
          · exact Or.inl ⟨e,hok,hto⟩
          · exact Or.inr ⟨_,hp⟩
        · refine Or.inr ⟨p,?_⟩
          rw [fromCanonical_object hl,hp]
          rfl
      | _ =>
        refine Or.inr ⟨.extractionFields,?_⟩
        rw [fromCanonical,hl]
        rfl

/-- The round trip, in an interpreter with a recursion limit. -/
def RoundTrips (deepOut : Extraction → Bool) (deep : Bytes → Bool) (e : Extraction) : Prop :=
  ∃ data f, limited deepOut toCanonical e = .ok data ∧ limited deep fromCanonical data = .ok f ∧
    e.values.pyEq f.values = true

lemma limited_ok {α β : Type} {deep : α → Bool} {f : α → Except Exc β} {x : α} {y : β} :
    limited deep f x = .ok y ↔ deep x = false ∧ f x = .ok y := by
  unfold limited
  cases deep x <;> simp

/-- An extraction is read back equal exactly when it is plain and its text is not nested too
deeply, and the reader is strict on exactly the admissible bytes. -/
theorem codec_iff (deepOut : Extraction → Bool) (deep : Bytes → Bool) :
    (∀ e : Extraction, RoundTrips deepOut deep e ↔
      e.Plain ∧ deepOut e = false ∧ ∀ data, e.toCanonical = .ok data → deep data = false) ∧
    ∀ data, StrictOn deep data ↔ Admissible deep data := by
  refine ⟨fun e => ⟨?_,?_⟩,fun _ => strictOn_iff⟩
  · rintro ⟨data,f,hd,hf,he⟩
    obtain ⟨ho,hd⟩ := limited_ok.mp hd
    obtain ⟨hi,hf⟩ := limited_ok.mp hf
    refine ⟨readsBack_iff.mp ⟨data,f,hd,hf,he⟩,ho,fun data' hd' => ?_⟩
    rwa [Except.ok.inj (hd'.symm.trans hd)]
  · rintro ⟨hp,ho,hi⟩
    obtain ⟨data,f,hd,hf,he⟩ := readsBack_iff.mpr hp
    exact ⟨data,f,limited_ok.mpr ⟨ho,hd⟩,limited_ok.mpr ⟨hi data hd,hf⟩,he⟩

/-- An extraction whose record id is a lone surrogate. -/
def sampleLoneId : PyStr :=
  lit "\x7b\"artifact_hash\":\""++List.replicate 64 (cp '0')++
    lit "\",\"normalizer\":\x7b\"name\":\"n\",\"version\":\"1\"\x7d,"++
    lit "\"parser\":\x7b\"name\":\"p\",\"version\":\"1\"\x7d,\"record_id\":\"\\ud800\","++
    lit "\"schema\":\"stele.extraction\",\"schema_version\":1,"++lit "\"source_hash\":null,\"units\":[]\x7d"

/-- A unit with a tuple among its attributes. -/
def sampleTuple : ExtractionUnit where
  id := lit "u"
  kind := .other
  text := lit "t"
  order := 0
  anchor := ⟨lit "a",Hasher.checksum.hexdigest [],.range 0 1,by decide,Hasher.checksum.digest_form _,by decide⟩
  page := none
  bbox := none
  level := none
  parent := .none
  attributes := [(.str (lit "k"),.tuple [])]
  id_ne := by decide
  text_ne := by decide
  attributes_json := ⟨lit "\x7b\"k\":[]\x7d",by decide +kernel⟩

/-- The call raises exactly this. -/
def raises {α : Type} (x : Exc) : Except Exc α → Bool
  | .error y => decide (y = x)
  | .ok _ => false

lemma raises_iff {α : Type} {x : Exc} {r : Except Exc α} : raises x r = true ↔ r = .error x := by
  cases r <;> simp [raises]

/-- What the checks or the encoder raise on a loaded text. -/
def raisesLoaded (x : Exc) : Option PyVal → Bool
  | some (.dict kvs) => raises x ((ofObject kvs).bind toCanonical)
  | _ => false

lemma raises_of_loads {t : PyStr} {x : Exc} (ht : Encodable t) (h : raisesLoaded x (loads t) = true) :
    fromCanonical (utf8 t) = .error x := by
  have hd : (decode (utf8 t)).bind loads = loads t := by rw [decode_utf8 ht,Option.bind_some]
  cases hl : loads t with
  | none =>
    rw [hl] at h
    cases h
  | some v =>
    rw [hl] at h
    cases v with
    | dict kvs =>
      have he := raises_iff.mp h
      rw [fromCanonical_object (hd.trans hl)]
      cases ho : ofObject kvs with
      | error y =>
        rw [ho] at he
        obtain rfl := Except.error.inj he
        rfl
      | ok e =>
        rw [ho] at he
        have hto : e.toCanonical = .error x := he
        change (do let back ← e.toCanonical; if back ≠ _ then formatError .notCanonical else pure e) = _
        rw [hto]
        rfl
    | _ => cases h

lemma sampleLoneId_loads : raisesLoaded .unicodeEncodeError (loads sampleLoneId) = true := by
  decide +kernel

lemma sampleLoneId_raises : fromCanonical (utf8 sampleLoneId) = .error .unicodeEncodeError := by
  have hz : Encodable (List.replicate 64 (cp '0')) := by
    intro c hc
    rw [List.eq_of_mem_replicate hc]
    decide
  refine raises_of_loads ?_ sampleLoneId_loads
  simp only [sampleLoneId,encodable_append]
  exact ⟨⟨⟨⟨⟨encodable_lit _,hz⟩,encodable_lit _⟩,encodable_lit _⟩,encodable_lit _⟩,encodable_lit _⟩

/-- The reader raises UnicodeEncodeError, and an extraction comes back with a list for a tuple. -/
theorem codec_fail : ¬StrictOn (fun _ => false) (utf8 sampleLoneId) ∧
    ∃ e, ¬RoundTrips (fun _ => false) (fun _ => false) e := by
  refine ⟨?_,?_⟩
  · have hl : limited (fun _ => false) fromCanonical (utf8 sampleLoneId) = .error .unicodeEncodeError :=
      (if_neg Bool.false_ne_true).trans sampleLoneId_raises
    rintro (⟨e,he,-⟩ | ⟨p,hp⟩)
    · rw [hl] at he
      cases he
    · rw [hl] at hp
      cases hp
  refine ⟨⟨lit "r",Hasher.checksum.hexdigest [],none,⟨[],[]⟩,⟨[],[]⟩,[sampleTuple],by decide,
    Hasher.checksum.digest_form _,by simp,by simp,rfl,by simp [ExtractionUnit.parentOk,sampleTuple]⟩,?_⟩
  rintro ⟨data,f,hd,hf,he⟩
  have hp := readsBack_iff.mp ⟨data,f,(limited_ok.mp hd).2,(limited_ok.mp hf).2,he⟩
  have hj := (hp.units sampleTuple (by simp)).attributes
  rw [PyVal.IsJson,PyVal.isJsonItems_iff] at hj
  exact (hj.2 (.str (lit "k"),.tuple []) (by simp [sampleTuple])).2.elim

end Extraction

end Strict

end Stele
