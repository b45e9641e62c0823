import Stele.Archive.Records
import Stele.Lib.Dict
import Stele.Python.JsonEqual

/-! The dataclass types that deliveries are addressed to. A class is an object of its own,
and two of them may have one name. -/
namespace Stele
open Python

/-- A value that json writes as a scalar. -/
def isScalar : PyVal → Bool
  | .none | .bool _ | .int _ | .float _ | .str _ => true
  | _ => false

/-- A dataclass: its __name__, its fields in order, and the values that its instance has
when it is called with keyword arguments. -/
structure TargetClass where
  name : PyStr
  fields : List PyStr
  init : List (PyKey × PyVal) → Except Exc (List PyVal)
  fields_nodup : fields.Nodup

/-- An instance: which class it is of, and the values of its fields. -/
structure TargetValue where
  cls : ℕ
  values : List PyVal

namespace TargetClass

/-- dataclasses.asdict of an instance with these values. -/
def asdict (c : TargetClass) (values : List PyVal) : PyVal :=
  .dict ((c.fields.map PyKey.str).zip values)

/-- The __init__ that dataclass writes for fields without defaults. -/
def generatedInit (fields : List PyStr) (kwargs : List (PyKey × PyVal)) : Except Exc (List PyVal) :=
  if kwargs.all fun p => fields.any fun f => p.1.eq (.str f) then
    fields.mapM fun f => (PyVal.find kwargs (.str f)).elim (.error .typeError) .ok
  else .error .typeError

/-- @dataclass on a class that has fields and nothing else. -/
def plain (name : PyStr) (fields : List PyStr) (h : fields.Nodup) : TargetClass :=
  ⟨name,fields,generatedInit fields,h⟩

end TargetClass

def lightRAGTarget : TargetClass := .plain (lit "LightRAGTarget") [lit "workspace"] (by decide)

def hindsightTarget : TargetClass := .plain (lit "HindsightTarget") [lit "instance"] (by decide)

/-- An instance whose fields all hold JSON scalars. -/
structure TargetValue.Valid (classes : ℕ → TargetClass) (t : TargetValue) : Prop where
  length : t.values.length = (classes t.cls).fields.length
  scalars : ∀ v ∈ t.values, isScalar v = true

/-- t == u of instances: one class, and equal fields. -/
structure TargetValue.Same (t u : TargetValue) : Prop where
  cls : t.cls = u.cls
  values : List.Forall₂ (fun v w => v.pyEq w = true) t.values u.values

/-- An instance with these values is made again from its own fields, as json gives them back. -/
def TargetClass.RebuildsFrom (c : TargetClass) (values : List PyVal) : Prop :=
  ∀ text kwargs, canonicalText (c.asdict values) = .ok text → canonicalImage (c.asdict values) = .dict kwargs →
    ∃ again, c.init kwargs = .ok again ∧ List.Forall₂ (fun v w => v.pyEq w = true) again values

/-- Every instance of scalars is made again. -/
def TargetClass.Rebuilds (c : TargetClass) : Prop :=
  ∀ values, values.length = c.fields.length → (∀ v ∈ values, isScalar v = true) → c.RebuildsFrom values

section Asdict

variable {c : TargetClass} {values : List PyVal}

lemma scalar_toJson {o : DumpOpts} {v : PyVal} (h : isScalar v = true) : v.toJson o = v := by
  cases v with
  | none | bool _ | int _ | float _ | str _ => rfl
  | _ => cases h

lemma asdict_strDict (h : values.length = c.fields.length) :
    StrDict ((c.fields.map PyKey.str).zip values) where
  keys := by
    intro p hp
    obtain ⟨s,_,hs⟩ := List.mem_map.mp (List.of_mem_zip hp).1
    exact ⟨s,hs.symm⟩
  nodup := by
    rw [List.map_fst_zip (by simp [h])]
    exact c.fields_nodup.map fun _ _ he => PyKey.str.inj he

lemma mem_asdict {f : PyStr} {v : PyVal} (h : (f,v) ∈ c.fields.zip values) :
    (PyKey.str f,v) ∈ (c.fields.map PyKey.str).zip values := by
  rw [List.zip_map_left]
  exact List.mem_map_of_mem (f := Prod.map PyKey.str id) h

/-- json gives each field back under its name. -/
lemma find_asdict (h : values.length = c.fields.length) (hs : ∀ v ∈ values, isScalar v = true)
    {kwargs : List (PyKey × PyVal)} (hk : canonicalImage (c.asdict values) = .dict kwargs) :
    List.Forall₂ (fun f v => PyVal.find kwargs (.str f) = some v) c.fields values := by
  refine List.forall₂_iff_zip.mpr ⟨h.symm,fun {f v} hm => ?_⟩
  have hd := asdict_strDict h
  rw [find_toJson hd hk,(find_str hd.nodup).mpr (mem_asdict hm),Option.map_some,
    scalar_toJson (hs v (List.of_mem_zip hm).2)]

/-- It gives back no other field. -/
lemma asdict_keys (h : values.length = c.fields.length) {kwargs : List (PyKey × PyVal)}
    (hk : canonicalImage (c.asdict values) = .dict kwargs) :
    ∀ p ∈ kwargs, ∃ f ∈ c.fields, p.1 = .str f := by
  rw [canonicalImage,TargetClass.asdict,toJson_strDict (asdict_strDict h)] at hk
  obtain rfl := PyVal.dict.inj hk
  intro p hp
  obtain ⟨q,hq,rfl⟩ := List.mem_map.mp hp
  obtain ⟨f,hf,he⟩ := List.mem_map.mp (List.of_mem_zip ((sortItems_perm _ _).mem_iff.mp hq)).1
  exact ⟨f,hf,he.symm⟩

/-- What has a canonical text has no nan: each field equals itself. -/
lemma values_pyEq (h : values.length = c.fields.length) (hs : ∀ v ∈ values, isScalar v = true)
    {text : PyStr} (ht : canonicalText (c.asdict values) = .ok text) :
    List.Forall₂ (fun v w => v.pyEq w = true) values values := by
  obtain ⟨kwargs,hk⟩ : ∃ kwargs, canonicalImage (c.asdict values) = .dict kwargs :=
    ⟨_,toJson_strDict (asdict_strDict h)⟩
  have hj := isJson_canonicalImage ht
  rw [hk,PyVal.IsJson,PyVal.isJsonItems_iff] at hj
  refine List.forall₂_same.mpr fun v hv => ?_
  obtain ⟨f,-,hf⟩ := forall₂_mem (find_asdict h hs hk).flip hv
  obtain ⟨p,hp,hpv⟩ := Option.map_eq_some_iff.mp hf
  have hvj := (hj.2 p (List.mem_of_find?_eq_some hp)).2
  rw [hpv] at hvj
  have := pyEq_toJson (o := canonicalOpts) hvj
  rwa [scalar_toJson (hs v hv)] at this

/-- One text of two instances of a class: equal fields. -/
lemma asdict_inj {others : List PyVal} {text : PyStr} (h : values.length = c.fields.length)
    (hs : ∀ v ∈ values, isScalar v = true) (h' : others.length = c.fields.length)
    (hs' : ∀ v ∈ others, isScalar v = true) (ht : canonicalText (c.asdict values) = .ok text)
    (ht' : canonicalText (c.asdict others) = .ok text) : values = others := by
  obtain ⟨kwargs,hk⟩ : ∃ kwargs, canonicalImage (c.asdict values) = .dict kwargs :=
    ⟨_,toJson_strDict (asdict_strDict h)⟩
  have he : canonicalImage (c.asdict others) = canonicalImage (c.asdict values) :=
    Option.some.inj ((loads_canonicalText ht').symm.trans (loads_canonicalText ht))
  have hf := find_asdict h hs hk
  have hf' := find_asdict h' hs' (he.trans hk)
  generalize c.fields = fields at hf hf'
  clear h hs h' hs' ht ht' hk he
  induction hf generalizing others with
  | nil => cases hf'; rfl
  | cons hv _ ih =>
    cases hf' with
    | cons hw hf' => rw [ih hf',Option.some.inj (hv.symm.trans hw)]

/-- A dataclass that has fields and nothing else is made again from them. -/
theorem TargetClass.plain_rebuilds (name : PyStr) (fields : List PyStr) (hf : fields.Nodup) :
    (TargetClass.plain name fields hf).Rebuilds := by
  intro values h hs text kwargs ht hk
  refine ⟨values,?_,values_pyEq h hs ht⟩
  have hall : kwargs.all (fun p => fields.any fun f => p.1.eq (.str f)) = true := by
    refine List.all_eq_true.mpr fun p hp => ?_
    obtain ⟨f,hm,he⟩ := asdict_keys h hk p hp
    exact List.any_eq_true.mpr ⟨f,hm,by simp [he]⟩
  change TargetClass.generatedInit fields kwargs = .ok values
  rw [TargetClass.generatedInit,if_pos hall,mapM_ok]
  refine (find_asdict h hs hk).imp fun f v hv => ?_
  rw [hv]
  rfl

end Asdict

end Stele
