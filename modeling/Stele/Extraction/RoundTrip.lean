import Stele.Archive.Writable
import Stele.Extraction.Contract
import Stele.Python.JsonLoads

/-! from_canonical undoes to_canonical, up to the order of the attributes. -/
namespace Stele
open Python

section Image

variable {kvs kws : List (PyKey × PyVal)}

/-- d.get(k) of what canonical JSON makes of a dict. -/
lemma getItem_image (h : StrDict kvs) (he : canonicalImage (.dict kvs) = .dict kws) (k : PyStr) :
    getItem kws k = canonicalImage (getItem kvs k) := by
  rw [getItem,getItem,find_toJson h he]
  cases PyVal.find kvs (.str k) <;> rfl

lemma hasFields_image (h : StrDict kvs) (he : canonicalImage (.dict kvs) = .dict kws)
    (fields : List PyStr) : hasFields kws fields = hasFields kvs fields := by
  have hp := sortItems_perm canonicalOpts kvs
  have hall : (kws.all fun p => decide (p.1 ∈ fields.map PyKey.str)) =
      kvs.all fun p => decide (p.1 ∈ fields.map PyKey.str) := by
    have hw := PyVal.dict.inj ((toJson_strDict h).symm.trans he)
    rw [← hw,List.all_map]
    exact hp.all_eq
  have hfind : (fields.all fun f => (PyVal.find kws (.str f)).isSome) =
      fields.all fun f => (PyVal.find kvs (.str f)).isSome := by
    congr 1
    funext f
    rw [find_toJson h he]
    cases PyVal.find kvs (.str f) <;> rfl
  rw [hasFields,hasFields,hall,hfind]

lemma image_dict (h : StrDict kvs) : ∃ kws, canonicalImage (.dict kvs) = .dict kws :=
  ⟨_,toJson_strDict h⟩

end Image

/-- The anchor is read back. -/
lemma Extraction.Anchor.fromJson_image (a : Extraction.Anchor) :
    Extraction.Anchor.fromJson (canonicalImage a.toJson) = .ok a := by
  have hm := a.make_self
  obtain ⟨artifact,digest,place,ha,hd,hp⟩ := a
  cases place with
  | range start stop =>
    have hi : canonicalImage (Extraction.Anchor.toJson ⟨artifact,digest,.range start stop,ha,hd,hp⟩) =
        .dict [(.str (lit "artifact"),.str artifact),(.str (lit "digest"),.str digest),
          (.str (lit "range"),.list [.int start,.int stop])] := rfl
    simp only [Place.toArgs] at hm
    rw [hi,fromJson]
    simp [getItem,PyVal.find,lit,hm]
  | pointer p r =>
    have hi : canonicalImage (Extraction.Anchor.toJson ⟨artifact,digest,.pointer p r,ha,hd,hp⟩) =
        .dict [(.str (lit "artifact"),.str artifact),(.str (lit "digest"),.str digest),
          (.str (lit "pointer"),.str p),(.str (lit "render"),.str r)] := rfl
    simp only [Place.toArgs] at hm
    rw [hi,fromJson]
    simp [getItem,PyVal.find,lit,hm]

lemma NameVersion.read_toPy (n : NameVersion) : NameVersion.read (canonicalImage n.toPy) = some n := by
  have hi : canonicalImage n.toPy = n.toPy := rfl
  rw [hi,toPy,read]
  simp [hasFields,getItem,PyVal.find,lit]

namespace ExtractionUnit

/-- The same unit, but for the order of its attributes. -/
structure Same (u v : ExtractionUnit) : Prop where
  id : v.id = u.id
  kind : v.kind = u.kind
  text : v.text = u.text
  order : v.order = u.order
  anchor : v.anchor = u.anchor
  page : v.page = u.page
  bbox : v.bbox = u.bbox
  level : v.level = u.level
  parent : v.parent = u.parent
  attributes : PyVal.dict v.attributes = canonicalImage (.dict u.attributes)

variable {u v : ExtractionUnit}

lemma readNat_natPy (n : Option ℕ) : readNat (natPy n) = some n := by cases n <;> rfl

lemma readBbox_bboxPy (id : PyStr) (b : Option Bbox) : readBbox id (bboxPy b) = .ok b := by
  cases b <;> rfl

lemma readKind_value (id : PyStr) (k : Kind) : readKind id (.str k.value) = .ok k := by
  rw [readKind,Kind.ofValue_value]

/-- A unit is what the constructor makes of its parts, with attributes that can be written. -/
lemma make_same (u : ExtractionUnit) {kvs : List (PyKey × PyVal)}
    (hkvs : canonicalImage (.dict u.attributes) = .dict kvs) (hw : Writable (.dict kvs)) :
    ∃ v, make (.str u.id) (.str u.kind.value) (.str u.text) (.int u.order) u.anchor (natPy u.page)
      (bboxPy u.bbox) (natPy u.level) u.parent (.dict kvs) = .ok v ∧ u.Same v := by
  obtain ⟨t,ht⟩ := hw
  refine ⟨⟨u.id,u.kind,u.text,u.order,u.anchor,u.page,u.bbox,u.level,u.parent,kvs,u.id_ne,u.text_ne,
    ⟨t,ht⟩⟩,?_,⟨rfl,rfl,rfl,rfl,rfl,rfl,rfl,rfl,rfl,hkvs.symm⟩⟩
  simp only [make,dif_neg u.id_ne,dif_neg u.text_ne,readKind_value,readNat_natPy,readBbox_bboxPy]
  simp only [bind,Except.bind]
  split
  · rename_i hc
    rw [ht] at hc
    cases hc
  · rfl

/-- The items of to_json. -/
def items (u : ExtractionUnit) : List (PyKey × PyVal) :=
  [(.str (lit "id"),.str u.id),(.str (lit "kind"),.str u.kind.value),(.str (lit "text"),.str u.text),
    (.str (lit "order"),.int u.order),(.str (lit "page"),natPy u.page),(.str (lit "bbox"),bboxPy u.bbox),
    (.str (lit "level"),natPy u.level),(.str (lit "parent"),u.parent),
    (.str (lit "anchor"),u.anchor.toJson),(.str (lit "attributes"),.dict u.attributes)]

lemma items_strDict (u : ExtractionUnit) : StrDict u.items where
  keys p hp := by
    simp only [items,List.mem_cons,List.not_mem_nil,or_false] at hp
    rcases hp with rfl | rfl | rfl | rfl | rfl | rfl | rfl | rfl | rfl | rfl <;> exact ⟨_,rfl⟩
  nodup := by simp [items,lit]

lemma bboxPy_image (b : Option Bbox) : canonicalImage (bboxPy b) = bboxPy b := by
  cases b <;> rfl

lemma natPy_image (n : Option ℕ) : canonicalImage (natPy n) = natPy n := by cases n <;> rfl

/-- The unit is read back from what canonical JSON makes of it. -/
lemma fromJson_image (u : ExtractionUnit) (hj : (PyVal.dict u.attributes).IsJson)
    (hp : canonicalImage u.parent = u.parent) :
    ∃ v, fromJson (canonicalImage u.toJson) = .ok v ∧ u.Same v := by
  have hs := u.items_strDict
  obtain ⟨kws,hk⟩ := image_dict hs
  obtain ⟨kvs,hkvs⟩ := image_dict (isJson_strDict hj)
  have hw : Writable (.dict kvs) := by
    obtain ⟨t,ht,he⟩ := writable_iff.mp u.attributes_json
    refine writable_iff.mpr ⟨t,?_,he⟩
    rw [← hkvs,dumps_toJson hj,ht]
  obtain ⟨v,hv,hsame⟩ := u.make_same hkvs hw
  refine ⟨v,?_,hsame⟩
  have hf : hasFields kws fields = true := by
    rw [hasFields_image hs hk]
    simp [hasFields,fields,items,PyVal.find,lit]
  have hget : ∀ k w, getItem u.items k = w → getItem kws k = canonicalImage w := by
    rintro k w rfl
    exact getItem_image hs hk k
  have hu : u.toJson = .dict u.items := rfl
  rw [hu,hk,fromJson,hf,if_neg (by simp),hget (lit "anchor") u.anchor.toJson rfl,
    Extraction.Anchor.fromJson_image,hget (lit "id") (.str u.id) rfl,
    hget (lit "kind") (.str u.kind.value) rfl,
    hget (lit "text") (.str u.text) rfl,
    hget (lit "order") (.int u.order) rfl,
    hget (lit "page") (natPy u.page) rfl,
    hget (lit "bbox") (bboxPy u.bbox) rfl,
    hget (lit "level") (natPy u.level) rfl,
    hget (lit "parent") u.parent rfl,
    hget (lit "attributes") (.dict u.attributes) rfl,
    natPy_image,natPy_image,bboxPy_image,hp,hkvs]
  exact hv

/-- Its text is the same. -/
lemma Same.dumps (h : u.Same v) (hj : (PyVal.dict u.attributes).IsJson) :
    dumps canonicalOpts v.toJson = dumps canonicalOpts u.toJson := by
  have ha : Python.dumps canonicalOpts (.dict v.attributes) =
      Python.dumps canonicalOpts (.dict u.attributes) := by
    rw [h.attributes,dumps_toJson hj]
  simp only [toJson,Python.dumps,dumpsItems,h.id,h.kind,h.text,h.order,h.anchor,h.page,h.bbox,h.level,
    h.parent] at ha ⊢
  rw [ha]
  rfl

end ExtractionUnit

namespace Extraction

/-- The same extraction, but for the order of the units' attributes. -/
structure Same (e f : Extraction) : Prop where
  recordId : f.recordId = e.recordId
  artifactHash : f.artifactHash = e.artifactHash
  sourceHash : f.sourceHash = e.sourceHash
  parser : f.parser = e.parser
  normalizer : f.normalizer = e.normalizer
  units : List.Forall₂ ExtractionUnit.Same e.units f.units

variable {us vs : List ExtractionUnit}

lemma same_ids (h : List.Forall₂ ExtractionUnit.Same us vs) :
    vs.map ExtractionUnit.id = us.map ExtractionUnit.id := by
  induction h with
  | nil => rfl
  | cons h _ ih => rw [List.map_cons,List.map_cons,h.id,ih]

lemma same_orders (h : List.Forall₂ ExtractionUnit.Same us vs) :
    vs.map ExtractionUnit.order = us.map ExtractionUnit.order := by
  induction h with
  | nil => rfl
  | cons h _ ih => rw [List.map_cons,List.map_cons,h.order,ih]

lemma same_any (h : List.Forall₂ ExtractionUnit.Same us vs) (p : PyStr) (n : ℕ) :
    (vs.any fun v => decide (v.id = p ∧ v.order < n)) =
      us.any fun v => decide (v.id = p ∧ v.order < n) := by
  induction h with
  | nil => rfl
  | cons h _ ih => rw [List.any_cons,List.any_cons,h.id,h.order,ih]

lemma same_parents (h : List.Forall₂ ExtractionUnit.Same us vs)
    (hp : ∀ u ∈ us, u.parentOk us = true) : ∀ v ∈ vs, v.parentOk vs = true := by
  intro v hv
  obtain ⟨u,hu,hsame⟩ := forall₂_mem h.flip hv
  have := hp u hu
  unfold ExtractionUnit.parentOk at this ⊢
  rw [hsame.parent]
  simp only [hsame.order,same_any h]
  exact this

/-- The units are read back one by one. -/
lemma mapM_fromJson (hl : ∀ u ∈ us, (PyVal.dict u.attributes).Loaded)
    (hp : ∀ u ∈ us, canonicalImage u.parent = u.parent) :
    ∃ vs, ((us.map ExtractionUnit.toJson).map (PyVal.toJson canonicalOpts)).mapM
      ExtractionUnit.fromJson = .ok vs ∧ List.Forall₂ ExtractionUnit.Same us vs ∧
      dumpsList canonicalOpts (vs.map ExtractionUnit.toJson) =
        dumpsList canonicalOpts (us.map ExtractionUnit.toJson) := by
  induction us with
  | nil => exact ⟨[],rfl,.nil,rfl⟩
  | cons u us ih =>
    obtain ⟨vs,hvs,hsame,hd⟩ := ih (fun w hw => hl w (List.mem_cons_of_mem _ hw))
      fun w hw => hp w (List.mem_cons_of_mem _ hw)
    have hj : (PyVal.dict u.attributes).IsJson := by
      obtain ⟨t,ht,-⟩ := writable_iff.mp u.attributes_json
      exact (hl u (by simp)).isJson rfl ht
    obtain ⟨v,hv,hu⟩ := u.fromJson_image hj (hp u (by simp))
    refine ⟨v :: vs,?_,.cons hu hsame,?_⟩
    · rw [List.map_cons,List.map_cons,List.mapM_cons,hv,hvs]
      rfl
    · rw [List.map_cons,List.map_cons,dumpsList,dumpsList,hu.dumps hj,hd]

/-- The items that to_canonical writes. -/
def items (e : Extraction) : List (PyKey × PyVal) :=
  [(.str (lit "schema"),schemaName),(.str (lit "schema_version"),schemaVersion),
    (.str (lit "record_id"),.str e.recordId),(.str (lit "artifact_hash"),.str e.artifactHash),
    (.str (lit "source_hash"),RunConditions.optionPy .str e.sourceHash),
    (.str (lit "parser"),e.parser.toPy),(.str (lit "normalizer"),e.normalizer.toPy),
    (.str (lit "units"),.list (e.units.map ExtractionUnit.toJson))]

lemma items_strDict (e : Extraction) : StrDict e.items where
  keys p hp := by
    simp only [items,List.mem_cons,List.not_mem_nil,or_false] at hp
    rcases hp with rfl | rfl | rfl | rfl | rfl | rfl | rfl | rfl <;> exact ⟨_,rfl⟩
  nodup := by simp [items,lit]

/-- The constructor, given the parts of an extraction with its units read back. -/
lemma make_same (e : Extraction) (h : List.Forall₂ ExtractionUnit.Same e.units vs) :
    ∃ f, make (.str e.recordId) (.str e.artifactHash) (RunConditions.optionPy .str e.sourceHash)
      (canonicalImage e.parser.toPy) (canonicalImage e.normalizer.toPy) vs = .ok f ∧ e.Same f ∧
      f.units = vs := by
  have hi : (vs.map ExtractionUnit.id).Nodup := by rw [same_ids h]; exact e.ids
  have ho : vs.map ExtractionUnit.order = List.range vs.length := by
    rw [same_orders h,← h.length_eq]
    exact e.orders
  have hp := same_parents h e.parents
  have hs : optionStr (RunConditions.optionPy .str e.sourceHash) = some e.sourceHash := by
    cases e.sourceHash <;> rfl
  refine ⟨⟨e.recordId,e.artifactHash,e.sourceHash,e.parser,e.normalizer,vs,e.recordId_ne,
    e.artifactHash_form,e.sourceHash_form,hi,ho,hp⟩,?_,⟨rfl,rfl,rfl,rfl,rfl,h⟩,rfl⟩
  simp only [make,dif_neg e.recordId_ne,dif_pos e.artifactHash_form,hs,dif_pos e.sourceHash_form,
    NameVersion.read_toPy,dif_pos hi,dif_pos ho,dif_pos hp]

lemma parent_image (e : Extraction) : ∀ u ∈ e.units, canonicalImage u.parent = u.parent := by
  intro u hu
  have := e.parents u hu
  unfold ExtractionUnit.parentOk at this
  cases hp : u.parent with
  | none | str p => rfl
  | _ => simp [hp] at this

/-- An extraction whose attributes were loaded from JSON is read back from its canonical form. -/
theorem fromCanonical_toCanonical (e : Extraction) (hl : ∀ u ∈ e.units, (PyVal.dict u.attributes).Loaded)
    {data : Bytes} (h : e.toCanonical = .ok data) : ∃ f, fromCanonical data = .ok f ∧ e.Same f := by
  have hs := e.items_strDict
  obtain ⟨kws,hk⟩ := image_dict hs
  have hload : (decode data).bind loads = some (.dict kws) := by
    rw [← hk]
    exact loads_canonicalJson h
  obtain ⟨vs,hvs,hsame,hd⟩ := mapM_fromJson hl e.parent_image
  obtain ⟨f,hf,hef,hfu⟩ := e.make_same hsame
  have hget : ∀ k w, getItem e.items k = w → getItem kws k = canonicalImage w := by
    rintro k w rfl
    exact getItem_image hs hk k
  have hfields : hasFields kws fields = true := by
    rw [hasFields_image hs hk]
    simp [hasFields,fields,items,PyVal.find,lit]
  have hunits : getItem kws (lit "units") =
      .list ((e.units.map ExtractionUnit.toJson).map (PyVal.toJson canonicalOpts)) := by
    rw [hget (lit "units") (.list (e.units.map ExtractionUnit.toJson)) rfl,canonicalImage,PyVal.toJson,
      toJsonList_eq]
  have hschema : (getItem kws (lit "schema")).pyEq schemaName = true := by
    rw [hget (lit "schema") schemaName rfl]
    simp [canonicalImage,PyVal.toJson,schemaName,PyVal.pyEq]
  have hversion : (getItem kws (lit "schema_version")).pyEq schemaVersion = true := by
    rw [hget (lit "schema_version") schemaVersion rfl]
    simp [canonicalImage,PyVal.toJson,schemaVersion,PyVal.pyEq,PyVal.num]
  have hsource : canonicalImage (RunConditions.optionPy .str e.sourceHash) =
      RunConditions.optionPy .str e.sourceHash := by
    cases e.sourceHash <;> rfl
  have hobject : ofObject kws = .ok f := by
    rw [ofObject,hfields,hschema,hversion,if_neg (by simp),if_neg (by simp),hunits]
    simp only [hvs]
    rw [hget (lit "record_id") (.str e.recordId) rfl,hget (lit "artifact_hash") (.str e.artifactHash) rfl,
      hget (lit "source_hash") (RunConditions.optionPy .str e.sourceHash) rfl,
      hget (lit "parser") e.parser.toPy rfl,hget (lit "normalizer") e.normalizer.toPy rfl,hsource]
    exact hf
  have hback : f.toCanonical = .ok data := by
    rw [← h]
    have hdumps : dumps canonicalOpts f.toPy = dumps canonicalOpts e.toPy := by
      have hfu' : dumpsList canonicalOpts (f.units.map ExtractionUnit.toJson) =
          dumpsList canonicalOpts (e.units.map ExtractionUnit.toJson) := hfu ▸ hd
      simp only [toPy,dumps,dumpsItems,hef.recordId,hef.artifactHash,hef.sourceHash,hef.parser,
        hef.normalizer,hfu']
      rfl
    rw [toCanonical,toCanonical,canonicalJson,canonicalJson,canonicalText,canonicalText,hdumps]
  refine ⟨f,?_,hef⟩
  rw [fromCanonical,hload]
  simp only [hobject]
  change (do let back ← f.toCanonical; if back ≠ data then formatError .notCanonical else pure f) = _
  rw [hback]
  exact if_neg (by simp)

end Extraction

end Stele
