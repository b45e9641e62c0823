import Stele.Contracts.Chunks
import Stele.Python.JsonEqual
import Stele.Python.Utf8
import Stele.Archive.Metadata

/-! The metadata that validation accepts: exactly the JSON objects with a canonical form. That form
gives the value back with the types it had. -/
namespace Stele
open Python Python.PyVal

section Types

variable {a b d v : PyVal} {o : DumpOpts}

lemma jsonEqualList_iff {ds os : List PyVal} (h : ds.length = os.length) :
    jsonEqualList ds os = true ↔ List.Forall₂ (fun d v => jsonEqual d v = true) ds os := by
  induction ds generalizing os with
  | nil =>
    obtain rfl := List.eq_nil_of_length_eq_zero h.symm
    simp [jsonEqualList]
  | cons d ds ih =>
    cases os with
    | nil => cases h
    | cons v os => rw [jsonEqualList,Bool.and_eq_true,ih (Nat.succ.inj h),List.forall₂_cons]

lemma jsonEqualItems_iff {kws kvs : List (PyKey × PyVal)} : jsonEqualItems kws kvs = true ↔
    ∀ p ∈ kvs, ∃ w, find kws p.1 = some w ∧ jsonEqual w p.2 = true := by
  induction kvs with
  | nil => simp [jsonEqualItems]
  | cons p kvs ih =>
    obtain ⟨k,v⟩ := p
    rw [jsonEqualItems,Bool.and_eq_true,ih,List.forall_mem_cons]
    cases find kws k <;> simp

lemma jsonEqual_list {vs : List PyVal} : jsonEqual d (.list vs) = true ↔
    ∃ ds, d = .list ds ∧ List.Forall₂ (fun d v => jsonEqual d v = true) ds vs := by
  cases d with
  | list ds =>
    rw [jsonEqual,Bool.and_eq_true,decide_eq_true_eq]
    constructor
    · rintro ⟨hl,h⟩
      exact ⟨ds,rfl,(jsonEqualList_iff hl).mp h⟩
    · rintro ⟨_,hd,h⟩
      obtain rfl := PyVal.list.inj hd
      exact ⟨h.length_eq,(jsonEqualList_iff h.length_eq).mpr h⟩
  | _ => simp [jsonEqual]

lemma jsonEqual_dict {kvs : List (PyKey × PyVal)} : jsonEqual d (.dict kvs) = true ↔
    ∃ kws, d = .dict kws ∧ kws.length = kvs.length ∧
      ∀ p ∈ kvs, ∃ w, find kws p.1 = some w ∧ jsonEqual w p.2 = true := by
  cases d with
  | dict kws =>
    rw [jsonEqual,Bool.and_eq_true,decide_eq_true_eq,jsonEqualItems_iff]
    constructor
    · exact fun h => ⟨kws,rfl,h⟩
    · rintro ⟨_,hd,h⟩
      obtain rfl := PyVal.dict.inj hd
      exact h
  | _ => simp [jsonEqual]

/-- What equals a value of the same type, the left one read from JSON, equals it for Python. -/
theorem pyEq_of_jsonEqual (hd : d.Loaded) (h : jsonEqual d v = true) : v.pyEq d = true := by
  induction v using PyVal.ind generalizing d with
  | none | bool x | int x | str x | bytes x | object x =>
    cases d <;> simp_all [jsonEqual,sameType,pyEq,PyVal.num]
  | float x =>
    cases d with
    | float y =>
      simp only [jsonEqual,sameType,pyEq,PyVal.num,Bool.true_and,Bool.and_eq_true] at h ⊢
      have hxy := of_decide_eq_true h.2
      exact ⟨hxy ▸ h.1,decide_eq_true hxy.symm⟩
    | _ => simp [jsonEqual,sameType] at h
  | tuple xs _ =>
    cases d with
    | tuple ys => exact hd.elim
    | _ => simp [jsonEqual,sameType] at h
  | list vs ih =>
    obtain ⟨ds,rfl,hds⟩ := jsonEqual_list.mp h
    rw [Loaded,loadedList_iff] at hd
    rw [pyEq,pyEqList_iff]
    refine (forall₂_mem_imp ((List.forall₂_and_left _ _).mpr ⟨hd,hds⟩) fun v hv d hdv => ?_).flip
    exact ih v hv hdv.1 hdv.2
  | dict kvs ih =>
    obtain ⟨kws,rfl,hl,hf⟩ := jsonEqual_dict.mp h
    rw [pyEq,Bool.and_eq_true,decide_eq_true_eq,pyEqItems_iff]
    refine ⟨hl.symm,fun p hp => ?_⟩
    obtain ⟨w,hw,hwp⟩ := hf p hp
    obtain ⟨q,hq,rfl⟩ := Option.map_eq_some_iff.mp hw
    exact ⟨q.2,hw,ih p hp (hd.item (List.mem_of_find?_eq_some hq)) hwp⟩

/-- JSON values that are written alike are equal, and of the same types. -/
theorem jsonEqual_of_toJson (ha : a.IsJson) (hb : b.IsJson) (h : a.toJson o = b.toJson o) :
    jsonEqual a b = true := by
  induction b using PyVal.ind generalizing a with
  | none | bool x | int x | str x =>
    cases a <;> simp_all [toJson,jsonEqual,sameType,pyEq,PyVal.num,IsJson]
  | float x =>
    obtain ⟨f,rfl⟩ := hb
    cases a <;> simp_all [toJson,jsonEqual,sameType,pyEq,PyVal.num,PyFloat.num,IsJson]
  | bytes x | object x | tuple xs _ => exact hb.elim
  | list ys ih =>
    cases a with
    | list xs =>
      rw [IsJson,isJsonList_iff] at ha hb
      rw [toJson,toJson,toJsonList_eq,toJsonList_eq,PyVal.list.injEq,← List.forall₂_eq_eq_eq,
        List.forall₂_map_left_iff,List.forall₂_map_right_iff] at h
      refine jsonEqual_list.mpr ⟨xs,rfl,?_⟩
      refine forall₂_mem_imp ((List.forall₂_and_left _ _).mpr ⟨ha,h⟩) fun y hy x hxy => ?_
      exact ih y hy hxy.1 (hb y hy) hxy.2
    | dict kws => simp [toJson] at h
    | _ => simp_all [toJson,IsJson]
  | dict kvs ih =>
    cases a with
    | dict kws =>
      have hs := isJson_strDict ha
      have ht := isJson_strDict hb
      have hw := toJson_strDict (o := o) hs
      have hl : kws.length = kvs.length := by
        rw [hw,toJson_strDict ht,PyVal.dict.injEq] at h
        simpa [(sortItems_perm o _).length_eq] using congrArg List.length h
      refine jsonEqual_dict.mpr ⟨kws,rfl,hl,fun p hp => ?_⟩
      obtain ⟨s,hk⟩ := ht.keys p hp
      -- the key's value, read back, is the same in both
      have hf := find_toJson ht (h ▸ hw) s
      rw [find_toJson hs hw,(find_str (v := p.2) ht.nodup).mpr (hk ▸ hp),Option.map_some,
        Option.map_eq_some_iff] at hf
      obtain ⟨w,hw,hwp⟩ := hf
      rw [IsJson,isJsonItems_iff] at ha hb
      exact ⟨w,hk ▸ hw,ih p hp (ha.2 _ ((find_str hs.nodup).mp hw)).2 (hb.2 p hp).2 hwp⟩
    | _ => simp_all [toJson,IsJson]

/-- The canonical form of a value gives it back, its types included, exactly when it is a JSON value. -/
theorem jsonEqual_image_iff {t : PyStr} (h : canonicalText v = .ok t) :
    jsonEqual (canonicalImage v) v = true ↔ v.IsJson := by
  have hd := (canonicalText_ok.mp h).1
  have hi := isJson_canonicalImage h
  constructor
  · exact fun he => isJson_of_pyEq rfl hd (pyEq_of_jsonEqual hi.loaded he)
  · intro hv
    -- written again, what was read gives the same text
    have ht : canonicalText (canonicalImage v) = .ok t := by
      rw [← h,canonicalText,canonicalText,dumps_toJson hv]
    have hl := loads_canonicalText ht
    rw [loads_canonicalText h] at hl
    exact jsonEqual_of_toJson (o := canonicalOpts) hi hv (Option.some.inj hl).symm

end Types

section Accepted

variable {H H' : Hasher} {chunks chunks' : List SteleChunk} {c c' : SteleChunk}

/-- Metadata that validate_chunks accepts: a JSON object with a canonical form. -/
structure SteleChunk.Canonical (c : SteleChunk) : Prop where
  isDict : ∃ kvs, c.metadata = .dict kvs
  isJson : c.metadata.IsJson
  form : ∃ data, canonicalJson c.metadata = .ok data

theorem checkMetadata_iff {i : ℕ} : checkMetadata i c = .ok () ↔ c.Canonical := by
  unfold checkMetadata
  split
  · rename_i kvs hkvs
    split
    · rename_i exc ht
      refine ⟨nofun,fun h => ?_⟩
      obtain ⟨data,hdata⟩ := h.form
      obtain ⟨t,ht',-⟩ := canonicalJson_ok.mp hdata
      cases ht.symm.trans ht'
    · rename_i t ht
      rw [loads_canonicalText ht]
      simp only [ite_eq_left_iff,reduceCtorEq,imp_false,not_not,jsonEqual_image_iff ht]
      exact ⟨fun h => ⟨⟨kvs,hkvs⟩,h,_,canonicalJson_ok.mpr ⟨t,ht,rfl⟩⟩,fun h => h.isJson⟩
  · rename_i hkvs
    refine ⟨nofun,fun h => ?_⟩
    obtain ⟨kvs,h⟩ := h.isDict
    exact (hkvs kvs h).elim

lemma SteleChunk.Checked.canonical (h : c.Checked H) : c.Canonical :=
  checkMetadata_iff.mp h.metadata.choose_spec

lemma validateChunks_canonical (h : validateChunks H chunks = .ok ()) (hc : c ∈ chunks) : c.Canonical :=
  (validateChunks_checked h c hc).canonical

/-- The canonical bytes of accepted metadata keep the types of its values: decoding gives them back, and
metadata with the same bytes has the same types throughout. -/
theorem metadata_types_kept (h : validateChunks H chunks = .ok ()) (h' : validateChunks H' chunks' = .ok ())
    (hc : c ∈ chunks) (hc' : c' ∈ chunks') :
    (∃ data decoded, canonicalJson c.metadata = .ok data ∧ loadsBytes data = some decoded ∧
      jsonEqual decoded c.metadata = true) ∧
    (canonicalJson c.metadata = canonicalJson c'.metadata →
      jsonEqual c.metadata c'.metadata = true ∧ jsonEqual c'.metadata c.metadata = true) := by
  have hm := validateChunks_canonical h hc
  have hm' := validateChunks_canonical h' hc'
  obtain ⟨data,hdata⟩ := hm.form
  obtain ⟨t,ht,rfl⟩ := canonicalJson_ok.mp hdata
  constructor
  · refine ⟨_,_,hdata,?_,(jsonEqual_image_iff ht).mpr hm.isJson⟩
    obtain ⟨kvs,hkvs⟩ := hm.isDict
    obtain ⟨hd,he⟩ := canonicalText_ok.mp ht
    rw [loadsBytes_dict (hkvs ▸ hd) he,loads_canonicalText ht]
  · intro he
    have hi := canonicalJson_inj hdata (he ▸ hdata)
    exact ⟨jsonEqual_of_toJson hm.isJson hm'.isJson hi,jsonEqual_of_toJson hm'.isJson hm.isJson hi.symm⟩

lemma mant_one : 2^52 < 2^53 := by decide

/-- A chunk whose metadata holds 1, 1.0 and true. -/
def typedChunk : SteleChunk where
  chunkId := lit "c1"
  content := lit "text"
  contentHash := Hasher.checksum.hexdigest (utf8 (lit "text"))
  tokenCount := .int 1
  metadata := .dict [(.str (lit "b"),.list [.int 1,.float (.finite ⟨false,2^52,1022,mant_one,by decide,by decide⟩)]),
    (.str (lit "a"),.bool true)]

/-- Its metadata is the same in another order. -/
def reorderedChunk : SteleChunk := {typedChunk with
  metadata := .dict [(.str (lit "a"),.bool true),
    (.str (lit "b"),.list [.int 1,.float (.finite ⟨false,2^52,1022,mant_one,by decide,by decide⟩)])]}

theorem metadata_types_kept_sample :
    (∃ data decoded, canonicalJson typedChunk.metadata = .ok data ∧ loadsBytes data = some decoded ∧
      jsonEqual decoded typedChunk.metadata = true) ∧
    jsonEqual typedChunk.metadata reorderedChunk.metadata = true := by
  have hv : validateChunks .checksum [typedChunk] = .ok () := by decide +kernel
  have hv' : validateChunks .checksum [reorderedChunk] = .ok () := by decide +kernel
  have h := metadata_types_kept hv hv' (List.mem_singleton_self _) (List.mem_singleton_self _)
  exact ⟨h.1,(h.2 (by decide +kernel)).1⟩

end Accepted

end Stele
