import Stele.Archive.TreeRoundTrip
import Stele.Ledger.Verify

/-! What a row of artifact_records stands for: the values it was written from, how they are
read back, and that create_pending writes only such rows. -/
namespace Stele
open Python

variable {H : Hasher}

/-- The values of one record. -/
structure RowData where
  recordId : PyStr
  runId : PyStr
  sourceHash : Option PyStr
  sourceKind : Option SnapshotKind
  sourceId : Option PyStr
  parser : ParserIdentity
  config : PyVal
  backend : Option PyStr
  artifactDir : PyStr
  manifest : Manifest
  artifactHash : PyStr
  conditions : Option RunConditions
  state : ArtifactState

/-- What a run_conditions column holds. -/
def HoldsConditions (c : TextCell) : Option RunConditions → Prop
  | none => c = .null
  | some r => ∃ t, c = .text t ∧ loads t = some (canonicalImage r.toDict) ∧
      (canonicalImage r.toDict).IsJson

/-- The row holds these values, each in its column's encoding. -/
structure RecordRow.Holds (H : Hasher) (r : RecordRow) (d : RowData) : Prop where
  recordId : r.recordId = .text d.recordId
  runId : r.runId = .text d.runId
  sourceHash : r.sourceHash = .ofOption d.sourceHash
  sourceKind : r.sourceKind = .ofOption (d.sourceKind.map SnapshotKind.value)
  sourceId : r.sourceId = .ofOption d.sourceId
  parserName : r.parserName = .text d.parser.name
  parserVersion : r.parserVersion = .text d.parser.version
  parserImageDigest : r.parserImageDigest = .ofOption d.parser.imageDigest
  parserModuleSha256 : r.parserModuleSha256 = .ofOption d.parser.moduleSha256
  parserConfig : ∃ t, r.parserConfig = .text t ∧ loads t = some d.config
  config : d.config.IsJson
  backend : r.backend = .ofOption d.backend
  artifactDir : r.artifactDir = .text d.artifactDir
  artifactManifest : ∃ t, r.artifactManifest = .text t ∧ loads t = some d.manifest.toPy
  paths : (d.manifest.map Prod.fst).Nodup
  artifactHash : r.artifactHash = .text d.artifactHash
  hash : sha256Manifest H d.manifest = .ok d.artifactHash
  conditions : HoldsConditions r.runConditions d.conditions
  state : r.state = .text d.state.value

section Reading

lemma find_lit {k : String} {v : PyVal} {kvs : List (PyKey × PyVal)} :
    PyVal.find ((.str (lit k),v) :: kvs) (.str (lit k)) = some v := by simp [PyVal.find]

lemma find_lit_ne {k l : String} {v : PyVal} {kvs : List (PyKey × PyVal)} (h : k ≠ l) :
    PyVal.find ((.str (lit k),v) :: kvs) (.str (lit l)) = PyVal.find kvs (.str (lit l)) := by
  simp [PyVal.find,h]

lemma optionStr_ofOption (s : Option PyStr) : optionStr (TextCell.ofOption s).toPy = some s := by
  cases s <;> rfl

lemma ParserIdentity.make_self (p : ParserIdentity) : make (TextCell.text p.name).toPy
    (TextCell.text p.version).toPy (TextCell.ofOption p.imageDigest).toPy
    (TextCell.ofOption p.moduleSha256).toPy = some p := by
  obtain ⟨name,version,image,module,h1,h2,h3,h4⟩ := p
  simp only [make,optionStr_ofOption]
  simp only [TextCell.toPy]
  rw [dif_pos ⟨h1,h2,h3,h4⟩]

/-- The conditions are what from_dict makes of their own dict. -/
lemma RunConditions.fromDict_image {c : RunConditions} (h : (canonicalImage c.toDict).IsJson) :
    RunConditions.fromDict (canonicalImage c.toDict) = .ok c := by
  obtain ⟨device,memory,cpus,pids,timeout,hm,hc,hp,ht⟩ := c
  have himg : canonicalImage (RunConditions.toDict ⟨device,memory,cpus,pids,timeout,hm,hc,hp,ht⟩) =
      .dict [(.str (lit "cpus"),canonicalImage (optionPy .float cpus)),
        (.str (lit "device"),.str device.value),(.str (lit "memory"),canonicalImage (optionPy .str memory)),
        (.str (lit "pids_limit"),canonicalImage (optionPy (fun n : ℕ => .int n) pids)),
        (.str (lit "timeout_seconds"),canonicalImage (optionPy (fun n : ℕ => .int n) timeout))] := rfl
  have hdev : readDevice (.str device.value) = some device := by
    cases device <;> simp [readDevice,Device.value]
  have hmem : readMemory (canonicalImage (optionPy .str memory)) = some ⟨memory,hm⟩ := by
    cases memory with
    | none => rfl
    | some m => simp [optionPy,PyVal.toJson,readMemory,hm m rfl]
  have hcpu : readCpus (canonicalImage (optionPy .float cpus)) = .ok ⟨cpus,hc⟩ := by
    cases cpus with
    | none => rfl
    | some f => simp [optionPy,PyVal.toJson,readCpus,positiveFloat,hc f rfl]
  have hcount : ∀ (n : Option ℕ) (hn : ∀ k ∈ n, 0 < k),
      readCount (canonicalImage (optionPy (fun n : ℕ => .int n) n)) = some ⟨n,hn⟩ := by
    intro n hn
    cases n with
    | none => rfl
    | some n =>
      obtain ⟨m,rfl⟩ := Nat.exists_eq_succ_of_ne_zero (hn n rfl).ne'
      rfl
  have hkeys : ([(.str (lit "cpus"),canonicalImage (optionPy .float cpus)),
      (.str (lit "device"),.str device.value),(.str (lit "memory"),canonicalImage (optionPy .str memory)),
      (.str (lit "pids_limit"),canonicalImage (optionPy (fun n : ℕ => .int n) pids)),
      (.str (lit "timeout_seconds"),canonicalImage (optionPy (fun n : ℕ => .int n) timeout))] :
      List (PyKey × PyVal)).all (fun p => fieldNames.any fun f => p.1.eq (.str (lit f))) = true := by
    simp [fieldNames]
  rw [himg,fromDict,if_pos hkeys]
  simp only [getStr,PyVal.find,List.find?_cons,PyVal.keyEq_str,lit_inj,String.reduceEq,decide_true,
    decide_false,Option.map_some,Option.getD_some,make,hdev,hmem,hcpu,hcount pids hp,hcount timeout ht,
    Option.elim_some]
  rfl

/-- _row_to_record of a row that holds d. -/
theorem RecordRow.Holds.rowToRecord {r : RecordRow} {d : RowData} (h : r.Holds H d) :
    rowToRecord r = .ok ⟨r.recordId,r.runId,r.sourcePath,r.sourceHash,d.sourceKind,r.sourceId,
      some d.parser,some d.config,r.backend,r.artifactDir,d.manifest.toPy,r.artifactHash,d.state,
      r.error,r.legacySourceHash,d.conditions⟩ := by
  have hparser : parserOfRow r = .ok (some d.parser) := by
    have hm := ParserIdentity.make_self d.parser
    simp only [TextCell.toPy] at hm
    simp only [parserOfRow,h.parserName,h.parserVersion,h.parserImageDigest,h.parserModuleSha256,
      reduceCtorEq,if_false,TextCell.toPy,hm,Option.elim_some]
  have hkind : kindOfColumn r.sourceKind = .ok d.sourceKind := by
    rw [h.sourceKind]
    rcases d.sourceKind with _ | k
    · rfl
    · cases k <;> decide
  have hconfig : loadsNullable r.parserConfig = .ok (some d.config) := by
    obtain ⟨t,ht,hl⟩ := h.parserConfig
    simp [ht,loadsNullable,loadsColumn,hl,Except.map]
  have hmanifest : loadsColumn r.artifactManifest = .ok d.manifest.toPy := by
    obtain ⟨t,ht,hl⟩ := h.artifactManifest
    simp [ht,loadsColumn,hl]
  have hstate : stateOfColumn r.state = .ok d.state := by simp [h.state,stateOfColumn]
  have hconditions : conditionsOfColumn r.runConditions = .ok d.conditions := by
    have hc := h.conditions
    cases hd : d.conditions with
    | none =>
      rw [hd] at hc
      rw [hc]
      rfl
    | some c =>
      rw [hd] at hc
      obtain ⟨t,ht,hl,hj⟩ := hc
      simp only [ht,conditionsOfColumn,loadsNullable,loadsColumn,hl,Option.elim_some,Except.map,
        RunConditions.fromDict_image hj]
  simp only [Stele.rowToRecord,hparser,hkind,hconfig,hmanifest,hstate,hconditions,bind,Except.bind]
  rfl

end Reading

section Manifests

lemma Manifest.toPy_isJson {m : Manifest} (hn : (m.map Prod.fst).Nodup) : m.toPy.IsJson := by
  rw [Manifest.toPy,PyVal.IsJson,PyVal.isJsonItems_iff]
  constructor
  · rw [List.map_map]
    have h : m.map (Prod.fst ∘ fun p => (PyKey.str p.1,PyVal.str p.2)) =
        (m.map Prod.fst).map PyKey.str := by rw [List.map_map]; rfl
    rw [h]
    exact hn.map fun _ _ => PyKey.str.inj
  · intro p hp
    obtain ⟨q,_,rfl⟩ := List.mem_map.mp hp
    exact ⟨⟨q.1,rfl⟩,trivial⟩

/-- Its text reads back as the manifest, whose strings are all encodable once it has a hash. -/
lemma loads_manifestText {m : Manifest} {hash t : PyStr} (hn : (m.map Prod.fst).Nodup)
    (hh : sha256Manifest H m = .ok hash) (ht : manifestText m = .ok t) :
    loads t = some m.toPy := by
  obtain ⟨b,hb⟩ : ∃ b, encodeManifest m = .ok b := by
    unfold sha256Manifest at hh
    cases he : encodeManifest m with
    | error e => rw [he] at hh; cases hh
    | ok b => exact ⟨b,rfl⟩
  have henc := (encodeManifest_ok hb).1
  have htexts : ∀ s ∈ m.toPy.texts defaultOpts, Encodable s := by
    clear hn hh ht hb
    unfold Manifest.toPy
    induction m with
    | nil => simp [PyVal.texts,PyVal.textsItems]
    | cons p m ih =>
      intro s hs
      simp only [PyVal.texts,List.map_cons,PyVal.textsItems,List.mem_cons,List.cons_append,
        List.nil_append] at hs
      rcases hs with rfl | rfl | hs
      · exact (henc p (by simp)).1
      · exact (henc p (by simp)).2
      · exact ih (fun q hq => henc q (List.mem_cons_of_mem _ hq)) s hs
  have hd : dumps defaultOpts m.toPy = .ok t := by
    unfold manifestText at ht
    cases hd : dumps defaultOpts m.toPy with
    | error e => rw [hd] at ht; cases ht
    | ok u => rw [hd] at ht; rw [Except.ok.inj ht]
  rw [loads_dumps hd fun _ => htexts]
  have hj := Manifest.toPy_isJson hn
  rw [Manifest.toPy] at hj ⊢
  rw [toJson_strDict (isJson_strDict hj)]
  simp [sortItems,defaultOpts,PyVal.toJson,Function.comp_def]

lemma buildManifest_nodup {dir : PurePath} {reads : Reads} {paths : List PurePath} {i : ℕ}
    {m n : Manifest} (h : buildManifest H dir reads paths i m = .ok n)
    (hm : (m.map Prod.fst).Nodup) : (n.map Prod.fst).Nodup := by
  induction paths generalizing i m with
  | nil => exact Except.ok.inj h ▸ hm
  | cons path paths ih =>
    rw [buildManifest] at h
    obtain ⟨rel,_,h⟩ := except_bind_ok.mp h
    obtain ⟨data,_,h⟩ := except_bind_ok.mp h
    exact ih h (Dict.nodup_set hm rel _)

/-- verify_ledger hashes the manifest as create_pending did. -/
lemma manifestHash_toPy (m : Manifest) : manifestHash H m.toPy = sha256Manifest H m := by
  have hsort : sortItems canonicalOpts (m.map fun p => (PyKey.str p.1,PyVal.str p.2)) =
      (sortPaths m).map fun p => (PyKey.str p.1,PyVal.str p.2) := by
    simp only [sortItems,canonicalOpts,sortPaths,if_true]
    exact (List.map_insertionSort _ _ (fun p : PyStr × PyStr => (PyKey.str p.1,PyVal.str p.2)) m
      fun _ _ _ _ => by simp [PyKey.le]).symm
  rw [Manifest.toPy,manifestHash,hsort,List.mapM_map,sha256Manifest,encodeManifest]
  have hentry : (manifestEntry ∘ fun p : PyStr × PyStr => (PyKey.str p.1,PyVal.str p.2)) =
      encodeEntry := rfl
  rw [hentry]
  cases (sortPaths m).mapM encodeEntry <;> rfl

end Manifests

section Committed

@[simp] lemma TextCell.ofOption_isJson (s : Option PyStr) : (TextCell.ofOption s).toPy.IsJson := by
  cases s <;> trivial

@[simp] lemma TextCell.text_isJson (s : PyStr) : (TextCell.text s).toPy.IsJson := trivial

/-- The columns of a record as Python values. -/
def RowData.conditionsPy (d : RowData) : PyVal :=
  (d.conditions.map fun c => canonicalImage c.toDict).getD .none

/-- What is compared of a row that holds d. -/
def RecordRow.compared (r : RecordRow) (d : RowData) : RecordFields :=
  ⟨r.artifactHash.toPy,parserPy r,d.config,d.conditionsPy,r.runId.toPy,r.sourceHash.toPy,
    r.state.toPy⟩

namespace RecordRow.Holds

variable {r : RecordRow} {d : RowData}

lemma loadsConfig (h : r.Holds H d) : loadsNullable r.parserConfig = .ok (some d.config) := by
  obtain ⟨t,ht,hl⟩ := h.parserConfig
  simp [ht,loadsNullable,loadsColumn,hl,Except.map]

lemma loadsConditions (h : r.Holds H d) : loadsNullable r.runConditions =
    .ok (d.conditions.map fun c => canonicalImage c.toDict) := by
  have hc := h.conditions
  cases hd : d.conditions with
  | none =>
    rw [hd] at hc
    rw [hc]
    rfl
  | some c =>
    rw [hd] at hc
    obtain ⟨t,ht,hl,_⟩ := hc
    simp [ht,loadsNullable,loadsColumn,hl,Except.map]

lemma conditions_isJson (h : r.Holds H d) : d.conditionsPy.IsJson := by
  have hc := h.conditions
  unfold RowData.conditionsPy
  cases hd : d.conditions with
  | none => trivial
  | some c =>
    rw [hd] at hc
    exact hc.choose_spec.2.2

theorem fields (h : r.Holds H d) : r.fields H = .ok (r.compared d,d.artifactHash) := by
  obtain ⟨t,ht,hl⟩ := h.artifactManifest
  simp only [RecordRow.fields,RecordRow.fieldsBy,loadNullableBy_loadsColumn,h.loadsConfig,
    h.loadsConditions,ht,loadsColumn,hl,Option.elim_some,manifestHash_toPy,h.hash,bind,Except.bind]
  rfl

/-- The items of a record's body. -/
def bodyItems (r : RecordRow) (d : RowData) : List (PyKey × PyVal) :=
  [(.str (lit "run_id"),r.runId.toPy),(.str (lit "artifact_hash"),r.artifactHash.toPy),
    (.str (lit "source_hash"),r.sourceHash.toPy),(.str (lit "source_kind"),r.sourceKind.toPy),
    (.str (lit "source_id"),r.sourceId.toPy),(.str (lit "parser"),parserPy r),
    (.str (lit "parser_config"),d.config),(.str (lit "backend"),r.backend.toPy),
    (.str (lit "run_conditions"),d.conditionsPy)]

theorem body (h : r.Holds H d) : recordBody r = .ok (.dict (bodyItems r d)) := by
  simp only [recordBody,h.loadsConfig,h.loadsConditions,bind,Except.bind]
  rfl

lemma parser_isJson (h : r.Holds H d) : (parserPy r).IsJson := by
  simp only [parserPy,h.parserName,h.parserVersion,h.parserImageDigest,h.parserModuleSha256,
    reduceCtorEq,if_false,PyVal.IsJson,PyVal.isJsonItems_iff]
  simp

lemma body_isJson (h : r.Holds H d) : (PyVal.dict (bodyItems r d)).IsJson := by
  rw [PyVal.IsJson,PyVal.isJsonItems_iff]
  refine ⟨by simp [bodyItems],?_⟩
  simp [bodyItems,h.parser_isJson,h.config,h.conditions_isJson,h.runId,h.artifactHash,
    h.sourceHash,h.sourceKind,h.sourceId,h.backend]

end RecordRow.Holds

/-- Reading an item of a body that went through its text. -/
lemma itemAt_image {kvs : List (PyKey × PyVal)} (h : StrDict kvs) {k : String}
    {v : PyVal} (hk : PyVal.find kvs (.str (lit k)) = some v) :
    itemAt (canonicalImage (.dict kvs)) k = .ok (canonicalImage v) := by
  have he := toJson_strDict (o := canonicalOpts) h
  rw [canonicalImage,he,itemAt,find_toJson h he,hk]
  rfl

lemma itemOr_image {kvs : List (PyKey × PyVal)} (h : StrDict kvs) {k : String}
    {v w : PyVal} (hk : PyVal.find kvs (.str (lit k)) = some v) :
    itemOr (canonicalImage (.dict kvs)) k w = .ok (canonicalImage v) := by
  have he := toJson_strDict (o := canonicalOpts) h
  rw [canonicalImage,he,itemOr,find_toJson h he,hk]
  rfl

lemma itemOr_image_none {kvs : List (PyKey × PyVal)} (h : StrDict kvs) {k : String}
    {w : PyVal} (hk : PyVal.find kvs (.str (lit k)) = none) :
    itemOr (canonicalImage (.dict kvs)) k w = .ok w := by
  have he := toJson_strDict (o := canonicalOpts) h
  rw [canonicalImage,he,itemOr,find_toJson h he,hk]
  rfl

/-- Field by field alike. -/
def RecordFields.Alike (a b : RecordFields) : Prop :=
  List.Forall₂ Python.Alike (a.items.map Prod.snd) (b.items.map Prod.snd)

lemma RecordRow.Holds.compared_isJson {r : RecordRow} {d : RowData} (h : r.Holds H d) :
    ∀ v ∈ (r.compared d).items.map Prod.snd, v.IsJson := by
  simp [RecordFields.items,RecordRow.compared,h.artifactHash,h.parser_isJson,h.config,
    h.conditions_isJson,h.runId,h.sourceHash,h.state]

/-- What the chain says of a record just created is what its row says. -/
theorem RecordRow.Holds.logged {r : RecordRow} {d : RowData} (h : r.Holds H d)
    (hs : d.state = .pending) : ∃ f, loggedRecord (canonicalImage (.dict (bodyItems r d))) = .ok f ∧
      (r.compared d).Alike f := by
  have hj := isJson_strDict h.body_isJson
  refine ⟨⟨canonicalImage r.artifactHash.toPy,canonicalImage (parserPy r),canonicalImage d.config,
    canonicalImage d.conditionsPy,canonicalImage r.runId.toPy,canonicalImage r.sourceHash.toPy,
    .str ArtifactState.pending.value⟩,?_,?_⟩
  · rw [loggedRecord,itemAt_image hj rfl,itemAt_image hj rfl,itemOr_image hj rfl,itemOr_image hj rfl,
      itemOr_image hj rfl,itemOr_image hj rfl,itemOr_image_none hj rfl]
    rfl
  · have hc := h.compared_isJson
    simp only [RecordFields.items,List.map_cons,List.map_nil,List.forall_mem_cons] at hc
    obtain ⟨h1,h2,h3,h4,h5,h6,_⟩ := hc
    refine .cons (alike_toJson h1) (.cons (alike_toJson h2) (.cons (alike_toJson h3)
      (.cons (alike_toJson h4) (.cons (alike_toJson h5) (.cons (alike_toJson h6) (.cons ?_ .nil))))))
    rw [RecordRow.compared,h.state,hs]
    exact Alike.refl trivial

end Committed

section Created

lemma canonicalParserConfig_ok {v : PyVal} {t : PyStr} (h : canonicalParserConfig v = .ok t) :
    ∃ c, loads t = some c ∧ c.IsJson ∧ c.pyEq v = true := by
  unfold canonicalParserConfig at h
  split at h
  · rename_i kvs
    split at h
    · cases h
    rename_i encoded ht
    split at h
    · cases h
    rename_i decoded hl
    split_ifs at h with he
    obtain rfl := Except.ok.inj h
    refine ⟨decoded,hl,?_,by simpa using he⟩
    rw [loads_canonicalText ht] at hl
    exact Option.some.inj hl ▸ isJson_canonicalImage ht
  · cases h

lemma conditionsText_ok {c : Option RunConditions} {t : Option PyStr}
    (h : conditionsText c = .ok t) : HoldsConditions (.ofOption t) c := by
  cases c with
  | none => exact (Except.ok.inj h) ▸ rfl
  | some c =>
    rw [conditionsText] at h
    cases ht : canonicalText c.toDict with
    | error e => rw [ht] at h; cases h
    | ok u =>
      rw [ht] at h
      obtain rfl := Except.ok.inj h
      exact ⟨u,rfl,loads_canonicalText ht,isJson_canonicalImage ht⟩

/-- What create_pending has computed when it inserts a record. -/
structure Prepared (H : Hasher) (e : Env) (a : PendingArgs) (input : InputColumns)
    (config : PyStr) (conditions : Option PyStr) (manifest : Manifest)
    (hash manifestJson : PyStr) : Prop where
  config : canonicalParserConfig a.parserConfig = .ok config
  conditions : conditionsText a.runConditions = .ok conditions
  kind : input.sourceKind = a.inputSnapshot.map fun s => s.kind.value
  built : buildManifest H a.artifactDir e.reads a.artifactPaths 0 [] = .ok manifest
  hashed : sha256Manifest H manifest = .ok hash
  text : manifestText manifest = .ok manifestJson

/-- The values of the record that these arguments make. -/
def Prepared.data (e : Env) (a : PendingArgs) (input : InputColumns) (config : PyVal)
    (manifest : Manifest) (hash : PyStr) : RowData where
  recordId := e.uuid
  runId := a.runId
  sourceHash := input.sourceHash
  sourceKind := a.inputSnapshot.map Snapshot.kind
  sourceId := input.sourceId
  parser := a.parser
  config := config
  backend := a.backend
  artifactDir := a.artifactDir.toStr
  manifest := manifest
  artifactHash := hash
  conditions := a.runConditions
  state := .pending

/-- The row of create_pending holds its arguments. -/
theorem Prepared.holds {e : Env} {a : PendingArgs} {input : InputColumns} {config : PyStr}
    {conditions : Option PyStr} {manifest : Manifest} {hash manifestJson : PyStr}
    (h : Prepared H e a input config conditions manifest hash manifestJson) {r : RecordRow}
    (hr : pendingRow e.uuid e.now a input (.text config) (.ofOption conditions) manifestJson hash =
      .ok r) :
    ∃ c, c.IsJson ∧ c.pyEq a.parserConfig = true ∧ r.Holds H (data e a input c manifest hash) ∧
      r.sourcePath = .ofOption input.sourcePath ∧ r.finalizedAt = .null ∧ r.error = .null ∧
      r.legacySourceHash = .null := by
  obtain ⟨c,hc,hj,heq⟩ := canonicalParserConfig_ok h.config
  unfold pendingRow at hr
  obtain ⟨_,h1,hr⟩ := except_bind_ok.mp hr
  obtain ⟨_,h2,hr⟩ := except_bind_ok.mp hr
  obtain ⟨_,h3,hr⟩ := except_bind_ok.mp hr
  obtain ⟨_,h4,hr⟩ := except_bind_ok.mp hr
  obtain ⟨_,h5,hr⟩ := except_bind_ok.mp hr
  obtain ⟨_,h6,hr⟩ := except_bind_ok.mp hr
  obtain ⟨_,h7,hr⟩ := except_bind_ok.mp hr
  obtain ⟨_,h8,hr⟩ := except_bind_ok.mp hr
  obtain ⟨_,h9,hr⟩ := except_bind_ok.mp hr
  obtain ⟨_,h10,hr⟩ := except_bind_ok.mp hr
  obtain ⟨_,h11,hr⟩ := except_bind_ok.mp hr
  obtain ⟨_,h12,hr⟩ := except_bind_ok.mp hr
  obtain ⟨_,h13,hr⟩ := except_bind_ok.mp hr
  obtain ⟨_,h14,hr⟩ := except_bind_ok.mp hr
  obtain ⟨_,h15,hr⟩ := except_bind_ok.mp hr
  obtain rfl := Except.ok.inj hr
  have hn := buildManifest_nodup h.built List.nodup_nil
  refine ⟨c,hj,heq,?_,bindOption_ok h3,rfl,rfl,rfl⟩
  exact {
    recordId := bindText_ok h1
    runId := bindText_ok h2
    sourceHash := bindOption_ok h5
    sourceKind := by
      rw [bindOption_ok h6,h.kind]
      simp [data,Option.map_map,Function.comp_def]
    sourceId := bindOption_ok h4
    parserName := bindText_ok h7
    parserVersion := bindText_ok h8
    parserImageDigest := bindOption_ok h9
    parserModuleSha256 := bindOption_ok h10
    parserConfig := ⟨config,rfl,hc⟩
    config := hj
    backend := bindOption_ok h11
    artifactDir := bindText_ok h12
    artifactManifest := ⟨manifestJson,bindText_ok h13,loads_manifestText hn h.hashed h.text⟩
    paths := hn
    artifactHash := bindText_ok h14
    hash := h.hashed
    conditions := conditionsText_ok h.conditions
    state := rfl }

end Created

section Moved

/-- A transition changes the state, and nothing else that the row holds. -/
lemma RecordRow.Holds.moved {r : RecordRow} {d : RowData} (h : r.Holds H d) (s : ArtifactState)
    (finalizedAt : TextCell) (error : Option TextCell) :
    (r.moved s finalizedAt error).Holds H {d with state := s} := by
  cases h
  constructor <;> first | assumption | rfl

end Moved

end Stele
