import Stele.Extraction.Honest
import Stele.Extraction.MarkdownBlocks
import Stele.Lib.Outline

/-! The sections of a Markdown extraction: the parent of each unit is the section that the headings
before it have left open, so it always comes earlier. -/
namespace Stele
open Python

namespace Markdown

variable {H : Hasher} {b : SealedBundle} {path digest : PyStr} {data : Bytes} {rs : List (ℕ × ℕ)} {n : ℕ}
  {as : List UnitArgs} {us : List ExtractionUnit} {u : ExtractionUnit} {e : Extraction}

/-- A unit in the outline of its document. -/
def entry (u : ExtractionUnit) : Option ℕ × PyStr := (u.level,u.id)

/-- The parent of each unit is the section around it. -/
structure Sectioned (us : List ExtractionUnit) : Prop where
  other : ∀ pre u post, us = pre++u :: post → u.kind ≠ .heading →
    (u.parent = .none ∧ ∀ v ∈ pre, v.kind ≠ .heading) ∨
      ∃ id, u.parent = .str id ∧ Outline.Last (pre.map entry) id
  heading : ∀ pre u post, us = pre++u :: post → u.kind = .heading → ∃ n, u.level = some n ∧
    ((u.parent = .none ∧ ∀ a l id c, pre.map entry = a++(some l,id) :: c → ¬Outline.Encloses n l c) ∨
      ∃ id, u.parent = .str id ∧ Outline.Nearest n (pre.map entry) id)

/-- The parents that the loop gives to the units after `pre`. -/
def Nested : List (Option ℕ × PyStr) → List ExtractionUnit → Prop
  | _,[] => True
  | pre,u :: us => u.parent = RunConditions.optionPy .str (Outline.parent pre u.level) ∧
      (u.kind = .heading ↔ u.level.isSome = true) ∧ Nested (pre++[entry u]) us

lemma Nested.at {pre : List (Option ℕ × PyStr)} {vs post : List ExtractionUnit} (h : Nested pre (vs++u :: post)) :
    u.parent = RunConditions.optionPy .str (Outline.parent (pre++vs.map entry) u.level) ∧
      (u.kind = .heading ↔ u.level.isSome = true) := by
  induction vs generalizing pre with
  | nil =>
    rw [List.map_nil,List.append_nil]
    exact ⟨h.1,h.2.1⟩
  | cons v vs ih =>
    have := ih h.2.2
    rwa [List.append_assoc] at this

/-- With nothing before the units the parents are the sections around them. -/
theorem Nested.sectioned (h : Nested [] us) : Sectioned us where
  other pre u post he hu := by
    subst he
    obtain ⟨hp,hk⟩ := h.at
    have hl : u.level = none := by
      rw [← Option.not_isSome_iff_eq_none,← hk]
      exact hu
    have hspec := Outline.parent_none (pre.map entry)
    rw [hl,List.nil_append] at hp
    cases ho : Outline.parent (pre.map entry) none with
    | some id =>
      rw [ho] at hp hspec
      exact .inr ⟨id,hp,hspec⟩
    | none =>
      rw [ho] at hp hspec
      refine .inl ⟨hp,fun v hv hkind => ?_⟩
      obtain ⟨a,c,rfl⟩ := List.append_of_mem hv
      rw [List.append_assoc] at h
      have := h.at.2.mp hkind
      rw [show v.level = none from hspec (entry v) (List.mem_map_of_mem hv)] at this
      cases this
  heading pre u post he hu := by
    subst he
    obtain ⟨hp,hk⟩ := h.at
    obtain ⟨n,hn⟩ := Option.isSome_iff_exists.mp (hk.mp hu)
    refine ⟨n,hn,?_⟩
    have hspec := Outline.parent_some n (pre.map entry)
    rw [hn,List.nil_append] at hp
    cases ho : Outline.parent (pre.map entry) (some n) with
    | some id =>
      rw [ho] at hp hspec
      exact .inr ⟨id,hp,hspec⟩
    | none =>
      rw [ho] at hp hspec
      exact .inl ⟨hp,hspec⟩

lemma kind_heading {block : Bytes} {k : Kind} {l : Option ℕ} (h : kind block = .ok (k,l)) :
    k = .heading ↔ l.isSome = true := by
  unfold kind at h
  split at h
  · cases h
  obtain h := Except.ok.inj h
  unfold kindOf at h
  dsimp only at h
  split at h
  · cases h
    simp
  · split_ifs at h <;> cases h <;> simp

lemma unitId_ne {id : PyStr} (h : unitId n = .ok id) : id ≠ [] := by
  unfold unitId at h
  split at h
  · cases h
  · cases h
    exact List.cons_ne_nil _ _

lemma unitId_injective {m : ℕ} {id : PyStr} (hm : unitId m = .ok id) (hn : unitId n = .ok id) : m = n := by
  have hval : ∀ k, unitId k = .ok id → natOf id.tail = k := by
    intro k hk
    unfold unitId strInt at hk
    split_ifs at hk
    cases hk
    rw [List.tail_cons,cp_zero,natOf_append,natOf_zeros,natOf_natText,Nat.zero_mul,Nat.zero_add]
  rw [← hval m hm,hval n hn]

/-- The constructor of a unit takes what the loop gives it. -/
lemma number_ok {a : UnitArgs} {id : PyStr} (hid : unitId (n+1) = .ok id) (ht : a.text ≠ [])
    (ha : a.attributes = []) : ∃ u, a.number n = .ok u ∧ u.id = id ∧ u.kind = a.kind ∧ u.order = n ∧
      u.level = a.level ∧ u.parent = RunConditions.optionPy .str a.parent := by
  have hc : canonicalText (.dict []) = .ok (lit "\x7b\x7d") := by rfl
  unfold UnitArgs.number
  rw [hid,ha]
  refine ⟨⟨id,a.kind,a.text,n,a.anchor,none,none,a.level,RunConditions.optionPy .str a.parent,[],
    unitId_ne hid,ht,_,hc⟩,?_,rfl,rfl,rfl,rfl,rfl⟩
  refine except_bind_ok.mpr ⟨id,rfl,?_⟩
  simp only [ExtractionUnit.make,dif_neg (unitId_ne hid),dif_neg ht,ExtractionUnit.readKind_value,
    ExtractionUnit.readNat_natPy]
  rfl

lemma decode_ne_nil {start stop : ℕ} {text : PyStr} (hr : start < stop ∧ stop ≤ data.length)
    (h : blockText path start stop (Blocks.slice data start stop) = .ok text) : text ≠ [] := by
  rintro rfl
  unfold blockText at h
  cases hd : decode (Blocks.slice data start stop) with
  | none =>
    rw [hd] at h
    cases h
  | some t =>
    rw [hd] at h
    cases h
    have hs : Blocks.slice data start stop = [] := (Option.some.inj (encode_decode hd)).symm
    have := congrArg List.length hs
    rw [Blocks.slice,List.length_drop,List.length_take,List.length_nil] at this
    omega

/-- The stack of the loop is that of the outline so far. -/
lemma unitsFrom_nested (hrs : ∀ r ∈ rs, r.1 < r.2 ∧ r.2 ≤ data.length) {pre : List (Option ℕ × PyStr)}
    (h : unitsFrom path digest data rs n (Outline.stack pre) = .ok as) :
    ∃ us, numberUnits n as = .ok us ∧ Nested pre us ∧ ∀ ps qs, rs = ps++qs →
      unitsFrom path digest data qs (n+ps.length) (Outline.stack (pre++(us.take ps.length).map entry)) =
        .ok (as.drop ps.length) := by
  induction rs generalizing n pre as with
  | nil =>
    obtain rfl := Except.ok.inj h
    refine ⟨[],rfl,trivial,fun ps qs he => ?_⟩
    obtain ⟨rfl,rfl⟩ := List.append_eq_nil_iff.mp he.symm
    rfl
  | cons r rs ih =>
    obtain ⟨start,stop⟩ := r
    obtain ⟨hr,hrs⟩ := List.forall_mem_cons.mp hrs
    have hall := h
    rw [unitsFrom] at h
    obtain ⟨text,htext,h⟩ := except_bind_ok.mp h
    obtain ⟨⟨k,l⟩,hk,h⟩ := except_bind_ok.mp h
    obtain ⟨id,hid,h⟩ := except_bind_ok.mp h
    obtain ⟨anchor,-,h⟩ := except_bind_ok.mp h
    obtain ⟨us,hus,h⟩ := except_bind_ok.mp h
    obtain rfl : ⟨k,text,l,Outline.parent pre l,anchor,[]⟩ :: us = as := by
      cases l <;> exact Except.ok.inj h
    have hstack : unitsFrom path digest data rs (n+1) (Outline.stack (pre++[(l,id)])) = .ok us := by
      rw [Outline.stack_concat]
      cases l <;> exact hus
    obtain ⟨vs,hvs,hnest,hrun⟩ := ih hrs hstack
    obtain ⟨u,hu,huid,hukind,-,hulevel,huparent⟩ := 
      number_ok (a := ⟨k,text,l,Outline.parent pre l,anchor,[]⟩) hid (decode_ne_nil hr htext) rfl
    refine ⟨u :: vs,?_,⟨?_,?_,?_⟩,fun ps qs he => ?_⟩
    · rw [numberUnits,hu]
      exact except_bind_ok.mpr ⟨u,rfl,except_bind_ok.mpr ⟨vs,hvs,rfl⟩⟩
    · rw [huparent,hulevel]
    · rw [hukind,hulevel]
      exact kind_heading hk
    · rw [entry,huid,hulevel]
      exact hnest
    · cases ps with
      | nil =>
        rw [← List.nil_append qs,← he,List.length_nil,List.take_zero,List.map_nil,List.append_nil]
        exact hall
      | cons p ps =>
        obtain ⟨rfl,hps⟩ := List.cons.inj he
        have := hrun ps qs hps
        rw [List.append_assoc] at this
        rw [List.length_cons,Nat.add_comm ps.length 1,← Nat.add_assoc,Nat.add_comm 1 ps.length,List.take_succ_cons,
          List.drop_succ_cons,List.map_cons,entry,huid,hulevel]
        exact this

/-- Units in order, with the ids of their places. -/
def Numbered : ℕ → List ExtractionUnit → Prop
  | _,[] => True
  | n,u :: us => u.order = n ∧ unitId (n+1) = .ok u.id ∧ Numbered (n+1) us

lemma numberUnits_numbered (h : numberUnits n as = .ok us) : Numbered n us := by
  induction as generalizing n us with
  | nil =>
    obtain rfl := Except.ok.inj h
    trivial
  | cons a as ih =>
    obtain ⟨u,hu,h⟩ := except_bind_ok.mp h
    obtain ⟨vs,hvs,h⟩ := except_bind_ok.mp h
    obtain rfl := Except.ok.inj h
    obtain ⟨id,hid,hu⟩ := except_bind_ok.mp hu
    obtain ⟨rfl,-,horder,-⟩ := make_fields hu
    exact ⟨horder,hid,ih hvs⟩

lemma Numbered.mem (h : Numbered n us) (hu : u ∈ us) : n ≤ u.order ∧ unitId (u.order+1) = .ok u.id := by
  induction us generalizing n with
  | nil => cases hu
  | cons v us ih =>
    obtain ⟨horder,hid,hus⟩ := h
    rcases List.mem_cons.mp hu with rfl | hu
    · exact ⟨horder.ge,horder ▸ hid⟩
    · obtain ⟨hle,hid⟩ := ih hus hu
      exact ⟨Nat.le_of_succ_le hle,hid⟩

lemma Numbered.orders (h : Numbered n us) : us.map ExtractionUnit.order = List.range' n us.length := by
  induction us generalizing n with
  | nil => rfl
  | cons u us ih => rw [List.map_cons,h.1,ih h.2.2,List.length_cons,List.range'_succ]

lemma Numbered.pairwise (h : Numbered n us) : us.Pairwise fun u v => u.order < v.order := by
  induction us generalizing n with
  | nil => exact .nil
  | cons u us ih => exact .cons (fun v hv => h.1 ▸ (h.2.2.mem hv).1) (ih h.2.2)

lemma Numbered.ids (h : Numbered n us) : (us.map ExtractionUnit.id).Nodup := by
  refine List.pairwise_map.mpr (h.pairwise.imp_of_mem fun hu hv hlt he => ?_)
  have := unitId_injective (h.mem hu).2 (he ▸ (h.mem hv).2)
  omega

/-- Every parent comes earlier. -/
lemma parents_ok (hn : Numbered 0 us) (h : Nested [] us) : ∀ u ∈ us, u.parentOk us = true := by
  intro u hu
  obtain ⟨pre,post,rfl⟩ := List.append_of_mem hu
  obtain ⟨hp,-⟩ := h.at
  have hearlier : ∀ id, (∃ a l c, pre.map entry = a++(some l,id) :: c) →
      (pre++u :: post).any (fun v => decide (v.id = id ∧ v.order < u.order)) = true := by
    rintro id ⟨a,l,c,he⟩
    have hmem : (some l,id) ∈ pre.map entry := he ▸ List.mem_append_right _ List.mem_cons_self
    obtain ⟨v,hv,hve⟩ := List.mem_map.mp hmem
    refine List.any_eq_true.mpr ⟨v,List.mem_append_left _ hv,decide_eq_true ⟨congrArg Prod.snd hve,?_⟩⟩
    exact (List.pairwise_append.mp hn.pairwise).2.2 v hv u List.mem_cons_self
  unfold ExtractionUnit.parentOk
  rw [hp,List.nil_append]
  cases hl : u.level with
  | none =>
    have hspec := Outline.parent_none (pre.map entry)
    cases ho : Outline.parent (pre.map entry) none with
    | none => rfl
    | some id =>
      rw [ho] at hspec
      obtain ⟨a,l,c,he,-⟩ := hspec
      exact hearlier id ⟨a,l,c,he⟩
  | some n =>
    have hspec := Outline.parent_some n (pre.map entry)
    cases ho : Outline.parent (pre.map entry) (some n) with
    | none => rfl
    | some id =>
      rw [ho] at hspec
      obtain ⟨a,l,c,he,-⟩ := hspec
      exact hearlier id ⟨a,l,c,he⟩

/-- What the constructor of an extraction asks of its bundle. -/
structure Identified (b : SealedBundle) : Prop where
  recordId : b.recordId ≠ []
  artifactHash : isDigest b.artifactHash = true
  sourceHash : ∀ s ∈ b.sourceHash, isDigest s = true

/-- The constructor of an extraction does not refuse such units. -/
lemma extractionOf_iff (hus : numberUnits 0 as = .ok us) (h : Nested [] us) :
    (∃ e, extractionOf b .markdown as = .ok e) ↔ Identified b := by
  have hn := numberUnits_numbered hus
  have horders : us.map ExtractionUnit.order = List.range us.length := by
    rw [hn.orders,List.range_eq_range']
  have hs : optionStr (RunConditions.optionPy .str b.sourceHash) = some b.sourceHash := by
    cases b.sourceHash <;> rfl
  unfold extractionOf
  rw [hus]
  constructor
  · rintro ⟨e,he⟩
    obtain ⟨us',hus',he⟩ := except_bind_ok.mp he
    obtain ⟨hr,ha,hsource,-⟩ := extraction_fields he
    exact ⟨hr ▸ e.recordId_ne,ha ▸ e.artifactHash_form,hsource ▸ e.sourceHash_form⟩
  · intro hb
    have hparser : NameVersion.read (parserId b).toPy = some (parserId b) := (parserId b).read_toPy
    have hnorm : NameVersion.read Normalizer.markdown.nameVersion.toPy = some Normalizer.markdown.nameVersion :=
      NameVersion.read_toPy _
    refine ⟨⟨b.recordId,b.artifactHash,b.sourceHash,parserId b,Normalizer.markdown.nameVersion,us,hb.recordId,
      hb.artifactHash,hb.sourceHash,hn.ids,horders,parents_ok hn h⟩,except_bind_ok.mpr ⟨us,rfl,?_⟩⟩
    simp only [Extraction.make,dif_neg hb.recordId,dif_pos hb.artifactHash,hs,dif_pos hb.sourceHash,hparser,hnorm,
      dif_pos hn.ids,dif_pos horders,dif_pos (parents_ok hn h)]

/-- The loop of normalize_markdown over the bundle's document makes these units. -/
structure Looped (H : Hasher) (b : SealedBundle) (path digest : PyStr) (data : Bytes) (as : List UnitArgs) : Prop where
  found : Markdown.path H b = .ok path
  read : b.read H path = .ok data
  sealed : b.digestOf path = .ok digest
  units : unitsFrom path digest data (blocks data) 0 [] = .ok as

lemma normalizeMarkdown_ok : normalizeMarkdown H b = .ok e ↔
    ∃ path digest data as, Looped H b path digest data as ∧ extractionOf b .markdown as = .ok e := by
  constructor
  · intro h
    obtain ⟨path,hpath,h⟩ := except_bind_ok.mp h
    obtain ⟨data,hdata,h⟩ := except_bind_ok.mp h
    obtain ⟨digest,hdigest,h⟩ := except_bind_ok.mp h
    obtain ⟨as,has,h⟩ := except_bind_ok.mp h
    exact ⟨path,digest,data,as,⟨hpath,hdata,hdigest,has⟩,h⟩
  · rintro ⟨path,digest,data,as,hl,h⟩
    exact except_bind_ok.mpr ⟨path,hl.found,except_bind_ok.mpr ⟨data,hl.read,except_bind_ok.mpr
      ⟨digest,hl.sealed,except_bind_ok.mpr ⟨as,hl.units,h⟩⟩⟩⟩

lemma Looped.nested (h : Looped H b path digest data as) :
    ∃ us, numberUnits 0 as = .ok us ∧ Nested [] us ∧ ∀ ps qs, blocks data = ps++qs →
      unitsFrom path digest data qs ps.length (Outline.stack ((us.take ps.length).map entry)) =
        .ok (as.drop ps.length) := by
  have hrs : ∀ r ∈ blocks data, r.1 < r.2 ∧ r.2 ≤ data.length := fun r hr =>
    ⟨blocks_nonempty hr,blocks_within data r hr⟩
  have hstart : unitsFrom path digest data (blocks data) 0 (Outline.stack []) = .ok as := h.units
  obtain ⟨us,hus,hnest,hrun⟩ := unitsFrom_nested hrs hstart
  exact ⟨us,hus,hnest,fun ps qs he => by simpa using hrun ps qs he⟩

/-- The sections of a Markdown document that normalizes, the stack of the loop at every block, and
that the constructor of the extraction takes whatever the loop has made. -/
theorem normalizeMarkdown_sections (H : Hasher) (b : SealedBundle) :
    (∀ e, normalizeMarkdown H b = .ok e → Sectioned e.units ∧
      ∃ path digest data as, Looped H b path digest data as ∧ ∀ ps qs, blocks data = ps++qs →
        ∃ stack, stack = Outline.stack ((e.units.take ps.length).map entry) ∧
          unitsFrom path digest data qs ps.length stack = .ok (as.drop ps.length) ∧
          stack.Pairwise fun inner outer => outer.1 < inner.1) ∧
    ∀ path digest data as, Looped H b path digest data as →
      ((∃ e, normalizeMarkdown H b = .ok e) ↔ Identified b) := by
  constructor
  · intro e he
    obtain ⟨path,digest,data,as,hl,he⟩ := normalizeMarkdown_ok.mp he
    obtain ⟨us,hus,hnest,hrun⟩ := hl.nested
    obtain ⟨us',hus',he⟩ := except_bind_ok.mp he
    obtain rfl := Except.ok.inj (hus.symm.trans hus')
    obtain ⟨-,-,-,-,-,rfl⟩ := extraction_fields he
    exact ⟨hnest.sectioned,path,digest,data,as,hl,fun ps qs hps =>
      ⟨_,rfl,hrun ps qs hps,Outline.stack_sorted _⟩⟩
  · intro path digest data as hl
    obtain ⟨us,hus,hnest,-⟩ := hl.nested
    rw [← extractionOf_iff hus hnest]
    constructor
    · rintro ⟨e,he⟩
      obtain ⟨path',digest',data',as',hl',he⟩ := normalizeMarkdown_ok.mp he
      obtain rfl := Except.ok.inj (hl.found.symm.trans hl'.found)
      obtain rfl := Except.ok.inj (hl.read.symm.trans hl'.read)
      obtain rfl := Except.ok.inj (hl.sealed.symm.trans hl'.sealed)
      obtain rfl := Except.ok.inj (hl.units.symm.trans hl'.units)
      exact ⟨e,he⟩
    · rintro ⟨e,he⟩
      exact ⟨e,normalizeMarkdown_ok.mpr ⟨path,digest,data,as,hl,he⟩⟩

/-- A heading, an empty line and a paragraph under it. -/
theorem normalizeMarkdown_sections_sample : ∃ e, normalizeMarkdown .checksum sampleBundle = .ok e ∧
    e.units.length = 2 ∧ Sectioned e.units := by
  have hlength : (normalizeMarkdown .checksum sampleBundle).map (fun e => e.units.length) = .ok 2 := by
    decide +kernel
  cases h : normalizeMarkdown .checksum sampleBundle with
  | error x =>
    rw [h] at hlength
    cases hlength
  | ok e =>
    rw [h] at hlength
    exact ⟨e,rfl,Except.ok.inj hlength,((normalizeMarkdown_sections .checksum sampleBundle).1 e h).1⟩

end Markdown

end Stele
