import Stele.Extraction.Resolver

/-! The resolver's cache never shows: whatever was resolved before, each anchor resolves to
what a fresh resolver gives, so verify() is a check of each unit on its own. -/
namespace Stele
open Python

variable {H : Hasher} {U : Unicode} {b : SealedBundle} {lim : Limits}

/-- The cache holds nothing, or the verified bytes of its digest and what they parse to. -/
structure ArtifactCache.Holds (H : Hasher) (b : SealedBundle) (lim : Limits) (c : ArtifactCache) : Prop where
  data : ∀ d, c.digest = some d → b.archive.read H d = .ok c.data
  parsed : c.hasParsed = true → c.digest.isSome ∧ lim.loads c.data = false ∧ loadsBytes c.data = some c.parsed

namespace BundleResolver

variable {a : Extraction.Anchor} {c : ArtifactCache}

lemma holds_fresh : ArtifactCache.fresh.Holds H b lim :=
  ⟨nofun,nofun⟩

/-- The bytes are those that a fresh resolver reads, and are then in the cache. -/
lemma bytes_spec (h : c.Holds H b lim) (a : Extraction.Anchor) :
    (bytes H b a c).1 = (bytes H b a .fresh).1 ∧ (bytes H b a c).2.Holds H b lim ∧
      ∀ data, (bytes H b a c).1 = .ok data →
        (bytes H b a c).2.digest.isSome ∧ (bytes H b a c).2.data = data := by
  unfold bytes
  cases hm : Dict.get b.manifest a.artifact with
  | none => exact ⟨rfl,h,fun _ hd => by cases hd⟩
  | some stored =>
    have hread : b.read H a.artifact = b.archive.read H stored := by
      unfold SealedBundle.read
      rw [hm]
    simp only
    by_cases hs : stored ≠ a.digest
    · rw [if_pos hs,if_pos hs]
      exact ⟨rfl,h,fun _ hd => by cases hd⟩
    · rw [if_neg hs,if_neg hs,if_neg (show ¬ArtifactCache.fresh.digest = some stored from nofun),hread]
      by_cases hc : c.digest = some stored
      · rw [if_pos hc,h.data stored hc]
        refine ⟨rfl,h,fun data hd => ⟨by rw [hc]; rfl,Except.ok.inj hd⟩⟩
      · rw [if_neg hc]
        cases hr : b.archive.read H stored with
        | error e =>
          refine ⟨rfl,h,fun data hd => ?_⟩
          simp only at hd
          split_ifs at hd
          cases hd
        | ok data =>
          refine ⟨rfl,⟨fun d hd => ?_,fun hp => by cases hp⟩,fun _ hd => ⟨rfl,Except.ok.inj hd⟩⟩
          rw [← Option.some.inj hd]
          exact hr

/-- What json.loads makes of the bytes of an artifact. -/
def parsed (lim : Limits) (artifact : PyStr) (data : Bytes) : Except Exc PyVal :=
  if lim.loads data then .error .recursionError
  else match loadsBytes data with
    | none => resolutionError (.notJson artifact)
    | some v => .ok v

/-- A cache that holds has parsed what its bytes parse to, or parses them now. -/
lemma parsed_cached (artifact : PyStr) {data : Bytes} {r : Except Exc PyVal × ArtifactCache}
    (h : c.Holds H b lim) (hread : c.digest.isSome) (hdata : c.data = data)
    (hr : r = if c.hasParsed then (.ok c.parsed,c)
      else if lim.loads data then (.error .recursionError,c)
      else match loadsBytes data with
        | none => (resolutionError (.notJson artifact),c)
        | some v => (.ok v,{c with parsed := v, hasParsed := true})) :
    r.1 = parsed lim artifact data ∧ r.2.Holds H b lim := by
  unfold parsed
  subst hr
  subst hdata
  by_cases hp : c.hasParsed = true
  · obtain ⟨-,hdeep,hl⟩ := h.parsed hp
    rw [if_pos hp,hdeep,hl]
    exact ⟨rfl,h⟩
  · rw [if_neg hp]
    cases hdeep : lim.loads c.data with
    | true => exact ⟨rfl,h⟩
    | false =>
      cases hl : loadsBytes c.data with
      | none => exact ⟨rfl,h⟩
      | some v => exact ⟨rfl,h.data,fun _ => ⟨hread,hdeep,hl⟩⟩

lemma json_spec (h : c.Holds H b lim) (a : Extraction.Anchor) :
    (json H b lim a c).1 = (json H b lim a .fresh).1 ∧ (json H b lim a c).2.Holds H b lim := by
  obtain ⟨h1,h2,h3⟩ := bytes_spec h a
  have hfresh : ArtifactCache.fresh.Holds H b lim := holds_fresh
  obtain ⟨_,f2,f3⟩ := bytes_spec hfresh a
  unfold json
  generalize bytes H b a c = r at h1 h2 h3
  generalize bytes H b a .fresh = s at h1 f2 f3
  obtain ⟨x,c1⟩ := r
  obtain ⟨y,c2⟩ := s
  dsimp only at h1 h2 h3 f2 f3
  subst h1
  cases x with
  | error e => exact ⟨rfl,h2⟩
  | ok data =>
    obtain ⟨hread,hdata⟩ := h3 data rfl
    obtain ⟨fread,fdata⟩ := f3 data rfl
    have hp := parsed_cached a.artifact h2 hread hdata rfl
    have fp := parsed_cached a.artifact f2 fread fdata rfl
    exact ⟨hp.1.trans fp.1.symm,hp.2⟩

/-- One resolution: the result of a fresh resolver, and a cache that still holds. -/
theorem resolve_spec (h : c.Holds H b lim) (a : Extraction.Anchor) :
    (resolveWithin H U b lim a c).1 = (resolveWithin H U b lim a .fresh).1 ∧
      (resolveWithin H U b lim a c).2.Holds H b lim := by
  unfold resolveWithin
  cases a.place with
  | range start stop =>
    obtain ⟨h1,h2,_⟩ := bytes_spec h a
    simp only
    generalize bytes H b a c = r at h1 h2
    generalize bytes H b a .fresh = s at h1
    obtain ⟨x,c1⟩ := r
    obtain ⟨y,c2⟩ := s
    dsimp only at h1 h2
    subst h1
    cases x with
    | error e => exact ⟨rfl,h2⟩
    | ok data =>
      simp only
      split_ifs
      · exact ⟨rfl,h2⟩
      · cases decode ((data.take stop).drop start) with
        | none => exact ⟨rfl,h2⟩
        | some t => exact ⟨rfl,h2⟩
  | pointer p r =>
    obtain ⟨h1,h2⟩ := json_spec h a
    simp only
    cases renderer U lim r with
    | none => exact ⟨rfl,h⟩
    | some render =>
      simp only
      generalize json H b lim a c = r at h1 h2
      generalize json H b lim a .fresh = s at h1
      obtain ⟨x,c1⟩ := r
      obtain ⟨y,c2⟩ := s
      dsimp only at h1 h2
      subst h1
      cases x with
      | error e => exact ⟨rfl,h2⟩
      | ok doc => exact ⟨rfl,h2⟩

/-- The cache after a sequence of resolutions, some of which may have failed. -/
def after (H : Hasher) (U : Unicode) (b : SealedBundle) (lim : Limits) (as : List Extraction.Anchor) :
    ArtifactCache := as.foldl (fun c a => (resolveWithin H U b lim a c).2) .fresh

lemma holds_after (as : List Extraction.Anchor) : (after H U b lim as).Holds H b lim := by
  induction as using List.reverseRecOn with
  | nil => exact holds_fresh
  | append_singleton as a ih =>
    rw [after,List.foldl_append]
    exact (resolve_spec ih a).2

/-- What the units amount to with any cache that holds: no problem if and only if each unit's
text is what its anchor resolves to. -/
lemma unitProblems_nil {us : List ExtractionUnit} (h : c.Holds H b lim) :
    (unitProblems H U b lim us c).1 = .ok [] ↔
      ∀ u ∈ us, (resolveWithin H U b lim u.anchor .fresh).1 = .ok u.text := by
  induction us generalizing c with
  | nil => simp [unitProblems]
  | cons u us ih =>
    obtain ⟨h1,h2⟩ := resolve_spec (U := U) h u.anchor
    rw [List.forall_mem_cons,← h1,unitProblems]
    generalize resolveWithin H U b lim u.anchor c = r at h2
    obtain ⟨x,c1⟩ := r
    have notNil : ∀ p : VerifyProblem,
        ((unitProblems H U b lim us c1).1.map fun ps => p :: ps) ≠ .ok [] := by
      intro p
      cases (unitProblems H U b lim us c1).1 <;> simp [Except.map]
    cases x with
    | ok t =>
      dsimp only
      split_ifs with ht
      · rw [ih h2,ht]
        simp
      · refine iff_of_false (notNil _) fun hx => ht (Except.ok.inj hx.1)
    | error e =>
      refine iff_of_false (fun hx => ?_) fun hx => by cases hx.1
      split at hx
      · rename_i heq
        obtain ⟨_,rfl⟩ := Prod.mk.inj heq
        exact notNil _ hx
      · cases hx
      · rename_i heq
        cases (Prod.mk.inj heq).1

lemma verify_nil {e : Extraction} (h : c.Holds H b lim) : (verifyWithin H U b lim e c).1 = .ok [] ↔
    identityProblems b e = [] ∧ ∀ u ∈ e.units, (resolveWithin H U b lim u.anchor .fresh).1 = .ok u.text := by
  unfold verifyWithin
  split_ifs with hi
  · rw [unitProblems_nil h]
    exact ⟨fun hu => ⟨hi,hu⟩,fun hu => hu.2⟩
  · exact iff_of_false (fun hx => hi (Except.ok.inj hx)) fun hx => hi hx.1

lemma identityProblems_nil {e : Extraction} : identityProblems b e = [] ↔
    e.recordId = b.recordId ∧ e.artifactHash = b.artifactHash ∧ e.sourceHash = b.sourceHash ∧
      e.parser = parserId b ∧ normalizerId b = .ok e.normalizer := by
  have single : ∀ (q : Prop) [Decidable q] (p : VerifyProblem),
      (if q then [] else [p]) = [] ↔ q := by
    intro q _ p
    split_ifs with hq <;> simp [hq]
  simp only [identityProblems,List.append_eq_nil_iff,single,and_assoc]
  refine and_congr_right fun _ => and_congr_right fun _ => and_congr_right fun _ =>
    and_congr_right fun _ => ?_
  cases normalizerId b with
  | error e => simp
  | ok expected =>
    simp only [single,Except.ok.injEq]
    exact eq_comm

/-- verify() reports nothing exactly when the extraction names the bundle, its parser and its
normalizer, and each unit's text is what a fresh resolver makes of its anchor; and what was
resolved before, also when it failed, never changes any result. The recursion limit is any. -/
theorem verify_iff (H : Hasher) (U : Unicode) (b : SealedBundle) (lim : Limits) (e : Extraction) :
    ((verifyWithin H U b lim e .fresh).1 = .ok [] ↔
      e.recordId = b.recordId ∧ e.artifactHash = b.artifactHash ∧ e.sourceHash = b.sourceHash ∧
      e.parser = parserId b ∧ normalizerId b = .ok e.normalizer ∧
      ∀ u ∈ e.units, (resolveWithin H U b lim u.anchor .fresh).1 = .ok u.text) ∧
    ∀ (as : List Extraction.Anchor) (a : Extraction.Anchor),
      (resolveWithin H U b lim a (after H U b lim as)).1 = (resolveWithin H U b lim a .fresh).1 := by
  refine ⟨?_,fun as a => (resolve_spec (holds_after as) a).1⟩
  rw [verify_nil holds_fresh,identityProblems_nil]
  simp only [and_assoc]

end BundleResolver

end Stele
