import Stele.Ledger.OnePayload

/-! Which chunks an intent can be recorded for: those that validate_chunks accepts may still have ids
and token counts that their digest cannot cover. -/
namespace Stele
open Python

variable {H : Hasher} {db : Db} {id : PyStr}

/-- Every chunk_id is encodable, and where the digest to compute covers the token counts they have
few enough digits. Nothing is computed when the counts of chunks differ already. -/
def Fingerprintable (chunks : List SteleChunk) : Option DeliveryEventRow → Prop
  | none => ∀ c ∈ chunks, Encodable c.chunkId ∧ Writable c.tokenCount
  | some r => r.planned.toPy.pyEq (.int chunks.length) = true → ∀ c ∈ chunks, Encodable c.chunkId ∧
      ∀ digest, r.chunksDigest = .text digest → digestPrefix <+: digest → Writable c.tokenCount

section Fingerprints

variable {chunks : List SteleChunk}

/-- What validate_chunks has checked of a chunk and its fingerprint needs. -/
structure SteleChunk.Validated (c : SteleChunk) : Prop where
  contentHash : Encodable c.contentHash
  metadata : Writable c.metadata

lemma SteleChunk.Checked.validated {c : SteleChunk} (h : c.Checked H) : c.Validated := by
  constructor
  · have hh := h.hash
    unfold contentDigest at hh
    split at hh
    · cases hh
    · rename_i b _
      rw [← Except.ok.inj hh]
      exact digest_encodable (H.digest_form b)
  · obtain ⟨i,hmeta⟩ := h.metadata
    unfold checkMetadata at hmeta
    split at hmeta
    · split at hmeta
      · cases hmeta
      · rename_i t ht
        exact ⟨t,ht⟩
    · cases hmeta

lemma validateChunks_ok (h : validateChunks H chunks = .ok ()) : ∀ c ∈ chunks, c.Validated :=
  fun c hc => (validateChunks_checked h c hc).validated

lemma canonicalJson_iff {v : PyVal} : (∃ b, canonicalJson v = .ok b) ↔ Writable v := by
  constructor
  · rintro ⟨b,hb⟩
    obtain ⟨t,ht,-⟩ := canonicalJson_ok.mp hb
    exact ⟨t,ht⟩
  · exact canonicalJson_total

lemma chunksObject_writable {body : List PyVal} : Writable (chunksObject body) ↔ ∀ v ∈ body, Writable v := by
  refine ⟨fun h v hv => ?_,writable_chunks body⟩
  exact (h.item (p := (.str (lit "chunks"),.list body)) (List.mem_singleton_self _)).elem hv

lemma fingerprint_writable {c : SteleChunk} (h : c.Validated) :
    Writable c.fingerprint ↔ Encodable c.chunkId ∧ Writable c.tokenCount := by
  rw [SteleChunk.fingerprint,writable_keys (by simp)]
  simp [writable_str_iff,h.contentHash,h.metadata]

lemma legacy_writable {c : SteleChunk} (h : c.Validated) :
    Writable (.list [.str c.chunkId,.str c.contentHash]) ↔ Encodable c.chunkId := by
  rw [writable_elems]
  simp [writable_str_iff,h.contentHash]

lemma except_map_total {α β : Type} {f : α → β} {x : Except Exc α} :
    (∃ b, x.map f = .ok b) ↔ ∃ a, x = .ok a := by
  cases x <;> simp [Except.map]

lemma chunksDigest_iff (h : ∀ c ∈ chunks, c.Validated) : (∃ digest, chunksDigest H chunks = .ok digest) ↔
    ∀ c ∈ chunks, Encodable c.chunkId ∧ Writable c.tokenCount := by
  rw [chunksDigest,except_map_total,canonicalJson_iff,chunksObject_writable,List.forall_mem_map]
  exact forall₂_congr fun c hc => fingerprint_writable (h c hc)

lemma legacyChunksDigest_iff (h : ∀ c ∈ chunks, c.Validated) :
    (∃ digest, legacyChunksDigest H chunks = .ok digest) ↔ ∀ c ∈ chunks, Encodable c.chunkId := by
  rw [legacyChunksDigest,except_map_total,canonicalJson_iff,chunksObject_writable,List.forall_mem_map]
  exact forall₂_congr fun c hc => legacy_writable (h c hc)

/-- The digest of validated chunks fails only for their ids and their counts. -/
lemma comparable_iff (h : validateChunks H chunks = .ok ()) (hd : DigestRecorded db id) :
    Comparable H chunks (firstIntent db id) ↔ Fingerprintable chunks (firstIntent db id) := by
  have hv := validateChunks_ok h
  cases hf : firstIntent db id with
  | none => exact chunksDigest_iff hv
  | some r =>
    obtain ⟨digest,hr,-⟩ := hd r hf
    refine imp_congr_right fun _ => ?_
    rw [hr,payloadMatches]
    split_ifs with hp
    · rw [except_map_total,chunksDigest_iff hv]
      refine forall₂_congr fun c _ => and_congr_right fun _ => ⟨fun h _ _ _ => h,fun h => h digest rfl hp⟩
    · rw [except_map_total,legacyChunksDigest_iff hv]
      refine forall₂_congr fun c _ => ⟨fun h => ⟨h,fun x hx hpx => ?_⟩,fun h => h.1⟩
      obtain rfl := TextCell.text.inj hx
      exact absurd hpx hp

end Fingerprints

end Stele
