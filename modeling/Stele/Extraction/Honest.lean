import Stele.Extraction.Pointer
import Stele.Extraction.ResolverCache
import Stele.Extraction.RoundTrip

/-! What a normalizer makes of a sealed bundle verifies, also after a canonical round trip. -/
namespace Stele
open Python

/-- What sealing has established: the record's texts are in the ledger, the paths in a tree
object, and each blob is a bytes object. -/
structure SealedBundle.Stored (b : SealedBundle) : Prop where
  recordId : Encodable b.recordId
  parser : ∀ p ∈ b.parser, Encodable p.name ∧ Encodable p.version
  paths : ∀ p ∈ b.manifest, Encodable p.1
  sizes : ∀ digest data, b.archive.blobs digest = some data → data.length < 2^63

variable {H : Hasher} {U : Unicode} {b : SealedBundle}

section Numbers

end Numbers

section Units

variable {u : ExtractionUnit} {a : UnitArgs} {us : List ExtractionUnit} {as : List UnitArgs} {n : ℕ}

/-- What the constructor keeps of its arguments. -/
lemma make_fields {id text : PyStr} {k : Kind} {anchor : Extraction.Anchor} {level : Option ℕ}
    {parent : PyVal} {kvs : List (PyKey × PyVal)}
    (h : ExtractionUnit.make (.str id) (.str k.value) (.str text) (.int n) anchor .none .none
      (ExtractionUnit.natPy level) parent (.dict kvs) = .ok u) :
    u.id = id ∧ u.text = text ∧ u.order = n ∧ u.anchor = anchor ∧ u.page = none ∧ u.bbox = none ∧
      u.level = level ∧ u.parent = parent ∧ u.attributes = kvs := by
  by_cases hid : id = []
  · simp only [ExtractionUnit.make,dif_pos hid] at h
    cases h
  by_cases ht : text = []
  · simp only [ExtractionUnit.make,dif_neg hid,dif_pos ht,ExtractionUnit.readKind_value] at h
    cases h
  simp only [ExtractionUnit.make,dif_neg hid,dif_neg ht,ExtractionUnit.readKind_value,
    ExtractionUnit.readNat_natPy] at h
  simp only [readNat,readBbox,bind,Except.bind] at h
  split at h
  · cases h
  · obtain rfl := Except.ok.inj h
    exact ⟨rfl,rfl,rfl,rfl,rfl,rfl,rfl,rfl,rfl⟩

end Units

section Extractions

variable {e f : Extraction} {us : List ExtractionUnit} {n : Normalizer} {as : List UnitArgs}

/-- What the constructor of an Extraction keeps of its arguments. -/
lemma extraction_fields {recordId artifactHash : PyStr} {sourceHash : Option PyStr} {p q : NameVersion}
    (h : Extraction.make (.str recordId) (.str artifactHash) (RunConditions.optionPy .str sourceHash)
      p.toPy q.toPy us = .ok e) :
    e.recordId = recordId ∧ e.artifactHash = artifactHash ∧ e.sourceHash = sourceHash ∧ e.parser = p ∧
      e.normalizer = q ∧ e.units = us := by
  have hs : optionStr (RunConditions.optionPy .str sourceHash) = some sourceHash := by
    cases sourceHash <;> rfl
  have hp : NameVersion.read p.toPy = some p := p.read_toPy
  have hq : NameVersion.read q.toPy = some q := q.read_toPy
  unfold Extraction.make at h
  simp only [hs,hp,hq] at h
  split_ifs at h
  all_goals first
    | cases h
      exact ⟨rfl,rfl,rfl,rfl,rfl,rfl⟩
    | cases h
    | skip
  split at h <;> cases h

end Extractions

section Anchors

variable {a : Extraction.Anchor} {path digest : PyStr} {place : Place} {data : Bytes}

end Anchors

namespace Markdown

end Markdown

namespace ChatGPT

variable {c : Conversation} {ch : SteleChunk}

/-- Every chunk of the walk is that of a node whose message has content. -/
lemma walk_items {n : ℕ} {stack : List Visit} {visited : List PyStr}
    (h : ch ∈ (walk H U c n stack visited).items) : ∃ v message text,
      messageOf (nodeItems c.mapping v.nodeId) = some message ∧ renderMessage U message = .ok text ∧
      chunkOf H c v (nodeItems c.mapping v.nodeId) message text = .ok ch := by
  induction n generalizing stack visited with
  | zero =>
    cases stack with
    | nil =>
      unfold walk at h
      dsimp only at h
      split_ifs at h <;> exact absurd h List.not_mem_nil
    | cons v stack => exact absurd h List.not_mem_nil
  | succ n ih =>
    cases stack with
    | nil =>
      unfold walk at h
      dsimp only at h
      split_ifs at h <;> exact absurd h List.not_mem_nil
    | cons v stack =>
      unfold walk at h
      split_ifs at h
      · exact absurd h List.not_mem_nil
      obtain ⟨chunks,hc,h⟩ := Gen.mem_after h
      rcases Gen.mem_append h with h | h
      · unfold nodeChunks at hc
        obtain ⟨text,ht,hc⟩ := except_bind_ok.mp hc
        cases hm : messageOf (nodeItems c.mapping v.nodeId) with
        | none =>
          rw [hm] at hc
          obtain rfl := Except.ok.inj hc
          exact absurd h List.not_mem_nil
        | some message =>
          cases text with
          | nil =>
            rw [hm] at hc
            obtain rfl := Except.ok.inj hc
            exact absurd h List.not_mem_nil
          | cons d text =>
            rw [hm] at hc ht
            obtain ⟨chunk,hchunk,hc⟩ := except_bind_ok.mp hc
            obtain rfl := Except.ok.inj hc
            obtain rfl := List.mem_singleton.mp h
            exact ⟨v,message,d :: text,hm,ht,hchunk⟩
      · exact ih h

end ChatGPT

section Chatgpt

variable {m m' : Messages} {ch : SteleChunk} {kvs : List (PyKey × PyVal)}

end Chatgpt

variable {e : Extraction}

/-- "# A", an empty line, "b". -/
def sampleDocument : Bytes := [35,32,65,10,10,98,10]

def sampleBundle : SealedBundle where
  recordId := lit "record"
  artifactHash := Hasher.checksum.hexdigest []
  manifest := [(lit "document.md",Hasher.checksum.hexdigest sampleDocument)]
  parser := some ⟨lit "marker",lit "1",none,none,by decide,version_one,no_image,no_module⟩
  sourceHash := none
  archive := ⟨fun d => if d = Hasher.checksum.hexdigest sampleDocument then some sampleDocument else none,
    fun _ _ => none,fun _ => none⟩

end Stele
