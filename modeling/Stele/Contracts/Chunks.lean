import Stele.Archive.Records

/-! The chunks an adapter produces, and their validation. -/
namespace Stele
open Python

/-- A chunk as an adapter returned it; validation checks the last two fields' types. -/
structure SteleChunk where
  chunkId : PyStr
  content : PyStr
  contentHash : PyStr
  tokenCount : PyVal
  metadata : PyVal

/-- type(a) is type(b), of values that are no dict and no list. -/
def sameType : PyVal → PyVal → Bool
  | .none,.none | .bool _,.bool _ | .int _,.int _ | .float _,.float _ | .str _,.str _
  | .bytes _,.bytes _ | .tuple _,.tuple _ | .object _,.object _ => true
  | _,_ => false

mutual
/-- _json_equal: equality that tells 1, 1.0 and True apart. -/
def jsonEqual (decoded : PyVal) : PyVal → Bool
  | .dict kvs => match decoded with
    | .dict kws => decide (kws.length = kvs.length) && jsonEqualItems kws kvs
    | _ => false
  | .list xs => match decoded with
    | .list ys => decide (ys.length = xs.length) && jsonEqualList ys xs
    | _ => false
  | original => sameType decoded original && decoded.pyEq original
def jsonEqualList : List PyVal → List PyVal → Bool
  | d :: ds,o :: os => jsonEqual d o && jsonEqualList ds os
  | _,_ => true
/-- Each key of the original is one of decoded, with an equal value. -/
def jsonEqualItems (decoded : List (PyKey × PyVal)) : List (PyKey × PyVal) → Bool
  | [] => true
  | (k,v) :: kvs =>
    (match PyVal.find decoded k with | some w => jsonEqual w v | none => false) &&
      jsonEqualItems decoded kvs
end

/-- _check_metadata. -/
def checkMetadata (i : ℕ) (c : SteleChunk) : Except Exc Unit :=
  match c.metadata with
  | .dict _ =>
    match canonicalText c.metadata with
    | .error _ => .error (.chunkValidation (.metadataNotJson i c.chunkId))
    | .ok t =>
      match loads t with
      | none => .error .valueError
      | some decoded =>
        if jsonEqual decoded c.metadata then .ok ()
        else .error (.chunkValidation (.metadataChanged i c.chunkId))
  | _ => .error (.chunkValidation (.metadataType i c.chunkId))

/-- hashlib.sha256(content.encode()).hexdigest(). -/
def contentDigest (H : Hasher) (content : PyStr) : Except Exc PyStr :=
  match encode content with
  | none => .error .unicodeEncodeError
  | some b => .ok (H.hexdigest b)

/-- token_count is an int and no bool, and not negative. -/
def checkTokenCount (i : ℕ) (c : SteleChunk) : Except Exc Unit :=
  match c.tokenCount with
  | .int n => if n < 0 then .error (.chunkValidation (.tokenCountNegative i c.chunkId)) else .ok ()
  | _ => .error (.chunkValidation (.tokenCountType i c.chunkId))

/-- The loop of validate_chunks, from chunk i on. -/
def validateFrom (H : Hasher) : ℕ → List PyStr → List SteleChunk → Except Exc Unit
  | _,_,[] => .ok ()
  | i,seen,c :: chunks =>
    if c.chunkId = [] then .error (.chunkValidation (.emptyId i))
    else if c.chunkId ∈ seen then .error (.chunkValidation (.duplicateId c.chunkId))
    else if c.content = [] then .error (.chunkValidation (.emptyContent i c.chunkId))
    else if c.contentHash = [] then .error (.chunkValidation (.emptyHash i c.chunkId))
    else do
      let expected ← contentDigest H c.content
      if c.contentHash ≠ expected then
        .error (.chunkValidation (.hashMismatch i c.chunkId expected c.contentHash))
      else do
        checkTokenCount i c
        checkMetadata i c
        validateFrom H (i+1) (c.chunkId :: seen) chunks

/-- validate_chunks. -/
def validateChunks (H : Hasher) (chunks : List SteleChunk) : Except Exc Unit :=
  if chunks = [] then .error (.chunkValidation .noChunks) else validateFrom H 0 [] chunks

section Checked

variable {H : Hasher} {c : SteleChunk} {chunks : List SteleChunk}

/-- What validate_chunks has checked of a chunk. -/
structure SteleChunk.Checked (H : Hasher) (c : SteleChunk) : Prop where
  hash : contentDigest H c.content = .ok c.contentHash
  tokens : ∃ i, checkTokenCount i c = .ok ()
  metadata : ∃ i, checkMetadata i c = .ok ()

lemma validateFrom_checked {i : ℕ} {seen : List PyStr} (h : validateFrom H i seen chunks = .ok ()) :
    ∀ c ∈ chunks, c.Checked H := by
  induction chunks generalizing i seen with
  | nil => exact List.forall_mem_nil _
  | cons c chunks ih =>
    rw [validateFrom] at h
    split_ifs at h
    obtain ⟨expected,hexpected,h⟩ := except_bind_ok.mp h
    split_ifs at h with hhash
    obtain ⟨_,htokens,h⟩ := except_bind_ok.mp h
    obtain ⟨_,hmeta,h⟩ := except_bind_ok.mp h
    rw [← not_not.mp hhash] at hexpected
    exact List.forall_mem_cons.mpr ⟨⟨hexpected,⟨i,htokens⟩,⟨i,hmeta⟩⟩,ih h⟩

lemma validateChunks_checked (h : validateChunks H chunks = .ok ()) : ∀ c ∈ chunks, c.Checked H := by
  unfold validateChunks at h
  split_ifs at h
  exact validateFrom_checked h

/-- The token count is an int. -/
lemma SteleChunk.Checked.counted (h : c.Checked H) : ∃ n, c.tokenCount = .int n := by
  obtain ⟨i,hi⟩ := h.tokens
  unfold checkTokenCount at hi
  split at hi
  · exact ⟨_,‹_›⟩
  · cases hi

end Checked

end Stele
