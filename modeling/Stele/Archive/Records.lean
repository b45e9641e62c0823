import Stele.Errors
import Stele.Python.JsonImage

/-! Digests and canonical JSON: the one byte form of a record. -/
namespace Stele
open Python

/-- [0-9a-f]{64}, in full. -/
def isDigest (s : PyStr) : Bool :=
  decide (s.length = 64) &&
    s.all fun c => decide (48 ≤ c.val ∧ c.val ≤ 57) || decide (97 ≤ c.val ∧ c.val ≤ 102)

lemma digest_chars {d : PyStr} (h : isDigest d = true) : ∀ c ∈ d, 48 ≤ c.val ∧ c.val < 128 := by
  intro c hc
  simp only [isDigest,Bool.and_eq_true,List.all_eq_true,Bool.or_eq_true,decide_eq_true_eq] at h
  have := h.2 c hc
  omega

lemma digest_encodable {d : PyStr} (h : isDigest d = true) : Encodable d :=
  encodable_ascii fun c hc => (digest_chars h c hc).2

/-- What a Snapshot digest addresses. -/
inductive SnapshotKind
  | file
  | tree
  deriving DecidableEq

def SnapshotKind.value : SnapshotKind → PyStr
  | .file => lit "file"
  | .tree => lit "tree"

/-- SnapshotKind(value); `none` is ValueError. -/
def SnapshotKind.ofValue (s : PyStr) : Option SnapshotKind :=
  if s = lit "file" then some .file else if s = lit "tree" then some .tree else none

/-- hashlib.sha256(b).hexdigest(), of which only the form is fixed. -/
structure Hasher where
  hexdigest : Bytes → PyStr
  digest_form : ∀ b, isDigest (hexdigest b) = true

/-- The hexadecimal digits of n, the last k of them. -/
def hexDigits : ℕ → ℕ → PyStr
  | 0,_ => []
  | k+1,n => hexDigits k (n/16)++[hexDigit n]

lemma hexDigits_form (k n : ℕ) : (hexDigits k n).length = k ∧ ∀ c ∈ hexDigits k n,
    (decide (48 ≤ c.val ∧ c.val ≤ 57) || decide (97 ≤ c.val ∧ c.val ≤ 102)) = true := by
  induction k generalizing n with
  | zero => simp [hexDigits]
  | succ k ih =>
    obtain ⟨hl,hf⟩ := ih (n/16)
    refine ⟨by simp [hexDigits,hl],fun c hc => ?_⟩
    rcases List.mem_append.mp hc with hc | hc
    · exact hf c hc
    · obtain rfl := List.mem_singleton.mp hc
      have h : n%16 < 16 := Nat.mod_lt _ (by decide)
      unfold hexDigit
      generalize n%16 = d at h ⊢
      interval_cases d <;> decide

/-- A hash with the form of SHA-256 that is quickly computed, for runs on given inputs. -/
def Hasher.checksum : Hasher where
  hexdigest b := hexDigits 64 (b.foldl (fun a c => a*257+c.toNat+1) 0)
  digest_form b := by
    obtain ⟨hl,hf⟩ := hexDigits_form 64 (b.foldl (fun a c => a*257+c.toNat+1) 0)
    simpa [isDigest,hl] using hf

/-- canonical_json(v).decode("utf-8"): sorted-key, compact JSON that UTF-8 can encode. -/
def canonicalText (v : PyVal) : Except Exc PyStr :=
  match dumps canonicalOpts v with
  | .error e => .error (.ofJson e)
  | .ok t => if Encodable t then .ok t else .error .unicodeEncodeError

/-- canonical_json: the UTF-8 bytes of that text. -/
def canonicalJson (v : PyVal) : Except Exc Bytes := (canonicalText v).map utf8

/-- What canonical JSON makes of a value. -/
abbrev canonicalImage (v : PyVal) : PyVal := v.toJson canonicalOpts

lemma textsOk_canonical (v : PyVal) : v.TextsOk canonicalOpts := fun h => by simp [canonicalOpts] at h

lemma canonicalText_ok {v : PyVal} {t : PyStr} :
    canonicalText v = .ok t ↔ dumps canonicalOpts v = .ok t ∧ Encodable t := by
  unfold canonicalText
  cases dumps canonicalOpts v with
  | error e => simp
  | ok u =>
    simp only [Except.ok.injEq]
    split_ifs with h
    · constructor
      · rintro h'; obtain rfl := Except.ok.inj h'; exact ⟨rfl,h⟩
      · rintro ⟨rfl,_⟩; rfl
    · constructor
      · intro h'; cases h'
      · rintro ⟨rfl,h'⟩; exact absurd h' h

lemma canonicalJson_ok {v : PyVal} {b : Bytes} :
    canonicalJson v = .ok b ↔ ∃ t, canonicalText v = .ok t ∧ utf8 t = b := by
  unfold canonicalJson
  cases canonicalText v with
  | error e => simp [Except.map]
  | ok t => simp [Except.map]

/-- Reading the text back. -/
theorem loads_canonicalText {v : PyVal} {t : PyStr} (h : canonicalText v = .ok t) :
    loads t = some (canonicalImage v) :=
  loads_dumps (canonicalText_ok.mp h).1 (textsOk_canonical v)

theorem isJson_canonicalImage {v : PyVal} {t : PyStr} (h : canonicalText v = .ok t) :
    (canonicalImage v).IsJson := isJson_toJson rfl (canonicalText_ok.mp h).1

/-- One byte form, one value. -/
theorem canonicalJson_inj {v w : PyVal} {b : Bytes} (hv : canonicalJson v = .ok b)
    (hw : canonicalJson w = .ok b) : canonicalImage v = canonicalImage w := by
  obtain ⟨t,ht,hb⟩ := canonicalJson_ok.mp hv
  obtain ⟨u,hu,hc⟩ := canonicalJson_ok.mp hw
  have he := utf8_injOn (canonicalText_ok.mp ht).2 (canonicalText_ok.mp hu).2 (hb.trans hc.symm)
  have hl := loads_canonicalText ht
  rw [he,loads_canonicalText hu] at hl
  exact (Option.some.inj hl).symm

end Stele
