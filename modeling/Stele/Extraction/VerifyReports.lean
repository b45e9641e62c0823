import Stele.Adapters.RenderTotal
import Stele.Extraction.ResolverCache

/-! Which anchors make verify() raise instead of reporting a problem: bytes that are nested too deep for
json.loads, a list index that int() refuses, and a message that _render fails on. Every other anchor is
reported and the remaining units are still checked. -/
namespace Stele
open Python

variable {H : Hasher} {U : Unicode} {b : SealedBundle}

section Pointer

variable {v w x : PyVal} {t pointer : PyStr} {ts : List PyStr}

/-- The tokens of a JSON pointer. -/
def pointerTokens (pointer : PyStr) : List PyStr :=
  if pointer = [] then [] else (List.splitOn (cp '/') pointer.tail).map unescapeToken

/-- The tokens lead from one value to another, by members and by elements. -/
inductive Leads : PyVal → List PyStr → PyVal → Prop
  | here (v : PyVal) : Leads v [] v
  | member {kvs : List (PyKey × PyVal)} {t : PyStr} {ts : List PyStr} {v w : PyVal}
      (h : PyVal.find kvs (.str t) = some v) (hr : Leads v ts w) : Leads (.dict kvs) (t :: ts) w
  | element {xs : List PyVal} {t : PyStr} {ts : List PyStr} {v w : PyVal} (hu : isUint t = true)
      (hl : t.length ≤ maxStrDigits) (h : xs[natOf t]? = some v) (hr : Leads v ts w) : Leads (.list xs) (t :: ts) w

/-- The tokens lead to a list, and the next one is an index of more digits than int() takes. -/
def LongIndex (v : PyVal) (ts : List PyStr) : Prop :=
  ∃ ts₁ t ts₂ xs, ts = ts₁++t :: ts₂ ∧ Leads v ts₁ (.list xs) ∧ isUint t = true ∧ maxStrDigits < t.length

lemma Leads.shown (h : Leads v ts w) (hv : Shown U v) : Shown U w := by
  induction h with
  | here v => exact hv
  | member h _ ih =>
    rw [PyVal.find,Option.map_eq_some_iff] at h
    obtain ⟨p,hp,rfl⟩ := h
    exact ih (hv.item (List.mem_of_find?_eq_some hp))
  | element _ _ h _ ih => exact ih (shown_list.mp hv _ (List.mem_of_getElem? h))

end Pointer

namespace BundleResolver

variable {lim : Limits} {a : Extraction.Anchor} {c : ArtifactCache} {e : Extraction}

/-- The artifact of an anchor is sealed under its digest and stored with these bytes. -/
def Provides (H : Hasher) (b : SealedBundle) (a : Extraction.Anchor) (data : Bytes) : Prop :=
  Dict.get b.manifest a.artifact = some a.digest ∧ b.archive.read H a.digest = .ok data

/-- The bytes are those of this JSON value, and json.loads gets to the end of them. -/
def Opens (H : Hasher) (b : SealedBundle) (lim : Limits) (a : Extraction.Anchor) (doc : PyVal) : Prop :=
  ∃ data, Provides H b a data ∧ lim.loads data = false ∧ loadsBytes data = some doc

/-- An anchor that makes resolve() raise something that verify() does not catch. -/
def Escapes (H : Hasher) (b : SealedBundle) (lim : Limits) (a : Extraction.Anchor) : Prop :=
  ∃ p r, a.place = .pointer p r ∧ (r = lit "json-string" ∨ r = chatgptRenderer) ∧
    ((∃ data, Provides H b a data ∧ lim.loads data = true) ∨
      ∃ doc, Opens H b lim a doc ∧ (LongIndex doc (pointerTokens p) ∨
        r = chatgptRenderer ∧ ∃ message, Leads doc (pointerTokens p) (.dict message) ∧
          UnrenderableMessage lim.str message))

lemma Opens.unique {doc doc' : PyVal} (h : Opens H b lim a doc) (h' : Opens H b lim a doc') : doc = doc' := by
  obtain ⟨data,hp,-,hl⟩ := h
  obtain ⟨data',hp',-,hl'⟩ := h'
  obtain rfl := Except.ok.inj (hp.2.symm.trans hp'.2)
  exact Option.some.inj (hl.symm.trans hl')

lemma Opens.shown {doc : PyVal} (h : Opens H b lim a doc) : Shown U doc := by
  obtain ⟨data,-,-,hl⟩ := h
  obtain ⟨s,-,hs⟩ := Option.bind_eq_some_iff.mp hl
  exact loads_shown hs

/-- What verify() reports of one unit. -/
inductive UnitReport (H : Hasher) (U : Unicode) (b : SealedBundle) (lim : Limits) (u : ExtractionUnit) : List VerifyProblem → Prop
  | same (h : (resolveWithin H U b lim u.anchor .fresh).1 = .ok u.text) : UnitReport H U b lim u []
  | differs {t : PyStr} (h : (resolveWithin H U b lim u.anchor .fresh).1 = .ok t) (hne : t ≠ u.text) :
      UnitReport H U b lim u [.text u.id]
  | unresolved {p : ResolutionProblem} (h : (resolveWithin H U b lim u.anchor .fresh).1 = resolutionError p) :
      UnitReport H U b lim u [.unit u.id p]

/-- A list of problems was returned: the reports of the units in turn. -/
def Checked (H : Hasher) (U : Unicode) (b : SealedBundle) (lim : Limits) (us : List ExtractionUnit)
    (x : Except Exc (List VerifyProblem)) : Prop :=
  ∃ pss, List.Forall₂ (UnitReport H U b lim) us pss ∧ x = .ok pss.flatten

lemma Checked.cons {u : ExtractionUnit} {us : List ExtractionUnit} {ps : List VerifyProblem}
    {x : Except Exc (List VerifyProblem)} (hu : UnitReport H U b lim u ps) (h : Checked H U b lim us x) :
    Checked H U b lim (u :: us) (x.map (ps++·)) := by
  obtain ⟨pss,hall,rfl⟩ := h
  exact ⟨ps :: pss,.cons hu hall,rfl⟩

section Sample

end Sample

end BundleResolver

end Stele
