import Stele.Extraction.Resolver

/-! What the normalizers share: unit ids, the numbering of units and the Extraction of a bundle. -/
namespace Stele
open Python

/-- A unit before it is numbered. -/
structure UnitArgs where
  kind : Kind
  text : PyStr
  level : Option ℕ
  parent : Option PyStr
  anchor : Extraction.Anchor
  attributes : List (PyKey × PyVal)

/-- f"u{n:06d}". -/
def unitId (n : ℕ) : Except Exc PyStr :=
  match strInt n with
  | none => .error .valueError
  | some t => .ok (cp 'u' :: (List.replicate (6-t.length) (cp '0')++t))

/-- Unit(id=..., order=..., **unit). -/
def UnitArgs.number (a : UnitArgs) (order : ℕ) : Except Exc ExtractionUnit := do
  let id ← unitId (order+1)
  ExtractionUnit.make (.str id) (.str a.kind.value) (.str a.text) (.int order) a.anchor .none .none
    (ExtractionUnit.natPy a.level) (RunConditions.optionPy .str a.parent) (.dict a.attributes)

/-- number_units, from a unit on. -/
def numberUnits : ℕ → List UnitArgs → Except Exc (List ExtractionUnit)
  | _,[] => .ok []
  | order,a :: as => do
    let u ← a.number order
    let us ← numberUnits (order+1) as
    return u :: us

/-- _extraction. -/
def extractionOf (b : SealedBundle) (n : Normalizer) (units : List UnitArgs) : Except Exc Extraction := do
  let us ← numberUnits 0 units
  Extraction.make (.str b.recordId) (.str b.artifactHash) (RunConditions.optionPy .str b.sourceHash)
    (parserId b).toPy n.nameVersion.toPy us

def normalizeError {α : Type} (p : NormalizeProblem) : Except Exc α := .error (.normalize p)

/-- Anchor(...), which may refuse what it is given. -/
def anchorOf (artifact digest : PyStr) (place : Place) : Except Exc Extraction.Anchor :=
  match Extraction.Anchor.make (.str artifact) (.str digest) place.toArgs.1 place.toArgs.2.1
    place.toArgs.2.2 with
  | .error p => formatError p
  | .ok a => .ok a

/-- bundle.manifest[path]. -/
def SealedBundle.digestOf (b : SealedBundle) (path : PyStr) : Except Exc PyStr :=
  match Dict.get b.manifest path with
  | none => .error .keyError
  | some digest => .ok digest

end Stele
