import Stele.Archive.Store
import Stele.Ledger.Models

/-! A sealed record's artifacts, served by digest from the evidence archive. -/
namespace Stele
open Python

/-- SealedBundle, with what the readers of a bundle use of it. -/
structure SealedBundle where
  recordId : PyStr
  artifactHash : PyStr
  manifest : Manifest
  parser : Option ParserIdentity
  sourceHash : Option PyStr
  archive : Archive

namespace SealedBundle

/-- read: KeyError for no artifact, else what the archive has just verified. -/
def read (H : Hasher) (b : SealedBundle) (path : PyStr) : Except Exc Bytes :=
  match Dict.get b.manifest path with
  | none => .error .keyError
  | some digest => b.archive.read H digest

/-- read_text. -/
def readText (H : Hasher) (b : SealedBundle) (path : PyStr) : Except Exc PyStr := do
  let data ← b.read H path
  match decode data with
  | none => .error .valueError
  | some s => .ok s

end SealedBundle

end Stele
