import Stele.Python.Text

/-! Pure POSIX paths, as pathlib parses and joins them. -/
namespace Python

/-- The number of slashes in front (two are kept, three or more are one) and the parts,
without empty ones and ".". -/
structure PurePath where
  root : ℕ
  parts : List PyStr
  deriving DecidableEq

namespace PurePath

/-- PurePosixPath(s). -/
def ofStr (s : PyStr) : PurePath where
  root :=
    if s.take 1 ≠ lit "/" then 0
    else if s.take 2 = lit "//" ∧ s.take 3 ≠ lit "///" then 2
    else 1
  parts := (s.splitOn (cp '/')).filter fun p => decide (p ≠ [] ∧ p ≠ lit ".")

/-- a / b: an absolute path replaces what it is joined to. -/
def join (a b : PurePath) : PurePath := if b.root ≠ 0 then b else ⟨a.root,a.parts++b.parts⟩

/-- str(path). -/
def toStr (p : PurePath) : PyStr :=
  if p.root = 0 ∧ p.parts = [] then lit "."
  else List.replicate p.root (cp '/')++List.intercalate [cp '/'] p.parts

/-- path.relative_to(base); `none` is ValueError. -/
def relativeTo (p base : PurePath) : Option PurePath :=
  if p.root = base.root ∧ base.parts.isPrefixOf p.parts then
    some ⟨0,p.parts.drop base.parts.length⟩
  else none

end PurePath

end Python
