import Stele.Archive.Records

/-! Tree objects: the canonical bytes of a {relative path: digest} manifest, and reading
them back. -/
namespace Stele
open Python

/-- A dict of relative path to digest, in the order its items were set. -/
abbrev Manifest := List (PyStr × PyStr)

/-- sorted(manifest), with the digests. -/
def sortPaths (m : Manifest) : Manifest := m.insertionSort fun a b => a.1 ≤ b.1

/-- One entry of encode_manifest: path NUL digest NUL. -/
def encodeEntry (p : PyStr × PyStr) : Except Exc Bytes :=
  if Encodable p.1 ∧ Encodable p.2 then .ok (utf8 p.1++0 :: (utf8 p.2++[0]))
  else .error .unicodeEncodeError

/-- encode_manifest. -/
def encodeManifest (m : Manifest) : Except Exc Bytes :=
  ((sortPaths m).mapM encodeEntry).map List.flatten

/-- sha256_manifest. -/
def sha256Manifest (H : Hasher) (m : Manifest) : Except Exc PyStr :=
  (encodeManifest m).map H.hexdigest

/-- path.split("/"). -/
def components (path : PyStr) : List PyStr := path.splitOn (cp '/')

def isUnsafePart (part : PyStr) : Bool :=
  decide (part = [] ∨ part = lit "." ∨ part = lit "..")

/-- validate_tree_path. -/
def validateTreePath (path : PyStr) : Except Exc Unit :=
  if path = [] ∨ 0 ∈ path ∨ path.head? = some (cp '/') then .error .valueError
  else if (components path).any isUnsafePart then .error .valueError
  else .ok ()

/-- Every directory above the path, as parts joined by "/". -/
def directories (path : PyStr) : List PyStr :=
  (List.range' 1 ((components path).length-1)).map fun i =>
    List.intercalate [cp '/'] ((components path).take i)

/-- _check_no_file_dir_clash. -/
def checkNoFileDirClash (m : Manifest) : Except Exc Unit :=
  if m.any fun p => (directories p.1).any fun d => m.any fun q => decide (q.1 = d) then
    .error .recordFormat
  else .ok ()

/-- bytes.decode("ascii"). -/
def decodeAscii (b : Bytes) : Option PyStr :=
  if b.all fun c => decide (c < 128) then some (b.map fun c => Fin.ofNat _ c.toNat) else none

/-- The loop of decode_tree over pairs of fields. -/
def decodeFields : List Bytes → Manifest → Except Exc Manifest
  | a :: b :: fields,m =>
    match decode a,decodeAscii b with
    | some path,some digest =>
      match validateTreePath path with
      | .error _ => .error .recordFormat
      | .ok () =>
        if isDigest digest = false ∨ m.any (fun p => decide (p.1 = path)) then .error .recordFormat
        else decodeFields fields (m++[(path,digest)])
    | _,_ => .error .recordFormat
  | [_],_ => .error .recordFormat
  | [],m => .ok m

/-- decode_tree. -/
def decodeTree (data : Bytes) : Except Exc Manifest :=
  if data = [] then .ok []
  else if data.getLast? ≠ some 0 then .error .recordFormat
  else
    match decodeFields (data.dropLast.splitOn 0) [] with
    | .error e => .error e
    | .ok m =>
      match encodeManifest m with
      | .error e => .error e
      | .ok back =>
        if back ≠ data then .error .recordFormat
        else match checkNoFileDirClash m with
          | .error e => .error e
          | .ok () => .ok m

end Stele
