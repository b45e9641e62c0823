import Stele.Errors
import Stele.Python.Objects

/-! The text of a ChatGPT message, for every content type that the export uses. -/
namespace Stele
open Python

/-- SPLITTER. -/
def splitter : PyStr := lit "chatgpt-export-split"

lemma splitter_ne : splitter ≠ [] := by decide

variable (U : Unicode) (deep : PyVal → Bool)

/-- str(v) as the code raises it. -/
def strOf (v : PyVal) : Except Exc PyStr :=
  match str U v with
  | .error e => .error (.ofJson e)
  | .ok t => .ok t

/-- _part_reference. -/
def partReference (part : List (PyKey × PyVal)) : Except Exc PyStr :=
  match getItem part (lit "text") with
  | .str (c :: t) => .ok (c :: t)
  | _ => do
    let kind ← limited deep (strOf U) (orElse (getItem part (lit "content_type")) (.str (lit "attachment")))
    let pointer := orElse (getItem part (lit "asset_pointer"))
      (orElse (getItem part (lit "name")) (.str []))
    if truthy pointer then do
      let p ← limited deep (strOf U) pointer
      return cp '[' :: (kind++lit ": "++p++[cp ']'])
    else return cp '[' :: (kind++[cp ']'])

/-- A part of content["parts"]: nothing for an empty string and for what is neither. -/
def partPieces : PyVal → Except Exc (List PyVal)
  | .str (c :: t) => .ok [.str (c :: t)]
  | .dict part => do
    let t ← partReference U deep part
    return [.str t]
  | _ => .ok []

/-- str(d[k]) for each of the keys whose value is true. -/
def trueItems (d : List (PyKey × PyVal)) (keys : List PyStr) : Except Exc (List PyStr) :=
  (keys.filter fun k => truthy (getItem d k)).mapM fun k => limited deep (strOf U) (getItem d k)

/-- One of content["thoughts"]. -/
def thoughtPieces : PyVal → Except Exc (List PyVal)
  | .dict thought => do
    let ts ← trueItems U deep thought [lit "summary",lit "content"]
    return [.str ((lit "\n").intercalate ts)]
  | _ => .ok []

/-- for x in v: the keys of a dict and the characters of a str are no objects. -/
def iterate : PyVal → Except Exc (List PyVal)
  | .list xs => .ok xs
  | .dict _ | .str _ => .ok []
  | _ => .error .typeError

/-- The string fields of a content of unknown type. -/
def stringField (content : List (PyKey × PyVal)) (key : PyStr) : List PyVal :=
  match getItem content key with
  | .str (c :: t) => [.str (c :: t)]
  | _ => []

def pieces (content : List (PyKey × PyVal)) : Except Exc (List PyVal) :=
  let kind := getItem content (lit "content_type")
  match getItem content (lit "parts") with
  | .list parts => do
    let ps ← parts.mapM (partPieces U deep)
    return ps.flatten
  | _ =>
    if kind.pyEq (.str (lit "code")) then .ok [orElse (getItem content (lit "text")) (.str [])]
    else if kind.pyEq (.str (lit "user_editable_context")) then do
      let ts ← trueItems U deep content [lit "user_profile",lit "user_instructions"]
      return ts.map .str
    else if kind.pyEq (.str (lit "thoughts")) then do
      let thoughts ← iterate (orElse (getItem content (lit "thoughts")) (.list []))
      let ps ← thoughts.mapM (thoughtPieces U deep)
      return ps.flatten
    else .ok ([lit "text",lit "result",lit "content",lit "summary"].flatMap (stringField content))

/-- An item of sep.join(items). -/
def joinItem : PyVal → Except Exc PyStr
  | .str s => .ok s
  | _ => .error .typeError

/-- _render, where str() runs into the recursion limit on the `deep` values. -/
def renderMessageWithin (message : List (PyKey × PyVal)) : Except Exc PyStr :=
  match getItem message (lit "content") with
  | .dict content => do
    let ps ← pieces U deep content
    let ts ← (ps.filter truthy).mapM joinItem
    return strip ((lit "\n\n").intercalate ts)
  | _ => .ok []

/-- _render, without a recursion limit. -/
def renderMessage (message : List (PyKey × PyVal)) : Except Exc PyStr :=
  renderMessageWithin U (fun _ => false) message

end Stele
