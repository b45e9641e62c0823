import Stele.Adapters.ChatGPT
import Stele.Extraction.Markdown

/-! The ChatGPT normalizer, and the choice of a normalizer by the parser's name. -/
namespace Stele
open Python

/-- One token of json_pointer. -/
def escapeToken (t : PyStr) : PyStr := replace (lit "/") (lit "~1") (replace (lit "~") (lit "~0") t)

/-- json_pointer. -/
def jsonPointer (tokens : List PyStr) : PyStr := tokens.flatMap fun t => cp '/' :: escapeToken t

/-- _CHATGPT_ATTRIBUTES. -/
def chatgptAttributes : List PyStr :=
  [lit "conversation_id",lit "conversation_title",lit "node_id",lit "message_id",lit "role",
    lit "author_name",lit "recipient",lit "content_type",lit "create_time",lit "depth",
    lit "sibling_index",lit "sibling_count",lit "is_leaf",lit "on_current_branch"]

/-- {k: meta[k] for k in _CHATGPT_ATTRIBUTES if meta.get(k) is not None}. -/
def attributesOf (metadata : List (PyKey × PyVal)) : List (PyKey × PyVal) :=
  chatgptAttributes.filterMap fun k => match getItem metadata k with
    | .none => none
    | v => some (.str k,v)

/-- meta[k] that is a str. -/
def metaStr (metadata : List (PyKey × PyVal)) (k : PyStr) : Except Exc PyStr :=
  match getItem metadata k with
  | .str s => .ok s
  | _ => .error .typeError

/-- Units made so far, and the unit id of each (conversation, node). -/
structure Messages where
  units : List UnitArgs
  unitOf : Dict (PyStr × PyStr) PyStr

/-- unit_of[(conv, parent)] if parent is not None else None. -/
def Messages.parentOf (m : Messages) (conv : PyStr) : PyVal → Except Exc (Option PyStr)
  | .none => .ok none
  | .str parent => match m.unitOf.get (conv,parent) with
    | none => .error .keyError
    | some id => .ok (some id)
  | _ => .error .keyError

/-- The loop body of normalize_chatgpt. -/
def Messages.add (b : SealedBundle) (m : Messages) (chunk : SteleChunk) : Except Exc Messages := do
  let metadata := match chunk.metadata with
    | .dict kvs => kvs
    | _ => []
  let conv ← metaStr metadata (lit "conversation_id")
  let node ← metaStr metadata (lit "node_id")
  let id ← unitId (m.units.length+1)
  let unitOf := m.unitOf.set (conv,node) id
  let artifact ← metaStr metadata (lit "export_file")
  let parent ← Messages.parentOf ⟨m.units,unitOf⟩ conv (getItem metadata (lit "parent_node_id"))
  let digest ← b.digestOf artifact
  let anchor ← anchorOf artifact digest
    (.pointer (jsonPointer [lit "mapping",node,lit "message"]) chatgptRenderer)
  return ⟨m.units++[⟨.message,chunk.content,none,parent,anchor,attributesOf metadata⟩],unitOf⟩

/-- normalize_chatgpt: the chunks are taken one by one, then what the adapter raises is raised. -/
def normalizeChatgpt (H : Hasher) (U : Unicode) (b : SealedBundle) : Except Exc Extraction := do
  let chunks := ChatGPT.iterChunks H U b
  let m ← chunks.items.foldlM (Messages.add b) ⟨[],[]⟩
  match chunks.raised with
  | some e => .error e
  | none => match extractionOf b .chatgpt m.units with
    | .error (.extractionFormat p) => normalizeError (.format p)
    | r => r

/-- normalize. -/
def normalize (H : Hasher) (U : Unicode) (b : SealedBundle) : Except Exc Extraction := do
  match ← normalizerFor b with
  | .markdown => normalizeMarkdown H b
  | .chatgpt => normalizeChatgpt H U b

end Stele
