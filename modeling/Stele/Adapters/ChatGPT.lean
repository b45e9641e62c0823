import Stele.Adapters.Message
import Stele.Contracts.Chunks
import Stele.Contracts.SealedBundle
import Stele.Python.Generators
import Stele.Python.JsonBytes

/-! The ChatGPT export adapter: one chunk for each message with content, on every branch of every
conversation. Its generators yield before they raise. -/
namespace Stele
open Python

/-- Decimal digits of any script, an underscore allowed between two. -/
def digitRun : PyStr → Option (List ℕ)
  | [] => none
  | [c] => (decimalValue c).map fun d => [d]
  | c :: d :: s =>
    match decimalValue c with
    | none => none
    | some n => (if d = cp '_' then digitRun s else digitRun (d :: s)).map fun ds => n :: ds

/-- int(s) of a str; `none` is ValueError. -/
def intOfStr (s : PyStr) : Option ℤ :=
  let t := strip s
  let neg := decide (t.head? = some (cp '-'))
  let digits := if neg = true ∨ t.head? = some (cp '+') then t.tail else t
  match digitRun digits with
  | none => none
  | some ds =>
    let n : ℤ := (ds.foldl (fun n d => n*10+d) 0 : ℕ)
    if ds.length ≤ maxStrDigits then some (if neg then -n else n) else none

/-- int(v). -/
def intOf : PyVal → Except Exc ℤ
  | .int i => .ok i
  | .bool b => .ok b.toNat
  | .float (.finite f) => .ok (if f.neg then -((f.units/2^emin : ℕ) : ℤ) else (f.units/2^emin : ℕ))
  | .float (.inf _) => .error .overflowError
  | .float .nan => .error .valueError
  | .str s => match intOfStr s with
    | none => .error .valueError
    | some i => .ok i
  | _ => .error .typeError

/-- The words of s.split() after the part `word` of the first one. -/
def wordsFrom : PyStr → PyStr → List PyStr
  | [],word => if word = [] then [] else [word]
  | c :: s,word =>
    if isWhitespace c then (if word = [] then wordsFrom s [] else word :: wordsFrom s [])
    else wordsFrom s (word++[c])

/-- s.split(). -/
def splitWords (s : PyStr) : List PyStr := wordsFrom s []

/-- make_chunk. -/
def makeChunk (H : Hasher) (chunkId content : PyStr) (metadata : List (PyKey × PyVal)) :
    Except Exc SteleChunk := do
  let hash ← contentDigest H content
  return ⟨chunkId,content,hash,.int (splitWords content).length,.dict metadata⟩

namespace ChatGPT

/-- INDEX. -/
def index : PyStr := lit "index.jsonl"

def malformed (p : ExportProblem) : Exc := .malformedExport p

abbrev Mapping := List (PyKey × PyVal)

/-- _in_mapping. -/
def inMapping (mapping : Mapping) : PyVal → Bool
  | .str s => (PyVal.find mapping (.str s)).isSome
  | _ => false

/-- The node ids of a mapping, in order. -/
def nodeIds (mapping : Mapping) : List PyStr := mapping.filterMap fun p => match p.1 with
  | .str s => some s
  | _ => none

/-- A node that is an object, and {} for one that is not. -/
def nodeItems (mapping : Mapping) (id : PyStr) : List (PyKey × PyVal) :=
  match PyVal.find mapping (.str id) with
  | some (.dict node) => node
  | _ => []

/-- _children of a node's items; the field is a list or missing. -/
def children (mapping : Mapping) (node : List (PyKey × PyVal)) : List PyStr :=
  match getItem node (lit "children") with
  | .list kids => kids.filterMap fun
    | .str s => if inMapping mapping (.str s) then some s else none
    | _ => none
  | _ => []

/-- _ancestors; each turn adds a node, so there are at most as many turns as nodes. -/
def ancestors (mapping : Mapping) : ℕ → PyVal → List PyStr → List PyStr
  | n+1,.str id,seen =>
    if inMapping mapping (.str id) = true ∧ id ∉ seen then
      ancestors mapping n (getItem (nodeItems mapping id) (lit "parent")) (id :: seen)
    else seen
  | _,_,seen => seen

/-- _sibling_count. -/
def siblingCount (mapping : Mapping) (node : List (PyKey × PyVal)) : ℕ :=
  match getItem node (lit "parent") with
  | .str p => match PyVal.find mapping (.str p) with
    | some (.dict parent) => (children mapping parent).length
    | _ => 1
  | _ => 1

/-- An entry of the index. -/
structure Entry where
  path : PyStr
  index : ℤ
  offset : ℤ
  length : ℤ

/-- entry["k"] of a parsed line. -/
def entryItem (entry : PyVal) (k : PyStr) : Except Exc PyVal :=
  match entry with
  | .dict kvs => match PyVal.find kvs (.str k) with
    | none => .error .keyError
    | some v => .ok v
  | _ => .error .typeError

/-- What the try block of _index computes. -/
def parseEntry (line : PyStr) : Except Exc (PyVal × ℤ × ℤ × ℤ) := do
  let entry ← (loads line).elim (.error .valueError) .ok
  let path ← entryItem entry (lit "path")
  let index ← entryItem entry (lit "index") >>= intOf
  let offset ← entryItem entry (lit "offset") >>= intOf
  let length ← entryItem entry (lit "length") >>= intOf
  return (path,index,offset,length)

/-- One line of the index. -/
def readEntry (b : SealedBundle) (number : ℕ) (line : PyStr) : Except Exc Entry :=
  match parseEntry line with
  | .error e =>
    if e.isValueError = true ∨ e = .keyError ∨ e = .typeError then .error (malformed (.line (number+1)))
    else .error e
  | .ok (.str path,index,offset,length) =>
    if (Dict.get b.manifest path).isSome then .ok ⟨path,index,offset,length⟩
    else .error (malformed .notInBundle)
  | .ok (.list _,_) | .ok (.dict _,_) => .error .typeError
  | .ok _ => .error (malformed .notInBundle)

/-- f"{n:06d}". -/
def padded (i : ℤ) : Except Exc PyStr :=
  match strInt i.natAbs with
  | none => .error .valueError
  | some t =>
    if i < 0 then .ok (cp '-' :: (List.replicate (5-t.length) (cp '0')++t))
    else .ok (List.replicate (6-t.length) (cp '0')++t)

/-- The conversation's own id, or one made of its place in the export. -/
def conversationId (U : Unicode) (conversation : List (PyKey × PyVal)) (entry : Entry) : Except Exc PyStr := do
  let id := orElse (getItem conversation (lit "conversation_id")) (getItem conversation (lit "id"))
  if truthy id then strOf U id
  else do
    let n ← padded entry.index
    return lit "conversation-"++n

/-- The same conversation again keeps both copies apart. -/
def countId (seen : Dict PyStr ℕ) (id : PyStr) : PyStr × Dict PyStr ℕ :=
  let n := (seen.get id).getD 0+1
  (if n > 1 then id++cp '#' :: natText n else id,seen.set id n)

/-- A conversation with what is computed before the walk. -/
structure Conversation where
  convId : PyStr
  mapping : Mapping
  currentBranch : List PyStr
  base : List (PyKey × PyVal)

/-- node.get("children") of each node is None or a list. -/
def checkChildren (convId : PyStr) : Mapping → Except Exc Unit
  | [] => .ok ()
  | (k,node) :: mapping =>
    match node with
    | .dict items => match getItem items (lit "children"),k with
      | .none,_ | .list _,_ => checkChildren convId mapping
      | _,.str id => .error (malformed (.children convId id))
      | _,_ => checkChildren convId mapping
    | _ => checkChildren convId mapping

/-- The nodes whose parent is no node. -/
def roots (mapping : Mapping) : List PyStr := (nodeIds mapping).filter fun id =>
  match PyVal.find mapping (.str id) with
  | some (.dict node) => !inMapping mapping (getItem node (lit "parent"))
  | _ => true

/-- conversation.get("mapping"), {} for None. -/
def mappingOf (conversation : List (PyKey × PyVal)) (convId : PyStr) : Except Exc Mapping :=
  match getItem conversation (lit "mapping") with
  | .none => .ok []
  | .dict mapping => .ok mapping
  | _ => .error (malformed (.mapping convId))

/-- The branch that current_node is on, if there is one. -/
def branchOf (mapping : Mapping) (convId : PyStr) : PyVal → Except Exc (List PyStr)
  | .none => .ok []
  | current =>
    if inMapping mapping current then .ok (ancestors mapping mapping.length current [])
    else .error (malformed (.currentNode convId))

/-- _conversation_chunks, up to its loop. -/
def start (conversation : List (PyKey × PyVal)) (convId : PyStr) (entry : Entry) (recordId : PyStr) :
    Except Exc Conversation := do
  let mapping ← mappingOf conversation convId
  checkChildren convId mapping
  let branch ← branchOf mapping convId (getItem conversation (lit "current_node"))
  let leaves := (nodeIds mapping).filter fun id => decide (children mapping (nodeItems mapping id) = [])
  return ⟨convId,mapping,branch,
    [(.str (lit "source"),.str (lit "chatgpt-export")),(.str (lit "stele_record_id"),.str recordId),
      (.str (lit "conversation_id"),.str convId),
      (.str (lit "conversation_title"),getItem conversation (lit "title")),
      (.str (lit "conversation_create_time"),getItem conversation (lit "create_time")),
      (.str (lit "conversation_update_time"),getItem conversation (lit "update_time")),
      (.str (lit "export_file"),.str entry.path),(.str (lit "export_offset"),.int entry.offset),
      (.str (lit "export_length"),.int entry.length),(.str (lit "node_count"),.int mapping.length),
      (.str (lit "branch_count"),.int leaves.length)]⟩

/-- An item of the stack. -/
structure Visit where
  nodeId : PyStr
  chunkParent : Option PyStr
  depth : ℕ
  siblingIndex : ℕ

/-- The message of a node, if it is an object. -/
def messageOf (node : List (PyKey × PyVal)) : Option (List (PyKey × PyVal)) :=
  match getItem node (lit "message") with
  | .dict message => some message
  | _ => none

/-- d.get(k) of a value that may have no get. -/
def getAttr (v : PyVal) (k : PyStr) : Except Exc PyVal :=
  match v with
  | .dict kvs => .ok (getItem kvs k)
  | _ => .error .attributeError

/-- The chunk of a node whose message has content. -/
def chunkOf (H : Hasher) (c : Conversation) (v : Visit) (node message : List (PyKey × PyVal)) (text : PyStr) :
    Except Exc SteleChunk := do
  let author := orElse (getItem message (lit "author")) (.dict [])
  let kids := children c.mapping node
  let role ← getAttr author (lit "role")
  let name ← getAttr author (lit "name")
  let contentType ← getAttr (orElse (getItem message (lit "content")) (.dict [])) (lit "content_type")
  makeChunk H (c.convId++cp ':' :: v.nodeId) text (c.base++
    [(.str (lit "node_id"),.str v.nodeId),(.str (lit "message_id"),getItem message (lit "id")),
      (.str (lit "parent_node_id"),RunConditions.optionPy .str v.chunkParent),
      (.str (lit "raw_parent_id"),getItem node (lit "parent")),(.str (lit "depth"),.int v.depth),
      (.str (lit "sibling_index"),.int v.siblingIndex),
      (.str (lit "sibling_count"),.int (siblingCount c.mapping node)),
      (.str (lit "child_count"),.int kids.length),(.str (lit "is_leaf"),.bool (decide (kids = []))),
      (.str (lit "on_current_branch"),.bool (decide (v.nodeId ∈ c.currentBranch))),
      (.str (lit "role"),role),(.str (lit "author_name"),name),
      (.str (lit "recipient"),getItem message (lit "recipient")),(.str (lit "content_type"),contentType),
      (.str (lit "create_time"),getItem message (lit "create_time"))])

/-- _render of a message, and "" without one. -/
def textOf (U : Unicode) : Option (List (PyKey × PyVal)) → Except Exc PyStr
  | none => .ok []
  | some message => renderMessage U message

/-- What a node yields: at most one chunk. -/
def nodeChunks (H : Hasher) (U : Unicode) (c : Conversation) (v : Visit) : Except Exc (List SteleChunk) := do
  let node := nodeItems c.mapping v.nodeId
  let text ← textOf U (messageOf node)
  match messageOf node,text with
  | some message,_ :: _ => do
    let chunk ← chunkOf H c v node message text
    return [chunk]
  | _,_ => return []

/-- The children of a node, as they come to lie on the stack. -/
def visits (c : Conversation) (v : Visit) (emittedAs : Option PyStr) : List Visit :=
  (children c.mapping (nodeItems c.mapping v.nodeId)).mapIdx fun i kid => ⟨kid,emittedAs,v.depth+1,i⟩

/-- The loop over the stack. Each turn visits one more node; when all have been visited, the next
one is reached twice. -/
def walk (H : Hasher) (U : Unicode) (c : Conversation) : ℕ → List Visit → List PyStr → Gen SteleChunk
  | _,[],visited =>
    let unreached := (nodeIds c.mapping).filter fun id => decide (id ∉ visited)
    if unreached = [] then ⟨[],none⟩ else .raise (malformed (.unreachable c.convId unreached.length))
  | 0,v :: _,_ => .raise (malformed (.reachedTwice c.convId v.nodeId))
  | n+1,v :: stack,visited =>
    if v.nodeId ∈ visited then .raise (malformed (.reachedTwice c.convId v.nodeId))
    else .after (nodeChunks H U c v) fun chunks =>
      let emittedAs := if chunks = [] then v.chunkParent else some v.nodeId
      Gen.append ⟨chunks,none⟩ (walk H U c n (visits c v emittedAs++stack) (v.nodeId :: visited))

/-- _conversation_chunks. -/
def conversationChunks (H : Hasher) (U : Unicode) (conversation : List (PyKey × PyVal)) (convId : PyStr)
    (entry : Entry) (recordId : PyStr) : Gen SteleChunk :=
  .after (start conversation convId entry recordId) fun c =>
    walk H U c c.mapping.length ((roots c.mapping).mapIdx fun i root => ⟨root,none,0,i⟩) []

/-- The conversation of an entry. -/
def readConversation (H : Hasher) (b : SealedBundle) (entry : Entry) : Except Exc (List (PyKey × PyVal)) := do
  let raw ← b.read H entry.path
  match loadsBytes raw with
  | none => .error (malformed (.notJson entry.path))
  | some (.dict conversation) => return conversation
  | some _ => .error (malformed (.notObject entry.path))

/-- The loop of iter_chunks over the lines of the index. -/
def iterLines (H : Hasher) (U : Unicode) (b : SealedBundle) : ℕ → List PyStr → Dict PyStr ℕ → Gen SteleChunk
  | _,[],_ => ⟨[],none⟩
  | number,line :: lines,seen =>
    .after (readEntry b number line) fun entry =>
    .after (readConversation H b entry) fun conversation =>
    .after (conversationId U conversation entry) fun id =>
      (conversationChunks H U conversation (countId seen id).1 entry b.recordId).append
        (iterLines H U b (number+1) lines (countId seen id).2)

/-- iter_chunks. -/
def iterChunks (H : Hasher) (U : Unicode) (b : SealedBundle) : Gen SteleChunk :=
  match b.parser.map ParserIdentity.name with
  | some name => if name ≠ splitter then .raise (malformed (.parser name)) else iterBundle
  | none => iterBundle
where
  iterBundle : Gen SteleChunk :=
    if (Dict.get b.manifest index).isNone then .raise (malformed .noIndex)
    else .after (b.readText H index) fun text => iterLines H U b 0 (splitLines text) []

/-- transform. -/
def transform (H : Hasher) (U : Unicode) (b : SealedBundle) : Except Exc (List SteleChunk) :=
  match (iterChunks H U b).raised with
  | some e => .error e
  | none => .ok (iterChunks H U b).items

section Fuel

variable {H : Hasher} {U : Unicode} {c : Conversation} {mapping : Mapping} {id : PyStr}

lemma mem_nodeIds (h : inMapping mapping (.str id) = true) : id ∈ nodeIds mapping := by
  obtain ⟨v,hv⟩ := Option.isSome_iff_exists.mp h
  obtain ⟨p,hp,-⟩ := Option.map_eq_some_iff.mp hv
  have hk : p.1 = .str id := keyEq_str_right.mp (by simpa using List.find?_some hp)
  exact List.mem_filterMap.mpr ⟨p,List.mem_of_find?_eq_some hp,by rw [hk]⟩

lemma children_nodeIds {node : List (PyKey × PyVal)} : ∀ kid ∈ children mapping node, kid ∈ nodeIds mapping := by
  intro kid hk
  unfold children at hk
  split at hk
  · obtain ⟨x,-,hx⟩ := List.mem_filterMap.mp hk
    split at hx
    · split_ifs at hx with hin
      rw [← Option.some.inj hx]
      exact mem_nodeIds hin
    · cases hx
  · exact absurd hk List.not_mem_nil

lemma visits_nodeIds (v : Visit) (emittedAs : Option PyStr) :
    ∀ w ∈ visits c v emittedAs, w.nodeId ∈ nodeIds c.mapping := by
  intro w hw
  obtain ⟨i,hi,rfl⟩ := List.mem_mapIdx.mp hw
  exact children_nodeIds _ (List.getElem_mem hi)

/-- As many turns as there are nodes are enough: with more of them the walk is the same. -/
theorem walk_fuel {n : ℕ} {stack : List Visit} {visited : List PyStr}
    (hs : ∀ v ∈ stack, v.nodeId ∈ nodeIds c.mapping) (hv : visited ⊆ nodeIds c.mapping)
    (hd : visited.Nodup) (hn : c.mapping.length ≤ visited.length+n) (k : ℕ) :
    walk H U c (n+k) stack visited = walk H U c n stack visited := by
  induction n generalizing stack visited with
  | zero =>
    cases stack with
    | nil => cases k <;> rfl
    | cons v stack =>
      have hall : v.nodeId ∈ visited := by
        have hlen : (nodeIds c.mapping).length ≤ visited.length :=
          (List.length_filterMap_le _ _).trans (by omega)
        exact ((List.subperm_of_subset hd hv).perm_of_length_le hlen).mem_iff.mpr (hs v (by simp))
      cases k with
      | zero => rfl
      | succ k => rw [Nat.zero_add]; exact if_pos hall
  | succ n ih =>
    cases stack with
    | nil => rw [Nat.add_right_comm]; rfl
    | cons v stack =>
      have hv' := hs v (by simp)
      rw [Nat.add_right_comm,walk,walk]
      by_cases hin : v.nodeId ∈ visited
      · rw [if_pos hin,if_pos hin]
      rw [if_neg hin,if_neg hin]
      congr 1
      funext chunks
      dsimp only
      rw [ih]
      · intro w hw
        rcases List.mem_append.mp hw with hw | hw
        · exact visits_nodeIds v _ w hw
        · exact hs w (List.mem_cons_of_mem _ hw)
      · exact List.cons_subset.mpr ⟨hv',hv⟩
      · exact List.nodup_cons.mpr ⟨hin,hd⟩
      · rw [List.length_cons]
        omega
end Fuel

end ChatGPT

end Stele
