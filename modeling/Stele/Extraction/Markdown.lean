import Stele.Extraction.Normalizer

/-! The Markdown normalizer: blocks of lines, the kind of each from its syntax, and sections that
nest by heading level. Every block lies in the document. -/
namespace Stele
open Python

namespace Markdown

/-- The lines after the part `line` of the first one, each with its line ending. -/
def linesFrom : Bytes → Bytes → List Bytes
  | [],line => if line = [] then [] else [line]
  | b :: s,line =>
    if b = 10 then (line++[10]) :: linesFrom s []
    else if b = 13 then
      match s with
      | c :: r => if c = 10 then (line++[13,10]) :: linesFrom r [] else (line++[13]) :: linesFrom (c :: r) []
      | [] => [line++[13]]
    else linesFrom s (line++[b])

/-- data.splitlines(keepends=True). -/
def linesKept (data : Bytes) : List Bytes := linesFrom data []

/-- line.rstrip(b"\r\n"). -/
def withoutEnd (line : Bytes) : Bytes := line.rdropWhile fun b => decide (b = 13 ∨ b = 10)

/-- data.splitlines(). -/
def lines (data : Bytes) : List Bytes := (linesKept data).map withoutEnd

def isSpace (b : UInt8) : Bool := decide (b = 32 ∨ 9 ≤ b ∧ b ≤ 13)

/-- data.strip(). -/
def strip (data : Bytes) : Bytes := (data.dropWhile isSpace).rdropWhile isSpace

def isBlankChar (b : UInt8) : Bool := decide (b = 32 ∨ b = 9)

/-- [ \t] -/
def atBlank : Bytes → Bool
  | b :: _ => isBlankChar b
  | [] => false

/-- ` {0,n}`, all the spaces there are: what follows in the patterns is no space. -/
def dropSpaces : ℕ → Bytes → Bytes
  | n+1,b :: s => if b = 32 then dropSpaces n s else b :: s
  | _,s => s

/-- The run of the first byte, and what follows it. -/
def run (b : UInt8) (s : Bytes) : Bytes × Bytes := (s.takeWhile (· == b),s.dropWhile (· == b))

/-- _FENCE: the fence and what follows it. -/
def fence (line : Bytes) : Option (Bytes × Bytes) :=
  match dropSpaces 3 line with
  | b :: s =>
    if (b = 96 ∨ b = 126) ∧ 3 ≤ (run b (b :: s)).1.length then some (run b (b :: s)) else none
  | [] => none

/-- _ATX: the number of #. -/
def atx (line : Bytes) : Option ℕ :=
  let (marks,rest) := run 35 (dropSpaces 3 line)
  if 1 ≤ marks.length ∧ marks.length ≤ 6 ∧ (rest = [] ∨ atBlank rest = true) then some marks.length
  else none

/-- _SETEXT: the byte of the underline. -/
def setext (line : Bytes) : Option UInt8 :=
  match dropSpaces 3 line with
  | b :: s =>
    if (b = 61 ∨ b = 45) ∧ (run b (b :: s)).2.all isBlankChar = true then some b else none
  | [] => none

def isDigit (b : UInt8) : Bool := decide (48 ≤ b ∧ b ≤ 57)

/-- _LIST. -/
def isList (line : Bytes) : Bool :=
  let s := line.dropWhile isBlankChar
  match s with
  | [] => false
  | b :: r =>
    if b = 45 ∨ b = 42 ∨ b = 43 then atBlank r
    else
      let digits := s.takeWhile isDigit
      match s.dropWhile isDigit with
      | [] => false
      | c :: r => decide (1 ≤ digits.length ∧ digits.length ≤ 9 ∧ (c = 46 ∨ c = 41)) && atBlank r

def isWord (b : UInt8) : Bool :=
  isDigit b || decide (65 ≤ b ∧ b ≤ 90) || decide (97 ≤ b ∧ b ≤ 122) || decide (b = 95)

def lower (b : UInt8) : UInt8 := if 65 ≤ b ∧ b ≤ 90 then b+32 else b

/-- b"<table" -/
def tableTag : Bytes := [60,116,97,98,108,101]

/-- _TABLE. -/
def isTable (line : Bytes) : Bool :=
  let s := line.dropWhile isBlankChar
  decide (s.head? = some 124) ||
    decide ((s.take 6).map lower = tableTag) && !(s.drop 6).head?.any isWord

/-- The state of the loop over the lines. -/
structure Blocks where
  blocks : List (ℕ × ℕ)
  start : Option ℕ
  stop : ℕ
  linesInBlock : ℕ
  fence : Option Bytes
  pos : ℕ

namespace Blocks

def init : Blocks := ⟨[],none,0,0,none,0⟩

/-- close. -/
def close (s : Blocks) : Blocks := { s with
  blocks := s.blocks++(match s.start with | some a => [(a,s.stop)] | none => []),
  start := none, linesInBlock := 0 }

/-- Whether a line closes the fence. -/
def closes (opened : Bytes) (body : Bytes) : Bool :=
  match Markdown.fence body with
  | some (mark,rest) =>
    decide (mark.head? = opened.head? ∧ opened.length ≤ mark.length ∧ strip rest = [])
  | none => false

/-- data[start:end]. -/
def slice (data : Bytes) (start stop : ℕ) : Bytes := (data.take stop).drop start

/-- A line that is no fence, no heading and not blank. -/
def plain (data : Bytes) (s : Blocks) (body : Bytes) (lineEnd : ℕ) : Blocks :=
  let start := s.start.getD s.pos
  let t := { s with start := some start, stop := lineEnd, linesInBlock := s.linesInBlock+1 }
  if t.linesInBlock = 2 ∧ (setext body).isSome = true ∧
      isList ((lines (slice data start lineEnd)).headD []) = false then t.close
  else t

/-- One line of the document. -/
def step (data : Bytes) (s : Blocks) (line : Bytes) : Blocks :=
  let body := withoutEnd line
  let lineEnd := s.pos+body.length
  let t := match s.fence with
    | some opened =>
      let t := { s with stop := lineEnd }
      if closes opened body then { t with fence := none }.close else t
    | none =>
      if strip body = [] then s.close
      else match Markdown.fence body with
        | some (mark,_) => { s.close with start := some s.pos, stop := lineEnd, fence := some mark }
        | none =>
          if (atx body).isSome then { s.close with start := some s.pos, stop := lineEnd }.close
          else plain data s body lineEnd
  { t with pos := s.pos+line.length }

end Blocks

/-- markdown_blocks. -/
def blocks (data : Bytes) : List (ℕ × ℕ) := ((linesKept data).foldl (Blocks.step data) .init).close.blocks

section Bounds

variable {data : Bytes} {s : Blocks} {m n : ℕ}

lemma linesFrom_flatten (s line : Bytes) : (linesFrom s line).flatten = line++s := by
  fun_induction linesFrom s line <;> simp_all

/-- Every block so far, and the open one, ends by `n`. -/
structure Blocks.Within (n : ℕ) (s : Blocks) : Prop where
  stop : s.stop ≤ n
  blocks : ∀ p ∈ s.blocks, p.2 ≤ n

namespace Blocks

lemma Within.mono (h : s.Within m) (hmn : m ≤ n) : s.Within n :=
  ⟨h.stop.trans hmn,fun p hp => (h.blocks p hp).trans hmn⟩

lemma Within.close (h : s.Within n) : s.close.Within n where
  stop := h.stop
  blocks p hp := by
    rcases List.mem_append.mp hp with hp | hp
    · exact h.blocks p hp
    · cases hs : s.start with
      | none => simp [hs] at hp
      | some a =>
        simp only [hs,List.mem_singleton] at hp
        rw [hp]
        exact h.stop

/-- The open block ends where the line does. -/
lemma Within.to {t : Blocks} (h : s.Within n) (hb : t.blocks = s.blocks) (hs : t.stop ≤ n) : t.Within n :=
  ⟨hs,fun p hp => h.blocks p (hb ▸ hp)⟩

lemma plain_within {body : Bytes} {lineEnd : ℕ} (h : s.Within n) (he : lineEnd ≤ n) :
    (plain data s body lineEnd).Within n := by
  unfold plain
  have ht : Within n { s with
      start := some (s.start.getD s.pos), stop := lineEnd, linesInBlock := s.linesInBlock+1 } := h.to rfl he
  dsimp only
  split_ifs
  · exact ht.close
  · exact ht

lemma step_within (h : s.Within s.pos) (line : Bytes) :
    (step data s line).Within (s.pos+line.length) := by
  have hbody : s.pos+(withoutEnd line).length ≤ s.pos+line.length :=
    Nat.add_le_add_left (List.IsPrefix.length_le (List.rdropWhile_prefix _ _)) _
  have hs : s.Within (s.pos+line.length) := h.mono (Nat.le_add_right _ _)
  have key : ∀ t : Blocks, t.Within (s.pos+line.length) →
      Within (s.pos+line.length) { t with pos := s.pos+line.length } := fun t ht => ⟨ht.stop,ht.blocks⟩
  unfold step
  refine key _ ?_
  cases s.fence with
  | some opened =>
    dsimp only
    have ht : Within (s.pos+line.length) { s with stop := s.pos+(withoutEnd line).length } := hs.to rfl hbody
    split_ifs
    · exact Within.close (ht.to rfl hbody)
    · exact ht.to rfl hbody
  | none =>
    dsimp only
    by_cases hblank : strip (withoutEnd line) = []
    · rw [if_pos hblank]
      exact hs.close
    rw [if_neg hblank]
    cases Markdown.fence (withoutEnd line) with
    | some p => exact hs.close.to rfl hbody
    | none =>
      dsimp only
      split_ifs
      · exact Within.close (hs.close.to rfl hbody)
      · exact plain_within hs hbody

lemma foldl_within (h : s.Within s.pos) (lines : List Bytes) :
    (lines.foldl (step data) s).Within (s.pos+lines.flatten.length) := by
  induction lines generalizing s with
  | nil => exact h
  | cons line lines ih =>
    have hstep : (step data s line).Within (s.pos+line.length) := step_within h line
    have := ih (s := step data s line) hstep
    rw [List.foldl_cons,List.flatten_cons,List.length_append,← Nat.add_assoc]
    exact this

end Blocks

/-- Every block lies in the document. -/
theorem blocks_within (data : Bytes) : ∀ p ∈ blocks data, p.2 ≤ data.length := by
  have h : ((linesKept data).foldl (Blocks.step data) .init).Within
      (Blocks.init.pos+(linesKept data).flatten.length) := Blocks.foldl_within ⟨le_rfl,List.forall_mem_nil _⟩ (linesKept data)
  rw [linesKept,linesFrom_flatten,List.nil_append,Blocks.init,Nat.zero_add] at h
  exact h.close.blocks

end Bounds

/-- sub.startswith(p). -/
def startsWith (p s : Bytes) : Bool := p.isPrefixOf s

/-- markdown_kind of a block with its first line. -/
def kindOf (block first : Bytes) : Kind × Option ℕ :=
  let second := match lines block with
    | [_,l] => setext l
    | _ => none
  match atx first,second with
  | some n,_ => (.heading,some n)
  | none,second =>
    if second.isSome = true ∧ isList first = false then (.heading,some (if second = some 61 then 1 else 2))
    else if (fence first).isSome then (.code,none)
    else if isTable first then (.table,none)
    else if isList first then (.list,none)
    else if startsWith [36,36] (strip block) then (.formula,none)
    else if startsWith [33,91] (strip block) && !(strip block).contains 10 then (.figure,none)
    else (.paragraph,none)

/-- markdown_kind; an empty block has no first line. -/
def kind (block : Bytes) : Except Exc (Kind × Option ℕ) :=
  match lines block with
  | [] => .error .indexError
  | first :: _ => .ok (kindOf block first)

/-- PARSER_MANIFEST. -/
def parserManifest : PyStr := lit "stele-parser.json"

/-- DEFAULT_MARKDOWN. -/
def defaultMarkdown : PyStr := lit "document.md"

/-- json.loads(bundle.read(PARSER_MANIFEST)).get("outputs") or {}. -/
def outputs (H : Hasher) (b : SealedBundle) : Except Exc PyVal := do
  let data ← b.read H parserManifest
  match loadsBytes data with
  | none => .error .valueError
  | some (.dict kvs) => return orElse (getItem kvs (lit "outputs")) (.dict [])
  | some _ => .error .attributeError

/-- The path that the parser's manifest names, if it names one. -/
def namedPath (H : Hasher) (b : SealedBundle) : Except Exc (Option PyStr) :=
  if (Dict.get b.manifest parserManifest).isNone then .ok none
  else match outputs H b with
    | .error e =>
      if e.isValueError = true ∨ e = .attributeError then normalizeError .malformedManifest else .error e
    | .ok (.dict kvs) =>
      match getItem kvs (lit "markdown") with
      | .none => .ok none
      | .str path =>
        if (Dict.get b.manifest path).isSome then .ok (some path)
        else normalizeError (.markdownNotInBundle path)
      | _ => normalizeError .markdownNotPath
    | .ok _ => .ok none

/-- markdown_path. -/
def path (H : Hasher) (b : SealedBundle) : Except Exc PyStr := do
  match ← namedPath H b with
  | some path => return path
  | none =>
    if (Dict.get b.manifest defaultMarkdown).isSome then return defaultMarkdown
    else normalizeError .noMarkdown

/-- block.decode("utf-8"). -/
def blockText (path : PyStr) (start stop : ℕ) (block : Bytes) : Except Exc PyStr :=
  match decode block with
  | none => normalizeError (.notUtf8 path start stop)
  | some text => .ok text

/-- Open sections: level and unit id, the innermost one first. -/
abbrev Headings := List (ℕ × PyStr)

/-- The loop of normalize_markdown, with the number of units before. -/
def unitsFrom (path digest : PyStr) (data : Bytes) : List (ℕ × ℕ) → ℕ → Headings → Except Exc (List UnitArgs)
  | [],_,_ => .ok []
  | (start,stop) :: blocks,n,headings => do
    let block := Blocks.slice data start stop
    let text ← blockText path start stop block
    let (kind,level) ← kind block
    let unitId ← unitId (n+1)
    let headings := match level with
      | some l => headings.dropWhile fun h => decide (l ≤ h.1)
      | none => headings
    let parent := headings.head?.map Prod.snd
    let anchor ← anchorOf path digest (.range start stop)
    let opened := match level with
      | some l => (l,unitId) :: headings
      | none => headings
    let units ← unitsFrom path digest data blocks (n+1) opened
    return ⟨kind,text,level,parent,anchor,[]⟩ :: units

end Markdown

/-- normalize_markdown. -/
def normalizeMarkdown (H : Hasher) (b : SealedBundle) : Except Exc Extraction := do
  let path ← Markdown.path H b
  let data ← b.read H path
  let digest ← b.digestOf path
  let units ← Markdown.unitsFrom path digest data (Markdown.blocks data) 0 []
  extractionOf b .markdown units

end Stele
