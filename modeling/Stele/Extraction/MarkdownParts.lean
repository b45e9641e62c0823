import Stele.Extraction.Markdown
import Stele.Lib.Layout

/-! The parts of a Markdown document: its lines in order, with what opens and closes each block.
markdown_blocks finds the ranges of these parts, so it loses no line and doubles none. -/
namespace Stele
open Python

namespace Markdown

section Lines

variable {s t l : Bytes} {ls pre init post : List Bytes}

/-- No line ending. -/
def Free (s : Bytes) : Prop := ∀ b ∈ s, b ≠ 10 ∧ b ≠ 13

/-- A line with its ending, before s: a carriage return and a line feed are one ending. -/
inductive Ended : Bytes → Bytes → Prop
  | lf {body : Bytes} (s : Bytes) (h : Free body) : Ended (body++[10]) s
  | crlf {body : Bytes} (s : Bytes) (h : Free body) : Ended (body++[13,10]) s
  | cr {body : Bytes} (s : Bytes) (h : Free body) (hs : s.head? ≠ some 10) : Ended (body++[13]) s

/-- A document and its lines, all of them with an ending but perhaps the last one. -/
inductive Lined : Bytes → List Bytes → Prop
  | nil : Lined [] []
  | last {body : Bytes} (h : Free body) (hne : body ≠ []) : Lined body [body]
  | line {l s : Bytes} {ls : List Bytes} (hl : Ended l s) (h : Lined s ls) : Lined (l++s) (l :: ls)

lemma free_snoc {b : UInt8} (h : Free s) (h1 : b ≠ 10) (h2 : b ≠ 13) : Free (s++[b]) :=
  List.forall_mem_append.mpr ⟨h,List.forall_mem_singleton.mpr ⟨h1,h2⟩⟩

lemma linesFrom_lined (s line : Bytes) (h : Free line) : Lined (line++s) (linesFrom s line) := by
  have hnil : Free [] := List.forall_mem_nil _
  fun_induction linesFrom s line with
  | case1 => exact .nil
  | case2 line hne =>
    rw [List.append_nil]
    exact .last h hne
  | case3 s line ih =>
    have := Lined.line (.lf s h) (ih hnil)
    simpa using this
  | case4 line r hne ih =>
    have := Lined.line (.crlf r h) (ih hnil)
    simpa using this
  | case5 line c r hc hne ih =>
    have := Lined.line (.cr (c :: r) h (by simpa using hc)) (ih hnil)
    simpa using this
  | case6 line =>
    have := Lined.line (.cr [] h (by simp)) Lined.nil
    simpa using this
  | case7 line b s h1 h2 ih =>
    have := ih (free_snoc h h1 h2)
    simpa using this

/-- Every document is made of its lines. -/
lemma linesKept_lined (data : Bytes) : Lined data (linesKept data) :=
  linesFrom_lined data [] (List.forall_mem_nil _)

lemma linesFrom_free (h : Free s) (line : Bytes) : linesFrom (s++t) line = linesFrom t (line++s) := by
  induction s generalizing line with
  | nil => rw [List.nil_append,List.append_nil]
  | cons b s ih =>
    obtain ⟨⟨h1,h2⟩,hs⟩ := List.forall_mem_cons.mp h
    rw [List.cons_append,linesFrom.eq_def]
    simp [h1,h2,ih hs]

lemma linesKept_ended (h : Ended l s) : linesKept (l++s) = l :: linesKept s := by
  unfold linesKept
  cases h with
  | lf _ h =>
    rw [List.append_assoc,linesFrom_free h,List.singleton_append,linesFrom.eq_def]
    simp
  | crlf _ h =>
    rw [List.append_assoc,linesFrom_free h]
    simp [linesFrom]
  | cr _ h hs =>
    rw [List.append_assoc,linesFrom_free h]
    cases s with
    | nil => simp [linesFrom]
    | cons c r =>
      have hc : c ≠ 10 := by simpa using hs
      simp [linesFrom,hc]

lemma linesKept_free (h : Free s) : linesKept s = if s = [] then [] else [s] := by
  have := linesFrom_free (t := []) h []
  rw [List.append_nil] at this
  rw [linesKept,this,linesFrom,List.nil_append]

lemma Ended.begins (h : Ended l s) (ht : t <+: s) : Ended l t := by
  cases h with
  | lf _ h => exact .lf t h
  | crlf _ h => exact .crlf t h
  | cr _ h hs =>
    refine .cr t h fun he => hs ?_
    obtain ⟨r,rfl⟩ := ht
    cases t with
    | nil => cases he
    | cons c t => exact he

lemma withoutEnd_free (h : Free s) : withoutEnd s = s := by
  cases hs : s.getLast? with
  | none => rw [List.getLast?_eq_none_iff.mp hs]; rfl
  | some b =>
    obtain ⟨i,rfl⟩ := List.getLast?_eq_some_iff.mp hs
    have hb := h b (by simp)
    rw [withoutEnd,List.rdropWhile_concat_neg]
    simp [hb.1,hb.2]

lemma withoutEnd_begins (l : Bytes) : withoutEnd l <+: l := List.rdropWhile_prefix _ _

lemma withoutEnd_length (l : Bytes) : (withoutEnd l).length ≤ l.length := (withoutEnd_begins l).length_le

/-- Without its ending a line has none. -/
lemma withoutEnd_ended (h : Ended l s) : Free (withoutEnd l) := by
  have hend : ∀ b : UInt8, b = 10 ∨ b = 13 → ∀ x : Bytes, withoutEnd (x++[b]) = withoutEnd x := by
    intro b hb x
    rw [withoutEnd,List.rdropWhile_concat_pos]
    · rfl
    · simpa using hb.symm
  cases h with
  | lf _ h => rw [hend 10 (by simp),withoutEnd_free h]; exact h
  | @crlf body _ h =>
    have : body++[13,10] = (body++[13])++[10] := by simp
    rw [this,hend 10 (by simp),hend 13 (by simp),withoutEnd_free h]
    exact h
  | cr _ h => rw [hend 13 (by simp),withoutEnd_free h]; exact h

lemma Lined.flatten (h : Lined s ls) : ls.flatten = s := by
  induction h with
  | nil => rfl
  | last => simp
  | line _ _ ih => rw [List.flatten_cons,ih]

/-- What follows the first line. -/
lemma Lined.tail (h : Lined s (l :: ls)) : ∃ t, s = l++t ∧ Lined t ls ∧ (t ≠ [] → Ended l t) := by
  cases h with
  | last => exact ⟨[],(List.append_nil _).symm,.nil,fun h => absurd rfl h⟩
  | line hl h => exact ⟨_,rfl,h,fun _ => hl⟩

/-- The lines from one of them on. -/
lemma Lined.drop (h : Lined s (pre++ls)) : ∃ t, s = pre.flatten++t ∧ Lined t ls := by
  induction pre generalizing s with
  | nil => exact ⟨s,rfl,h⟩
  | cons l pre ih =>
    obtain ⟨t,rfl,ht,-⟩ := h.tail
    obtain ⟨r,rfl,hr⟩ := ih ht
    exact ⟨r,by simp,hr⟩

lemma Lined.free (h : Lined s (l :: ls)) : Free (withoutEnd l) := by
  cases h with
  | last h => rw [withoutEnd_free h]; exact h
  | line hl => exact withoutEnd_ended hl

lemma Lined.ne_nil (h : Lined s ls) (hl : l ∈ ls) : l ≠ [] := by
  induction h with
  | nil => cases hl
  | last h hne => exact List.mem_singleton.mp hl ▸ hne
  | line he h ih =>
    rcases List.mem_cons.mp hl with rfl | hl
    · cases he <;> simp
    · exact ih hl

/-- The lines of a block are those of the document; of the last one the ending is left out. -/
lemma Lined.block (h : Lined s (init++l :: post)) :
    linesKept (init.flatten++withoutEnd l) = init++if withoutEnd l = [] then [] else [withoutEnd l] := by
  induction init generalizing s with
  | nil => exact linesKept_free h.free
  | cons a init ih =>
    obtain ⟨t,rfl,ht,ha⟩ := h.tail
    obtain ⟨u,rfl,hu⟩ := ht.drop
    have hne : u ≠ [] := by
      obtain ⟨v,rfl,-⟩ := hu.tail
      exact List.append_ne_nil_of_left_ne_nil (hu.ne_nil List.mem_cons_self) _
    have hpre : init.flatten++withoutEnd l <+: init.flatten++u := by
      obtain ⟨v,rfl,-⟩ := hu.tail
      exact (List.prefix_append_right_inj _).mpr ((withoutEnd_begins l).trans (List.prefix_append _ _))
    have hend := (ha (List.append_ne_nil_of_right_ne_nil _ hne)).begins hpre
    rw [List.flatten_cons,List.append_assoc,linesKept_ended hend,ih ht]
    rfl

end Lines

/-- What opens a block, or closes it. -/
inductive Opener
  | fence
  | atx (level : ℕ)
  | setext (mark : UInt8)
  | text
  deriving DecidableEq

/-- A blank line, or the lines of a block. -/
inductive Part
  | blank (line : Bytes)
  | block (opener : Opener) (first : Bytes) (rest : List Bytes)

namespace Part

def lines : Part → List Bytes
  | blank line => [line]
  | block _ first rest => first :: rest

def size (p : Part) : ℕ := Layout.total List.length p.lines

end Part

/-- The open block: its fence if it has one, and its lines. -/
structure Open where
  fence : Option Bytes
  first : Bytes
  rest : List Bytes

namespace Open

def part (o : Open) : Part := .block (if o.fence.isSome then .fence else .text) o.first o.rest

def add (o : Open) (line : Bytes) : Open := { o with rest := o.rest++[line] }

end Open

def flush (o : Option Open) : List Part := (o.map Open.part).toList

/-- What a line that is no fence, no heading and not blank closes, and what is open after it. -/
def textStep (o : Option Open) (line : Bytes) : List Part × Option Open :=
  match o with
  | none => ([],some ⟨none,line,[]⟩)
  | some o =>
    match setext (withoutEnd line) with
    | some mark =>
      if o.rest = [] ∧ isList (withoutEnd o.first) = false then ([.block (.setext mark) o.first [line]],none)
      else ([],some (o.add line))
    | none => ([],some (o.add line))

/-- The same of a line outside of the fences. -/
def lineStep (o : Option Open) (line : Bytes) : List Part × Option Open :=
  if strip (withoutEnd line) = [] then (flush o++[.blank line],none)
  else match fence (withoutEnd line) with
    | some (mark,_) => (flush o,some ⟨some mark,line,[]⟩)
    | none => match atx (withoutEnd line) with
      | some level => (flush o++[.block (.atx level) line []],none)
      | none => textStep o line

/-- The parts that a line closes, and the block that is open after it. -/
def partStep : Option Open → Bytes → List Part × Option Open
  | some ⟨some mark,first,rest⟩,line =>
    if Blocks.closes mark (withoutEnd line) then ([.block .fence first (rest++[line])],none)
    else ([],some ⟨some mark,first,rest++[line]⟩)
  | o,line => lineStep o line

def partsFrom : Option Open → List Bytes → List Part
  | o,[] => flush o
  | o,line :: ls => (partStep o line).1++partsFrom (partStep o line).2 ls

/-- The parts of a document, in order. -/
def parts (data : Bytes) : List Part := partsFrom none (linesKept data)

/-- The length of a block's lines without the last line ending. -/
def bodySize : List Bytes → ℕ
  | [] => 0
  | [l] => (withoutEnd l).length
  | l :: ls => l.length+bodySize ls

/-- The range of a block that begins at n. -/
def Part.range : ℕ × Part → Option (ℕ × ℕ)
  | (_,.blank _) => none
  | (n,.block _ first rest) => some (n,n+bodySize (first :: rest))

def ranges (n : ℕ) (ps : List Part) : List (ℕ × ℕ) := (Layout.places Part.size n ps).filterMap Part.range

section Parts

variable {data : Bytes} {o : Option Open} {line : Bytes} {ls pre init post : List Bytes} {ps qs : List Part}
  {n : ℕ} {s : Blocks}

def openLines (o : Option Open) : List Bytes := (flush o).flatMap Part.lines

@[simp] lemma openLines_none : openLines none = [] := rfl

@[simp] lemma openLines_some (o : Open) : openLines (some o) = o.first :: o.rest := by
  simp [openLines,flush,Open.part,Part.lines]

@[simp] lemma flatMap_flush (o : Option Open) : (flush o).flatMap Part.lines = openLines o := rfl

lemma bodySize_concat (init : List Bytes) (l : Bytes) :
    bodySize (init++[l]) = Layout.total List.length init+(withoutEnd l).length := by
  induction init with
  | nil => simp [bodySize]
  | cons a init ih =>
    have : bodySize (a :: (init++[l])) = a.length+bodySize (init++[l]) := by
      cases init <;> rfl
    rw [List.cons_append,this,ih,Layout.total_cons,Nat.add_assoc]

lemma textStep_lines (o : Option Open) (line : Bytes) :
    (textStep o line).1.flatMap Part.lines++openLines (textStep o line).2 = openLines o++[line] := by
  cases o with
  | none => simp [textStep]
  | some o =>
    unfold textStep
    cases setext (withoutEnd line) with
    | none => simp [Open.add]
    | some mark =>
      dsimp only
      split_ifs with h
      · simp [Part.lines,h.1]
      · simp [Open.add]

lemma lineStep_lines (o : Option Open) (line : Bytes) :
    (lineStep o line).1.flatMap Part.lines++openLines (lineStep o line).2 = openLines o++[line] := by
  unfold lineStep
  split_ifs
  · simp [Part.lines]
  cases fence (withoutEnd line) with
  | some m => simp
  | none =>
    cases atx (withoutEnd line) with
    | some level => simp [Part.lines]
    | none => exact textStep_lines o line

/-- A line is neither lost nor doubled. -/
lemma partStep_lines (o : Option Open) (line : Bytes) :
    (partStep o line).1.flatMap Part.lines++openLines (partStep o line).2 = openLines o++[line] := by
  unfold partStep
  split
  · split_ifs <;> simp [Part.lines]
  · exact lineStep_lines _ _

lemma partsFrom_lines (o : Option Open) (ls : List Bytes) :
    (partsFrom o ls).flatMap Part.lines = openLines o++ls := by
  induction ls generalizing o with
  | nil => simp [partsFrom]
  | cons line ls ih => rw [partsFrom,List.flatMap_append,ih,← List.append_assoc,partStep_lines,
      List.append_assoc,List.singleton_append]

/-- The parts have the lines of the document. -/
theorem parts_lines (data : Bytes) : (parts data).flatMap Part.lines = linesKept data :=
  partsFrom_lines none (linesKept data)

lemma ranges_append : ranges n (ps++qs) = ranges n ps++ranges (n+Layout.total Part.size ps) qs := by
  rw [ranges,Layout.places_append,List.filterMap_append]
  rfl

/-- The bytes of a block. -/
lemma slice_block (hd : linesKept data = pre++(init++line :: post)) (hn : n = Layout.total List.length pre) :
    Blocks.slice data n (n+bodySize (init++[line])) = init.flatten++withoutEnd line := by
  have hdata : data = pre.flatten++((init.flatten++withoutEnd line)++(line.drop (withoutEnd line).length++post.flatten)) := by
    have hline : withoutEnd line++line.drop (withoutEnd line).length = line :=
      List.prefix_iff_eq_append.mp (withoutEnd_begins line)
    rw [List.append_assoc,← List.append_assoc (withoutEnd line),hline,← (linesKept_lined data).flatten,hd]
    simp
  rw [Layout.total_length] at hn
  rw [bodySize_concat,Layout.total_length,← List.length_append,Blocks.slice,List.drop_take,
    Nat.add_sub_cancel_left,hdata,hn,List.drop_left,List.take_left]

/-- The lines of a block: of the last one the ending is left out. -/
lemma slice_lines (hd : linesKept data = pre++(init++line :: post)) (hn : n = Layout.total List.length pre) :
    linesKept (Blocks.slice data n (n+bodySize (init++[line]))) =
      init++if withoutEnd line = [] then [] else [withoutEnd line] := by
  obtain ⟨t,-,ht⟩ := (hd ▸ linesKept_lined data).drop
  rw [slice_block hd hn,ht.block]

/-- The state of the loop when the block `o` is open from `n` on. -/
inductive Tracks (n : ℕ) (b : List (ℕ × ℕ)) : Blocks → Option Open → Prop
  | closed (stop : ℕ) : Tracks n b ⟨b,none,stop,0,none,n⟩ none
  | text (first : Bytes) (rest : List Bytes) : Tracks n b
      ⟨b,some n,n+bodySize (first :: rest),rest.length+1,none,n+Layout.total List.length (first :: rest)⟩
      (some ⟨none,first,rest⟩)
  | fenced (mark first : Bytes) (rest : List Bytes) (k : ℕ) : Tracks n b
      ⟨b,some n,n+bodySize (first :: rest),k,some mark,n+Layout.total List.length (first :: rest)⟩
      (some ⟨some mark,first,rest⟩)

variable {b : List (ℕ × ℕ)}

lemma Tracks.close (h : Tracks n b s o) : s.close =
    ⟨b++ranges n (flush o),none,s.stop,0,s.fence,n+Layout.total Part.size (flush o)⟩ := by
  cases h with
  | closed => simp [Blocks.close,ranges,flush,Layout.places]
  | text first rest => simp [Blocks.close,ranges,flush,Layout.places,Open.part,Part.range,Part.size,Part.lines]
  | fenced mark first rest => simp [Blocks.close,ranges,flush,Layout.places,Open.part,Part.range,Part.size,Part.lines]

lemma bodySize_add (init : List Bytes) (first line : Bytes) :
    bodySize (first :: (init++[line])) = Layout.total List.length (first :: init)+(withoutEnd line).length :=
  bodySize_concat (first :: init) line

lemma total_add (init : List Bytes) (first line : Bytes) :
    Layout.total List.length (first :: (init++[line])) = Layout.total List.length (first :: init)+line.length := by
  simp [Nat.add_assoc]

lemma plain_tracks (h : Tracks n b s o) (hf : s.fence = none)
    (hd : linesKept data = pre++(openLines o++line :: post)) (hn : n = Layout.total List.length pre) :
    Tracks (n+Layout.total Part.size (textStep o line).1) (b++ranges n (textStep o line).1)
      { Blocks.plain data s (withoutEnd line) (s.pos+(withoutEnd line).length) with pos := s.pos+line.length }
      (textStep o line).2 := by
  cases h with
  | closed stop =>
    have : Tracks n b _ _ := .text line []
    simpa [Blocks.plain,textStep,bodySize,ranges,Layout.places] using this
  | fenced => cases hf
  | text first rest =>
    have hadd : Tracks n b
        ⟨b,some n,n+(Layout.total List.length (first :: rest)+(withoutEnd line).length),rest.length+1+1,none,
          n+(Layout.total List.length (first :: rest)+line.length)⟩
        (some ⟨none,first,rest++[line]⟩) := by
      have := Tracks.text (n := n) (b := b) first (rest++[line])
      rwa [bodySize_add,total_add,List.length_append] at this
    -- the text that the loop reads back begins with the first line of the block
    have hfirst : rest = [] → (lines (Blocks.slice data n
        (n+Layout.total List.length (first :: rest)+(withoutEnd line).length))).headD [] = withoutEnd first := by
      rintro rfl
      have hd' : linesKept data = pre++([first]++line :: post) := by simpa using hd
      have := slice_lines hd' hn
      rw [bodySize_concat,← Nat.add_assoc] at this
      rw [lines,this]
      rfl
    unfold Blocks.plain textStep
    simp only [Option.getD_some]
    cases hm : setext (withoutEnd line) with
    | none => simpa [ranges,Layout.places,Open.add,Nat.add_assoc] using hadd
    | some mark =>
      dsimp only
      by_cases hrest : rest = [] ∧ isList (withoutEnd first) = false
      · rw [if_pos hrest,if_pos ⟨by simp [hrest.1],rfl,by rw [hfirst hrest.1]; exact hrest.2⟩]
        obtain ⟨rfl,-⟩ := hrest
        have : Tracks (n+(first.length+line.length)) (b++[(n,n+(first.length+(withoutEnd line).length))])
          _ _ := .closed (n+(first.length+(withoutEnd line).length))
        simpa [Blocks.close,ranges,Layout.places,Part.range,Part.size,Part.lines,bodySize,Nat.add_assoc] using this
      · have hne : ¬(rest.length+1+1 = 2 ∧ True ∧ isList ((lines (Blocks.slice data n
            (n+Layout.total List.length (first :: rest)+(withoutEnd line).length))).headD []) = false) := by
          rintro ⟨hl,-,hli⟩
          have : rest = [] := List.length_eq_zero_iff.mp (by omega)
          rw [hfirst this] at hli
          exact hrest ⟨this,hli⟩
        rw [if_neg hrest,if_neg (by simpa using hne)]
        simpa [ranges,Layout.places,Open.add,Nat.add_assoc] using hadd

lemma lineStep_tracks (h : Tracks n b s o) (hf : s.fence = none)
    (hd : linesKept data = pre++(openLines o++line :: post)) (hn : n = Layout.total List.length pre) :
    Tracks (n+Layout.total Part.size (lineStep o line).1) (b++ranges n (lineStep o line).1)
      (Blocks.step data s line) (lineStep o line).2 := by
  have hpos : s.pos = n+Layout.total Part.size (flush o) := congrArg Blocks.pos h.close
  unfold Blocks.step lineStep
  rw [hf]
  dsimp only
  by_cases hblank : strip (withoutEnd line) = []
  · rw [if_pos hblank,if_pos hblank,h.close,hf,hpos]
    have := Tracks.closed (n := n+Layout.total Part.size (flush o)+line.length) (b := b++ranges n (flush o)) s.stop
    simpa [ranges,Layout.places_append,Layout.places,List.filterMap_cons,Part.range,Part.size,Part.lines,
      Nat.add_assoc] using this
  rw [if_neg hblank,if_neg hblank]
  cases fence (withoutEnd line) with
  | some m =>
    rw [h.close,hpos]
    have := Tracks.fenced (n := n+Layout.total Part.size (flush o)) (b := b++ranges n (flush o)) m.1 line [] 0
    simpa [bodySize] using this
  | none =>
    cases atx (withoutEnd line) with
    | none => exact plain_tracks h hf hd hn
    | some level =>
      rw [h.close,hpos,hf]
      have := Tracks.closed (n := n+Layout.total Part.size (flush o)+line.length)
        (b := b++ranges n (flush o)++[(n+Layout.total Part.size (flush o),
          n+Layout.total Part.size (flush o)+(withoutEnd line).length)])
        (n+Layout.total Part.size (flush o)+(withoutEnd line).length)
      simpa [Blocks.close,ranges,Layout.places_append,Layout.places,Part.range,Part.size,Part.lines,bodySize,
        Nat.add_assoc] using this

lemma step_tracks (h : Tracks n b s o)
    (hd : linesKept data = pre++(openLines o++line :: post)) (hn : n = Layout.total List.length pre) :
    Tracks (n+Layout.total Part.size (partStep o line).1) (b++ranges n (partStep o line).1)
      (Blocks.step data s line) (partStep o line).2 := by
  cases h with
  | closed stop => exact lineStep_tracks (.closed stop) rfl hd hn
  | text first rest => exact lineStep_tracks (.text first rest) rfl hd hn
  | fenced mark first rest k =>
    have hadd := Tracks.fenced (n := n) (b := b) mark first (rest++[line]) k
    rw [bodySize_add,total_add,← Nat.add_assoc,← Nat.add_assoc] at hadd
    unfold Blocks.step partStep
    dsimp only
    split_ifs
    · simpa [Blocks.close,ranges,Layout.places,Part.range,Part.size,Part.lines,bodySize_add,flush,Open.part,
        Nat.add_assoc] using
        Tracks.closed (n := n+(first.length+(Layout.total List.length rest+line.length)))
          (b := b++[(n,n+(first.length+(Layout.total List.length rest+(withoutEnd line).length)))])
          (n+(first.length+(Layout.total List.length rest+(withoutEnd line).length)))
    · simpa [ranges,Layout.places] using hadd

lemma foldl_tracks (h : Tracks n b s o) (hd : linesKept data = pre++(openLines o++ls))
    (hn : n = Layout.total List.length pre) :
    (ls.foldl (Blocks.step data) s).close.blocks = b++ranges n (partsFrom o ls) := by
  induction ls generalizing n b s o pre with
  | nil => exact congrArg Blocks.blocks h.close
  | cons line ls ih =>
    have hstep := step_tracks h hd hn
    rw [List.foldl_cons,partsFrom,ranges_append,← List.append_assoc]
    have hd' : linesKept data = (pre++(partStep o line).1.flatMap Part.lines)++
        (openLines (partStep o line).2++ls) := by
      rw [List.append_assoc,← List.append_assoc _ (openLines _),partStep_lines,hd,List.append_assoc]
      rfl
    refine ih hstep hd' ?_
    rw [hn,Layout.total_append,Layout.total_flatMap]
    rfl

/-- markdown_blocks finds the blocks of the parts. -/
theorem blocks_eq_ranges (data : Bytes) : blocks data = ranges 0 (parts data) := by
  have h : Tracks 0 [] .init none := .closed 0
  have hd : linesKept data = []++(openLines none++linesKept data) := rfl
  have := foldl_tracks h hd rfl
  rwa [List.nil_append] at this

end Parts


/-- A line with some content. -/
def Inked (line : Bytes) : Prop := strip (withoutEnd line) ≠ []

/-- A line that is no fence, no heading and not blank. -/
structure PlainLine (line : Bytes) : Prop where
  inked : Inked line
  fence : fence (withoutEnd line) = none
  atx : atx (withoutEnd line) = none

/-- What the lines of a part are by what opens and closes it. -/
def Part.Formed : Part → Prop
  | .blank line => ¬Inked line
  | .block .fence first _ => Inked first ∧ (fence (withoutEnd first)).isSome
  | .block (.atx level) first rest => Inked first ∧ atx (withoutEnd first) = some level ∧ rest = []
  | .block (.setext mark) first rest => PlainLine first ∧ isList (withoutEnd first) = false ∧
      ∃ line, rest = [line] ∧ Inked line ∧ setext (withoutEnd line) = some mark
  | .block .text first rest => (∀ l ∈ first :: rest, PlainLine l) ∧
      ∀ line, rest = [line] → isList (withoutEnd first) = false → setext (withoutEnd line) = none

section Formed

variable {data line : Bytes} {o : Option Open} {p : Part}

def AllFormed (ps : List Part) : Prop := ∀ p ∈ ps, p.Formed

lemma AllFormed.append {ps qs : List Part} : AllFormed (ps++qs) ↔ AllFormed ps ∧ AllFormed qs :=
  List.forall_mem_append

lemma AllFormed.singleton : AllFormed [p] ↔ p.Formed := List.forall_mem_singleton

lemma AllFormed.nil : AllFormed [] := List.forall_mem_nil _

lemma textStep_formed (h : AllFormed (flush o)) (hf : ∀ b ∈ o, b.fence = none) (hl : PlainLine line) :
    AllFormed ((textStep o line).1++flush (textStep o line).2) := by
  cases o with
  | none => exact AllFormed.singleton.mpr ⟨List.forall_mem_singleton.mpr hl,nofun⟩
  | some b =>
    obtain ⟨f,first,rest⟩ := b
    obtain rfl : f = none := hf _ rfl
    obtain ⟨hlines,-⟩ := AllFormed.singleton.mp h
    have hadd : ∀ l ∈ first :: (rest++[line]), PlainLine l :=
      List.forall_mem_append.mpr ⟨hlines,List.forall_mem_singleton.mpr hl⟩
    unfold textStep
    cases hm : setext (withoutEnd line) with
    | none =>
      refine AllFormed.singleton.mpr ⟨hadd,fun u hu _ => ?_⟩
      obtain ⟨-,hul⟩ := List.append_eq_singleton_iff.mp hu |>.resolve_right (by simp)
      exact List.singleton_inj.mp hul ▸ hm
    | some mark =>
      dsimp only
      split_ifs with hrest
      · obtain ⟨rfl,hli⟩ := hrest
        exact AllFormed.singleton.mpr ⟨hlines first List.mem_cons_self,hli,line,rfl,hl.inked,hm⟩
      · refine AllFormed.singleton.mpr ⟨hadd,fun u hu hli => absurd ⟨?_,hli⟩ hrest⟩
        exact (List.append_eq_singleton_iff.mp hu |>.resolve_right (by simp)).1

lemma lineStep_formed (h : AllFormed (flush o)) (hf : ∀ b ∈ o, b.fence = none) :
    AllFormed ((lineStep o line).1++flush (lineStep o line).2) := by
  unfold lineStep
  by_cases hblank : strip (withoutEnd line) = []
  · rw [if_pos hblank,List.append_assoc]
    exact AllFormed.append.mpr ⟨h,AllFormed.singleton.mpr (not_not_intro hblank)⟩
  rw [if_neg hblank]
  cases hfence : fence (withoutEnd line) with
  | some m => exact AllFormed.append.mpr ⟨h,AllFormed.singleton.mpr ⟨hblank,by rw [hfence]; rfl⟩⟩
  | none =>
    cases hatx : atx (withoutEnd line) with
    | some level =>
      dsimp only
      rw [List.append_assoc]
      exact AllFormed.append.mpr ⟨h,AllFormed.singleton.mpr ⟨hblank,hatx,rfl⟩⟩
    | none => exact textStep_formed h hf ⟨hblank,hfence,hatx⟩

lemma partStep_formed (h : AllFormed (flush o)) (line : Bytes) :
    AllFormed ((partStep o line).1++flush (partStep o line).2) := by
  rcases o with _ | ⟨f | mark,first,rest⟩
  · exact lineStep_formed h (by simp)
  · exact lineStep_formed h (by simp)
  · have hfirst := AllFormed.singleton.mp h
    unfold partStep
    dsimp only
    split_ifs <;> exact AllFormed.singleton.mpr hfirst

lemma partsFrom_formed (h : AllFormed (flush o)) (ls : List Bytes) : AllFormed (partsFrom o ls) := by
  induction ls generalizing o with
  | nil => exact h
  | cons line ls ih =>
    obtain ⟨hs,ho⟩ := AllFormed.append.mp (partStep_formed h line)
    exact AllFormed.append.mpr ⟨hs,ih ho⟩

/-- Every part is what its lines say. -/
theorem parts_formed (data : Bytes) : AllFormed (parts data) :=
  partsFrom_formed (o := none) AllFormed.nil (linesKept data)

end Formed

end Markdown

end Stele
