import Stele.Extraction.MarkdownParts

/-! The blocks of a Markdown document: they hold every line that is not blank, once, and the kind of
each is what opened or closed it, but for a fence that never closes over one underline. -/
namespace Stele
open Python

namespace Markdown

variable {data : Bytes} {n : ℕ} {ls : List Bytes} {p : ℕ × Bytes} {r : ℕ × ℕ}

/-- The lines of a document with their places. -/
def placed (data : Bytes) : List (ℕ × Bytes) := Layout.places List.length 0 (linesKept data)

/-- Ranges of whole lines that hold each line with some content once. -/
structure Partition (data : Bytes) (rs : List (ℕ × ℕ)) : Prop where
  lines : ∀ p ∈ placed data, Blocks.slice data p.1 (p.1+p.2.length) = p.2
  nonempty : ∀ r ∈ rs, r.1 < r.2
  disjoint : rs.Pairwise fun a b => a.2 ≤ b.1
  starts : ∀ r ∈ rs, ∃ l, (r.1,l) ∈ placed data ∧ Inked l
  stops : ∀ r ∈ rs, ∃ p ∈ placed data, r.2 = p.1+(withoutEnd p.2).length
  inked : ∀ p ∈ placed data, Inked p.2 → ∃! r, r ∈ rs ∧ r.1 ≤ p.1 ∧ p.1+(withoutEnd p.2).length ≤ r.2
  outside : ∀ i < data.length, (∀ r ∈ rs, ¬(r.1 ≤ i ∧ i < r.2)) → ∃ p ∈ placed data,
    p.1 ≤ i ∧ i < p.1+p.2.length ∧ (¬Inked p.2 ∨ p.1+(withoutEnd p.2).length ≤ i)

/-- The bytes of a line, at its place. -/
lemma placed_slice (h : p ∈ placed data) : Blocks.slice data p.1 (p.1+p.2.length) = p.2 := by
  obtain ⟨pre,post,hd,hp⟩ := Layout.mem_places.mp h
  have hdata : data = pre.flatten++(p.2++post.flatten) := by
    rw [← (linesKept_lined data).flatten,hd,List.flatten_append,List.flatten_cons]
  rw [Layout.total_length,Nat.zero_add] at hp
  rw [Blocks.slice,List.drop_take,Nat.add_sub_cancel_left,hp]
  conv_lhs => rw [hdata]
  rw [List.drop_left,List.take_left]

lemma placed_eq (data : Bytes) : placed data =
    (Layout.places Part.size 0 (parts data)).flatMap fun p => Layout.places List.length p.1 p.2.lines := by
  rw [placed,← parts_lines,Layout.places_flatMap]
  rfl

lemma mem_blocks (h : r ∈ blocks data) : ∃ o first rest,
    (r.1,Part.block o first rest) ∈ Layout.places Part.size 0 (parts data) ∧
      r.2 = r.1+bodySize (first :: rest) := by
  rw [blocks_eq_ranges] at h
  obtain ⟨⟨n,p⟩,hp,hr⟩ := List.mem_filterMap.mp h
  cases p with
  | blank => cases hr
  | block o first rest =>
    obtain rfl := Option.some.inj hr
    exact ⟨o,first,rest,hp,rfl⟩

lemma mem_blocks_of_place {o : Opener} {first : Bytes} {rest : List Bytes}
    (h : (n,Part.block o first rest) ∈ Layout.places Part.size 0 (parts data)) :
    (n,n+bodySize (first :: rest)) ∈ blocks data := by
  rw [blocks_eq_ranges]
  exact List.mem_filterMap.mpr ⟨_,h,rfl⟩

lemma Inked.body {l : Bytes} (h : Inked l) : 0 < (withoutEnd l).length := by
  refine List.length_pos_iff.mpr fun he => h ?_
  rw [he]
  rfl

/-- Every line of a block ends before the block does. -/
lemma body_le_bodySize (h : p ∈ Layout.places List.length n ls) :
    p.1+(withoutEnd p.2).length ≤ n+bodySize ls := by
  obtain ⟨pre,post,rfl,hp⟩ := Layout.mem_places.mp h
  rcases List.eq_nil_or_concat post with rfl | ⟨init,l,rfl⟩
  · rw [bodySize_concat,hp,Nat.add_assoc]
  · have hsize := bodySize_concat (pre++p.2 :: init) l
    have hbody := withoutEnd_length p.2
    rw [Layout.total_append,Layout.total_cons,List.append_assoc,List.cons_append] at hsize
    rw [List.concat_eq_append,hsize]
    omega

/-- A block ends where its last line does. -/
lemma exists_last (hne : ls ≠ []) : ∃ p ∈ Layout.places List.length n ls,
    n+bodySize ls = p.1+(withoutEnd p.2).length := by
  obtain ⟨init,l,rfl⟩ := (List.eq_nil_or_concat ls).resolve_left hne
  rw [List.concat_eq_append]
  refine ⟨(n+Layout.total List.length init,l),Layout.mem_places.mpr ⟨init,[],rfl,rfl⟩,?_⟩
  rw [bodySize_concat,Nat.add_assoc]

lemma bodySize_le (ls : List Bytes) : bodySize ls ≤ Layout.total List.length ls := by
  rcases List.eq_nil_or_concat ls with rfl | ⟨init,l,rfl⟩
  · exact Nat.zero_le _
  · rw [List.concat_eq_append,bodySize_concat,Layout.total_append]
    have := withoutEnd_length l
    simp only [Layout.total_cons,Layout.total_nil]
    omega

lemma first_inked {o : Opener} {first : Bytes} {rest : List Bytes} (h : (Part.block o first rest).Formed) :
    Inked first := by
  cases o with
  | fence => exact h.1
  | atx level => exact h.1
  | setext mark => exact h.1.inked
  | text => exact (h.1 first List.mem_cons_self).inked

/-- The first line of a block, where the block begins. -/
lemma exists_first (h : r ∈ blocks data) : ∃ l, (r.1,l) ∈ placed data ∧ Inked l := by
  obtain ⟨o,first,rest,hp,-⟩ := mem_blocks h
  refine ⟨first,?_,first_inked (parts_formed data _ (Layout.mem_of_mem_places hp))⟩
  rw [placed_eq]
  exact List.mem_flatMap.mpr ⟨_,hp,List.mem_cons_self⟩

lemma blocks_nonempty (h : r ∈ blocks data) : r.1 < r.2 := by
  obtain ⟨o,first,rest,hp,hr⟩ := mem_blocks h
  have hfirst : 0 < (withoutEnd first).length :=
    (first_inked (parts_formed data _ (Layout.mem_of_mem_places hp))).body
  have : r.1+(withoutEnd first).length ≤ r.1+bodySize (first :: rest) :=
    body_le_bodySize (p := (r.1,first)) List.mem_cons_self
  omega

lemma blocks_disjoint (data : Bytes) : (blocks data).Pairwise fun a b => a.2 ≤ b.1 := by
  rw [blocks_eq_ranges]
  refine Layout.places_pairwise.filterMap _ ?_
  rintro ⟨m,p⟩ ⟨n,q⟩ hmn a ha b hb
  cases p with
  | blank => cases ha
  | block o first rest =>
    cases q with
    | blank => cases hb
    | block =>
      obtain rfl := Option.some.inj ha
      obtain rfl := Option.some.inj hb
      have hsize := bodySize_le (first :: rest)
      exact (Nat.add_le_add_left hsize m).trans hmn

/-- Of two blocks one ends before the other begins. -/
lemma blocks_eq_of_overlap {q : ℕ × ℕ} {i : ℕ} (hr : r ∈ blocks data) (hq : q ∈ blocks data)
    (hri : r.1 ≤ i ∧ i < r.2) (hqi : q.1 ≤ i ∧ i < q.2) : r = q := by
  by_contra hne
  have hsymm : Std.Symm fun a b : ℕ × ℕ => a.2 ≤ b.1 ∨ b.2 ≤ a.1 := ⟨fun _ _ h => h.symm⟩
  have hapart : (blocks data).Pairwise fun a b => a.2 ≤ b.1 ∨ b.2 ≤ a.1 := (blocks_disjoint data).imp Or.inl
  have := hapart.forall hr hq hne
  omega

lemma inked_covered (h : p ∈ placed data) (hi : Inked p.2) :
    ∃ r ∈ blocks data, r.1 ≤ p.1 ∧ p.1+(withoutEnd p.2).length ≤ r.2 := by
  rw [placed_eq] at h
  obtain ⟨⟨n,q⟩,hq,hp⟩ := List.mem_flatMap.mp h
  cases q with
  | blank l =>
    obtain rfl := List.mem_singleton.mp hp
    exact absurd hi (parts_formed data _ (Layout.mem_of_mem_places hq))
  | block o first rest =>
    exact ⟨_,mem_blocks_of_place hq,(Layout.places_bounds hp).1,body_le_bodySize hp⟩

theorem blocks_partition (data : Bytes) : Partition data (blocks data) where
  lines _ hp := placed_slice hp
  nonempty _ hr := blocks_nonempty hr
  disjoint := blocks_disjoint data
  starts _ hr := exists_first hr
  stops r hr := by
    obtain ⟨o,first,rest,hp,hr⟩ := mem_blocks hr
    obtain ⟨p,hl,he⟩ := exists_last (n := r.1) (List.cons_ne_nil first rest)
    refine ⟨p,?_,hr.trans he⟩
    rw [placed_eq]
    exact List.mem_flatMap.mpr ⟨_,hp,hl⟩
  inked p hp hi := by
    obtain ⟨r,hr,hrp⟩ := inked_covered hp hi
    refine ⟨r,⟨hr,hrp⟩,fun q ⟨hq,hqp⟩ => ?_⟩
    have := hi.body
    exact blocks_eq_of_overlap (i := p.1) hq hr ⟨hqp.1,by omega⟩ ⟨hrp.1,by omega⟩
  outside i hi hout := by
    have htotal : i < 0+Layout.total List.length (linesKept data) := by
      rwa [Nat.zero_add,Layout.total_length,(linesKept_lined data).flatten]
    obtain ⟨p,hp,hpi,hip⟩ := Layout.exists_place (Nat.zero_le i) htotal
    refine ⟨p,hp,hpi,hip,?_⟩
    by_contra hn
    obtain ⟨hinked,hend⟩ := not_or.mp hn
    obtain ⟨r,hr,hrp⟩ := inked_covered hp (not_not.mp hinked)
    exact hout r hr ⟨hrp.1.trans hpi,(not_le.mp hend).trans_le hrp.2⟩

/-- A block with what opened or closed it. -/
def Part.opened : ℕ × Part → Option ((ℕ × ℕ) × Opener)
  | (_,.blank _) => none
  | (n,.block o first rest) => some ((n,n+bodySize (first :: rest)),o)

/-- The blocks of a document with what opened or closed them. -/
def opened (data : Bytes) : List ((ℕ × ℕ) × Opener) :=
  (Layout.places Part.size 0 (parts data)).filterMap Part.opened

/-- The kind of a block is the one of its opener. -/
def Opener.Agrees : Opener → Except Exc (Kind × Option ℕ) → Prop
  | .fence,k => k = .ok (.code,none)
  | .atx level,k => k = .ok (.heading,some level)
  | .setext mark,k => k = .ok (.heading,some (if mark = 61 then 1 else 2))
  | .text,k => ∃ kind level, k = .ok (kind,level) ∧ kind ≠ .heading

/-- A block of two lines, of which the second is a setext underline. -/
def Underlined (block : Bytes) : Prop :=
  ∃ first line mark, lines block = [first,line] ∧ setext line = some mark

lemma opened_blocks (data : Bytes) : (opened data).map Prod.fst = blocks data := by
  rw [blocks_eq_ranges,ranges,opened,List.map_filterMap]
  congr 1
  funext p
  obtain ⟨n,p | _⟩ := p <;> rfl

section Kinds

variable {o : Opener} {first line block : Bytes} {rest : List Bytes} {level : ℕ} {mark : UInt8}

lemma withoutEnd_withoutEnd (l : Bytes) : withoutEnd (withoutEnd l) = withoutEnd l :=
  List.rdropWhile_idempotent _ _

/-- The lines of a block: an empty last line is none. -/
lemma block_lines (hp : (n,Part.block o first rest) ∈ Layout.places Part.size 0 (parts data)) :
    ∃ init l, first :: rest = init++[l] ∧
      lines (Blocks.slice data n (n+bodySize (first :: rest))) =
        init.map withoutEnd++if withoutEnd l = [] then [] else [withoutEnd l] := by
  obtain ⟨pre,post,hparts,hn⟩ := Layout.mem_places.mp hp
  obtain ⟨init,l,he⟩ := (List.eq_nil_or_concat (first :: rest)).resolve_left (List.cons_ne_nil _ _)
  rw [List.concat_eq_append] at he
  refine ⟨init,l,he,?_⟩
  have hd : linesKept data = pre.flatMap Part.lines++(init++l :: post.flatMap Part.lines) := by
    rw [← parts_lines,hparts,List.flatMap_append,List.flatMap_cons,Part.lines,he,List.append_assoc]
    rfl
  have hpre : n = Layout.total List.length (pre.flatMap Part.lines) := by
    rw [Layout.total_flatMap]
    exact hn.trans (Nat.zero_add _)
  rw [he,lines,slice_lines hd hpre,List.map_append]
  congr 1
  split_ifs
  · rfl
  · rw [List.map_singleton,withoutEnd_withoutEnd]

/-- With some content on each line the block has all of them. -/
lemma inked_lines (hp : (n,Part.block o first rest) ∈ Layout.places Part.size 0 (parts data))
    (hi : ∀ l ∈ first :: rest, Inked l) :
    lines (Blocks.slice data n (n+bodySize (first :: rest))) = (first :: rest).map withoutEnd := by
  obtain ⟨init,l,he,hl⟩ := block_lines hp
  have hne : withoutEnd l ≠ [] := List.length_pos_iff.mp (hi l (by rw [he]; simp)).body
  rw [hl,he,if_neg hne,List.map_append,List.map_singleton]

lemma lines_head (hp : (n,Part.block o first rest) ∈ Layout.places Part.size 0 (parts data)) :
    ∃ t, lines (Blocks.slice data n (n+bodySize (first :: rest))) = withoutEnd first :: t := by
  have hf : Inked first := first_inked (parts_formed data _ (Layout.mem_of_mem_places hp))
  obtain ⟨init,l,he,hl⟩ := block_lines hp
  cases init with
  | nil =>
    obtain ⟨rfl,rfl⟩ := List.cons.inj he
    rw [if_neg (List.length_pos_iff.mp hf.body)] at hl
    exact ⟨_,hl⟩
  | cons a init =>
    obtain ⟨rfl,-⟩ := List.cons.inj he
    exact ⟨_,hl⟩

lemma kind_head {t : List Bytes} (h : lines block = first :: t) : kind block = .ok (kindOf block first) := by
  rw [kind,h]

lemma fence_head (h : (fence line).isSome = true) : ∃ b s, dropSpaces 3 line = b :: s ∧ (b = 96 ∨ b = 126) := by
  unfold fence at h
  cases hd : dropSpaces 3 line with
  | nil =>
    rw [hd] at h
    cases h
  | cons b s =>
    rw [hd] at h
    dsimp only at h
    split_ifs at h with hb
    · exact ⟨b,s,rfl,hb.1⟩
    · cases h

lemma dropWhile_dropSpaces (k : ℕ) (s : Bytes) :
    (dropSpaces k s).dropWhile isBlankChar = s.dropWhile isBlankChar := by
  fun_induction dropSpaces k s with
  | case1 k s ih => rw [ih,List.dropWhile_cons_of_pos rfl]
  | case2 => rfl
  | case3 => rfl

lemma atx_of_fence (h : (fence line).isSome = true) : atx line = none := by
  obtain ⟨b,s,hd,hb⟩ := fence_head h
  have hne : b ≠ 35 := by
    rintro rfl
    simp at hb
  simp [atx,hd,run,hne]

lemma isList_of_fence (h : (fence line).isSome = true) : isList line = false := by
  obtain ⟨b,s,hd,hb⟩ := fence_head h
  have hline : line.dropWhile isBlankChar = b :: s := by
    rw [← dropWhile_dropSpaces 3,hd]
    rcases hb with rfl | rfl <;> rfl
  unfold isList
  rw [hline]
  rcases hb with rfl | rfl <;> rfl

lemma kindOf_atx (h : atx first = some level) : kindOf block first = (.heading,some level) := by
  unfold kindOf
  rw [h]

lemma kindOf_underlined (ha : atx first = none) (hl : isList first = false) (h : lines block = [first,line])
    (hm : setext line = some mark) : kindOf block first = (.heading,some (if mark = 61 then 1 else 2)) := by
  simp [kindOf,ha,hl,h,hm]

lemma underlined_iff : Underlined block ↔
    (match lines block with | [_,l] => setext l | _ => none).isSome = true := by
  constructor
  · rintro ⟨first,line,mark,hl,hm⟩
    rw [hl]
    exact Option.isSome_iff_exists.mpr ⟨mark,hm⟩
  · intro h
    split at h
    · obtain ⟨mark,hm⟩ := Option.isSome_iff_exists.mp h
      exact ⟨_,_,mark,‹_›,hm⟩
    · cases h

lemma kindOf_fence (hf : (fence first).isSome = true) (h : ¬Underlined block) : kindOf block first = (.code,none) := by
  rw [underlined_iff] at h
  unfold kindOf
  rw [atx_of_fence hf]
  dsimp only
  rw [if_neg fun hu => h hu.1,if_pos hf]

lemma kindOf_text (ha : atx first = none) (h : Underlined block → isList first = true) :
    (kindOf block first).1 ≠ .heading := by
  rw [underlined_iff] at h
  unfold kindOf
  rw [ha]
  dsimp only
  rw [if_neg fun hu => absurd (h hu.1) (by rw [hu.2]; exact Bool.false_ne_true)]
  split_ifs <;> exact Kind.noConfusion

end Kinds

theorem kind_agrees_iff (data : Bytes) : (opened data).map Prod.fst = blocks data ∧
    ∀ b ∈ opened data, b.2.Agrees (kind (Blocks.slice data b.1.1 b.1.2)) ↔
      ¬(b.2 = .fence ∧ Underlined (Blocks.slice data b.1.1 b.1.2)) := by
  refine ⟨opened_blocks data,fun b hb => ?_⟩
  obtain ⟨⟨n,p⟩,hp,hb⟩ := List.mem_filterMap.mp hb
  cases p with
  | blank => cases hb
  | block o first rest =>
    obtain rfl := Option.some.inj hb
    obtain ⟨t,ht⟩ := lines_head hp
    have hk := kind_head ht
    have hformed : (Part.block o first rest).Formed := parts_formed data _ (Layout.mem_of_mem_places hp)
    have hlines := fun hi => inked_lines hp hi
    generalize Blocks.slice data n (n+bodySize (first :: rest)) = block at *
    dsimp only
    cases o with
    | fence =>
      rw [hk]
      constructor
      · rintro he ⟨-,line,u,mark,hu,hm⟩
        obtain ⟨rfl,-⟩ := List.cons.inj (ht.symm.trans hu)
        rw [kindOf_underlined (atx_of_fence hformed.2) (isList_of_fence hformed.2) hu hm] at he
        cases he
      · intro hu
        rw [kindOf_fence hformed.2 fun h => hu ⟨rfl,h⟩]
        rfl
    | atx level =>
      rw [hk]
      exact iff_of_true (by rw [kindOf_atx hformed.2.1]; rfl) fun h => by cases h.1
    | setext mark =>
      obtain ⟨hfirst,hli,line,rfl,hline,hm⟩ := hformed
      have hu := hlines (List.forall_mem_cons.mpr ⟨hfirst.inked,List.forall_mem_singleton.mpr hline⟩)
      rw [hk,kindOf_underlined hfirst.atx hli hu hm]
      exact iff_of_true rfl fun h => by cases h.1
    | text =>
      have hall := hlines fun l hl => (hformed.1 l hl).inked
      refine iff_of_true ⟨_,_,hk,kindOf_text (hformed.1 first List.mem_cons_self).atx ?_⟩ fun h => by cases h.1
      rintro ⟨a,u,mark,hu,hm⟩
      rw [hall,List.map_cons] at hu
      obtain ⟨-,hrest⟩ := List.cons.inj hu
      obtain ⟨line,rfl,rfl⟩ := List.map_eq_singleton_iff.mp hrest
      by_contra hli
      rw [hformed.2 line rfl (Bool.eq_false_iff.mpr hli)] at hm
      cases hm

/-- A fence that never closes, over one line that is an underline: markdown_kind says heading. -/
theorem kind_disagrees : ¬∀ data : Bytes, ∀ b ∈ opened data,
    b.2.Agrees (kind (Blocks.slice data b.1.1 b.1.2)) := by
  intro h
  have hagree := h [96,96,96,10,45,45,45] ((0,7),.fence) (by decide +kernel)
  have hkind : kind (Blocks.slice [96,96,96,10,45,45,45] 0 7) = .ok (.heading,some 2) := by rfl
  cases hkind.symm.trans hagree

end Markdown

end Stele
