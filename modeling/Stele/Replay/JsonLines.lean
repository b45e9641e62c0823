import Stele.Replay.Coherence
import Stele.Python.JsonReads
import Stele.Lib.Lines

/-! Which .jsonl outputs JsonTolerancePolicy compares line by line: str.splitlines cuts at more
characters than the line feed, and a JSON string may hold some of them as they are. -/
namespace Stele
open Python

section Pieces

/-- Not line.strip() is false. -/
def nonBlank (line : PyStr) : Bool := decide (strip line ≠ [])

/-- The lines that are not blank, after the part `line` of the first one. -/
def piecesFrom (text line : PyStr) : List PyStr := (splitLinesFrom text line).filter nonBlank

variable {w u s t a line : PyStr} {c : CodePoint} {v : PyVal}

lemma isLineBreak_white (h : isLineBreak c = true) : isWhitespace c = true := by
  simp only [isLineBreak,isWhitespace,Bool.or_eq_true,decide_eq_true_eq,List.mem_cons,List.not_mem_nil,or_false] at h ⊢
  omega

lemma strip_nil : strip s = [] ↔ ∀ c ∈ s, isWhitespace c = true := by
  rw [strip,List.rdropWhile_eq_nil_iff]
  constructor
  · intro h c hc
    rw [← List.takeWhile_append_dropWhile (p := isWhitespace) (l := s)] at hc
    exact (List.mem_append.mp hc).elim (List.mem_takeWhile_imp ·) (h c)
  · intro h c hc
    exact h c ((List.dropWhile_sublist _).mem hc)

lemma nonBlank_mem (hc : c ∈ s) (hw : isWhitespace c = false) : nonBlank s = true :=
  decide_eq_true fun h => by simp [strip_nil.mp h c hc] at hw

lemma nonBlank_blank (h : ∀ c ∈ w, isSpace c = true) : nonBlank w = false :=
  decide_eq_false (not_not.mpr (strip_nil.mpr fun c hc => isSpace_white (h c hc)))

lemma strip_text (hu : Bounded u) {w w' : PyStr} (hw : ∀ c ∈ w, isWhitespace c = true)
    (hw' : ∀ c ∈ w', isWhitespace c = true) : strip (w++(u++w')) = u := by
  obtain ⟨c,r,hcons,hc,-⟩ := hu.first
  have hfirst : (w++(u++w')).dropWhile isWhitespace = u++w' := by
    rw [List.dropWhile_append_of_pos hw,hcons]
    exact List.dropWhile_cons_of_neg (by simp [hc])
  have hne : u ≠ [] := hcons ▸ List.cons_ne_nil _ _
  obtain ⟨i,d,hd⟩ := (List.eq_nil_or_concat' u).resolve_left hne
  have hlast : isWhitespace d = false := hu.last d (by rw [hd,List.getLast?_append]; rfl)
  rw [strip,hfirst,List.rdropWhile,List.reverse_append,
    List.dropWhile_append_of_pos fun c hc => hw' c (List.mem_reverse.mp hc),hd,List.reverse_append]
  exact (congrArg List.reverse (List.dropWhile_cons_of_neg (by simp [hlast]))).trans
    (List.reverse_reverse (i++[d]) ▸ by simp)

lemma piecesFrom_nil (line : PyStr) : piecesFrom [] line = [line].filter nonBlank := by
  rw [piecesFrom,splitLinesFrom]
  split_ifs with h
  · rw [h]
    rfl
  · rfl

lemma splitLinesFrom_feed (s line : PyStr) : splitLinesFrom (10 :: s) line = line :: splitLinesFrom s [] := by
  cases s with
  | nil =>
    unfold splitLinesFrom
    rfl
  | cons d r =>
    conv_lhs => unfold splitLinesFrom
    exact (if_pos (by decide)).trans (if_neg fun h => absurd h.1 (by decide))

/-- A line break ends a line; that "\r\n" is one break only matters to blank lines. -/
lemma piecesFrom_break (h : isLineBreak c = true) (s line : PyStr) :
    piecesFrom (c :: s) line = [line].filter nonBlank++piecesFrom s [] := by
  rw [piecesFrom,splitLinesFrom.eq_def]
  cases s with
  | nil =>
    dsimp only
    rw [if_pos h,piecesFrom_nil]
    exact (List.append_nil _).symm
  | cons d r =>
    dsimp only
    rw [if_pos h]
    split_ifs with hcr
    · have hfeed : piecesFrom (d :: r) [] = piecesFrom r [] := by
        have hd : d = 10 := hcr.2
        rw [piecesFrom,hd,splitLinesFrom_feed]
        rfl
      rw [hfeed]
      exact List.filter_append (p := nonBlank) [line] _
    · exact List.filter_append (p := nonBlank) [line] _

lemma piecesFrom_solid (h : isLineBreak c = false) (s line : PyStr) :
    piecesFrom (c :: s) line = piecesFrom s (line++[c]) := by
  rw [piecesFrom,splitLinesFrom.eq_def]
  dsimp only
  rw [if_neg (by simp [h])]
  rfl

lemma piecesFrom_feed (t s line : PyStr) :
    piecesFrom (t++10 :: s) line = piecesFrom t line++piecesFrom s [] := by
  induction t generalizing line with
  | nil => rw [List.nil_append,piecesFrom_break (by decide),piecesFrom_nil]
  | cons c t ih =>
    rw [List.cons_append]
    cases hc : isLineBreak c with
    | true => rw [piecesFrom_break hc,piecesFrom_break hc,ih,List.append_assoc]
    | false => rw [piecesFrom_solid hc,piecesFrom_solid hc,ih]

/-- The pieces of lines that end in line feeds. -/
lemma pieces_joined (ls : List PyStr) :
    piecesFrom (Lines.joined 10 ls) [] = ls.flatMap fun l => piecesFrom l [] := by
  induction ls with
  | nil => rfl
  | cons l ls ih => rw [Lines.joined_cons,piecesFrom_feed,ih,List.flatMap_cons]

lemma piecesFrom_unbroken (h : ∀ c ∈ u, isLineBreak c = false) (s line : PyStr) :
    piecesFrom (u++s) line = piecesFrom s (line++u) := by
  induction u generalizing line with
  | nil => rw [List.nil_append,List.append_nil]
  | cons c u ih =>
    obtain ⟨hc,hu⟩ := List.forall_mem_cons.mp h
    rw [List.cons_append,piecesFrom_solid hc,ih hu,List.append_assoc,List.singleton_append]

/-- Of the blanks before a text, those after the last line break stay on its line. -/
lemma piecesFrom_before (hw : ∀ c ∈ w, isSpace c = true) (s : PyStr) (ha : ∀ c ∈ a, isSpace c = true) :
    ∃ a', (∀ c ∈ a', isSpace c = true) ∧ piecesFrom (w++s) a = piecesFrom s a' := by
  induction w generalizing a with
  | nil => exact ⟨a,ha,rfl⟩
  | cons c w ih =>
    obtain ⟨hc,hws⟩ := List.forall_mem_cons.mp hw
    cases hb : isLineBreak c with
    | true =>
      obtain ⟨a',ha',he⟩ := ih hws (a := []) (List.forall_mem_nil _)
      refine ⟨a',ha',?_⟩
      rw [List.cons_append,piecesFrom_break hb,he,List.filter_cons_of_neg (by
        simp [nonBlank_blank ha])]
      rfl
    | false =>
      rw [List.cons_append,piecesFrom_solid hb]
      exact ih hws (List.forall_mem_append.mpr ⟨ha,List.forall_mem_singleton.mpr hc⟩)

/-- Of the blanks after a text, those before the first line break stay on its line. -/
lemma piecesFrom_after (line : PyStr) (hw : ∀ c ∈ w, isSpace c = true)
    (hl : ∀ b, (∀ c ∈ b, isSpace c = true) → nonBlank (line++b) = true) :
    ∃ b, (∀ c ∈ b, isSpace c = true) ∧ piecesFrom w line = [line++b] := by
  induction w generalizing line with
  | nil =>
    have h := hl [] (List.forall_mem_nil _)
    rw [List.append_nil] at h
    exact ⟨[],List.forall_mem_nil _,by rw [piecesFrom_nil,List.filter_cons_of_pos h,List.append_nil]; rfl⟩
  | cons c w ih =>
    obtain ⟨hc,hws⟩ := List.forall_mem_cons.mp hw
    cases hb : isLineBreak c with
    | true =>
      have h := hl [] (List.forall_mem_nil _)
      rw [List.append_nil] at h
      obtain ⟨a',ha',he⟩ := piecesFrom_before hws [] (a := []) (List.forall_mem_nil _)
      rw [List.append_nil,piecesFrom_nil,List.filter_cons_of_neg (by
        simp [nonBlank_blank ha'])] at he
      refine ⟨[],List.forall_mem_nil _,?_⟩
      rw [piecesFrom_break hb,he,List.filter_cons_of_pos h,List.append_nil]
      rfl
    | false =>
      obtain ⟨b,hbs,he⟩ := ih (line++[c]) hws fun b hb => by
        rw [List.append_assoc]
        exact hl _ (List.forall_mem_append.mpr ⟨List.forall_mem_singleton.mpr hc,hb⟩)
      refine ⟨c :: b,List.forall_mem_cons.mpr ⟨hc,hbs⟩,?_⟩
      rw [piecesFrom_solid hb,he,List.append_assoc,List.singleton_append]

/-- No line break stands between the first and the last character that is not blank. -/
def Unbroken (l : PyStr) : Prop := ∀ c ∈ strip l, isLineBreak c = false

/-- A document without a line break within it is read from its one piece. -/
lemma pieces_unbroken (h : loads t = some v) (hu : Unbroken t) : (piecesFrom t []).mapM loads = some [v] := by
  obtain ⟨w,u,w',rfl,hw,hw',ht⟩ := loads_text h
  have hwhite : ∀ {b : PyStr}, (∀ c ∈ b, isSpace c = true) → ∀ c ∈ b, isWhitespace c = true :=
    fun hb c hc => isSpace_white (hb c hc)
  rw [Unbroken,strip_text ht.bounded (hwhite hw) (hwhite hw')] at hu
  obtain ⟨a,ha,he⟩ := piecesFrom_before hw (u++w') (a := []) (List.forall_mem_nil _)
  obtain ⟨b,hb,he'⟩ := piecesFrom_after (a++u) hw' fun b hb => by
    rw [List.append_assoc]
    obtain ⟨c,r,rfl,hc,-⟩ := ht.bounded.first
    exact nonBlank_mem (List.mem_append_right _ List.mem_cons_self) hc
  rw [he,piecesFrom_unbroken hu,he',List.append_assoc]
  simp [ht.loads ha hb]

lemma mapM_head_none {α β : Type} {f : α → Option β} {x : α} (h : f x = none) (xs : List α) :
    (x :: xs).mapM f = none := by
  simp [h]

/-- A line break does not continue a number. -/
lemma numEnd_break (h : isLineBreak c = true) (r : PyStr) : NumEnd (c :: r) := by
  have hw := isLineBreak_white h
  have hne : ∀ d, isLineBreak d = false → c ≠ d := by
    rintro d hd rfl
    simp [h] at hd
  refine numEnd_cons.mpr ⟨?_,hne _ (by decide),hne _ (by decide),hne _ (by decide)⟩
  exact Bool.eq_false_iff.mpr fun hd => by simp [isDigit_solid hd] at hw

/-- The first piece of a document with a line break within it is no document: its text would be
read from the whole one as well. -/
lemma pieces_broken (h : loads t = some v) (hu : ¬Unbroken t) : (piecesFrom t []).mapM loads = none := by
  obtain ⟨w,u,w',rfl,hw,hw',ht⟩ := loads_text h
  have hwhite : ∀ {b : PyStr}, (∀ c ∈ b, isSpace c = true) → ∀ c ∈ b, isWhitespace c = true :=
    fun hb c hc => isSpace_white (hb c hc)
  rw [Unbroken,strip_text ht.bounded (hwhite hw) (hwhite hw')] at hu
  obtain ⟨a,ha,he⟩ := piecesFrom_before hw (u++w') (a := []) (List.forall_mem_nil _)
  -- p is the text up to its first line break
  obtain ⟨p,c,r,rfl,hp,hc⟩ : ∃ p c r, u = p++c :: r ∧ (∀ c ∈ p, isLineBreak c = false) ∧ isLineBreak c = true := by
    refine ⟨u.takeWhile (!isLineBreak ·),?_⟩
    cases hd : u.dropWhile (!isLineBreak ·) with
    | nil =>
      exact absurd (fun c hc => by simpa using List.dropWhile_eq_nil_iff.mp hd c hc) hu
    | cons c r =>
      refine ⟨c,r,by rw [← hd,List.takeWhile_append_dropWhile],fun c hc => by simpa using List.mem_takeWhile_imp hc,?_⟩
      have hne : u.dropWhile (!isLineBreak ·) ≠ [] := by rw [hd]; exact List.cons_ne_nil _ _
      have := List.head_dropWhile_not (!isLineBreak ·) hne
      simpa [hd] using this
  obtain ⟨d,q,hdq,hd,-⟩ := ht.bounded.first
  cases p with
  | nil =>
    obtain ⟨rfl,-⟩ := List.cons.inj hdq
    exact absurd (isLineBreak_white hc) (by simp [hd])
  | cons c₀ p =>
    obtain ⟨rfl,-⟩ := List.cons.inj hdq
    have hne : nonBlank (a++c₀ :: p) = true := nonBlank_mem (List.mem_append_right _ List.mem_cons_self) hd
    rw [he,List.append_assoc,piecesFrom_unbroken hp,List.cons_append,piecesFrom_break hc,List.filter_cons_of_pos hne]
    refine mapM_head_none ?_ _
    by_contra hsome
    obtain ⟨x,hx⟩ := Option.ne_none_iff_exists'.mp hsome
    obtain ⟨w₁,u₁,w₂,hsplit,hw₁,hw₂,ht₁⟩ := loads_text hx
    have hstart : c₀ :: p = u₁++w₂ := by
      have hskip := congrArg skipWs hsplit
      rwa [ht₁.bounded.skipWs hw₁,skipWs_append ha,skipWs_noSpace] at hskip
      exact noSpace_cons.mpr (Bool.eq_false_iff.mpr fun h => by simp [isSpace_white h] at hd)
    have hread := ht.reads _ [] le_rfl nofun
    have hread' := ht₁.reads (c₀ :: p++c :: r).length (w₂++c :: r) (by
      rw [hstart]; simp only [List.length_append]; omega) (numEnd_blanks hw₂ (numEnd_break hc r))
    rw [List.append_nil,hstart,List.append_assoc] at hread
    rw [hstart,List.append_assoc,hread] at hread'
    have hend := (Prod.mk.inj (Option.some.inj hread')).2
    simp at hend

end Pieces

namespace JsonTolerancePolicy

/-- The policy accepts w for v as one value. -/
def Same (P : JsonTolerancePolicy) (v w : PyVal) : Prop := P.walk v w [] P.default = []

/-- No NaN anywhere in a value: it is no JSON. -/
def NanFree (v : PyVal) : Prop := ∀ path, valueAt v path ≠ some (.float .nan)

/-- The bytes are the JSON texts ls, of the values vs, separated by line feeds; the last line feed
is optional. -/
structure JsonLines (data : Bytes) (ls : List PyStr) (vs : List PyVal) : Prop where
  text : ∃ text, decode data = some text ∧ (text = Lines.joined 10 ls ∨ text++[10] = Lines.joined 10 ls)
  feed : ∀ l ∈ ls, 10 ∉ l
  values : List.Forall₂ (fun l v => loads l = some v ∧ NanFree v) ls vs

variable {P : JsonTolerancePolicy} {data : Bytes} {ls ms : List PyStr} {vs ws : List PyVal} {v w : PyVal}

lemma same_iff (hv : v.Loaded) (hw : w.Loaded) : P.Same v w ↔ P.AgreeFrom P.default v w :=
  walk_nil hv hw [] P.default

lemma valueAt_loaded (hv : v.Loaded) {path : List JsonStep} (h : valueAt v path = some w) : w.Loaded := by
  induction path generalizing v with
  | nil => exact Option.some.inj h ▸ hv
  | cons s path ih =>
    cases s with
    | key k =>
      cases v with
      | dict kvs =>
        obtain ⟨x,hx,hw⟩ := Option.bind_eq_some_iff.mp h
        rw [PyVal.find,Option.map_eq_some_iff] at hx
        obtain ⟨p,hp,rfl⟩ := hx
        exact ih (hv.item (List.mem_of_find?_eq_some hp)) hw
      | _ => cases h
    | index i =>
      cases v with
      | list xs =>
        obtain ⟨x,hx,hw⟩ := Option.bind_eq_some_iff.mp h
        exact ih (hv.elem (List.mem_of_getElem? hx)) hw
      | _ => cases h

/-- A value without NaN is accepted for itself. -/
lemma same_self (hv : v.Loaded) (hn : NanFree v) : P.Same v v := by
  refine (same_iff hv hv).mpr fun path x y _ hx hy => ?_
  obtain rfl := Option.some.inj (hx.symm.trans hy)
  have hl := valueAt_loaded hv hx
  cases x with
  | none => exact .none
  | bool b => exact .bool b
  | int i => exact .int i
  | str s => exact .str s
  | list xs => exact .list rfl
  | dict kvs => exact .dict fun _ _ => rfl
  | bytes | tuple | object => exact hl.elim
  | float f =>
    have hnum : ∃ n, (PyVal.float f).num = some n := by
      cases f with
      | nan => exact absurd hx (hn path)
      | finite f => exact ⟨_,rfl⟩
      | inf neg => exact ⟨_,rfl⟩
    obtain ⟨n,hf⟩ := hnum
    exact .number rfl rfl rfl hf hf (Tolerance.isclose_self _ _)

/-- The values of the lines are read one for one if no text is broken, else none is read. -/
lemma lineValues_lines (h : JsonLines data ls vs) : (decode data).bind lineValues = some vs ∧ (∀ l ∈ ls, Unbroken l) ∨
    (decode data).bind lineValues = none ∧ ¬∀ l ∈ ls, Unbroken l := by
  obtain ⟨text,hd,ht⟩ := h.text
  have hpieces : piecesFrom text [] = ls.flatMap fun l => piecesFrom l [] := by
    rcases ht with ht | ht
    · rw [ht,pieces_joined]
    · have hfeed := piecesFrom_feed text [] []
      rw [ht,pieces_joined] at hfeed
      rw [hfeed]
      exact (List.append_nil _).symm
  have hvalues : lineValues text = (ls.flatMap fun l => piecesFrom l []).mapM loads := by
    rw [← hpieces]
    rfl
  rw [hd,Option.bind_some,hvalues]
  have hvs := h.values
  clear hd ht hpieces hvalues h
  induction hvs with
  | nil => exact .inl ⟨rfl,List.forall_mem_nil _⟩
  | @cons l v ls vs hv _ ih =>
    rw [List.flatMap_cons,List.mapM_append,List.forall_mem_cons]
    by_cases hl : Unbroken l
    · rw [pieces_unbroken hv.1 hl]
      refine ih.imp (fun h => ⟨?_,hl,h.2⟩) fun h => ⟨?_,fun hall => h.2 hall.2⟩
      · rw [h.1]
        rfl
      · rw [h.1]
        rfl
    · rw [pieces_broken hv.1 hl]
      exact .inr ⟨rfl,fun hall => hl hall.1⟩

lemma JsonLines.loaded (h : JsonLines data ls vs) : ∀ v ∈ vs, v.Loaded := by
  intro v hv
  obtain ⟨l,-,hl⟩ := forall₂_mem h.values.flip hv
  exact loads_loaded hl.1

lemma same_list (hvs : ∀ v ∈ vs, v.Loaded) (hws : ∀ w ∈ ws, w.Loaded) :
    P.AgreeFrom P.default (.list vs) (.list ws) ↔ List.Forall₂ P.Same vs ws := by
  rw [agreeFrom_list]
  constructor
  · rintro ⟨hlen,hall⟩
    refine forall₂_of_getElem? hlen fun i x y hx hy => ?_
    exact (same_iff (hvs x (List.mem_of_getElem? hx)) (hws y (List.mem_of_getElem? hy))).mpr (hall i x y hx hy)
  · intro h
    refine ⟨h.length_eq,fun i x y hx hy => ?_⟩
    exact (same_iff (hvs x (List.mem_of_getElem? hx)) (hws y (List.mem_of_getElem? hy))).mp
      (getElem?_of_forall₂ h hx hy)

/-- The lines of a text, of which none is empty. -/
lemma split_lines {t : PyStr} (hfeed : ∀ l ∈ ls, 10 ∉ l) (hne : [] ∉ ls)
    (ht : t = Lines.joined 10 ls ∨ t++[10] = Lines.joined 10 ls) : (Lines.split 10 t).filter (· ≠ []) = ls := by
  have hall : ls.filter (· ≠ []) = ls := List.filter_eq_self.mpr fun l hl => decide_eq_true fun h => hne (h ▸ hl)
  rcases ht with rfl | ht
  · have hsplit := Lines.split_joined (t := []) hfeed List.not_mem_nil
    rw [List.append_nil] at hsplit
    rw [hsplit,List.filter_append,hall]
    exact List.append_nil ls
  · rcases List.eq_nil_or_concat' ls with rfl | ⟨i,l,rfl⟩
    · cases List.append_ne_nil_of_right_ne_nil t (List.cons_ne_nil 10 []) ht
    · rw [Lines.joined_snoc,← List.append_assoc] at ht
      rw [List.append_cancel_right ht,Lines.split_joined (fun m hm => hfeed m (List.mem_append_left _ hm))
        (hfeed l List.mem_concat_self)]
      exact hall

/-- A file is the lines of one list of JSON texts only. -/
lemma JsonLines.lines_eq (h : JsonLines data ls vs) (h' : JsonLines data ms ws) : ls = ms := by
  have hne : ∀ {ls : List PyStr} {vs}, List.Forall₂ (fun l v => loads l = some v ∧ NanFree v) ls vs → [] ∉ ls := by
    intro ls vs hvs hmem
    obtain ⟨v,-,hv,-⟩ := forall₂_mem hvs hmem
    cases hv
  obtain ⟨text,hd,ht⟩ := h.text
  obtain ⟨text',hd',ht'⟩ := h'.text
  obtain rfl := Option.some.inj (hd.symm.trans hd')
  exact (split_lines h.feed (hne h.values) ht).symm.trans (split_lines h'.feed (hne h'.values) ht')

/-- The values of one file are accepted for themselves. -/
lemma JsonLines.same (h : JsonLines data ls vs) (h' : JsonLines data ms ws) : List.Forall₂ P.Same vs ws := by
  obtain rfl := h.lines_eq h'
  have hvs := h.values
  have hws := h'.values
  clear h h'
  induction hvs generalizing ws with
  | nil =>
    cases hws
    exact .nil
  | cons hv _ ih =>
    cases hws with
    | cons hw hws =>
      obtain rfl := Option.some.inj (hv.1.symm.trans hw.1)
      exact .cons (same_self (loads_loaded hv.1) hv.2) (ih hws)

variable {H : Hasher} {archive : Archive} {path d e : PyStr} {x y : Bytes}

/-- A pair of .jsonl files is accepted if they are one file, or no text of them is broken and all
pairs of values are accepted. -/
lemma lines_accepted (hpath : endsWith path (lit ".jsonl") = true) (hx : archive.read H d = .ok x)
    (hy : archive.read H e = .ok y) (hl : JsonLines x ls vs) (hm : JsonLines y ms ws) :
    P.Accepts H archive [(path,d)] [(path,e)] ↔
      x = y ∨ ((∀ l ∈ ls, Unbroken l) ∧ ∀ l ∈ ms, Unbroken l) ∧ List.Forall₂ P.Same vs ws := by
  have hsame : d = e ↔ x = y := by
    constructor
    · rintro rfl
      exact Except.ok.inj (hx.symm.trans hy)
    · rintro rfl
      exact SameBytes.eq (.inr ⟨x,hx,hy⟩)
  have hparsed : ∀ {data ls vs v}, JsonLines data ls vs → (parsed path data = some v ↔
      v = .list vs ∧ ∀ l ∈ ls, Unbroken l) := by
    intro data ls vs v h
    rw [parsed,if_pos hpath]
    rcases lineValues_lines h with ⟨hv,hu⟩ | ⟨hv,hu⟩
    · rw [hv]
      exact ⟨fun h => ⟨(Option.some.inj h).symm,hu⟩,fun h => congrArg some h.1.symm⟩
    · rw [hv]
      exact iff_of_false nofun fun h => hu h.2
  have hfiles : JsonFiles H archive (P.AgreeFrom P.default) path d e ↔
      ((∀ l ∈ ls, Unbroken l) ∧ ∀ l ∈ ms, Unbroken l) ∧ List.Forall₂ P.Same vs ws := by
    rw [← same_list hl.loaded hm.loaded]
    constructor
    · rintro ⟨-,a,b,left,right,ha,hb,hleft,hright,h⟩
      obtain rfl := Except.ok.inj (hx.symm.trans ha)
      obtain rfl := Except.ok.inj (hy.symm.trans hb)
      obtain ⟨rfl,hul⟩ := (hparsed hl).mp hleft
      obtain ⟨rfl,hum⟩ := (hparsed hm).mp hright
      exact ⟨⟨hul,hum⟩,h⟩
    · rintro ⟨⟨hul,hum⟩,h⟩
      exact ⟨by simp [isJsonPath,hpath],x,y,_,_,hx,hy,(hparsed hl).mpr ⟨rfl,hul⟩,(hparsed hm).mpr ⟨rfl,hum⟩,h⟩
  rw [accepts_iff,← hsame,← hfiles]
  constructor
  · intro h
    exact h.2 path d e (by simp [Dict.get]) (by simp [Dict.get])
  · intro h
    refine ⟨fun p => Iff.rfl,fun p d' e' hd' he' => ?_⟩
    obtain ⟨rfl,rfl⟩ := Prod.mk.inj (List.mem_singleton.mp (Dict.mem_of_get hd'))
    obtain ⟨-,rfl⟩ := Prod.mk.inj (List.mem_singleton.mp (Dict.mem_of_get he'))
    exact h

/-- Two .jsonl files of JSON texts are accepted exactly when the pairs of their values are, if they are
one file, or no text has a line break of str.splitlines within it, or some pair of values is not
accepted. -/
theorem lines_accepted_iff (hpath : endsWith path (lit ".jsonl") = true) (hx : archive.read H d = .ok x)
    (hy : archive.read H e = .ok y) (hl : JsonLines x ls vs) (hm : JsonLines y ms ws) :
    (P.Accepts H archive [(path,d)] [(path,e)] ↔ List.Forall₂ P.Same vs ws) ↔
      x = y ∨ ((∀ l ∈ ls, Unbroken l) ∧ ∀ l ∈ ms, Unbroken l) ∨ ¬List.Forall₂ P.Same vs ws := by
  rw [lines_accepted hpath hx hy hl hm]
  by_cases hxy : x = y
  · subst hxy
    have hsame : List.Forall₂ P.Same vs ws := hl.same hm
    exact iff_of_true (iff_of_true (.inl rfl) hsame) (.inl rfl)
  · tauto

/-- An archive of these two files. -/
def twoFiles (x y : Bytes) : Archive where
  blobs digest := if digest = Hasher.checksum.hexdigest x then some x else some y
  snapshots _ _ := none
  sources _ := none

/-- No tolerance, no ignored keys. -/
def strict : JsonTolerancePolicy := ⟨0,0,[],[],le_rfl,le_rfl⟩

lemma twoFiles_read {x y : Bytes} (hne : Hasher.checksum.hexdigest y ≠ Hasher.checksum.hexdigest x) :
    (twoFiles x y).read Hasher.checksum (Hasher.checksum.hexdigest x) = .ok x ∧
      (twoFiles x y).read Hasher.checksum (Hasher.checksum.hexdigest y) = .ok y := by
  have hread : ∀ {data}, (twoFiles x y).blobs (Hasher.checksum.hexdigest data) = some data →
      (twoFiles x y).read Hasher.checksum (Hasher.checksum.hexdigest data) = .ok data := by
    intro data h
    rw [Archive.read,if_neg (by simp [Hasher.digest_form]),h]
    exact if_pos rfl
  exact ⟨hread (by simp only [twoFiles,if_true]),hread (by simp only [twoFiles,if_neg hne])⟩

lemma nanFree_str (s : PyStr) : NanFree (.str s) := by
  intro path h
  cases path with
  | nil => cases h
  | cons step path => cases step <;> cases h

/-- A file of strings, one on each line. -/
lemma jsonLines_strings (ls ss : List PyStr) (he : Encodable (Lines.joined 10 ls)) (hf : ∀ l ∈ ls, 10 ∉ l)
    (hl : ls.map loads = ss.map fun s => some (.str s)) :
    JsonLines (utf8 (Lines.joined 10 ls)) ls (ss.map .str) := by
  refine ⟨⟨_,decode_utf8 he,.inl rfl⟩,hf,?_⟩
  rw [List.forall₂_map_right_iff]
  have h : List.Forall₂ (fun l s => loads l = some (.str s)) ls ss := by
    rw [← List.forall₂_map_left_iff (R := fun x s => x = some (PyVal.str s)),hl,List.forall₂_map_left_iff]
    exact List.forall₂_same.mpr fun _ _ => rfl
  exact h.imp fun _ s h => ⟨h,nanFree_str s⟩

lemma same_strings (ss : List PyStr) : List.Forall₂ strict.Same (ss.map .str) (ss.map .str) :=
  List.forall₂_same.mpr fun v hv => by
    obtain ⟨s,-,rfl⟩ := List.mem_map.mp hv
    exact same_self trivial (nanFree_str s)

/-- The strings "a" and "b", and the same two with a blank after the first. -/
def plain : List PyStr := [lit "\"a\"",lit "\"b\""]
def plainBlank : List PyStr := [lit "\"a\" ",lit "\"b\""]

lemma unbroken_of_all (ls : List PyStr) (h : ls.all fun l => (strip l).all fun c => !isLineBreak c) :
    ∀ l ∈ ls, Unbroken l := by
  intro l hl c hc
  simpa using List.all_eq_true.mp (List.all_eq_true.mp h l hl) c hc

/-- Lines without a break inside them: the two files are accepted, as their values are. -/
theorem lines_accepted_iff_plain :
    strict.Accepts Hasher.checksum (twoFiles (utf8 (Lines.joined 10 plain)) (utf8 (Lines.joined 10 plainBlank)))
      [(lit "out.jsonl",Hasher.checksum.hexdigest (utf8 (Lines.joined 10 plain)))]
      [(lit "out.jsonl",Hasher.checksum.hexdigest (utf8 (Lines.joined 10 plainBlank)))] ∧
    List.Forall₂ strict.Same [.str (lit "a"),.str (lit "b")] [.str (lit "a"),.str (lit "b")] := by
  have hread := twoFiles_read (x := utf8 (Lines.joined 10 plain)) (y := utf8 (Lines.joined 10 plainBlank))
    (by decide +kernel)
  have hplain := jsonLines_strings plain [lit "a",lit "b"] (by decide) (by decide) rfl
  have hblank := jsonLines_strings plainBlank [lit "a",lit "b"] (by decide) (by decide) rfl
  have hsame := same_strings [lit "a",lit "b"]
  have hunbroken := And.intro (unbroken_of_all plain (by decide)) (unbroken_of_all plainBlank (by decide))
  exact ⟨((lines_accepted_iff (by decide) hread.1 hread.2 hplain hblank).mpr (.inr (.inl hunbroken))).mpr hsame,hsame⟩

/-- A string of U+2028 alone, and the same text with a blank after it. -/
def separator : PyStr := [cp '"',0x2028,cp '"']
def separatorBlank : PyStr := separator++[cp ' ']

def separators : Archive := twoFiles (utf8 separator) (utf8 separatorBlank)

lemma jsonLines_one {l : PyStr} {s : PyStr} (he : Encodable l) (hf : 10 ∉ l) (hl : loads l = some (.str s)) :
    JsonLines (utf8 l) [l] [.str s] :=
  ⟨⟨l,decode_utf8 he,.inr (List.append_nil (l++[10])).symm⟩,List.forall_mem_singleton.mpr hf,
    .cons ⟨hl,nanFree_str s⟩ .nil⟩

/-- The two files have one value and are not accepted. -/
theorem separator_rejected : ¬(strict.Accepts Hasher.checksum separators
      [(lit "out.jsonl",Hasher.checksum.hexdigest (utf8 separator))]
      [(lit "out.jsonl",Hasher.checksum.hexdigest (utf8 separatorBlank))] ↔
    List.Forall₂ strict.Same [.str [0x2028]] [.str [0x2028]]) := by
  intro h
  have hread := twoFiles_read (x := utf8 separator) (y := utf8 separatorBlank) (by decide +kernel)
  have hacc := (lines_accepted (P := strict) (by decide) hread.1 hread.2
    (jsonLines_one (by decide) (by decide) rfl) (jsonLines_one (by decide) (by decide) rfl)).mp
    (h.mpr (same_strings [[0x2028]]))
  rcases hacc with h | ⟨⟨h,-⟩,-⟩
  · exact absurd (utf8_injOn (by decide) (by decide) h) (by decide)
  · exact absurd (h _ List.mem_cons_self 0x2028 (by decide)) (by decide)

end JsonTolerancePolicy

end Stele
