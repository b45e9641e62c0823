import Stele.Extraction.RoundTrip

/-! What the checks of the contract keep of the values they are given, and which values they
refuse with another error than their own: an unhashable kind, and a number too large for a float. -/
namespace Stele
open Python

section Lists

variable {ε α β : Type} {f : α → Except ε β} {xs : List α} {e : ε}

/-- A loop over a list raises what its first element that raises does. -/
lemma mapM_error : xs.mapM f = .error e ↔
    ∃ pre x post, xs = pre++x :: post ∧ (∀ y ∈ pre, ∃ z, f y = .ok z) ∧ f x = .error e := by
  induction xs with
  | nil => simp [pure,Except.pure]
  | cons x xs ih =>
    rw [List.mapM_cons]
    cases hx : f x with
    | error d =>
      constructor
      · intro h
        obtain rfl := Except.error.inj h
        exact ⟨[],x,xs,rfl,List.forall_mem_nil _,hx⟩
      · rintro ⟨pre,y,post,he,hpre,hy⟩
        cases pre with
        | nil =>
          obtain ⟨rfl,-⟩ := List.cons.inj he
          exact congrArg _ (Except.error.inj (hx.symm.trans hy))
        | cons z pre =>
          obtain ⟨rfl,-⟩ := List.cons.inj he
          obtain ⟨w,hw⟩ := hpre x (by simp)
          rw [hx] at hw
          cases hw
    | ok z =>
      have hstep : (do let a ← Except.ok z; let b ← xs.mapM f; pure (a :: b) : Except ε (List β)) =
          .error e ↔ xs.mapM f = .error e := by
        cases xs.mapM f <;> simp [bind,Except.bind,pure,Except.pure]
      rw [hstep,ih]
      constructor
      · rintro ⟨pre,y,post,rfl,hpre,hy⟩
        exact ⟨x :: pre,y,post,rfl,List.forall_mem_cons.mpr ⟨⟨z,hx⟩,hpre⟩,hy⟩
      · rintro ⟨pre,y,post,he,hpre,hy⟩
        cases pre with
        | nil =>
          obtain ⟨rfl,-⟩ := List.cons.inj he
          rw [hx] at hy
          cases hy
        | cons w pre =>
          obtain ⟨rfl,rfl⟩ := List.cons.inj he
          exact ⟨pre,y,post,rfl,(List.forall_mem_cons.mp hpre).2,hy⟩

end Lists

section Numbers

variable {v : PyVal} {id : PyStr}

lemma readNat_ok {n : Option ℕ} (h : readNat v = some n) : v = ExtractionUnit.natPy n := by
  unfold readNat at h
  split at h
  · obtain rfl := Option.some.inj h
    rfl
  · obtain rfl := Option.some.inj h
    rfl
  · cases h

/-- A number is a float, or an int that may be too large for one. -/
lemma readNumber_cases {r : Except Exc PyFloat} (h : readNumber v = some r) :
    (∃ f, v = .float f ∧ r = .ok f) ∨ (∃ i f, v = .int i ∧ floatOfInt i = some f ∧ r = .ok f) ∨
      ∃ i, v = .int i ∧ floatOfInt i = none ∧ r = .error .overflowError := by
  unfold readNumber at h
  split at h
  · rename_i f
    exact Or.inl ⟨f,rfl,(Option.some.inj h).symm⟩
  · rename_i i
    obtain rfl := Option.some.inj h
    cases hi : floatOfInt i with
    | none => exact Or.inr (Or.inr ⟨i,rfl,hi,rfl⟩)
    | some f => exact Or.inr (Or.inl ⟨i,f,rfl,hi,rfl⟩)
  · cases h

/-- Four numbers, one of which is an int that no float is near. -/
def TooLarge (v : PyVal) : Prop :=
  ∃ xs, (v = .list xs ∨ v = .tuple xs) ∧ xs.length = 4 ∧ (∀ x ∈ xs, (readNumber x).isSome) ∧
    ∃ i, .int i ∈ xs ∧ floatOfInt i = none

/-- The four numbers of a bbox. -/
def BboxOf (b : Bbox) (xs : List PyVal) : Prop :=
  List.Forall₂ (fun x f => readNumber x = some (.ok f)) xs [b.1,b.2.1,b.2.2.1,b.2.2.2]

/-- Four numbers are read when none of them is too large. -/
lemma readFour {a b c d : PyVal} {ra rb rc rd : Except Exc PyFloat} (ha : readNumber a = some ra)
    (hb : readNumber b = some rb) (hc : readNumber c = some rc) (hd : readNumber d = some rd) :
    (∃ x, BboxOf x [a,b,c,d] ∧ (do return some (← ra,← rb,← rc,← rd)) = Except.ok (some x)) ∨
      ((∃ i, .int i ∈ [a,b,c,d] ∧ floatOfInt i = none) ∧
        (do return some (← ra,← rb,← rc,← rd)) = (Except.error .overflowError : Except Exc (Option Bbox))) := by
  have cases_of : ∀ {v : PyVal} {r : Except Exc PyFloat}, readNumber v = some r → (∃ f, r = .ok f) ∨
      r = .error .overflowError ∧ ∃ i, v = .int i ∧ floatOfInt i = none := by
    intro v r h
    rcases readNumber_cases h with ⟨f,-,hr⟩ | ⟨i,f,-,-,hr⟩ | ⟨i,hv,hi,hr⟩
    · exact Or.inl ⟨f,hr⟩
    · exact Or.inl ⟨f,hr⟩
    · exact Or.inr ⟨hr,i,hv,hi⟩
  rcases cases_of ha with ⟨fa,rfl⟩ | ⟨rfl,i,rfl,hi⟩
  · rcases cases_of hb with ⟨fb,rfl⟩ | ⟨rfl,i,rfl,hi⟩
    · rcases cases_of hc with ⟨fc,rfl⟩ | ⟨rfl,i,rfl,hi⟩
      · rcases cases_of hd with ⟨fd,rfl⟩ | ⟨rfl,i,rfl,hi⟩
        · exact Or.inl ⟨(fa,fb,fc,fd),.cons ha (.cons hb (.cons hc (.cons hd .nil))),rfl⟩
        · exact Or.inr ⟨⟨i,by simp,hi⟩,rfl⟩
      · exact Or.inr ⟨⟨i,by simp,hi⟩,rfl⟩
    · exact Or.inr ⟨⟨i,by simp,hi⟩,rfl⟩
  · exact Or.inr ⟨⟨i,by simp,hi⟩,rfl⟩

lemma bboxOf_small {b : Bbox} {xs : List PyVal} (h : BboxOf b xs) (hv : v = .list xs ∨ v = .tuple xs) :
    ¬TooLarge v := by
  rintro ⟨ys,hys,-,-,i,hi,hnone⟩
  obtain rfl : ys = xs := by
    rcases hv with rfl | rfl <;> rcases hys with h | h <;> cases h <;> rfl
  obtain ⟨f,-,hf⟩ := forall₂_mem h hi
  rw [readNumber,hnone] at hf
  cases hf

/-- A bbox is None or four numbers, or it is refused, or too large. -/
lemma readBbox_cases (id : PyStr) (v : PyVal) :
    (∃ b, ¬TooLarge v ∧ readBbox id v = .ok b) ∨ (TooLarge v ∧ readBbox id v = .error .overflowError) ∨
      (¬TooLarge v ∧ ∃ p, readBbox id v = formatError p) := by
  have four : ∀ xs, (v = .list xs ∨ v = .tuple xs) →
      (∀ a b c d, xs = [a,b,c,d] → readBbox id v = readBbox id (.list [a,b,c,d])) →
      ((∀ a b c d, xs ≠ [a,b,c,d]) → readBbox id v = formatError (.unit id (lit "bbox"))) →
      (∃ b, ¬TooLarge v ∧ readBbox id v = .ok b) ∨ (TooLarge v ∧ readBbox id v = .error .overflowError) ∨
        (¬TooLarge v ∧ ∃ p, readBbox id v = formatError p) := by
    intro xs hv hfour hother
    have hxs : ∀ ys, (v = .list ys ∨ v = .tuple ys) → ys = xs := by
      rintro ys (hy | hy) <;> rcases hv with hx | hx <;> rw [hx] at hy <;> cases hy <;> rfl
    by_cases hlen : ∃ a b c d, xs = [a,b,c,d]
    · obtain ⟨a,b,c,d,rfl⟩ := hlen
      have hread := hfour a b c d rfl
      rw [readBbox] at hread
      have refused : ∀ x ∈ [a,b,c,d], readNumber x = none → ¬TooLarge v := by
        rintro x hx hnone ⟨ys,hys,-,hnum,-⟩
        obtain rfl := hxs ys hys
        have := hnum x hx
        rw [hnone] at this
        cases this
      cases ha : readNumber a with
      | none => exact Or.inr (Or.inr ⟨refused a (by simp) ha,_,by rw [hread,ha]⟩)
      | some ra =>
        cases hb : readNumber b with
        | none => exact Or.inr (Or.inr ⟨refused b (by simp) hb,_,by rw [hread,ha,hb]⟩)
        | some rb =>
          cases hc : readNumber c with
          | none => exact Or.inr (Or.inr ⟨refused c (by simp) hc,_,by rw [hread,ha,hb,hc]⟩)
          | some rc =>
            cases hd : readNumber d with
            | none => exact Or.inr (Or.inr ⟨refused d (by simp) hd,_,by rw [hread,ha,hb,hc,hd]⟩)
            | some rd =>
              rw [ha,hb,hc,hd] at hread
              rcases readFour ha hb hc hd with ⟨x,hx,hr⟩ | ⟨⟨i,hi,hlarge⟩,hr⟩
              · exact Or.inl ⟨_,bboxOf_small hx hv,hread.trans hr⟩
              · refine Or.inr (Or.inl ⟨⟨_,hv,rfl,?_,i,hi,hlarge⟩,hread.trans hr⟩)
                simp [ha,hb,hc,hd]
    · refine Or.inr (Or.inr ⟨?_,_,hother fun a b c d h => hlen ⟨a,b,c,d,h⟩⟩)
      rintro ⟨ys,hys,hl,-⟩
      obtain rfl := hxs ys hys
      obtain ⟨a,x,rfl⟩ := List.exists_of_length_succ ys hl
      obtain ⟨b,c,d,rfl⟩ := List.length_eq_three.mp (Nat.succ.inj hl)
      exact hlen ⟨a,b,c,d,rfl⟩
  cases v with
  | none => exact Or.inl ⟨_,by simp [TooLarge],rfl⟩
  | list xs =>
    refine four xs (Or.inl rfl) (fun a b c d h => by rw [h]) fun h => ?_
    unfold readBbox
    split
    · rename_i hx
      cases hx
    · rename_i hx
      exact absurd (PyVal.list.inj hx) (h _ _ _ _)
    · rename_i hx
      cases hx
    · rfl
  | tuple xs =>
    refine four xs (Or.inr rfl) (fun a b c d h => by rw [h]; rfl) fun h => ?_
    unfold readBbox
    split
    · rename_i hx
      cases hx
    · rename_i hx
      cases hx
    · rename_i hx
      exact absurd (PyVal.tuple.inj hx) (h _ _ _ _)
    · rfl
  | _ => exact Or.inr (Or.inr ⟨by simp [TooLarge],_,rfl⟩)

/-- A bbox that is read is None, or four numbers whose floats it keeps. -/
lemma readBbox_ok {b : Option Bbox} (h : readBbox id v = .ok b) : (v = .none ∧ b = none) ∨
    ∃ x xs, b = some x ∧ (v = .list xs ∨ v = .tuple xs) ∧ BboxOf x xs := by
  unfold readBbox at h
  split at h
  · exact Or.inl ⟨rfl,(Except.ok.inj h).symm⟩
  all_goals try
    rename_i a b c d
    split at h
    · rename_i ha hb hc hd
      rcases readFour ha hb hc hd with ⟨x,hx,hr⟩ | ⟨-,hr⟩
      · rw [hr] at h
        exact Or.inr ⟨x,_,(Except.ok.inj h).symm,by simp,hx⟩
      · rw [hr] at h
        cases h
    · cases h
  cases h

end Numbers

section Units

variable {id kind text order page bbox level parent attributes : PyVal} {anchor : Extraction.Anchor}
  {u : ExtractionUnit}

/-- A list or a dict, which no set can be asked for. -/
def Unhashable (v : PyVal) : Prop := (∃ xs, v = .list xs) ∨ ∃ kvs, v = .dict kvs

lemma Kind.value_ofValue {s : PyStr} {k : Kind} (h : Kind.ofValue s = some k) : k.value = s := by
  have := List.find?_some h
  simpa using this

open ExtractionUnit (readKind_value) in
lemma readKind_cases (i : PyStr) (v : PyVal) : (∃ k : Kind, v = .str k.value ∧ readKind i v = .ok k) ∨
    (Unhashable v ∧ readKind i v = .error .typeError) ∨
    (¬Unhashable v ∧ (∀ k : Kind, v ≠ .str k.value) ∧ ∃ p, readKind i v = formatError p) := by
  cases v with
  | str s =>
    cases hk : Kind.ofValue s with
    | some k =>
      obtain rfl := Kind.value_ofValue hk
      exact Or.inl ⟨k,rfl,readKind_value i k⟩
    | none =>
      refine Or.inr (Or.inr ⟨by simp [Unhashable],fun k h => ?_,_,by rw [readKind,hk]⟩)
      rw [PyVal.str.inj h,Kind.ofValue_value] at hk
      cases hk
  | list xs => exact Or.inr (Or.inl ⟨Or.inl ⟨xs,rfl⟩,rfl⟩)
  | dict kvs => exact Or.inr (Or.inl ⟨Or.inr ⟨kvs,rfl⟩,rfl⟩)
  | _ => exact Or.inr (Or.inr ⟨by simp [Unhashable],by simp,_,rfl⟩)

namespace ExtractionUnit

/-- The checks before the kind's pass and it is unhashable, or those before the bbox's pass and
it is too large. -/
def Escapes (id kind text order page bbox : PyVal) : Prop :=
  (∃ i ≠ [], id = .str i) ∧ (Unhashable kind ∨
    (∃ k : Kind, kind = .str k.value) ∧ (∃ t ≠ [], text = .str t) ∧ (∃ n : ℕ, order = .int n) ∧
      (readNat page).isSome ∧ TooLarge bbox)

/-- The parts of a unit are what the constructor was given. -/
structure MadeOf (u : ExtractionUnit) (id kind text order page bbox level parent attributes : PyVal) :
    Prop where
  id : id = .str u.id
  kind : kind = .str u.kind.value
  text : text = .str u.text
  order : order = .int u.order
  page : page = natPy u.page
  bbox : readBbox u.id bbox = .ok u.bbox
  level : level = natPy u.level
  parent : parent = u.parent
  attributes : attributes = .dict u.attributes

/-- The checks from the level on. -/
lemma make_rest {i t : PyStr} {k : Kind} {n : ℕ} {b : Option Bbox} {pg : Option ℕ} (hi : i ≠ [])
    (ht : t ≠ []) (hp : readNat page = some pg) (hb : readBbox i bbox = .ok b) :
    (∃ u, make (.str i) (.str k.value) (.str t) (.int n) anchor page bbox level parent attributes = .ok u ∧
        u.anchor = anchor ∧ u.MadeOf (.str i) (.str k.value) (.str t) (.int n) page bbox level parent
          attributes) ∨
      ∃ p, make (.str i) (.str k.value) (.str t) (.int n) anchor page bbox level parent attributes =
        formatError p := by
  generalize hm : make (.str i) (.str k.value) (.str t) (.int n) anchor page bbox level parent attributes = m
  simp only [make,dif_neg hi,dif_neg ht,readKind_value,hp,hb,bind,Except.bind] at hm
  cases hl : readNat level with
  | none =>
    rw [hl] at hm
    exact Or.inr ⟨_,hm.symm⟩
  | some l =>
    simp only [hl] at hm
    cases attributes with
    | dict kvs =>
      simp only at hm
      split at hm
      · exact Or.inr ⟨_,hm.symm⟩
      · exact Or.inl ⟨_,hm.symm,rfl,rfl,rfl,rfl,rfl,readNat_ok hp,hb,readNat_ok hl,rfl,rfl⟩
    | _ => exact Or.inr ⟨_,hm.symm⟩

/-- The checks between the kind's and the bbox's. -/
def Scalars (text order page : PyVal) : Prop :=
  (∃ t ≠ [], text = .str t) ∧ (∃ n : ℕ, order = .int n) ∧ (readNat page).isSome

lemma make_scalars {i : PyStr} {k : Kind} (hi : i ≠ []) (h : ¬Scalars text order page) :
    ∃ p, make (.str i) (.str k.value) text order anchor page bbox level parent attributes =
      formatError p := by
  cases text with
  | str t =>
    by_cases ht : t = []
    · refine ⟨.unit i (lit "text"),?_⟩
      simp only [make,dif_neg hi,dif_pos ht,readKind_value]
      rfl
    cases order with
    | int z =>
      cases z with
      | ofNat n =>
        cases hp : readNat page with
        | none =>
          refine ⟨.unit i (lit "page"),?_⟩
          simp only [make,dif_neg hi,dif_neg ht,readKind_value,hp]
          rfl
        | some pg => exact absurd ⟨⟨t,ht,rfl⟩,⟨n,rfl⟩,by rw [hp]; rfl⟩ h
      | negSucc n =>
        refine ⟨.unit i (lit "order"),?_⟩
        simp only [make,dif_neg hi,dif_neg ht,readKind_value]
        rfl
    | _ =>
      refine ⟨.unit i (lit "order"),?_⟩
      simp only [make,dif_neg hi,dif_neg ht,readKind_value]
      rfl
  | _ =>
    refine ⟨.unit i (lit "text"),?_⟩
    simp only [make,dif_neg hi,readKind_value]
    rfl

lemma make_bbox_error {i t : PyStr} {k : Kind} {n : ℕ} {pg : Option ℕ} {e : Exc} (hi : i ≠ [])
    (ht : t ≠ []) (hp : readNat page = some pg) (hb : readBbox i bbox = .error e) :
    make (.str i) (.str k.value) (.str t) (.int n) anchor page bbox level parent attributes = .error e := by
  simp only [make,dif_neg hi,dif_neg ht,readKind_value,hp,hb]
  rfl

/-- A unit is made, or the constructor's own error is raised, or another one. -/
lemma make_cases (id kind text order page bbox level parent attributes : PyVal)
    (anchor : Extraction.Anchor) :
    (¬Escapes id kind text order page bbox ∧
      ∃ u, make id kind text order anchor page bbox level parent attributes = .ok u ∧
        u.anchor = anchor ∧ u.MadeOf id kind text order page bbox level parent attributes) ∨
      (¬Escapes id kind text order page bbox ∧
        ∃ p, make id kind text order anchor page bbox level parent attributes = formatError p) ∨
      (Escapes id kind text order page bbox ∧ ∃ e,
        make id kind text order anchor page bbox level parent attributes = .error e ∧
          (e = .typeError ∨ e = .overflowError)) := by
  cases id with
  | str i =>
    by_cases hi : i = []
    · refine Or.inr (Or.inl ⟨?_,.unitId,by simp only [make,dif_pos hi]⟩)
      rintro ⟨⟨j,hj,he⟩,-⟩
      exact hj ((PyVal.str.inj he).symm.trans hi)
    have hid : ∃ j ≠ [], PyVal.str i = .str j := ⟨i,hi,rfl⟩
    rcases readKind_cases i kind with ⟨k,rfl,hk⟩ | ⟨hu,hk⟩ | ⟨hu,hne,p,hk⟩
    · have hhash : ¬Unhashable (.str k.value) := by simp [Unhashable]
      by_cases hs : Scalars text order page
      · obtain ⟨⟨t,ht,rfl⟩,⟨n,rfl⟩,hp⟩ := hs
        obtain ⟨pg,hpg⟩ := Option.isSome_iff_exists.mp hp
        rcases readBbox_cases i bbox with ⟨b,hl,hb⟩ | ⟨hl,hb⟩ | ⟨hl,p,hb⟩
        · have hno : ¬Escapes (.str i) (.str k.value) (.str t) (.int n) page bbox :=
            fun h => h.2.elim hhash fun h => hl h.2.2.2.2
          exact (make_rest hi ht hpg hb).imp (And.intro hno) fun h => Or.inl ⟨hno,h⟩
        · exact Or.inr (Or.inr ⟨⟨hid,Or.inr ⟨⟨k,rfl⟩,⟨t,ht,rfl⟩,⟨n,rfl⟩,hp,hl⟩⟩,_,
            make_bbox_error hi ht hpg hb,Or.inr rfl⟩)
        · refine Or.inr (Or.inl ⟨?_,p,make_bbox_error hi ht hpg hb⟩)
          exact fun h => h.2.elim hhash fun h => hl h.2.2.2.2
      · refine Or.inr (Or.inl ⟨?_,make_scalars hi hs⟩)
        exact fun h => h.2.elim hhash fun h => hs ⟨h.2.1,h.2.2.1,h.2.2.2.1⟩
    · refine Or.inr (Or.inr ⟨⟨hid,Or.inl hu⟩,_,?_,Or.inl rfl⟩)
      simp only [make,dif_neg hi,hk]
      rfl
    · refine Or.inr (Or.inl ⟨?_,p,?_⟩)
      · exact fun h => h.2.elim hu fun h => h.1.elim hne
      · simp only [make,dif_neg hi,hk]
        rfl
  | _ =>
    refine Or.inr (Or.inl ⟨?_,.unitId,rfl⟩)
    rintro ⟨⟨j,-,he⟩,-⟩
    cases he

end ExtractionUnit

end Units

section Objects

variable {kvs : List (PyKey × PyVal)} {v : PyVal} {e : Exc} {u : ExtractionUnit} {x : Extraction}

lemma hasFields_keys {fs : List PyStr} (h : hasFields kvs fs = true) :
    ∀ p ∈ kvs, ∃ f ∈ fs, p.1 = .str f := by
  intro p hp
  rw [hasFields,Bool.and_eq_true,List.all_eq_true] at h
  obtain ⟨f,hf,he⟩ := List.mem_map.mp (of_decide_eq_true (h.1 p hp))
  exact ⟨f,hf,he.symm⟩

/-- The fields of the object an anchor is read from. -/
structure Extraction.Anchor.Object (a : Extraction.Anchor) (kvs : List (PyKey × PyVal)) : Prop where
  keys : ∀ p ∈ kvs, ∃ f ∈ [lit "artifact",lit "digest",lit "range",lit "pointer",lit "render"],
    p.1 = .str f
  artifact : getItem kvs (lit "artifact") = .str a.artifact
  digest : getItem kvs (lit "digest") = .str a.digest
  place : match a.place with
    | .range start stop => getItem kvs (lit "range") = .list [.int start,.int stop] ∧
        getItem kvs (lit "pointer") = .none ∧ getItem kvs (lit "render") = .none
    | .pointer p r => getItem kvs (lit "range") = .none ∧ getItem kvs (lit "pointer") = .str p ∧
        getItem kvs (lit "render") = .str r

lemma Extraction.Anchor.fromJson_ok {a : Extraction.Anchor} (h : fromJson v = .ok a) :
    ∃ kvs, v = .dict kvs ∧ a.Object kvs := by
  cases v with
  | dict kvs =>
    refine ⟨kvs,rfl,?_⟩
    simp only [fromJson] at h
    split_ifs at h with hk
    · cases h
    rw [Bool.not_eq_false,List.all_eq_true] at hk
    have hkeys : ∀ p ∈ kvs, ∃ f ∈ [lit "artifact",lit "digest",lit "range",lit "pointer",lit "render"],
        p.1 = .str f := by
      intro p hp
      obtain ⟨f,hf,he⟩ := List.mem_map.mp (of_decide_eq_true (hk p hp))
      exact ⟨f,hf,he.symm⟩
    split at h
    · rename_i hr
      split at h
      · cases h
      rename_i hmake
      replace hmake := hmake.trans (congrArg Except.ok (Except.ok.inj h))
      obtain ⟨ha,hd,hp⟩ := make_ok hmake
      refine ⟨hkeys,ha,hd,?_⟩
      cases hpl : a.place with
      | range start stop => simp [hpl,Place.toArgs] at hp
      | pointer p r =>
        rw [hpl] at hp
        obtain ⟨-,hp⟩ := Prod.mk.inj hp
        exact ⟨hr,Prod.mk.inj hp⟩
    · rename_i b c hr
      split at h
      · cases h
      rename_i hmake
      replace hmake := hmake.trans (congrArg Except.ok (Except.ok.inj h))
      obtain ⟨ha,hd,hp⟩ := make_ok hmake
      refine ⟨hkeys,ha,hd,?_⟩
      cases hpl : a.place with
      | range start stop =>
        rw [hpl] at hp
        obtain ⟨hbc,hrest⟩ := Prod.mk.inj hp
        obtain ⟨rfl,rfl⟩ := Prod.mk.inj (Option.some.inj hbc)
        exact ⟨hr,Prod.mk.inj hrest⟩
      | pointer p r => simp [hpl,Place.toArgs] at hp
    · cases h
  | _ => cases h

/-- An anchor is read, or the contract's own error is raised. -/
lemma Extraction.Anchor.fromJson_error (h : Extraction.Anchor.fromJson v = .error e) :
    ∃ p, e = .extractionFormat p := by
  cases v with
  | dict kvs =>
    simp only [Extraction.Anchor.fromJson] at h
    split_ifs at h
    · exact ⟨_,(Except.error.inj h).symm⟩
    · split at h
      · split at h
        · exact ⟨_,(Except.error.inj h).symm⟩
        · cases h
      · split at h
        · exact ⟨_,(Except.error.inj h).symm⟩
        · cases h
      · exact ⟨_,(Except.error.inj h).symm⟩
  | _ => exact ⟨_,(Except.error.inj h).symm⟩

namespace ExtractionUnit

/-- The fields of the object a unit is read from. -/
structure Object (u : ExtractionUnit) (kvs : List (PyKey × PyVal)) : Prop where
  keys : ∀ p ∈ kvs, ∃ f ∈ fields, p.1 = .str f
  anchor : Extraction.Anchor.fromJson (getItem kvs (lit "anchor")) = .ok u.anchor
  made : u.MadeOf (getItem kvs (lit "id")) (getItem kvs (lit "kind")) (getItem kvs (lit "text"))
    (getItem kvs (lit "order")) (getItem kvs (lit "page")) (getItem kvs (lit "bbox"))
    (getItem kvs (lit "level")) (getItem kvs (lit "parent")) (getItem kvs (lit "attributes"))

/-- The unit's fields and its anchor pass, and then its kind is unhashable or its bbox too large. -/
def Odd (w : PyVal) : Prop :=
  ∃ kvs a, w = .dict kvs ∧ hasFields kvs fields = true ∧
    Extraction.Anchor.fromJson (getItem kvs (lit "anchor")) = .ok a ∧
    Escapes (getItem kvs (lit "id")) (getItem kvs (lit "kind")) (getItem kvs (lit "text"))
      (getItem kvs (lit "order")) (getItem kvs (lit "page")) (getItem kvs (lit "bbox"))

lemma odd_escapes (h : ¬Escapes (getItem kvs (lit "id")) (getItem kvs (lit "kind"))
    (getItem kvs (lit "text")) (getItem kvs (lit "order")) (getItem kvs (lit "page"))
    (getItem kvs (lit "bbox"))) : ¬Odd (.dict kvs) := by
  rintro ⟨_,a,hw,-,-,he⟩
  obtain rfl := PyVal.dict.inj hw
  exact h he

/-- A unit is read, or the contract's own error is raised, or the unit is odd. -/
lemma fromJson_cases (w : PyVal) :
    (¬Odd w ∧ ∃ kvs u, w = .dict kvs ∧ fromJson w = .ok u ∧ u.Object kvs) ∨
    (¬Odd w ∧ ∃ p, fromJson w = formatError p) ∨
    (Odd w ∧ ∃ e, fromJson w = .error e ∧ (e = .typeError ∨ e = .overflowError)) := by
  cases w with
  | dict kvs =>
    by_cases hf : hasFields kvs fields = true
    · cases ha : Extraction.Anchor.fromJson (getItem kvs (lit "anchor")) with
      | error e =>
        obtain ⟨p,rfl⟩ := Extraction.Anchor.fromJson_error ha
        refine Or.inr (Or.inl ⟨?_,p,?_⟩)
        · rintro ⟨_,a,hw,-,h,-⟩
          obtain rfl := PyVal.dict.inj hw
          rw [ha] at h
          cases h
        · rw [fromJson,if_neg (by simp [hf]),ha]
          rfl
      | ok a =>
        have hstep : ∀ {r}, make (getItem kvs (lit "id")) (getItem kvs (lit "kind"))
            (getItem kvs (lit "text")) (getItem kvs (lit "order")) a (getItem kvs (lit "page"))
            (getItem kvs (lit "bbox")) (getItem kvs (lit "level")) (getItem kvs (lit "parent"))
            (getItem kvs (lit "attributes")) = r → fromJson (.dict kvs) = r := by
          rintro r rfl
          rw [fromJson,if_neg (by simp [hf]),ha]
          rfl
        rcases make_cases (getItem kvs (lit "id")) (getItem kvs (lit "kind"))
          (getItem kvs (lit "text")) (getItem kvs (lit "order")) (getItem kvs (lit "page"))
          (getItem kvs (lit "bbox")) (getItem kvs (lit "level")) (getItem kvs (lit "parent"))
          (getItem kvs (lit "attributes")) a with ⟨hn,u,hu,hua,hm⟩ | ⟨hn,p,hp⟩ | ⟨ho,e,he,hor⟩
        · exact Or.inl ⟨odd_escapes hn,kvs,u,rfl,hstep hu,hasFields_keys hf,hua ▸ ha,hm⟩
        · exact Or.inr (Or.inl ⟨odd_escapes hn,p,hstep hp⟩)
        · exact Or.inr (Or.inr ⟨⟨kvs,a,rfl,hf,ha,ho⟩,e,hstep he,hor⟩)
    · refine Or.inr (Or.inl ⟨?_,_,by rw [fromJson,if_pos (by simpa using hf)]⟩)
      rintro ⟨_,a,hw,h,-⟩
      obtain rfl := PyVal.dict.inj hw
      exact hf h
  | _ =>
    refine Or.inr (Or.inl ⟨?_,_,rfl⟩)
    rintro ⟨_,a,hw,-⟩
    cases hw

lemma fromJson_object {w : PyVal} (h : fromJson w = .ok u) : ∃ kvs, w = .dict kvs ∧ u.Object kvs := by
  rcases fromJson_cases w with ⟨-,kvs,v,hw,hv,ho⟩ | ⟨-,p,hp⟩ | ⟨-,e,he,-⟩
  · obtain rfl := Except.ok.inj (hv.symm.trans h)
    exact ⟨kvs,hw,ho⟩
  · rw [h] at hp
    cases hp
  · rw [h] at he
    cases he

end ExtractionUnit

lemma NameVersion.read_ok {n : NameVersion} (h : NameVersion.read v = some n) :
    ∃ kvs, v = .dict kvs ∧ (∀ p ∈ kvs, ∃ f ∈ [lit "name",lit "version"], p.1 = .str f) ∧
      getItem kvs (lit "name") = .str n.name ∧ getItem kvs (lit "version") = .str n.version := by
  unfold NameVersion.read at h
  split at h
  · rename_i kvs
    split_ifs at h with hf
    split at h
    · rename_i hname hversion
      obtain rfl := Option.some.inj h
      exact ⟨kvs,rfl,hasFields_keys hf,hname,hversion⟩
    · cases h
  · cases h

namespace Extraction

lemma optionStr_ok {s : Option PyStr} (h : optionStr v = some s) : v = RunConditions.optionPy .str s := by
  unfold optionStr at h
  split at h
  · obtain rfl := Option.some.inj h
    rfl
  · obtain rfl := Option.some.inj h
    rfl
  · cases h

/-- The parts of an extraction are what the constructor was given, or it raises its own error. -/
lemma make_cases (recordId artifactHash sourceHash parser normalizer : PyVal)
    (units : List ExtractionUnit) :
    (∃ e, make recordId artifactHash sourceHash parser normalizer units = .ok e ∧
      recordId = .str e.recordId ∧ artifactHash = .str e.artifactHash ∧
      sourceHash = RunConditions.optionPy .str e.sourceHash ∧ NameVersion.read parser = some e.parser ∧
      NameVersion.read normalizer = some e.normalizer ∧ e.units = units) ∨
    ∃ p, make recordId artifactHash sourceHash parser normalizer units = formatError p := by
  unfold make
  split
  · split
    · exact Or.inr ⟨_,rfl⟩
    · split
      · split
        · split
          · exact Or.inr ⟨_,rfl⟩
          · rename_i s hs
            split
            · split
              · exact Or.inr ⟨_,rfl⟩
              · rename_i p hp
                split
                · exact Or.inr ⟨_,rfl⟩
                · rename_i n hn
                  split_ifs
                  · exact Or.inl ⟨_,rfl,rfl,rfl,optionStr_ok hs,hp,hn,rfl⟩
                  · split
                    · exact Or.inr ⟨_,rfl⟩
                    · exact Or.inr ⟨_,rfl⟩
                  · exact Or.inr ⟨_,rfl⟩
                  · exact Or.inr ⟨_,rfl⟩
            · exact Or.inr ⟨_,rfl⟩
        · exact Or.inr ⟨_,rfl⟩
      · exact Or.inr ⟨_,rfl⟩
  · exact Or.inr ⟨_,rfl⟩

/-- The fields of the object an extraction is read from. -/
structure Object (e : Extraction) (kvs : List (PyKey × PyVal)) : Prop where
  fields : hasFields kvs Extraction.fields = true
  schema : (getItem kvs (lit "schema")).pyEq schemaName = true
  version : (getItem kvs (lit "schema_version")).pyEq schemaVersion = true
  recordId : getItem kvs (lit "record_id") = .str e.recordId
  artifactHash : getItem kvs (lit "artifact_hash") = .str e.artifactHash
  sourceHash : getItem kvs (lit "source_hash") = RunConditions.optionPy .str e.sourceHash
  parser : NameVersion.read (getItem kvs (lit "parser")) = some e.parser
  normalizer : NameVersion.read (getItem kvs (lit "normalizer")) = some e.normalizer
  units : ∃ us, getItem kvs (lit "units") = .list us ∧
    List.Forall₂ (fun w u => ExtractionUnit.fromJson w = .ok u) us e.units

/-- The first unit of the object that is refused is an odd one. -/
def OddUnit (kvs : List (PyKey × PyVal)) : Prop :=
  hasFields kvs fields = true ∧ (getItem kvs (lit "schema")).pyEq schemaName = true ∧
    (getItem kvs (lit "schema_version")).pyEq schemaVersion = true ∧
    ∃ pre w post, getItem kvs (lit "units") = .list (pre++w :: post) ∧
      (∀ y ∈ pre, ∃ u, ExtractionUnit.fromJson y = .ok u) ∧ ExtractionUnit.Odd w

lemma ofObject_units {us : List PyVal} (hf : hasFields kvs fields = true)
    (hs : (getItem kvs (lit "schema")).pyEq schemaName = true)
    (hv : (getItem kvs (lit "schema_version")).pyEq schemaVersion = true)
    (hu : getItem kvs (lit "units") = .list us) : ofObject kvs = (do
      let units ← us.mapM ExtractionUnit.fromJson
      make (getItem kvs (lit "record_id")) (getItem kvs (lit "artifact_hash"))
        (getItem kvs (lit "source_hash")) (getItem kvs (lit "parser"))
        (getItem kvs (lit "normalizer")) units) := by
  rw [ofObject,if_neg (by simp [hf]),if_neg (by simp [hs,hv]),hu]

lemma OddUnit.error (h : OddUnit kvs) :
    ∃ e, ofObject kvs = .error e ∧ (e = .typeError ∨ e = .overflowError) := by
  obtain ⟨hf,hs,hv,pre,w,post,hu,hpre,hw⟩ := h
  rcases ExtractionUnit.fromJson_cases w with ⟨hn,-⟩ | ⟨hn,-⟩ | ⟨-,e,he,hor⟩
  · exact absurd hw hn
  · exact absurd hw hn
  · refine ⟨e,?_,hor⟩
    rw [ofObject_units hf hs hv hu,mapM_error.mpr ⟨pre,w,post,rfl,hpre,he⟩]
    rfl

/-- Unless a unit is odd, an extraction is read or the contract's own error is raised. -/
lemma ofObject_cases (h : ¬OddUnit kvs) : (∃ e, ofObject kvs = .ok e ∧ e.Object kvs) ∨
    ∃ p, ofObject kvs = formatError p := by
  by_cases hf : hasFields kvs fields = true
  swap
  · exact Or.inr ⟨_,by rw [ofObject,if_pos (by simpa using hf)]⟩
  by_cases hs : (getItem kvs (lit "schema")).pyEq schemaName = true ∧
      (getItem kvs (lit "schema_version")).pyEq schemaVersion = true
  swap
  · refine Or.inr ⟨.schema,?_⟩
    rw [ofObject,if_neg (by simp [hf]),if_pos]
    rw [← Bool.not_eq_true,← Bool.not_eq_true]
    exact not_and_or.mp hs
  cases hu : getItem kvs (lit "units") with
  | list us =>
    rw [ofObject_units hf hs.1 hs.2 hu]
    cases hm : us.mapM ExtractionUnit.fromJson with
    | error e =>
      obtain ⟨pre,w,post,rfl,hpre,hw⟩ := mapM_error.mp hm
      rcases ExtractionUnit.fromJson_cases w with ⟨-,_,u,-,hu',-⟩ | ⟨-,p,hp⟩ | ⟨ho,-⟩
      · rw [hw] at hu'
        cases hu'
      · obtain rfl := Except.error.inj (hw.symm.trans hp)
        exact Or.inr ⟨p,rfl⟩
      · exact absurd ⟨hf,hs.1,hs.2,pre,w,post,hu,hpre,ho⟩ h
    | ok vs =>
      refine (make_cases (getItem kvs (lit "record_id")) (getItem kvs (lit "artifact_hash"))
        (getItem kvs (lit "source_hash")) (getItem kvs (lit "parser"))
        (getItem kvs (lit "normalizer")) vs).imp_left ?_
      rintro ⟨e,he,hr,ha,hsh,hp,hn,rfl⟩
      exact ⟨e,he,hf,hs.1,hs.2,hr,ha,hsh,hp,hn,us,hu,mapM_ok.mp hm⟩
  | _ =>
    refine Or.inr ⟨.unitsList,?_⟩
    rw [ofObject,if_neg (by simp [hf]),if_neg (by simp [hs]),hu]

end Extraction

end Objects

end Stele
