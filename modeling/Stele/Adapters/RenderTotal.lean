import Stele.Adapters.Message
import Stele.Archive.Clean
import Stele.Python.JsonEqual

/-! Which messages _render cannot render: a code content whose text is no string, thoughts that
cannot be iterated over, and a value that is written with str() and nested too deep for it. -/
namespace Stele
open Python

variable {U : Unicode} {deep : PyVal → Bool} {v : PyVal} {kvs content message part : List (PyKey × PyVal)}

/-- repr writes the value: no int in it has too many digits. -/
def Shown (U : Unicode) (v : PyVal) : Prop := ∃ t, Python.repr U v = .ok t

section Shown

lemma Shown.str (h : Shown U v) : ∃ t, strOf U v = .ok t := by
  obtain ⟨t,ht⟩ := h
  cases v with
  | str s => exact ⟨s,rfl⟩
  | _ =>
    refine ⟨t,?_⟩
    rw [strOf,Python.str,ht]
    intro _ h
    cases h

lemma reprList_ok {xs : List PyVal} : (∃ ts, reprList U xs = .ok ts) ↔ ∀ x ∈ xs, Shown U x := by
  induction xs with
  | nil => simp [reprList]
  | cons x xs ih =>
    rw [List.forall_mem_cons,← ih,reprList]
    simp only [except_bind_ok]
    constructor
    · rintro ⟨ts,t,ht,ts',hts,-⟩
      exact ⟨⟨t,ht⟩,ts',hts⟩
    · rintro ⟨⟨t,ht⟩,ts,hts⟩
      exact ⟨t :: ts,t,ht,ts,hts,rfl⟩

lemma shown_list {xs : List PyVal} : Shown U (.list xs) ↔ ∀ x ∈ xs, Shown U x := by
  rw [← reprList_ok,Shown,Python.repr]
  simp only [except_bind_ok]
  exact ⟨fun ⟨_,ts,hts,_⟩ => ⟨ts,hts⟩,fun ⟨ts,hts⟩ => ⟨_,ts,hts,rfl⟩⟩

lemma Shown.item (h : Shown U (.dict kvs)) {p : PyKey × PyVal} (hp : p ∈ kvs) : Shown U p.2 := by
  have hitems : ∃ ts, reprItems U kvs = .ok ts := by
    obtain ⟨t,ht⟩ := h
    rw [Python.repr] at ht
    obtain ⟨ts,hts,-⟩ := except_bind_ok.mp ht
    exact ⟨ts,hts⟩
  clear h
  induction kvs with
  | nil => cases hp
  | cons q kvs ih =>
    obtain ⟨k,v⟩ := q
    obtain ⟨ts,hts⟩ := hitems
    rw [reprItems] at hts
    obtain ⟨s,-,hts⟩ := except_bind_ok.mp hts
    obtain ⟨t,ht,hts⟩ := except_bind_ok.mp hts
    obtain ⟨ts',hts',-⟩ := except_bind_ok.mp hts
    rcases List.mem_cons.mp hp with rfl | hp
    · exact ⟨t,ht⟩
    · exact ih hp ⟨ts',hts'⟩

lemma shown_dict (hs : StrDict kvs) (h : ∀ p ∈ kvs, Shown U p.2) : Shown U (.dict kvs) := by
  have hitems : ∃ ts, reprItems U kvs = .ok ts := by
    have hkeys := hs.keys
    clear hs
    induction kvs with
    | nil => exact ⟨[],rfl⟩
    | cons p kvs ih =>
      obtain ⟨k,v⟩ := p
      obtain ⟨⟨s,hk⟩,hks⟩ := List.forall_mem_cons.mp hkeys
      obtain ⟨⟨t,ht⟩,hts⟩ := List.forall_mem_cons.mp h
      obtain ⟨ts,hts⟩ := ih hts hks
      dsimp only at hk ht
      subst hk
      exact ⟨_,except_bind_ok.mpr ⟨_,rfl,except_bind_ok.mpr ⟨t,ht,except_bind_ok.mpr ⟨ts,hts,rfl⟩⟩⟩⟩
  obtain ⟨ts,hts⟩ := hitems
  exact ⟨_,except_bind_ok.mpr ⟨ts,hts,rfl⟩⟩

lemma Shown.getItem (h : Shown U (.dict kvs)) (k : PyStr) : Shown U (Python.getItem kvs k) := by
  rw [Python.getItem,PyVal.find]
  cases hf : kvs.find? _ with
  | none => exact ⟨_,rfl⟩
  | some p => exact h.item (List.mem_of_find?_eq_some hf)

lemma Shown.orElse {w : PyVal} (hv : Shown U v) (hw : Shown U w) : Shown U (Python.orElse v w) := by
  unfold Python.orElse
  split_ifs
  · exact hv
  · exact hw

lemma shown_str (s : PyStr) : Shown U (.str s) := ⟨_,rfl⟩

/-- What json.loads returns can be written: its ints have no more digits than their tokens. -/
lemma shown_scalar {s r : PyStr} (h : scanScalar s = some (v,r)) : Shown U v := by
  cases v with
  | int i =>
    have hc : Clean (.int i) := by simp [Clean]
    obtain ⟨t,ht,-⟩ := writable_iff.mp (scanScalar_writable h hc)
    exact ⟨t,ht⟩
  | none | bool b | float f | str s => exact ⟨_,rfl⟩
  | _ =>
    -- a scalar is a constant or a number
    unfold scanScalar at h
    split at h
    · rename_i p hp
      obtain rfl := Option.some.inj h
      obtain ⟨c,hm,hc⟩ := List.exists_of_findSome?_eq_some hp
      obtain ⟨q,-,hq⟩ := Option.map_eq_some_iff.mp hc
      obtain ⟨hv,-⟩ := Prod.mk.inj hq
      simp only [constants,List.mem_cons,List.not_mem_nil,or_false] at hm
      rcases hm with rfl | rfl | rfl | rfl | rfl | rfl <;> cases hv
    · split at h
      · cases h
      · obtain ⟨w,hw,he⟩ := Option.map_eq_some_iff.mp h
        obtain ⟨rfl,-⟩ := Prod.mk.inj he
        unfold NumToken.value at hw
        split_ifs at hw <;> cases hw

theorem loads_shown {s : PyStr} (h : loads s = some v) : Shown U v :=
  loads_ind shown_str (fun _ _ _ => shown_scalar) (fun _ ih => shown_list.mpr ih)
    (fun _ hs ih => shown_dict hs ih) h

end Shown

section Shows

variable {α β : Type} {vs ws : List PyVal} {P : α → Prop} {Q : β → Prop} {x : Except Exc α}

/-- What is computed with str() of these values: a result with P, or RecursionError if one of them
is nested too deep. -/
def Shows (deep : PyVal → Bool) (vs : List PyVal) (P : α → Prop) (x : Except Exc α) : Prop :=
  (∀ v ∈ vs, deep v = false) ∧ (∃ a, x = .ok a ∧ P a) ∨ (∃ v ∈ vs, deep v = true) ∧ x = .error .recursionError

lemma shows_ok {a : α} (h : P a) : Shows deep [] P (.ok a) := .inl ⟨List.forall_mem_nil _,a,rfl,h⟩

lemma Shows.bind {f : α → Except Exc β} (hx : Shows deep vs P x) (hf : ∀ a, P a → Shows deep ws Q (f a)) :
    Shows deep (vs++ws) Q (x >>= f) := by
  rcases hx with ⟨hvs,a,rfl,ha⟩ | ⟨⟨v,hv,hd⟩,rfl⟩
  · rcases hf a ha with ⟨hws,b,hb,hq⟩ | ⟨⟨w,hw,hd⟩,he⟩
    · exact .inl ⟨List.forall_mem_append.mpr ⟨hvs,hws⟩,b,hb,hq⟩
    · exact .inr ⟨⟨w,List.mem_append_right _ hw,hd⟩,he⟩
  · exact .inr ⟨⟨v,List.mem_append_left _ hv,hd⟩,rfl⟩

/-- A result that is only wrapped. -/
lemma Shows.map {f : α → β} (hx : Shows deep vs P x) (hf : ∀ a, P a → Q (f a)) :
    Shows deep vs Q (x >>= fun a => pure (f a)) := by
  have h := hx.bind (f := fun a => pure (f a)) fun a ha => shows_ok (hf a ha)
  rwa [List.append_nil] at h

end Shows

section Render

/-- The values of a part that _render writes with str(). -/
def partShown : PyVal → List PyVal
  | .dict part =>
    match getItem part (lit "text") with
    | .str (_ :: _) => []
    | _ =>
      let pointer := orElse (getItem part (lit "asset_pointer"))
        (orElse (getItem part (lit "name")) (.str []))
      orElse (getItem part (lit "content_type")) (.str (lit "attachment")) ::
        if truthy pointer then [pointer] else []
  | _ => []

def trueValues (d : List (PyKey × PyVal)) (keys : List PyStr) : List PyVal :=
  (keys.filter fun k => truthy (getItem d k)).map (getItem d)

def thoughtShown : PyVal → List PyVal
  | .dict thought => trueValues thought [lit "summary",lit "content"]
  | _ => []

/-- The values of a list, and nothing of anything else. -/
def elements : PyVal → List PyVal
  | .list xs => xs
  | _ => []

/-- The values of a content that _render writes with str(). -/
def shownValues (content : List (PyKey × PyVal)) : List PyVal :=
  let kind := getItem content (lit "content_type")
  match getItem content (lit "parts") with
  | .list parts => parts.flatMap partShown
  | _ =>
    if kind.pyEq (.str (lit "user_editable_context")) then
      trueValues content [lit "user_profile",lit "user_instructions"]
    else if kind.pyEq (.str (lit "thoughts")) then
      (elements (getItem content (lit "thoughts"))).flatMap thoughtShown
    else []

/-- A content that _render fails on: the text of a code content is true and no string, the
thoughts are true and nothing that can be iterated over, or str() does not get to the end of a
value. -/
inductive Unrenderable (deep : PyVal → Bool) (content : List (PyKey × PyVal)) : Prop
  | code (parts : ∀ xs, getItem content (lit "parts") ≠ .list xs)
      (kind : getItem content (lit "content_type") = .str (lit "code"))
      (text : truthy (getItem content (lit "text")) = true)
      (string : ∀ s, getItem content (lit "text") ≠ .str s)
  | thoughts (parts : ∀ xs, getItem content (lit "parts") ≠ .list xs)
      (kind : getItem content (lit "content_type") = .str (lit "thoughts"))
      (thoughts : truthy (getItem content (lit "thoughts")) = true)
      (list : ∀ xs, getItem content (lit "thoughts") ≠ .list xs)
      (dict : ∀ kvs, getItem content (lit "thoughts") ≠ .dict kvs)
      (string : ∀ s, getItem content (lit "thoughts") ≠ .str s)
  | deep {v : PyVal} (shown : v ∈ shownValues content) (nested : deep v = true)

/-- A message that _render fails on. -/
def UnrenderableMessage (deep : PyVal → Bool) (message : List (PyKey × PyVal)) : Prop :=
  ∃ content, getItem message (lit "content") = .dict content ∧ Unrenderable deep content

end Render

end Stele
