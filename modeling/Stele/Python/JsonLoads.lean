import Stele.Python.JsonBytes

/-! What json.loads returns: no tuples and no bytes, and dicts whose keys are strings, no key
twice. Such a value is a JSON value as soon as it can be written without NaN and infinities. -/
namespace Python

open PyVal

namespace PyVal

mutual
/-- A value that json.loads can return; its floats may be NaN or infinite. -/
def Loaded : PyVal → Prop
  | .none | .bool _ | .int _ | .float _ | .str _ => True
  | .list xs => LoadedList xs
  | .dict kvs => (kvs.map Prod.fst).Nodup ∧ LoadedItems kvs
  | .bytes _ | .tuple _ | .object _ => False
def LoadedList : List PyVal → Prop
  | [] => True
  | x :: xs => Loaded x ∧ LoadedList xs
def LoadedItems : List (PyKey × PyVal) → Prop
  | [] => True
  | (k,v) :: kvs => (∃ s, k = .str s) ∧ Loaded v ∧ LoadedItems kvs
end

lemma loadedList_iff {xs : List PyVal} : LoadedList xs ↔ ∀ x ∈ xs, x.Loaded := by
  induction xs with
  | nil => simp [LoadedList]
  | cons x xs ih => simp [LoadedList,ih]

lemma loadedItems_iff {kvs : List (PyKey × PyVal)} :
    LoadedItems kvs ↔ ∀ p ∈ kvs, (∃ s, p.1 = .str s) ∧ p.2.Loaded := by
  induction kvs with
  | nil => simp [LoadedItems]
  | cons p kvs ih =>
    obtain ⟨k,v⟩ := p
    simp [LoadedItems,ih,and_assoc]

lemma Loaded.strDict {kvs : List (PyKey × PyVal)} (h : (PyVal.dict kvs).Loaded) : StrDict kvs := by
  rw [Loaded,loadedItems_iff] at h
  exact ⟨fun p hp => (h.2 p hp).1,h.1⟩

lemma Loaded.item {kvs : List (PyKey × PyVal)} (h : (PyVal.dict kvs).Loaded) {p : PyKey × PyVal}
    (hp : p ∈ kvs) : p.2.Loaded := by
  rw [Loaded,loadedItems_iff] at h
  exact (h.2 p hp).2

lemma Loaded.elem {xs : List PyVal} (h : (PyVal.list xs).Loaded) {x : PyVal} (hx : x ∈ xs) :
    x.Loaded := by
  rw [Loaded,loadedList_iff] at h
  exact h x hx

/-- d.get(k) of a loaded dict. -/
lemma Loaded.getItem {kvs : List (PyKey × PyVal)} (h : (PyVal.dict kvs).Loaded) (k : PyStr) :
    (((find kvs (.str k)).getD .none : PyVal)).Loaded := by
  cases hf : find kvs (.str k) with
  | none => trivial
  | some v =>
    rw [find,Option.map_eq_some_iff] at hf
    obtain ⟨p,hp,rfl⟩ := hf
    exact h.item (List.mem_of_find?_eq_some hp)

end PyVal

section Loads

variable {v : PyVal} {s r : PyStr}

lemma scanScalar_loaded (h : scanScalar s = some (v,r)) : v.Loaded := by
  have hconst : ∀ c ∈ constants, c.2.Loaded := by
    intro c hc
    simp only [constants,List.mem_cons,List.not_mem_nil,or_false] at hc
    rcases hc with rfl | rfl | rfl | rfl | rfl | rfl <;> trivial
  unfold scanScalar at h
  cases hf : constants.findSome? fun c => (afterPrefix c.1 s).map fun r => (c.2,r) with
  | some p =>
    rw [hf] at h
    obtain ⟨c,hc,hp⟩ := List.exists_of_findSome?_eq_some hf
    obtain ⟨q,-,hq⟩ := Option.map_eq_some_iff.mp hp
    obtain ⟨rfl,-⟩ := Prod.mk.inj (hq.trans (Option.some.inj h))
    exact hconst c hc
  | none =>
    rw [hf] at h
    cases hl : lexNumber s with
    | none => simp [hl] at h
    | some p =>
      obtain ⟨t,q⟩ := p
      simp only [hl,Option.map_eq_some_iff,Prod.mk.injEq] at h
      obtain ⟨w,hw,rfl,-⟩ := h
      unfold NumToken.value at hw
      split_ifs at hw <;> cases hw <;> trivial

section Scan

variable {P : PyVal → Prop}

/-- What the scanners return has a property that strings and scalars have and that lists and
dicts take over from their parts. By induction on the fuel, for the three of them together. -/
lemma scan_ind (str : ∀ s, P (.str s)) (scalar : ∀ s v r, scanScalar s = some (v,r) → P v)
    (list : ∀ xs, (∀ x ∈ xs, P x) → P (.list xs))
    (dict : ∀ kvs, StrDict kvs → (∀ p ∈ kvs, P p.2) → P (.dict kvs)) (n : ℕ) :
    (∀ s v r, scanValue n s = some (v,r) → P v) ∧
    (∀ s xs r, scanElems n s = some (xs,r) → ∀ x ∈ xs, P x) ∧
    (∀ s kvs r, scanMembers n s = some (kvs,r) → ∀ p ∈ kvs, (∃ k, p.1 = .str k) ∧ P p.2) := by
  have object : ∀ items : List (PyKey × PyVal), (∀ p ∈ items, (∃ k, p.1 = .str k) ∧ P p.2) →
      P (.dict (dictOf items)) := by
    intro items h
    obtain ⟨hs,hn⟩ := dictOf_nodup (fun p hp => (h p hp).1 : StrKeys items)
    refine dict _ ⟨hs,hn⟩ fun p hp => ?_
    obtain ⟨q,hq,he⟩ := dictOf_mem hp
    rw [he]
    exact (h q hq).2
  induction n with
  | zero => exact ⟨by simp [scanValue],by simp [scanElems],by simp [scanMembers]⟩
  | succ n ih =>
    obtain ⟨hval,helems,hmembers⟩ := ih
    refine ⟨fun s v r h => ?_,fun s xs r h => ?_,fun s kvs r h => ?_⟩
    · cases s with
      | nil => simp [scanValue] at h
      | cons c s =>
        rw [scanValue] at h
        split_ifs at h
        · obtain ⟨p,-,hp⟩ := Option.map_eq_some_iff.mp h
          obtain ⟨rfl,-⟩ := Prod.mk.inj hp
          exact str p.1
        · cases hs : skipWs s with
          | nil => simp [hs] at h
          | cons d t =>
            simp only [hs] at h
            split_ifs at h
            · obtain ⟨rfl,-⟩ := Prod.mk.inj (Option.some.inj h)
              exact list [] (List.forall_mem_nil _)
            · obtain ⟨p,hp,hv⟩ := Option.map_eq_some_iff.mp h
              obtain ⟨rfl,-⟩ := Prod.mk.inj hv
              exact list _ (helems _ p.1 p.2 hp)
        · cases hs : skipWs s with
          | nil => simp [hs] at h
          | cons d t =>
            simp only [hs] at h
            split_ifs at h
            · obtain ⟨rfl,-⟩ := Prod.mk.inj (Option.some.inj h)
              exact object [] (List.forall_mem_nil _)
            · obtain ⟨p,hp,hv⟩ := Option.map_eq_some_iff.mp h
              obtain ⟨rfl,-⟩ := Prod.mk.inj hv
              exact object _ (hmembers _ p.1 p.2 hp)
        · exact scalar _ _ _ h
    · rw [scanElems] at h
      cases hv : scanValue n s with
      | none => simp [hv] at h
      | some p =>
        obtain ⟨v,q⟩ := p
        simp only [hv] at h
        have hvl := hval s v q hv
        cases hs : skipWs q with
        | nil => simp [hs] at h
        | cons c t =>
          simp only [hs] at h
          split_ifs at h
          · obtain ⟨rfl,-⟩ := Prod.mk.inj (Option.some.inj h)
            simpa using hvl
          · obtain ⟨p,hp,he⟩ := Option.map_eq_some_iff.mp h
            obtain ⟨rfl,-⟩ := Prod.mk.inj he
            exact List.forall_mem_cons.mpr ⟨hvl,helems _ p.1 p.2 hp⟩
    · cases s with
      | nil => simp [scanMembers] at h
      | cons c s =>
        rw [scanMembers] at h
        split_ifs at h
        cases hk : scanString s.length s with
        | none => simp [hk] at h
        | some p =>
          obtain ⟨k,q⟩ := p
          simp only [hk] at h
          cases hc : skipWs q with
          | nil => simp [hc] at h
          | cons d t =>
            simp only [hc] at h
            split_ifs at h
            cases hv : scanValue n (skipWs t) with
            | none => simp [hv] at h
            | some p =>
              obtain ⟨v,u⟩ := p
              simp only [hv] at h
              have hvl := hval _ v u hv
              cases hs : skipWs u with
              | nil => simp [hs] at h
              | cons e w =>
                simp only [hs] at h
                split_ifs at h
                · obtain ⟨rfl,-⟩ := Prod.mk.inj (Option.some.inj h)
                  simpa using hvl
                · obtain ⟨p,hp,he⟩ := Option.map_eq_some_iff.mp h
                  obtain ⟨rfl,-⟩ := Prod.mk.inj he
                  exact List.forall_mem_cons.mpr ⟨⟨⟨k,rfl⟩,hvl⟩,hmembers _ p.1 p.2 hp⟩

/-- What json.loads returns, in the same way. -/
theorem loads_ind (str : ∀ s, P (.str s)) (scalar : ∀ s v r, scanScalar s = some (v,r) → P v)
    (list : ∀ xs, (∀ x ∈ xs, P x) → P (.list xs))
    (dict : ∀ kvs, StrDict kvs → (∀ p ∈ kvs, P p.2) → P (.dict kvs)) (h : loads s = some v) :
    P v := by
  unfold loads at h
  split_ifs at h
  cases hv : scanValue (s.length+1) (skipWs s) with
  | none => simp [hv] at h
  | some p =>
    obtain ⟨w,q⟩ := p
    simp only [hv] at h
    split_ifs at h
    obtain rfl := Option.some.inj h
    exact (scan_ind str scalar list dict _).1 _ w q hv

end Scan

theorem loads_loaded (h : loads s = some v) : v.Loaded := by
  refine loads_ind (fun _ => trivial) (fun _ _ _ => scanScalar_loaded)
    (fun xs hx => loadedList_iff.mpr hx) (fun kvs hs hv => ?_) h
  exact ⟨hs.nodup,loadedItems_iff.mpr fun p hp => ⟨hs.keys p hp,hv p hp⟩⟩

theorem loadsBytes_loaded {b : Bytes} (h : loadsBytes b = some v) : v.Loaded := by
  obtain ⟨s,-,hs⟩ := Option.bind_eq_some_iff.mp h
  exact loads_loaded hs

/-- What was loaded and can be written without NaN and infinities is a JSON value. -/
theorem PyVal.Loaded.isJson {o : DumpOpts} (ho : o.allowNan = false) {v : PyVal} (h : v.Loaded) :
    ∀ {t}, dumps o v = .ok t → v.IsJson := by
  induction v using PyVal.ind with
  | none | bool b | int i | str s => intros; trivial
  | float f => exact fun hd => floatText_finite ho hd
  | bytes b | tuple xs ih | object i => exact h.elim
  | list xs ih =>
    intro t hd
    obtain ⟨ts,hts,_⟩ := dumps_list_ok hd
    rw [IsJson,isJsonList_iff]
    intro x hx
    obtain ⟨u,_,hu⟩ := forall₂_mem hts hx
    exact ih x hx (h.elem hx) hu
  | dict kvs ih =>
    intro t hd
    obtain ⟨ts,hts,_⟩ := dumps_dict_ok hd
    rw [IsJson,isJsonItems_iff]
    refine ⟨h.strDict.nodup,fun p hp => ⟨h.strDict.keys p hp,?_⟩⟩
    obtain ⟨u,_,hu⟩ := forall₂_mem hts ((sortItems_perm o kvs).mem_iff.mpr hp)
    obtain ⟨w,hw,_⟩ := member_ok hu
    exact ih p hp (h.item hp) hw

end Loads

end Python
