import Stele.Python.JsonRoundTrip

/-! What json makes of a value: always a JSON value, equal under `==` to the one it was
made from when that was a JSON value too, and the same for two values with one text. -/
namespace Python

open PyVal

section Dicts

variable {α : Type} {kvs : List (PyKey × α)}

/-- String keys only. -/
def StrKeys (kvs : List (PyKey × α)) : Prop := ∀ p ∈ kvs, ∃ s, p.1 = .str s

lemma keyEq_iff {k l : PyKey} (hk : ∃ s, k = .str s) (hl : ∃ s, l = .str s) :
    k.eq l = true ↔ k = l := by
  obtain ⟨s,rfl⟩ := hk
  obtain ⟨t,rfl⟩ := hl
  simp

lemma keyEq_str_right {k : PyKey} {s : PyStr} : k.eq (.str s) = true ↔ k = .str s := by
  cases k with
  | str t => simp
  | float f => cases h : f.num <;> simp [PyKey.eq,PyKey.num,h]
  | _ => simp [PyKey.eq,PyKey.num]

lemma setItem_new {k : PyKey} (h : ∀ p ∈ kvs, p.1.eq k = false) (v : α) :
    setItem kvs k v = kvs++[(k,v)] := by
  induction kvs with
  | nil => rfl
  | cons p kvs ih =>
    rw [setItem,if_neg (by simp [h p (by simp)]),ih fun q hq => h q (List.mem_cons_of_mem _ hq),
      List.cons_append]

lemma setItem_old {k : PyKey} (h : ∃ p ∈ kvs, p.1.eq k = true) (v : α) :
    (setItem kvs k v).map Prod.fst = kvs.map Prod.fst := by
  induction kvs with
  | nil => simp at h
  | cons p kvs ih =>
    rw [setItem]
    split_ifs with hp
    · rfl
    · obtain ⟨q,hq,he⟩ := h
      rcases List.mem_cons.mp hq with rfl | hq
      · exact absurd he hp
      · rw [List.map_cons,ih ⟨q,hq,he⟩,List.map_cons]

lemma setItem_mem {k : PyKey} {v : α} {p : PyKey × α} (h : p ∈ setItem kvs k v) :
    p ∈ kvs ∨ p.2 = v := by
  induction kvs with
  | nil => exact Or.inr (by rw [List.mem_singleton.mp h])
  | cons q kvs ih =>
    obtain ⟨l,w⟩ := q
    rw [setItem] at h
    split_ifs at h
    · rcases List.mem_cons.mp h with rfl | h
      · exact Or.inr rfl
      · exact Or.inl (List.mem_cons_of_mem _ h)
    · rcases List.mem_cons.mp h with rfl | h
      · exact Or.inl (List.mem_cons_self ..)
      · exact (ih h).imp (List.mem_cons_of_mem _) id

/-- A dict stays a dict with string keys when a string key is set. -/
lemma setItem_nodup (hs : StrKeys kvs) (hn : (kvs.map Prod.fst).Nodup) (s : PyStr) (v : α) :
    StrKeys (setItem kvs (.str s) v) ∧ ((setItem kvs (.str s) v).map Prod.fst).Nodup := by
  by_cases h : ∃ p ∈ kvs, p.1.eq (.str s) = true
  · have he := setItem_old h v
    refine ⟨fun p hp => ?_,by rw [he]; exact hn⟩
    obtain ⟨q,hq,he⟩ := List.mem_map.mp (he ▸ List.mem_map_of_mem hp : p.1 ∈ kvs.map Prod.fst)
    exact he ▸ hs q hq
  · have hne : ∀ p ∈ kvs, p.1.eq (.str s) = false := by simpa using h
    rw [setItem_new hne]
    refine ⟨fun p hp => ?_,?_⟩
    · rcases List.mem_append.mp hp with hp | hp
      · exact hs p hp
      · exact ⟨s,by rw [List.mem_singleton.mp hp]⟩
    · rw [List.map_append,List.nodup_append]
      refine ⟨hn,by simp,?_⟩
      rintro a ha b hb rfl
      obtain ⟨q,hq,rfl⟩ := List.mem_map.mp ha
      have hb : q.1 = .str s := by simpa using hb
      simpa [hb] using hne q hq

lemma dictOf_nodup {items : List (PyKey × α)} (h : StrKeys items) :
    StrKeys (dictOf items) ∧ ((dictOf items).map Prod.fst).Nodup := by
  have hd : ∀ d : List (PyKey × α), StrKeys d ∧ (d.map Prod.fst).Nodup →
      StrKeys (items.foldl (fun d p => setItem d p.1 p.2) d) ∧
        ((items.foldl (fun d p => setItem d p.1 p.2) d).map Prod.fst).Nodup := by
    induction items with
    | nil => exact fun d hd => hd
    | cons p items ih =>
      intro d hd
      obtain ⟨s,hs⟩ := h p (by simp)
      rw [List.foldl_cons,hs]
      exact ih (fun q hq => h q (List.mem_cons_of_mem _ hq)) _ (setItem_nodup hd.1 hd.2 s p.2)
  exact hd [] ⟨by simp [StrKeys],by simp⟩

lemma dictOf_mem {items : List (PyKey × α)} {p : PyKey × α} (h : p ∈ dictOf items) :
    ∃ q ∈ items, p.2 = q.2 := by
  have hd : ∀ d : List (PyKey × α), p ∈ items.foldl (fun d p => setItem d p.1 p.2) d →
      p ∈ d ∨ ∃ q ∈ items, p.2 = q.2 := by
    clear h
    induction items with
    | nil => exact fun d hp => Or.inl hp
    | cons q items ih =>
      intro d hp
      rcases ih (setItem d q.1 q.2) hp with hp | ⟨r,hr,he⟩
      · rcases setItem_mem hp with hp | hp
        · exact Or.inl hp
        · exact Or.inr ⟨q,by simp,hp⟩
      · exact Or.inr ⟨r,List.mem_cons_of_mem _ hr,he⟩
  exact (hd [] h).resolve_left List.not_mem_nil

/-- Distinct string keys: the dict is the list of items itself. -/
lemma dictOf_eq {items : List (PyKey × α)} (hs : StrKeys items)
    (hn : (items.map Prod.fst).Nodup) : dictOf items = items := by
  have hd : ∀ d : List (PyKey × α), StrKeys d → ((d++items).map Prod.fst).Nodup →
      items.foldl (fun d p => setItem d p.1 p.2) d = d++items := by
    clear hn
    induction items with
    | nil => simp
    | cons p items ih =>
      intro d hd hn
      obtain ⟨s,hp⟩ := hs p (by simp)
      have hm : ∀ q ∈ d, q.1.eq p.1 = false := by
        intro q hq
        rw [List.map_append,List.nodup_append] at hn
        have hne := hn.2.2 q.1 (List.mem_map_of_mem hq) p.1 (by simp)
        exact Bool.eq_false_iff.mpr fun he => hne ((keyEq_iff (hd q hq) ⟨s,hp⟩).mp he)
      rw [List.foldl_cons,setItem_new hm,ih (fun q hq => hs q (List.mem_cons_of_mem _ hq))]
      · simp
      · intro q hq
        rcases List.mem_append.mp hq with hq | hq
        · exact hd q hq
        · exact ⟨s,by rw [List.mem_singleton.mp hq]; exact hp⟩
      · simpa using hn
  exact hd [] (by simp [StrKeys]) (by simpa using hn)

lemma find_str {kvs : List (PyKey × PyVal)} (hn : (kvs.map Prod.fst).Nodup) {s : PyStr}
    {v : PyVal} : find kvs (.str s) = some v ↔ (.str s,v) ∈ kvs := by
  induction kvs with
  | nil => simp [find]
  | cons p kvs ih =>
    obtain ⟨k,w⟩ := p
    rw [List.map_cons,List.nodup_cons] at hn
    by_cases h : k = .str s
    · subst h
      have hne : (.str s,v) ∉ kvs := fun hm => hn.1 (List.mem_map.mpr ⟨_,hm,rfl⟩)
      simp [find,hne,eq_comm]
    · have hk : k.eq (.str s) = false := by simpa using fun hk => h (keyEq_str_right.mp hk)
      have hi := ih hn.2
      simp only [find,List.find?_cons,hk,List.mem_cons,Prod.mk.injEq] at hi ⊢
      rw [hi]
      simp [Ne.symm h]

end Dicts

section Image

lemma forall₂_mem {α β : Type} {R : α → β → Prop} {xs : List α} {ys : List β}
    (h : List.Forall₂ R xs ys) {x : α} (hx : x ∈ xs) : ∃ y, y ∈ ys ∧ R x y := by
  induction h with
  | nil => simp at hx
  | cons hr _ ih =>
    rcases List.mem_cons.mp hx with rfl | hx
    · exact ⟨_,by simp,hr⟩
    · obtain ⟨y,hy,hr⟩ := ih hx
      exact ⟨y,List.mem_cons_of_mem _ hy,hr⟩

lemma forall₂_mem_imp {α β : Type} {R Q : β → α → Prop} {xs : List α} {zs : List β}
    (h : List.Forall₂ R zs xs) (hq : ∀ x ∈ xs, ∀ z, R z x → Q z x) : List.Forall₂ Q zs xs := by
  induction h with
  | nil => exact .nil
  | cons hr _ ih => exact .cons (hq _ (by simp) _ hr) (ih fun x hx => hq x (List.mem_cons_of_mem _ hx))

variable {o : DumpOpts}

lemma readItem_strKeys (kvs : List (PyKey × PyVal)) : StrKeys (kvs.map (readItem o)) := by
  rintro p hp
  obtain ⟨q,_,rfl⟩ := List.mem_map.mp hp
  exact ⟨_,rfl⟩

lemma floatText_finite (ho : o.allowNan = false) {f : PyFloat} {t : PyStr}
    (h : floatText o f = .ok t) : ∃ x, f = .finite x := by
  cases f with
  | finite x => exact ⟨x,rfl⟩
  | inf neg => simp [floatText,ho] at h
  | nan => simp [floatText,ho] at h

/-- Without allow_nan, everything that has a text is read back as a JSON value. -/
theorem isJson_toJson (ho : o.allowNan = false) {v : PyVal} :
    ∀ {t}, dumps o v = .ok t → (v.toJson o).IsJson := by
  have hlist : ∀ xs : List PyVal, (∀ x ∈ xs, ∀ {t}, dumps o x = .ok t → (x.toJson o).IsJson) →
      ∀ {t}, dumps o (.list xs) = .ok t → ((PyVal.list xs).toJson o).IsJson := by
    intro xs ih t h
    obtain ⟨ts,hts,_⟩ := dumps_list_ok h
    rw [toJson,toJsonList_eq,IsJson,isJsonList_iff]
    rintro y hy
    obtain ⟨x,hx,rfl⟩ := List.mem_map.mp hy
    obtain ⟨u,_,hu⟩ := forall₂_mem hts hx
    exact ih x hx hu
  induction v using PyVal.ind with
  | none => intros; trivial
  | bool b => intros; trivial
  | int i => intros; trivial
  | float f => exact fun h => floatText_finite ho h
  | str s => intros; trivial
  | bytes b => intro t h; simp [dumps] at h
  | list xs ih => exact fun h => hlist xs ih h
  | tuple xs ih => exact fun h => hlist xs ih (dumps_tuple o xs ▸ h)
  | dict kvs ih =>
    intro t h
    obtain ⟨ts,hts,_⟩ := dumps_dict_ok h
    rw [toJson_dict,IsJson,isJsonItems_iff]
    obtain ⟨hs,hn⟩ := dictOf_nodup (readItem_strKeys (o := o) (sortItems o kvs))
    refine ⟨hn,fun p hp => ⟨hs p hp,?_⟩⟩
    obtain ⟨_,hm,he⟩ := dictOf_mem hp
    obtain ⟨q,hq,rfl⟩ := List.mem_map.mp hm
    obtain ⟨u,_,hu⟩ := forall₂_mem hts hq
    obtain ⟨w,hw,_⟩ := member_ok hu
    rw [he]
    exact ih q ((sortItems_perm o kvs).mem_iff.mp hq) hw
  | object i => intro t h; simp [dumps] at h

/-- The items of a dict whose keys are strings. -/
structure StrDict (kvs : List (PyKey × PyVal)) : Prop where
  keys : StrKeys kvs
  nodup : (kvs.map Prod.fst).Nodup

lemma isJson_strDict {kvs : List (PyKey × PyVal)} (h : (PyVal.dict kvs).IsJson) : StrDict kvs := by
  rw [IsJson,isJsonItems_iff] at h
  exact ⟨fun p hp => (h.2 p hp).1,h.1⟩

/-- A dict with string keys: the items in the order they are written. -/
lemma toJson_strDict {kvs : List (PyKey × PyVal)} (h : StrDict kvs) :
    (PyVal.dict kvs).toJson o =
      .dict ((sortItems o kvs).map fun p => (p.1,p.2.toJson o)) := by
  have hp := sortItems_perm o kvs
  have he : (sortItems o kvs).map (readItem o) =
      (sortItems o kvs).map fun p => (p.1,p.2.toJson o) := by
    refine List.map_congr_left fun p hm => ?_
    obtain ⟨s,hs⟩ := h.keys p (hp.mem_iff.mp hm)
    simp [readItem,hs,keyStr,keyText]
  rw [toJson_dict,he,dictOf_eq]
  · rintro q hq
    obtain ⟨p,hm,rfl⟩ := List.mem_map.mp hq
    exact h.keys p (hp.mem_iff.mp hm)
  · rw [List.map_map]
    exact (hp.map Prod.fst).nodup_iff.mpr h.nodup

lemma find_toJson {kvs kws : List (PyKey × PyVal)} (h : StrDict kvs)
    (he : (PyVal.dict kvs).toJson o = .dict kws) (s : PyStr) :
    find kws (.str s) = (find kvs (.str s)).map (toJson o) := by
  have hn := h.nodup
  rw [toJson_strDict h] at he
  obtain rfl := PyVal.dict.inj he
  have hp := sortItems_perm o kvs
  have hn' : (((sortItems o kvs).map fun p => (p.1,p.2.toJson o)).map Prod.fst).Nodup := by
    rw [List.map_map]
    exact (hp.map Prod.fst).nodup_iff.mpr hn
  ext v
  rw [find_str hn',Option.map_eq_some_iff]
  constructor
  · intro hm
    obtain ⟨q,hq,hv⟩ := List.mem_map.mp hm
    obtain ⟨k,w⟩ := q
    obtain ⟨rfl,rfl⟩ := Prod.mk.inj hv
    exact ⟨w,(find_str hn).mpr (hp.mem_iff.mp hq),rfl⟩
  · rintro ⟨w,hw,rfl⟩
    exact List.mem_map.mpr ⟨_,hp.mem_iff.mpr ((find_str hn).mp hw),rfl⟩

lemma pyEqItems_iff {kvs kws : List (PyKey × PyVal)} : pyEqItems kvs kws = true ↔
    ∀ p ∈ kvs, ∃ w, find kws p.1 = some w ∧ pyEq p.2 w = true := by
  induction kvs with
  | nil => simp [pyEqItems]
  | cons p kvs ih =>
    obtain ⟨k,v⟩ := p
    rw [pyEqItems,Bool.and_eq_true,ih,List.forall_mem_cons]
    cases find kws k <;> simp

/-- A JSON value equals what is read back from its text. -/
theorem pyEq_toJson {v : PyVal} (h : v.IsJson) : pyEq v (v.toJson o) = true := by
  induction v using PyVal.ind with
  | none => rfl
  | bool b => simp [toJson,pyEq,PyVal.num]
  | int i => simp [toJson,pyEq,PyVal.num]
  | float f =>
    obtain ⟨x,rfl⟩ := h
    simp [toJson,pyEq,PyVal.num,PyFloat.num]
  | str s => simp [toJson,pyEq]
  | bytes b => exact h.elim
  | list xs ih =>
    rw [IsJson,isJsonList_iff] at h
    rw [toJson,pyEq,toJsonList_eq]
    induction xs with
    | nil => rfl
    | cons x xs hxs =>
      rw [List.map_cons,pyEqList,Bool.and_eq_true]
      exact ⟨ih x (by simp) (h x (by simp)),hxs (fun y hy => ih y (List.mem_cons_of_mem _ hy))
        fun y hy => h y (List.mem_cons_of_mem _ hy)⟩
  | tuple xs _ => exact h.elim
  | dict kvs ih =>
    have hd := isJson_strDict h
    rw [IsJson,isJsonItems_iff] at h
    rw [toJson_strDict hd,pyEq,Bool.and_eq_true,pyEqItems_iff]
    refine ⟨by simp [(sortItems_perm o kvs).length_eq],fun p hp => ?_⟩
    obtain ⟨⟨s,hs⟩,hv⟩ := h.2 p hp
    obtain ⟨k,v⟩ := p
    obtain rfl : k = .str s := hs
    refine ⟨v.toJson o,?_,ih _ hp hv⟩
    rw [find_toJson hd (toJson_strDict hd),(find_str hd.nodup).mpr hp]
    rfl
  | object i => exact h.elim

/-- The same for any key: what is no string is no key of either. -/
lemma find_toJson_key {kvs kws : List (PyKey × PyVal)} (h : StrDict kvs)
    (he : (PyVal.dict kvs).toJson o = .dict kws) (k : PyKey) :
    find kws k = (find kvs k).map (toJson o) := by
  by_cases hk : ∃ s, k = .str s
  · obtain ⟨s,rfl⟩ := hk
    exact find_toJson h he s
  · have none_of : ∀ items : List (PyKey × PyVal), StrKeys items → find items k = Option.none := by
      intro items hs
      rw [find,Option.map_eq_none_iff,List.find?_eq_none]
      intro p hp heq
      obtain ⟨s,hps⟩ := hs p hp
      rw [hps] at heq
      cases k with
      | str t => exact hk ⟨t,rfl⟩
      | float f => cases hf : f.num <;> simp [PyKey.eq,PyKey.num] at heq
      | _ => simp [PyKey.eq,PyKey.num] at heq
    rw [none_of kvs h.keys,none_of kws]
    · rfl
    · intro p hp
      rw [toJson_strDict h] at he
      obtain rfl := PyVal.dict.inj he
      obtain ⟨q,hq,rfl⟩ := List.mem_map.mp hp
      exact h.keys q ((sortItems_perm o kvs).mem_iff.mp hq)

lemma pyEq_dict (z : PyVal) (kvs : List (PyKey × PyVal)) : z.pyEq (.dict kvs) = true ↔
    ∃ zs, z = .dict zs ∧ zs.length = kvs.length ∧
      ∀ p ∈ zs, ∃ w, find kvs p.1 = some w ∧ pyEq p.2 w = true := by
  cases z with
  | dict zs => simp [pyEq,pyEqItems_iff]
  | float f => cases h : f.num <;> simp [pyEq,PyVal.num,h]
  | _ => simp [pyEq,PyVal.num]

lemma pyEqList_iff {xs ys : List PyVal} :
    pyEqList xs ys = true ↔ List.Forall₂ (fun x y => pyEq x y = true) xs ys := by
  induction xs generalizing ys with
  | nil => cases ys <;> simp [pyEqList]
  | cons x xs ih => cases ys <;> simp [pyEqList,ih]

lemma pyEq_list (z : PyVal) (ys : List PyVal) : z.pyEq (.list ys) = true ↔
    ∃ zs, z = .list zs ∧ List.Forall₂ (fun x y => pyEq x y = true) zs ys := by
  cases z with
  | list zs => simp [pyEq,pyEqList_iff]
  | float f => cases h : f.num <;> simp [pyEq,PyVal.num,h]
  | _ => simp [pyEq,PyVal.num]

/-- Nothing equals the one without equalling the other. -/
theorem pyEq_toJson_right {v : PyVal} (h : v.IsJson) : ∀ z : PyVal,
    z.pyEq (v.toJson o) = z.pyEq v := by
  induction v using PyVal.ind with
  | none | bool b | int i | str s => exact fun z => rfl
  | float f => exact fun z => rfl
  | bytes b => exact h.elim
  | list xs ih =>
    intro z
    rw [IsJson,isJsonList_iff] at h
    rw [toJson,toJsonList_eq,Bool.eq_iff_iff,pyEq_list,pyEq_list]
    refine exists_congr fun zs => and_congr_right fun _ => ?_
    rw [List.forall₂_map_right_iff]
    constructor
    · exact fun hz => forall₂_mem_imp hz fun x hx y hy => (ih x hx (h x hx) y).symm ▸ hy
    · exact fun hz => forall₂_mem_imp hz fun x hx y hy => (ih x hx (h x hx) y) ▸ hy
  | tuple xs _ => exact h.elim
  | dict kvs ih =>
    intro z
    have hd := isJson_strDict h
    rw [IsJson,isJsonItems_iff] at h
    have he := toJson_strDict (o := o) hd
    rw [he,Bool.eq_iff_iff,pyEq_dict,pyEq_dict]
    refine exists_congr fun zs => and_congr_right fun _ => and_congr ?_ ?_
    · simp [(sortItems_perm o kvs).length_eq]
    · refine forall₂_congr fun p _ => ?_
      rw [find_toJson_key hd he]
      constructor
      · rintro ⟨w,hw,hp⟩
        obtain ⟨v,hv,rfl⟩ := Option.map_eq_some_iff.mp hw
        obtain ⟨q,hq,rfl⟩ := Option.map_eq_some_iff.mp hv
        have hm := List.mem_of_find?_eq_some hq
        exact ⟨q.2,hv,ih q hm (h.2 q hm).2 p.2 ▸ hp⟩
      · rintro ⟨v,hv,hp⟩
        obtain ⟨q,hq,rfl⟩ := Option.map_eq_some_iff.mp hv
        have hm := List.mem_of_find?_eq_some hq
        exact ⟨q.2.toJson o,by rw [hv]; rfl,(ih q hm (h.2 q hm).2 p.2).symm ▸ hp⟩
  | object i => exact h.elim

lemma StrKeys.exists_strings {α : Type} {kvs : List (PyKey × α)} (h : StrKeys kvs) :
    ∃ l : List (PyStr × α), kvs = l.map fun p => (.str p.1,p.2) := by
  induction kvs with
  | nil => exact ⟨[],rfl⟩
  | cons p kvs ih =>
    obtain ⟨k,v⟩ := p
    obtain ⟨l,rfl⟩ := ih fun q hq => h q (List.mem_cons_of_mem _ hq)
    obtain ⟨s,rfl⟩ := h (k,v) (by simp)
    exact ⟨(s,v) :: l,rfl⟩

lemma sortItems_sorted {α : Type} (ho : o.sortKeys = true) {kvs : List (PyKey × α)} (h : StrKeys kvs) :
    (sortItems o kvs).Pairwise fun p q => p.1.le q.1 = true := by
  obtain ⟨l,rfl⟩ := h.exists_strings
  have hs : sortItems o (l.map fun p => ((PyKey.str p.1,p.2) : PyKey × α)) =
      (l.insertionSort fun p q => p.1 ≤ q.1).map fun p => ((PyKey.str p.1,p.2) : PyKey × α) := by
    rw [sortItems,if_pos ho]
    exact (List.map_insertionSort _ _ _ l fun a _ b _ => by simp [PyKey.le]).symm
  have hp : (l.insertionSort fun p q => p.1 ≤ q.1).Pairwise fun p q => p.1 ≤ q.1 :=
    List.pairwise_insertionSort (fun p q : PyStr × α => p.1 ≤ q.1) l
  rw [hs,List.pairwise_map]
  exact hp.imp fun hle => by simpa [PyKey.le] using hle

/-- Items with distinct string keys are sorted into one order, in whatever order they come. -/
lemma sortItems_congr {α : Type} (ho : o.sortKeys = true) {kvs kws : List (PyKey × α)}
    (hk : StrKeys kvs) (hn : (kvs.map Prod.fst).Nodup) (h : kvs.Perm kws) :
    sortItems o kvs = sortItems o kws := by
  have hkw : StrKeys kws := fun p hp => hk p (h.mem_iff.mpr hp)
  have hpv := sortItems_perm o kvs
  have hpw := sortItems_perm o kws
  refine List.Perm.eq_of_pairwise (fun p q hp hq hpq hqp => ?_) (sortItems_sorted ho hk)
    (sortItems_sorted ho hkw) (hpv.trans (h.trans hpw.symm))
  have hp := hpv.mem_iff.mp hp
  have hq := h.mem_iff.mpr (hpw.mem_iff.mp hq)
  obtain ⟨s,hs⟩ := hk p hp
  obtain ⟨t,ht⟩ := hk q hq
  simp only [hs,ht,PyKey.le,decide_eq_true_eq] at hpq hqp
  exact List.inj_on_of_nodup_map hn hp hq (by rw [hs,ht,le_antisymm hpq hqp])

/-- Items with string keys that have been sorted stay as they are. -/
lemma sortItems_idem {α : Type} {kvs : List (PyKey × α)} (h : StrKeys kvs) :
    sortItems o (sortItems o kvs) = sortItems o kvs := by
  by_cases ho : o.sortKeys = true
  · have hs := sortItems_sorted ho h
    rw [sortItems,if_pos ho]
    exact hs.insertionSort_eq
  · rw [sortItems,if_neg ho]

lemma dumps_strDict {kvs : List (PyKey × PyVal)} (h : StrKeys kvs) :
    dumps o (.dict kvs) = (do
      let ts ← (sortItems o kvs).mapM (member o)
      return cp '{' :: (o.itemSep.intercalate ts++[cp '}'])) := by
  have hs : sortable (kvs.map Prod.fst) = true := by
    have hall : (kvs.map Prod.fst).all PyKey.isStr = true := by
      rw [List.all_eq_true]
      intro k hk
      obtain ⟨p,hp,rfl⟩ := List.mem_map.mp hk
      obtain ⟨s,hs⟩ := h p hp
      rw [hs]
      rfl
    simp [sortable,hall]
  rw [dumps,hs,Bool.not_true,Bool.and_false,if_neg (by simp),dumpsItems_eq,sortItems_map,List.mapM_map]
  rfl

/-- The text of a dict with distinct string keys does not depend on their order. -/
lemma dumps_perm (ho : o.sortKeys = true) {kvs kws : List (PyKey × PyVal)} (h : StrDict kvs)
    (hp : kvs.Perm kws) : dumps o (.dict kvs) = dumps o (.dict kws) := by
  rw [dumps_strDict h.keys,dumps_strDict fun p hm => h.keys p (hp.mem_iff.mpr hm),
    sortItems_congr ho h.keys h.nodup hp]

lemma mapM_congr {ε α β : Type} {f g : α → Except ε β} {l : List α} (h : ∀ x ∈ l, f x = g x) :
    l.mapM f = l.mapM g := by
  induction l with
  | nil => rfl
  | cons x l ih =>
    rw [List.mapM_cons,List.mapM_cons,h x (by simp),ih fun y hy => h y (List.mem_cons_of_mem _ hy)]

/-- What json makes of a JSON value has the same text. -/
theorem dumps_toJson {v : PyVal} (h : v.IsJson) : dumps o (v.toJson o) = dumps o v := by
  induction v using PyVal.ind with
  | none | bool b | int i | float f | str s => rfl
  | bytes b | object i | tuple xs ih => exact h.elim
  | list xs ih =>
    rw [IsJson,isJsonList_iff] at h
    rw [toJson,toJsonList_eq,dumps,dumps]
    have hl : dumpsList o (xs.map (toJson o)) = dumpsList o xs := by
      induction xs with
      | nil => rfl
      | cons x xs ih' =>
        rw [List.map_cons,dumpsList,dumpsList,ih x (by simp) (h x (by simp)),
          ih' (fun y hy => ih y (List.mem_cons_of_mem _ hy)) fun y hy => h y (List.mem_cons_of_mem _ hy)]
    rw [hl]
  | dict kvs ih =>
    have hd := isJson_strDict h
    rw [IsJson,isJsonItems_iff] at h
    have hk : StrKeys ((sortItems o kvs).map fun p => (p.1,p.2.toJson o)) := by
      rintro q hq
      obtain ⟨p,hp,rfl⟩ := List.mem_map.mp hq
      exact hd.keys p ((sortItems_perm o kvs).mem_iff.mp hp)
    rw [toJson_strDict hd,dumps_strDict hk,dumps_strDict hd.keys,
      sortItems_map o fun p : PyKey × PyVal => p.2.toJson o,sortItems_idem hd.keys,List.mapM_map]
    have hm : ∀ p ∈ sortItems o kvs,
        (member o ∘ fun p => (p.1,p.2.toJson o)) p = member o p := fun p hp => by
      have hp' := (sortItems_perm o kvs).mem_iff.mp hp
      rw [Function.comp_apply,member,member,ih p hp' (h.2 p hp').2]
    rw [mapM_congr hm]

end Image

section Alike

/-- Equal, and equal to the same values. -/
structure Alike (a b : PyVal) : Prop where
  eq : a.pyEq b = true
  same : ∀ z : PyVal, z.pyEq b = z.pyEq a

/-- A JSON value and what is read back from its text. -/
theorem alike_toJson {o : DumpOpts} {v : PyVal} (h : v.IsJson) : Alike v (v.toJson o) :=
  ⟨pyEq_toJson h,pyEq_toJson_right h⟩

lemma Alike.refl {v : PyVal} (h : v.IsJson) : Alike v v :=
  ⟨(pyEq_toJson_right (o := canonicalOpts) h v) ▸ pyEq_toJson h,fun _ => rfl⟩

/-- An int column and the bool it was bound from. -/
lemma alike_bool (b : Bool) : Alike (.int b.toNat) (.bool b) := by
  refine ⟨by simp [pyEq,PyVal.num],fun z => ?_⟩
  have hn : (PyVal.bool b).num = (PyVal.int b.toNat).num := rfl
  cases z with
  | bool x | int x | float x => rw [pyEq,pyEq,hn]
  | _ => rfl

lemma alike_list {xs ys : List PyVal} (h : List.Forall₂ Alike xs ys) :
    pyEqList xs ys = true ∧ ∀ zs, pyEqList zs ys = pyEqList zs xs := by
  induction h with
  | nil => exact ⟨rfl,fun _ => rfl⟩
  | cons hxy _ ih =>
    refine ⟨by rw [pyEqList,hxy.eq,ih.1]; rfl,fun zs => ?_⟩
    cases zs with
    | nil => rfl
    | cons z zs => rw [pyEqList,pyEqList,hxy.same,ih.2]

lemma alike_tuple {xs ys : List PyVal} (h : List.Forall₂ Alike xs ys) :
    Alike (.tuple xs) (.tuple ys) := by
  obtain ⟨h1,h2⟩ := alike_list h
  refine ⟨h1,fun z => ?_⟩
  cases z with
  | tuple zs => exact h2 zs
  | float f => cases hf : f.num <;> simp [pyEq,PyVal.num,hf]
  | _ => simp [pyEq,PyVal.num]

end Alike

end Python
