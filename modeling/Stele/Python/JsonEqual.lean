import Stele.Python.JsonLoads

/-! Which values equal what is read back from their text: exactly the JSON values. A tuple comes
back as a list, and a key that is no string as a string. -/
namespace Python

open PyVal

variable {o : DumpOpts}

section Dicts

variable {α : Type} {kvs items : List (PyKey × α)}

lemma setItem_key {k : PyKey} {v : α} {p : PyKey × α} (h : p ∈ setItem kvs k v) :
    p.1 ∈ kvs.map Prod.fst ∨ p.1 = k := by
  induction kvs with
  | nil => exact Or.inr (by rw [List.mem_singleton.mp h])
  | cons q kvs ih =>
    obtain ⟨l,w⟩ := q
    rw [setItem] at h
    split_ifs at h
    · rcases List.mem_cons.mp h with rfl | h
      · exact Or.inl (by simp)
      · exact Or.inl (List.mem_cons_of_mem _ (List.mem_map_of_mem h))
    · rcases List.mem_cons.mp h with rfl | h
      · exact Or.inl (by simp)
      · exact (ih h).imp_left (List.mem_cons_of_mem _)

lemma dictOf_keys : (dictOf items).map Prod.fst ⊆ items.map Prod.fst := by
  have hd : ∀ d : List (PyKey × α), ∀ p ∈ items.foldl (fun d p => setItem d p.1 p.2) d,
      p.1 ∈ d.map Prod.fst ∨ p.1 ∈ items.map Prod.fst := by
    induction items with
    | nil => exact fun d p hp => Or.inl (List.mem_map_of_mem hp)
    | cons q items ih =>
      intro d p hp
      rcases ih (setItem d q.1 q.2) p hp with h | h
      · obtain ⟨r,hr,he⟩ := List.mem_map.mp h
        rw [← he]
        exact (setItem_key hr).imp_right fun h => by simp [h]
      · exact Or.inr (List.mem_cons_of_mem _ h)
  intro k hk
  obtain ⟨p,hp,rfl⟩ := List.mem_map.mp hk
  exact (hd [] p hp).resolve_left List.not_mem_nil

/-- A dict with as many keys as it was given items was given no key twice. -/
lemma dictOf_length_eq (hs : StrKeys items) (h : (dictOf items).length = items.length) :
    (items.map Prod.fst).Nodup := by
  have hn := (dictOf_nodup hs).2
  have hp : ((dictOf items).map Prod.fst).Perm (items.map Prod.fst) :=
    (hn.subperm dictOf_keys).perm_of_length_le (by simp [h])
  exact hp.nodup_iff.mp hn

end Dicts

lemma keyEq_str_left {k : PyKey} {s : PyStr} (h : (PyKey.str s).eq k = true) : k = .str s := by
  cases k with
  | str t => rw [(by simpa using h : s = t)]
  | _ => simp [PyKey.eq,PyKey.num] at h

/-- A dict that equals what is read back has distinct strings for keys. -/
lemma strDict_of_pyEq {kvs : List (PyKey × PyVal)}
    (h : (PyVal.dict kvs).pyEq ((PyVal.dict kvs).toJson o) = true) : StrDict kvs := by
  rw [toJson_dict,pyEq_dict] at h
  obtain ⟨_,hz,hl,hf⟩ := h
  obtain rfl := PyVal.dict.inj hz
  have hread := readItem_strKeys (o := o) (sortItems o kvs)
  have hkeys : StrKeys kvs := by
    intro p hp
    obtain ⟨w,hw,-⟩ := hf p hp
    rw [find,Option.map_eq_some_iff] at hw
    obtain ⟨q,hq,-⟩ := hw
    obtain ⟨s,hs⟩ := (dictOf_nodup hread).1 q (List.mem_of_find?_eq_some hq)
    have hk := List.find?_some hq
    simp only [hs] at hk
    exact ⟨s,keyEq_str_left hk⟩
  have hp := sortItems_perm o kvs
  have hfst : ((sortItems o kvs).map (readItem o)).map Prod.fst = (sortItems o kvs).map Prod.fst := by
    rw [List.map_map]
    refine List.map_congr_left fun p hm => ?_
    obtain ⟨s,hs⟩ := hkeys p (hp.mem_iff.mp hm)
    simp [readItem,hs,keyStr,keyText]
  refine ⟨hkeys,(hp.map Prod.fst).nodup_iff.mp ?_⟩
  rw [← hfst]
  refine dictOf_length_eq hread ?_
  rw [List.length_map,hp.length_eq,hl]

lemma forall₂_both {α β : Type} {R Q : α → β → Prop} {xs : List α} {ys : List β}
    (h : List.Forall₂ R xs ys) (h' : List.Forall₂ Q xs ys) :
    List.Forall₂ (fun x y => R x y ∧ Q x y) xs ys := by
  induction h with
  | nil => exact .nil
  | cons h _ ih =>
    cases h' with
    | cons hq hqs => exact .cons ⟨h,hq⟩ (ih hqs)

lemma pyEq_str {v : PyVal} {s : PyStr} : v.pyEq (.str s) = true ↔ v = .str s := by
  cases v with
  | str t => simp [PyVal.pyEq]
  | float f => cases hf : f.num <;> simp [PyVal.pyEq,PyVal.num,hf]
  | _ => simp [PyVal.pyEq,PyVal.num]

lemma pyEq_tuple {xs ys : List PyVal} : (PyVal.tuple xs).pyEq (.tuple ys) = true ↔
    List.Forall₂ (fun x y => x.pyEq y = true) xs ys := by rw [PyVal.pyEq,pyEqList_iff]

/-- What equals the value that is read back from its text is a JSON value. -/
theorem isJson_of_pyEq (ho : o.allowNan = false) {v : PyVal} :
    ∀ {t}, dumps o v = .ok t → v.pyEq (v.toJson o) = true → v.IsJson := by
  induction v using PyVal.ind with
  | none | bool b | int i | str s => intros; trivial
  | float f => exact fun h _ => floatText_finite ho h
  | bytes b => intro t h; simp [dumps] at h
  | list xs ih =>
    intro t h he
    obtain ⟨ts,hts,-⟩ := dumps_list_ok h
    rw [toJson,toJsonList_eq,pyEq,pyEqList_iff,List.forall₂_map_right_iff,List.forall₂_same] at he
    rw [IsJson,isJsonList_iff]
    intro x hx
    obtain ⟨u,-,hu⟩ := forall₂_mem hts hx
    exact ih x hx hu (he x hx)
  | tuple xs _ =>
    intro t _ he
    simp [toJson,pyEq] at he
  | dict kvs ih =>
    intro t h he
    have hs := strDict_of_pyEq he
    obtain ⟨ts,hts,-⟩ := dumps_dict_ok h
    rw [IsJson,isJsonItems_iff]
    refine ⟨hs.nodup,fun p hp => ⟨hs.keys p hp,?_⟩⟩
    obtain ⟨u,-,hu⟩ := forall₂_mem hts ((sortItems_perm o kvs).mem_iff.mpr hp)
    obtain ⟨w,hw,-⟩ := member_ok hu
    refine ih p hp hw ?_
    rw [toJson_strDict hs,pyEq_dict] at he
    obtain ⟨_,hz,-,hf⟩ := he
    obtain rfl := PyVal.dict.inj hz
    obtain ⟨y,hy,hpy⟩ := hf p hp
    obtain ⟨s,hk⟩ := hs.keys p hp
    rw [hk,find_toJson hs (toJson_strDict hs),
      (find_str (v := p.2) hs.nodup).mpr (by rw [← hk]; exact hp),Option.map_some] at hy
    rwa [Option.some.inj hy]
  | object i => intro t h; simp [dumps] at h

/-- A value that can be written without NaN and infinities equals what is read back exactly when
it is a JSON value. -/
theorem pyEq_toJson_iff (ho : o.allowNan = false) {v : PyVal} {t : PyStr} (h : dumps o v = .ok t) :
    v.pyEq (v.toJson o) = true ↔ v.IsJson := ⟨isJson_of_pyEq ho h,pyEq_toJson⟩

/-- A JSON value is one that json.loads can return. -/
lemma PyVal.IsJson.loaded {v : PyVal} (h : v.IsJson) : v.Loaded := by
  induction v using PyVal.ind with
  | none | bool b | int i | float f | str s => trivial
  | bytes b => exact h.elim
  | list xs ih =>
    rw [IsJson,isJsonList_iff] at h
    rw [Loaded,loadedList_iff]
    exact fun x hx => ih x hx (h x hx)
  | tuple xs _ => exact h.elim
  | dict kvs ih =>
    rw [IsJson,isJsonItems_iff] at h
    rw [Loaded,loadedItems_iff]
    exact ⟨h.1,fun p hp => ⟨(h.2 p hp).1,ih p hp (h.2 p hp).2⟩⟩
  | object i => exact h.elim

end Python
