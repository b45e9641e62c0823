import Stele.Archive.Tree

/-! decode_tree gives back the manifest that a tree object was encoded from. -/
namespace Stele
open Python

section Bytes

lemma utf8EncodeChar_ne_zero {c : Char} (h : 0 ∈ String.utf8EncodeChar c) : c = Char.ofNat 0 := by
  have hv : c.val.toNat = 0 := by
    unfold String.utf8EncodeChar at h
    simp only at h
    split_ifs at h <;>
      simp only [List.mem_cons,List.not_mem_nil,or_false,← UInt8.toNat_inj,UInt8.toNat_ofNat',
        UInt8.reduceToNat] at h <;> omega
  exact Char.toNat_inj.mp hv

lemma zero_mem_of_utf8 {s : PyStr} (h : 0 ∈ utf8 s) (hs : Encodable s) : 0 ∈ s := by
  obtain ⟨c,hc,h0⟩ := List.mem_flatMap.mp h
  have hz := CodePoint.cp_toChar (hs c hc)
  rw [utf8EncodeChar_ne_zero h0] at hz
  have h00 : cp (Char.ofNat 0) = 0 := rfl
  rwa [← h00,hz]

lemma decodeAscii_utf8 {s : PyStr} (h : ∀ c ∈ s, c.val < 128) : decodeAscii (utf8 s) = some s := by
  have hb : ∀ c ∈ s, (UInt8.ofNat c.val).toNat = c.val := by
    intro c hc
    have := h c hc
    rw [UInt8.toNat_ofNat']
    omega
  rw [decodeAscii,utf8_ascii h,if_pos]
  · rw [List.map_map]
    refine congrArg some ((List.map_congr_left fun c hc => ?_).trans (List.map_id s))
    simp [hb c hc]
  · simp only [List.all_map,List.all_eq_true,Function.comp_apply,decide_eq_true_eq]
    intro c hc
    rw [UInt8.lt_iff_toNat_lt,hb c hc]
    exact h c hc

end Bytes

section Entries

/-- What put_tree checks of each entry. -/
structure ValidEntry (p : PyStr × PyStr) : Prop where
  path : validateTreePath p.1 = .ok ()
  digest : isDigest p.2 = true

lemma validateTreePath_nul {path : PyStr} (h : validateTreePath path = .ok ()) : 0 ∉ path := by
  unfold validateTreePath at h
  split_ifs at h with h1
  exact fun h0 => h1 (Or.inr (Or.inl h0))

/-- The two fields of an entry. -/
def entryFields (p : PyStr × PyStr) : List Bytes := [utf8 p.1,utf8 p.2]

lemma encodeEntry_ok {p : PyStr × PyStr} {b : Bytes} (h : encodeEntry p = .ok b) :
    Encodable p.1 ∧ Encodable p.2 ∧ b = (entryFields p).flatMap (·++[0]) := by
  unfold encodeEntry at h
  split_ifs at h with he
  exact ⟨he.1,he.2,by simp [entryFields,← Except.ok.inj h]⟩

lemma encodeManifest_ok {m : Manifest} {b : Bytes} (h : encodeManifest m = .ok b) :
    (∀ p ∈ m, Encodable p.1 ∧ Encodable p.2) ∧
      b = ((sortPaths m).flatMap entryFields).flatMap (·++[0]) := by
  unfold encodeManifest at h
  cases hm : (sortPaths m).mapM encodeEntry with
  | error e => rw [hm] at h; cases h
  | ok bs =>
    rw [hm] at h
    obtain rfl := Except.ok.inj h
    have hf := mapM_ok.mp hm
    constructor
    · intro p hp
      obtain ⟨b,_,hb⟩ := forall₂_mem hf ((List.mem_insertionSort _).mpr hp)
      exact ⟨(encodeEntry_ok hb).1,(encodeEntry_ok hb).2.1⟩
    · clear h hm
      generalize sortPaths m = n at hf
      induction hf with
      | nil => rfl
      | cons hb _ ih => simp [(encodeEntry_ok hb).2.2,ih]

lemma flatMap_zero {fields : List Bytes} (h : fields ≠ []) :
    fields.flatMap (·++[0]) = List.intercalate [0] fields++[0] := by
  induction fields with
  | nil => exact absurd rfl h
  | cons a fields ih =>
    cases fields with
    | nil => simp
    | cons b fields => rw [List.flatMap_cons,ih (by simp),List.intercalate_cons_cons]; simp

lemma decodeFields_entries {m : Manifest} (hv : ∀ p ∈ m, ValidEntry p ∧ Encodable p.1) :
    ∀ acc : Manifest, ((acc++m).map Prod.fst).Nodup →
      decodeFields (m.flatMap entryFields) acc = .ok (acc++m) := by
  induction m with
  | nil => intro acc _; simp [decodeFields]
  | cons p m ih =>
    intro acc hn
    obtain ⟨path,digest⟩ := p
    obtain ⟨⟨hp,hd⟩,he⟩ := hv (path,digest) (by simp)
    have hnew : (acc.any fun p => decide (p.1 = path)) = false := by
      rw [List.any_eq_false]
      intro q hq
      rw [List.map_append,List.nodup_append] at hn
      simpa using hn.2.2 q.1 (List.mem_map_of_mem hq) path (by simp)
    have hdec := decodeAscii_utf8 fun c hc => (digest_chars hd c hc).2
    rw [List.flatMap_cons,entryFields,List.cons_append,List.cons_append,List.nil_append,decodeFields]
    simp only [decode_utf8 he,hdec,hp,hd,hnew]
    rw [if_neg (by simp),ih (fun q hq => hv q (List.mem_cons_of_mem _ hq)) _ (by simpa using hn)]
    simp

end Entries

section RoundTrip

lemma sortPaths_perm (m : Manifest) : (sortPaths m).Perm m := List.perm_insertionSort _ _

lemma sortPaths_sorted (m : Manifest) : (sortPaths m).Pairwise fun a b => a.1 ≤ b.1 :=
  List.pairwise_insertionSort (fun a b : PyStr × PyStr => a.1 ≤ b.1) m

lemma encodeManifest_sortPaths (m : Manifest) : encodeManifest (sortPaths m) = encodeManifest m := by
  have h : sortPaths (sortPaths m) = sortPaths m := (sortPaths_sorted m).insertionSort_eq
  rw [encodeManifest,encodeManifest,h]

lemma checkNoFileDirClash_perm {m n : Manifest} (h : m.Perm n) :
    checkNoFileDirClash m = checkNoFileDirClash n := by
  unfold checkNoFileDirClash
  rw [h.any_eq]
  simp only [h.any_eq]

/-- The tree object of a manifest that put_tree accepts decodes to that manifest. -/
theorem decodeTree_encodeManifest {m : Manifest} {b : Bytes} (hv : ∀ p ∈ m, ValidEntry p)
    (hn : (m.map Prod.fst).Nodup) (hc : checkNoFileDirClash m = .ok ())
    (h : encodeManifest m = .ok b) : decodeTree b = .ok (sortPaths m) := by
  have hp := sortPaths_perm m
  obtain ⟨henc,hb⟩ := encodeManifest_ok h
  have hfields : ∀ f ∈ (sortPaths m).flatMap entryFields, 0 ∉ f := by
    intro f hf h0
    obtain ⟨p,hm,hf⟩ := List.mem_flatMap.mp hf
    have hm := hp.mem_iff.mp hm
    rcases List.mem_pair.mp hf with rfl | rfl
    · exact validateTreePath_nul (hv p hm).path (zero_mem_of_utf8 h0 (henc p hm).1)
    · have := (digest_chars (hv p hm).digest 0 (zero_mem_of_utf8 h0 (henc p hm).2)).1
      exact absurd this (by decide)
  have hdec := decodeFields_entries (m := sortPaths m)
    (fun p hm => ⟨hv p (hp.mem_iff.mp hm),(henc p (hp.mem_iff.mp hm)).1⟩) []
    (by simpa using (hp.map Prod.fst).nodup_iff.mpr hn)
  by_cases hne : (sortPaths m).flatMap entryFields = []
  · have hm : sortPaths m = [] := by
      cases hs : sortPaths m with
      | nil => rfl
      | cons p n => rw [hs] at hne; simp [entryFields] at hne
    rw [hb,hne,decodeTree,List.flatMap_nil,if_pos rfl,hm]
  · rw [flatMap_zero hne] at hb
    have hdrop : b.dropLast = List.intercalate [0] ((sortPaths m).flatMap entryFields) := by
      rw [hb,List.dropLast_concat]
    have hlast : b.getLast? = some 0 := by rw [hb,List.getLast?_concat]
    have hb0 : b ≠ [] := by rw [hb]; simp
    rw [decodeTree,if_neg hb0,if_neg (by simp [hlast]),hdrop,List.splitOn_intercalate 0 hfields hne,
      hdec]
    simp only [List.nil_append,encodeManifest_sortPaths,h,checkNoFileDirClash_perm hp,hc]
    exact if_neg (by simp)

end RoundTrip

end Stele
