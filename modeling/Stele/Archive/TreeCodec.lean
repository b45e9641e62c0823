import Stele.Archive.Store
import Stele.Archive.TreeRoundTrip

/-! The tree codec: decode_tree accepts the canonical bytes of the manifests that put_tree
accepts, and nothing else. -/
namespace Stele
open Python

variable {m n : Manifest} {data : Bytes}

namespace Manifest

/-- A dict of safe relative paths and lowercase hex digests, no path both a file and a
directory. -/
structure Valid (m : Manifest) : Prop where
  entries : ∀ p ∈ m, ValidEntry p
  keys : (Dict.keys m).Nodup
  noClash : checkNoFileDirClash m = .ok ()

/-- Two dicts with the same items are equal. -/
lemma pyEq_of_perm (hn : (Dict.keys n).Nodup) (h : m.Perm n) : m.toPy.pyEq n.toPy = true := by
  refine (pyEq_dict _ _).mpr ⟨_,rfl,by simp [h.length_eq],fun p hp => ?_⟩
  obtain ⟨q,hq,rfl⟩ := List.mem_map.mp hp
  have hk : ((n.map fun p => (PyKey.str p.1,PyVal.str p.2)).map Prod.fst).Nodup := by
    rw [List.map_map]
    have := hn.map (fun _ _ => PyKey.str.inj : Function.Injective PyKey.str)
    rwa [Dict.keys,List.map_map] at this
  exact ⟨.str q.2,(find_str hk).mpr (List.mem_map_of_mem (h.mem_iff.mp hq)),by simp [PyVal.pyEq]⟩

end Manifest

section Decoder

lemma utf8_decodeAscii {b : Bytes} {s : PyStr} (h : decodeAscii b = some s) : utf8 s = b := by
  unfold decodeAscii at h
  split_ifs at h with hb
  obtain rfl := Option.some.inj h
  have hlt : ∀ c ∈ b, c.toNat < 128 := by
    intro c hc
    have := List.all_eq_true.mp hb c hc
    simpa [UInt8.lt_iff_toNat_lt] using this
  have hval : ∀ c ∈ b, (Fin.ofNat 0x110000 c.toNat).val = c.toNat := by
    intro c hc
    have := hlt c hc
    rw [Fin.val_ofNat]
    omega
  rw [utf8_ascii,List.map_map]
  · refine (List.map_congr_left fun c hc => ?_).trans (List.map_id b)
    simp only [Function.comp_apply,hval c hc,UInt8.ofNat_toNat,id]
  · intro c hc
    obtain ⟨d,hd,rfl⟩ := List.mem_map.mp hc
    rw [hval d hd]
    exact hlt d hd

/-- The fields that were accepted are those of the entries. -/
lemma decodeFields_ok (fields : List Bytes) : ∀ acc : Manifest, decodeFields fields acc = .ok m →
    ∃ n, m = acc++n ∧ fields = n.flatMap entryFields ∧ (∀ p ∈ n, ValidEntry p ∧ Encodable p.1) ∧
      ((Dict.keys acc).Nodup → (Dict.keys m).Nodup) := by
  induction fields using List.twoStepInduction with
  | nil =>
    intro acc h
    obtain rfl := Except.ok.inj h
    exact ⟨[],by simp,rfl,List.forall_mem_nil _,id⟩
  | singleton b => exact nofun
  | cons_cons a b fields ih _ =>
    intro acc h
    rw [decodeFields] at h
    split at h
    · rename_i path digest ha hb
      split at h
      · cases h
      · rename_i hp
        split_ifs at h with hcond
        rw [not_or,Bool.not_eq_false,Bool.not_eq_true,List.any_eq_false] at hcond
        obtain ⟨n,hm,hf,hv,hn⟩ := ih _ h
        have hpath := encode_eq_some.mp (encode_decode ha)
        refine ⟨(path,digest) :: n,by simp [hm],?_,?_,fun hacc => hn ?_⟩
        · rw [List.flatMap_cons,← hf,entryFields,hpath.2,utf8_decodeAscii hb]
          rfl
        · exact List.forall_mem_cons.mpr ⟨⟨⟨hp,hcond.1⟩,hpath.1⟩,hv⟩
        · rw [Dict.keys_append]
          refine List.nodup_append.mpr ⟨hacc,by simp [Dict.keys],fun k hk l hl => ?_⟩
          obtain ⟨q,hq,rfl⟩ := List.mem_map.mp hk
          obtain rfl := List.mem_singleton.mp hl
          simpa using hcond.2 q hq
    · cases h

lemma decodeFields_error {e : Exc} (fields : List Bytes) : ∀ acc : Manifest,
    decodeFields fields acc = .error e → e = .recordFormat := by
  induction fields using List.twoStepInduction with
  | nil => exact nofun
  | singleton b =>
    intro acc h
    exact (Except.error.inj h).symm
  | cons_cons a b fields ih _ =>
    intro acc h
    rw [decodeFields] at h
    split at h
    · split at h
      · exact (Except.error.inj h).symm
      · split_ifs at h
        · exact (Except.error.inj h).symm
        · exact ih _ h
    · exact (Except.error.inj h).symm

/-- Text that UTF-8 can encode is encoded. -/
lemma encodeManifest_total (h : ∀ p ∈ m, Encodable p.1 ∧ Encodable p.2) :
    ∃ b, encodeManifest m = .ok b := by
  have hs : ∀ p ∈ sortPaths m, encodeEntry p = .ok (utf8 p.1++0 :: (utf8 p.2++[0])) := fun p hp =>
    if_pos (h p ((sortPaths_perm m).mem_iff.mp hp))
  have hm : (sortPaths m).mapM encodeEntry =
      .ok ((sortPaths m).map fun p => utf8 p.1++0 :: (utf8 p.2++[0])) :=
    mapM_ok.mpr (List.forall₂_map_right_iff.mpr (List.forall₂_same.mpr hs))
  exact ⟨_,by rw [encodeManifest,hm]; rfl⟩

/-- What decode_tree accepts is the encoding of a valid manifest, the one that it returns. -/
lemma decodeTree_ok (h : decodeTree data = .ok m) : m.Valid ∧ encodeManifest m = .ok data := by
  unfold decodeTree at h
  split_ifs at h with h1 h2
  · obtain rfl := Except.ok.inj h
    exact ⟨⟨List.forall_mem_nil _,List.nodup_nil,rfl⟩,by rw [h1]; rfl⟩
  · split at h
    · cases h
    · rename_i m' hm
      obtain ⟨n,hm',-,hv,hn⟩ := decodeFields_ok _ _ hm
      obtain rfl : m' = n := hm'
      split at h
      · cases h
      · rename_i b hb
        split_ifs at h with hd
        split at h
        · cases h
        · rename_i hc
          obtain rfl := Except.ok.inj h
          rw [not_not] at hd
          exact ⟨⟨fun p hp => (hv p hp).1,hn List.nodup_nil,hc⟩,hd ▸ hb⟩

lemma checkNoFileDirClash_error {e : Exc} (h : checkNoFileDirClash m = .error e) :
    e = .recordFormat := by
  unfold checkNoFileDirClash at h
  split_ifs at h
  exact (Except.error.inj h).symm

lemma decodeTree_error {e : Exc} (h : decodeTree data = .error e) : e = .recordFormat := by
  unfold decodeTree at h
  split_ifs at h
  · exact (Except.error.inj h).symm
  · split at h
    · rename_i hm
      obtain rfl := Except.error.inj h
      exact decodeFields_error _ _ hm
    · rename_i m' hm
      obtain ⟨n,hm',-,hv,-⟩ := decodeFields_ok _ _ hm
      obtain rfl : m' = n := hm'
      obtain ⟨b,hb⟩ := encodeManifest_total fun p hp =>
        ⟨(hv p hp).2,digest_encodable (hv p hp).1.digest⟩
      simp only [hb] at h
      split_ifs at h
      · exact (Except.error.inj h).symm
      · split at h
        · rename_i hc
          obtain rfl := Except.error.inj h
          exact checkNoFileDirClash_error hc
        · cases h

end Decoder

section Encoder

lemma Archive.checkEntries_ok {a : Archive} (h : a.checkEntries m = .ok ()) :
    ∀ p ∈ m, ValidEntry p := by
  induction m with
  | nil => exact List.forall_mem_nil _
  | cons p m ih =>
    obtain ⟨path,digest⟩ := p
    obtain ⟨⟨⟩,hp,h⟩ := except_bind_ok.mp h
    obtain ⟨stored,hs,h⟩ := except_bind_ok.mp h
    have hd : isDigest digest = true := by
      unfold has at hs
      split_ifs at hs with hd
      exact hd
    cases stored with
    | false => cases h
    | true => exact List.forall_mem_cons.mpr ⟨⟨hp,hd⟩,ih h⟩

/-- put_tree stores the canonical bytes of a valid manifest. -/
lemma Archive.putTree_ok {H : Hasher} {a a' : Archive} {digest : PyStr} (hk : (Dict.keys m).Nodup)
    (h : a.putTree H m = (.ok digest,a')) : m.Valid ∧ ∃ b, encodeManifest m = .ok b := by
  unfold putTree at h
  split at h
  · cases h
  · rename_i b hb
    obtain ⟨⟨⟩,hentries,hb⟩ := except_bind_ok.mp hb
    obtain ⟨⟨⟩,hclash,hb⟩ := except_bind_ok.mp hb
    exact ⟨⟨checkEntries_ok hentries,hk,hclash⟩,b,hb⟩

lemma Manifest.Valid.decode (hm : m.Valid) (h : encodeManifest m = .ok data) :
    decodeTree data = .ok (sortPaths m) := decodeTree_encodeManifest hm.entries hm.keys hm.noClash h

/-- Valid manifests with one encoding are one dict. -/
lemma encodeManifest_inj (hm : m.Valid) (hn : n.Valid) (h : encodeManifest m = .ok data)
    (h' : encodeManifest n = .ok data) : m.Perm n := by
  have he := (hm.decode h).symm.trans (hn.decode h')
  exact (sortPaths_perm m).symm.trans (Except.ok.inj he ▸ sortPaths_perm n)

lemma sha256Manifest_ok {H : Hasher} {digest : PyStr} : sha256Manifest H m = .ok digest ↔
    ∃ data, encodeManifest m = .ok data ∧ H.hexdigest data = digest := by
  unfold sha256Manifest
  cases encodeManifest m <;> simp [Except.map]

end Encoder

/-- A manifest that put_tree accepts is decoded to an equal dict; decode_tree accepts the
encodings of valid manifests and refuses all else with RecordFormatError; valid manifests with
one encoding are equal, and so are those with one address, unless the hash collides on their
encodings. -/
theorem tree_codec (H : Hasher) :
    (∀ (m : Manifest) (a a' : Archive) (digest : PyStr), (Dict.keys m).Nodup →
      a.putTree H m = (.ok digest,a') → ∃ data n, encodeManifest m = .ok data ∧
        decodeTree data = .ok n ∧ n.toPy.pyEq m.toPy = true) ∧
    (∀ data, (∃ m, decodeTree data = .ok m) ↔ ∃ m : Manifest, m.Valid ∧ encodeManifest m = .ok data) ∧
    (∀ data e, decodeTree data = .error e → e = .recordFormat) ∧
    (∀ (m n : Manifest) (data : Bytes), m.Valid → n.Valid → encodeManifest m = .ok data →
      encodeManifest n = .ok data → m.toPy.pyEq n.toPy = true) ∧
    ∀ (m n : Manifest) (digest : PyStr), m.Valid → n.Valid → sha256Manifest H m = .ok digest →
      sha256Manifest H n = .ok digest → m.toPy.pyEq n.toPy = true ∨
        ∃ data data', encodeManifest m = .ok data ∧ encodeManifest n = .ok data' ∧ data ≠ data' ∧
          H.hexdigest data = H.hexdigest data' := by
  refine ⟨fun m a a' digest hk h => ?_,fun data => ⟨?_,?_⟩,fun data e => decodeTree_error,
    fun m n data hm hn h h' => Manifest.pyEq_of_perm hn.keys (encodeManifest_inj hm hn h h'),
    fun m n digest hm hn h h' => ?_⟩
  · obtain ⟨hm,data,hb⟩ := Archive.putTree_ok hk h
    exact ⟨data,_,hb,hm.decode hb,Manifest.pyEq_of_perm hm.keys (sortPaths_perm m)⟩
  · rintro ⟨m,hm⟩
    exact ⟨m,decodeTree_ok hm⟩
  · rintro ⟨m,hm,hb⟩
    exact ⟨_,hm.decode hb⟩
  · obtain ⟨b,hb,hd⟩ := sha256Manifest_ok.mp h
    obtain ⟨c,hc,hd'⟩ := sha256Manifest_ok.mp h'
    by_cases he : b = c
    · subst he
      exact Or.inl (Manifest.pyEq_of_perm hn.keys (encodeManifest_inj hm hn hb hc))
    · exact Or.inr ⟨b,c,hb,hc,he,hd.trans hd'.symm⟩

/-- Two files with one content, and an archive that holds it. -/
def sampleTree : Manifest :=
  [(lit "b/x",Hasher.checksum.hexdigest [7]),(lit "a",Hasher.checksum.hexdigest [7])]

def treeArchive : Archive where
  blobs d := if d = Hasher.checksum.hexdigest [7] then some [7] else none
  snapshots _ _ := none
  sources _ := none

/-- That tree is put and read back, in whatever order its paths were given, and half an entry is
refused. -/
theorem tree_codec_sample :
    (∃ digest archive data m, treeArchive.putTree .checksum sampleTree = (.ok digest,archive) ∧
      encodeManifest sampleTree = .ok data ∧ decodeTree data = .ok m ∧
      m.toPy.pyEq sampleTree.toPy = true ∧ encodeManifest sampleTree.reverse = .ok data ∧
      sampleTree.toPy.pyEq (Manifest.toPy sampleTree.reverse) = true) ∧
    ∃ e, decodeTree (utf8 (lit "a")++[0]) = .error e ∧ e = .recordFormat := by
  obtain ⟨hput,-,herror,hinj,-⟩ := tree_codec .checksum
  have hvalid : ∀ m : Manifest, m.Perm sampleTree → checkNoFileDirClash m = .ok () → m.Valid := by
    intro m hm hclash
    have hdigest : isDigest (Hasher.checksum.hexdigest [7]) = true := Hasher.digest_form _ _
    have hentry : ∀ p ∈ sampleTree, ValidEntry p :=
      List.forall_mem_cons.mpr ⟨⟨by decide,hdigest⟩,List.forall_mem_singleton.mpr ⟨by decide,hdigest⟩⟩
    have hkeys : (Dict.keys sampleTree).Nodup := by decide
    exact ⟨fun p hp => hentry p (hm.mem_iff.mp hp),(hm.map Prod.fst).nodup_iff.mpr hkeys,hclash⟩
  have hstored : (treeArchive.putTree .checksum sampleTree).1.toOption.isSome = true := by decide +kernel
  have hbytes : (encodeManifest sampleTree.reverse).toOption = (encodeManifest sampleTree).toOption := by
    decide +kernel
  have hhalf : decodeTree (utf8 (lit "a")++[0]) = .error .recordFormat := by decide +kernel
  refine ⟨?_,_,hhalf,herror _ _ hhalf⟩
  have hs : sampleTree.Valid := hvalid _ (.refl _) (by decide +kernel)
  have hr : Manifest.Valid sampleTree.reverse := hvalid _ (List.reverse_perm _) (by decide +kernel)
  cases hp : treeArchive.putTree .checksum sampleTree with
  | mk r archive =>
    rw [hp] at hstored
    cases r with
    | error e => cases hstored
    | ok digest =>
      obtain ⟨data,m,hb,hd,he⟩ := hput _ _ _ _ hs.keys hp
      have hback : encodeManifest sampleTree.reverse = .ok data := by
        rw [hb] at hbytes
        cases hrev : encodeManifest sampleTree.reverse with
        | error e =>
          rw [hrev] at hbytes
          cases hbytes
        | ok data' =>
          rw [hrev] at hbytes
          exact congrArg _ (Option.some.inj hbytes)
      exact ⟨digest,archive,data,m,rfl,hb,hd,he,hback,hinj _ _ _ hs hr hb hback⟩

end Stele
