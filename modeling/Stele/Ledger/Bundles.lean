import Stele.Archive.TreeCodec
import Stele.Ledger.Steps

/-! What archive_bundle leaves in the archive: every file of the bundle and its tree, which stay
as long as nothing published is altered. -/
namespace Stele
open Python

variable {H : Hasher} {a b : Archive} {m n : Manifest} {digest hash : PyStr} {data : Bytes}

/-- At most one byte string has the digest. -/
def OneContent (H : Hasher) (digest : PyStr) : Prop :=
  ∀ x y, H.hexdigest x = digest → H.hexdigest y = digest → x = y

/-- A hash that gives these bytes a digest of their own. -/
def Hasher.marking (data : Bytes) : Hasher where
  hexdigest b := if b = data then List.replicate 64 (cp 'f')
    else cp '0' :: hexDigits 63 (b.foldl (fun a c => a*257+c.toNat+1) 0)
  digest_form b := by
    split_ifs
    · decide
    · obtain ⟨hl,hf⟩ := hexDigits_form 63 (b.foldl (fun a c => a*257+c.toNat+1) 0)
      have h0 : decide (48 ≤ (cp '0').val ∧ (cp '0').val ≤ 57) = true := by decide
      simpa [Stele.isDigest,hl,h0] using hf

def markedDigest : PyStr := List.replicate 64 (cp 'f')

lemma marking_unique {data x : Bytes} (h : (Hasher.marking data).hexdigest x = markedDigest) : x = data := by
  by_contra hne
  rw [Hasher.marking] at h
  dsimp only at h
  rw [if_neg hne,markedDigest,List.replicate_succ] at h
  exact absurd (List.cons.inj h).1 (by decide)

lemma marking_self (data : Bytes) : (Hasher.marking data).hexdigest data = markedDigest := if_pos rfl

lemma marking_oneContent (data : Bytes) : OneContent (.marking data) markedDigest :=
  fun _ _ hx hy => (marking_unique hx).trans (marking_unique hy).symm

/-- The bundle can be read from the archive, file by file; and so can its tree, which lists these
files, unless other bytes have its digest. -/
structure BundleArchived (H : Hasher) (a : Archive) (hash : PyStr) (m : Manifest) : Prop where
  files : ∀ p ∈ m, ∃ data, a.read H p.2 = .ok data
  tree : OneContent H hash → ∃ n, a.readTree H hash = .ok n ∧ n.Perm m

namespace Archive

lemma read_iff : a.read H digest = .ok data ↔
    isDigest digest = true ∧ a.blobs digest = some data ∧ H.hexdigest data = digest := by
  unfold read
  cases isDigest digest with
  | false => simp
  | true =>
    cases a.blobs digest with
    | none => simp
    | some stored =>
      by_cases h : H.hexdigest stored = digest
      · simp only [h,Bool.true_eq_false,if_false,if_true,Except.ok.injEq,Option.some.injEq,true_and]
        exact ⟨fun he => ⟨he,he ▸ h⟩,fun he => he.1⟩
      · simp only [h,Bool.true_eq_false,if_false,reduceCtorEq,Option.some.injEq,true_and,false_iff]
        rintro ⟨rfl,he⟩
        exact h he

namespace Grows

lemma read (h : a.Grows b) (hr : a.read H digest = .ok data) : b.read H digest = .ok data := by
  obtain ⟨hd,hb,hh⟩ := read_iff.mp hr
  exact read_iff.mpr ⟨hd,h.blobs _ _ hb,hh⟩

lemma readTree (h : a.Grows b) (hr : a.readTree H digest = .ok n) : b.readTree H digest = .ok n := by
  obtain ⟨data,hd,ht⟩ := except_bind_ok.mp hr
  exact except_bind_ok.mpr ⟨data,h.read hd,ht⟩

end Grows

/-- What put_bytes returns can be read. -/
lemma putBytes_ok (h : a.putBytes H data = (.ok digest,b)) : digest = H.hexdigest data ∧
    ∃ stored, b.read H digest = .ok stored := by
  unfold putBytes at h
  cases hb : a.blobs (H.hexdigest data) with
  | none =>
    rw [hb] at h
    obtain ⟨hd,rfl⟩ := Prod.mk.inj h
    obtain rfl := Except.ok.inj hd
    exact ⟨rfl,data,read_iff.mpr ⟨H.digest_form data,if_pos rfl,rfl⟩⟩
  | some stored =>
    rw [hb] at h
    dsimp only at h
    split_ifs at h with hs
    · obtain ⟨hd,rfl⟩ := Prod.mk.inj h
      obtain rfl := Except.ok.inj hd
      exact ⟨rfl,stored,read_iff.mpr ⟨H.digest_form data,hb,hs⟩⟩
    · cases (Prod.mk.inj h).1

end Archive

lemma BundleArchived.grows (h : BundleArchived H a hash m) (hg : a.Grows b) : BundleArchived H b hash m :=
  ⟨fun p hp => (h.files p hp).imp fun _ => hg.read,fun hu => (h.tree hu).imp fun _ hn => ⟨hg.readTree hn.1,hn.2⟩⟩

/-- ingest_artifacts has stored what it returns. -/
lemma ingestArtifacts_stored {dir : PurePath} {reads : Reads} (paths : List PurePath) :
    ∀ {i : ℕ} {acc stored : Manifest} {a b : Archive},
      ingestArtifacts H dir reads paths i acc a = (.ok stored,b) → (Dict.keys acc).Nodup →
      (∀ p ∈ acc, ∃ data, a.read H p.2 = .ok data) →
      (Dict.keys stored).Nodup ∧ ∀ p ∈ stored, ∃ data, b.read H p.2 = .ok data := by
  induction paths with
  | nil =>
    intro i acc stored a b h hn hacc
    obtain ⟨hs,rfl⟩ := Prod.mk.inj h
    obtain rfl := Except.ok.inj hs
    exact ⟨hn,hacc⟩
  | cons path paths ih =>
    intro i acc stored a b h hn hacc
    rw [ingestArtifacts] at h
    split at h
    · cases (Prod.mk.inj h).1
    rename_i rel data _
    cases hp : a.putBytes H data with
    | mk r c =>
      rw [hp] at h
      cases r with
      | error e => cases (Prod.mk.inj h).1
      | ok digest =>
        have hg : a.Grows c := by
          have := Archive.putBytes_grows (H := H) data a
          rwa [hp] at this
        refine ih h (Dict.nodup_set hn _ _) fun q hq => ?_
        rcases Dict.mem_set hq with hq | rfl
        · exact (hacc q hq).imp fun _ => hg.read
        · exact (Archive.putBytes_ok hp).2

/-- A dict equal to a manifest, neither with a key twice, lists the same files. -/
lemma Manifest.perm_of_pyEq (hm : (Dict.keys m).Nodup) (hn : (Dict.keys n).Nodup)
    (h : m.toPy.pyEq n.toPy = true) : m.Perm n := by
  obtain ⟨zs,hz,hlen,hall⟩ := (pyEq_dict _ _).mp h
  obtain rfl := PyVal.dict.inj hz
  have hk : ((n.map fun p => (PyKey.str p.1,PyVal.str p.2)).map Prod.fst).Nodup := by
    rw [List.map_map]
    have := hn.map (fun _ _ => PyKey.str.inj : Function.Injective PyKey.str)
    rwa [Dict.keys,List.map_map] at this
  have hsub : m ⊆ n := by
    intro p hp
    obtain ⟨w,hw,he⟩ := hall _ (List.mem_map_of_mem hp)
    obtain ⟨q,hq,hpq⟩ := List.mem_map.mp ((find_str hk).mp hw)
    obtain ⟨hkey,rfl⟩ := Prod.mk.inj hpq
    have hval : p.2 = q.2 := by simpa [PyVal.pyEq] using he
    rwa [Prod.ext (PyKey.str.inj hkey).symm hval]
  exact (List.subperm_of_subset (List.Nodup.of_map _ hm) hsub).perm_of_length_le (by simpa using hlen.ge)

/-- put_tree returns the digest of the manifest, whose tree can then be read. -/
lemma Archive.putTree_stored (hm : (Dict.keys m).Nodup) (h : a.putTree H m = (.ok digest,b)) :
    OneContent H digest → ∃ n, b.readTree H digest = .ok n ∧ n.Perm m := by
  obtain ⟨hv,data,hdata⟩ := Archive.putTree_ok hm h
  unfold Archive.putTree at h
  split at h
  · cases (Prod.mk.inj h).1
  rename_i data' hd
  obtain ⟨⟨⟩,-,hd⟩ := except_bind_ok.mp hd
  obtain ⟨⟨⟩,-,hd⟩ := except_bind_ok.mp hd
  obtain rfl := Except.ok.inj (hdata.symm.trans hd)
  obtain ⟨rfl,stored,hs⟩ := putBytes_ok h
  intro hu
  obtain rfl := hu stored data (read_iff.mp hs).2.2 rfl
  exact ⟨_,except_bind_ok.mpr ⟨_,hs,hv.decode hdata⟩,sortPaths_perm m⟩

lemma verifyBlobs_iff {ds : List PyStr} : (ds.map PyVal.str).forM (verifyBlob H a) = .ok () ↔
    ∀ d ∈ ds, ∃ data, a.read H d = .ok data := by
  induction ds with
  | nil => exact ⟨fun _ => List.forall_mem_nil _,fun _ => rfl⟩
  | cons d ds ih =>
    rw [List.forall_mem_cons,← ih]
    change (verifyBlob H a (.str d) >>= fun _ => (ds.map PyVal.str).forM (verifyBlob H a)) = .ok () ↔ _
    rw [verifyBlob]
    cases a.read H d with
    | error e => simp [Except.map,bind,Except.bind]
    | ok data => simp [Except.map,bind,Except.bind]

/-- verify_archived_bundle, of a manifest with no path twice. -/
theorem verifyArchivedBundle_iff (hm : (Dict.keys m).Nodup) : verifyArchivedBundle H a hash m.toPy = .ok () ↔
    (∃ n, a.readTree H hash = .ok n ∧ n.Perm m) ∧ ∀ p ∈ m, ∃ data, a.read H p.2 = .ok data := by
  have hdigests : manifestDigests m.toPy = .ok ((m.map Prod.snd).map PyVal.str) := by
    simp [manifestDigests,Manifest.toPy,Function.comp_def]
  unfold verifyArchivedBundle
  rw [hdigests]
  cases hr : a.readTree H hash with
  | error e => simp [bind,Except.bind]
  | ok n =>
    obtain ⟨data,-,hd⟩ := except_bind_ok.mp hr
    have hn := (decodeTree_ok hd).1.keys
    have hperm : n.toPy.pyEq m.toPy = true ↔ n.Perm m :=
      ⟨Manifest.perm_of_pyEq hn hm,Manifest.pyEq_of_perm hm⟩
    have hfiles := @verifyBlobs_iff H a (m.map Prod.snd)
    rw [List.forall_mem_map] at hfiles
    by_cases he : n.toPy.pyEq m.toPy = true
    · simp only [bind,Except.bind,he,Bool.true_eq_false,if_false]
      exact hfiles.trans ⟨fun h => ⟨⟨n,rfl,hperm.mp he⟩,h⟩,fun h => h.2⟩
    · simp only [bind,Except.bind,Bool.eq_false_iff.mpr he,if_true,reduceCtorEq,false_iff]
      rintro ⟨⟨_,hn',hp⟩,-⟩
      obtain rfl := Except.ok.inj hn'
      exact he (hperm.mpr hp)

/-- After archive_bundle the bundle is in the archive. -/
theorem archiveBundle_ok {dir : PurePath} {reads : Reads} (hm : (Dict.keys m).Nodup)
    (h : archiveBundle H dir m.toPy hash reads a = (.ok (),b)) : BundleArchived H b hash m := by
  unfold archiveBundle at h
  split at h
  · cases (Prod.mk.inj h).1
  rename_i paths _
  cases hi : ingestArtifacts H dir reads (paths.map fun p => dir.join (.ofStr p)) 0 [] a with
  | mk r c =>
    rw [hi] at h
    cases r with
    | error e =>
      have hverify : verifyArchivedBundle H c hash m.toPy = .ok () ∧ c = b := by
        cases e <;> dsimp only at h
        case fileNotFoundError =>
          cases hv : verifyArchivedBundle H c hash m.toPy with
          | ok u => rw [hv] at h; exact ⟨rfl,(Prod.mk.inj h).2⟩
          | error e => rw [hv] at h; cases e <;> cases (Prod.mk.inj h).1
        all_goals cases (Prod.mk.inj h).1
      obtain ⟨hv,rfl⟩ := hverify
      obtain ⟨htree,hfiles⟩ := (verifyArchivedBundle_iff hm).mp hv
      exact ⟨hfiles,fun _ => htree⟩
    | ok stored =>
      obtain ⟨hn,hfiles⟩ := ingestArtifacts_stored _ hi List.nodup_nil (List.forall_mem_nil _)
      dsimp only at h
      split_ifs at h with heq
      · cases (Prod.mk.inj h).1
      have hperm := Manifest.perm_of_pyEq hn hm (by simpa using heq)
      cases ht : c.putTree H stored with
      | mk r d =>
        rw [ht] at h
        cases r with
        | error e => cases (Prod.mk.inj h).1
        | ok digest =>
          dsimp only at h
          split_ifs at h with hd
          · obtain ⟨-,rfl⟩ := Prod.mk.inj h
            subst hd
            have hg : c.Grows d := by
              have := Archive.putTree_grows (H := H) stored c
              rwa [ht] at this
            refine ⟨fun p hp => (hfiles p (hperm.mem_iff.mpr hp)).imp fun _ => hg.read,fun hu => ?_⟩
            obtain ⟨n,hr,hnp⟩ := Archive.putTree_stored hn ht hu
            exact ⟨n,hr,hnp.trans hperm⟩
          · cases (Prod.mk.inj h).1

end Stele
