import Stele.Archive.Publishing

/-! Publishing is atomic: what any number of publishing calls, each stopped after any step, can
leave of the archive. -/
namespace Stele
open Python Interleaving
open Ownership (Meets Looks)

/-- Names in tmp/ are unique and belong to files, what is published is a whole file that was
synced, and a blob's bytes hash to its address. -/
structure Disk.Sound (H : Hasher) (d : Disk) : Prop where
  names : d.temps.keys.Nodup
  made : ∀ p ∈ d.temps, p.2 < d.inodes.length
  finals : ∀ p i, d.finals p = some i → ∃ node, d.inodes[i]? = some node ∧ node.synced = true
  blobs : ∀ digest i node, d.finals (.blob digest) = some i → d.inodes[i]? = some node →
    H.hexdigest node.data = digest

/-- What the others leave as it is: the files of `O`, and everything that is published. -/
structure Disk.Relies (H : Hasher) (O : ℕ → Prop) (d e : Disk) : Prop where
  grows : d.inodes.length ≤ e.inodes.length
  kept : ∀ i, O i → e.inodes[i]? = d.inodes[i]?
  temps : ∀ i, O i → ∀ name, (name,i) ∈ e.temps ↔ (name,i) ∈ d.temps
  unpublished : ∀ i, O i → ∀ p, e.finals p = some i → d.finals p = some i
  published : ∀ p i node, d.finals p = some i → d.inodes[i]? = some node →
    e.finals p = some i ∧ ∃ node', e.inodes[i]? = some node' ∧ node'.data = node.data
  sound : d.Sound H → e.Sound H

namespace Disk

variable {H : Hasher} {O : ℕ → Prop} {d e : Disk} {i : ℕ} {p : FinalPath} {data : Bytes}

lemma Relies.refl (H : Hasher) (O : ℕ → Prop) (d : Disk) : Relies H O d d where
  grows := le_rfl
  kept _ _ := rfl
  temps _ _ _ := Iff.rfl
  unpublished _ _ _ h := h
  published _ _ node hp hn := ⟨hp,node,hn,rfl⟩
  sound h := h

lemma Relies.trans {f : Disk} (h : Relies H O d e) (h' : Relies H O e f) : Relies H O d f where
  grows := h.grows.trans h'.grows
  kept i hi := (h'.kept i hi).trans (h.kept i hi)
  temps i hi name := (h'.temps i hi name).trans (h.temps i hi name)
  unpublished i hi p hp := h.unpublished i hi p (h'.unpublished i hi p hp)
  published p i node hp hn := by
    obtain ⟨hp',node',hn',hd'⟩ := h.published p i node hp hn
    obtain ⟨hp'',node'',hn'',hd''⟩ := h'.published p i node' hp' hn'
    exact ⟨hp'',node'',hn'',hd''.trans hd'⟩
  sound hs := h'.sound (h.sound hs)

lemma Relies.weaken (h : Relies H O d e) : Relies H (fun _ => False) d e where
  grows := h.grows
  kept := nofun
  temps := nofun
  unpublished := nofun
  published := h.published
  sound := h.sound

def rules (H : Hasher) : Ownership.Rules Disk where
  size d := d.inodes.length
  rely := Relies H
  refl := Relies.refl H
  trans := Relies.trans
  weaken := Relies.weaken
  grows := Relies.grows

lemma published_eq_some : d.published p = some data ↔
    ∃ i node, d.finals p = some i ∧ d.inodes[i]? = some node ∧ node.data = data := by
  simp only [published,Option.bind_eq_some_iff,Option.map_eq_some_iff]
  constructor
  · rintro ⟨i,hi,node,hn,hd⟩
    exact ⟨i,node,hi,hn,hd⟩
  · rintro ⟨i,node,hi,hn,hd⟩
    exact ⟨i,hi,node,hn,hd⟩

/-- What is published stays published. -/
lemma Relies.keeps (h : Relies H O d e) (hp : d.published p = some data) : e.published p = some data := by
  obtain ⟨i,node,hi,hn,hd⟩ := published_eq_some.mp hp
  obtain ⟨hi',node',hn',hd'⟩ := h.published p i node hi hn
  exact published_eq_some.mpr ⟨i,node',hi',hn',hd'.trans hd⟩

lemma Sound.published (h : d.Sound H) (hp : d.finals p = some i) : ∃ data, d.published p = some data := by
  obtain ⟨node,hn,-⟩ := h.finals p i hp
  exact ⟨node.data,published_eq_some.mpr ⟨i,node,hp,hn,rfl⟩⟩

lemma Sound.hexdigest {digest : PyStr} (h : d.Sound H) (hp : d.published (.blob digest) = some data) :
    H.hexdigest data = digest := by
  obtain ⟨i,node,hi,hn,rfl⟩ := published_eq_some.mp hp
  exact h.blobs digest i node hi hn

lemma sound_empty (H : Hasher) : empty.Sound H where
  names := List.nodup_nil
  made := nofun
  finals := nofun
  blobs := nofun

section Steps

variable {f : Inode → Inode} {name : ℕ}

lemma getElem?_update (d : Disk) (i : ℕ) (f : Inode → Inode) (j : ℕ) :
    (d.update i f).inodes[j]? = if i = j then d.inodes[j]?.map f else d.inodes[j]? := by
  simp only [update,List.getElem?_modify]
  by_cases h : i = j
  · simp only [if_pos h]
    rfl
  · simp [if_neg h]

/-- A step on a file that nobody else owns, and that changes no published byte. -/
lemma fair_update (hO : O i) (hf : (∀ p, d.finals p ≠ some i) ∨
    ∀ node, (f node).data = node.data ∧ (f node).synced = node.synced) :
    (rules H).Fair O d (d.update i f) := by
  have hpub : ∀ p j node, d.finals p = some j → d.inodes[j]? = some node →
      ∃ node', (d.update i f).inodes[j]? = some node' ∧ node'.data = node.data ∧
        node'.synced = node.synced := by
    intro p j node hp hn
    rw [getElem?_update]
    by_cases hij : i = j
    · subst hij
      rcases hf with hf | hf
      · exact absurd hp (hf p)
      · rw [if_pos rfl,hn]
        exact ⟨f node,rfl,hf node⟩
    · rw [if_neg hij]
      exact ⟨node,hn,rfl,rfl⟩
  intro O' hO'
  exact {
    grows := by simp [update]
    kept := fun j hj => by
      have hij : i ≠ j := fun h => (hO' j hj).2 (h ▸ hO)
      rw [getElem?_update,if_neg hij]
    temps := fun _ _ _ => Iff.rfl
    unpublished := fun _ _ _ h => h
    published := fun p j node hp hn => by
      obtain ⟨node',hn',hd,-⟩ := hpub p j node hp hn
      exact ⟨hp,node',hn',hd⟩
    sound := fun hs => {
      names := hs.names
      made := fun q hq => by
        rw [update,List.length_modify]
        exact hs.made q hq
      finals := fun p j hp => by
        obtain ⟨node,hn,hsy⟩ := hs.finals p j hp
        obtain ⟨node',hn',-,hs'⟩ := hpub p j node hp hn
        exact ⟨node',hn',hs'.trans hsy⟩
      blobs := fun digest j node hp hn => by
        obtain ⟨old,ho,-⟩ := hs.finals (.blob digest) j hp
        obtain ⟨node',hn',hd,-⟩ := hpub (.blob digest) j old hp ho
        rw [hn'] at hn
        cases hn
        rw [hd]
        exact hs.blobs digest j old hp ho } }

/-- A call's own file in tmp/. -/
structure HasTemp (H : Hasher) (O : ℕ → Prop) (name i : ℕ) (d : Disk) : Prop where
  sound : d.Sound H
  owned : ∀ j, O j ↔ j = i
  named : ∀ m, (m,i) ∈ d.temps ↔ m = name

/-- The same while it is being written. -/
structure Writing (H : Hasher) (O : ℕ → Prop) (name i : ℕ) (data : Bytes) (synced : Bool) (d : Disk) :
    Prop extends HasTemp H O name i d where
  node : ∃ node, d.inodes[i]? = some node ∧ node.data = data ∧ (synced = true → node.synced = true)
  unseen : ∀ p, d.finals p ≠ some i

variable {synced : Bool}

lemma HasTemp.rely (h : HasTemp H O name i d) (hr : Relies H O d e) : HasTemp H O name i e where
  sound := hr.sound h.sound
  owned := h.owned
  named m := (hr.temps i ((h.owned i).mpr rfl) m).trans (h.named m)

lemma Writing.rely (h : Writing H O name i data synced d) (hr : Relies H O d e) :
    Writing H O name i data synced e where
  toHasTemp := h.toHasTemp.rely hr
  node := by
    rw [hr.kept i ((h.owned i).mpr rfl)]
    exact h.node
  unseen p hp := h.unseen p (hr.unpublished i ((h.owned i).mpr rfl) p hp)

lemma HasTemp.mine (h : HasTemp H O name i d) : O i := (h.owned i).mpr rfl

/-- The temp name is found. -/
lemma HasTemp.get (h : HasTemp H O name i d) : d.temps.get name = some i :=
  Dict.get_of_mem h.sound.names ((h.named name).mpr rfl)

lemma HasTemp.update (h : HasTemp H O name i d) (hf : (rules H).Fair O d (d.update i f)) :
    HasTemp H O name i (d.update i f) where
  sound := hf.nobody.sound h.sound
  owned := h.owned
  named := h.named

lemma Writing.update (h : Writing H O name i data synced d) (data' : Bytes) (synced' : Bool)
    (hf : (rules H).Fair O d (d.update i f))
    (hd : ∀ node : Inode, node.data = data → (synced = true → node.synced = true) →
      (f node).data = data' ∧ (synced' = true → (f node).synced = true)) :
    Writing H O name i data' synced' (d.update i f) where
  toHasTemp := h.toHasTemp.update hf
  node := by
    obtain ⟨node,hn,hdata,hs⟩ := h.node
    rw [getElem?_update,if_pos rfl,hn]
    exact ⟨f node,rfl,hd node hdata hs⟩
  unseen := h.unseen

lemma freshName_fresh (d : Disk) (hint : ℕ) : d.freshName hint ∉ d.temps.keys := by
  rw [freshName]
  by_cases h : hint ∈ d.temps.keys
  · rw [if_pos h]
    have hle : ∀ (ks : List ℕ), ∀ k ∈ ks, k ≤ ks.foldr max 0 := fun ks => by
      induction ks with
      | nil => exact nofun
      | cons a ks ih =>
        intro k hk
        rw [List.foldr_cons]
        rcases List.mem_cons.mp hk with rfl | hk
        · exact le_max_left _ _
        · exact (ih k hk).trans (le_max_right _ _)
    intro hm
    have := hle _ _ hm
    omega
  · rw [if_neg h]
    exact h

/-- A new file in tmp/. -/
lemma fair_mkstemp (O : ℕ → Prop) {m : ℕ} (hm : m ∉ d.temps.keys) (node : Inode) :
    (rules H).Fair O d { d with
      inodes := d.inodes++[node], temps := d.temps++[(m,d.inodes.length)] } := by
  have hold : ∀ j old, d.inodes[j]? = some old → (d.inodes++[node])[j]? = some old := fun j old hj => by
    rw [List.getElem?_append_left (List.getElem?_eq_some_iff.mp hj).1]
    exact hj
  intro O' hO'
  exact {
    grows := by simp
    kept := fun j hj => List.getElem?_append_left (hO' j hj).1
    temps := fun j hj k => by
      have hj' : j < d.inodes.length := (hO' j hj).1
      simp only [List.mem_append,List.mem_singleton,Prod.mk.injEq,or_iff_left_iff_imp]
      rintro ⟨-,rfl⟩
      exact absurd hj' (lt_irrefl _)
    unpublished := fun _ _ _ h => h
    published := fun p j old hp hj => ⟨hp,old,hold j old hj,rfl⟩
    sound := fun hs => {
      names := by
        rw [Dict.keys_append]
        exact List.nodup_append.mpr ⟨hs.names,List.nodup_singleton _,fun a ha b hb hab => by
          simp only [Dict.keys,List.map_cons,List.map_nil,List.mem_singleton] at hb
          exact hm (hb ▸ hab ▸ ha)⟩
      made := fun q hq => by
        rw [List.length_append,List.length_singleton]
        rcases List.mem_append.mp hq with hq | hq
        · exact Nat.lt_succ_of_lt (hs.made q hq)
        · rw [List.mem_singleton.mp hq]
          exact Nat.lt_succ_self _
      finals := fun p j hp => by
        obtain ⟨old,hj,hsy⟩ := hs.finals p j hp
        exact ⟨old,hold j old hj,hsy⟩
      blobs := fun digest j new hp hn => by
        obtain ⟨old,hj,-⟩ := hs.finals (.blob digest) j hp
        rw [hold j old hj] at hn
        cases hn
        exact hs.blobs digest j _ hp hj } }

/-- The link that publishes a file. -/
lemma Writing.fair_link (h : Writing H O name i data true d) (hp : d.finals p = none)
    (hdata : ∀ digest, p = .blob digest → H.hexdigest data = digest) :
    (rules H).Fair O d { d with finals := fun q => if q = p then some i else d.finals q } := by
  obtain ⟨node,hn,hnd,hsy⟩ := h.node
  intro O' hO'
  exact {
    grows := le_rfl
    kept := fun _ _ => rfl
    temps := fun _ _ _ => Iff.rfl
    unpublished := fun j hj q hq => by
      dsimp only at hq
      by_cases hqp : q = p
      · rw [if_pos hqp] at hq
        cases hq
        exact absurd h.mine (hO' i hj).2
      · rwa [if_neg hqp] at hq
    published := fun q j old hq ho => by
      have hqp : q ≠ p := fun he => by
        rw [he,hp] at hq
        cases hq
      dsimp only
      rw [if_neg hqp]
      exact ⟨hq,old,ho,rfl⟩
    sound := fun hs => {
      names := hs.names
      made := hs.made
      finals := fun q j hq => by
        dsimp only at hq
        by_cases hqp : q = p
        · rw [if_pos hqp] at hq
          cases hq
          exact ⟨node,hn,hsy rfl⟩
        · rw [if_neg hqp] at hq
          exact hs.finals q j hq
      blobs := fun digest j old hq ho => by
        dsimp only at hq
        by_cases hqp : FinalPath.blob digest = p
        · rw [if_pos hqp] at hq
          cases hq
          rw [hn] at ho
          cases ho
          rw [hnd]
          exact hdata digest hqp.symm
        · rw [if_neg hqp] at hq
          exact hs.blobs digest j old hq ho } }

/-- unlink of a call's own temp name. -/
lemma HasTemp.fair_unlink (h : HasTemp H O name i d) :
    (rules H).Fair O d { d with temps := d.temps.filter fun p => p.1 ≠ name } := by
  intro O' hO'
  exact {
    grows := le_rfl
    kept := fun _ _ => rfl
    temps := fun j hj m => by
      simp only [List.mem_filter,decide_eq_true_eq,and_iff_left_iff_imp]
      rintro hm rfl
      have hget := Dict.get_of_mem h.sound.names hm
      rw [h.get] at hget
      cases hget
      exact (hO' i hj).2 h.mine
    unpublished := fun _ _ _ hq => hq
    published := fun p j old hp ho => ⟨hp,old,ho,rfl⟩
    sound := fun hs => {
      names := hs.names.sublist (List.filter_sublist.map _)
      made := fun q hq => hs.made q (List.mem_filter.mp hq).1
      finals := hs.finals
      blobs := hs.blobs } }

end Steps

end Disk

namespace BlobStore

open Disk

variable {H : Hasher} {O : ℕ → Prop} {d d₀ : Disk} {name i hint : ℕ} {p : FinalPath} {data : Bytes}
  {synced : Bool} {α : Type}

/-- Nothing of what is owned is left in tmp/. -/
def Clean (O : ℕ → Prop) (d : Disk) : Prop := ∀ j, O j → ∀ m, (m,j) ∉ d.temps

lemma Clean.rely {e : Disk} (h : Clean O d) (hr : Relies H O d e) : Clean O e := fun j hj m hm =>
  h j hj m ((hr.temps j hj m).mp hm)

lemma clean_nothing (d : Disk) : Clean (fun _ => False) d := nofun

lemma mkstemp_meets (hs : d.Sound H) : Meets (rules H) (fun r O e => ∃ name i, r = .ok (name,i) ∧
    Writing H O name i [] false e) (mkstemp hint).run (fun _ => False) d := by
  refine Meets.atomic fun t ht => ?_
  have hfair := fair_mkstemp (H := H) (fun _ => False) (freshName_fresh t hint) ⟨[],false,false⟩
  have hst := ht.sound hs
  refine ⟨hfair,fun u hu => ⟨_,_,rfl,Writing.rely ?_ hu⟩⟩
  exact {
    sound := hfair.nobody.sound hst
    owned := fun j => by
      simp only [Ownership.Rules.made,rules,List.length_append,List.length_singleton,false_or]
      omega
    named := fun m => by
      simp only [List.mem_append,List.mem_singleton,Prod.mk.injEq,and_true,or_iff_right_iff_imp]
      exact fun hm => absurd (hst.made _ hm) (lt_irrefl _)
    node := ⟨⟨[],false,false⟩,by simp,rfl,nofun⟩
    unseen := fun q hq => by
      obtain ⟨node,hn,-⟩ := hst.finals q _ hq
      exact absurd (List.getElem?_eq_some_iff.mp hn).1 (lt_irrefl _) }

/-- A step that makes no file leaves the call with the files it had. -/
lemma made_same {e : Disk} (h : e.inodes.length = d.inodes.length) : (rules H).made O d e = O := by
  funext j
  refine propext ⟨?_,Or.inl⟩
  rintro (hj | ⟨hle,hlt⟩)
  · exact hj
  · have hle' : d.inodes.length ≤ j := hle
    have hlt' : j < e.inodes.length := hlt
    omega

lemma made_update (d : Disk) (i : ℕ) (f : Inode → Inode) : (rules H).made O d (d.update i f) = O :=
  made_same (List.length_modify ..)

/-- One step on a call's own file while it is written. -/
lemma update_meets (h : Writing H O name i data synced d) {f : Inode → Inode} (data' : Bytes)
    (synced' : Bool) (hd : ∀ node : Inode, node.data = data → (synced = true → node.synced = true) →
      (f node).data = data' ∧ (synced' = true → (f node).synced = true)) :
    Meets (rules H) (fun r O e => r = .ok () ∧ Writing H O name i data' synced' e)
      (step fun d => (.ok (),d.update i f)).run O d := by
  refine Meets.atomic fun t ht => ?_
  have hw := h.rely ht
  have hfair := fair_update (H := H) (f := f) hw.mine (Or.inl hw.unseen)
  refine ⟨hfair,fun u hu => ⟨rfl,Writing.rely ?_ hu⟩⟩
  rw [made_update]
  exact hw.update data' synced' hfair hd

lemma write_meets (chunk : Bytes) (h : Writing H O name i data synced d) :
    Meets (rules H) (fun r O e => r = .ok () ∧ Writing H O name i (data++chunk) false e)
      (write i chunk).run O d := by
  induction chunk generalizing data synced O d with
  | nil =>
    refine Meets.ret fun t ht => ⟨rfl,?_⟩
    have hw := h.rely ht
    obtain ⟨node,hn,hd,-⟩ := hw.node
    exact ⟨hw.toHasTemp,⟨node,hn,by rw [hd,List.append_nil],nofun⟩,hw.unseen⟩
  | cons b chunk ih =>
    refine Meets.bindExcept (Meets.mono (update_meets h (data++[b]) false ?_) ?_)
    · exact fun node hd _ => ⟨by rw [hd],nofun⟩
    · rintro r O' t ⟨rfl,hw⟩
      have := ih hw
      rwa [List.append_assoc] at this

lemma writeAll_meets (chunks : List Bytes) (h : Writing H O name i data synced d) :
    Meets (rules H) (fun r O e => r = .ok () ∧ Writing H O name i (data++chunks.flatten) false e)
      (writeAll i chunks).run O d := by
  induction chunks generalizing data synced O d with
  | nil =>
    have := write_meets [] h
    exact this
  | cons chunk chunks ih =>
    refine Meets.bindExcept ((write_meets chunk h).mono ?_)
    rintro r O' t ⟨rfl,hw⟩
    have := ih hw
    rwa [List.append_assoc] at this

/-- _discard of a call's own temp name leaves nothing of it. -/
lemma discard_meets (h : HasTemp H O name i d) :
    Meets (rules H) (fun _ O e => Clean O e) (discard name) O d := by
  refine Meets.bind (Meets.atomic fun t ht => ?_)
  have ht' := h.rely ht
  have hfair := fair_update (H := H) (d := t) (f := fun n => { n with readOnly := false }) ht'.mine
    (Or.inr fun _ => ⟨rfl,rfl⟩)
  simp only [ht'.get,made_update]
  refine ⟨hfair,fun u hu => ?_⟩
  have hu' := (ht'.update hfair).rely hu
  refine Meets.atomic fun v hv => ?_
  have hv' := hu'.rely hv
  have hsame : (rules H).made O v { v with temps := v.temps.filter fun p => p.1 ≠ name } = O :=
    made_same rfl
  refine ⟨hv'.fair_unlink,fun w hw => Clean.rely ?_ hw⟩
  dsimp only
  rw [hsame]
  intro j hj m hm
  obtain ⟨hm,hne⟩ := List.mem_filter.mp hm
  rw [(hv'.owned j).mp hj] at hm
  exact absurd ((hv'.named m).mp hm) (by simpa using hne)

/-- What try ... finally adds to a body that keeps the temp name. -/
lemma finallyDiscard_meets {body : Storing α} {F : Except Exc α → Disk → Prop}
    (hF : ∀ r {s t}, Relies H (fun _ => False) s t → F r s → F r t)
    (h : Meets (rules H) (fun r O e => HasTemp H O name i e ∧ F r e) body.run O d) :
    Meets (rules H) (fun r O e => Clean O e ∧ F r e) (finallyDiscard name body).run O d := by
  refine Meets.bind (h.mono ?_)
  rintro r O' t ⟨ht,hf⟩
  refine Meets.bind ((Meets.frame (hF r) hf (discard_meets ht)).mono ?_)
  rintro - O'' u ⟨hc,hfu⟩
  exact Meets.ret fun v hv => ⟨hc.rely hv,hF r hv.weaken hfu⟩

/-- The temp file of a call: whole, synced and hashed as it was written, unless the chunks
themselves raise. -/
lemma writeTemp_meets (hs : d.Sound H) (chunks : List Bytes) (raises : Option Exc) :
    Meets (rules H) (fun r O e => match raises with
      | none => ∃ name i, r = .ok (name,H.hexdigest chunks.flatten) ∧
          Writing H O name i chunks.flatten true e
      | some x => r = .error x ∧ Clean O e) (writeTemp H hint chunks raises).run (fun _ => False) d := by
  refine Meets.bindExcept ((mkstemp_meets hs).mono ?_)
  rintro r O' t ⟨name,i,rfl,hw⟩
  refine Meets.bindExcept ((writeAll_meets chunks hw).mono ?_)
  rintro r O'' u ⟨rfl,hw⟩
  cases raises with
  | none =>
    have hfsync := update_meets (f := fun n => { n with synced := true }) hw
      chunks.flatten true fun node hd _ => ⟨hd,fun _ => rfl⟩
    refine Meets.bindExcept (hfsync.mono ?_)
    rintro r O v ⟨rfl,hw⟩
    exact Meets.ret fun x hx => ⟨name,i,rfl,hw.rely hx⟩
  | some x =>
    refine Meets.bindExcept (Meets.bind ((discard_meets hw.toHasTemp).mono ?_))
    rintro - O v hc
    exact Meets.ret fun w hw => Meets.ret fun z hz => ⟨rfl,(hc.rely hw).rely hz⟩

/-- Reading what is stored and comparing: _verify and same_record. -/
def check (bad : Bytes → Bool) (x : Exc) (p : FinalPath) : Storing Unit := do
  let data ← readFile p
  raiseIf (bad data) x

variable {bad : Bytes → Bool} {x : Exc}

lemma raiseIf_run (c : Bool) (x : Exc) :
    (raiseIf c x).run = .ret (if c then .error x else .ok ()) := by
  cases c <;> rfl

lemma check_meets (bad : Bytes → Bool) (x : Exc) (h : HasTemp H O name i d) {stored : Bytes} (hp : d.published p = some stored) :
    Meets (rules H) (fun r O e => HasTemp H O name i e ∧ e.published p = some stored ∧
      r = if bad stored then .error x else .ok ()) (check bad x p).run O d := by
  refine Meets.bindExcept (Meets.bindExcept (Meets.look (fun t => ?_) fun t u ht hu => ?_))
  · cases t.finals p <;> rfl
  obtain ⟨j,node,hj,hn,hd⟩ := published_eq_some.mp (ht.keeps hp)
  simp only [hj]
  refine Meets.look (fun _ => rfl) fun v w hv hw => ?_
  obtain ⟨-,node',hn',hd'⟩ := (hu.trans hv).published p j node hj hn
  have hread : ((v.inodes[j]?.map Inode.data).getD []) = stored := by
    rw [hn',← hd,← hd']
    rfl
  simp only [hread,raiseIf_run]
  refine Meets.ret fun z hz => ?_
  have hr := (((ht.trans hu).trans hv).trans hw).trans hz
  exact ⟨h.rely hr,hr.keeps hp,rfl⟩

/-- How an installation ends that began when the disk was `d₀`: what is stored is not bad, or it
is and that is said, or the platform refused a link while nothing was stored yet. -/
def Installed (d₀ : Disk) (p : FinalPath) (bad : Bytes → Bool) (x : Exc) (r : Except Exc Unit)
    (d : Disk) : Prop :=
  match r with
  | .ok _ => ∃ stored, d.published p = some stored ∧ bad stored = false
  | .error e => (e = .permissionError ∧ d₀.published p = none) ∨
      (e = x ∧ ∃ stored, d.published p = some stored ∧ bad stored = true)

lemma Installed.rely {r : Except Exc Unit} {e : Disk} (h : Installed d₀ p bad x r d)
    (hr : Relies H (fun _ => False) d e) : Installed d₀ p bad x r e := by
  cases r with
  | ok a =>
    obtain ⟨stored,hs,hb⟩ := h
    exact ⟨stored,hr.keeps hs,hb⟩
  | error e =>
    refine h.imp_right ?_
    rintro ⟨he,stored,hs,hb⟩
    exact ⟨he,stored,hr.keeps hs,hb⟩

/-- What was stored before and is bad is refused, and stays stored. -/
lemma Installed.conflict {r : Except Exc Unit} {stored : Bytes} (h : Installed d₀ p bad x r d)
    (hr : Relies H (fun _ => False) d₀ d) (hs : d₀.published p = some stored) (hb : bad stored = true) :
    r = .error x ∧ d.published p = some stored := by
  have hk := hr.keeps hs
  refine ⟨?_,hk⟩
  cases r with
  | ok a =>
    obtain ⟨found,hf,hg⟩ := h
    rw [hk] at hf
    cases hf
    rw [hb] at hg
    cases hg
  | error e =>
    rcases h with ⟨-,hn⟩ | ⟨rfl,-⟩
    · rw [hs] at hn
      cases hn
    · rfl

lemma check_installed (h : HasTemp H O name i d) {stored : Bytes} (hp : d.published p = some stored) :
    Meets (rules H) (fun r O e => HasTemp H O name i e ∧ Installed d₀ p bad x r e)
      (check bad x p).run O d := by
  refine (check_meets bad x h hp).mono ?_
  rintro r O' t ⟨ht,hs,rfl⟩
  refine ⟨ht,?_⟩
  cases hb : bad stored with
  | true => exact Or.inr ⟨rfl,stored,hs,hb⟩
  | false => exact ⟨stored,hs,hb⟩

/-- final.exists(). -/
lemma fileExists_meets (h : Writing H O name i data true d) (h0 : Relies H (fun _ => False) d₀ d) :
    Meets (rules H) (fun r O e => Writing H O name i data true e ∧ Relies H (fun _ => False) d₀ e ∧
      ∃ b, r = .ok b ∧ (b = true → ∃ stored, e.published p = some stored) ∧
        (b = false → d₀.published p = none)) (fileExists p).run O d := by
  refine Meets.look (fun _ => rfl) fun t u ht hu => ?_
  have hw := (h.rely ht).rely hu
  refine ⟨hw,(h0.trans ht.weaken).trans hu.weaken,_,rfl,fun hb => ?_,fun hb => ?_⟩
  · obtain ⟨j,hj⟩ := Option.isSome_iff_exists.mp hb
    obtain ⟨stored,hs⟩ := (h.rely ht).sound.published hj
    exact ⟨stored,hu.keeps hs⟩
  · rw [Option.isSome_eq_false_iff,Option.isNone_iff_eq_none] at hb
    cases hp : d₀.published p with
    | none => rfl
    | some stored =>
      obtain ⟨j,node,hj,-,-⟩ := published_eq_some.mp ((h0.trans ht.weaken).keeps hp)
      rw [hb] at hj
      cases hj

lemma chmod_meets (h : Writing H O name i data true d) (h0 : Relies H (fun _ => False) d₀ d) :
    Meets (rules H) (fun r O e => r = .ok () ∧ Writing H O name i data true e ∧
      Relies H (fun _ => False) d₀ e) (chmod name).run O d := by
  refine Meets.atomic fun t ht => ?_
  have hw := h.rely ht
  have hfair := fair_update (H := H) (d := t) (f := fun n => { n with readOnly := true }) hw.mine
    (Or.inl hw.unseen)
  have hw' := hw.update data true hfair fun node hd hs => ⟨hd,fun _ => hs rfl⟩
  simp only [hw.get,made_update]
  exact ⟨hfair,fun u hu => ⟨trivial,hw'.rely hu,((h0.trans ht.weaken).trans hfair.nobody).trans hu.weaken⟩⟩

/-- os.link: the file becomes the published one, or there is one already, or it is refused. -/
lemma link_meets (refuse : Disk → Bool) (h : Writing H O name i data true d)
    (h0 : Relies H (fun _ => False) d₀ d)
    (hdata : ∀ digest, p = .blob digest → H.hexdigest data = digest) :
    Meets (rules H) (fun r O e => ∃ l, r = .ok l ∧ HasTemp H O name i e ∧ match l with
      | .linked => e.published p = some data
      | .fileExists => ∃ stored, e.published p = some stored
      | .permission => Writing H O name i data true e ∧ Relies H (fun _ => False) d₀ e)
      (link name p refuse).run O d := by
  refine Meets.atomic fun t ht => ?_
  have hw := h.rely ht
  simp only [hw.get]
  by_cases href : refuse t = true
  · simp only [if_pos href,Ownership.made_self]
    refine ⟨Ownership.Rules.fair_self O t,fun u hu => ⟨_,rfl,(hw.rely hu).toHasTemp,hw.rely hu,?_⟩⟩
    exact (h0.trans ht.weaken).trans hu.weaken
  simp only [if_neg href]
  cases hp : t.finals p with
  | some j =>
    simp only [Ownership.made_self]
    obtain ⟨stored,hs⟩ := hw.sound.published hp
    exact ⟨Ownership.Rules.fair_self O t,fun u hu =>
      ⟨_,rfl,(hw.rely hu).toHasTemp,stored,hu.keeps hs⟩⟩
  | none =>
    have hfair := hw.fair_link hp hdata
    have hsame : (rules H).made O t { t with finals := fun q => if q = p then some i else t.finals q } = O :=
      made_same rfl
    simp only [hsame]
    refine ⟨hfair,fun u hu => ⟨_,rfl,HasTemp.rely ?_ hu,hu.keeps ?_⟩⟩
    · exact ⟨hfair.nobody.sound hw.sound,hw.owned,hw.named⟩
    · obtain ⟨node,hn,hd,-⟩ := hw.node
      exact published_eq_some.mpr ⟨i,node,if_pos rfl,hn,hd⟩

/-- _install of a whole temp file whose bytes are not bad themselves. -/
lemma install_meets (refuse : Disk → Bool) {onExists : FinalPath → Storing Unit}
    (h : Writing H O name i data true d) (h0 : Relies H (fun _ => False) d₀ d)
    (hdata : ∀ digest, p = .blob digest → H.hexdigest data = digest) (hgood : bad data = false)
    (hon : onExists p = check bad x p) :
    Meets (rules H) (fun r O e => Clean O e ∧ Installed d₀ p bad x r e)
      (install name p refuse onExists).run O d := by
  refine finallyDiscard_meets (i := i) (fun r _ _ hr hi => hi.rely hr) ?_
  refine Meets.bindExcept ((fileExists_meets h h0).mono ?_)
  rintro r O t ⟨hw,h0,b,rfl,hyes,hno⟩
  cases b with
  | true =>
    obtain ⟨stored,hs⟩ := hyes rfl
    simp only [if_true,hon]
    exact check_installed hw.toHasTemp hs
  | false =>
    refine Meets.bindExcept ((chmod_meets hw h0).mono ?_)
    rintro r O t ⟨rfl,hw,h0⟩
    refine Meets.bindExcept ((link_meets refuse hw h0 hdata).mono ?_)
    rintro r O t ⟨l,rfl,ht,hl⟩
    cases l with
    | linked => exact Meets.ret fun u hu => ⟨ht.rely hu,data,hu.keeps hl,hgood⟩
    | fileExists =>
      obtain ⟨stored,hs⟩ := hl
      simp only [hon]
      exact check_installed ht hs
    | permission =>
      refine Meets.bindExcept ((fileExists_meets hl.1 hl.2).mono ?_)
      rintro r O t ⟨hw,-,b,rfl,hyes,hno⟩
      cases b with
      | true =>
        obtain ⟨stored,hs⟩ := hyes rfl
        simp only [if_true,hon]
        exact check_installed hw.toHasTemp hs
      | false => exact Meets.ret fun u hu => ⟨(hw.rely hu).toHasTemp,Or.inl ⟨rfl,hno rfl⟩⟩

/-- _install_record. -/
lemma installRecord_meets (hs : d.Sound H) (h0 : Relies H (fun _ => False) d₀ d) (hint : ℕ)
    (refuse : Disk → Bool) (p : RecordPath) (data : Bytes) :
    Meets (rules H) (fun r O e => Clean O e ∧ Installed d₀ (.record p) (fun found => found ≠ data)
      (.conflictingRecord (FinalPath.record p).key) r e)
      (installRecord H hint refuse p data).run (fun _ => False) d := by
  refine Meets.bindExcept ((Meets.frame (F := Relies H (fun _ => False) d₀) (fun hr h => h.trans hr) h0
    (writeTemp_meets hs [data] none)).mono ?_)
  rintro r O t ⟨⟨name,i,rfl,hw⟩,h0⟩
  rw [List.flatten_singleton] at hw
  exact install_meets refuse hw h0 nofun (by simp) rfl

lemma raiseIf_looks (c : Bool) (x : Exc) : Looks (raiseIf c x).run := by
  rw [raiseIf_run]
  exact trivial

/-- A call whose first part only looks. -/
lemma after_looking {β : Type} {q : Storing α} {k : α → Storing β}
    {Q : Except Exc β → (ℕ → Prop) → Disk → Prop} (hq : Looks q.run)
    (herr : ∀ e t, Relies H O d t → Q (.error e) O t)
    (hk : ∀ a t, Relies H O d t → Meets (rules H) Q (k a).run O t) :
    Meets (rules H) Q (q >>= k).run O d := by
  refine Meets.bindExcept (hq.meets fun r t ht => ?_)
  cases r with
  | ok a => exact hk a t ht
  | error e => exact herr e t ht

/-- put_chunks: the digest that it returns is that of the chunks, and is readable. -/
lemma putChunks_meets (hs : d.Sound H) (hint : ℕ) (refuse : Disk → Bool) (chunks : List Bytes)
    (raises : Option Exc) (expected : Option PyStr) :
    Meets (rules H) (fun r O e => Clean O e ∧ ∀ digest, r = .ok digest →
      digest = H.hexdigest chunks.flatten ∧ ∃ data, e.published (.blob digest) = some data)
      (putChunks H hint refuse chunks raises expected).run (fun _ => False) d := by
  refine after_looking (raiseIf_looks _ _) (fun e t _ => ⟨clean_nothing t,nofun⟩) fun _ t ht => ?_
  refine Meets.bindExcept ((writeTemp_meets (ht.sound hs) chunks raises).mono ?_)
  intro r O u hr
  cases raises with
  | some x =>
    obtain ⟨rfl,hc⟩ := hr
    exact ⟨hc,nofun⟩
  | none =>
    obtain ⟨name,i,rfl,hw⟩ := hr
    dsimp only
    split
    · refine Meets.bindExcept (Meets.bind ((discard_meets hw.toHasTemp).mono ?_))
      rintro - O v hc
      exact Meets.ret fun w hw => Meets.ret fun z hz => ⟨(hc.rely hw).rely hz,nofun⟩
    · have hgood : decide (H.hexdigest chunks.flatten ≠ H.hexdigest chunks.flatten) = false := by simp
      refine Meets.bindExcept ((install_meets refuse hw (Relies.refl H _ u) ?_ hgood rfl).mono ?_)
      · intro digest hd
        cases hd
        rfl
      · rintro r O v ⟨hc,hr⟩
        cases r with
        | error e => exact ⟨hc,nofun⟩
        | ok a =>
          obtain ⟨stored,hst,-⟩ := hr
          refine Meets.ret fun w hw => ⟨hc.rely hw,fun digest hd => ?_⟩
          cases hd
          exact ⟨rfl,stored,hw.keeps hst⟩

lemma lift_looks (e : Except Exc α) : Looks (liftM e : Storing α).run := by
  cases e <;> exact trivial

/-- A call that goes on with a value computed without the disk. -/
lemma after_lift {β : Type} {e : Except Exc α} {k : α → Storing β}
    {Q : Except Exc β → (ℕ → Prop) → Disk → Prop} (herr : ∀ x t, Q (.error x) O t)
    (hk : ∀ a t, e = .ok a → Relies H O d t → Meets (rules H) Q (k a).run O t) :
    Meets (rules H) Q (liftM e >>= k).run O d := by
  refine Meets.bindExcept ?_
  cases he : e with
  | ok a => exact Meets.ret fun t ht => hk a t he ht
  | error x => exact Meets.ret fun t _ => herr x t

lemma sound_stable {s t : Disk} (h : (rules H).rely (fun _ => False) s t) (hs : s.Sound H) : t.Sound H :=
  h.sound hs

lemma checkEntries_looks (m : Manifest) : Looks (checkEntries m).run := by
  induction m with
  | nil => exact trivial
  | cons q m ih =>
    refine Looks.bindExcept (lift_looks _) fun _ => ?_
    refine Looks.bindExcept (raiseIf_looks _ _) fun _ => ?_
    refine Looks.bindExcept (Looks.atomic fun _ => rfl) fun stored => ?_
    exact Looks.bindExcept (raiseIf_looks _ _) fun _ => ih

lemma readFile_looks (p : FinalPath) : Looks (readFile p).run := by
  refine Looks.bindExcept (Looks.atomic fun d => ?_) fun i => Looks.atomic fun _ => rfl
  cases d.finals p <;> rfl

lemma read_looks (H : Hasher) (digest : PyStr) : Looks (read H digest).run := by
  refine Looks.bindExcept (raiseIf_looks _ _) fun _ => ?_
  refine Looks.bindExcept (readFile_looks _) fun data => ?_
  exact Looks.bindExcept (raiseIf_looks _ _) fun _ => trivial

lemma verifiedSizes_looks (H : Hasher) (m : Manifest) : Looks (verifiedSizes H m).run := by
  induction m with
  | nil => exact trivial
  | cons q m ih =>
    refine Looks.bindExcept (read_looks H _) fun data => ?_
    exact Looks.bindExcept ih fun sizes => trivial

lemma checkSnapshotContent_looks (H : Hasher) (s : Snapshot) : Looks (checkSnapshotContent H s).run := by
  rw [checkSnapshotContent]
  cases s.kind with
  | file => exact Looks.bindExcept (read_looks H _) fun data => raiseIf_looks _ _
  | tree =>
    refine Looks.bindExcept (read_looks H _) fun data => ?_
    refine Looks.bindExcept (lift_looks _) fun tree => ?_
    exact Looks.bindExcept (verifiedSizes_looks H tree) fun sizes => raiseIf_looks _ _

/-- How a call ends that started when the disk was `d₀`. -/
def Ends (H : Hasher) (c : Call) (d₀ : Disk) (r : Except Exc (Option PyStr)) (d : Disk) : Prop :=
  match c.put with
  | .chunks chunks _ _ => ∀ digest, r = .ok digest → digest = some (H.hexdigest chunks.flatten) ∧
      ∃ data, d.archive.read H (H.hexdigest chunks.flatten) = .ok data
  | .tree m => ∀ digest, r = .ok digest → ∃ tree, encodeManifest m = .ok tree ∧
      digest = some (H.hexdigest tree) ∧ ∃ data, d.archive.read H (H.hexdigest tree) = .ok data
  | .snapshot s => ∀ digest, r = .ok digest → digest = none ∧ ∃ data, s.toCanonical = .ok data ∧
      d.published (.record (.snapshot s.kind s.digest)) = some data
  | .source s => match s.toCanonical with
    | .error e => r = .error e
    | .ok data => (∀ digest, r = .ok digest → digest = some (H.hexdigest data)) ∧
        Installed d₀ (.record (.source (H.hexdigest data))) (fun found => found ≠ data)
          (.conflictingRecord (H.hexdigest data)) (r.map fun _ => ()) d
  | .record p data => (∀ digest, r = .ok digest → digest = none) ∧
      Installed d₀ (.record p) (fun found => found ≠ data)
        (.conflictingRecord (FinalPath.record p).key) (r.map fun _ => ()) d

lemma readable {digest : PyStr} (hs : d.Sound H) (hp : d.published (.blob digest) = some data)
    (hd : isDigest digest = true) : d.archive.read H digest = .ok data := by
  have hb : d.archive.blobs digest = some data := hp
  simp only [Archive.read,hd,Bool.true_eq_false,if_false,hb,hs.hexdigest hp,if_true]

/-- put_chunks, with what a reader then gets. -/
lemma putChunks_reads (hs : d.Sound H) (hint : ℕ) (refuse : Disk → Bool) (chunks : List Bytes)
    (raises : Option Exc) (expected : Option PyStr) :
    Meets (rules H) (fun r O e => Clean O e ∧ ∀ digest, r = .ok digest →
      digest = H.hexdigest chunks.flatten ∧
        ∃ data, e.archive.read H (H.hexdigest chunks.flatten) = .ok data)
      (putChunks H hint refuse chunks raises expected).run (fun _ => False) d := by
  refine (Meets.frame sound_stable hs
    (putChunks_meets hs hint refuse chunks raises expected)).mono ?_
  rintro r O t ⟨⟨hc,hr⟩,hst⟩
  refine ⟨hc,fun digest hd => ?_⟩
  obtain ⟨rfl,data,hp⟩ := hr digest hd
  exact ⟨rfl,data,readable hst hp (H.digest_form _)⟩

lemma readable_rely {e : Disk} {digest : PyStr} (hs : d.Sound H)
    (hr : Relies H (fun _ => False) d e) (hread : d.archive.read H digest = .ok data) :
    e.archive.read H digest = .ok data := by
  cases hd : isDigest digest with
  | false =>
    simp only [Archive.read,hd,if_true] at hread
    cases hread
  | true =>
    cases hp : d.published (.blob digest) with
    | none =>
      have hb : d.archive.blobs digest = none := hp
      simp only [Archive.read,hd,Bool.true_eq_false,if_false,hb] at hread
      cases hread
    | some stored =>
      rw [readable hs hp hd] at hread
      cases hread
      exact readable (hr.sound hs) (hr.keeps hp) hd

/-- put_tree: the digest is that of the tree's canonical form, and is readable. -/
lemma putTree_reads (hs : d.Sound H) (hint : ℕ) (refuse : Disk → Bool) (m : Manifest) :
    Meets (rules H) (fun r O e => Clean O e ∧ ∀ digest, r = .ok digest →
      ∃ tree, encodeManifest m = .ok tree ∧ digest = H.hexdigest tree ∧
        ∃ data, e.archive.read H (H.hexdigest tree) = .ok data)
      (putTree H hint refuse m).run (fun _ => False) d := by
  refine after_looking (checkEntries_looks m) (fun e t _ => ⟨clean_nothing t,nofun⟩) fun _ t ht => ?_
  refine after_lift (fun e t => ⟨clean_nothing t,nofun⟩) fun _ u _ hu => ?_
  refine after_lift (fun e t => ⟨clean_nothing t,nofun⟩) fun tree v htree hv => ?_
  refine (putChunks_reads (hv.sound (hu.sound (ht.sound hs))) hint refuse [tree] none none).mono ?_
  rintro r O w ⟨hc,hr⟩
  refine ⟨hc,fun digest hd => ⟨tree,htree,?_⟩⟩
  have := hr digest hd
  rwa [List.flatten_singleton] at this

/-- An installation that comes after a part that only looked. -/
lemma installRecord_stores (hs : d.Sound H) (hint : ℕ) (refuse : Disk → Bool) (p : RecordPath)
    (data : Bytes) :
    Meets (rules H) (fun r O e => Clean O e ∧ ∀ a, r = .ok a → e.published (.record p) = some data)
      (installRecord H hint refuse p data).run (fun _ => False) d := by
  refine (installRecord_meets hs (Relies.refl H _ d) hint refuse p data).mono ?_
  rintro r O t ⟨hc,hr⟩
  refine ⟨hc,fun a ha => ?_⟩
  subst ha
  obtain ⟨stored,hst,hb⟩ := hr
  rw [hst,show stored = data by simpa using hb]

/-- Every call ends as it should and leaves nothing in tmp/, whatever the others do. -/
lemma call_meets (c : Call) (hs : d.Sound H) :
    Meets (rules H) (fun r O e => Clean O e ∧ Ends H c d r e) (c.prog H) (fun _ => False) d := by
  obtain ⟨put,hint,refuse⟩ := c
  cases put with
  | chunks chunks raises expected =>
    refine Meets.bindExcept ((Meets.frame sound_stable hs
      (putChunks_reads hs hint refuse chunks raises expected)).mono ?_)
    rintro r O t ⟨⟨hc,hr⟩,hst⟩
    cases r with
    | error e => exact ⟨hc,nofun⟩
    | ok digest =>
      obtain ⟨rfl,data,hread⟩ := hr digest rfl
      refine Meets.ret fun u hu => ⟨hc.rely hu,fun digest hd => ?_⟩
      cases hd
      exact ⟨rfl,data,readable_rely hst hu.weaken hread⟩
  | tree m =>
    refine Meets.bindExcept ((Meets.frame sound_stable hs (putTree_reads hs hint refuse m)).mono ?_)
    rintro r O t ⟨⟨hc,hr⟩,hst⟩
    cases r with
    | error e => exact ⟨hc,nofun⟩
    | ok digest =>
      obtain ⟨tree,htree,rfl,data,hread⟩ := hr digest rfl
      refine Meets.ret fun u hu => ⟨hc.rely hu,fun digest hd => ?_⟩
      cases hd
      exact ⟨tree,htree,rfl,data,readable_rely hst hu.weaken hread⟩
  | snapshot s =>
    refine Meets.bindExcept (after_looking (checkSnapshotContent_looks H s)
      (fun e t _ => ⟨clean_nothing t,nofun⟩) fun _ t ht => ?_)
    refine after_lift (fun e t => ⟨clean_nothing t,nofun⟩) fun data u hdata hu => ?_
    refine (installRecord_stores (hu.sound (ht.sound hs)) hint refuse _ data).mono ?_
    rintro r O v ⟨hc,hr⟩
    cases r with
    | error e => exact ⟨hc,nofun⟩
    | ok a =>
      refine Meets.ret fun w hw => ⟨hc.rely hw,fun digest hd => ?_⟩
      cases hd
      exact ⟨rfl,data,hdata,hw.keeps (hr a rfl)⟩
  | source s =>
    cases hdata : s.toCanonical with
    | error e =>
      have hid : s.sourceId H = .error e := by rw [Source.sourceId,hdata]; rfl
      refine Meets.bindExcept (Meets.bindExcept ?_)
      rw [hid]
      exact Meets.ret fun t ht => ⟨clean_nothing t,by simp only [Ends,hdata]⟩
    | ok data =>
      have hid : s.sourceId H = .ok (H.hexdigest data) := by rw [Source.sourceId,hdata]; rfl
      refine Meets.bindExcept (Meets.bindExcept ?_)
      rw [hid]
      refine Meets.ret fun t ht => Meets.bindExcept ?_
      rw [hdata]
      refine Meets.ret fun u hu => Meets.bindExcept
        ((installRecord_meets (hu.sound (ht.sound hs)) (ht.trans hu) hint refuse _ data).mono ?_)
      rintro r O v ⟨hc,hr⟩
      simp only [Ends,hdata]
      cases r with
      | error e => exact ⟨hc,nofun,hr⟩
      | ok a =>
        refine Meets.ret fun w hw => Meets.ret fun z hz => ⟨(hc.rely hw).rely hz,?_,?_⟩
        · exact fun digest hd => (Except.ok.inj hd).symm
        · exact (hr.rely hw.weaken).rely hz.weaken
  | record p data =>
    refine Meets.bindExcept ((installRecord_meets hs (Relies.refl H _ d) hint refuse p data).mono ?_)
    rintro r O t ⟨hc,hr⟩
    cases r with
    | error e => exact ⟨hc,nofun,hr⟩
    | ok a =>
      refine Meets.ret fun u hu => ⟨hc.rely hu,?_,hr.rely hu.weaken⟩
      exact fun digest hd => (Except.ok.inj hd).symm

/-- Calls under way and ended, with the disk they share. -/
abbrev Writers := Pool Call Disk (Except Exc (Option PyStr))

/-- From one moment to a later one, in any interleaving of any number of calls: a call may start
at any time, take its next step, or stop for ever. -/
def Later (H : Hasher) (p q : Writers) : Prop :=
  Runs.Reaches (Step (fun c : Call => c.prog H) fun _ _ => False) (Label.Allows fun _ _ => True) p q

section Writers

variable {p q : Writers}

/-- What is known of a call that has ended: it started on a sound disk, nothing that was published
then has changed, and it has left no file of its own in tmp/. -/
structure Done (H : Hasher) (c : Call) (d₀ : Disk) (r : Except Exc (Option PyStr)) (O : ℕ → Prop)
    (d : Disk) : Prop where
  since : Relies H (fun _ => False) d₀ d
  sound : d.Sound H
  clean : Clean O d
  ends : Ends H c d₀ r d

lemma call_done (c : Call) (hs : d.Sound H) :
    Meets (rules H) (Done H c d) (c.prog H) (fun _ => False) d := by
  have hstable : ∀ {s t : Disk}, (rules H).rely (fun _ => False) s t →
      Relies H (fun _ => False) d s ∧ s.Sound H → Relies H (fun _ => False) d t ∧ t.Sound H :=
    fun hr h => ⟨h.1.trans hr,hr.sound h.2⟩
  have hm := Meets.frame hstable ⟨Relies.refl H _ d,hs⟩ (call_meets c hs)
  exact hm.mono fun r O e h => ⟨h.2.1,h.2.2,h.1.1,h.1.2⟩

/-- What holds of every moment: the disk is sound, what was published still is, and each call
that has ended has ended well. -/
lemma later_sound (h0 : d₀.Sound H) (hp : Later H ⟨d₀,[]⟩ p) :
    Ownership.Sound (rules H) (Done H) d₀ p :=
  (Ownership.Sound.reaches (.initial d₀) hp fun c _ hd => call_done c (hd.sound h0)).1

lemma later_keeps (h0 : d₀.Sound H) (hp : Later H ⟨d₀,[]⟩ p) (hq : Later H p q) :
    Relies H (fun _ => False) p.shared q.shared :=
  (Ownership.Sound.reaches (later_sound h0 hp) hq fun c _ hd => call_done c (hd.sound h0)).2

lemma later_done (h0 : d₀.Sound H) (hp : Later H ⟨d₀,[]⟩ p) {t : Thread Call Disk (Except Exc (Option PyStr))}
    (ht : t ∈ p.threads) {r : Except Exc (Option PyStr)} (hr : t.prog = .ret r) :
    Done H t.call t.start r ((rules H).mine t.own) p.shared := by
  have hk := ((later_sound h0 hp).known t ht).meets
  rw [hr] at hk
  exact hk _ (Relies.refl H _ _)

/-- A call that installs a record at a path: put_source, or _install_record itself. -/
def Installs (H : Hasher) (put : Put) (path : RecordPath) (data : Bytes) : Prop :=
  match put with
  | .source s => s.toCanonical = .ok data ∧ path = .source (H.hexdigest data)
  | .record p b => p = path ∧ b = data
  | _ => False

/-- Publishing is atomic, at every moment of every interleaving of calls that may each stop after
any step: a blob's final path is absent or holds a whole file that hashes to its address; no
published file is ever replaced; a digest that is returned can be read; a record in conflict
with a stored one is refused. -/
theorem publishing_atomic (h0 : d₀.Sound H) (hp : Later H ⟨d₀,[]⟩ p) :
    (∀ digest i, p.shared.finals (.blob digest) = some i → ∃ node, p.shared.inodes[i]? = some node ∧
      node.synced = true ∧ H.hexdigest node.data = digest ∧
      p.shared.archive.read H digest = .ok node.data) ∧
    (∀ q, Later H p q → ∀ path i node, p.shared.finals path = some i →
      p.shared.inodes[i]? = some node → q.shared.finals path = some i ∧
        ∃ node', q.shared.inodes[i]? = some node' ∧ node'.data = node.data) ∧
    ∀ t ∈ p.threads, ∀ r, t.prog = .ret r →
      (∀ digest, r = .ok (some digest) → (∃ data, p.shared.archive.read H digest = .ok data) ∨
        ∃ s, t.call.put = .source s ∧ p.shared.archive.getSource H digest = .ok s) ∧
      (∀ path data stored, Installs H t.call.put path data →
        t.start.published (.record path) = some stored → stored ≠ data →
        r = .error (.conflictingRecord (FinalPath.record path).key) ∧
          p.shared.published (.record path) = some stored) ∧
      (∀ path data stored, Installs H t.call.put path data →
        p.shared.published (.record path) = some stored → stored ≠ data →
        r = .error (.conflictingRecord (FinalPath.record path).key) ∨
          r = .error .permissionError ∧ t.start.published (.record path) = none) ∧
      (∀ s data stored, t.call.put = .snapshot s → s.toCanonical = .ok data →
        t.start.published (.record (.snapshot s.kind s.digest)) = some stored → stored ≠ data →
        (∃ e, r = .error e) ∧
          p.shared.published (.record (.snapshot s.kind s.digest)) = some stored) := by
  have hs : p.shared.Sound H := (later_sound h0 hp).since.sound h0
  refine ⟨fun digest i hi => ?_,fun q hq => (later_keeps h0 hp hq).published,fun t ht r hr => ?_⟩
  · obtain ⟨node,hn,hsync⟩ := hs.finals _ i hi
    have hd := hs.blobs digest i node hi hn
    refine ⟨node,hn,hsync,hd,readable hs (published_eq_some.mpr ⟨i,node,hi,hn,rfl⟩) ?_⟩
    exact hd ▸ H.digest_form _
  have hdone := later_done h0 hp ht hr
  have hends := hdone.ends
  obtain ⟨⟨put,hint,refuse⟩,start,prog,own⟩ := t
  have hinstalled : ∀ path data, Installs H put path data → Installed start (.record path)
      (fun found => found ≠ data) (.conflictingRecord (FinalPath.record path).key)
      (r.map fun _ => ()) p.shared := by
    intro path data hput
    cases put with
    | source s =>
      obtain ⟨hdata,rfl⟩ := hput
      simp only [Ends,hdata] at hends
      exact hends.2
    | record path' data' =>
      obtain ⟨rfl,rfl⟩ := hput
      exact hends.2
    | _ => exact hput.elim
  refine ⟨fun digest hd => ?_,fun path data stored hput hst hne => ?_,
    fun path data stored hput hst hne => ?_,fun s data stored hput hdata hst hne => ?_⟩
  · subst hd
    cases put with
    | chunks chunks raises expected =>
      obtain ⟨he,hread⟩ := hends _ rfl
      cases he
      exact Or.inl hread
    | tree m =>
      obtain ⟨tree,-,he,hread⟩ := hends _ rfl
      cases he
      exact Or.inl hread
    | snapshot s => cases (hends _ rfl).1
    | source s =>
      simp only [Ends] at hends
      cases hdata : s.toCanonical with
      | error e =>
        rw [hdata] at hends
        cases hends
      | ok data =>
        rw [hdata] at hends
        obtain ⟨hid,stored,hst,hb⟩ := hends
        cases hid _ rfl
        refine Or.inr ⟨s,rfl,?_⟩
        have hstored : p.shared.archive.sources (H.hexdigest data) = some data := by
          rw [show stored = data by simpa using hb] at hst
          exact hst
        simp only [Archive.getSource,H.digest_form,hstored,Source.fromCanonical_toCanonical hdata,
          Bool.true_eq_false,if_false,ne_eq,not_true_eq_false]
    | record path data => cases hends.1 _ rfl
  · have hbad : decide (stored ≠ data) = true := by simpa using hne
    obtain ⟨he,hk⟩ := (hinstalled path data hput).conflict hdone.since hst hbad
    refine ⟨?_,hk⟩
    cases r with
    | ok a => cases he
    | error e => exact congrArg _ (Except.error.inj he)
  · have hi := hinstalled path data hput
    cases r with
    | ok a =>
      obtain ⟨found,hf,hg⟩ := hi
      rw [hst] at hf
      cases hf
      exact absurd hg (by simpa using hne)
    | error e =>
      rcases hi with ⟨rfl,hn⟩ | ⟨rfl,-⟩
      · exact Or.inr ⟨rfl,hn⟩
      · exact Or.inl rfl
  · have hk := hdone.since.keeps hst
    refine ⟨?_,hk⟩
    subst hput
    cases r with
    | error e => exact ⟨e,rfl⟩
    | ok digest =>
      obtain ⟨-,data',hdata',hp'⟩ := hends digest rfl
      rw [hdata] at hdata'
      rw [hk] at hp'
      cases hdata'
      cases hp'
      exact absurd rfl hne

/-- A call that stores one octet. -/
def sameOctet : Call := ⟨.chunks [[7]] none none,0,fun _ => false⟩

theorem publishing_atomic_sameOctet : ∃ p : Writers, Later .checksum ⟨.empty,[]⟩ p ∧ p.threads.length = 2 ∧
    ∃ data, p.shared.archive.read .checksum (Hasher.checksum.hexdigest [7]) = .ok data := by
  have hstart : Later .checksum ⟨.empty,[]⟩ ⟨.empty,[]⟩ := Runs.Reaches.refl _
  obtain ⟨own,hfirst⟩ := Interleaved.call hstart sameOctet
  obtain ⟨own',hboth⟩ := hfirst.call sameOctet
  refine ⟨_,hboth,rfl,?_⟩
  have h := (publishing_atomic (sound_empty .checksum) hboth).2.2 _ (List.mem_cons_self ..) _ rfl
  rcases h.1 (Hasher.checksum.hexdigest [7]) rfl with hread | ⟨s,hs,-⟩
  · exact hread
  · cases hs

end Writers

end BlobStore

end Stele
