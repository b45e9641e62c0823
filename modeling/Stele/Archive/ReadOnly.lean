import Stele.Archive.AtomicPublish

/-! Whether what is published stays read-only. A final path and the temp name that it was linked from
are two names of one inode, and _discard makes that inode writable before it removes the temp name. -/
namespace Stele
open Python Interleaving
open Ownership (Meets Looks Does)

namespace Disk

/-- No file under a final path can be written. -/
def ReadOnly (d : Disk) : Prop :=
  ∀ p i node, d.finals p = some i → d.inodes[i]? = some node → node.readOnly = true

/-- The chmod of _discard on a temp name whose file has a final path too. -/
def Unlocks (d e : Disk) : Prop := ∃ name i p, d.temps.get name = some i ∧ d.finals p = some i ∧
  e = d.update i fun n => { n with readOnly := false }

/-- What each action of a call does to what is published: it stays read-only, unless the action is
that chmod. -/
def Guards (H : Hasher) (d e : Disk) : Prop := d.Sound H → d.ReadOnly → e.ReadOnly ∨ Unlocks d e

variable {H : Hasher} {O : ℕ → Prop} {d e : Disk} {name i : ℕ} {p : FinalPath}

lemma Guards.refl (H : Hasher) (d : Disk) : Guards H d d := fun _ h => Or.inl h

/-- After that chmod a published file can be written. -/
lemma Unlocks.writable (h : Unlocks d e) (hs : d.Sound H) : ¬e.ReadOnly := by
  obtain ⟨name,i,p,-,hp,rfl⟩ := h
  intro hr
  obtain ⟨node,hn,-⟩ := hs.finals p i hp
  have hi : (d.update i fun n => { n with readOnly := false }).inodes[i]? =
      some { node with readOnly := false } := by
    rw [getElem?_update,if_pos rfl,hn]
    rfl
  cases hr p i _ hp hi

/-- A change of a file that leaves its mode, or makes it read-only. -/
lemma guards_update {f : Inode → Inode} (hf : ∀ n : Inode, n.readOnly = true → (f n).readOnly = true) :
    Guards H d (d.update i f) := by
  intro _ hr
  refine Or.inl fun q j node hq hj => ?_
  rw [getElem?_update] at hj
  split_ifs at hj with hij
  · obtain ⟨old,ho,rfl⟩ := Option.map_eq_some_iff.mp hj
    exact hf old (hr q j old hq ho)
  · exact hr q j node hq hj

lemma guards_mkstemp (m : ℕ) (node : Inode) : Guards H d { d with
    inodes := d.inodes++[node], temps := d.temps++[(m,d.inodes.length)] } := by
  intro hs hr
  refine Or.inl fun q j new hq hj => ?_
  obtain ⟨old,ho,-⟩ := hs.finals q j hq
  rw [List.getElem?_append_left (List.getElem?_eq_some_iff.mp ho).1] at hj
  exact hr q j new hq hj

/-- The chmod of _discard, on any name. -/
lemma guards_unlock (h : d.temps.get name = some i) :
    Guards H d (d.update i fun n => { n with readOnly := false }) := by
  intro _ hr
  by_cases hp : ∃ p, d.finals p = some i
  · obtain ⟨p,hp⟩ := hp
    exact Or.inr ⟨name,i,p,h,hp,rfl⟩
  · refine Or.inl fun q j node hq hj => ?_
    have hij : i ≠ j := fun hij => hp ⟨q,hij ▸ hq⟩
    rw [getElem?_update,if_neg hij] at hj
    exact hr q j node hq hj

/-- A call's own file, which can no longer be written. -/
structure Locked (H : Hasher) (O : ℕ → Prop) (name i : ℕ) (d : Disk) : Prop
    extends HasTemp H O name i d where
  node : ∃ node, d.inodes[i]? = some node ∧ node.readOnly = true

lemma Locked.rely (h : Locked H O name i d) (hr : Relies H O d e) : Locked H O name i e where
  toHasTemp := h.toHasTemp.rely hr
  node := by
    rw [hr.kept i h.mine]
    exact h.node

lemma Locked.guards_link (h : Locked H O name i d) :
    Guards H d { d with finals := fun q => if q = p then some i else d.finals q } := by
  intro _ hr
  refine Or.inl fun q j node hq hj => ?_
  dsimp only at hq
  split_ifs at hq
  · obtain rfl := Option.some.inj hq
    obtain ⟨own,ho,hown⟩ := h.node
    rw [ho] at hj
    obtain rfl := Option.some.inj hj
    exact hown
  · exact hr q j node hq hj

end Disk

namespace BlobStore

open Disk

variable {H : Hasher} {O : ℕ → Prop} {d d₀ : Disk} {name i hint : ℕ} {p : FinalPath} {data : Bytes}
  {α β : Type}

lemma looks_does {q : Storing α} (h : Looks q.run) : Does (rules H) (Guards H) q.run O d :=
  h.does (Guards.refl H)

/-- A call whose first part only looks. -/
lemma does_after_looking {q : Storing α} {k : α → Storing β} (hq : Looks q.run)
    (hk : ∀ a t, Relies H O d t → Does (rules H) (Guards H) (k a).run O t) :
    Does (rules H) (Guards H) (q >>= k).run O d := by
  refine Does.bindExcept (Q := fun _ O' t => O' = O ∧ Relies H O d t) (looks_does hq)
    (hq.meets fun a t ht => ⟨rfl,ht⟩) ?_
  rintro a O' t ⟨rfl,ht⟩
  exact hk a t ht

lemma discard_does : Does (rules H) (Guards H) (discard name) O d := by
  refine Does.bind_any (Does.atomic fun t _ => ?_) fun found O t => ?_
  · cases hn : t.temps.get name with
    | none => exact Guards.refl H t
    | some i => exact guards_unlock hn
  · cases found with
    | false => exact trivial
    | true => exact Does.atomic fun u _ _ hr => Or.inl hr

lemma write_does (chunk : Bytes) : Does (rules H) (Guards H) (write i chunk).run O d := by
  induction chunk generalizing O d with
  | nil => exact trivial
  | cons b chunk ih =>
    exact Does.bindExcept_any (Does.atomic fun t _ => guards_update fun n h => h) fun _ O t => ih

lemma writeAll_does (chunks : List Bytes) : Does (rules H) (Guards H) (writeAll i chunks).run O d := by
  induction chunks generalizing O d with
  | nil => exact trivial
  | cons chunk chunks ih => exact Does.bindExcept_any (write_does chunk) fun _ O t => ih

lemma writeTemp_does (chunks : List Bytes) (raises : Option Exc) :
    Does (rules H) (Guards H) (writeTemp H hint chunks raises).run O d := by
  refine Does.bindExcept_any (Does.atomic fun t _ => guards_mkstemp _ _) fun r O t => ?_
  refine Does.bindExcept_any (writeAll_does chunks) fun _ O u => ?_
  cases raises with
  | some x => exact Does.bindExcept_any (Does.bind_any discard_does fun _ _ _ => trivial) fun _ _ _ => trivial
  | none => exact Does.bindExcept_any (Does.atomic fun v _ => guards_update fun n h => h) fun _ _ _ => trivial

lemma chmod_locks {synced : Bool} (h : Writing H O name i data synced d) :
    Meets (rules H) (fun _ O e => Locked H O name i e) (chmod name).run O d := by
  refine Meets.atomic fun t ht => ?_
  have hw := h.rely ht
  obtain ⟨node,hn,-⟩ := hw.node
  have hfair := fair_update (H := H) (d := t) (f := fun n => { n with readOnly := true }) hw.mine
    (Or.inl hw.unseen)
  simp only [hw.get,made_update]
  refine ⟨hfair,fun u hu => Locked.rely ⟨hw.toHasTemp.update hfair,?_⟩ hu⟩
  rw [getElem?_update,if_pos rfl,hn]
  exact ⟨_,rfl,rfl⟩

lemma chmod_does : Does (rules H) (Guards H) (chmod name).run O d := by
  refine Does.atomic fun t _ => ?_
  cases hn : t.temps.get name with
  | none => exact Guards.refl H t
  | some i => exact guards_update fun n _ => rfl

/-- What is linked is read-only when it is. -/
lemma link_does (refuse : Disk → Bool) (h : Locked H O name i d) :
    Does (rules H) (Guards H) (link name p refuse).run O d := by
  refine Does.atomic fun t ht => ?_
  have hl := h.rely ht
  simp only [hl.get]
  split_ifs with href
  · exact Guards.refl H t
  · cases hp : t.finals p with
    | some j => exact Guards.refl H t
    | none => exact hl.guards_link

lemma install_does (refuse : Disk → Bool) {onExists : FinalPath → Storing Unit} {synced : Bool}
    (h : Writing H O name i data synced d) (hon : ∀ p, Looks (onExists p).run) :
    Does (rules H) (Guards H) (install name p refuse onExists).run O d := by
  refine Does.bind_any ?_ fun r O t => Does.bind_any discard_does fun _ _ _ => trivial
  refine does_after_looking (Looks.atomic fun _ => rfl) fun stored t ht => ?_
  cases stored with
  | true => exact looks_does (hon p)
  | false =>
    refine Does.bindExcept (Q := fun _ O e => Locked H O name i e) chmod_does
      (chmod_locks (h.rely ht)) fun _ O u hu => ?_
    refine Does.bindExcept_any (link_does refuse hu) fun l O v => ?_
    cases l with
    | linked => exact trivial
    | fileExists => exact looks_does (hon p)
    | permission =>
      refine does_after_looking (Looks.atomic fun _ => rfl) fun stored w _ => ?_
      cases stored with
      | true => exact looks_does (hon p)
      | false => exact trivial

lemma check_looks (bad : Bytes → Bool) (x : Exc) (p : FinalPath) : Looks (check bad x p).run :=
  Looks.bindExcept (readFile_looks p) fun _ => raiseIf_looks _ _

lemma installRecord_does (hs : d.Sound H) (refuse : Disk → Bool) (p : RecordPath) (data : Bytes) :
    Does (rules H) (Guards H) (installRecord H hint refuse p data).run (fun _ => False) d := by
  refine Does.bindExcept (writeTemp_does [data] none) (writeTemp_meets hs [data] none) ?_
  rintro ⟨name,digest⟩ O t ⟨_,i,hr,hw⟩
  obtain ⟨rfl,rfl⟩ := Prod.mk.inj (Except.ok.inj hr)
  exact install_does refuse hw fun p => check_looks _ _ p

lemma putChunks_does (hs : d.Sound H) (refuse : Disk → Bool) (chunks : List Bytes) (raises : Option Exc)
    (expected : Option PyStr) : Does (rules H) (Guards H)
      (putChunks H hint refuse chunks raises expected).run (fun _ => False) d := by
  refine does_after_looking (raiseIf_looks _ _) fun _ t ht => ?_
  refine Does.bindExcept (writeTemp_does chunks raises) (writeTemp_meets (ht.sound hs) chunks raises) ?_
  rintro ⟨name,digest⟩ O u hu
  cases raises with
  | some x => cases hu.1
  | none =>
    obtain ⟨_,i,hr,hw⟩ := hu
    obtain ⟨rfl,rfl⟩ := Prod.mk.inj (Except.ok.inj hr)
    dsimp only
    split
    · exact Does.bindExcept_any (Does.bind_any discard_does fun _ _ _ => trivial) fun _ _ _ => trivial
    · exact Does.bindExcept_any (install_does refuse hw fun p => check_looks _ _ p) fun _ _ _ => trivial

/-- Every action of every call. -/
lemma call_does (c : Call) (hs : d.Sound H) :
    Does (rules H) (Guards H) (c.prog H) (fun _ => False) d := by
  obtain ⟨put,hint,refuse⟩ := c
  cases put with
  | chunks chunks raises expected =>
    exact Does.bindExcept_any (putChunks_does hs refuse chunks raises expected) fun _ _ _ => trivial
  | tree m =>
    refine Does.bindExcept_any ?_ fun _ _ _ => trivial
    refine does_after_looking (checkEntries_looks m) fun _ t ht => ?_
    refine does_after_looking (lift_looks _) fun _ u hu => ?_
    refine does_after_looking (lift_looks _) fun tree v hv => ?_
    exact putChunks_does (hv.sound (hu.sound (ht.sound hs))) refuse [tree] none none
  | snapshot s =>
    refine Does.bindExcept_any ?_ fun _ _ _ => trivial
    refine does_after_looking (checkSnapshotContent_looks H s) fun _ t ht => ?_
    refine does_after_looking (lift_looks _) fun data u hu => ?_
    exact installRecord_does (hu.sound (ht.sound hs)) refuse _ data
  | source s =>
    refine Does.bindExcept_any ?_ fun _ _ _ => trivial
    refine does_after_looking (lift_looks _) fun id t ht => ?_
    refine does_after_looking (lift_looks _) fun data u hu => ?_
    exact Does.bindExcept_any (installRecord_does (hu.sound (ht.sound hs)) refuse _ data)
      fun _ _ _ => trivial
  | record p data =>
    exact Does.bindExcept_any (installRecord_does hs refuse p data) fun _ _ _ => trivial

section Writers

variable {p q : Writers}

/-- The runs in which no _discard meets a file that has a final path by then. -/
def Spared (H : Hasher) (d₀ : Disk) (p : Writers) : Prop :=
  Interleaved (fun c : Call => c.prog H) (fun _ _ => False) (fun d e => ¬Unlocks d e) d₀ p

/-- What is published is read-only at every moment of every interleaving of calls that may each stop
after any step, as long as no temp name is discarded whose file has been published. The first time
one is, a published file can be written. -/
theorem published_read_only (hs : d₀.Sound H) (h0 : d₀.ReadOnly) (hp : Spared H d₀ p) :
    p.shared.ReadOnly ∧ ∀ e, Unlocks p.shared e → ¬e.ReadOnly := by
  have hops : ∀ (c : Call) (a : Disk), (rules H).rely (fun _ => False) d₀ a →
      Meets (rules H) (Done H c a) (c.prog H) (fun _ => False) a ∧
        Does (rules H) (Guards H) (c.prog H) (fun _ => False) a := fun c a ha =>
    ⟨call_done c (ha.sound hs),call_does c (ha.sound hs)⟩
  constructor
  · refine Ownership.Sound.invariant (I := Disk.ReadOnly) (.initial d₀) nofun hp hops ?_ h0
    exact fun s t hrely hg hspared hr => (hg (hrely.sound hs) hr).resolve_right hspared
  · have hsound := (Ownership.Sound.reaches (.initial d₀) hp fun c a ha => (hops c a ha).1).1
    exact fun e he => he.writable (hsound.since.sound hs)

/-- A put of no bytes. -/
def emptyPut : Call := ⟨.chunks [] none none,0,fun _ => false⟩

/-- One that is stopped as soon as it has linked its file. -/
theorem published_read_only_stopped : ∃ p : Writers,
    p.shared.finals (.blob (Hasher.checksum.hexdigest [])) = some 0 ∧ p.shared.ReadOnly := by
  have h : Spared .checksum .empty ⟨.empty,[]⟩ := Runs.Reaches.refl _
  -- it starts, makes its temp file, syncs it, looks for the final path and sets the mode
  have h := Interleaved.turn h (.spawn emptyPut) nofun
  have h := Interleaved.turn h (.act 0) fun _ _ ⟨_,_,_,_,hp,_⟩ => by cases hp
  have h := Interleaved.turn h (.act 0) fun _ _ ⟨_,_,_,_,hp,_⟩ => by cases hp
  have h := Interleaved.turn h (.act 0) fun _ _ ⟨_,_,_,_,hp,_⟩ => by cases hp
  have h := Interleaved.turn h (.act 0) fun _ _ ⟨_,_,_,_,hp,_⟩ => by cases hp
  have hlinked := Interleaved.turn h (.act 0) fun _ _ ⟨_,_,_,_,hp,_⟩ => by cases hp
  exact ⟨_,rfl,(published_read_only (sound_empty _) nofun hlinked).1⟩

/-- One that meets no other call: what it has published can be written once it has returned. -/
theorem published_writable : ∃ p : Writers,
    Interleaved (fun c : Call => c.prog .checksum) (fun _ _ => False) (fun _ _ => True) .empty p ∧
    (∀ t ∈ p.threads, t.prog = .ret (.ok (some (Hasher.checksum.hexdigest [])))) ∧
    ∃ i node, p.shared.finals (.blob (Hasher.checksum.hexdigest [])) = some i ∧
      p.shared.inodes[i]? = some node ∧ node.readOnly = false := by
  have h : Interleaved (fun c : Call => c.prog .checksum) (fun _ _ => False) (fun _ _ => True) Disk.empty
      ⟨.empty,[]⟩ := Runs.Reaches.refl _
  obtain ⟨own,hr⟩ := h.call emptyPut
  refine ⟨_,hr,fun t ht => ?_,0,⟨[],true,false⟩,rfl,rfl,rfl⟩
  rw [List.mem_singleton.mp ht]
  rfl

end Writers

end BlobStore

end Stele
