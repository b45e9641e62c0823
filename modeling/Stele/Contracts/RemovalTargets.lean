import Stele.Contracts.Dispatching

/-! Removal reaches the writer that wrote: one dispatch_id is one target, and the removal of
a delivery finds the type and the fields that it was dispatched with. -/
namespace Stele
open Python Interleaving

variable {H : Hasher} {classes : ℕ → TargetClass} {d : Dispatcher} {allowed : World → World → Prop}

/-- A dispatch to a registered target has this dispatch_id: its call returned it, or it called
the writer under it. -/
inductive Dispatched (classes : ℕ → TargetClass) (d : Dispatcher) (p : DispatcherPool) :
    PyStr → TargetValue → Prop
  | returned {t : Thread DispatcherCall World (Except Exc CallResult)} {c : DispatchArgs}
    {r : DispatchResult} (ht : t ∈ p.threads) (hc : t.call = .dispatch c)
    (hr : t.prog = .ret (.ok (.dispatched r))) (hreg : c.target.cls ∈ d.writers.keys)
    (hv : c.target.Valid classes) : Dispatched classes d p r.dispatchId c.target
  | wrote {c : Write} (hc : c ∈ p.shared.writes) (hv : c.target.Valid classes) :
    Dispatched classes d p c.dispatchId c.target

lemma Dispatched.valid {p : DispatcherPool} {id : PyStr} {t : TargetValue} (h : Dispatched classes d p id t) :
    t.Valid classes := by
  cases h with
  | returned _ _ _ _ hv => exact hv
  | wrote _ hv => exact hv

/-- The removal of a delivery goes where the delivery went. -/
structure RemovalCall.Reaches (d : Dispatcher) (c : RemovalCall) (id : PyStr) (t : TargetValue) : Prop where
  dispatchId : c.dispatchId = id
  writer : d.writers.get t.cls = some c.writer
  target : c.target.Same t

/-- One dispatch_id, one target; each removal reaches it; and a removal of a record's
deliveries that returns has handled each of them. -/
structure RemovalsReach (classes : ℕ → TargetClass) (d : Dispatcher) (p : DispatcherPool) : Prop where
  shared : ∀ id t u, Dispatched classes d p id t → Dispatched classes d p id u → t.Same u
  wrote : ∀ c ∈ p.shared.writes, d.writers.get c.target.cls = some c.writer
  reached : ∀ c ∈ p.shared.removals, ∀ t, Dispatched classes d p c.dispatchId t →
    c.Reaches d c.dispatchId t
  later : ∀ x ∈ p.threads, ∀ record rs, x.call.retracts = some record →
    x.prog = .ret (.ok (.removed rs)) → ∀ row ∈ x.start.db.deliveries, row.recordId = .text record →
    ∀ id t, row.dispatchId = .text id → Dispatched classes d p id t →
    (∃ c, c.Reaches d id t ∧ Called x.own c) ∨
      ∃ delivery, ReadBack x.own row delivery ∧ delivery.possiblyWritten = false

/-- No two registered types have one __name__. -/
def Dispatcher.Named (classes : ℕ → TargetClass) (d : Dispatcher) : Prop :=
  (d.writers.keys.map fun cls => (classes cls).name).Nodup

/-- Each registered type makes an instance again from its own fields. -/
def Dispatcher.Rebuilds (classes : ℕ → TargetClass) (d : Dispatcher) : Prop :=
  ∀ cls ∈ d.writers.keys, (classes cls).Rebuilds

lemma mem_keys {cls writer : ℕ} (h : d.writers.get cls = some writer) : cls ∈ d.writers.keys := by
  by_contra hn
  rw [Dict.get_eq_none.mpr hn] at h
  cases h

lemma Dispatcher.Named.inj (hn : d.Named classes) {a b : ℕ} (ha : a ∈ d.writers.keys)
    (hb : b ∈ d.writers.keys) (h : (classes a).name = (classes b).name) : a = b :=
  List.inj_on_of_nodup_map hn ha hb h

/-- The writer of a name is that of the one type that has it. -/
lemma Dispatcher.Named.writerByName (hn : d.Named classes) {cls writer : ℕ}
    (h : d.writers.get cls = some writer) :
    d.writerByName classes (classes cls).name = .ok (cls,writer) := by
  have hm := Dict.mem_of_get h
  obtain ⟨⟨cls',writer'⟩,hf⟩ := Option.isSome_iff_exists.mp (List.find?_isSome
    (p := fun p : ℕ × ℕ => decide ((classes p.1).name = (classes cls).name)).mpr ⟨_,hm,by simp⟩)
  have hname := List.find?_some hf
  rw [decide_eq_true_eq] at hname
  have hm' := List.mem_of_find?_eq_some hf
  obtain rfl : cls' = cls := hn.inj (List.mem_map_of_mem (f := Prod.fst) hm') (mem_keys h) hname
  have hw := Dict.get_of_mem d.types_nodup hm'
  rw [h] at hw
  rw [Dispatcher.writerByName,hf,Option.some.inj hw]
  rfl

section Targets

variable {db : Db} {id : PyStr} {t u : TargetValue}

/-- One dispatch_id is one target. -/
lemma Recorded.same (hc : Consistent H db) (hn : d.Named classes) (ht : Recorded classes db id t)
    (hu : Recorded classes db id u) (hvt : t.Valid classes) (hvu : u.Valid classes)
    (hrt : t.cls ∈ d.writers.keys) (hru : u.cls ∈ d.writers.keys) : t.Same u := by
  obtain ⟨row,hrow,hid,hkind,text,htext,hct⟩ := ht
  obtain ⟨row',hrow',hid',hkind',text',htext',hct'⟩ := hu
  obtain rfl := hc.delivery_eq hrow hrow' (by rw [hid,hid'])
  have hcls := hn.inj hrt hru (TextCell.text.inj (hkind.symm.trans hkind'))
  obtain rfl := TextCell.text.inj (htext.symm.trans htext')
  obtain ⟨cls,values⟩ := t
  obtain ⟨cls',values'⟩ := u
  obtain rfl : cls = cls' := hcls
  obtain rfl := asdict_inj hvt.length hvt.scalars hvu.length hvu.scalars hct hct'
  exact ⟨rfl,values_pyEq hvt.length hvt.scalars hct⟩

/-- The row's type and fields make the target again. -/
lemma DeliveryRow.Records.construct {row : DeliveryRow} (h : row.Records classes id t)
    (hb : (classes t.cls).RebuildsFrom t.values) (hv : t.Valid classes) :
    ∃ target u, loadsColumn row.target = .ok target ∧ construct classes t.cls target = .ok u ∧ u.Same t := by
  obtain ⟨-,-,text,htext,hct⟩ := h
  obtain ⟨kwargs,hk⟩ : ∃ kwargs, canonicalImage ((classes t.cls).asdict t.values) = .dict kwargs :=
    ⟨_,toJson_strDict (asdict_strDict hv.length)⟩
  obtain ⟨again,ha,hsame⟩ := hb text kwargs hct hk
  refine ⟨canonicalImage ((classes t.cls).asdict t.values),⟨t.cls,again⟩,?_,?_,⟨rfl,hsame⟩⟩
  · rw [htext,loadsColumn,loads_canonicalText hct]
    rfl
  · rw [hk,Stele.construct,ha]
    rfl

/-- What the row of a delivery to t leads to reaches t. -/
lemma Recorded.reaches (hc : Consistent H db) (hn : d.Named classes)
    (hb : (classes t.cls).RebuildsFrom t.values) (ht : Recorded classes db id t) (hv : t.Valid classes) {writer : ℕ}
    (hw : d.writers.get t.cls = some writer) {c : RemovalCall} (hr : Removable classes d db c)
    (hid : c.dispatchId = id) : c.Reaches d id t := by
  obtain ⟨row,hrow,hrec⟩ := ht
  obtain ⟨row',hrow',target,hrid',hload,hname,hmake⟩ := hr
  obtain rfl := hc.delivery_eq hrow hrow' (by rw [hrec.dispatchId,hrid',hid]; rfl)
  obtain ⟨target',u,hload',hmake',hsame⟩ := hrec.construct hb hv
  rw [hrec.kind] at hname
  obtain ⟨hcls,hwriter⟩ := Prod.mk.inj (Except.ok.inj ((hn.writerByName hw).symm.trans hname))
  obtain rfl := Except.ok.inj (hload.symm.trans hload')
  rw [← hcls] at hmake
  obtain rfl := Except.ok.inj (hmake.symm.trans hmake')
  exact ⟨hid,hwriter ▸ hw,hsame⟩

/-- A delivery that was read from that row is removed through its writer. -/
lemma DeliveryRow.Records.remover {row : DeliveryRow} (h : row.Records classes id t)
    (hn : d.Named classes) (hb : (classes t.cls).RebuildsFrom t.values) (hv : t.Valid classes) {writer : ℕ}
    (hw : d.writers.get t.cls = some writer) {own : List (World × World)} {delivery : Delivery}
    (hr : ReadBack own row delivery) :
    ∃ c, d.remover classes delivery = .ok c ∧ c.Reaches d id t := by
  obtain ⟨q,-,hq⟩ := hr
  obtain ⟨hid,-,hkind,hload⟩ := deliveryOfRow_ok hq
  obtain ⟨target,u,hload',hmake,hsame⟩ := h.construct hb hv
  obtain rfl := Except.ok.inj (hload.symm.trans hload')
  rw [h.kind] at hkind
  rw [h.dispatchId] at hid
  refine ⟨⟨writer,delivery.dispatchId,u⟩,?_,hid,hw,hsame⟩
  simp only [Dispatcher.remover,hkind,TextCell.get,hn.writerByName hw,hmake,bind,Except.bind]
  rfl

end Targets

/-- In every run in which no two registered types have one name and every target that is
dispatched can be made again, whatever other calls and crashes come in between: no two targets
share a dispatch_id, and each removal goes to the writer of the type that the delivery was
dispatched to, with a target equal to the original. -/
theorem removals_reach (H : Hasher) (classes : ℕ → TargetClass) (d : Dispatcher)
    (hn : d.Named classes) (a : Archive) (p : DispatcherPool)
    (hb : ∀ id t, Dispatched classes d p id t → (classes t.cls).RebuildsFrom t.values)
    (h : Interleaved (DispatcherCall.prog H classes d) Outside (fun _ _ => True) (World.new a) p) :
    RemovalsReach classes d p := by
  have hk := h.known (R := Rules.dispatcher H classes (Eq d) fun _ _ => True)
    (fun _ _ => DispatcherStep H classes (Eq d)) (fun c start => c.Done classes d start)
    (fun _ _ hab => .single (Or.inr hab)) (fun _ _ _ _ hg => .single (Or.inl ⟨hg,trivial⟩))
    (fun c w _ => c.meets rfl w)
  have hc : Consistent H p.shared.db := Consistent.dispatched consistent_new hk.1
  have hacc : Accounted classes (Eq d) p.shared := (accounted_new a).run hk.1
  have done : ∀ t ∈ p.threads, ∀ r, t.prog = .ret r →
      t.call.Done classes d t.start r t.own p.shared := by
    intro t ht r hr
    have hm := (hk.2 t ht).meets
    rw [hr] at hm
    exact hm _ ((Rules.dispatcher H classes (Eq d) fun _ _ => True).refl _)
  -- what every dispatch leaves
  have known : ∀ id t, Dispatched classes d p id t → Recorded classes p.shared.db id t ∧
      t.Valid classes ∧ ∃ writer, d.writers.get t.cls = some writer := by
    intro id t hd
    cases hd with
    | @returned x c r hx hcall hr hreg hv =>
      refine ⟨(done x hx _ hr).1 c r hcall rfl,hv,?_⟩
      cases hg : d.writers.get c.target.cls with
      | none => exact absurd hreg (Dict.get_eq_none.mp hg)
      | some writer => exact ⟨writer,rfl⟩
    | wrote hm hv =>
      obtain ⟨⟨_,rfl,hw⟩,hrec⟩ := hacc.writes _ hm
      exact ⟨hrec,hv,_,hw⟩
  refine ⟨fun id t u ht hu => ?_,fun c hm => ?_,fun c hm t ht => ?_,?_⟩
  · obtain ⟨hrt,hvt,_,hwt⟩ := known id t ht
    obtain ⟨hru,hvu,_,hwu⟩ := known id u hu
    exact hrt.same hc hn hru hvt hvu (mem_keys hwt) (mem_keys hwu)
  · obtain ⟨⟨_,rfl,hw⟩,-⟩ := hacc.writes c hm
    exact hw
  · obtain ⟨hrt,hvt,_,hwt⟩ := known _ t ht
    obtain ⟨_,rfl,hrem⟩ := hacc.removals c hm
    exact hrt.reaches hc hn (hb _ t ht) hvt hwt hrem rfl
  · intro x hx record rs hrec hr row hrow hrid id t hid ht
    obtain ⟨delivery,hread,hheld⟩ := (done x hx _ hr).2 record rs hrec rfl row hrow hrid
    obtain ⟨⟨row',hrow',hrecs⟩,hvt,_,hwt⟩ := known id t ht
    have hrow := Rules.dispatcher_deliveries (hk.2 x hx).start hrow
    obtain rfl := hc.delivery_eq hrow hrow' (by rw [hid,hrecs.dispatchId])
    obtain ⟨c,hc,hreach⟩ := hrecs.remover hn (hb id t ht) hvt hwt hread
    rcases hheld with hp | hcalled
    · exact Or.inr ⟨delivery,hread,hp⟩
    · exact Or.inl ⟨c,hreach,hcalled c hc⟩

/-- The record is sealed, dispatched to an instance of the second class, and invalidated. -/
def sampleCalls : List DispatcherCall :=
  [.ledger (.createPending sampleEnv samplePending),.ledger (.sealRecord (envAt 1) (lit "r1")),
    .dispatch ⟨lit "r1",⟨1,[.str (lit "x")]⟩,envAt 2,envAt 3,envAt 4,.ok [sampleChunk],.wrote,
      fun _ => [],fun _ => ⟨envAt 5,envAt 6,.removed none,fun _ => []⟩⟩,
    .invalidate (envAt 7) (lit "r1") (lit "bad") fun _ => ⟨envAt 8,envAt 9,.removed none,fun _ => []⟩]

def retractRun (d : Dispatcher) : World :=
  runCalls .checksum sampleClasses d sampleCalls (World.new .empty)

lemma retractRun_interleaved (d : Dispatcher) : ∃ us, Interleaved
    (DispatcherCall.prog .checksum sampleClasses d) Outside (fun _ _ => True) (World.new .empty)
    ⟨retractRun d,us⟩ := runCalls_interleaved sampleCalls (Runs.Reaches.refl _)

def oneTarget : Dispatcher := Dispatcher.empty.registerTarget 1 1

def twoTargets : Dispatcher := (Dispatcher.empty.registerTarget 0 0).registerTarget 1 1

/-- Which writers wrote and removed, for one registered type and for two of one name. -/
lemma retract_runs :
    ((retractRun oneTarget).removals.map fun c => (c.writer,c.target.cls)) = [(1,1)] ∧
    (fun w : World => (w.writes.map fun c => (c.dispatchId,c.target.cls,
      c.target.values.length,c.target.values.all isScalar),
      w.removals.map fun c => (c.dispatchId,c.target.cls))) (retractRun twoTargets) =
      ([(lit "u2",1,1,true)],[(lit "u2",0)]) := by
  decide +kernel

/-- With one registered type, the removal reaches the writer that wrote. -/
theorem removals_reach_sample : ∃ p : DispatcherPool,
    (p.shared.removals.map fun c => (c.writer,c.target.cls)) = [(1,1)] ∧
      RemovalsReach sampleClasses oneTarget p := by
  obtain ⟨us,h⟩ := retractRun_interleaved oneTarget
  have hn : oneTarget.Named sampleClasses := List.nodup_singleton _
  have hb : ∀ id t, Dispatched sampleClasses oneTarget ⟨retractRun oneTarget,us⟩ id t →
      (sampleClasses t.cls).RebuildsFrom t.values := fun _ _ ht =>
    TargetClass.plain_rebuilds _ _ _ _ ht.valid.length ht.valid.scalars
  exact ⟨⟨retractRun oneTarget,us⟩,retract_runs.1,
    removals_reach .checksum sampleClasses oneTarget hn .empty ⟨retractRun oneTarget,us⟩ hb h⟩

/-- Two registered types of one name: the second one's delivery is removed through the first
one's writer. -/
theorem removals_astray : ¬∀ (H : Hasher) (classes : ℕ → TargetClass) (d : Dispatcher) (a : Archive)
    (p : DispatcherPool), d.Rebuilds classes →
    Interleaved (DispatcherCall.prog H classes d) Outside (fun _ _ => True) (World.new a) p →
    RemovalsReach classes d p := by
  intro hall
  obtain ⟨us,h⟩ := retractRun_interleaved twoTargets
  have hreach := hall .checksum sampleClasses twoTargets .empty _
    (fun _ _ => TargetClass.plain_rebuilds _ _ _) h
  obtain ⟨hw,hr⟩ := Prod.mk.inj retract_runs.2
  obtain ⟨w,_,hws,hwf,-⟩ := List.map_eq_cons_iff.mp hw
  obtain ⟨c,_,hcs,hcf,-⟩ := List.map_eq_cons_iff.mp hr
  obtain ⟨hwid,hwcls,hwlen,hwall⟩ : w.dispatchId = lit "u2" ∧ w.target.cls = 1 ∧
    w.target.values.length = 1 ∧ w.target.values.all isScalar = true := by simpa using hwf
  obtain ⟨hcid,hccls⟩ : c.dispatchId = lit "u2" ∧ c.target.cls = 0 := by simpa using hcf
  have hd : Dispatched sampleClasses twoTargets ⟨retractRun twoTargets,us⟩ w.dispatchId w.target :=
    .wrote (by rw [hws]; exact List.mem_cons_self) ⟨hwlen,List.all_eq_true.mp hwall⟩
  rw [hwid,← hcid] at hd
  have hsame := (hreach.reached c (by rw [hcs]; exact List.mem_cons_self) w.target hd).target.cls
  omega

end Stele
