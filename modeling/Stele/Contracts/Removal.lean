import Stele.Ledger.Delivery
import Stele.Lib.Runs

/-! Write attempts and removals of one delivery, against the target that holds its chunks.
Every append is atomic; a process may die after any of its steps. -/
namespace Stele
namespace Removal
open Python

/-- A process between two of its steps. -/
inductive Proc
  /-- Inside writer.write_chunks, having landed some of the chunks. -/
  | writing (attempt : PyStr) (landed todo : List PyStr)
  /-- Inside writer.remove_delivery. -/
  | removing
  /-- remove_delivery emptied the target; its receipt or failure is still to come. -/
  | emptied
  /-- remove_delivery raised; its failure is still to come. -/
  | raised

/-- The delivery, what the target holds under its dispatch_id, and the processes. What is
held is kept with the attempt that landed it, once for each attempt. -/
structure State where
  delivery : Delivery
  held : List (PyStr × PyStr)
  procs : List Proc

/-- uuid4() gives an attempt_id that no event carries. -/
def Fresh (d : Delivery) (a : PyStr) : Prop := ∀ e ∈ d.events, e.attemptId ≠ some a

/-- A new delivery: empty log, nothing at the target, nobody running. -/
def Initial (s : State) : Prop := s.delivery.events = [] ∧ s.held = [] ∧ s.procs = []

inductive Label
  | intent (e : DeliveryEvent)
  | land
  | receipt (e : DeliveryEvent)
  | failure (e : DeliveryEvent)
  | unwrittenFailure (e : DeliveryEvent)
  | removalIntent (e : DeliveryEvent)
  | empty
  | removeRaises
  | removalReceipt (e : DeliveryEvent)
  | removalFailure (e : DeliveryEvent)
  | die

/-- The steps of Dispatcher.dispatch and Dispatcher._remove. -/
inductive Step : State → Label → State → Prop
  | intent {d held procs e a} (chunks : List PyStr) : e.event = .intent → e.attemptId = some a →
    Fresh d a → Step ⟨d,held,procs⟩ (.intent e) ⟨d.append e,held,.writing a [] chunks :: procs⟩
  | land {d held l r a landed c todo} :
    Step ⟨d,held,l++.writing a landed (c :: todo) :: r⟩ .land
      ⟨d,(a,c) :: held,l++.writing a (landed++[c]) todo :: r⟩
  | receipt {d held l r e a landed todo} : e.event = .receipt → e.attemptId = some a →
    Step ⟨d,held,l++.writing a landed todo :: r⟩ (.receipt e) ⟨d.append e,held,l++r⟩
  /-- A failure says done = 0 only when this attempt landed nothing. -/
  | failure {d held l r e a landed todo} : e.event = .failure → e.attemptId = some a →
    (e.done = some 0 → landed = []) →
    Step ⟨d,held,l++.writing a landed todo :: r⟩ (.failure e) ⟨d.append e,held,l++r⟩
  /-- append_unwritten_failure: an attempt that never called its writer. -/
  | unwrittenFailure {d held procs e a} : e.event = .failure → e.attemptId = some a →
    e.done = some 0 → Fresh d a →
    Step ⟨d,held,procs⟩ (.unwrittenFailure e) ⟨d.append e,held,procs⟩
  | removalIntent {d held procs e} : e.event = .removalIntent →
    Step ⟨d,held,procs⟩ (.removalIntent e) ⟨d.append e,held,.removing :: procs⟩
  | empty {d held l r} :
    Step ⟨d,held,l++.removing :: r⟩ .empty ⟨d,[],l++.emptied :: r⟩
  /-- remove_delivery may have removed some of the chunks before it raised. -/
  | removeRaises {d held l r} (keep : PyStr → Bool) :
    Step ⟨d,held,l++.removing :: r⟩ .removeRaises
      ⟨d,held.filter fun p => keep p.2,l++.raised :: r⟩
  | removalReceipt {d held l r e} : e.event = .removalReceipt →
    Step ⟨d,held,l++.emptied :: r⟩ (.removalReceipt e) ⟨d.append e,held,l++r⟩
  | removalFailure {d held l r e} {p : Proc} : e.event = .removalFailure → p = .emptied ∨ p = .raised →
    Step ⟨d,held,l++p :: r⟩ (.removalFailure e) ⟨d.append e,held,l++r⟩
  /-- No writer is registered for the target: a removal_failure without an intent. -/
  | removalRefused {d held procs e} : e.event = .removalFailure →
    Step ⟨d,held,procs⟩ (.removalFailure e) ⟨d.append e,held,procs⟩
  | die {d held l r p} : Step ⟨d,held,l++p :: r⟩ .die ⟨d,held,l++r⟩

/-- The attempt announced itself and no receipt or failure of it is in the log. -/
def Unresolved (d : Delivery) (a : PyStr) : Prop :=
  (∃ e ∈ d.events, e.event = .intent ∧ e.attemptId = some a) ∧
    ∀ e ∈ d.events, e.event = .receipt ∨ e.event = .failure → e.attemptId ≠ some a

/-- Every chunk at the target was landed by an attempt that is still unresolved. -/
def Covered (s : State) : Prop :=
  ∀ p ∈ s.held, ∃ a, (a,p.2) ∈ s.held ∧ Unresolved s.delivery a

/-- A removal is receipted only while whatever the target then holds is covered. -/
def ReceiptsCovered (s : State) : Label → Prop
  | .removalReceipt _ => Covered s
  | _ => True

section Fold

variable {w : WriteFold} {e : DeliveryEvent} {a : PyStr}

lemma event_intent {b : PyStr} (h : e.event = .intent) (hb : e.attemptId = some b) :
    w.event e = {w with outstanding := w.outstanding.insert b} := by simp [WriteFold.event,h,hb]

lemma event_receipt (h : e.event = .receipt) :
    w.event e = {w with written := true}.close e.attemptId := by simp [WriteFold.event,h]

lemma event_failure (h : e.event = .failure) :
    w.event e = (if e.done ≠ some 0 then {w with written := true} else w).close e.attemptId := by
  simp [WriteFold.event,h]

/-- An event leaves every attempt outstanding except the one whose outcome it is. -/
lemma outstanding_event (ha : a ∈ w.outstanding)
    (hne : e.event = .receipt ∨ e.event = .failure → e.attemptId ≠ some a) :
    a ∈ (w.event e).outstanding := by
  have close : ∀ v : WriteFold, v.outstanding = w.outstanding → e.attemptId ≠ some a →
      a ∈ (v.close e.attemptId).outstanding := by
    intro v hv hn
    cases hb : e.attemptId with
    | none => rw [WriteFold.close_none,hv]; exact ha
    | some b => exact WriteFold.mem_close.mpr ⟨hv ▸ ha,fun hab => hn (by rw [hb,hab])⟩
  cases h : e.event with
  | intent =>
    cases hb : e.attemptId with
    | none => simpa [WriteFold.event,h,hb] using ha
    | some b => rw [event_intent h hb]; exact List.mem_insert_of_mem ha
  | receipt => rw [event_receipt h]; exact close _ rfl (hne (Or.inl h))
  | failure =>
    rw [event_failure h]
    refine close _ ?_ (hne (Or.inr h))
    split_ifs <;> rfl
  | removalIntent => simpa [WriteFold.event,h] using ha
  | removalReceipt => simpa [WriteFold.event,h] using ha
  | removalFailure => simpa [WriteFold.event,h] using ha

lemma written_event (hw : w.written = true) (h : e.event ≠ .removalReceipt) :
    (w.event e).written = true := by
  cases he : e.event with
  | intent => cases hb : e.attemptId <;> simp [WriteFold.event,he,hb,hw]
  | receipt => rw [event_receipt he]; simp
  | failure => rw [event_failure he]; split_ifs <;> simp [hw]
  | removalIntent => simpa [WriteFold.event,he] using hw
  | removalReceipt => exact absurd he h
  | removalFailure => simpa [WriteFold.event,he] using hw

/-- An unresolved attempt is outstanding, in whatever order the events came. -/
lemma outstanding_of_unresolved {d : Delivery} (h : Unresolved d a) :
    a ∈ d.writeFold.outstanding := by
  obtain ⟨⟨i,hi,hii,hia⟩,ho⟩ := h
  obtain ⟨l,r,hlr⟩ := List.append_of_mem hi
  have hr : ∀ e ∈ r, e.event = .receipt ∨ e.event = .failure → e.attemptId ≠ some a :=
    fun e he => ho e (by rw [hlr]; simp [he])
  have hstart : a ∈ ((l.foldl WriteFold.event .start).event i).outstanding := by
    rw [event_intent hii hia]
    exact List.mem_insert_self ..
  rw [Delivery.writeFold,hlr,List.foldl_append,List.foldl_cons]
  generalize (l.foldl WriteFold.event .start).event i = v at hstart
  clear hlr ho
  induction r generalizing v with
  | nil => exact hstart
  | cons e r ih =>
    exact ih (fun f hf => hr f (List.mem_cons_of_mem _ hf)) _ (outstanding_event hstart (hr e (by simp)))

end Fold

/-- The attempt that a process runs. -/
@[simp] def Proc.attempt : Proc → Option PyStr
  | .writing a _ _ => some a
  | _ => none

/-- What every run keeps: the running attempts are outstanding and distinct, what an attempt
holds at the target it has landed, and a chunk at the target is either counted as written or
was landed by an outstanding attempt. -/
structure Sound (s : State) : Prop where
  running : ∀ a ∈ s.procs.filterMap Proc.attempt, a ∈ s.delivery.writeFold.outstanding
  distinct : (s.procs.filterMap Proc.attempt).Nodup
  known : ∀ a ∈ s.delivery.writeFold.outstanding, ¬Fresh s.delivery a
  source : ∀ p ∈ s.held, ¬Fresh s.delivery p.1
  landed : ∀ a l t, .writing a l t ∈ s.procs → ∀ c, (a,c) ∈ s.held → c ∈ l
  counted : ∀ p ∈ s.held, s.delivery.writeFold.written = true ∨
    ∃ a ∈ s.delivery.writeFold.outstanding, (a,p.2) ∈ s.held

/-- Soundness on the target's side: the log cannot say that nothing is held while it is. -/
lemma Sound.held_eq_nil {s : State} (h : Sound s) (hp : s.delivery.possiblyWritten = false) :
    s.held = [] := by
  rw [Delivery.possiblyWritten,WriteFold.value] at hp
  simp only [Bool.or_eq_false_iff,Bool.not_eq_false',List.isEmpty_iff] at hp
  by_contra hne
  obtain ⟨p,hm⟩ := List.exists_mem_of_ne_nil _ hne
  rcases h.counted p hm with hw | ⟨a,ha,_⟩
  · simp [hw] at hp
  · simp [hp.2] at ha

lemma fresh_append {d : Delivery} {e : DeliveryEvent} {a : PyStr} (h : Fresh (d.append e) a) :
    Fresh d a ∧ e.attemptId ≠ some a := by
  simp only [Fresh,Delivery.append_events,List.mem_append,List.mem_singleton] at h ⊢
  exact ⟨fun f hf => h f (Or.inl hf),h e (Or.inr rfl)⟩

lemma mem_event {w : WriteFold} {e : DeliveryEvent} {a : PyStr} (h : a ∈ (w.event e).outstanding) :
    a ∈ w.outstanding ∨ e.attemptId = some a := by
  have close : ∀ v : WriteFold, v.outstanding = w.outstanding →
      a ∈ (v.close e.attemptId).outstanding → a ∈ w.outstanding := by
    intro v hv hm
    cases hb : e.attemptId with
    | none => rw [hb,WriteFold.close_none,hv] at hm; exact hm
    | some b => rw [hb,WriteFold.mem_close,hv] at hm; exact hm.1
  cases he : e.event with
  | intent =>
    cases hb : e.attemptId with
    | none => exact Or.inl (by simpa [WriteFold.event,he,hb] using h)
    | some b =>
      rw [event_intent he hb] at h
      rcases List.mem_insert_iff.mp h with rfl | h
      · exact Or.inr rfl
      · exact Or.inl h
  | receipt => rw [event_receipt he] at h; exact Or.inl (close {w with written := true} rfl h)
  | failure =>
    rw [event_failure he] at h
    refine Or.inl (close _ ?_ h)
    split_ifs <;> rfl
  | removalIntent => exact Or.inl (by simpa [WriteFold.event,he] using h)
  | removalReceipt => exact Or.inl (by simpa [WriteFold.event,he] using h)
  | removalFailure => exact Or.inl (by simpa [WriteFold.event,he] using h)

/-- Some of the processes, none of them further on with its writing. -/
structure Fewer (procs' procs : List Proc) : Prop where
  attempts : (procs'.filterMap Proc.attempt).Sublist (procs.filterMap Proc.attempt)
  writing : ∀ a l t, .writing a l t ∈ procs' → .writing a l t ∈ procs

lemma Fewer.of_sublist {procs' procs : List Proc} (h : procs'.Sublist procs) : Fewer procs' procs :=
  ⟨h.filterMap _,fun _ _ _ hm => h.subset hm⟩

lemma Fewer.drop {l r : List Proc} {p : Proc} : Fewer (l++r) (l++p :: r) :=
  .of_sublist ((List.sublist_cons_self p r).append_left l)

/-- A removal process that moves on leaves the attempts alone. -/
lemma Fewer.removal {l r : List Proc} {p q : Proc} (hp : q.attempt = none) :
    Fewer (l++q :: r) (l++p :: r) := by
  refine ⟨?_,fun a u t hm => ?_⟩
  · simp only [List.filterMap_append,List.filterMap_cons,hp]
    cases p.attempt with
    | none => exact .refl _
    | some a => exact (List.sublist_cons_self _ _).append_left _
  · rcases List.mem_append.mp hm with hm | hm
    · simp [hm]
    · rcases List.mem_cons.mp hm with rfl | hm
      · simp [Proc.attempt] at hp
      · simp [hm]

/-- The processes and what is held may shrink, as long as every chunk stays counted. -/
lemma Sound.shrink {d : Delivery} {held held' : List (PyStr × PyStr)} {procs procs' : List Proc}
    (h : Sound ⟨d,held,procs⟩) (hp : Fewer procs' procs) (hh : held' ⊆ held)
    (hc : ∀ p ∈ held', d.writeFold.written = true ∨
      ∃ a ∈ d.writeFold.outstanding, (a,p.2) ∈ held') : Sound ⟨d,held',procs'⟩ where
  running a ha := h.running a (hp.attempts.subset ha)
  distinct := h.distinct.sublist hp.attempts
  known := h.known
  source p hm := h.source p (hh hm)
  landed a l t hm c hac := h.landed a l t (hp.writing a l t hm) c (hh hac)
  counted := hc

/-- One event more: the processes still running are not the ones it closes. -/
lemma Sound.append {d : Delivery} {held : List (PyStr × PyStr)} {procs : List Proc}
    {e : DeliveryEvent} (h : Sound ⟨d,held,procs⟩)
    (hrun : e.event = .receipt ∨ e.event = .failure →
      ∀ a ∈ procs.filterMap Proc.attempt, e.attemptId ≠ some a)
    (hc : ∀ p ∈ held, (d.append e).writeFold.written = true ∨
      ∃ a ∈ (d.append e).writeFold.outstanding, (a,p.2) ∈ held) :
    Sound ⟨d.append e,held,procs⟩ where
  running a ha := by
    rw [Delivery.append_writeFold]
    exact outstanding_event (h.running a ha) fun he => hrun he a ha
  distinct := h.distinct
  known a ha hf := by
    rw [Delivery.append_writeFold] at ha
    rcases mem_event ha with ha | ha
    · exact h.known a ha (fresh_append hf).1
    · exact (fresh_append hf).2 ha
  source p hm hf := h.source p hm (fresh_append hf).1
  landed := h.landed
  counted := hc

/-- An event that is neither a removal receipt nor an outcome keeps every chunk counted. -/
lemma Sound.counted_append {d : Delivery} {held : List (PyStr × PyStr)} {procs : List Proc}
    {e : DeliveryEvent} (h : Sound ⟨d,held,procs⟩) (hr : e.event ≠ .removalReceipt)
    (ho : e.event = .receipt ∨ e.event = .failure →
      ∀ a ∈ d.writeFold.outstanding, ∀ c, (a,c) ∈ held → e.attemptId ≠ some a) :
    ∀ p ∈ held, (d.append e).writeFold.written = true ∨
      ∃ a ∈ (d.append e).writeFold.outstanding, (a,p.2) ∈ held := by
  intro p hp
  rw [Delivery.append_writeFold]
  rcases h.counted p hp with hw | ⟨a,ha,hm⟩
  · exact Or.inl (written_event hw hr)
  · exact Or.inr ⟨a,outstanding_event ha fun he => ho he a ha p.2 hm,hm⟩

/-- The attempts of the other processes differ from this one's. -/
lemma Sound.others {d : Delivery} {held : List (PyStr × PyStr)} {l r : List Proc} {a : PyStr}
    {u v : List PyStr} (h : Sound ⟨d,held,l++.writing a u v :: r⟩) :
    a ∉ (l++r).filterMap Proc.attempt := by
  have hd := h.distinct
  have ha : (Proc.writing a u v).attempt = some a := rfl
  rw [List.filterMap_append,List.filterMap_cons_some ha,List.nodup_middle,List.nodup_cons] at hd
  rw [List.filterMap_append]
  exact hd.1

/-- Every step that meets the condition keeps the invariant. -/
theorem Sound.step {s t : State} {l : Label} (h : Sound s) (hs : Step s l t)
    (hc : ReceiptsCovered s l) : Sound t := by
  cases hs with
  | @intent d held procs e a chunks he ha hf =>
    have happ := h.append (e := e) (by simp [he]) (h.counted_append (by simp [he]) (by simp [he]))
    have hnew : a ∉ procs.filterMap Proc.attempt := fun hm => h.known a (h.running a hm) hf
    refine ⟨?_,?_,happ.known,happ.source,?_,happ.counted⟩
    · intro b hb
      rcases List.mem_cons.mp hb with rfl | hb
      · rw [Delivery.append_writeFold,event_intent he ha]
        exact List.mem_insert_self ..
      · exact happ.running b hb
    · exact List.nodup_cons.mpr ⟨hnew,h.distinct⟩
    · intro b u v hm c hbc
      rcases List.mem_cons.mp hm with hm | hm
      · obtain ⟨rfl,_,_⟩ := Proc.writing.inj hm
        exact absurd hf (h.source _ hbc)
      · exact happ.landed b u v hm c hbc
  | @land d held l r a landed c todo =>
    have ho := h.others
    refine ⟨?_,?_,h.known,?_,?_,?_⟩
    · simpa using h.running
    · simpa using h.distinct
    · intro p hp
      rcases List.mem_cons.mp hp with rfl | hp
      · exact h.known a (h.running a (by simp [Proc.attempt]))
      · exact h.source p hp
    · intro b u v hm x hx
      have hb : .writing b u v ∈ l++r → b ≠ a := fun hlr hba =>
        ho (List.mem_filterMap.mpr ⟨.writing b u v,hlr,congrArg some hba⟩)
      by_cases hlr : .writing b u v ∈ l++r
      · rcases List.mem_cons.mp hx with hx | hx
        · exact absurd (Prod.mk.inj hx).1 (hb hlr)
        · exact h.landed b u v (by simp at hlr ⊢; tauto) x hx
      · obtain ⟨rfl,rfl,rfl⟩ : b = a ∧ u = landed++[c] ∧ v = todo := by
          simp at hm hlr; tauto
        rcases List.mem_cons.mp hx with hx | hx
        · simp [(Prod.mk.inj hx).2]
        · exact List.mem_append_left _ (h.landed b landed (c :: v) (by simp) x hx)
    · intro p hp
      rcases List.mem_cons.mp hp with rfl | hp
      · exact Or.inr ⟨a,h.running a (by simp [Proc.attempt]),by simp⟩
      · exact (h.counted p hp).imp id fun ⟨b,hb,hm⟩ => ⟨b,hb,List.mem_cons_of_mem _ hm⟩
  | @receipt d held l r e a landed todo he ha =>
    refine (h.shrink .drop (List.Subset.refl _) h.counted).append (fun _ b hb hba => ?_) ?_
    · obtain rfl : a = b := Option.some.inj (ha.symm.trans hba)
      exact h.others hb
    · intro p _
      rw [Delivery.append_writeFold,event_receipt he]
      exact Or.inl (by simp)
  | @failure d held l r e a landed todo he ha hd =>
    refine (h.shrink .drop (List.Subset.refl _) h.counted).append (fun _ b hb hba => ?_) ?_
    · obtain rfl : a = b := Option.some.inj (ha.symm.trans hba)
      exact h.others hb
    · by_cases h0 : e.done = some 0
      · -- this attempt landed nothing, so no chunk was counted through it
        refine h.counted_append (by simp [he]) fun _ b _ c hbc hba => ?_
        obtain rfl : a = b := Option.some.inj (ha.symm.trans hba)
        have hc := h.landed a landed todo (by simp) c hbc
        rw [hd h0] at hc
        exact absurd hc List.not_mem_nil
      · intro p _
        rw [Delivery.append_writeFold,event_failure he,if_pos h0]
        exact Or.inl (by simp)
  | @unwrittenFailure d held procs e a he ha hd hf =>
    refine h.append (fun _ b hb hba => ?_) (h.counted_append (by simp [he]) fun _ b hb c _ hba => ?_)
    · obtain rfl : a = b := Option.some.inj (ha.symm.trans hba)
      exact h.known a (h.running a hb) hf
    · obtain rfl : a = b := Option.some.inj (ha.symm.trans hba)
      exact h.known a hb hf
  | @removalIntent d held procs e he =>
    have happ := h.append (e := e) (by simp [he]) (h.counted_append (by simp [he]) (by simp [he]))
    refine happ.shrink ⟨.refl _,fun a u v hm => ?_⟩ (List.Subset.refl _) happ.counted
    simpa using hm
  | empty => exact h.shrink (.removal rfl) (List.nil_subset _) (by simp)
  | removeRaises keep =>
    refine h.shrink (.removal rfl) (List.filter_subset_self _) fun p hp => ?_
    obtain ⟨hp,hk⟩ := List.mem_filter.mp hp
    exact (h.counted p hp).imp id fun ⟨a,ha,hm⟩ => ⟨a,ha,List.mem_filter.mpr ⟨hm,hk⟩⟩
  | @removalReceipt d held l r e he =>
    refine (h.shrink .drop (List.Subset.refl _) h.counted).append (by simp [he]) fun p hp => ?_
    obtain ⟨a,hm,hu⟩ := hc p hp
    rw [Delivery.append_writeFold]
    exact Or.inr ⟨a,outstanding_event (outstanding_of_unresolved hu) (by simp [he]),hm⟩
  | removalFailure he _ =>
    exact (h.shrink .drop (List.Subset.refl _) h.counted).append (by simp [he])
      (h.counted_append (by simp [he]) (by simp [he]))
  | removalRefused he => exact h.append (by simp [he]) (h.counted_append (by simp [he]) (by simp [he]))
  | die => exact h.shrink .drop (List.Subset.refl _) h.counted

lemma Sound.initial {s : State} (h : Initial s) : Sound s := by
  obtain ⟨⟨id,rid,kind,target,at',events⟩,held,procs⟩ := s
  obtain ⟨rfl,rfl,rfl⟩ := h
  exact ⟨by simp,by simp,by simp [Delivery.writeFold,WriteFold.start],by simp,by simp,by simp⟩

/-- possibly_written is sound in every run in which a removal is receipted only while what
the target holds was landed by attempts that are still unresolved. -/
theorem possiblyWritten_sound (s t : State) (hs : Initial s)
    (hr : Runs.Reaches Step ReceiptsCovered s t) (hp : t.delivery.possiblyWritten = false) :
    t.held = [] :=
  (hr.invariant (I := Sound) (Sound.initial hs) fun _ _ _ ha hst hc => ha.step hst hc).held_eq_nil hp

/-- An event that carries only what possibly_written reads. -/
def logged (k : DeliveryEventKind) (attempt : Option PyStr) (done : Option ℤ) : DeliveryEvent :=
  ⟨0,k,none,none,done,none,[],attempt⟩

def opened (events : List DeliveryEvent) : Delivery := ⟨[],[],[],.dict [],[],events⟩

def firstAttempt : PyStr := lit "a"

/-- The write is removed after its receipt, and the log says so. -/
theorem possiblyWritten_sound_removed : ∃ t : State,
    Runs.Reaches Step ReceiptsCovered ⟨opened [],[],[]⟩ t ∧
      t.delivery.possiblyWritten = false ∧ t.held = [] := by
  have h0 : Initial ⟨opened [],[],[]⟩ := ⟨rfl,rfl,rfl⟩
  have h1 : Runs.Reaches Step ReceiptsCovered ⟨opened [],[],[]⟩ _ := (Runs.Reaches.refl _).tail
    (.intent (e := logged .intent firstAttempt none) [lit "c"] rfl rfl (by simp [Fresh,opened])) trivial
  have h2 := h1.tail (.land (l := []) (r := [])) trivial
  have h3 := h2.tail (.receipt (l := []) (r := []) (e := logged .receipt firstAttempt (some 1)) rfl rfl)
    trivial
  have h4 := h3.tail (.removalIntent (e := logged .removalIntent none none) rfl) trivial
  have h5 := h4.tail (.empty (l := []) (r := [])) trivial
  have h6 := h5.tail (.removalReceipt (l := []) (r := [])
    (e := logged .removalReceipt none (some 1)) rfl) (by simp [ReceiptsCovered,Covered])
  exact ⟨_,h6,by decide +kernel,possiblyWritten_sound _ _ h0 h6 (by decide +kernel)⟩

/-- A write that lands after the removal emptied the target, but whose receipt precedes the
removal's, stays there while possibly_written is False. -/
theorem possiblyWritten_unsound : ¬∀ s t : State, Initial s →
    Runs.Reaches Step (fun _ _ => True) s t → t.delivery.possiblyWritten = false → t.held = [] := by
  intro h
  have h0 : Initial ⟨opened [],[],[]⟩ := ⟨rfl,rfl,rfl⟩
  have h1 : Runs.Reaches Step (fun _ _ => True) ⟨opened [],[],[]⟩ _ := (Runs.Reaches.refl _).tail
    (.intent (e := logged .intent firstAttempt none) [lit "c"] rfl rfl (by simp [Fresh,opened])) trivial
  have h2 := h1.tail (.removalIntent (e := logged .removalIntent none none) rfl) trivial
  have h3 := h2.tail (.empty (l := [])) trivial
  have h4 := h3.tail (.land (l := [.emptied]) (r := [])) trivial
  have h5 := h4.tail (.receipt (l := [.emptied]) (r := [])
    (e := logged .receipt firstAttempt (some 1)) rfl rfl) trivial
  have h6 := h5.tail (.removalReceipt (l := []) (r := [])
    (e := logged .removalReceipt none (some 0)) rfl) trivial
  exact absurd (h _ _ h0 h6 (by decide +kernel)) (by simp)

end Removal
end Stele
