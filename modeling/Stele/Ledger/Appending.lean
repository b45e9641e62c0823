import Stele.Ledger.ChainExact
import Stele.Ledger.Consistency

/-! When a transaction commits: the next event of the log can be linked, and the values of a
delivery event can be bound. -/
namespace Stele
open Python

variable {H : Hasher} {db : Db} {kind subject at' : PyStr} {body : PyVal}

/-- The number of the next event and the hash it follows are values that SQLite holds. -/
structure Appendable (events : List EventRow) : Prop where
  seq : IsInt64 (nextLink events).1
  prev : ∃ s, (nextLink events).2 = .text s ∧ Encodable s

/-- No event of the log has the hash that the next event would have. -/
def FreshHash (H : Hasher) (events : List EventRow) (kind subject : PyStr) (body : PyVal)
    (at' : PyStr) : Prop :=
  ∀ text digest, canonicalText body = .ok text →
    eventHash H (nextLink events).1 (.str kind) (.str subject) (.str text) (.str at')
      (nextLink events).2.toPy = .ok digest →
    ∀ q ∈ events, q.hash ≠ .text digest

instance (H : Hasher) (events : List EventRow) (kind subject : PyStr) (body : PyVal) (at' : PyStr) :
    Decidable (FreshHash H events kind subject body at') :=
  match ht : canonicalText body with
  | .error _ => .isTrue fun _ _ h => by rw [ht] at h; cases h
  | .ok text =>
    match hd : eventHash H (nextLink events).1 (.str kind) (.str subject) (.str text) (.str at')
        (nextLink events).2.toPy with
    | .error _ => .isTrue fun _ _ h h' => by
      rw [ht] at h
      obtain rfl := Except.ok.inj h
      rw [hd] at h'
      cases h'
    | .ok digest => decidable_of_iff (∀ q ∈ events, q.hash ≠ .text digest) (by
      constructor
      · intro hall t d h h'
        rw [ht] at h
        obtain rfl := Except.ok.inj h
        rw [hd] at h'
        obtain rfl := Except.ok.inj h'
        exact hall
      · exact fun hall => hall text digest ht hd)

/-- uuid4() and the clock give texts. -/
structure Env.Textual (e : Env) : Prop where
  uuid : Encodable e.uuid
  now : Encodable e.now
  at' : Encodable e.at'

section Events

/-- Every event comes before the next one. -/
lemma lt_nextLink {events : List EventRow} {q : EventRow} (hq : q ∈ events) :
    q.seq < (nextLink events).1 := by
  have hmem : q ∈ orderBySeq events := (List.mem_insertionSort _).mpr hq
  have hsorted : (orderBySeq events).Pairwise fun a b => a.seq ≤ b.seq :=
    List.pairwise_insertionSort _ _
  unfold nextLink
  cases hl : (orderBySeq events).getLast? with
  | none => simp [List.getLast?_eq_none_iff.mp hl] at hmem
  | some last =>
    obtain ⟨init,hinit⟩ := List.getLast?_eq_some_iff.mp hl
    rw [hinit] at hmem hsorted
    rcases List.mem_append.mp hmem with hm | hm
    · have := (List.pairwise_append.mp hsorted).2.2 q hm last (by simp)
      change q.seq < last.seq+1
      omega
    · rw [List.mem_singleton.mp hm]
      exact Int.lt_succ_self _

/-- append_event succeeds on what canonical JSON can write. -/
lemma appendEvent_total (ha : Appendable db.events) (hk : Encodable kind) (hs : Encodable subject)
    (hb : Writable body) (ht : Encodable at') (hf : FreshHash H db.events kind subject body at') :
    ∃ ev db', appendEvent H kind subject body at' db = .ok (ev,db') := by
  obtain ⟨text,htext⟩ := hb
  obtain ⟨p,hp,hpe⟩ := ha.prev
  let r : EventRow := ⟨(nextLink db.events).1,.text kind,.text subject,.text text,.text at',.text p,.null⟩
  obtain ⟨digest,hd⟩ : ∃ d, r.rowHash H = .ok d := by
    refine (rowHash_total (r := r) ha.seq).mpr ?_
    simpa [r,EventRow.hashed,TextCell.Hashable,hk,hs,ht,hpe] using (canonicalText_ok.mp htext).2
  have hhash : eventHash H (nextLink db.events).1 (.str kind) (.str subject) (.str text) (.str at')
      (nextLink db.events).2.toPy = .ok digest := by rw [hp]; exact hd
  have hseq : (db.events.any fun q => decide (q.seq = (nextLink db.events).1)) = false :=
    List.any_eq_false.mpr fun q hq => by simpa using (lt_nextLink hq).ne
  have hnew : (db.events.any fun q => decide (q.hash = .text digest)) = false :=
    List.any_eq_false.mpr fun q hq => by simpa using hf text digest htext hhash q hq
  let row : EventRow := {r with hash := .text digest}
  have hinsert : insertEvent row db = .ok ((),{db with events := db.events++[row]}) := by
    simp only [insertEvent,row,r,hseq,hnew]
    rfl
  refine ⟨⟨row.seq,row.kind,row.subject,body,row.at',row.prevHash,row.hash⟩,
    {db with events := db.events++[row]},?_⟩
  have hnext : nextLink db.events = ((nextLink db.events).1,.text p) := Prod.ext rfl hp
  rw [hp] at hhash
  rw [appendEvent,hnext]
  simp only [htext,hhash]
  rw [show insertEvent _ db = _ from hinsert]

end Events

section DeliveryEvents

/-- Values that sqlite3 can bind. -/
structure EventArgs.Bindable (a : EventArgs) : Prop where
  event : Encodable a.event
  planned : ∀ i ∈ a.planned, IsInt64 i.value
  chunksDigest : ∀ s ∈ a.chunksDigest, Encodable s
  done : ∀ i ∈ a.done, IsInt64 i.value
  error : ∀ s ∈ a.error, Encodable s
  attemptId : ∀ s ∈ a.attemptId, Encodable s

lemma bindText_total {s : PyStr} : (∃ c, bindText s = .ok c) ↔ Encodable s := by
  unfold bindText
  split_ifs with h <;> simp [h]

lemma bindOption_total {s : Option PyStr} : (∃ c, bindOption s = .ok c) ↔ ∀ t ∈ s, Encodable t := by
  cases s with
  | none => simp [bindOption]
  | some s => simpa [bindOption] using bindText_total

lemma bindOptionInt_total {i : Option PyInt} :
    (∃ c, bindOptionInt i = .ok c) ↔ ∀ j ∈ i, IsInt64 j.value := by
  cases i with
  | none => simp [bindOptionInt]
  | some i =>
    have hi : (∀ j ∈ some i, IsInt64 j.value) ↔ IsInt64 i.value := by simp
    rw [hi,bindOptionInt,bindInt]
    split_ifs with h
    · exact iff_of_true ⟨_,rfl⟩ h
    · exact iff_of_false nofun h

/-- A row of an event can be bound when each of its values can. -/
lemma eventRow_total {n : ℤ} {id now : PyStr} {a : EventArgs} :
    (∃ row, eventRow n id now a = .ok row) ↔ Encodable id ∧ Encodable now ∧ a.Bindable := by
  constructor
  · rintro ⟨row,h⟩
    obtain ⟨_,h1,h⟩ := except_bind_ok.mp h
    obtain ⟨_,h2,h⟩ := except_bind_ok.mp h
    obtain ⟨_,h3,h⟩ := except_bind_ok.mp h
    obtain ⟨_,h4,h⟩ := except_bind_ok.mp h
    obtain ⟨_,h5,h⟩ := except_bind_ok.mp h
    obtain ⟨_,h6,h⟩ := except_bind_ok.mp h
    obtain ⟨_,h7,h⟩ := except_bind_ok.mp h
    obtain ⟨_,h8,_⟩ := except_bind_ok.mp h
    exact ⟨bindText_total.mp ⟨_,h1⟩,bindText_total.mp ⟨_,h7⟩,bindText_total.mp ⟨_,h2⟩,
      bindOptionInt_total.mp ⟨_,h3⟩,bindOption_total.mp ⟨_,h4⟩,bindOptionInt_total.mp ⟨_,h5⟩,
      bindOption_total.mp ⟨_,h6⟩,bindOption_total.mp ⟨_,h8⟩⟩
  · rintro ⟨h1,h7,⟨h2,h3,h4,h5,h6,h8⟩⟩
    obtain ⟨c1,h1⟩ := bindText_total.mpr h1
    obtain ⟨c2,h2⟩ := bindText_total.mpr h2
    obtain ⟨c3,h3⟩ := bindOptionInt_total.mpr h3
    obtain ⟨c4,h4⟩ := bindOption_total.mpr h4
    obtain ⟨c5,h5⟩ := bindOptionInt_total.mpr h5
    obtain ⟨c6,h6⟩ := bindOption_total.mpr h6
    obtain ⟨c7,h7⟩ := bindText_total.mpr h7
    obtain ⟨c8,h8⟩ := bindOption_total.mpr h8
    refine ⟨⟨n,c1,c2,c3,c4,c5,c6,c7,c8⟩,?_⟩
    simp only [eventRow,h1,h2,h3,h4,h5,h6,h7,h8,bind,Except.bind]
    rfl

lemma writable_optionStr {s : Option PyStr} (h : ∀ t ∈ s, Encodable t) : Writable (optionStrPy s) := by
  cases s with
  | none => exact writable_none
  | some s => exact writable_str (h s rfl)

lemma writable_optionInt {i : Option PyInt} (h : ∀ j ∈ i, IsInt64 j.value) :
    Writable (optionIntPy i) := by
  cases i with
  | none => exact writable_none
  | some i =>
    cases i with
    | int n => exact writable_int64 (h _ rfl)
    | bool b => exact writable_bool b

/-- What can be bound can be logged. -/
lemma EventArgs.Bindable.writable {a : EventArgs} (h : a.Bindable) : Writable a.body := by
  refine writable_dict fun p hp => ?_
  simp only [List.mem_cons,List.not_mem_nil,or_false] at hp
  rcases hp with rfl | rfl | rfl | rfl | rfl | rfl
  · exact ⟨⟨_,rfl,encodable_lit _⟩,writable_str h.event⟩
  · exact ⟨⟨_,rfl,encodable_lit _⟩,writable_optionInt h.planned⟩
  · exact ⟨⟨_,rfl,encodable_lit _⟩,writable_optionStr h.chunksDigest⟩
  · exact ⟨⟨_,rfl,encodable_lit _⟩,writable_optionInt h.done⟩
  · exact ⟨⟨_,rfl,encodable_lit _⟩,writable_optionStr h.error⟩
  · exact ⟨⟨_,rfl,encodable_lit _⟩,writable_optionStr h.attemptId⟩

/-- _insert succeeds on values that can be bound, unless the trigger refuses the row. -/
lemma insertTx_total {e : Env} {id : PyStr} {a : EventArgs} {row : DeliveryEventRow}
    (ha : Appendable db.events) (hrow : eventRow (nextEventId db) id e.now a = .ok row)
    (hkind : a.event ∈ eventKinds.map DeliveryEventKind.value)
    (hopen : ∃ d ∈ db.deliveries, d.dispatchId = .text id) (hp : breaksPayload db row = false)
    (ht : Encodable e.at') (hf : FreshHash H db.events (lit "delivery.event") id a.body e.at') :
    ∃ db', insertTx H e id a db = .ok ((),db') := by
  obtain ⟨hid,hnow,hb⟩ := eventRow_total.mp ⟨row,hrow⟩
  obtain ⟨-,h1,h2,-,-,-,-,-,h3⟩ := eventRow_ok hrow
  have hnull : ([row.dispatchId,row.event,row.at'].any fun c => decide (c = .null)) = false := by
    simp [h1,h2,h3]
  have hcheck : row.event ∈ eventKinds.map fun k => TextCell.text k.value := by
    obtain ⟨k,hk,he⟩ := List.mem_map.mp hkind
    exact List.mem_map.mpr ⟨k,hk,by rw [h2,he]⟩
  have hforeign : (db.deliveries.any fun d => decide (d.dispatchId = row.dispatchId)) = true := by
    obtain ⟨d,hd,he⟩ := hopen
    exact List.any_eq_true.mpr ⟨d,hd,by simp [he,h1]⟩
  have hinsert : insertDeliveryEvent row db =
      .ok ((),{db with deliveryEvents := db.deliveryEvents++[row]}) := by
    rw [insertDeliveryEvent,hp,hnull,hforeign,if_neg (by simp),if_neg (by simp),
      if_neg (not_not.mpr hcheck),if_neg (by simp)]
  have hlog : Appendable ({db with deliveryEvents := db.deliveryEvents++[row]} : Db).events := ha
  obtain ⟨ev,db',hev⟩ := appendEvent_total hlog (encodable_lit _) hid hb.writable ht hf
  exact ⟨db',except_bind_ok.mpr ⟨row,hrow,except_bind_ok.mpr ⟨_,hinsert,
    except_bind_ok.mpr ⟨_,hev,rfl⟩⟩⟩⟩

end DeliveryEvents

end Stele
