import Mathlib.Data.List.Basic
import Mathlib.Data.List.Induction

/-! Chains of hashed events, whatever the events and the hash: every event names the hash
of the one before it. An event's hash then fixes everything up to it. -/
namespace HashChain

variable {E H : Type} (prev hash : E → H)

/-- Each event follows the one before it, the first follows `p`. -/
def Linked : H → List E → Prop
  | _,[] => True
  | p,e :: es => prev e = p ∧ Linked (hash e) es

/-- The hash that the next event has to name. -/
def last (p : H) (es : List E) : H := (es.getLast?.map hash).getD p

@[simp] lemma last_nil (p : H) : last hash p [] = p := rfl

@[simp] lemma last_concat (p : H) (es : List E) (e : E) : last hash p (es++[e]) = hash e := by
  simp [last]

lemma last_cons (p : H) (e : E) (es : List E) : last hash p (e :: es) = last hash (hash e) es := by
  cases es with
  | nil => rfl
  | cons f es =>
    rw [last,List.getLast?_cons_cons,last,List.getLast?_eq_some_getLast (List.cons_ne_nil f es)]
    rfl

lemma linked_append {p : H} {es fs : List E} :
    Linked prev hash p (es++fs) ↔ Linked prev hash p es ∧ Linked prev hash (last hash p es) fs := by
  induction es generalizing p with
  | nil => simp [Linked]
  | cons e es ih => rw [List.cons_append,Linked,Linked,ih,last_cons,and_assoc]

/-- Two chains of one length with one last hash are the same events, when equal hashes
mean equal events. -/
theorem eq_of_last {p q : H} {es fs : List E} (he : Linked prev hash p es)
    (hf : Linked prev hash q fs) (hl : es.length = fs.length)
    (hinj : ∀ e ∈ es, ∀ f ∈ fs, hash e = hash f → e = f)
    (hh : last hash p es = last hash q fs) : es = fs := by
  induction es using List.reverseRecOn generalizing fs with
  | nil => exact (List.eq_nil_of_length_eq_zero hl.symm).symm
  | append_singleton es e ih =>
    obtain rfl | ⟨fs,f,rfl⟩ := fs.eq_nil_or_concat'
    · simp at hl
    · obtain ⟨hes,hpe,_⟩ := (linked_append prev hash).mp he
      obtain ⟨hfs,hpf,_⟩ := (linked_append prev hash).mp hf
      rw [last_concat,last_concat] at hh
      have hef := hinj e (by simp) f (by simp) hh
      have hlast : last hash p es = last hash q fs := by rw [← hpe,← hpf,hef]
      have hrest := ih hes hfs (by simpa using hl)
        (fun a ha b hb => hinj a (by simp [ha]) b (by simp [hb])) hlast
      rw [hrest,hef]

/-- Two chains that hold an event with the same hash at one place agree up to there. -/
theorem take_eq_of_hash {p q : H} {es fs : List E} (he : Linked prev hash p es)
    (hf : Linked prev hash q fs) (hinj : ∀ e ∈ es, ∀ f ∈ fs, hash e = hash f → e = f) {n : ℕ}
    {e f : E} (hen : es[n]? = some e) (hfn : fs[n]? = some f) (hh : hash e = hash f) :
    es.take (n+1) = fs.take (n+1) := by
  have split : ∀ {r : H} {gs : List E} {g : E}, Linked prev hash r gs → gs[n]? = some g →
      Linked prev hash r (gs.take (n+1)) ∧ last hash r (gs.take (n+1)) = hash g ∧
        (gs.take (n+1)).length = n+1 := by
    intro r gs g hg hn
    obtain ⟨hlt,_⟩ := List.getElem?_eq_some_iff.mp hn
    refine ⟨?_,?_,by simp; omega⟩
    · rw [← List.take_append_drop (n+1) gs] at hg
      exact ((linked_append prev hash).mp hg).1
    · rw [List.take_add_one,hn,Option.toList_some,last_concat]
  obtain ⟨he1,he2,he3⟩ := split he hen
  obtain ⟨hf1,hf2,hf3⟩ := split hf hfn
  exact eq_of_last prev hash he1 hf1 (he3.trans hf3.symm)
    (fun a ha b hb => hinj a (List.mem_of_mem_take ha) b (List.mem_of_mem_take hb))
    (he2.trans (hh.trans hf2.symm))

end HashChain
