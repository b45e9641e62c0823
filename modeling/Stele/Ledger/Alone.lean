import Stele.Lib.Interruption
import Stele.Ledger.World

/-! One call of the ledger alone: what it returns or raises and what it leaves, also when an
exception from outside interrupts it. -/
namespace Stele
open Python Interleaving

/-- What leaves a call or a block: an exception of the ledger's, or any other one, of which
only its class and its repr matter. -/
inductive Raised
  | exc (e : Exc)
  | other (id : ℕ) (isException : Bool)

/-- isinstance(exc, Exception). -/
def Raised.isException : Raised → Bool
  | .exc _ => true
  | .other _ b => b

namespace Op

variable {α β : Type} {w : World}

/-- A call that nothing interrupts: what it returns or raises, and what it leaves. -/
def exec (p : Op α) (w : World) : Except Exc α × World := Prog.run p.run w

/-- A call that an exception may interrupt after some of its actions. -/
def attempt (p : Op α) (interruption : Option (ℕ × Raised)) (w : World) : Except Raised α × World :=
  match interruption with
  | none => ((p.exec w).1.mapError .exc,(p.exec w).2)
  | some (n,x) => (.error x,p.run.after n w)

@[simp] lemma exec_pure (a : α) : (pure a : Op α).exec w = (.ok a,w) := rfl

@[simp] lemma exec_lift (r : Except Exc α) : (Op.lift r).exec w = (r,w) := rfl

@[simp] lemma exec_transaction (body : Tx α) : (Op.transaction body).exec w =
    ((writeTransaction body w.db).1,{w with db := (writeTransaction body w.db).2}) := rfl

@[simp] lemma exec_query (f : Db → Except Exc α) : (Op.query f).exec w = (f w.db,w) := rfl

@[simp] lemma exec_onArchive (f : Archive → Except Exc α × Archive) : (Op.onArchive f).exec w =
    ((f w.archive).1,{w with archive := (f w.archive).2}) := rfl

lemma exec_bind (p : Op α) (k : α → Op β) : (p >>= k).exec w =
    match p.exec w with
    | (.ok a,w') => (k a).exec w'
    | (.error e,w') => (.error e,w') := by
  unfold exec
  rw [ExceptT.run_bind,Prog.run_bind]
  rcases Prog.run p.run w with ⟨r,w'⟩
  cases r <;> rfl

lemma exec_handle (p : Op α) (catches : Exc → Bool) (handler : Exc → Op α) :
    (Op.handle p catches handler).exec w =
      match p.exec w with
      | (.ok a,w') => (.ok a,w')
      | (.error e,w') => if catches e then (handler e).exec w' else (.error e,w') := by
  unfold exec
  change Prog.run (p.run >>= _) w = _
  rw [Prog.run_bind]
  rcases Prog.run p.run w with ⟨r,w'⟩
  cases r with
  | ok a => rfl
  | error e =>
    simp only
    split_ifs <;> rfl

/-- What a call returns or raises, and what it leaves, satisfy Q. -/
def Ends (p : Op α) (w : World) (Q : Except Exc α → World → Prop) : Prop := Q (p.exec w).1 (p.exec w).2

namespace Ends

variable {p : Op α} {k : α → Op β} {Q : Except Exc β → World → Prop}

lemma bind (hok : ∀ a u, p.exec w = (.ok a,u) → Ends (k a) u Q)
    (herr : ∀ e u, p.exec w = (.error e,u) → Q (.error e) u) : Ends (p >>= k) w Q := by
  unfold Ends at hok ⊢
  rw [exec_bind]
  rcases hp : p.exec w with ⟨r,u⟩
  cases r with
  | ok a => exact hok a u hp
  | error e => exact herr e u hp

lemma lift {r : Except Exc α} (hok : ∀ a, r = .ok a → Ends (k a) w Q) (herr : ∀ e, Q (.error e) w) :
    Ends (Op.lift r >>= k) w Q :=
  bind (fun a u h => by obtain ⟨rfl,rfl⟩ := Prod.mk.inj h; exact hok a rfl)
    fun e u h => by obtain ⟨_,rfl⟩ := Prod.mk.inj h; exact herr e

lemma query {f : Db → Except Exc α} (hok : ∀ a, f w.db = .ok a → Ends (k a) w Q)
    (herr : ∀ e, f w.db = .error e → Q (.error e) w) : Ends (Op.query f >>= k) w Q :=
  bind (fun a u h => by obtain ⟨hf,rfl⟩ := Prod.mk.inj h; exact hok a hf)
    fun e u h => by obtain ⟨hf,rfl⟩ := Prod.mk.inj h; exact herr e hf

/-- if c: raise e, and then the rest. -/
lemma refuse {c : Prop} [Decidable c] {e : Exc} {k : Unit → Op β} (hc : c → Q (.error e) w)
    (hk : ¬c → Ends (k ()) w Q) : Ends (if c then (MonadExcept.throw e >>= k) else k ()) w Q := by
  split_ifs with h
  · exact bind (fun a u h => by cases h) fun e' u he => by
      obtain ⟨hx,rfl⟩ := Prod.mk.inj he
      obtain rfl := Except.error.inj hx
      exact hc h
  · exact hk h

end Ends

end Op

end Stele
