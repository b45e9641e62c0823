import Mathlib.Data.List.Basic
import Mathlib.Data.List.Infix
import Mathlib.Data.List.Nodup
import Mathlib.Data.List.Perm.Subperm
import Mathlib.Data.Nat.Notation

/-! The forest that a list of roots and a list of children for each node span: its places, their
order, and the search with a stack that goes through them. A node that can be reached in two
ways has two places. -/
namespace Stele
namespace Forest

/-- A node with its index among its siblings, and the same for each node above it. -/
structure Position (α : Type) where
  node : α
  index : ℕ
  above : List (α × ℕ)
  deriving DecidableEq

variable {α : Type} {roots : List α} {kids : α → List α}

namespace Position

/-- From the node up to its root. -/
def chain (p : Position α) : List (α × ℕ) := (p.node,p.index) :: p.above

def child (p : Position α) (i : ℕ) (n : α) : Position α := ⟨n,i,p.chain⟩

@[simp] lemma chain_child (p : Position α) (i : ℕ) (n : α) : (p.child i n).chain = (n,i) :: p.chain := rfl

lemma chain_inj {p q : Position α} (h : p.chain = q.chain) : p = q := by
  obtain ⟨n,i,r⟩ := p
  obtain ⟨m,j,s⟩ := q
  obtain ⟨hn,rfl⟩ := List.cons.inj h
  obtain ⟨rfl,rfl⟩ := Prod.mk.inj hn
  rfl

/-- p is met before q at a node above both, or among the roots. -/
def Before (p q : Position α) : Prop :=
  ∃ s n i t m j r, p.chain = s++(n,i) :: r ∧ q.chain = t++(m,j) :: r ∧ i < j

/-- The order of the search: a node before those below it, siblings in their order. -/
def Precedes (p q : Position α) : Prop := (∃ s, s ≠ [] ∧ q.chain = s++p.chain) ∨ p.Before q

/-- The places below p, next to it. -/
def children (kids : α → List α) (p : Position α) : List (Position α) :=
  (kids p.node).mapIdx fun i n => p.child i n

end Position

/-- The places of the forest. -/
inductive IsPosition (roots : List α) (kids : α → List α) : Position α → Prop
  | root {i : ℕ} {n : α} (h : roots[i]? = some n) : IsPosition roots kids ⟨n,i,[]⟩
  | child {p : Position α} {i : ℕ} {n : α} (hp : IsPosition roots kids p) (h : (kids p.node)[i]? = some n) :
    IsPosition roots kids (p.child i n)

/-- Siblings are apart by their index. -/
lemma IsPosition.eq_of_index {p q : Position α} (hp : IsPosition roots kids p) (hq : IsPosition roots kids q)
    (ha : p.above = q.above) (hi : p.index = q.index) : p = q := by
  cases hp with
  | @root i n hn =>
    cases hq with
    | @root j m hm =>
      obtain rfl : i = j := hi
      rw [Option.some.inj (hn.symm.trans hm)]
    | child _ _ => cases ha
  | @child p i n _ hn =>
    cases hq with
    | root _ => cases ha
    | @child q j m _ hm =>
      obtain rfl : i = j := hi
      obtain rfl : p = q := Position.chain_inj ha
      rw [Option.some.inj (hn.symm.trans hm)]

def rootPositions (roots : List α) : List (Position α) := roots.mapIdx fun i n => ⟨n,i,[]⟩

section Order

variable {p q : Position α}

lemma Position.Before.child_left (h : p.Before q) (i : ℕ) (n : α) : (p.child i n).Before q := by
  obtain ⟨s,m,j,t,k,l,r,hp,hq,hlt⟩ := h
  exact ⟨(n,i) :: s,m,j,t,k,l,r,by rw [Position.chain_child,hp]; rfl,hq,hlt⟩

lemma Position.Before.child_right (h : p.Before q) (i : ℕ) (n : α) : p.Before (q.child i n) := by
  obtain ⟨s,m,j,t,k,l,r,hp,hq,hlt⟩ := h
  exact ⟨s,m,j,(n,i) :: t,k,l,r,hp,by rw [Position.chain_child,hq]; rfl,hlt⟩

lemma Position.precedes_child (p : Position α) (i : ℕ) (n : α) : p.Precedes (p.child i n) :=
  Or.inl ⟨[(n,i)],List.cons_ne_nil _ _,rfl⟩

lemma Position.Precedes.child_right (h : p.Precedes q) (i : ℕ) (n : α) : p.Precedes (q.child i n) := by
  rcases h with ⟨s,hs,hq⟩ | h
  · exact Or.inl ⟨(n,i) :: s,List.cons_ne_nil _ _,by rw [Position.chain_child,hq]; rfl⟩
  · exact Or.inr (h.child_right i n)

/-- A place does not precede itself. -/
lemma Position.Precedes.ne (h : p.Precedes q) : p ≠ q := by
  rintro rfl
  rcases h with ⟨s,hs,hp⟩ | ⟨s,n,i,t,m,j,r,hp,hq,hlt⟩
  · have hlen := congrArg List.length hp
    rw [List.length_append] at hlen
    have := List.length_pos_iff.mpr hs
    omega
  · have he := hp.symm.trans hq
    have hlen : s.length = t.length := by
      have := congrArg List.length he
      simp only [List.length_append,List.length_cons] at this
      omega
    obtain ⟨-,hrest⟩ := List.append_inj he hlen
    obtain ⟨hni,-⟩ := List.cons.inj hrest
    exact hlt.ne (Prod.mk.inj hni).2

lemma Position.mem_children {p q : Position α} :
    q ∈ p.children kids ↔ ∃ i n, (kids p.node)[i]? = some n ∧ q = p.child i n := by
  simp only [Position.children,List.mem_mapIdx]
  constructor
  · rintro ⟨i,hi,rfl⟩
    exact ⟨i,_,List.getElem?_eq_getElem hi,rfl⟩
  · rintro ⟨i,n,hn,rfl⟩
    obtain ⟨hi,rfl⟩ := List.getElem?_eq_some_iff.mp hn
    exact ⟨i,hi,rfl⟩

lemma mem_rootPositions {p : Position α} :
    p ∈ rootPositions roots ↔ ∃ i n, roots[i]? = some n ∧ p = ⟨n,i,[]⟩ := by
  simp only [rootPositions,List.mem_mapIdx]
  constructor
  · rintro ⟨i,hi,rfl⟩
    exact ⟨i,_,List.getElem?_eq_getElem hi,rfl⟩
  · rintro ⟨i,n,hn,rfl⟩
    obtain ⟨hi,rfl⟩ := List.getElem?_eq_some_iff.mp hn
    exact ⟨i,hi,rfl⟩

lemma map_mapIdx {β γ : Type} (g : β → γ) (f : ℕ → α → β) (l : List α) :
    (l.mapIdx f).map g = l.mapIdx fun i a => g (f i a) := by
  apply List.ext_getElem?
  intro i
  rw [List.getElem?_map,List.getElem?_mapIdx,List.getElem?_mapIdx,Option.map_map]
  rfl

/-- Siblings, in their order. -/
lemma pairwise_mapIdx {β : Type} {R : β → β → Prop} {f : ℕ → α → β} (l : List α)
    (h : ∀ i j a b, i < j → R (f i a) (f j b)) : (l.mapIdx f).Pairwise R := by
  rw [List.pairwise_iff_getElem]
  intro i j hi hj hij
  rw [List.getElem_mapIdx,List.getElem_mapIdx]
  exact h i j _ _ hij

lemma Position.children_pairwise (p : Position α) : (p.children kids).Pairwise Position.Before :=
  pairwise_mapIdx _ fun i j n m hij => ⟨[],n,i,[],m,j,p.chain,rfl,rfl,hij⟩

lemma rootPositions_pairwise : (rootPositions roots).Pairwise Position.Before :=
  pairwise_mapIdx _ fun i j n m hij => ⟨[],n,i,[],m,j,[],rfl,rfl,hij⟩

end Order

section Search

/-- The places in the order in which a stack goes through them; nothing when a node is met
twice. The number bounds the turns. -/
def search [DecidableEq α] (kids : α → List α) : ℕ → List (Position α) → List α → Option (List (Position α))
  | _,[],_ => some []
  | 0,_ :: _,_ => none
  | n+1,p :: stack,visited =>
    if p.node ∈ visited then none
    else (search kids n (p.children kids++stack) (p.node :: visited)).map (p :: ·)

/-- What is on the stack comes after what has been met, in order. -/
structure Ordered (met stack : List (Position α)) : Prop where
  after : ∀ p ∈ met, ∀ q ∈ stack, p.Precedes q
  stack : stack.Pairwise Position.Before
  met : met.Pairwise fun p q => q.Precedes p

lemma Ordered.visit {met stack : List (Position α)} {p : Position α} (h : Ordered met (p :: stack)) :
    Ordered (p :: met) (p.children kids++stack) := by
  obtain ⟨hfirst,hrest⟩ := List.pairwise_cons.mp h.stack
  refine ⟨fun q hq r hr => ?_,?_,?_⟩
  · rcases List.mem_append.mp hr with hr | hr
    · obtain ⟨i,n,-,rfl⟩ := Position.mem_children.mp hr
      rcases List.mem_cons.mp hq with rfl | hq
      · exact q.precedes_child i n
      · exact (h.after q hq p List.mem_cons_self).child_right i n
    · rcases List.mem_cons.mp hq with hqp | hq
      · exact Or.inr (hqp ▸ hfirst r hr)
      · exact h.after q hq r (List.mem_cons_of_mem _ hr)
  · refine List.pairwise_append.mpr ⟨p.children_pairwise,hrest,fun q hq r hr => ?_⟩
    obtain ⟨i,n,-,rfl⟩ := Position.mem_children.mp hq
    exact (hfirst r hr).child_left i n
  · exact List.pairwise_cons.mpr ⟨fun q hq => h.after q hq p List.mem_cons_self,h.met⟩

lemma ordered_roots : Ordered [] (rootPositions roots) :=
  ⟨List.forall_mem_nil _,rootPositions_pairwise,.nil⟩

/-- What a search that ends has met: each place below the stack, in order, each node once. -/
structure Found (kids : α → List α) (met stack found : List (Position α)) : Prop where
  subset : stack ⊆ found
  children : ∀ p ∈ found, p.children kids ⊆ found
  origin : ∀ p ∈ found, p ∈ stack ∨ ∃ q ∈ found, p ∈ q.children kids
  nodes : ((found.map Position.node)++met.map Position.node).Nodup
  order : (met.reverse++found).Pairwise Position.Precedes

theorem search_found [DecidableEq α] {n : ℕ} {met stack found : List (Position α)} (h : Ordered met stack)
    (hn : (met.map Position.node).Nodup)
    (hs : search kids n stack (met.map Position.node) = some found) : Found kids met stack found := by
  have done : ∀ {met : List (Position α)}, Ordered met [] → (met.map Position.node).Nodup →
      Found kids met [] [] := fun h hn => ⟨List.Subset.refl _,nofun,nofun,by simpa using hn,by
    rw [List.append_nil]
    exact List.pairwise_reverse.mpr h.met⟩
  induction n generalizing met stack found with
  | zero =>
    cases stack with
    | nil =>
      obtain rfl := Option.some.inj hs
      exact done h hn
    | cons p stack => cases hs
  | succ n ih =>
    cases stack with
    | nil =>
      obtain rfl := Option.some.inj hs
      exact done h hn
    | cons p stack =>
      rw [search] at hs
      split_ifs at hs with hin
      obtain ⟨rest,hrest,rfl⟩ := Option.map_eq_some_iff.mp hs
      have hf : Found kids (p :: met) (p.children kids++stack) rest :=
        ih h.visit (List.nodup_cons.mpr ⟨hin,hn⟩) hrest
      refine ⟨?_,?_,?_,?_,?_⟩
      · refine List.cons_subset.mpr ⟨List.mem_cons_self,fun q hq => ?_⟩
        exact List.mem_cons_of_mem _ (hf.subset (List.mem_append_right _ hq))
      · intro q hq
        rcases List.mem_cons.mp hq with rfl | hq
        · exact fun r hr => List.mem_cons_of_mem _ (hf.subset (List.mem_append_left _ hr))
        · exact fun r hr => List.mem_cons_of_mem _ (hf.children q hq hr)
      · intro q hq
        rcases List.mem_cons.mp hq with rfl | hq
        · exact Or.inl List.mem_cons_self
        · rcases hf.origin q hq with hq | ⟨r,hr,hqr⟩
          · rcases List.mem_append.mp hq with hq | hq
            · exact Or.inr ⟨p,List.mem_cons_self,hq⟩
            · exact Or.inl (List.mem_cons_of_mem _ hq)
          · exact Or.inr ⟨r,List.mem_cons_of_mem _ hr,hqr⟩
      · have := hf.nodes
        rw [List.map_cons] at this ⊢
        exact List.nodup_middle.mp this
      · have := hf.order
        rwa [List.reverse_cons,List.append_assoc] at this

/-- A search that starts at the roots and ends has met exactly the places of the forest. -/
lemma Found.mem_iff {found : List (Position α)} (h : Found kids [] (rootPositions roots) found) {p : Position α} :
    p ∈ found ↔ IsPosition roots kids p := by
  constructor
  · -- from the node up to its root, by the length of that way
    have up : ∀ n, ∀ p ∈ found, p.above.length = n → IsPosition roots kids p := by
      intro n
      induction n using Nat.strong_induction_on with
      | _ n ih =>
        rintro p hp rfl
        rcases h.origin p hp with hroot | ⟨q,hq,hchild⟩
        · obtain ⟨i,m,hm,rfl⟩ := mem_rootPositions.mp hroot
          exact .root hm
        · obtain ⟨i,m,hm,rfl⟩ := Position.mem_children.mp hchild
          exact .child (ih _ (Nat.lt_succ_self _) q hq rfl) hm
    exact fun hp => up _ p hp rfl
  · intro hp
    induction hp with
    | root hm => exact h.subset (mem_rootPositions.mpr ⟨_,_,hm,rfl⟩)
    | child hp hm ih => exact h.children _ ih (Position.mem_children.mpr ⟨_,_,hm,rfl⟩)

/-- Each node of the forest has one place only. -/
def Unique (roots : List α) (kids : α → List α) : Prop :=
  ∀ p q, IsPosition roots kids p → IsPosition roots kids q → p.node = q.node → p = q

lemma Ordered.not_unique {met stack : List (Position α)} {p : Position α} (h : Ordered met (p :: stack))
    (hm : ∀ q ∈ met, IsPosition roots kids q) (hp : IsPosition roots kids p) (hin : p.node ∈ met.map Position.node) :
    ¬Unique roots kids := by
  obtain ⟨q,hq,hqp⟩ := List.mem_map.mp hin
  exact fun hu => (h.after q hq p List.mem_cons_self).ne (hu q p (hm q hq) hp hqp)

/-- A search that stops has met a node at two places. -/
theorem search_none [DecidableEq α] {nodes : List α} {n : ℕ} {met stack : List (Position α)}
    (h : Ordered met stack) (hn : (met.map Position.node).Nodup)
    (hm : ∀ p ∈ met, IsPosition roots kids p) (hs : ∀ p ∈ stack, IsPosition roots kids p)
    (hnodes : ∀ p, IsPosition roots kids p → p.node ∈ nodes) (hlen : nodes.length ≤ met.length+n)
    (hsearch : search kids n stack (met.map Position.node) = none) : ¬Unique roots kids := by
  induction n generalizing met stack with
  | zero =>
    cases stack with
    | nil => cases hsearch
    | cons p stack =>
      refine h.not_unique hm (hs p List.mem_cons_self) ?_
      have hsub : met.map Position.node ⊆ nodes := fun m hm' => by
        obtain ⟨q,hq,rfl⟩ := List.mem_map.mp hm'
        exact hnodes q (hm q hq)
      have hperm := (List.subperm_of_subset hn hsub).perm_of_length_le (by simpa using hlen)
      exact hperm.mem_iff.mpr (hnodes p (hs p List.mem_cons_self))
  | succ n ih =>
    cases stack with
    | nil => cases hsearch
    | cons p stack =>
      rw [search] at hsearch
      split_ifs at hsearch with hin
      · exact h.not_unique hm (hs p List.mem_cons_self) hin
      · have hrest := Option.map_eq_none_iff.mp hsearch
        have hp := hs p List.mem_cons_self
        have hnodup : ((p :: met).map Position.node).Nodup := List.nodup_cons.mpr ⟨hin,hn⟩
        refine ih h.visit hnodup ?_ ?_ ?_ hrest
        · exact List.forall_mem_cons.mpr ⟨hp,hm⟩
        · intro q hq
          rcases List.mem_append.mp hq with hq | hq
          · obtain ⟨i,m,hm',rfl⟩ := Position.mem_children.mp hq
            exact .child hp hm'
          · exact hs q (List.mem_cons_of_mem _ hq)
        · rw [List.length_cons]
          omega

end Search

end Forest

end Stele
