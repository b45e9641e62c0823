import Stele.Extraction.Normalizers

/-! A pointer that json_pointer made leads back to the value it was made for. -/
namespace Stele
open Python

section Replace

variable {old new s : PyStr} {c d : CodePoint}

lemma replaceFuel_length (hold : old ≠ []) {n : ℕ} (h : s.length ≤ n) :
    replaceFuel old new n s = replaceFuel old new s.length s := by
  have key : ∀ m n : ℕ, ∀ s : PyStr, s.length ≤ n → n ≤ m →
      replaceFuel old new n s = replaceFuel old new s.length s := by
    intro m
    induction m with
    | zero =>
      intro n s hs hn
      obtain rfl : s = [] := List.length_eq_zero_iff.mp (by omega)
      cases n <;> rfl
    | succ m ih =>
      intro n s hs hn
      cases s with
      | nil => cases n <;> rfl
      | cons c s =>
        obtain ⟨n,rfl⟩ := Nat.exists_eq_succ_of_ne_zero (n := n) (by rintro rfl; simp at hs)
        have hlen : 1 ≤ old.length := List.length_pos_iff.mpr hold
        have hdrop : ((c :: s).drop old.length).length ≤ s.length := by
          rw [List.length_drop,List.length_cons]
          omega
        rw [List.length_cons] at hs ⊢
        rw [replaceFuel,replaceFuel,ih n _ (by omega) (by omega),ih s.length _ hdrop (by omega),
          ih n s (by omega) (by omega)]
  exact key n n s h le_rfl

lemma replace_cons (hold : old ≠ []) (c : CodePoint) (s : PyStr) : replace old new (c :: s) =
    if old.isPrefixOf (c :: s) then new++replace old new ((c :: s).drop old.length)
    else c :: replace old new s := by
  have hdrop : ((c :: s).drop old.length).length ≤ s.length := by
    have : 1 ≤ old.length := List.length_pos_iff.mpr hold
    rw [List.length_drop,List.length_cons]
    omega
  rw [replace,List.length_cons,replaceFuel,replaceFuel_length hold hdrop]
  rfl

/-- Replacing one character. -/
lemma replace_singleton (c : CodePoint) (new s : PyStr) :
    replace [c] new s = s.flatMap fun d => if d = c then new else [d] := by
  induction s with
  | nil => rfl
  | cons d s ih =>
    rw [replace_cons (by simp),List.flatMap_cons]
    by_cases h : d = c
    · subst h
      simp [ih]
    · rw [if_neg (by simpa using Ne.symm h),if_neg h,ih]
      rfl

lemma replace_two (a b : CodePoint) (s : PyStr) :
    replace [a,b] new (a :: b :: s) = new++replace [a,b] new s := by
  rw [replace_cons (by simp),if_pos (by simp)]
  rfl

lemma replace_two_ne (h : d ≠ c) (b : CodePoint) (s : PyStr) :
    replace [c,b] new (d :: s) = d :: replace [c,b] new s := by
  rw [replace_cons (by simp),if_neg (by simp [h.symm])]

lemma replace_two_other {a b : CodePoint} (h : d ≠ b) (s : PyStr) :
    replace [a,b] new (a :: d :: s) = a :: replace [a,b] new (d :: s) := by
  rw [replace_cons (by simp),if_neg (by simp [h.symm])]

end Replace

def tilde : CodePoint := cp '~'
def solidus : CodePoint := cp '/'

/-- What escaping makes of a character. -/
def escapeChars (c : CodePoint) : PyStr :=
  if c = tilde then [tilde,cp '0'] else if c = solidus then [tilde,cp '1'] else [c]

lemma escapeToken_eq (t : PyStr) : escapeToken t = t.flatMap escapeChars := by
  have h1 : lit "~" = [tilde] := rfl
  have h2 : lit "/" = [solidus] := rfl
  rw [escapeToken,h1,h2,replace_singleton,replace_singleton,List.flatMap_assoc]
  congr 1
  funext c
  unfold escapeChars
  by_cases hc : c = tilde
  · rw [if_pos hc,if_pos hc]
    decide
  · rw [if_neg hc,if_neg hc,List.flatMap_cons,List.flatMap_nil,List.append_nil]
    rfl

/-- unescape undoes escape: first the slashes come back, then the tildes. -/
theorem unescapeToken_escapeToken (t : PyStr) : unescapeToken (escapeToken t) = t := by
  have hs : replace (lit "~1") (lit "/") (t.flatMap escapeChars) =
      t.flatMap fun c => if c = tilde then [tilde,cp '0'] else [c] := by
    induction t with
    | nil => rfl
    | cons c t ih =>
      have h1 : lit "~1" = [tilde,cp '1'] := rfl
      have h2 : lit "/" = [solidus] := rfl
      rw [h1,h2] at ih ⊢
      rw [List.flatMap_cons,List.flatMap_cons,escapeChars]
      by_cases hc : c = tilde
      · rw [if_pos hc,if_pos hc]
        simp only [List.cons_append,List.nil_append]
        rw [replace_two_other (by decide),replace_two_ne (by decide),ih]
      · rw [if_neg hc,if_neg hc]
        by_cases hd : c = solidus
        · rw [if_pos hd,hd]
          simp only [List.cons_append,List.nil_append]
          rw [replace_two,ih]
          rfl
        · rw [if_neg hd]
          simp only [List.cons_append,List.nil_append]
          rw [replace_two_ne hc,ih]
  rw [unescapeToken,escapeToken_eq,hs]
  have h1 : lit "~0" = [tilde,cp '0'] := rfl
  have h2 : lit "~" = [tilde] := rfl
  rw [h1,h2]
  clear hs
  induction t with
  | nil => rfl
  | cons c t ih =>
    rw [List.flatMap_cons]
    by_cases hc : c = tilde
    · rw [if_pos hc,hc]
      simp only [List.cons_append,List.nil_append]
      rw [replace_two,ih]
      rfl
    · rw [if_neg hc]
      simp only [List.cons_append,List.nil_append]
      rw [replace_two_ne hc,ih]

lemma solidus_not_mem_escape (t : PyStr) : solidus ∉ escapeToken t := by
  rw [escapeToken_eq]
  intro h
  obtain ⟨c,-,hc⟩ := List.mem_flatMap.mp h
  unfold escapeChars at hc
  split_ifs at hc with h1 h2
  · exact absurd hc (by decide)
  · exact absurd hc (by decide)
  · exact h2 (List.mem_singleton.mp hc).symm

/-- The tokens of a pointer are those it was made of. -/
lemma splitOn_jsonPointer (t : PyStr) (ts : List PyStr) :
    List.splitOn solidus (jsonPointer (t :: ts)).tail = (t :: ts).map escapeToken := by
  have hjoin : (jsonPointer (t :: ts)).tail = List.intercalate [solidus] ((t :: ts).map escapeToken) := by
    rw [jsonPointer,List.flatMap_cons,List.cons_append,List.tail_cons]
    induction ts generalizing t with
    | nil => simp
    | cons u ts ih =>
      rw [List.flatMap_cons,List.cons_append,ih u]
      simp only [List.map_cons,List.intercalate_cons_cons]
      simp [solidus]
  rw [hjoin,List.splitOn_intercalate solidus _ (by simp)]
  intro l hl
  obtain ⟨u,-,rfl⟩ := List.mem_map.mp hl
  exact solidus_not_mem_escape u

lemma descend_member {kvs : List (PyKey × PyVal)} {t : PyStr} {v : PyVal} (p : PyStr)
    (h : PyVal.find kvs (.str t) = some v) : descend p (.dict kvs) (escapeToken t) = .ok v := by
  simp only [descend,unescapeToken_escapeToken,h]

section Inverse

/-- Following the tokens as member names. -/
def follow : PyVal → List PyStr → Option PyVal
  | v,[] => some v
  | .dict kvs,t :: ts => (PyVal.find kvs (.str t)).bind fun v => follow v ts
  | _,_ :: _ => none

/-- The values that the tokens meet are objects; the last one may be any value. -/
def ObjectsAlong : PyVal → List PyStr → Prop
  | _,[] => True
  | .dict kvs,t :: ts => ∀ v, PyVal.find kvs (.str t) = some v → ObjectsAlong v ts
  | _,_ :: _ => False

/-- Following the tokens comes to an object without the next member. -/
def MemberAbsent (doc : PyVal) (ts : List PyStr) : Prop :=
  ∃ ts₁ t ts₂ kvs, ts = ts₁++t :: ts₂ ∧ follow doc ts₁ = some (.dict kvs) ∧ PyVal.find kvs (.str t) = none

variable {doc v w : PyVal} {kvs : List (PyKey × PyVal)} {t : PyStr} {ts : List PyStr}

lemma objectsAlong_cons (h : ObjectsAlong v (t :: ts)) :
    ∃ kvs, v = .dict kvs ∧ ∀ w, PyVal.find kvs (.str t) = some w → ObjectsAlong w ts := by
  cases v with
  | dict kvs => exact ⟨kvs,rfl,h⟩
  | _ => exact h.elim

lemma follow_member (h : PyVal.find kvs (.str t) = some v) (ts : List PyStr) :
    follow (.dict kvs) (t :: ts) = follow v ts := by rw [follow,h,Option.bind_some]

lemma follow_absent (h : PyVal.find kvs (.str t) = none) (ts : List PyStr) :
    follow (.dict kvs) (t :: ts) = none := by rw [follow,h,Option.bind_none]

lemma memberAbsent_nil (v : PyVal) : ¬MemberAbsent v [] := by
  rintro ⟨ts₁,t,ts₂,kvs,h,-⟩
  simp at h

lemma memberAbsent_member (h : PyVal.find kvs (.str t) = some v) :
    MemberAbsent (.dict kvs) (t :: ts) ↔ MemberAbsent v ts := by
  constructor
  · rintro ⟨ts₁,u,ts₂,kws,hts,hf,hn⟩
    cases ts₁ with
    | nil =>
      obtain ⟨rfl,-⟩ := List.cons.inj hts
      obtain rfl := PyVal.dict.inj (Option.some.inj hf)
      cases h.symm.trans hn
    | cons u' ts₁ =>
      obtain ⟨rfl,htail⟩ := List.cons.inj hts
      exact ⟨ts₁,u,ts₂,kws,htail,(follow_member h ts₁).symm.trans hf,hn⟩
  · rintro ⟨ts₁,u,ts₂,kws,rfl,hf,hn⟩
    exact ⟨t :: ts₁,u,ts₂,kws,rfl,(follow_member h ts₁).trans hf,hn⟩

/-- The tokens lead to a value, or some object does not have the next member. -/
lemma follow_eq_none (h : ObjectsAlong v ts) : follow v ts = none ↔ MemberAbsent v ts := by
  induction ts generalizing v with
  | nil => exact iff_of_false nofun (memberAbsent_nil v)
  | cons t ts ih =>
    obtain ⟨kvs,rfl,hk⟩ := objectsAlong_cons h
    cases hf : PyVal.find kvs (.str t) with
    | none => exact iff_of_true (follow_absent hf ts) ⟨[],t,ts,kvs,rfl,rfl,hf⟩
    | some w => rw [follow_member hf,memberAbsent_member hf,ih (hk w hf)]

lemma descend_absent (p : PyStr) (h : PyVal.find kvs (.str t) = none) :
    descend p (.dict kvs) (escapeToken t) = resolutionError (.noMember p t) := by
  simp only [descend,unescapeToken_escapeToken,h]

/-- Each escaped token is looked up as the member it was made of. -/
lemma descend_tokens (p : PyStr) (h : ObjectsAlong v ts) :
    (∃ w, follow v ts = some w ∧ (ts.map escapeToken).foldlM (descend p) v = .ok w) ∨
    ∃ q, follow v ts = none ∧ (ts.map escapeToken).foldlM (descend p) v = resolutionError q := by
  induction ts generalizing v with
  | nil => exact .inl ⟨v,rfl,rfl⟩
  | cons t ts ih =>
    obtain ⟨kvs,rfl,hk⟩ := objectsAlong_cons h
    rw [List.map_cons,List.foldlM_cons]
    cases hf : PyVal.find kvs (.str t) with
    | none =>
      rw [descend_absent p hf]
      exact .inr ⟨_,follow_absent hf ts,rfl⟩
    | some w =>
      rw [follow_member hf,descend_member p hf]
      exact ih (hk w hf)

lemma resolvePointer_tokens (h : ObjectsAlong doc ts) :
    (∃ w, follow doc ts = some w ∧ resolvePointer doc (jsonPointer ts) = .ok w) ∨
    ∃ q, follow doc ts = none ∧ resolvePointer doc (jsonPointer ts) = resolutionError q := by
  cases ts with
  | nil => exact .inl ⟨doc,rfl,rfl⟩
  | cons t ts =>
    have hne : jsonPointer (t :: ts) ≠ [] := by simp [jsonPointer]
    have hs := splitOn_jsonPointer t ts
    rw [solidus] at hs
    rw [resolvePointer,if_neg hne,hs]
    exact descend_tokens _ h

lemma escapeToken_injective : Function.Injective escapeToken :=
  Function.LeftInverse.injective unescapeToken_escapeToken

/-- No two lists of tokens have one pointer. -/
lemma jsonPointer_injective : Function.Injective jsonPointer := by
  intro ts us h
  cases ts with
  | nil =>
    cases us with
    | nil => rfl
    | cons u us => cases h
  | cons t ts =>
    cases us with
    | nil => cases h
    | cons u us =>
      have hs := splitOn_jsonPointer t ts
      rw [h,splitOn_jsonPointer u us] at hs
      exact (List.map_injective_iff.mpr escapeToken_injective hs).symm

/-- A pointer leads to the value that its tokens lead to as member names, ResolutionError is raised
exactly when a member is absent, and no two lists of tokens have one pointer. -/
theorem pointers_invert :
    (∀ (doc : PyVal) (ts : List PyStr), ObjectsAlong doc ts →
      (∀ v, resolvePointer doc (jsonPointer ts) = .ok v ↔ follow doc ts = some v) ∧
      ((∃ e, resolvePointer doc (jsonPointer ts) = .error e) ↔ MemberAbsent doc ts) ∧
      ∀ e, resolvePointer doc (jsonPointer ts) = .error e → ∃ p, e = .resolution p) ∧
    Function.Injective jsonPointer := by
  refine ⟨fun doc ts h => ?_,jsonPointer_injective⟩
  rw [← follow_eq_none h]
  rcases resolvePointer_tokens h with ⟨w,hf,hr⟩ | ⟨q,hf,hr⟩
  · rw [hf,hr]
    refine ⟨fun v => ⟨fun he => ?_,fun he => ?_⟩,iff_of_false nofun nofun,nofun⟩
    · rw [Except.ok.inj he]
    · rw [Option.some.inj he]
  · rw [hf,hr]
    exact ⟨fun v => iff_of_false nofun nofun,iff_of_true ⟨_,rfl⟩ rfl,fun e he => ⟨q,(Except.error.inj he).symm⟩⟩

/-- Members named "", "~1" and "0". -/
def samplePointed : PyVal :=
  .dict [(.str [],.dict [(.str (lit "~1"),.dict [(.str (lit "0"),.list [.none])])])]

theorem pointers_invert_sample :
    resolvePointer samplePointed (jsonPointer [[],lit "~1",lit "0"]) = .ok (.list [.none]) ∧
    (∃ e, resolvePointer samplePointed (jsonPointer [[],lit "/"]) = .error e) ∧
    jsonPointer [] ≠ jsonPointer [[]] := by
  have h : ObjectsAlong samplePointed [[],lit "~1",lit "0"] := by
    simp [samplePointed,ObjectsAlong,PyVal.find]
  have hslash : ObjectsAlong samplePointed [[],lit "/"] := by
    simp [samplePointed,ObjectsAlong,PyVal.find]
  refine ⟨((pointers_invert.1 _ _ h).1 _).mpr ?_,(pointers_invert.1 _ _ hslash).2.1.mpr ?_,
    fun he => absurd (pointers_invert.2 he) (by simp)⟩
  · simp [samplePointed,follow,PyVal.find]
  · refine ⟨[[]],lit "/",[],[(.str (lit "~1"),.dict [(.str (lit "0"),.list [.none])])],rfl,rfl,?_⟩
    simp [PyVal.find]

end Inverse

end Stele
