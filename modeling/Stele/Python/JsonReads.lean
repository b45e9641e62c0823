import Stele.Python.JsonRoundTrip
import Stele.Python.Objects

/-! How far json.loads reads: a value has a text of its own, and is read from it whatever comes
after, unless that continues a number. -/
namespace Python

section Strings

variable {n : ℕ} {s t q r u : PyStr} {d : CodePoint}

lemma scanHex4_reads (h : scanHex4 s = some (n,q)) :
    ∃ u, s = u++q ∧ u.length = 4 ∧ ∀ r, scanHex4 (u++r) = some (n,r) := by
  match s,h with
  | a :: b :: c :: d :: s,h =>
    unfold scanHex4 at h
    cases ha : hexVal a <;> cases hb : hexVal b <;> cases hc : hexVal c <;> cases hd : hexVal d <;>
      simp only [ha,hb,hc,hd] at h <;> cases h
    exact ⟨[a,b,c,d],rfl,rfl,fun r => by simp [scanHex4,ha,hb,hc,hd]⟩

/-- A text that scanString reads to its end, whatever follows. -/
def StringText (t u : PyStr) : Prop :=
  u.getLast? = some (cp '"') ∧ ∀ r m, u.length ≤ m → scanString m (u++r) = some (t,r)

lemma scanHex4_append (h : scanHex4 s = some (n,q)) (r : PyStr) : scanHex4 (s++r) = some (n,q++r) := by
  obtain ⟨u,rfl,-,hu⟩ := scanHex4_reads h
  rw [List.append_assoc,hu]

/-- A string that goes on with \u goes on with four digits. -/
lemma StringText.hex4 (h : StringText t (cp '\\' :: cp 'u' :: u)) : ∃ n q, scanHex4 u = some (n,q) := by
  have hs := h.2 [] _ le_rfl
  rw [List.append_nil,List.length_cons,scanString,if_neg (by decide),if_pos rfl,scanEscape,if_pos rfl,
    Python.scanUnicode] at hs
  cases hx : scanHex4 u with
  | none =>
    rw [hx] at hs
    cases hs
  | some p => exact ⟨p.1,p.2,rfl⟩

/-- After one \u escape, what is left of a string cannot turn it into another character. -/
lemma StringText.scanUnicode {h4 : PyStr} (hu : StringText t u) (hr : ∀ r, scanHex4 (h4++r) = some (n,r))
    (hs : Python.scanUnicode (h4++(u++q)) = some (d,u++q)) (r : PyStr) :
    Python.scanUnicode (h4++(u++r)) = some (d,u++r) := by
  unfold Python.scanUnicode at hs ⊢
  rw [hr] at hs ⊢
  cases hn : isHigh n with
  | false =>
    simp only [hn] at hs ⊢
    rw [(Prod.mk.inj (Option.some.inj hs)).1]
  | true =>
    simp only [hn] at hs ⊢
    cases u with
    | nil => cases hu.1
    | cons b u =>
      cases u with
      | nil =>
        obtain rfl : b = cp '"' := by simpa using hu.1
        have hq : ¬(cp '"' = cp '\\') := by decide
        cases q <;> cases r <;> simp_all
      | cons c u =>
        simp only [List.cons_append] at hs ⊢
        by_cases hbc : b = cp '\\' ∧ c = cp 'u'
        · obtain ⟨rfl,rfl⟩ := hbc
          obtain ⟨m,v,hm⟩ := hu.hex4
          rw [if_pos ⟨rfl,rfl⟩,scanHex4_append hm] at hs ⊢
          obtain ⟨w,rfl,hw,-⟩ := scanHex4_reads hm
          dsimp only at hs ⊢
          split_ifs at hs ⊢ with hl
          · have hlen := congrArg (List.length ∘ Prod.snd) (Option.some.inj hs)
            simp only [Function.comp_apply,List.length_append,List.length_cons] at hlen
            omega
          · rw [(Prod.mk.inj (Option.some.inj hs)).1]
        · rw [if_neg hbc] at hs ⊢
          rw [(Prod.mk.inj (Option.some.inj hs)).1]

lemma scanEscape_reads (h : scanEscape s = some (d,q)) :
    ∃ e, s = e++q ∧ ∀ t u q', q = u++q' → StringText t u → ∀ r, scanEscape (e++(u++r)) = some (d,u++r) := by
  cases s with
  | nil => cases h
  | cons c s =>
    rw [scanEscape] at h
    by_cases hc : c = cp 'u'
    · rw [if_pos hc] at h
      have hscan := h
      unfold scanUnicode at h
      cases hx : scanHex4 s with
      | none =>
        rw [hx] at h
        cases h
      | some p =>
        obtain ⟨n,r₀⟩ := p
        obtain ⟨h4,rfl,-,hr⟩ := scanHex4_reads hx
        -- what stays unread is all that follows the digits, or what follows a second escape
        have hone : q = r₀ → ∃ e, c :: (h4++r₀) = e++q ∧ ∀ t u q', q = u++q' → StringText t u →
            ∀ r, scanEscape (e++(u++r)) = some (d,u++r) := by
          rintro rfl
          refine ⟨c :: h4,rfl,fun t u q' hq hu r => ?_⟩
          rw [List.cons_append,scanEscape,if_pos hc]
          exact hu.scanUnicode hr (hq ▸ hscan) r
        rw [hx] at h
        dsimp only at h
        split at h
        · rename_i b u r' hn
          split_ifs at h with hbu
          · obtain ⟨rfl,rfl⟩ := hbu
            cases hy : scanHex4 r' with
            | none =>
              rw [hy] at h
              cases h
            | some p =>
              obtain ⟨m,r''⟩ := p
              rw [hy] at h
              dsimp only at h
              split_ifs at h with hl
              · obtain ⟨rfl,rfl⟩ := Prod.mk.inj (Option.some.inj h)
                obtain ⟨h4',rfl,-,hr'⟩ := scanHex4_reads hy
                refine ⟨c :: (h4++(cp '\\' :: cp 'u' :: h4')),by simp,fun t u q' _ _ r => ?_⟩
                rw [List.cons_append,scanEscape,if_pos hc,scanUnicode,List.append_assoc,hr]
                simp [hn,hr',hl]
              · exact hone (Prod.mk.inj (Option.some.inj h)).2.symm
          · exact hone (Prod.mk.inj (Option.some.inj h)).2.symm
        · exact hone (Prod.mk.inj (Option.some.inj h)).2.symm
    · rw [if_neg hc] at h
      obtain ⟨p,hp,he⟩ := Option.map_eq_some_iff.mp h
      obtain ⟨rfl,rfl⟩ := Prod.mk.inj he
      refine ⟨[c],rfl,fun t u q' _ _ r => ?_⟩
      rw [List.singleton_append,scanEscape,if_neg hc,hp]
      rfl

/-- A string is read up to its closing quote. -/
lemma scanString_reads (h : scanString n s = some (t,q)) : ∃ u, s = u++q ∧ StringText t u := by
  induction n generalizing s t q with
  | zero => cases h
  | succ n ih =>
    cases s with
    | nil => cases h
    | cons c s =>
      rw [scanString] at h
      by_cases hq : c = cp '"'
      · rw [if_pos hq] at h
        obtain ⟨rfl,rfl⟩ := Prod.mk.inj (Option.some.inj h)
        refine ⟨[c],rfl,by rw [hq]; rfl,fun r m hm => ?_⟩
        obtain ⟨m,rfl⟩ := Nat.exists_eq_add_of_le' hm
        rw [List.singleton_append,List.length_singleton,scanString,if_pos hq]
      rw [if_neg hq] at h
      by_cases hb : c = cp '\\'
      · rw [if_pos hb] at h
        cases he : scanEscape s with
        | none =>
          rw [he] at h
          cases h
        | some p =>
          obtain ⟨d,s'⟩ := p
          rw [he] at h
          obtain ⟨p,hp,hv⟩ := Option.map_eq_some_iff.mp h
          obtain ⟨rfl,rfl⟩ := Prod.mk.inj hv
          obtain ⟨u,rfl,hu⟩ := ih hp
          obtain ⟨e,rfl,hread⟩ := scanEscape_reads he
          refine ⟨c :: (e++u),by simp,?_,fun r m hm => ?_⟩
          · rw [List.getLast?_cons,List.getLast?_append,hu.1]
            rfl
          · rw [List.length_cons,List.length_append] at hm
            obtain ⟨m,rfl⟩ : ∃ k, m = k+1 := Nat.exists_eq_succ_of_ne_zero (by omega)
            rw [List.cons_append,List.append_assoc,scanString,if_neg hq,if_pos hb,hread _ u _ rfl hu]
            dsimp only
            rw [hu.2 r m (by omega)]
            rfl
      · rw [if_neg hb] at h
        split_ifs at h with hlow
        obtain ⟨p,hp,hv⟩ := Option.map_eq_some_iff.mp h
        obtain ⟨rfl,rfl⟩ := Prod.mk.inj hv
        obtain ⟨u,rfl,hu⟩ := ih hp
        refine ⟨c :: u,rfl,?_,fun r m hm => ?_⟩
        · rw [List.getLast?_cons,hu.1]
          rfl
        · obtain ⟨m,rfl⟩ : ∃ k, m = k+1 := Nat.exists_eq_succ_of_ne_zero (by rintro rfl; cases hm)
          rw [List.cons_append,scanString,if_neg hq,if_neg hb,if_neg hlow,hu.2 r m (Nat.le_of_succ_le_succ hm)]
          rfl

end Strings

section Numbers

variable {s q u : PyStr} {v : PyVal} {t : NumToken}

/-- The first and the last character of a text are no blanks. -/
structure Bounded (u : PyStr) : Prop where
  first : ∃ c r, u = c :: r ∧ isWhitespace c = false ∧ c ≠ 0xFEFF
  last : ∀ c ∈ u.getLast?, isWhitespace c = false

lemma spanDigits_reads (s : PyStr) : s = (spanDigits s).1++(spanDigits s).2 ∧
    (∀ c ∈ (spanDigits s).1, isDigit c = true) := by
  induction s with
  | nil => exact ⟨rfl,List.forall_mem_nil _⟩
  | cons c s ih =>
    rw [spanDigits]
    split_ifs with hc
    · exact ⟨congrArg (c :: ·) ih.1,List.forall_mem_cons.mpr ⟨hc,ih.2⟩⟩
    · exact ⟨rfl,List.forall_mem_nil _⟩

lemma isDigit_solid {c : CodePoint} (h : isDigit c = true) : isWhitespace c = false := by
  simp only [isDigit,decide_eq_true_eq] at h
  simp only [isWhitespace,Bool.or_eq_false_iff,decide_eq_false_iff_not,List.mem_cons,List.not_mem_nil,or_false]
  omega

/-- A text that ends in a digit, or is empty. -/
def DigitEnd (u : PyStr) : Prop := ∀ c ∈ u.getLast?, isDigit c = true

lemma digitEnd_append {a u : PyStr} (ha : DigitEnd a) (hu : DigitEnd u) : DigitEnd (a++u) := by
  intro c hc
  rw [List.getLast?_append] at hc
  cases hl : u.getLast? with
  | none =>
    rw [hl] at hc
    exact ha c hc
  | some d =>
    rw [hl] at hc
    obtain rfl := Option.some.inj hc
    exact hu _ hl

lemma digitEnd_digits {ds : PyStr} (h : ∀ c ∈ ds, isDigit c = true) : DigitEnd ds :=
  fun c hc => h c (List.mem_of_mem_getLast? hc)

lemma digitEnd_cons {c : CodePoint} (hne : u ≠ []) (h : DigitEnd u) : DigitEnd (c :: u) := by
  intro d hd
  rw [List.getLast?_cons_of_ne_nil hne] at hd
  exact h d hd

lemma lexExpSign_reads (s : PyStr) : ∃ g, s = g++(lexExpSign s).2 ∧
    ∀ d r, isDigit d = true → lexExpSign (g++d :: r) = ((lexExpSign s).1,d :: r) := by
  have hsign : ∀ d r, isDigit d = true → lexExpSign (d :: r) = (false,d :: r) := by
    intro d r hd
    have hm : d ≠ cp '-' := by rintro rfl; exact absurd hd (by decide)
    have hp : d ≠ cp '+' := by rintro rfl; exact absurd hd (by decide)
    rw [lexExpSign,if_neg hm,if_neg hp]
  cases s with
  | nil => exact ⟨[],rfl,hsign⟩
  | cons c s =>
    rw [lexExpSign]
    split_ifs with hm hp
    · exact ⟨[c],rfl,fun d r _ => by rw [List.singleton_append,lexExpSign,if_pos hm]⟩
    · exact ⟨[c],rfl,fun d r _ => by rw [List.singleton_append,lexExpSign,if_neg hm,if_pos hp]⟩
    · exact ⟨[],rfl,hsign⟩

lemma lexExp_reads (s : PyStr) : ∃ u, s = u++(lexExp s).2 ∧ DigitEnd u ∧
    ∀ r, NumEnd r → lexExp (u++r) = ((lexExp s).1,r) ∧ ∀ c ∈ (u++r).head?, isDigit c = false ∧ c ≠ cp '.' := by
  have hnone : ∀ r, NumEnd r → lexExp ([]++r) = (none,r) ∧
      ∀ c ∈ ([]++r).head?, isDigit c = false ∧ c ≠ cp '.' := fun r hr =>
    ⟨lexExp_text (e := none) nofun hr,expText_head none hr⟩
  cases s with
  | nil => exact ⟨[],rfl,nofun,hnone⟩
  | cons c s =>
    rw [lexExp]
    by_cases hc : (c = cp 'e' ∨ c = cp 'E') ∧ (spanDigits (lexExpSign s).2).1 ≠ []
    · rw [if_pos hc]
      obtain ⟨g,hg,hread⟩ := lexExpSign_reads s
      obtain ⟨hs,hds⟩ := spanDigits_reads (lexExpSign s).2
      refine ⟨c :: (g++(spanDigits (lexExpSign s).2).1),?_,?_,fun r hr => ⟨?_,?_⟩⟩
      · dsimp only
        rw [List.cons_append,List.append_assoc,← hs,← hg]
      · exact digitEnd_cons (List.append_ne_nil_of_right_ne_nil _ hc.2)
          (fun d hd => digitEnd_digits hds d (by rwa [List.getLast?_append_of_ne_nil _ hc.2] at hd))
      · obtain ⟨d,ds,hd⟩ := List.exists_cons_of_ne_nil hc.2
        have hsign := hread d (ds++r) (hds d (by rw [hd]; simp))
        have hspan := spanDigits_append hds fun c hc => (hr c hc).1
        rw [hd] at hspan ⊢
        rw [List.cons_append,List.append_assoc,List.cons_append,lexExp,hsign]
        dsimp only
        rw [List.cons_append] at hspan
        rw [hspan,if_pos ⟨hc.1,List.cons_ne_nil _ _⟩]
      · intro d hd
        obtain rfl := Option.some.inj hd
        rcases hc.1 with rfl | rfl <;> decide
    · rw [if_neg hc]
      exact ⟨[],rfl,nofun,hnone⟩

lemma lexFrac_reads (s : PyStr) : ∃ u, s = u++(lexFrac s).2 ∧ DigitEnd u ∧
    ∀ r, (∀ c ∈ r.head?, isDigit c = false ∧ c ≠ cp '.') →
      lexFrac (u++r) = ((lexFrac s).1,r) ∧ ∀ c ∈ (u++r).head?, isDigit c = false := by
  have hnone : ∀ r, (∀ c ∈ r.head?, isDigit c = false ∧ c ≠ cp '.') → lexFrac ([]++r) = (none,r) ∧
      ∀ c ∈ ([]++r).head?, isDigit c = false := fun r hr =>
    ⟨lexFrac_text (f := none) (fun _ h => by cases h) hr,fracText_head none hr⟩
  cases s with
  | nil => exact ⟨[],rfl,(fun _ h => by cases h),hnone⟩
  | cons c s =>
    rw [lexFrac]
    by_cases hc : c = cp '.' ∧ (spanDigits s).1 ≠ []
    · rw [if_pos hc]
      obtain ⟨hs,hds⟩ := spanDigits_reads s
      refine ⟨c :: (spanDigits s).1,congrArg (c :: ·) hs,digitEnd_cons hc.2 (digitEnd_digits hds),
        fun r hr => ⟨?_,?_⟩⟩
      · rw [List.cons_append,lexFrac,spanDigits_append hds fun c hc => (hr c hc).1,if_pos hc]
      · intro d hd
        obtain rfl := Option.some.inj hd
        rw [hc.1]
        decide
    · rw [if_neg hc]
      exact ⟨[],rfl,(fun _ h => by cases h),hnone⟩

lemma lexInt_reads {ds : PyStr} (h : lexInt s = some (ds,q)) : ds ≠ [] ∧ s = ds++q ∧ (∀ c ∈ ds, isDigit c = true) ∧
    ∀ r, (∀ c ∈ r.head?, isDigit c = false) → lexInt (ds++r) = some (ds,r) := by
  cases s with
  | nil => cases h
  | cons c s =>
    unfold lexInt at h
    dsimp only at h
    by_cases hz : c = digit 0
    · rw [if_pos hz] at h
      obtain ⟨rfl,rfl⟩ := Prod.mk.inj (Option.some.inj h)
      refine ⟨List.cons_ne_nil _ _,by rw [hz]; rfl,List.forall_mem_singleton.mpr isDigit_zero,fun r _ => ?_⟩
      rw [List.singleton_append,lexInt]
      exact if_pos rfl
    · rw [if_neg hz] at h
      split_ifs at h with hd
      obtain ⟨hs,hds⟩ := spanDigits_reads (c :: s)
      have hp := Option.some.inj h
      rw [hp] at hs hds
      obtain ⟨e,es,rfl⟩ : ∃ e es, ds = e :: es := by
        rw [spanDigits,if_pos hd] at hp
        exact ⟨_,_,(Prod.mk.inj hp).1.symm⟩
      obtain ⟨rfl,-⟩ := List.cons.inj hs
      refine ⟨List.cons_ne_nil _ _,hs,hds,fun r hr => ?_⟩
      exact lexInt_text (.inr ⟨List.cons_ne_nil _ _,fun he => hz (Option.some.inj he)⟩) hds hr

/-- The three parts of a number, after its sign. -/
def afterSign (neg : Bool) (s : PyStr) : Option (NumToken × PyStr) :=
  match lexInt s with
  | none => none
  | some (int,s) => some (⟨neg,int,(lexFrac s).1,(lexExp (lexFrac s).2).1⟩,(lexExp (lexFrac s).2).2)

lemma lexNumber_minus (s : PyStr) : lexNumber (cp '-' :: s) = afterSign true s := by
  simp only [lexNumber,if_pos]
  rfl

lemma lexNumber_plain {c : CodePoint} (h : ¬c = cp '-') (s : PyStr) :
    lexNumber (c :: s) = afterSign false (c :: s) := by
  simp only [lexNumber,if_neg h]
  rfl

lemma afterSign_reads {neg : Bool} (h : afterSign neg s = some (t,q)) : ∃ d u, s = d :: u++q ∧
    isDigit d = true ∧ DigitEnd (d :: u) ∧ ∀ r, NumEnd r → afterSign neg (d :: u++r) = some (t,r) := by
  unfold afterSign at h
  cases hi : lexInt s with
  | none =>
    rw [hi] at h
    cases h
  | some p =>
    obtain ⟨ds,s₁⟩ := p
    rw [hi] at h
    obtain ⟨rfl,rfl⟩ := Prod.mk.inj (Option.some.inj h)
    obtain ⟨hne,rfl,hds,hint⟩ := lexInt_reads hi
    obtain ⟨f,hf,hfe,hfrac⟩ := lexFrac_reads s₁
    obtain ⟨x,hx,hxe,hexp⟩ := lexExp_reads (lexFrac s₁).2
    obtain ⟨d,es,rfl⟩ := List.exists_cons_of_ne_nil hne
    refine ⟨d,es++(f++x),?_,hds d List.mem_cons_self,
      digitEnd_append (digitEnd_digits hds) (digitEnd_append hfe hxe),fun r hr => ?_⟩
    · rw [List.cons_append,List.cons_append,List.append_assoc,List.append_assoc,← hx,← hf]
    · obtain ⟨hxr,hxh⟩ := hexp r hr
      obtain ⟨hfr,hfh⟩ := hfrac (x++r) hxh
      have hir := hint (f++(x++r)) hfh
      have hassoc : d :: (es++(f++x))++r = (d :: es)++(f++(x++r)) := by simp
      rw [hassoc,afterSign]
      simp only [hir,hfr,hxr]

lemma lexNumber_reads (h : lexNumber s = some (t,q)) : ∃ u, s = u++q ∧ DigitEnd u ∧
    (∃ d r, isDigit d = true ∧ (u = d :: r ∨ u = cp '-' :: d :: r)) ∧
    ∀ r, NumEnd r → lexNumber (u++r) = some (t,r) := by
  cases s with
  | nil => cases h
  | cons c s =>
    by_cases hm : c = cp '-'
    · rw [hm,lexNumber_minus] at h
      obtain ⟨d,u,rfl,hd,he,hr⟩ := afterSign_reads h
      refine ⟨cp '-' :: d :: u,by rw [hm]; rfl,digitEnd_cons (List.cons_ne_nil _ _) he,
        ⟨d,u,hd,.inr rfl⟩,fun r h => ?_⟩
      exact (lexNumber_minus _).trans (hr r h)
    · rw [lexNumber_plain hm] at h
      obtain ⟨d,u,hs,hd,he,hr⟩ := afterSign_reads h
      obtain ⟨rfl,-⟩ := List.cons.inj hs
      exact ⟨c :: u,hs,he,⟨c,u,hd,.inl rfl⟩,fun r h => (lexNumber_plain hm _).trans (hr r h)⟩

lemma afterPrefix_eq {p : PyStr} (h : afterPrefix p s = some q) : s = p++q := by
  induction p generalizing s with
  | nil => exact Option.some.inj h
  | cons c p ih =>
    cases s with
    | nil => cases h
    | cons d s =>
      rw [afterPrefix] at h
      split_ifs at h with hc
      rw [hc,List.cons_append,← ih h]

/-- No constant starts like a number. -/
lemma constants_number {d : CodePoint} (hd : isDigit d = true) (r : PyStr) (h : s = d :: r ∨ s = cp '-' :: d :: r) :
    (constants.findSome? fun c => (afterPrefix c.1 s).map fun r => (c.2,r)) = none := by
  have hne : ∀ c, isDigit c = false → ¬c = d := by rintro c hc rfl; simp [hc] at hd
  have hn := hne (cp 'n') (by decide)
  have ht := hne (cp 't') (by decide)
  have hf := hne (cp 'f') (by decide)
  have hN := hne (cp 'N') (by decide)
  have hI := hne (cp 'I') (by decide)
  have hm := hne (cp '-') (by decide)
  rcases h with rfl | rfl <;> simp [constants,lit,afterPrefix,hn,ht,hf,hN,hI,hm]

lemma bounded_constant {p : PyStr × PyVal} (h : p ∈ constants) : Bounded p.1 := by
  simp only [constants,List.mem_cons,List.not_mem_nil,or_false] at h
  rcases h with rfl | rfl | rfl | rfl | rfl | rfl <;>
    exact ⟨⟨_,_,rfl,by decide,by decide⟩,fun c hc => by obtain rfl := Option.some.inj hc; decide⟩

lemma scanScalar_reads (h : scanScalar s = some (v,q)) : ∃ u, s = u++q ∧ Bounded u ∧ ScalarText v u := by
  unfold scanScalar at h
  cases hf : constants.findSome? fun c => (afterPrefix c.1 s).map fun r => (c.2,r) with
  | some p =>
    rw [hf] at h
    obtain ⟨c,hc,hp⟩ := List.exists_of_findSome?_eq_some hf
    obtain ⟨r,hr,he⟩ := Option.map_eq_some_iff.mp hp
    obtain ⟨rfl,rfl⟩ := Prod.mk.inj (he.trans (Option.some.inj h))
    exact ⟨c.1,afterPrefix_eq hr,bounded_constant hc,scalarText_constant hc⟩
  | none =>
    rw [hf] at h
    cases hl : lexNumber s with
    | none => simp [hl] at h
    | some p =>
      obtain ⟨t,r⟩ := p
      simp only [hl,Option.map_eq_some_iff,Prod.mk.injEq] at h
      obtain ⟨w,hw,rfl,rfl⟩ := h
      obtain ⟨u,rfl,he,⟨d,ds,hd,hu⟩,hread⟩ := lexNumber_reads hl
      have hscan : ∀ r, NumEnd r → scanScalar (u++r) = some (w,r) := by
        intro r hr
        have hc : (constants.findSome? fun c => (afterPrefix c.1 (u++r)).map fun r => (c.2,r)) = none :=
          constants_number hd (ds++r) (hu.imp (congrArg (·++r)) (congrArg (·++r)))
        rw [scanScalar,hc,hread r hr]
        exact congrArg (Option.map _) hw
      have hfirst : ∃ c s, u = c :: s ∧ isWhitespace c = false ∧ isSpace c = false ∧ c ≠ cp ']' ∧ c ≠ cp '"' ∧
          c ≠ cp '[' ∧ c ≠ cp '{' ∧ c ≠ 0xFEFF := by
        rcases hu with rfl | rfl
        · refine ⟨d,ds,rfl,isDigit_solid hd,?_,?_,?_,?_,?_,?_⟩
          · simp only [isDigit,decide_eq_true_eq] at hd
            simp only [isSpace,decide_eq_false_iff_not]
            rintro (rfl | rfl | rfl | rfl) <;> exact absurd hd (by decide)
          all_goals rintro rfl; exact absurd hd (by decide)
        · exact ⟨_,_,rfl,by decide,by decide,by decide,by decide,by decide,by decide,by decide⟩
      obtain ⟨c,s',hcs,hwhite,hspace,h1,h2,h3,h4,h5⟩ := hfirst
      exact ⟨u,rfl,⟨⟨c,s',hcs,hwhite,h5⟩,fun c hc => isDigit_solid (he c hc)⟩,
        ⟨⟨c,s',hcs,hspace,h1,h2,h3,h4,h5⟩,hscan⟩⟩

end Numbers

section Values

lemma skipWs_split (s : PyStr) : ∃ w, s = w++skipWs s ∧ ∀ c ∈ w, isSpace c = true := by
  induction s with
  | nil => exact ⟨[],rfl,List.forall_mem_nil _⟩
  | cons c s ih =>
    rw [skipWs]
    split_ifs with hc
    · obtain ⟨w,hs,hw⟩ := ih
      exact ⟨c :: w,congrArg (c :: ·) hs,List.forall_mem_cons.mpr ⟨hc,hw⟩⟩
    · exact ⟨[],rfl,List.forall_mem_nil _⟩

lemma skipWs_append {w : PyStr} (h : ∀ c ∈ w, isSpace c = true) (s : PyStr) : skipWs (w++s) = skipWs s := by
  induction w with
  | nil => rfl
  | cons c w ih =>
    obtain ⟨hc,hw⟩ := List.forall_mem_cons.mp h
    rw [List.cons_append,skipWs,if_pos hc,ih hw]

lemma skipWs_mark {w : PyStr} (hw : ∀ c ∈ w, isSpace c = true) {c : CodePoint} (hc : isSpace c = false)
    (r : PyStr) : skipWs (w++c :: r) = c :: r := by
  rw [skipWs_append hw,skipWs_noSpace (noSpace_cons.mpr hc)]

lemma isSpace_white {c : CodePoint} (h : isSpace c = true) : isWhitespace c = true := by
  simp only [isSpace,decide_eq_true_eq] at h
  rcases h with rfl | rfl | rfl | rfl <;> decide

lemma Bounded.noSpace {u : PyStr} (h : Bounded u) (r : PyStr) : NoSpace (u++r) := by
  obtain ⟨c,s,rfl,hc,-⟩ := h.first
  rw [List.cons_append,noSpace_cons]
  exact Bool.eq_false_iff.mpr fun h => by simp [isSpace_white h] at hc

lemma Bounded.skipWs {w u : PyStr} (hw : ∀ c ∈ w, isSpace c = true) (h : Bounded u) (r : PyStr) :
    Python.skipWs (w++(u++r)) = u++r := by
  rw [skipWs_append hw,skipWs_noSpace (h.noSpace r)]

/-- Blanks, a comma or a closing bracket end a number. -/
lemma numEnd_blanks {w : PyStr} (hw : ∀ c ∈ w, isSpace c = true) {r : PyStr} (hr : NumEnd r) : NumEnd (w++r) := by
  cases w with
  | nil => exact hr
  | cons c w =>
    intro d hd
    obtain rfl := Option.some.inj hd
    have hc := hw c List.mem_cons_self
    simp only [isSpace,decide_eq_true_eq] at hc
    rcases hc with rfl | rfl | rfl | rfl <;> decide

lemma numEnd_mark {c : CodePoint} (h : c = cp ',' ∨ c = cp ']' ∨ c = cp '}') (r : PyStr) : NumEnd (c :: r) :=
  ValueEnd.numEnd fun _ hd => Option.some.inj hd ▸ h

/-- A text from which f reads a, whatever follows it that is an end. -/
structure Text {α : Type} (f : ℕ → PyStr → Option (α × PyStr)) (E : PyStr → Prop) (a : α) (u : PyStr) : Prop where
  bounded : Bounded u
  reads : ∀ m r, u.length ≤ m → E r → f m (u++r) = some (a,r)

/-- What f reads has a text of its own. -/
def Reads {α : Type} (f : ℕ → PyStr → Option (α × PyStr)) (E : PyStr → Prop) (n : ℕ) : Prop :=
  ∀ ⦃s a q⦄, f n s = some (a,q) → ∃ u, s = u++q ∧ Text f E a u

/-- Nothing is asked of what follows a bracket. -/
def Anything (_ : PyStr) : Prop := True

variable {n : ℕ}

lemma Bounded.append {a t u : PyStr} (ha : Bounded a) (hu : Bounded u) : Bounded (a++(t++u)) := by
  obtain ⟨c,r,rfl,hc,hf⟩ := ha.first
  obtain ⟨d,s,rfl,-,-⟩ := hu.first
  refine ⟨⟨c,_,rfl,hc,hf⟩,fun x hx => hu.last x ?_⟩
  rw [← List.append_assoc,List.getLast?_append] at hx
  cases h : (d :: s).getLast? with
  | none => simp at h
  | some y => simpa [h] using hx

lemma bounded_mark {c : CodePoint} (hc : isWhitespace c = false) (hf : c ≠ 0xFEFF) : Bounded [c] :=
  ⟨⟨c,[],rfl,hc,hf⟩,fun _ hd => Option.some.inj hd ▸ hc⟩

/-- The elements of a list, up to its closing bracket. -/
lemma elems_reads (hv : Reads scanValue NumEnd n) (he : Reads scanElems Anything n) :
    Reads scanElems Anything (n+1) := by
  intro s vs q h
  rw [scanElems] at h
  cases hs : scanValue n s with
  | none => simp [hs] at h
  | some p =>
    obtain ⟨v,r₁⟩ := p
    simp only [hs] at h
    obtain ⟨u,rfl,hu⟩ := hv hs
    obtain ⟨w,hw,hws⟩ := skipWs_split r₁
    cases hr : skipWs r₁ with
    | nil => simp [hr] at h
    | cons c r₂ =>
      simp only [hr] at h hw
      by_cases hc : c = cp ']'
      · rw [if_pos hc] at h
        obtain ⟨rfl,rfl⟩ := Prod.mk.inj (Option.some.inj h)
        refine ⟨u++(w++[c]),by rw [hw]; simp,hu.bounded.append (by rw [hc]; exact bounded_mark (by decide) (by decide)),
          fun m r hm _ => ?_⟩
        simp only [List.length_append,List.length_singleton] at hm
        obtain ⟨m,rfl⟩ := Nat.exists_eq_add_of_le' (show 1 ≤ m by omega)
        have hread := hu.reads m (w++c :: r) (by omega) (numEnd_blanks hws (numEnd_mark (.inr (.inl hc)) r))
        have hskip : skipWs (w++c :: r) = c :: r := skipWs_mark hws (by rw [hc]; decide) r
        simp only [List.append_assoc,List.singleton_append,scanElems,hread,hskip,if_pos hc]
      · rw [if_neg hc] at h
        split_ifs at h with hcomma
        obtain ⟨p,hp,hv'⟩ := Option.map_eq_some_iff.mp h
        obtain ⟨rfl,rfl⟩ := Prod.mk.inj hv'
        obtain ⟨u',hu',ht⟩ := he hp
        obtain ⟨w',hw',hws'⟩ := skipWs_split r₂
        refine ⟨u++((w++c :: w')++u'),by rw [hw,hw',hu']; simp,hu.bounded.append ht.bounded,fun m r hm _ => ?_⟩
        simp only [List.length_append,List.length_cons] at hm
        obtain ⟨m,rfl⟩ := Nat.exists_eq_add_of_le' (show 1 ≤ m by omega)
        have hread := hu.reads m (w++c :: (w'++(u'++r))) (by omega)
          (numEnd_blanks hws (numEnd_mark (.inl hcomma) _))
        have hskip := skipWs_mark hws (show isSpace c = false by rw [hcomma]; decide) (w'++(u'++r))
        simp only [List.append_assoc,List.cons_append,scanElems,hread,hskip,if_neg hc,if_pos hcomma,
          ht.bounded.skipWs hws',ht.reads m r (by omega) trivial]
        rfl

lemma StringText.scan {t u : PyStr} (h : StringText t u) (r : PyStr) :
    scanString (u++r).length (u++r) = some (t,r) :=
  h.2 r _ (by rw [List.length_append]; exact Nat.le_add_right _ _)

/-- A string literal, from its opening quote. -/
lemma StringText.bounded {t u : PyStr} (h : StringText t u) : Bounded (cp '"' :: u) := by
  refine ⟨⟨_,_,rfl,by decide,by decide⟩,fun c hc => ?_⟩
  rw [List.getLast?_cons,h.1] at hc
  obtain rfl := Option.some.inj hc
  decide

/-- The members of a dict, up to its closing bracket. -/
lemma members_reads (hv : Reads scanValue NumEnd n) (hm : Reads scanMembers Anything n) :
    Reads scanMembers Anything (n+1) := by
  intro s ms q h
  cases s with
  | nil => cases h
  | cons c s =>
    rw [scanMembers] at h
    split_ifs at h with hquote
    cases hs : scanString s.length s with
    | none => simp [hs] at h
    | some p =>
      obtain ⟨k,r₁⟩ := p
      obtain ⟨key,rfl,hkey⟩ := scanString_reads hs
      simp only [hs] at h
      obtain ⟨w₁,hw₁,hws₁⟩ := skipWs_split r₁
      cases hr₁ : skipWs r₁ with
      | nil => simp [hr₁] at h
      | cons d r₂ =>
        simp only [hr₁] at h hw₁
        split_ifs at h with hcolon
        obtain ⟨w₂,hw₂,hws₂⟩ := skipWs_split r₂
        cases hval : scanValue n (skipWs r₂) with
        | none => simp [hval] at h
        | some p =>
          obtain ⟨v,r₃⟩ := p
          obtain ⟨u,hu,htext⟩ := hv hval
          simp only [hval] at h
          obtain ⟨w₃,hw₃,hws₃⟩ := skipWs_split r₃
          -- the key and its value are read whatever follows
          have hpair : ∀ (m : ℕ) (e : CodePoint) (r : PyStr), key.length ≤ m → u.length ≤ m →
              (e = cp ',' ∨ e = cp ']' ∨ e = cp '}') →
              scanMembers (m+1) (c :: (key++(w₁++d :: (w₂++(u++(w₃++e :: r)))))) =
                if e = cp '}' then some ([(.str k,v)],r)
                else if e = cp ',' then (scanMembers m (skipWs r)).map fun p => ((.str k,v) :: p.1,p.2)
                else none := by
            intro m e r hk hlen he
            have hstr := hkey.scan (w₁++d :: (w₂++(u++(w₃++e :: r))))
            have hread := htext.reads m (w₃++e :: r) hlen (numEnd_blanks hws₃ (numEnd_mark he r))
            have hd : isSpace d = false := by rw [hcolon]; decide
            have hend : isSpace e = false := by rcases he with rfl | rfl | rfl <;> decide
            rw [scanMembers,if_pos hquote]
            simp only [hstr,skipWs_mark hws₁ hd,if_pos hcolon,htext.bounded.skipWs hws₂,hread,skipWs_mark hws₃ hend]
          cases hr₃ : skipWs r₃ with
          | nil => simp [hr₃] at h
          | cons e r₄ =>
            simp only [hr₃] at h hw₃
            have hopen : Bounded (c :: key) := by rw [hquote]; exact hkey.bounded
            by_cases hclose : e = cp '}'
            · rw [if_pos hclose] at h
              obtain ⟨rfl,rfl⟩ := Prod.mk.inj (Option.some.inj h)
              refine ⟨(c :: key)++((w₁++d :: (w₂++(u++w₃)))++[e]),?_,hopen.append
                (by rw [hclose]; exact bounded_mark (by decide) (by decide)),fun m r hlen _ => ?_⟩
              · rw [hw₁,hw₂,hu,hw₃]
                simp
              · simp only [List.length_append,List.length_cons,List.length_nil] at hlen
                obtain ⟨m,rfl⟩ := Nat.exists_eq_add_of_le' (show 1 ≤ m by omega)
                have hp := hpair m e r (by omega) (by omega) (.inr (.inr hclose))
                rw [if_pos hclose] at hp
                simpa using hp
            · rw [if_neg hclose] at h
              split_ifs at h with hcomma
              obtain ⟨p,hp,hv'⟩ := Option.map_eq_some_iff.mp h
              obtain ⟨rfl,rfl⟩ := Prod.mk.inj hv'
              obtain ⟨u',hu',ht⟩ := hm hp
              obtain ⟨w₄,hw₄,hws₄⟩ := skipWs_split r₄
              refine ⟨(c :: key)++((w₁++d :: (w₂++(u++(w₃++e :: w₄))))++u'),?_,hopen.append ht.bounded,
                fun m r hlen _ => ?_⟩
              · rw [hw₁,hw₂,hu,hw₃,hw₄,hu']
                simp
              · simp only [List.length_append,List.length_cons] at hlen
                obtain ⟨m,rfl⟩ := Nat.exists_eq_add_of_le' (show 1 ≤ m by omega)
                have hp := hpair m e (w₄++(u'++r)) (by omega) (by omega) (.inl hcomma)
                rw [if_neg hclose,if_pos hcomma,ht.bounded.skipWs hws₄,ht.reads m r (by omega) trivial] at hp
                simpa using hp

/-- An opening bracket, blanks, and the text of what it opens. -/
lemma bounded_open {c : CodePoint} (hc : isWhitespace c = false ∧ c ≠ 0xFEFF) (w : PyStr) {u : PyStr} (hu : Bounded u) :
    Bounded (c :: (w++u)) :=
  (bounded_mark hc.1 hc.2).append hu

lemma value_reads (he : Reads scanElems Anything n) (hm : Reads scanMembers Anything n) :
    Reads scanValue NumEnd (n+1) := by
  intro s v q h
  cases s with
  | nil => cases h
  | cons c s =>
    rw [scanValue] at h
    by_cases hquote : c = cp '"'
    · rw [if_pos hquote] at h
      obtain ⟨p,hp,hv⟩ := Option.map_eq_some_iff.mp h
      obtain ⟨rfl,rfl⟩ := Prod.mk.inj hv
      obtain ⟨u,rfl,hu⟩ := scanString_reads hp
      refine ⟨c :: u,rfl,by rw [hquote]; exact hu.bounded,fun m r hlen _ => ?_⟩
      obtain ⟨m,rfl⟩ := Nat.exists_eq_add_of_le' (show 1 ≤ m by rw [List.length_cons] at hlen; omega)
      rw [List.cons_append,scanValue,if_pos hquote,hu.scan r]
      rfl
    rw [if_neg hquote] at h
    obtain ⟨w,hw,hws⟩ := skipWs_split s
    by_cases hlist : c = cp '['
    · rw [if_pos hlist] at h
      have hc : isWhitespace c = false ∧ c ≠ 0xFEFF := by rw [hlist]; decide
      cases hs : skipWs s with
      | nil => simp [hs] at h
      | cons d r₁ =>
        simp only [hs] at h hw
        by_cases hd : d = cp ']'
        · rw [if_pos hd] at h
          obtain ⟨rfl,rfl⟩ := Prod.mk.inj (Option.some.inj h)
          refine ⟨c :: (w++[d]),by rw [hw]; simp,bounded_open hc w
            (by rw [hd]; exact bounded_mark (by decide) (by decide)),fun m r hlen _ => ?_⟩
          obtain ⟨m,rfl⟩ := Nat.exists_eq_add_of_le' (show 1 ≤ m by rw [List.length_cons] at hlen; omega)
          have hskip := skipWs_mark hws (show isSpace d = false by rw [hd]; decide) r
          simp only [List.cons_append,List.append_assoc,List.nil_append,scanValue,if_neg hquote,if_pos hlist,hskip,
            if_pos hd]
        · rw [if_neg hd] at h
          obtain ⟨p,hp,hv⟩ := Option.map_eq_some_iff.mp h
          obtain ⟨rfl,rfl⟩ := Prod.mk.inj hv
          obtain ⟨u,hu,ht⟩ := he hp
          obtain ⟨e,u,rfl,-,-⟩ := ht.bounded.first
          obtain ⟨rfl,hu⟩ := List.cons.inj hu
          refine ⟨c :: (w++d :: u),by rw [hw,hu]; simp,bounded_open hc w ht.bounded,fun m r hlen _ => ?_⟩
          simp only [List.length_cons,List.length_append] at hlen
          obtain ⟨m,rfl⟩ := Nat.exists_eq_add_of_le' (show 1 ≤ m by omega)
          have hskip := ht.bounded.skipWs hws r
          have hread := ht.reads m r (by rw [List.length_cons]; omega) trivial
          rw [List.cons_append] at hskip hread
          simp only [List.cons_append,List.append_assoc,scanValue,if_neg hquote,if_pos hlist,hskip,if_neg hd,hread]
          rfl
    rw [if_neg hlist] at h
    by_cases hdict : c = cp '{'
    · rw [if_pos hdict] at h
      have hc : isWhitespace c = false ∧ c ≠ 0xFEFF := by rw [hdict]; decide
      cases hs : skipWs s with
      | nil => simp [hs] at h
      | cons d r₁ =>
        simp only [hs] at h hw
        by_cases hd : d = cp '}'
        · rw [if_pos hd] at h
          obtain ⟨rfl,rfl⟩ := Prod.mk.inj (Option.some.inj h)
          refine ⟨c :: (w++[d]),by rw [hw]; simp,bounded_open hc w
            (by rw [hd]; exact bounded_mark (by decide) (by decide)),fun m r hlen _ => ?_⟩
          obtain ⟨m,rfl⟩ := Nat.exists_eq_add_of_le' (show 1 ≤ m by rw [List.length_cons] at hlen; omega)
          have hskip := skipWs_mark hws (show isSpace d = false by rw [hd]; decide) r
          simp only [List.cons_append,List.append_assoc,List.nil_append,scanValue,if_neg hquote,if_neg hlist,
            if_pos hdict,hskip,if_pos hd]
        · rw [if_neg hd] at h
          obtain ⟨p,hp,hv⟩ := Option.map_eq_some_iff.mp h
          obtain ⟨rfl,rfl⟩ := Prod.mk.inj hv
          obtain ⟨u,hu,ht⟩ := hm hp
          obtain ⟨e,u,rfl,-,-⟩ := ht.bounded.first
          obtain ⟨rfl,hu⟩ := List.cons.inj hu
          refine ⟨c :: (w++d :: u),by rw [hw,hu]; simp,bounded_open hc w ht.bounded,fun m r hlen _ => ?_⟩
          simp only [List.length_cons,List.length_append] at hlen
          obtain ⟨m,rfl⟩ := Nat.exists_eq_add_of_le' (show 1 ≤ m by omega)
          have hskip := ht.bounded.skipWs hws r
          have hread := ht.reads m r (by rw [List.length_cons]; omega) trivial
          rw [List.cons_append] at hskip hread
          simp only [List.cons_append,List.append_assoc,scanValue,if_neg hquote,if_neg hlist,if_pos hdict,hskip,
            if_neg hd,hread]
          rfl
    · rw [if_neg hdict] at h
      obtain ⟨u,hu,hb,ht⟩ := scanScalar_reads h
      exact ⟨u,hu,hb,fun m r hlen hr => ht.scanValue hlen hr⟩

/-- What a scanner reads does not depend on what follows it. -/
theorem scan_reads (n : ℕ) : Reads scanValue NumEnd n ∧ Reads scanElems Anything n ∧ Reads scanMembers Anything n := by
  induction n with
  | zero => exact ⟨nofun,nofun,nofun⟩
  | succ n ih =>
    obtain ⟨hv,he,hm⟩ := ih
    exact ⟨value_reads he hm,elems_reads hv he,members_reads hv hm⟩

/-- A document is blanks around the text of one value. -/
theorem loads_text {s : PyStr} {v : PyVal} (h : loads s = some v) : ∃ w u w', s = w++(u++w') ∧
    (∀ c ∈ w, isSpace c = true) ∧ (∀ c ∈ w', isSpace c = true) ∧ Text scanValue NumEnd v u := by
  unfold loads at h
  split_ifs at h with hbom
  cases hs : scanValue (s.length+1) (skipWs s) with
  | none => simp [hs] at h
  | some p =>
    obtain ⟨v',r⟩ := p
    simp only [hs] at h
    split_ifs at h with hr
    obtain rfl := Option.some.inj h
    obtain ⟨u,hu,ht⟩ := (scan_reads _).1 hs
    obtain ⟨w,hw,hws⟩ := skipWs_split s
    obtain ⟨w',hw',hws'⟩ := skipWs_split r
    rw [hr,List.append_nil] at hw'
    subst hw'
    exact ⟨w,u,r,by rw [← hu,← hw],hws,hws',ht⟩

/-- Any blanks around a text make a document. -/
theorem Text.loads {v : PyVal} {u a b : PyStr} (h : Text scanValue NumEnd v u) (ha : ∀ c ∈ a, isSpace c = true)
    (hb : ∀ c ∈ b, isSpace c = true) : loads (a++(u++b)) = some v := by
  have hskip : skipWs b = [] := by
    have := skipWs_append hb []
    rwa [List.append_nil] at this
  have hend : NumEnd b := by
    have := numEnd_blanks hb (r := []) nofun
    rwa [List.append_nil] at this
  have hread := h.reads ((a++(u++b)).length+1) b (by simp only [List.length_append]; omega) hend
  have hhead : (a++(u++b)).head? ≠ some 0xFEFF := by
    cases a with
    | nil =>
      obtain ⟨c,t,rfl,-,hc⟩ := h.bounded.first
      exact fun h => hc (Option.some.inj h)
    | cons c a =>
      intro h
      have := ha c List.mem_cons_self
      rw [Option.some.inj h] at this
      cases this
  rw [Python.loads,if_neg hhead,h.bounded.skipWs ha,hread]
  exact if_pos hskip

end Values

end Python
