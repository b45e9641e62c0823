import Stele.Archive.Records

/-! Anchors: where a unit's text lives in a sealed bundle. -/
namespace Stele
open Python

/-- A UTF-8 byte range, or a JSON pointer and the renderer of the value there. -/
inductive Place
  | range (start stop : ℕ)
  | pointer (pointer render : PyStr)
  deriving DecidableEq

/-- 0 <= start <= end; "" or "/...", with a renderer's name. -/
def Place.Ok : Place → Prop
  | .range start stop => start ≤ stop
  | .pointer p r => (p = [] ∨ p.head? = some (cp '/')) ∧ r ≠ []

instance (p : Place) : Decidable p.Ok := by
  cases p <;> unfold Place.Ok <;> infer_instance

@[ext] structure Extraction.Anchor where
  artifact : PyStr
  digest : PyStr
  place : Place
  artifact_ne : artifact ≠ []
  digest_form : isDigest digest = true
  place_ok : place.Ok

instance : DecidableEq Extraction.Anchor := fun a b =>
  decidable_of_iff (a.artifact = b.artifact ∧ a.digest = b.digest ∧ a.place = b.place)
    Extraction.Anchor.ext_iff.symm

/-- The range, or the pointer and its renderer, that the constructor is given. -/
def Place.make (range : Option (PyVal × PyVal)) (pointer render : PyVal) :
    Except FormatProblem {p : Place // p.Ok} :=
  match range,pointer with
  | none,.none => .error .oneOfRangeOrPointer
  | some (.int start,.int stop),.none =>
    if h : 0 ≤ start ∧ start ≤ stop then
      match render with
      | .none => .ok ⟨.range start.toNat stop.toNat,show _ ≤ _ from Int.toNat_le_toNat h.2⟩
      | _ => .error .rangeRenderer
    else .error (.anchor (lit "range"))
  | some _,.none => .error (.anchor (lit "range"))
  | some _,_ => .error .oneOfRangeOrPointer
  | none,.str p =>
    if hp : p = [] ∨ p.head? = some (cp '/') then
      match render with
      | .str r => if hr : r = [] then .error .pointerRenderer else .ok ⟨.pointer p r,hp,hr⟩
      | _ => .error .pointerRenderer
    else .error (.anchor (lit "pointer"))
  | none,_ => .error (.anchor (lit "pointer"))

/-- Anchor(artifact, digest, range, pointer, render). -/
def Extraction.Anchor.make (artifact digest : PyVal) (range : Option (PyVal × PyVal)) (pointer render : PyVal) :
    Except FormatProblem Extraction.Anchor :=
  match artifact with
  | .str a =>
    if ha : a = [] then .error (.anchor (lit "artifact"))
    else match digest with
      | .str d =>
        if hd : isDigest d = true then
          (Place.make range pointer render).map fun p => ⟨a,d,p.1,ha,hd,p.2⟩
        else .error (.anchor (lit "digest"))
      | _ => .error (.anchor (lit "digest"))
  | _ => .error (.anchor (lit "artifact"))

/-- The range's parts of to_json and of the constructor. -/
def Place.toArgs : Place → Option (PyVal × PyVal) × PyVal × PyVal
  | .range start stop => (some (.int start,.int stop),.none,.none)
  | .pointer p r => (none,.str p,.str r)

lemma Place.make_toArgs {p : Place} (h : p.Ok) :
    Place.make p.toArgs.1 p.toArgs.2.1 p.toArgs.2.2 = .ok ⟨p,h⟩ := by
  cases p with
  | range start stop =>
    have hs : (0 : ℤ) ≤ start ∧ (start : ℤ) ≤ stop :=
      ⟨Int.natCast_nonneg _,Int.ofNat_le.mpr (show start ≤ stop from h)⟩
    simp only [toArgs,make,dif_pos hs,Int.toNat_natCast]
  | pointer p r => simp only [toArgs,make,dif_pos h.1,dif_neg h.2]

/-- An anchor is what the constructor makes of its own parts. -/
lemma Extraction.Anchor.make_self (a : Extraction.Anchor) :
    Extraction.Anchor.make (.str a.artifact) (.str a.digest) a.place.toArgs.1
    a.place.toArgs.2.1 a.place.toArgs.2.2 = .ok a := by
  simp only [make,dif_neg a.artifact_ne,dif_pos a.digest_form,Place.make_toArgs a.place_ok]
  rfl

/-- What the constructor keeps of the range, or of the pointer and its renderer. -/
lemma Place.make_ok {range : Option (PyVal × PyVal)} {pointer render : PyVal} {p : {p : Place // p.Ok}}
    (h : Place.make range pointer render = .ok p) : (range,pointer,render) = p.1.toArgs := by
  unfold make at h
  split at h
  · cases h
  · rename_i start stop
    split_ifs at h with hs
    cases render with
    | none =>
      obtain rfl := Except.ok.inj h
      have hstop := hs.1.trans hs.2
      simp only [toArgs,Int.toNat_of_nonneg hs.1,Int.toNat_of_nonneg hstop]
    | _ => cases h
  · cases h
  · cases h
  · split_ifs at h with hp
    cases render with
    | str r =>
      simp only at h
      split_ifs at h with hr
      obtain rfl := Except.ok.inj h
      rfl
    | _ => cases h
  · cases h

/-- An anchor's parts are what the constructor was given. -/
lemma Extraction.Anchor.make_ok {artifact digest pointer render : PyVal} {range : Option (PyVal × PyVal)}
    {a : Extraction.Anchor} (h : make artifact digest range pointer render = .ok a) :
    artifact = .str a.artifact ∧ digest = .str a.digest ∧ (range,pointer,render) = a.place.toArgs := by
  cases artifact with
  | str s =>
    cases digest with
    | str d =>
      simp only [make] at h
      split_ifs at h with hs hd
      cases hp : Place.make range pointer render with
      | error e =>
        rw [hp] at h
        cases h
      | ok p =>
        rw [hp] at h
        obtain rfl := Except.ok.inj h
        exact ⟨rfl,rfl,Place.make_ok hp⟩
    | _ =>
      simp only [make] at h
      split_ifs at h
  | _ => cases h

end Stele
