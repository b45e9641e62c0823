import Stele.Extraction.RoundTrip
import Stele.Lib.Lines
import Stele.Python.JsonEqual
import Stele.Python.Utf8
import Stele.Verification.Campaign

/-! The campaign's journal as a file: one line of canonical JSON for the header and for each
observation. A torn last line is cut off when the file is opened again. -/
namespace Stele.JournalFile
open Python Lines

def newline : UInt8 := 10

def readStatus : PyVal → Option Status
  | .str s => Status.all.find? fun t => decide (t.value = s)
  | _ => none

lemma readStatus_value (s : Status) : readStatus (.str s.value) = some s := by cases s <;> decide

/-- Observation, with whatever its fields were given. -/
structure Observation where
  path : PyVal
  lane : PyVal
  status : Status
  backend : PyVal
  runId : PyVal
  recordId : PyVal
  artifactHash : PyVal
  inputSha256 : PyVal
  failure : PyVal
  telemetry : PyVal
  detail : PyVal
  observedAt : PyVal

namespace Observation

def fields : List PyStr :=
  [lit "path",lit "lane",lit "status",lit "backend",lit "run_id",lit "record_id",lit "artifact_hash",
    lit "input_sha256",lit "failure",lit "telemetry",lit "detail",lit "at"]

def items (o : Observation) : List (PyKey × PyVal) :=
  [(.str (lit "path"),o.path),(.str (lit "lane"),o.lane),(.str (lit "status"),.str o.status.value),
    (.str (lit "backend"),o.backend),(.str (lit "run_id"),o.runId),(.str (lit "record_id"),o.recordId),
    (.str (lit "artifact_hash"),o.artifactHash),(.str (lit "input_sha256"),o.inputSha256),
    (.str (lit "failure"),o.failure),(.str (lit "telemetry"),o.telemetry),(.str (lit "detail"),o.detail),
    (.str (lit "at"),o.observedAt)]

/-- to_json. -/
def toJson (o : Observation) : PyVal := .dict o.items

/-- from_json: exactly the fields, and one of the statuses. -/
def fromJson : PyVal → Except Exc Observation
  | .dict kvs =>
    if hasFields kvs fields = false then .error .campaign
    else match readStatus (getItem kvs (lit "status")) with
      | none => .error .campaign
      | some status => .ok ⟨getItem kvs (lit "path"),getItem kvs (lit "lane"),status,
          getItem kvs (lit "backend"),getItem kvs (lit "run_id"),getItem kvs (lit "record_id"),
          getItem kvs (lit "artifact_hash"),getItem kvs (lit "input_sha256"),getItem kvs (lit "failure"),
          getItem kvs (lit "telemetry"),getItem kvs (lit "detail"),getItem kvs (lit "at")⟩
  | _ => .error .campaign

/-- What the journal keeps of it: each field as JSON keeps it. -/
def image (o : Observation) : Observation where
  path := canonicalImage o.path
  lane := canonicalImage o.lane
  status := o.status
  backend := canonicalImage o.backend
  runId := canonicalImage o.runId
  recordId := canonicalImage o.recordId
  artifactHash := canonicalImage o.artifactHash
  inputSha256 := canonicalImage o.inputSha256
  failure := canonicalImage o.failure
  telemetry := canonicalImage o.telemetry
  detail := canonicalImage o.detail
  observedAt := canonicalImage o.observedAt

/-- The fields in order, as == compares them. -/
def values (o : Observation) : List PyVal := o.items.map Prod.snd

/-- Every field is JSON data. -/
def IsJson (o : Observation) : Prop := ∀ v ∈ o.values, v.IsJson

lemma items_strDict (o : Observation) : StrDict o.items where
  keys p hp := by
    simp only [items,List.mem_cons,List.not_mem_nil,or_false] at hp
    rcases hp with rfl | rfl | rfl | rfl | rfl | rfl | rfl | rfl | rfl | rfl | rfl | rfl <;> exact ⟨_,rfl⟩
  nodup := by simp [items,lit]

lemma values_image (o : Observation) : o.image.values = o.values.map canonicalImage := rfl

/-- The line of an observation is read back as its image. -/
lemma fromJson_image (o : Observation) : fromJson (canonicalImage o.toJson) = .ok o.image := by
  have hs := o.items_strDict
  obtain ⟨kws,hk⟩ := image_dict hs
  have hf : hasFields kws fields = true := by
    rw [hasFields_image hs hk]
    simp [hasFields,fields,items,PyVal.find,lit]
  have hget : ∀ k w, getItem o.items k = w → getItem kws k = canonicalImage w := by
    rintro k w rfl
    exact getItem_image hs hk k
  have hstatus : readStatus (getItem kws (lit "status")) = some o.status := by
    rw [hget _ (.str o.status.value) rfl]
    exact readStatus_value _
  rw [toJson,hk,fromJson,if_neg (by simp [hf]),hstatus]
  simp only
  rw [hget (lit "path") o.path rfl,hget (lit "lane") o.lane rfl,hget (lit "backend") o.backend rfl,
    hget (lit "run_id") o.runId rfl,hget (lit "record_id") o.recordId rfl,
    hget (lit "artifact_hash") o.artifactHash rfl,hget (lit "input_sha256") o.inputSha256 rfl,
    hget (lit "failure") o.failure rfl,hget (lit "telemetry") o.telemetry rfl,
    hget (lit "detail") o.detail rfl,hget (lit "at") o.observedAt rfl]
  rfl

/-- An observation that was written is read back equal exactly when it is JSON data. -/
lemma image_eq_iff {o : Observation} (h : Writable o.toJson) :
    (PyVal.tuple o.values).pyEq (.tuple o.image.values) = true ↔ o.IsJson := by
  have hw : ∀ v ∈ o.values, Writable v := by
    intro v hv
    obtain ⟨p,hp,rfl⟩ := List.mem_map.mp hv
    exact h.item hp
  rw [pyEq_tuple,values_image,List.forall₂_map_right_iff,List.forall₂_same]
  refine forall₂_congr fun v hv => ?_
  obtain ⟨t,ht,-⟩ := writable_iff.mp (hw v hv)
  exact pyEq_toJson_iff rfl ht

end Observation

section File

/-- _append_line: one write. -/
def appendLine (v : PyVal) : Except Exc (Effect UInt8) :=
  (canonicalJson v).map fun data => .append (data++[newline])

def readLine (line : Bytes) : Except Exc Observation :=
  match loadsBytes line with
  | none => .error .campaign
  | some v => Observation.fromJson v

/-- The header is appended, and the observations are read from these lines. -/
def headed (header : List (PyKey × PyVal)) (cut : List (Effect UInt8)) (lines : List Bytes) :
    List (Effect UInt8) × Except Exc (List Observation) :=
  match appendLine (.dict header) with
  | .error e => (cut,.error e)
  | .ok e => (cut++[e],lines.mapM readLine)

/-- Journal(path, header): what it does to the file, and the observations it holds then. A missing
file is as an empty one. -/
def init (header : List (PyKey × PyVal)) (file : Bytes) :
    List (Effect UInt8) × Except Exc (List Observation) :=
  if file = [] then headed header [] []
  else
    let whole := decide (file.getLast? = some newline)
    let data := if whole then file else complete newline file
    let cut := if whole then [] else [.truncate data.length]
    match (split newline data).dropLast with
    | [] => headed header cut []
    | first :: rest =>
      match loadsBytes first with
      | none => (cut,.error .campaign)
      | some .none => headed header cut rest
      | some existing =>
        if existing.pyEq (.dict header) = false then (cut,.error .campaign) else (cut,rest.mapM readLine)

variable {header : List (PyKey × PyVal)} {hline file : Bytes} {os : List Observation} {ls : List Bytes}

/-- The lines of the observations. -/
def LinesOf (os : List Observation) (ls : List Bytes) : Prop :=
  List.Forall₂ (fun o l => canonicalJson o.toJson = .ok l) os ls

/-- The file holds the observations: their lines after the header's, and the beginning of one more;
or the beginning of the header's. -/
inductive Holds (hline : Bytes) : Bytes → List Observation → Prop
  | empty {t : Bytes} : newline ∉ t → Holds hline t []
  | lines {os : List Observation} {ls : List Bytes} {t : Bytes} : LinesOf os ls → newline ∉ t →
      Holds hline (joined newline (hline :: ls)++t) os

lemma line_free {v : PyVal} {l : Bytes} (h : canonicalJson v = .ok l) : newline ∉ l := by
  obtain ⟨t,ht,rfl⟩ := canonicalJson_ok.mp h
  obtain ⟨hd,he⟩ := canonicalText_ok.mp ht
  exact dumps_oneLine hd he

lemma LinesOf.free (h : LinesOf os ls) : ∀ l ∈ ls, newline ∉ l := by
  intro l hl
  obtain ⟨o,-,ho⟩ := forall₂_mem h.flip hl
  exact line_free ho

/-- A line of a dict is loaded as json reads its text. -/
lemma loadsBytes_line {kvs : List (PyKey × PyVal)} {l : Bytes} (h : canonicalJson (.dict kvs) = .ok l) :
    loadsBytes l = some (canonicalImage (.dict kvs)) := by
  obtain ⟨t,ht,rfl⟩ := canonicalJson_ok.mp h
  obtain ⟨hd,he⟩ := canonicalText_ok.mp ht
  rw [loadsBytes_dict hd he,loads_canonicalText ht]

lemma readLine_line {o : Observation} {l : Bytes} (h : canonicalJson o.toJson = .ok l) :
    readLine l = .ok o.image := by
  have hl : loadsBytes l = some (canonicalImage o.toJson) := loadsBytes_line h
  rw [readLine,hl]
  exact o.fromJson_image

lemma LinesOf.read (h : LinesOf os ls) : ls.mapM readLine = .ok (os.map Observation.image) := by
  refine mapM_ok.mpr (List.forall₂_map_right_iff.mpr ?_)
  exact (h.imp fun o l ho => readLine_line ho).flip

/-- A header of JSON data that can be written, as Campaign's is. -/
structure HeaderLine (header : List (PyKey × PyVal)) (hline : Bytes) : Prop where
  json : (PyVal.dict header).IsJson
  nonempty : header ≠ []
  line : canonicalJson (.dict header) = .ok hline

namespace HeaderLine

lemma append (h : HeaderLine header hline) : appendLine (.dict header) = .ok (.append (hline++[newline])) := by
  rw [appendLine,h.line]
  rfl

lemma headed (h : HeaderLine header hline) (cut : List (Effect UInt8)) (ls : List Bytes) :
    headed header cut ls = (cut++[.append (hline++[newline])],ls.mapM readLine) := by
  rw [JournalFile.headed,h.append]

/-- The header is read back, and is not refused. -/
lemma accepted (h : HeaderLine header hline) : ∃ kws, loadsBytes hline = some (.dict kws) ∧
    (PyVal.dict kws).pyEq (.dict header) = true := by
  obtain ⟨kws,hk⟩ := image_dict (isJson_strDict h.json)
  refine ⟨kws,(loadsBytes_line h.line).trans (congrArg _ hk),?_⟩
  obtain ⟨t,ht,-⟩ := canonicalJson_ok.mp h.line
  have hj : (canonicalImage (.dict header)).IsJson := isJson_toJson rfl (canonicalText_ok.mp ht).1
  rw [← hk,← (alike_toJson (o := canonicalOpts) h.json).same]
  exact (Alike.refl hj).eq

/-- The lines of a journal are opened with its observations. -/
lemma init_lines (h : HeaderLine header hline) (hls : LinesOf os ls) {cut : List (Effect UInt8)} :
    (match hline :: ls with
      | [] => JournalFile.headed header cut []
      | first :: rest =>
        match loadsBytes first with
        | none => (cut,.error .campaign)
        | some .none => JournalFile.headed header cut rest
        | some existing =>
          if existing.pyEq (.dict header) = false then (cut,.error .campaign)
          else (cut,rest.mapM readLine) : List (Effect UInt8) × Except Exc (List Observation)) =
      (cut,.ok (os.map Observation.image)) := by
  obtain ⟨kws,hk,he⟩ := h.accepted
  simp only [hk,he,Bool.true_eq_false,if_false,hls.read]

end HeaderLine

/-- A process that dies while it appends lines leaves those it completed. -/
lemma leaves_appends {new : List Observation} {ms : List Bytes} {n : ℕ} {file' : Bytes}
    (hls : LinesOf os ls) (hms : LinesOf new ms)
    (hd : Leaves (ms.map fun l => .append (l++[newline])) (joined newline (hline :: ls)) n file') :
    Holds hline file' (os++new.take n) := by
  obtain ⟨hn,t,ht,rfl⟩ := leaves_lines hms.free hd
  have hall : LinesOf (os++new.take n) (ls++ms.take n) :=
    List.rel_append hls (List.forall₂_take n hms)
  have : Holds hline _ _ := .lines hall ht
  rwa [← List.cons_append,joined_append] at this

/-- Opening cuts off what is torn, writes the header if it must, and reads the observations. -/
lemma Holds.init (h : HeaderLine header hline) (hf : Holds hline file os) : ∃ opening ls,
    init header file = (opening,.ok (os.map Observation.image)) ∧ LinesOf os ls ∧
      perform opening file = joined newline (hline :: ls) ∧
      ∀ n file', Leaves opening file n file' → Holds hline file' os := by
  have hfree : newline ∉ hline := line_free h.line
  have hone : joined newline [hline] = hline++[newline] := by simp [joined]
  -- the header is appended to nothing, and the process may die in it
  have begun : ∀ n file', Leaves [.append (hline++[newline])] [] n file' → Holds hline file' [] := by
    intro n file' hd
    cases hd with
    | stop => exact .empty List.not_mem_nil
    | torn _ ht hl => exact .empty (torn_free hfree ht hl)
    | step hd =>
      cases hd
      have : Holds hline (joined newline [hline]++[]) [] := .lines .nil List.not_mem_nil
      rwa [hone,List.append_nil] at this
  cases hf with
  | empty ht =>
    by_cases hnil : file = []
    · obtain rfl := hnil
      refine ⟨[.append (hline++[newline])],[],?_,.nil,hone.symm,begun⟩
      rw [JournalFile.init,if_pos rfl,h.headed]
      rfl
    · have hlast : decide (file.getLast? = some newline) = false := by
        rw [decide_eq_false_iff_not]
        exact fun he => ht (List.mem_of_getLast? he)
      have hcut : complete newline file = [] := complete_free (s := []) ht
      refine ⟨[.truncate 0,.append (hline++[newline])],[],?_,.nil,hone.symm,fun n file' hd => ?_⟩
      · simp only [JournalFile.init,if_neg hnil,hlast,hcut,Bool.false_eq_true,if_false,split,
          List.dropLast_singleton,List.length_nil]
        exact h.headed _ _
      · cases hd with
        | stop => exact .empty ht
        | step hd => exact begun _ _ hd
  | lines hls ht =>
    rename_i ls t
    have hsplit : (split newline (joined newline (hline :: ls))).dropLast = hline :: ls := by
      have := split_joined (t := []) (List.forall_mem_cons.mpr ⟨hfree,hls.free⟩) (List.not_mem_nil (a := newline))
      rw [List.append_nil] at this
      rw [this,List.dropLast_concat]
    have hne : joined newline (hline :: ls)++t ≠ [] := by
      rw [joined_cons]
      simp
    by_cases hnil : t = []
    · obtain rfl := hnil
      rw [List.append_nil] at hne ⊢
      have hlast : decide ((joined newline (hline :: ls)).getLast? = some newline) = true := by
        have := (getLast_joined (List.not_mem_nil (a := newline)) (List.cons_ne_nil hline ls)).mpr rfl
        rw [List.append_nil] at this
        exact decide_eq_true this
      refine ⟨[],ls,?_,hls,rfl,fun n file' hd => ?_⟩
      · simp only [JournalFile.init,if_neg hne,hlast,if_true,hsplit]
        exact h.init_lines hls
      · cases hd
        have : Holds hline _ _ := .lines hls (List.not_mem_nil (a := newline))
        rwa [List.append_nil] at this
    · have hlast : decide ((joined newline (hline :: ls)++t).getLast? = some newline) = false := by
        rw [decide_eq_false_iff_not]
        exact fun he => hnil ((getLast_joined ht (List.cons_ne_nil hline ls)).mp he)
      have hcut : complete newline (joined newline (hline :: ls)++t) = joined newline (hline :: ls) :=
        complete_torn ht
      have htake : (joined newline (hline :: ls)++t).take (joined newline (hline :: ls)).length =
          joined newline (hline :: ls) := List.take_left
      refine ⟨[.truncate (joined newline (hline :: ls)).length],ls,?_,hls,htake,fun n file' hd => ?_⟩
      · simp only [JournalFile.init,if_neg hne,hlast,hcut,Bool.false_eq_true,if_false,hsplit]
        exact h.init_lines hls
      · cases hd with
        | stop => exact .lines hls ht
        | step hd =>
          cases hd
          have : Holds hline _ _ := .lines hls (List.not_mem_nil (a := newline))
          rw [List.append_nil,← htake] at this
          exact this

end File

end Stele.JournalFile
