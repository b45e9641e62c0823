import Stele.Verification.Journal

/-! Processes that die while they write a journal, and campaigns that are run again until one run
completes: nothing that was completed is lost, and nothing is observed twice. -/
namespace Stele.JournalFile
open Python Lines

section Journal

variable {header : List (PyKey × PyVal)} {hline file file' : Bytes} {os before new : List Observation}
  {ls ms : List Bytes} {opening : List (Effect UInt8)} {n : ℕ}

/-- A process opens the journal and appends the lines of these observations. -/
structure Session (header : List (PyKey × PyVal)) (file : Bytes) (before : List Observation)
    (opening : List (Effect UInt8)) (new : List Observation) (ms : List Bytes) : Prop where
  opened : init header file = (opening,.ok before)
  lines : LinesOf new ms

def appends (ms : List Bytes) : List (Effect UInt8) := ms.map fun l => .append (l++[newline])

/-- The file after processes that died at any point, and the observations whose lines they
completed, in order. -/
inductive Journaled (header : List (PyKey × PyVal)) : Bytes → List Observation → Prop
  | new : Journaled header [] []
  | died {file file' : Bytes} {os before new : List Observation} {opening : List (Effect UInt8)}
      {ms : List Bytes} {n : ℕ} : Journaled header file os → Session header file before opening new ms →
      Leaves (opening++appends ms) file n file' →
      Journaled header file' (os++new.take (n-opening.length))

/-- A process that dies leaves a journal of what it found and the lines it completed. -/
lemma Holds.died (h : HeaderLine header hline) (hf : Holds hline file os)
    (hs : Session header file before opening new ms) (hd : Leaves (opening++appends ms) file n file') :
    before = os.map Observation.image ∧ Holds hline file' (os++new.take (n-opening.length)) := by
  obtain ⟨opening',ls,hi,hls,hp,hdied⟩ := hf.init h
  obtain ⟨rfl,hb⟩ := Prod.mk.inj (hs.opened.symm.trans hi)
  refine ⟨Except.ok.inj hb,?_⟩
  rcases leaves_append hd with ⟨hn,hopen⟩ | ⟨m,rfl,hlines⟩
  · rw [Nat.sub_eq_zero_of_le hn,List.take_zero,List.append_nil]
    exact hdied n file' hopen
  · rw [hp] at hlines
    rw [Nat.add_sub_cancel_left]
    exact leaves_appends hls hs.lines hlines

lemma Journaled.holds (h : HeaderLine header hline) (hj : Journaled header file os) :
    Holds hline file os := by
  induction hj with
  | new => exact .empty List.not_mem_nil
  | died _ hs hd ih => exact (ih.died h hs hd).2

/-- A journal that is opened has the observations whose lines were completed, in order, and drops
what comes after them. -/
theorem Journaled.reopened (h : HeaderLine header hline) (hj : Journaled header file os) :
    ∃ opening ls, init header file = (opening,.ok (os.map Observation.image)) ∧ LinesOf os ls ∧
      perform opening file = joined newline (hline :: ls) := by
  obtain ⟨opening,ls,hi,hls,hp,-⟩ := (hj.holds h).init h
  exact ⟨opening,ls,hi,hls,hp⟩

end Journal

/-- Campaign(...): a corpus and lanes of one parser, one of them the baseline. -/
structure Campaign where
  corpus : Corpus
  lanes : List Lane
  baseline : PyStr
  parser : NameVersion
  parserConfig : List (PyKey × PyVal)
  names_unique : (lanes.map Lane.name).Nodup
  baseline_mem : baseline ∈ lanes.map Lane.name

namespace Campaign

variable {H : Hasher} {c : Campaign}

/-- self.lanes: the baseline first. -/
def ordered (c : Campaign) : List Lane :=
  (c.lanes.filter fun l => decide (l.name = c.baseline))++
    c.lanes.filter fun l => !decide (l.name = c.baseline)

/-- The header of its journal. -/
def header (H : Hasher) (c : Campaign) : Except Exc (List (PyKey × PyVal)) := do
  let corpusId ← c.corpus.corpusId H
  let digest ← configDigest H (.dict c.parserConfig)
  return [(.str (lit "schema"),.str (lit "stele.verification-journal")),
    (.str (lit "schema_version"),.int 1),(.str (lit "corpus_id"),.str corpusId),
    (.str (lit "corpus_name"),.str c.corpus.name),(.str (lit "parser"),c.parser.toPy),
    (.str (lit "parser_config_digest"),.str digest),
    (.str (lit "lanes"),.list (c.ordered.map Lane.toJson)),(.str (lit "baseline"),.str c.baseline)]

/-- The documents and lanes, as run goes through them. -/
def pairs (c : Campaign) : List (PyStr × PyStr) :=
  c.corpus.entries.flatMap fun e => c.ordered.map fun l => (e.path,l.name)

/-- journal.done(), a set of pairs; what is not hashable is in none. -/
def done (os : List Observation) : Except Exc (List (PyVal × PyVal)) :=
  os.mapM fun o => do
    let _ ← hashKey o.path
    let _ ← hashKey o.lane
    return (o.path,o.lane)

/-- pending(). -/
def pending (c : Campaign) (os : List Observation) : Except Exc (List (PyStr × PyStr)) := do
  let d ← done os
  return c.pairs.filter fun p => !d.any fun q => q.1.pyEq (.str p.1) && q.2.pyEq (.str p.2)

/-- The observation is one of this document on this lane. -/
def Of (o : Observation) (p : PyStr × PyStr) : Prop := o.path = .str p.1 ∧ o.lane = .str p.2

/-- A run: the journal is opened, and what is pending is observed, at least its beginning. -/
structure Run (H : Hasher) (c : Campaign) (file : Bytes) (opening : List (Effect UInt8))
    (todo : List (PyStr × PyStr)) (new : List Observation) (ms : List Bytes) : Prop where
  session : ∃ h before, c.header H = .ok h ∧ Session h file before opening new ms ∧
    c.pending before = .ok todo
  observed : ∃ ps, ps <+: todo ∧ List.Forall₂ Of new ps

/-- What a call of run is given and what it meets: the backends, what observe finds of each document
on each lane, and progress. -/
structure Call where
  available : Lane → Bool
  limit : Option ℤ
  found : PyStr × PyStr → Except Exc Observation
  progress : Option (Observation → Except Exc Unit)

/-- observe: whatever it finds is an observation of this document on this lane. -/
def Call.observe (call : Call) (p : PyStr × PyStr) : Except Exc Observation :=
  (call.found p).map fun o => { o with path := .str p.1, lane := .str p.2 }

/-- The loop of run: what it appends to the journal, and this call's observations. -/
def observeAll (call : Call) : List (PyStr × PyStr) → List Observation →
    List (Effect UInt8) × Except Exc (List Observation)
  | [],observed => ([],.ok observed)
  | p :: todo,observed =>
    if call.limit.any fun n => decide (n ≤ (observed.length : ℤ)) then ([],.ok observed)
    else match call.observe p with
      | .error e => ([],.error e)
      | .ok o => match appendLine o.toJson with
        | .error e => ([],.error e)
        | .ok line => match call.progress.elim (.ok ()) fun f => f o with
          -- the line is in the journal by then
          | .error e => ([line],.error e)
          | .ok () =>
            let rest := observeAll call todo (observed++[o])
            (line :: rest.1,rest.2)

/-- run, on a journal that was opened with these observations. -/
def run (c : Campaign) (call : Call) (before : List Observation) :
    List (Effect UInt8) × Except Exc (List Observation) :=
  if c.ordered.any fun l => !call.available l then ([],.error .campaign)
  else match c.pending before with
    | .error e => ([],.error e)
    | .ok todo => observeAll call todo []

/-- Campaign(...) and its run: what the process does to the file, and what run returns. -/
def process (H : Hasher) (c : Campaign) (call : Call) (file : Bytes) :
    List (Effect UInt8) × Except Exc (List Observation) :=
  match c.header H with
  | .error e => ([],.error e)
  | .ok h => match init h file with
    | (opening,.error e) => (opening,.error e)
    | (opening,.ok before) => (opening++(c.run call before).1,(c.run call before).2)

/-- The journal after processes that ran the campaign, one at a time, and died at any point. -/
inductive Killed (H : Hasher) (c : Campaign) : Bytes → Prop
  | new : Killed H c []
  | died {file file' : Bytes} {call : Call} {n : ℕ} : Killed H c file →
      Leaves (c.process H call file).1 file n file' → Killed H c file'

/-- The journal after runs that died at any point. -/
inductive Runs (H : Hasher) (c : Campaign) : Bytes → List Observation → Prop
  | new : Runs H c [] []
  | died {file file' : Bytes} {os new : List Observation} {opening : List (Effect UInt8)}
      {todo : List (PyStr × PyStr)} {ms : List Bytes} {n : ℕ} : Runs H c file os →
      Run H c file opening todo new ms → Leaves (opening++appends ms) file n file' →
      Runs H c file' (os++new.take (n-opening.length))

section Pairs

lemma ordered_perm : c.ordered.Perm c.lanes :=
  List.filter_append_perm (fun l : Lane => decide (l.name = c.baseline)) c.lanes

/-- No document and lane comes twice: paths are unique in a corpus, and names among the lanes. -/
lemma pairs_nodup : c.pairs.Nodup := by
  have hl : (c.ordered.map Lane.name).Nodup := (ordered_perm.map Lane.name).nodup_iff.mpr c.names_unique
  have hp : c.pairs = c.corpus.entries.flatMap fun e => (c.ordered.map Lane.name).map fun n => (e.path,n) := by
    simp [pairs,Function.comp_def]
  rw [hp,List.nodup_flatMap]
  refine ⟨fun e _ => hl.map fun m n h => (Prod.mk.inj h).2,?_⟩
  have he := List.pairwise_map.mp c.corpus.unique
  refine he.imp fun {e f} hne p hpe hpf => ?_
  obtain ⟨m,-,rfl⟩ := List.mem_map.mp hpe
  obtain ⟨n,-,hn⟩ := List.mem_map.mp hpf
  exact hne (Prod.mk.inj hn).1.symm

variable {os : List Observation} {ps : List (PyStr × PyStr)}

lemma Of.image {o : Observation} {p : PyStr × PyStr} (h : Of o p) : Of o.image p := by
  refine ⟨?_,?_⟩
  · rw [Observation.image,h.1]
    rfl
  · rw [Observation.image,h.2]
    rfl

/-- What is pending is what was not observed. -/
lemma pending_of (h : List.Forall₂ Of os ps) :
    c.pending os = .ok (c.pairs.filter fun p => decide (p ∉ ps)) := by
  have hdone : done os = .ok (ps.map fun p => (.str p.1,.str p.2)) := by
    refine mapM_ok.mpr (List.forall₂_map_right_iff.mpr (h.imp fun o p ho => ?_))
    rw [ho.1,ho.2]
    rfl
  rw [pending,hdone]
  refine congrArg Except.ok (List.filter_congr fun p _ => ?_)
  rw [Bool.eq_iff_iff,Bool.not_eq_true',Bool.eq_false_iff,decide_eq_true_eq,not_iff_not,List.any_map,
    List.any_eq_true]
  constructor
  · rintro ⟨q,hq,he⟩
    simp only [Function.comp,Bool.and_eq_true,pyEq_str,PyVal.str.injEq] at he
    exact (Prod.ext he.1 he.2 : q = p) ▸ hq
  · exact fun hp => ⟨p,hp,by simp [pyEq_str]⟩

end Pairs

section Runs

variable {h : List (PyKey × PyVal)} {hline file file' : Bytes} {os new : List Observation}
  {opening : List (Effect UInt8)} {todo : List (PyStr × PyStr)} {ms : List Bytes} {n : ℕ}

/-- A campaign's header is JSON data. -/
lemma header_json (hh : c.header H = .ok h) : (PyVal.dict h).IsJson ∧ h ≠ [] := by
  obtain ⟨id,-,hh⟩ := except_bind_ok.mp hh
  obtain ⟨digest,-,hh⟩ := except_bind_ok.mp hh
  obtain rfl := Except.ok.inj hh
  refine ⟨?_,by simp⟩
  have hlanes : ∀ l ∈ c.ordered.map Lane.toJson, l.IsJson := by
    intro v hv
    obtain ⟨l,-,rfl⟩ := List.mem_map.mp hv
    simp [Lane.toJson,PyVal.IsJson,PyVal.IsJsonItems,lit]
  have hparser : c.parser.toPy.IsJson := by
    simp [NameVersion.toPy,PyVal.IsJson,PyVal.IsJsonItems,lit]
  have hlist : (PyVal.list (c.ordered.map Lane.toJson)).IsJson := by
    rw [PyVal.IsJson,PyVal.isJsonList_iff]
    exact hlanes
  rw [PyVal.IsJson,PyVal.isJsonItems_iff]
  refine ⟨by simp [lit],?_⟩
  simp only [List.forall_mem_cons,List.not_mem_nil,false_implies,implies_true,and_true]
  exact ⟨⟨⟨_,rfl⟩,trivial⟩,⟨⟨_,rfl⟩,trivial⟩,⟨⟨_,rfl⟩,trivial⟩,⟨⟨_,rfl⟩,trivial⟩,⟨⟨_,rfl⟩,hparser⟩,
    ⟨⟨_,rfl⟩,trivial⟩,⟨⟨_,rfl⟩,hlist⟩,⟨_,rfl⟩,trivial⟩

/-- Once a journal was opened, its header could be written. -/
lemma headerLine_of_init (hh : c.header H = .ok h) {before : List Observation}
    (hi : init h [] = (opening,.ok before)) : ∃ hline, HeaderLine h hline := by
  rw [init,if_pos rfl,headed] at hi
  cases hc : canonicalJson (.dict h) with
  | error e =>
    rw [appendLine,hc] at hi
    cases hi
  | ok l => exact ⟨l,(header_json hh).1,(header_json hh).2,hc⟩

/-- What the journal holds after any runs: lines of distinct documents and lanes of the campaign. -/
structure Observed (c : Campaign) (h : List (PyKey × PyVal)) (file : Bytes) (os : List Observation)
    (ps : List (PyStr × PyStr)) : Prop where
  holds : ∀ hline, HeaderLine h hline → Holds hline file os
  blank : file = [] ∨ ∃ hline, HeaderLine h hline
  of : List.Forall₂ Of os ps
  nodup : ps.Nodup
  subset : ps ⊆ c.pairs

/-- A run writes lines of what the journal does not hold yet. -/
lemma Observed.run {ps : List (PyStr × PyStr)} (ho : Observed c h file os ps) (hh : c.header H = .ok h)
    (hr : Run H c file opening todo new ms) : (∃ hline, HeaderLine h hline) ∧
      todo = (c.pairs.filter fun p => decide (p ∉ ps)) ∧
      (∀ hline, HeaderLine h hline → ∃ before, Session h file before opening new ms) ∧
      ∃ qs, qs <+: todo ∧ List.Forall₂ Of new qs := by
  obtain ⟨h',before,hh',hs,hp⟩ := hr.session
  obtain rfl := Except.ok.inj (hh.symm.trans hh')
  have hex : ∃ hline, HeaderLine h hline := by
    rcases ho.blank with rfl | hex
    · exact headerLine_of_init hh hs.opened
    · exact hex
  obtain ⟨hline,hl⟩ := hex
  obtain ⟨_,_,hi,-⟩ := (ho.holds hline hl).init hl
  obtain ⟨-,hb⟩ := Prod.mk.inj (hs.opened.symm.trans hi)
  obtain rfl := Except.ok.inj hb
  have himage : List.Forall₂ Of (os.map Observation.image) ps :=
    List.forall₂_map_left_iff.mpr (ho.of.imp fun o p => Of.image)
  rw [pending_of himage] at hp
  exact ⟨⟨hline,hl⟩,(Except.ok.inj hp).symm,fun _ _ => ⟨_,hs⟩,hr.observed⟩

/-- A run that dies keeps what the journal holds, with the lines it completed. -/
lemma Observed.died {ps : List (PyStr × PyStr)} (ho : Observed c h file os ps) (hh : c.header H = .ok h)
    (hr : Run H c file opening todo new ms) (hd : Leaves (opening++appends ms) file n file') :
    ∃ qs, Observed c h file' (os++new.take (n-opening.length)) (ps++qs) := by
  obtain ⟨hex,rfl,hs,qs,hq,hof⟩ := ho.run hh hr
  refine ⟨qs.take (n-opening.length),fun hline hl => ?_,Or.inr hex,
    List.rel_append ho.of (List.forall₂_take _ hof),?_,?_⟩
  · obtain ⟨before,hs⟩ := hs hline hl
    exact ((ho.holds hline hl).died hl hs hd).2
  · have hfree : ∀ p ∈ qs.take (n-opening.length), p ∉ ps := by
      intro p hp
      exact of_decide_eq_true (List.mem_filter.mp (hq.subset (List.mem_of_mem_take hp))).2
    have hqs : (qs.take (n-opening.length)).Nodup :=
      ((pairs_nodup.filter _).sublist hq.sublist).sublist (List.take_sublist _ _)
    refine List.nodup_append.mpr ⟨ho.nodup,hqs,?_⟩
    rintro p hp _ hq' rfl
    exact hfree p hq' hp
  · refine List.append_subset.mpr ⟨ho.subset,fun p hp => ?_⟩
    exact (List.mem_filter.mp (hq.subset (List.mem_of_mem_take hp))).1

lemma Runs.observed (hh : c.header H = .ok h) (hr : Runs H c file os) : ∃ ps, Observed c h file os ps := by
  induction hr with
  | new => exact ⟨[],fun _ _ => .empty List.not_mem_nil,Or.inl rfl,.nil,List.nodup_nil,List.nil_subset _⟩
  | died _ hr hd ih =>
    obtain ⟨ps,ho⟩ := ih
    obtain ⟨qs,hq⟩ := ho.died hh hr hd
    exact ⟨_,hq⟩

/-- After any runs, one that observes everything that is pending leaves one line for each document
and lane of the campaign, after the header's. -/
theorem Runs.completed (hr : Runs H c file os) (hrun : Run H c file opening todo new ms)
    (hall : new.length = todo.length) : ∃ h hline ls ps, c.header H = .ok h ∧ HeaderLine h hline ∧
      perform (opening++appends ms) file = joined newline (hline :: ls) ∧ LinesOf (os++new) ls ∧
      List.Forall₂ Of (os++new) ps ∧ ps.Perm c.pairs := by
  obtain ⟨h,before,hh,hs,hp⟩ := hrun.session
  obtain ⟨ps,ho⟩ := hr.observed hh
  obtain ⟨⟨hline,hl⟩,rfl,-,qs,hq,hof⟩ := ho.run hh hrun
  obtain ⟨opening',ls,hi,hls,hperform,-⟩ := (ho.holds hline hl).init hl
  obtain ⟨rfl,-⟩ := Prod.mk.inj (hs.opened.symm.trans hi)
  have hqs : qs = c.pairs.filter fun p => decide (p ∉ ps) :=
    hq.eq_of_length (hof.length_eq.symm.trans hall)
  refine ⟨h,hline,ls++ms,ps++qs,hh,hl,?_,List.rel_append hls hs.lines,List.rel_append ho.of hof,?_⟩
  · rw [perform_append,hperform,appends,perform_lines,← joined_append,List.cons_append]
  · rw [hqs]
    have hnodup : (ps++c.pairs.filter fun p => decide (p ∉ ps)).Nodup := by
      refine List.nodup_append.mpr ⟨ho.nodup,pairs_nodup.filter _,?_⟩
      rintro p hp _ hq rfl
      exact of_decide_eq_true (List.mem_filter.mp hq).2 hp
    refine (List.perm_ext_iff_of_nodup hnodup pairs_nodup).mpr fun p => ?_
    rw [List.mem_append,List.mem_filter,decide_eq_true_eq]
    by_cases hp : p ∈ ps
    · exact iff_of_true (Or.inl hp) (ho.subset hp)
    · simp [hp]

end Runs

section Process

variable {h : List (PyKey × PyVal)} {file : Bytes} {os : List Observation}

lemma Call.observe_of {call : Call} {p : PyStr × PyStr} {o : Observation} (h : call.observe p = .ok o) : Of o p := by
  cases hf : call.found p with
  | error e =>
    rw [Call.observe,hf] at h
    cases h
  | ok x =>
    rw [Call.observe,hf] at h
    obtain rfl := Except.ok.inj h
    exact ⟨rfl,rfl⟩

/-- The loop appends the lines of what it observed, a beginning of what is pending; without a limit
it only returns at the end. -/
lemma observeAll_lines (call : Call) (todo : List (PyStr × PyStr)) (observed : List Observation) :
    ∃ new ms, LinesOf new ms ∧ (observeAll call todo observed).1 = appends ms ∧
      (∃ ps, ps <+: todo ∧ List.Forall₂ Of new ps) ∧
      ∀ xs, (observeAll call todo observed).2 = .ok xs →
        xs = observed++new ∧ (call.limit = none → new.length = todo.length) := by
  induction todo generalizing observed with
  | nil =>
    refine ⟨[],[],.nil,rfl,⟨[],List.prefix_rfl,.nil⟩,fun xs hx => ?_⟩
    exact ⟨(Except.ok.inj hx).symm.trans (List.append_nil _).symm,fun _ => rfl⟩
  | cons p todo ih =>
    have hnone : ∃ ps, ps <+: p :: todo ∧ List.Forall₂ Of [] ps := ⟨[],List.nil_prefix,.nil⟩
    rw [observeAll]
    split_ifs with hlimit
    · refine ⟨[],[],.nil,rfl,hnone,fun xs hx => ⟨?_,fun hno => ?_⟩⟩
      · exact (Except.ok.inj hx).symm.trans (List.append_nil _).symm
      · rw [hno] at hlimit
        cases hlimit
    · cases ho : call.observe p with
      | error e => exact ⟨[],[],.nil,rfl,hnone,fun xs hx => by cases hx⟩
      | ok o =>
        cases hc : canonicalJson o.toJson with
        | error e =>
          simp only [appendLine,hc]
          exact ⟨[],[],.nil,rfl,hnone,fun xs hx => by cases hx⟩
        | ok l =>
          simp only [appendLine,hc]
          have hof : Of o p := Call.observe_of ho
          cases call.progress.elim (.ok ()) fun f => f o with
          | error e =>
            exact ⟨[o],[l],.cons hc .nil,rfl,⟨[p],List.prefix_append [p] todo,.cons hof .nil⟩,
              fun xs hx => by cases hx⟩
          | ok _ =>
            obtain ⟨new,ms,hlines,hrun,⟨ps,hps,hall⟩,hends⟩ := ih (observed++[o])
            refine ⟨o :: new,l :: ms,.cons hc hlines,congrArg _ hrun,
              ⟨p :: ps,List.cons_prefix_cons.mpr ⟨rfl,hps⟩,.cons hof hall⟩,fun xs hx => ?_⟩
            obtain ⟨rfl,hlen⟩ := hends xs hx
            exact ⟨List.append_assoc _ _ _,fun hno => congrArg (·+1) (hlen hno)⟩

/-- What a process does to the journal of any runs is a run, or nothing: a header that cannot be
written. -/
theorem Runs.process (hr : Runs H c file os) (call : Call) :
    (∃ opening todo new ms, Run H c file opening todo new ms ∧
      (c.process H call file).1 = opening++appends ms ∧
      ∀ xs, (c.process H call file).2 = .ok xs → xs = new ∧ (call.limit = none → new.length = todo.length)) ∨
    (c.process H call file).1 = [] ∧ ∃ e, (c.process H call file).2 = .error e := by
  rw [Campaign.process]
  cases hh : c.header H with
  | error e => exact .inr ⟨rfl,e,rfl⟩
  | ok h =>
    obtain ⟨ps,ho⟩ := hr.observed hh
    cases hc : canonicalJson (.dict h) with
    | error e =>
      have hblank : file = [] := ho.blank.resolve_right fun ⟨hline,hl⟩ => by cases hc.symm.trans hl.line
      subst hblank
      have hinit : init h [] = ([],.error e) := by
        rw [init,if_pos rfl,headed,appendLine,hc]
        rfl
      dsimp only
      rw [hinit]
      exact .inr ⟨rfl,e,rfl⟩
    | ok hline =>
      have hl : HeaderLine h hline := ⟨(header_json hh).1,(header_json hh).2,hc⟩
      obtain ⟨opening,ls,hi,-⟩ := (ho.holds hline hl).init hl
      have hof : List.Forall₂ Of (os.map Observation.image) ps :=
        List.forall₂_map_left_iff.mpr (ho.of.imp fun o p => Of.image)
      dsimp only
      rw [hi]
      simp only [Campaign.run,pending_of hof]
      left
      split_ifs
      · exact ⟨opening,_,[],[],⟨⟨h,_,hh,⟨hi,.nil⟩,pending_of hof⟩,[],List.nil_prefix,.nil⟩,rfl,
          fun xs hx => by cases hx⟩
      · obtain ⟨new,ms,hlines,hrun,hobserved,hends⟩ :=
          observeAll_lines call (c.pairs.filter fun p => decide (p ∉ ps)) []
        exact ⟨opening,_,new,ms,⟨⟨h,_,hh,⟨hi,hlines⟩,pending_of hof⟩,hobserved⟩,congrArg _ hrun,hends⟩

/-- Processes that died leave a journal of runs. -/
theorem Killed.runs (hk : Killed H c file) : ∃ os, Runs H c file os := by
  induction hk with
  | new => exact ⟨[],.new⟩
  | @died file file' call n _ hd ih =>
    obtain ⟨os,hr⟩ := ih
    rcases hr.process call with ⟨opening,todo,new,ms,hrun,heq,-⟩ | ⟨heq,-⟩
    · rw [heq] at hd
      exact ⟨_,.died hr hrun hd⟩
    · rw [heq] at hd
      cases hd
      exact ⟨os,hr⟩

/-- A call that returns after them, no limit given, leaves one line for each document and lane. -/
theorem Killed.completed (hk : Killed H c file) : ∃ os, Runs H c file os ∧
    ∀ (call : Call) new, call.limit = none → (c.process H call file).2 = .ok new →
      ∃ h hline ls ps, c.header H = .ok h ∧ HeaderLine h hline ∧
        perform (c.process H call file).1 file = joined newline (hline :: ls) ∧ LinesOf (os++new) ls ∧
        List.Forall₂ Of (os++new) ps ∧ ps.Perm c.pairs := by
  obtain ⟨os,hr⟩ := hk.runs
  refine ⟨os,hr,fun call new hno hreturn => ?_⟩
  rcases hr.process call with ⟨opening,todo,ms,ls,hrun,heq,hends⟩ | ⟨-,e,he⟩
  · obtain ⟨rfl,hall⟩ := hends new hreturn
    rw [heq]
    exact hr.completed hrun (hall hno)
  · cases he.symm.trans hreturn

end Process

end Campaign

/-- A journal that is opened after processes died at any points of any lines holds, in order,
exactly the observations whose lines were completed, each equal to the one appended when that is
JSON data, and only what comes after the last line is dropped. After any number of runs of a
campaign that died, a run that observes all that is pending leaves exactly one line for each
document and lane. The processes that call run leave such runs, and one whose call returns, no
limit given, has observed all that was pending. -/
theorem journal_survives :
    (∀ header hline file os, HeaderLine header hline → Journaled header file os →
      ∃ opening ls t, init header file = (opening,.ok (os.map Observation.image)) ∧ LinesOf os ls ∧
        perform opening file = joined newline (hline :: ls) ∧ newline ∉ t ∧
        (file = joined newline (hline :: ls)++t ∨ os = [] ∧ file = t) ∧
        ∀ o ∈ os, (PyVal.tuple o.values).pyEq (.tuple o.image.values) = true ↔ o.IsJson) ∧
    (∀ (H : Hasher) (c : Campaign) file os opening todo new ms, Campaign.Runs H c file os →
      Campaign.Run H c file opening todo new ms → new.length = todo.length →
      ∃ h hline ls ps, c.header H = .ok h ∧ HeaderLine h hline ∧
        perform (opening++appends ms) file = joined newline (hline :: ls) ∧ LinesOf (os++new) ls ∧
        List.Forall₂ Campaign.Of (os++new) ps ∧ ps.Perm c.pairs) ∧
    ∀ (H : Hasher) (c : Campaign) file, Campaign.Killed H c file → ∃ os, Campaign.Runs H c file os ∧
      ∀ (call : Campaign.Call) new, call.limit = none → (c.process H call file).2 = .ok new →
        ∃ h hline ls ps, c.header H = .ok h ∧ HeaderLine h hline ∧
          perform (c.process H call file).1 file = joined newline (hline :: ls) ∧ LinesOf (os++new) ls ∧
          List.Forall₂ Campaign.Of (os++new) ps ∧ ps.Perm c.pairs := by
  refine ⟨fun header hline file os h hj => ?_,fun H c file os opening todo new ms hr hrun hall =>
    hr.completed hrun hall,fun H c file hk => hk.completed⟩
  obtain ⟨opening,ls,hi,hls,hp⟩ := hj.reopened h
  have heq : ∀ o ∈ os, (PyVal.tuple o.values).pyEq (.tuple o.image.values) = true ↔ o.IsJson := by
    intro o ho
    obtain ⟨l,-,hl⟩ := forall₂_mem hls ho
    obtain ⟨t,ht,-⟩ := canonicalJson_ok.mp hl
    exact Observation.image_eq_iff ⟨t,ht⟩
  cases hj.holds h with
  | empty ht => exact ⟨opening,ls,file,hi,hls,hp,ht,Or.inr ⟨rfl,rfl⟩,heq⟩
  | lines hls' ht =>
    rename_i ls' t
    obtain rfl : ls = ls' := by
      have hdet : ∀ {as : List Observation} {xs ys : List Bytes}, LinesOf as xs → LinesOf as ys → xs = ys := by
        intro as xs ys hx hy
        induction hx generalizing ys with
        | nil => cases hy; rfl
        | cons hx _ ih =>
          cases hy with
          | cons hy hys => rw [Except.ok.inj (hx.symm.trans hy),ih hys]
      exact hdet hls hls'
    exact ⟨opening,ls,t,hi,hls,hp,ht,Or.inl rfl,heq⟩

section Sample

lemma sample_path : isCorpusPath (lit "a") = true := by decide

lemma sample_name : lit "c" ≠ [] := by decide

lemma sample_excluded : (([] : List Excluded).map Excluded.path).Pairwise (· ≤ ·) := List.Pairwise.nil

/-- One document and one lane. -/
def sampleCampaign : Campaign where
  corpus := {
    name := lit "c"
    entries := [⟨lit "a",List.replicate 64 (cp '0'),1,sample_path,by decide⟩]
    excluded := []
    name_ne := sample_name
    sorted := List.pairwise_singleton _ _
    unique := List.nodup_singleton _
    excluded_sorted := sample_excluded
    disjoint := List.forall_mem_nil _ }
  lanes := [⟨lit "l",lit "b"⟩]
  baseline := lit "l"
  parser := ⟨lit "p",lit "1"⟩
  parserConfig := []
  names_unique := List.nodup_singleton _
  baseline_mem := List.mem_singleton.mpr rfl

/-- What is observed of the document. -/
def sampleObservation : Observation :=
  ⟨.str (lit "a"),.str (lit "l"),.notApplicable,.none,.none,.none,.none,.none,.none,.none,.none,.none⟩

/-- A call of run that no backend and no limit stops. -/
def sampleCall : Campaign.Call where
  available _ := true
  limit := none
  found _ := .ok sampleObservation
  progress := none

lemma sample_line : ∃ l, canonicalJson sampleObservation.toJson = .ok l := by
  have h : (canonicalJson sampleObservation.toJson).toOption.isSome = true := by decide +kernel
  obtain ⟨l,hl⟩ := Option.isSome_iff_exists.mp h
  cases hc : canonicalJson sampleObservation.toJson with
  | error e =>
    rw [hc] at hl
    cases hl
  | ok l => exact ⟨l,rfl⟩

lemma sample_header : ∃ h hline, sampleCampaign.header .checksum = .ok h ∧ HeaderLine h hline := by
  have h : ((sampleCampaign.header .checksum).bind fun h => canonicalJson (.dict h)).toOption.isSome = true := by
    decide +kernel
  cases hh : sampleCampaign.header .checksum with
  | error e =>
    rw [hh] at h
    cases h
  | ok header =>
    rw [hh] at h
    cases hc : canonicalJson (.dict header) with
    | error e =>
      simp only [Except.bind,hc] at h
      cases h
    | ok hline =>
      exact ⟨header,hline,rfl,(Campaign.header_json hh).1,(Campaign.header_json hh).2,hc⟩

/-- A process that died before the newline of its second observation, and a campaign whose first run
died before the newline of the header. -/
theorem journal_survives_sample :
    (∃ header hline l file opening, HeaderLine header hline ∧ canonicalJson sampleObservation.toJson = .ok l ∧
      file = joined newline [hline,l]++l ∧ init header file = (opening,.ok [sampleObservation.image]) ∧
      perform opening file = joined newline [hline,l]) ∧
    ∃ file, file ≠ [] ∧ Campaign.Killed .checksum sampleCampaign file ∧
      (sampleCampaign.process .checksum sampleCall file).2 = .ok [sampleObservation] ∧
      ∃ hline l, perform (sampleCampaign.process .checksum sampleCall file).1 file = joined newline [hline,l] ∧
        canonicalJson sampleObservation.toJson = .ok l := by
  obtain ⟨header,hline,hh,hl⟩ := sample_header
  obtain ⟨l,hc⟩ := sample_line
  have hempty : init header [] = ([.append (hline++[newline])],.ok []) := by
    rw [init,if_pos rfl,hl.headed]
    rfl
  have htorn : ∀ t : Bytes, t <+: t++[newline] ∧ t.length < (t++[newline]).length := fun t =>
    ⟨List.prefix_append _ _,by simp⟩
  constructor
  · have hlines : LinesOf [sampleObservation,sampleObservation] [l,l] := .cons hc (.cons hc .nil)
    have happended : joined newline [hline,l] = []++(hline++[newline])++(l++[newline]) := by simp [joined]
    have hleaves : Leaves ([.append (hline++[newline])]++appends [l,l]) [] 2 (joined newline [hline,l]++l) := by
      rw [happended]
      exact .step (.step (.torn [] (htorn l).1 (htorn l).2))
    have hj : Journaled header (joined newline [hline,l]++l) [sampleObservation] :=
      .died .new ⟨hempty,hlines⟩ hleaves
    obtain ⟨opening,ls,t,hi,hls,hp,-⟩ := journal_survives.1 header hline _ _ hl hj
    obtain ⟨l',ls',hl',hnil,rfl⟩ := List.forall₂_cons_left_iff.mp hls
    cases hnil
    obtain rfl := Except.ok.inj (hl'.symm.trans hc)
    exact ⟨header,hline,_,_,opening,hl,hc,rfl,hi,hp⟩
  · have hfirst : (sampleCampaign.process .checksum sampleCall []).1 =
        .append (hline++[newline]) :: (sampleCampaign.run sampleCall []).1 := by
      rw [Campaign.process,hh]
      dsimp only
      rw [hempty]
      rfl
    have hkilled : Campaign.Killed .checksum sampleCampaign hline := by
      have hdied : Leaves (.append (hline++[newline]) :: (sampleCampaign.run sampleCall []).1) [] 0 ([]++hline) :=
        .torn _ (htorn hline).1 (htorn hline).2
      rw [← hfirst] at hdied
      exact .died .new hdied
    have hruns : sampleCampaign.run sampleCall [] = ([.append (l++[newline])],.ok [sampleObservation]) := by
      have hpending : sampleCampaign.pending [] = .ok [(lit "a",lit "l")] :=
        (Campaign.pending_of .nil).trans (by decide)
      have happend : appendLine sampleObservation.toJson = .ok (.append (l++[newline])) := by
        rw [appendLine,hc]
        rfl
      have hlimit : sampleCall.limit = none := rfl
      have hobserve : sampleCall.observe (lit "a",lit "l") = .ok sampleObservation := rfl
      rw [Campaign.run,if_neg (by decide),hpending]
      dsimp only
      rw [Campaign.observeAll,hlimit,Option.any_none,if_neg Bool.false_ne_true,hobserve]
      dsimp only
      rw [happend]
      rfl
    obtain ⟨opening,ls,hi,-⟩ := (Holds.empty (line_free hl.line)).init hl
    have hreturn : (sampleCampaign.process .checksum sampleCall hline).2 = .ok [sampleObservation] := by
      rw [Campaign.process,hh]
      dsimp only
      rw [hi,List.map_nil]
      dsimp only
      rw [hruns]
    obtain ⟨os,-,hcompleted⟩ := journal_survives.2.2 .checksum sampleCampaign hline hkilled
    obtain ⟨h,hline',ls,ps,hh',hl',hperform,hlines,hof,hperm⟩ := hcompleted sampleCall _ rfl hreturn
    obtain rfl := Except.ok.inj (hh.symm.trans hh')
    obtain rfl := Except.ok.inj (hl.line.symm.trans hl'.line)
    have hlength : (os++[sampleObservation]).length = 1 := hof.length_eq.trans (hperm.length_eq.trans rfl)
    obtain rfl : os = [] := List.length_eq_zero_iff.mp (by simpa using hlength)
    obtain ⟨l',ls',hc',hnil,rfl⟩ := List.forall₂_cons_left_iff.mp hlines
    cases hnil
    refine ⟨hline,?_,hkilled,hreturn,hline,l',hperform,hc'⟩
    rintro rfl
    obtain ⟨kws,hload,-⟩ := hl.accepted
    have hempty : loadsBytes [] = none := by decide
    cases hempty.symm.trans hload

end Sample

end Stele.JournalFile
