import Stele.Containment.Readdir

/-! The paging of fd_readdir: the host's own loop reads every entry of an unchanging directory, and a
guest that goes on after the last whole entry of each buffer sees every entry once, in name order, and
then the end. -/
namespace Stele
open Python Records

section Host

variable {R : EngineReaddir} {listing seen rest : List Dirent} {d : Dirent} {n : ℕ}

/-- Where a reader of these entries goes on. -/
def cookieAfter (seen : List Dirent) : UInt64 := (seen.getLast?.map Dirent.next).getD 0

/-- The engine goes on after the entries that were read. -/
lemma EngineReaddir.Follows.page (h : R.Follows listing) (hl : listing = seen++rest) (n : ℕ) :
    R (cookieAfter seen) n = .ok ((dirents.encAll rest).take n) := by
  rcases List.eq_nil_or_concat seen with rfl | ⟨seen,d,rfl⟩
  · rw [List.nil_append] at hl
    rw [← hl]
    exact h.start n
  · rw [cookieAfter,List.concat_eq_append,List.getLast?_concat]
    exact h.resume (by rw [hl,List.concat_eq_append,List.append_assoc,List.singleton_append]) n

/-- The host's loop, wherever it is: it ends, and with every entry unless one of them does not fit in
its buffer. -/
lemma listLoop_spec (h : R.Follows listing) {fuel : ℕ} (hl : listing = seen++rest) (hfuel : rest.length < fuel) :
    listLoop R fuel (cookieAfter seen) (seen.map Dirent.entry)
      = some (if ∀ d ∈ rest, d.bytes.length ≤ shimDirbufLen then .ok (sortByName (listing.map Dirent.entry))
          else .error eOverflow) := by
  induction fuel generalizing seen rest with
  | zero => cases hfuel
  | succ fuel ih =>
    have hfine : ∀ d ∈ rest, dirents.Fine d := fun d hd => h.fine d (hl ▸ List.mem_append_right _ hd)
    have hwhole := Format.readAll_take hfine (n := shimDirbufLen) le_rfl
    rw [listLoop,h.page hl]
    simp only [hwhole]
    by_cases hshort : ((dirents.encAll rest).take shimDirbufLen).length < shimDirbufLen
    · -- the last page
      have hall : ∀ d ∈ rest, d.bytes.length ≤ shimDirbufLen := by
        intro d hd
        have hd : d.bytes.length ≤ (dirents.encAll rest).length := Format.enc_le (F := dirents) hd
        rw [List.length_take] at hshort
        omega
      rw [if_pos hshort,if_pos hall,Format.fitting_short hshort,hl,List.map_append]
    · rw [if_neg hshort]
      have hdrop := Format.fitting_drop (F := dirents) rest shimDirbufLen
      rcases List.eq_nil_or_concat (dirents.fitting rest shimDirbufLen) with hnil | ⟨whole,d,hconcat⟩
      · -- the next entry does not fit
        rw [hnil,List.getLast?_nil]
        cases rest with
        | nil => exact absurd (by decide) hshort
        | cons d rest =>
          rw [if_neg fun hall => Format.fitting_ne (hall d List.mem_cons_self) hnil]
      · have hlast : (dirents.fitting rest shimDirbufLen).getLast? = some d := by
          rw [hconcat,List.concat_eq_append,List.getLast?_concat]
        have hcookie : d.next = cookieAfter (seen++dirents.fitting rest shimDirbufLen) := by
          rw [cookieAfter,List.getLast?_append,hlast]
          rfl
        have hlen : 0 < (dirents.fitting rest shimDirbufLen).length := by
          rw [hconcat,List.concat_eq_append,List.length_append]
          exact Nat.succ_pos _
        have hrest := congrArg List.length hdrop
        rw [List.length_append] at hrest
        have hiff : (∀ d ∈ rest.drop (dirents.fitting rest shimDirbufLen).length, d.bytes.length ≤ shimDirbufLen)
            ↔ ∀ d ∈ rest, d.bytes.length ≤ shimDirbufLen := by
          conv_rhs => rw [← hdrop]
          simp only [List.forall_mem_append]
          have hfits : ∀ d ∈ dirents.fitting rest shimDirbufLen, d.bytes.length ≤ shimDirbufLen :=
            fun d hd => (Format.enc_le (F := dirents) hd).trans (Format.fitting_le _ _)
          exact ⟨fun h => ⟨hfits,h⟩,And.right⟩
        rw [hlast]
        simp only
        rw [hcookie,← List.map_append,ih (by rw [List.append_assoc,hdrop,hl]) (by omega)]
        simp only [hiff]

/-- The host reads every entry, whatever the pages, or says that one is too long for its buffer. -/
theorem listDirectory_spec (h : R.Follows listing) {fuel : ℕ} (hfuel : listing.length < fuel) :
    listDirectory R fuel
      = some (if ∀ d ∈ listing, d.bytes.length ≤ shimDirbufLen then .ok (sortByName (listing.map Dirent.entry))
          else .error eOverflow) :=
  listLoop_spec h (show listing = []++listing from rfl) hfuel

end Host

/-- The numbers after all these entries are observed. -/
def observeAll (inodes : Dict UInt64 ℕ) (entries : List Entry) : Dict UInt64 ℕ :=
  entries.foldl (fun inodes e => observe inodes e.realIno) inodes

/-- The entries as the guest gets them, by these numbers and from this index on. -/
def records (inodes : Dict UInt64 ℕ) : ℕ → List Entry → List Dirent
  | _,[] => []
  | i,e :: es => record inodes (i+1) e :: records inodes (i+1) es

section Page

variable {inodes D : Dict UInt64 ℕ} {entries es rest : List Entry} {e : Entry} {out : Bytes} {i j k n : ℕ}

lemma observe_get (inodes : Dict UInt64 ℕ) (real : UInt64) : ((observe inodes real).get real).isSome := by
  rw [observe,Dict.get_setDefault]
  rfl

lemma observeAll_get {real : UInt64} (h : inodes.get real = some k) (es : List Entry) :
    (observeAll inodes es).get real = some k := by
  induction es generalizing inodes with
  | nil => exact h
  | cons e es ih => exact ih (Dict.get_setDefault_some h _ _)

lemma observeAll_seen (he : e ∈ es) (inodes : Dict UInt64 ℕ) : ((observeAll inodes es).get e.realIno).isSome := by
  induction he generalizing inodes with
  | head es =>
    obtain ⟨k,hk⟩ := Option.isSome_iff_exists.mp (observe_get inodes e.realIno)
    exact Option.isSome_iff_exists.mpr ⟨k,observeAll_get hk es⟩
  | tail b _ ih => exact ih (observe inodes b.realIno)

/-- Entries that were observed keep their numbers, and give no new ones. -/
lemma observeAll_again (h : ∀ e ∈ es, (inodes.get e.realIno).isSome) : observeAll inodes es = inodes := by
  induction es generalizing inodes with
  | nil => rfl
  | cons e es ih =>
    obtain ⟨he,hes⟩ := List.forall_mem_cons.mp h
    have hkeys : e.realIno ∈ inodes.keys := by
      by_contra hn
      rw [Dict.get_eq_none.mpr hn] at he
      cases he
    have hsame : observe inodes e.realIno = inodes := by rw [observe,Dict.setDefault,if_pos hkeys]
    rw [observeAll,List.foldl_cons,hsame]
    exact ih hes

lemma observeAll_append (inodes : Dict UInt64 ℕ) (es fs : List Entry) :
    observeAll inodes (es++fs) = observeAll (observeAll inodes es) fs := List.foldl_append

/-- A guest that goes back to an entry it was shown a part of finds the numbers as they were. -/
lemma observeAll_resume (hkj : k ≤ j) :
    observeAll (observeAll inodes (rest.take j)) (rest.drop k) = observeAll inodes rest := by
  have hsplit : rest.drop k = (rest.take j).drop k++rest.drop j := by
    rw [List.drop_take]
    conv_lhs => rw [← List.take_append_drop (j-k) (rest.drop k),List.drop_drop,Nat.add_sub_cancel' hkj]
  rw [hsplit,observeAll_append,observeAll_again fun e he => observeAll_seen (List.mem_of_mem_drop he) _,
    ← observeAll_append,List.take_append_drop]

@[simp] lemma records_length : (records D i es).length = es.length := by
  induction es generalizing i with
  | nil => rfl
  | cons e es ih => rw [records,List.length_cons,ih,List.length_cons]

lemma records_drop : (records D i es).drop k = records D (i+k) (es.drop k) := by
  induction k generalizing i es with
  | zero => rfl
  | succ k ih =>
    cases es with
    | nil => rfl
    | cons e es =>
      rw [records,List.drop_succ_cons,ih,List.drop_succ_cons]
      congr 1
      omega

/-- The last record the guest has tells where the next ones begin. -/
lemma records_next {p : List Dirent} (hp : p <+: records D i es) :
    (p.getLast?.map Dirent.next).getD (.ofNat i) = .ofNat (i+p.length) := by
  induction es generalizing i p with
  | nil =>
    rw [List.prefix_nil.mp hp]
    rfl
  | cons e es ih =>
    cases p with
    | nil => rfl
    | cons d p =>
      rw [records] at hp
      obtain ⟨rfl,htail⟩ := List.cons_prefix_cons.mp hp
      have hnext := ih htail
      rw [List.length_cons,show i+(p.length+1) = i+1+p.length by omega,← hnext,List.getLast?_cons]
      cases p.getLast? <;> rfl

lemma range_nil {a b : ℤ} (h : b ≤ a) : Int.range a b = [] := by
  rw [Int.range,Int.toNat_of_nonpos (by omega)]
  rfl

lemma range_cons {a b : ℤ} (h : a < b) : Int.range a b = a :: Int.range (a+1) b := by
  have hlen : (b-a).toNat = (b-(a+1)).toNat+1 := by omega
  rw [Int.range,hlen,List.range_succ_eq_map,List.map_cons,List.map_map,Int.range]
  refine congrArg₂ List.cons (by simp) (List.map_congr_left fun r _ => ?_)
  simp only [Function.comp_apply,Nat.succ_eq_add_one]
  omega

/-- The loop packs entries until the buffer has enough, by the numbers they will all have. -/
lemma fill_spec (hrest : entries.drop i = rest) (hD : observeAll inodes rest = D) :
    ∃ j, fill entries n (Int.range i entries.length) inodes out
        = (observeAll inodes (rest.take j),.ok (out++dirents.encAll ((records D i rest).take j)))
      ∧ (n ≤ (out++dirents.encAll ((records D i rest).take j)).length ∨ rest.length ≤ j) := by
  induction rest generalizing i inodes out with
  | nil =>
    have hi : entries.length ≤ i := List.drop_eq_nil_iff.mp hrest
    rw [range_nil (by omega)]
    refine ⟨0,?_,Or.inr le_rfl⟩
    rw [fill,List.take_zero,List.take_zero,Format.encAll_nil,List.append_nil]
    rfl
  | cons e rest ih =>
    have hi : i < entries.length := by
      have := congrArg List.length hrest
      rw [List.length_drop,List.length_cons] at this
      omega
    rw [range_cons (by omega),fill]
    by_cases hfull : n ≤ out.length
    · rw [if_pos (by omega)]
      refine ⟨0,?_,Or.inl ?_⟩
      · rw [List.take_zero,List.take_zero,Format.encAll_nil,List.append_nil]
        rfl
      · rw [List.length_append]
        omega
    · have hat : entryAt entries i = some e := by
        rw [entryAt,if_pos (by omega),Int.toNat_natCast]
        have := congrArg List.head? hrest
        rwa [List.head?_drop] at this
      have hnext : entries.drop (i+1) = rest := by
        rw [← List.drop_drop,hrest]
        rfl
      obtain ⟨number,hnumber⟩ := Option.isSome_iff_exists.mp (observe_get inodes e.realIno)
      have hrecord : record (observe inodes e.realIno) (i+1) e = record D (i+1) e := by
        have hget : D.get e.realIno = some number := hD ▸ observeAll_get hnumber rest
        rw [record,record,hnumber,hget]
      obtain ⟨j,hfill,hj⟩ := @ih (observe inodes e.realIno) (out++(record D (i+1) e).bytes) (i+1) hnext hD
      refine ⟨j+1,?_,?_⟩
      · rw [if_neg (by omega),hat]
        simp only
        rw [if_neg (by omega),show ((i : ℤ)+1).toNat = i+1 by omega,hrecord]
        refine hfill.trans ?_
        rw [records,List.take_succ_cons,List.take_succ_cons,Format.encAll_cons,List.append_assoc]
        rfl
      · rw [records,List.take_succ_cons,Format.encAll_cons,List.length_cons]
        rw [List.append_assoc] at hj
        exact hj.imp_right Nat.succ_le_succ

/-- A page is the stream of the entries from the cookie on, cut where the buffer ends; every entry that
is whole in it was observed. -/
lemma page_spec {run : WasmRun} (hD : observeAll run.inodes (entries.drop k) = D) :
    ∃ inodes, page run entries n k
        = ({ run with inodes := inodes },.wrote ((dirents.encAll (records D k (entries.drop k))).take n))
      ∧ observeAll inodes (entries.drop (k+(dirents.fitting (records D k (entries.drop k)) n).length)) = D := by
  obtain ⟨j,hfill,hj⟩ := @fill_spec run.inodes D entries _ [] k n rfl hD
  generalize hR : records D k (entries.drop k) = recs at hfill hj
  have hlen : recs.length = (entries.drop k).length := by rw [← hR,records_length]
  rw [List.nil_append] at hfill hj
  have hsplit : dirents.encAll recs = dirents.encAll (recs.take j)++dirents.encAll (recs.drop j) := by
    conv_lhs => rw [← List.take_append_drop j recs]
    exact List.flatMap_append
  refine ⟨observeAll run.inodes ((entries.drop k).take j),?_,?_⟩
  · have htake : (dirents.encAll (recs.take j)).take n = (dirents.encAll recs).take n := by
      rcases hj with hn | hall
      · rw [hsplit,List.take_append_of_le_length hn]
      · have hle : recs.length ≤ j := hlen.trans_le hall
        rw [List.take_of_length_le hle]
    rw [page,hfill]
    simp only
    rw [sliceTo,if_pos (by omega),Int.toNat_natCast,htake]
  · rw [← List.drop_drop]
    exact (observeAll_resume (Format.fitting_length_le (hlen.symm ▸ hj))).trans hD

/-- Where no entry is left there is nothing to cut, whatever size the host reads. -/
lemma page_nothing {run : WasmRun} (hk : entries.length ≤ k) (bufLen : ℤ) : page run entries bufLen k = (run,.wrote []) := by
  have hslice : sliceTo [] bufLen = [] := by
    rw [sliceTo]
    split_ifs <;> exact List.take_nil
  rw [page,range_nil (by omega),fill]
  simp only [hslice]

end Page

section Guest

variable {R : ℤ → EngineReaddir} {fd : ℤ} {fuel k size : ℕ} {sizes : List ℕ} {entries : List Entry}
  {D : Dict UInt64 ℕ} {run : WasmRun} {g : Guest}

/-- The guest has the first k entries and goes on after them. -/
structure Guest.At (fd : ℤ) (entries : List Entry) (D : Dict UInt64 ℕ) (run : WasmRun) (g : Guest) (k : ℕ) : Prop where
  cookie : g.cookie = .ofNat k
  count : g.received.length = k
  within : k ≤ entries.length
  kept : k ≠ 0 → run.listings.get fd = some entries
  numbers : observeAll run.inodes (entries.drop k) = D
  reading : g.ended = false
  well : g.failed = false

lemma bmod_small {n m : ℕ} (h : 2*n < m) : (n : ℤ).bmod m = n := by
  rw [Int.bmod_def,Int.emod_eq_of_lt (by omega) (by omega),if_pos (by omega)]

/-- One call: a page of the stream, and the guest goes on after the last whole entry of it. -/
lemma Guest.call_spec (h : g.At fd entries D run k) (hlist : listDirectory (R fd) fuel = some (.ok entries))
    (hfew : entries.length < 2^63) (hfine : ∀ d ∈ records D k (entries.drop k), d.Fine)
    (hsize : k < entries.length → size < 2^31) :
    ∃ run' cookie, g.call R fuel fd size run = some (run',⟨cookie,
        g.received++dirents.fitting (records D k (entries.drop k)) size,
        decide (((dirents.encAll (records D k (entries.drop k))).take size).length < size),false⟩)
      ∧ cookie = .ofNat (k+(dirents.fitting (records D k (entries.drop k)) size).length)
      ∧ run'.listings.get fd = some entries
      ∧ observeAll run'.inodes (entries.drop (k+(dirents.fitting (records D k (entries.drop k)) size).length)) = D := by
  have hcookie : ((g.cookie.toNat : ℕ) : ℤ).bmod (2^64) = k := by
    rw [h.cookie,UInt64.toNat_ofNat_of_lt' (show k < 2^64 by have := h.within; omega)]
    exact bmod_small (by have := h.within; omega)
  -- the listing is read again at cookie 0, and is the same
  have hanswer : ∀ bufLen : ℤ, ∃ listings, fdReaddir R fuel run fd bufLen k = some (page ⟨listings,run.inodes⟩ entries bufLen k)
      ∧ listings.get fd = some entries := by
    intro bufLen
    rw [fdReaddir]
    split_ifs with hnew
    · refine ⟨run.listings.set fd entries,?_,?_⟩
      · rw [hlist]
        rfl
      · rw [Dict.get_set,if_pos rfl]
    · have hk : k ≠ 0 := fun hk => hnew (Or.inl (by omega))
      refine ⟨run.listings,?_,h.kept hk⟩
      rw [h.kept hk]
      rfl
  obtain ⟨listings,hanswer,hget⟩ := hanswer ((size : ℤ).bmod (2^32))
  have hnumbers : observeAll (⟨listings,run.inodes⟩ : WasmRun).inodes (entries.drop k) = D := h.numbers
  have hpage : ∃ inodes, page ⟨listings,run.inodes⟩ entries ((size : ℤ).bmod (2^32)) k =
        (⟨listings,inodes⟩,.wrote ((dirents.encAll (records D k (entries.drop k))).take size))
      ∧ observeAll inodes (entries.drop (k+(dirents.fitting (records D k (entries.drop k)) size).length)) = D := by
    by_cases hleft : k < entries.length
    · have hsmall := hsize hleft
      have hbuf : (size : ℤ).bmod (2^32) = size := bmod_small (by omega)
      rw [hbuf]
      exact page_spec hnumbers
    · have hnone : entries.drop k = [] := List.drop_eq_nil_iff.mpr (by omega)
      refine ⟨run.inodes,?_,?_⟩
      · rw [page_nothing (by omega),hnone]
        exact congrArg (fun bytes => (_,ReaddirAnswer.wrote bytes)) List.take_nil.symm
      · have hnumbers := h.numbers
        rw [hnone] at hnumbers
        rwa [← List.drop_drop,hnone,List.drop_nil]
  obtain ⟨inodes,hpage,hD⟩ := hpage
  have hwhole := Format.readAll_take (F := dirents) hfine (n := size) le_rfl
  have hnext := records_next (Format.fitting_begins (F := dirents) (records D k (entries.drop k)) size)
  refine ⟨⟨listings,inodes⟩,_,?_,hnext,hget,hD⟩
  rw [Guest.call,h.reading,h.well,hcookie,hanswer,hpage]
  simp only [Bool.or_self,Bool.false_eq_true,if_false,Option.bind_eq_bind,Option.bind_some,hwhole,h.cookie]
  rfl

lemma Guest.calls_ended (h : g.ended = true) (sizes : List ℕ) : g.calls R fuel fd sizes run = some (run,g) := by
  induction sizes with
  | nil => rfl
  | cons size sizes ih =>
    rw [Guest.calls,Guest.call,h,Bool.true_or,if_pos rfl]
    exact ih

/-- All calls: the guest has what a reader of these pages of the stream has. -/
lemma Guest.calls_spec (h : g.At fd entries D run k) (hlist : listDirectory (R fd) fuel = some (.ok entries))
    (hfew : entries.length < 2^63) (hfine : ∀ d ∈ records D k (entries.drop k), d.Fine)
    (hsizes : ∀ before size after, sizes = before++size :: after → ∀ run' g', g.calls R fuel fd before run = some (run',g') →
      g'.received.length < entries.length → size < 2^31) :
    ∃ run' g', g.calls R fuel fd sizes run = some (run',g') ∧ g'.failed = false
      ∧ g'.received = g.received++(dirents.paged (records D k (entries.drop k)) sizes).1
      ∧ g'.ended = (dirents.paged (records D k (entries.drop k)) sizes).2 := by
  induction sizes generalizing run g k with
  | nil => exact ⟨run,g,rfl,h.well,(List.append_nil _).symm,h.reading⟩
  | cons size sizes ih =>
    have hsize : k < entries.length → size < 2^31 := fun hk =>
      hsizes [] size sizes rfl run g rfl (h.count.symm ▸ hk)
    obtain ⟨run',cookie,hcall,hcookie,hkept,hD⟩ := Guest.call_spec h hlist hfew hfine hsize
    have hlater : ∀ before, g.calls R fuel fd (size :: before) run = Guest.calls R fuel fd before run' _ := fun before => by
      rw [Guest.calls,hcall]
      rfl
    rw [Guest.calls,hcall,Format.paged]
    by_cases hshort : ((dirents.encAll (records D k (entries.drop k))).take size).length < size
    · rw [if_pos hshort,decide_eq_true hshort]
      exact ⟨run',_,Guest.calls_ended rfl sizes,rfl,rfl,rfl⟩
    · rw [if_neg hshort,decide_eq_false hshort]
      have hfit : (dirents.fitting (records D k (entries.drop k)) size).length ≤ entries.length-k := by
        have := (Format.fitting_begins (F := dirents) (records D k (entries.drop k)) size).length_le
        rwa [records_length,List.length_drop] at this
      have hwithin := h.within
      have hrest : (records D k (entries.drop k)).drop (dirents.fitting (records D k (entries.drop k)) size).length
          = records D (k+(dirents.fitting (records D k (entries.drop k)) size).length)
            (entries.drop (k+(dirents.fitting (records D k (entries.drop k)) size).length)) := by
        rw [records_drop,List.drop_drop]
      have hat := Guest.At.mk (g := ⟨cookie,g.received++dirents.fitting (records D k (entries.drop k)) size,false,false⟩)
        hcookie (by rw [List.length_append,h.count]) (by omega) (fun _ => hkept) hD rfl rfl
      obtain ⟨run'',g',hcalls,hwell,hreceived,hended⟩ :=
        ih hat (fun d hd => hfine d (List.mem_of_mem_drop (hrest ▸ hd))) fun before size' after hs run'' g'' hg =>
          hsizes (size :: before) size' after (congrArg _ hs) run'' g'' (by rw [hlater,decide_eq_false hshort]; exact hg)
      rw [hrest]
      exact ⟨run'',g',hcalls,hwell,hreceived.trans (List.append_assoc _ _ _),hended⟩

end Guest

section Directory

variable {R : ℤ → EngineReaddir} {listing : List Dirent} {entries es : List Entry} {D : Dict UInt64 ℕ} {i : ℕ}

lemma sortByName_perm (entries : List Entry) : (sortByName entries).Perm entries := List.perm_insertionSort _ _

lemma records_fine (h : ∀ e ∈ es, e.name.length < 2^32) : ∀ d ∈ records D i es, d.Fine := by
  induction es generalizing i with
  | nil => nofun
  | cons e es ih =>
    obtain ⟨he,hes⟩ := List.forall_mem_cons.mp h
    exact List.forall_mem_cons.mpr ⟨⟨rfl,he⟩,ih hes⟩

lemma records_shown : (records D i es).map (fun d => (d.name,d.type)) = es.map fun e => (e.name,e.filetype) := by
  induction es generalizing i with
  | nil => rfl
  | cons e es ih => exact congrArg (_ :: ·) ih

/-- Paging loses nothing: of an unchanging directory whose entries each fit in the host's buffer, the
host reads the whole listing, and a guest whose sizes are below 2^31 while an entry is left sees its
entries in name order, each once, and at the end has them all; calls with room for the next entry come
to the end. -/
theorem fdReaddir_pages (fd : ℤ) (hR : (R fd).Follows listing) {fuel : ℕ} (hfuel : listing.length < fuel)
    (hfits : ∀ d ∈ listing, d.bytes.length ≤ shimDirbufLen) (run : WasmRun) {sizes : List ℕ}
    (hsizes : ∀ before size after, sizes = before++size :: after → ∀ run' g,
      Guest.start.calls R fuel fd before run = some (run',g) → g.received.length < listing.length → size < 2^31) :
    ∃ entries shown run' g, listDirectory (R fd) fuel = some (.ok entries)
      ∧ entries.Perm (listing.map Dirent.entry) ∧ entries.Pairwise (fun e f => e.name ≤ f.name)
      ∧ shown.map (fun d => (d.name,d.type)) = entries.map (fun e => (e.name,e.filetype))
      ∧ Guest.start.calls R fuel fd sizes run = some (run',g) ∧ g.failed = false
      ∧ g.received <+: shown ∧ (g.ended = true → g.received = shown)
      ∧ (dirents.Roomy shown sizes → listing.length < sizes.length → g.ended = true) := by
  have hlist := listDirectory_spec hR hfuel
  rw [if_pos hfits] at hlist
  have hperm := sortByName_perm (listing.map Dirent.entry)
  generalize hentries : sortByName (listing.map Dirent.entry) = entries at hlist hperm
  have hlen : entries.length = listing.length := hperm.length_eq.trans (List.length_map _)
  have hnames : ∀ e ∈ entries, e.name.length < 2^32 := by
    intro e he
    obtain ⟨d,hd,rfl⟩ := List.mem_map.mp (hperm.subset he)
    exact (hR.fine d hd).2
  have hstart : Guest.start.At fd entries (observeAll run.inodes entries) run 0 :=
    ⟨rfl,rfl,Nat.zero_le _,fun h => absurd rfl h,rfl,rfl,rfl⟩
  obtain ⟨run',g,hcalls,hwell,hreceived,hended⟩ :=
    Guest.calls_spec hstart hlist (by have := hR.few; omega) (records_fine hnames) (hlen.symm ▸ hsizes)
  rw [List.drop_zero] at hreceived hended
  rw [show Guest.start.received = [] from rfl,List.nil_append] at hreceived
  refine ⟨entries,records (observeAll run.inodes entries) 0 entries,run',g,hlist,hperm,?_,records_shown,hcalls,hwell,?_,?_,?_⟩
  · rw [← hentries]
    exact List.pairwise_insertionSort _ _
  · rw [hreceived]
    exact Format.paged_begins _ _
  · intro h
    rw [hended] at h
    rw [hreceived,Format.paged_ended h]
  · intro hroom hmany
    rw [hended]
    exact Format.paged_enough hroom (by rw [records_length]; omega)

/-- The entries after this cookie. -/
def entriesAfter (cookie : UInt64) : List Dirent → List Dirent
  | [] => []
  | d :: ds => if d.next = cookie then ds else entriesAfter cookie ds

/-- An engine that has every directory hold these entries. -/
def listingEngine (listing : List Dirent) (_ : ℤ) : EngineReaddir := fun cookie n =>
  .ok ((dirents.encAll (if cookie = 0 then listing else entriesAfter cookie listing)).take n)

lemma entriesAfter_eq {seen rest : List Dirent} {d : Dirent} (h : d.next ∉ seen.map Dirent.next) :
    entriesAfter d.next (seen++d :: rest) = rest := by
  induction seen with
  | nil => rw [List.nil_append,entriesAfter,if_pos rfl]
  | cons e seen ih =>
    rw [List.map_cons,List.mem_cons,not_or] at h
    rw [List.cons_append,entriesAfter,if_neg (Ne.symm h.1),ih h.2]

/-- Any listing can be had: its cookies have to differ, and 0 is the start. -/
lemma listingEngine_follows (hfine : ∀ d ∈ listing, d.Fine) (hcookies : ((0 : UInt64) :: listing.map Dirent.next).Nodup)
    (hfew : listing.length < 2^63) (fd : ℤ) : (listingEngine listing fd).Follows listing where
  fine := hfine
  start n := rfl
  resume := by
    rintro seen d rest rfl n
    rw [List.nodup_cons,List.map_append,List.map_cons,List.nodup_append] at hcookies
    obtain ⟨hzero,-,-,hdiffer⟩ := hcookies
    have hne : d.next ≠ 0 := fun h => hzero (List.mem_append_right _ (h ▸ List.mem_cons_self))
    have hseen : d.next ∉ seen.map Dirent.next := fun h => hdiffer _ h _ List.mem_cons_self rfl
    rw [listingEngine,if_neg hne,entriesAfter_eq hseen]
  few := hfew

/-- Two entries, not in name order. -/
def twoEntries : List Dirent := [⟨1,70,4,[0,0,0],[98]⟩,⟨2,71,4,[0,0,0],[97]⟩]

lemma twoEntries_follows (fd : ℤ) : (listingEngine twoEntries fd).Follows twoEntries :=
  listingEngine_follows (by decide +kernel) (by decide +kernel) (by decide) fd

lemma twoEntries_received : (Guest.start.calls (listingEngine twoEntries) 3 3 [30,25] ⟨[],[]⟩).map
    (fun p => p.2.received.length) = some 2 := by
  decide +kernel

/-- A page with room for an entry and a part of the next one, a page of just the next one, and a size
that is too large but comes after the last entry. -/
theorem fdReaddir_pages_two :
    (listingEngine twoEntries 3).Follows twoEntries ∧ twoEntries.length < 3
    ∧ (∀ d ∈ twoEntries, d.bytes.length ≤ shimDirbufLen)
    ∧ ∃ entries shown run' g, listDirectory (listingEngine twoEntries 3) 3 = some (.ok entries)
      ∧ entries.Perm (twoEntries.map Dirent.entry) ∧ entries.Pairwise (fun e f => e.name ≤ f.name)
      ∧ shown.map (fun d => (d.name,d.type)) = entries.map (fun e => (e.name,e.filetype))
      ∧ Guest.start.calls (listingEngine twoEntries) 3 3 [30,25,2^31] ⟨[],[]⟩ = some (run',g) ∧ g.failed = false
      ∧ g.received <+: shown ∧ (g.ended = true → g.received = shown)
      ∧ (dirents.Roomy shown [30,25,2^31] → twoEntries.length < 3 → g.ended = true) := by
  refine ⟨twoEntries_follows 3,by decide,by decide +kernel,
    fdReaddir_pages 3 (twoEntries_follows 3) (by decide) (by decide +kernel) ⟨[],[]⟩ ?_⟩
  intro before size after hs run' g hcalls hleft
  rcases before with _ | ⟨a,_ | ⟨b,_ | ⟨c,more⟩⟩⟩
  · obtain ⟨rfl,-⟩ := List.cons.inj hs
    omega
  · obtain ⟨-,hrest⟩ := List.cons.inj hs
    obtain ⟨rfl,-⟩ := List.cons.inj hrest
    omega
  · obtain ⟨rfl,hrest⟩ := List.cons.inj hs
    obtain ⟨rfl,-⟩ := List.cons.inj hrest
    -- both entries have been received: the condition asks nothing of this size
    have hmap := twoEntries_received
    rw [hcalls] at hmap
    have htwo : g.received.length = 2 := Option.some.inj hmap
    exact absurd hleft (by rw [htwo]; decide)
  · have hlen := congrArg List.length hs
    simp only [List.length_cons,List.length_append,List.length_nil] at hlen
    omega

/-- A size from 2^31 on is below zero for the host: the guest gets nothing and is at the end. -/
theorem fdReaddir_lost :
    (listingEngine twoEntries 3).Follows twoEntries ∧ (∀ d ∈ twoEntries, d.bytes.length ≤ 2^31)
    ∧ (Guest.start.calls (listingEngine twoEntries) 3 3 [2^31] ⟨[],[]⟩).map (fun p => (p.2.received.length,p.2.ended,p.2.failed))
      = some (0,true,false) :=
  ⟨twoEntries_follows 3,by decide +kernel,by decide +kernel⟩

end Directory

end Stele
