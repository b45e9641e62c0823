import Stele.Lib.Dict
import Stele.Lib.Records
import Stele.Python.Text
import Mathlib.Data.Int.Range
import Mathlib.Data.List.Sort
import Mathlib.Data.UInt

/-! fd_readdir for a guest: the host reads the whole listing through the engine's own fd_readdir, sorts
it by name, and hands it to the guest in pages of the guest's sizes. -/
namespace Stele
open Python

/-- The k low bytes of n, the lowest first. -/
def leBytes : ℕ → ℕ → Bytes
  | 0,_ => []
  | k+1,n => UInt8.ofNat n :: leBytes k (n/256)

/-- The number that bytes stand for, the lowest first. -/
def leNat : Bytes → ℕ
  | [] => 0
  | b :: s => b.toNat+256*leNat s

/-- One directory entry of WASI: struct "<QQIB", three bytes of padding, the name. -/
structure Dirent where
  next : UInt64
  ino : UInt64
  type : UInt8
  padding : Bytes
  name : Bytes

/-- _DIRENT_HEADER. -/
def direntHeader : ℕ := 24

/-- The first k bytes and what follows them. -/
def cut (k : ℕ) (s : Bytes) : Option (Bytes × Bytes) := if k ≤ s.length then some (s.take k,s.drop k) else none

namespace Dirent

/-- struct.pack of the header, and the name. -/
def bytes (d : Dirent) : Bytes :=
  leBytes 8 d.next.toNat++(leBytes 8 d.ino.toNat++(leBytes 4 d.name.length++([d.type]++(d.padding++d.name))))

/-- What an entry's fields hold. -/
def Fine (d : Dirent) : Prop := d.padding.length = 3 ∧ d.name.length < 2^32

instance (d : Dirent) : Decidable d.Fine := inferInstanceAs (Decidable (_ ∧ _))

/-- struct.unpack_from of a header and the name after it, if both end within the page. -/
def read (s : Bytes) : Option (Dirent × Bytes) := do
  let (next,s) ← cut 8 s
  let (ino,s) ← cut 8 s
  let (namlen,s) ← cut 4 s
  let (type,s) ← cut 1 s
  let (padding,s) ← cut 3 s
  let (name,s) ← cut (leNat namlen) s
  return (⟨.ofNat (leNat next),.ofNat (leNat ino),type.headD 0,padding,name⟩,s)

end Dirent

section Bytes

variable {k n : ℕ} {s a r t : Bytes} {d : Dirent}

@[simp] lemma leBytes_length (k n : ℕ) : (leBytes k n).length = k := by
  induction k generalizing n with
  | zero => rfl
  | succ k ih => rw [leBytes,List.length_cons,ih]

lemma leNat_leBytes (h : n < 256^k) : leNat (leBytes k n) = n := by
  induction k generalizing n with
  | zero =>
    rw [Nat.pow_zero,Nat.lt_one_iff] at h
    rw [h]
    rfl
  | succ k ih =>
    rw [leBytes,leNat,ih (Nat.div_lt_of_lt_mul (by rwa [Nat.pow_succ,Nat.mul_comm] at h))]
    have hb : (UInt8.ofNat n).toNat = n%256 := by simp
    rw [hb]
    exact Nat.mod_add_div n 256

lemma cut_append (h : a.length = k) (r : Bytes) : cut k (a++r) = some (a,r) := by
  rw [cut,if_pos (by rw [List.length_append]; omega),← h,List.take_left,List.drop_left]

lemma cut_more (h : cut k s = some (a,r)) (t : Bytes) : cut k (s++t) = some (a,r++t) := by
  unfold cut at h
  split_ifs at h with hk
  obtain ⟨rfl,rfl⟩ := Prod.mk.inj (Option.some.inj h)
  rw [cut,if_pos (by rw [List.length_append]; omega),List.take_append_of_le_length hk,List.drop_append_of_le_length hk]

namespace Dirent

lemma read_bytes (hd : d.Fine) (r : Bytes) : read (d.bytes++r) = some (d,r) := by
  obtain ⟨next,ino,type,padding,name⟩ := d
  have hnext : leNat (leBytes 8 next.toNat) = next.toNat := leNat_leBytes next.toNat_lt
  have hino : leNat (leBytes 8 ino.toNat) = ino.toNat := leNat_leBytes ino.toNat_lt
  have hname : leNat (leBytes 4 name.length) = name.length := leNat_leBytes hd.2
  simp only [read,bytes,List.append_assoc,cut_append (leBytes_length _ _),cut_append (List.length_singleton),
    cut_append hd.1,hname,cut_append rfl,Option.bind_eq_bind,Option.bind_some,hnext,hino]
  simp

lemma read_more (h : read s = some (d,r)) (t : Bytes) : read (s++t) = some (d,r++t) := by
  simp only [read,Option.bind_eq_bind,Option.bind_eq_some_iff] at h ⊢
  obtain ⟨⟨a,s₁⟩,h₁,⟨b,s₂⟩,h₂,⟨c,s₃⟩,h₃,⟨e,s₄⟩,h₄,⟨f,s₅⟩,h₅,⟨g,s₆⟩,h₆,h⟩ := h
  refine ⟨_,cut_more h₁ t,_,cut_more h₂ t,_,cut_more h₃ t,_,cut_more h₄ t,_,cut_more h₅ t,_,cut_more h₆ t,?_⟩
  obtain ⟨rfl,rfl⟩ := Prod.mk.inj (Option.some.inj h)
  rfl

end Dirent

end Bytes

/-- Directory entries one after the other. -/
def dirents : Records.Format Dirent UInt8 where
  enc := Dirent.bytes
  dec := Dirent.read
  Fine := Dirent.Fine
  enc_ne d h := by
    have := congrArg List.length h
    simp [Dirent.bytes] at this
  dec_enc hd := Dirent.read_bytes hd
  dec_more := Dirent.read_more
  dec_nil := rfl

/-- A directory entry as the host keeps it. -/
structure Entry where
  name : Bytes
  filetype : UInt8
  realIno : UInt64

def Dirent.entry (d : Dirent) : Entry := ⟨d.name,d.type,d.ino⟩

/-- The engine's own fd_readdir on one directory, from a cookie into a buffer of this size: an errno,
or the bytes it writes. -/
abbrev EngineReaddir := UInt64 → ℕ → Except ℕ Bytes

/-- What WASI says of it while the directory does not change: the entries after the cookie in a fixed
order, cut where the buffer ends. -/
structure EngineReaddir.Follows (R : EngineReaddir) (listing : List Dirent) : Prop where
  fine : ∀ d ∈ listing, d.Fine
  start : ∀ n, R 0 n = .ok ((dirents.encAll listing).take n)
  resume : ∀ {seen d rest}, listing = seen++d :: rest → ∀ n, R d.next n = .ok ((dirents.encAll rest).take n)
  /-- A Python list has fewer than 2^63 items. -/
  few : listing.length < 2^63

/-- _SHIM_DIRBUF_LEN, _EFAULT and _EOVERFLOW. -/
def shimDirbufLen : ℕ := 65536
def eFault : ℕ := 21
def eOverflow : ℕ := 61

/-- entries.sort(key=lambda entry: entry[0]). -/
def sortByName (entries : List Entry) : List Entry := entries.insertionSort fun a b => a.name ≤ b.name

/-- The loop of _list_directory, by less than so many turns. -/
def listLoop (R : EngineReaddir) : ℕ → UInt64 → List Entry → Option (Except ℕ (List Entry))
  | 0,_,_ => none
  | k+1,cookie,entries => match R cookie shimDirbufLen with
    | .error errno => some (.error errno)
    | .ok raw =>
      let whole := dirents.readAll raw.length raw
      if raw.length < shimDirbufLen then some (.ok (sortByName (entries++whole.map Dirent.entry)))
      else match whole.getLast? with
        | none => some (.error eOverflow)
        | some d => listLoop R k d.next (entries++whole.map Dirent.entry)

/-- Every entry of a directory, sorted by name. -/
def listDirectory (R : EngineReaddir) (fuel : ℕ) : Option (Except ℕ (List Entry)) := listLoop R fuel 0 []

/-- What a run keeps: the listing of each descriptor, and the inode numbers it has given. -/
structure WasmRun where
  listings : Dict ℤ (List Entry)
  inodes : Dict UInt64 ℕ

/-- inodes.setdefault(real, len(inodes)+1). -/
def observe (inodes : Dict UInt64 ℕ) (real : UInt64) : Dict UInt64 ℕ := inodes.setDefault real (inodes.length+1)

/-- struct.pack("<QQIB3x", index+1, inode, len(name), filetype), and the name. An index and an inode
number count the items of a list or a dict, so they fit if the index is not below zero. -/
def record (inodes : Dict UInt64 ℕ) (next : ℕ) (e : Entry) : Dirent :=
  ⟨.ofNat next,.ofNat ((inodes.get e.realIno).getD 0),e.filetype,[0,0,0],e.name⟩

/-- What ends a call of fd_readdir early: an index outside the listing, a cookie that does not fit. -/
inductive ReaddirStop
  | indexError
  | structError

/-- entries[i]. -/
def entryAt (entries : List Entry) (i : ℤ) : Option Entry :=
  if 0 ≤ i then entries[i.toNat]? else if -i ≤ entries.length then entries[(entries.length+i).toNat]? else none

/-- The loop of _fd_readdir over these indices. -/
def fill (entries : List Entry) (bufLen : ℤ) :
    List ℤ → Dict UInt64 ℕ → Bytes → Dict UInt64 ℕ × Except ReaddirStop Bytes
  | [],inodes,out => (inodes,.ok out)
  | index :: is,inodes,out =>
    if bufLen ≤ out.length then (inodes,.ok out)
    else match entryAt entries index with
      | none => (inodes,.error .indexError)
      | some e =>
        if index+1 < 0 then (observe inodes e.realIno,.error .structError)
        else fill entries bufLen is (observe inodes e.realIno)
          (out++(record (observe inodes e.realIno) (index+1).toNat e).bytes)

/-- out[:bufLen]. -/
def sliceTo (out : Bytes) (bufLen : ℤ) : Bytes :=
  if 0 ≤ bufLen then out.take bufLen.toNat else out.take (out.length+bufLen).toNat

/-- What fd_readdir tells the guest: an errno, or what it wrote. -/
inductive ReaddirAnswer
  | errno (code : ℕ)
  | wrote (bytes : Bytes)
  | traps

/-- The entries from the cookie on, in the guest's buffer. -/
def page (run : WasmRun) (entries : List Entry) (bufLen cookie : ℤ) : WasmRun × ReaddirAnswer :=
  match fill entries bufLen (Int.range cookie entries.length) run.inodes [] with
  | (inodes,.ok out) => ({ run with inodes := inodes },.wrote (sliceTo out bufLen))
  | (inodes,.error .indexError) => ({ run with inodes := inodes },.errno eFault)
  | (inodes,.error .structError) => ({ run with inodes := inodes },.traps)

/-- _fd_readdir under _guarded. -/
def fdReaddir (R : ℤ → EngineReaddir) (fuel : ℕ) (run : WasmRun) (fd bufLen cookie : ℤ) :
    Option (WasmRun × ReaddirAnswer) :=
  if cookie = 0 ∨ fd ∉ run.listings.keys then do
    match ← listDirectory (R fd) fuel with
    | .error errno => return (run,.errno errno)
    | .ok entries => return page { run with listings := run.listings.set fd entries } entries bufLen cookie
  else return page run ((run.listings.get fd).getD []) bufLen cookie

/-- A guest that reads a directory. -/
structure Guest where
  cookie : UInt64
  received : List Dirent
  ended : Bool
  failed : Bool

def Guest.start : Guest := ⟨0,[],false,false⟩

/-- The guest's next call, with a buffer of this size: it takes the whole entries, goes on after the
last of them, and is at the end when the buffer is not full. The engine hands an i32 and an i64 to the
host as signed numbers. -/
def Guest.call (R : ℤ → EngineReaddir) (fuel : ℕ) (fd : ℤ) (size : ℕ) (run : WasmRun) (g : Guest) :
    Option (WasmRun × Guest) :=
  if g.ended || g.failed then some (run,g)
  else do
    let (run,answer) ← fdReaddir R fuel run fd ((size : ℤ).bmod (2^32)) ((g.cookie.toNat : ℤ).bmod (2^64))
    match answer with
    | .wrote bytes =>
      let whole := dirents.readAll bytes.length bytes
      return (run,⟨((whole.getLast?).map Dirent.next).getD g.cookie,g.received++whole,decide (bytes.length < size),false⟩)
    | _ => return (run,{ g with failed := true })

/-- The guest's calls with buffers of these sizes. -/
def Guest.calls (R : ℤ → EngineReaddir) (fuel : ℕ) (fd : ℤ) : List ℕ → WasmRun → Guest → Option (WasmRun × Guest)
  | [],run,g => some (run,g)
  | size :: sizes,run,g => do
    let (run,g) ← Guest.call R fuel fd size run g
    Guest.calls R fuel fd sizes run g

end Stele
