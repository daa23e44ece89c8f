/-
  Listpacks (`DecodeBackLen`, `ReadListPackEntry` and `ReadListPackAll` in
  `src/redis_rdb_restore.cpp`).

  Behind the data of an element stands their length for a reader who comes from behind: the byte
  next to the following element holds the lowest seven bits, and a set high bit means that there
  are more bytes in front.  The decoder reads it from the front, lowest group first, and takes a
  set high bit to mean that there are more bytes behind.
-/
import EloqKV.Rdb.Reader

open List hiding Cursor

namespace EloqKV.Rdb

open Lib.Endian

open Lib.Endian (le ofLe toSigned ofSigned)
open Lib.Reader (Cursor Outcome Read)
open Lib.Reader.Read

/-! ## The decoder -/

/-- The loop of `DecodeBackLen`.  A group that is shifted out of a `size_t` is noted. -/
def backLenLoop : Nat → Nat → Nat → Read Nat
  | 0, _, _ => fault
  | rounds + 1, shift, value => do
    check (shift < 64)
    let cur ← nextByte
    let group := cur.toNat % 128 * 2 ^ shift
    note (decide (2 ^ 64 ≤ group))
    let value := value ||| group % 2 ^ 64
    if cur.toNat / 128 = 0 then pure value else backLenLoop rounds (shift + 7) value

/-- `DecodeBackLen`; the pointer moves by the number of bytes it returns. -/
def decodeBackLen : Read Nat := backLenLoop 11 0 0

/-- The encodings of `ReadListPackEntry`, behind the first byte. -/
def readListPackValue (first : UInt8) : Read Bytes :=
  if first.toNat / 128 = 0 then pure (int64ToString (first.toNat % 128 : Nat))
  else if first.toNat / 64 = 2 then nextBlock (first.toNat % 64)
  else if first.toNat / 32 = 6 then do
    let next ← nextByte
    pure (int64ToString (signExtend (first.toNat % 32 * 256 + next.toNat) 13))
  else if first.toNat / 16 = 14 then do
    let next ← nextByte
    nextBlock (first.toNat % 16 * 256 + next.toNat)
  else if first = 0xF0 then do
    let len ← readLE 4
    nextBlock len
  else if first = 0xF1 then readIntText 2
  else if first = 0xF2 then readInt24Text
  else if first = 0xF3 then readIntText 4
  else if first = 0xF4 then readIntText 8
  else fail

/-- The part of `ReadListPackEntry` in front of the back length. -/
def readListPackData : Read Bytes := do
  let first ← nextByte
  check (first ≠ 0xFF)
  readListPackValue first

def readListPackEntry : Read Bytes := do
  let entryStart ← remaining
  let value ← readListPackData
  let here ← remaining
  let backLen ← decodeBackLen
  check (backLen = entryStart - here)
  pure value

/-- The part of `ReadListPackAll` behind the header. -/
def readListPackBody (count : Nat) : Read (List Bytes) := do
  let entries ← whileNot 0xFF readListPackEntry
  let last ← nextByte
  check (last = 0xFF)
  let left ← remaining
  check (left = 0)
  check (count = 0xFFFF ∨ count = entries.length)
  pure entries

/-- `ReadListPackAll` on a cursor at the start of the blob. -/
def readListPack : Read (List Bytes) := do
  let size ← remaining
  check (7 ≤ size)
  let totalBytes ← copyLE 4
  let count ← copyLE 2
  check (totalBytes = size)
  readListPackBody count

/-- `ReadListPackAll`: the entries, if it returns true. -/
def readListPackAll (blob : Bytes) : Outcome (List Bytes) := (readListPack (.at blob)).1

/-! ## The format -/

/-- The widths of the numbers that have a tag of their own. -/
inductive IntWidth where
  | two
  | three
  | four
  | eight
  deriving DecidableEq, Repr

namespace IntWidth

def bytes : IntWidth → Nat
  | two => 2
  | three => 3
  | four => 4
  | eight => 8

def tag : IntWidth → UInt8
  | two => 0xF1
  | three => 0xF2
  | four => 0xF3
  | eight => 0xF4

end IntWidth

/-- An element in one of its encodings. -/
inductive Element where
  | uint7 (n : Nat) (hn : n < 2 ^ 7)
  | str6 (s : Bytes) (hs : s.length < 2 ^ 6)
  | int13 (i : Int) (hi : -2 ^ 12 ≤ i ∧ i < 2 ^ 12)
  | str12 (s : Bytes) (hs : s.length < 2 ^ 12)
  | str32 (s : Bytes) (hs : s.length < 2 ^ 32)
  | int (width : IntWidth) (i : Int)
      (hi : -2 ^ (8 * width.bytes - 1) ≤ i ∧ i < 2 ^ (8 * width.bytes - 1))

open Element

namespace Element

def value : Element → Bytes
  | uint7 n _ => int64ToString n
  | str6 s _ | str12 s _ | str32 s _ => s
  | int13 i _ | int _ i _ => int64ToString i

def data : Element → Bytes
  | uint7 n _ => [UInt8.ofNat n]
  | str6 s _ => UInt8.ofNat (128 + s.length) :: s
  | int13 i _ => [UInt8.ofNat (192 + ofSigned 13 i / 256), UInt8.ofNat (ofSigned 13 i % 256)]
  | str12 s _ => UInt8.ofNat (224 + s.length / 256) :: UInt8.ofNat (s.length % 256) :: s
  | str32 s _ => 0xF0 :: (le 4 s.length ++ s)
  | int width i _ => width.tag :: le width.bytes (ofSigned (8 * width.bytes) i)

end Element

def backLenWidth (len : Nat) : Nat :=
  if len ≤ 127 then 1
  else if len < 16383 then 2
  else if len < 2097151 then 3
  else if len < 268435455 then 4
  else 5

/-- `groups` groups of seven bits below the highest one, marked as continuing to the front. -/
def lowGroups (len : Nat) : Nat → Bytes
  | 0 => []
  | groups + 1 => UInt8.ofNat (128 + len / 128 ^ groups % 128) :: lowGroups len groups

/-- The back length as Redis writes it: the highest group first, without a mark. -/
def encodeBackLen (len : Nat) : Bytes :=
  UInt8.ofNat (len / 128 ^ (backLenWidth len - 1)) :: lowGroups len (backLenWidth len - 1)

def Element.encode (e : Element) : Bytes := e.data ++ encodeBackLen e.data.length

/-- A listpack: its size fits the four bytes of the header. -/
structure ListPack where
  elements : List Element
  fits : 6 + (elements.flatMap encode).length + 1 < 2 ^ 32

namespace ListPack

/-- The number of elements in the header; one that does not fit is given as unknown. -/
def numElements (lp : ListPack) : Nat := min lp.elements.length 0xFFFF

def blob (lp : ListPack) : Bytes :=
  le 4 (6 + (lp.elements.flatMap encode).length + 1) ++ (le 2 lp.numElements ++
    (lp.elements.flatMap encode ++ [0xFF]))

/-- The decoder succeeds and returns the strings of the elements. -/
def ReadBack (lp : ListPack) : Prop := readListPackAll lp.blob = .ok (lp.elements.map value)

end ListPack

/-! ## The data of an element -/

namespace Element

/-- An element is told by its first byte, and none begins like the end mark. -/
theorem data_cons (e : Element) : ∃ first tail, e.data = first :: tail ∧ first ≠ 0xFF ∧
    Parses (readListPackValue first) tail e.value := by
  have hne : ∀ {n : Nat}, n < 255 → UInt8.ofNat n ≠ 0xFF := by
    intro n hn h
    have := congrArg UInt8.toNat h
    rw [toNat_ofNat_of_lt (by omega)] at this
    exact absurd this (Nat.ne_of_lt hn)
  cases e with
  | uint7 n hn =>
    have hfirst := toNat_ofNat_of_lt (show n < 256 by omega)
    refine ⟨_, _, rfl, hne (by omega), ?_⟩
    rw [readListPackValue, hfirst, if_pos (by omega), show n % 128 = n by omega]
    exact parses_pure _
  | str6 s hs =>
    have hfirst := toNat_ofNat_of_lt (show 128 + s.length < 256 by omega)
    refine ⟨_, _, rfl, hne (by omega), ?_⟩
    rw [readListPackValue, if_neg (by omega), if_pos (by omega)]
    exact parses_nextBlock (by omega)
  | int13 i hi =>
    have hlt := ofSigned_lt 13 i
    have hfirst := toNat_ofNat_of_lt (show 192 + ofSigned 13 i / 256 < 256 by omega)
    have hnext := toNat_ofNat_of_lt (show ofSigned 13 i % 256 < 256 by omega)
    refine ⟨_, _, rfl, hne (by omega), ?_⟩
    rw [readListPackValue, hfirst, if_neg (by omega), if_neg (by omega), if_pos (by omega)]
    have h := (parses_nextByte (UInt8.ofNat (ofSigned 13 i % 256))).map fun next =>
      int64ToString (signExtend ((192 + ofSigned 13 i / 256) % 32 * 256 + next.toNat) 13)
    rw [hnext, show (192 + ofSigned 13 i / 256) % 32 * 256 + ofSigned 13 i % 256
        = ofSigned 13 i by omega, signExtend_eq (by decide) (by decide) hlt,
      toSigned_ofSigned (by decide) hi.1 hi.2] at h
    exact h
  | str12 s hs =>
    have hfirst := toNat_ofNat_of_lt (show 224 + s.length / 256 < 256 by omega)
    have hnext := toNat_ofNat_of_lt (show s.length % 256 < 256 by omega)
    refine ⟨_, _, rfl, hne (by omega), ?_⟩
    rw [readListPackValue, if_neg (by omega), if_neg (by omega), if_neg (by omega),
      if_pos (by omega)]
    refine (parses_nextByte (UInt8.ofNat (s.length % 256))).bind (parses_nextBlock ?_)
    omega
  | str32 s hs =>
    refine ⟨_, _, rfl, by decide, ?_⟩
    exact (parses_readLE (w := 4) (by omega)).bind (parses_nextBlock rfl)
  | int width i hi =>
    have hread := parses_readIntText_le (w := width.bytes) (by cases width <;> decide) hi
    cases width with
    | two => exact ⟨_, _, rfl, by decide, hread⟩
    | three =>
      have hread24 : Parses readInt24Text _ _ := readInt24Text_eq ▸ hread
      exact ⟨_, _, rfl, by decide, hread24⟩
    | _ => exact ⟨_, _, rfl, by decide, hread⟩

lemma length_data_lt (e : Element) : e.data.length < 2 ^ 32 + 5 := by
  cases e with
  | uint7 n hn => simp [data]
  | str6 s hs => simp [data]; omega
  | int13 i hi => simp [data]
  | str12 s hs => simp [data]; omega
  | str32 s hs => simp [data]; omega
  | int width i hi => cases width <;> simp [data, IntWidth.bytes]

end Element

lemma parses_readListPackData (e : Element) : Parses readListPackData e.data e.value := by
  obtain ⟨first, tail, hdata, hfirst, hvalue⟩ := e.data_cons
  intro rest o
  rw [hdata, cons_append, readListPackData, nextByte_bind, check_bind hfirst, hvalue rest o]

/-! ## Back lengths -/

lemma decodeBackLen_unmarked {b : UInt8} (hb : b.toNat < 128) (rest : Bytes) (o : Bool) :
    decodeBackLen ⟨b :: rest, o⟩ = (.ok b.toNat, ⟨rest, o⟩) := by
  have hgroup : b.toNat % 128 * 2 ^ 0 = b.toNat := by omega
  rw [decodeBackLen, backLenLoop, check_bind (by decide), nextByte_bind]
  simp only [hgroup]
  rw [note_bind_false (by omega), if_pos (by omega), pure_run,
    Nat.zero_or, Nat.mod_eq_of_lt (by omega)]

lemma encodeBackLen_cons {len : Nat} (hlen : len < 2 ^ 32 + 5) : ∃ b tail,
    encodeBackLen len = b :: tail ∧ b.toNat < 128 ∧ (len ≤ 127 → b.toNat = len ∧ tail = []) ∧
      (127 < len → b.toNat ≠ len) := by
  refine ⟨_, _, rfl, ?_⟩
  unfold backLenWidth
  split_ifs with h1 h2 h3 h4
  · simp [lowGroups]
    omega
  · rw [toNat_ofNat_of_lt (by omega)]
    omega
  · rw [toNat_ofNat_of_lt (by omega)]
    omega
  · rw [toNat_ofNat_of_lt (by omega)]
    omega
  · rw [toNat_ofNat_of_lt (by omega)]
    omega

/-! ## Entries -/

lemma readListPackEntry_run (e : Element) {back rest : Bytes} {n : Nat} {o o' : Bool}
    (hback : decodeBackLen ⟨back ++ rest, o⟩ = (.ok n, ⟨rest, o'⟩)) :
    readListPackEntry ⟨e.data ++ (back ++ rest), o⟩
      = if n = e.data.length then (.ok e.value, ⟨rest, o'⟩) else (.fail, ⟨rest, o'⟩) := by
  have hlen : (e.data ++ (back ++ rest)).length - (back ++ rest).length = e.data.length := by
    rw [length_append, Nat.add_sub_cancel]
  rw [readListPackEntry, remaining_bind,
    (parses_readListPackData e).bind_run, remaining_bind, bind_of_ok hback]
  by_cases hn : n = e.data.length
  · rw [check_bind (hn.trans hlen.symm), pure_run, if_pos hn]
  · rw [check_bind_false (fun h => hn (h.trans hlen)), if_neg hn]

lemma parses_readListPackEntry {e : Element} (he : e.data.length ≤ 127) :
    Parses readListPackEntry e.encode e.value := by
  obtain ⟨b, tail, hback, hb, hsmall, -⟩ := encodeBackLen_cons e.length_data_lt
  obtain ⟨heq, rfl⟩ := hsmall he
  intro rest o
  rw [encode, hback, append_assoc,
    readListPackEntry_run e (decodeBackLen_unmarked hb rest o), if_pos heq]

lemma readListPackEntry_fail {e : Element} (he : 127 < e.data.length) (rest : Bytes)
    (o : Bool) : ∃ c, readListPackEntry ⟨e.encode ++ rest, o⟩ = (.fail, c) := by
  obtain ⟨b, tail, hback, hb, -, hlarge⟩ := encodeBackLen_cons e.length_data_lt
  refine ⟨⟨tail ++ rest, o⟩, ?_⟩
  rw [encode, hback, append_assoc, cons_append, ← singleton_append,
    readListPackEntry_run e (decodeBackLen_unmarked hb (tail ++ rest) o), if_neg (hlarge he)]

lemma Element.encode_cons (e : Element) : ∃ b tail, e.encode = b :: tail ∧ b ≠ 0xFF := by
  obtain ⟨first, tail, hdata, hfirst, -⟩ := e.data_cons
  exact ⟨first, tail ++ encodeBackLen e.data.length, by rw [encode, hdata, cons_append], hfirst⟩

/-! ## Whole listpacks -/

lemma readListPack_header {size count : Nat} {body : Bytes} (hsize : size = 6 + body.length)
    (hbody : 0 < body.length) (hfits : size < 2 ^ 32) (hcount : count < 2 ^ 16) (o : Bool) :
    readListPack ⟨le 4 size ++ (le 2 count ++ body), o⟩ = readListPackBody count ⟨body, o⟩ := by
  have hlen : (le 4 size ++ (le 2 count ++ body)).length = size := by
    simp only [length_append, length_le]
    omega
  rw [readListPack, remaining_bind, check_bind (by omega), (parses_copyLE (by omega)).bind_run,
    (parses_copyLE (by omega)).bind_run, check_bind hlen.symm]

lemma readListPackAll_blob (lp : ListPack) :
    readListPackAll lp.blob = (readListPackBody lp.numElements
      ⟨lp.elements.flatMap encode ++ [0xFF], false⟩).1 := by
  have hcount : lp.numElements < 2 ^ 16 := by
    unfold ListPack.numElements
    omega
  rw [readListPackAll, ListPack.blob, Lib.Reader.Cursor.at,
    readListPack_header (by simp; omega) (by simp)
    lp.fits hcount]

lemma readListPackAll_of_long {lp : ListPack}
    (hlong : ∃ e ∈ lp.elements, 127 < e.data.length) : readListPackAll lp.blob = .fail := by
  -- the first of them is where the loop ends
  obtain ⟨e, hfind⟩ : ∃ e, lp.elements.find? (fun e => 127 < e.data.length) = some e := by
    rw [← Option.isSome_iff_exists, List.find?_isSome]
    simpa using hlong
  obtain ⟨hbad, pre, post, hsplit, hpre⟩ := List.find?_eq_some_iff_append.mp hfind
  obtain ⟨b, tail, hb, hne⟩ := e.encode_cons
  obtain ⟨c, hfail⟩ := readListPackEntry_fail (by simpa using hbad)
    (post.flatMap encode ++ [0xFF]) false
  rw [hb, cons_append] at hfail
  have hloop := whileNot_fail pre (fun e he => parses_readListPackEntry (by simpa using hpre e he))
    (fun e _ => e.encode_cons) hne hfail
  rw [readListPackAll_blob, readListPackBody, hsplit, flatMap_append, flatMap_cons,
    append_assoc, append_assoc, hb, cons_append, bind_of_fail hloop]

/-- **A listpack is read back exactly if none of its elements takes more than 127 bytes**; with
such an element in it, it is refused as a whole. -/
theorem readBack_iff (lp : ListPack) : lp.ReadBack ↔ ∀ e ∈ lp.elements, e.data.length ≤ 127 := by
  constructor
  · intro hread
    by_contra hlong
    push Not at hlong
    exact nomatch (readListPackAll_of_long hlong).symm.trans hread
  · intro hshort
    have hcount : lp.numElements = 0xFFFF ∨
        lp.numElements = (lp.elements.map value).length := by
      rw [length_map, ListPack.numElements]
      omega
    rw [ListPack.ReadBack, readListPackAll_blob, readListPackBody,
      bind_of_ok (whileNot_mark lp.elements (fun e he => parses_readListPackEntry (hshort e he))
      (fun e _ => e.encode_cons) [] false), nextByte_bind,
      check_bind rfl, remaining_bind,
      check_bind length_nil, check_bind hcount, pure_run]

/-- A string of 126 bytes in the encoding with a twelve-bit length takes 128 bytes. -/
theorem long_element_refused :
    let lp : ListPack := ⟨[.str12 (List.replicate 126 97) (by simp)], by decide +kernel⟩
    readListPackAll lp.blob = .fail ∧ ¬lp.ReadBack := by
  intro lp
  have hlong : 127 < (str12 (List.replicate 126 97) (by simp)).data.length := by
    rw [data]
    simp
  have hfail : readListPackAll lp.blob = .fail :=
    readListPackAll_of_long ⟨_, mem_singleton_self _, hlong⟩
  exact ⟨hfail, fun h => nomatch hfail.symm.trans h⟩

/-! ## What the decoder accepts, and where it loses bits -/

/-- The back length in these bytes as the decoder reads it: groups of seven bits, lowest first,
all but the last one marked.  `left` more bytes may follow the first one, and the last of them
has room for one bit. -/
def looseBackLen : Nat → Bytes → Option Nat
  | _, [] => none
  | 0, b :: rest => if b.toNat < 2 ∧ rest = [] then some b.toNat else none
  | left + 1, b :: rest =>
    if b.toNat < 128 then (if rest = [] then some b.toNat else none)
    else (looseBackLen left rest).map fun n => b.toNat % 128 + 128 * n

/-- `left` marked bytes, then one whose group exceeds the one bit left of a `size_t`. -/
def WideBackLen : Nat → Bytes → Prop
  | _, [] => False
  | 0, b :: _ => 2 ≤ b.toNat % 128
  | left + 1, b :: rest => 128 ≤ b.toNat ∧ WideBackLen left rest

lemma or_group {value shift : Nat} (hvalue : value < 2 ^ shift) (g : Nat) :
    value ||| g * 2 ^ shift = value + g * 2 ^ shift := by
  rw [Nat.or_comm, Nat.mul_comm, ← Nat.two_pow_add_eq_or_of_lt hvalue, Nat.add_comm]

lemma backLenLoop_nil (rounds shift value : Nat) (o : Bool) :
    backLenLoop (rounds + 1) shift value ⟨[], o⟩ = (.fail, ⟨[], o⟩) := by
  rw [backLenLoop]
  by_cases hshift : shift < 64
  · rw [check_bind hshift, bind_of_fail (nextByte_nil o)]
  · rw [check_bind_false hshift]

lemma backLenLoop_cons {shift : Nat} (hshift : shift < 64) (rounds value : Nat) (b : UInt8)
    (rest : Bytes) (o : Bool) :
    let group := b.toNat % 128 * 2 ^ shift
    backLenLoop (rounds + 1) shift value ⟨b :: rest, o⟩
      = (if b.toNat / 128 = 0 then pure (value ||| group % 2 ^ 64)
          else backLenLoop rounds (shift + 7) (value ||| group % 2 ^ 64))
        ⟨rest, o || decide (2 ^ 64 ≤ group)⟩ := by
  rw [backLenLoop, check_bind hshift]
  rfl

lemma backLenLoop_last (value : Nat) (b : UInt8) (rest : Bytes) (o : Bool) :
    backLenLoop 2 63 value ⟨b :: rest, o⟩
      = (if b.toNat / 128 = 0 then .ok (value ||| b.toNat % 128 * 2 ^ 63 % 2 ^ 64) else .fail,
        ⟨rest, o || decide (2 ≤ b.toNat % 128)⟩) := by
  have hnote : decide (2 ^ 64 ≤ b.toNat % 128 * 2 ^ 63) = decide (2 ≤ b.toNat % 128) := by
    rw [decide_eq_decide]
    omega
  rw [backLenLoop_cons (by decide), hnote]
  by_cases hb : b.toNat / 128 = 0
  · rw [if_pos hb, if_pos hb, pure_run]
  · -- the next round would shift by 70
    rw [if_neg hb, if_neg hb, backLenLoop, check_bind_false (by decide)]

lemma backLenLoop_round {shift value left : Nat} (hshift : shift + 7 * (left + 1) = 63)
    (hvalue : value < 2 ^ shift) (b : UInt8) (rest : Bytes) (o : Bool) :
    backLenLoop (left + 3) shift value ⟨b :: rest, o⟩
      = if b.toNat < 128 then (.ok (value + b.toNat * 2 ^ shift), ⟨rest, o⟩)
        else backLenLoop (left + 2) (shift + 7) (value + b.toNat % 128 * 2 ^ shift) ⟨rest, o⟩ := by
  have hpow : 2 ^ shift ≤ 2 ^ 56 := Nat.pow_le_pow_right (by decide) (by omega)
  have hgroup : b.toNat % 128 * 2 ^ shift < 2 ^ 64 :=
    calc b.toNat % 128 * 2 ^ shift ≤ 127 * 2 ^ 56 :=
          Nat.mul_le_mul (Nat.le_of_lt_succ (Nat.mod_lt _ (by decide))) hpow
      _ < 2 ^ 64 := by decide
  rw [backLenLoop_cons (by omega), Nat.mod_eq_of_lt hgroup,
    or_group hvalue, decide_eq_false (Nat.not_le.mpr hgroup), Bool.or_false]
  by_cases hb : b.toNat < 128
  · rw [if_pos hb, if_pos (by omega), pure_run, Nat.mod_eq_of_lt hb]
  · rw [if_neg hb, if_neg (by omega)]

/-- The invariant of the loop: `shift` bits of the number are read, and what lies beyond 63 is lost.
-/
lemma reads_backLenLoop (left : Nat) : ∀ {shift value : Nat}, shift + 7 * left = 63 →
    value < 2 ^ shift → Reads (backLenLoop (left + 2) shift value)
      (fun bytes n => ∃ m, looseBackLen left bytes = some m ∧ n = value + m * 2 ^ shift)
      (WideBackLen left) := by
  induction left with
  | zero =>
    intro shift value hshift hvalue
    obtain rfl : shift = 63 := by omega
    refine ⟨?_, ?_, ?_⟩
    · rintro (_ | ⟨b, rest⟩)
      · exact ⟨.fail, [], false, nofun, by simp [WideBackLen], fun o => by
          rw [backLenLoop_nil, Bool.or_false]⟩
      · refine ⟨_, rest, decide (2 ≤ b.toNat % 128), ?_, by simp [WideBackLen],
          backLenLoop_last value b rest⟩
        split <;> exact nofun
    · rintro (_ | ⟨b, tail⟩) n ⟨m, hm, rfl⟩ rest o
      · exact absurd hm nofun
      · simp only [looseBackLen] at hm
        split_ifs at hm with hb
        cases hm
        obtain ⟨hb, rfl⟩ := hb
        have hmod : b.toNat % 128 = b.toNat := by omega
        have hfits : b.toNat * 2 ^ 63 < 2 ^ 64 := by omega
        rw [singleton_append, backLenLoop_last, if_pos (by omega), hmod,
          Nat.mod_eq_of_lt hfits, or_group hvalue, decide_eq_false (by omega), Bool.or_false]
    · rintro (_ | ⟨b, tail⟩) n rest h
      · rw [backLenLoop_nil] at h
        exact nomatch congrArg Prod.fst h
      · rw [backLenLoop_last, Prod.mk.injEq, Lib.Reader.Cursor.mk.injEq, Bool.false_or,
          decide_eq_false_iff_not] at h
        obtain ⟨hok, rfl, hb⟩ := h
        split_ifs at hok with hlow
        cases hok
        have hmod : b.toNat % 128 = b.toNat := by omega
        have hfits : b.toNat * 2 ^ 63 < 2 ^ 64 := by omega
        refine ⟨[b], rfl, b.toNat, ?_, ?_⟩
        · rw [looseBackLen, if_pos ⟨by omega, rfl⟩]
        · rw [hmod, Nat.mod_eq_of_lt hfits, or_group hvalue]
  | succ left ih =>
    intro shift value hshift hvalue
    -- what the next round starts with
    have hnext : ∀ b : UInt8, value + b.toNat % 128 * 2 ^ shift < 2 ^ (shift + 7) := by
      intro b
      have hb : b.toNat % 128 < 128 := Nat.mod_lt _ (by decide)
      calc value + b.toNat % 128 * 2 ^ shift
          < 2 ^ shift + b.toNat % 128 * 2 ^ shift := Nat.add_lt_add_right hvalue _
        _ = (b.toNat % 128 + 1) * 2 ^ shift := by rw [Nat.add_mul, Nat.one_mul, Nat.add_comm]
        _ ≤ 128 * 2 ^ shift := Nat.mul_le_mul_right _ hb
        _ = 2 ^ (shift + 7) := by rw [Nat.pow_add, Nat.mul_comm]
    have hrest : ∀ b : UInt8, Reads (backLenLoop (left + 2) (shift + 7)
        (value + b.toNat % 128 * 2 ^ shift)) _ (WideBackLen left) := fun b =>
      ih (by omega) (hnext b)
    have hsum : ∀ (b : UInt8) (m : Nat), value + b.toNat % 128 * 2 ^ shift + m * 2 ^ (shift + 7)
        = value + (b.toNat % 128 + 128 * m) * 2 ^ shift := by
      intro b m
      rw [Nat.pow_add]
      ring
    refine ⟨?_, ?_, ?_⟩
    · rintro (_ | ⟨b, rest⟩)
      · exact ⟨.fail, [], false, nofun, by simp [WideBackLen], fun o => by
          rw [backLenLoop_nil, Bool.or_false]⟩
      · by_cases hb : b.toNat < 128
        · refine ⟨.ok (value + b.toNat * 2 ^ shift), rest, false, nofun,
            by simp [WideBackLen, hb], fun o => ?_⟩
          rw [backLenLoop_round hshift hvalue, if_pos hb, Bool.or_false]
        · obtain ⟨r, rest', l, hr, hl, hrun⟩ := (hrest b).tracks rest
          refine ⟨r, rest', l, hr, hl.trans ?_, fun o => ?_⟩
          · simp [WideBackLen, Nat.not_lt.mp hb]
          · rw [backLenLoop_round hshift hvalue, if_neg hb, hrun]
    · rintro (_ | ⟨b, tail⟩) n ⟨m, hm, rfl⟩ rest o
      · exact absurd hm nofun
      · simp only [looseBackLen] at hm
        rw [cons_append, backLenLoop_round hshift hvalue]
        split_ifs at hm with hb hnil
        · cases hm
          subst hnil
          rw [if_pos hb, nil_append]
        · obtain ⟨m', hm', rfl⟩ := Option.map_eq_some_iff.mp hm
          rw [if_neg hb, (hrest b).parses ⟨m', hm', rfl⟩ rest o, hsum]
    · rintro (_ | ⟨b, tail⟩) n rest h
      · rw [backLenLoop_nil] at h
        exact nomatch congrArg Prod.fst h
      · rw [backLenLoop_round hshift hvalue] at h
        split_ifs at h with hb
        · obtain ⟨hok, hc⟩ := Prod.mk.injEq .. ▸ h
          cases hok
          obtain rfl := (Lib.Reader.Cursor.mk.injEq .. ▸ hc).1
          refine ⟨[b], rfl, b.toNat, ?_, rfl⟩
          rw [looseBackLen, if_pos hb, if_pos rfl]
        · obtain ⟨pre, rfl, m, hm, rfl⟩ := (hrest b).accepts h
          refine ⟨b :: pre, rfl, b.toNat % 128 + 128 * m, ?_, hsum b m⟩
          rw [looseBackLen, if_neg hb, hm, Option.map_some]

/-- **What `DecodeBackLen` does**: it reads any number below `2 ^ 64` in up to ten groups, and
loses bits exactly if nine marked bytes are followed by a group of more than one bit. -/
theorem reads_decodeBackLen :
    Reads decodeBackLen (fun bytes n => looseBackLen 9 bytes = some n) (WideBackLen 9) := by
  have h : Reads decodeBackLen _ (WideBackLen 9) := reads_backLenLoop 9 (by decide) (by decide)
  refine ⟨h.tracks, fun hn => h.parses ⟨_, hn, by omega⟩, fun hrun => ?_⟩
  obtain ⟨pre, hpre, m, hm, rfl⟩ := h.accepts hrun
  exact ⟨pre, hpre, by rw [hm]; congr 1; omega⟩

lemma clean_readListPackData : Clean readListPackData := by
  have hvalue : ∀ first, Clean (readListPackValue first) := by
    intro first
    have hstr12 : Clean (do
        let next ← nextByte
        nextBlock (first.toNat % 16 * 256 + next.toNat)) :=
      clean_nextByte.bind fun _ => clean_nextBlock _
    have hstr32 : Clean (do
        let len ← readLE 4
        nextBlock len) := (clean_readLE 4).bind fun _ => clean_nextBlock _
    refine (clean_pure _).ite ((clean_nextBlock _).ite ?_)
    refine (clean_nextByte.bind fun _ => clean_pure _).ite (hstr12.ite (hstr32.ite ?_))
    refine (clean_readIntText 2).ite ((readInt24Text_eq ▸ clean_readIntText 3).ite ?_)
    exact (clean_readIntText 4).ite ((clean_readIntText 8).ite clean_fail)
  exact clean_nextByte.bind fun first => (clean_check _).bind fun _ => hvalue first

lemma Element.exists_int (width : IntWidth) {bytes : Bytes} (hbytes : bytes.length = width.bytes) :
    ∃ e : Element, e.data = width.tag :: bytes ∧ e.value = intText bytes := by
  have hpos : 0 < 8 * width.bytes := by cases width <;> decide
  have hlt := ofLe_lt bytes
  rw [hbytes, show 256 = 2 ^ 8 from rfl, ← Nat.pow_mul] at hlt
  obtain ⟨hback, hrange⟩ := ofSigned_toSigned hpos hlt
  refine ⟨.int width (toSigned (8 * width.bytes) (ofLe bytes)) hrange, ?_, ?_⟩
  · rw [data, hback, ← hbytes, le_ofLe]
  · rw [value, intText, hbytes]

/-- The converse: what the reader accepts is an element, since the encodings cover every byte. -/
lemma accepts_readListPackValue (first : UInt8) : Accepts (readListPackValue first)
    fun bytes v => ∃ e : Element, e.data = first :: bytes ∧ e.value = v := by
  -- a number that has a tag of its own
  have hint : ∀ width : IntWidth, first = width.tag → Accepts (readIntText width.bytes)
      fun bytes v => ∃ e : Element, e.data = first :: bytes ∧ e.value = v := by
    rintro width rfl
    refine (accepts_readIntText _).mono ?_
    rintro bytes _ ⟨hlen, rfl⟩
    exact exists_int width hlen
  refine .ite (fun h7 => ?_) fun h7 => .ite (fun h6 => ?_) fun h6 => .ite (fun h13 => ?_)
    fun h13 => .ite (fun h12 => ?_) fun h12 => .ite (fun h32 => ?_) fun h32 =>
    .ite (hint .two) fun _ => .ite (fun hF2 => ?_) fun _ => .ite (hint .four) fun _ =>
    .ite (hint .eight) fun _ => accepts_fail
  · refine (accepts_pure _).mono ?_
    rintro _ _ ⟨rfl, rfl⟩
    have hn : first.toNat % 128 = first.toNat := by omega
    refine ⟨.uint7 (first.toNat % 128) (by omega), ?_, rfl⟩
    rw [data, hn, UInt8.ofNat_toNat]
  · refine (accepts_nextBlock _).mono ?_
    rintro _ v ⟨rfl, hlen⟩
    refine ⟨.str6 _ (by omega), ?_, rfl⟩
    rw [data, hlen, show 128 + first.toNat % 64 = first.toNat by omega, UInt8.ofNat_toNat]
  · refine (accepts_nextByte.map _).mono ?_
    rintro _ v ⟨next, rfl, hv⟩
    have hbyte' := next.toNat_lt
    have hlt : first.toNat % 32 * 256 + next.toNat < 2 ^ 13 := by omega
    obtain ⟨hback, hrange⟩ := ofSigned_toSigned (by decide) hlt
    refine ⟨.int13 _ hrange, ?_, ?_⟩
    · rw [data, hback,
        show 192 + (first.toNat % 32 * 256 + next.toNat) / 256 = first.toNat by omega,
        show (first.toNat % 32 * 256 + next.toNat) % 256 = next.toNat by omega,
        UInt8.ofNat_toNat, UInt8.ofNat_toNat]
    · rw [hv, value, signExtend_eq (by decide) (by decide) hlt]
  · refine (accepts_nextByte.bind fun next =>
      accepts_nextBlock (first.toNat % 16 * 256 + next.toNat)).mono ?_
    rintro _ v ⟨_, _, next, rfl, rfl, rfl, hlen⟩
    have hbyte' := next.toNat_lt
    refine ⟨.str12 _ (by omega), ?_, rfl⟩
    rw [data, hlen,
      show 224 + (first.toNat % 16 * 256 + next.toNat) / 256 = first.toNat by omega,
      show (first.toNat % 16 * 256 + next.toNat) % 256 = next.toNat by omega,
      UInt8.ofNat_toNat, UInt8.ofNat_toNat]
    rfl
  · refine ((accepts_readLE 4).bind accepts_nextBlock).mono ?_
    rintro _ v ⟨_, _, n, rfl, ⟨rfl, hn⟩, rfl, rfl⟩
    refine ⟨.str32 _ (by omega), ?_, rfl⟩
    rw [data, h32]
  · exact readInt24Text_eq ▸ hint .three hF2

lemma accepts_readListPackData : Accepts readListPackData
    fun bytes v => ∃ e : Element, bytes = e.data ∧ v = e.value := by
  refine (accepts_nextByte.bind fun first => (accepts_check _).bind fun _ =>
    accepts_readListPackValue first).mono ?_
  rintro _ v ⟨_, _, first, rfl, rfl, _, _, _, rfl, ⟨rfl, -⟩, e, hdata, hvalue⟩
  exact ⟨e, hdata.symm, hvalue.symm⟩

theorem reads_readListPackData : Reads readListPackData
    (fun bytes v => ∃ e : Element, bytes = e.data ∧ v = e.value) fun _ => False := by
  refine .of_clean clean_readListPackData ?_ accepts_readListPackData
  rintro bytes v ⟨e, rfl, rfl⟩
  exact parses_readListPackData e

/-- What `ReadListPackEntry` accepts: the data and their length, in any number of groups. -/
def IsEntry (bytes v : Bytes) : Prop :=
  ∃ (e : Element) (back : Bytes), bytes = e.data ++ back ∧
    looseBackLen 9 back = some e.data.length ∧ v = e.value

/-- The data of an element in front of a back length whose tenth group does not fit. -/
def LostEntry (bytes : Bytes) : Prop :=
  ∃ (e : Element) (rest : Bytes), bytes = e.data ++ rest ∧ WideBackLen 9 rest

lemma reads_readListPackEntry : Reads readListPackEntry IsEntry LostEntry := by
  refine ⟨?_, ?_, ?_⟩
  · have htail : ∀ entryStart value, Tracks (do
        let here ← remaining
        let backLen ← decodeBackLen
        check (backLen = entryStart - here)
        pure value : Read Bytes) (WideBackLen 9) := fun entryStart value =>
      tracks_remaining fun here => reads_decodeBackLen.tracks.bind_clean fun backLen =>
        (clean_check _).bind fun _ => clean_pure value
    refine (tracks_remaining fun entryStart =>
      reads_readListPackData.bind_tracks (htail entryStart)).congr fun bytes => ?_
    rw [false_or]
    constructor
    · rintro ⟨_, rest, _, rfl, ⟨e, rfl, -⟩, hwide⟩
      exact ⟨e, rest, rfl, hwide⟩
    · rintro ⟨e, rest, rfl, hwide⟩
      exact ⟨e.data, rest, e.value, rfl, ⟨e, rfl, rfl⟩, hwide⟩
  · rintro bytes v ⟨e, back, rfl, hback, rfl⟩ rest o
    rw [append_assoc, readListPackEntry_run e (reads_decodeBackLen.parses hback rest o), if_pos rfl]
  · intro bytes v rest h
    rw [readListPackEntry, remaining_bind] at h
    obtain ⟨value, c, hdata, h⟩ := bind_eq_ok.mp h
    obtain ⟨_, rest', rfl, ⟨e, rfl, rfl⟩, rfl⟩ := accepts_readListPackData hdata
    rw [remaining_bind] at h
    obtain ⟨n, c, hback, h⟩ := bind_eq_ok.mp h
    obtain ⟨hn, hpure⟩ := check_bind_eq_ok.mp h
    obtain ⟨rfl, rfl⟩ := pure_eq_ok.mp hpure
    obtain ⟨back, rfl, hloose⟩ := reads_decodeBackLen.accepts hback
    refine ⟨e.data ++ back, (append_assoc ..).symm, e, back, rfl, ?_, rfl⟩
    rw [hloose, hn, length_append, Nat.add_sub_cancel]

/-- A blob whose header gives its size, and in it, behind any number of entries, the data of an
element in front of a back length whose tenth group does not fit. -/
def WideListPack (blob : Bytes) : Prop :=
  ∃ size count body, size.length = 4 ∧ count.length = 2 ∧ blob = size ++ (count ++ body) ∧
    ofLe size = blob.length ∧ LostBehind IsEntry LostEntry (fun _ => True) body

/-- Bits are lost exactly where a back length is too wide; no other step of the reader shifts. -/
theorem tracks_readListPack : Tracks readListPack WideListPack := by
  have hnonempty : ∀ e : Element, ∀ tail, ∃ b tail', e.data ++ tail = b :: tail' ∧ b ≠ 0xFF := by
    intro e tail
    obtain ⟨first, rest, hdata, hfirst, -⟩ := e.data_cons
    exact ⟨first, rest ++ tail, by rw [hdata, cons_append], hfirst⟩
  have hloop : Tracks (whileNot 0xFF readListPackEntry)
      (LostBehind IsEntry LostEntry fun _ => True) := by
    apply reads_readListPackEntry.whileNot
    · rintro _ _ ⟨e, back, rfl, -, -⟩
      exact hnonempty e back
    · rintro _ ⟨e, rest, rfl, -⟩
      exact hnonempty e rest
  have hbody : ∀ count, Tracks (readListPackBody count)
      (LostBehind IsEntry LostEntry fun _ => True) := fun count =>
    hloop.bind_clean fun entries => clean_nextByte.bind fun last => (clean_check _).bind fun _ =>
      clean_remaining.bind fun left => (clean_check _).bind fun _ => (clean_check _).bind fun _ =>
        clean_pure entries
  intro blob
  by_cases hlong : 7 ≤ blob.length
  · -- the six bytes of the header are there
    obtain ⟨size, tail, rfl, hfour⟩ := exists_block (show 4 ≤ blob.length by omega)
    rw [length_append] at hlong
    obtain ⟨count, body, rfl, htwo⟩ := exists_block (show 2 ≤ tail.length by omega)
    rw [← length_append] at hlong
    have hsized := tracks_check (p := ofLe size = (size ++ (count ++ body)).length)
      (f := fun _ => readListPackBody (ofLe count)) (hbody (ofLe count))
    obtain ⟨r, rest, l, hr, hl, hrun⟩ := hsized body
    refine ⟨r, rest, l, hr, hl.trans ?_, fun o => ?_⟩
    · constructor
      · rintro ⟨hsize, hlost⟩
        exact ⟨size, count, body, hfour, htwo, rfl, hsize, hlost⟩
      · rintro ⟨size', count', body', hfour', htwo', hblob, hsize, hlost⟩
        obtain ⟨rfl, htail⟩ := append_inj hblob (hfour.trans hfour'.symm)
        obtain ⟨rfl, rfl⟩ := append_inj htail (htwo.trans htwo'.symm)
        exact ⟨hsize, hlost⟩
    · rw [readListPack, remaining_bind, check_bind hlong,
        (parses_copyLE_ofLe hfour).bind_run, (parses_copyLE_ofLe htwo).bind_run, hrun]
  · refine ⟨.fail, blob, false, nofun, ?_, fun o => ?_⟩
    · -- a blob with an entry in it is longer
      rw [Bool.false_eq_true, false_iff]
      rintro ⟨size, count, body, hfour, htwo, rfl, -, pres, rest, -, -, rfl, e, tail, rfl, -⟩
      obtain ⟨b, tail', hcons, -⟩ := hnonempty e tail
      rw [hcons] at hlong
      simp only [length_append, length_cons] at hlong
      omega
    · rw [readListPack, remaining_bind, check_bind_false hlong, Bool.or_false]

/-- What `ReadListPackAll` accepts without a loss. -/
def IsListPack (blob : Bytes) (values : List Bytes) : Prop :=
  ∃ (size count : Bytes) (items : List (Bytes × Bytes)), size.length = 4 ∧ count.length = 2 ∧
    blob = size ++ (count ++ (items.flatMap Prod.fst ++ [0xFF])) ∧ ofLe size = blob.length ∧
    (ofLe count = 0xFFFF ∨ ofLe count = items.length) ∧ (∀ i ∈ items, IsEntry i.1 i.2) ∧
    values = items.map Prod.snd

lemma readListPack_of_isListPack {blob : Bytes} {values : List Bytes}
    (h : IsListPack blob values) (o : Bool) : readListPack ⟨blob, o⟩ = (.ok values, ⟨[], o⟩) := by
  obtain ⟨size, count, items, hfour, htwo, rfl, hsize, hcount, hitems, rfl⟩ := h
  have hloop : whileNot 0xFF readListPackEntry ⟨items.flatMap Prod.fst ++ [0xFF], o⟩
      = (.ok (items.map Prod.snd), ⟨[0xFF], o⟩) := by
    refine whileNot_mark items (fun i hi => reads_readListPackEntry.parses (hitems i hi)) ?_ [] o
    intro i hi
    obtain ⟨e, back, hbytes, -, -⟩ := hitems i hi
    obtain ⟨first, tail, hdata, hfirst, -⟩ := e.data_cons
    exact ⟨first, tail ++ back, by rw [hbytes, hdata, cons_append], hfirst⟩
  have hlong : 7 ≤ (size ++ (count ++ (items.flatMap Prod.fst ++ [0xFF]))).length := by
    simp only [length_append, length_cons, length_nil]
    omega
  have hcount' : ofLe count = 0xFFFF ∨ ofLe count = (items.map Prod.snd).length := by
    rwa [length_map]
  rw [readListPack, remaining_bind, check_bind hlong, (parses_copyLE_ofLe hfour).bind_run,
    (parses_copyLE_ofLe htwo).bind_run, check_bind hsize, readListPackBody, bind_of_ok hloop,
    nextByte_bind, check_bind rfl, remaining_bind, check_bind length_nil, check_bind hcount',
    pure_run]

lemma isListPack_of_readListPack {blob rest : Bytes} {values : List Bytes}
    (h : readListPack ⟨blob, false⟩ = (.ok values, ⟨rest, false⟩)) : IsListPack blob values := by
  rw [readListPack, remaining_bind] at h
  obtain ⟨hlong, h⟩ := check_bind_eq_ok.mp h
  obtain ⟨size, tail, rfl, hfour⟩ := exists_block (show 4 ≤ blob.length by omega)
  rw [length_append] at hlong
  obtain ⟨count, body, rfl, htwo⟩ := exists_block (show 2 ≤ tail.length by omega)
  rw [(parses_copyLE_ofLe hfour).bind_run, (parses_copyLE_ofLe htwo).bind_run] at h
  obtain ⟨hsize, h⟩ := check_bind_eq_ok.mp h
  obtain ⟨entries, ⟨rest', l⟩, hloop, h⟩ := bind_eq_ok.mp h
  obtain ⟨last, _, hlast, h⟩ := bind_eq_ok.mp h
  obtain ⟨rest'', rfl, rfl⟩ := nextByte_eq_ok.mp hlast
  obtain ⟨rfl, hleft⟩ := check_bind_eq_ok.mp h
  rw [remaining_bind] at hleft
  obtain ⟨hend, h⟩ := check_bind_eq_ok.mp hleft
  obtain rfl := eq_nil_of_length_eq_zero hend
  obtain ⟨hcount, h⟩ := check_bind_eq_ok.mp h
  obtain ⟨rfl, hc⟩ := pure_eq_ok.mp h
  obtain ⟨rfl, rfl⟩ := Lib.Reader.Cursor.mk.injEq .. ▸ hc
  obtain ⟨items, rfl, rfl, hitems⟩ := reads_readListPackEntry.whileNot_accepts hloop
  rw [length_map] at hcount
  exact ⟨size, count, items, hfour, htwo, rfl, hsize, hcount, hitems, rfl⟩

end EloqKV.Rdb
