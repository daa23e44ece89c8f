/-
  Ziplists and intsets (`ReadZipListPrevLen`, `ReadZipListEntry`, `ReadZipListAll` and
  `ParseIntSetBlob` in `src/redis_rdb_restore.cpp`).

  An entry of a ziplist is the length of the entry in front of it, in one or in five bytes, the
  byte of its encoding, and the rest of the encoding.  The decoder passes over the lengths of the
  entries in front, the offset of the last entry and the number of entries; it walks up to the end
  mark.  An intset is a width, a count and as many numbers of that width.
-/
import EloqKV.Rdb.Reader

open List hiding Cursor

namespace EloqKV.Rdb

open Lib.Endian (le be ofLe ofBe toSigned ofSigned)
open Lib.Reader (Cursor Outcome Read)
open Lib.Reader.Read Lib.Endian

/-! ## The decoders -/

def readZipListPrevLen : Read Unit := do
  let first ← nextByte
  if first.toNat < 254 then pure ()
  else do
    check (first = 254)
    let _ ← nextBlock 4
    pure ()

/-- The encodings of `ReadZipListEntry`, behind their byte. -/
def readZipListValue (encoding : UInt8) : Read Bytes :=
  if encoding.toNat / 64 = 0 then nextBlock (encoding.toNat % 64)
  else if encoding.toNat / 64 = 1 then do
    let next ← nextByte
    nextBlock (encoding.toNat % 64 * 256 + next.toNat)
  else if encoding = 0x80 then do
    let len ← readBE 4
    nextBlock len
  else if encoding = 0xC0 then readIntText 2
  else if encoding = 0xD0 then readIntText 4
  else if encoding = 0xE0 then readIntText 8
  else if encoding = 0xF0 then readInt24Text
  else if encoding = 0xFE then readIntText 1
  else if encoding.toNat / 16 = 15 ∧ encoding ≠ 0xFF then
    pure (int64ToString ((encoding.toNat % 16 : Nat) - 1))
  else fail

def readZipListEntry : Read Bytes := do
  readZipListPrevLen
  let encoding ← nextByte
  readZipListValue encoding

/-- `ReadZipListAll` on a cursor at the start of the blob. -/
def readZipList : Read (List Bytes) := do
  let size ← remaining
  check (11 ≤ size)
  let totalBytes ← copyLE 4
  check (totalBytes = size)
  -- the pointer moves to `begin + 10`
  let _ ← block 6
  let entries ← whileNot 0xFF readZipListEntry
  let last ← nextByte
  check (last = 0xFF)
  let left ← remaining
  check (left = 0)
  pure entries

/-- `ReadZipListAll`: the entries, if it returns true. -/
def readZipListAll (blob : Bytes) : Outcome (List Bytes) := (readZipList (.at blob)).1

/-- One round of the loop of `ParseIntSetBlob`; nothing looks how much is left. -/
def copyIntText (w : Nat) : Read Bytes := do
  let bytes ← block w
  pure (intText bytes)

/-- `ParseIntSetBlob` from the start of the blob; a size beyond `size_t` is noted. -/
def readIntSet : Read (List Bytes) := do
  let size ← remaining
  check (8 ≤ size)
  let encoding ← copyLE 4
  let count ← copyLE 4
  check (encoding = 2 ∨ encoding = 4 ∨ encoding = 8)
  note (decide (2 ^ 64 ≤ 8 + count * encoding))
  check (size = (8 + count * encoding) % 2 ^ 64)
  times (copyIntText encoding) count

/-- `ParseIntSetBlob`: the entries, if it returns true. -/
def parseIntSetBlob (blob : Bytes) : Outcome (List Bytes) := (readIntSet (.at blob)).1

/-! ## The formats -/

inductive ZipWidth where
  | one
  | two
  | three
  | four
  | eight
  deriving DecidableEq, Repr

namespace ZipWidth

def bytes : ZipWidth → Nat
  | one => 1
  | two => 2
  | three => 3
  | four => 4
  | eight => 8

def tag : ZipWidth → UInt8
  | one => 0xFE
  | two => 0xC0
  | three => 0xF0
  | four => 0xD0
  | eight => 0xE0

end ZipWidth

/-- The value of an entry in one of its encodings. -/
inductive ZipElement where
  | str6 (s : Bytes) (hs : s.length < 2 ^ 6)
  | str14 (s : Bytes) (hs : s.length < 2 ^ 14)
  | str32 (s : Bytes) (hs : s.length < 2 ^ 32)
  | int (width : ZipWidth) (i : Int)
      (hi : -2 ^ (8 * width.bytes - 1) ≤ i ∧ i < 2 ^ (8 * width.bytes - 1))
  | immediate (n : Nat) (hn : n ≤ 12)

namespace ZipElement

def value : ZipElement → Bytes
  | str6 s _ | str14 s _ | str32 s _ => s
  | int _ i _ => int64ToString i
  | immediate n _ => int64ToString n

/-- The encoding of an entry, without the length of the one in front. -/
def data : ZipElement → Bytes
  | str6 s _ => UInt8.ofNat s.length :: s
  | str14 s _ => UInt8.ofNat (64 + s.length / 256) :: UInt8.ofNat (s.length % 256) :: s
  | str32 s _ => 0x80 :: (be 4 s.length ++ s)
  | int width i _ => width.tag :: le width.bytes (ofSigned (8 * width.bytes) i)
  | immediate n _ => [UInt8.ofNat (0xF1 + n)]

end ZipElement

/-- The length in front: five bytes if one is not enough, or if they were kept from before. -/
def encodePrevLen (wide : Bool) (prevLen : Nat) : Bytes :=
  if prevLen < 254 ∧ wide = false then [UInt8.ofNat prevLen] else 254 :: le 4 prevLen

/-- The bytes of entries one behind the other, each with its value. -/
def zipRecords : Nat → List (Bool × ZipElement) → List (Bytes × ZipElement)
  | _, [] => []
  | prevLen, (wide, e) :: rest =>
    let record := encodePrevLen wide prevLen ++ e.data
    (record, e) :: zipRecords record.length rest

/-- A ziplist: entries with the widths of the lengths in front, of a size the header can give. -/
structure ZipList where
  entries : List (Bool × ZipElement)
  fits : 10 + ((zipRecords 0 entries).flatMap Prod.fst).length + 1 < 2 ^ 32

namespace ZipList

def body (zl : ZipList) : Bytes := (zipRecords 0 zl.entries).flatMap Prod.fst

def tailOffset (zl : ZipList) : Nat :=
  10 + ((zipRecords 0 zl.entries).dropLast.flatMap Prod.fst).length

/-- The blob of a ziplist; two bytes give the number of entries as far as they can. -/
def blob (zl : ZipList) : Bytes :=
  le 4 (10 + zl.body.length + 1) ++ (le 4 zl.tailOffset ++ le 2 (min zl.entries.length 0xFFFF) ++
    (zl.body ++ [0xFF]))

def values (zl : ZipList) : List Bytes := zl.entries.map fun entry => entry.2.value

end ZipList

inductive IntSetWidth where
  | two
  | four
  | eight
  deriving DecidableEq, Repr

def IntSetWidth.bytes : IntSetWidth → Nat
  | two => 2
  | four => 4
  | eight => 8

/-- An intset: numbers of one width; their count fits the four bytes of the header. -/
structure IntSet where
  width : IntSetWidth
  elements : List Int
  inRange : ∀ i ∈ elements, -2 ^ (8 * width.bytes - 1) ≤ i ∧ i < 2 ^ (8 * width.bytes - 1)
  fits : elements.length < 2 ^ 32

namespace IntSet

def encode (is : IntSet) (i : Int) : Bytes := le is.width.bytes (ofSigned (8 * is.width.bytes) i)

def blob (is : IntSet) : Bytes :=
  le 4 is.width.bytes ++ (le 4 is.elements.length ++ is.elements.flatMap is.encode)

def values (is : IntSet) : List Bytes := is.elements.map int64ToString

end IntSet

/-! ## Ziplists are read back -/

namespace ZipElement

theorem data_cons (e : ZipElement) : ∃ encoding tail, e.data = encoding :: tail ∧
    Parses (readZipListValue encoding) tail e.value := by
  cases e with
  | str6 s hs =>
    have hfirst := toNat_ofNat_of_lt (show s.length < 256 by omega)
    refine ⟨_, _, rfl, ?_⟩
    rw [readZipListValue, if_pos (by omega)]
    exact parses_nextBlock (by omega)
  | str14 s hs =>
    have hfirst := toNat_ofNat_of_lt (show 64 + s.length / 256 < 256 by omega)
    have hnext := toNat_ofNat_of_lt (show s.length % 256 < 256 by omega)
    refine ⟨_, _, rfl, ?_⟩
    rw [readZipListValue, if_neg (by omega), if_pos (by omega)]
    refine (parses_nextByte (UInt8.ofNat (s.length % 256))).bind (parses_nextBlock ?_)
    omega
  | str32 s hs =>
    refine ⟨_, _, rfl, ?_⟩
    exact (parses_readBE (w := 4) (by omega)).bind (parses_nextBlock rfl)
  | int width i hi =>
    have hread := parses_readIntText_le (w := width.bytes) (by cases width <;> decide) hi
    cases width with
    | one => exact ⟨_, _, rfl, hread⟩
    | two => exact ⟨_, _, rfl, hread⟩
    | three =>
      have hread24 : Parses readInt24Text _ _ := readInt24Text_eq ▸ hread
      exact ⟨_, _, rfl, hread24⟩
    | _ => exact ⟨_, _, rfl, hread⟩
  | immediate n hn =>
    have hfirst := toNat_ofNat_of_lt (show 0xF1 + n < 256 by omega)
    -- the byte is none of those that stand for an encoding
    have hne : ∀ b : UInt8, b.toNat ≤ 0xF0 ∨ b.toNat = 0xFE ∨ b.toNat = 0xFF →
        UInt8.ofNat (0xF1 + n) ≠ b := by
      rintro b hb rfl
      omega
    refine ⟨_, _, rfl, ?_⟩
    rw [readZipListValue, hfirst, if_neg (by omega), if_neg (by omega),
      if_neg (hne 0x80 (by decide)), if_neg (hne 0xC0 (by decide)), if_neg (hne 0xD0 (by decide)),
      if_neg (hne 0xE0 (by decide)), if_neg (hne 0xF0 (by decide)), if_neg (hne 0xFE (by decide)),
      if_pos ⟨by omega, hne 0xFF (by decide)⟩,
      show (((0xF1 + n) % 16 : Nat) : Int) - 1 = n by omega]
    exact parses_pure _

end ZipElement

lemma parses_readZipListPrevLen (wide : Bool) (prevLen : Nat) :
    Parses readZipListPrevLen (encodePrevLen wide prevLen) () ∧
      ∃ b tail, encodePrevLen wide prevLen = b :: tail ∧ b ≠ 0xFF := by
  unfold encodePrevLen
  split
  · rename_i hnarrow
    have hfirst := toNat_ofNat_of_lt (show prevLen < 256 by omega)
    constructor
    · intro rest o
      rw [singleton_append, readZipListPrevLen, nextByte_bind, hfirst, if_pos hnarrow.1, pure_run]
    · refine ⟨_, _, rfl, ?_⟩
      intro h
      have := congrArg UInt8.toNat h
      rw [hfirst] at this
      exact absurd this (Nat.ne_of_lt (by omega : prevLen < 255))
  · constructor
    · exact (parses_nextByte 254).bind ((parses_check rfl).bind
        ((parses_nextBlock (length_le 4 prevLen).symm).map fun _ => ()))
    · exact ⟨_, _, rfl, by decide⟩

lemma parses_readZipListEntry (wide : Bool) (prevLen : Nat) (e : ZipElement) :
    Parses readZipListEntry (encodePrevLen wide prevLen ++ e.data) e.value := by
  obtain ⟨encoding, tail, hdata, hvalue⟩ := e.data_cons
  rw [hdata]
  exact (parses_readZipListPrevLen wide prevLen).1.bind ((parses_nextByte encoding).bind hvalue)

lemma mem_zipRecords {prevLen : Nat} {entries : List (Bool × ZipElement)}
    {r : Bytes × ZipElement} (hr : r ∈ zipRecords prevLen entries) :
    ∃ wide prevLen, r.1 = encodePrevLen wide prevLen ++ r.2.data := by
  induction entries generalizing prevLen with
  | nil => exact absurd hr not_mem_nil
  | cons entry entries ih =>
    rcases mem_cons.mp hr with rfl | hr
    · exact ⟨entry.1, prevLen, rfl⟩
    · exact ih hr

lemma values_zipRecords (prevLen : Nat) (entries : List (Bool × ZipElement)) :
    (zipRecords prevLen entries).map (fun r => r.2.value)
      = entries.map fun entry => entry.2.value := by
  induction entries generalizing prevLen with
  | nil => rfl
  | cons entry entries ih => rw [zipRecords, map_cons, map_cons, ih]

/-- **A ziplist is read back**, whatever its entries and the widths in front of them. -/
theorem readZipListAll_blob (zl : ZipList) : readZipListAll zl.blob = .ok zl.values := by
  have hfits := zl.fits
  rw [← ZipList.body] at hfits
  have hlen : zl.blob.length = 10 + zl.body.length + 1 := by
    simp only [ZipList.blob, length_append, length_le, length_cons, length_nil]
    omega
  have hskip : ∀ rest o, block 6 ⟨le 4 zl.tailOffset ++ le 2 (min zl.entries.length 0xFFFF) ++
      rest, o⟩ = (.ok _, ⟨rest, o⟩) := fun rest o =>
    parses_block (by simp) rest o
  have hloop : whileNot 0xFF readZipListEntry ⟨(zipRecords 0 zl.entries).flatMap Prod.fst ++ [0xFF],
      false⟩ = (.ok ((zipRecords 0 zl.entries).map fun r => r.2.value), ⟨[0xFF], false⟩) := by
    refine whileNot_mark (zipRecords 0 zl.entries) ?_ ?_ [] false
    · intro r hr
      obtain ⟨wide, prevLen, hbytes⟩ := mem_zipRecords hr
      rw [hbytes]
      exact parses_readZipListEntry wide prevLen r.2
    · intro r hr
      obtain ⟨wide, prevLen, hbytes⟩ := mem_zipRecords hr
      obtain ⟨-, b, tail, hcons, hne⟩ := parses_readZipListPrevLen wide prevLen
      exact ⟨b, tail ++ r.2.data, by rw [hbytes, hcons, cons_append], hne⟩
  rw [values_zipRecords] at hloop
  rw [readZipListAll, Lib.Reader.Cursor.at, readZipList, remaining_bind, hlen,
    check_bind (by omega),
    ZipList.blob, (parses_copyLE (by omega)).bind_run, check_bind rfl, bind_of_ok (hskip _ _),
    ZipList.body, bind_of_ok hloop, nextByte_bind, check_bind rfl, remaining_bind,
    check_bind length_nil, pure_run]
  rfl

/-! ## Intsets are read back -/

/-- **An intset is read back**, in each of its widths. -/
theorem parseIntSetBlob_blob (is : IntSet) : parseIntSetBlob is.blob = .ok is.values := by
  have hwidth : is.width.bytes = 2 ∨ is.width.bytes = 4 ∨ is.width.bytes = 8 := by
    cases is.width <;> decide
  have hfits := is.fits
  have helements : (is.elements.flatMap is.encode).length
      = is.elements.length * is.width.bytes := by
    simp [length_flatMap, IntSet.encode]
  have hlen : is.blob.length = 8 + is.elements.length * is.width.bytes := by
    simp only [IntSet.blob, length_append, length_le, helements]
    omega
  have hsmall : 8 + is.elements.length * is.width.bytes < 2 ^ 64 := by
    have := Nat.mul_le_mul (Nat.le_of_lt hfits) (show is.width.bytes ≤ 8 by omega)
    omega
  have hloop : Parses (times (copyIntText is.width.bytes) is.elements.length)
      (is.elements.flatMap is.encode) is.values := by
    refine Parses.times is.elements fun i hi => ?_
    have hbytes := (parses_block (length_le is.width.bytes
      (ofSigned (8 * is.width.bytes) i)).symm).map intText
    rwa [intText_le (by omega) (is.inRange i hi)] at hbytes
  have hrun := hloop [] false
  rw [append_nil] at hrun
  rw [parseIntSetBlob, Lib.Reader.Cursor.at, readIntSet, remaining_bind, hlen,
    check_bind (by omega), IntSet.blob,
    (parses_copyLE (by omega)).bind_run, (parses_copyLE (by omega)).bind_run,
    check_bind hwidth, note_bind_false (Nat.not_le.mpr hsmall), check_bind
      (Nat.mod_eq_of_lt hsmall).symm, hrun]

/-- **Ziplists and intsets are read back as the strings they hold.** -/
theorem ziplists_and_intsets_read_back :
    (∀ zl : ZipList, readZipListAll zl.blob = .ok zl.values) ∧
      ∀ is : IntSet, parseIntSetBlob is.blob = .ok is.values :=
  ⟨readZipListAll_blob, parseIntSetBlob_blob⟩

/-! ## Nothing outside a blob is read -/

lemma clean_readZipListEntry : Clean readZipListEntry := by
  have hprev : Clean readZipListPrevLen := clean_nextByte.bind fun first => (clean_pure ()).ite
      ((clean_check _).bind fun _ => (clean_nextBlock 4).bind fun _ => clean_pure ())
  have hvalue : ∀ encoding, Clean (readZipListValue encoding) := by
    intro encoding
    have hstr14 : Clean (do
        let next ← nextByte
        nextBlock (encoding.toNat % 64 * 256 + next.toNat)) :=
      clean_nextByte.bind fun _ => clean_nextBlock _
    have hstr32 : Clean (do
        let len ← readBE 4
        nextBlock len) := (clean_readBE 4).bind fun _ => clean_nextBlock _
    refine (clean_nextBlock _).ite (hstr14.ite (hstr32.ite ?_))
    refine (clean_readIntText 2).ite ((clean_readIntText 4).ite ((clean_readIntText 8).ite ?_))
    refine (readInt24Text_eq ▸ clean_readIntText 3).ite ((clean_readIntText 1).ite ?_)
    exact (clean_pure _).ite clean_fail
  exact hprev.bind fun _ => clean_nextByte.bind hvalue

lemma clean_readZipList : Clean readZipList := by
  have hbody : Clean (do
      let entries ← whileNot 0xFF readZipListEntry
      let last ← nextByte
      check (last = 0xFF)
      let left ← remaining
      check (left = 0)
      pure entries) :=
    (clean_readZipListEntry.whileNot 0xFF).bind fun entries => clean_nextByte.bind fun last =>
      (clean_check _).bind fun _ => clean_remaining.bind fun left => (clean_check _).bind fun _ =>
        clean_pure entries
  intro blob
  by_cases hlong : 11 ≤ blob.length
  · -- the ten bytes of the header are there
    obtain ⟨size, tail, rfl, hfour⟩ := exists_block (show 4 ≤ blob.length by omega)
    rw [length_append] at hlong
    obtain ⟨skipped, body, rfl, hsix⟩ := exists_block (show 6 ≤ tail.length by omega)
    rw [← length_append] at hlong
    by_cases hsize : ofLe size = (size ++ (skipped ++ body)).length
    · obtain ⟨r, rest, l, hr, hl, hrun⟩ := hbody body
      refine ⟨r, rest, l, hr, hl, fun o => ?_⟩
      rw [readZipList, remaining_bind, check_bind hlong, (parses_copyLE_ofLe hfour).bind_run,
        check_bind hsize, (parses_block hsix.symm).bind_run, hrun]
    · refine ⟨.fail, skipped ++ body, false, nofun, by simp, fun o => ?_⟩
      rw [readZipList, remaining_bind, check_bind hlong, (parses_copyLE_ofLe hfour).bind_run,
        check_bind_false hsize, Bool.or_false]
  · refine ⟨.fail, blob, false, nofun, by simp, fun o => ?_⟩
    rw [readZipList, remaining_bind, check_bind_false hlong, Bool.or_false]

lemma times_copyIntText {w n : Nat} {bytes : Bytes} (hbytes : n * w ≤ bytes.length) :
    ∃ entries rest, ∀ o, times (copyIntText w) n ⟨bytes, o⟩ = (.ok entries, ⟨rest, o⟩) := by
  induction n generalizing bytes with
  | zero => exact ⟨[], bytes, fun o => rfl⟩
  | succ n ih =>
    rw [Nat.add_mul, Nat.one_mul] at hbytes
    obtain ⟨number, tail, rfl, hw⟩ := exists_block (show w ≤ bytes.length by omega)
    rw [length_append] at hbytes
    obtain ⟨entries, rest, hrun⟩ := ih (show n * w ≤ tail.length by omega)
    have hnumber : Parses (copyIntText w) number (intText number) :=
      (parses_block hw.symm).map intText
    refine ⟨intText number :: entries, rest, fun o => ?_⟩
    rw [times, bind_of_ok (hnumber _ _), bind_of_ok (hrun o), pure_run]

lemma clean_readIntSet : Clean readIntSet := by
  intro blob
  by_cases hlong : 8 ≤ blob.length
  · -- the eight bytes of the header are there
    obtain ⟨encoding, tail, rfl, hfour⟩ := exists_block (show 4 ≤ blob.length by omega)
    rw [length_append] at hlong
    obtain ⟨count, body, rfl, hfour'⟩ := exists_block (show 4 ≤ tail.length by omega)
    rw [← length_append] at hlong
    have hcount := ofLe_lt count
    rw [hfour'] at hcount
    have hheader : ∀ o, readIntSet ⟨encoding ++ (count ++ body), o⟩ = (do
        check (ofLe encoding = 2 ∨ ofLe encoding = 4 ∨ ofLe encoding = 8)
        note (decide (2 ^ 64 ≤ 8 + ofLe count * ofLe encoding))
        check ((encoding ++ (count ++ body)).length = (8 + ofLe count * ofLe encoding) % 2 ^ 64)
        times (copyIntText (ofLe encoding)) (ofLe count) : Read (List Bytes)) ⟨body, o⟩ := by
      intro o
      rw [readIntSet, remaining_bind, check_bind hlong,
        (parses_copyLE_ofLe hfour).bind_run, (parses_copyLE_ofLe hfour').bind_run]
    by_cases hwidth : ofLe encoding = 2 ∨ ofLe encoding = 4 ∨ ofLe encoding = 8
    · -- a count of four bytes times eight does not overflow
      have hsmall : 8 + ofLe count * ofLe encoding < 2 ^ 64 := by
        have := Nat.mul_le_mul (Nat.le_of_lt hcount) (show ofLe encoding ≤ 8 by omega)
        omega
      by_cases hsize : (encoding ++ (count ++ body)).length
          = (8 + ofLe count * ofLe encoding) % 2 ^ 64
      · have hroom : ofLe count * ofLe encoding ≤ body.length := by
          rw [Nat.mod_eq_of_lt hsmall] at hsize
          simp only [length_append] at hsize
          omega
        obtain ⟨entries, rest, hrun⟩ := times_copyIntText hroom
        refine ⟨.ok entries, rest, false, nofun, by simp, fun o => ?_⟩
        rw [hheader, check_bind hwidth, note_bind_false (Nat.not_le.mpr hsmall), check_bind hsize,
          hrun, Bool.or_false]
      · refine ⟨.fail, body, false, nofun, by simp, fun o => ?_⟩
        rw [hheader, check_bind hwidth, note_bind_false (Nat.not_le.mpr hsmall),
          check_bind_false hsize, Bool.or_false]
    · refine ⟨.fail, body, false, nofun, by simp, fun o => ?_⟩
      rw [hheader, check_bind_false hwidth, Bool.or_false]
  · refine ⟨.fail, blob, false, nofun, by simp, fun o => ?_⟩
    rw [readIntSet, remaining_bind, check_bind_false hlong, Bool.or_false]

end EloqKV.Rdb
