/-
  The reader of Redis payloads and the writers of lengths and strings (`ValidateCount`,
  `class Reader`, `SignExtend`, `AppendRdbLen` and `AppendRdbString` in
  `src/redis_rdb_restore.cpp`).

  `ReadByte` and `ReadBytes` are `nextByte` and `nextBlock` of the library.  A length takes one,
  two, five or nine bytes, told apart by its first one; a fourth kind of first byte announces a
  string in a special encoding.  The LZF decoder and the conversion of texts to scores are
  parameters.
-/
import EloqKV.Lib.Endian
import EloqKV.Lib.Reader
import EloqKV.Numbers

namespace EloqKV.Rdb

open Lib.Endian (le be ofLe ofBe toSigned ofSigned)
open Lib.Reader (Cursor Outcome Read)
open Lib.Reader.Read Lib.Endian

/-! ## Counts -/

/-- `kMaxCollectionEntries`. -/
def maxCollectionEntries : Nat := 2 ^ 20

/-- `ValidateCount`, with the cap all its callers use. -/
def validateCount (count minBytesPerItem remaining : Nat) : Bool :=
  if maxCollectionEntries < count then false
  else if minBytesPerItem = 0 then true
  else count ≤ remaining / minBytesPerItem

/-! ## The reader -/

variable (w : Nat)

/-- `ReadLE` of an unsigned type of `w` bytes. -/
def readLE : Read Nat := do
  let bytes ← nextBlock w
  pure (ofLe bytes)

/-- `memcpy` of an unsigned number of `w` bytes, where nothing looks how much is left. -/
def copyLE : Read Nat := do
  let bytes ← block w
  pure (ofLe bytes)

/-- `ReadBE32` and `ReadBE64`. -/
def readBE : Read Nat := do
  let bytes ← nextBlock w
  pure (ofBe bytes)

def intText (bytes : Bytes) : Bytes := int64ToString (toSigned (8 * bytes.length) (ofLe bytes))

/-- A signed number of `w` bytes, as its text. -/
def readIntText : Read Bytes := do
  let bytes ← nextBlock w
  pure (intText bytes)

def signExtend (value bits : Nat) : Int :=
  let signBit := 2 ^ (bits - 1)
  let value := value % 2 ^ bits
  toSigned 64 (((value ^^^ signBit) + 2 ^ 64 - signBit) % 2 ^ 64)

/-- A signed number of three bytes, as its text, through the sign extension. -/
def readInt24Text : Read Bytes := do
  let raw ← readLE 3
  pure (int64ToString (signExtend raw 24))

/-- `ReadLen` behind its first byte: the length, and whether it is the number of an encoding. -/
def readLenBehind (first : UInt8) : Read (Nat × Bool) :=
  if first.toNat / 64 = 0 then pure (first.toNat % 64, false)
  else if first.toNat / 64 = 1 then do
    let next ← nextByte
    pure (first.toNat % 64 * 256 + next.toNat, false)
  else if first.toNat / 64 = 2 then
    if first = 0x80 then do
      let be32 ← readBE 4
      pure (be32, false)
    else if first = 0x81 then do
      let be64 ← readBE 8
      pure (be64, false)
    else fail
  else pure (first.toNat % 64, true)

def readLen : Read (Nat × Bool) := do
  let first ← nextByte
  readLenBehind first

/-- `ReadLen` where an encoding is refused. -/
def readPlainLen : Read Nat := do
  let len ← readLen
  check (len.2 = false)
  pure len.1

section Parameters

variable (lzf : Bytes → Nat → Outcome Bytes) (string2ld : Bytes → Option UInt64)

/-- The special encodings of `ReadString`. -/
def readEncodedString (encoding : Nat) : Read Bytes :=
  if encoding = 0 then readIntText 1
  else if encoding = 1 then readIntText 2
  else if encoding = 2 then readIntText 4
  else if encoding = 3 then do
    let compressedLen ← readPlainLen
    let originalLen ← readPlainLen
    let bytes ← nextBlock compressedLen
    ofOutcome (lzf bytes originalLen)
  else fail

def readString : Read Bytes := do
  let len ← readLen
  if len.2 then readEncodedString lzf len.1 else nextBlock len.1

def quietNaN : UInt64 := 0x7FF8000000000000

def infinity : UInt64 := 0x7FF0000000000000

/-- `-std::numeric_limits<double>::infinity()`. -/
def negInfinity : UInt64 := 0xFFF0000000000000

def readZSetScore : Read UInt64 := do
  let len ← nextByte
  if len = 253 then pure quietNaN
  else if len = 254 then pure infinity
  else if len = 255 then pure negInfinity
  else do
    let bytes ← nextBlock len.toNat
    ofOption (string2ld bytes)

def readBinaryDouble : Read UInt64 := do
  let bits ← readLE 8
  pure (UInt64.ofNat bits)

end Parameters

/-! ## The writers -/

def appendRdbLen (length : Nat) : Bytes :=
  if length < 2 ^ 6 then [UInt8.ofNat length]
  else if length < 2 ^ 14 then [UInt8.ofNat (64 + length / 256), UInt8.ofNat (length % 256)]
  else if length < 2 ^ 32 then 0x80 :: be 4 length
  else 0x81 :: be 8 length

def appendRdbString (value : Bytes) : Bytes := appendRdbLen value.length ++ value

/-! ## The format -/

/-- A length in one of the four forms it may be written in. -/
inductive LenForm where
  | one (n : Nat) (hn : n < 2 ^ 6)
  | two (n : Nat) (hn : n < 2 ^ 14)
  | five (n : Nat) (hn : n < 2 ^ 32)
  | nine (n : Nat) (hn : n < 2 ^ 64)

namespace LenForm

def value : LenForm → Nat
  | one n _ | two n _ | five n _ | nine n _ => n

def encode : LenForm → Bytes
  | one n _ => [UInt8.ofNat n]
  | two n _ => [UInt8.ofNat (64 + n / 256), UInt8.ofNat (n % 256)]
  | five n _ => 0x80 :: be 4 n
  | nine n _ => 0x81 :: be 8 n

end LenForm

/-- What `ReadLen` accepts: a length in one of the four forms, or the number of an encoding. -/
inductive IsLen : Bytes → Nat × Bool → Prop
  | plain (form : LenForm) : IsLen form.encode (form.value, false)
  | encoding (n : Nat) (hn : n < 2 ^ 6) : IsLen [UInt8.ofNat (192 + n)] (n, true)

/-- What `ReadString` accepts: a length and as many bytes, a number of one, two or four bytes,
or compressed bytes behind their own length and the length of what they expand to. -/
inductive IsString (lzf : Bytes → Nat → Outcome Bytes) : Bytes → Bytes → Prop
  | plain (form : LenForm) (s : Bytes) (hs : s.length = form.value) :
      IsString lzf (form.encode ++ s) s
  | number (e : Nat) (he : e < 3) (bytes : Bytes) (hbytes : bytes.length = 2 ^ e) :
      IsString lzf (UInt8.ofNat (192 + e) :: bytes) (intText bytes)
  | compressed (clen len : LenForm) (bytes s : Bytes) (hbytes : bytes.length = clen.value)
      (hs : lzf bytes len.value = .ok s) :
      IsString lzf (UInt8.ofNat (192 + 3) :: (clen.encode ++ (len.encode ++ bytes))) s

/-! ## Numbers and lengths are read back -/

lemma toNat_ofNat_of_lt {n : Nat} (hn : n < 256) : (UInt8.ofNat n).toNat = n := by
  rw [UInt8.toNat_ofNat', Nat.mod_eq_of_lt hn]

lemma parses_readBE {w n : Nat} (hn : n < 256 ^ w) : Parses (readBE w) (be w n) n := by
  have h := (parses_nextBlock (length_be w n).symm).map ofBe
  rwa [ofBe_be hn] at h

lemma parses_readLE {w n : Nat} (hn : n < 256 ^ w) : Parses (readLE w) (le w n) n := by
  have h := (parses_nextBlock (length_le w n).symm).map ofLe
  rwa [ofLe_le hn] at h

variable {bytes : Bytes}

lemma parses_copyLE_ofLe {w : Nat} (hw : bytes.length = w) :
    Parses (copyLE w) bytes (ofLe bytes) := (parses_block hw.symm).map ofLe

lemma parses_copyLE {w n : Nat} (hn : n < 256 ^ w) : Parses (copyLE w) (le w n) n := by
  have h := parses_copyLE_ofLe (length_le w n)
  rwa [ofLe_le hn] at h

lemma parses_readIntText {w : Nat} (hbytes : w = bytes.length) :
    Parses (readIntText w) bytes (intText bytes) :=
  (parses_nextBlock hbytes).map intText

lemma signExtend_eq {value bits : Nat} (hbits : 0 < bits) (hle : bits ≤ 63)
    (hvalue : value < 2 ^ bits) : signExtend value bits = toSigned bits value := by
  obtain ⟨k, rfl⟩ : ∃ k, bits = k + 1 := ⟨bits - 1, by omega⟩
  have hk : 2 ^ (k + 1) ≤ 2 ^ 63 := Nat.pow_le_pow_right (by decide) hle
  have hcast : ((2 ^ (k + 1) : Nat) : Int) = 2 ^ (k + 1) := by rfl
  simp only [signExtend, Nat.add_sub_cancel, Nat.mod_eq_of_lt hvalue,
    xor_two_pow hvalue, toSigned]
  by_cases hlow : value < 2 ^ k
  · rw [if_pos hlow]
    omega
  · rw [if_neg hlow]
    omega

lemma intText_le {w : Nat} {i : Int} (hw : 0 < w)
    (hi : -2 ^ (8 * w - 1) ≤ i ∧ i < 2 ^ (8 * w - 1)) :
    intText (le w (ofSigned (8 * w) i)) = int64ToString i := by
  have hlt := ofSigned_lt (8 * w) i
  rw [Nat.pow_mul] at hlt
  rw [intText, length_le, ofLe_le hlt,
    toSigned_ofSigned (by omega) hi.1 hi.2]

lemma parses_readIntText_le {w : Nat} {i : Int} (hw : 0 < w)
    (hi : -2 ^ (8 * w - 1) ≤ i ∧ i < 2 ^ (8 * w - 1)) :
    Parses (readIntText w) (le w (ofSigned (8 * w) i)) (int64ToString i) := by
  have h := parses_readIntText (length_le w (ofSigned (8 * w) i)).symm
  rwa [intText_le hw hi] at h

lemma readInt24Text_eq : readInt24Text = readIntText 3 := by
  funext ⟨bytes, o⟩
  rw [readInt24Text, readIntText, readLE]
  rcases Nat.lt_or_ge bytes.length 3 with hlt | hge
  · have hfail := nextBlock_of_lt hlt o
    rw [bind_of_fail (bind_of_fail hfail), bind_of_fail hfail]
  · obtain ⟨pre, rest, rfl, hlen⟩ := exists_block hge
    have hblock := parses_nextBlock hlen.symm rest o
    have hread : (do
        let bytes ← nextBlock 3
        pure (ofLe bytes) : Read Nat) ⟨pre ++ rest, o⟩ = (.ok (ofLe pre), ⟨rest, o⟩) := by
      rw [bind_of_ok hblock, pure_run]
    have hlt := ofLe_lt pre
    rw [hlen] at hlt
    rw [bind_of_ok hread, bind_of_ok hblock, intText, hlen,
      signExtend_eq (by decide) (by decide) (by omega)]

theorem parses_readLen {len : Nat × Bool} (h : IsLen bytes len) : Parses readLen bytes len := by
  cases h with
  | plain form =>
    cases form with
    | one n hn =>
      have hfirst := toNat_ofNat_of_lt (show n < 256 by omega)
      have hbehind : Parses (readLenBehind (UInt8.ofNat n)) [] (n, false) := by
        rw [readLenBehind, hfirst, if_pos (by omega), Nat.mod_eq_of_lt (by omega)]
        exact parses_pure _
      exact (parses_nextByte _).bind hbehind
    | two n hn =>
      have hfirst := toNat_ofNat_of_lt (show 64 + n / 256 < 256 by omega)
      have hnext := toNat_ofNat_of_lt (show n % 256 < 256 by omega)
      have hbehind : Parses (readLenBehind (UInt8.ofNat (64 + n / 256)))
          [UInt8.ofNat (n % 256)] (n, false) := by
        rw [readLenBehind, hfirst, if_neg (by omega), if_pos (by omega)]
        have h := (parses_nextByte (UInt8.ofNat (n % 256))).map
          fun next => ((64 + n / 256) % 64 * 256 + next.toNat, false)
        rwa [hnext, show (64 + n / 256) % 64 * 256 + n % 256 = n by omega] at h
      exact (parses_nextByte _).bind hbehind
    | five n hn =>
      exact (parses_nextByte 0x80).bind ((parses_readBE (w := 4) (by omega)).map (·, false))
    | nine n hn =>
      exact (parses_nextByte 0x81).bind ((parses_readBE (w := 8) (by omega)).map (·, false))
  | encoding n hn =>
    have hfirst := toNat_ofNat_of_lt (show 192 + n < 256 by omega)
    have hbehind : Parses (readLenBehind (UInt8.ofNat (192 + n))) [] (n, true) := by
      rw [readLenBehind, hfirst, if_neg (by omega), if_neg (by omega), if_neg (by omega),
        show (192 + n) % 64 = n by omega]
      exact parses_pure _
    exact (parses_nextByte _).bind hbehind

lemma parses_readPlainLen (form : LenForm) : Parses readPlainLen form.encode form.value := by
  intro rest o
  rw [readPlainLen, (parses_readLen (.plain form)).bind_run, check_bind rfl, pure_run]

lemma exists_lenForm {length : Nat} (h : length < 2 ^ 64) :
    ∃ form : LenForm, form.encode = appendRdbLen length ∧ form.value = length := by
  unfold appendRdbLen
  split_ifs with h6 h14 h32
  · exact ⟨.one length h6, rfl, rfl⟩
  · exact ⟨.two length h14, rfl, rfl⟩
  · exact ⟨.five length h32, rfl, rfl⟩
  · exact ⟨.nine length h, rfl, rfl⟩

/-! ## Nothing else is accepted -/

lemma accepts_readBE : Accepts (readBE w) fun bytes n => bytes = be w n ∧ n < 256 ^ w := by
  refine ((accepts_nextBlock w).map ofBe).mono ?_
  rintro bytes _ ⟨_, ⟨rfl, rfl⟩, rfl⟩
  exact ⟨(be_ofBe bytes).symm, ofBe_lt bytes⟩

lemma accepts_readLE : Accepts (readLE w) fun bytes n => bytes = le w n ∧ n < 256 ^ w := by
  refine ((accepts_nextBlock w).map ofLe).mono ?_
  rintro bytes _ ⟨_, ⟨rfl, rfl⟩, rfl⟩
  exact ⟨(le_ofLe bytes).symm, ofLe_lt bytes⟩

lemma accepts_readIntText :
    Accepts (readIntText w) fun bytes s => bytes.length = w ∧ s = intText bytes := by
  refine ((accepts_nextBlock w).map intText).mono ?_
  rintro bytes _ ⟨_, ⟨rfl, hlen⟩, rfl⟩
  exact ⟨hlen, rfl⟩

lemma accepts_readLenBehind (first : UInt8) :
    Accepts (readLenBehind first) fun bytes len => IsLen (first :: bytes) len := by
  have hbyte := first.toNat_lt
  refine .ite (fun h0 => ?_) fun h0 => .ite (fun h1 => ?_) fun h1 =>
    .ite (fun h2 => ?_) fun h2 => ?_
  · refine (accepts_pure _).mono ?_
    rintro _ _ ⟨rfl, rfl⟩
    have hn : first.toNat % 64 = first.toNat := by omega
    have hform := IsLen.plain (.one (first.toNat % 64) (by omega))
    rwa [LenForm.encode, LenForm.value, hn, UInt8.ofNat_toNat, ← hn] at hform
  · refine (accepts_nextByte.map fun next => (first.toNat % 64 * 256 + next.toNat, false)).mono ?_
    rintro _ _ ⟨next, rfl, rfl⟩
    have hbyte' := next.toNat_lt
    have hform := IsLen.plain (.two (first.toNat % 64 * 256 + next.toNat) (by omega))
    have hhigh : 64 + (first.toNat % 64 * 256 + next.toNat) / 256 = first.toNat := by omega
    have hlow : (first.toNat % 64 * 256 + next.toNat) % 256 = next.toNat := by omega
    rwa [LenForm.encode, hhigh, hlow, UInt8.ofNat_toNat, UInt8.ofNat_toNat] at hform
  · refine .ite (fun h80 => ?_) fun _ => .ite (fun h81 => ?_) fun _ => accepts_fail
    · refine ((accepts_readBE 4).map fun n => (n, false)).mono ?_
      rintro _ _ ⟨n, ⟨rfl, hn⟩, rfl⟩
      exact h80 ▸ .plain (.five n (by omega))
    · refine ((accepts_readBE 8).map fun n => (n, false)).mono ?_
      rintro _ _ ⟨n, ⟨rfl, hn⟩, rfl⟩
      exact h81 ▸ .plain (.nine n (by omega))
  · refine (accepts_pure _).mono ?_
    rintro _ _ ⟨rfl, rfl⟩
    have hform := IsLen.encoding (first.toNat % 64) (by omega)
    rwa [show 192 + first.toNat % 64 = first.toNat by omega, UInt8.ofNat_toNat] at hform

lemma accepts_readLen : Accepts readLen IsLen := by
  refine (accepts_nextByte.bind accepts_readLenBehind).mono ?_
  rintro _ len ⟨_, _, first, rfl, rfl, hlen⟩
  exact hlen

lemma accepts_readPlainLen : Accepts readPlainLen fun bytes n =>
    ∃ form : LenForm, bytes = form.encode ∧ n = form.value := by
  refine (accepts_readLen.bind fun len => (accepts_check _).bind fun _ =>
    accepts_pure len.1).mono ?_
  rintro _ _ ⟨pre, _, len, rfl, hlen, _, _, _, rfl, ⟨rfl, hplain⟩, rfl, rfl⟩
  cases hlen with
  | plain form => exact ⟨form, List.append_nil _, rfl⟩
  | encoding n hn => exact nomatch hplain

lemma clean_readLE : Clean (readLE w) :=
  (clean_nextBlock w).bind fun _ => clean_pure _

lemma clean_readBE : Clean (readBE w) :=
  (clean_nextBlock w).bind fun _ => clean_pure _

lemma clean_readIntText : Clean (readIntText w) :=
  (clean_nextBlock w).bind fun _ => clean_pure _

lemma clean_readLen : Clean readLen := by
  apply clean_nextByte.bind
  intro first
  have hbe : ∀ w, Clean (readBE w >>= fun n => pure (n, false)) := fun w =>
    (clean_readBE w).bind fun _ => clean_pure _
  exact (clean_pure _).ite ((clean_nextByte.bind fun _ => clean_pure _).ite
    (((hbe 4).ite ((hbe 8).ite clean_fail)).ite (clean_pure _)))

lemma clean_readPlainLen : Clean readPlainLen :=
  clean_readLen.bind fun _ => (clean_check _).bind fun _ => clean_pure _

lemma reads_readPlainLen : Reads readPlainLen
    (fun bytes n => ∃ form : LenForm, bytes = form.encode ∧ n = form.value) fun _ => False := by
  refine .of_clean clean_readPlainLen ?_ accepts_readPlainLen
  rintro _ _ ⟨form, rfl, rfl⟩
  exact parses_readPlainLen form

lemma clean_readZSetScore (string2ld : Bytes → Option UInt64) :
    Clean (readZSetScore string2ld) := by
  have htext : ∀ len : UInt8, Clean (do
      let bytes ← nextBlock len.toNat
      ofOption (string2ld bytes)) := fun len => (clean_nextBlock _).bind fun _ => clean_ofOption _
  exact clean_nextByte.bind fun len =>
    (clean_pure _).ite ((clean_pure _).ite ((clean_pure _).ite (htext len)))

lemma clean_readBinaryDouble : Clean readBinaryDouble :=
  (clean_readLE 8).bind fun _ => clean_pure _

section Strings

variable {lzf : Bytes → Nat → Outcome Bytes}

theorem parses_readString {bytes s : Bytes} (h : IsString lzf bytes s) :
    Parses (readString lzf) bytes s := by
  cases h with
  | plain form s hs => exact (parses_readLen (.plain form)).bind (parses_nextBlock hs.symm)
  | number e he bytes hbytes =>
    have hlen := parses_readLen (.encoding e (by omega))
    refine hlen.bind (f := fun len => if len.2 then readEncodedString lzf len.1
      else nextBlock len.1) ?_
    have hcase : e = 0 ∨ e = 1 ∨ e = 2 := by omega
    rcases hcase with rfl | rfl | rfl
    · exact parses_readIntText hbytes.symm
    · exact parses_readIntText hbytes.symm
    · exact parses_readIntText hbytes.symm
  | compressed clen len bytes s hbytes hs =>
    have hlen := parses_readLen (.encoding 3 (by omega))
    refine hlen.bind (f := fun len => if len.2 then readEncodedString lzf len.1
      else nextBlock len.1) ?_
    refine (parses_readPlainLen clen).bind ((parses_readPlainLen len).bind ?_)
    intro rest o
    rw [(parses_nextBlock hbytes.symm).bind_run, ofOutcome, hs]

lemma accepts_readEncodedString (encoding : Nat) :
    Accepts (readEncodedString lzf encoding) fun bytes s =>
      IsString lzf (UInt8.ofNat (192 + encoding) :: bytes) s := by
  -- a number, by its width
  have hnumber : ∀ {e : Nat}, encoding = e → e < 3 → Accepts (readIntText (2 ^ e)) fun bytes s =>
        IsString lzf (UInt8.ofNat (192 + encoding) :: bytes) s := by
    rintro _ rfl he
    refine (accepts_readIntText _).mono ?_
    rintro bytes _ ⟨hlen, rfl⟩
    exact .number encoding he bytes hlen
  refine .ite (fun h0 => hnumber h0 (by decide)) fun _ => .ite (fun h1 => hnumber h1 (by decide))
    fun _ => .ite (fun h2 => hnumber h2 (by decide)) fun _ => .ite (fun h3 => ?_)
    fun _ => accepts_fail
  refine (accepts_readPlainLen.bind fun compressedLen =>
    accepts_readPlainLen.bind fun originalLen =>
    (accepts_nextBlock compressedLen).bind fun bytes =>
      accepts_ofOutcome (lzf bytes originalLen)).mono ?_
  rintro _ s ⟨_, _, _, rfl, ⟨clen, rfl, rfl⟩, _, _, _, rfl, ⟨len, rfl, rfl⟩, _, _, bytes, rfl,
    ⟨rfl, hbytes⟩, rfl, hs⟩
  rw [List.append_nil, h3]
  exact .compressed clen len _ s hbytes hs

lemma accepts_readString : Accepts (readString lzf) (IsString lzf) := by
  have hbehind : ∀ len : Nat × Bool,
      Accepts (if len.2 then readEncodedString lzf len.1 else nextBlock len.1) fun bytes s =>
        ∀ pre, IsLen pre len → IsString lzf (pre ++ bytes) s := by
    intro len
    refine .ite (fun hencoded => ?_) fun hplain => ?_
    · refine (accepts_readEncodedString len.1).mono fun bytes s hs pre hpre => ?_
      cases hpre with
      | plain form => exact nomatch hencoded
      | encoding n hn => exact hs
    · refine (accepts_nextBlock len.1).mono ?_
      rintro _ s ⟨rfl, hs⟩ pre hpre
      cases hpre with
      | plain form => exact .plain form _ hs
      | encoding n hn => exact absurd rfl hplain
  refine (accepts_readLen.bind hbehind).mono ?_
  rintro _ s ⟨pre, post, len, rfl, hlen, hs⟩
  exact hs pre hlen

lemma clean_readString (hlzf : ∀ bytes n, lzf bytes n ≠ .fault) : Clean (readString lzf) := by
  have hcompressed : Clean (do
      let compressedLen ← readPlainLen
      let originalLen ← readPlainLen
      let bytes ← nextBlock compressedLen
      ofOutcome (lzf bytes originalLen)) :=
    clean_readPlainLen.bind fun _ => clean_readPlainLen.bind fun _ =>
      (clean_nextBlock _).bind fun _ => clean_ofOutcome (hlzf _ _)
  have hencoded : ∀ encoding, Clean (readEncodedString lzf encoding) := fun encoding =>
    (clean_readIntText 1).ite ((clean_readIntText 2).ite ((clean_readIntText 4).ite
      (hcompressed.ite clean_fail)))
  exact clean_readLen.bind fun len => (hencoded len.1).ite (clean_nextBlock len.1)

lemma reads_readString (hlzf : ∀ bytes n, lzf bytes n ≠ .fault) :
    Reads (readString lzf) (IsString lzf) fun _ => False :=
  .of_clean (clean_readString hlzf) parses_readString accepts_readString

end Strings

lemma isString_appendRdbString (lzf : Bytes → Nat → Outcome Bytes) {value : Bytes}
    (h : value.length < 2 ^ 64) : IsString lzf (appendRdbString value) value := by
  obtain ⟨form, hbytes, hvalue⟩ := exists_lenForm h
  rw [appendRdbString, ← hbytes]
  exact .plain form value hvalue.symm

lemma parses_appendRdbLen {length : Nat} (h : length < 2 ^ 64) :
    Parses readPlainLen (appendRdbLen length) length := by
  obtain ⟨form, hbytes, hvalue⟩ := exists_lenForm h
  have hform := parses_readPlainLen form
  rwa [hbytes, hvalue] at hform

end EloqKV.Rdb
