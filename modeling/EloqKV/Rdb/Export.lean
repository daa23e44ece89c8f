/-
  The exporter to RDB files (`RedisRdbUtil` in `src/tools/eloqkv2rdb/eloqkv2rdb.cpp`), read with
  the string rules of `Reader::ReadString`.

  `OutputString` turns a text that looks like a number into one.  The number has to be a 32-bit one
  and the text the one `std::to_string` would write, and a number of sixteen bits is announced as
  such but written with four bytes.
-/
import EloqKV.Lib.Lagging
import EloqKV.Rdb.Decode
import EloqKV.Rdb.Lzf

open List hiding Cursor

namespace EloqKV.Rdb

open Lib.Endian (le be ofLe toSigned ofSigned)
open Lib.Reader (Cursor Outcome Read)
open Lib.Reader.Read
open Lib.Lagging
open Objects (Contents HashOrder Payload RedisObject ScoreBits)

/-! ## The exporter -/

variable (s : Bytes)

/-- `number_pattern`: `^-?\d+$`. -/
def matchesNumberPattern : Bool :=
  let digits := match s with
    | 45 :: rest => rest
    | _ => s
  !digits.isEmpty && digits.all isDigit

/-- `std::stol`; `none` is an exception (no digit, or a value of more than 64 bits). -/
def stol : Option Int :=
  let s := s.dropWhile isSpace
  let (neg, s) := match s with
    | 45 :: rest => (true, rest)
    | 43 :: rest => (false, rest)
    | _ => (false, s)
  let digits := s.takeWhile isDigit
  let value : Int := if neg then -(digitsVal digits : Int) else digitsVal digits
  if digits = [] ∨ ¬IsInt64 value then none else some value

/-- `OutputLengthEncoding`; its argument is a `uint32_t`. -/
def outputLengthEncoding (n : Nat) (special : Bool) : Option Bytes :=
  let n := n % 2 ^ 32
  if special then
    if 0x3F < n then none else some [UInt8.ofNat (192 + n)]
  else if n ≤ 0x3F then some [UInt8.ofNat n]
  else if n ≤ 0x3FFF then some [UInt8.ofNat (64 + n / 256), UInt8.ofNat (n % 256)]
  else some (0x80 :: be 4 n)

/-- The end of `OutputString`: not a number. -/
def outputText : Option Bytes := do
  let head ← outputLengthEncoding s.length false
  some (head ++ s)

/-- `OutputString` of a text that reads as `n`. -/
def outputNumber (n : Int) : Option Bytes :=
  if -128 ≤ n ∧ n ≤ 127 then do
    let head ← outputLengthEncoding 0 true
    some (head ++ le 1 (ofSigned 8 n))
  else if -32768 ≤ n ∧ n ≤ 32767 then do
    let head ← outputLengthEncoding 1 true
    -- all four bytes of `n`
    some (head ++ le 4 (ofSigned 32 n))
  else if -2147483648 ≤ n ∧ n ≤ 2147483647 then do
    let head ← outputLengthEncoding 2 true
    some (head ++ le 4 (ofSigned 32 n))
  else outputText s

def outputString : Option Bytes :=
  if matchesNumberPattern s then do
    let value ← stol s
    outputNumber s (toInt32 value)
  else outputText s

def outputTTL (ttl : Nat) : Bytes := 0xFD :: le 4 (ttl / 1000 % 2 ^ 32)

/-- A count of elements; `OutputLengthEncoding` throws for special encodings only. -/
def outputCount (n : Nat) : Bytes := (outputLengthEncoding n false).getD []

section Records

variable (scoreText : UInt64 → Bytes)

/-- A score: `std::to_string` of the double, if that is a number. -/
def outputScore (score : UInt64) : Option Bytes :=
  let magnitude := score.toNat % 2 ^ 63
  if infinity.toNat < magnitude then some [0xFD]
  else if magnitude = infinity.toNat then
    if 2 ^ 63 ≤ score.toNat then some [0xFF] else some [0xFE]
  else outputString (scoreText score)

def exportType : Contents → RdbType
  | .string _ => .string
  | .list _ => .list
  | .hash _ => .hash
  | .set _ => .set
  | .zset _ => .zset

/-- What `ParseEloqKV` writes behind the key. -/
def outputValue : Contents → Option Bytes
  | .string value => outputString value
  | .list elements => writeCounted outputCount outputString elements
  | .hash pairs => writeCounted outputCount (writePair outputString outputString) pairs
  | .set members => writeCounted outputCount outputString members
  | .zset pairs => writeCounted outputCount (writePair outputString (outputScore scoreText)) pairs

/-- What `ParseEloqKV` writes in front of the key. -/
def recordHead (ttl : Option Nat) (c : Contents) : Bytes :=
  (ttl.map outputTTL).getD [] ++ [(exportType c).toByte]

def parseEloqKV {S : Type} [ScoreBits S] (order : HashOrder) (key : Bytes) (obj : RedisObject S) :
    Option Bytes :=
  let c := obj.payload.contents order
  (writePair outputString (outputValue scoreText) (key, c)).map (recordHead obj.ttl c ++ ·)

end Records

/-! ## A reader of the file -/

section ReadRecords

variable (lzf : Bytes → Nat → Outcome Bytes) (string2ld : Bytes → Option UInt64)

/-- The value of a record; the exporter writes these five types. -/
def readValue : RdbType → Read Contents
  | .string => do
    let value ← readString lzf
    pure (.string value)
  | .list => do
    let elements ← readCounted readPlainLen (readString lzf)
    pure (.list elements)
  | .hash => do
    let pairs ← readCounted readPlainLen (readPair (readString lzf) (readString lzf))
    pure (.hash pairs)
  | .set => do
    let members ← readCounted readPlainLen (readString lzf)
    pure (.set members)
  | .zset => do
    let pairs ← readCounted readPlainLen (readPair (readString lzf) (readZSetScore string2ld))
    pure (.zset pairs)
  | _ => fail

/-- The seconds of a deadline, if there is one, and the type. -/
def readRecordHead : Read (Option Nat × UInt8) := do
  let first ← nextByte
  if first = 0xFD then do
    let seconds ← readLE 4
    let type ← nextByte
    pure (some seconds, type)
  else pure (none, first)

def readRecordKey : Read ((Option Nat × UInt8) × Bytes) := readPair readRecordHead (readString lzf)

def readRecord : Read (Option Nat × Bytes × Contents) := do
  let head ← readRecordHead
  match RdbType.ofByte head.2 with
  | some type => do
    let record ← readPair (readString lzf) (readValue lzf string2ld type)
    pure (head.1, record)
  | none => fail

end ReadRecords

/-! ## What can be exported -/

/-- The number a text stands for that matches the pattern. -/
def numberValue : Bytes → Int
  | 45 :: digits => -(digitsVal digits : Int)
  | digits => digitsVal digits

/-- The numbers read exactly: those of eight bits, and those that need 32. -/
def ExportableNumber (n : Int) : Prop :=
  (-128 ≤ n ∧ n ≤ 127) ∨ (-2 ^ 31 ≤ n ∧ n < -32768) ∨ (32767 < n ∧ n < 2 ^ 31)

/-- The strings that come back: a text that looks like a number has to be the text of such a
number, any other one has to have a length of 32 bits. -/
def Exportable : Prop :=
  if matchesNumberPattern s then
    int64ToString (numberValue s) = s ∧ ExportableNumber (numberValue s)
  else s.length < 2 ^ 32

instance decidableExportableNumber (n : Int) : Decidable (ExportableNumber n) :=
  inferInstanceAs (Decidable (_ ∨ _ ∨ _))

instance decidableExportable (s : Bytes) : Decidable (Exportable s) :=
  inferInstanceAs (Decidable (if matchesNumberPattern s = true then _ ∧ _ else _))

/-- All strings of the contents come back, and their number. -/
def ExportableContents : Contents → Prop
  | .string value => Exportable value
  | .list elements => elements.length < 2 ^ 32 ∧ ∀ e ∈ elements, Exportable e
  | .hash pairs => pairs.length < 2 ^ 32 ∧ ∀ p ∈ pairs, Exportable p.1 ∧ Exportable p.2
  | .set members => members.length < 2 ^ 32 ∧ ∀ m ∈ members, Exportable m
  | .zset pairs => pairs.length < 2 ^ 32 ∧ ∀ p ∈ pairs, Exportable p.1

/-! ## Lengths -/

lemma outputLengthEncoding_plain (n : Nat) :
    outputLengthEncoding n false = some (appendRdbLen (n % 2 ^ 32)) := by
  have hlt : n % 2 ^ 32 < 2 ^ 32 := Nat.mod_lt n (by decide)
  unfold outputLengthEncoding appendRdbLen
  rw [if_neg Bool.false_ne_true]
  by_cases h6 : n % 2 ^ 32 < 2 ^ 6
  · rw [if_pos (by omega), if_pos h6]
  · rw [if_neg (by omega), if_neg h6]
    by_cases h14 : n % 2 ^ 32 < 2 ^ 14
    · rw [if_pos (by omega), if_pos h14]
    · rw [if_neg (by omega), if_neg h14, if_pos hlt]

lemma outputCount_eq (n : Nat) : outputCount n = appendRdbLen (n % 2 ^ 32) := by
  rw [outputCount, outputLengthEncoding_plain, Option.getD_some]

lemma outputText_eq : outputText s = some (appendRdbLen (s.length % 2 ^ 32) ++ s) := by
  unfold outputText
  rw [outputLengthEncoding_plain]
  rfl

/-! ## Numbers -/

/-- A text of the pattern is a numeral, with leading zeros perhaps, and `stol` throws only on its
size. -/
lemma stol_of_pattern {s : Bytes} (hs : matchesNumberPattern s = true) :
    stol s = if IsInt64 (numberValue s) then some (numberValue s) else none := by
  have hdigits : ∀ ds : Bytes, (!ds.isEmpty && ds.all isDigit) = true →
      ds ≠ [] ∧ ds.takeWhile isDigit = ds := by
    intro ds h
    rw [Bool.and_eq_true, Bool.not_eq_true', isEmpty_eq_false_iff] at h
    exact ⟨h.1, takeWhile_eq_self_iff.mpr (all_eq_true.mp h.2)⟩
  have hend : ∀ value : Int, ∀ ds : Bytes, ds ≠ [] →
      (if ds = [] ∨ ¬IsInt64 value then none else some value)
        = if IsInt64 value then some value else none := by
    intro value ds hds
    by_cases hvalue : IsInt64 value
    · rw [if_neg (by simp [hds, hvalue]), if_pos hvalue]
    · rw [if_pos (.inr hvalue), if_neg hvalue]
  unfold matchesNumberPattern at hs
  unfold stol numberValue
  split at hs
  · rename_i ds
    obtain ⟨hne, htake⟩ := hdigits ds hs
    rw [dropWhile_cons_of_neg (by decide)]
    simp only [htake, if_true]
    exact hend _ ds hne
  · rename_i hminus
    obtain ⟨hne, htake⟩ := hdigits s hs
    cases s with
    | nil => exact absurd rfl hne
    | cons b bs =>
      have hb : isDigit b = true := takeWhile_eq_self_iff.mp htake b mem_cons_self
      obtain ⟨hspace, hb45, hb43⟩ := of_isDigit hb
      rw [dropWhile_cons_of_neg (by simp [hspace])]
      dsimp only
      split
      · rename_i heq
        exact absurd (List.cons.inj heq).1 hb45
      · rename_i heq
        exact absurd (List.cons.inj heq).1 hb43
      · rw [htake]
        exact hend _ (b :: bs) hne

lemma numberValue_int64ToString (n : Int) : numberValue (int64ToString n) = n := by
  have hval := digitsVal_stdToString n.natAbs
  unfold int64ToString
  by_cases hneg : n < 0
  · rw [if_pos hneg]
    show -(digitsVal (stdToString n.natAbs) : Int) = n
    rw [hval]
    omega
  · rw [if_neg hneg, numberValue, hval]
    · omega
    · -- the first character is a digit and no sign
      intro digits hminus
      have hmem : (45 : UInt8) ∈ stdToString n.natAbs := hminus ▸ mem_cons_self
      exact notMem_stdToString (by decide) _ hmem

lemma toInt32_range (n : Int) : -2 ^ 31 ≤ toInt32 n ∧ toInt32 n < 2 ^ 31 := by
  unfold toInt32
  omega

lemma toInt32_eq_iff (n : Int) : toInt32 n = n ↔ -2 ^ 31 ≤ n ∧ n < 2 ^ 31 := by
  unfold toInt32
  omega

/-- What is left of four bytes behind the two of a number that fits into these: its sign. -/
lemma le_four_of_int16 {n : Int} (hlo : -32768 ≤ n) (hhi : n ≤ 32767) :
    ∃ b : UInt8, (b = 0 ∨ b = 255) ∧ le 4 (ofSigned 32 n) = le 2 (ofSigned 16 n) ++ [b, b] := by
  have hbyte : ∀ {m m' : Nat}, m % 256 = m' % 256 → UInt8.ofNat m = UInt8.ofNat m' := by
    intro m m' h
    apply UInt8.toNat_inj.mp
    rw [UInt8.toNat_ofNat', UInt8.toNat_ofNat', h]
  -- the high half is the sign, sixteen times
  have hsplit : ∃ high, (high = 0 ∨ high = 65535) ∧
      ofSigned 32 n = ofSigned 16 n + 65536 * high ∧ ofSigned 16 n < 65536 := by
    unfold ofSigned
    by_cases hneg : n < 0
    · exact ⟨65535, .inr rfl, by omega, by omega⟩
    · exact ⟨0, .inl rfl, by omega, by omega⟩
  obtain ⟨high, hhigh, hsum, hlow⟩ := hsplit
  generalize ofSigned 16 n = low at *
  refine ⟨UInt8.ofNat high, ?_, ?_⟩
  · rcases hhigh with rfl | rfl
    · exact .inl rfl
    · exact .inr rfl
  · rw [hsum]
    show [_, _, _, _] = [_, _, _, _]
    rw [hbyte (show (low + 65536 * high) % 256 = low % 256 by omega),
      hbyte (show (low + 65536 * high) / 256 % 256 = low / 256 % 256 by omega),
      hbyte (show (low + 65536 * high) / 256 / 256 % 256 = high % 256 by omega),
      hbyte (show (low + 65536 * high) / 256 / 256 / 256 % 256 = high % 256 by omega)]

/-! ## Strings -/

/-- What the reader leaves of a number of sixteen bits. -/
def SignBytes (l : Bytes) : Prop := l = [0, 0] ∨ l = [255, 255]

section Strings

variable {lzf : Bytes → Nat → Outcome Bytes}

variable (lzf) in
lemma exists_outputNumber (s : Bytes) {n : Int} (hn : -2 ^ 31 ≤ n ∧ n < 2 ^ 31) :
    ∃ pre post, outputNumber s n = some (pre ++ post) ∧ IsString lzf pre (int64ToString n) ∧
      ((post = [] ∧ ExportableNumber n) ∨ (SignBytes post ∧ ¬ExportableNumber n)) := by
  unfold outputNumber ExportableNumber
  by_cases h8 : -128 ≤ n ∧ n ≤ 127
  · have hform : IsString lzf _ _ := .number 0 (by decide) (le 1 (ofSigned 8 n)) rfl
    rw [intText_le (w := 1) (by decide) ⟨by omega, by omega⟩] at hform
    refine ⟨_, [], ?_, hform, .inl ⟨rfl, .inl h8⟩⟩
    rw [if_pos h8, append_nil]
    rfl
  rw [if_neg h8]
  by_cases h16 : -32768 ≤ n ∧ n ≤ 32767
  · -- the encoding announces two bytes
    have hform : IsString lzf _ _ := .number 1 (by decide) (le 2 (ofSigned 16 n)) rfl
    rw [intText_le (w := 2) (by decide) ⟨by omega, by omega⟩] at hform
    obtain ⟨b, hb, hsplit⟩ := le_four_of_int16 h16.1 h16.2
    refine ⟨_, [b, b], ?_, hform, .inr ⟨?_, by omega⟩⟩
    · rw [if_pos h16, hsplit]
      rfl
    · rcases hb with rfl | rfl
      · exact .inl rfl
      · exact .inr rfl
  · have hform : IsString lzf _ _ := .number 2 (by decide) (le 4 (ofSigned 32 n)) rfl
    rw [intText_le (w := 4) (by decide) ⟨by omega, by omega⟩] at hform
    refine ⟨_, [], ?_, hform, .inl ⟨rfl, by omega⟩⟩
    rw [if_neg h16, if_pos (by omega), append_nil]
    rfl

variable {s : Bytes}

lemma int64ToString_toInt32_eq_iff :
    int64ToString (toInt32 (numberValue s)) = s ↔
      int64ToString (numberValue s) = s ∧ -2 ^ 31 ≤ numberValue s ∧ numberValue s < 2 ^ 31 := by
  constructor
  · intro h
    have hsame : toInt32 (numberValue s) = numberValue s := by
      conv_rhs => rw [← h, numberValue_int64ToString]
    rw [hsame] at h
    exact ⟨h, (toInt32_eq_iff _).mp hsame⟩
  · rintro ⟨h, hrange⟩
    rw [(toInt32_eq_iff _).mpr hrange, h]

lemma ExportableNumber.range {n : Int} (h : ExportableNumber n) : -2 ^ 31 ≤ n ∧ n < 2 ^ 31 := by
  unfold ExportableNumber at h
  omega

lemma outputString_of_pattern (hs : matchesNumberPattern s = true) :
    outputString s = if IsInt64 (numberValue s) then outputNumber s (toInt32 (numberValue s))
      else none := by
  unfold outputString
  rw [if_pos hs, stol_of_pattern hs]
  by_cases hvalue : IsInt64 (numberValue s)
  · rw [if_pos hvalue, if_pos hvalue]
    rfl
  · rw [if_neg hvalue, if_neg hvalue]
    rfl

lemma outputString_of_not_pattern (hs : ¬matchesNumberPattern s = true) :
    outputString s = some (appendRdbLen (s.length % 2 ^ 32) ++ s) := by
  rw [outputString, if_neg hs, outputText_eq]

lemma exportable_of_pattern (hs : matchesNumberPattern s = true) :
    Exportable s ↔ int64ToString (toInt32 (numberValue s)) = s ∧
      ExportableNumber (toInt32 (numberValue s)) := by
  unfold Exportable
  rw [if_pos hs, int64ToString_toInt32_eq_iff]
  constructor
  · rintro ⟨htext, hnumber⟩
    rw [(toInt32_eq_iff _).mpr hnumber.range]
    exact ⟨⟨htext, hnumber.range⟩, hnumber⟩
  · rintro ⟨⟨htext, hrange⟩, hnumber⟩
    rw [(toInt32_eq_iff _).mpr hrange] at hnumber
    exact ⟨htext, hnumber⟩

variable (lzf) in
/-- **What is written starts with a form the reader knows.**  The string comes back and nothing
is left, or another string comes back, or the bytes of a sign are left. -/
theorem outputString_cases {s out : Bytes} (h : outputString s = some out) :
    ∃ pre post t, out = pre ++ post ∧ IsString lzf pre t ∧
      ((Exportable s ∧ t = s ∧ post = []) ∨ (¬Exportable s ∧ (t ≠ s ∨ SignBytes post))) := by
  by_cases hs : matchesNumberPattern s = true
  · have hiff := exportable_of_pattern hs
    rw [outputString_of_pattern hs] at h
    by_cases hvalue : IsInt64 (numberValue s)
    · rw [if_pos hvalue] at h
      obtain ⟨pre, post, hout, hform, hpost⟩ :=
        exists_outputNumber lzf s (toInt32_range (numberValue s))
      obtain rfl := Option.some.inj (h.symm.trans hout)
      refine ⟨pre, post, _, rfl, hform, ?_⟩
      rcases hpost with ⟨hnil, hnumber⟩ | ⟨hsign, hnumber⟩
      · by_cases htext : int64ToString (toInt32 (numberValue s)) = s
        · exact .inl ⟨hiff.mpr ⟨htext, hnumber⟩, htext, hnil⟩
        · exact .inr ⟨fun hexp => htext (hiff.mp hexp).1, .inl htext⟩
      · exact .inr ⟨fun hexp => hnumber (hiff.mp hexp).2, .inr hsign⟩
    · rw [if_neg hvalue] at h
      exact nomatch h
  · have hiff : Exportable s ↔ s.length < 2 ^ 32 := by rw [Exportable, if_neg hs]
    rw [outputString_of_not_pattern hs] at h
    cases h
    -- the reader takes as many bytes as the narrowed length says
    have hlt : s.length % 2 ^ 32 < 2 ^ 32 := Nat.mod_lt _ (by decide)
    have htake : (s.take (s.length % 2 ^ 32)).length = s.length % 2 ^ 32 := by
      rw [length_take]
      exact Nat.min_eq_left (Nat.mod_le _ _)
    have hform : IsString lzf (appendRdbString (s.take (s.length % 2 ^ 32))) _ :=
      isString_appendRdbString lzf (by omega)
    rw [appendRdbString, htake] at hform
    refine ⟨_, s.drop (s.length % 2 ^ 32), _, ?_, hform, ?_⟩
    · rw [append_assoc, take_append_drop]
    · by_cases hlen : s.length < 2 ^ 32
      · rw [Nat.mod_eq_of_lt hlen, take_length, drop_length]
        exact .inl ⟨hiff.mpr hlen, rfl, rfl⟩
      · refine .inr ⟨fun hexp => hlen (hiff.mp hexp), .inl fun hsame => ?_⟩
        rw [hsame] at htake
        omega

lemma exists_outputString (hs : Exportable s) : ∃ out, outputString s = some out := by
  by_cases hpattern : matchesNumberPattern s = true
  · rw [Exportable, if_pos hpattern] at hs
    have hrange := hs.2.range
    have hvalue : IsInt64 (numberValue s) := ⟨by omega, by omega⟩
    obtain ⟨pre, post, hout, -⟩ :=
      exists_outputNumber (fun _ _ => .fail) s (toInt32_range (numberValue s))
    rw [outputString_of_pattern hpattern, if_pos hvalue, hout]
    exact ⟨_, rfl⟩
  · exact ⟨_, outputString_of_not_pattern hpattern⟩

lemma readString_late {rest : Bytes} {o : Bool} {c₀ c : Cursor} {t : Bytes}
    (hlate : Late SignBytes rest o c₀) (hread : readString lzf c₀ = (.ok t, c)) :
    t = [] ∧ c = ⟨0 :: rest, o⟩ := by
  obtain ⟨l, rfl | rfl, rfl⟩ := hlate
  · have hempty : IsString lzf (appendRdbString []) [] := isString_appendRdbString lzf (by decide)
    have hsame := (parses_readString hempty (0 :: rest) o).symm.trans hread
    exact ⟨(Outcome.ok.inj (Prod.mk.inj hsame).1).symm, (Prod.mk.inj hsame).2.symm⟩
  · exact nomatch hread

lemma outputString_nil : outputString [] = some [0] := rfl

variable (lzf) in
theorem lags_string : Lags SignBytes outputString (readString lzf) Exportable where
  parses := by
    intro s hs
    obtain ⟨out, hout⟩ := exists_outputString hs
    obtain ⟨pre, post, t, rfl, hform, hcases⟩ := outputString_cases lzf hout
    rcases hcases with ⟨-, rfl, rfl⟩ | ⟨hnot, -⟩
    · refine ⟨_, hout, ?_⟩
      rw [append_nil]
      exact parses_readString hform
    · exact absurd hs hnot
  inStep := by
    intro s out rest o c hout hread
    obtain ⟨pre, post, t, rfl, hform, hcases⟩ := outputString_cases lzf hout
    rw [append_assoc, parses_readString hform] at hread
    obtain rfl : t = s := Outcome.ok.inj (Prod.mk.inj hread).1
    obtain rfl := (Prod.mk.inj hread).2
    rcases hcases with ⟨hexp, -, rfl⟩ | ⟨-, hne | hsign⟩
    · exact .inl ⟨hexp, rfl⟩
    · exact absurd rfl hne
    · exact .inr ⟨post, hsign, rfl⟩
  behind := by
    intro s out rest o c₀ c hout hlate hread
    obtain ⟨rfl, rfl⟩ := readString_late hlate hread
    -- an empty string was written as one zero, which takes the place of the one just read
    obtain rfl := Option.some.inj (outputString_nil.symm.trans hout)
    exact ⟨[0, 0], .inl rfl, rfl⟩

lemma lagsCount_outputCount : LagsCount SignBytes outputCount readPlainLen (2 ^ 32) where
  parses := by
    intro n
    refine ⟨n % 2 ^ 32, ?_, by omega⟩
    rw [outputCount_eq]
    exact parses_appendRdbLen (by omega)
  behind := by
    rintro n m rest o _ c ⟨l, rfl | rfl, rfl⟩ hread
    · have hzero : Parses readPlainLen (appendRdbLen 0) 0 := parses_appendRdbLen (by decide)
      have hsame := (hzero (0 :: (outputCount n ++ rest)) o).symm.trans hread
      obtain rfl := Outcome.ok.inj (Prod.mk.inj hsame).1
      obtain rfl := (Prod.mk.inj hsame).2
      refine ⟨rfl, ?_⟩
      rintro rfl
      exact ⟨[0, 0], .inl rfl, rfl⟩
    · exact nomatch hread

end Strings

/-! ## Records -/

section RecordsBack

variable (lzf : Bytes → Nat → Outcome Bytes) (string2ld : Bytes → Option UInt64)
  (scoreText : UInt64 → Bytes)

lemma parses_recordHead (ttl : Option Nat) (c : Contents) :
    Parses readRecordHead (recordHead ttl c)
      (ttl.map (· / 1000 % 2 ^ 32), (exportType c).toByte) := by
  have htype : ∀ type : RdbType, type.toByte ≠ 0xFD := by
    intro type
    cases type <;> decide
  cases ttl with
  | none =>
    intro rest o
    show (if (exportType c).toByte = 0xFD then _ else _ : Read _) _ = _
    rw [if_neg (htype _)]
    rfl
  | some ttl =>
    have hseconds : Parses (readLE 4) (le 4 (ttl / 1000 % 2 ^ 32)) (ttl / 1000 % 2 ^ 32) :=
      parses_readLE (Nat.mod_lt _ (by decide))
    exact (parses_nextByte 0xFD).bind (hseconds.bind ((parses_nextByte _).map (_, ·)))

lemma parses_bind_iff {α β : Type} {x : Read α} {f : α → Read β} {a : α} {b : β}
    {pre post : Bytes} (hx : Parses x pre a) :
    Parses (x >>= f) (pre ++ post) b ↔ Parses (f a) post b := by
  constructor
  · intro h rest o
    have hrun := h rest o
    rwa [append_assoc, bind_of_ok (hx _ o)] at hrun
  · exact hx.bind

lemma parses_map_iff {α β : Type} {x : Read α} {g : α → β} (hg : Function.Injective g) {a : α}
    {bytes : Bytes} : Parses (x >>= fun a => pure (g a)) bytes (g a) ↔ Parses x bytes a := by
  constructor
  · intro h rest o
    obtain ⟨a', mid, hrun, hpure⟩ := bind_eq_ok.mp (h rest o)
    obtain ⟨hsame, rfl⟩ := pure_eq_ok.mp hpure
    rw [hrun, hg hsame]
  · exact fun h => h.map g

lemma lags_value {type : RdbType} (htype : type ∈ [.string, .list, .hash, .set]) :
    Lags SignBytes (outputValue scoreText) (readValue lzf string2ld type)
      fun c => exportType c = type ∧ ExportableContents c := by
  have hstring := lags_string lzf
  have hlist := hstring.counted lagsCount_outputCount
  have hhash := (hstring.pair hstring).counted lagsCount_outputCount
  simp only [mem_cons, not_mem_nil, or_false] at htype
  rcases htype with rfl | rfl | rfl | rfl
  · refine (hstring.map (f := Contents.string) fun _ => rfl).congr fun c => ?_
    cases c <;> simp [exportType, ExportableContents]
  · refine (hlist.map (f := Contents.list) fun _ => rfl).congr fun c => ?_
    cases c <;> simp [exportType, ExportableContents]
  · refine (hhash.map (f := Contents.hash) fun _ => rfl).congr fun c => ?_
    cases c <;> simp [exportType, ExportableContents]
  · refine (hlist.map (f := Contents.set) fun _ => rfl).congr fun c => ?_
    cases c <;> simp [exportType, ExportableContents]

lemma mem_of_ne_zset {c : Contents} (hc : exportType c ≠ .zset) :
    exportType c ∈ [RdbType.string, .list, .hash, .set] := by
  cases c with
  | zset pairs => exact absurd rfl hc
  | _ => simp [exportType]

lemma record_recovered_iff {ttl : Option Nat} {key : Bytes} {c : Contents}
    (hc : exportType c ≠ .zset) :
    (∃ out, (writePair outputString (outputValue scoreText) (key, c)).map (recordHead ttl c ++ ·)
        = some out ∧
      Parses (readRecord lzf string2ld) out (ttl.map (· / 1000 % 2 ^ 32), key, c)) ↔
    Exportable key ∧ ExportableContents c := by
  have hpair := (lags_string lzf).pair (lags_value lzf string2ld scoreText (mem_of_ne_zset hc))
  have hiff := hpair.parses_iff (by rintro (h | h) <;> exact nomatch h) (key, c)
  -- what is read behind the head
  have hread : ∀ bytes, Parses (readRecord lzf string2ld) (recordHead ttl c ++ bytes)
      (ttl.map (· / 1000 % 2 ^ 32), key, c) ↔
      Parses (readPair (readString lzf) (readValue lzf string2ld (exportType c))) bytes
        (key, c) := by
    intro bytes
    unfold readRecord
    rw [parses_bind_iff (parses_recordHead ttl c), RdbType.ofByte_toByte]
    exact parses_map_iff fun _ _ h => (Prod.mk.inj h).2
  constructor
  · rintro ⟨_, hout, hparses⟩
    obtain ⟨bytes, hbytes, rfl⟩ := Option.map_eq_some_iff.mp hout
    have hgood := hiff.mp ⟨bytes, hbytes, (hread bytes).mp hparses⟩
    exact ⟨hgood.1, hgood.2.2⟩
  · rintro ⟨hkey, hvalue⟩
    obtain ⟨bytes, hbytes, hparses⟩ := hiff.mpr ⟨hkey, rfl, hvalue⟩
    exact ⟨_, by rw [hbytes, Option.map_some], (hread bytes).mpr hparses⟩

/-- **What the exporter writes is read back exactly for the strings of `Exportable`**: a string by
itself, the key behind the head of any record, and whole records of strings, lists, hashes and
sets. -/
theorem exported_recovered_iff {S : Type} [ScoreBits S] :
    (∀ s : Bytes, (∃ out, outputString s = some out ∧ Parses (readString lzf) out s) ↔
      Exportable s) ∧
    (∀ (ttl : Option Nat) (c : Contents) (key : Bytes),
      (∃ out, outputString key = some out ∧ Parses (readRecordKey lzf) (recordHead ttl c ++ out)
        ((ttl.map (· / 1000 % 2 ^ 32), (exportType c).toByte), key)) ↔ Exportable key) ∧
    (∀ (order : HashOrder) (key : Bytes) (obj : RedisObject S),
      exportType (obj.payload.contents order) ≠ .zset →
      ((∃ out, parseEloqKV scoreText order key obj = some out ∧
        Parses (readRecord lzf string2ld) out
          (obj.ttl.map (· / 1000 % 2 ^ 32), key, obj.payload.contents order)) ↔
        Exportable key ∧ ExportableContents (obj.payload.contents order))) := by
  have hstring : ∀ s : Bytes, (∃ out, outputString s = some out ∧ Parses (readString lzf) out s) ↔
      Exportable s := (lags_string lzf).parses_iff (by rintro (h | h) <;> exact nomatch h)
  refine ⟨hstring, fun ttl c key => ?_, fun order key obj hc => ?_⟩
  · rw [← hstring key]
    have hread : ∀ bytes, Parses (readRecordKey lzf) (recordHead ttl c ++ bytes)
        ((ttl.map (· / 1000 % 2 ^ 32), (exportType c).toByte), key) ↔
        Parses (readString lzf) bytes key := by
      intro bytes
      unfold readRecordKey readPair
      rw [parses_bind_iff (parses_recordHead ttl c)]
      exact parses_map_iff fun _ _ h => (Prod.mk.inj h).2
    simp only [hread]
  · exact record_recovered_iff lzf string2ld scoreText hc

end RecordsBack

/-- A list with a number of eight bits, one of 32 bits and a text. -/
theorem exported_list_recovered :
    exportType (.list [ascii "-7", ascii "70000", ascii "x"]) ≠ .zset ∧
    ∃ out, parseEloqKV (fun _ => []) ⟨id, fun _ => .rfl⟩ (ascii "queue")
        (⟨.list (Lists.RedisListObject.empty.commitRPush [ascii "-7", ascii "70000", ascii "x"]),
          some 1700000000000⟩ : RedisObject Objects.Double) = some out ∧
      Parses (readRecord lzfDecompress fun _ => none) out
        (some 1700000000, ascii "queue", .list [ascii "-7", ascii "70000", ascii "x"]) := by
  refine ⟨by decide, ?_⟩
  exact ((exported_recovered_iff lzfDecompress (fun _ => none) fun _ => []).2.2 ⟨id, fun _ => .rfl⟩
    (ascii "queue") _ (by decide)).mpr ⟨by decide, by decide, by decide⟩

/-- **Texts of digits come back changed, leave bytes behind or stop the export.** -/
theorem digit_strings_not_recovered :
    (outputString (ascii "007") = some [0xC0, 7] ∧
      readString lzfDecompress (.at [0xC0, 7]) = (.ok (ascii "7"), .at [])) ∧
    (outputString (ascii "300") = some [0xC1, 0x2C, 1, 0, 0] ∧
      readString lzfDecompress (.at [0xC1, 0x2C, 1, 0, 0]) = (.ok (ascii "300"), .at [0, 0])) ∧
    (outputString (ascii "4294967296") = some [0xC0, 0] ∧
      readString lzfDecompress (.at [0xC0, 0]) = (.ok (ascii "0"), .at [])) ∧
    outputString (ascii "9223372036854775808") = none := by
  refine ⟨⟨by decide, rfl⟩, ⟨by decide, rfl⟩, ⟨by decide, rfl⟩, by decide⟩

end EloqKV.Rdb
