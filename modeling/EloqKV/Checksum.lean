/-
  The checksum of keys (`CRC16_XMODEM` of `src/eloqkv_key.cpp`).

  The table holds what eight steps of the bitwise CRC-16/XMODEM make of a byte.  One such step is
  the multiplication by `X`, reduced by the polynomial `X ^ 16 + X ^ 12 + X ^ 5 + 1`.
-/
import EloqKV.Bytes

open List Polynomial

namespace EloqKV.Checksum

/-! ## The table and the bits -/

def crc16Table : List (BitVec 16) :=
  [0x0000, 0x1021, 0x2042, 0x3063, 0x4084, 0x50a5, 0x60c6, 0x70e7, 0x8108, 0x9129, 0xa14a, 0xb16b,
   0xc18c, 0xd1ad, 0xe1ce, 0xf1ef, 0x1231, 0x0210, 0x3273, 0x2252, 0x52b5, 0x4294, 0x72f7, 0x62d6,
   0x9339, 0x8318, 0xb37b, 0xa35a, 0xd3bd, 0xc39c, 0xf3ff, 0xe3de, 0x2462, 0x3443, 0x0420, 0x1401,
   0x64e6, 0x74c7, 0x44a4, 0x5485, 0xa56a, 0xb54b, 0x8528, 0x9509, 0xe5ee, 0xf5cf, 0xc5ac, 0xd58d,
   0x3653, 0x2672, 0x1611, 0x0630, 0x76d7, 0x66f6, 0x5695, 0x46b4, 0xb75b, 0xa77a, 0x9719, 0x8738,
   0xf7df, 0xe7fe, 0xd79d, 0xc7bc, 0x48c4, 0x58e5, 0x6886, 0x78a7, 0x0840, 0x1861, 0x2802, 0x3823,
   0xc9cc, 0xd9ed, 0xe98e, 0xf9af, 0x8948, 0x9969, 0xa90a, 0xb92b, 0x5af5, 0x4ad4, 0x7ab7, 0x6a96,
   0x1a71, 0x0a50, 0x3a33, 0x2a12, 0xdbfd, 0xcbdc, 0xfbbf, 0xeb9e, 0x9b79, 0x8b58, 0xbb3b, 0xab1a,
   0x6ca6, 0x7c87, 0x4ce4, 0x5cc5, 0x2c22, 0x3c03, 0x0c60, 0x1c41, 0xedae, 0xfd8f, 0xcdec, 0xddcd,
   0xad2a, 0xbd0b, 0x8d68, 0x9d49, 0x7e97, 0x6eb6, 0x5ed5, 0x4ef4, 0x3e13, 0x2e32, 0x1e51, 0x0e70,
   0xff9f, 0xefbe, 0xdfdd, 0xcffc, 0xbf1b, 0xaf3a, 0x9f59, 0x8f78, 0x9188, 0x81a9, 0xb1ca, 0xa1eb,
   0xd10c, 0xc12d, 0xf14e, 0xe16f, 0x1080, 0x00a1, 0x30c2, 0x20e3, 0x5004, 0x4025, 0x7046, 0x6067,
   0x83b9, 0x9398, 0xa3fb, 0xb3da, 0xc33d, 0xd31c, 0xe37f, 0xf35e, 0x02b1, 0x1290, 0x22f3, 0x32d2,
   0x4235, 0x5214, 0x6277, 0x7256, 0xb5ea, 0xa5cb, 0x95a8, 0x8589, 0xf56e, 0xe54f, 0xd52c, 0xc50d,
   0x34e2, 0x24c3, 0x14a0, 0x0481, 0x7466, 0x6447, 0x5424, 0x4405, 0xa7db, 0xb7fa, 0x8799, 0x97b8,
   0xe75f, 0xf77e, 0xc71d, 0xd73c, 0x26d3, 0x36f2, 0x0691, 0x16b0, 0x6657, 0x7676, 0x4615, 0x5634,
   0xd94c, 0xc96d, 0xf90e, 0xe92f, 0x99c8, 0x89e9, 0xb98a, 0xa9ab, 0x5844, 0x4865, 0x7806, 0x6827,
   0x18c0, 0x08e1, 0x3882, 0x28a3, 0xcb7d, 0xdb5c, 0xeb3f, 0xfb1e, 0x8bf9, 0x9bd8, 0xabbb, 0xbb9a,
   0x4a75, 0x5a54, 0x6a37, 0x7a16, 0x0af1, 0x1ad0, 0x2ab3, 0x3a92, 0xfd2e, 0xed0f, 0xdd6c, 0xcd4d,
   0xbdaa, 0xad8b, 0x9de8, 0x8dc9, 0x7c26, 0x6c07, 0x5c64, 0x4c45, 0x3ca2, 0x2c83, 0x1ce0, 0x0cc1,
   0xef1f, 0xff3e, 0xcf5d, 0xdf7c, 0xaf9b, 0xbfba, 0x8fd9, 0x9ff8, 0x6e17, 0x7e36, 0x4e55, 0x5e74,
   0x2e93, 0x3eb2, 0x0ed1, 0x1ef0]

/-- One round of the loop of `CRC16_XMODEM`. -/
def crcStep (crc : BitVec 16) (b : UInt8) : BitVec 16 :=
  (crc <<< 8) ^^^ crc16Table.getD ((crc >>> 8 ^^^ b.toBitVec.setWidth 16) &&& 0xff).toNat 0

/-- `CRC16_XMODEM` of the `len` bytes at `ptr`. -/
def crc16Xmodem (bytes : Bytes) : BitVec 16 :=
  bytes.foldl crcStep 0

/-- One bit of CRC-16/XMODEM: a shift, reduced by the polynomial. -/
def crcBit (crc : BitVec 16) : BitVec 16 :=
  if crc.msb then (crc <<< 1) ^^^ 0x1021 else crc <<< 1

/-- One byte of CRC-16/XMODEM: the byte enters at the top and is shifted out. -/
def crcByte (crc : BitVec 16) (b : UInt8) : BitVec 16 :=
  crcBit^[8] (crc ^^^ b.toBitVec ++ 0#8)

lemma crcBit_xor (x y : BitVec 16) : crcBit (x ^^^ y) = crcBit x ^^^ crcBit y := by
  unfold crcBit
  rw [BitVec.msb_xor, BitVec.shiftLeft_xor_distrib]
  cases x.msb <;> cases y.msb <;> simp <;> grind

lemma crcBit_iterate_xor (n : Nat) (x y : BitVec 16) :
    crcBit^[n] (x ^^^ y) = crcBit^[n] x ^^^ crcBit^[n] y := by
  induction n generalizing x y with
  | zero => rfl
  | succ n ih => rw [Function.iterate_succ_apply, crcBit_xor, ih]; rfl

-- The 256 entries of the table, and the 256 low bytes that no bit of the polynomial meets.
lemma crcBit_iterate_byte : ∀ u : BitVec 8,
    crc16Table.getD u.toNat 0 = crcBit^[8] (u ++ 0#8) ∧
      crcBit^[8] (0#8 ++ u) = u ++ 0#8 := by
  decide +kernel

lemma crcStep_eq_crcByte (crc : BitVec 16) (b : UInt8) : crcStep crc b = crcByte crc b := by
  obtain ⟨hi, lo, rfl⟩ : ∃ hi lo : BitVec 8, crc = hi ++ lo :=
    ⟨_, _, (@BitVec.extractLsb'_append_extractLsb' 8 8 crc).symm⟩
  have hsplit : (hi ++ lo : BitVec 16) ^^^ b.toBitVec ++ 0#8
      = ((hi ^^^ b.toBitVec) ++ 0#8) ^^^ (0#8 ++ lo) := by
    ext i h
    grind
  have hindex : ((hi ++ lo : BitVec 16) >>> 8 ^^^ b.toBitVec.setWidth 16) &&& 0xff
      = (hi ^^^ b.toBitVec).setWidth 16 := by
    ext i h
    have hmask : ∀ i (h : i < 16), (0xff : BitVec 16)[i] = decide (i < 8) := by decide
    grind
  have hshift : (hi ++ lo : BitVec 16) <<< 8 = lo ++ 0#8 := by
    ext i h
    grind
  rw [crcStep, crcByte, hsplit, crcBit_iterate_xor, hindex, hshift,
    (crcBit_iterate_byte lo).2, ← (crcBit_iterate_byte _).1, BitVec.xor_comm,
    BitVec.toNat_setWidth_of_le (by decide)]

/-! ## The remainder -/

/-- The polynomial with these bits as coefficients. -/
noncomputable def poly {w : Nat} (x : BitVec w) : (ZMod 2)[X] :=
  ∑ i ∈ Finset.range w, if x.getLsbD i then X ^ i else 0

/-- The generator of CRC-16/XMODEM. -/
noncomputable def generator : (ZMod 2)[X] := X ^ 16 + (X ^ 12 + X ^ 5 + 1)

/-- A message as a polynomial, the highest bit of its first byte first. -/
noncomputable def message (bytes : Bytes) : (ZMod 2)[X] :=
  bytes.foldl (fun m b => m * X ^ 8 + poly b.toBitVec) 0

lemma coeff_poly {w : Nat} (x : BitVec w) (n : Nat) :
    (poly x).coeff n = if x.getLsbD n then 1 else 0 := by
  rw [poly, finsetSum_coeff, Finset.sum_eq_single n]
  · split <;> simp
  · intro i _ hi
    split
    · rw [coeff_X_pow, if_neg hi.symm]
    · rfl
  · intro hn
    rw [BitVec.getLsbD_of_ge x n (by simpa using hn)]
    rfl

lemma poly_xor {w : Nat} (x y : BitVec w) : poly (x ^^^ y) = poly x + poly y := by
  ext n
  rw [coeff_add, coeff_poly, coeff_poly, coeff_poly, BitVec.getLsbD_xor]
  cases x.getLsbD n <;> cases y.getLsbD n <;> decide

lemma poly_append_zero (x : BitVec 8) : poly (x ++ 0#8) = poly x * X ^ 8 := by
  ext n
  rw [coeff_mul_X_pow', coeff_poly, coeff_poly, BitVec.getLsbD_append]
  by_cases hn : n < 8
  · simp [hn]
  · simp [hn, Nat.not_lt.mp hn]

lemma coeff_generator (n : Nat) :
    generator.coeff n = if (0x11021 : BitVec 17).getLsbD n then 1 else 0 := by
  have hpoly : generator = poly (0x11021 : BitVec 17) := by
    simp [generator, poly, Finset.sum_range_succ]
    ring
  rw [hpoly, coeff_poly]

lemma poly_crcBit (c : BitVec 16) :
    poly (crcBit c) + (if c.msb then generator else 0) = X * poly c := by
  have hgen : ∀ n < 16, (0x11021 : BitVec 17).getLsbD n = (0x1021 : BitVec 16).getLsbD n := by
    decide
  have hbit : ∀ n, ((crcBit c).getLsbD n ^^ (c.msb && (0x11021 : BitVec 17).getLsbD n)) =
      (decide (0 < n) && c.getLsbD (n - 1)) := by
    intro n
    rcases Nat.lt_trichotomy n 16 with hn | rfl | hn
    · rw [crcBit, hgen n hn]
      split <;> simp [*] <;> grind
    · simp [BitVec.msb_eq_getLsbD_last]
    · simp [show 17 ≤ n by omega, show 16 ≤ n - 1 by omega, show 16 ≤ n by omega]
  have hsum : ∀ p q : Bool, (if p then 1 else 0 : ZMod 2) + (if q then 1 else 0) =
      if p ^^ q then 1 else 0 := by
    decide
  ext n
  have hgenerator : (if c.msb then generator else 0).coeff n =
      if c.msb && (0x11021 : BitVec 17).getLsbD n then 1 else 0 := by
    cases c.msb
    · rfl
    · exact coeff_generator n
  rw [coeff_add, coeff_poly, hgenerator, hsum, hbit]
  cases n with
  | zero => rw [coeff_X_mul_zero]; rfl
  | succ n => rw [coeff_X_mul, coeff_poly]; simp

/-- Polynomials up to multiples of the generator. -/
noncomputable abbrev residue : (ZMod 2)[X] →+* AdjoinRoot generator := AdjoinRoot.mk generator

lemma residue_iterate (n : Nat) (c : BitVec 16) :
    residue (poly (crcBit^[n] c)) = residue (X ^ n * poly c) := by
  induction n generalizing c with
  | zero => simp
  | succ n ih =>
    have hstep : residue (poly (crcBit c)) = residue (X * poly c) := by
      rw [← poly_crcBit, map_add]
      split <;> simp
    rw [Function.iterate_succ_apply, ih, map_mul, hstep, ← map_mul]
    ring_nf

lemma residue_foldl (bytes : Bytes) {c : BitVec 16} {m : (ZMod 2)[X]}
    (hc : residue (poly c) = residue (m * X ^ 16)) :
    residue (poly (bytes.foldl crcByte c)) =
      residue (bytes.foldl (fun m b => m * X ^ 8 + poly b.toBitVec) m * X ^ 16) := by
  induction bytes generalizing c m with
  | nil => exact hc
  | cons b bytes ih =>
    refine ih ?_
    rw [crcByte, residue_iterate, poly_xor, poly_append_zero, mul_add, map_add, map_mul, hc,
      ← map_mul, ← map_add]
    ring_nf

lemma degree_tail : (X ^ 12 + X ^ 5 + 1 : (ZMod 2)[X]).degree < (16 : Nat) := by
  compute_degree!

lemma degree_poly_lt (c : BitVec 16) : (poly c).degree < generator.degree := by
  have hdegree : generator.degree = (16 : Nat) := by
    rw [generator, degree_add_eq_left_of_degree_lt (by rw [degree_X_pow]; exact degree_tail),
      degree_X_pow]
  rw [hdegree, degree_lt_iff_coeff_zero]
  intro n hn
  rw [coeff_poly, BitVec.getLsbD_of_ge c n hn]
  rfl

/-- **`CRC16_XMODEM` is CRC-16/XMODEM**: eight bitwise steps for every byte, and the remainder of
the message times `X ^ 16`. -/
theorem crc16Xmodem_right (bytes : Bytes) : crc16Xmodem bytes = bytes.foldl crcByte 0 ∧
    poly (crc16Xmodem bytes) = message bytes * X ^ 16 %ₘ generator := by
  have hbits : crc16Xmodem bytes = bytes.foldl crcByte 0 := by
    rw [crc16Xmodem, funext₂ crcStep_eq_crcByte]
  refine ⟨hbits, ?_⟩
  have hzero : residue (poly (0 : BitVec 16)) = residue (0 * X ^ 16) := by simp [poly]
  have hres := residue_foldl bytes hzero
  rw [← hbits, AdjoinRoot.mk_eq_mk] at hres
  have hmonic : generator.Monic := monic_X_pow_add degree_tail
  rw [message, ← modByMonic_eq_of_dvd_sub hmonic hres,
    (modByMonic_eq_self_iff hmonic).mpr (degree_poly_lt _)]

end EloqKV.Checksum
