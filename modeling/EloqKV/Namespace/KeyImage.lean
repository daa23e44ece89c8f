/-
  The image of a key between nodes (`EloqKey` of `include/eloqkv_key.h`), and the keys a command may
  carry (`ExecuteCommand` of `src/redis_service.cpp`).

  A key is hashed by its tag, the bytes between its first `{` and the next `}`, or else as a whole;
  the image has two bytes for its length.  Keys are checked in commands with one key only,
  and the limit is above what two bytes can say: one `Serialize` then writes behind its buffer, the
  other one cuts the key.

  The checksum of the hashed bytes is a parameter.
-/
import EloqKV.Lib.Endian
import EloqKV.Namespace.Prefix

open List EloqKV.Lib.Endian

namespace EloqKV

/-! ## Keys -/

/-- What `Hash` gives to the checksum. -/
def hashed (key : Bytes) : Bytes :=
  let s := key.idxOf 123
  if s = key.length then key
  else
    let e := s + 1 + (key.drop (s + 1)).idxOf 125
    if e = key.length ∨ e = s + 1 then key else (key.drop (s + 1)).take (e - s - 1)

variable (crc16 : Bytes → BitVec 16)

/-- `Hash(ptr, keylen)`.  With a negative length `CRC16_XMODEM` runs out of the buffer. -/
def hashAt (buf : Bytes) (keylen : Int) : Option (BitVec 16) :=
  if 0 ≤ keylen ∧ keylen ≤ buf.length then some (crc16 (hashed (buf.take keylen.toNat))) else none

/-- `Hash()`, with the length as an `int32_t`. -/
def hash (key : Bytes) : Option (BitVec 16) :=
  hashAt crc16 key ((key.length : Int).bmod (2 ^ 32))

/-- `Serialize` into a vector; `none` if the key is copied to where the vector has no bytes. -/
def serializeAt (key buf : Bytes) (offset : Nat) : Option (Bytes × Nat) :=
  let lenVal := key.length % 2 ^ 16
  let buf := buf.take (offset + 2 + lenVal) ++ replicate (offset + 2 + lenVal - buf.length) 0
  if lenVal < key.length then none
  else some (buf.take offset ++ le 2 lenVal ++ key, offset + 2 + lenVal)

/-- `Serialize` onto a string. -/
def serializeTo (key str : Bytes) : Bytes :=
  let lenVal := key.length % 2 ^ 16
  str ++ le 2 lenVal ++ key.take lenVal

def readLen (buf : Bytes) (offset : Nat) : Option Nat :=
  if offset + 2 ≤ buf.length then some (ofLe ((buf.drop offset).take 2)) else none

/-- `Deserialize`. -/
def deserializeAt (buf : Bytes) (offset : Nat) : Option (Bytes × Nat) := do
  let lenVal ← readLen buf offset
  if offset + 2 + lenVal ≤ buf.length then
    some ((buf.drop (offset + 2)).take lenVal, offset + 2 + lenVal)
  else none

def hashFromSerializedKey (buf : Bytes) (offset : Nat) : Option (BitVec 16) := do
  hashAt crc16 (buf.drop (offset + 2)) (← readLen buf offset)

/-- `MAX_KEY_SIZE`, with EloqStore and without. -/
def maxKeySize (eloqStore : Bool) : Nat :=
  if eloqStore then 2048 else 32 * 1024 * 1024

/-- The test of `ExecuteCommand`, which commands with several keys do not make. -/
def acceptsKey (eloqStore several : Bool) (key : Bytes) : Bool :=
  several || key.length ≤ maxKeySize eloqStore

/-! ## Images -/

/-- The key, the place behind it and the hash are read from the image at `offset`. -/
structure ReadsBack (key buf : Bytes) (offset : Nat) : Prop where
  key_eq : deserializeAt buf offset = some (key, offset + 2 + key.length)
  hash_eq : ∃ h, hash crc16 key = some h ∧ hashFromSerializedKey crc16 buf offset = some h

/-- Both forms write the same bytes, inside the buffer, and are read back. -/
def ImageRight (key : Bytes) : Prop :=
  ∀ buf str rest : Bytes, ∀ offset, ∃ out,
    serializeAt key buf offset = some (out, offset + 2 + key.length) ∧
    out.drop offset = serializeTo key [] ∧ ReadsBack crc16 key (out ++ rest) offset ∧
    ReadsBack crc16 key (serializeTo key str ++ rest) str.length

variable {key : Bytes}

lemma readsBack (h : key.length < 2 ^ 16) (front rest : Bytes) :
    ReadsBack crc16 key (front ++ le 2 key.length ++ key ++ rest) front.length := by
  have hlen : readLen (front ++ le 2 key.length ++ key ++ rest) front.length
      = some key.length := by
    rw [readLen, if_pos (by simp)]
    simp only [append_assoc, drop_left]
    rw [take_left' (length_le 2 _), ofLe_le h]
  have hdrop : (front ++ le 2 key.length ++ key ++ rest).drop (front.length + 2) = key ++ rest := by
    rw [append_assoc, drop_left' (by simp)]
  constructor
  · rw [deserializeAt, hlen, Option.bind_eq_bind, Option.bind_some, if_pos (by simp; omega), hdrop,
      take_left]
  · refine ⟨crc16 (hashed key), ?_, ?_⟩
    · rw [hash, Int.bmod_eq_of_le (by omega) (by omega), hashAt, if_pos (by omega),
        Int.toNat_natCast, take_length]
    · rw [hashFromSerializedKey, hlen, Option.bind_eq_bind, Option.bind_some, hdrop, hashAt,
        if_pos (by simp), Int.toNat_natCast, take_left]

lemma not_imageRight (h : 2 ^ 16 ≤ key.length) : ¬ ImageRight crc16 key := by
  intro himage
  obtain ⟨out, hout, -⟩ := himage [] [] [] 0
  have hcut : key.length % 2 ^ 16 < key.length := by omega
  rw [serializeAt, if_pos hcut] at hout
  cases hout

/-- **Images of keys.** In any namespace, a key survives the way through its image exactly if two
bytes hold its length. -/
theorem image_right_iff (ns userKey : Bytes) :
    ImageRight crc16 (composeNamespaceKey ns userKey) ↔
      (composeNamespaceKey ns userKey).length < 2 ^ 16 := by
  generalize composeNamespaceKey ns userKey = key
  constructor
  · intro himage
    by_contra hlong
    exact not_imageRight crc16 (not_lt.mp hlong) himage
  · intro h buf str rest offset
    have hmod : key.length % 2 ^ 16 = key.length := Nat.mod_eq_of_lt h
    have hstring (str : Bytes) : serializeTo key str = str ++ le 2 key.length ++ key := by
      rw [serializeTo, hmod, take_length]
    obtain ⟨front, hfront, hout⟩ : ∃ front : Bytes, front.length = offset ∧
        serializeAt key buf offset
          = some (front ++ le 2 key.length ++ key, offset + 2 + key.length) := by
      refine ⟨_, ?_, by rw [serializeAt, hmod, if_neg (Nat.lt_irrefl _)]⟩
      simp only [length_take, length_append, length_replicate]
      omega
    refine ⟨_, hout, ?_, hfront ▸ readsBack crc16 h front rest, ?_⟩
    · rw [hstring, append_assoc, drop_left' hfront]
      rfl
    · rw [hstring]
      exact readsBack crc16 h str rest

/-- A key of 64 KB is accepted in commands with several keys, and by default in all. -/
theorem accepted_key_too_long : ∃ key, acceptsKey true true key ∧ acceptsKey false false key ∧
    ∀ crc16, ¬ ImageRight crc16 key := by
  refine ⟨replicate (2 ^ 16) 97, rfl, ?_, fun crc16 => not_imageRight crc16 ?_⟩
  · rw [acceptsKey, length_replicate]
    decide
  · rw [length_replicate]

end EloqKV
