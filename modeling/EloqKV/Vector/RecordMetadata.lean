/-
  The metadata record of a vector: a schema of named, typed fields, and one packed byte string
  per vector.

  Numbers are packed so that `memcmp` orders them (big-endian, sign bit flipped), a boolean is a
  byte, a string is its length in eight bytes and its content.  `Decode` of all offsets walks the
  record once and reads each length where it stands; `Decode` of one field adds the eight bytes of a
  length before it reads it, so it takes the content of a string for its length, and it reads the
  field as the machine stores it, not as it was packed.

  Reads of the source are not checked; `none` is a read outside the record.
-/
import EloqKV.Bytes
import EloqKV.Lib.ByteOrder

open EloqKV.Lib EloqKV.Lib.Endian EloqKV.Lib.ByteOrder List Option

namespace EloqKV.Vector

/-! ## JSON values -/

/-- An integer of a JSON text: the parser keeps it as `int64_t` or as `uint64_t`. -/
def JsonInteger := { i : Int // -2 ^ 63 ≤ i ∧ i < 2 ^ 64 }

instance : DecidableEq JsonInteger := inferInstanceAs (DecidableEq (Subtype _))

/-- A parsed JSON value.  A float is kept as its bits. -/
inductive Json where
  | null
  | boolean (b : Bool)
  | integer (i : JsonInteger)
  | float (bits : UInt64)
  | string (s : Bytes)
  | array (items : List Json)
  | object (entries : List (Bytes × Json))

/-- `get<int64_t>()` of an integer: a cast of the stored number. -/
def JsonInteger.getInt64 (i : JsonInteger) : Int :=
  toSigned 64 (ofSigned 64 i.val)

/-! ## Schema and packing -/

inductive MetadataFieldType where
  | int32
  | int64
  | double
  | bool
  | string
  | unknown
  deriving DecidableEq

/-- `VectorRecordMetadata`: two vectors of one length, of fewer than 2^58 strings. -/
structure VectorRecordMetadata where
  fieldNames : List Bytes
  fieldTypes : List MetadataFieldType
  length_eq : fieldNames.length = fieldTypes.length
  length_lt : fieldTypes.length < 2 ^ 58

open VectorRecordMetadata

/-- `sort_string` on a little-endian machine. -/
def sortString (bytes : Bytes) : Bytes :=
  flipped bytes.reverse

/-- `change_double_for_sort`, on the bits of the number. -/
def changeDoubleForSort (bits : UInt64) : Bytes :=
  if bits = 0 ∨ bits = 0x8000000000000000 then 128 :: replicate 7 0
  else match be 8 bits.toNat with
    | b₀ :: b₁ :: rest =>
      if b₀ &&& 128 ≠ 0 then (b₀ :: b₁ :: rest).map (· ^^^ 255)
      else
        let expPart : UInt16 := (b₀.toUInt16 <<< 8 ||| b₁.toUInt16 ||| 32768) + 16
        (expPart >>> 8).toUInt8 :: expPart.toUInt8 :: rest
    | bytes => bytes

/-- `ParseJSONFieldValue`: the bytes it appends. -/
def parseJSONFieldValue : Json → MetadataFieldType → Option Bytes
  | .integer i, .int32 =>
    if i.getInt64 < -2 ^ 31 ∨ 2 ^ 31 - 1 < i.getInt64 then none
    else some (sortString (le 4 (ofSigned 32 i.getInt64)))
  | .integer i, .int64 => some (sortString (le 8 (ofSigned 64 i.getInt64)))
  | .float bits, .double => some (changeDoubleForSort bits)
  | .boolean b, .bool => some [if b then 1 else 0]
  | .string s, .string => some (le 8 s.length ++ s)
  | _, _ => none

/-- The largest size of a `std::vector<char>`; growing beyond it throws. -/
def maxVectorSize : Nat := 2 ^ 63 - 1

/-- The loop of `Encode` over the fields. -/
def encodeFields : List MetadataFieldType → List Json → Bytes → Option Bytes
  | type :: types, value :: values, buf =>
    match parseJSONFieldValue value type with
    | none => none
    | some bytes =>
      if maxVectorSize < (buf ++ bytes).length then none
      else encodeFields types values (buf ++ bytes)
  | _, _, buf => some buf

namespace VectorRecordMetadata

/-- `VectorRecordMetadata::Encode` of the parsed text. -/
def encode (schema : VectorRecordMetadata) : Json → Option Bytes
  | .array items =>
    if items.length ≠ schema.fieldNames.length then none
    else encodeFields schema.fieldTypes items []
  | _ => none

end VectorRecordMetadata

/-! ## Finding and reading fields -/

/-- `GetFieldLength`: of a string only the length in front counts. -/
def getFieldLength : MetadataFieldType → Nat
  | .int32 => 4
  | .int64 => 8
  | .double => 8
  | .bool => 1
  | .string => 8
  | .unknown => 0

def readBytes (buf : Bytes) (offset size : Nat) : Option Bytes :=
  if offset + size ≤ buf.length then some ((buf.drop offset).take size) else none

/-- A `size_t` read from a buffer. -/
def readSize (buf : Bytes) (offset : Nat) : Option Nat :=
  (readBytes buf offset 8).map ofLe

/-- `Decode` of all offsets. -/
def decodeOffsets (buf : Bytes) : List MetadataFieldType → Nat → Option (List Nat)
  | [], _ => some []
  | type :: types, offset => do
    let content ← if type = .string then readSize buf offset else some 0
    let rest ← decodeOffsets buf types ((offset + (getFieldLength type + content)) % u64)
    return offset :: rest

/-- The loop of `Decode` of one field over the fields in front of it. -/
def skipFields (buf : Bytes) : List MetadataFieldType → Nat → Option Nat
  | [], offset => some offset
  | type :: types, offset =>
    let offset := (offset + getFieldLength type) % u64
    if type = .string then
      (readSize buf offset).bind fun content => skipFields buf types ((offset + content) % u64)
    else skipFields buf types offset

inductive FieldValue where
  | int (i : Int)
  | float (bits : UInt64)
  | bool (b : Bool)
  | string (s : Bytes)
  deriving DecidableEq

/-- The read of a field by its type: `*reinterpret_cast<const FieldT *>`, or a string. -/
def readField (buf : Bytes) (offset : Nat) : MetadataFieldType → Option FieldValue
  | .int32 => (readBytes buf offset 4).map fun bytes => .int (toSigned 32 (ofLe bytes))
  | .int64 => (readBytes buf offset 8).map fun bytes => .int (toSigned 64 (ofLe bytes))
  | .double => (readBytes buf offset 8).map fun bytes => .float (UInt64.ofNat (ofLe bytes))
  | .bool => (readBytes buf offset 1).map fun bytes => .bool (bytes ≠ [0])
  | .string => do
    let size ← readSize buf offset
    let bytes ← readBytes buf offset size
    return .string bytes
  | .unknown => none

namespace VectorRecordMetadata

/-- `Decode` of one field. -/
def decode (schema : VectorRecordMetadata) (buf : Bytes) (index : Nat) : Option FieldValue := do
  let type ← schema.fieldTypes[index]?
  let offset ← skipFields buf (schema.fieldTypes.take index) 0
  readField buf offset type

end VectorRecordMetadata

/-- The bytes of a field between its offset and the next, as a filter cuts them out. -/
def fieldBytes (buf : Bytes) (offsets : List Nat) (index : Nat) : Option Bytes := do
  let start ← offsets[index]?
  if index = offsets.length - 1 then readBytes buf start (buf.length - start)
  else do
    let next ← offsets[index + 1]?
    readBytes buf start (next - start)

/-! ## What the bytes of a field stand for -/

def Json.value : Json → Option FieldValue
  | .integer i => some (.int i.val)
  | .float bits => some (.float bits)
  | .boolean b => some (.bool b)
  | .string s => some (.string s)
  | _ => none

/-- The value packed in the bytes of a field; the packing of floats is not inverted. -/
def unpack : MetadataFieldType → Bytes → Option FieldValue
  | .int32, bytes => if bytes.length = 4 then some (.int (ofBe bytes - 2 ^ 31)) else none
  | .int64, bytes => if bytes.length = 8 then some (.int (ofBe bytes - 2 ^ 63)) else none
  | .bool, bytes => if bytes.length = 1 then some (.bool (bytes ≠ [0])) else none
  | .string, bytes => if 8 ≤ bytes.length then some (.string (bytes.drop 8)) else none
  | .double, _ => none
  | .unknown, _ => none

/-- An integer is in the range of `int64_t`, so that `get<int64_t>()` keeps it. -/
def Json.FitsInt64 : Json → Prop
  | .integer i => i.val < 2 ^ 63
  | _ => True

lemma getInt64_of_lt {i : JsonInteger} (h : i.val < 2 ^ 63) : i.getInt64 = i.val :=
  toSigned_ofSigned (by decide) i.property.1 h

lemma getInt64_range (i : JsonInteger) : -2 ^ 63 ≤ i.getInt64 ∧ i.getInt64 < 2 ^ 63 :=
  (ofSigned_toSigned (by decide : 0 < 64) (ofSigned_lt 64 i.val)).2

variable {type : MetadataFieldType} {bytes : Bytes}

variable {value : Json}

lemma parse_eq_some (h : parseJSONFieldValue value type = some bytes) :
    (∃ i : JsonInteger, value = .integer i ∧
      ((type = .int32 ∧ (-2 ^ 31 ≤ i.getInt64 ∧ i.getInt64 < 2 ^ 31) ∧
          bytes = be 4 (i.getInt64 + 2 ^ 31).toNat) ∨
        (type = .int64 ∧ bytes = be 8 (i.getInt64 + 2 ^ 63).toNat))) ∨
      (∃ bits, value = .float bits ∧ type = .double ∧ bytes = changeDoubleForSort bits) ∨
      (∃ b, value = .boolean b ∧ type = .bool ∧ bytes = [if b then 1 else 0]) ∨
      ∃ content, value = .string content ∧ type = .string ∧
        bytes = le 8 content.length ++ content := by
  unfold parseJSONFieldValue at h
  split at h
  · next i =>
    split at h
    · cases h
    · cases h
      have hrange : -2 ^ 31 ≤ i.getInt64 ∧ i.getInt64 < 2 ^ 31 := by omega
      exact .inl ⟨i, rfl, .inl ⟨rfl, hrange, flipped_be_ofSigned 3 (by omega) (by omega)⟩⟩
  · next i =>
    cases h
    have hrange := getInt64_range i
    exact .inl ⟨i, rfl, .inr ⟨rfl, flipped_be_ofSigned 7 (by omega) (by omega)⟩⟩
  · exact .inr (.inl ⟨_, rfl, rfl, (Option.some.inj h).symm⟩)
  · exact .inr (.inr (.inl ⟨_, rfl, rfl, (Option.some.inj h).symm⟩))
  · exact .inr (.inr (.inr ⟨_, rfl, rfl, (Option.some.inj h).symm⟩))
  · cases h

/-- **The bytes of a field hold its value**, unless it is an integer beyond `int64_t`. -/
theorem unpack_eq_value_iff
    (htype : type ≠ .double) (h : parseJSONFieldValue value type = some bytes) :
    unpack type bytes = value.value ↔ value.FitsInt64 := by
  -- what the packed number stands for is the cast number, which is another one beyond the range
  have hcast : ∀ i : JsonInteger, i.getInt64 = i.val ↔ i.val < 2 ^ 63 := by
    intro i
    constructor
    · intro heq
      rw [← heq]
      exact (getInt64_range i).2
    · exact getInt64_of_lt
  have hint : ∀ (i : JsonInteger) (n : Int), n = i.getInt64 →
      (some (FieldValue.int n) = some (.int i.val) ↔ i.val < 2 ^ 63) := by
    rintro i _ rfl
    rw [Option.some.injEq, FieldValue.int.injEq, hcast]
  rcases parse_eq_some h with ⟨i, rfl, ⟨rfl, hrange, rfl⟩ | ⟨rfl, rfl⟩⟩ | ⟨bits, -, rfl, -⟩ |
    ⟨b, rfl, rfl, rfl⟩ | ⟨content, rfl, rfl, rfl⟩
  · rw [unpack, ofBe_be (by omega)]
    exact hint i _ (by omega)
  · have hrange := getInt64_range i
    rw [unpack, ofBe_be (by omega)]
    exact hint i _ (by omega)
  · exact absurd rfl htype
  · cases b <;> exact ⟨fun _ => trivial, fun _ => rfl⟩
  · refine ⟨fun _ => trivial, fun _ => ?_⟩
    rfl

/-! ## The packed record -/

/-- The packed fields of a record, one by one. -/
inductive Packs : List MetadataFieldType → List Json → List Bytes → Prop
  | nil : Packs [] [] []
  | cons {type : MetadataFieldType} {value : Json} {bytes : Bytes}
      {types : List MetadataFieldType} {values : List Json} {chunks : List Bytes} :
      parseJSONFieldValue value type = some bytes → Packs types values chunks →
        Packs (type :: types) (value :: values) (bytes :: chunks)

variable {types : List MetadataFieldType} {values : List Json}

lemma encodeFields_eq_some (hlen : values.length = types.length) {buf out : Bytes}
    (h : encodeFields types values buf = some out) (hbuf : buf.length ≤ maxVectorSize) :
    ∃ chunks, Packs types values chunks ∧ out = buf ++ chunks.flatten
      ∧ out.length ≤ maxVectorSize := by
  induction types generalizing values buf with
  | nil =>
    obtain rfl := length_eq_zero_iff.mp hlen
    cases h
    exact ⟨[], .nil, (append_nil _).symm, hbuf⟩
  | cons type types ih =>
    cases values with
    | nil => cases hlen
    | cons value values =>
      rw [encodeFields] at h
      cases hparse : parseJSONFieldValue value type with
      | none =>
        rw [hparse] at h
        cases h
      | some bytes =>
        rw [hparse] at h
        dsimp only at h
        by_cases hmax : maxVectorSize < (buf ++ bytes).length
        · rw [if_pos hmax] at h
          cases h
        · rw [if_neg hmax] at h
          obtain ⟨chunks, hpacks, hout, hsize⟩ := ih (Nat.succ.inj hlen) h (Nat.not_lt.mp hmax)
          refine ⟨bytes :: chunks, .cons hparse hpacks, ?_, hsize⟩
          rw [hout, flatten_cons, append_assoc]

variable {chunks : List Bytes} {buf : Bytes}

lemma encodeFields_of_packs (hpacks : Packs types values chunks)
    (hsize : (buf ++ chunks.flatten).length ≤ maxVectorSize) :
    encodeFields types values buf = some (buf ++ chunks.flatten) := by
  induction hpacks generalizing buf with
  | nil => exact congrArg some (append_nil buf).symm
  | @cons type value bytes types values chunks hparse _ ih =>
    rw [flatten_cons, ← append_assoc] at hsize ⊢
    have hfits : ¬ maxVectorSize < (buf ++ bytes).length := by
      rw [length_append] at hsize
      omega
    rw [encodeFields, hparse]
    dsimp only
    rw [if_neg hfits, ih hsize]

lemma Packs.length_eq (h : Packs types values chunks) :
    values.length = types.length ∧ chunks.length = types.length := by
  induction h with
  | nil => exact ⟨rfl, rfl⟩
  | cons _ _ ih => exact ⟨congrArg (· + 1) ih.1, congrArg (· + 1) ih.2⟩

variable {index : Nat}

lemma Packs.getElem? (h : Packs types values chunks) (htype : types[index]? = some type) :
    ∃ value bytes, values[index]? = some value ∧ chunks[index]? = some bytes
      ∧ parseJSONFieldValue value type = some bytes := by
  induction h generalizing index with
  | nil => cases htype
  | cons hparse _ ih =>
    cases index with
    | zero =>
      cases htype
      exact ⟨_, _, rfl, rfl, hparse⟩
    | succ index => exact ih htype

lemma Packs.append {types types' : List MetadataFieldType} {values values' : List Json}
    {chunks chunks' : List Bytes} (h : Packs types values chunks)
    (h' : Packs types' values' chunks') :
    Packs (types ++ types') (values ++ values') (chunks ++ chunks') := by
  induction h with
  | nil => exact h'
  | cons hparse _ ih => exact .cons hparse ih

lemma length_changeDoubleForSort (bits : UInt64) : (changeDoubleForSort bits).length = 8 := by
  unfold changeDoubleForSort
  by_cases hzero : bits = 0 ∨ bits = 0x8000000000000000
  · rw [if_pos hzero]
    rfl
  · rw [if_neg hzero]
    have hlen := length_be 8 bits.toNat
    generalize be 8 bits.toNat = bytes at hlen ⊢
    match bytes, hlen with
    | b₀ :: b₁ :: rest, hlen =>
      dsimp only
      by_cases hneg : b₀ &&& 128 ≠ 0
      · rw [if_pos hneg, length_map]
        exact hlen
      · rw [if_neg hneg]
        exact hlen

lemma length_packed (h : parseJSONFieldValue value type = some bytes) :
    (type ≠ .string ∧ bytes.length = getFieldLength type)
      ∨ (type = .string ∧ ∃ content, bytes = le 8 content.length ++ content) := by
  rcases parse_eq_some h with ⟨i, -, ⟨rfl, -, rfl⟩ | ⟨rfl, rfl⟩⟩ | ⟨bits, -, rfl, rfl⟩ |
    ⟨b, -, rfl, rfl⟩ | ⟨content, -, rfl, rfl⟩
  · exact .inl ⟨nofun, length_be 4 _⟩
  · exact .inl ⟨nofun, length_be 8 _⟩
  · exact .inl ⟨nofun, length_changeDoubleForSort bits⟩
  · exact .inl ⟨nofun, rfl⟩
  · exact .inr ⟨rfl, content, rfl⟩

/-! ## Offsets -/

lemma readBytes_middle (before bytes after : Bytes) :
    readBytes (before ++ (bytes ++ after)) before.length bytes.length = some bytes := by
  rw [readBytes, if_pos (by rw [length_append, length_append]; omega), drop_left, take_left]

lemma readSize_middle (before after : Bytes) {n : Nat} (hn : n < u64) :
    readSize (before ++ (le 8 n ++ after)) before.length = some n := by
  have hread := readBytes_middle before (le 8 n) after
  rw [length_le] at hread
  have hu : u64 = 256 ^ 8 := by decide
  rw [readSize, hread, map_some, ofLe_le (by omega)]

/-- Where the fields of a record begin. -/
def offsetsOf (offset : Nat) : List Bytes → List Nat
  | [] => []
  | bytes :: chunks => offset :: offsetsOf (offset + bytes.length) chunks

@[simp] lemma length_offsetsOf (offset : Nat) (chunks : List Bytes) :
    (offsetsOf offset chunks).length = chunks.length := by
  induction chunks generalizing offset with
  | nil => rfl
  | cons bytes chunks ih => rw [offsetsOf, length_cons, length_cons, ih]

lemma getElem?_offsetsOf (offset : Nat) (h : index < chunks.length) :
    (offsetsOf offset chunks)[index]? = some (offset + (chunks.take index).flatten.length) := by
  induction chunks generalizing offset index with
  | nil => exact absurd h (Nat.not_lt_zero _)
  | cons bytes chunks ih =>
    cases index with
    | zero => rfl
    | succ index =>
      rw [offsetsOf, getElem?_cons_succ, ih _ (Nat.lt_of_succ_lt_succ h), take_succ_cons,
        flatten_cons, length_append, Nat.add_assoc]

/-- **The offsets are those of the fields**, whatever strings there are. -/
theorem decodeOffsets_packed (h : Packs types values chunks) (before : Bytes)
    (hsize : (before ++ chunks.flatten).length < u64) :
    decodeOffsets (before ++ chunks.flatten) types before.length
      = some (offsetsOf before.length chunks) := by
  induction h generalizing before with
  | nil => rfl
  | @cons type value bytes types values chunks hparse _ ih =>
    have hstep := ih (before ++ bytes) (by
      rw [append_assoc]
      exact hsize)
    rw [append_assoc, length_append, ← flatten_cons] at hstep
    have hnext : (before.length + bytes.length) % u64 = before.length + bytes.length := by
      rw [length_append, flatten_cons, length_append] at hsize
      exact Nat.mod_eq_of_lt (by omega)
    rcases length_packed hparse with ⟨hstring, hlen⟩ | ⟨rfl, content, rfl⟩
    · rw [decodeOffsets, if_neg hstring, ← hlen]
      simp only [bind_eq_bind, bind_some, Nat.add_zero, hnext, hstep]
      rfl
    · have hcontent : content.length < u64 := by
        rw [length_append, flatten_cons, length_append, length_append] at hsize
        omega
      have hread : readSize (before ++ ((le 8 content.length ++ content) :: chunks).flatten)
          before.length = some content.length := by
        exact readSize_middle before _ hcontent
      have hlen : getFieldLength .string + content.length
          = (le 8 content.length ++ content).length := by
        rw [length_append]
        rfl
      rw [decodeOffsets, hread]
      simp only [bind_eq_bind, bind_some, hlen, hnext, hstep]
      rfl

lemma flatten_split (h : chunks[index]? = some bytes) : chunks.flatten
    = (chunks.take index).flatten ++ (bytes ++ (chunks.drop (index + 1)).flatten) := by
  obtain ⟨hindex, hget⟩ := List.getElem?_eq_some_iff.mp h
  conv_lhs => rw [← take_append_drop index chunks, drop_eq_getElem_cons hindex, hget]
  rw [flatten_append, flatten_cons]

lemma fieldBytes_packed (chunks : List Bytes) (h : chunks[index]? = some bytes) :
    fieldBytes chunks.flatten (offsetsOf 0 chunks) index = some bytes := by
  obtain ⟨hindex, hget⟩ := List.getElem?_eq_some_iff.mp h
  have hsplit := flatten_split h
  have hread : ∀ size, size = bytes.length →
      readBytes chunks.flatten (0 + (chunks.take index).flatten.length) size = some bytes := by
    rintro _ rfl
    rw [hsplit, Nat.zero_add]
    exact readBytes_middle _ _ _
  rw [fieldBytes, getElem?_offsetsOf 0 hindex]
  simp only [bind_eq_bind, bind_some, length_offsetsOf]
  by_cases hlast : index = chunks.length - 1
  · rw [if_pos hlast]
    apply hread
    have hnil : chunks.drop (index + 1) = [] := drop_eq_nil_of_le (by omega)
    rw [hsplit, hnil, length_append, flatten_nil, append_nil]
    omega
  · rw [if_neg hlast, getElem?_offsetsOf 0 (by omega)]
    apply hread
    rw [take_succ_eq_append_getElem hindex, hget, flatten_append, length_append, flatten_singleton]
    omega

/-! ## One field by itself -/

lemma skipFields_append (buf : Bytes) (types types' : List MetadataFieldType) (offset : Nat) :
    skipFields buf (types ++ types') offset
      = (skipFields buf types offset).bind (skipFields buf types') := by
  induction types generalizing offset with
  | nil => rfl
  | cons type types ih =>
    rw [cons_append, skipFields, skipFields]
    by_cases hstring : type = .string
    · rw [if_pos hstring, if_pos hstring, bind_assoc]
      congr 1
      funext content
      exact ih _
    · rw [if_neg hstring, if_neg hstring]
      exact ih _

lemma skipFields_packed (h : Packs types values chunks) (hstrings : ∀ t ∈ types, t ≠ .string)
    (buf : Bytes) {offset : Nat} (hsize : offset + chunks.flatten.length < u64) :
    skipFields buf types offset = some (offset + chunks.flatten.length) := by
  induction h generalizing offset with
  | nil => rfl
  | @cons type value bytes types values chunks hparse _ ih =>
    have hstring := hstrings type mem_cons_self
    rcases length_packed hparse with ⟨-, hlen⟩ | ⟨h, -⟩
    · rw [flatten_cons, length_append, ← Nat.add_assoc] at hsize ⊢
      rw [skipFields, if_neg hstring, ← hlen, Nat.mod_eq_of_lt (by omega)]
      exact ih (fun t ht => hstrings t (mem_cons_of_mem type ht)) hsize
    · exact absurd h hstring

lemma skipFields_beyond (types : List MetadataFieldType) {offset : Nat}
    (hbeyond : buf.length < offset) (hsize : offset + 8 * types.length < u64) :
    ∀ offset', skipFields buf types offset = some offset' → buf.length < offset' := by
  induction types generalizing offset with
  | nil =>
    rintro _ ⟨⟩
    exact hbeyond
  | cons type types ih =>
    intro offset' h
    rw [length_cons] at hsize
    have hlen : getFieldLength type ≤ 8 := by cases type <;> decide
    rw [skipFields, Nat.mod_eq_of_lt (by omega)] at h
    by_cases hstring : type = .string
    · have hnone : readSize buf (offset + getFieldLength type) = none := by
        rw [readSize, readBytes, if_neg (by omega)]
        rfl
      rw [if_pos hstring, hnone] at h
      cases h
    · rw [if_neg hstring] at h
      exact ih (by omega) (by omega) offset' h

lemma readField_beyond {offset : Nat} (h : buf.length < offset)
    (type : MetadataFieldType) : readField buf offset type = none := by
  have hnone : ∀ size, readBytes buf offset size = none := by
    intro size
    rw [readBytes, if_neg (by omega)]
  cases type with
  | unknown => rfl
  | string =>
    rw [readField, readSize, hnone]
    rfl
  | int32 | int64 | double | bool => rw [readField, hnone, map_none]

/-! A record for a schema, with every field but one as small as it can be. -/

/-- The field types of records: all but floats, and those no record has. -/
def Unfloated (types : List MetadataFieldType) : Prop :=
  ∀ t ∈ types, t ≠ .double ∧ t ≠ .unknown

def smallValue : MetadataFieldType → Json
  | .int32 | .int64 => .integer ⟨0, by decide⟩
  | .double => .float 0
  | .bool => .boolean false
  | .string => .string []
  | .unknown => .null

def smallBytes : MetadataFieldType → Bytes
  | .int32 => [128, 0, 0, 0]
  | .int64 => [128, 0, 0, 0, 0, 0, 0, 0]
  | .double => [128, 0, 0, 0, 0, 0, 0, 0]
  | .bool => [0]
  | .string => [0, 0, 0, 0, 0, 0, 0, 0]
  | .unknown => []

lemma parse_smallValue (h : type ≠ .unknown) :
    parseJSONFieldValue (smallValue type) type = some (smallBytes type) := by
  cases type with
  | unknown => exact absurd rfl h
  | int32 | int64 | double | bool | string => decide

lemma packs_small (h : Unfloated types) :
    Packs types (types.map smallValue) (types.map smallBytes) := by
  induction types with
  | nil => exact .nil
  | cons type types ih =>
    exact .cons (parse_smallValue (h type mem_cons_self).2)
      (ih fun t ht => h t (mem_cons_of_mem type ht))

lemma length_small_le (types : List MetadataFieldType) :
    (types.map smallBytes).flatten.length ≤ 8 * types.length := by
  induction types with
  | nil => exact Nat.zero_le _
  | cons type types ih =>
    have hbytes : (smallBytes type).length ≤ 8 := by cases type <;> decide
    rw [map_cons, flatten_cons, length_append, length_cons]
    omega

/-- A packed record with one field chosen. -/
def recordWith (front : List MetadataFieldType) (bytes : Bytes) (rest : List MetadataFieldType) :
    Bytes :=
  (front.map smallBytes).flatten ++ (bytes ++ (rest.map smallBytes).flatten)

variable {schema : VectorRecordMetadata} {front rest : List MetadataFieldType}

lemma encode_with (htypes : schema.fieldTypes = front ++ type :: rest)
    (hschema : Unfloated schema.fieldTypes)
    (hparse : parseJSONFieldValue value type = some bytes) (hbytes : bytes.length ≤ 16) :
    schema.encode (.array (front.map smallValue ++ value :: rest.map smallValue))
      = some (recordWith front bytes rest) ∧ (recordWith front bytes rest).length < 2 ^ 62 := by
  obtain ⟨hfront, hrest⟩ := forall_mem_append.mp (htypes ▸ hschema)
  have hpacks : Packs (front ++ type :: rest) (front.map smallValue ++ value :: rest.map smallValue)
      (front.map smallBytes ++ bytes :: rest.map smallBytes) :=
    (packs_small hfront).append
      (.cons hparse (packs_small fun t ht => hrest t (mem_cons_of_mem type ht)))
  have hflat : (front.map smallBytes ++ bytes :: rest.map smallBytes).flatten
      = recordWith front bytes rest := by
    rw [flatten_append]
    rfl
  have hcount := schema.length_lt
  rw [htypes, length_append, length_cons] at hcount
  have hsize : (recordWith front bytes rest).length < 2 ^ 62 := by
    have hf := length_small_le front
    have hr := length_small_le rest
    rw [recordWith, length_append, length_append]
    omega
  refine ⟨?_, hsize⟩
  have hlen : (front.map smallValue ++ value :: rest.map smallValue).length
      = schema.fieldNames.length := by
    rw [hpacks.length_eq.1, schema.length_eq, htypes]
  have hmax : ([] ++ (front.map smallBytes ++ bytes :: rest.map smallBytes).flatten).length
      ≤ maxVectorSize := by
    rw [nil_append, hflat, maxVectorSize]
    omega
  have hencode := encodeFields_of_packs hpacks hmax
  rw [encode, if_neg (not_not.mpr hlen), htypes, hencode, nil_append, hflat]

lemma decode_with (htypes : schema.fieldTypes = front ++ type :: rest)
    (hschema : Unfloated schema.fieldTypes) (hstrings : ∀ t ∈ front, t ≠ .string) (bytes : Bytes) :
    schema.decode (recordWith front bytes rest) front.length
      = readField (recordWith front bytes rest) (front.map smallBytes).flatten.length type := by
  have hfront : Unfloated front := (forall_mem_append.mp (htypes ▸ hschema)).1
  have hcount := schema.length_lt
  rw [htypes, length_append] at hcount
  have hsize := length_small_le front
  have hu : u64 = 2 ^ 64 := rfl
  have hskip := skipFields_packed (packs_small hfront) hstrings (recordWith front bytes rest)
    (show 0 + (front.map smallBytes).flatten.length < u64 by omega)
  rw [Nat.zero_add] at hskip
  rw [decode, htypes, List.getElem?_append_right (Nat.le_refl _),
    Nat.sub_self, take_left]
  simp [hskip]

/-- A string in front of a field can send `Decode` of the field outside the record. -/
lemma decode_behind_string (hschema : Unfloated schema.fieldTypes)
    (htypes : schema.fieldTypes = front ++ type :: rest) (hstring : .string ∈ front) :
    ∃ items buf, schema.encode (.array items) = some buf ∧ schema.decode buf front.length = none
      ∧ items[front.length]? = some (smallValue type) := by
  obtain ⟨before, after, hfront, hbefore⟩ := eq_append_cons_of_mem hstring
  have htypes' : schema.fieldTypes = before ++ .string :: (after ++ type :: rest) := by
    rw [htypes, hfront, append_assoc, cons_append]
  have hnostring : ∀ t ∈ before, t ≠ .string := by
    rintro t ht rfl
    exact hbefore ht
  have hbeforeTypes : Unfloated before := (forall_mem_append.mp (htypes' ▸ hschema)).1
  -- the content of the string, taken for a length, is beyond any record
  have hparse : parseJSONFieldValue (.string (le 8 (2 ^ 62))) .string
      = some (le 8 8 ++ le 8 (2 ^ 62)) := by
    rw [parseJSONFieldValue, length_le]
  obtain ⟨hencode, hsize⟩ := encode_with htypes' hschema hparse
    (by rw [length_append, length_le, length_le])
  refine ⟨_, _, hencode, ?_, ?_⟩
  · obtain ⟨buf, hbuf⟩ : ∃ buf, buf = recordWith before (le 8 8 ++ le 8 (2 ^ 62))
        (after ++ type :: rest) := ⟨_, rfl⟩
    rw [← hbuf] at hsize ⊢
    have hcount := schema.length_lt
    rw [htypes', length_append, length_cons, length_append] at hcount
    have hu : u64 = 2 ^ 64 := rfl
    have hsmall := length_small_le before
    have hskip : skipFields buf before 0 = some (before.map smallBytes).flatten.length := by
      rw [skipFields_packed (packs_small hbeforeTypes) hnostring buf (by omega), Nat.zero_add]
    have hread : readSize buf ((before.map smallBytes).flatten.length + 8) = some (2 ^ 62) := by
      have hmiddle := readSize_middle ((before.map smallBytes).flatten ++ le 8 8)
        ((after ++ type :: rest).map smallBytes).flatten (n := 2 ^ 62) (by omega)
      rw [length_append, length_le] at hmiddle
      rw [hbuf, ← hmiddle, recordWith]
      simp
    have hfar : skipFields buf front 0 = skipFields buf after
        ((before.map smallBytes).flatten.length + 8 + 2 ^ 62) := by
      rw [hfront, skipFields_append, hskip, bind_some, skipFields, if_pos rfl,
        show getFieldLength .string = 8 from rfl, Nat.mod_eq_of_lt (by omega), hread,
        bind_some, Nat.mod_eq_of_lt (by omega)]
    have hbeyond : ∀ offset, skipFields buf after
        ((before.map smallBytes).flatten.length + 8 + 2 ^ 62) = some offset → buf.length < offset :=
      skipFields_beyond after (by omega) (by omega)
    rw [decode, htypes, List.getElem?_append_right (Nat.le_refl _),
      Nat.sub_self, take_left]
    simp only [getElem?_cons_zero, bind_eq_bind, bind_some, hfar]
    cases hoffset : skipFields buf after ((before.map smallBytes).flatten.length + 8 + 2 ^ 62) with
    | none => rfl
    | some offset => exact readField_beyond (hbeyond offset hoffset) type
  · rw [hfront, length_append, length_cons,
      getElem?_append_right (by rw [length_map]; omega), length_map,
      show before.length + (after.length + 1) - before.length = after.length + 1 by omega,
      getElem?_cons_succ, map_append,
      getElem?_append_right (by rw [length_map]), length_map, Nat.sub_self]
    rfl

lemma value_smallValue (h : type ≠ .unknown) : (smallValue type).value ≠ none := by
  cases type with
  | unknown => exact absurd rfl h
  | int32 | int64 | double | bool | string => exact nofun

lemma Packs.take (h : Packs types values chunks) (n : Nat) :
    Packs (types.take n) (values.take n) (chunks.take n) := by
  induction h generalizing n with
  | nil =>
    rw [take_nil, take_nil, take_nil]
    exact .nil
  | cons hparse _ ih =>
    cases n with
    | zero => exact .nil
    | succ n => exact .cons hparse (ih n)

lemma VectorRecordMetadata.packs_of_encode {record : Json} (h : schema.encode record = some buf) :
    ∃ items chunks, record = .array items ∧ Packs schema.fieldTypes items chunks
      ∧ buf = chunks.flatten ∧ buf.length < u64 := by
  cases record with
  | array items =>
    rw [encode] at h
    by_cases hlen : items.length = schema.fieldNames.length
    · rw [if_neg (not_not.mpr hlen)] at h
      obtain ⟨chunks, hpacks, hbuf, hsize⟩ :=
        encodeFields_eq_some (hlen.trans schema.length_eq) h (Nat.zero_le _)
      refine ⟨items, chunks, rfl, hpacks, hbuf, Nat.lt_of_le_of_lt hsize (by decide)⟩
    · rw [if_pos hlen] at h
      cases h
  | _ => cases h

lemma decode_bool (htype : schema.fieldTypes[index]? = some .bool)
    (hstrings : ∀ t ∈ schema.fieldTypes.take index, t ≠ .string) {items : List Json}
    (hencode : schema.encode (.array items) = some buf) :
    schema.decode buf index = items[index]?.bind Json.value := by
  obtain ⟨_, chunks, ⟨⟩, hpacks, rfl, hsize⟩ := schema.packs_of_encode hencode
  obtain ⟨value, bytes, hvalue, hbytes, hparse⟩ := hpacks.getElem? htype
  have hsplit := flatten_split hbytes
  have hskip := skipFields_packed (hpacks.take index) hstrings chunks.flatten
    (show 0 + (chunks.take index).flatten.length < u64 by
      rw [hsplit, length_append] at hsize
      omega)
  rw [Nat.zero_add] at hskip
  cases value with
  | boolean b =>
    cases hparse
    have hread : readBytes chunks.flatten (chunks.take index).flatten.length 1
        = some [if b then 1 else 0] := by
      rw [hsplit]
      exact readBytes_middle _ [if b then 1 else 0] _
    rw [decode, htype, hvalue]
    simp only [bind_eq_bind, bind_some, hskip, readField, hread, map_some]
    cases b <;> rfl
  | _ => cases hparse

/-- Only a `bool` is read back as it was written, and a string before it moves the offset. -/
lemma decode_right_iff (hschema : Unfloated schema.fieldTypes)
    (htype : schema.fieldTypes[index]? = some type) :
    (∀ items buf, schema.encode (.array items) = some buf →
        schema.decode buf index = items[index]?.bind Json.value)
      ↔ type = .bool ∧ ∀ t ∈ schema.fieldTypes.take index, t ≠ .string := by
  obtain ⟨hindex, hget⟩ := List.getElem?_eq_some_iff.mp htype
  have htypes : schema.fieldTypes
      = schema.fieldTypes.take index ++ type :: schema.fieldTypes.drop (index + 1) := by
    conv_lhs => rw [← take_append_drop index schema.fieldTypes, drop_eq_getElem_cons hindex, hget]
  have hlen : (schema.fieldTypes.take index).length = index := by
    rw [length_take]
    omega
  have hunknown : type ≠ .unknown := (hschema type (by rw [← hget]; exact getElem_mem _)).2
  have hdouble : type ≠ .double := (hschema type (by rw [← hget]; exact getElem_mem _)).1
  constructor
  · intro hall
    have hstrings : ∀ t ∈ schema.fieldTypes.take index, t ≠ .string := by
      rintro t ht rfl
      obtain ⟨items, buf, hencode, hnone, hitem⟩ := decode_behind_string hschema htypes ht
      have hright := hall items buf hencode
      rw [hlen] at hnone hitem
      rw [hnone, hitem] at hright
      exact value_smallValue hunknown hright.symm
    refine ⟨?_, hstrings⟩
    -- the value read back from a record whose field holds `value`
    have hread : ∀ value bytes, parseJSONFieldValue value type = some bytes → bytes.length ≤ 16 →
        ∃ before after, readField (before ++ (bytes ++ after)) before.length type =
          value.value := by
      intro value bytes hparse hbytes
      obtain ⟨hencode, -⟩ := encode_with htypes hschema hparse hbytes
      have hright := hall _ _ hencode
      have hdecode := decode_with htypes hschema hstrings bytes
      rw [hlen] at hdecode
      rw [hdecode, getElem?_append_right (by rw [length_map, hlen]), length_map,
        hlen, Nat.sub_self] at hright
      exact ⟨_, _, hright⟩
    cases type with
    | bool => rfl
    | unknown => exact absurd rfl hunknown
    | double => exact absurd rfl hdouble
    | int32 =>
      obtain ⟨before, after, hzero⟩ := hread _ _ (parse_smallValue hunknown) (by decide)
      rw [readField, show 4 = (smallBytes .int32).length from rfl, readBytes_middle] at hzero
      exact absurd hzero (by decide)
    | int64 =>
      obtain ⟨before, after, hzero⟩ := hread _ _ (parse_smallValue hunknown) (by decide)
      rw [readField, show 8 = (smallBytes .int64).length from rfl, readBytes_middle] at hzero
      exact absurd hzero (by decide)
    | string =>
      obtain ⟨before, after, hone⟩ := hread (.string [0]) (le 8 1 ++ [0]) rfl (by decide)
      rw [readField, append_assoc (le 8 1)] at hone
      simp only [readSize_middle _ _ (show 1 < u64 by decide), bind_eq_bind, bind_some] at hone
      -- the first byte read is that of the length
      rw [show le 8 1 = [1] ++ [0, 0, 0, 0, 0, 0, 0] by decide, append_assoc [1],
        show 1 = ([1] : Bytes).length from rfl, readBytes_middle] at hone
      exact absurd hone (by decide)
  · rintro ⟨rfl, hstrings⟩ items buf hencode
    exact decode_bool htype hstrings hencode

/-- **Reading the fields of a packed record.**  Through the offsets every field is found, within
the record, and holds its value unless that is an integer beyond `int64_t`; by itself a field is
read back from every record exactly if it is a boolean without a string in front of it. -/
theorem record_fields_read_back_iff (schema : VectorRecordMetadata)
    (hschema : ∀ t ∈ schema.fieldTypes, t ≠ .double ∧ t ≠ .unknown) (index : Nat)
    (type : MetadataFieldType) (htype : schema.fieldTypes[index]? = some type) :
    (∀ items buf, schema.encode (.array items) = some buf →
        ∃ value offsets bytes, items[index]? = some value
          ∧ decodeOffsets buf schema.fieldTypes 0 = some offsets
          ∧ fieldBytes buf offsets index = some bytes
          ∧ (unpack type bytes = value.value ↔ value.FitsInt64))
      ∧ ((∀ items buf, schema.encode (.array items) = some buf →
          schema.decode buf index = items[index]?.bind Json.value)
        ↔ type = .bool ∧ ∀ t ∈ schema.fieldTypes.take index, t ≠ .string) := by
  refine ⟨?_, decode_right_iff hschema htype⟩
  intro items buf hencode
  obtain ⟨_, chunks, ⟨⟩, hpacks, rfl, hsize⟩ := schema.packs_of_encode hencode
  obtain ⟨value, bytes, hvalue, hbytes, hparse⟩ := hpacks.getElem? htype
  have hdouble : type ≠ .double := by
    obtain ⟨hindex, hget⟩ := List.getElem?_eq_some_iff.mp htype
    exact (hschema type (by rw [← hget]; exact getElem_mem _)).1
  refine ⟨value, offsetsOf 0 chunks, bytes, hvalue, ?_, fieldBytes_packed chunks hbytes,
    unpack_eq_value_iff hdouble hparse⟩
  exact decodeOffsets_packed hpacks [] hsize

/-- A string and a number behind it. -/
def sampleSchema : VectorRecordMetadata :=
  ⟨[ascii "tag", ascii "year"], [.string, .int32], rfl, by decide⟩

theorem sample_fields_read_back :
    (∀ items buf, sampleSchema.encode (.array items) = some buf →
        ∃ value offsets bytes, items[1]? = some value
          ∧ decodeOffsets buf sampleSchema.fieldTypes 0 = some offsets
          ∧ fieldBytes buf offsets 1 = some bytes
          ∧ (unpack .int32 bytes = value.value ↔ value.FitsInt64))
      ∧ ((∀ items buf, sampleSchema.encode (.array items) = some buf →
          sampleSchema.decode buf 1 = items[1]?.bind Json.value)
        ↔ MetadataFieldType.int32 = .bool ∧ ∀ t ∈ sampleSchema.fieldTypes.take 1, t ≠ .string) :=
  record_fields_read_back_iff sampleSchema (by decide) 1 .int32 rfl

/-- The year 1, packed and read back by itself, is another year; the tag "ab" comes back as the
first two bytes of its length. -/
theorem year_one_read_back_wrong :
    ∃ buf, (VectorRecordMetadata.mk [ascii "year"] [.int32] rfl (by decide)).encode
        (.array [.integer ⟨1, by decide⟩]) = some buf
      ∧ (VectorRecordMetadata.mk [ascii "year"] [.int32] rfl (by decide)).decode buf 0
        = some (.int 16777344)
      ∧ ∃ buf', (VectorRecordMetadata.mk [ascii "tag"] [.string] rfl (by decide)).encode
          (.array [.string (ascii "ab")]) = some buf'
        ∧ (VectorRecordMetadata.mk [ascii "tag"] [.string] rfl (by decide)).decode buf' 0
          = some (.string [2, 0]) :=
  ⟨_, rfl, by decide, _, rfl, by decide⟩

end EloqKV.Vector
