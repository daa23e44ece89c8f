/-
  The log that buffers the changes of a vector index between two snapshots.

  A log is one metadata record and one record per item, all in one table of the engine; the key of
  an item is built from the log's name and the item's sequence number.  Every function works inside
  a transaction its caller opened and does not end it; every caller aborts when it is told of a
  failure.

  All counters are `uint64_t` and wrap around.  The loops over sequence numbers count up to and
  including their bound; with the largest number as the bound such a loop has no end, which the
  model says by a return value of its own (`endless`).
-/
import EloqKV.Decimal
import EloqKV.Lib.Endian
import EloqKV.Lib.TxScript

open EloqKV.Lib EloqKV.Lib.Endian List

namespace EloqKV.Vector

/-- `LogOperationType`, with a fixed underlying byte; a stored byte is cast to it unchecked. -/
inductive LogOperationType where
  | insert
  | update
  | delete
  | unnamed (code : Fin 253)
  deriving DecidableEq

/-- `static_cast<uint8_t>` of an operation type. -/
def LogOperationType.toByte : LogOperationType → UInt8
  | insert => 0
  | update => 1
  | delete => 2
  | unnamed code => UInt8.ofNat (code + 3)

/-- `static_cast<LogOperationType>` of a byte. -/
def LogOperationType.ofByte (b : UInt8) : LogOperationType :=
  if b = 0 then .insert
  else if b = 1 then .update
  else if b = 2 then .delete
  else .unnamed ⟨b.toNat - 3, by have := b.toNat_lt; omega⟩

/-- `log_item_t`. -/
structure LogItem where
  operationType : LogOperationType
  key : Bytes
  value : Bytes
  timestamp : Nat
  sequenceId : Nat
  deriving DecidableEq

/-- `log_metadata_t`, with the values of its constructor. -/
structure LogMetadata where
  totalItems : Nat := 0
  headItemSequenceId : Nat := 0
  tailItemSequenceId : Nat := 0
  nextId : Nat := 1
  deriving DecidableEq

/-- `LogError` without its value for success. -/
inductive LogError where
  | logNotFound
  | logAlreadyExists
  | invalidSequenceId
  | serializationError
  | deserializationError
  | storageError
  | invalidParameter
  deriving DecidableEq

/-- Success with output parameters, an error, or nothing, where a loop does not end. -/
inductive LogReturn (α : Type) where
  | ok (a : α)
  | error (e : LogError)
  | endless
  deriving DecidableEq

/-- The table of the vector indices' records, and a script on an open transaction over it. -/
abbrev LogTable := Table Bytes Bytes

/-- Requests on an open transaction over the table. -/
abbrev LogScript := Tx Bytes Bytes

/-! ## Records -/

/-- One counter of the metadata, read where the data reaches far enough. -/
def readCounter (data : Bytes) (offset fallback : Nat) : Nat × Nat :=
  if offset + 8 ≤ data.length then (ofLe ((data.drop offset).take 8), offset + 8)
  else (fallback, offset)

def serializeMetadata (m : LogMetadata) : Bytes :=
  le 8 m.totalItems ++ le 8 m.headItemSequenceId ++ le 8 m.tailItemSequenceId ++ le 8 m.nextId

def deserializeMetadata (data : Bytes) : LogMetadata :=
  let m : LogMetadata := {}
  let (total, offset) := readCounter data 0 m.totalItems
  let (head, offset) := readCounter data offset m.headItemSequenceId
  let (tail, offset) := readCounter data offset m.tailItemSequenceId
  let (next, _) := readCounter data offset m.nextId
  ⟨total, head, tail, next⟩

def serializeLogItem (item : LogItem) : Bytes :=
  [item.operationType.toByte] ++ le 8 item.key.length ++ item.key
    ++ le 8 item.value.length ++ item.value ++ le 8 item.timestamp ++ le 8 item.sequenceId

/-- A string behind its length, where the data reaches so far; the sum in the test is a `size_t`. -/
def readString (data : Bytes) (offset : Nat) (fallback : Bytes) : Bytes × Nat :=
  if offset + 8 ≤ data.length then
    let len := ofLe ((data.drop offset).take 8)
    if (offset + 8 + len) % u64 ≤ data.length then
      ((data.drop (offset + 8)).take len, (offset + 8 + len) % u64)
    else (fallback, offset + 8)
  else (fallback, offset)

/-- `LogObject::deserialize_log_item`; what is not read stays as the memory was (`uninit`). -/
def deserializeLogItem (uninit : LogItem) (data : Bytes) : LogItem :=
  let (op, offset) := match data with
    | [] => (uninit.operationType, 0)
    | b :: _ => (LogOperationType.ofByte b, 1)
  let (key, offset) := readString data offset []
  let (value, offset) := readString data offset []
  let (timestamp, offset) := readCounter data offset uninit.timestamp
  let (sequenceId, _) := readCounter data offset uninit.sequenceId
  ⟨op, key, value, timestamp, sequenceId⟩

variable (logName : Bytes)

def getMetadataKey : Bytes :=
  ascii "log:meta:" ++ logName

def getLogItemKey (sequenceId : Nat) : Bytes :=
  ascii "log:item:" ++ logName ++ ascii ":" ++ stdToString sequenceId

/-! ## The functions of a log -/

def createLog : LogScript (LogReturn Unit) := do
  match ← Tx.read (getMetadataKey logName) with
  | none => return .error .storageError
  | some (some _) => return .error .logAlreadyExists
  | some none =>
    if !(← Tx.write (getMetadataKey logName) (serializeMetadata ⟨0, 0, 0, 0⟩)) then
      return .error .storageError
    return .ok ()

/-- `LogObject::exists`. -/
def existsLog : LogScript Bool := do
  match ← Tx.read (getMetadataKey logName) with
  | some (some _) => return true
  | _ => return false

/-- The read of the metadata that all the other functions start with. -/
def withMetadata {α : Type} (body : LogMetadata → LogScript (LogReturn α)) :
    LogScript (LogReturn α) := do
  match ← Tx.read (getMetadataKey logName) with
  | none => return .error .storageError
  | some none => return .error .logNotFound
  | some (some data) => body (deserializeMetadata data)

/-- The loop of `append_log` that gives the items their numbers. -/
def assignSequenceIds (currentSeqId : Nat) : List LogItem → List LogItem
  | [] => []
  | item :: rest =>
    { item with sequenceId := currentSeqId } :: assignSequenceIds ((currentSeqId + 1) % u64) rest

/-- `LogObject::append_log`; its output parameters stay when there is nothing to append. -/
def appendLog (items : List LogItem) :
    LogScript (LogReturn (Option (Nat × Nat))) := do
  if items = [] then return .ok none
  withMetadata logName fun m => do
    let numbered := assignSequenceIds m.nextId items
    if !(← Tx.writeAll (numbered.map fun item =>
        (getLogItemKey logName item.sequenceId, serializeLogItem item))) then
      return .error .storageError
    let m' : LogMetadata := { m with
      totalItems := (m.totalItems + items.length) % u64
      tailItemSequenceId := (numbered.getLast?.map (·.sequenceId)).getD m.tailItemSequenceId
      nextId := (m.nextId + items.length) % u64 }
    if !(← Tx.write (getMetadataKey logName) (serializeMetadata m')) then
      return .error .storageError
    return .ok (some ((m'.nextId + u64 - 1) % u64, m'.totalItems))

/-- The numbers of a loop from `first` to `last`; `none` is the loop without an end. -/
def sequenceIds (first last : Nat) : Option (List Nat) :=
  if last = u64 - 1 then none else some (List.range' first (last + 1 - first))

def removeLog : LogScript (LogReturn Unit) :=
  withMetadata logName fun m => do
    match sequenceIds m.headItemSequenceId m.tailItemSequenceId with
    | none => return .endless
    | some ids =>
      if !(← Tx.deleteAll (ids.map (getLogItemKey logName))) then return .error .storageError
      if !(← Tx.delete (getMetadataKey logName)) then return .error .storageError
      return .ok ()

/-- `LogObject::truncate_log`, with the bound it hands back and the remaining count. -/
def truncateLog (toId : Nat) : LogScript (LogReturn (Nat × Nat)) :=
  withMetadata logName fun m => do
    let toId := if m.tailItemSequenceId < toId then m.tailItemSequenceId else toId
    if m.totalItems = 0 then return .ok (toId, 0)
    if toId < m.headItemSequenceId then return .error .invalidParameter
    match sequenceIds m.headItemSequenceId toId with
    | none => return .endless
    | some ids =>
      if !(← Tx.deleteAll (ids.map (getLogItemKey logName))) then return .error .storageError
      let m' : LogMetadata := { m with
        totalItems := (m.totalItems + u64 - (toId - m.headItemSequenceId + 1)) % u64
        headItemSequenceId := (toId + 1) % u64 }
      if !(← Tx.write (getMetadataKey logName) (serializeMetadata m')) then
        return .error .storageError
      return .ok (if toId = u64 - 1 then m.tailItemSequenceId else toId, m'.totalItems)

/-- `LogObject::scan_log`, with one batch request; a missing record is read from no data. -/
def scanLog (uninit : LogItem) (logName : Bytes) (toId : Nat) :
    LogScript (LogReturn (List LogItem)) :=
  withMetadata logName fun m => do
    if m.totalItems = 0 then return .ok []
    if toId < m.headItemSequenceId then return .error .invalidParameter
    let toId := if m.tailItemSequenceId < toId then m.tailItemSequenceId else toId
    match sequenceIds m.headItemSequenceId toId with
    | none => return .endless
    | some ids =>
      match ← Tx.readAll (ids.map (getLogItemKey logName)) with
      | none => return .error .storageError
      | some records =>
        return .ok (records.map fun record => deserializeLogItem uninit (record.getD []))

/-- `LogObject::get_stats`: the metadata, or that of the constructor where it cannot be read. -/
def getStats : LogScript LogMetadata := do
  match ← Tx.read (getMetadataKey logName) with
  | some (some data) => return deserializeMetadata data
  | _ => return {}

/-! ## Reading the records back -/

lemma LogOperationType.ofByte_toByte (op : LogOperationType) : ofByte op.toByte = op := by
  cases op with
  | insert => rfl
  | update => rfl
  | delete => rfl
  | unnamed code =>
    have hcode : (UInt8.ofNat (code.val + 3)).toNat = code.val + 3 := by
      exact Nat.mod_eq_of_lt (by omega)
    have hne : ∀ b : UInt8, b.toNat < 3 → UInt8.ofNat (code.val + 3) ≠ b := by
      rintro b hb rfl
      omega
    rw [toByte, ofByte, if_neg (hne 0 (by decide)), if_neg (hne 1 (by decide)),
      if_neg (hne 2 (by decide))]
    congr 1
    apply Fin.ext
    show (UInt8.ofNat (code.val + 3)).toNat - 3 = code.val
    omega

lemma lt_pow_of_lt_u64 {n : Nat} (hn : n < u64) : n < 256 ^ 8 := by
  have hu : u64 = 256 ^ 8 := by decide
  omega

lemma readCounter_of_drop {data rest : Bytes} {offset n : Nat} (fallback : Nat)
    (hn : n < u64) (h : data.drop offset = le 8 n ++ rest) :
    readCounter data offset fallback = (n, offset + 8) ∧ data.drop (offset + 8) = rest := by
  have hlen : data.length - offset = 8 + rest.length := by
    rw [← length_drop, h, length_append, length_le]
  constructor
  · rw [readCounter, if_pos (by omega), h, take_left' (length_le 8 n),
      ofLe_le (lt_pow_of_lt_u64 hn)]
  · rw [← drop_drop, h, drop_left' (length_le 8 n)]

lemma readString_of_drop {data s rest : Bytes} {offset : Nat} (fallback : Bytes)
    (hdata : data.length < u64) (h : data.drop offset = le 8 s.length ++ (s ++ rest)) :
    readString data offset fallback = (s, offset + 8 + s.length)
      ∧ data.drop (offset + 8 + s.length) = rest := by
  have hlen : data.length - offset = 8 + (s.length + rest.length) := by
    rw [← length_drop, h, length_append, length_append, length_le]
  have hval : ofLe ((data.drop offset).take 8) = s.length := by
    rw [h, take_left' (length_le 8 _), ofLe_le (lt_pow_of_lt_u64 (by omega))]
  have hdrop : data.drop (offset + 8) = s ++ rest := by
    rw [← drop_drop, h, drop_left' (length_le 8 _)]
  have hmod : (offset + 8 + s.length) % u64 = offset + 8 + s.length := Nat.mod_eq_of_lt (by omega)
  constructor
  · rw [readString, if_pos (by omega), hval]
    dsimp only
    rw [hmod, if_pos (by omega), hdrop, take_left]
  · rw [← drop_drop, hdrop, drop_left]

/-- The counters of a metadata record are 64-bit values. -/
structure LogMetadata.Fits (m : LogMetadata) : Prop where
  total : m.totalItems < u64
  head : m.headItemSequenceId < u64
  tail : m.tailItemSequenceId < u64
  next : m.nextId < u64

theorem deserialize_serializeMetadata {m : LogMetadata} (hm : m.Fits) :
    deserializeMetadata (serializeMetadata m) = m := by
  have h₀ : (serializeMetadata m).drop 0 = le 8 m.totalItems ++ (le 8 m.headItemSequenceId
      ++ (le 8 m.tailItemSequenceId ++ (le 8 m.nextId ++ []))) := by
    simp [serializeMetadata]
  obtain ⟨hr₁, h₁⟩ := readCounter_of_drop 0 hm.total h₀
  obtain ⟨hr₂, h₂⟩ := readCounter_of_drop 0 hm.head h₁
  obtain ⟨hr₃, h₃⟩ := readCounter_of_drop 0 hm.tail h₂
  obtain ⟨hr₄, -⟩ := readCounter_of_drop 1 hm.next h₃
  simp [deserializeMetadata, hr₁, hr₂, hr₃, hr₄]

/-- Every item a caller can pass: a text and a time of 64-bit length and value. -/
structure LogItem.Fits (item : LogItem) : Prop where
  text : item.key.length + item.value.length + 33 < u64
  timestamp : item.timestamp < u64

/-- **A log item is read back**, whatever the memory of the new item held. -/
theorem deserialize_serializeLogItem (uninit : LogItem) {item : LogItem} (hitem : item.Fits)
    (hseq : item.sequenceId < u64) : deserializeLogItem uninit (serializeLogItem item) = item := by
  have hlen : (serializeLogItem item).length < u64 := by
    have htext := hitem.text
    simp only [serializeLogItem, length_append, length_cons, length_nil, length_le]
    omega
  have h₀ : (serializeLogItem item).drop 1 = le 8 item.key.length ++ (item.key
      ++ (le 8 item.value.length ++ (item.value ++ (le 8 item.timestamp
      ++ (le 8 item.sequenceId ++ []))))) := by
    simp only [serializeLogItem, append_assoc, append_nil]
    rfl
  obtain ⟨hr₁, h₁⟩ := readString_of_drop [] hlen h₀
  obtain ⟨hr₂, h₂⟩ := readString_of_drop [] hlen h₁
  obtain ⟨hr₃, h₃⟩ := readCounter_of_drop uninit.timestamp hitem.timestamp h₂
  obtain ⟨hr₄, -⟩ := readCounter_of_drop uninit.sequenceId hseq h₃
  have hop : (match serializeLogItem item with
      | [] => (uninit.operationType, 0)
      | b :: _ => (LogOperationType.ofByte b, 1)) = (item.operationType, 1) := by
    exact congrArg (·, 1) (LogOperationType.ofByte_toByte _)
  simp [deserializeLogItem, hop, hr₁, hr₂, hr₃, hr₄]

/-! ## No two records share a key -/

/-- The number of an item stands behind the last colon of its key, so names may hold colons. -/
lemma getLogItemKey_inj {name name' : Bytes} {id id' : Nat} :
    getLogItemKey name id = getLogItemKey name' id' ↔ name = name' ∧ id = id' := by
  constructor
  · intro h
    obtain ⟨hname, hid⟩ := colon_stdToString_inj h
    exact ⟨append_cancel_left hname, hid⟩
  · rintro ⟨rfl, rfl⟩
    rfl

lemma getLogItemKey_ne_getMetadataKey (name name' : Bytes) (id : Nat) :
    getLogItemKey name id ≠ getMetadataKey name' := by
  intro h
  have htake := congrArg (List.take 5) h
  have hitem : (getLogItemKey name id).take 5 = ascii "log:i" := rfl
  have hmeta : (getMetadataKey name').take 5 = ascii "log:m" := rfl
  rw [hitem, hmeta] at htake
  exact absurd htake (by decide)

end EloqKV.Vector
