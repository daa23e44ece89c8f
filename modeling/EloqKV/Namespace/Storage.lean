/-
  The namespace metadata table (`src/namespace/storage.cpp`).

  Six kinds of records share the table `__ns_0`:

      n:<name>            the namespace's token
      t:<token>           the namespace's id
      i:<id>              the namespace's name
      e:<id>              the namespace's epoch, in decimal
      g:<id>:<epoch>      data of this id and epoch waits to be collected
      next_id             the id counter, in decimal

  Each public function of `NamespaceStorage` is one transaction over this table; the scripts follow
  the source request by request.
-/
import EloqKV.Lib.TxScript
import EloqKV.Namespace.Token
import EloqKV.Namespace.Prefix

open EloqKV.Lib

namespace EloqKV.NamespaceStorage

open Tx

/-! ## Record keys -/

def kNamespacePrefix : Bytes := ascii "n:"

def kTokenPrefix : Bytes := ascii "t:"

def kIdToNamePrefix : Bytes := ascii "i:"

def kEpochPrefix : Bytes := ascii "e:"

def kGcPrefix : Bytes := ascii "g:"

def kNextIdKey : Bytes := ascii "next_id"

/-- The key of the collection record of `encodedId` at `epoch`. -/
def gcKey (encodedId : Bytes) (epoch : Nat) : Bytes :=
  kGcPrefix ++ encodedId ++ ascii ":" ++ stdToString epoch

abbrev MetaTable := Table Bytes Bytes

abbrev Script := Tx Bytes Bytes

/-- The catch blocks around `std::stoull`: a record that does not parse counts as 1. -/
def parseCounter (record : Option Bytes) : Nat :=
  ((record.bind stoull).getD 1)

/-! ## The functions of `NamespaceStorage` -/

variable (ns : Bytes)

def getToken : Script (TxEnd NamespaceToken) := do
  match ← read (kNamespacePrefix ++ ns) with
  | none => return .abort NamespaceToken.empty
  | some record =>
    return .commit ((record.map NamespaceToken.ofRaw).getD NamespaceToken.empty)
      NamespaceToken.empty

/-- What `ByToken` returns: the namespace's name (empty when there is none), id and epoch. -/
structure ByTokenResult where
  nsName : Bytes
  nsId : Bytes
  epoch : Nat
  deriving DecidableEq

variable (token : NamespaceToken)

/-- `NamespaceStorage::ByToken`: a refused read counts as absent, and it commits in any case. -/
def byTokenScript : Script (TxEnd ByTokenResult) := do
  match ← read (kTokenPrefix ++ token.bytes) with
  | some (some encodedId) =>
    let name ← read (kIdToNamePrefix ++ encodedId)
    let epoch ← read (kEpochPrefix ++ encodedId)
    let r : ByTokenResult := ⟨(name.join).getD [], encodedId, parseCounter epoch.join⟩
    return .commit r r
  | _ => return .commit ⟨[], [], 1⟩ ⟨[], [], 1⟩

/-- The last four writes of `Add`: token, id, name and epoch records of a new namespace. -/
def addRecords (encodedId : Bytes) : Script (TxEnd Bool) := do
  if !(← write (kNamespacePrefix ++ ns) token.bytes) then return .abort false
  if !(← write (kTokenPrefix ++ token.bytes) encodedId) then return .abort false
  if !(← write (kIdToNamePrefix ++ encodedId) ns) then return .abort false
  if !(← write (kEpochPrefix ++ encodedId) (ascii "1")) then return .abort false
  return .commit true false

/-- The requests of `NamespaceStorage::Add`. -/
def addScript : Script (TxEnd Bool) := do
  match ← read (kNamespacePrefix ++ ns) with
  | none => return .abort false
  -- the name exists: the call succeeds only when it would register the same token again
  | some (some old) => return .commit (old = token.bytes) (old = token.bytes)
  | some none =>
    match ← read (kTokenPrefix ++ token.bytes) with
    | none => return .abort false
    | some (some _) => return .abort false
    | some none =>
      match ← read kNextIdKey with
      | none => return .abort false
      | some record =>
        let nextId := parseCounter record
        if !(← write kNextIdKey (stdToString ((nextId + 1) % u64))) then
          return .abort false
        addRecords ns token (b255e nextId)

/-- The last three writes of `Set`: the new token, the id it leads to, and the name again. -/
def setRecords (encodedId : Bytes) : Script (TxEnd Bool) := do
  if !(← write (kNamespacePrefix ++ ns) token.bytes) then return .abort false
  if !(← write (kTokenPrefix ++ token.bytes) encodedId) then return .abort false
  if !(← write (kIdToNamePrefix ++ encodedId) ns) then return .abort false
  return .commit true false

/-- The part of `Set` that gives a name unknown so far an id of its own. -/
def setFresh : Script (TxEnd Bool) := do
  match ← read kNextIdKey with
  | none => return .abort false
  | some record =>
    let nextId := parseCounter record
    if !(← write kNextIdKey (stdToString ((nextId + 1) % u64))) then
      return .abort false
    setRecords ns token (b255e nextId)

/-- The part of `Set` that moves a known name from `oldToken` to `token`, keeping its id. -/
def setRotate (oldToken : Bytes) : Script (TxEnd Bool) := do
  if oldToken = token.bytes then return .commit true true
  let encodedId ← read (kTokenPrefix ++ oldToken)
  if !(← delete (kTokenPrefix ++ oldToken)) then return .abort false
  match encodedId with
  | some (some encodedId) =>
    -- an empty id is treated like a missing one, and a known name without an id is refused
    if encodedId = [] then return .abort false
    setRecords ns token encodedId
  | _ => return .abort false

/-- The part of `Set` after the check that no other namespace holds the token. -/
def setName : Script (TxEnd Bool) := do
  match ← read (kNamespacePrefix ++ ns) with
  | none => return .abort false
  | some (some oldToken) => setRotate ns token oldToken
  | some none => setFresh ns token

/-- The requests of `NamespaceStorage::Set`. -/
def setScript : Script (TxEnd Bool) := do
  match ← read (kTokenPrefix ++ token.bytes) with
  | none => return .abort false
  | some none => setName ns token
  | some (some existingId) =>
    match ← read (kIdToNamePrefix ++ existingId) with
    | some (some owner) => if owner ≠ ns then return .abort false else setName ns token
    | _ => return .abort false

/-- The deletions of both branches of `Del`, then those of the id's own records. -/
def delRecords (ns token encodedId : Bytes) : Script (TxEnd Bool) := do
  if !(← delete (kNamespacePrefix ++ ns)) then return .abort false
  if !(← delete (kTokenPrefix ++ token)) then return .abort false
  if encodedId ≠ [] then
    if !(← delete (kIdToNamePrefix ++ encodedId)) then return .abort false
    if !(← delete (kEpochPrefix ++ encodedId)) then return .abort false
    return .commit true false
  else
    return .commit true false

/-- The requests of `NamespaceStorage::Del`. -/
def delScript : Script (TxEnd Bool) := do
  match ← read (kNamespacePrefix ++ ns) with
  | some (some token) =>
    let encodedId := ((← read (kTokenPrefix ++ token)).join).getD []
    if encodedId ≠ [] then
      let epoch := parseCounter (← read (kEpochPrefix ++ encodedId)).join
      if !(← write (gcKey encodedId epoch) (ascii "1")) then return .abort false
      delRecords ns token encodedId
    else
      delRecords ns token encodedId
  | _ => return .abort false

/-- `ExecuteFlushDBCommand` in a namespace: the new epoch and the old one's collection record. -/
def flushScript (encodedId : Bytes) (oldEpoch : Nat) : Script (TxEnd Bool) := do
  if !(← write (kEpochPrefix ++ encodedId) (stdToString ((oldEpoch + 1) % u64))) then
    return .abort false
  if !(← write (gcKey encodedId oldEpoch) (ascii "1")) then return .abort false
  return .commit true false

section
variable (requirepass : Bytes) (outcomes : List Bool)

/-- The guard at the head of `ByToken`, `Add` and `Set`: an invalid token, or one whose text is
the administrator's password, is refused before any request is sent. -/
def tokenRefused (token : NamespaceToken) : Bool :=
  !token.valid || (token.toText = requirepass && requirepass ≠ [])

def byToken (token : NamespaceToken) (t : MetaTable) : ByTokenResult :=
  if tokenRefused requirepass token then ⟨[], [], 1⟩
  else (runTx ⟨[], [], 1⟩ (byTokenScript token) t outcomes).1

def add (ns : Bytes) (token : NamespaceToken) (t : MetaTable) : Bool × MetaTable :=
  if tokenRefused requirepass token then (false, t)
  else runTx false (addScript ns token) t outcomes

def set (ns : Bytes) (token : NamespaceToken) (t : MetaTable) : Bool × MetaTable :=
  if tokenRefused requirepass token then (false, t)
  else runTx false (setScript ns token) t outcomes

def del (ns : Bytes) (t : MetaTable) : Bool × MetaTable :=
  runTx false (delScript ns) t outcomes

end

/-! ## No record names the default namespace

The commands refuse to add or refresh a namespace called `default`, and the only records that
carry a name are the `i:` records.  So a token never leads to that name. -/

/-- No `i:` record holds the name of the default namespace. -/
def NamesNotDefault (t : MetaTable) : Prop :=
  ∀ id, t (kIdToNamePrefix ++ id) ≠ some kDefaultNamespace

lemma byToken_nsName_ne (requirepass : Bytes) (outcomes : List Bool) (token : NamespaceToken)
    {t : MetaTable} (ht : NamesNotDefault t) :
    (byToken requirepass outcomes token t).nsName ≠ kDefaultNamespace := by
  have hempty : (⟨[], [], 1⟩ : ByTokenResult).nsName ≠ kDefaultNamespace := by decide
  unfold byToken
  split
  · exact hempty
  refine runTx_settles (R := fun (r : ByTokenResult) _ => r.nsName ≠ kDefaultNamespace) ?_ hempty
    outcomes
  refine .of_read (.of_pure ⟨hempty, hempty⟩) ?_
  cases t (kTokenPrefix ++ token.bytes) with
  | none => exact .of_pure ⟨hempty, hempty⟩
  | some id =>
    have hend : ∀ name : Option (Option Bytes), (name.join.getD [] ≠ kDefaultNamespace) →
        Tx.Triple (· = t) (do
          let epoch ← read (kEpochPrefix ++ id)
          let r : ByTokenResult := ⟨name.join.getD [], id, parseCounter epoch.join⟩
          return .commit r r) (Tx.Settles t fun r _ => r.nsName ≠ kDefaultNamespace) :=
      fun name hname => .of_read (.of_pure ⟨hname, hname⟩) (.of_pure ⟨hname, hname⟩)
    refine .of_read (hend none hempty) (hend _ ?_)
    -- the name is the record of the id
    cases hname : t (kIdToNamePrefix ++ id) with
    | none => exact hempty
    | some name => exact fun h => ht id (hname.trans (congrArg some h))

end EloqKV.NamespaceStorage
