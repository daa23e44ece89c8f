/-
  What the records of the metadata table say together.

  Different records never share a key, so a script over the table is a sequence of changes to
  records (`putRecord`), and each script is one operation of the registry that the table represents.
-/
import EloqKV.Lib.Registry
import EloqKV.Decimal
import EloqKV.Namespace.Storage
import EloqKV.Namespace.KeyCodec

open EloqKV.Lib List Function

namespace EloqKV.NamespaceStorage

open Registry

/-! ## Records -/

inductive RecordKey where
  | name (ns : Bytes)
  | token (raw : Bytes)
  | idToName (encodedId : Bytes)
  | epoch (encodedId : Bytes)
  | gc (encodedId : Bytes) (epoch : Nat)
  | nextId
  deriving DecidableEq

namespace RecordKey

def bytes : RecordKey → Bytes
  | name ns => kNamespacePrefix ++ ns
  | token raw => kTokenPrefix ++ raw
  | idToName encodedId => kIdToNamePrefix ++ encodedId
  | epoch encodedId => kEpochPrefix ++ encodedId
  | gc encodedId e => gcKey encodedId e
  | nextId => kNextIdKey

/-- The kind of a record is the first two bytes of its key. -/
def kind : RecordKey → Bytes
  | name _ => kNamespacePrefix
  | token _ => kTokenPrefix
  | idToName _ => kIdToNamePrefix
  | epoch _ => kEpochPrefix
  | gc _ _ => kGcPrefix
  | nextId => ascii "ne"

lemma take_two_bytes (r : RecordKey) : r.bytes.take 2 = r.kind := by
  cases r <;> rfl

lemma bytes_injective : Function.Injective bytes := by
  intro r r' h
  have hkind : r.kind = r'.kind := by
    rw [← take_two_bytes, h, take_two_bytes]
  cases r <;> cases r' <;> dsimp only [kind] at hkind <;>
    first | exact absurd hkind (by decide) | skip
  case name.name => exact congrArg name (append_cancel_left h)
  case token.token => exact congrArg token (append_cancel_left h)
  case idToName.idToName => exact congrArg idToName (append_cancel_left h)
  case epoch.epoch => exact congrArg epoch (append_cancel_left h)
  case gc.gc id e id' e' =>
    have htail : kGcPrefix ++ (id ++ ascii ":" ++ stdToString e)
        = kGcPrefix ++ (id' ++ ascii ":" ++ stdToString e') := by
      simpa only [bytes, gcKey, append_assoc] using h
    obtain ⟨rfl, rfl⟩ := colon_stdToString_inj (append_cancel_left htail)
    rfl
  case nextId.nextId => rfl

end RecordKey

variable (t : MetaTable)

/-- The table after a record is written or deleted. -/
def putRecord (r : RecordKey) (v : Option Bytes) : MetaTable :=
  update t r.bytes v

@[simp] lemma putRecord_bytes (r r' : RecordKey) (v : Option Bytes) :
    putRecord t r v r'.bytes = if r' = r then v else t r'.bytes := by
  unfold putRecord
  by_cases h : r' = r
  · rw [h, update_self, if_pos rfl]
  · rw [update_of_ne (RecordKey.bytes_injective.ne h), if_neg h]

lemma putRecord_comm {r r' : RecordKey} {v v' : Option Bytes} (h : r ≠ r') :
    putRecord (putRecord t r v) r' v' = putRecord (putRecord t r' v') r v := by
  exact update_comm (RecordKey.bytes_injective.ne h) _ _ t

/-- All keys of a table are keys of records. -/
def Keyed : Prop :=
  ∀ k, t k ≠ none → ∃ r : RecordKey, r.bytes = k

variable {t}

lemma Keyed.putRecord (ht : Keyed t) (r : RecordKey) (v : Option Bytes) :
    Keyed (putRecord t r v) := by
  intro k hk
  by_cases hr : k = r.bytes
  · exact ⟨r, hr.symm⟩
  · unfold NamespaceStorage.putRecord at hk
    rw [update_of_ne hr] at hk
    exact ht k hk

/-! ## What the scripts do to the records

One statement per script, for every way the engine may answer: the table is unchanged, or the
script went through to its commit and the records changed as listed. -/

variable (t)

/-- The records `Set` writes for a name: the new token, the id it leads to, and the name. -/
def setTable (ns token encodedId : Bytes) : MetaTable :=
  putRecord (putRecord (putRecord t (.name ns) (some token)) (.token token) (some encodedId))
    (.idToName encodedId) (some ns)

/-- The id a new name gets. -/
def nextIdOf : Nat :=
  parseCounter (t RecordKey.nextId.bytes)

def bumpTable : MetaTable :=
  putRecord t .nextId (some (stdToString ((nextIdOf t + 1) % u64)))

/-- The records of a name that `Set` creates. -/
def freshTable (ns token : Bytes) : MetaTable :=
  setTable (bumpTable t) ns token (b255e (nextIdOf t))

/-- `Add` may leave the table `t'` behind. -/
def AddEffect (ns token : Bytes) (t' : MetaTable) : Prop :=
  t' = t ∨ (t (RecordKey.name ns).bytes = none ∧ t (RecordKey.token token).bytes = none ∧
    t' = putRecord (freshTable t ns token) (.epoch (b255e (nextIdOf t))) (some (ascii "1")))

variable {R : Bool → MetaTable → Prop} {token : NamespaceToken} {t}

lemma addRecords_effect {ns encodedId : Bytes} {t₀ : MetaTable} (hkeep : R false t₀)
    (hdone : R true (putRecord (setTable t ns token.bytes encodedId) (.epoch encodedId)
      (some (ascii "1")))) :
    Tx.Triple (· = t) (addRecords ns token encodedId) (Tx.Settles t₀ R) := by
  refine .of_write (.of_pure hkeep) (.of_write (.of_pure hkeep) ?_)
  exact .of_write (.of_pure hkeep) (.of_write (.of_pure hkeep) (.of_pure ⟨hdone, hkeep⟩))

lemma setRecords_effect {ns encodedId : Bytes} {t₀ : MetaTable} (hkeep : R false t₀)
    (hdone : R true (setTable t ns token.bytes encodedId)) :
    Tx.Triple (· = t) (setRecords ns token encodedId) (Tx.Settles t₀ R) := by
  refine .of_write (.of_pure hkeep) (.of_write (.of_pure hkeep) ?_)
  exact .of_write (.of_pure hkeep) (.of_pure ⟨hdone, hkeep⟩)

lemma add_effect (requirepass : Bytes) (outcomes : List Bool) (ns : Bytes)
    (token : NamespaceToken) (t : MetaTable) :
    AddEffect t ns token.bytes (add requirepass outcomes ns token t).2 := by
  have hkeep : AddEffect t ns token.bytes t := .inl rfl
  unfold add
  split
  · exact hkeep
  refine Tx.runTx_settles (R := fun _ => AddEffect t ns token.bytes) ?_ hkeep outcomes
  refine .of_read (.of_pure hkeep) ?_
  cases hname : t (kNamespacePrefix ++ ns) with
  | some old => exact .of_pure ⟨hkeep, hkeep⟩
  | none =>
    refine .of_read (.of_pure hkeep) ?_
    cases htoken : t (kTokenPrefix ++ token.bytes) with
    | some x => exact .of_pure hkeep
    | none =>
      refine .of_read (.of_pure hkeep) (.of_write (.of_pure hkeep) ?_)
      exact addRecords_effect hkeep (.inr ⟨hname, htoken, rfl⟩)

/-- The token is free, or the record it leads to says that `ns` holds it. -/
def TokenFree (t : MetaTable) (ns token : Bytes) : Prop :=
  t (RecordKey.token token).bytes = none ∨ ∃ x, t (RecordKey.token token).bytes = some x ∧
      t (RecordKey.idToName x).bytes = some ns

/-- `Set` may leave the table `t'` behind, having created the name or moved its token. -/
def SetEffect (t : MetaTable) (ns token : Bytes) (ok : Bool) (t' : MetaTable) : Prop :=
  (t' = t ∧ (ok = true → t (RecordKey.name ns).bytes = some token)) ∨
    ok = true ∧ TokenFree t ns token ∧
    ((t (RecordKey.name ns).bytes = none ∧ t' = freshTable t ns token) ∨
      ∃ old x, t (RecordKey.name ns).bytes = some old ∧ old ≠ token ∧
        t (RecordKey.token old).bytes = some x ∧ x ≠ [] ∧
        t' = setTable (putRecord t (.token old) none) ns token x)

lemma setName_effect {ns : Bytes} (hfree : TokenFree t ns token.bytes) :
    Tx.Triple (· = t) (setName ns token) (Tx.Settles t (SetEffect t ns token.bytes)) := by
  have hkeep : SetEffect t ns token.bytes false t := .inl ⟨rfl, Bool.noConfusion⟩
  refine .of_read (.of_pure hkeep) ?_
  cases hname : t (kNamespacePrefix ++ ns) with
  | none =>
    -- a name unknown so far
    refine .of_read (.of_pure hkeep) (.of_write (.of_pure hkeep) ?_)
    exact setRecords_effect hkeep (.inr ⟨rfl, hfree, .inl ⟨hname, rfl⟩⟩)
  | some old =>
    show Tx.Triple _ (setRotate ns token old) _
    unfold setRotate
    by_cases hold : old = token.bytes
    · rw [if_pos hold]
      have hsame : SetEffect t ns token.bytes true t := .inl ⟨rfl, fun _ => hold ▸ hname⟩
      exact .of_pure ⟨hsame, hsame⟩
    rw [if_neg hold]
    refine .of_read ?_ ?_
    · exact .of_delete (.of_pure hkeep) (.of_pure hkeep)
    · refine .of_delete (.of_pure hkeep) ?_
      cases hid : t (kTokenPrefix ++ old) with
      | none => exact .of_pure hkeep
      | some x =>
        by_cases hx : x = []
        · simp only [hx, if_true]
          exact .of_pure hkeep
        · simp only [hx, if_false]
          exact setRecords_effect hkeep
            (.inr ⟨rfl, hfree, .inr ⟨old, x, hname, hold, hid, hx, rfl⟩⟩)

lemma set_effect (requirepass : Bytes) (outcomes : List Bool) (ns : Bytes)
    (token : NamespaceToken) (t : MetaTable) :
    SetEffect t ns token.bytes (set requirepass outcomes ns token t).1
      (set requirepass outcomes ns token t).2 := by
  have hkeep : SetEffect t ns token.bytes false t := .inl ⟨rfl, Bool.noConfusion⟩
  unfold set
  split
  · exact hkeep
  refine Tx.runTx_settles ?_ hkeep outcomes
  refine .of_read (.of_pure hkeep) ?_
  cases htoken : t (kTokenPrefix ++ token.bytes) with
  | none => exact setName_effect (.inl htoken)
  | some x =>
    refine .of_read (.of_pure hkeep) ?_
    cases howner : t (kIdToNamePrefix ++ x) with
    | none => exact .of_pure hkeep
    | some owner =>
      by_cases hns : owner = ns
      · simp only [hns, ne_eq, not_true_eq_false, if_false]
        exact setName_effect (.inr ⟨x, htoken, hns ▸ howner⟩)
      · simp only [ne_eq, hns, not_false_eq_true, if_true]
        exact .of_pure hkeep

/-- The deletions of `Del` that are made in any case. -/
def dropTable (t : MetaTable) (ns token : Bytes) : MetaTable :=
  putRecord (putRecord t (.name ns) none) (.token token) none

/-- `Del` may leave the table `t'` behind; where it found no id, the records of the id stay. -/
def DelEffect (t : MetaTable) (ns : Bytes) (ok : Bool) (t' : MetaTable) : Prop :=
  (t' = t ∧ ok = false) ∨ ok = true ∧ ∃ token, t (RecordKey.name ns).bytes = some token ∧
    (t' = dropTable t ns token ∨ ∃ x e, t (RecordKey.token token).bytes = some x ∧
        t' = putRecord (putRecord (dropTable (putRecord t (.gc x e) (some (ascii "1"))) ns token)
          (.idToName x) none) (.epoch x) none)

lemma delRecords_effect {t t₀ : MetaTable} {ns token x : Bytes} (hkeep : R false t₀)
    (hnone : x = [] → R true (dropTable t ns token))
    (hsome : x ≠ [] → R true (putRecord (putRecord (dropTable t ns token) (.idToName x) none)
      (.epoch x) none)) :
    Tx.Triple (· = t) (delRecords ns token x) (Tx.Settles t₀ R) := by
  refine .of_delete (.of_pure hkeep) (.of_delete (.of_pure hkeep) ?_)
  by_cases hx : x = []
  · simp only [hx, ne_eq, not_true_eq_false, if_false]
    exact .of_pure ⟨hnone hx, hkeep⟩
  · simp only [hx, ne_eq, not_false_eq_true, if_true]
    refine .of_delete (.of_pure hkeep) (.of_delete (.of_pure hkeep) ?_)
    exact .of_pure ⟨hsome hx, hkeep⟩

lemma del_effect (outcomes : List Bool) (ns : Bytes) (t : MetaTable) :
    DelEffect t ns (del outcomes ns t).1 (del outcomes ns t).2 := by
  have hkeep : DelEffect t ns false t := .inl ⟨rfl, rfl⟩
  refine Tx.runTx_settles ?_ hkeep outcomes
  refine .of_read (.of_pure hkeep) ?_
  cases hname : t (kNamespacePrefix ++ ns) with
  | none => exact .of_pure hkeep
  | some token =>
    have hdrop : DelEffect t ns true (dropTable t ns token) := .inr ⟨rfl, token, hname, .inl rfl⟩
    refine .of_read ?_ ?_
    · exact delRecords_effect hkeep (fun _ => hdrop) (fun hx => absurd rfl hx)
    · cases hid : t (kTokenPrefix ++ token) with
      | none => exact delRecords_effect hkeep (fun _ => hdrop) (fun hx => absurd rfl hx)
      | some x =>
        by_cases hx : x = []
        · subst hx
          exact delRecords_effect hkeep (fun _ => hdrop) (fun hx => absurd rfl hx)
        · simp only [Option.join_some, Option.getD_some, ne_eq, hx, not_false_eq_true, if_true]
          have hdone : ∀ e, Tx.Triple (· = putRecord t (.gc x e) (some (ascii "1")))
              (delRecords ns token x) (Tx.Settles t (DelEffect t ns)) := fun e =>
            delRecords_effect hkeep (fun h => absurd h hx)
              (fun _ => .inr ⟨rfl, token, hname, .inr ⟨x, e, hid, rfl⟩⟩)
          exact .of_read (.of_write (.of_pure hkeep) (hdone _))
            (.of_write (.of_pure hkeep) (hdone _))

def flushTable (t : MetaTable) (encodedId : Bytes) (oldEpoch : Nat) : MetaTable :=
  putRecord (putRecord t (.epoch encodedId) (some (stdToString ((oldEpoch + 1) % u64))))
    (.gc encodedId oldEpoch) (some (ascii "1"))

lemma flush_effect (outcomes : List Bool) (encodedId : Bytes) (oldEpoch : Nat) (t : MetaTable) :
    (Tx.runTx false (flushScript encodedId oldEpoch) t outcomes) = (false, t) ∨
      (Tx.runTx false (flushScript encodedId oldEpoch) t outcomes)
        = (true, flushTable t encodedId oldEpoch) := by
  have hscript : Tx.Triple (· = t) (flushScript encodedId oldEpoch) (Tx.Settles t
      fun ok t' => (ok, t') = (false, t) ∨ (ok, t') = (true, flushTable t encodedId oldEpoch)) := by
    refine .of_write (.of_pure (.inl rfl)) (.of_write (.of_pure (.inl rfl)) ?_)
    exact .of_pure ⟨.inr rfl, .inl rfl⟩
  exact Tx.runTx_settles hscript (.inl rfl) outcomes

/-! ## Names

The commands refuse to add or refresh a namespace called `default`, and the only records that
carry a name are the `i:` records. -/

section Names

variable {ns : Bytes} (hns : ns ≠ kDefaultNamespace)

lemma NamesNotDefault.putRecord (ht : NamesNotDefault t) {r : RecordKey} {v : Option Bytes}
    (hr : ∀ x, r = .idToName x → v ≠ some kDefaultNamespace) :
    NamesNotDefault (putRecord t r v) := by
  intro x
  show NamespaceStorage.putRecord t r v (RecordKey.idToName x).bytes ≠ _
  rw [putRecord_bytes]
  split
  · next h => exact hr x h.symm
  · exact ht x

include hns in
lemma NamesNotDefault.setTable (ht : NamesNotDefault t) (token encodedId : Bytes) :
    NamesNotDefault (setTable t ns token encodedId) :=
  ((ht.putRecord (by nofun)).putRecord (by nofun)).putRecord fun _ _ h => hns (Option.some.inj h)

include hns in
lemma AddEffect.names {t' : MetaTable} {token : Bytes} (h : AddEffect t ns token t')
    (ht : NamesNotDefault t) : NamesNotDefault t' := by
  obtain rfl | ⟨-, -, rfl⟩ := h
  · exact ht
  · exact ((ht.putRecord (by nofun)).setTable hns _ _).putRecord (by nofun)

include hns in
lemma SetEffect.names {t' : MetaTable} {token : Bytes} {ok : Bool}
    (h : SetEffect t ns token ok t') (ht : NamesNotDefault t) : NamesNotDefault t' := by
  obtain ⟨rfl, -⟩ | ⟨-, -, ⟨-, rfl⟩ | ⟨old, x, -, -, -, -, rfl⟩⟩ := h
  · exact ht
  · exact (ht.putRecord (by nofun)).setTable hns _ _
  · exact (ht.putRecord (by nofun)).setTable hns _ _

lemma DelEffect.names {t' : MetaTable} {ok : Bool} (h : DelEffect t ns ok t')
    (ht : NamesNotDefault t) : NamesNotDefault t' := by
  obtain ⟨rfl, -⟩ | ⟨-, token, -, rfl | ⟨x, e, -, rfl⟩⟩ := h
  · exact ht
  · exact (ht.putRecord (by nofun)).putRecord (by nofun)
  · exact ((((ht.putRecord (by nofun)).putRecord (by nofun)).putRecord (by nofun)).putRecord
      (by nofun)).putRecord (by nofun)

end Names

/-! ## The registry behind the records -/

@[simp] lemma parseCounter_none : parseCounter none = 1 := rfl

lemma parseCounter_stdToString {n : Nat} (hn : n < u64) :
    parseCounter (some (stdToString n)) = n := by
  unfold parseCounter
  rw [Option.bind_some, stoull_stdToString, if_pos hn, Option.getD_some]

/-- The epoch of an id: the `e:` record, or 1. -/
def epochOf (t : MetaTable) (encodedId : Bytes) : Nat :=
  parseCounter (t (RecordKey.epoch encodedId).bytes)

/-- The records of the table describe the registry `R`. -/
structure Represents (t : MetaTable) (R : Registry Bytes Bytes) : Prop where
  keyed : Keyed t
  nextId : nextIdOf t = R.nextId
  nextId_lt : R.nextId < u64
  name : ∀ ns, t (RecordKey.name ns).bytes = (R.live ns).map Prod.fst
  token : ∀ {raw x}, t (RecordKey.token raw).bytes = some x →
    ∃ ns id, R.live ns = some (raw, id) ∧ x = b255e id
  live_token : ∀ {ns raw id}, R.live ns = some (raw, id) →
    t (RecordKey.token raw).bytes = some (b255e id)
  live_name : ∀ {ns raw id}, R.live ns = some (raw, id) →
    t (RecordKey.idToName (b255e id)).bytes = some ns
  live_epoch : ∀ {ns raw id}, R.live ns = some (raw, id) → epochOf t (b255e id) = R.epoch id
  /-- Ids that were not given out yet have no epoch record. -/
  epoch_issued : ∀ {x}, t (RecordKey.epoch x).bytes ≠ none → ∃ id < R.nextId, x = b255e id
  gc_retired : ∀ {x e}, t (RecordKey.gc x e).bytes ≠ none → ∃ id, x = b255e id ∧ R.retired id e

lemma represents_empty : Represents (fun _ => none) empty where
  keyed _ h := absurd rfl h
  nextId := rfl
  nextId_lt := by decide
  name _ := rfl
  token h := nomatch h
  live_token h := nomatch h
  live_name h := nomatch h
  live_epoch h := nomatch h
  epoch_issued h := absurd rfl h
  gc_retired h := absurd rfl h

namespace Represents

variable {t : MetaTable} {R : Registry Bytes Bytes} {ns raw : Bytes} {id : Nat} (h : Represents t R)
include h

lemma id_lt (hl : R.live ns = some (raw, id)) : id < u64 :=
  Nat.lt_trans (R.id_lt hl) h.nextId_lt

lemma token_none {raw : Bytes} (hr : t (RecordKey.token raw).bytes = none)
    (ns : Bytes) (id : Nat) : R.live ns ≠ some (raw, id) := by
  intro hl
  rw [h.live_token hl] at hr
  exact nomatch hr

lemma live_of_name
    (hn : t (RecordKey.name ns).bytes = some raw) : ∃ id, R.live ns = some (raw, id) := by
  rw [h.name] at hn
  obtain ⟨⟨raw', id⟩, hl, rfl⟩ := Option.map_eq_some_iff.mp hn
  exact ⟨id, hl⟩

lemma live_none {ns : Bytes} (hn : t (RecordKey.name ns).bytes = none) : R.live ns = none := by
  rwa [h.name, Option.map_eq_none_iff] at hn

/-- **A new name**: the counter advances and the records are written; epoch 0 needs none. -/
theorem create (hns : R.live ns = none) (hraw : ∀ m i, R.live m ≠ some (raw, i))
    (hroom : R.nextId + 1 < u64) : Represents (freshTable t ns raw) (R.create ns raw hraw) := by
  have hnew : nextIdOf t = R.nextId := h.nextId
  have hcount : parseCounter (some (stdToString ((R.nextId + 1) % u64))) = R.nextId + 1 := by
    rw [Nat.mod_eq_of_lt hroom, parseCounter_stdToString hroom]
  -- ids given out before have another encoding
  have hold : ∀ {m raw' id}, R.live m = some (raw', id) → b255e id ≠ b255e R.nextId := by
    intro m raw' id hl heq
    have := b255e_inj (h.id_lt hl) h.nextId_lt heq
    exact absurd (R.id_lt hl) (by omega)
  unfold freshTable setTable bumpTable
  rw [hnew]
  constructor
  · exact (((h.keyed.putRecord _ _).putRecord _ _).putRecord _ _).putRecord _ _
  · simpa [nextIdOf] using hcount
  · exact hroom
  · intro m
    show _ = (Function.update R.live ns _ m).map _
    by_cases hm : m = ns
    · simp [hm]
    · simp [hm, h.name]
  · intro raw' x hx
    by_cases hr : raw' = raw
    · subst hr
      refine ⟨ns, R.nextId, update_self .., ?_⟩
      simpa using hx.symm
    · obtain ⟨m, id, hl, rfl⟩ := h.token
        (show t (RecordKey.token raw').bytes = some x by simpa [hr] using hx)
      refine ⟨m, id, ?_, rfl⟩
      show Function.update R.live ns _ m = _
      rw [update_of_ne, hl]
      rintro rfl
      rw [hns] at hl
      exact nomatch hl
  · intro m raw' id hl
    rcases live_update_cases hl with ⟨rfl, heq⟩ | ⟨hm, hl⟩
    · cases heq
      simp
    · have hr : raw' ≠ raw := fun heq => hraw m id (heq ▸ hl)
      simpa [hr] using h.live_token hl
  · intro m raw' id hl
    rcases live_update_cases hl with ⟨rfl, heq⟩ | ⟨hm, hl⟩
    · cases heq
      simp
    · simpa [hold hl] using h.live_name hl
  · intro m raw' id hl
    rcases live_update_cases hl with ⟨rfl, heq⟩ | ⟨hm, hl⟩
    · -- the new id has no epoch record yet
      cases heq
      have hnone : t (RecordKey.epoch (b255e R.nextId)).bytes = none := by
        by_contra hne
        obtain ⟨id, hid, hx⟩ := h.epoch_issued hne
        have := b255e_inj h.nextId_lt (Nat.lt_trans hid h.nextId_lt) hx
        omega
      show _ = Function.update R.epoch R.nextId 1 R.nextId
      simp [epochOf, hnone]
    · show _ = Function.update R.epoch R.nextId 1 id
      rw [update_of_ne (Nat.ne_of_lt (R.id_lt hl))]
      simpa [epochOf] using h.live_epoch hl
  · intro x hx
    obtain ⟨id, hid, rfl⟩ := h.epoch_issued (x := x) (by simpa using hx)
    exact ⟨id, Nat.lt_succ_of_lt hid, rfl⟩
  · intro x e hx
    exact h.gc_retired (by simpa using hx)

lemma putEpoch {v : Bytes}
    (hl : R.live ns = some (raw, id)) (hv : parseCounter (some v) = R.epoch id) :
    Represents (putRecord t (.epoch (b255e id)) (some v)) R := by
  constructor
  · exact h.keyed.putRecord _ _
  · simpa [nextIdOf] using h.nextId
  · exact h.nextId_lt
  · intro m
    simpa using h.name m
  · intro raw' x hx
    exact h.token (by simpa using hx)
  · intro m raw' id' hl'
    simpa using h.live_token hl'
  · intro m raw' id' hl'
    simpa using h.live_name hl'
  · intro m raw' id' hl'
    by_cases hid : b255e id' = b255e id
    · obtain rfl := b255e_inj (h.id_lt hl') (h.id_lt hl) hid
      simpa [epochOf] using hv
    · simpa [epochOf, hid] using h.live_epoch hl'
  · intro x hx
    by_cases hid : x = b255e id
    · exact ⟨id, R.id_lt hl, hid⟩
    · exact h.epoch_issued (by simpa [hid] using hx)
  · intro x e hx
    exact h.gc_retired (by simpa using hx)

/-- The old token record goes; id and epoch of the name stay as they are. -/
theorem rotate {ns raw old : Bytes}
    (hl : R.live ns = some (old, id)) (hraw : ∀ m i, R.live m ≠ some (raw, i)) :
    Represents (setTable (putRecord t (.token old) none) ns raw (b255e id))
      (R.rotate ns raw hl hraw) := by
  unfold setTable
  constructor
  · exact (((h.keyed.putRecord _ _).putRecord _ _).putRecord _ _).putRecord _ _
  · simpa [nextIdOf] using h.nextId
  · exact h.nextId_lt
  · intro m
    show _ = (Function.update R.live ns _ m).map _
    by_cases hm : m = ns
    · simp [hm]
    · simp [hm, h.name]
  · intro raw' x hx
    by_cases hr : raw' = raw
    · subst hr
      exact ⟨ns, id, update_self .., by simpa using hx.symm⟩
    by_cases ho : raw' = old
    · subst ho
      simp [hr] at hx
    · obtain ⟨m, id', hl', rfl⟩ := h.token
        (show t (RecordKey.token raw').bytes = some x by simpa [hr, ho] using hx)
      refine ⟨m, id', ?_, rfl⟩
      show Function.update R.live ns _ m = _
      rw [update_of_ne, hl']
      rintro rfl
      rw [hl] at hl'
      cases hl'
      exact ho rfl
  · intro m raw' id' hl'
    rcases live_update_cases hl' with ⟨rfl, heq⟩ | ⟨hm, hl'⟩
    · cases heq
      simp
    · have hr : raw' ≠ raw := fun heq => hraw m id' (heq ▸ hl')
      have ho : raw' ≠ old := fun heq => hm (R.token_inj (heq ▸ hl') hl)
      simpa [hr, ho] using h.live_token hl'
  · intro m raw' id' hl'
    rcases live_update_cases hl' with ⟨rfl, heq⟩ | ⟨hm, hl'⟩
    · cases heq
      simp
    · have hid : b255e id' ≠ b255e id := fun heq =>
        hm (R.id_inj (b255e_inj (h.id_lt hl') (h.id_lt hl) heq ▸ hl') hl)
      simpa [hid] using h.live_name hl'
  · intro m raw' id' hl'
    rcases live_update_cases hl' with ⟨rfl, heq⟩ | ⟨hm, hl'⟩
    · cases heq
      simpa [epochOf] using h.live_epoch hl
    · simpa [epochOf] using h.live_epoch hl'
  · intro x hx
    exact h.epoch_issued (by simpa using hx)
  · intro x e hx
    exact h.gc_retired (by simpa using hx)

/-- The records of the name go; the counter stays, so that its id is not given again. -/
theorem drop (hl : R.live ns = some (raw, id)) (gone : Nat → Prop) :
    Represents (dropTable t ns raw) (R.remove ns hl gone) := by
  unfold dropTable
  constructor
  · exact (h.keyed.putRecord _ _).putRecord _ _
  · simpa [nextIdOf] using h.nextId
  · exact h.nextId_lt
  · intro m
    show _ = (Function.update R.live ns none m).map _
    by_cases hm : m = ns
    · simp [hm]
    · simp [hm, h.name]
  · intro raw' x hx
    by_cases hr : raw' = raw
    · simp [hr] at hx
    · obtain ⟨m, id', hl', rfl⟩ := h.token
        (show t (RecordKey.token raw').bytes = some x by simpa [hr] using hx)
      refine ⟨m, id', ?_, rfl⟩
      show Function.update R.live ns _ m = _
      rw [update_of_ne, hl']
      rintro rfl
      rw [hl] at hl'
      cases hl'
      exact hr rfl
  · intro m raw' id' hl'
    rcases live_update_cases hl' with ⟨-, heq⟩ | ⟨hm, hl'⟩
    · exact nomatch heq
    · have hr : raw' ≠ raw := fun heq => hm (R.token_inj (heq ▸ hl') hl)
      simpa [hr] using h.live_token hl'
  · intro m raw' id' hl'
    rcases live_update_cases hl' with ⟨-, heq⟩ | ⟨-, hl'⟩
    · exact nomatch heq
    · simpa using h.live_name hl'
  · intro m raw' id' hl'
    rcases live_update_cases hl' with ⟨-, heq⟩ | ⟨-, hl'⟩
    · exact nomatch heq
    · simpa [epochOf] using h.live_epoch hl'
  · intro x hx
    exact h.epoch_issued (by simpa using hx)
  · intro x e hx
    obtain ⟨id', hx', hret⟩ := h.gc_retired (x := x) (e := e) (by simpa using hx)
    exact ⟨id', hx', .inl hret⟩

lemma forgetId (hid : id < u64) (hdead : ∀ m raw, R.live m ≠ some (raw, id)) :
    Represents (putRecord (putRecord t (.idToName (b255e id)) none) (.epoch (b255e id)) none)
      R := by
  have hne : ∀ {m raw id'}, R.live m = some (raw, id') → b255e id' ≠ b255e id := by
    intro m raw id' hl heq
    obtain rfl := b255e_inj (h.id_lt hl) hid heq
    exact hdead m raw hl
  constructor
  · exact (h.keyed.putRecord _ _).putRecord _ _
  · simpa [nextIdOf] using h.nextId
  · exact h.nextId_lt
  · intro m
    simpa using h.name m
  · intro raw x hx
    exact h.token (by simpa using hx)
  · intro m raw id' hl
    simpa using h.live_token hl
  · intro m raw id' hl
    simpa [hne hl] using h.live_name hl
  · intro m raw id' hl
    simpa [epochOf, hne hl] using h.live_epoch hl
  · intro x hx
    by_cases hxid : x = b255e id
    · simp [hxid] at hx
    · exact h.epoch_issued (by simpa [hxid] using hx)
  · intro x e hx
    exact h.gc_retired (by simpa using hx)

lemma putGc {x : Bytes} {e : Nat} {v : Option Bytes}
    (hv : v ≠ none → ∃ id, x = b255e id ∧ R.retired id e) :
    Represents (putRecord t (.gc x e) v) R := by
  constructor
  · exact h.keyed.putRecord _ _
  · simpa [nextIdOf] using h.nextId
  · exact h.nextId_lt
  · intro m
    simpa using h.name m
  · intro raw y hy
    exact h.token (by simpa using hy)
  · intro m raw id hl
    simpa using h.live_token hl
  · intro m raw id hl
    simpa using h.live_name hl
  · intro m raw id hl
    simpa [epochOf] using h.live_epoch hl
  · intro y hy
    exact h.epoch_issued (by simpa using hy)
  · intro y e' hy
    by_cases hk : y = x ∧ e' = e
    · obtain ⟨rfl, rfl⟩ := hk
      exact hv (by simpa using hy)
    · exact h.gc_retired (by simpa [hk] using hy)

/-- The epoch record moves on, and a collection record is left for the epoch before. -/
theorem advance (hl : R.live ns = some (raw, id)) (hroom : R.epoch id + 1 < u64) :
    Represents (flushTable t (b255e id) (R.epoch id)) (R.advance hl) := by
  have hcount : parseCounter (some (stdToString ((R.epoch id + 1) % u64))) = R.epoch id + 1 := by
    rw [Nat.mod_eq_of_lt hroom, parseCounter_stdToString hroom]
  -- first the epoch record, in the registry that already advanced
  have hepoch : Represents
      (putRecord t (.epoch (b255e id)) (some (stdToString ((R.epoch id + 1) % u64))))
      (R.advance hl) := by
    constructor
    · exact h.keyed.putRecord _ _
    · simpa [nextIdOf] using h.nextId
    · exact h.nextId_lt
    · intro m
      simpa using h.name m
    · intro raw' x hx
      exact h.token (by simpa using hx)
    · intro m raw' id' hl'
      simpa using h.live_token hl'
    · intro m raw' id' hl'
      simpa using h.live_name hl'
    · intro m raw' id' hl'
      show _ = update R.epoch id (R.epoch id + 1) id'
      by_cases hid : id' = id
      · subst hid
        simpa [epochOf] using hcount
      · have hne : b255e id' ≠ b255e id := fun heq =>
          hid (b255e_inj (h.id_lt hl') (h.id_lt hl) heq)
        rw [update_of_ne hid]
        simpa [epochOf, hne] using h.live_epoch hl'
    · intro x hx
      by_cases hxid : x = b255e id
      · exact ⟨id, R.id_lt hl, hxid⟩
      · exact h.epoch_issued (by simpa [hxid] using hx)
    · intro x e' hx
      obtain ⟨id', hx', hret⟩ := h.gc_retired (x := x) (e := e') (by simpa using hx)
      exact ⟨id', hx', .inl hret⟩
  exact hepoch.putGc fun _ => ⟨id, rfl, .inr ⟨rfl, rfl⟩⟩

/-! What the scripts make of the registry: they leave it alone, or replace the entry of one
name. -/

omit h

/-- The live names other than `ns` keep token, id and epoch. -/
def Elsewhere (ns : Bytes) (R R' : Registry Bytes Bytes) : Prop :=
  ∀ ⦃m raw id⦄, m ≠ ns → R.live m = some (raw, id) →
    R'.live m = some (raw, id) ∧ R'.epoch id = R.epoch id

/-- The id counter stands still or goes one further. -/
def Counts (R R' : Registry Bytes Bytes) : Prop :=
  R'.nextId = R.nextId ∨ R'.nextId = R.nextId + 1

/-- `ns` gets the token `raw`, or goes; ids given out before keep their epochs. -/
structure Rewrites (ns : Bytes) (raw : Option Bytes) (R R' : Registry Bytes Bytes) : Prop where
  live : ∃ id, R'.live = update R.live ns (raw.map (·, id))
  epoch : ∀ {i}, i < R.nextId → R'.epoch i = R.epoch i
  counts : Counts R R'

lemma Rewrites.elsewhere {ns : Bytes} {raw : Option Bytes} {R' : Registry Bytes Bytes}
    (h : Rewrites ns raw R R') : Elsewhere ns R R' := by
  intro m raw' id hm hl
  obtain ⟨id', hlive⟩ := h.live
  rw [hlive, update_of_ne hm, h.epoch (R.id_lt hl)]
  exact ⟨hl, rfl⟩

lemma rewrites_create (hraw : ∀ m i, R.live m ≠ some (raw, i)) :
    Rewrites ns (some raw) R (R.create ns raw hraw) where
  live := ⟨R.nextId, rfl⟩
  epoch hi := update_of_ne (Nat.ne_of_lt hi) ..
  counts := .inr rfl

variable {t' : MetaTable}

include h

lemma add (he : AddEffect t ns raw t') (hroom : R.nextId + 1 < u64) :
    ∃ R', Represents t' R' ∧ (R' = R ∨ R.live ns = none ∧
      (∀ m i, R.live m ≠ some (raw, i)) ∧ Rewrites ns (some raw) R R') := by
  rcases he with rfl | ⟨hname, htoken, rfl⟩
  · exact ⟨R, h, .inl rfl⟩
  have hns := h.live_none hname
  have hraw := h.token_none htoken
  refine ⟨R.create ns raw hraw, ?_, .inr ⟨hns, hraw, rewrites_create hraw⟩⟩
  rw [h.nextId]
  -- the epoch record says what its absence says
  apply (h.create hns hraw hroom).putEpoch (update_self ..)
  show _ = Function.update R.epoch R.nextId 1 R.nextId
  rw [update_self]
  decide

lemma token_unused (hfree : TokenFree t ns raw)
    (hns : ∀ id, R.live ns ≠ some (raw, id)) (m : Bytes) (i : Nat) : R.live m ≠ some (raw, i) := by
  intro hl
  rcases hfree with hnone | ⟨x, hx, howner⟩
  · exact h.token_none hnone m i hl
  · rw [h.live_token hl] at hx
    cases hx
    rw [h.live_name hl] at howner
    cases howner
    exact hns i hl

lemma set {ok : Bool} (he : SetEffect t ns raw ok t') (hroom : R.nextId + 1 < u64) :
    ∃ R', Represents t' R' ∧ ((R' = R ∧ (ok = true → ∃ id, R.live ns = some (raw, id))) ∨
        ok = true ∧ (∀ m i, R.live m ≠ some (raw, i)) ∧ Rewrites ns (some raw) R R') := by
  rcases he with ⟨rfl, hsame⟩ | ⟨rfl, hfree, ⟨hname, rfl⟩ | ⟨old, x, hname, hne, hid, -, rfl⟩⟩
  · exact ⟨R, h, .inl ⟨rfl, fun hok => h.live_of_name (hsame hok)⟩⟩
  · have hns := h.live_none hname
    have hraw := h.token_unused hfree fun id hl => by
      rw [hns] at hl
      exact nomatch hl
    exact ⟨R.create ns raw hraw, h.create hns hraw hroom, .inr ⟨rfl, hraw, rewrites_create hraw⟩⟩
  · obtain ⟨id, hl⟩ := h.live_of_name hname
    have hraw := h.token_unused hfree fun id' hl' => by
      rw [hl] at hl'
      cases hl'
      exact hne rfl
    rw [h.live_token hl] at hid
    cases hid
    exact ⟨R.rotate ns raw hl hraw, h.rotate hl hraw,
      .inr ⟨rfl, hraw, ⟨id, rfl⟩, fun _ => rfl, .inl rfl⟩⟩

lemma del {ns : Bytes} {ok : Bool} (he : DelEffect t ns ok t') :
    ∃ R', Represents t' R' ∧ ((R' = R ∧ ok = false) ∨
      ok = true ∧ (∃ raw id, R.live ns = some (raw, id)) ∧ Rewrites ns none R R') := by
  rcases he with ⟨rfl, hok⟩ | ⟨rfl, raw, hname, rfl | ⟨x, e, hid, rfl⟩⟩
  · exact ⟨R, h, .inl ⟨rfl, hok⟩⟩
  · obtain ⟨id, hl⟩ := h.live_of_name hname
    exact ⟨R.remove ns hl fun _ => False, h.drop hl _,
      .inr ⟨rfl, ⟨raw, id, hl⟩, ⟨id, rfl⟩, fun _ => rfl, .inl rfl⟩⟩
  · obtain ⟨id, hl⟩ := h.live_of_name hname
    rw [h.live_token hl] at hid
    cases hid
    refine ⟨R.remove ns hl (· = e), ?_,
      .inr ⟨rfl, ⟨raw, id, hl⟩, ⟨id, rfl⟩, fun _ => rfl, .inl rfl⟩⟩
    -- the marker comes first in the script; it commutes with the deletions
    have hswap : dropTable (putRecord t (.gc (b255e id) e) (some (ascii "1"))) ns raw
        = putRecord (dropTable t ns raw) (.gc (b255e id) e) (some (ascii "1")) := by
      unfold dropTable
      rw [putRecord_comm t (by simp), putRecord_comm _ (by simp)]
    rw [hswap]
    apply ((h.drop hl (· = e)).putGc fun _ => ⟨id, rfl, .inr ⟨rfl, rfl⟩⟩).forgetId (h.id_lt hl)
    intro m raw' hl'
    rcases live_update_cases hl' with ⟨-, heq⟩ | ⟨hm, hl'⟩
    · exact nomatch heq
    · exact hm (R.id_inj hl' hl)

end Represents

end EloqKV.NamespaceStorage
