/-
  The commands that store a union, an intersection, a difference or a range
  (`ZUnionStoreCommand`, `ZInterStoreCommand`, `ZDiffStoreCommand`, `ZRangeStoreCommand`,
  `SUnionStoreCommand`, `SInterStoreCommand` and `SDiffStoreCommand` in `src/redis_command.cpp`).

  `HandleMiddleResult` computes the result anew, with early exits of its own, and puts it into a
  ZADD or an SADD that replaces whatever is at the destination.
-/
import EloqKV.Objects.SetAnswers
import EloqKV.Zset.RangeListings

open List Option

namespace EloqKV.SetQueries

open Lib.SetAlgebra Query SetQueries.Reply
open Objects (HashOrder RedisObject)
open ZRange (ZRangeConstraint ZRangeSpec)
open Sets (RedisHashSetObject)
open Zset (Element RedisZsetObject)

/-! ## The middle step -/

/-- What keeps a command from a result: a range that leaves the set, a text that is no score. -/
inductive StoreFault where
  | range (fault : ZRange.Fault)
  | scoreText
  deriving DecidableEq, Repr

/-- The second step: ZADD with `ForceClear`, perhaps empty, or SADD with `force_remove_add_`. -/
inductive Sent (S : Type) where
  | zadd (elements : Option (List (Element S)))
  | sadd (paras : List Bytes)
  deriving DecidableEq, Repr

section Middle

variable {S W : Type}

/-- The loop that reads texts back into members and scores, two at a time. -/
def readRows [ScoreTexts S] : List Bytes → Option (List (Bytes × S))
  | [] => some []
  | [_] => none
  | member :: text :: rest => do
    let score ← ScoreTexts.string2double text
    let rows ← readRows rest
    pure ((member, score) :: rows)

def toElements (rows : List (Bytes × S)) : List (Element S) :=
  rows.map fun row => (row.2, .ofPtr row.1)

variable (order : HashOrder) (scoring : Scoring S W)

def zUnionStore (agg : AggregateType) (cmds : List (ScanResult S × W)) : Option (Sent S) :=
  if cmds.any (·.1.errCode = .wrongType) then none
  else if cmds.all fun cmd => cmd.1.errCode = .nil || cmd.1.result.isEmpty then none
  else
    some (.zadd (some (toElements
      ((order.walk (unionVals scoring agg cmds).entries).map fun e => (e.1, e.2)))))

/-- The first loop of ZINTERSTORE, which returns at a source that is missing. -/
def smallestStored (i : Nat) (best : Nat × Nat) : List (ScanResult S × W) → Option (Nat × Nat)
  | [] => some best
  | cmd :: cmds =>
    if cmd.1.errCode = .ok then
      smallestStored (i + 1)
        (if cmd.1.result.length < best.2 then (i, cmd.1.result.length) else best) cmds
    else none

/-- `ZInterStoreCommand::HandleMiddleResult`, with its branch for a single source. -/
def zInterStore (agg : AggregateType) (cmds : List (ScanResult S × W)) : Option (Sent S) := do
  let best ← smallestStored 0 (0, sizeMax) cmds
  if best.2 = 0 then none
  else
    match cmds with
    | [cmd] => some (.zadd (some (toElements (weighted scoring cmd))))
    | cmds => some (.zadd (some (toElements (interResults scoring agg cmds best.1))))

def zDiffStore [ScoreTexts S] (cmds : List RangeResult) : Except StoreFault (Option (Sent S)) :=
  if (firstError (cmds.map RangeResult.errCode)).isSome then .ok none
  else
    match readRows (findZDiff true cmds) with
    | none => .error .scoreText
    | some [] => .ok (some (.zadd none))
    | some rows => .ok (some (.zadd (some (toElements rows))))

def zRangeStore [ScoreTexts S] (res : RangeResult) : Except StoreFault (Option (Sent S)) :=
  if res.errCode ≠ .ok ∧ res.errCode ≠ .nil then .ok none
  else if res.errCode = .nil then .ok (some (.zadd none))
  else
    match res.result with
    | none | some [] => .ok (some (.zadd none))
    | some texts =>
      match readRows texts with
      | none => .error .scoreText
      | some rows => .ok (some (.zadd (some (toElements rows))))

variable (cmds : List MembersResult)

def sDiffStore : Option (Sent S) :=
  if (firstError (cmds.map MembersResult.errCode)).isSome then none
  else some (.sadd (diffMembers (cmds.map (·.stringList))))

def sInterStore : Option (Sent S) :=
  if (firstError (cmds.map MembersResult.errCode)).isSome then none
  else some (.sadd (findInter (cmds.map (·.stringList)) noLimit))

def sUnionStore : Option (Sent S) :=
  if cmds.any (·.errCode = .wrongType) then none
  else some (.sadd (order.walk (unionSet cmds)))

end Middle

/-! ## The second step -/

namespace Sent

variable {S : Type} [LinearOrder S]

/-- `ExecuteOn`. -/
def execute : Sent S → ExecResult
  | zadd elements => Zset.executeForceClear elements
  | sadd paras => Sets.executeForceAdd paras

/-- `CommitOn`: a new object, or null. -/
def commit : Sent S → Option (RedisObject S)
  | zadd elements => (Zset.commitForceClear elements).map fun z => ⟨.zset z, none⟩
  | sadd paras => (Sets.commitForceAdd paras).map fun s => ⟨.set s, none⟩

/-- What is left under the key; the engine may take an announced deletion for one (`drops`). -/
def left (drops : Bool) (prior : Option (RedisObject S)) (sent : Sent S) : Option (RedisObject S) :=
  match sent.execute with
  | .write => sent.commit
  | .delete => if drops then none else sent.commit
  | .fail | .read => prior

end Sent

/-! ## The commands -/

inductive StoreReply where
  | error (code : RdCode)
  | int (n : Int)
  deriving DecidableEq, Repr

/-- The commands; ZRANGESTORE has one source. -/
inductive StoreCommand (S : Type) where
  | zunionstore (agg : AggregateType)
  | zinterstore (agg : AggregateType)
  | zdiffstore
  | zrangestore (constraint : ZRangeConstraint) (spec : ZRangeSpec S)
  | sunionstore
  | sinterstore
  | sdiffstore
  deriving DecidableEq, Repr

/-- What a reply stands for: members with scores, or members. -/
inductive Collection (S : Type) where
  | zset (rows : List (Bytes × S))
  | set (members : List Bytes)
  deriving DecidableEq, Repr

def Collection.size {S : Type} : Collection S → Nat
  | zset rows => rows.length
  | set members => members.length

/-- What SADD takes for the size of its members. -/
def Collection.estimate {S : Type} : Collection S → Nat
  | zset _ => 0
  | set members => (members.map fun e => 8 + e.length).sum

namespace StoreCommand

section Run

variable {S W : Type} [LinearOrder S] [ScoreTexts S] (order : HashOrder) (scoring : Scoring S W)

def source : List (Option (RedisObject S) × W) → Option (RedisObject S)
  | [] => none
  | src :: _ => src.1

/-- The first step and `HandleMiddleResult`, where none stands for false. -/
def middle (cmd : StoreCommand S) (sources : List (Option (RedisObject S) × W)) :
    Except StoreFault (Option (Sent S)) :=
  match cmd with
  | zunionstore agg => .ok (zUnionStore order scoring agg (scans order scoring sources))
  | zinterstore agg => .ok (zInterStore scoring agg (scans order scoring sources))
  | zdiffstore =>
    match diffResults order true (sources.map Prod.fst) with
    | .error fault => .error (.range fault)
    | .ok cmds => zDiffStore cmds
  | zrangestore constraint spec =>
    match zRange order false (constraint.scored true) spec (source sources) with
    | .error fault => .error (.range fault)
    | .ok res => zRangeStore res
  | sunionstore => .ok (sUnionStore order (sources.map fun src => sMembers order src.1))
  | sinterstore => .ok (sInterStore (sources.map fun src => sMembers order src.1))
  | sdiffstore => .ok (sDiffStore (sources.map fun src => sMembers order src.1))

/-- `OutputResult` without a second step. -/
def stoppedReply (cmd : StoreCommand S) (sources : List (Option (RedisObject S) × W)) :
    StoreReply :=
  match cmd with
  | zunionstore _ | zinterstore _ =>
    if (scans order scoring sources).any (·.1.errCode = .wrongType) then .error .wrongType
    else .int 0
  | _ => .error .wrongType

/-- `OutputResult`: an `int` for ZDIFFSTORE and ZRANGESTORE, the size of the vector else. -/
def storedReply (cmd : StoreCommand S) (sent : Sent S) : StoreReply :=
  match cmd, sent with
  | zdiffstore, .zadd elements | zrangestore _ _, .zadd elements =>
    .int (Int.bmod (elements.getD []).length (2 ^ 32))
  | _, .zadd elements => .int (elements.getD []).length
  | _, .sadd paras => .int paras.length

variable (drops : Bool)

/-- A command on its sources and the destination: what it leaves there, and the reply. -/
def run (cmd : StoreCommand S) (sources : List (Option (RedisObject S) × W))
    (prior : Option (RedisObject S)) : Except StoreFault (Option (RedisObject S) × StoreReply) :=
  match cmd.middle order scoring sources with
  | .error fault => .error fault
  | .ok none => .ok (prior, cmd.stoppedReply order scoring sources)
  | .ok (some sent) => .ok (sent.left drops prior, cmd.storedReply sent)

/-! ## The read-only commands -/

/-- `ZRangeCommand::OutputResult`. -/
def zRangeReply (res : RangeResult) : Reply :=
  match res.errCode with
  | .ok => .array (res.result.getD [])
  | .nil => .array []
  | code => .error code

/-- The reply of the read-only command, with the scores of sorted sets. -/
def readReply (cmd : StoreCommand S) (sources : List (Option (RedisObject S) × W)) :
    Except ZRange.Fault Reply :=
  match cmd with
  | zunionstore agg => (Query.zunion true agg).reply order scoring sources
  | zinterstore agg => (Query.zinter true agg).reply order scoring sources
  | zdiffstore => (Query.zdiff true).reply order scoring sources
  | zrangestore constraint spec =>
    (zRange order false (constraint.scored true) spec (source sources)).map zRangeReply
  | sunionstore => Query.sunion.reply order scoring sources
  | sinterstore => Query.sinter.reply order scoring sources
  | sdiffstore => Query.sdiff.reply order scoring sources

def collection (cmd : StoreCommand S) (texts : List Bytes) : Option (Collection S) :=
  match cmd with
  | zunionstore _ | zinterstore _ | zdiffstore | zrangestore _ _ => (readRows texts).map .zset
  | sunionstore | sinterstore | sdiffstore => some (.set texts)

def Returns (cmd : StoreCommand S) (sources : List (Option (RedisObject S) × W))
    (coll : Collection S) : Prop :=
  ∃ texts, cmd.readReply order scoring sources = .ok (.array texts) ∧
    cmd.collection texts = some coll

def Reads (cmd : StoreCommand S) (src : Option (RedisObject S)) : Prop :=
  match cmd with
  | zunionstore _ | zinterstore _ | zdiffstore | zrangestore _ _ => IsZsetSource src
  | sunionstore | sinterstore | sdiffstore => IsSetSource src

/-- The collection is under the key; nothing is if it has no members. -/
def Holds (dest : Option (RedisObject S)) : Collection S → Prop
  | .zset [] | .set [] => dest = none
  | .zset rows => ∃ z ttl, dest = some ⟨.zset z, ttl⟩ ∧ z.pairs.Perm rows
  | .set members => ∃ s ttl, dest = some ⟨.set s, ttl⟩ ∧ s.hashSet.Perm members

/-- The command leaves the collection at the destination and replies with its size. -/
def Stores (cmd : StoreCommand S) (sources : List (Option (RedisObject S) × W))
    (prior : Option (RedisObject S)) (coll : Collection S) : Prop :=
  ∃ dest, cmd.run order scoring drops sources prior = .ok (dest, .int coll.size) ∧ Holds dest coll

/-- When a command does. ZUNIONSTORE stops if no source has members, and ZINTERSTORE if some source
has none. ZINTERSTORE of one source stores it, and an empty intersection is sent as an empty vector,
of which `CommitOn` makes an empty sorted set. The sizes of ZDIFFSTORE and ZRANGESTORE are narrowed
to `int`. SADD refuses members that are too long, and the reply does not tell. -/
def Proper (cmd : StoreCommand S) (sources : List (Option (RedisObject S) × W))
    (prior : Option (RedisObject S)) (coll : Collection S) : Prop :=
  match cmd with
  | zunionstore _ => (∃ src ∈ sources, members src.1 ≠ []) ∨ prior = none
  | zinterstore _ =>
    (SomeEmpty sources → prior = none) ∧ (¬SomeEmpty sources → sources.length ≠ 1 ∧
        (drops = true ∨ ∃ m, InAll (sources.map Prod.fst) m))
  | zdiffstore | zrangestore _ _ => coll.size < 2 ^ 31
  | sunionstore | sinterstore | sdiffstore => coll.estimate ≤ maxObjectSize ∨ Holds prior coll

/-! ## Texts and elements -/

omit [LinearOrder S] in
lemma readRows_rowTexts
    (htexts : ∀ score : S, ScoreTexts.string2double (ScoreTexts.d2string score) = some score)
    (rows : List (Bytes × S)) : readRows (rowTexts true rows) = some rows := by
  induction rows with
  | nil => rfl
  | cons row rows ih =>
    have hcons : rowTexts true (row :: rows)
        = row.1 :: ScoreTexts.d2string row.2 :: rowTexts true rows := rfl
    rw [hcons, readRows, htexts, ih]
    rfl

omit [LinearOrder S] in
lemma members_readRows (rows : List (Bytes × Bytes)) : ∀ {read : List (Bytes × S)},
    readRows (pairTexts true rows) = some read → read.map Prod.fst = rows.map Prod.fst := by
  induction rows with
  | nil =>
    intro read hread
    rw [← some.inj hread]
    rfl
  | cons row rows ih =>
    intro read hread
    have hcons : pairTexts true (row :: rows) = row.1 :: row.2 :: pairTexts true rows := rfl
    rw [hcons, readRows] at hread
    obtain ⟨score, -, hread⟩ := bind_eq_some_iff.mp hread
    obtain ⟨rest, hrest, hread⟩ := bind_eq_some_iff.mp hread
    rw [← some.inj hread, map_cons, map_cons, ih hrest]

omit [ScoreTexts S] in
lemma holds_left_zadd (prior : Option (RedisObject S)) {rows rows' : List (Bytes × S)}
    (hne : rows ≠ []) (hnodup : (rows.map Prod.fst).Nodup) (hperm : rows'.Perm rows) :
    Holds ((Sent.zadd (some (toElements rows))).left drops prior) (.zset rows') := by
  have hne' : rows' ≠ [] := fun h => hne (h ▸ hperm).symm.eq_nil
  have hviews : ((toElements rows).map fun e => e.2.stringView) = rows.map Prod.fst := by
    rw [toElements, List.map_map]
    exact map_congr_left fun row _ => EloqString.stringView_ofPtr row.1
  have hpairs : ((toElements rows).map fun e => (e.2.stringView, e.1)) = rows := by
    rw [toElements, List.map_map]
    refine (map_congr_left fun row _ => ?_).trans (map_id rows)
    exact Prod.ext (EloqString.stringView_ofPtr row.1) rfl
  have hlength : ¬(toElements rows).length = 0 := by
    rw [toElements, length_map, length_eq_zero_iff]
    exact hne
  have hstored := Zset.pairs_forceClear (hviews ▸ hnodup)
  rw [hpairs] at hstored
  obtain ⟨row, rest, rfl⟩ := exists_cons_of_ne_nil hne'
  refine ⟨_, none, ?_, hstored.trans hperm.symm⟩
  rw [Sent.left, Sent.execute, Zset.executeForceClear, if_neg hlength]
  rfl

omit [ScoreTexts S] in
lemma holds_left_sadd_iff (prior : Option (RedisObject S)) {paras : List Bytes}
    (hnodup : paras.Nodup) :
    Holds ((Sent.sadd paras : Sent S).left drops prior) (.set paras) ↔
      (paras.map fun e => 8 + e.length).sum ≤ maxObjectSize ∨ Holds prior (.set paras) := by
  by_cases hbig : maxObjectSize < (paras.map fun e => 8 + e.length).sum
  · have hleft : (Sent.sadd paras : Sent S).left drops prior = prior := by
      rw [Sent.left, Sent.execute, Sets.executeForceAdd, if_pos hbig]
    rw [hleft]
    exact (or_iff_right (not_le.mpr hbig)).symm
  · refine iff_of_true ?_ (.inl (not_lt.mp hbig))
    by_cases hnil : paras = []
    · subst hnil
      cases drops <;> rfl
    · have hwrite := Sets.executeForceAdd_eq_write.mpr ⟨not_lt.mp hbig, hnil⟩
      obtain ⟨hcommit, -⟩ := Sets.commitForceAdd_eq hnil
      obtain ⟨m, rest, rfl⟩ := exists_cons_of_ne_nil hnil
      refine ⟨RedisHashSetObject.empty.commitSAdd (m :: rest), none, ?_, ?_⟩
      · rw [Sent.left, Sent.execute, hwrite]
        simp [Sent.commit, hcommit]
      · refine (perm_ext_iff_of_nodup (RedisHashSetObject.nodup _) hnodup).mpr fun m => ?_
        rw [RedisHashSetObject.mem_commitSAdd]
        exact or_iff_right not_mem_nil

/-! ## The commands one by one -/

variable {sources : List (Option (RedisObject S) × W)} {cmd : StoreCommand S}
  {prior : Option (RedisObject S)}

lemma stores_iff_of_run {drops : Bool} {dest : Option (RedisObject S)} {reply : StoreReply}
    (hrun : cmd.run order scoring drops sources prior = .ok (dest, reply)) (coll : Collection S) :
    cmd.Stores order scoring drops sources prior coll ↔
      reply = .int coll.size ∧ Holds dest coll := by
  rw [Stores, hrun]
  constructor
  · rintro ⟨_, hdest, hholds⟩
    cases hdest
    exact ⟨rfl, hholds⟩
  · rintro ⟨rfl, hholds⟩
    exact ⟨dest, rfl, hholds⟩

lemma stores_sadd_iff {paras : List Bytes} (hnodup : paras.Nodup)
    (hmiddle : cmd.middle order scoring sources = .ok (some (.sadd paras))) :
    cmd.Stores order scoring drops sources prior (.set paras) ↔
      (Collection.set (S := S) paras).estimate ≤ maxObjectSize ∨ Holds prior (.set paras) := by
  have hrun : cmd.run order scoring drops sources prior
      = .ok ((Sent.sadd paras : Sent S).left drops prior, .int paras.length) := by
    rw [run, hmiddle]
    cases cmd <;> rfl
  rw [Collection.estimate, ← holds_left_sadd_iff drops prior hnodup,
    stores_iff_of_run order scoring hrun]
  exact and_iff_right rfl

omit [LinearOrder S] [ScoreTexts S] in
lemma bmod_eq_self_iff (n : Nat) : Int.bmod n (2 ^ 32) = n ↔ n < 2 ^ 31 := by
  rw [Int.bmod_def]
  split <;> omega

lemma stores_zadd_iff
    (hcmd : cmd = .zdiffstore ∨ ∃ constraint spec, cmd = .zrangestore constraint spec)
    {rows : List (Bytes × S)} (hnodup : (rows.map Prod.fst).Nodup)
    (hmiddle : cmd.middle order scoring sources
      = .ok (some (.zadd (if rows = [] then none else some (toElements rows))))) :
    cmd.Stores order scoring drops sources prior (.zset rows) ↔ rows.length < 2 ^ 31 := by
  set sent : Sent S := .zadd (if rows = [] then none else some (toElements rows)) with hsent
  have hcount : ∀ sent, cmd.storedReply (.zadd sent)
      = .int (Int.bmod (sent.getD []).length (2 ^ 32)) := by
    rcases hcmd with rfl | ⟨constraint, spec, rfl⟩ <;> exact fun _ => rfl
  have hreply : cmd.storedReply sent = .int (Int.bmod rows.length (2 ^ 32)) := by
    rw [hcount]
    by_cases hnil : rows = []
    · rw [hnil]
      rfl
    · rw [if_neg hnil, getD_some, toElements, length_map]
  have hholds : Holds (sent.left drops prior) (.zset rows) := by
    by_cases hnil : rows = []
    · rw [hsent, hnil]
      cases drops <;> rfl
    · rw [hsent, if_neg hnil]
      exact holds_left_zadd drops prior hnil hnodup (.refl _)
  have hrun : cmd.run order scoring drops sources prior
      = .ok (sent.left drops prior, .int (Int.bmod rows.length (2 ^ 32))) := by
    rw [run, hmiddle, ← hreply]
  rw [← bmod_eq_self_iff, stores_iff_of_run order scoring hrun, and_iff_left hholds]
  exact StoreReply.int.injEq _ _ ▸ Iff.rfl

variable {coll : Collection S}

lemma zdiffstore_stores_iff (hne : sources ≠ []) (hsources : ∀ src ∈ sources, IsZsetSource src.1)
    (hreturns : zdiffstore.Returns order scoring sources coll) :
    zdiffstore.Stores order scoring drops sources prior coll ↔ coll.size < 2 ^ 31 := by
  obtain ⟨cmds, rows, hcmds, hcodes, hfound, hlists⟩ := Query.findZDiff_spec order true hne hsources
  obtain ⟨texts, hreply, hcoll⟩ := hreturns
  have htexts : texts = pairTexts true rows := by
    rw [readReply, reply, hcmds] at hreply
    have harray := Except.ok.inj hreply
    rw [zDiff, unlessError_of_ok hcodes, hfound] at harray
    exact (array.inj harray).symm
  obtain ⟨read, hread, rfl⟩ := map_eq_some_iff.mp hcoll
  rw [htexts] at hread
  have hnodup : (read.map Prod.fst).Nodup := by
    rw [members_readRows rows hread]
    exact hlists.1
  have hnone : firstError (cmds.map RangeResult.errCode) = none := firstError_of_ok hcodes
  refine stores_zadd_iff order scoring drops (.inl rfl) hnodup ?_
  rw [middle, hcmds]
  simp only [zDiffStore, hnone, isSome_none, Bool.false_eq_true, if_false, hfound, hread]
  cases read <;> rfl

/-- What is listed is stored; only the number in the reply, an `int`, can be wrong. -/
lemma zrangestore_stores_iff (constraint : ZRangeConstraint) (spec : ZRangeSpec S)
    (hsources : ∀ src ∈ sources, IsZsetSource src.1)
    (hreturns : (zrangestore constraint spec).Returns order scoring sources coll) :
    (zrangestore constraint spec).Stores order scoring drops sources prior coll ↔
      coll.size < 2 ^ 31 := by
  have hsource : IsZsetSource (source sources) := by
    cases sources with
    | nil => trivial
    | cons src sources => exact hsources src mem_cons_self
  obtain ⟨texts, hreply, hcoll⟩ := hreturns
  obtain ⟨read, hread, rfl⟩ := map_eq_some_iff.mp hcoll
  rw [readReply] at hreply
  -- the texts are those of distinct members, and the middle step reads the same texts
  have hfound : ∃ res, zRange order false (constraint.scored true) spec (source sources) = .ok res ∧
      (res.errCode = .nil ∧ texts = [] ∨ res.errCode = .ok ∧ res.result = some texts) ∧
      ∃ rows, texts = pairTexts true rows ∧ (rows.map Prod.fst).Nodup := by
    cases hsrc : source sources with
    | none =>
      rw [hsrc] at hreply
      have hnil : texts = [] := (Reply.array.inj (Except.ok.inj hreply)).symm
      exact ⟨_, rfl, .inl ⟨rfl, hnil⟩, [], hnil, nodup_nil⟩
    | some obj =>
      rw [hsrc] at hreply hsource
      obtain ⟨payload, ttl⟩ := obj
      cases payload with
      | zset z =>
        rcases ZRange.listsRows_getZrangeResult hsource constraint spec with
          ⟨fault, hfault⟩ | ⟨rows, hnodup, hrows⟩
        · rw [zRange, hfault true] at hreply
          cases hreply
        · obtain ⟨after, hafter⟩ := hrows true
          beta_reduce at hafter
          have hres : zRange order false (constraint.scored true) spec (some ⟨.zset z, ttl⟩)
              = .ok ⟨.ok, some (pairTexts true rows)⟩ := by
            rw [zRange, hafter]
            rfl
          rw [hres] at hreply
          have htexts : pairTexts true rows = texts := Reply.array.inj (Except.ok.inj hreply)
          exact ⟨_, hres, .inr ⟨rfl, congrArg some htexts⟩, rows, htexts.symm, hnodup⟩
      | _ => cases hreply
  obtain ⟨res, hres, hresult, rows, htexts, hnodup⟩ := hfound
  have hdistinct : (read.map Prod.fst).Nodup := by
    rw [htexts] at hread
    rw [members_readRows rows hread]
    exact hnodup
  refine stores_zadd_iff order scoring drops (.inr ⟨constraint, spec, rfl⟩) hdistinct ?_
  rw [middle, hres]
  rcases hresult with ⟨hcode, hnil⟩ | ⟨hcode, hsome⟩
  · rw [hnil] at hread
    rw [← some.inj hread]
    simp [zRangeStore, hcode]
  · simp only [zRangeStore, hcode, hsome, ne_eq, not_true_eq_false, false_and, if_false,
      reduceCtorEq]
    cases texts with
    | nil =>
      rw [← some.inj hread]
      rfl
    | cons text texts =>
      have hne : read ≠ [] := by
        rintro rfl
        have hmembers := members_readRows rows (htexts ▸ hread)
        rw [map_nil, eq_comm, map_eq_nil_iff] at hmembers
        rw [hmembers] at htexts
        cases htexts
      simp [hread, if_neg hne]

omit [ScoreTexts S] in
lemma all_empty_iff (hsources : ∀ src ∈ sources, IsZsetSource src.1) :
    (scans order scoring sources).all (fun cmd => cmd.1.errCode = .nil || cmd.1.result.isEmpty)
        = true ↔ ∀ src ∈ sources, members src.1 = [] := by
  rw [scans, List.all_map, List.all_eq_true]
  refine forall₂_congr fun src hsrc => ?_
  obtain ⟨hcode, hperm⟩ := szScan_spec order scoring.one (hsources src hsrc)
  have hresult : (szScan order scoring.one src.1).result = [] ↔ members src.1 = [] := by
    rw [← map_eq_nil_iff (f := Prod.fst)]
    exact ⟨fun h => nil_perm.mp (h ▸ hperm), fun h => perm_nil.mp (h ▸ hperm)⟩
  rw [← hresult, Function.comp_apply, Bool.or_eq_true, decide_eq_true_eq, List.isEmpty_iff]
  exact or_iff_right_of_imp fun hnil => by
    rcases hcode with hok | ⟨-, hempty⟩
    · exact absurd (hok.symm.trans hnil) (by decide)
    · exact hempty

omit [LinearOrder S] [ScoreTexts S] in
lemma exists_iff_of_lists {rows : List (Bytes × S)} {p : Bytes → Prop}
    (hlists : Lists (rows.map Prod.fst) p) : (∃ m, p m) ↔ rows ≠ [] := by
  rw [exists_congr fun m => (hlists.2 m).symm, ← not_iff_not, not_exists, not_not,
    ← eq_nil_iff_forall_not_mem, map_eq_nil_iff]

variable (agg : AggregateType)

/-- Nothing is written for an empty union, and the old value stays. -/
lemma zunionstore_stores_iff
    (htexts : ∀ score : S, ScoreTexts.string2double (ScoreTexts.d2string score) = some score)
    (hsources : ∀ src ∈ sources, IsZsetSource src.1)
    (hreturns : (zunionstore agg).Returns order scoring sources coll) :
    (zunionstore agg).Stores order scoring drops sources prior coll ↔
      (∃ src ∈ sources, members src.1 ≠ []) ∨ prior = none := by
  have hno := not_any_wrongType_scans order scoring hsources
  set rows := unionRows scoring order agg (scans order scoring sources) with hrows
  have hlists : Lists (rows.map Prod.fst) (InAny (sources.map Prod.fst)) :=
    unionRows_spec order scoring agg hsources
  obtain rfl : coll = .zset rows := by
    obtain ⟨texts, hreply, hcoll⟩ := hreturns
    rw [readReply, Query.reply, zUnion, if_neg hno] at hreply
    rw [← Reply.array.inj (Except.ok.inj hreply), collection, readRows_rowTexts htexts] at hcoll
    exact (Option.some.inj hcoll).symm
  have hany : (∃ src ∈ sources, members src.1 ≠ []) ↔ rows ≠ [] := by
    rw [← exists_iff_of_lists hlists]
    constructor
    · rintro ⟨src, hsrc, hne⟩
      obtain ⟨m, hm⟩ := exists_mem_of_ne_nil _ hne
      exact ⟨m, src.1, mem_map_of_mem hsrc, hm⟩
    · rintro ⟨m, obj, hobj, hm⟩
      obtain ⟨src, hsrc, rfl⟩ := mem_map.mp hobj
      exact ⟨src, hsrc, ne_nil_of_mem hm⟩
  by_cases hempty : ∀ src ∈ sources, members src.1 = []
  · have hnil : rows = [] := by
      by_contra hne
      obtain ⟨src, hsrc, hmembers⟩ := hany.mpr hne
      exact hmembers (hempty src hsrc)
    have hrun : (zunionstore agg).run order scoring drops sources prior = .ok (prior, .int 0) := by
      rw [run, middle, zUnionStore, if_pos ((all_empty_iff order scoring hsources).mpr
        hempty)]
      simp [stoppedReply, hno]
    rw [hany, hnil, stores_iff_of_run order scoring hrun]
    simp only [ne_eq, not_true_eq_false, false_or]
    exact and_iff_right rfl
  · have hne : rows ≠ [] := hany.mp (by simpa using hempty)
    refine iff_of_true ?_ (.inl (hany.mpr hne))
    set walked := (order.walk (unionVals scoring agg (scans order scoring sources)).entries).map
      fun e => (e.1, e.2) with hwalked
    have hperm : rows.Perm walked := mergeSort_perm _ _
    have hmiddle : (zunionstore agg).middle order scoring sources
        = .ok (some (.zadd (some (toElements walked)))) := by
      rw [middle, zUnionStore, if_neg hno,
        if_neg fun h => hempty ((all_empty_iff order scoring hsources).mp h)]
    refine ⟨_, ?_, holds_left_zadd drops prior (fun h => hne (h ▸ hperm).eq_nil)
      ((hperm.map Prod.fst).nodup_iff.mp hlists.1) hperm⟩
    rw [run, hmiddle, Collection.size, hperm.length_eq]
    simp [storedReply, toElements]

omit [LinearOrder S] [ScoreTexts S] in
lemma smallestStored_eq {cmds : List (ScanResult S × W)}
    (hcmds : ∀ cmd ∈ cmds, cmd.1.errCode = .ok ∨ (cmd.1.errCode = .nil ∧ cmd.1.result = []))
    (i : Nat) (best best' : Nat × Nat) (hbest : smallestSet i best cmds = .ok best') :
    smallestStored i best cmds = some best' ∨
      (smallestStored i best cmds = none ∧ ∃ cmd ∈ cmds, cmd.1.result = []) := by
  induction cmds generalizing i best with
  | nil => exact .inl (congrArg some (Except.ok.inj hbest))
  | cons cmd cmds ih =>
    rw [forall_mem_cons] at hcmds
    rcases hcmds.1 with hok | ⟨hnil, hempty⟩
    · rw [smallestSet, hok] at hbest
      rw [smallestStored, if_pos hok]
      refine (ih hcmds.2 _ _ hbest).imp_right ?_
      rintro ⟨hnone, cmd', hcmd', hresult⟩
      exact ⟨hnone, cmd', mem_cons_of_mem _ hcmd', hresult⟩
    · refine .inr ⟨?_, cmd, mem_cons_self, hempty⟩
      rw [smallestStored, if_neg (by rw [hnil]; decide)]

omit [LinearOrder S] [ScoreTexts S] in
lemma zInterStore_of_some {cmds : List (ScanResult S × W)}
    {best : Nat × Nat} (hbest : smallestStored 0 (0, sizeMax) cmds = some best)
    (hpos : ¬best.2 = 0) (hlength : cmds.length ≠ 1) :
    zInterStore scoring agg cmds
      = some (.zadd (some (toElements (interResults scoring agg cmds best.1)))) := by
  rw [zInterStore, hbest]
  refine (if_neg hpos).trans ?_
  match cmds, hlength with
  | [], _ => rfl
  | _ :: _ :: _, _ => rfl

/-- Empty sources stop the command before it writes, so the old value has to be none there. -/
lemma zinterstore_stores_iff
    (htexts : ∀ score : S, ScoreTexts.string2double (ScoreTexts.d2string score) = some score)
    (hne : sources ≠ []) (hsources : ∀ src ∈ sources, IsZsetSource src.1)
    (hreturns : (zinterstore agg).Returns order scoring sources coll) :
    (zinterstore agg).Stores order scoring drops sources prior coll ↔
      (SomeEmpty sources → prior = none) ∧ (¬SomeEmpty sources → sources.length ≠ 1 ∧
          (drops = true ∨ ∃ m, InAll (sources.map Prod.fst) m)) := by
  have hno := not_any_wrongType_scans order scoring hsources
  obtain ⟨rows, hrows, hnil, hone, htwo⟩ := interRows_spec order scoring agg hsources hne
  obtain rfl : coll = .zset rows := by
    obtain ⟨texts, hreply, hcoll⟩ := hreturns
    rw [readReply, Query.reply, zInter, hrows] at hreply
    rw [← Reply.array.inj (Except.ok.inj hreply), collection, readRows_rowTexts htexts] at hcoll
    exact (Option.some.inj hcoll).symm
  obtain ⟨best, hbest, -, hzero⟩ :=
    smallestSet_spec (scans_codes order scoring hsources) 0 (0, sizeMax)
  rw [scans_someEmpty order scoring hsources, or_iff_right (by decide)] at hzero
  have hstored := smallestStored_eq (scans_codes order scoring hsources) 0 (0, sizeMax) best hbest
  rw [scans_someEmpty order scoring hsources] at hstored
  by_cases hempty : SomeEmpty sources
  · -- nothing is sent: the old value stays
    have hmiddle : zInterStore scoring agg (scans order scoring sources) = none := by
      rcases hstored with hsome | ⟨hnone, -⟩
      · rw [zInterStore, hsome]
        exact if_pos (hzero.mpr hempty)
      · rw [zInterStore, hnone]
        rfl
    have hrun : (zinterstore agg).run order scoring drops sources prior = .ok (prior, .int 0) := by
      rw [run, middle, hmiddle]
      simp [stoppedReply, hno]
    rw [hnil hempty, stores_iff_of_run order scoring hrun]
    exact ⟨fun h => ⟨fun _ => h.2, fun hnot => absurd hempty hnot⟩, fun h => ⟨rfl, h.1 hempty⟩⟩
  have hsome : smallestStored 0 (0, sizeMax) (scans order scoring sources) = some best :=
    hstored.resolve_right fun h => hempty h.2
  have hpos : ¬best.2 = 0 := fun h => hempty (hzero.mp h)
  by_cases hlength : sources.length = 1
  · -- the single source is stored, of which ZINTER returns nothing
    refine iff_of_false ?_ fun h => (h.2 hempty).1 hlength
    rintro ⟨dest, hdest, hholds⟩
    obtain ⟨src, rfl⟩ := length_eq_one_iff.mp hlength
    have hmiddle : zInterStore scoring agg (scans order scoring [src]) = some (.zadd (some
        (toElements (weighted scoring (szScan order scoring.one src.1, src.2))))) := by
      rw [zInterStore, hsome]
      exact if_neg hpos
    rw [hone rfl, run, middle, hmiddle] at hdest
    have hcount := StoreReply.int.inj (Prod.mk.inj (Except.ok.inj hdest)).2
    rw [getD_some, toElements, length_map, weighted, length_map] at hcount
    have hresult : (szScan order scoring.one src.1).result = [] :=
      length_eq_zero_iff.mp (Int.ofNat_eq_zero.mp hcount)
    exact hempty ((scans_someEmpty order scoring hsources).mp ⟨_, mem_singleton_self _, hresult⟩)
  · have hlists := htwo hlength
    set results := interResults scoring agg (scans order scoring sources) best.1 with hresults
    have hperm : rows.Perm results := by
      rw [interRows, hbest] at hrows
      have hsorted := Except.ok.inj ((if_neg hpos).symm.trans hrows)
      rw [← hsorted]
      exact mergeSort_perm _ _
    have hmiddle := zInterStore_of_some scoring agg hsome hpos
      (show (scans order scoring sources).length ≠ 1 by rwa [scans, length_map])
    have hrun : (zinterstore agg).run order scoring drops sources prior
        = .ok ((Sent.zadd (some (toElements results))).left drops prior, .int rows.length) := by
      rw [run, middle, hmiddle, hperm.length_eq]
      simp only [storedReply, getD_some, toElements, length_map]
      rfl
    have hiff : ((SomeEmpty sources → prior = none) ∧ (¬SomeEmpty sources → sources.length ≠ 1 ∧
          (drops = true ∨ ∃ m, InAll (sources.map Prod.fst) m))) ↔
        drops = true ∨ rows ≠ [] := by
      rw [exists_iff_of_lists hlists]
      simp [hempty, hlength]
    rw [hiff]
    by_cases hrow : rows = []
    · -- an empty vector: the engine has to drop the key itself
      have hresult : results = [] := by
        rw [hrow] at hperm
        exact hperm.symm.eq_nil
      rw [hresult] at hrun
      rw [hrow] at hrun ⊢
      rw [stores_iff_of_run order scoring hrun]
      cases drops with
      | true => exact iff_of_true ⟨rfl, rfl⟩ (.inl rfl)
      | false => exact iff_of_false (fun h => by cases h.2) (by simp)
    · refine iff_of_true ⟨_, hrun, ?_⟩ (.inr hrow)
      exact holds_left_zadd drops prior (fun h => hrow (h ▸ hperm).eq_nil)
        ((hperm.map Prod.fst).nodup_iff.mp hlists.1) hperm

lemma sadd_of_returns (hcmd : cmd = .sunionstore ∨ cmd = .sinterstore ∨ cmd = .sdiffstore)
    (hne : sources ≠ []) (hsources : ∀ src ∈ sources, IsSetSource src.1)
    (hreturns : cmd.Returns order scoring sources coll) : ∃ paras, coll = .set paras ∧
      paras.Nodup ∧ cmd.middle order scoring sources = .ok (some (.sadd paras)) := by
  obtain ⟨hcodes, hlisted⟩ := Query.sMembers_ok order hsources
  have hnone := firstError_of_ok hcodes
  have hwrong := not_any_wrongType_of_ok hcodes
  have hnodup := hlisted.nodup (forall_mem_map.mpr fun src hsrc =>
    (hsources src hsrc).isZsetSource)
  obtain ⟨texts, hreply, hcoll⟩ := hreturns
  set lists := (sources.map fun src => sMembers order src.1).map (·.stringList) with hlists
  rcases hcmd with rfl | rfl | rfl
  · rw [readReply, reply, sUnion, if_neg hwrong] at hreply
    refine ⟨texts, (some.inj hcoll).symm, ?_, ?_⟩
    · rw [← array.inj (Except.ok.inj hreply), (order.perm _).nodup_iff]
      exact nodup_dedup _
    · rw [middle, sUnionStore, if_neg hwrong, array.inj (Except.ok.inj hreply)]
  · rw [readReply, reply, sInter, unlessError_of_ok hcodes] at hreply
    refine ⟨texts, (some.inj hcoll).symm, ?_, ?_⟩
    · have hne' : lists ≠ [] := by simpa [hlists] using hne
      obtain ⟨base, hbase, -, hfind⟩ := findInter_spec hne' hnodup
      rw [← array.inj (Except.ok.inj hreply), hfind]
      exact hbase.1.sublist (take_sublist _ _)
    · rw [middle, sInterStore, hnone, array.inj (Except.ok.inj hreply)]
      rfl
  · rw [readReply, reply, sDiff, unlessError_of_ok hcodes] at hreply
    refine ⟨texts, (some.inj hcoll).symm, ?_, ?_⟩
    · rw [← array.inj (Except.ok.inj hreply)]
      exact nodup_diffMembers hnodup
    · rw [middle, sDiffStore, hnone, array.inj (Except.ok.inj hreply)]
      rfl

/-- **When a STORE command stores what the read-only command returns**, or nothing if that is empty,
and replies with its size: exactly if it is `Proper`. -/
theorem store_agrees_iff (cmd : StoreCommand S)
    (htexts : ∀ score : S, ScoreTexts.string2double (ScoreTexts.d2string score) = some score)
    {sources : List (Option (RedisObject S) × W)} (hne : sources ≠ [])
    (hsources : ∀ src ∈ sources, cmd.Reads src.1) {coll : Collection S}
    (hreturns : cmd.Returns order scoring sources coll) (prior : Option (RedisObject S)) :
    cmd.Stores order scoring drops sources prior coll ↔ cmd.Proper drops sources prior coll := by
  have hset : ∀ cmd : StoreCommand S, cmd = .sunionstore ∨ cmd = .sinterstore ∨ cmd = .sdiffstore →
      (∀ src ∈ sources, IsSetSource src.1) → cmd.Returns order scoring sources coll →
      (cmd.Stores order scoring drops sources prior coll ↔
        coll.estimate ≤ maxObjectSize ∨ Holds prior coll) := by
    intro cmd hcmd hsources hreturns
    obtain ⟨paras, rfl, hnodup, hmiddle⟩ := sadd_of_returns order scoring hcmd hne hsources hreturns
    exact stores_sadd_iff order scoring drops hnodup hmiddle
  cases cmd with
  | zunionstore agg =>
    exact zunionstore_stores_iff order scoring drops agg htexts hsources hreturns
  | zinterstore agg =>
    exact zinterstore_stores_iff order scoring drops agg htexts hne hsources hreturns
  | zdiffstore => exact zdiffstore_stores_iff order scoring drops hne hsources hreturns
  | zrangestore constraint spec =>
    exact zrangestore_stores_iff order scoring drops constraint spec hsources hreturns
  | sunionstore => exact hset _ (.inl rfl) hsources hreturns
  | sinterstore => exact hset _ (.inr (.inl rfl)) hsources hreturns
  | sdiffstore => exact hset _ (.inr (.inr rfl)) hsources hreturns

end Run

/-! ## Two requests -/

section Requests

open Objects (Double listedOrder)

/-- Scores that are 0 or 1. -/
local instance bitTexts : ScoreTexts Bool where
  string2double s :=
    if s = ascii "0" then some false else if s = ascii "1" then some true else none
  d2string score := if score then ascii "1" else ascii "0"
  length_d2string_le score := by cases score <;> decide
  infinity := true
  negativeInfinity := false

def bitScoring : Scoring Bool Unit where
  one := true
  caculateNewScore score _ := score
  updateFunction _ := or

/-- The set `{a, b}`, the set `{b}` and a missing key. -/
def setSources : List (Option (RedisObject Bool) × Unit) :=
  [(some ⟨.set (RedisHashSetObject.empty.commitSAdd [ascii "a", ascii "b"]), none⟩, ()),
   (some ⟨.set (RedisHashSetObject.empty.commitSAdd [ascii "b"]), some 7⟩, ()), (none, ())]

/-- `SDIFFSTORE d s t missing` over a string with a deadline. -/
theorem sdiffstore_over_string :
    sdiffstore.Stores listedOrder bitScoring false setSources
      (some ⟨.string (some (ascii "old")), some 5⟩) (.set [ascii "a"]) := by
  have htexts : ∀ score : Bool, ScoreTexts.string2double (ScoreTexts.d2string score) = some score
    | false => rfl
    | true => rfl
  have hsources : ∀ src ∈ setSources, sdiffstore.Reads src.1 := by
    rw [setSources, forall_mem_cons, forall_mem_cons, forall_mem_singleton]
    exact ⟨trivial, trivial, trivial⟩
  have hreturns : sdiffstore.Returns listedOrder bitScoring setSources (.set [ascii "a"]) :=
    ⟨[ascii "a"], by decide, rfl⟩
  have hproper : (sdiffstore : StoreCommand Bool).Proper false setSources
      (some ⟨.string (some (ascii "old")), some 5⟩) (.set [ascii "a"]) := .inl (by decide)
  exact (store_agrees_iff listedOrder bitScoring false sdiffstore htexts (cons_ne_nil _ _)
    hsources hreturns _).mpr hproper

/-- `ZUNIONSTORE d 1 missing` replies 0 and leaves the string, where ZUNION returns nothing. -/
theorem zunionstore_keeps_old_value :
    let old : Option (RedisObject Double) := some ⟨.string (some (ascii "old")), none⟩
    (zunionstore .sum).Returns listedOrder maxScoring [missingSource] (.zset []) ∧
      (zunionstore .sum).run listedOrder maxScoring true [missingSource] old = .ok (old, .int 0) ∧
        ¬(zunionstore .sum).Stores listedOrder maxScoring true [missingSource] old (.zset []) := by
  intro old
  have hrun : (zunionstore .sum).run listedOrder maxScoring true [missingSource] old
      = .ok (old, .int 0) := rfl
  have hrows : unionRows maxScoring listedOrder .sum
      (scans listedOrder maxScoring [missingSource]) = [] := mergeSort_nil
  refine ⟨⟨[], ?_, rfl⟩, hrun, ?_⟩
  · show Except.ok (Reply.array (rowTexts true (unionRows maxScoring listedOrder .sum
      (scans listedOrder maxScoring [missingSource])))) = _
    rw [hrows]
    rfl
  · rintro ⟨dest, hdest, hholds⟩
    rw [← (Prod.mk.inj (Except.ok.inj hdest)).1] at hholds
    exact nomatch hholds

end Requests

end StoreCommand

end EloqKV.SetQueries
