/-
  The steps of the blocking commands: what one sub-command does on an object and to a session,
  what `ForwardResult` leaves, and when a session keeps the promise.

  A sub-command that found something holds the lock (`Held`), so that the object is still there when
  it is run to pop.
-/
import EloqKV.Transactions.BlockingPops

open List

namespace EloqKV.Blocking

open BlockLPopCommand

open PopReplies (Output OutputEvent popEnd)

/-! ## What a sub-command does on an object -/

/-- The results `ExecuteOn` can have: the command it leaves and its answer. -/
inductive Visit (cmd : BlockLPopCommand) (object : Option Obj) :
    BlockLPopCommand × ExecResult → Prop
  | nothing : object.getD (.list []) = .list [] →
      Visit cmd object ({ cmd with result := ⟨.ok, 0, cmd.result.elements⟩ },
        BlockLPopCommand.answer cmd.opType .noChange)
  | refused {foreign : Obj} : object = some foreign → (∀ items, foreign ≠ .list items) →
      Visit cmd object
        ({ cmd with result := ⟨.wrongType, cmd.result.ret, cmd.result.elements⟩ }, .fail)
  | sized {x : Bytes} {xs : List Bytes} : object = some (.list (x :: xs)) →
      cmd.opType = .blockLock →
      Visit cmd object ({ cmd with result := ⟨.ok, (x :: xs).length, cmd.result.elements⟩ }, .read)
  | none {x : Bytes} {xs : List Bytes} : object = some (.list (x :: xs)) →
      cmd.opType ≠ .blockLock → cmd.count = 0 →
      Visit cmd object
        ({ cmd with result := ⟨.ok, 0, some []⟩ }, BlockLPopCommand.answer cmd.opType .noChange)
  | popped {x : Bytes} {xs es : List Bytes} {result : ExecResult} :
      object = some (.list (x :: xs)) → cmd.opType ≠ .blockLock →
      es.length = min cmd.count (x :: xs).length → es ≠ [] → result.modifies = true →
      TakenFrom cmd.isLeft object (cmd.applied object result) es →
      Visit cmd object ({ cmd with result := ⟨.ok, es.length, some es⟩ }, result)

@[simp] lemma length_popEnd (isLeft : Bool) (n : Nat) (items : List Bytes) :
    (popEnd isLeft n items).length = min n items.length := by
  cases isLeft <;> simp [popEnd]

lemma takenFrom_popEnd (isLeft : Bool) (cnt : Nat) (items : List Bytes) :
    TakenFrom isLeft (some (.list items))
      (listOrNone (if isLeft then items.drop cnt else items.take (items.length - cnt)))
      (popEnd isLeft cnt items) := by
  refine ⟨_, rfl, ?_⟩
  cases isLeft
  · -- from the right: the elements come off in reverse
    have hreverse : (items.reverse.take cnt).reverse = items.drop (items.length - cnt) := by
      rw [take_reverse, reverse_reverse]
    simp [popEnd, hreverse]
  · simp [popEnd]

namespace BlockLPopCommand

lemma answer_modifiedToEmpty (op : BlockOperation) : answer op .modifiedToEmpty = .delete := by
  cases op <;> rfl

lemma executeOn_of_list {cmd : BlockLPopCommand} {object : Option Obj} {items : List Bytes}
    (hlist : object.getD (.list []) = .list items) :
    cmd.executeOn object =
      if cmd.opType = .blockLock then
        ({ cmd with result := ⟨.ok, items.length, cmd.result.elements⟩ },
          if 0 < items.length then .read else .block)
      else
        ({ cmd with result := (cmd.execute items).1 },
          answer cmd.opType (cmd.execute items).2) := by
  rw [executeOn, hlist]

lemma commitBlockPop_eq {isLeft : Bool} {count : Nat} {items : List Bytes}
    (hsize : items.length < 2 ^ 32) :
    commitBlockPop isLeft count items =
      if isLeft then items.drop (min count items.length)
      else items.take (items.length - min count items.length) := by
  rw [commitBlockPop, Nat.mod_eq_of_lt hsize, Nat.min_comm]

lemma visit_pop {cmd : BlockLPopCommand} {x : Bytes} {xs : List Bytes}
    (hop : cmd.opType ≠ .blockLock) (hsize : (x :: xs).length < 2 ^ 32) :
    Visit cmd (some (.list (x :: xs))) (cmd.executeOn (some (.list (x :: xs)))) := by
  have htaken := takenFrom_popEnd cmd.isLeft (min cmd.count (x :: xs).length) (x :: xs)
  rw [executeOn_of_list rfl, if_neg hop, execute, if_neg (cons_ne_nil x xs)]
  by_cases hcount : cmd.count = 0
  · have hmin : min cmd.count (x :: xs).length = 0 := by rw [hcount, Nat.zero_min]
    have hnil : popEnd cmd.isLeft 0 (x :: xs) = [] := by simp [popEnd]
    rw [hmin]
    exact .none rfl hop hcount
  · have hcnt : min cmd.count (x :: xs).length ≠ 0 := by
      rw [length_cons]
      omega
    have hlength := length_popEnd cmd.isLeft (min cmd.count (x :: xs).length) (x :: xs)
    rw [Nat.min_eq_left (Nat.min_le_right _ _)] at hlength
    have hne : popEnd cmd.isLeft (min cmd.count (x :: xs).length) (x :: xs) ≠ [] := fun hnil =>
      hcnt (by rw [← hlength, hnil, length_nil])
    rw [if_neg hcnt]
    by_cases hall : (x :: xs).length ≤ min cmd.count (x :: xs).length
    · -- all elements go, and the object with them
      rw [if_pos hall, answer_modifiedToEmpty]
      refine .popped rfl hop hlength hne rfl ?_
      have hmin : min cmd.count (x :: xs).length = (x :: xs).length :=
        Nat.le_antisymm (Nat.min_le_right _ _) hall
      rw [hmin] at htaken ⊢
      simpa [listOrNone, applied] using htaken
    · rw [if_neg hall]
      refine .popped rfl hop hlength hne rfl ?_
      change TakenFrom _ _ (listOrNone (commitBlockPop _ _ _)) _
      rwa [commitBlockPop_eq hsize]

lemma visit (cmd : BlockLPopCommand) (object : Option Obj)
    (hsize : ∀ items, object = some (.list items) → items.length < 2 ^ 32) :
    Visit cmd object (cmd.executeOn object) := by
  cases hget : object.getD (.list []) with
  | list items =>
    cases items with
    | nil =>
      rw [executeOn_of_list hget]
      by_cases hop : cmd.opType = .blockLock
      · have hanswer : answer cmd.opType .noChange = .block := by rw [hop, answer]
        rw [if_pos hop, ← hanswer]
        exact .nothing hget
      · rw [if_neg hop]
        exact .nothing hget
    | cons x xs =>
      obtain rfl : object = some (.list (x :: xs)) := by
        cases object with
        | none => cases hget
        | some o => exact congrArg some hget
      by_cases hop : cmd.opType = .blockLock
      · rw [executeOn_of_list hget, if_pos hop]
        exact .sized rfl hop
      · exact visit_pop hop (hsize _ rfl)
  | other =>
    cases object with
    | none => cases hget
    | some o =>
      obtain rfl : o = .other := hget
      exact .refused rfl nofun

end BlockLPopCommand

/-! ## What a sub-command does to a session -/

/-- Nothing has been popped, and the command still runs. -/
structure Quiet (s : Session) : Prop where
  popping : s.popping = []
  effects : s.effects = []
  outcome : s.outcome = none

/-- Sub-command `i` has taken `es`. -/
structure Popped (isLeft : Bool) (s : Session) (i : Nat) (cmd : BlockLPopCommand)
    (es : List Bytes) : Prop where
  err : cmd.result.err = .ok
  ret : cmd.result.ret = es.length
  elements : cmd.result.elements = some es
  popping : s.popping = [i]
  effects : ∃ e, s.effects = [e] ∧ e.ptr = .sub i ∧ TakenFrom isLeft e.before e.after es
  outcome : s.outcome = none

/-- What a try has led to. -/
inductive Tried (isLeft : Bool) (count : Nat) (s : Session) (i : Nat)
    (cmd : BlockLPopCommand) : Prop
  | passed : Quiet s → cmd.result.err = .ok → cmd.result.ret = 0 →
      (count ≠ 0 → ¬s.FoundElements i) → Tried isLeft count s i cmd
  | refused : Quiet s → cmd.result.err = .wrongType → Tried isLeft count s i cmd
  | popped {es : List Bytes} : Popped isLeft s i cmd es → es ≠ [] → es.length ≤ count →
      s.FoundElements i → Tried isLeft count s i cmd

/-- Sub-command `i` keeps the lock on its key if it came upon anything. -/
def Held (s : Session) (key : Bytes) (i : Nat) : Prop :=
  ∀ object, s.found i = some object → object.getD (.list []) ≠ .list [] →
    key ∈ s.locked ∧ s.db key = object

section RunSub

variable {s : Session} {key : Bytes} {i : Nat} {cmd : BlockLPopCommand}

lemma foundElements_runSub_of_ne {j : Nat} (hne : j ≠ i) :
    (s.runSub key i cmd).FoundElements j ↔ s.FoundElements j := by
  cases hforward : s.cmd.hasForwarded <;>
    simp [Session.FoundElements, Session.runSub, hforward, hne]

lemma popping_runSub : (s.runSub key i cmd).popping =
    if cmd.opType = .popElement ∨ (cmd.executeOn (s.db key)).2.modifies = true
    then s.popping ++ [i] else s.popping := rfl

lemma effects_runSub : (s.runSub key i cmd).effects =
    if (cmd.executeOn (s.db key)).2.modifies then
      s.effects ++ [⟨.sub i, key, s.db key, cmd.applied (s.db key) (cmd.executeOn (s.db key)).2⟩]
    else s.effects := rfl

/-- A try changes its key only if it finds elements, and then takes as many as asked for. -/
lemma runSub_try (hquiet : Quiet s) (hforward : s.cmd.hasForwarded = false)
    (hop : cmd.opType = .noBlock ∨ cmd.opType = .popNoBlock)
    (hsize : ∀ items, s.db key = some (.list items) → items.length < 2 ^ 32) :
    Tried cmd.isLeft cmd.count (s.runSub key i cmd) i (cmd.executeOn (s.db key)).1 := by
  have hne : cmd.opType ≠ .popElement := by
    rcases hop with hop | hop <;> rw [hop] <;> nofun
  have hquietly : (answer cmd.opType .noChange).modifies = false := by
    rcases hop with hop | hop <;> rw [hop] <;> rfl
  have hpopping : (s.runSub key i cmd).popping = _ := popping_runSub
  have heffects : (s.runSub key i cmd).effects = _ := effects_runSub
  have houtcome : (s.runSub key i cmd).outcome = none := hquiet.outcome
  have hvisit := cmd.visit (s.db key) hsize
  rw [hquiet.popping] at hpopping
  rw [hquiet.effects] at heffects
  have hfound : (s.runSub key i cmd).FoundElements i ↔
      ∃ x xs, s.db key = some (.list (x :: xs)) := by
    simp [Session.FoundElements, Session.runSub, hforward]
  -- a result that changes nothing leaves the session quiet
  have hstill : (cmd.executeOn (s.db key)).2.modifies = false → Quiet (s.runSub key i cmd) := by
    intro hmodifies
    refine ⟨?_, ?_, houtcome⟩
    · rw [hpopping, hmodifies, if_neg (by simp [hne])]
    · rw [heffects, hmodifies, if_neg (by simp)]
  generalize cmd.executeOn (s.db key) = visited at hvisit hpopping heffects hstill
  cases hvisit with
  | nothing hnone =>
    refine .passed (hstill hquietly) rfl rfl fun _ helements => ?_
    obtain ⟨x, xs, hlist⟩ := hfound.mp helements
    rw [hlist] at hnone
    cases hnone
  | refused hforeign hother => exact .refused (hstill rfl) rfl
  | sized hlist hblock => rcases hop with hop | hop <;> rw [hop] at hblock <;> cases hblock
  | none hlist hpop hcount =>
    exact .passed (hstill hquietly) rfl rfl fun h => absurd hcount h
  | popped hlist hpop hlength hes hmodifies htaken =>
    rw [if_pos (.inr hmodifies)] at hpopping
    rw [if_pos hmodifies] at heffects
    refine .popped ⟨rfl, rfl, rfl, hpopping, ⟨_, heffects, rfl, htaken⟩, houtcome⟩ hes ?_
      (hfound.mpr ⟨_, _, hlist⟩)
    rw [hlength]
    exact Nat.min_le_left _ _

lemma runSub_popElement (hquiet : Quiet s) (hop : cmd.opType = .popElement) {x : Bytes}
    {xs : List Bytes} (hlist : s.db key = some (.list (x :: xs)))
    (hsize : (x :: xs).length < 2 ^ 32) :
    ∃ es, Popped cmd.isLeft (s.runSub key i cmd) i (cmd.executeOn (s.db key)).1 es ∧
      es.length = min cmd.count (x :: xs).length := by
  have hpopping : (s.runSub key i cmd).popping = _ := popping_runSub
  have heffects : (s.runSub key i cmd).effects = _ := effects_runSub
  have houtcome : (s.runSub key i cmd).outcome = none := hquiet.outcome
  have hpop : cmd.opType ≠ .blockLock := by rw [hop]; nofun
  have hvisit := visit_pop hpop hsize
  rw [hlist, hquiet.effects] at heffects
  rw [if_pos (.inl hop), hquiet.popping] at hpopping
  rw [hlist]
  generalize cmd.executeOn (some (.list (x :: xs))) = visited at hvisit heffects
  cases hvisit with
  | nothing hnone => cases hnone
  | refused hforeign hother => exact absurd (Option.some.inj hforeign).symm (hother _)
  | sized _ hblock => exact absurd hblock hpop
  | none hlist' _ hcount =>
    -- a count of zero: the answer is a write, and the commit removes nothing
    have hsame : cmd.applied (some (.list (x :: xs))) (answer cmd.opType .noChange) =
        some (.list (x :: xs)) := by
      rw [hop]
      change listOrNone (commitBlockPop _ _ _) = _
      rw [commitBlockPop_eq hsize, hcount]
      simp [listOrNone]
    have hwrites : (answer cmd.opType .noChange).modifies = true := by
      rw [hop]
      rfl
    rw [if_pos hwrites, hsame] at heffects
    refine ⟨[], ⟨rfl, rfl, rfl, hpopping, ⟨_, heffects, rfl, x :: xs, rfl, ?_⟩, houtcome⟩, ?_⟩
    · simp
    · rw [hcount, Nat.zero_min, length_nil]
  | popped hlist' _ hlength hes hmodifies htaken =>
    cases hlist'
    rw [if_pos hmodifies] at heffects
    exact ⟨_, ⟨rfl, rfl, rfl, hpopping, ⟨_, heffects, rfl, htaken⟩, houtcome⟩, hlength⟩

lemma runSub_blockLock (hquiet : Quiet s) (hop : cmd.opType = .blockLock) :
    Quiet (s.runSub key i cmd) ∧ (s.runSub key i cmd).db = s.db := by
  have hlooks : (cmd.executeOn (s.db key)).2.modifies = false := by
    unfold executeOn
    split
    · rw [if_pos hop]
      split <;> rfl
    · rfl
  refine ⟨⟨?_, ?_, hquiet.outcome⟩, ?_⟩
  · rw [popping_runSub, hlooks, hop, if_neg (by simp), hquiet.popping]
  · rw [effects_runSub, hlooks, if_neg (by simp), hquiet.effects]
  · exact if_neg (by rw [hlooks]; simp)

lemma mem_locked_runSub {k : Bytes} (hk : k ∈ s.locked) : k ∈ (s.runSub key i cmd).locked := by
  unfold Session.runSub
  dsimp only
  split
  · exact mem_cons_of_mem _ hk
  · exact hk

lemma mem_locked_of_blockLock (hop : cmd.opType = .blockLock)
    (hsome : (s.db key).getD (.list []) ≠ .list []) : key ∈ (s.runSub key i cmd).locked := by
  have hkeeps : (cmd.executeOn (s.db key)).2.keepsLock = true := by
    unfold executeOn
    split
    · next items hitems =>
      have hpos : 0 < items.length := length_pos_iff.2 fun hnil => hsome (hnil ▸ hitems)
      rw [if_pos hop, if_pos hpos]
      rfl
    · rfl
  unfold Session.runSub
  dsimp only
  rw [if_pos hkeeps]
  exact mem_cons_self

lemma held_runSub {k : Bytes} {j : Nat} (hquiet : Quiet s) (hop : cmd.opType = .blockLock)
    (hkey : j = i → k = key) (hheld : Held s k j) : Held (s.runSub key i cmd) k j := by
  have hdb : (s.runSub key i cmd).db = s.db := (runSub_blockLock hquiet hop).2
  intro object hfound hsome
  rw [hdb]
  by_cases hold : s.found j = some object
  · obtain ⟨hlocked, hobject⟩ := hheld object hold hsome
    exact ⟨mem_locked_runSub hlocked, hobject⟩
  · -- what was found is new, so this is the sub-command that ran
    unfold Session.runSub at hfound
    dsimp only at hfound
    split at hfound
    · exact absurd hfound hold
    · by_cases hj : j = i
      · subst hj
        rw [Function.update_self] at hfound
        cases hfound
        rw [hkey rfl]
        exact ⟨mem_locked_of_blockLock hop (hkey rfl ▸ hsome), rfl⟩
      · rw [Function.update_of_ne hj] at hfound
        exact absurd hfound hold

end RunSub

/-! ## What a parked sub-command reports -/

/-- The result of a parked sub-command is that of what it came upon last. -/
def Reports (cmd : BlockLPopCommand) : Option (Option Obj) → Prop
  | none => cmd.result.err = .nil
  | some object =>
    match object.getD (.list []) with
    | .list items => cmd.result.err = .ok ∧ cmd.result.ret = items.length
    | _ => cmd.result.err = .wrongType

variable {cmd : BlockLPopCommand}

lemma reports_executeOn (hop : cmd.opType = .blockLock)
    (object : Option Obj) : Reports (cmd.executeOn object).1 (some object) := by
  cases hget : object.getD (.list []) with
  | list items =>
    rw [executeOn_of_list hget, if_pos hop]
    simp [Reports, hget]
  | _ => simp [Reports, executeOn, hget]

lemma Reports.ready_iff {found : Option (Option Obj)} (hreports : Reports cmd found) :
    cmd.Ready ↔ ∃ object, found = some object ∧ object.getD (.list []) ≠ .list [] := by
  unfold BlockLPopCommand.Ready
  cases found with
  | none =>
    have herr : cmd.result.err = .nil := hreports
    simp [herr]
  | some object =>
    unfold Reports at hreports
    cases hget : object.getD (.list []) with
    | list items =>
      simp only [hget] at hreports
      simp [hreports.1, hreports.2, hget, length_pos_iff]
    | other =>
      simp only [hget] at hreports
      simp [hreports, hget]

lemma Reports.elements {found : Option (Option Obj)}
    (hreports : Reports cmd found) (hready : cmd.Ready) (hright : cmd.result.err ≠ .wrongType) :
    ∃ x xs, found = some (some (.list (x :: xs))) := by
  obtain ⟨object, rfl, hsome⟩ := hreports.ready_iff.1 hready
  cases object with
  | none => exact absurd rfl hsome
  | some o =>
    cases o with
    | list items =>
      cases items with
      | nil => exact absurd rfl hsome
      | cons x xs => exact ⟨x, xs, rfl⟩
    | _ => exact absurd hreports hright

/-! ## The pointers after `ForwardResult` -/

namespace BLMPopCommand

lemma forwardLoop_some (pos i : Nat) (cmds : List BlockLPopCommand) :
    forwardLoop (some pos) i cmds = (some pos, cmds.map fun _ => .discard) := by
  induction cmds generalizing i with
  | nil => rfl
  | cons cmd cmds ih => rw [forwardLoop, if_neg (by simp), ih, map_cons]

/-- The first sub-command that is ready is kept and all others are discarded. -/
lemma forwardLoop_none (i : Nat) (cmds : List BlockLPopCommand) :
    ((∀ cmd ∈ cmds, ¬cmd.Ready) ∧ forwardLoop none i cmds = (none, cmds.map fun _ => .discard)) ∨
    ∃ k cmd, cmds[k]? = some cmd ∧ cmd.Ready ∧ (∀ j < k, ∀ c, cmds[j]? = some c → ¬c.Ready) ∧
      (forwardLoop none i cmds).1 = some (i + k) ∧
      (forwardLoop none i cmds).2[k]? = some (.sub (i + k)) ∧
      ∀ j p, (forwardLoop none i cmds).2[j]? = some p → p ≠ .discard → j = k := by
  induction cmds generalizing i with
  | nil => exact .inl ⟨nofun, rfl⟩
  | cons cmd cmds ih =>
    by_cases hready : cmd.Ready
    · right
      refine ⟨0, cmd, rfl, hready, nofun, ?_⟩
      rw [forwardLoop, if_pos ⟨hready, rfl⟩, forwardLoop_some]
      refine ⟨rfl, rfl, ?_⟩
      intro j p hp hne
      cases j with
      | zero => rfl
      | succ j =>
        rw [List.getElem?_cons_succ, List.getElem?_map, Option.map_eq_some_iff] at hp
        obtain ⟨-, -, rfl⟩ := hp
        exact absurd rfl hne
    · rw [forwardLoop, if_neg fun h => hready h.1]
      rcases ih (i + 1) with ⟨hnone, hloop⟩ | ⟨k, first, hk, hfirst, hbefore, hpos, hown, hothers⟩
      · left
        rw [hloop]
        refine ⟨?_, rfl⟩
        intro c hc
        rcases mem_cons.1 hc with rfl | hc
        · exact hready
        · exact hnone c hc
      · right
        have hstep : i + 1 + k = i + (k + 1) := by omega
        refine ⟨k + 1, first, hk, hfirst, ?_, ?_, ?_, ?_⟩
        · intro j hj c hc
          cases j with
          | zero =>
            cases hc
            exact hready
          | succ j => exact hbefore j (by omega) c hc
        · rw [hpos, hstep]
        · rw [List.getElem?_cons_succ, hown, hstep]
        · intro j p hp hne
          cases j with
          | zero => exact absurd (Option.some.inj hp).symm hne
          | succ j => rw [hothers j p hp hne]

end BLMPopCommand

/-- Sub-command `p` was chosen: it found elements first, and the others are discarded. -/
structure Won (s : Session) (ptrs : List Pointer) (p : Nat) : Prop where
  first : s.FirstFound p
  own : ptrs[p]? = some (.sub p)
  others : ∀ i q, ptrs[i]? = some q → q ≠ .discard → i = p

lemma Session.FoundElements.not_parked {s : Session} {i : Nat} (hfound : s.FoundElements i) :
    ¬s.Parked i := by
  obtain ⟨x, xs, hfound⟩ := hfound
  intro hparked
  cases hparked _ hfound

/-! ## When the promise is kept -/

section Serves

variable {isLeft autoCommit : Bool} {s : Session}

/-- All pointers but that of a winner lead to the discard command. -/
def Decided (s : Session) : Prop :=
  s.cmd.hasForwarded = true → ∃ winner : Option Nat,
    ∀ i p, s.cmd.blockPtrs[i]? = some p → p ≠ .discard → winner = some i ∧ ¬s.Parked i

lemma decided_of_not_forwarded (hforward : s.cmd.hasForwarded = false) : Decided s :=
  fun htrue => nomatch hforward.symm.trans htrue

lemma Won.decided {p : Nat} (hwon : Won s s.cmd.blockPtrs p) : Decided s := by
  refine fun _ => ⟨some p, fun i q hq hne => ?_⟩
  obtain rfl := hwon.others i q hq hne
  exact ⟨rfl, hwon.first.1.not_parked⟩

lemma serves_of_idle (hpopping : s.popping = []) (heffects : s.effects = [])
    (hdecided : Decided s)
    (hreply : ∀ reply, s.outcome = some reply → ∃ out, reply = some out ∧ s.cmd.listed out = []) :
    Serves isLeft s where
  once := by rw [hpopping]; exact Nat.zero_le 1
  first i hi := by rw [hpopping] at hi; cases hi
  discarded hforward := by
    obtain ⟨winner, hwinner⟩ := hdecided hforward
    refine ⟨winner, hwinner, fun i hi => ?_⟩
    rw [hpopping] at hi
    cases hi
  listed reply houtcome := by
    obtain ⟨out, hout, hnil⟩ := hreply reply houtcome
    refine ⟨out, hout, ?_⟩
    rw [heffects, hnil]
    rfl
  untouched _ i _ e he := by rw [heffects] at he; cases he
  expired _ _ := heffects

lemma Quiet.serves (hquiet : Quiet s) (hdecided : Decided s) : Serves isLeft s := by
  refine serves_of_idle hquiet.popping hquiet.effects hdecided fun reply houtcome => ?_
  rw [hquiet.outcome] at houtcome
  cases houtcome

lemma Quiet.serves_finish (out : Output) (hquiet : Quiet s) (hdecided : Decided s)
    (hout : s.cmd.outputResult = some out) (hnil : s.cmd.listed out = []) :
    Serves isLeft (s.finish autoCommit) := by
  have heffects : (s.finish autoCommit).effects = [] := by
    change (if _ then s.effects else []) = []
    rw [hquiet.effects, ite_self]
  refine serves_of_idle hquiet.popping heffects hdecided fun reply houtcome => ?_
  obtain rfl : some out = reply := hout ▸ Option.some.inj houtcome
  exact ⟨out, rfl, hnil⟩

lemma removed_of_filter {effects : List Effect} {e : Effect} {es : List Bytes}
    (hfilter : effects.filter Effect.isPop = [e]) (htaken : TakenFrom isLeft e.before e.after es) :
    Removed isLeft effects es := by
  unfold Removed
  rw [hfilter]
  exact htaken

lemma serves_of_popped {i : Nat} (hpopping : s.popping = [i])
    (hown : ∀ e ∈ s.effects, e.ptr = .sub i ∨ e.ptr = .push) (hfirst : s.FirstFound i)
    (hwon : s.cmd.hasForwarded = true → Won s s.cmd.blockPtrs i)
    (hreply : ∀ reply, s.outcome = some reply →
      ∃ out, reply = some out ∧ Removed isLeft s.effects (s.cmd.listed out)) :
    Serves isLeft s where
  once := by rw [hpopping]; exact Nat.le_refl 1
  first j hj := by
    rw [hpopping, mem_singleton] at hj
    rwa [hj]
  discarded hforward := by
    refine ⟨some i, fun j q hq hne => ?_, fun j hj => ?_⟩
    · obtain rfl := (hwon hforward).others j q hq hne
      exact ⟨rfl, hfirst.1.not_parked⟩
    · rw [hpopping, mem_singleton] at hj
      rw [hj]
  listed := hreply
  untouched hforward j hdiscard e he := by
    rcases hown e he with hptr | hptr
    · rw [hptr]
      intro heq
      obtain rfl := Pointer.sub.inj heq
      rw [(hwon hforward).own] at hdiscard
      cases hdiscard
    · rw [hptr]
      nofun
  expired hforward hall := by
    cases hall _ (mem_of_getElem? (hwon hforward).own)

lemma Popped.serves_finish {i : Nat} {cmd : BlockLPopCommand} {es : List Bytes} {out : Output}
    (hpopped : Popped isLeft s i cmd es) (hfirst : s.FirstFound i)
    (hwon : s.cmd.hasForwarded = true → Won s s.cmd.blockPtrs i)
    (hpassed : s.cmd.isPassed = false → es = []) (hout : s.cmd.outputResult = some out)
    (hlisted : s.cmd.listed out = es) : Serves isLeft (s.finish autoCommit) := by
  obtain ⟨e, heffects, hptr, htaken⟩ := hpopped.effects
  have hkept : (s.finish autoCommit).effects =
      if !autoCommit || s.cmd.isPassed then [e] else [] := by
    rw [← heffects]
    rfl
  refine serves_of_popped hpopped.popping ?_ hfirst ?_ fun reply houtcome => ?_
  · intro e' he'
    rw [hkept] at he'
    split at he'
    · rw [mem_singleton] at he'
      exact .inl (he' ▸ hptr)
    · cases he'
  · exact fun hforward => ⟨hfirst, (hwon hforward).own, (hwon hforward).others⟩
  · obtain rfl : some out = reply := hout ▸ Option.some.inj houtcome
    refine ⟨out, rfl, ?_⟩
    rw [hkept]
    change Removed isLeft _ (s.cmd.listed out)
    rw [hlisted]
    split
    · exact removed_of_filter (by simp [Effect.isPop, hptr]) htaken
    · next hdropped =>
      rw [Bool.not_eq_true, Bool.or_eq_false_iff] at hdropped
      rw [hpassed hdropped.2]
      rfl

end Serves

/-! ## The steps of the driver -/

lemma BlockLPopCommand.fields_executeOn (cmd : BlockLPopCommand) (object : Option Obj) :
    (cmd.executeOn object).1.isLeft = cmd.isLeft ∧ (cmd.executeOn object).1.count = cmd.count ∧
      (cmd.executeOn object).1.opType = cmd.opType := by
  unfold executeOn
  split
  · split <;> exact ⟨rfl, rfl, rfl⟩
  · exact ⟨rfl, rfl, rfl⟩

lemma Session.execute_of_sub {s : Session} {j i : Nat} {key : Bytes}
    (hptr : s.cmd.submitted[j]? = some (key, .sub i)) (hsub : s.cmd.sub i = some cmd) :
    s.execute j = s.runSub key i cmd := by
  rw [execute, hptr]
  dsimp only
  rw [hsub]

section Driver

variable {isLeft autoCommit : Bool} {s : Session}

variable {cmd : BlockingCommand}

lemma Session.advance_of_more (hlast : s.cmd.isLastStep = false)
    (hmiddle : s.cmd.handleMiddleResult = some (cmd, true))
    (hsteps : cmd.incrSteps.isBlockingStep = false) :
    s.advance autoCommit = { s with cmd := cmd.incrSteps, executed := false } := by
  rw [advance, hlast, hmiddle]
  simp [hsteps]

lemma Session.advance_of_block (hlast : s.cmd.isLastStep = false)
    (hmiddle : s.cmd.handleMiddleResult = some (cmd, true))
    (hblocks : cmd.incrSteps.isBlockingStep = true) :
    s.advance autoCommit =
      { s with cmd := cmd.incrSteps, executed := false, found := fun _ => none } := by
  rw [advance, hlast, hmiddle]
  simp [hblocks]

lemma Session.advance_of_stop (hlast : s.cmd.isLastStep = false)
    (hmiddle : s.cmd.handleMiddleResult = some (cmd, false)) :
    s.advance autoCommit = { s with cmd := cmd }.finish autoCommit := by
  rw [advance, hlast, hmiddle]
  rfl

lemma Session.advance_of_last (hlast : s.cmd.isLastStep = true) :
    s.advance autoCommit = s.finish autoCommit := by
  rw [advance, if_pos hlast]

lemma Session.allowed_execute {j : Nat} (hallowed : s.allowed (.execute j) = true) :
    s.outcome = none ∧ j < s.cmd.submitted.length := by
  simp_all [allowed]

lemma Session.allowed_forward (hallowed : s.allowed .forward = true) :
    s.outcome = none ∧ s.cmd.isBlockingStep = true ∧ s.cmd.hasForwarded = false := by
  simp_all [allowed]

lemma Session.allowed_advance (hallowed : s.allowed .advance = true) :
    s.outcome = none ∧ (s.cmd.isBlockingStep = true → s.cmd.hasForwarded = true) := by
  cases hblocks : s.cmd.isBlockingStep <;> simp_all [allowed]

lemma Session.allowed_idle {e : Event} (hblocks : s.cmd.isBlockingStep = false)
    (hexec : s.executed = false) (hallowed : s.allowed e = true) :
    (∃ k object, e = .others k object) ∨ ∃ j < s.cmd.submitted.length, e = .execute j := by
  cases e <;> simp_all [allowed]

lemma Session.allowed_done {e : Event} (hblocks : s.cmd.isBlockingStep = false)
    (hexec : s.executed = true) (hallowed : s.allowed e = true) :
    (∃ k object, e = .others k object) ∨ e = .advance := by
  cases e <;> simp_all [allowed]

lemma Session.outcome_finish_ne_none : (s.finish autoCommit).outcome ≠ none := nofun

variable {cmd : BlockLPopCommand} {i : Nat}

lemma found_runSub_of_parked {key : Bytes} (hforward : s.cmd.hasForwarded = false) :
    (s.runSub key i cmd).found = Function.update s.found i (some (s.db key)) := by
  change (if s.cmd.hasForwarded then s.found else _) = _
  rw [if_neg (by rw [hforward]; simp)]

lemma found_runSub_of_forwarded {key : Bytes}
    (hforward : s.cmd.hasForwarded = true) : (s.runSub key i cmd).found = s.found := by
  change (if s.cmd.hasForwarded then s.found else _) = s.found
  rw [if_pos hforward]

lemma firstFound_congr {s' : Session} (hfound : s'.found = s.found) {p : Nat} :
    s'.FirstFound p ↔ s.FirstFound p := by
  unfold Session.FirstFound Session.FoundElements
  rw [hfound]

lemma Held.others {key k : Bytes} {object : Option Obj} (hheld : Held s key i)
    (hfree : k ∉ s.locked) : Held (s.step autoCommit (.others k object)) key i := by
  intro o hfound hsome
  obtain ⟨hlocked, hobject⟩ := hheld o hfound hsome
  refine ⟨hlocked, ?_⟩
  change Function.update s.db k object key = o
  rw [Function.update_of_ne (ne_of_mem_of_not_mem hlocked hfree), hobject]

lemma size_of_favourable {j : Nat} (hfav : favourable autoCommit s (.execute j) = true)
    {key : Bytes} (hptr : s.cmd.submitted[j]? = some (key, .sub i)) {items : List Bytes}
    (hitems : s.db key = some (.list items)) : items.length < 2 ^ 32 := by
  simp only [favourable, hptr, hitems] at hfav
  exact of_decide_eq_true hfav

lemma Tried.others {count i : Nat} {k : Bytes} {object : Option Obj}
    (htried : Tried isLeft count s i cmd) :
    Tried isLeft count (s.step autoCommit (.others k object)) i cmd := by
  cases htried with
  | passed hquiet herr hret hfound =>
    exact .passed ⟨hquiet.1, hquiet.2, hquiet.3⟩ herr hret hfound
  | refused hquiet herr => exact .refused ⟨hquiet.1, hquiet.2, hquiet.3⟩ herr
  | popped hpopped hes hle hfound =>
    exact .popped ⟨hpopped.1, hpopped.2, hpopped.3, hpopped.4, hpopped.5, hpopped.6⟩ hes hle hfound

lemma Popped.serves {es : List Bytes}
    (hpopped : Popped isLeft s i cmd es) (hfirst : s.FirstFound i)
    (hwon : s.cmd.hasForwarded = true → Won s s.cmd.blockPtrs i) : Serves isLeft s := by
  obtain ⟨e, heffects, hptr, -⟩ := hpopped.effects
  refine serves_of_popped hpopped.popping ?_ hfirst hwon ?_
  · rw [heffects]
    exact fun e' he' => .inl (mem_singleton.1 he' ▸ hptr)
  · rw [hpopped.outcome]
    nofun

lemma Tried.serves {count i : Nat}
    (htried : Tried isLeft count s i cmd) (hforward : s.cmd.hasForwarded = false)
    (hpast : count ≠ 0 → ∀ j < i, ¬s.FoundElements j) : Serves isLeft s := by
  have hundecided := decided_of_not_forwarded hforward
  cases htried with
  | passed hquiet herr hret hfound => exact hquiet.serves hundecided
  | refused hquiet herr => exact hquiet.serves hundecided
  | popped hpopped hes hle hfound =>
    have hcount : count ≠ 0 := by
      have := length_pos_iff.2 hes
      omega
    refine hpopped.serves ⟨hfound, hpast hcount⟩ ?_
    rw [hforward]
    nofun

end Driver

end EloqKV.Blocking
