/-
  Runs of BLPOP, BRPOP and BLMPOP.

  A run is followed through the phases of a command; one event leads to the same or the next one.
-/
import EloqKV.Transactions.BlockingSteps

open List Option

namespace EloqKV.Blocking

open BlockingCommand BLMPopCommand Session

open PopReplies (Output OutputEvent popEnd)

/-! ## Phases -/

structure BLMPopCommand.Shape (keys : List Bytes) (isLeft : Bool) (count : Nat) (isMpop : Bool)
    (c : BLMPopCommand) : Prop where
  vctKey : c.vctKey = keys
  length : c.vctCmd.length = keys.length
  alike : ∀ cmd ∈ c.vctCmd, cmd.isLeft = isLeft ∧ cmd.count = count
  isMpop : c.isMpop = isMpop

structure BLMPopCommand.Trial (c : BLMPopCommand) : Prop where
  currStep : c.currStep < c.vctKey.length
  posCmd : c.posCmd = none
  hasForwarded : c.hasForwarded = false
  popPtrs : c.popPtrs = []
  ops : ∀ cmd ∈ c.vctCmd, cmd.opType = .noBlock ∨ cmd.opType = .popNoBlock

inductive MPopPhase (keys : List Bytes) (isLeft : Bool) (count : Nat) (isMpop : Bool)
    (s : Session) : Prop
  | trying (c : BLMPopCommand) : s.cmd = .blmpop c → c.Shape keys isLeft count isMpop → c.Trial →
      Quiet s → s.executed = false → (count ≠ 0 → ∀ j < c.currStep, ¬s.FoundElements j) →
      MPopPhase keys isLeft count isMpop s
  | tried (c : BLMPopCommand) (cmd : BlockLPopCommand) : s.cmd = .blmpop c →
      c.Shape keys isLeft count isMpop → c.Trial → s.executed = true →
      (count ≠ 0 → ∀ j < c.currStep, ¬s.FoundElements j) → c.vctCmd[c.currStep]? = some cmd →
      Tried isLeft count s c.currStep cmd → MPopPhase keys isLeft count isMpop s
  | waiting (c : BLMPopCommand) : s.cmd = .blmpop c → c.Shape keys isLeft count isMpop →
      c.currStep = keys.length → c.posCmd = none → c.hasForwarded = false → c.popPtrs = [] →
      Quiet s →
      (∀ i cmd, c.vctCmd[i]? = some cmd → cmd.opType = .blockLock ∧ Reports cmd (s.found i)) →
      (∀ i key, keys[i]? = some key → Held s key i) → MPopPhase keys isLeft count isMpop s
  | expired (c : BLMPopCommand) : s.cmd = .blmpop c → c.Shape keys isLeft count isMpop →
      c.currStep = keys.length → c.posCmd = none → c.hasForwarded = true → Quiet s →
      (∀ p ∈ c.blockPtrs, p = .discard) → (∀ cmd ∈ c.vctCmd, cmd.opType = .blockLock) →
      MPopPhase keys isLeft count isMpop s
  | won (c : BLMPopCommand) (p : Nat) : s.cmd = .blmpop c → c.Shape keys isLeft count isMpop →
      c.currStep = keys.length → c.posCmd = some p → c.hasForwarded = true → c.popPtrs = [] →
      Quiet s → Won s c.blockPtrs p → (∀ cmd ∈ c.vctCmd, cmd.opType = .blockLock) →
      (∀ i key, keys[i]? = some key → Held s key i) → MPopPhase keys isLeft count isMpop s
  | chosen (c : BLMPopCommand) (p : Nat) : s.cmd = .blmpop c → c.Shape keys isLeft count isMpop →
      c.currStep = keys.length + 1 → c.posCmd = some p → c.hasForwarded = true →
      c.popPtrs = [p] → Quiet s → s.executed = false → Won s c.blockPtrs p →
      (∀ cmd, c.vctCmd[p]? = some cmd → cmd.opType = .popElement) →
      (∀ key, keys[p]? = some key → Held s key p) → MPopPhase keys isLeft count isMpop s
  | done (c : BLMPopCommand) (p : Nat) (cmd : BlockLPopCommand) (es : List Bytes) :
      s.cmd = .blmpop c → c.Shape keys isLeft count isMpop → c.currStep = keys.length + 1 →
      c.posCmd = some p → c.hasForwarded = true → s.executed = true → Won s c.blockPtrs p →
      c.vctCmd[p]? = some cmd → Popped isLeft s p cmd es → (count = 1 → es.length = 1) →
      MPopPhase keys isLeft count isMpop s
  | finished : Serves isLeft s → s.outcome ≠ none → MPopPhase keys isLeft count isMpop s

namespace BLMPopCommand

lemma getElem?_submitted {c : BLMPopCommand} {j : Nat} (hj : j < c.submitted.length) :
    ∃ i key, c.submitted[j]? = some (key, .sub i) ∧ c.vctKey[i]? = some key ∧
      (c.currStep < c.vctKey.length → i = c.currStep) ∧
      (c.vctKey.length < c.currStep → i ∈ c.popPtrs) := by
  obtain ⟨⟨key, ptr⟩, hptr⟩ : ∃ q, c.submitted[j]? = some q := ⟨_, getElem?_eq_getElem hj⟩
  have hmem := mem_of_getElem? hptr
  rw [hptr]
  unfold submitted at hmem
  split at hmem
  · next hlt =>
    simp only [mem_toList, map_eq_some_iff, Prod.mk.injEq] at hmem
    obtain ⟨k, hk, rfl, rfl⟩ := hmem
    exact ⟨_, _, rfl, hk, fun _ => rfl, fun h => by omega⟩
  · next hnot =>
    split at hmem
    · next heq =>
      obtain ⟨⟨k, i⟩, hk, hpair⟩ := mem_map.1 hmem
      cases hpair
      rw [mem_zipIdx_iff_getElem?] at hk
      exact ⟨_, _, rfl, hk, fun h => by omega, fun h => by omega⟩
    · next hne =>
      obtain ⟨i, hi, hpair⟩ := mem_filterMap.1 hmem
      obtain ⟨k, hk, hpair⟩ := map_eq_some_iff.1 hpair
      cases hpair
      exact ⟨_, _, rfl, hk, fun h => by omega, fun _ => hi⟩

end BLMPopCommand

section MPop

variable {keys : List Bytes} {isLeft : Bool} {count : Nat} {isMpop autoCommit : Bool} {s : Session}

variable {c : BLMPopCommand} {cmd : BlockLPopCommand}

lemma BLMPopCommand.Shape.setSub {i : Nat}
    (hshape : c.Shape keys isLeft count isMpop) (hsub : c.vctCmd[i]? = some cmd)
    (object : Option Obj) :
    { c with vctCmd := c.vctCmd.set i (cmd.executeOn object).1 }.Shape
      keys isLeft count isMpop where
  vctKey := hshape.vctKey
  length := by rw [length_set, hshape.length]
  alike cmd' hcmd' := by
    rcases mem_or_eq_of_mem_set hcmd' with hold | rfl
    · exact hshape.alike cmd' hold
    · rw [(cmd.fields_executeOn object).1, (cmd.fields_executeOn object).2.1]
      exact hshape.alike cmd (mem_of_getElem? hsub)
  isMpop := hshape.isMpop

lemma getElem?_setSub {cmds : List BlockLPopCommand} {cmd cmd' : BlockLPopCommand} {i k : Nat}
    (hsub : cmds[i]? = some cmd) (object : Option Obj)
    (hk : (cmds.set i (cmd.executeOn object).1)[k]? = some cmd') :
    (k = i ∧ cmd' = (cmd.executeOn object).1) ∨ (k ≠ i ∧ cmds[k]? = some cmd') := by
  by_cases hki : k = i
  · subst hki
    rw [List.getElem?_set_self (List.getElem?_eq_some_iff.1 hsub).1] at hk
    exact .inl ⟨rfl, (Option.some.inj hk).symm⟩
  · rw [getElem?_set_ne (Ne.symm hki)] at hk
    exact .inr ⟨hki, hk⟩

lemma ops_setSub (p : BlockOperation → Prop) {i : Nat} (hops : ∀ cmd ∈ c.vctCmd, p cmd.opType)
    (hsub : c.vctCmd[i]? = some cmd) (object : Option Obj) :
    ∀ cmd' ∈ c.vctCmd.set i (cmd.executeOn object).1, p cmd'.opType := by
  intro cmd' hcmd'
  rcases mem_or_eq_of_mem_set hcmd' with hold | rfl
  · exact hops cmd' hold
  · rw [(cmd.fields_executeOn _).2.2]
    exact hops cmd (mem_of_getElem? hsub)

namespace BLMPopCommand

lemma outputResult_of_popped {c : BLMPopCommand} {p : Nat} {cmd : BlockLPopCommand}
    {es : List Bytes} (hpos : c.posCmd = some p) (hsub : c.vctCmd[p]? = some cmd)
    (hkey : p < c.vctKey.length) (herr : cmd.result.err = .ok)
    (helements : cmd.result.elements = some es) (hone : c.isMpop = false → es.length = 1) :
    ∃ out, c.outputResult = some out ∧ (blmpop c).listed out = es := by
  unfold outputResult
  simp only [hpos, hsub, getElem?_eq_getElem hkey, herr, helements, ne_eq, not_true_eq_false,
    if_false]
  by_cases hmpop : c.isMpop = true
  · rw [if_pos hmpop]
    simp [listed, filterMap_append, filterMap_map]
  · obtain ⟨e, rfl⟩ := length_eq_one_iff.1 (hone (Bool.eq_false_iff.2 hmpop))
    rw [if_neg hmpop]
    exact ⟨_, rfl, rfl⟩

lemma Shape.toBlockLock {c : BLMPopCommand} (hshape : c.Shape keys isLeft count isMpop) :
    { c with vctCmd := c.vctCmd.map toBlockLock, currStep := c.currStep + 1 }.Shape
      keys isLeft count isMpop where
  vctKey := hshape.vctKey
  length := by rw [length_map, hshape.length]
  alike cmd hcmd := by
    obtain ⟨old, hold, rfl⟩ := mem_map.1 hcmd
    exact hshape.alike old hold
  isMpop := hshape.isMpop

end BLMPopCommand

lemma right_of_favourable (hcmd : s.cmd = .blmpop c)
    (hfav : favourable autoCommit s .forward = true) {i : Nat}
    (hsub : c.vctCmd[i]? = some cmd) (hready : cmd.Ready)
    (hbefore : ∀ j < i, ∀ cmd' : BlockLPopCommand, c.vctCmd[j]? = some cmd' → ¬cmd'.Ready) :
    cmd.result.err ≠ .wrongType := by
  obtain ⟨hi, hget⟩ := List.getElem?_eq_some_iff.1 hsub
  have hfind : (c.vctCmd.find? fun cmd => cmd.Ready) = some cmd := by
    refine find?_eq_some_iff_getElem.2 ⟨decide_eq_true hready, i, hi, hget, fun j hj => ?_⟩
    have hj' := hbefore j hj _ (getElem?_eq_getElem (Nat.lt_trans hj hi))
    rw [decide_eq_false hj']
    rfl
  simp only [favourable, hcmd, hfind, all_some] at hfav
  exact of_decide_eq_true hfav

/-! ## Events -/

section Events

variable {e : Event} {j p : Nat} (hcmd : s.cmd = .blmpop c)
  (hshape : c.Shape keys isLeft count isMpop)

include hcmd hshape

lemma isBlockingStep_blmpop : s.cmd.isBlockingStep = decide (c.currStep = keys.length) := by
  rw [hcmd, ← hshape.vctKey]
  rfl

lemma execute_sub (hj : j < s.cmd.submitted.length) :
    ∃ i key cmd, s.cmd.submitted[j]? = some (key, .sub i) ∧ keys[i]? = some key ∧
      c.vctCmd[i]? = some cmd ∧ s.execute j = s.runSub key i cmd ∧
      (s.execute j).cmd = .blmpop { c with vctCmd := c.vctCmd.set i (cmd.executeOn (s.db key)).1 } ∧
      (c.currStep < keys.length → i = c.currStep) ∧ (keys.length < c.currStep → i ∈ c.popPtrs) := by
  rw [hcmd] at hj
  obtain ⟨i, key, hptr, hkey, htry, hpop⟩ := getElem?_submitted hj
  rw [hshape.vctKey] at hkey htry hpop
  obtain ⟨cmd, hsub⟩ : ∃ cmd, c.vctCmd[i]? = some cmd := by
    refine ⟨_, getElem?_eq_getElem ?_⟩
    rw [hshape.length]
    exact (List.getElem?_eq_some_iff.1 hkey).1
  have hptr : s.cmd.submitted[j]? = some (key, .sub i) := by
    rw [hcmd]
    exact hptr
  have hexec : s.execute j = s.runSub key i cmd :=
    execute_of_sub hptr (by rw [hcmd]; exact hsub)
  refine ⟨i, key, cmd, hptr, hkey, hsub, hexec, ?_, htry, hpop⟩
  rw [hexec]
  change s.cmd.setSub _ _ = _
  rw [hcmd]
  rfl

section Trying

variable (htrial : c.Trial) (hquiet : Quiet s) (hexec : s.executed = false)
  (hpast : count ≠ 0 → ∀ j < c.currStep, ¬s.FoundElements j)

include htrial hquiet hexec hpast

omit hexec in
lemma MPopPhase.execute_trying (hj : j < s.cmd.submitted.length)
    (hfav : favourable autoCommit s (.execute j) = true) :
    MPopPhase keys isLeft count isMpop (s.execute j) := by
  obtain ⟨i, key, cmd, hptr, -, hsub, hrun, hcmd', hi, -⟩ := execute_sub hcmd hshape hj
  obtain rfl := hi (hshape.vctKey ▸ htrial.currStep)
  have hmem := mem_of_getElem? hsub
  have htry := runSub_try (i := c.currStep) hquiet (by rw [hcmd]; exact htrial.hasForwarded)
    (htrial.ops cmd hmem) fun items hitems => size_of_favourable hfav hptr hitems
  rw [← hrun, (hshape.alike cmd hmem).1, (hshape.alike cmd hmem).2] at htry
  refine .tried _ _ hcmd' (hshape.setSub hsub _) ⟨htrial.currStep, htrial.posCmd,
    htrial.hasForwarded, htrial.popPtrs,
    ops_setSub (fun op => op = .noBlock ∨ op = .popNoBlock) htrial.ops hsub _⟩
    (by rw [hrun]; rfl) ?_
    (List.getElem?_set_self (List.getElem?_eq_some_iff.1 hsub).1) htry
  intro hcount k hk
  rw [hrun, foundElements_runSub_of_ne (Nat.ne_of_lt hk)]
  exact hpast hcount k hk

lemma MPopPhase.step_trying (hallowed : s.allowed e = true)
    (hfav : favourable autoCommit s e = true) :
    MPopPhase keys isLeft count isMpop (s.step autoCommit e) := by
  have hblocks := isBlockingStep_blmpop hcmd hshape
  rw [decide_eq_false (hshape.vctKey ▸ Nat.ne_of_lt htrial.currStep)] at hblocks
  rcases allowed_idle hblocks hexec hallowed with ⟨k, object, rfl⟩ | ⟨j, hj, rfl⟩
  · exact .trying c hcmd hshape htrial ⟨hquiet.1, hquiet.2, hquiet.3⟩ hexec hpast
  · exact execute_trying hcmd hshape htrial hquiet hpast hj hfav

end Trying

section Tried

variable (htrial : c.Trial) (hexec : s.executed = true)
  (hpast : count ≠ 0 → ∀ j < c.currStep, ¬s.FoundElements j)
  (hsub : c.vctCmd[c.currStep]? = some cmd) (htried : Tried isLeft count s c.currStep cmd)

include htrial hexec hpast hsub htried

omit hexec in
/-- After the try of a key the command ends with what it found or goes on to the next one; behind
the last it waits, or ends with nothing in MULTI. -/
lemma MPopPhase.advance_tried (hone : isMpop = false → count = 1) :
    MPopPhase keys isLeft count isMpop (s.advance autoCommit) := by
  have hlast : s.cmd.isLastStep = false := by
    rw [hcmd]
    exact decide_eq_false (by have := htrial.currStep; omega)
  have hmiddle : s.cmd.handleMiddleResult = c.handleMiddleResult.map (Prod.map .blmpop id) := by
    rw [hcmd]
    rfl
  rw [BLMPopCommand.handleMiddleResult, if_pos htrial.currStep, hsub] at hmiddle
  -- the two ways to stop here set `pos_cmd_`
  have hstop : (cmd.result.err ≠ .ok ∨ 0 < cmd.result.ret) → s.advance autoCommit =
        { s with cmd := .blmpop { c with posCmd := some c.currStep } }.finish autoCommit := by
    intro hend
    refine Session.advance_of_stop hlast ?_
    rw [hmiddle, map_some, if_pos hend]
    rfl
  cases htried with
  | passed hquiet herr hret hfound =>
    rw [map_some, if_neg (by rw [herr, hret]; simp)] at hmiddle
    by_cases hend : c.currStep = c.vctKey.length - 1
    · rw [if_pos hend] at hmiddle
      by_cases hmulti : c.tsExpired = 0
      · rw [if_pos hmulti] at hmiddle
        rw [Session.advance_of_stop hlast hmiddle]
        have hquiet' : Quiet { s with cmd := .blmpop c } := ⟨hquiet.1, hquiet.2, hquiet.3⟩
        refine .finished (hquiet'.serves_finish [.nil]
          (decided_of_not_forwarded htrial.hasForwarded) ?_ rfl) Session.outcome_finish_ne_none
        change c.outputResult = some [.nil]
        rw [BLMPopCommand.outputResult, htrial.posCmd]
      · rw [if_neg hmulti] at hmiddle
        have hlength : c.currStep + 1 = c.vctKey.length := by
          have := htrial.currStep
          omega
        rw [Session.advance_of_block hlast hmiddle (decide_eq_true hlength)]
        refine .waiting _ rfl hshape.toBlockLock (hshape.vctKey ▸ hlength) htrial.posCmd
          htrial.hasForwarded htrial.popPtrs ⟨hquiet.1, hquiet.2, hquiet.3⟩ ?_ nofun
        intro i cmd' hcmd'
        rw [List.getElem?_map] at hcmd'
        obtain ⟨old, -, rfl⟩ := map_eq_some_iff.1 hcmd'
        exact ⟨rfl, rfl⟩
    · rw [if_neg hend] at hmiddle
      have hlt := htrial.currStep
      have hstays : ¬c.currStep + 1 = c.vctKey.length := by omega
      rw [Session.advance_of_more hlast hmiddle (decide_eq_false hstays)]
      refine .trying { c with currStep := c.currStep + 1 } rfl
        ⟨hshape.1, hshape.2, hshape.3, hshape.4⟩
        ⟨(by omega : c.currStep + 1 < c.vctKey.length), htrial.2, htrial.3, htrial.4, htrial.5⟩
        ⟨hquiet.1, hquiet.2, hquiet.3⟩ rfl ?_
      intro hcount j hj
      by_cases hjc : j = c.currStep
      · exact hjc ▸ hfound hcount
      · have hj' : j < c.currStep := by
          change j < c.currStep + 1 at hj
          omega
        exact hpast hcount j hj'
  | refused hquiet herr =>
    rw [hstop (.inl (by rw [herr]; nofun))]
    have hquiet' : Quiet { s with cmd := .blmpop { c with posCmd := some c.currStep } } :=
      ⟨hquiet.1, hquiet.2, hquiet.3⟩
    refine .finished (hquiet'.serves_finish [.error RdCode.wrongType.message]
      (decided_of_not_forwarded htrial.hasForwarded) ?_ rfl) Session.outcome_finish_ne_none
    change BLMPopCommand.outputResult { c with posCmd := some c.currStep } = _
    rw [BLMPopCommand.outputResult]
    simp [hsub, List.getElem?_eq_getElem htrial.currStep, herr]
  | popped hpopped hes hle hfound =>
    rename_i es
    have hpositive : 0 < es.length := length_pos_iff.2 hes
    rw [hstop (.inr (by rw [hpopped.ret]; exact hpositive))]
    obtain ⟨out, hout, hlisted⟩ := BLMPopCommand.outputResult_of_popped
      (c := { c with posCmd := some c.currStep }) rfl hsub htrial.currStep hpopped.err
      hpopped.elements fun hplain => by
        have := hone (hshape.isMpop ▸ hplain)
        omega
    have hpopped' : Popped isLeft { s with cmd := .blmpop { c with posCmd := some c.currStep } }
        c.currStep cmd es := ⟨hpopped.1, hpopped.2, hpopped.3, hpopped.4, hpopped.5, hpopped.6⟩
    refine .finished (hpopped'.serves_finish ⟨hfound, hpast (by omega)⟩ ?_ ?_ hout hlisted)
      Session.outcome_finish_ne_none
    · intro hforward
      have hno : c.hasForwarded = false := htrial.hasForwarded
      rw [show c.hasForwarded = true from hforward] at hno
      cases hno
    · intro hfailed
      have hpassed : BLMPopCommand.isPassed { c with posCmd := some c.currStep } = true := by
        rw [BLMPopCommand.isPassed]
        rw [if_pos htrial.currStep, hsub]
        simp [hpopped.err]
      rw [show BLMPopCommand.isPassed _ = false from hfailed] at hpassed
      cases hpassed

lemma MPopPhase.step_tried (hone : isMpop = false → count = 1) (hallowed : s.allowed e = true) :
    MPopPhase keys isLeft count isMpop (s.step autoCommit e) := by
  have hblocks := isBlockingStep_blmpop hcmd hshape
  rw [decide_eq_false (hshape.vctKey ▸ Nat.ne_of_lt htrial.currStep)] at hblocks
  rcases allowed_done hblocks hexec hallowed with ⟨k, object, rfl⟩ | rfl
  · exact .tried c cmd hcmd hshape htrial hexec hpast hsub htried.others
  · exact advance_tried hcmd hshape htrial hpast hsub htried hone

end Tried

section Blocking

variable (hstep : c.currStep = keys.length)

include hstep

omit hstep in
lemma execute_parked (hops : ∀ cmd ∈ c.vctCmd, cmd.opType = .blockLock) (hquiet : Quiet s)
    (hj : j < s.cmd.submitted.length) :
    ∃ i key cmd, c.vctCmd[i]? = some cmd ∧ s.execute j = s.runSub key i cmd ∧ (s.execute j).cmd =
        .blmpop { c with vctCmd := c.vctCmd.set i (cmd.executeOn (s.db key)).1 } ∧
      (∀ cmd' ∈ c.vctCmd.set i (cmd.executeOn (s.db key)).1, cmd'.opType = .blockLock) ∧
      Quiet (s.execute j) ∧
      ((∀ i key, keys[i]? = some key → Held s key i) →
        ∀ i key, keys[i]? = some key → Held (s.execute j) key i) := by
  obtain ⟨i, key, cmd, -, hkey, hsub, hexec, hcmd', -, -⟩ := execute_sub hcmd hshape hj
  have hop := hops cmd (mem_of_getElem? hsub)
  refine ⟨i, key, cmd, hsub, hexec, hcmd', ops_setSub (· = .blockLock) hops hsub _, ?_, ?_⟩
  · rw [hexec]
    exact (runSub_blockLock hquiet hop).1
  · intro hheld k key' hkey'
    rw [hexec]
    refine held_runSub hquiet hop (fun hk => ?_) (hheld k key' hkey')
    rw [hk, hkey] at hkey'
    exact (Option.some.inj hkey').symm

section Waiting

variable (hpos : c.posCmd = none) (hforward : c.hasForwarded = false) (hptrs : c.popPtrs = [])
  (hquiet : Quiet s)
  (hsubs : ∀ i cmd, c.vctCmd[i]? = some cmd → cmd.opType = .blockLock ∧ Reports cmd (s.found i))
  (hheld : ∀ i key, keys[i]? = some key → Held s key i)

omit hcmd hshape hstep in
include hsubs in
lemma ops_of_subs : ∀ cmd ∈ c.vctCmd, cmd.opType = .blockLock := by
  intro cmd hmem
  obtain ⟨i, hi⟩ := mem_iff_getElem?.1 hmem
  exact (hsubs i cmd hi).1

include hpos hforward hptrs hquiet hsubs hheld

lemma MPopPhase.execute_waiting (hj : j < s.cmd.submitted.length) :
    MPopPhase keys isLeft count isMpop (s.execute j) := by
  obtain ⟨i, key, cmd, hsub, hexec, hcmd', hops', hquiet', hheld'⟩ :=
    execute_parked hcmd hshape (ops_of_subs hsubs) hquiet hj
  have hfound : (s.execute j).found = Function.update s.found i (some (s.db key)) := by
    rw [hexec]
    exact found_runSub_of_parked (by rw [hcmd]; exact hforward)
  refine .waiting _ hcmd' (hshape.setSub hsub _) hstep hpos hforward hptrs hquiet' ?_ (hheld' hheld)
  intro k cmd' hk
  refine ⟨hops' cmd' (mem_of_getElem? hk), ?_⟩
  rw [hfound]
  rcases getElem?_setSub hsub _ hk with ⟨rfl, rfl⟩ | ⟨hne, hold⟩
  · rw [Function.update_self]
    exact reports_executeOn (hsubs k cmd hsub).1 _
  · rw [Function.update_of_ne hne]
    exact (hsubs k cmd' hold).2

omit hforward in
lemma MPopPhase.forward_waiting (hfav : favourable autoCommit s .forward = true) :
    MPopPhase keys isLeft count isMpop { s with cmd := s.cmd.forwardResult } := by
  have hops := ops_of_subs hsubs
  have hcmd' : s.cmd.forwardResult = .blmpop c.forwardResult := by rw [hcmd]; rfl
  have hloop : c.forwardResult = { c with
        posCmd := (forwardLoop none 0 c.vctCmd).1
        blockPtrs := (forwardLoop none 0 c.vctCmd).2
        hasForwarded := true } := by
    rw [BLMPopCommand.forwardResult, hpos]
  rw [hcmd', hloop]
  rcases forwardLoop_none 0 c.vctCmd with
    ⟨-, hnone⟩ | ⟨k, cmd, hk, hready, hbefore, hfirst, hown, hothers⟩
  · rw [hnone]
    refine .expired _ rfl ⟨hshape.1, hshape.2, hshape.3, hshape.4⟩ hstep rfl rfl
      ⟨hquiet.1, hquiet.2, hquiet.3⟩ ?_ hops
    intro p hp
    obtain ⟨-, -, rfl⟩ := mem_map.1 hp
    rfl
  · rw [Nat.zero_add] at hfirst hown
    refine .won _ k rfl ⟨hshape.1, hshape.2, hshape.3, hshape.4⟩ hstep hfirst rfl hptrs
      ⟨hquiet.1, hquiet.2, hquiet.3⟩ ⟨⟨?_, ?_⟩, hown, hothers⟩ hops ?_
    · exact (hsubs k cmd hk).2.elements hready (right_of_favourable hcmd hfav hk hready hbefore)
    · -- an earlier one with elements would have been ready
      rintro j hj ⟨x, xs, hfound⟩
      have hlength : j < c.vctCmd.length := Nat.lt_trans hj (List.getElem?_eq_some_iff.1 hk).1
      have hcmdj := getElem?_eq_getElem hlength
      refine hbefore j hj _ hcmdj ((hsubs j _ hcmdj).2.ready_iff.2 ?_)
      exact ⟨_, hfound, by simp⟩
    · exact fun i key hkey => hheld i key hkey

lemma MPopPhase.step_waiting (hallowed : s.allowed e = true)
    (hfav : favourable autoCommit s e = true) :
    MPopPhase keys isLeft count isMpop (s.step autoCommit e) := by
  have hblocks := (isBlockingStep_blmpop hcmd hshape).trans (decide_eq_true hstep)
  have hfresh : s.cmd.hasForwarded = false := by rw [hcmd]; exact hforward
  cases e with
  | others k object =>
    exact .waiting c hcmd hshape hstep hpos hforward hptrs ⟨hquiet.1, hquiet.2, hquiet.3⟩ hsubs
      fun i key hkey => (hheld i key hkey).others (of_decide_eq_true hallowed)
  | execute j =>
    exact execute_waiting hcmd hshape hstep hpos hforward hptrs hquiet hsubs hheld
      (allowed_execute hallowed).2
  | forward =>
    exact forward_waiting hcmd hshape hstep hpos hptrs hquiet hsubs hheld hfav
  | advance => cases hfresh.symm.trans ((allowed_advance hallowed).2 hblocks)

end Waiting

section Forwarded

variable (hforward : c.hasForwarded = true) (hquiet : Quiet s)
  (hops : ∀ cmd ∈ c.vctCmd, cmd.opType = .blockLock)

include hforward hquiet hops

section Expired

variable (hpos : c.posCmd = none) (hdiscard : ∀ p ∈ c.blockPtrs, p = .discard)

include hpos hdiscard

omit hforward hops in
lemma MPopPhase.advance_expired : MPopPhase keys isLeft count isMpop (s.advance autoCommit) := by
  have hlength : c.currStep = c.vctKey.length := by rw [hstep, hshape.vctKey]
  have hlast : s.cmd.isLastStep = false := by
    rw [hcmd]
    exact decide_eq_false (by omega)
  have hmiddle : s.cmd.handleMiddleResult = some (.blmpop c, false) := by
    rw [hcmd, BlockingCommand.handleMiddleResult, BLMPopCommand.handleMiddleResult,
      if_neg (by omega), if_pos hlength, hpos]
    rfl
  rw [advance_of_stop hlast hmiddle]
  have hquiet' : Quiet { s with cmd := .blmpop c } := ⟨hquiet.1, hquiet.2, hquiet.3⟩
  refine .finished (hquiet'.serves_finish [.nil] ?_ ?_ rfl) outcome_finish_ne_none
  · exact fun _ => ⟨none, fun i p hp hne => absurd (hdiscard p (mem_of_getElem? hp)) hne⟩
  · change c.outputResult = some [.nil]
    rw [BLMPopCommand.outputResult, hpos]

lemma MPopPhase.step_expired (hallowed : s.allowed e = true) :
    MPopPhase keys isLeft count isMpop (s.step autoCommit e) := by
  cases e with
  | others k object =>
    exact .expired c hcmd hshape hstep hpos hforward ⟨hquiet.1, hquiet.2, hquiet.3⟩ hdiscard hops
  | execute j =>
    obtain ⟨i, key, cmd, hsub, -, hcmd', hops', hquiet', -⟩ :=
      execute_parked hcmd hshape hops hquiet (allowed_execute hallowed).2
    exact .expired _ hcmd' (hshape.setSub hsub _) hstep hpos hforward hquiet' hdiscard hops'
  | forward =>
    have hfresh := (allowed_forward hallowed).2.2
    rw [hcmd, BlockingCommand.hasForwarded, hforward] at hfresh
    cases hfresh
  | advance => exact advance_expired hcmd hshape hstep hquiet hpos hdiscard

end Expired

section Won

variable (hpos : c.posCmd = some p) (hptrs : c.popPtrs = []) (hwon : Won s c.blockPtrs p)
  (hheld : ∀ i key, keys[i]? = some key → Held s key i)

include hpos hptrs hwon hheld

omit hops in
lemma MPopPhase.advance_won : MPopPhase keys isLeft count isMpop (s.advance autoCommit) := by
  have hlength : c.currStep = c.vctKey.length := by rw [hstep, hshape.vctKey]
  have hlast : s.cmd.isLastStep = false := by
    rw [hcmd]
    exact decide_eq_false (by omega)
  have hmiddle : s.cmd.handleMiddleResult = some (.blmpop { c with
        vctCmd := c.vctCmd.modify p toPopElement
        popPtrs := [p] }, true) := by
    rw [hcmd, BlockingCommand.handleMiddleResult, BLMPopCommand.handleMiddleResult,
      if_neg (by omega), if_pos hlength, hpos, hptrs]
    rfl
  rw [advance_of_more hlast hmiddle
    (decide_eq_false (by omega : ¬c.currStep + 1 = c.vctKey.length))]
  refine .chosen _ p rfl ⟨hshape.1, ?_, ?_, hshape.4⟩ (congrArg (· + 1) hstep) hpos hforward rfl
    ⟨hquiet.1, hquiet.2, hquiet.3⟩ rfl ⟨hwon.first, hwon.own, hwon.others⟩ ?_
    (fun key hkey => hheld p key hkey)
  · rw [length_modify, hshape.length]
  · intro cmd hmem
    obtain ⟨i, hi⟩ := mem_iff_getElem?.1 hmem
    rw [getElem?_modify] at hi
    obtain ⟨old, hold, rfl⟩ := map_eq_some_iff.1 hi
    have halike := hshape.alike old (mem_of_getElem? hold)
    split
    · exact halike
    · exact halike
  · intro cmd hcmd'
    rw [getElem?_modify_eq] at hcmd'
    obtain ⟨old, -, rfl⟩ := map_eq_some_iff.1 hcmd'
    rfl

lemma MPopPhase.step_won (hallowed : s.allowed e = true) :
    MPopPhase keys isLeft count isMpop (s.step autoCommit e) := by
  have hforwarded : s.cmd.hasForwarded = true := by rw [hcmd]; exact hforward
  cases e with
  | others k object =>
    exact .won c p hcmd hshape hstep hpos hforward hptrs ⟨hquiet.1, hquiet.2, hquiet.3⟩
      ⟨hwon.1, hwon.2, hwon.3⟩ hops
      fun i key hkey => (hheld i key hkey).others (of_decide_eq_true hallowed)
  | execute j =>
    obtain ⟨i, key, cmd, hsub, hexec, hcmd', hops', hquiet', hheld'⟩ :=
      execute_parked hcmd hshape hops hquiet (allowed_execute hallowed).2
    have hfound : (s.execute j).found = s.found := by
      rw [hexec]
      exact found_runSub_of_forwarded hforwarded
    exact .won _ p hcmd' (hshape.setSub hsub _) hstep hpos hforward hptrs hquiet'
      ⟨(firstFound_congr hfound).2 hwon.first, hwon.own, hwon.others⟩ hops' (hheld' hheld)
  | forward => cases hforwarded.symm.trans (allowed_forward hallowed).2.2
  | advance => exact advance_won hcmd hshape hstep hforward hquiet hpos hptrs hwon hheld

end Won

end Forwarded

end Blocking

section Popping

variable (hstep : c.currStep = keys.length + 1) (hpos : c.posCmd = some p)
  (hforward : c.hasForwarded = true) (hwon : Won s c.blockPtrs p)

include hstep hpos hforward hwon

section Chosen

variable (hptrs : c.popPtrs = [p]) (hquiet : Quiet s) (hexec : s.executed = false)
  (hop : ∀ cmd, c.vctCmd[p]? = some cmd → cmd.opType = .popElement)
  (hheld : ∀ key, keys[p]? = some key → Held s key p)

include hptrs hquiet hexec hop hheld

omit hexec in
lemma MPopPhase.execute_chosen (hj : j < s.cmd.submitted.length)
    (hfav : favourable autoCommit s (.execute j) = true) :
    MPopPhase keys isLeft count isMpop (s.execute j) := by
  obtain ⟨i, key, cmd, hptr, hkey, hsub, hrun, hcmd', -, hi⟩ := execute_sub hcmd hshape hj
  obtain rfl : i = p := by
    have hmem := hi (by omega)
    rwa [hptrs, mem_singleton] at hmem
  -- the elements found are still there, since the key is locked
  obtain ⟨x, xs, hfound⟩ := hwon.first.1
  obtain ⟨-, hlist⟩ := hheld key hkey _ hfound (by simp)
  obtain ⟨es, hpopped, hlength⟩ := runSub_popElement (i := i) hquiet (hop cmd hsub) hlist
    (size_of_favourable hfav hptr hlist)
  have halike := hshape.alike cmd (mem_of_getElem? hsub)
  rw [← hrun, halike.1] at hpopped
  rw [length_cons] at hlength
  have hsame : (s.execute j).found = s.found := by
    rw [hrun]
    exact found_runSub_of_forwarded (by rw [hcmd]; exact hforward)
  exact .done _ i _ es hcmd' (hshape.setSub hsub _) hstep hpos hforward (by rw [hrun]; rfl)
    ⟨(firstFound_congr hsame).2 hwon.first, hwon.own, hwon.others⟩
    (List.getElem?_set_self (List.getElem?_eq_some_iff.1 hsub).1) hpopped (by omega)

lemma MPopPhase.step_chosen (hallowed : s.allowed e = true)
    (hfav : favourable autoCommit s e = true) :
    MPopPhase keys isLeft count isMpop (s.step autoCommit e) := by
  have hblocks := (isBlockingStep_blmpop hcmd hshape).trans (decide_eq_false (by omega))
  rcases allowed_idle hblocks hexec hallowed with ⟨k, object, rfl⟩ | ⟨j, hj, rfl⟩
  · exact .chosen c p hcmd hshape hstep hpos hforward hptrs ⟨hquiet.1, hquiet.2, hquiet.3⟩ hexec
      ⟨hwon.1, hwon.2, hwon.3⟩ hop
      fun key hkey => (hheld key hkey).others (of_decide_eq_true hallowed)
  · exact execute_chosen hcmd hshape hstep hpos hforward hwon hptrs hquiet hop hheld hj hfav

end Chosen

section Done

variable {es : List Bytes} (hexec : s.executed = true) (hsub : c.vctCmd[p]? = some cmd)
  (hpopped : Popped isLeft s p cmd es) (hlength : count = 1 → es.length = 1)

include hexec hsub hpopped hlength

omit hforward hexec in
lemma MPopPhase.advance_done (hone : isMpop = false → count = 1) :
    MPopPhase keys isLeft count isMpop (s.advance autoCommit) := by
  have hn : c.currStep = c.vctKey.length + 1 := by rw [hstep, hshape.vctKey]
  have hp : p < c.vctKey.length := by
    rw [hshape.vctKey, ← hshape.length]
    exact (List.getElem?_eq_some_iff.1 hsub).1
  have hlast : s.cmd.isLastStep = true := by
    rw [hcmd]
    exact decide_eq_true hn
  obtain ⟨out, hout, hlisted⟩ := outputResult_of_popped hpos hsub hp hpopped.err
    hpopped.elements fun hplain => hlength (hone (hshape.isMpop ▸ hplain))
  have hout' : s.cmd.outputResult = some out := by rw [hcmd]; exact hout
  have hlisted' : s.cmd.listed out = es := by rw [hcmd]; exact hlisted
  rw [advance_of_last hlast]
  refine .finished (hpopped.serves_finish hwon.first (fun _ => ?_) ?_ hout' hlisted')
    outcome_finish_ne_none
  · rw [hcmd]
    exact hwon
  · rw [hcmd, BlockingCommand.isPassed, BLMPopCommand.isPassed, if_neg (by omega),
      if_neg (by omega), if_pos hn, hpos]
    simp [hsub, hpopped.err, hpopped.ret]

lemma MPopPhase.step_done (hone : isMpop = false → count = 1) (hallowed : s.allowed e = true) :
    MPopPhase keys isLeft count isMpop (s.step autoCommit e) := by
  have hblocks := (isBlockingStep_blmpop hcmd hshape).trans (decide_eq_false (by omega))
  rcases allowed_done hblocks hexec hallowed with ⟨k, object, rfl⟩ | rfl
  · exact .done c p cmd es hcmd hshape hstep hpos hforward hexec ⟨hwon.1, hwon.2, hwon.3⟩ hsub
      ⟨hpopped.1, hpopped.2, hpopped.3, hpopped.4, hpopped.5, hpopped.6⟩ hlength
  · exact advance_done hcmd hshape hstep hpos hwon hsub hpopped hlength hone

end Done

end Popping

end Events

lemma step_of_ended {e : Event} (hended : s.outcome ≠ none) (hallowed : s.allowed e = true) :
    ∃ k object, e = .others k object := by
  cases e with
  | others k object => exact ⟨k, object, rfl⟩
  | execute j => exact absurd (allowed_execute hallowed).1 hended
  | forward => exact absurd (allowed_forward hallowed).1 hended
  | advance => exact absurd (allowed_advance hallowed).1 hended

theorem MPopPhase.step {e : Event} (hone : isMpop = false → count = 1)
    (hphase : MPopPhase keys isLeft count isMpop s) (hallowed : s.allowed e = true)
    (hfav : favourable autoCommit s e = true) :
    MPopPhase keys isLeft count isMpop (s.step autoCommit e) := by
  cases hphase with
  | trying c hcmd hshape htrial hquiet hexec hpast =>
    exact step_trying hcmd hshape htrial hquiet hexec hpast hallowed hfav
  | tried c cmd hcmd hshape htrial hexec hpast hsub htried =>
    exact step_tried hcmd hshape htrial hexec hpast hsub htried hone hallowed
  | waiting c hcmd hshape hstep hpos hforward hptrs hquiet hsubs hheld =>
    exact step_waiting hcmd hshape hstep hpos hforward hptrs hquiet hsubs hheld hallowed hfav
  | expired c hcmd hshape hstep hpos hforward hquiet hdiscard hops =>
    exact step_expired hcmd hshape hstep hforward hquiet hops hpos hdiscard hallowed
  | won c p hcmd hshape hstep hpos hforward hptrs hquiet hwon hops hheld =>
    exact step_won hcmd hshape hstep hforward hquiet hops hpos hptrs hwon hheld hallowed
  | chosen c p hcmd hshape hstep hpos hforward hptrs hquiet hexec hwon hop hheld =>
    exact step_chosen hcmd hshape hstep hpos hforward hwon hptrs hquiet hexec hop hheld hallowed
      hfav
  | done c p cmd es hcmd hshape hstep hpos hforward hexec hwon hsub hpopped hlength =>
    exact step_done hcmd hshape hstep hpos hforward hwon hexec hsub hpopped hlength hone hallowed
  | finished hserves hended =>
    obtain ⟨k, object, rfl⟩ := step_of_ended hended hallowed
    exact .finished ⟨hserves.1, hserves.2, hserves.3, hserves.4, hserves.5, hserves.6⟩ hended

lemma MPopPhase.serves (hphase : MPopPhase keys isLeft count isMpop s) : Serves isLeft s := by
  cases hphase with
  | trying c hcmd hshape htrial hquiet hexec hpast =>
    exact hquiet.serves (decided_of_not_forwarded (by rw [hcmd]; exact htrial.hasForwarded))
  | tried c cmd hcmd hshape htrial hexec hpast hsub htried =>
    exact htried.serves (by rw [hcmd]; exact htrial.hasForwarded) hpast
  | waiting c hcmd hshape hstep hpos hforward hptrs hquiet hsubs hheld =>
    exact hquiet.serves (decided_of_not_forwarded (by rw [hcmd]; exact hforward))
  | expired c hcmd hshape hstep hpos hforward hquiet hdiscard hops =>
    refine hquiet.serves fun _ => ⟨none, fun i p hp hne => ?_⟩
    rw [hcmd] at hp
    exact absurd (hdiscard p (mem_of_getElem? hp)) hne
  | won c p hcmd hshape hstep hpos hforward hptrs hquiet hwon hops hheld =>
    exact hquiet.serves (Won.decided (by rw [hcmd]; exact hwon))
  | chosen c p hcmd hshape hstep hpos hforward hptrs hquiet hexec hwon hop hheld =>
    exact hquiet.serves (Won.decided (by rw [hcmd]; exact hwon))
  | done c p cmd es hcmd hshape hstep hpos hforward hexec hwon hsub hpopped hlength =>
    exact hpopped.serves hwon.first fun _ => by rw [hcmd]; exact hwon
  | finished hserves houtcome => exact hserves

lemma MPopPhase.start {ts : Nat} (hop : cmd.opType = .noBlock ∨ cmd.opType = .popNoBlock)
    (hleft : cmd.isLeft = isLeft) (hcount : cmd.count = count)
    (hs : s.cmd = .blmpop (.new keys cmd ts isMpop)) (hquiet : Quiet s) (hexec : s.executed = false)
    (hfound : ∀ i, s.found i = none) : MPopPhase keys isLeft count isMpop s := by
  have hshape : (new keys cmd ts isMpop).Shape keys isLeft count isMpop := by
    refine ⟨rfl, length_map _, ?_, rfl⟩
    intro c hc
    obtain ⟨-, -, rfl⟩ := mem_map.1 hc
    exact ⟨hleft, hcount⟩
  have hnew : ∀ c ∈ (new keys cmd ts isMpop).vctCmd, c = cmd := by
    intro c hc
    obtain ⟨-, -, rfl⟩ := mem_map.1 hc
    rfl
  by_cases hnil : keys = []
  · refine .waiting _ hs hshape (by rw [hnil]; rfl) rfl rfl rfl hquiet ?_ ?_
    · intro i c hc
      rw [hnil] at hc
      cases hc
    · intro i key _ object hobject
      rw [hfound] at hobject
      cases hobject
  · refine .trying _ hs hshape ⟨length_pos_iff.2 hnil, rfl, rfl, rfl, ?_⟩ hquiet hexec ?_
    · exact fun c hc => hnew c hc ▸ hop
    · exact fun _ j hj => absurd hj (Nat.not_lt_zero j)

end MPop

end EloqKV.Blocking
