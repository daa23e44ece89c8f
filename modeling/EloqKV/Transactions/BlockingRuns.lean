/-
  Runs of BLMOVE and BRPOPLPUSH, and of all blocking commands.

  BLMoveCommand waits like a BLMPopCommand with one key and then pushes what it has popped, in a
  step of its own.
-/
import EloqKV.Transactions.BlockingMPop

open List Function

namespace EloqKV.Blocking

open BlockingCommand BLMoveCommand Session

open PopReplies (Output OutputEvent popEnd)

/-! ## Phases of BLMOVE -/

def BLMoveCommand.Shape (isLeft : Bool) (c : BLMoveCommand) : Prop :=
  c.sourCmd.isLeft = isLeft ∧ c.sourCmd.count = 1

/-- `sour_cmd_` has a result that is not replaced by the discard command. -/
structure BLMoveCommand.Answered (s : Session) (c : BLMoveCommand) : Prop where
  own : c.blockPtr = .sub 0
  reports : Reports c.sourCmd (s.found 0)
  found : ∃ object, s.found 0 = some object ∧ object.getD (.list []) ≠ .list []
  held : Held s c.sourKey 0

/-- The element that was popped and is to be pushed. -/
structure BLMoveCommand.Carries (isLeft : Bool) (s : Session) (c : BLMoveCommand) (e : Bytes) :
    Prop where
  element : c.destElement = e
  elements : c.sourCmd.result.elements = some [e]
  first : s.FirstFound 0
  won : c.hasForwarded = true → Won s [c.blockPtr] 0
  popping : s.popping = [0]
  outcome : s.outcome = none

inductive MovePhase (isLeft autoCommit : Bool) (s : Session) : Prop
  | trying (c : BLMoveCommand) : s.cmd = .blmove c → c.Shape isLeft → c.currStep = 0 →
      c.hasForwarded = false → c.blockPtr = .sub 0 →
        (c.sourCmd.opType = .noBlock ∨ c.sourCmd.opType = .popNoBlock) →
      Quiet s → s.executed = false → MovePhase isLeft autoCommit s
  | tried (c : BLMoveCommand) : s.cmd = .blmove c → c.Shape isLeft → c.currStep = 0 →
      c.hasForwarded = false → c.blockPtr = .sub 0 → s.executed = true →
        Tried isLeft 1 s 0 c.sourCmd →
      MovePhase isLeft autoCommit s
  | waiting (c : BLMoveCommand) : s.cmd = .blmove c → c.Shape isLeft → c.currStep = 1 →
      c.hasForwarded = false → c.blockPtr = .sub 0 → c.sourCmd.opType = .blockLock → Quiet s →
      Reports c.sourCmd (s.found 0) → Held s c.sourKey 0 → MovePhase isLeft autoCommit s
  | expired (c : BLMoveCommand) : s.cmd = .blmove c → c.Shape isLeft → c.currStep = 1 →
      c.hasForwarded = true → c.sourCmd.opType = .blockLock → Quiet s → c.blockPtr = .discard →
      MovePhase isLeft autoCommit s
  | answered (c : BLMoveCommand) : s.cmd = .blmove c → c.Shape isLeft → c.currStep = 1 →
      c.hasForwarded = true → c.sourCmd.opType = .blockLock → Quiet s → c.Answered s →
      MovePhase isLeft autoCommit s
  | chosen (c : BLMoveCommand) : s.cmd = .blmove c → c.Shape isLeft → c.currStep = 2 →
      c.hasForwarded = true → c.sourCmd.opType = .popElement → Quiet s → s.executed = false →
      Won s [c.blockPtr] 0 → Held s c.sourKey 0 → MovePhase isLeft autoCommit s
  | done (c : BLMoveCommand) (e : Bytes) : s.cmd = .blmove c → c.Shape isLeft → c.currStep = 2 →
      c.hasForwarded = true → s.executed = true → Won s [c.blockPtr] 0 →
      Popped isLeft s 0 c.sourCmd [e] → MovePhase isLeft autoCommit s
  | pushing (c : BLMoveCommand) (e : Bytes) (effect : Effect) : s.cmd = .blmove c →
      c.currStep = 3 → s.executed = false → c.Carries isLeft s e → s.effects = [effect] →
      effect.ptr = .sub 0 → TakenFrom isLeft effect.before effect.after [e] →
      MovePhase isLeft autoCommit s
  | pushed (c : BLMoveCommand) (e : Bytes) (effect push : Effect) : s.cmd = .blmove c →
      c.currStep = 3 → s.executed = true → c.Carries isLeft s e → s.effects = [effect, push] →
      effect.ptr = .sub 0 → push.ptr = .push →
      TakenFrom isLeft effect.before effect.after [e] →
      (c.destResult.err = .ok ∧ c.destResult.ret = 1 ∨
        autoCommit = true ∧ c.destResult.err ≠ .ok ∧ c.destResult.err ≠ .nil) →
      MovePhase isLeft autoCommit s
  | finished : Serves isLeft s → s.outcome ≠ none → MovePhase isLeft autoCommit s

section Move

variable {isLeft autoCommit : Bool} {s : Session} {c : BLMoveCommand} {e : Bytes} {j : Nat}
  {event : Event}

lemma BLMoveCommand.Shape.executeOn (hshape : c.Shape isLeft) (object : Option Obj) :
    { c with sourCmd := (c.sourCmd.executeOn object).1 }.Shape isLeft :=
  ⟨(c.sourCmd.fields_executeOn object).1.trans hshape.1,
    (c.sourCmd.fields_executeOn object).2.1.trans hshape.2⟩

lemma lmovePush_cases (destLeft : Bool) (e : Bytes) (object : Option Obj) :
    ((lmovePush destLeft e object).err = .ok ∧ (lmovePush destLeft e object).ret = 1) ∨
      ((lmovePush destLeft e object).err ≠ .ok ∧ (lmovePush destLeft e object).err ≠ .nil) := by
  unfold lmovePush
  split
  · split
    · exact .inr ⟨nofun, nofun⟩
    · exact .inl ⟨rfl, rfl⟩
  · exact .inr ⟨nofun, nofun⟩

lemma BLMoveCommand.handOver_of_elements (helements : c.sourCmd.result.elements = some [e]) :
    c.handOver = some { c with destElement := e } := by
  rw [handOver, helements]
  rfl

/-! ## Events of BLMOVE -/

variable (hcmd : s.cmd = .blmove c)

include hcmd

lemma isBlockingStep_blmove : s.cmd.isBlockingStep = decide (c.currStep = 1) := by
  rw [hcmd]
  rfl

lemma not_blocking (hstep : c.currStep ≠ 1) : s.cmd.isBlockingStep = false :=
  (isBlockingStep_blmove hcmd).trans (decide_eq_false hstep)

lemma not_last (hstep : c.currStep < 3) : s.cmd.isLastStep = false := by
  rw [hcmd]
  exact decide_eq_false (by omega)

lemma execute_sour (hstep : c.currStep < 3) (hj : j < s.cmd.submitted.length) :
    s.cmd.submitted[j]? = some (c.sourKey, .sub 0) ∧ s.execute j = s.runSub c.sourKey 0 c.sourCmd ∧
      (s.execute j).cmd =
        .blmove { c with sourCmd := (c.sourCmd.executeOn (s.db c.sourKey)).1 } := by
  have hsubmitted : s.cmd.submitted = [(c.sourKey, .sub 0)] := by
    rw [hcmd]
    exact if_pos hstep
  have hptr : s.cmd.submitted[j]? = some (c.sourKey, .sub 0) := by
    rw [hsubmitted] at hj ⊢
    obtain rfl : j = 0 := Nat.lt_one_iff.1 hj
    rfl
  have hexec : s.execute j = s.runSub c.sourKey 0 c.sourCmd :=
    execute_of_sub hptr (by rw [hcmd]; rfl)
  refine ⟨hptr, hexec, ?_⟩
  rw [hexec]
  change s.cmd.setSub _ _ = _
  rw [hcmd]
  rfl

lemma execute_parked_sour (hstep : c.currStep = 1)
    (hop : c.sourCmd.opType = .blockLock) (hquiet : Quiet s) (hj : j < s.cmd.submitted.length) :
    Quiet (s.execute j) ∧ (c.sourCmd.executeOn (s.db c.sourKey)).1.opType = .blockLock ∧
      (Held s c.sourKey 0 → Held (s.execute j) c.sourKey 0) := by
  obtain ⟨-, hexec, -⟩ := execute_sour hcmd (by omega) hj
  rw [hexec]
  refine ⟨(runSub_blockLock hquiet hop).1, ?_, held_runSub hquiet hop fun _ => rfl⟩
  rw [(c.sourCmd.fields_executeOn _).2.2, hop]

lemma MovePhase.stop (out : Output) (hlast : s.cmd.isLastStep = false)
    (hmiddle : c.handleMiddleResult = some (c, false)) (hquiet : Quiet s) (hdecided : Decided s)
    (hout : c.outputResult = some out) (hnil : (blmove c).listed out = []) :
    MovePhase isLeft autoCommit (s.advance autoCommit) := by
  have hmiddle' : s.cmd.handleMiddleResult = some (.blmove c, false) := by
    rw [hcmd, BlockingCommand.handleMiddleResult, hmiddle]
    rfl
  have hsame : { s with cmd := .blmove c } = s := by rw [← hcmd]
  rw [advance_of_stop hlast hmiddle', hsame]
  refine .finished (hquiet.serves_finish out hdecided ?_ ?_) outcome_finish_ne_none
  · rw [hcmd]
    exact hout
  · rw [hcmd]
    exact hnil

lemma MovePhase.carry {c' : BLMoveCommand}
    (hlast : s.cmd.isLastStep = false) (hmiddle : c.handleMiddleResult = some (c', true))
    (hstep : c'.currStep = 2) (helement : c'.destElement = e) (hsour : c'.sourCmd = c.sourCmd)
    (hpopped : Popped isLeft s 0 c.sourCmd [e]) (hfirst : s.FirstFound 0)
    (hwon : c'.hasForwarded = true → Won s [c'.blockPtr] 0) :
    MovePhase isLeft autoCommit (s.advance autoCommit) := by
  have hmiddle' : s.cmd.handleMiddleResult = some (.blmove c', true) := by
    rw [hcmd, BlockingCommand.handleMiddleResult, hmiddle]
    rfl
  rw [advance_of_more hlast hmiddle' (decide_eq_false (by omega : ¬c'.currStep + 1 = 1))]
  obtain ⟨effect, heffects, hptr, htaken⟩ := hpopped.effects
  refine .pushing { c' with currStep := c'.currStep + 1 } e effect rfl (congrArg (· + 1) hstep) rfl
    ⟨helement, ?_, hfirst, ?_, hpopped.popping, hpopped.outcome⟩ heffects hptr htaken
  · rw [← hpopped.elements, ← hsour]
  · exact fun h => ⟨(hwon h).1, (hwon h).2, (hwon h).3⟩

section Shaped

variable (hshape : c.Shape isLeft)

include hshape

section Fresh

variable (hforward : c.hasForwarded = false) (hown : c.blockPtr = .sub 0)

include hforward hown

lemma MovePhase.step_trying (hstep : c.currStep = 0)
    (hop : c.sourCmd.opType = .noBlock ∨ c.sourCmd.opType = .popNoBlock) (hquiet : Quiet s)
    (hexec : s.executed = false) (hallowed : s.allowed event = true)
    (hfav : favourable autoCommit s event = true) :
    MovePhase isLeft autoCommit (s.step autoCommit event) := by
  rcases allowed_idle (not_blocking hcmd (by omega)) hexec hallowed with
    ⟨k, object, rfl⟩ | ⟨j, hj, rfl⟩
  · exact .trying c hcmd hshape hstep hforward hown hop ⟨hquiet.1, hquiet.2, hquiet.3⟩ hexec
  · obtain ⟨hptr, hrun, hcmd'⟩ := execute_sour hcmd (by omega) hj
    have htry := runSub_try (i := 0) hquiet (by rw [hcmd]; exact hforward) hop
      fun items hitems => size_of_favourable hfav hptr hitems
    rw [← hrun, hshape.1, hshape.2] at htry
    exact .tried _ hcmd' (hshape.executeOn _) hstep hforward hown (congrArg executed hrun) htry

/-- After the first try an element goes on to the push; without one the command waits, or ends. -/
lemma MovePhase.advance_tried (hstep : c.currStep = 0) (htried : Tried isLeft 1 s 0 c.sourCmd) :
    MovePhase isLeft autoCommit (s.advance autoCommit) := by
  have hlast := not_last hcmd (by omega)
  have hdecided := decided_of_not_forwarded (s := s) (by rw [hcmd]; exact hforward)
  have hmiddle := handleMiddleResult.eq_1 c
  rw [if_pos hstep] at hmiddle
  cases htried with
  | passed hquiet herr hret hfound =>
    rw [if_pos herr, if_neg (by omega)] at hmiddle
    by_cases hmulti : c.tsExpired = 0
    · rw [if_pos hmulti] at hmiddle
      refine .stop hcmd [.nil] hlast hmiddle hquiet hdecided ?_ rfl
      rw [BLMoveCommand.outputResult]
      simp [hstep, herr]
    · rw [if_neg hmulti] at hmiddle
      have hmiddle' : s.cmd.handleMiddleResult = some (.blmove
          { c with sourCmd := BLMPopCommand.toBlockLock c.sourCmd }, true) := by
        rw [hcmd, BlockingCommand.handleMiddleResult, hmiddle]
        rfl
      rw [advance_of_block hlast hmiddle'
        (decide_eq_true (congrArg (· + 1) hstep : c.currStep + 1 = 1))]
      exact .waiting _ rfl hshape (congrArg (· + 1) hstep) hforward hown rfl
        ⟨hquiet.1, hquiet.2, hquiet.3⟩ rfl (by simp [Held])
  | refused hquiet herr =>
    rw [if_neg (by rw [herr]; decide)] at hmiddle
    refine .stop hcmd [.error RdCode.wrongType.message] hlast hmiddle hquiet hdecided ?_ rfl
    rw [BLMoveCommand.outputResult]
    simp [hstep, herr]
  | popped hpopped hes hle hfound =>
    rename_i es
    have hpositive := length_pos_iff.2 hes
    obtain ⟨e, rfl⟩ := length_eq_one_iff.1 (by omega : es.length = 1)
    rw [if_pos hpopped.err, if_pos (by rw [hpopped.ret]; exact hpositive),
      handOver_of_elements hpopped.elements] at hmiddle
    refine .carry hcmd hlast hmiddle rfl rfl rfl hpopped ⟨hfound, by simp⟩ fun htrue => ?_
    rw [show c.hasForwarded = true from htrue] at hforward
    cases hforward

lemma MovePhase.step_tried (hstep : c.currStep = 0) (hexec : s.executed = true)
    (htried : Tried isLeft 1 s 0 c.sourCmd) (hallowed : s.allowed event = true) :
    MovePhase isLeft autoCommit (s.step autoCommit event) := by
  rcases allowed_done (not_blocking hcmd (by omega)) hexec hallowed with ⟨k, object, rfl⟩ | rfl
  · exact .tried c hcmd hshape hstep hforward hown hexec htried.others
  · exact advance_tried hcmd hshape hforward hown hstep htried

section Waiting

variable (hstep : c.currStep = 1) (hop : c.sourCmd.opType = .blockLock) (hquiet : Quiet s)
  (hreports : Reports c.sourCmd (s.found 0)) (hheld : Held s c.sourKey 0)

include hstep hop hquiet hreports hheld

omit hforward in
lemma MovePhase.forward_waiting :
    MovePhase isLeft autoCommit { s with cmd := s.cmd.forwardResult } := by
  have hcmd' : s.cmd.forwardResult = .blmove c.forwardResult := by rw [hcmd]; rfl
  rw [hcmd']
  by_cases hready : c.sourCmd.Ready
  · have hkept : c.forwardResult = { c with hasForwarded := true } := by
      rw [BLMoveCommand.forwardResult]
      by_cases hwrong : c.sourCmd.result.err = .wrongType
      · rw [if_pos hwrong]
      · obtain ⟨hok, hpos⟩ := hready.resolve_left hwrong
        rw [if_neg hwrong, if_neg]
        rw [hok]
        exact fun h => h.elim nofun (Nat.ne_of_gt hpos)
    rw [hkept]
    exact .answered _ rfl hshape hstep rfl hop ⟨hquiet.1, hquiet.2, hquiet.3⟩
      ⟨hown, hreports, hreports.ready_iff.1 hready, hheld⟩
  · have hdropped : c.forwardResult = { c with hasForwarded := true, blockPtr := .discard } := by
      rw [BLMoveCommand.forwardResult, if_neg fun h => hready (.inl h), if_pos]
      by_cases hnone : s.found 0 = none
      · rw [hnone] at hreports
        exact .inl hreports
      · -- it ran and came upon nothing
        obtain ⟨object, hobject⟩ := Option.ne_none_iff_exists'.1 hnone
        right
        by_contra hret
        have hok : c.sourCmd.result.err = .ok := by
          rw [hobject] at hreports
          unfold Reports at hreports
          dsimp only at hreports
          split at hreports
          · exact hreports.1
          · exact absurd (.inl hreports) hready
        exact hready (.inr ⟨hok, Nat.pos_of_ne_zero hret⟩)
    rw [hdropped]
    exact .expired _ rfl hshape hstep rfl hop ⟨hquiet.1, hquiet.2, hquiet.3⟩ rfl

lemma MovePhase.step_waiting (hallowed : s.allowed event = true) :
    MovePhase isLeft autoCommit (s.step autoCommit event) := by
  have hfresh : s.cmd.hasForwarded = false := by rw [hcmd]; exact hforward
  cases event with
  | others k object =>
    exact .waiting c hcmd hshape hstep hforward hown hop ⟨hquiet.1, hquiet.2, hquiet.3⟩ hreports
      (hheld.others (of_decide_eq_true hallowed))
  | execute j =>
    have hj := (allowed_execute hallowed).2
    obtain ⟨-, hexec, hcmd'⟩ := execute_sour hcmd (by omega) hj
    obtain ⟨hquiet', hop', hheld'⟩ := execute_parked_sour hcmd hstep hop hquiet hj
    have hreports' : Reports (c.sourCmd.executeOn (s.db c.sourKey)).1 ((s.execute j).found 0) := by
      rw [hexec, found_runSub_of_parked hfresh]
      exact reports_executeOn hop _
    exact .waiting _ hcmd' (hshape.executeOn _) hstep hforward hown hop' hquiet' hreports'
      (hheld' hheld)
  | forward => exact forward_waiting hcmd hshape hown hstep hop hquiet hreports hheld
  | advance =>
    have hforwarded := (allowed_advance hallowed).2
      ((isBlockingStep_blmove hcmd).trans (decide_eq_true hstep))
    cases hfresh.symm.trans hforwarded

end Waiting

end Fresh

section Forwarded

variable (hforward : c.hasForwarded = true)

include hforward

section Blocking

variable (hstep : c.currStep = 1) (hop : c.sourCmd.opType = .blockLock) (hquiet : Quiet s)

include hstep hop hquiet

omit hshape hop in
lemma MovePhase.advance_expired (hdiscard : c.blockPtr = .discard) :
    MovePhase isLeft autoCommit (s.advance autoCommit) := by
  refine .stop hcmd [.nil] (not_last hcmd (by omega)) ?_ hquiet ?_ ?_ rfl
  · rw [BLMoveCommand.handleMiddleResult, if_neg (by omega), if_pos hstep,
      if_pos ⟨hforward, hdiscard⟩]
  · refine fun _ => ⟨none, fun i p hp hne => ?_⟩
    rw [hcmd, blockPtrs, hdiscard] at hp
    exact absurd (mem_singleton.1 (mem_of_getElem? hp)) hne
  · rw [BLMoveCommand.outputResult, if_pos ⟨hstep, hforward, hdiscard⟩]

lemma MovePhase.step_expired (hdiscard : c.blockPtr = .discard)
    (hallowed : s.allowed event = true) :
    MovePhase isLeft autoCommit (s.step autoCommit event) := by
  have hforwarded : s.cmd.hasForwarded = true := by rw [hcmd]; exact hforward
  cases event with
  | others k object =>
    exact .expired c hcmd hshape hstep hforward hop ⟨hquiet.1, hquiet.2, hquiet.3⟩ hdiscard
  | execute j =>
    have hj := (allowed_execute hallowed).2
    obtain ⟨hquiet', hop', -⟩ := execute_parked_sour hcmd hstep hop hquiet hj
    exact .expired _ (execute_sour hcmd (by omega) hj).2.2 (hshape.executeOn _) hstep hforward hop'
      hquiet' hdiscard
  | forward => cases hforwarded.symm.trans (allowed_forward hallowed).2.2
  | advance => exact advance_expired hcmd hforward hstep hquiet hdiscard

omit hop in
lemma MovePhase.advance_answered (hanswered : c.Answered s) :
    MovePhase isLeft autoCommit (s.advance autoCommit) := by
  have hlast := not_last hcmd (by omega)
  have hkept : ¬(c.hasForwarded = true ∧ c.blockPtr = .discard) := by
    rw [hanswered.own]
    exact fun h => by cases h.2
  have hparked : ¬s.Parked 0 := by
    obtain ⟨object, hfound, hsome⟩ := hanswered.found
    exact fun h => hsome (h object hfound)
  have hothers : ∀ i q, [c.blockPtr][i]? = some q → q ≠ .discard → i = 0 := by
    intro i q hq _
    have hi := (List.getElem?_eq_some_iff.1 hq).1
    rw [length_singleton] at hi
    omega
  have hmiddle := handleMiddleResult.eq_1 c
  rw [if_neg (by omega), if_pos hstep, if_neg hkept] at hmiddle
  by_cases hwrong : c.sourCmd.result.err = .wrongType
  · rw [if_neg (by rw [hwrong]; exact fun h => by cases h.1)] at hmiddle
    refine .stop hcmd [.error RdCode.wrongType.message] hlast hmiddle hquiet ?_ ?_ rfl
    · refine fun _ => ⟨some 0, fun i p hp hne => ?_⟩
      rw [hcmd] at hp
      obtain rfl := hothers i p hp hne
      exact ⟨rfl, hparked⟩
    · rw [BLMoveCommand.outputResult]
      simp [hstep, hwrong, hanswered.own]
  · have hready := hanswered.reports.ready_iff.2 hanswered.found
    have helements := hanswered.reports.elements hready hwrong
    rw [if_pos (hready.resolve_left hwrong)] at hmiddle
    have hmiddle' : s.cmd.handleMiddleResult = some (.blmove { c with
          sourCmd := { c.sourCmd with
            opType := .popElement
            result := { c.sourCmd.result with err := .nil } } }, true) := by
      rw [hcmd, BlockingCommand.handleMiddleResult, hmiddle]
      rfl
    rw [advance_of_more hlast hmiddle' (decide_eq_false (by omega : ¬c.currStep + 1 = 1))]
    refine .chosen _ rfl hshape (congrArg (· + 1) hstep) hforward rfl
      ⟨hquiet.1, hquiet.2, hquiet.3⟩ rfl ⟨⟨helements, by simp⟩, ?_, hothers⟩ hanswered.held
    exact congrArg some hanswered.own

lemma MovePhase.step_answered (hanswered : c.Answered s) (hallowed : s.allowed event = true) :
    MovePhase isLeft autoCommit (s.step autoCommit event) := by
  have hforwarded : s.cmd.hasForwarded = true := by rw [hcmd]; exact hforward
  cases event with
  | others k object =>
    exact .answered c hcmd hshape hstep hforward hop ⟨hquiet.1, hquiet.2, hquiet.3⟩ ⟨hanswered.1,
      hanswered.2, hanswered.3, hanswered.held.others (of_decide_eq_true hallowed)⟩
  | execute j =>
    -- a result that was kept stays the same: the key is locked
    have hj := (allowed_execute hallowed).2
    obtain ⟨-, hexec, hcmd'⟩ := execute_sour hcmd (by omega) hj
    obtain ⟨hquiet', hop', hheld'⟩ := execute_parked_sour hcmd hstep hop hquiet hj
    obtain ⟨object, hfound, hsome⟩ := hanswered.found
    have hsame : (s.execute j).found = s.found := by
      rw [hexec]
      exact found_runSub_of_forwarded hforwarded
    refine .answered _ hcmd' (hshape.executeOn _) hstep hforward hop' hquiet'
      ⟨hanswered.own, ?_, ⟨object, hsame ▸ hfound, hsome⟩, hheld' hanswered.held⟩
    change Reports _ ((s.execute j).found 0)
    rw [hsame, hfound, (hanswered.held object hfound hsome).2]
    exact reports_executeOn hop _
  | forward => cases hforwarded.symm.trans (allowed_forward hallowed).2.2
  | advance => exact advance_answered hcmd hshape hforward hstep hquiet hanswered

end Blocking

section Popping

variable (hstep : c.currStep = 2) (hwon : Won s [c.blockPtr] 0)

include hstep hwon

lemma MovePhase.execute_chosen (hop : c.sourCmd.opType = .popElement) (hquiet : Quiet s)
    (hheld : Held s c.sourKey 0) (hj : j < s.cmd.submitted.length)
    (hfav : favourable autoCommit s (.execute j) = true) :
    MovePhase isLeft autoCommit (s.execute j) := by
  obtain ⟨hptr, hexec, hcmd'⟩ := execute_sour hcmd (by omega) hj
  obtain ⟨x, xs, hfound⟩ := hwon.first.1
  obtain ⟨-, hlist⟩ := hheld _ hfound (by simp)
  obtain ⟨es, hpopped, hlength⟩ := runSub_popElement (i := 0) hquiet hop hlist
    (size_of_favourable hfav hptr hlist)
  rw [hshape.2, length_cons] at hlength
  obtain ⟨e, rfl⟩ := length_eq_one_iff.1 (by omega : es.length = 1)
  rw [← hexec, hshape.1] at hpopped
  have hsame : (s.execute j).found = s.found := by
    rw [hexec]
    exact found_runSub_of_forwarded (by rw [hcmd]; exact hforward)
  exact .done _ e hcmd' (hshape.executeOn _) hstep hforward (by rw [hexec]; rfl)
    ⟨(firstFound_congr hsame).2 hwon.first, hwon.own, hwon.others⟩ hpopped

lemma MovePhase.step_chosen (hop : c.sourCmd.opType = .popElement) (hquiet : Quiet s)
    (hexec : s.executed = false) (hheld : Held s c.sourKey 0) (hallowed : s.allowed event = true)
    (hfav : favourable autoCommit s event = true) :
    MovePhase isLeft autoCommit (s.step autoCommit event) := by
  rcases allowed_idle (not_blocking hcmd (by omega)) hexec hallowed with
    ⟨k, object, rfl⟩ | ⟨j, hj, rfl⟩
  · exact .chosen c hcmd hshape hstep hforward hop ⟨hquiet.1, hquiet.2, hquiet.3⟩ hexec
      ⟨hwon.1, hwon.2, hwon.3⟩ (hheld.others (of_decide_eq_true hallowed))
  · exact execute_chosen hcmd hshape hforward hstep hwon hop hquiet hheld hj hfav

lemma MovePhase.step_done (hexec : s.executed = true)
    (hpopped : Popped isLeft s 0 c.sourCmd [e]) (hallowed : s.allowed event = true) :
    MovePhase isLeft autoCommit (s.step autoCommit event) := by
  rcases allowed_done (not_blocking hcmd (by omega)) hexec hallowed with ⟨k, object, rfl⟩ | rfl
  · exact .done c e hcmd hshape hstep hforward hexec ⟨hwon.1, hwon.2, hwon.3⟩
      ⟨hpopped.1, hpopped.2, hpopped.3, hpopped.4, hpopped.5, hpopped.6⟩
  · have hmiddle := handleMiddleResult.eq_1 c
    rw [if_neg (by omega), if_neg (by omega), if_pos hstep,
      if_pos ⟨hpopped.err, by rw [hpopped.ret]; exact Nat.one_pos⟩,
      handOver_of_elements hpopped.elements] at hmiddle
    exact .carry hcmd (not_last hcmd (by omega)) hmiddle hstep rfl rfl hpopped hwon.first
      fun _ => hwon

end Popping

end Forwarded

end Shaped

section Pushing

variable {effect push : Effect} (hstep : c.currStep = 3) (hcarries : c.Carries isLeft s e)
  (hptr : effect.ptr = .sub 0) (htaken : TakenFrom isLeft effect.before effect.after [e])

include hstep hcarries hptr htaken

lemma MovePhase.execute_pushing (heffects : s.effects = [effect])
    (hj : j < s.cmd.submitted.length) (hfav : favourable autoCommit s (.execute j) = true) :
    MovePhase isLeft autoCommit (s.execute j) := by
  have hsubmitted : s.cmd.submitted[j]? = some (c.destKey, .push) := by
    have hlist : s.cmd.submitted = [(c.destKey, .push)] := by
      rw [hcmd]
      exact if_neg (by omega)
    rw [hlist] at hj ⊢
    obtain rfl : j = 0 := Nat.lt_one_iff.1 hj
    rfl
  have hexec : s.execute j = s.runPush c := by
    rw [execute, hsubmitted]
    simp [hcmd]
  have haccepted : autoCommit = true ∨
      (lmovePush c.destLeft c.destElement (s.db c.destKey)).err = .ok := by
    simp only [favourable, hsubmitted] at hfav
    simpa only [hcmd, Bool.or_eq_true, decide_eq_true_eq] using hfav
  rw [hexec]
  refine .pushed _ e effect _ rfl hstep rfl ⟨hcarries.1, hcarries.2, hcarries.3, ?_, hcarries.5,
    hcarries.6⟩ (by rw [runPush, heffects]; rfl) hptr rfl htaken ?_
  · exact fun h => ⟨(hcarries.won h).1, (hcarries.won h).2, (hcarries.won h).3⟩
  · rcases lmovePush_cases c.destLeft c.destElement (s.db c.destKey) with hok | hrefused
    · exact .inl hok
    · exact .inr ⟨haccepted.resolve_right hrefused.1, hrefused⟩

omit hcmd hstep hptr htaken in
lemma BLMoveCommand.Carries.others {k : Bytes} {object : Option Obj} :
    c.Carries isLeft (s.step autoCommit (.others k object)) e :=
  ⟨hcarries.1, hcarries.2, hcarries.3,
    fun h => ⟨(hcarries.won h).1, (hcarries.won h).2, (hcarries.won h).3⟩, hcarries.5, hcarries.6⟩

lemma MovePhase.step_pushing (hexec : s.executed = false) (heffects : s.effects = [effect])
    (hallowed : s.allowed event = true) (hfav : favourable autoCommit s event = true) :
    MovePhase isLeft autoCommit (s.step autoCommit event) := by
  rcases allowed_idle (not_blocking hcmd (by omega)) hexec hallowed with
    ⟨k, object, rfl⟩ | ⟨j, hj, rfl⟩
  · exact .pushing c e effect hcmd hstep hexec hcarries.others heffects hptr htaken
  · exact execute_pushing hcmd hstep hcarries hptr htaken heffects hj hfav

variable (heffects : s.effects = [effect, push]) (hpush : push.ptr = .push)
  (hresult : c.destResult.err = .ok ∧ c.destResult.ret = 1 ∨
    autoCommit = true ∧ c.destResult.err ≠ .ok ∧ c.destResult.err ≠ .nil)

include heffects hpush hresult

/-- The push is the last step: the element is with its key, or the aborted command leaves nothing.
-/
lemma MovePhase.advance_pushed : MovePhase isLeft autoCommit (s.advance autoCommit) := by
  have hlast : s.cmd.isLastStep = true := by
    rw [hcmd]
    exact decide_eq_true hstep
  have hwon : s.cmd.hasForwarded = true → Won (s.finish autoCommit) s.cmd.blockPtrs 0 := by
    rw [hcmd]
    exact fun h => ⟨(hcarries.won h).1, (hcarries.won h).2, (hcarries.won h).3⟩
  have hkept : (s.finish autoCommit).effects =
      if !autoCommit || s.cmd.isPassed then [effect, push] else [] := by
    rw [← heffects]
    rfl
  have hown : ∀ e' ∈ (s.finish autoCommit).effects, e'.ptr = .sub 0 ∨ e'.ptr = .push := by
    intro e' he'
    rw [hkept] at he'
    split at he'
    · rcases mem_cons.1 he' with rfl | he'
      · exact .inl hptr
      · exact .inr (mem_singleton.1 he' ▸ hpush)
    · cases he'
  rw [advance_of_last hlast]
  refine .finished
    (serves_of_popped hcarries.popping hown hcarries.first hwon fun reply hreply => ?_)
    outcome_finish_ne_none
  obtain rfl : s.cmd.outputResult = reply := Option.some.inj hreply
  have hpassed : s.cmd.isPassed =
      (decide (c.destResult.err = .ok) || decide (c.destResult.err = .nil)) := by
    rw [hcmd, BlockingCommand.isPassed, BLMoveCommand.isPassed, hstep]
    rfl
  have hlisted : ∀ out, (s.finish autoCommit).cmd.listed out = (blmove c).listed out := by
    intro out
    change s.cmd.listed out = _
    rw [hcmd]
  rcases hresult with ⟨hok, hret⟩ | ⟨hauto, herr, hnil⟩
  · have hout : s.cmd.outputResult = some [.string e] := by
      rw [hcmd, BlockingCommand.outputResult, BLMoveCommand.outputResult, if_neg (by omega),
        if_neg (by omega), if_neg (by rw [hok]; simp), if_pos ⟨hstep, by omega⟩, hcarries.elements]
      rfl
    refine ⟨_, hout, ?_⟩
    rw [hkept, hlisted, hpassed, hok]
    exact removed_of_filter (by simp [Effect.isPop, hptr, hpush]) htaken
  · -- the push was refused: the transaction is the command's own and is aborted
    have hout : s.cmd.outputResult = some [.error c.destResult.err.message] := by
      rw [hcmd, BlockingCommand.outputResult, BLMoveCommand.outputResult, if_neg (by omega),
        if_neg (by omega), if_pos ⟨hstep, herr⟩]
    refine ⟨_, hout, ?_⟩
    rw [hkept, hlisted, hpassed, hauto, decide_eq_false herr, decide_eq_false hnil]
    rfl

lemma MovePhase.step_pushed (hexec : s.executed = true) (hallowed : s.allowed event = true) :
    MovePhase isLeft autoCommit (s.step autoCommit event) := by
  rcases allowed_done (not_blocking hcmd (by omega)) hexec hallowed with ⟨k, object, rfl⟩ | rfl
  · exact .pushed c e effect push hcmd hstep hexec hcarries.others heffects hptr hpush htaken
      hresult
  · exact advance_pushed hcmd hstep hcarries hptr htaken heffects hpush hresult

end Pushing

omit hcmd

theorem MovePhase.step {e : Event} (hphase : MovePhase isLeft autoCommit s)
    (hallowed : s.allowed e = true) (hfav : favourable autoCommit s e = true) :
    MovePhase isLeft autoCommit (s.step autoCommit e) := by
  cases hphase with
  | trying c hcmd hshape hstep hforward hown hop hquiet hexec =>
    exact step_trying hcmd hshape hforward hown hstep hop hquiet hexec hallowed hfav
  | tried c hcmd hshape hstep hforward hown hexec htried =>
    exact step_tried hcmd hshape hforward hown hstep hexec htried hallowed
  | waiting c hcmd hshape hstep hforward hown hop hquiet hreports hheld =>
    exact step_waiting hcmd hshape hforward hown hstep hop hquiet hreports hheld hallowed
  | expired c hcmd hshape hstep hforward hop hquiet hdiscard =>
    exact step_expired hcmd hshape hforward hstep hop hquiet hdiscard hallowed
  | answered c hcmd hshape hstep hforward hop hquiet hanswered =>
    exact step_answered hcmd hshape hforward hstep hop hquiet hanswered hallowed
  | chosen c hcmd hshape hstep hforward hop hquiet hexec hwon hheld =>
    exact step_chosen hcmd hshape hforward hstep hwon hop hquiet hexec hheld hallowed hfav
  | done c e hcmd hshape hstep hforward hexec hwon hpopped =>
    exact step_done hcmd hshape hforward hstep hwon hexec hpopped hallowed
  | pushing c e effect hcmd hstep hexec hcarries heffects hptr htaken =>
    exact step_pushing hcmd hstep hcarries hptr htaken hexec heffects hallowed hfav
  | pushed c e effect push hcmd hstep hexec hcarries heffects hptr hpush htaken hresult =>
    exact step_pushed hcmd hstep hcarries hptr htaken heffects hpush hresult hexec hallowed
  | finished hserves hended =>
    obtain ⟨k, object, rfl⟩ := step_of_ended hended hallowed
    exact .finished ⟨hserves.1, hserves.2, hserves.3, hserves.4, hserves.5, hserves.6⟩ hended

/-- Each phase knows which effects there are, and the promise is about these. -/
lemma MovePhase.serves (hphase : MovePhase isLeft autoCommit s) : Serves isLeft s := by
  cases hphase with
  | trying c hcmd hshape hstep hforward hown hop hquiet hexec =>
    exact hquiet.serves (decided_of_not_forwarded (by rw [hcmd]; exact hforward))
  | tried c hcmd hshape hstep hforward hown hexec htried =>
    have hfresh : s.cmd.hasForwarded = false := by rw [hcmd]; exact hforward
    exact htried.serves hfresh fun _ => nofun
  | waiting c hcmd hshape hstep hforward hown hop hquiet hreports hheld =>
    exact hquiet.serves (decided_of_not_forwarded (by rw [hcmd]; exact hforward))
  | expired c hcmd hshape hstep hforward hop hquiet hdiscard =>
    refine hquiet.serves fun _ => ⟨none, fun i p hp hne => ?_⟩
    rw [hcmd, blockPtrs, hdiscard] at hp
    exact absurd (mem_singleton.1 (mem_of_getElem? hp)) hne
  | answered c hcmd hshape hstep hforward hop hquiet hanswered =>
    refine hquiet.serves fun _ => ⟨some 0, fun i p hp _ => ?_⟩
    rw [hcmd] at hp
    have hi := (List.getElem?_eq_some_iff.1 hp).1
    obtain rfl : i = 0 := Nat.lt_one_iff.1 hi
    obtain ⟨object, hfound, hsome⟩ := hanswered.found
    exact ⟨rfl, fun h => hsome (h object hfound)⟩
  | chosen c hcmd hshape hstep hforward hop hquiet hexec hwon hheld =>
    exact hquiet.serves (Won.decided (by rw [hcmd]; exact hwon))
  | done c e hcmd hshape hstep hforward hexec hwon hpopped =>
    exact hpopped.serves hwon.first fun _ => by rw [hcmd]; exact hwon
  | pushing c e effect hcmd hstep hexec hcarries heffects hptr htaken =>
    refine serves_of_popped hcarries.popping ?_ hcarries.first ?_ ?_
    · rw [heffects]
      exact fun e' he' => .inl (mem_singleton.1 he' ▸ hptr)
    · rw [hcmd]
      exact hcarries.won
    · rw [hcarries.outcome]
      nofun
  | pushed c e effect push hcmd hstep hexec hcarries heffects hptr hpush htaken hresult =>
    refine serves_of_popped hcarries.popping ?_ hcarries.first ?_ ?_
    · rw [heffects]
      intro e' he'
      rcases mem_cons.1 he' with rfl | he'
      · exact .inl hptr
      · exact .inr (mem_singleton.1 he' ▸ hpush)
    · rw [hcmd]
      exact hcarries.won
    · rw [hcarries.outcome]
      nofun
  | finished hserves houtcome => exact hserves

end Move

/-! ## The recorded changes -/

lemma rollback_concat (effects : List Effect) (e : Effect) (db : Db) :
    rollback (effects ++ [e]) db = rollback effects (update db e.key e.before) := by
  rw [rollback, foldr_append]
  rfl

lemma rollback_update {effects : List Effect} {key : Bytes} (hkey : ∀ e ∈ effects, e.key ≠ key)
    (object : Option Obj) (db : Db) :
    rollback effects (update db key object) =
      update (rollback effects db) key object := by
  induction effects with
  | nil => rfl
  | cons e effects ih =>
    change update (rollback effects _) _ _ = _
    rw [ih fun e' he' => hkey e' (mem_cons_of_mem _ he')]
    exact update_comm (hkey e mem_cons_self).symm _ _ _

/-- Without its recorded changes, which are on locked keys, the command has changed nothing. -/
structure Restored (s : Session) : Prop where
  world : rollback s.effects s.db = s.world
  locked : ∀ e ∈ s.effects, e.key ∈ s.locked

section Restored

variable {autoCommit : Bool} {s : Session}

lemma ExecResult.keepsLock_of_modifies {result : ExecResult} (hmodifies : result.modifies = true) :
    result.keepsLock = true := by
  cases result <;> first | rfl | cases hmodifies

lemma Restored.runSub (hs : Restored s) (key : Bytes) (i : Nat) (cmd : BlockLPopCommand) :
    Restored (s.runSub key i cmd) := by
  cases hmodifies : (cmd.executeOn (s.db key)).2.modifies with
  | false =>
    have heffects : (s.runSub key i cmd).effects = s.effects := by
      rw [effects_runSub, hmodifies]
      rfl
    have hdb : (s.runSub key i cmd).db = s.db := if_neg (by rw [hmodifies]; simp)
    refine ⟨?_, fun e he => mem_locked_runSub (hs.locked e (heffects ▸ he))⟩
    rw [heffects, hdb]
    exact hs.world
  | true =>
    have hlocked : (s.runSub key i cmd).locked = key :: s.locked :=
      if_pos (ExecResult.keepsLock_of_modifies hmodifies)
    have heffects : (s.runSub key i cmd).effects = s.effects ++ [⟨.sub i, key, s.db key,
        cmd.applied (s.db key) (cmd.executeOn (s.db key)).2⟩] := by
      rw [effects_runSub, if_pos hmodifies]
    have hdb : (s.runSub key i cmd).db = update s.db key
        (cmd.applied (s.db key) (cmd.executeOn (s.db key)).2) := if_pos hmodifies
    refine ⟨?_, fun e he => ?_⟩
    · rw [heffects, hdb, rollback_concat, update_idem, update_eq_self]
      exact hs.world
    · rw [hlocked]
      rw [heffects] at he
      rcases mem_append.1 he with hold | hnew
      · exact mem_cons_of_mem _ (hs.locked e hold)
      · rw [mem_singleton.1 hnew]
        exact mem_cons_self

lemma Restored.runPush (hs : Restored s) (c : BLMoveCommand) : Restored (s.runPush c) := by
  refine ⟨?_, fun e he => ?_⟩
  · change rollback (s.effects ++ [_]) (update s.db _ _) = _
    rw [rollback_concat, update_idem, update_eq_self]
    exact hs.world
  · rcases mem_append.1 he with hold | hnew
    · exact mem_cons_of_mem _ (hs.locked e hold)
    · rw [mem_singleton.1 hnew]
      exact mem_cons_self

lemma Restored.execute (hs : Restored s) (j : Nat) : Restored (s.execute j) := by
  unfold Session.execute
  split
  · split
    · exact hs.runSub _ _ _
    · exact hs
  · split
    · exact hs.runPush _
    · exact hs
  · exact hs

lemma Restored.finish (hs : Restored s) : Restored (s.finish autoCommit) := by
  unfold Session.finish
  by_cases hkept : (!autoCommit || s.cmd.isPassed) = true
  · simp only [hkept, if_true]
    exact ⟨hs.world, hs.locked⟩
  · simp only [hkept]
    exact ⟨hs.world, nofun⟩

lemma Restored.step {e : Event} (hs : Restored s) (hallowed : s.allowed e = true) :
    Restored (s.step autoCommit e) := by
  cases e with
  | others key object =>
    have hfree : key ∉ s.locked := of_decide_eq_true hallowed
    refine ⟨?_, hs.locked⟩
    change rollback s.effects (update s.db key object) = update s.world key object
    rw [rollback_update fun e he => ne_of_mem_of_not_mem (hs.locked e he) hfree, hs.world]
  | execute j => exact hs.execute j
  | forward => exact ⟨hs.world, hs.locked⟩
  | advance =>
    change Restored (s.advance autoCommit)
    unfold advance
    split
    · exact hs.finish
    · split
      · exact ⟨hs.world, hs.locked⟩
      · exact Restored.finish ⟨hs.world, hs.locked⟩
      · exact ⟨hs.world, hs.locked⟩

end Restored

/-! ## All runs -/

variable (autoCommit : Bool)

/-- The runs in which the engine keeps to its contract and every step is favourable. -/
abbrev FavourableRun (start : Session) (h : List Event) (s : Session) : Prop :=
  Lib.GuardedRun (Session.step autoCommit)
    (fun _ s e => (s.allowed e && favourable autoCommit s e) = true) start h s

def Phase (req : Request) (s : Session) : Prop :=
  match req with
  | .blpop keys | .brpop keys => MPopPhase keys req.isLeft 1 false s
  | .blmpop keys _ count => MPopPhase keys req.isLeft (count % 2 ^ 32) true s
  | .blmove .. => MovePhase req.isLeft autoCommit s

lemma Phase.start (req : Request) (multi : Bool) (deadline : Nat) (db : Db) :
    Phase autoCommit req (.start req multi deadline db) := by
  have hop : (req.subCommand multi).opType = .noBlock ∨
      (req.subCommand multi).opType = .popNoBlock := by
    cases multi
    · exact .inr rfl
    · exact .inl rfl
  have hquiet : Quiet (.start req multi deadline db) := ⟨rfl, rfl, rfl⟩
  cases req with
  | blpop keys => exact MPopPhase.start hop rfl rfl rfl hquiet rfl fun _ => rfl
  | brpop keys => exact MPopPhase.start hop rfl rfl rfl hquiet rfl fun _ => rfl
  | blmpop keys isLeft count => exact MPopPhase.start hop rfl rfl rfl hquiet rfl fun _ => rfl
  | blmove sour dest sourLeft destLeft =>
    exact MovePhase.trying _ rfl ⟨rfl, rfl⟩ rfl rfl rfl hop hquiet rfl

lemma Phase.step {autoCommit : Bool} {req : Request} {s : Session} {e : Event}
    (hphase : Phase autoCommit req s) (hallowed : s.allowed e = true)
    (hfav : favourable autoCommit s e = true) : Phase autoCommit req (s.step autoCommit e) := by
  cases req with
  | blpop keys => exact MPopPhase.step (fun _ => rfl) hphase hallowed hfav
  | brpop keys => exact MPopPhase.step (fun _ => rfl) hphase hallowed hfav
  | blmpop keys isLeft count => exact MPopPhase.step nofun hphase hallowed hfav
  | blmove sour dest sourLeft destLeft => exact MovePhase.step hphase hallowed hfav

lemma Phase.serves {autoCommit : Bool} {req : Request} {s : Session}
    (hphase : Phase autoCommit req s) : Serves req.isLeft s := by
  cases req with
  | blpop keys => exact MPopPhase.serves hphase
  | brpop keys => exact MPopPhase.serves hphase
  | blmpop keys isLeft count => exact MPopPhase.serves hphase
  | blmove sour dest sourLeft destLeft => exact MovePhase.serves hphase

/-- **Blocking commands** keep their promise at every moment of every run whose steps are
favourable. -/
theorem blocking_command_serves_once (req : Request) (multi : Bool)
    (deadline : Nat) (db : Db) (h : List Event) (s : Session)
    (hrun : FavourableRun autoCommit (.start req multi deadline db) h s) :
    ServesOnce req.isLeft s := by
  have hinv : Phase autoCommit req s ∧ Restored s := by
    refine hrun.invariant (fun _ s => Phase autoCommit req s ∧ Restored s)
      ⟨.start autoCommit req multi deadline db, rfl, nofun⟩ ?_
    rintro _ s e ⟨hphase, hrestored⟩ hguard
    obtain ⟨hallowed, hfav⟩ := Bool.and_eq_true_iff.1 hguard
    exact ⟨hphase.step hallowed hfav, hrestored.step hallowed⟩
  exact ⟨hinv.1.serves, hinv.2.world⟩

/-- BLPOP of two absent keys: an element comes to the second one, and the client gets it. -/
def wokenUp : List Event :=
  [.execute 0, .advance, .execute 0, .advance, .execute 0, .execute 1,
    .others (ascii "b") (some (.list [ascii "x"])), .execute 1, .forward, .execute 0, .advance,
    .execute 0, .advance]

theorem blpop_woken_up :
    let start := start (.blpop [ascii "a", ascii "b"]) false 1 fun _ => none
    let s := wokenUp.foldl (step true) start
    FavourableRun true start wokenUp s ∧ ServesOnce true s ∧ s.outcome = some (some
        [.arrayStart 2, .string (ascii "b"), .string (ascii "x"), .arrayEnd]) := by
  intro start s
  have hrun : FavourableRun true start wokenUp s := Lib.GuardedRun.of_checked (by decide +kernel)
  exact ⟨hrun, blocking_command_serves_once _ _ _ _ _ _ _ hrun, by decide +kernel⟩

/-- BLPOP of two absent keys: one becomes a string, one gets an element before `ForwardResult`. -/
def wrongTypeFirst : List Event :=
  [.execute 0, .advance, .execute 0, .advance, .others (ascii "a") (some .other),
    .others (ascii "b") (some (.list [ascii "x"])), .execute 0, .execute 1, .forward, .advance,
    .execute 0, .advance]

/-- BLMOVE in MULTI to a key of another type. -/
def refusedMove : List Event := [.execute 0, .advance, .execute 0, .advance]

/-- The key of another type is sent to pop, and the client gets an error although there is an
element; and BLMOVE in MULTI replies an error and keeps what it has removed. -/
theorem blocking_command_misserves :
    (let start := start (.blpop [ascii "a", ascii "b"]) false 1 fun _ => none
     let s := wrongTypeFirst.foldl (step true) start
     Lib.GuardedRun (step true) (fun _ s e => s.allowed e = true) start wrongTypeFirst s ∧
      s.popping = [0] ∧ s.found 0 = some (some .other) ∧
      s.outcome = some (some [.error RdCode.wrongType.message]) ∧ ¬ServesOnce true s) ∧
    (let db : Db := fun k => if k = ascii "s" then some (.list [ascii "x"]) else some .other
     let start := start (.blmove (ascii "s") (ascii "d") true true) true 0 db
     let s := refusedMove.foldl (step false) start
     Lib.GuardedRun (step false) (fun _ s e => s.allowed e = true) start refusedMove s ∧
      s.db (ascii "s") = none ∧ s.outcome = some (some [.error RdCode.wrongType.message]) ∧
      ¬ServesOnce true s) := by
  constructor
  · intro start s
    have hfound : s.found 0 = some (some .other) := by decide +kernel
    have hpopping : s.popping = [0] := by decide +kernel
    refine ⟨Lib.GuardedRun.of_checked (by decide +kernel), hpopping, hfound, by decide +kernel, ?_⟩
    intro hserves
    obtain ⟨x, xs, helements⟩ := (hserves.first 0 (by rw [hpopping]; exact mem_singleton.2 rfl)).1
    rw [hfound] at helements
    cases helements
  · intro db start s
    have houtcome : s.outcome = some (some [.error RdCode.wrongType.message]) := by decide +kernel
    refine ⟨Lib.GuardedRun.of_checked (by decide +kernel), by decide +kernel, houtcome, ?_⟩
    intro hserves
    obtain ⟨out, hout, hremoved⟩ := hserves.listed _ houtcome
    cases hout
    obtain ⟨ys, hnone, hbefore⟩ := hremoved
    cases ys with
    | nil => cases hbefore
    | cons y ys => cases hnone

end EloqKV.Blocking
