/-
  The conditions of EXPIRE (`ParseExpireCommand` and `ExpireCommand` in `src/redis_command.cpp`).

  The parser admits one condition, or XX together with GT or LT.  `ExecuteOn` asks for XX first
  and looks behind it for LT alone, so that XX GT moves every deadline.
-/
import EloqKV.Objects.Recover

namespace EloqKV.Objects.ExpireCommand

inductive ExpireOption where
  | nx
  | xx
  | gt
  | lt
  deriving DecidableEq, Repr

def ExpireOption.flag : ExpireOption → UInt8
  | nx => expireNX
  | xx => expireXX
  | gt => expireGT
  | lt => expireLT

/-- The flags of `ParseExpireCommand`, if the options are accepted. -/
def parseFlags (options : List ExpireOption) : Option UInt8 :=
  let flags := options.foldl (fun flags option => flags ||| option.flag) 0
  let has := fun option : ExpireOption => flags &&& option.flag != 0
  if 2 < options.length then none
  else if has .lt && has .gt then none
  else if (has .nx && has .gt) || (has .nx && has .lt) || (has .nx && has .xx) then none
  else some flags

variable {S : Type} [ScoreBits S]

/-- EXPIRE at a time of the clock: the object it leaves, and the reply. -/
def run (order : HashOrder) (now : Nat) (cmd : ExpireCommand) (obj : RedisObject S) :
    RedisObject S × Nat :=
  match ((TTLCommand.expire cmd).executeOn order now obj).1 with
  | .write => ((TTLCommand.expire cmd).commitOn obj, 1)
  | _ => (obj, 0)

/-! ## The conditions -/

/-- An object is there until its deadline. -/
def Live (now : Nat) (ttl : Option Nat) : Prop := ∀ t ∈ ttl, now < t

/-- When an option lets a new deadline pass; no deadline is an infinite one. -/
def ExpireOption.Holds (new : Nat) (ttl : Option Nat) : ExpireOption → Prop
  | nx => ttl = none
  | xx => ttl ≠ none
  | gt => ∃ old ∈ ttl, old < new
  | lt => ∀ old ∈ ttl, new < old

/-- EXPIRE moves the deadline exactly if every option holds, replies accordingly, leaves the value
and otherwise the deadline, and the key is gone if the new deadline is not in the future. -/
def ExpireRight (order : HashOrder) (now : Nat) (options : List ExpireOption)
    (cmd : ExpireCommand) (obj : RedisObject S) : Prop :=
  let pass := ∀ option ∈ options, option.Holds cmd.expireTs.toNat obj.ttl
  (pass → cmd.run order now obj = (⟨obj.payload, some cmd.expireTs.toNat⟩, 1)) ∧
    (¬pass → cmd.run order now obj = (obj, 0)) ∧
    (pass → cmd.expireTs.toNat ≤ now → ¬Live now (cmd.run order now obj).1.ttl)

/-- The flags are the options, at most two of them, and the checks leave no clash. -/
lemma parseFlags_spec {options : List ExpireOption} {cmd : ExpireCommand}
    (h : parseFlags options = some cmd.flags) :
    (∀ o : ExpireOption, cmd.has o.flag = decide (o ∈ options)) ∧
      (cmd.flags = 0 ↔ options = []) ∧ (.gt ∈ options → .lt ∉ options) ∧
      (.nx ∈ options → .xx ∉ options ∧ .gt ∉ options ∧ .lt ∉ options) := by
  unfold has
  match options, h with
  | [], h =>
    rw [← Option.some.inj h]
    exact ⟨fun o => by cases o <;> rfl, by decide⟩
  | [a], h =>
    cases a <;> rw [← Option.some.inj h] <;> exact ⟨fun o => by cases o <;> rfl, by decide⟩
  | [a, b], h =>
    cases a <;> cases b <;> first
      | exact nomatch (show none = some cmd.flags from h)
      | rw [← Option.some.inj h]
        exact ⟨fun o => by cases o <;> rfl, by decide⟩
  | _ :: _ :: _ :: _, h =>
    simp only [parseFlags] at h
    rw [if_pos (by simp)] at h
    exact nomatch h

/-- Under XX only LT is looked for, so GT lets every deadline pass there. -/
lemma willSetTTL_iff {now : Nat} {options : List ExpireOption} {cmd : ExpireCommand}
    (hflags : parseFlags options = some cmd.flags) {ttl : Option Nat} (hlive : Live now ttl) :
    cmd.willSetTTL now ttl = true ↔
      (∀ o ∈ options, o.Holds cmd.expireTs.toNat ttl) ∨
        (.xx ∈ options ∧ .gt ∈ options ∧ ∃ old ∈ ttl, cmd.expireTs.toNat ≤ old) := by
  obtain ⟨hhas, hzero, hgt, hnx⟩ := parseFlags_spec hflags
  have hbits := And.intro (hhas .nx) (And.intro (hhas .xx) (And.intro (hhas .gt) (hhas .lt)))
  simp only [ExpireOption.flag] at hbits
  have hall : (∀ o ∈ options, o.Holds cmd.expireTs.toNat ttl) ↔
      (.nx ∈ options → ttl = none) ∧ (.xx ∈ options → ttl ≠ none) ∧
        (.gt ∈ options → ∃ old ∈ ttl, old < cmd.expireTs.toNat) ∧
        (.lt ∈ options → ∀ old ∈ ttl, cmd.expireTs.toNat < old) := by
    refine ⟨fun h => ⟨h .nx, h .xx, h .gt, h .lt⟩, fun h o ho => ?_⟩
    cases o
    · exact h.1 ho
    · exact h.2.1 ho
    · exact h.2.2.1 ho
    · exact h.2.2.2 ho
  have hsome : options ≠ [] → .nx ∈ options ∨ .xx ∈ options ∨ .gt ∈ options ∨ .lt ∈ options := by
    intro hne
    obtain ⟨o, ho⟩ := List.exists_mem_of_ne_nil options hne
    cases o <;> simp [ho]
  rw [hall]
  simp only [willSetTTL, hbits, ne_eq, hzero, decide_eq_true_eq]
  by_cases hnil : options = []
  · simp [hnil]
  have hsome := hsome hnil
  cases ttl with
  | none => grind
  | some old =>
    have hnow := hlive old rfl
    simp only [hnil, hnow, not_false_eq_true, if_true, Option.mem_some_iff, exists_eq_left',
      forall_eq', reduceCtorEq]
    clear hall hhas
    grind

/-- **EXPIRE does what its options say, except that XX GT moves a deadline backward as well.** -/
theorem expire_right_iff (order : HashOrder) {now : Nat} {options : List ExpireOption}
    {cmd : ExpireCommand} (hflags : parseFlags options = some cmd.flags) {obj : RedisObject S}
    (hlive : Live now obj.ttl) : ExpireRight order now options cmd obj ↔
      ¬(.xx ∈ options ∧ .gt ∈ options ∧ ∃ old ∈ obj.ttl, cmd.expireTs.toNat ≤ old) := by
  have hwill := willSetTTL_iff hflags hlive
  have hrun : cmd.run order now obj = if cmd.willSetTTL now obj.ttl then
      (⟨obj.payload, some cmd.expireTs.toNat⟩, 1) else (obj, 0) := by
    simp only [run, TTLCommand.executeOn]
    split_ifs <;> rfl
  constructor
  · rintro ⟨-, hkeep, -⟩ hbad
    have hfail : ¬∀ o ∈ options, o.Holds cmd.expireTs.toNat obj.ttl := by
      intro hpass
      obtain ⟨-, hgt, old, hold, hle⟩ := hbad
      obtain ⟨old', hold', hlt⟩ := hpass .gt hgt
      cases Option.mem_unique hold hold'
      omega
    have hreply := congrArg Prod.snd (hkeep hfail)
    rw [hrun, if_pos (hwill.mpr (.inr hbad))] at hreply
    cases hreply
  · intro hgood
    rw [or_iff_left hgood] at hwill
    refine ⟨fun hpass => ?_, fun hfail => ?_, fun hpass hpast hlive => ?_⟩
    · rw [hrun, if_pos (hwill.mpr hpass)]
    · rw [hrun, if_neg (mt hwill.mp hfail)]
    · rw [hrun, if_pos (hwill.mpr hpass)] at hlive
      exact Nat.not_lt.mpr hpast (hlive _ rfl)

/-- `EXPIRE k ... XX LT` on a string whose deadline is later. -/
theorem expire_xx_lt_moves :
    let obj : RedisObject Double := ⟨.string (some (ascii "v")), some 20⟩
    ExpireRight listedOrder 5 [.xx, .lt] ⟨10, 10⟩ obj ∧
      (ExpireCommand.mk 10 10).run listedOrder 5 obj
        = (⟨.string (some (ascii "v")), some 10⟩, 1) :=
  ⟨(expire_right_iff listedOrder rfl (by rintro t ⟨⟩; decide)).mpr nofun, rfl⟩

/-- `EXPIRE k ... XX GT` takes a deadline back from 20 to 10. -/
theorem expire_xx_gt_moves_back :
    parseFlags [.xx, .gt] = some 6 ∧
      (ExpireCommand.mk 10 6).run listedOrder 5 (⟨.list .empty, some 20⟩ : RedisObject Double)
        = (⟨.list .empty, some 10⟩, 1) :=
  ⟨rfl, rfl⟩

end EloqKV.Objects.ExpireCommand
