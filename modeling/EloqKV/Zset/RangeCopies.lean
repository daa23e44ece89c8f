/-
  Range commands that are copied (`Clone`) or sent (`Serialize`, `CreateTxCommand`).

  What is made of an image turns out to be the copy of its command, so one comparison of a
  copy with its original settles both.
-/
import EloqKV.Objects.RoundTrip
import EloqKV.Zset.RangeCommands

open List hiding Cursor

namespace EloqKV.ZRange

open ZRange

open Objects (ScoreBits parses_readBool parses_readInt32 parses_readDouble parses_enum
  parses_readString)
open Zset (RedisZsetObject ZNode LexSpec)

/-! ## What an image gives back -/

/-- The ends have the types of the source: an `int`, or a string with a `uint32_t` length. -/
def RangeEnd.Fits {S : Type} : RangeEnd S → Prop
  | .int n => IsInt32 n
  | .double _ => True
  | .string s => s.stringView.length < 2 ^ 32

structure ZRangeSpec.Fits {S : Type} (spec : ZRangeSpec S) : Prop where
  start : spec.optStart.Fits
  stop : spec.optEnd.Fits

structure ZRangeConstraint.Fits (constraint : ZRangeConstraint) : Prop where
  offset : IsInt32 constraint.optOffset
  limit : IsInt32 constraint.optLimit

def RangeCommand.Fits {S : Type} : RangeCommand S → Prop
  | zrange cmd => cmd.constraint.Fits ∧ cmd.spec.Fits
  | zremrange cmd => cmd.spec.Fits

section RoundTrip

open Lib.Reader.Read (Parses parses_byte)

lemma ZRangeConstraint.Fits.parses {constraint : ZRangeConstraint} (h : constraint.Fits) :
    Parses readConstraint constraint.bytes constraint :=
  (parses_readBool constraint.optWithscores).bind ((parses_readInt32 h.offset).bind
    ((parses_readInt32 h.limit).bind
      ((parses_enum (ZRangeType.ofByte_toByte constraint.rangetype)).bind
        ((parses_enum (ZRangeDirection.ofByte_toByte constraint.direction)).map fun direction =>
          { constraint with direction := direction }))))

variable {S : Type} [ScoreBits S]

lemma RangeEnd.Fits.parses {e : RangeEnd S} (h : e.Fits) : Parses readEnd e.bytes e.copy := by
  cases e with
  | int n => exact (parses_byte 2).bind ((parses_readInt32 h).map RangeEnd.int)
  | double d => exact (parses_byte 1).bind ((parses_readDouble d).map RangeEnd.double)
  | string s => exact (parses_byte 0).bind ((parses_readString h).map RangeEnd.string)

lemma ZRangeSpec.Fits.parses {spec : ZRangeSpec S} (h : spec.Fits) :
    Parses readSpec spec.bytes spec.copy :=
  (parses_readBool spec.minex).bind ((parses_readBool spec.maxex).bind
    ((parses_readBool spec.negative).bind ((parses_readBool spec.positive).bind
      (h.start.parses.bind (h.stop.parses.map fun optEnd =>
        { spec.copy with optEnd := optEnd })))))

namespace RangeCommand

lemma Fits.parses_body {cmd : RangeCommand S} (h : cmd.Fits) :
    Parses (readBody cmd.commandType) cmd.body cmd.copy := by
  cases cmd with
  | zrange cmd =>
    exact h.1.parses.bind (h.2.parses.bind ((parses_readBool cmd.multiTypeRange).map
      fun multiTypeRange => zrange ⟨cmd.constraint, cmd.spec.copy, multiTypeRange⟩))
  | zremrange cmd =>
    exact (parses_enum (ZRangeType.ofByte_toByte cmd.rangeType)).bind
      (h.parses.map fun spec => zremrange ⟨cmd.rangeType, spec⟩)

/-- **An image gives back the copy of its command.** -/
theorem Fits.createTxCommand_image {cmd : RangeCommand S} (h : cmd.Fits) :
    createTxCommand cmd.image = .ok cmd.copy := by
  have hread := (parses_byte cmd.commandType).bind h.parses_body [] false
  rw [append_nil] at hread
  rw [createTxCommand, image, Lib.Reader.Cursor.at]
  exact congrArg Prod.fst hread

end RangeCommand

end RoundTrip

/-! ## What the parsers build -/

section Parsed

variable {S : Type}

/-- The alternatives an evaluation of the type reads are set. -/
def ZRangeSpec.Holds (type : ZRangeType) (spec : ZRangeSpec S) : Prop :=
  match type with
  | .auto | .rank => ∃ start stop, spec.optStart = .int start ∧ spec.optEnd = .int stop
  | .score => ∃ start stop, spec.optStart = .double start ∧ spec.optEnd = .double stop
  | .lex => ∃ start stop, spec.optStart = .string start ∧ spec.optEnd = .string stop

/-- The ends of a request are those of an empty lexicographical range. -/
def EmptyLex (type : ZRangeType) (min max : Bytes) : Prop :=
  type = .lex ∧ (min = ascii "+" ∨ max = ascii "-")

instance decidableEmptyLex (type : ZRangeType) (min max : Bytes) :
    Decidable (EmptyLex type min max) :=
  inferInstanceAs (Decidable (_ ∧ _))

lemma isInt32_of_getIntFromSv {sv : Bytes} {excluded : Bool} {n : Int}
    (h : getIntFromSv sv = some (excluded, n)) : IsInt32 n := by
  unfold getIntFromSv at h
  split_ifs at h
  · obtain ⟨num, -, heq⟩ := Option.map_eq_some_iff.mp h
    cases heq
    exact isInt32_toInt32 num
  · obtain ⟨num, -, heq⟩ := Option.map_eq_some_iff.mp h
    cases heq
    exact isInt32_toInt32 num

lemma length_of_getEloqStringFromSv {sv : Bytes} {excluded sign : Bool} {s : EloqString}
    (h : getEloqStringFromSv sv = some (excluded, s, sign)) : s.stringView.length ≤ sv.length := by
  have hdrop : (sv.drop 1).length ≤ sv.length := by
    rw [length_drop]
    omega
  unfold getEloqStringFromSv at h
  split_ifs at h
  · obtain ⟨-, rfl, -⟩ := Prod.mk.inj (Option.some.inj h) |>.imp_right Prod.mk.inj
    exact Nat.zero_le _
  · obtain ⟨-, rfl, -⟩ := Prod.mk.inj (Option.some.inj h) |>.imp_right Prod.mk.inj
    exact hdrop
  · obtain ⟨-, rfl, -⟩ := Prod.mk.inj (Option.some.inj h) |>.imp_right Prod.mk.inj
    exact hdrop

/-- A specification as the parsers leave it for a type and two ends. -/
structure ZRangeSpec.Parsed (type : ZRangeType) (min max : Bytes) (spec : ZRangeSpec S) :
    Prop where
  fits : spec.Fits
  null_iff : spec.null = true ↔ EmptyLex type min max
  holds : spec.null = false → spec.Holds type
  unset : spec.null = true → spec.optStart = .int 0

variable [ScoreTexts S]

omit [ScoreTexts S] in
lemma parsed_ints {type : ZRangeType} {min max : Bytes} (htype : type = .auto ∨ type = .rank)
    {minex maxex : Bool} {start stop : Int} (hstart : getIntFromSv min = some (minex, start))
    (hstop : getIntFromSv max = some (maxex, stop)) :
    ({ minex := minex, maxex := maxex, optStart := .int start, optEnd := .int stop } :
      ZRangeSpec S).Parsed type min max where
  fits := ⟨isInt32_of_getIntFromSv hstart, isInt32_of_getIntFromSv hstop⟩
  null_iff := by
    rcases htype with rfl | rfl <;> simp [EmptyLex]
  holds := by
    intro
    rcases htype with rfl | rfl <;> exact ⟨start, stop, rfl, rfl⟩
  unset := nofun

lemma parsed_of_parseEnds {type : ZRangeType} {min max : Bytes} {spec : ZRangeSpec S}
    (hmin : min.length < 2 ^ 32) (hmax : max.length < 2 ^ 32)
    (h : parseEnds type min max = .ok spec) : spec.Parsed type min max := by
  unfold parseEnds at h
  split at h
  · split at h
    · cases h
      exact parsed_ints (.inl rfl) ‹_› ‹_›
    · contradiction
  · split at h
    · cases h
      exact parsed_ints (.inr rfl) ‹_› ‹_›
    · contradiction
  · split at h
    · cases h
      exact ⟨⟨trivial, trivial⟩, by simp [EmptyLex], fun _ => ⟨_, _, rfl, rfl⟩, nofun⟩
    · contradiction
  · split at h
    · rename_i hempty
      cases h
      have hzero : IsInt32 0 := ⟨by decide, by decide⟩
      exact ⟨⟨hzero, hzero⟩, by simp [EmptyLex, hempty], nofun, fun _ => rfl⟩
    · rename_i hempty
      split at h
      · rename_i minex start negative maxex stop positive hstart hstop
        cases h
        have hstartLength := length_of_getEloqStringFromSv hstart
        have hstopLength := length_of_getEloqStringFromSv hstop
        exact ⟨⟨Nat.lt_of_le_of_lt hstartLength hmin, Nat.lt_of_le_of_lt hstopLength hmax⟩,
          by simp [EmptyLex, hempty], fun _ => ⟨_, _, rfl, rfl⟩, nofun⟩
      · contradiction

variable {constraint after : ZRangeConstraint}

omit [ScoreTexts S] in
lemma ZRangeConstraint.Fits.parseFlag {name arg : Bytes} (hfits : constraint.Fits)
    (h : parseFlag name arg constraint = .ok after) : after.Fits := by
  unfold ZRange.parseFlag at h
  split_ifs at h
  all_goals
    cases h
    exact ⟨hfits.offset, hfits.limit⟩

lemma fits_of_parseLimit {offset limit : Bytes}
    (h : parseLimit offset limit constraint = .ok after) : after.Fits := by
  unfold parseLimit at h
  split at h
  · cases h
    exact ⟨isInt32_of_getIntFromSv ‹_›, isInt32_of_getIntFromSv ‹_›⟩
  · contradiction

lemma bind_eq_ok {ε α β : Type} {x : Except ε α} {f : α → Except ε β} {b : β} :
    x >>= f = .ok b ↔ ∃ a, x = .ok a ∧ f a = .ok b := by
  cases x with
  | error e => exact ⟨nofun, fun ⟨_, h, _⟩ => nomatch h⟩
  | ok a => exact ⟨fun h => ⟨a, rfl, h⟩, fun ⟨a', h, hf⟩ => Except.ok.inj h ▸ hf⟩

variable {args : List Bytes}

lemma ZRangeConstraint.Fits.parseOptions {name : Bytes} (hfits : constraint.Fits)
    (h : parseOptions name args constraint = .ok after) : after.Fits := by
  induction args, constraint using parseOptions.induct with
  | case1 constraint =>
    cases h
    exact hfits
  | case2 arg offset limit rest constraint hlimit ih =>
    rw [ZRange.parseOptions, if_pos hlimit] at h
    obtain ⟨next, hnext, hrest⟩ := bind_eq_ok.mp h
    exact ih next (fits_of_parseLimit hnext) hrest
  | case3 arg offset limit rest constraint hlimit ih =>
    rw [ZRange.parseOptions, if_neg hlimit] at h
    obtain ⟨next, hnext, hrest⟩ := bind_eq_ok.mp h
    exact ih next (hfits.parseFlag hnext) hrest
  | case4 arg rest constraint hshort ih =>
    rw [ZRange.parseOptions] at h
    · obtain ⟨next, hnext, hrest⟩ := bind_eq_ok.mp h
      exact ih next (hfits.parseFlag hnext) hrest
    · exact hshort

/-- The argument that the minimum of a command comes from. -/
def RangeCommand.minArg (cmd : RangeCommand S) (args : List Bytes) : Bytes :=
  match cmd with
  | zrange cmd => cmd.constraint.minArg args
  | zremrange _ => args.getD 2 []

def RangeCommand.maxArg (cmd : RangeCommand S) (args : List Bytes) : Bytes :=
  match cmd with
  | zrange cmd => cmd.constraint.maxArg args
  | zremrange _ => args.getD 3 []

/-- A command as its parser leaves it. -/
structure RangeCommand.Parsed (args : List Bytes) (cmd : RangeCommand S) : Prop where
  fits : cmd.Fits
  spec : cmd.spec.Parsed cmd.rangeType (cmd.minArg args) (cmd.maxArg args)

/-- A parser whose commands are of that kind while lengths are those of a `uint32_t`. -/
def Builds (parser : List Bytes → Except String (RangeCommand S)) : Prop :=
  ∀ args cmd, (∀ arg ∈ args, arg.length < 2 ^ 32) → parser args = .ok cmd → cmd.Parsed args

lemma length_getD_lt (hargs : ∀ arg ∈ args, arg.length < 2 ^ 32) (i : Nat) :
    (args.getD i []).length < 2 ^ 32 := by
  rw [getD_eq_getElem?_getD]
  cases hi : args[i]? with
  | none => exact Nat.two_pow_pos 32
  | some arg => exact hargs arg (mem_of_getElem? hi)

lemma builds_parseRangeOf (name : String) (rangetype : ZRangeType) (direction : ZRangeDirection) :
    Builds (parseRangeOf (S := S) name rangetype direction) := by
  intro args cmd hargs h
  unfold parseRangeOf at h
  split at h
  · contradiction
  split at h
  · contradiction
  · rename_i constraint spec helement
    cases h
    obtain ⟨read, hread, h⟩ := bind_eq_ok.mp helement
    obtain ⟨-, -, h⟩ := bind_eq_ok.mp h
    obtain ⟨ends, hends, h⟩ := bind_eq_ok.mp h
    cases h
    have hzero : IsInt32 0 := ⟨by decide, by decide⟩
    have hunlimited : IsInt32 (-1) := ⟨by decide, by decide⟩
    have hstart : ({ rangetype := rangetype, direction := direction } : ZRangeConstraint).Fits :=
      ⟨hzero, hunlimited⟩
    have hfits := hstart.parseOptions hread
    have hspec := parsed_of_parseEnds (length_getD_lt hargs _) (length_getD_lt hargs _) hends
    exact ⟨⟨⟨hfits.offset, hfits.limit⟩, hspec.fits⟩, hspec⟩

lemma builds_parseZRevRange : Builds (parseZRevRange (S := S)) := by
  intro args cmd hargs h
  unfold parseZRevRange at h
  split at h
  · contradiction
  · exact builds_parseRangeOf _ _ _ args cmd hargs h

lemma builds_parseZRemRange (rangeType : ZRangeType) :
    Builds (parseZRemRange (S := S) rangeType) := by
  intro args cmd hargs h
  unfold parseZRemRange at h
  split at h
  · contradiction
  split at h
  · contradiction
  · rename_i spec hends
    cases h
    have hspec := parsed_of_parseEnds (length_getD_lt hargs 2) (length_getD_lt hargs 3) hends
    exact ⟨hspec.fits, hspec⟩

lemma builds_rangeParsers : ∀ entry ∈ rangeParsers S, Builds entry.2 := by
  simp only [rangeParsers, forall_mem_cons]
  exact ⟨builds_parseRangeOf _ _ _, builds_parseRangeOf _ _ _, builds_parseRangeOf _ _ _,
    builds_parseRangeOf _ _ _, builds_parseZRevRange, builds_parseRangeOf _ _ _,
    builds_parseRangeOf _ _ _, builds_parseZRemRange _, builds_parseZRemRange _,
    builds_parseZRemRange _, nofun⟩

lemma parsed_of_parseRangeCommand {cmd : RangeCommand S}
    (hargs : ∀ arg ∈ args, arg.length < 2 ^ 32) (h : parseRangeCommand args = some (.ok cmd)) :
    cmd.Parsed args := by
  obtain ⟨parser, hlookup, hparse⟩ := Option.map_eq_some_iff.mp h
  obtain ⟨before, after, htable, -⟩ := lookup_eq_some_iff.mp hlookup
  have hmem : (args.getD 0 [], parser) ∈ rangeParsers S := by
    rw [htable]
    exact mem_append_right before mem_cons_self
  exact builds_rangeParsers _ hmem args cmd hargs hparse

end Parsed

/-! ## Copies and originals -/

section Survival

variable {S : Type}

namespace RangeEnd

@[simp] lemma getInt_copy (e : RangeEnd S) : e.copy.getInt = e.getInt := by
  cases e <;> rfl

@[simp] lemma getDouble_copy (e : RangeEnd S) : e.copy.getDouble = e.getDouble := by
  cases e <;> rfl

@[simp] lemma getString_copy (e : RangeEnd S) : e.copy.getString = e.getString := by
  cases e with
  | string s => exact congrArg Except.ok (EloqString.stringView_clone s)
  | _ => rfl

end RangeEnd

@[simp] lemma ZRangeSpec.lexSpec_copy (spec : ZRangeSpec S) :
    spec.copy.lexSpec = spec.lexSpec := by
  simp [lexSpec, copy, RangeEnd.getString_copy]

/-- No read of an alternative that is not set. -/
def NoBadAccess {α : Type} (x : Except Fault α) : Prop := x ≠ .error .badVariantAccess

lemma noBadAccess_ok {α : Type} (a : α) : NoBadAccess (.ok a) := nofun

lemma noBadAccess_outOfSet {α : Type} : NoBadAccess (.error .outOfSet : Except Fault α) := nofun

lemma NoBadAccess.ite {α : Type} {p : Prop} [Decidable p] {x y : Except Fault α}
    (hx : NoBadAccess x) (hy : NoBadAccess y) : NoBadAccess (if p then x else y) := by
  split
  · exact hx
  · exact hy

lemma NoBadAccess.bind {α β : Type} {x : Except Fault α} {f : α → Except Fault β}
    (hx : NoBadAccess x) (hf : ∀ a, NoBadAccess (f a)) : NoBadAccess (x >>= f) := by
  cases x with
  | ok a => exact hf a
  | error fault => exact fun h => hx (congrArg Except.error (Except.error.inj h))

lemma NoBadAccess.map {α β : Type} {x : Except Fault α} (hx : NoBadAccess x) (f : α → β) :
    NoBadAccess (x.map f) := by
  cases x with
  | ok a => exact nofun
  | error fault => exact fun h => hx (congrArg Except.error (Except.error.inj h))

lemma noBadAccess_lexLoop {beyond : S → S → Bool}
    {body : S → ZRangeConstraint → Except Fault Found}
    (hbody : ∀ score arg, NoBadAccess (body score arg)) (nodes : List (ZNode S)) :
    ∀ last arg, NoBadAccess (lexLoop beyond body nodes last arg) := by
  induction nodes with
  | nil => exact fun _ _ => nofun
  | cons n rest ih =>
    intro last arg
    rw [lexLoop]
    split_ifs
    · exact ih last arg
    · exact nofun
    · exact (hbody n.score arg).bind fun _ => (ih _ _).bind fun _ => nofun

section Lex

variable [ScoreTexts S]

lemma noBadAccess_emplaceForwardElements (posBegin posEnd : Nat) (arg : ZRangeConstraint)
    (nodes : List (ZNode S)) : NoBadAccess (emplaceForwardElements posBegin posEnd arg nodes) := by
  exact .ite noBadAccess_outOfSet
    (.ite (noBadAccess_ok _) (.ite noBadAccess_outOfSet (noBadAccess_ok _)))

lemma noBadAccess_emplaceElements (posBegin posEnd : Nat) (arg : ZRangeConstraint)
    (nodes : List (ZNode S)) : NoBadAccess (emplaceElements posBegin posEnd arg nodes) := by
  refine .ite ?_ (noBadAccess_emplaceForwardElements posBegin posEnd arg nodes)
  exact .ite noBadAccess_outOfSet
    (.ite (noBadAccess_ok _) (.ite noBadAccess_outOfSet (noBadAccess_ok _)))

variable [LinearOrder S]

lemma noBadAccess_emplaceScore (spec : LexSpec) (nodes : List (ZNode S)) (score : S)
    (arg : ZRangeConstraint) : NoBadAccess (emplaceScore spec nodes score arg) := by
  unfold emplaceScore
  split
  · exact nofun
  · exact noBadAccess_emplaceElements _ _ arg nodes

end Lex

/-! ### With the alternatives set -/

lemma ZRangeSpec.Holds.exists_commitSpec {cmd : ZRemRangeCommand S}
    (h : cmd.spec.Holds cmd.rangeType) : ∃ spec, cmd.commitSpec = .ok spec := by
  obtain ⟨rangeType, ⟨null, minex, maxex, negative, positive, optStart, optEnd⟩⟩ := cmd
  cases rangeType with
  | auto => exact ⟨_, rfl⟩
  | rank | score | lex =>
    obtain ⟨start, stop, hstart, hstop⟩ := h
    obtain rfl : optStart = _ := hstart
    obtain rfl : optEnd = _ := hstop
    exact ⟨_, rfl⟩

section Evaluate

variable [LinearOrder S]

lemma ZRangeSpec.Holds.noBadAccess_zremrange {cmd : ZRemRangeCommand S}
    (h : cmd.spec.Holds cmd.rangeType) (z : RedisZsetObject S) : NoBadAccess (cmd.evaluate z) := by
  obtain ⟨spec, hspec⟩ := h.exists_commitSpec
  have hcommit : NoBadAccess cmd.commitSpec := hspec ▸ noBadAccess_ok spec
  have hexecute : NoBadAccess cmd.executeSpec := .ite (noBadAccess_ok _) hcommit
  refine hexecute.bind fun executed => ?_
  cases z.removeCnt executed with
  | none => exact noBadAccess_outOfSet
  | some cnt =>
    refine .ite (noBadAccess_ok _) (hcommit.bind fun committed => ?_)
    cases z.commitZRemRange committed with
    | none => exact noBadAccess_outOfSet
    | some left => exact noBadAccess_ok _

variable [ScoreTexts S]

lemma ZRangeSpec.Holds.noBadAccess_zrange {arg : ZRangeConstraint} {spec : ZRangeSpec S}
    (h : spec.Holds arg.rangetype) (nodes : List (ZNode S)) :
    NoBadAccess (getZrangeResult arg spec nodes) := by
  unfold getZrangeResult
  cases hrange : arg.rangetype with
  | auto => exact noBadAccess_ok _
  | rank =>
    rw [hrange] at h
    obtain ⟨start, stop, hstart, hstop⟩ := h
    simp only [zRangeByRank, hstart, hstop, RangeEnd.getInt, bind, Except.bind]
    split
    · exact noBadAccess_ok _
    · exact .ite (noBadAccess_ok _) (noBadAccess_emplaceForwardElements _ _ arg nodes)
  | score =>
    rw [hrange] at h
    obtain ⟨start, stop, hstart, hstop⟩ := h
    simp only [zRangeByScore, hstart, hstop]
    exact .ite (noBadAccess_ok _) (noBadAccess_emplaceElements _ _ arg nodes)
  | lex =>
    rw [hrange] at h
    obtain ⟨start, stop, hstart, hstop⟩ := h
    refine .ite (noBadAccess_ok _) ?_
    simp only [lexSpec, hstart, hstop]
    refine .ite (noBadAccess_ok _) (.ite ?_ ?_)
    · exact noBadAccess_lexLoop (noBadAccess_emplaceScore _ nodes) _ _ _
    · exact noBadAccess_lexLoop (noBadAccess_emplaceScore _ nodes) _ _ _

variable {cmd : RangeCommand S}

lemma ZRangeSpec.Holds.noBadAccess (h : cmd.spec.Holds cmd.rangeType)
    (z : RedisZsetObject S) : NoBadAccess (cmd.evaluate z) := by
  cases cmd with
  | zrange cmd => exact (noBadAccess_zrange h z.zOrderedSet).map _
  | zremrange cmd => exact noBadAccess_zremrange h z

lemma RangeCommand.evaluate_copy (hnull : cmd.spec.null = false)
    (z : RedisZsetObject S) : cmd.copy.evaluate z = cmd.evaluate z := by
  cases cmd with
  | zrange cmd =>
    have hnull : cmd.spec.null = false := hnull
    simp only [copy, evaluate, getZrangeResult, zRangeByRank, zRangeByScore, zRangeByLex,
      ZRangeSpec.lexSpec_copy, hnull]
    simp [ZRangeSpec.copy]
  | zremrange cmd =>
    have hnull : cmd.spec.null = false := hnull
    simp only [copy, evaluate, ZRemRangeCommand.evaluate, ZRemRangeCommand.executeSpec,
      ZRemRangeCommand.commitSpec, ZRangeSpec.lexSpec_copy, hnull]
    simp [ZRangeSpec.copy]

/-! ### The empty lexicographical range -/

lemma RangeCommand.evaluate_of_null (htype : cmd.rangeType = .lex) (hnull : cmd.spec.null = true)
    (z : RedisZsetObject S) : ∃ reply, cmd.evaluate z = .ok reply := by
  cases cmd with
  | zrange cmd =>
    have htype : cmd.constraint.rangetype = .lex := htype
    have hnull : cmd.spec.null = true := hnull
    refine ⟨.found ([], cmd.constraint), ?_⟩
    simp only [evaluate, getZrangeResult, htype, zRangeByLex, hnull]
    rfl
  | zremrange cmd =>
    have htype : cmd.rangeType = .lex := htype
    have hnull : cmd.spec.null = true := hnull
    refine ⟨.removed 0 (some z), ?_⟩
    simp only [evaluate, ZRemRangeCommand.evaluate, ZRemRangeCommand.executeSpec, htype, hnull]
    rfl

lemma RangeCommand.evaluate_copy_of_unset
    (htype : cmd.rangeType = .lex) (hunset : cmd.spec.optStart = .int 0)
    (z : RedisZsetObject S) : cmd.copy.evaluate z = .error .badVariantAccess := by
  have hlex : cmd.spec.lexSpec = .error .badVariantAccess := by
    rw [ZRangeSpec.lexSpec, hunset]
    rfl
  cases cmd with
  | zrange cmd =>
    have htype : cmd.constraint.rangetype = .lex := htype
    have hlex : cmd.spec.lexSpec = .error .badVariantAccess := hlex
    simp only [copy, evaluate, getZrangeResult, htype, zRangeByLex, ZRangeSpec.lexSpec_copy, hlex]
    rfl
  | zremrange cmd =>
    have htype : cmd.rangeType = .lex := htype
    have hlex : cmd.spec.lexSpec = .error .badVariantAccess := hlex
    simp only [copy, evaluate, ZRemRangeCommand.evaluate, ZRemRangeCommand.executeSpec,
      ZRemRangeCommand.commitSpec, htype, ZRangeSpec.lexSpec_copy, hlex]
    rfl

/-! ### Which commands survive -/

variable [ScoreBits S]

/-- The command, its copy and its image select the same, and read nothing that is not set. -/
def RangeCommand.Survives (cmd : RangeCommand S) : Prop :=
  ∀ z : RedisZsetObject S, NoBadAccess (cmd.evaluate z) ∧ cmd.copy.evaluate z = cmd.evaluate z ∧
        ∃ again, createTxCommand cmd.image = .ok again ∧ again.evaluate z = cmd.evaluate z

lemma RangeCommand.Parsed.survives_iff {args : List Bytes}
    (h : cmd.Parsed args) : cmd.Survives ↔ cmd.spec.null = false := by
  constructor
  · intro hsurvives
    by_contra hnull
    have hnull : cmd.spec.null = true := Bool.eq_true_of_not_eq_false hnull
    have htype : cmd.rangeType = .lex := (h.spec.null_iff.mp hnull).1
    obtain ⟨-, hcopy, -⟩ := hsurvives .empty
    obtain ⟨reply, hreply⟩ := evaluate_of_null htype hnull .empty
    rw [evaluate_copy_of_unset htype (h.spec.unset hnull), hreply] at hcopy
    exact nomatch hcopy
  · intro hnull z
    exact ⟨(h.spec.holds hnull).noBadAccess z, evaluate_copy hnull z,
      cmd.copy, h.fits.createTxCommand_image, evaluate_copy hnull z⟩

/-- **A range command that is copied or sent selects the same unless it is an empty lex range.** -/
theorem range_command_survives_iff {args : List Bytes} {cmd : RangeCommand S}
    (hargs : ∀ arg ∈ args, arg.length < 2 ^ 32) (h : parseRangeCommand args = some (.ok cmd)) :
    cmd.Survives ↔ ¬EmptyLex cmd.rangeType (cmd.minArg args) (cmd.maxArg args) := by
  have hparsed := parsed_of_parseRangeCommand hargs h
  rw [hparsed.survives_iff, ← hparsed.spec.null_iff, Bool.not_eq_true]

end Evaluate

end Survival

/-! ## Two requests -/

section Requests

open Objects (Double)

/-- `ZREVRANGEBYLEX k (c [a LIMIT 1 5`. -/
def revLexRequest : List Bytes :=
  [ascii "zrevrangebylex", ascii "k", ascii "(c", ascii "[a", ascii "limit", ascii "1", ascii "5"]

def revLexCommand : RangeCommand Double :=
  .zrange { constraint := ⟨false, 1, 5, .lex, .reverse⟩, spec := {
      maxex := true, optStart := .string (.ofView (ascii "a")),
      optEnd := .string (.ofView (ascii "c")) } }

theorem revLexCommand_survives :
    parseRangeCommand revLexRequest = some (.ok revLexCommand) ∧ revLexCommand.Survives := by
  have hparse : parseRangeCommand revLexRequest = some (.ok revLexCommand) := by decide +kernel
  refine ⟨hparse, (range_command_survives_iff (by decide) hparse).mpr ?_⟩
  decide

/-- `ZREMRANGEBYLEX k + -` removes nothing; its clone and its image throw. -/
theorem empty_lex_range_forgotten :
    ∃ cmd : RangeCommand Double,
      parseRangeCommand [ascii "zremrangebylex", ascii "k", ascii "+", ascii "-"] = some (.ok cmd) ∧
        ∀ z : RedisZsetObject Double, cmd.evaluate z = .ok (.removed 0 (some z)) ∧
            cmd.copy.evaluate z = .error .badVariantAccess ∧
              ∃ again, RangeCommand.createTxCommand cmd.image = .ok again ∧
                again.evaluate z = .error .badVariantAccess := by
  refine ⟨.zremrange ⟨.lex, { null := true }⟩, by decide +kernel, fun z => ⟨rfl, rfl, ?_⟩⟩
  exact ⟨.zremrange ⟨.lex, {}⟩, rfl, rfl⟩

end Requests

end EloqKV.ZRange
