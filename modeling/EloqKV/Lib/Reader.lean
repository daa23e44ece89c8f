/-
  Functions that read from a buffer through a pointer.

  A cursor is the part of the buffer from the pointer to the end, and a note whether a
  computation of a size has lost bits on the way.  A reading function ends with a value, by
  reporting failure, or with a fault when it touches a byte that is not there.

  Judgments, closed under sequencing and loops: a function neither faults nor touches the note
  (`Clean`), it never faults and makes a note on certain inputs only (`Tracks`), it turns certain
  bytes into a certain value whatever stands behind them (`Parses`), and it also accepts nothing
  else (`Reads`).
-/
import Mathlib

open List hiding Cursor

namespace EloqKV.Lib.Reader

variable {α β : Type}

/-! ## Cursors and reading functions -/

inductive Outcome (α : Type) where
  | ok (value : α)
  | fail
  | fault
  deriving DecidableEq, Repr

/-- The bytes from the pointer to the end, and whether a size computation lost bits. -/
structure Cursor where
  rest : List UInt8
  overflowed : Bool
  deriving DecidableEq, Repr

def Cursor.at (bytes : List UInt8) : Cursor := ⟨bytes, false⟩

def Read (α : Type) : Type := Cursor → Outcome α × Cursor

namespace Read

/-- What comes after a reading function runs only if that one ended with a value. -/
def andThen (x : Read α) (f : α → Read β) : Read β := fun c =>
  match x c with
  | (.ok a, c) => f a c
  | (.fail, c) => (.fail, c)
  | (.fault, c) => (.fault, c)

instance : Monad Read where
  pure a := fun c => (.ok a, c)
  bind := andThen

/-- `return false`. -/
def fail : Read α := fun c => (.fail, c)

def fault : Read α := fun c => (.fault, c)

/-- `end - ptr`. -/
def remaining : Read Nat := fun c => (.ok c.rest.length, c)

/-- `*ptr`. -/
def peek : Read UInt8 := fun c =>
  match c.rest with
  | [] => (.fault, c)
  | b :: _ => (.ok b, c)

/-- `*ptr++`. -/
def byte : Read UInt8 := fun c =>
  match c.rest with
  | [] => (.fault, c)
  | b :: rest => (.ok b, { c with rest })

/-- The `n` bytes at the pointer, which moves behind them. -/
def block (n : Nat) : Read (List UInt8) := fun c =>
  if c.rest.length < n then (.fault, c)
  else (.ok (c.rest.take n), { c with rest := c.rest.drop n })

def check (p : Prop) [Decidable p] : Read Unit := if p then pure () else fail

def note (lost : Bool) : Read Unit := fun c =>
  (.ok (), { c with overflowed := c.overflowed || lost })

/-- `for (i = 0; i < n; i++)`, collecting the values. -/
def times (x : Read α) : Nat → Read (List α)
  | 0 => pure []
  | n + 1 => do
    let a ← x
    let as ← times x n
    pure (a :: as)

/-- One round of a loop that fails if it does not move the pointer. -/
def round (x : Read α) (loop : Read (List α)) : Read (List α) := do
  let before ← remaining
  let a ← x
  let after ← remaining
  check (after < before)
  let as ← loop
  pure (a :: as)

/-- `while (ptr < end && *ptr != mark)`, collecting the values; the fuel bounds the rounds. -/
def upTo (mark : UInt8) (x : Read α) : Nat → Read (List α)
  | 0 => fault
  | fuel + 1 => fun c =>
    if c.rest.head?.all (· = mark) then (.ok [], c) else round x (upTo mark x fuel) c

/-- `while (ptr < end && *ptr != mark)` over what is left. -/
def whileNot (mark : UInt8) (x : Read α) : Read (List α) := fun c =>
  upTo mark x (c.rest.length + 1) c

/-- `*ptr++`, if there is a byte. -/
def nextByte : Read UInt8 := do
  let left ← remaining
  check (0 < left)
  byte

/-- The next `n` bytes, if there are that many. -/
def nextBlock (n : Nat) : Read (List UInt8) := do
  let left ← remaining
  check (n ≤ left)
  block n

/-- What a function of another kind came to. -/
def ofOutcome (r : Outcome α) : Read α := fun c => (r, c)

def ofOption (r : Option α) : Read α := (r.map pure).getD fail

def within (buf : List UInt8) (x : Read α) : Read α := fun c =>
  ((x ⟨buf, c.overflowed⟩).1, { c with overflowed := (x ⟨buf, c.overflowed⟩).2.overflowed })

/-! ## Running -/

variable {x : Read α} {f : α → Read β} {c c' c'' : Cursor} {a : α} {b : β}

@[simp] lemma pure_run (a : α) (c : Cursor) : (pure a : Read α) c = (.ok a, c) := rfl

lemma bind_run (x : Read α) (f : α → Read β) (c : Cursor) : (x >>= f) c = x.andThen f c := rfl

lemma bind_of_ok (h : x c = (.ok a, c')) : (x >>= f) c = f a c' := by
  rw [bind_run, andThen, h]

lemma bind_of_fail (h : x c = (.fail, c')) : (x >>= f) c = (.fail, c') := by
  rw [bind_run, andThen, h]

lemma bind_of_fault (h : x c = (.fault, c')) : (x >>= f) c = (.fault, c') := by
  rw [bind_run, andThen, h]

lemma bind_eq_ok :
    (x >>= f) c = (.ok b, c'') ↔ ∃ a c', x c = (.ok a, c') ∧ f a c' = (.ok b, c'') := by
  rw [bind_run, andThen]
  rcases hx : x c with ⟨_ | _ | _, c'⟩ <;> simp

@[simp] lemma remaining_run (c : Cursor) : remaining c = (.ok c.rest.length, c) := rfl

@[simp] lemma fail_run (c : Cursor) : (fail : Read α) c = (.fail, c) := rfl

@[simp] lemma byte_cons (b : UInt8) (rest : List UInt8) (o : Bool) :
    byte ⟨b :: rest, o⟩ = (.ok b, ⟨rest, o⟩) := rfl

@[simp] lemma peek_cons (b : UInt8) (rest : List UInt8) (o : Bool) :
    peek ⟨b :: rest, o⟩ = (.ok b, ⟨b :: rest, o⟩) := rfl

lemma note_false (c : Cursor) : note false c = (.ok (), c) := by
  rw [note, Bool.or_false]

variable {bytes : List UInt8} {n : Nat}

lemma exists_block (hn : n ≤ bytes.length) :
    ∃ pre rest : List UInt8, bytes = pre ++ rest ∧ pre.length = n :=
  ⟨bytes.take n, bytes.drop n, (take_append_drop n bytes).symm, length_take_of_le hn⟩

lemma block_append (bytes rest : List UInt8) (o : Bool) :
    block bytes.length ⟨bytes ++ rest, o⟩ = (.ok bytes, ⟨rest, o⟩) := by
  rw [block, if_neg (by simp), take_left, drop_left]

variable {p : Prop}

lemma check_of_true [Decidable p] (hp : p) (c : Cursor) : check p c = (.ok (), c) := by
  rw [check, if_pos hp, pure_run]

lemma check_of_false [Decidable p] (hp : ¬p) (c : Cursor) : check p c = (.fail, c) := by
  rw [check, if_neg hp, fail_run]

lemma check_eq_ok [Decidable p] : check p c = (.ok (), c') ↔ p ∧ c' = c := by
  by_cases hp : p
  · rw [check_of_true hp, Prod.mk.injEq]
    exact ⟨fun h => ⟨hp, h.2.symm⟩, fun h => ⟨rfl, h.2.symm⟩⟩
  · rw [check_of_false hp, Prod.mk.injEq]
    exact iff_of_false (fun h => nomatch h.1) fun h => hp h.1

/-! One of the small programs, in front of others. -/

lemma remaining_bind {f : Nat → Read β} (bytes : List UInt8) (o : Bool) :
    (remaining >>= f) ⟨bytes, o⟩ = f bytes.length ⟨bytes, o⟩ := rfl

lemma byte_bind {f : UInt8 → Read β} (b : UInt8) (rest : List UInt8) (o : Bool) :
    (byte >>= f) ⟨b :: rest, o⟩ = f b ⟨rest, o⟩ := rfl

lemma check_bind [Decidable p] {f : Unit → Read β} (hp : p) : (check p >>= f) c = f () c :=
  bind_of_ok (check_of_true hp c)

lemma check_bind_false [Decidable p] {f : Unit → Read β} (hp : ¬p) :
    (check p >>= f) c = (.fail, c) :=
  bind_of_fail (check_of_false hp c)

lemma check_bind_eq_ok [Decidable p] {f : Unit → Read β} :
    (check p >>= f) c = (.ok b, c') ↔ p ∧ f () c = (.ok b, c') := by
  by_cases hp : p
  · simp [check_bind hp, hp]
  · simp [check_bind_false hp, hp]

lemma note_bind_false [Decidable p] {f : Unit → Read β} (hp : ¬p) :
    (note (decide p) >>= f) c = f () c := by
  rw [decide_eq_false hp, bind_of_ok (note_false c)]

lemma pure_eq_ok {a' : α} : (pure a : Read α) c = (.ok a', c') ↔ a' = a ∧ c' = c := by
  rw [pure_run, Prod.mk.injEq]
  exact ⟨fun h => ⟨(Outcome.ok.inj h.1).symm, h.2.symm⟩, fun h => ⟨by rw [h.1], h.2.symm⟩⟩

@[simp] lemma nextByte_nil (o : Bool) : nextByte ⟨[], o⟩ = (.fail, ⟨[], o⟩) := rfl

@[simp] lemma nextByte_cons (b : UInt8) (rest : List UInt8) (o : Bool) :
    nextByte ⟨b :: rest, o⟩ = (.ok b, ⟨rest, o⟩) := by
  rw [nextByte, bind_of_ok (remaining_run _), bind_of_ok (check_of_true (by simp) _), byte_cons]

lemma nextByte_bind {f : UInt8 → Read β} (b : UInt8) (rest : List UInt8) (o : Bool) :
    (nextByte >>= f) ⟨b :: rest, o⟩ = f b ⟨rest, o⟩ :=
  bind_of_ok (nextByte_cons b rest o)

variable {o : Bool}

lemma nextByte_eq_ok {b : UInt8} :
    nextByte ⟨bytes, o⟩ = (.ok b, c) ↔ ∃ rest, bytes = b :: rest ∧ c = ⟨rest, o⟩ := by
  cases bytes with
  | nil => simp
  | cons b' rest =>
    rw [Prod.mk.injEq]
    constructor
    · rintro ⟨hb, rfl⟩
      exact ⟨rest, by rw [Outcome.ok.inj hb], rfl⟩
    · rintro ⟨rest', hcons, rfl⟩
      obtain ⟨rfl, rfl⟩ := List.cons.inj hcons
      exact ⟨rfl, rfl⟩

lemma nextBlock_of_lt (hn : bytes.length < n) (o : Bool) :
    nextBlock n ⟨bytes, o⟩ = (.fail, ⟨bytes, o⟩) := by
  rw [nextBlock, remaining_bind, check_bind_false (Nat.not_le.mpr hn)]

lemma nextBlock_append (bytes rest : List UInt8) (o : Bool) :
    nextBlock bytes.length ⟨bytes ++ rest, o⟩ = (.ok bytes, ⟨rest, o⟩) := by
  rw [nextBlock, remaining_bind, check_bind (by simp), block_append]

lemma nextBlock_eq_ok {block bytes : List UInt8} :
    nextBlock n ⟨bytes, o⟩ = (.ok block, c)
      ↔ ∃ rest, bytes = block ++ rest ∧ block.length = n ∧ c = ⟨rest, o⟩ := by
  constructor
  · intro h
    rcases Nat.lt_or_ge bytes.length n with hlt | hge
    · rw [nextBlock_of_lt hlt] at h
      exact nomatch congrArg Prod.fst h
    · obtain ⟨pre, rest, rfl, rfl⟩ := exists_block hge
      obtain ⟨hblock, hc⟩ := Prod.mk.injEq .. ▸ (nextBlock_append pre rest o).symm.trans h
      cases hblock
      exact ⟨rest, rfl, rfl, hc.symm⟩
  · rintro ⟨rest, rfl, rfl, rfl⟩
    exact nextBlock_append block rest o

lemma within_eq_ok {buf bytes : List UInt8} :
    within buf x ⟨bytes, o⟩ = (.ok a, c)
      ↔ ∃ rest l, x ⟨buf, o⟩ = (.ok a, ⟨rest, l⟩) ∧ c = ⟨bytes, l⟩ := by
  rw [within, Prod.mk.injEq]
  constructor
  · rintro ⟨ha, rfl⟩
    exact ⟨_, _, Prod.ext ha rfl, rfl⟩
  · rintro ⟨rest, l, hrun, rfl⟩
    rw [hrun]
    exact ⟨rfl, rfl⟩

/-! ## Never faulting, and what is lost -/

/-- Here the function does not fault, ignores the note, and notes a loss exactly if `lost` holds. -/
def TracksAt (x : Read α) (bytes : List UInt8) (lost : Prop) : Prop :=
  ∃ r rest, ∃ l : Bool, r ≠ Outcome.fault ∧ (l = true ↔ lost) ∧
    ∀ o, x ⟨bytes, o⟩ = (r, ⟨rest, o || l⟩)

/-- The function never faults, and it notes a loss on the inputs in `lost` and on no others. -/
def Tracks (x : Read α) (lost : List UInt8 → Prop) : Prop := ∀ bytes, TracksAt x bytes (lost bytes)

def Clean (x : Read α) : Prop := Tracks x fun _ => False

variable {bytes : List UInt8} {p : Prop} {lost : List UInt8 → Prop}

lemma TracksAt.congr (hx : TracksAt x bytes p) {q : Prop} (h : p ↔ q) : TracksAt x bytes q := by
  obtain ⟨r, rest, l, hr, hl, hrun⟩ := hx
  exact ⟨r, rest, l, hr, hl.trans h, hrun⟩

lemma Tracks.congr (hx : Tracks x lost) {lost' : List UInt8 → Prop}
    (h : ∀ bytes, lost bytes ↔ lost' bytes) : Tracks x lost' :=
  fun bytes => (hx bytes).congr (h bytes)

lemma clean_of_run (h : ∀ bytes, ∃ r rest, r ≠ Outcome.fault ∧
    ∀ o, x ⟨bytes, o⟩ = (r, ⟨rest, o⟩)) : Clean x := by
  intro bytes
  obtain ⟨r, rest, hr, hrun⟩ := h bytes
  exact ⟨r, rest, false, hr, by simp, fun o => by rw [hrun, Bool.or_false]⟩

lemma clean_pure (a : α) : Clean (pure a) :=
  clean_of_run fun bytes => ⟨.ok a, bytes, nofun, fun _ => rfl⟩

lemma clean_fail : Clean (fail : Read α) :=
  clean_of_run fun bytes => ⟨.fail, bytes, nofun, fun _ => rfl⟩

lemma clean_remaining : Clean remaining :=
  clean_of_run fun bytes => ⟨.ok bytes.length, bytes, nofun, fun _ => rfl⟩

lemma clean_check (p : Prop) [Decidable p] : Clean (check p) := by
  unfold check
  split
  · exact clean_pure ()
  · exact clean_fail

lemma clean_nextByte : Clean nextByte := by
  apply clean_of_run
  intro bytes
  cases bytes with
  | nil => exact ⟨.fail, [], nofun, fun _ => rfl⟩
  | cons b rest => exact ⟨.ok b, rest, nofun, nextByte_cons b rest⟩

lemma clean_nextBlock (n : Nat) : Clean (nextBlock n) := by
  apply clean_of_run
  intro bytes
  rcases Nat.lt_or_ge bytes.length n with hlt | hge
  · exact ⟨.fail, bytes, nofun, nextBlock_of_lt hlt⟩
  · obtain ⟨pre, rest, rfl, rfl⟩ := exists_block hge
    exact ⟨.ok pre, rest, nofun, nextBlock_append pre rest⟩

lemma clean_ofOutcome {r : Outcome α} (hr : r ≠ .fault) : Clean (ofOutcome r) :=
  clean_of_run fun bytes => ⟨r, bytes, hr, fun _ => rfl⟩

lemma clean_ofOption (r : Option α) : Clean (ofOption r) := by
  cases r with
  | none => exact clean_fail
  | some a => exact clean_pure a

lemma TracksAt.bind (hx : TracksAt x bytes p) {lost : α → List UInt8 → Prop}
    (hf : ∀ a rest l, x ⟨bytes, false⟩ = (.ok a, ⟨rest, l⟩) → TracksAt (f a) rest (lost a rest)) :
    TracksAt (x >>= f) bytes
      (p ∨ ∃ a rest l, x ⟨bytes, false⟩ = (.ok a, ⟨rest, l⟩) ∧ lost a rest) := by
  obtain ⟨r, rest, l, hr, hl, hrun⟩ := hx
  match r with
  | .ok a =>
    obtain ⟨r', rest', l', hr', hl', hrun'⟩ := hf a rest _ (hrun false)
    refine ⟨r', rest', l || l', hr', ?_, fun o => by
      rw [bind_of_ok (hrun o), hrun', Bool.or_assoc]⟩
    rw [Bool.or_eq_true, hl, hl']
    refine or_congr_right ⟨fun h => ⟨a, rest, _, hrun false, h⟩, ?_⟩
    rintro ⟨a', rest'', l'', hrun'', h⟩
    obtain ⟨ha, hc⟩ := Prod.mk.injEq .. ▸ (hrun false).symm.trans hrun''
    cases ha
    obtain rfl := (Cursor.mk.injEq .. ▸ hc).1
    exact h
  | .fail =>
    refine ⟨.fail, rest, l, nofun, hl.trans (or_iff_left ?_).symm, fun o => bind_of_fail (hrun o)⟩
    rintro ⟨a', rest'', l'', hrun'', -⟩
    exact nomatch congrArg Prod.fst ((hrun false).symm.trans hrun'')
  | .fault => exact absurd rfl hr

lemma Tracks.bind (hx : Tracks x lost) {lost' : α → List UInt8 → Prop}
    (hf : ∀ a, Tracks (f a) (lost' a)) :
    Tracks (x >>= f) fun bytes => lost bytes ∨
      ∃ a rest l, x ⟨bytes, false⟩ = (.ok a, ⟨rest, l⟩) ∧ lost' a rest :=
  fun bytes => (hx bytes).bind fun a rest _ _ => hf a rest

lemma tracks_remaining {f : Nat → Read β} {lost : Nat → List UInt8 → Prop}
    (hf : ∀ n, Tracks (f n) (lost n)) :
    Tracks (remaining >>= f) fun bytes => lost bytes.length bytes := by
  intro bytes
  obtain ⟨r, rest, l, hr, hl, hrun⟩ := hf bytes.length bytes
  exact ⟨r, rest, l, hr, hl, fun o => by rw [remaining_bind, hrun]⟩

lemma tracks_check [Decidable p] {f : Unit → Read β} (hf : Tracks (f ()) lost) :
    Tracks (check p >>= f) fun bytes => p ∧ lost bytes := by
  intro bytes
  by_cases hp : p
  · obtain ⟨r, rest, l, hr, hl, hrun⟩ := hf bytes
    refine ⟨r, rest, l, hr, hl.trans (by simp [hp]), fun o => ?_⟩
    rw [check_bind hp, hrun]
  · refine ⟨.fail, bytes, false, nofun, by simp [hp], fun o => ?_⟩
    rw [check_bind_false hp, Bool.or_false]

lemma Tracks.bind_clean (hx : Tracks x lost) (hf : ∀ a, Clean (f a)) : Tracks (x >>= f) lost :=
  (hx.bind hf).congr fun bytes => by simp

lemma Clean.bind_tracks (hx : Clean x) {lost : α → List UInt8 → Prop}
    (hf : ∀ a, Tracks (f a) (lost a)) :
    Tracks (x >>= f) fun bytes => ∃ a rest l, x ⟨bytes, false⟩ = (.ok a, ⟨rest, l⟩) ∧ lost a rest :=
  (Tracks.bind hx hf).congr fun bytes => by rw [false_or]

lemma Clean.bind (hx : Clean x) (hf : ∀ a, Clean (f a)) : Clean (x >>= f) :=
  Tracks.bind_clean hx hf

lemma Clean.ite [Decidable p] {y : Read α} (hx : Clean x) (hy : Clean y) :
    Clean (if p then x else y) := by
  split
  · exact hx
  · exact hy

lemma Clean.times (hx : Clean x) (n : Nat) : Clean (times x n) := by
  induction n with
  | zero => exact clean_pure []
  | succ n ih => exact hx.bind fun a => ih.bind fun as => clean_pure (a :: as)

lemma TracksAt.upTo (hx : TracksAt x bytes p) (mark : UInt8) {fuel : Nat}
    (hloop : ∀ rest, rest.length < bytes.length → TracksAt (upTo mark x fuel) rest (lost rest)) :
    TracksAt (upTo mark x (fuel + 1)) bytes (bytes.head?.all (· = mark) = false ∧
      (p ∨ ∃ a rest l, x ⟨bytes, false⟩ = (.ok a, ⟨rest, l⟩) ∧
        rest.length < bytes.length ∧ lost rest)) := by
  by_cases hend : bytes.head?.all (· = mark) = true
  · refine ⟨.ok [], bytes, false, nofun, by simp [hend], fun o => ?_⟩
    rw [Bool.or_false]
    exact if_pos hend
  · have hround : ∀ o, Read.upTo mark x (fuel + 1) ⟨bytes, o⟩
        = round x (Read.upTo mark x fuel) ⟨bytes, o⟩ := fun o => if_neg hend
    have htail : ∀ a rest l, x ⟨bytes, false⟩ = (.ok a, ⟨rest, l⟩) → TracksAt (do
        let after ← remaining
        check (after < bytes.length)
        let as ← Read.upTo mark x fuel
        pure (a :: as)) rest (rest.length < bytes.length ∧ lost rest) := by
      intro a rest _ _
      by_cases hmoved : rest.length < bytes.length
      · obtain ⟨r, rest', l, hr, hl, hrun⟩ := (hloop rest hmoved).bind
          (f := fun as => pure (a :: as)) fun as rest _ _ => clean_pure (a :: as) rest
        refine ⟨r, rest', l, hr, hl.trans (by simp [hmoved]), fun o => ?_⟩
        rw [remaining_bind, check_bind hmoved, hrun]
      · refine ⟨.fail, rest, false, nofun, by simp [hmoved], fun o => ?_⟩
        rw [remaining_bind, check_bind_false hmoved, Bool.or_false]
    obtain ⟨r, rest, l, hr, hl, hrun⟩ := hx.bind htail
    refine ⟨r, rest, l, hr, hl.trans (by simp [hend]), fun o => ?_⟩
    rw [hround, round, remaining_bind, hrun]

/-- The fuel of a loop never runs out: every round that goes on has moved the pointer. -/
lemma Clean.whileNot (hx : Clean x) (mark : UInt8) : Clean (whileNot mark x) := by
  have hfuel : ∀ fuel bytes, bytes.length < fuel → TracksAt (upTo mark x fuel) bytes False := by
    intro fuel
    induction fuel with
    | zero => exact fun bytes h => absurd h (Nat.not_lt_zero _)
    | succ fuel ih =>
      intro bytes hbytes
      have hrest : ∀ rest, rest.length < bytes.length → TracksAt (upTo mark x fuel) rest False :=
        fun rest hrest => ih rest (by omega)
      exact ((hx bytes).upTo mark hrest).congr (by simp)
  exact fun bytes => hfuel _ bytes (Nat.lt_succ_self _)

lemma Tracks.within (hx : Tracks x lost) (buf : List UInt8) :
    Tracks (within buf x) fun _ => lost buf := by
  intro bytes
  obtain ⟨r, rest, l, hr, hl, hrun⟩ := hx buf
  refine ⟨r, bytes, l, hr, hl, fun o => ?_⟩
  rw [Read.within, hrun]

/-! ## Reading what was written -/

/-- Whatever stands behind `bytes`, the function reads exactly them and returns `a`. -/
def Parses (x : Read α) (bytes : List UInt8) (a : α) : Prop :=
  ∀ rest o, x ⟨bytes ++ rest, o⟩ = (.ok a, ⟨rest, o⟩)

lemma parses_pure (a : α) : Parses (pure a) [] a := fun _ _ => rfl

lemma parses_byte (b : UInt8) : Parses byte [b] b := fun _ _ => rfl

lemma parses_block (hn : n = bytes.length) : Parses (block n) bytes bytes := by
  subst hn
  exact block_append bytes

lemma parses_nextByte (b : UInt8) : Parses nextByte [b] b := nextByte_cons b

lemma parses_nextBlock (hn : n = bytes.length) : Parses (nextBlock n) bytes bytes := by
  subst hn
  exact nextBlock_append bytes

lemma parses_check [Decidable p] (hp : p) : Parses (check p) [] () :=
  fun _ _ => check_of_true hp _

lemma Parses.bind_run (hx : Parses x bytes a) {rest : List UInt8} {o : Bool} :
    (x >>= f) ⟨bytes ++ rest, o⟩ = f a ⟨rest, o⟩ := bind_of_ok (hx rest o)

lemma Parses.bind {bytes bytes' : List UInt8} (hx : Parses x bytes a)
    (hf : Parses (f a) bytes' b) : Parses (x >>= f) (bytes ++ bytes') b := by
  intro rest o
  rw [append_assoc, hx.bind_run, hf]

lemma Parses.map (hx : Parses x bytes a) (g : α → β) :
    Parses (x >>= fun a => pure (g a)) bytes (g a) := by
  intro rest o
  rw [bind_of_ok (hx rest o), pure_run]

variable {γ : Type} {enc : γ → List UInt8} {val : γ → α}

lemma Parses.times (items : List γ) (hx : ∀ i ∈ items, Parses x (enc i) (val i)) :
    Parses (times x items.length) (items.flatMap enc) (items.map val) := by
  induction items with
  | nil => exact parses_pure []
  | cons i items ih =>
    have htail := ih fun j hj => hx j (mem_cons_of_mem i hj)
    rw [flatMap_cons, map_cons, length_cons, Read.times]
    exact (hx i mem_cons_self).bind (htail.map (val i :: ·))

variable {mark : UInt8} (items : List γ)

/-- Items that do not begin with the mark are read one by one; the loop goes on behind them. -/
lemma upTo_append (hx : ∀ i ∈ items, Parses x (enc i) (val i))
    (hhead : ∀ i ∈ items, ∃ b tail, enc i = b :: tail ∧ b ≠ mark) (fuel : Nat)
    (rest : List UInt8) (o : Bool) :
    upTo mark x (fuel + items.length) ⟨items.flatMap enc ++ rest, o⟩
      = (upTo mark x fuel >>= fun as => pure (items.map val ++ as)) ⟨rest, o⟩ := by
  induction items with
  | nil =>
    rcases h : upTo mark x fuel ⟨rest, o⟩ with ⟨_ | _ | _, c⟩
    · rw [bind_of_ok h]
      exact h
    · rw [bind_of_fail h]
      exact h
    · rw [bind_of_fault h]
      exact h
  | cons i items ih =>
    obtain ⟨b, tail, henc, hne⟩ := hhead i mem_cons_self
    have hitem := hx i mem_cons_self (items.flatMap enc ++ rest) o
    have htail := ih (fun j hj => hx j (mem_cons_of_mem i hj))
      fun j hj => hhead j (mem_cons_of_mem i hj)
    rw [flatMap_cons, append_assoc]
    rw [henc, cons_append] at hitem ⊢
    have hmoved : (items.flatMap enc ++ rest).length
        < (b :: (tail ++ (items.flatMap enc ++ rest))).length := by
      simp only [length_cons, length_append]
      omega
    rw [length_cons, ← Nat.add_assoc]
    simp only [upTo, List.head?_cons, Option.all_some, decide_eq_true_eq, if_neg hne]
    rw [round, remaining_bind, bind_of_ok hitem, remaining_bind, check_bind hmoved]
    -- behind the first item the loop is the one of the induction hypothesis
    rcases h : upTo mark x fuel ⟨rest, o⟩ with ⟨as | _ | _, c⟩
    · rw [bind_of_ok h] at htail ⊢
      rw [bind_of_ok htail, map_cons, cons_append]
    · rw [bind_of_fail h] at htail ⊢
      rw [bind_of_fail htail]
    · rw [bind_of_fault h] at htail ⊢
      rw [bind_of_fault htail]

lemma whileNot_append (hx : ∀ i ∈ items, Parses x (enc i) (val i))
    (hhead : ∀ i ∈ items, ∃ b tail, enc i = b :: tail ∧ b ≠ mark) (b : UInt8)
    (rest : List UInt8) (o : Bool) :
    ∃ fuel, whileNot mark x ⟨items.flatMap enc ++ b :: rest, o⟩
      = (upTo mark x (fuel + 1) >>= fun as => pure (items.map val ++ as)) ⟨b :: rest, o⟩ := by
  have hcount : items.length ≤ (items.flatMap enc).length := by
    clear hx
    induction items with
    | nil => exact Nat.le_refl _
    | cons i items ih =>
      obtain ⟨b, tail, henc, -⟩ := hhead i mem_cons_self
      have hrest := ih fun j hj => hhead j (mem_cons_of_mem i hj)
      rw [flatMap_cons, length_append, henc, length_cons, length_cons]
      omega
  have hfuel : (items.flatMap enc ++ b :: rest).length + 1
      = (items.flatMap enc ++ b :: rest).length - items.length + 1 + items.length := by
    rw [length_append] at *
    omega
  refine ⟨(items.flatMap enc ++ b :: rest).length - items.length, ?_⟩
  rw [whileNot, hfuel]
  exact upTo_append items hx hhead _ _ o

lemma whileNot_mark (hx : ∀ i ∈ items, Parses x (enc i) (val i))
    (hhead : ∀ i ∈ items, ∃ b tail, enc i = b :: tail ∧ b ≠ mark) (rest : List UInt8) (o : Bool) :
    whileNot mark x ⟨items.flatMap enc ++ mark :: rest, o⟩
      = (.ok (items.map val), ⟨mark :: rest, o⟩) := by
  obtain ⟨fuel, hrun⟩ := whileNot_append items hx hhead mark rest o
  have hend : upTo mark x (fuel + 1) ⟨mark :: rest, o⟩ = (.ok [], ⟨mark :: rest, o⟩) := by
    simp [upTo]
  rw [hrun, bind_of_ok hend, append_nil, pure_run]

lemma whileNot_fail {mark b : UInt8} (hx : ∀ i ∈ items, Parses x (enc i) (val i))
    (hhead : ∀ i ∈ items, ∃ b tail, enc i = b :: tail ∧ b ≠ mark) {rest : List UInt8}
    (hb : b ≠ mark) (hfail : x ⟨b :: rest, o⟩ = (.fail, c)) :
    whileNot mark x ⟨items.flatMap enc ++ b :: rest, o⟩ = (.fail, c) := by
  obtain ⟨fuel, hrun⟩ := whileNot_append items hx hhead b rest o
  have hround : upTo mark x (fuel + 1) ⟨b :: rest, o⟩ = (.fail, c) := by
    simp only [upTo, List.head?_cons, Option.all_some, decide_eq_true_eq, if_neg hb]
    rw [round, remaining_bind, bind_of_fail hfail]
  rw [hrun, bind_of_fail hround]

/-! ## Reading exactly a grammar -/

/-- A function that returns a value has read bytes of the grammar, and has left the note alone. -/
def Accepts (x : Read α) (grammar : List UInt8 → α → Prop) : Prop :=
  ∀ ⦃bytes o a c⦄, x ⟨bytes, o⟩ = (.ok a, c) →
    ∃ pre rest, bytes = pre ++ rest ∧ grammar pre a ∧ c = ⟨rest, o⟩

section Accepts

variable {grammar grammar' : List UInt8 → α → Prop}

lemma Accepts.mono (hx : Accepts x grammar)
    (h : ∀ bytes a, grammar bytes a → grammar' bytes a) : Accepts x grammar' := by
  intro bytes o a c hrun
  obtain ⟨pre, rest, hbytes, ha, hc⟩ := hx hrun
  exact ⟨pre, rest, hbytes, h pre a ha, hc⟩

lemma accepts_pure (a : α) : Accepts (pure a) fun bytes b => bytes = [] ∧ b = a := by
  intro bytes o b c h
  obtain ⟨rfl, rfl⟩ := pure_eq_ok.mp h
  exact ⟨[], bytes, rfl, ⟨rfl, rfl⟩, rfl⟩

lemma accepts_byte : Accepts byte fun bytes b => bytes = [b] := by
  intro bytes o b c h
  cases bytes with
  | nil => exact nomatch h
  | cons b' rest =>
    obtain ⟨hb, rfl⟩ := Prod.mk.injEq .. ▸ h
    obtain rfl := Outcome.ok.inj hb
    exact ⟨[b'], rest, rfl, rfl, rfl⟩

lemma accepts_block (n : Nat) : Accepts (block n) fun bytes a => bytes = a ∧ a.length = n := by
  intro bytes o a c h
  rcases Nat.lt_or_ge bytes.length n with hlt | hge
  · rw [block, if_pos hlt] at h
    exact nomatch h
  · obtain ⟨pre, rest, rfl, rfl⟩ := exists_block hge
    rw [block_append] at h
    obtain ⟨ha, rfl⟩ := Prod.mk.injEq .. ▸ h
    obtain rfl := Outcome.ok.inj ha
    exact ⟨pre, rest, rfl, ⟨rfl, rfl⟩, rfl⟩

lemma accepts_nextByte : Accepts nextByte fun bytes b => bytes = [b] := by
  intro bytes o b c h
  obtain ⟨rest, rfl, rfl⟩ := nextByte_eq_ok.mp h
  exact ⟨[b], rest, rfl, rfl, rfl⟩

lemma accepts_nextBlock (n : Nat) :
    Accepts (nextBlock n) fun bytes a => bytes = a ∧ a.length = n := by
  intro bytes o a c h
  obtain ⟨rest, rfl, hlen, rfl⟩ := nextBlock_eq_ok.mp h
  exact ⟨a, rest, rfl, ⟨rfl, hlen⟩, rfl⟩

lemma accepts_check (p : Prop) [Decidable p] :
    Accepts (check p) fun bytes _ => bytes = [] ∧ p := by
  intro bytes o _ c h
  obtain ⟨hp, rfl⟩ := check_eq_ok.mp h
  exact ⟨[], bytes, rfl, ⟨rfl, hp⟩, rfl⟩

lemma accepts_ofOutcome (r : Outcome α) :
    Accepts (ofOutcome r) fun bytes a => bytes = [] ∧ r = .ok a := by
  intro bytes o a c h
  cases h
  exact ⟨[], bytes, rfl, ⟨rfl, rfl⟩, rfl⟩

lemma accepts_fail : Accepts (fail : Read α) grammar := by
  intro bytes o a c h
  exact nomatch congrArg Prod.fst h

lemma Accepts.ite {y : Read α} {p : Prop} [Decidable p] (hx : p → Accepts x grammar)
    (hy : ¬p → Accepts y grammar) : Accepts (if p then x else y) grammar := by
  by_cases hp : p
  · rw [if_pos hp]
    exact hx hp
  · rw [if_neg hp]
    exact hy hp

lemma Accepts.bind {grammarBehind : α → List UInt8 → β → Prop} (hx : Accepts x grammar)
    (hf : ∀ a, Accepts (f a) (grammarBehind a)) :
    Accepts (x >>= f) fun bytes b =>
      ∃ pre post a, bytes = pre ++ post ∧ grammar pre a ∧ grammarBehind a post b := by
  intro bytes o b c h
  obtain ⟨a, c', ha, h⟩ := bind_eq_ok.mp h
  obtain ⟨pre, rest, rfl, hpre, rfl⟩ := hx ha
  obtain ⟨post, rest', rfl, hpost, rfl⟩ := hf a h
  exact ⟨pre ++ post, rest', (append_assoc ..).symm, ⟨pre, post, a, rfl, hpre, hpost⟩, rfl⟩

lemma Accepts.map (hx : Accepts x grammar) (g : α → β) :
    Accepts (do
      let a ← x
      pure (g a)) fun bytes b => ∃ a, grammar bytes a ∧ b = g a := by
  refine (hx.bind fun a => accepts_pure (g a)).mono ?_
  rintro _ b ⟨pre, _, a, rfl, ha, rfl, rfl⟩
  exact ⟨a, by rwa [append_nil], rfl⟩

lemma Accepts.times {enc : α → List UInt8} {p : α → Prop}
    (hx : Accepts x fun bytes a => bytes = enc a ∧ p a) (n : Nat) :
    Accepts (times x n) fun bytes items =>
      bytes = items.flatMap enc ∧ items.length = n ∧ ∀ i ∈ items, p i := by
  induction n with
  | zero =>
    refine (accepts_pure []).mono ?_
    rintro _ _ ⟨rfl, rfl⟩
    exact ⟨rfl, rfl, nofun⟩
  | succ n ih =>
    refine (hx.bind fun a => ih.map (a :: ·)).mono ?_
    rintro _ _ ⟨_, _, a, rfl, ⟨rfl, ha⟩, items, ⟨rfl, hlen, hitems⟩, rfl⟩
    refine ⟨rfl, congrArg Nat.succ hlen, fun i hi => ?_⟩
    rcases mem_cons.mp hi with rfl | hi
    · exact ha
    · exact hitems i hi

end Accepts

/-- The whole behaviour of a reading function: behind bytes of the grammar it returns their
value, it returns nothing else unless it notes a loss, and it notes one on the inputs in `lost`. -/
structure Reads (x : Read α) (grammar : List UInt8 → α → Prop) (lost : List UInt8 → Prop) :
    Prop where
  tracks : Tracks x lost
  parses : ∀ {bytes a}, grammar bytes a → Parses x bytes a
  accepts : ∀ {bytes a rest}, x ⟨bytes, false⟩ = (.ok a, ⟨rest, false⟩) →
    ∃ pre, bytes = pre ++ rest ∧ grammar pre a

variable {grammar : List UInt8 → α → Prop}

lemma Reads.of_clean (hclean : Clean x) (hparses : ∀ {bytes a}, grammar bytes a → Parses x bytes a)
    (haccepts : Accepts x grammar) : Reads x grammar fun _ => False where
  tracks := hclean
  parses := hparses
  accepts h := by
    obtain ⟨pre, rest, hbytes, ha, hc⟩ := haccepts h
    obtain rfl := (Cursor.mk.injEq .. ▸ hc).1
    exact ⟨pre, hbytes, ha⟩

lemma reads_nextByte : Reads nextByte (fun bytes b => bytes = [b]) fun _ => False := by
  apply Reads.of_clean clean_nextByte
  · rintro _ b rfl
    exact parses_nextByte b
  · exact accepts_nextByte

lemma Reads.goes_on_iff (hx : Reads x grammar lost) (bytes : List UInt8)
    (q : α → List UInt8 → Prop) :
    (lost bytes ∨ ∃ a rest l, x ⟨bytes, false⟩ = (.ok a, ⟨rest, l⟩) ∧ q a rest) ↔
      lost bytes ∨ ∃ pre rest a, bytes = pre ++ rest ∧ grammar pre a ∧ q a rest := by
  constructor
  · rintro (h | ⟨a, rest, l, hrun, hq⟩)
    · exact .inl h
    · cases l with
      | true =>
        -- the note was false before, so this is one of the inputs in `lost`
        obtain ⟨r, rest', l', -, hl, hrun'⟩ := hx.tracks bytes
        have hnote := congrArg (fun p => p.2.overflowed) ((hrun' false).symm.trans hrun)
        exact .inl (hl.mp hnote)
      | false =>
        obtain ⟨pre, hpre, ha⟩ := hx.accepts hrun
        exact .inr ⟨pre, rest, a, hpre, ha, hq⟩
  · rintro (h | ⟨pre, rest, a, rfl, ha, hq⟩)
    · exact .inl h
    · exact .inr ⟨a, rest, false, hx.parses ha rest false, hq⟩

lemma Reads.bind_tracks (hx : Reads x grammar lost) {lost' : α → List UInt8 → Prop}
    (hf : ∀ a, Tracks (f a) (lost' a)) :
    Tracks (x >>= f) fun bytes =>
      lost bytes ∨ ∃ pre rest a, bytes = pre ++ rest ∧ grammar pre a ∧ lost' a rest :=
  (hx.tracks.bind hf).congr fun bytes => hx.goes_on_iff bytes lost'

/-- Some items of the grammar, and then an input on which a loss is noted. -/
def LostBehind (grammar : List UInt8 → α → Prop) (lost : List UInt8 → Prop) (count : Nat → Prop)
    (bytes : List UInt8) : Prop :=
  ∃ (pres : List (List UInt8)) (rest : List UInt8), count pres.length ∧
    (∀ pre ∈ pres, ∃ a, grammar pre a) ∧ bytes = pres.flatten ++ rest ∧ lost rest

lemma lostBehind_iff {count : Nat → Prop} (hzero : count 0) (bytes : List UInt8) :
    LostBehind grammar lost count bytes ↔
      lost bytes ∨ ∃ pre rest a, bytes = pre ++ rest ∧ grammar pre a ∧
        LostBehind grammar lost (fun n => count (n + 1)) rest := by
  constructor
  · rintro ⟨_ | ⟨pre, pres⟩, rest, hcount, hpres, rfl, hlost⟩
    · exact .inl hlost
    · obtain ⟨a, ha⟩ := hpres pre mem_cons_self
      refine .inr ⟨pre, pres.flatten ++ rest, a, by simp, ha, pres, rest, hcount, ?_, rfl, hlost⟩
      exact fun pre' hpre' => hpres pre' (mem_cons_of_mem pre hpre')
  · rintro (hlost | ⟨pre, rest, a, rfl, ha, pres, rest, hcount, hpres, rfl, hlost⟩)
    · exact ⟨[], bytes, hzero, by simp, rfl, hlost⟩
    · refine ⟨pre :: pres, rest, hcount, ?_, by simp, hlost⟩
      intro pre' hpre'
      rcases mem_cons.mp hpre' with rfl | hmem
      · exact ⟨a, ha⟩
      · exact hpres pre' hmem

lemma Reads.times (hx : Reads x grammar lost) (n : Nat) :
    Tracks (times x n) (LostBehind grammar lost (· < n)) := by
  induction n with
  | zero =>
    refine (clean_pure []).congr fun bytes => ⟨False.elim, ?_⟩
    rintro ⟨pres, _, hcount, -⟩
    exact absurd hcount (Nat.not_lt_zero _)
  | succ n ih =>
    refine (hx.bind_tracks fun a => ih.bind_clean fun as => clean_pure (a :: as)).congr
      fun bytes => ?_
    rw [lostBehind_iff (Nat.succ_pos n)]
    simp

lemma Reads.whileNot (hx : Reads x grammar lost)
    (hhead : ∀ pre a, grammar pre a → ∃ b tail, pre = b :: tail ∧ b ≠ mark)
    (hlost : ∀ bytes, lost bytes → ∃ b tail, bytes = b :: tail ∧ b ≠ mark) :
    Tracks (whileNot mark x) (LostBehind grammar lost fun _ => True) := by
  have hfuel : ∀ fuel bytes, bytes.length < fuel →
      TracksAt (upTo mark x fuel) bytes (LostBehind grammar lost (fun _ => True) bytes) := by
    intro fuel
    induction fuel with
    | zero => exact fun bytes h => absurd h (Nat.not_lt_zero _)
    | succ fuel ih =>
      intro bytes hbytes
      refine ((hx.tracks bytes).upTo mark fun rest hrest => ih rest (by omega)).congr ?_
      rw [hx.goes_on_iff bytes fun _ rest =>
        rest.length < bytes.length ∧ LostBehind grammar lost (fun _ => True) rest,
        lostBehind_iff trivial]
      constructor
      · rintro ⟨-, h | ⟨pre, rest, a, hbytes, ha, -, h⟩⟩
        · exact .inl h
        · exact .inr ⟨pre, rest, a, hbytes, ha, h⟩
      · rintro (h | ⟨pre, rest, a, rfl, ha, h⟩)
        · obtain ⟨b, tail, rfl, hb⟩ := hlost bytes h
          exact ⟨by simp [hb], .inl h⟩
        · obtain ⟨b, tail, rfl, hb⟩ := hhead pre a ha
          refine ⟨by simp [hb], .inr ⟨b :: tail, rest, a, rfl, ha, ?_, h⟩⟩
          simp only [length_append, length_cons]
          omega
  exact fun bytes => hfuel _ bytes (Nat.lt_succ_self _)

/-- What a loop up to a mark returns without a loss are the values of items of the grammar. -/
lemma Reads.whileNot_accepts (hx : Reads x grammar lost) {bytes rest : List UInt8} {as : List α}
    (hrun : Read.whileNot mark x ⟨bytes, false⟩ = (.ok as, ⟨rest, false⟩)) :
    ∃ items : List (List UInt8 × α), bytes = items.flatMap Prod.fst ++ rest ∧
      as = items.map Prod.snd ∧ ∀ i ∈ items, grammar i.1 i.2 := by
  -- once made, a note stays
  have hkept : ∀ fuel bytes, (upTo mark x fuel ⟨bytes, true⟩).2.overflowed = true := by
    intro fuel
    induction fuel with
    | zero => exact fun _ => rfl
    | succ fuel ih =>
      intro bytes
      obtain ⟨r, rest, l, hr, -, hitem⟩ := hx.tracks bytes
      have htrue := hitem true
      rw [Bool.true_or] at htrue
      simp only [upTo]
      split
      · rfl
      rw [round, remaining_bind]
      match r with
      | .ok a =>
        rw [bind_of_ok htrue, remaining_bind]
        by_cases hmoved : rest.length < bytes.length
        · have hrest := ih rest
          rw [check_bind hmoved]
          rcases h : upTo mark x fuel ⟨rest, true⟩ with ⟨_ | _ | _, c⟩ <;> rw [h] at hrest
          · rw [bind_of_ok h]
            exact hrest
          · rw [bind_of_fail h]
            exact hrest
          · rw [bind_of_fault h]
            exact hrest
        · rw [check_bind_false hmoved]
      | .fail => rw [bind_of_fail htrue]
      | .fault => exact absurd rfl hr
  have hfuel : ∀ fuel bytes as rest, upTo mark x fuel ⟨bytes, false⟩ = (.ok as, ⟨rest, false⟩) →
      ∃ items : List (List UInt8 × α), bytes = items.flatMap Prod.fst ++ rest ∧
        as = items.map Prod.snd ∧ ∀ i ∈ items, grammar i.1 i.2 := by
    intro fuel
    induction fuel with
    | zero => exact fun _ _ _ h => nomatch congrArg Prod.fst h
    | succ fuel ih =>
      intro bytes as rest h
      simp only [upTo] at h
      split at h
      · obtain ⟨has, hc⟩ := Prod.mk.injEq .. ▸ h
        cases has
        obtain rfl := (Cursor.mk.injEq .. ▸ hc).1
        exact ⟨[], rfl, rfl, by simp⟩
      · rw [round, remaining_bind] at h
        obtain ⟨a, ⟨mid, l⟩, hitem, h⟩ := bind_eq_ok.mp h
        rw [remaining_bind] at h
        obtain ⟨-, h⟩ := check_bind_eq_ok.mp h
        obtain ⟨as', c, hloop, h⟩ := bind_eq_ok.mp h
        obtain ⟨rfl, rfl⟩ := pure_eq_ok.mp h
        cases l with
        | true =>
          have := hkept fuel mid
          rw [hloop] at this
          exact absurd this Bool.false_ne_true
        | false =>
          obtain ⟨pre, rfl, ha⟩ := hx.accepts hitem
          obtain ⟨items, rfl, rfl, hitems⟩ := ih mid as' rest hloop
          refine ⟨(pre, a) :: items, by simp, rfl, ?_⟩
          intro i hi
          rcases mem_cons.mp hi with rfl | hi
          · exact ha
          · exact hitems i hi
  exact hfuel _ bytes as rest hrun

end Read

end EloqKV.Lib.Reader
