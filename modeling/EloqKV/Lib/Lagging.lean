/-
  Writers whose readers stay in step or fall behind for good.

  A writer may leave bytes behind a value that its reader does not take.  The next value is then
  read from these bytes and may even be right by accident, but the reader never catches up.
-/
import EloqKV.Lib.Reader

open Option
open List hiding Cursor

namespace EloqKV.Lib.Lagging

open Lib.Reader (Cursor Outcome Read)
open Lib.Reader.Read

variable {α β : Type}

/-! ## Writers -/

/-- One item behind the other; `none` is an exception of the writer. -/
def writeAll (enc : α → Option (List UInt8)) : List α → Option (List UInt8)
  | [] => some []
  | a :: as => do
    let bytes ← enc a
    let others ← writeAll enc as
    some (bytes ++ others)

def writePair (encA : α → Option (List UInt8)) (encB : β → Option (List UInt8)) (p : α × β) :
    Option (List UInt8) := do
  let bytes ← encA p.1
  let others ← encB p.2
  some (bytes ++ others)

/-- What `writePair` reads back. -/
def readPair (itemA : Read α) (itemB : Read β) : Read (α × β) := do
  let a ← itemA
  let b ← itemB
  pure (a, b)

lemma writePair_eq_some {encA : α → Option (List UInt8)} {encB : β → Option (List UInt8)}
    {p : α × β} {out : List UInt8} (h : writePair encA encB p = some out) :
    ∃ bytes others, encA p.1 = some bytes ∧ encB p.2 = some others ∧ out = bytes ++ others := by
  obtain ⟨bytes, hbytes, h⟩ := bind_eq_some_iff.mp h
  obtain ⟨others, hothers, h⟩ := bind_eq_some_iff.mp h
  exact ⟨bytes, others, hbytes, hothers, (Option.some.inj h).symm⟩

variable {as : List α}

lemma writeAll_cons_eq_some {enc : α → Option (List UInt8)} {a : α}
    {out : List UInt8} (h : writeAll enc (a :: as) = some out) :
    ∃ bytes others, enc a = some bytes ∧ writeAll enc as = some others ∧ out = bytes ++ others := by
  obtain ⟨bytes, hbytes, h⟩ := bind_eq_some_iff.mp h
  obtain ⟨others, hothers, h⟩ := bind_eq_some_iff.mp h
  exact ⟨bytes, others, hbytes, hothers, (Option.some.inj h).symm⟩

variable {c c' : Cursor}

lemma readPair_eq_ok {itemA : Read α} {itemB : Read β} {p : α × β}
    (h : readPair itemA itemB c = (.ok p, c')) :
    ∃ mid, itemA c = (.ok p.1, mid) ∧ itemB mid = (.ok p.2, c') := by
  obtain ⟨a, mid, ha, h⟩ := bind_eq_ok.mp h
  obtain ⟨b, c'', hb, h⟩ := bind_eq_ok.mp h
  obtain ⟨rfl, rfl⟩ := pure_eq_ok.mp h
  exact ⟨mid, ha, hb⟩

lemma times_succ_eq_ok {item : Read α} {n : Nat} (h : times item (n + 1) c = (.ok as, c')) :
    ∃ a others mid, as = a :: others ∧ item c = (.ok a, mid) ∧
      times item n mid = (.ok others, c') := by
  obtain ⟨a, mid, ha, h⟩ := bind_eq_ok.mp h
  obtain ⟨others, c'', hothers, h⟩ := bind_eq_ok.mp h
  obtain ⟨rfl, rfl⟩ := pure_eq_ok.mp h
  exact ⟨a, others, mid, rfl, ha, hothers⟩

lemma length_of_times {item : Read α} {n : Nat}
    (h : times item n c = (.ok as, c')) : as.length = n := by
  induction n generalizing c as with
  | zero =>
    obtain ⟨rfl, -⟩ := pure_eq_ok.mp h
    rfl
  | succ n ih =>
    obtain ⟨a, others, mid, rfl, -, hothers⟩ := times_succ_eq_ok h
    rw [length_cons, ih hothers]

/-! ## Falling behind -/

variable {lag : List UInt8 → Prop}

/-- The reader still has bytes in front of it that it should have taken. -/
def Late (lag : List UInt8 → Prop) (rest : List UInt8) (o : Bool) (c : Cursor) : Prop :=
  ∃ l, lag l ∧ c = ⟨l ++ rest, o⟩

/-- Good values are written and read back; of any value that is read back right, the reader took
exactly the bytes and the value was good, or the reader is late; a late reader stays late. -/
structure Lags (lag : List UInt8 → Prop) (enc : α → Option (List UInt8)) (item : Read α)
    (good : α → Prop) : Prop where
  parses : ∀ {a : α}, good a → ∃ bytes, enc a = some bytes ∧ Parses item bytes a
  inStep : ∀ {a : α} {bytes rest : List UInt8} {o : Bool} {c : Cursor}, enc a = some bytes →
    item ⟨bytes ++ rest, o⟩ = (.ok a, c) → (good a ∧ c = ⟨rest, o⟩) ∨ Late lag rest o c
  behind : ∀ {a : α} {bytes rest : List UInt8} {o : Bool} {c₀ c : Cursor}, enc a = some bytes →
    Late lag (bytes ++ rest) o c₀ → item c₀ = (.ok a, c) → Late lag rest o c

variable {enc : α → Option (List UInt8)} {item : Read α} {good : α → Prop}
  {encB : β → Option (List UInt8)} {itemB : Read β} {goodB : β → Prop}

theorem Lags.parses_iff (h : Lags lag enc item good) (hlag : ¬lag []) (a : α) :
    (∃ bytes, enc a = some bytes ∧ Parses item bytes a) ↔ good a := by
  constructor
  · rintro ⟨bytes, henc, hparses⟩
    rcases h.inStep henc (hparses [] false) with hgood | ⟨l, hl, hc⟩
    · exact hgood.1
    · -- the reader took everything, so nothing is left to be late with
      rw [append_nil, Reader.Cursor.mk.injEq] at hc
      rw [← hc.1] at hl
      exact absurd hl hlag
  · exact h.parses

lemma Lags.congr (h : Lags lag enc item good) {good' : α → Prop} (hgood : ∀ a, good a ↔ good' a) :
    Lags lag enc item good' := by
  rwa [← funext fun a => propext (hgood a)]

/-! ## Pairs -/

lemma Lags.map (h : Lags lag enc item good) {f : α → β} (henc : ∀ a, encB (f a) = enc a) :
    Lags lag encB (item >>= fun a => pure (f a)) fun b => ∃ a, f a = b ∧ good a where
  parses := by
    rintro _ ⟨a, rfl, hgood⟩
    obtain ⟨bytes, hbytes, hparses⟩ := h.parses hgood
    exact ⟨bytes, (henc a).trans hbytes, hparses.map f⟩
  inStep := by
    intro b bytes rest o c hbytes hread
    obtain ⟨a, c', ha, hpure⟩ := bind_eq_ok.mp hread
    obtain ⟨rfl, rfl⟩ := pure_eq_ok.mp hpure
    rcases h.inStep ((henc a).symm.trans hbytes) ha with ⟨hgood, hc⟩ | hlate
    · exact .inl ⟨⟨a, rfl, hgood⟩, hc⟩
    · exact .inr hlate
  behind := by
    intro b bytes rest o c₀ c hbytes hlate hread
    obtain ⟨a, c', ha, hpure⟩ := bind_eq_ok.mp hread
    obtain ⟨rfl, rfl⟩ := pure_eq_ok.mp hpure
    exact h.behind ((henc a).symm.trans hbytes) hlate ha

lemma Lags.pair (hA : Lags lag enc item good) (hB : Lags lag encB itemB goodB) :
    Lags lag (writePair enc encB) (readPair item itemB) fun p => good p.1 ∧ goodB p.2 where
  parses := by
    rintro ⟨a, b⟩ ⟨ha, hb⟩
    obtain ⟨bytes, henc, hbytes⟩ := hA.parses ha
    obtain ⟨others, hencB, hothers⟩ := hB.parses hb
    refine ⟨bytes ++ others, ?_, hbytes.bind (hothers.map (a, ·))⟩
    show (enc a).bind _ = _
    rw [henc, bind_some]
    show (encB b).bind _ = _
    rw [hencB, bind_some]
  inStep := by
    intro p out rest o c hout hread
    obtain ⟨bytes, others, henc, hencB, rfl⟩ := writePair_eq_some hout
    obtain ⟨mid, ha, hb⟩ := readPair_eq_ok hread
    rw [append_assoc] at ha
    rcases hA.inStep henc ha with ⟨hgood, rfl⟩ | hlate
    · rcases hB.inStep hencB hb with ⟨hgoodB, hc⟩ | hlate
      · exact .inl ⟨⟨hgood, hgoodB⟩, hc⟩
      · exact .inr hlate
    · exact .inr (hB.behind hencB hlate hb)
  behind := by
    intro p out rest o c₀ c hout hlate hread
    obtain ⟨bytes, others, henc, hencB, rfl⟩ := writePair_eq_some hout
    obtain ⟨mid, ha, hb⟩ := readPair_eq_ok hread
    rw [append_assoc] at hlate
    exact hB.behind hencB (hA.behind henc hlate ha) hb

/-! ## Counted lists -/

lemma Lags.exists_writeAll (h : Lags lag enc item good) (hgood : ∀ a ∈ as, good a) :
    ∃ out, writeAll enc as = some out ∧ Parses (times item as.length) out as := by
  induction as with
  | nil => exact ⟨[], rfl, parses_pure []⟩
  | cons a as ih =>
    obtain ⟨bytes, henc, hbytes⟩ := h.parses (hgood a mem_cons_self)
    obtain ⟨others, hothers, hrest⟩ := ih fun b hb => hgood b (mem_cons_of_mem a hb)
    refine ⟨bytes ++ others, ?_, hbytes.bind (hrest.map (a :: ·))⟩
    show (enc a).bind _ = _
    rw [henc, bind_some]
    show (writeAll enc as).bind _ = _
    rw [hothers, bind_some]

lemma Lags.times_behind (h : Lags lag enc item good) {out rest : List UInt8} {o : Bool}
    {c₀ c : Cursor} (hout : writeAll enc as = some out) (hlate : Late lag (out ++ rest) o c₀)
    (hread : times item as.length c₀ = (.ok as, c)) : Late lag rest o c := by
  induction as generalizing out c₀ with
  | nil =>
    cases hout
    obtain ⟨-, rfl⟩ := pure_eq_ok.mp hread
    exact hlate
  | cons a as ih =>
    obtain ⟨bytes, others, henc, hothers, rfl⟩ := writeAll_cons_eq_some hout
    obtain ⟨_, _, mid, heq, ha, htimes⟩ := times_succ_eq_ok hread
    obtain ⟨rfl, rfl⟩ := List.cons.inj heq
    rw [append_assoc] at hlate
    exact ih hothers (h.behind henc hlate ha) htimes

lemma Lags.times_inStep (h : Lags lag enc item good) {out rest : List UInt8}
    {o : Bool} {c : Cursor} (hout : writeAll enc as = some out)
    (hread : times item as.length ⟨out ++ rest, o⟩ = (.ok as, c)) :
    ((∀ a ∈ as, good a) ∧ c = ⟨rest, o⟩) ∨ Late lag rest o c := by
  induction as generalizing out with
  | nil =>
    cases hout
    obtain ⟨-, rfl⟩ := pure_eq_ok.mp hread
    exact .inl ⟨nofun, rfl⟩
  | cons a as ih =>
    obtain ⟨bytes, others, henc, hothers, rfl⟩ := writeAll_cons_eq_some hout
    obtain ⟨_, _, mid, heq, ha, htimes⟩ := times_succ_eq_ok hread
    obtain ⟨rfl, rfl⟩ := List.cons.inj heq
    rw [append_assoc] at ha
    rcases h.inStep henc ha with ⟨hgood, rfl⟩ | hlate
    · rcases ih hothers htimes with ⟨hall, hc⟩ | hlate
      · exact .inl ⟨forall_mem_cons.mpr ⟨hgood, hall⟩, hc⟩
      · exact .inr hlate
    · exact .inr (h.times_behind hothers hlate htimes)

/-- A count, then as many items. -/
def writeCounted (count : Nat → List UInt8) (enc : α → Option (List UInt8)) (as : List α) :
    Option (List UInt8) := (writeAll enc as).map (count as.length ++ ·)

/-- What `writeCounted` reads back. -/
def readCounted (readCount : Read Nat) (item : Read α) : Read (List α) := do
  let n ← readCount
  times item n

/-- What is asked of a count: it is read back if it is below a bound and read as another number
else, and a late reader takes it for zero and stays late. -/
structure LagsCount (lag : List UInt8 → Prop) (count : Nat → List UInt8) (readCount : Read Nat)
    (bound : Nat) : Prop where
  parses : ∀ n, ∃ m, Parses readCount (count n) m ∧ (m = n ↔ n < bound)
  behind : ∀ {n m : Nat} {rest : List UInt8} {o : Bool} {c₀ c : Cursor},
    Late lag (count n ++ rest) o c₀ → readCount c₀ = (.ok m, c) →
      m = 0 ∧ (n = 0 → Late lag rest o c)

lemma Lags.counted (h : Lags lag enc item good) {count : Nat → List UInt8}
    {readCount : Read Nat} {bound : Nat} (hcount : LagsCount lag count readCount bound) :
    Lags lag (writeCounted count enc) (readCounted readCount item)
      fun as => as.length < bound ∧ ∀ a ∈ as, good a where
  parses := by
    rintro as ⟨hbound, hgood⟩
    obtain ⟨out, hout, hparses⟩ := h.exists_writeAll hgood
    obtain ⟨m, hm, hiff⟩ := hcount.parses as.length
    obtain rfl := hiff.mpr hbound
    exact ⟨count as.length ++ out, by rw [writeCounted, hout, map_some], hm.bind hparses⟩
  inStep := by
    intro as out rest o c hout hread
    obtain ⟨items, hitems, rfl⟩ := map_eq_some_iff.mp hout
    obtain ⟨m, hm, hiff⟩ := hcount.parses as.length
    rw [append_assoc, readCounted, bind_of_ok (hm _ o)] at hread
    -- the number of items that came back tells what the count was read as
    obtain rfl : as.length = m := length_of_times hread
    rcases h.times_inStep hitems hread with ⟨hgood, hc⟩ | hlate
    · exact .inl ⟨⟨hiff.mp rfl, hgood⟩, hc⟩
    · exact .inr hlate
  behind := by
    intro as out rest o c₀ c hout hlate hread
    obtain ⟨items, hitems, rfl⟩ := map_eq_some_iff.mp hout
    obtain ⟨m, mid, hm, htimes⟩ := bind_eq_ok.mp hread
    rw [append_assoc] at hlate
    obtain ⟨rfl, hmid⟩ := hcount.behind hlate hm
    -- nothing is read, so the list is empty and all there was of it is its count
    obtain ⟨rfl, rfl⟩ := pure_eq_ok.mp htimes
    cases hitems
    exact hmid rfl

end EloqKV.Lib.Lagging
