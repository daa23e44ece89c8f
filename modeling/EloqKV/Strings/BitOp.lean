/-
  BITOP (`BitOpCommand::HandleMiddleResult` in `src/redis_command.cpp`).

  The sources are folded into a buffer of the longest one's length, and what lies behind the end of
  a source is treated by a loop of its own.
-/
import EloqKV.Errors
import EloqKV.Strings.SetCommand

open List

namespace EloqKV.Strings.BitOp

open SetCommand

inductive OpType where
  | and
  | or
  | xor
  | not
  deriving DecidableEq, Repr

/-- `pv[j]` with `str[j]`; NOT has no second source. -/
def OpType.combine : OpType → UInt8 → UInt8 → UInt8
  | and, a, b => a &&& b
  | or, a, b => a ||| b
  | xor, a, b => a ^^^ b
  | not, a, _ => a

/-- `pv[j]` behind the end of `str`. -/
def OpType.pad : OpType → UInt8 → UInt8
  | and, _ => 0
  | or, a => a
  | xor, a => a ^^^ 0
  | not, a => a

variable (op : OpType)

/-- The two loops over the buffer for one more source. -/
def step (pv str : Bytes) : Bytes :=
  pv.mapIdx fun j b => (str[j]?).elim (op.pad b) (op.combine b)

def strDest (strs : List Bytes) : Bytes :=
  let len := strs.foldl (fun len str => if len < str.length then str.length else len) 0
  match strs with
  | [] => []
  | first :: rest =>
    let pv := (if op = .not then first.map (~~~·) else first) ++ replicate (len - first.length) 0
    rest.foldl (step op) pv

/-- What `GetCommand` reports: no bytes for a missing key, an error for another type. -/
def sourceStr : Option ObjectView → Option Bytes
  | none => some []
  | some ⟨.string str, _⟩ => some (str.elim [] EloqString.stringView)
  | some _ => none

/-- The DEL or SET that `HandleMiddleResult` appends, with what `OutputResult` replies. -/
def finish (str : Bytes) (dest : Option ObjectView) : Option ObjectView × Except RdCode Nat :=
  if str = [] then (none, .ok 0)
  else
    let cmd : SetCommand := ⟨EloqString.ofView str, false, false, false, false, uint64Max⟩
    let obj := dest.getD ⟨.string none, none⟩
    if cmd.executeOn obj = .write then (some (cmd.commitOn obj), .ok str.length)
    else (dest, .error .objectTooBig)

def run (sources : List (Option ObjectView)) (dest : Option ObjectView) :
    Option ObjectView × Except RdCode Nat :=
  if sources.any fun src => (sourceStr src).isNone then (dest, .error .wrongType)
  else finish (strDest op (sources.filterMap sourceStr)) dest

/-! ## The reference -/

/-- The operation on one byte of every source. -/
def OpType.apply : OpType → Bytes → UInt8
  | and, bs => bs.foldl (· &&& ·) 255
  | or, bs => bs.foldl (· ||| ·) 0
  | xor, bs => bs.foldl (· ^^^ ·) 0
  | not, bs => ~~~bs.headD 0

def longest (strs : List Bytes) : Nat := (strs.map length).foldr max 0

/-- The operation on the sources, padded with zeros to the longest. -/
def reference (strs : List Bytes) : Bytes :=
  (range (longest strs)).map fun j => op.apply (strs.map (·.getD j 0))

/-- The key holds the bytes, without a deadline, or is absent if there are none. -/
def Left (dest : Option ObjectView) (bytes : Bytes) : Prop :=
  if bytes = [] then dest = none
  else ∃ str : EloqString, dest = some ⟨.string (some str), none⟩ ∧ str.stringView = bytes

/-! ## The fold -/

variable {op}

lemma foldl_len (strs : List Bytes) (len : Nat) :
    strs.foldl (fun len str => if len < str.length then str.length else len) len
      = max len (longest strs) := by
  induction strs generalizing len with
  | nil => simp [longest]
  | cons str strs ih =>
    have hcons : longest (str :: strs) = max str.length (longest strs) := rfl
    rw [foldl_cons, ih]
    split <;> omega

lemma step_map_range (f : Nat → UInt8) (len : Nat) (str : Bytes) :
    step op ((range len).map f) str
      = (range len).map fun j => op.combine (f j) (str.getD j 0) := by
  refine ext_getElem (by simp [step]) fun j _ _ => ?_
  simp only [step, getElem_mapIdx, getElem_map, getElem_range, getD_eq_getElem?_getD]
  cases str[j]? with
  | some b => rfl
  | none => cases op <;> simp [OpType.pad, OpType.combine]

lemma foldl_step (rest : List Bytes) (f : Nat → UInt8) (len : Nat) :
    rest.foldl (step op) ((range len).map f) = (range len).map fun j =>
      (rest.map (·.getD j 0)).foldl op.combine (f j) := by
  induction rest generalizing f with
  | nil => rfl
  | cons str rest ih =>
    rw [foldl_cons, step_map_range, ih]
    rfl

lemma padded_eq {str : Bytes} {len : Nat} (hle : str.length ≤ len) :
    str ++ replicate (len - str.length) 0 = (range len).map fun j => str.getD j 0 := by
  refine ext_getElem (by simp; omega) fun j _ _ => ?_
  rw [getElem_append, getElem_map, getElem_range]
  split
  · rw [getD_eq_getElem]
  · rw [getElem_replicate, getD_eq_default _ _ (by omega)]

lemma apply_cons (hop : op ≠ .not) (b : UInt8) (bs : Bytes) :
    op.apply (b :: bs) = bs.foldl op.combine b := by
  cases op with
  | and =>
    have hones : (255 : UInt8) &&& b = b := UInt8.neg_one_and
    rw [OpType.apply, foldl_cons, hones]
    rfl
  | or => rw [OpType.apply, foldl_cons, UInt8.zero_or]; rfl
  | xor => rw [OpType.apply, foldl_cons, UInt8.zero_xor]; rfl
  | not => exact absurd rfl hop

lemma strDest_eq {strs : List Bytes} (hne : strs ≠ []) (hnot : op = .not → strs.length = 1) :
    strDest op strs = reference op strs := by
  obtain ⟨first, rest, rfl⟩ := exists_cons_of_ne_nil hne
  have hle : first.length ≤ longest (first :: rest) := Nat.le_max_left _ _
  simp only [strDest, foldl_len, Nat.zero_max]
  by_cases hop : op = .not
  · obtain rfl : rest = [] := by simpa using hnot hop
    have hfirst : first = (range first.length).map fun j => first.getD j 0 := by
      simpa using padded_eq (Nat.le_refl first.length)
    have hlen : longest [first] = first.length := Nat.max_zero _
    rw [reference, hlen, Nat.sub_self, replicate_zero, append_nil, hop]
    nth_rewrite 1 [hfirst]
    rw [map_map]
    rfl
  · rw [if_neg hop, padded_eq hle, foldl_step]
    exact map_congr_left fun j _ => (apply_cons hop _ _).symm

lemma reference_perm (hop : op ≠ .not) {strs strs' : List Bytes} (hperm : strs'.Perm strs) :
    reference op strs' = reference op strs := by
  have hlen : longest strs' = longest strs := (hperm.map length).foldr_eq 0
  have happly : ∀ j, op.apply (strs'.map (·.getD j 0)) = op.apply (strs.map (·.getD j 0)) := by
    intro j
    cases op with
    | and => exact (hperm.map _).foldl_eq _
    | or => exact (hperm.map _).foldl_eq _
    | xor => exact (hperm.map _).foldl_eq _
    | not => exact absurd rfl hop
  simp only [reference, hlen, happly]

/-! ## The command -/

lemma longest_le_iff {strs : List Bytes} {n : Nat} :
    longest strs ≤ n ↔ ∀ str ∈ strs, str.length ≤ n := by
  induction strs with
  | nil => simp [longest]
  | cons str strs ih =>
    have hcons : longest (str :: strs) = max str.length (longest strs) := rfl
    rw [hcons, Nat.max_le, ih, forall_mem_cons]

lemma finish_spec {str : Bytes} (hfits : checkSerializedLength str.length = true)
    (dest : Option ObjectView) :
    ∃ left, finish str dest = (left, .ok str.length) ∧ Left left str := by
  unfold finish Left
  by_cases hnil : str = []
  · exact ⟨none, by rw [hnil]; rfl, by rw [if_pos hnil]⟩
  · simp only [if_neg hnil]
    generalize hcmd : mk (EloqString.ofView str) false false false false uint64Max = cmd
    generalize dest.getD ⟨.string none, none⟩ = obj
    have hwrite : cmd.executeOn obj = .write := by
      subst hcmd
      simp [executeOn, hfits]
    have hsets : cmd.Sets obj (cmd.commitOn obj) := by
      cases hstring : obj.isString with
      | true => exact cmd.sets_of_isString obj hstring
      | false =>
        subst hcmd
        exact (sets_of_not_isString _ obj hstring).mpr ⟨.inl rfl, nofun⟩
    obtain ⟨⟨new, hpayload, hview⟩, httl⟩ := hsets
    refine ⟨_, by rw [if_pos hwrite], new, ?_, by rw [hview, ← hcmd]; rfl⟩
    rw [← hpayload, ← show cmd.expiry obj = none by subst hcmd; rfl, ← httl]

/-- The sources of a BITOP that is carried out: missing, or strings the store takes. -/
def Readable (sources : List (Option ObjectView)) : Prop :=
  ∀ src ∈ sources, ∃ str, sourceStr src = some str ∧
    SetCommand.checkSerializedLength str.length = true

lemma run_eq {sources : List (Option ObjectView)} (hne : sources ≠ [])
    (hnot : op = .not → sources.length = 1) (hsources : Readable sources)
    (dest : Option ObjectView) :
    run op sources dest = finish (reference op (sources.filterMap sourceStr)) dest := by
  have hany : (sources.any fun src => (sourceStr src).isNone) = false := by
    refine any_eq_false.mpr fun src hsrc => ?_
    obtain ⟨str, hstr, -⟩ := hsources src hsrc
    simp [hstr]
  rw [run, hany, if_neg Bool.false_ne_true, strDest_eq]
  · obtain ⟨src, hsrc⟩ := exists_mem_of_ne_nil sources hne
    obtain ⟨str, hstr, -⟩ := hsources src hsrc
    exact ne_nil_of_mem (mem_filterMap.mpr ⟨src, hsrc, hstr⟩)
  · intro hop
    obtain ⟨src, rfl⟩ := length_eq_one_iff.mp (hnot hop)
    obtain ⟨str, hstr, -⟩ := hsources src (mem_singleton_self src)
    simp [hstr]

/-- **BITOP stores the operation on the padded sources and replies with its length**, and AND, OR
and XOR do so in every order of the sources.  The parser gives NOT a single source. -/
theorem bitop_stores {sources : List (Option ObjectView)} (hne : sources ≠ [])
    (hnot : op = .not → sources.length = 1) (hsources : Readable sources)
    (dest : Option ObjectView) :
    let strs := sources.filterMap sourceStr
    (∃ left, run op sources dest = (left, .ok (longest strs)) ∧ Left left (reference op strs)) ∧
      (op ≠ .not → ∀ sources', sources'.Perm sources →
        run op sources' dest = run op sources dest) := by
  intro strs
  have hlen : (reference op strs).length = longest strs := by simp [reference]
  have hfits : checkSerializedLength (longest strs) = true := by
    have hmax : longest strs ≤ maxObjectSize - 5 := by
      refine longest_le_iff.mpr fun str hstr => ?_
      obtain ⟨src, hsrc, hstr⟩ := mem_filterMap.mp hstr
      obtain ⟨str', hstr', hfits⟩ := hsources src hsrc
      have := of_decide_eq_true hfits
      rw [Option.some.inj (hstr.symm.trans hstr')]
      omega
    exact decide_eq_true (by unfold maxObjectSize at *; omega)
  refine ⟨?_, fun hop sources' hperm => ?_⟩
  · rw [run_eq hne hnot hsources, ← hlen]
    exact finish_spec (hlen ▸ hfits) dest
  · rw [run_eq hne hnot hsources, run_eq (mt (fun h => (h ▸ hperm).symm.eq_nil) hne)
      (fun h => absurd h hop) fun src hsrc => hsources src (hperm.mem_iff.mp hsrc),
      reference_perm hop (hperm.filterMap _)]

/-- AND of a string and a missing key, onto a list with a deadline. -/
theorem bitop_and_pads :
    let str : ObjectView := ⟨.string (some (EloqString.ofPtr (ascii "ab"))), none⟩
    ∃ left, run .and [some str, none] (some ⟨.list, some 7⟩) = (left, .ok 2) ∧
      Left left [0, 0] := by
  intro str
  have hsources : Readable [some str, none] := forall_mem_cons.mpr
    ⟨⟨ascii "ab", rfl, rfl⟩, forall_mem_singleton.mpr ⟨[], rfl, rfl⟩⟩
  exact (bitop_stores (by simp) (by simp) hsources (some ⟨.list, some 7⟩)).1

end EloqKV.Strings.BitOp
