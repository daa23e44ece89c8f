/-
  Ranges of physical keys: the first part of `ExecuteCommand(ScanCommand)`, which turns a
  namespace prefix and a glob pattern into the start and end keys of a scan, and the range that
  DBSIZE counts.  The start is inclusive where there is one, the end is exclusive.
-/
import EloqKV.Namespace.Prefix

open List

namespace EloqKV

/-! ## The key after all keys with a prefix -/

/-- Increments the last byte other than `0xFF` and cuts the rest off; `none` if there is none. -/
def incrementLast (s : Bytes) : Option Bytes :=
  match s.reverse.dropWhile (· = 255) with
  | [] => none
  | b :: bs => some ((b + 1) :: bs).reverse

def makePrefixNext (s : Bytes) : Bytes :=
  if s = [] then [] else (incrementLast s).getD []

def composeNamespaceKeyNext (ns : Bytes) : Bytes :=
  if ns = [] ∨ ns = kDefaultNamespace then [] else makePrefixNext ns

/-- The part of a pattern before its first `*`, unless that is empty. -/
def literalPrefix (pattern : Bytes) : Option Bytes :=
  let q := pattern.takeWhile (· ≠ 42)
  if q ≠ [] ∧ q.length < pattern.length then some q else none

/-- Start and end keys of a scan; `none` is an infinity. -/
structure KeyRange where
  start : Option Bytes
  stop : Option Bytes
  deriving DecidableEq

def KeyRange.contains (r : KeyRange) (k : Bytes) : Bool :=
  (r.start.all fun lo => !decide (k < lo)) && r.stop.all fun hi => decide (k < hi)

/-- The range of a scan: `ns` is the `ns_id` of the context the scan runs with. -/
def scanRange (ns pattern : Bytes) : KeyRange :=
  if ns ≠ [] then
    match literalPrefix pattern with
    | some q =>
      ⟨some (composeNamespaceKey ns q), some (match incrementLast q with
          | some next => composeNamespaceKey ns next
          | none => composeNamespaceKeyNext ns)⟩
    | none => ⟨some (composeNamespaceKey ns []), some (composeNamespaceKeyNext ns)⟩
  else
    match literalPrefix pattern with
    | some q => ⟨some q, incrementLast q⟩
    | none => ⟨none, none⟩

def dbsizeRange (ns : Bytes) : KeyRange :=
  ⟨some ns, some (composeNamespaceKeyNext ns)⟩

/-- The key a client sees for a physical key: the prefix of the scan's namespace removed. -/
def userKey (ns k : Bytes) : Bytes :=
  if ns ≠ [] ∧ ns.isPrefixOf k then k.drop ns.length else k

/-! ## Order -/

lemma isPrefix_of_between (a : Bytes) :
    ∀ {x y k : Bytes}, a <+: x → a <+: y → ¬ k < x → k < y → a <+: k := by
  induction a with
  | nil => exact fun _ _ _ _ => nil_prefix
  | cons c a ih =>
    rintro x y k ⟨x', rfl⟩ ⟨y', rfl⟩ hx hy
    match k with
    | [] => exact absurd (nil_lt_cons _ _) hx
    | d :: k =>
      simp only [cons_append, cons_lt_cons_iff, not_or, not_and] at hx hy
      have hdc : d = c := by
        rcases hy with hlt | ⟨heq, -⟩
        · exact absurd hlt hx.1
        · exact heq
      subst hdc
      have hy' : k < a ++ y' := by
        rcases hy with hlt | ⟨-, hlt⟩
        · exact absurd hlt (UInt8.lt_irrefl d)
        · exact hlt
      have := ih (prefix_append a x') (prefix_append a y') (hx.2 rfl) hy'
      exact cons_prefix_cons.mpr ⟨rfl, this⟩

/-- The prefix of a namespace ends in the delimiter, so the next key differs in that byte only. -/
lemma composeNamespaceKeyNext_makePrefix (id : Bytes) (epoch : Nat) :
    composeNamespaceKeyNext (makePrefix id epoch)
      = id ++ [b255Delimiter] ++ b255e epoch ++ [b255Delimiter + 1] := by
  have hne := makePrefix_ne_default id epoch
  unfold composeNamespaceKeyNext makePrefixNext incrementLast
  rw [if_neg (by simp [hne])]
  simp [makePrefix, b255Delimiter]

lemma isPrefix_of_lt_succ (m : Bytes) {c c' : UInt8} (hc : ∀ d : UInt8, d < c' → d ≤ c)
    {k q : Bytes} (hlo : ¬ k < m ++ [c] ++ q) (hhi : k < m ++ [c']) : m ++ [c] <+: k := by
  induction m generalizing k with
  | nil =>
    match k with
    | [] => exact absurd (nil_lt_cons _ _) hlo
    | d :: k =>
      simp only [nil_append, cons_append, cons_lt_cons_iff, not_or,
        not_lt_nil, and_false, or_false] at hlo hhi
      have hdc : d = c := UInt8.le_antisymm (hc d hhi) (UInt8.not_lt.mp hlo.1)
      exact cons_prefix_cons.mpr ⟨hdc.symm, nil_prefix⟩
  | cons b m ih =>
    match k with
    | [] => exact absurd (nil_lt_cons _ _) hlo
    | d :: k =>
      simp only [cons_append, cons_lt_cons_iff, not_or, not_and] at hlo hhi
      rcases hhi with hlt | ⟨heq, hlt⟩
      · exact absurd hlt hlo.1
      · subst heq
        exact cons_prefix_cons.mpr ⟨rfl, ih (hlo.2 rfl) hlt⟩

lemma isPrefix_of_lt_next {id k q : Bytes} {epoch : Nat} (hlo : ¬ k < makePrefix id epoch ++ q)
    (hhi : k < composeNamespaceKeyNext (makePrefix id epoch)) : makePrefix id epoch <+: k := by
  rw [composeNamespaceKeyNext_makePrefix] at hhi
  have hsucc : ∀ d : UInt8, d < b255Delimiter + 1 → d ≤ b255Delimiter := by
    intro d hd
    rw [UInt8.lt_iff_toNat_lt] at hd
    rw [UInt8.le_iff_toNat_le]
    have : (b255Delimiter + 1).toNat = b255Delimiter.toNat + 1 := by decide
    omega
  exact isPrefix_of_lt_succ _ hsucc hlo hhi

/-- **A scan issued in a namespace stays in it**, whatever the pattern. -/
theorem scanRange_contains {id : Bytes} {epoch : Nat} {pattern k : Bytes}
    (h : (scanRange (makePrefix id epoch) pattern).contains k = true) :
    makePrefix id epoch <+: k := by
  unfold scanRange KeyRange.contains at h
  rw [if_pos (makePrefix_ne_nil id epoch)] at h
  cases hq : literalPrefix pattern with
  | none =>
    simp only [hq, composeNamespaceKey_makePrefix, Option.all_some, Bool.and_eq_true,
      Bool.not_eq_true', decide_eq_false_iff_not, decide_eq_true_eq] at h
    exact isPrefix_of_lt_next h.1 h.2
  | some q =>
    simp only [hq, composeNamespaceKey_makePrefix, Option.all_some, Bool.and_eq_true,
      Bool.not_eq_true', decide_eq_false_iff_not, decide_eq_true_eq] at h
    cases hnext : incrementLast q with
    | none =>
      rw [hnext] at h
      exact isPrefix_of_lt_next h.1 h.2
    | some next =>
      rw [hnext] at h
      exact isPrefix_of_between _ (prefix_append _ q) (prefix_append _ next) h.1 h.2

/-! ## The scan without a namespace -/

lemma lt_incrementLast {q next : Bytes} (h : incrementLast q = some next) : q < next := by
  unfold incrementLast at h
  split at h
  · simp at h
  · rename_i b bs hdrop
    cases h
    have hb : b ≠ 255 := by
      have := List.head?_dropWhile_not (fun x : UInt8 => decide (x = 255)) q.reverse
      rw [hdrop] at this
      simpa using this
    -- `q` is the kept bytes, the byte that is incremented, and the bytes cut off
    have hq : q = bs.reverse ++ b :: (q.reverse.takeWhile (· = 255)).reverse := by
      have hsplit := takeWhile_append_dropWhile (p := fun x : UInt8 => decide (x = 255))
        (l := q.reverse)
      rw [hdrop] at hsplit
      have := congrArg List.reverse hsplit
      simpa using this.symm
    have hlt : b < b + 1 := by
      rw [UInt8.lt_iff_toNat_lt, UInt8.toNat_add]
      have h1 : (1 : UInt8).toNat = 1 := rfl
      have h2 : b.toNat ≠ 255 := fun h => hb (UInt8.toNat_inj.mp h)
      have h3 := b.toNat_lt
      omega
    rw [hq, reverse_cons]
    generalize bs.reverse = m
    induction m with
    | nil => exact cons_lt_cons_iff.mpr (.inl hlt)
    | cons c m ih => exact cons_lt_cons_iff.mpr (.inr ⟨rfl, ih⟩)

lemma exists_scanRange_nil (pattern : Bytes) :
    ∃ k, (scanRange [] pattern).contains k = true ∧ ∃ id, ¬ makePrefix id 1 <+: k := by
  unfold scanRange
  cases hq : literalPrefix pattern with
  | none => exact ⟨[], rfl, [1], by decide⟩
  | some q =>
    refine ⟨q, ?_, ?_⟩
    · cases hnext : incrementLast q with
      | none => simp [KeyRange.contains, List.lt_irrefl, hnext]
      | some next => simp [KeyRange.contains, List.lt_irrefl, hnext, lt_incrementLast hnext]
    · by_cases h1 : makePrefix [1] 1 <+: q
      · refine ⟨[2], fun h2 => ?_⟩
        obtain ⟨t, rfl⟩ := h1
        obtain ⟨t', ht⟩ := h2
        simp [makePrefix] at ht
      · exact ⟨[1], h1⟩

end EloqKV
