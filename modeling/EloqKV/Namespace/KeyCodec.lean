/-
  Reading physical keys back (`b255d` of `b255.cpp`, `NamespacePrefix::Parse` of
  `include/namespace/prefix.h`), and why tenants that share one table cannot meet in it.

  The digits of an id and of an epoch never are the delimiter, so the first two delimiters of a
  physical key are the ones the prefix put there.  The keys of one prefix are then the keys from
  the prefix to the prefix with its last byte incremented.
-/
import EloqKV.Namespace.ScanRange

open List

namespace EloqKV

/-! ## Decoding base 255 -/

/-- The digit loop of `b255d`; the test keeps `id * 255 + digit` inside 64 bits. -/
def b255dLoop (id : Nat) : Bytes → Option Nat
  | [] => some id
  | uc :: s =>
    if uc = b255Delimiter then none
    else
      let digit := if uc < b255Delimiter then uc.toNat else uc.toNat - 1
      if id > (u64 - 1 - digit) / 255 then none
      else b255dLoop (id * 255 + digit) s

def b255d (s : Bytes) : Option Nat :=
  if s = [] ∨ s.length > 9 then none else b255dLoop 0 s

/-! ## Parsing a physical key -/

/-- `std::string_view::find(B255_DELIMITER, pos)`. -/
def findDelimiter (s : Bytes) (pos : Nat) : Option Nat :=
  ((s.drop pos).findIdx? (· = b255Delimiter)).map (pos + ·)

def substr (s : Bytes) (pos count : Nat) : Bytes :=
  (s.drop pos).take count

/-- `NamespacePrefix::Parse`: the encoded namespace id, the epoch and the client's key. -/
def parse (fullKey : Bytes) : Option (Bytes × Nat × Bytes) :=
  let nsStart := 0
  match findDelimiter fullKey nsStart with
  | none => none
  | some delim1 =>
    if delim1 ≤ nsStart then none
    else
      let epochStart := delim1 + 1
      match findDelimiter fullKey epochStart with
      | none => none
      | some delim2 =>
        if delim2 ≤ epochStart then none
        else
          match b255d (substr fullKey epochStart (delim2 - epochStart)) with
          | none => none
          | some epoch =>
            some (substr fullKey nsStart (delim1 - nsStart), epoch, fullKey.drop (delim2 + 1))

/-! ## Digits

Everything about `b255e` comes from its loop, by induction on the nine bytes of its buffer. -/

/-- The byte of a digit, as `b255e` writes it. -/
def digitByte (digit : Nat) : UInt8 :=
  UInt8.ofNat (if digit < b255Delimiter.toNat then digit else digit + 1)

lemma b255Digits_succ (fuel n : Nat) (acc : Bytes) :
    b255Digits (fuel + 1) n acc
      = if n = 0 then acc else b255Digits fuel (n / 255) (digitByte (n % 255) :: acc) :=
  rfl

lemma toNat_digitByte {digit : Nat} (hd : digit < 255) :
    (digitByte digit).toNat = if digit < 58 then digit else digit + 1 := by
  apply UInt8.toNat_ofNat_of_lt'
  show (if digit < 58 then digit else digit + 1) < 256
  split <;> omega

lemma digitByte_ne_delimiter {digit : Nat} (hd : digit < 255) :
    digitByte digit ≠ b255Delimiter := by
  intro h
  have hval : (digitByte digit).toNat = 58 := congrArg UInt8.toNat h
  rw [toNat_digitByte hd] at hval
  split at hval <;> omega

lemma b255dLoop_digitByte {id digit : Nat} (s : Bytes) (hd : digit < 255)
    (hfits : id * 255 + digit < u64) :
    b255dLoop id (digitByte digit :: s) = b255dLoop (id * 255 + digit) s := by
  have hread : (if digitByte digit < b255Delimiter then (digitByte digit).toNat
      else (digitByte digit).toNat - 1) = digit := by
    have h58 : b255Delimiter.toNat = 58 := rfl
    simp only [UInt8.lt_iff_toNat_lt, toNat_digitByte hd, h58]
    split_ifs <;> omega
  have hok : ¬ id > (u64 - 1 - digit) / 255 := by
    omega
  rw [b255dLoop, if_neg (digitByte_ne_delimiter hd), hread, if_neg hok]

lemma b255dLoop_b255Digits (fuel : Nat) :
    ∀ {n : Nat} (acc : Bytes), n < 255 ^ fuel → n < u64 →
      b255dLoop 0 (b255Digits fuel n acc) = b255dLoop n acc := by
  induction fuel with
  | zero =>
    intro n acc hn _
    obtain rfl : n = 0 := by simpa using hn
    rfl
  | succ fuel ih =>
    intro n acc hn h64
    rw [b255Digits_succ]
    by_cases h0 : n = 0
    · rw [if_pos h0, h0]
    · have hq : n / 255 < 255 ^ fuel := by
        rw [Nat.div_lt_iff_lt_mul (by decide)]
        exact hn
      have hq64 : n / 255 < u64 := Nat.lt_of_le_of_lt (Nat.div_le_self n 255) h64
      have hback : n / 255 * 255 + n % 255 = n := Nat.div_add_mod' n 255
      rw [if_neg h0, ih _ hq hq64,
        b255dLoop_digitByte _ (Nat.mod_lt n (by decide)) (by rw [hback]; exact h64), hback]

lemma length_b255Digits_le (fuel : Nat) :
    ∀ (n : Nat) (acc : Bytes), (b255Digits fuel n acc).length ≤ fuel + acc.length := by
  induction fuel with
  | zero => simp [b255Digits]
  | succ fuel ih =>
    intro n acc
    rw [b255Digits_succ]
    split
    · omega
    · have := ih (n / 255) (digitByte (n % 255) :: acc)
      rw [length_cons] at this
      omega

lemma delimiter_notMem_b255Digits (fuel : Nat) :
    ∀ (n : Nat) {acc : Bytes}, b255Delimiter ∉ acc → b255Delimiter ∉ b255Digits fuel n acc := by
  induction fuel with
  | zero => intro n acc hacc; exact hacc
  | succ fuel ih =>
    intro n acc hacc
    rw [b255Digits_succ]
    split
    · exact hacc
    · apply ih
      rw [mem_cons, not_or]
      exact ⟨(digitByte_ne_delimiter (Nat.mod_lt n (by decide))).symm, hacc⟩

lemma acc_suffix_b255Digits (fuel : Nat) :
    ∀ (n : Nat) (acc : Bytes), acc <:+ b255Digits fuel n acc := by
  induction fuel with
  | zero => intro n acc; exact suffix_refl acc
  | succ fuel ih =>
    intro n acc
    rw [b255Digits_succ]
    split
    · exact suffix_refl acc
    · exact (suffix_cons _ acc).trans (ih _ _)

lemma b255e_ne_nil (n : Nat) : b255e n ≠ [] := by
  unfold b255e
  split
  · simp
  · rename_i h0
    rw [b255Digits_succ, if_neg h0]
    intro hnil
    have := acc_suffix_b255Digits 8 (n / 255) [digitByte (n % 255)]
    rw [hnil] at this
    simp at this

lemma delimiter_notMem_b255e (n : Nat) : b255Delimiter ∉ b255e n := by
  unfold b255e
  split
  · decide
  · exact delimiter_notMem_b255Digits 9 n (by simp)

theorem b255d_b255e (n : UInt64) : b255d (b255e n.toNat) = some n.toNat := by
  have h64 : n.toNat < u64 := n.toNat_lt
  have hlen : (b255e n.toNat).length ≤ 9 := by
    unfold b255e
    split
    · simp
    · exact length_b255Digits_le 9 n.toNat []
  have hshape : ¬ (b255e n.toNat = [] ∨ (b255e n.toNat).length > 9) := by
    rw [not_or, Nat.not_lt]
    exact ⟨b255e_ne_nil n.toNat, hlen⟩
  rw [b255d, if_neg hshape]
  unfold b255e
  by_cases h0 : n.toNat = 0
  · rw [h0]
    decide
  · -- nine digits are enough: `255 ^ 9` exceeds the largest 64-bit value
    have h9 : n.toNat < 255 ^ 9 := Nat.lt_trans h64 (by decide)
    rw [if_neg h0, b255dLoop_b255Digits 9 [] h9 h64, b255dLoop]

lemma b255e_injective : Function.Injective fun n : UInt64 => b255e n.toNat := by
  intro m n h
  have hdec := congrArg b255d h
  simp only [b255d_b255e] at hdec
  exact UInt64.toNat_inj.mp (Option.some.inj hdec)

/-! ## Parsing what was composed -/

lemma findDelimiter_append {a b : Bytes} (pre : Bytes) (ha : b255Delimiter ∉ a) :
    findDelimiter (pre ++ (a ++ b255Delimiter :: b)) pre.length = some (pre.length + a.length) := by
  have hfirst : (a ++ b255Delimiter :: b).findIdx? (· = b255Delimiter) = some a.length := by
    rw [List.findIdx?_append, List.findIdx?_eq_none_iff.mpr]
    · simp [List.findIdx?_cons]
    · intro x hx
      rw [decide_eq_false_iff_not]
      rintro rfl
      exact ha hx
  rw [findDelimiter, drop_left, hfirst, Option.map_some]

variable (id epoch : UInt64)

/-- The key the server stores for `key` of a tenant. -/
def physicalKey (key : Bytes) : Bytes :=
  composeNamespaceKey (makePrefix (b255e id.toNat) epoch.toNat) key

lemma physicalKey_eq (key : Bytes) :
    physicalKey id epoch key = makePrefix (b255e id.toNat) epoch.toNat ++ key :=
  composeNamespaceKey_makePrefix _ _ _

/-- `b255e` never writes the delimiter, so the first two are those of the prefix. -/
theorem parse_physicalKey (key : Bytes) :
    parse (physicalKey id epoch key) = some (b255e id.toNat, epoch.toNat, key) := by
  have hid := delimiter_notMem_b255e id.toNat
  have hepoch := delimiter_notMem_b255e epoch.toNat
  have hid0 := b255e_ne_nil id.toNat
  have hepoch0 := b255e_ne_nil epoch.toNat
  have hdec := b255d_b255e epoch
  rw [physicalKey_eq, makePrefix]
  generalize b255e id.toNat = i at *
  generalize b255e epoch.toNat = e at *
  have hfull : i ++ [b255Delimiter] ++ e ++ [b255Delimiter] ++ key
      = i ++ b255Delimiter :: (e ++ b255Delimiter :: key) := by simp
  have hfull' : i ++ b255Delimiter :: (e ++ b255Delimiter :: key)
      = (i ++ [b255Delimiter]) ++ (e ++ b255Delimiter :: key) := by simp
  have hlen : (i ++ [b255Delimiter]).length = i.length + 1 := by simp
  have hi : 0 < i.length := length_pos_of_ne_nil hid0
  have he : 0 < e.length := length_pos_of_ne_nil hepoch0
  -- the two delimiters `Parse` finds are those of the prefix
  have h1 : findDelimiter (i ++ b255Delimiter :: (e ++ b255Delimiter :: key)) 0
      = some i.length := by
    have := findDelimiter_append (b := e ++ b255Delimiter :: key) [] hid
    simpa using this
  have h2 : findDelimiter (i ++ b255Delimiter :: (e ++ b255Delimiter :: key)) (i.length + 1)
      = some (i.length + 1 + e.length) := by
    have := findDelimiter_append (b := key) (i ++ [b255Delimiter]) hepoch
    rwa [hlen, ← hfull'] at this
  have hsub : substr (i ++ b255Delimiter :: (e ++ b255Delimiter :: key)) (i.length + 1)
      (i.length + 1 + e.length - (i.length + 1)) = e := by
    rw [substr, hfull', ← hlen, drop_left, Nat.add_sub_cancel_left, take_left]
  have hns : substr (i ++ b255Delimiter :: (e ++ b255Delimiter :: key)) 0 (i.length - 0) = i := by
    simp [substr]
  have hkey : (i ++ b255Delimiter :: (e ++ b255Delimiter :: key)).drop
      (i.length + 1 + e.length + 1) = key := by
    have : i ++ b255Delimiter :: (e ++ b255Delimiter :: key)
        = (i ++ b255Delimiter :: (e ++ [b255Delimiter])) ++ key := by simp
    rw [this]
    apply drop_left'
    simp only [length_append, length_cons, length_nil]
    omega
  rw [hfull, parse]
  simp only [h1, h2, hsub, hns, hkey, hdec]
  rw [if_neg (by omega), if_neg (by omega)]

lemma b255e_inj {m n : Nat} (hm : m < u64) (hn : n < u64) (h : b255e m = b255e n) : m = n := by
  have hdec : ∀ {k : Nat}, k < u64 → b255d (b255e k) = some k := by
    intro k hk
    have := b255d_b255e (UInt64.ofNat k)
    rwa [UInt64.toNat_ofNat_of_lt' hk] at this
  exact Option.some.inj ((hdec hm).symm.trans ((congrArg b255d h).trans (hdec hn)))

lemma makePrefix_append_inj {id e id' e' : Nat} {key key' : Bytes} (hid : id < u64)
    (he : e < u64) (hid' : id' < u64) (he' : e' < u64)
    (h : makePrefix (b255e id) e ++ key = makePrefix (b255e id') e' ++ key') :
    id = id' ∧ e = e' ∧ key = key' := by
  have hparse : ∀ {i e : Nat} (k : Bytes), i < u64 → e < u64 →
      parse (makePrefix (b255e i) e ++ k) = some (b255e i, e, k) := by
    intro i e k hi he
    have := parse_physicalKey (UInt64.ofNat i) (UInt64.ofNat e) k
    rwa [physicalKey_eq, UInt64.toNat_ofNat_of_lt' hi, UInt64.toNat_ofNat_of_lt' he] at this
  have hparts := (hparse key hid he).symm.trans ((congrArg parse h).trans (hparse key' hid' he'))
  simp only [Option.some.injEq, Prod.mk.injEq] at hparts
  exact ⟨b255e_inj hid hid' hparts.1, hparts.2.1, hparts.2.2⟩

/-! ## One prefix, one range -/

lemma not_append_lt (a b : Bytes) : ¬ a ++ b < a := by
  induction a with
  | nil => exact not_lt_nil _
  | cons c a ih =>
    rw [cons_append, cons_lt_cons_iff, not_or]
    exact ⟨UInt8.lt_irrefl c, fun h => ih h.2⟩

lemma append_cons_lt {c d : UInt8} (hcd : c < d) (m s : Bytes) : m ++ c :: s < m ++ [d] := by
  induction m with
  | nil => exact cons_lt_cons_iff.mpr (.inl hcd)
  | cons b m ih => exact cons_lt_cons_iff.mpr (.inr ⟨rfl, ih⟩)

/-- The range `[MakePrefix(id, epoch), MakePrefixNext(...))`, in the unsigned order of bytes. -/
def InPrefixRange (k : Bytes) : Prop :=
  makePrefix (b255e id.toNat) epoch.toNat ≤ k ∧
    k < makePrefixNext (makePrefix (b255e id.toNat) epoch.toNat)

instance (id epoch : UInt64) (k : Bytes) : Decidable (InPrefixRange id epoch k) :=
  inferInstanceAs (Decidable (_ ∧ _))

lemma makePrefixNext_makePrefix (id : Bytes) (epoch : Nat) :
    makePrefixNext (makePrefix id epoch)
      = id ++ [b255Delimiter] ++ b255e epoch ++ [b255Delimiter + 1] := by
  rw [← composeNamespaceKeyNext_makePrefix, composeNamespaceKeyNext]
  simp [makePrefix_ne_default]

/-- **The range of a prefix holds exactly the keys composed with it.** -/
theorem inPrefixRange_iff (k : Bytes) :
    InPrefixRange id epoch k ↔ ∃ key, k = physicalKey id epoch key := by
  constructor
  · rintro ⟨hlo, hhi⟩
    have hprefix : makePrefix (b255e id.toNat) epoch.toNat <+: k := by
      apply isPrefix_of_lt_next (q := [])
      · rw [append_nil]
        exact List.not_lt.mpr hlo
      · rw [composeNamespaceKeyNext_makePrefix, ← makePrefixNext_makePrefix]
        exact hhi
    obtain ⟨key, rfl⟩ := hprefix
    exact ⟨key, (physicalKey_eq id epoch key).symm⟩
  · rintro ⟨key, rfl⟩
    rw [physicalKey_eq]
    refine ⟨List.not_lt.mp (not_append_lt _ key), ?_⟩
    rw [makePrefixNext_makePrefix, makePrefix, append_assoc _ [b255Delimiter] key]
    exact append_cons_lt (by decide) _ key

/-- **Physical keys keep tenants apart.** Base 255 is injective and `b255d` inverts it; a physical
key determines id, epoch and client key, and `Parse` returns them; the range of a prefix is exactly
the set of keys composed with it. -/
theorem physical_keys_isolate_namespaces :
    (∀ n : UInt64, b255d (b255e n.toNat) = some n.toNat) ∧
    (Function.Injective fun n : UInt64 => b255e n.toNat) ∧
    (Function.Injective fun p : UInt64 × UInt64 × Bytes => physicalKey p.1 p.2.1 p.2.2) ∧
    (∀ (id epoch : UInt64) (key : Bytes),
      parse (physicalKey id epoch key) = some (b255e id.toNat, epoch.toNat, key)) ∧
    (∀ (id epoch : UInt64) (k : Bytes),
      InPrefixRange id epoch k ↔ ∃ key, k = physicalKey id epoch key) ∧
    (∀ (id epoch id' epoch' : UInt64) (k : Bytes), (id, epoch) ≠ (id', epoch') →
      ¬ (InPrefixRange id epoch k ∧ InPrefixRange id' epoch' k)) := by
  -- all three parts of a composed key come back out of `Parse`
  have hinj : ∀ {id epoch id' epoch' : UInt64} {key key' : Bytes},
      physicalKey id epoch key = physicalKey id' epoch' key' →
        id = id' ∧ epoch = epoch' ∧ key = key' := by
    intro id epoch id' epoch' key key' h
    have hparse := congrArg parse h
    rw [parse_physicalKey, parse_physicalKey] at hparse
    simp only [Option.some.injEq, Prod.mk.injEq] at hparse
    exact ⟨b255e_injective hparse.1, UInt64.toNat_inj.mp hparse.2.1, hparse.2.2⟩
  refine ⟨b255d_b255e, b255e_injective, ?_, parse_physicalKey, inPrefixRange_iff, ?_⟩
  · rintro ⟨id, epoch, key⟩ ⟨id', epoch', key'⟩ h
    obtain ⟨rfl, rfl, rfl⟩ := hinj h
    rfl
  · rintro id epoch id' epoch' k hne ⟨hk, hk'⟩
    obtain ⟨key, rfl⟩ := (inPrefixRange_iff id epoch k).mp hk
    obtain ⟨key', heq⟩ := (inPrefixRange_iff id' epoch' _).mp hk'
    obtain ⟨rfl, rfl, -⟩ := hinj heq
    exact hne rfl

end EloqKV
