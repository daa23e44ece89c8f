/-
  KEYS and SCAN with a pattern: the range the scan is narrowed to, and the filter that KEYS
  pushes down to the engine (`ExecuteCommand(ScanCommand)`, `EloqKey::IsMatch`).

  The range is made from what stands before the first `*`, as if that were the beginning of every
  matching key.  The filter of KEYS is the namespace's prefix followed by the pattern, so the bytes
  of the prefix are read as glob elements too.
-/
import EloqKV.StringMatch
import EloqKV.Namespace.KeyCodec
import EloqKV.Namespace.ScriptScope

open EloqKV.Lib EloqKV.Lib.Glob List

namespace EloqKV

/-! ## The range of a literal beginning -/

lemma incrementLast_cons (c : UInt8) (q : Bytes) :
    incrementLast (c :: q) =
      match incrementLast q with
      | some next => some (c :: next)
      | none => if c = 255 then none else some [c + 1] := by
  unfold incrementLast
  rw [reverse_cons, dropWhile_append]
  cases hq : q.reverse.dropWhile (· = 255) with
  | nil =>
    by_cases hc : c = 255 <;> simp [hc]
  | cons b bs => simp

lemma UInt8.eq_of_lt_succ {c d : UInt8} (hc : c ≠ 255) (hlo : ¬ d < c) : d < c + 1 ↔ d = c := by
  have hne : c.toNat ≠ 255 := fun h => hc (UInt8.toNat_inj.mp h)
  have hlt := c.toNat_lt
  rw [UInt8.lt_iff_toNat_lt] at hlo ⊢
  rw [UInt8.toNat_add, ← UInt8.toNat_inj]
  have hone : (1 : UInt8).toNat = 1 := rfl
  omega

/-- **The range from `q` to its increment holds exactly the keys that begin with `q`.** -/
theorem between_incrementLast_iff (q k : Bytes) :
    (¬ k < q ∧ ∀ next, incrementLast q = some next → k < next) ↔ q <+: k := by
  induction q generalizing k with
  | nil => simp [incrementLast]
  | cons c q ih =>
    match k with
    | [] => simp
    | d :: k =>
      rw [cons_prefix_cons, ← ih k, incrementLast_cons, cons_lt_cons_iff]
      constructor
      · rintro ⟨hlo, hhi⟩
        obtain ⟨hdc, hk⟩ := not_or.mp hlo
        -- the first byte is the least possible one, and not greater
        have heq : d = c := by
          cases hq : incrementLast q with
          | some next =>
            rcases cons_lt_cons_iff.mp (hhi (c :: next) (by rw [hq])) with hlt | ⟨heq, -⟩
            · exact absurd hlt hdc
            · exact heq
          | none =>
            by_cases hc : c = 255
            · subst hc
              rw [UInt8.lt_iff_toNat_lt] at hdc
              have hlt := d.toNat_lt
              apply UInt8.toNat_inj.mp
              have h255 : (255 : UInt8).toNat = 255 := rfl
              omega
            · rcases cons_lt_cons_iff.mp (hhi [c + 1] (by rw [hq, if_neg hc])) with hlt | ⟨-, h⟩
              · exact (UInt8.eq_of_lt_succ hc hdc).mp hlt
              · exact absurd h (not_lt_nil k)
        subst heq
        refine ⟨rfl, fun h => hk ⟨rfl, h⟩, fun next hnext => ?_⟩
        rcases cons_lt_cons_iff.mp (hhi (d :: next) (by rw [hnext])) with hlt | ⟨-, hlt⟩
        · exact absurd hlt hdc
        · exact hlt
      · rintro ⟨rfl, hlo, hhi⟩
        refine ⟨?_, fun next hnext => ?_⟩
        · rintro (hlt | ⟨-, hlt⟩)
          · exact UInt8.lt_irrefl c hlt
          · exact hlo hlt
        · cases hq : incrementLast q with
          | some next' =>
            rw [hq] at hnext
            cases hnext
            exact cons_lt_cons_iff.mpr (.inr ⟨rfl, hhi next' hq⟩)
          | none =>
            rw [hq] at hnext
            dsimp only at hnext
            split at hnext
            · cases hnext
            · rename_i hc
              cases hnext
              refine cons_lt_cons_iff.mpr (.inl ?_)
              exact (UInt8.eq_of_lt_succ hc (UInt8.lt_irrefl c)).mpr rfl

lemma append_lt_append_iff (a x y : Bytes) : a ++ x < a ++ y ↔ x < y := by
  induction a with
  | nil => rfl
  | cons c a ih =>
    rw [cons_append, cons_append, cons_lt_cons_iff, ih]
    simp [UInt8.lt_irrefl]

/-- A namespace as a scan sees it. -/
inductive ScanNamespace where
  | default
  | tenant (id epoch : UInt64)

open ScanNamespace

/-- `ns_id` of the context. -/
def ScanNamespace.nsId : ScanNamespace → Bytes
  | .default => []
  | .tenant id epoch => makePrefix (b255e id.toNat) epoch.toNat

variable (ns : ScanNamespace)

def ScanNamespace.key (k : Bytes) : Bytes :=
  composeNamespaceKey ns.nsId k

lemma ScanNamespace.key_eq (k : Bytes) : ns.key k = ns.nsId ++ k := by
  cases ns with
  | default => rfl
  | tenant id epoch => exact composeNamespaceKey_makePrefix _ _ _

/-- **The range of a pattern** holds the namespace's keys that begin with its part before the star.
-/
theorem scanRange_contains_iff (pattern k : Bytes) :
    (scanRange ns.nsId pattern).contains (ns.key k) = true ↔
      ∀ q, literalPrefix pattern = some q → q <+: k := by
  cases ns with
  | default =>
    unfold scanRange KeyRange.contains
    cases hq : literalPrefix pattern with
    | none => simp [nsId]
    | some q =>
      have hrange := between_incrementLast_iff q k
      cases hnext : incrementLast q <;>
        simp_all [nsId, key, composeNamespaceKey]
  | tenant id epoch =>
    have hbelow : ∀ k, makePrefix (b255e id.toNat) epoch.toNat ++ k <
        composeNamespaceKeyNext (makePrefix (b255e id.toNat) epoch.toNat) := by
      intro k
      rw [composeNamespaceKeyNext_makePrefix, makePrefix, append_assoc _ [b255Delimiter] k]
      exact append_cons_lt (by decide) _ k
    rw [key_eq]
    unfold scanRange KeyRange.contains
    rw [nsId]
    cases hq : literalPrefix pattern with
    | none => simp [hbelow, not_append_lt]
    | some q =>
      have hrange := between_incrementLast_iff q k
      cases hnext : incrementLast q <;>
        simp_all [composeNamespaceKey_makePrefix, append_lt_append_iff]

/-! ## Narrowing -/

instance nontrivialUInt8 : Nontrivial UInt8 := ⟨0, 1, by decide⟩

variable (pattern : Bytes)

/-- If the pattern matches at all, it begins with the bytes before its first star and no others. -/
def Narrowable : Prop :=
  ∀ q, literalPrefix pattern = some q →
    Satisfiable (globElems false pattern) → Pinned (globElems false pattern) q

lemma literalPrefix_nil : literalPrefix [] = none := rfl

lemma scanRange_complete_iff :
    (∀ k, stringmatchlen pattern k false = true →
      (scanRange ns.nsId pattern).contains (ns.key k) = true) ↔ Narrowable pattern := by
  by_cases hne : pattern = []
  · subst hne
    simp [scanRange_contains_iff, Narrowable, literalPrefix_nil]
  · simp only [scanRange_contains_iff, stringmatchlen_iff hne]
    constructor
    · intro h q hq
      exact forall_prefix_iff.mp fun k hk => h k hk q hq
    · intro h k hk q hq
      exact forall_prefix_iff.mpr (h q hq) k hk

/-- **The narrowed range holds every matching key, in every namespace, exactly for the patterns
that begin as literally as the narrowing takes them.** -/
theorem scan_range_keeps_matches_iff :
    (∀ k, stringmatchlen pattern k false = true →
      (scanRange ns.nsId pattern).contains (ns.key k) = true) ↔ Narrowable pattern :=
  scanRange_complete_iff ns pattern

variable {p : UInt8}

lemma elemRest_plain (h91 : p ≠ 91) (h92 : p ≠ 92) : elemRest p pattern = pattern := by
  unfold elemRest
  split
  · rfl
  · split
    · exact absurd rfl h92
    · rfl

/-- `KEYS a?*` and `SCAN 0 MATCH a?*` never see the key `ab1`, which the pattern matches. -/
theorem narrowing_loses_question_mark :
    stringmatchlen (ascii "a?*") (ascii "ab1") false = true ∧
      (scanRange [] (ascii "a?*")).contains (ascii "ab1") = false ∧
      (scanRange (ScanNamespace.tenant 7 1).nsId (ascii "a?*")).contains
        ((ScanNamespace.tenant 7 1).key (ascii "ab1")) = false := by
  decide +kernel

/-! ## The filter of KEYS -/

def isMatch (pattern key : Bytes) : Bool :=
  if pattern = [] then true else stringmatchlen pattern key false

variable (stored : List Bytes)

/-- The reply of KEYS over the stored keys of a table. -/
def keysReply : ScriptScope.Reply Unit :=
  (ScriptScope.runKeys isMatch ns.nsId pattern (stored.map fun k => (k, ()))).reply

def keysHits : List Bytes :=
  (stored.filter fun k => (scanRange ns.nsId pattern).contains k &&
    isMatch (composeNamespaceKey ns.nsId pattern) k).map (userKey ns.nsId)

lemma keysReply_eq : keysReply ns pattern stored = .keys (keysHits ns pattern stored) := by
  unfold keysReply ScriptScope.runKeys ScriptScope.scanned keysHits
  simp only [filter_map, map_map]
  rfl

/-- KEYS returns the user keys that match, and what it would return in the default namespace. -/
structure KeysExact (id epoch : UInt64) (pattern : Bytes) : Prop where
  exact : ∀ stored, ∃ ks, keysReply (.tenant id epoch) pattern stored = .keys ks ∧
    ∀ k, k ∈ ks ↔ (tenant id epoch).key k ∈ stored ∧
      stringmatchlen pattern k false = true
  same_as_default : ∀ stored user,
    (∀ k, (tenant id epoch).key k ∈ stored ↔ k ∈ user) →
    ∃ ks ks', keysReply (.tenant id epoch) pattern stored = .keys ks ∧
      keysReply .default pattern user = .keys ks' ∧ ∀ k, k ∈ ks ↔ k ∈ ks'

/-- No byte of a namespace's prefix is `*`, `[` or a backslash. -/
def PlainPrefix (id epoch : UInt64) : Prop :=
  ∀ b ∈ (tenant id epoch).nsId, b ≠ 42 ∧ b ≠ 91 ∧ b ≠ 92

lemma userKey_key (k : Bytes) : userKey ns.nsId (ns.key k) = k := by
  rw [ns.key_eq]
  unfold userKey
  split
  · exact drop_left
  · rename_i hns
    have hnil : ns.nsId = [] := by
      by_contra hne
      exact hns ⟨hne, by simp [ isPrefixOf_iff_prefix]⟩
    rw [hnil, nil_append]

lemma key_userKey {ns : ScanNamespace} {pattern x : Bytes}
    (h : (scanRange ns.nsId pattern).contains x = true) : ns.key (userKey ns.nsId x) = x := by
  cases ns with
  | default => rfl
  | tenant id epoch =>
    obtain ⟨k, rfl⟩ := scanRange_contains h
    rw [← composeNamespaceKey_makePrefix]
    exact congrArg _ (userKey_key (.tenant id epoch) k)

lemma mem_keysHits_iff (k : Bytes) :
    k ∈ keysHits ns pattern stored ↔ ns.key k ∈ stored ∧
      (scanRange ns.nsId pattern).contains (ns.key k) = true ∧
        isMatch (ns.key pattern) (ns.key k) = true := by
  unfold keysHits
  rw [mem_map]
  constructor
  · rintro ⟨x, hx, rfl⟩
    obtain ⟨hmem, hcond⟩ := mem_filter.mp hx
    rw [Bool.and_eq_true] at hcond
    rw [key_userKey hcond.1]
    exact ⟨hmem, hcond⟩
  · rintro ⟨hmem, hrange, hmatch⟩
    refine ⟨ns.key k, mem_filter.mpr ⟨hmem, ?_⟩, userKey_key ns k⟩
    rw [Bool.and_eq_true]
    exact ⟨hrange, hmatch⟩

lemma keysHits_exact_iff :
    (∀ stored k, k ∈ keysHits ns pattern stored ↔
        ns.key k ∈ stored ∧ stringmatchlen pattern k false = true) ↔
      ∀ k, ((scanRange ns.nsId pattern).contains (ns.key k) = true ∧
        isMatch (ns.key pattern) (ns.key k) = true) ↔ stringmatchlen pattern k false = true := by
  simp only [mem_keysHits_iff]
  constructor
  · intro h k
    have := h [ns.key k] k
    simpa using this
  · intro h stored k
    rw [h k]

lemma matchOne_self (h91 : p ≠ 91) (h92 : p ≠ 92) :
    (matchOne false p pattern p).isSome = true := by
  unfold matchOne
  split
  · rfl
  · split
    · exact absurd rfl h92
    · simp [sameChar]

lemma matches_append_plain (a pattern k : Bytes) (ha : ∀ b ∈ a, b ≠ 42 ∧ b ≠ 91 ∧ b ≠ 92) :
    Matches (globElems false (a ++ pattern)) (a ++ k) ↔ Matches (globElems false pattern) k := by
  induction a with
  | nil => rfl
  | cons c a ih =>
    obtain ⟨h42, h91, h92⟩ := ha c mem_cons_self
    rw [cons_append, cons_append, globElems_cons h42, matches_one_cons, matchOne_self _ h91 h92,
      elemRest_plain _ h91 h92, ih fun b hb => ha b (mem_cons_of_mem _ hb)]
    simp

/-! ## Prefixes that are no plain text -/

lemma length_globElemsAux (nocase : Bool) (fuel : Nat) :
    ∀ pattern, (globElemsAux nocase fuel pattern).length ≤ pattern.length := by
  induction fuel with
  | zero => simp [globElemsAux]
  | succ fuel ih =>
    intro pattern
    cases pattern with
    | nil => simp [globElemsAux]
    | cons p pattern =>
      unfold globElemsAux
      split
      · exact Nat.succ_le_succ (ih pattern)
      · exact Nat.succ_le_succ (Nat.le_trans (ih _) (length_elemRest p pattern))

lemma length_elemRest_lt {pattern : Bytes} (hp : p = 91 ∨ p = 92)
    (hne : pattern ≠ []) : (elemRest p pattern).length < pattern.length := by
  have hpos := length_pos_of_ne_nil hne
  rcases hp with rfl | rfl
  · have hclass := length_matchClass false 0 false (splitNegation pattern).2
    have hneg := length_splitNegation pattern
    change (matchClass false 0 false (splitNegation pattern).2).2.length < _
    omega
  · match pattern, hne with
    | x :: rest, _ => exact Nat.lt_succ_self _

lemma star_or_short (a r : Bytes) (hr : r ≠ []) (ha : ∃ b ∈ a, b = 42 ∨ b = 91 ∨ b = 92) :
    GlobElem.star ∈ globElems false (a ++ r) ∨
      (globElems false (a ++ r)).length < (a ++ r).length := by
  induction a with
  | nil => simp at ha
  | cons c a ih =>
    rw [cons_append]
    by_cases h42 : c = 42
    · subst h42
      exact .inl mem_cons_self
    · rw [globElems_cons h42]
      by_cases hc : c = 91 ∨ c = 92
      · right
        have hrest := length_elemRest_lt hc (append_ne_nil_of_right_ne_nil a hr)
        have hle := length_globElemsAux false (elemRest c (a ++ r)).length (elemRest c (a ++ r))
        exact Nat.succ_lt_succ (Nat.lt_of_le_of_lt hle hrest)
      · obtain ⟨h91, h92⟩ := not_or.mp hc
        have ha' : ∃ b ∈ a, b = 42 ∨ b = 91 ∨ b = 92 := by simpa [h42, h91, h92] using ha
        rw [elemRest_plain _ h91 h92]
        rcases ih ha' with hstar | hshort
        · exact .inl (mem_cons_of_mem _ hstar)
        · exact .inr (Nat.succ_lt_succ hshort)

lemma length_eq_one_of_match {k : Bytes} (h : stringmatchlen [122] k false = true) :
    k.length = 1 := by
  rw [stringmatchlen_iff (cons_ne_nil _ _)] at h
  have helems : globElems false [122] = [.one fun c => (matchOne false 122 [] c).isSome] := by
    rw [globElems_cons (by decide), elemRest_plain _ (by decide) (by decide), globElems_nil]
  rw [helems] at h
  exact h.length_eq (by simp)

section
variable (id epoch : UInt64)

lemma isMatch_key (pattern k : Bytes) :
    isMatch ((tenant id epoch).key pattern)
        ((tenant id epoch).key k) = true ↔
      Matches (globElems false ((tenant id epoch).nsId ++ pattern))
        ((tenant id epoch).nsId ++ k) := by
  have hne : (tenant id epoch).nsId ++ pattern ≠ [] :=
    append_ne_nil_of_left_ne_nil (makePrefix_ne_nil _ _) pattern
  rw [key_eq, key_eq, isMatch, if_neg hne, stringmatchlen_iff hne]

lemma keysReply_exact_iff (pattern : Bytes) :
    (∀ stored, ∃ ks, keysReply (.tenant id epoch) pattern stored = .keys ks ∧
        ∀ k, k ∈ ks ↔ (tenant id epoch).key k ∈ stored ∧
          stringmatchlen pattern k false = true) ↔
      ∀ k, ((scanRange (tenant id epoch).nsId pattern).contains
          ((tenant id epoch).key k) = true ∧
        Matches (globElems false ((tenant id epoch).nsId ++ pattern))
          ((tenant id epoch).nsId ++ k)) ↔ stringmatchlen pattern k false = true := by
  simp [keysReply_eq, keysHits_exact_iff, isMatch_key]

lemma default_keysHits {pattern : Bytes} (h : Narrowable pattern) (user : List Bytes)
    (k : Bytes) : k ∈ keysHits .default pattern user ↔
      k ∈ user ∧ stringmatchlen pattern k false = true := by
  have hnarrow := (scanRange_complete_iff .default pattern).mpr h
  have hmatch : isMatch pattern k = stringmatchlen pattern k false := by
    unfold isMatch
    split
    · rename_i hnil
      rw [hnil, stringmatchlen_nil]
    · rfl
  rw [mem_keysHits_iff]
  change k ∈ user ∧ _ ∧ isMatch pattern k = true ↔ _
  rw [hmatch]
  exact ⟨fun hk => ⟨hk.1, hk.2.2⟩, fun hk => ⟨hk.1, hnarrow k hk.2, hk.2⟩⟩

variable {id epoch}

lemma keysExact_iff_of_plain (hplain : PlainPrefix id epoch) (pattern : Bytes) :
    KeysExact id epoch pattern ↔ pattern ≠ [] ∧ Narrowable pattern := by
  have hfilter := fun k => matches_append_plain _ pattern k hplain
  constructor
  · intro h
    have hexact := (keysReply_exact_iff id epoch pattern).mp h.exact
    simp only [hfilter] at hexact
    refine ⟨?_, ?_⟩
    · rintro rfl
      -- the composed pattern is the prefix alone, and matches the key with the empty name only
      exact nomatch ((hexact [97]).mpr rfl).2
    · rw [← scanRange_complete_iff (.tenant id epoch)]
      exact fun k hk => ((hexact k).mpr hk).1
  · rintro ⟨hne, hnarrow⟩
    have hexact : ∀ stored, ∃ ks, keysReply (.tenant id epoch) pattern stored = .keys ks ∧
        ∀ k, k ∈ ks ↔ (tenant id epoch).key k ∈ stored ∧
          stringmatchlen pattern k false = true := by
      rw [keysReply_exact_iff]
      intro k
      rw [hfilter, ← stringmatchlen_iff hne]
      refine ⟨And.right, fun hk => ⟨?_, hk⟩⟩
      exact (scanRange_complete_iff (.tenant id epoch) pattern).mpr hnarrow k hk
    refine ⟨hexact, fun stored user hsame => ?_⟩
    obtain ⟨ks, hks, hmem⟩ := hexact stored
    refine ⟨ks, keysHits .default pattern user, hks, keysReply_eq _ _ _, fun k => ?_⟩
    rw [hmem, hsame, default_keysHits hnarrow]

lemma not_keysExact_of_not_plain (hplain : ¬ PlainPrefix id epoch) :
    ¬ KeysExact id epoch [122] := by
  intro h
  have hexact := (keysReply_exact_iff id epoch [122]).mp h.exact
  have hrange : ∀ k, (scanRange (tenant id epoch).nsId [122]).contains
      ((tenant id epoch).key k) = true := by
    intro k
    rw [scanRange_contains_iff]
    exact nofun
  have hspecial : ∃ b ∈ (tenant id epoch).nsId, b = 42 ∨ b = 91 ∨ b = 92 := by
    unfold PlainPrefix at hplain
    simp only [not_forall, not_and_or, not_not] at hplain
    obtain ⟨b, hb, hb'⟩ := hplain
    exact ⟨b, hb, hb'⟩
  have hself := ((hexact [122]).mpr (by decide)).2
  by_cases hstar : GlobElem.star ∈ globElems false ((tenant id epoch).nsId ++ [122])
  · -- what the star stands for may grow by another key in front of the rest
    obtain ⟨x, t, heq, hgrow⟩ := hself.stretch hstar
    have hlong := hgrow (t ++ [97])
    rw [show x ++ (t ++ [97]) ++ t = (x ++ t) ++ ([97] ++ t) by simp, ← heq, append_assoc] at hlong
    have hlen := length_eq_one_of_match ((hexact _).mp ⟨hrange _, hlong⟩)
    simp at hlen
  · -- fewer elements than bytes, and so shorter matches only
    have hshort := (star_or_short _ [122] (cons_ne_nil _ _) hspecial).resolve_left hstar
    exact absurd (hself.length_eq hstar) (Nat.ne_of_gt hshort)

end

/-- **KEYS returns exactly the matching user keys of its namespace**, in a namespace whose prefix
has no special bytes, for the patterns that are not empty and can be narrowed, and for no others. -/
theorem keys_in_namespace_exact_iff (id epoch : UInt64) :
    (PlainPrefix id epoch →
      ∀ pattern, KeysExact id epoch pattern ↔ pattern ≠ [] ∧ Narrowable pattern) ∧
    (¬ PlainPrefix id epoch →
      ∃ pattern, pattern ≠ [] ∧ Narrowable pattern ∧ ¬ KeysExact id epoch pattern) := by
  refine ⟨keysExact_iff_of_plain, fun hplain => ⟨[122], cons_ne_nil _ _, ?_, ?_⟩⟩
  · exact nofun
  · exact not_keysExact_of_not_plain hplain

/-- In the namespace with the id 90, whose prefix begins with `[`, `KEYS *` finds nothing.  In
the one with the id 42, whose prefix begins with `*`, `KEYS z` also finds a key that only ends
in `z`. -/
theorem keys_misread_prefix :
    keysReply (.tenant 90 1) (ascii "*") [(ScanNamespace.tenant 90 1).key (ascii "k")] = .keys [] ∧
      stringmatchlen (ascii "*") (ascii "k") false = true ∧
      keysReply (.tenant 42 1) (ascii "z")
          [(ScanNamespace.tenant 42 1).key (ascii "a:" ++ 1 :: ascii ":z")] =
        .keys [ascii "a:" ++ 1 :: ascii ":z"] ∧
      stringmatchlen (ascii "z") (ascii "a:" ++ 1 :: ascii ":z") false = false := by
  decide +kernel

end EloqKV
