/-
  Glob matching (`stringmatchlen` in `src/redis_string_match.cpp`).

  The function calls itself at a star, once for each place where the rest of the pattern might
  begin; `skipLongerMatches` ends the search of all enclosing stars at once.  The pattern is
  followed by a zero byte, which the tests that look one byte ahead find at its end.
-/
import EloqKV.Bytes
import EloqKV.Lib.Glob

open EloqKV.Lib EloqKV.Lib.Glob List

namespace EloqKV

/-! ## The function -/

/-- The value of a plain `char`, which is signed. -/
def charValue (b : UInt8) : Int :=
  if b < 128 then b.toNat else (b.toNat : Int) - 256

variable (nocase : Bool)

/-- Equality of two characters, up to case if `nocase` is set. -/
def sameChar (a c : UInt8) : Bool :=
  if nocase then tolower a = tolower c else a = c

/-- The test for a range `a-b` of a class.  The ends are put in order before they are folded. -/
def inCharRange (a b c : UInt8) : Bool :=
  let (first, last) := if charValue b < charValue a then (b, a) else (a, b)
  let fold := fun x => charValue (if nocase then tolower x else x)
  fold first ≤ fold c && fold c ≤ fold last

/-- The loop over a class `[…]`, from behind the opening bracket: whether the character was
found, and what follows the class.  A class that is not closed ends with the pattern. -/
def matchClass (nocase : Bool) (c : UInt8) (found : Bool) : Bytes → Bool × Bytes
  | [] => (found, [])
  | 92 :: x :: rest => matchClass nocase c (found || x = c) rest
  | 93 :: rest => (found, rest)
  | a :: 45 :: b :: rest => matchClass nocase c (found || inCharRange nocase a b c) rest
  | a :: rest => matchClass nocase c (found || sameChar nocase a c) rest

/-- A leading `^` negates the class. -/
def splitNegation : Bytes → Bool × Bytes
  | 94 :: rest => (true, rest)
  | body => (false, body)

/-- One turn of the `switch` but for a star: the rest of the pattern if the character matches. -/
def matchOne (p : UInt8) (pattern : Bytes) (c : UInt8) : Option Bytes :=
  if p = 63 then some pattern
  else if p = 91 then
    let (negated, body) := splitNegation pattern
    let (found, rest) := matchClass nocase c false body
    if found != negated then some rest else none
  else
    match p, pattern with
    | 92, x :: rest => if sameChar nocase x c then some rest else none
    | _, _ => if sameChar nocase p c then some pattern else none

/-- The loop at a star: `rest` is tried at every place but the end; match, `skipLongerMatches`. -/
def matchStar (rest : Bytes → Bool × Bool) : Bytes → Bool × Bool
  | [] => (false, true)
  | c :: s =>
    match rest (c :: s) with
    | (true, skip) => (true, skip)
    | (false, true) => (false, true)
    | (false, false) => matchStar rest s

/-- The beginning of `stringmatchlen_impl`: a pattern of stars only matches. -/
def matchEntry (loop : Bytes → Bytes → Bool × Bool) (pattern s : Bytes) : Bool × Bool :=
  if pattern.all (· = 42) then (true, false) else loop pattern s

/-- The main loop of `stringmatchlen_impl`; each turn uses up a byte of the pattern. -/
def matchLoop (nocase : Bool) : Nat → Bytes → Bytes → Bool × Bool
  | fuel + 1, p :: pattern, c :: s =>
    if p = 42 then
      match pattern.dropWhile (· = 42) with
      | [] => (true, false)
      | rest => matchStar (matchEntry (matchLoop nocase fuel) rest) (c :: s)
    else
      match matchOne nocase p pattern c with
      | none => (false, false)
      | some pattern =>
        if s = [] then ((pattern.dropWhile (· = 42)).isEmpty, false)
        else matchLoop nocase fuel pattern s
  | _, pattern, s => (pattern.isEmpty && s.isEmpty, false)

def stringmatchlen (pattern s : Bytes) (nocase : Bool) : Bool :=
  (matchEntry (matchLoop nocase pattern.length) pattern s).1

/-! ## The elements of a pattern -/

/-- What follows the first element `p …` of a pattern `p :: pattern`. -/
def elemRest (p : UInt8) (pattern : Bytes) : Bytes :=
  if p = 63 then pattern
  else if p = 91 then (matchClass false 0 false (splitNegation pattern).2).2
  else
    match p, pattern with
    | 92, _ :: rest => rest
    | _, _ => pattern

/-- A pattern as stars and sets of bytes; the set of an element is what `matchOne` takes. -/
def globElemsAux (nocase : Bool) : Nat → Bytes → List (GlobElem UInt8)
  | fuel + 1, p :: pattern =>
    if p = 42 then .star :: globElemsAux nocase fuel pattern
    else
      .one (fun c => (matchOne nocase p pattern c).isSome) ::
        globElemsAux nocase fuel (elemRest p pattern)
  | _, _ => []

def globElems (pattern : Bytes) : List (GlobElem UInt8) :=
  globElemsAux nocase pattern.length pattern

lemma matchClass_snd (nocase nocase' : Bool) (c c' : UInt8) (found found' : Bool) (body : Bytes) :
    (matchClass nocase c found body).2 = (matchClass nocase' c' found' body).2 := by
  fun_induction matchClass nocase c found body generalizing found' with
  | case1 => rfl
  | case2 found x rest ih => exact ih _
  | case3 found rest => rfl
  | case4 found a b rest hesc hclose ih =>
    rw [matchClass.eq_4 _ _ _ _ _ _ hesc hclose]
    exact ih _
  | case5 found a rest hesc hclose hrange ih =>
    rw [matchClass.eq_5 _ _ _ _ _ hesc hclose hrange]
    exact ih _

lemma length_matchClass (c : UInt8) (found : Bool) (body : Bytes) :
    (matchClass nocase c found body).2.length ≤ body.length - 1 := by
  fun_induction matchClass nocase c found body <;> simp_all <;> omega

lemma length_splitNegation (pattern : Bytes) :
    (splitNegation pattern).2.length ≤ pattern.length := by
  unfold splitNegation
  split <;> simp

lemma matchOne_some {nocase : Bool} {p : UInt8} {pattern rest : Bytes} {c : UInt8}
    (h : matchOne nocase p pattern c = some rest) : rest = elemRest p pattern := by
  unfold matchOne at h
  unfold elemRest
  split at h
  · rename_i hp
    rw [if_pos hp]
    exact (Option.some.inj h).symm
  · rename_i hp
    rw [if_neg hp]
    split at h
    · rename_i hp'
      rw [if_pos hp']
      dsimp only at h
      split at h
      · rw [← Option.some.inj h]
        exact matchClass_snd _ _ _ _ _ _ _
      · cases h
    · rename_i hp'
      rw [if_neg hp']
      split at h
      · split at h
        · exact (Option.some.inj h).symm
        · cases h
      · split at h
        · exact (Option.some.inj h).symm
        · cases h

lemma length_elemRest (p : UInt8) (pattern : Bytes) :
    (elemRest p pattern).length ≤ pattern.length := by
  unfold elemRest
  split
  · exact Nat.le_refl _
  · split
    · have hclass := length_matchClass false 0 false (splitNegation pattern).2
      have hneg := length_splitNegation pattern
      omega
    · split
      · exact Nat.le_succ _
      · exact Nat.le_refl _

section
variable {nocase : Bool} {p : UInt8} {pattern : Bytes}

lemma globElemsAux_eq {fuel fuel' : Nat} (h : pattern.length ≤ fuel)
    (h' : pattern.length ≤ fuel') :
    globElemsAux nocase fuel pattern = globElemsAux nocase fuel' pattern := by
  induction fuel generalizing fuel' pattern with
  | zero =>
    obtain rfl := length_eq_zero_iff.mp (Nat.le_zero.mp h)
    cases fuel' <;> rfl
  | succ fuel ih =>
    match pattern, fuel' with
    | [], fuel' => cases fuel' <;> rfl
    | p :: pattern, fuel' + 1 =>
      have hrest := length_elemRest p pattern
      simp only [length_cons, Nat.add_le_add_iff_right] at h h'
      unfold globElemsAux
      split
      · rw [ih h h']
      · rw [ih (Nat.le_trans hrest h) (Nat.le_trans hrest h')]

@[simp] lemma globElems_nil : globElems nocase [] = [] := rfl

@[simp] lemma globElems_star :
    globElems nocase (42 :: pattern) = .star :: globElems nocase pattern := by
  simp [globElems, globElemsAux]

lemma globElems_cons (hp : p ≠ 42) :
    globElems nocase (p :: pattern) = .one (fun c => (matchOne nocase p pattern c).isSome) ::
        globElems nocase (elemRest p pattern) := by
  unfold globElems
  rw [length_cons, globElemsAux, if_neg hp,
    globElemsAux_eq (length_elemRest p pattern) (Nat.le_refl _)]

lemma matches_globElems_nil (pattern : Bytes) :
    Matches (globElems nocase pattern) [] ↔ pattern.all (· = 42) = true := by
  induction pattern with
  | nil => simp
  | cons p pattern ih =>
    by_cases hp : p = 42
    · subst hp
      simp [matches_star, ih]
    · simp [globElems_cons hp, hp]

lemma matches_of_all_star (hne : pattern ≠ []) (h : pattern.all (· = 42) = true) (s : Bytes) :
    Matches (globElems nocase pattern) s := by
  match pattern, hne with
  | p :: pattern, _ =>
    rw [all_cons, Bool.and_eq_true] at h
    obtain rfl := of_decide_eq_true h.1
    exact ⟨[], nil_suffix, (matches_globElems_nil pattern).mpr h.2⟩

variable (nocase) in
lemma matches_star_dropWhile (pattern s : Bytes) :
    Matches (.star :: globElems nocase pattern) s ↔
      Matches (.star :: globElems nocase (pattern.dropWhile (· = 42))) s := by
  induction pattern with
  | nil => rfl
  | cons p pattern ih =>
    by_cases hp : p = 42
    · subst hp
      rw [globElems_star, matches_star_star, ih]
      simp
    · simp [hp]

end

/-! ## What the function decides -/

/-- The two results of a search are right: there is a match or not, and where longer matches
are to be skipped, nothing matches from a later place either. -/
structure Decides (r : Bool × Bool) (es : List (GlobElem UInt8)) (s : Bytes) : Prop where
  found : r.1 = true ↔ Matches es s
  skip : r.2 = true → ∀ t, t <:+ s → ¬ Matches es t

variable {es : List (GlobElem UInt8)}

/-- Where the rest says that no later suffix can match, the scan may stop. -/
lemma matchStar_spec {rest : Bytes → Bool × Bool} (hrest : ∀ s, Decides (rest s) es s)
    (hnil : ¬ Matches es []) (s : Bytes) : Decides (matchStar rest s) (.star :: es) s := by
  have hscan : ((matchStar rest s).1 = true ↔ ∃ t, t <:+ s ∧ Matches es t) ∧
      ((matchStar rest s).2 = true → ∀ t, t <:+ s → ¬ Matches es t) := by
    induction s with
    | nil =>
      refine ⟨⟨nofun, ?_⟩, ?_⟩
      · rintro ⟨t, ht, hm⟩
        rw [suffix_nil.mp ht] at hm
        exact absurd hm hnil
      · intro _ t ht
        rw [suffix_nil.mp ht]
        exact hnil
    | cons c s ih =>
      have hc := hrest (c :: s)
      unfold matchStar
      split
      · rename_i skip heq
        rw [heq] at hc
        exact ⟨⟨fun _ => ⟨_, suffix_rfl, hc.found.mp rfl⟩, fun _ => rfl⟩, hc.skip⟩
      · rename_i heq
        rw [heq] at hc
        have hnone := hc.skip rfl
        refine ⟨⟨nofun, ?_⟩, fun _ => hnone⟩
        rintro ⟨t, ht, hm⟩
        exact absurd hm (hnone t ht)
      · rename_i heq
        rw [heq] at hc
        have hhere : ¬ Matches es (c :: s) := fun hm => nomatch hc.found.mpr hm
        refine ⟨ih.1.trans ⟨?_, ?_⟩, ?_⟩
        · rintro ⟨t, ht, hm⟩
          exact ⟨t, ht.trans (suffix_cons c s), hm⟩
        · rintro ⟨t, ht, hm⟩
          rcases suffix_cons_iff.mp ht with rfl | ht
          · exact absurd hm hhere
          · exact ⟨t, ht, hm⟩
        · intro hskip t ht
          rcases suffix_cons_iff.mp ht with rfl | ht
          · exact hhere
          · exact ih.2 hskip t ht
  refine ⟨hscan.1, ?_⟩
  rintro hskip t ht ⟨u, hu, hm⟩
  exact hscan.2 hskip u (hu.trans ht) hm

lemma Decides.one {r : Bool × Bool} {S : UInt8 → Bool} {c : UInt8}
    {s : Bytes} (h : Decides r es s) (hc : S c = true) : Decides r (.one S :: es) (c :: s) where
  found := by rw [h.found, matches_one_cons, hc, eq_self, true_and]
  skip := by
    rintro hskip t ht ⟨d, u, rfl, -, hm⟩
    refine h.skip hskip u ?_ hm
    rcases suffix_cons_iff.mp ht with heq | ht
    · obtain ⟨-, rfl⟩ := List.cons.inj heq
      exact suffix_rfl
    · exact (suffix_cons d u).trans ht

lemma Decides.congr {r : Bool × Bool} {es es' : List (GlobElem UInt8)} {s : Bytes}
    (hes : ∀ t, Matches es' t ↔ Matches es t) (h : Decides r es s) : Decides r es' s where
  found := h.found.trans (hes s).symm
  skip hskip t ht hm := h.skip hskip t ht ((hes t).mp hm)

lemma decides_nil (s : Bytes) : Decides (s.isEmpty, false) [] s where
  found := by rw [matches_nil, List.isEmpty_iff]
  skip := nofun

lemma matchEntry_spec {loop : Bytes → Bytes → Bool × Bool} {pattern : Bytes} (hne : pattern ≠ [])
    (hloop : pattern.all (· = 42) = false →
      ∀ s, Decides (loop pattern s) (globElems nocase pattern) s) (s : Bytes) :
    Decides (matchEntry loop pattern s) (globElems nocase pattern) s := by
  unfold matchEntry
  split
  · rename_i hall
    exact ⟨⟨fun _ => matches_of_all_star hne hall s, fun _ => rfl⟩, nofun⟩
  · rename_i hall
    exact hloop (Bool.eq_false_iff.mpr hall) s

/-- **The main loop**, with enough fuel for every byte of the pattern. -/
theorem matchLoop_spec (fuel : Nat) :
    ∀ {pattern : Bytes}, pattern.length ≤ fuel → ∀ s : Bytes,
      (s = [] → pattern.all (· = 42) = true → pattern = []) →
      Decides (matchLoop nocase fuel pattern s) (globElems nocase pattern) s := by
  induction fuel with
  | zero =>
    intro pattern hlen s _
    obtain rfl := length_eq_zero_iff.mp (Nat.le_zero.mp hlen)
    exact decides_nil s
  | succ fuel ih =>
    intro pattern hlen s hs
    match pattern, s with
    | [], s => exact decides_nil s
    | p :: pattern, [] =>
      refine ⟨⟨nofun, fun hm => ?_⟩, nofun⟩
      exact nomatch hs rfl ((matches_globElems_nil _).mp hm)
    | p :: pattern, c :: s =>
      have hlen' : pattern.length ≤ fuel := Nat.le_of_succ_le_succ hlen
      unfold matchLoop
      split
      · rename_i hp
        subst hp
        rw [globElems_star]
        have hdrop := matches_star_dropWhile nocase pattern
        cases hrest : pattern.dropWhile (· = 42) with
        | nil =>
          rw [hrest] at hdrop
          exact ⟨⟨fun _ => (hdrop _).mpr ⟨[], nil_suffix, rfl⟩, fun _ => rfl⟩, nofun⟩
        | cons x rest =>
          -- what is left of the pattern begins with something else than a star
          have hx : x ≠ 42 := by
            have := List.head?_dropWhile_not (fun x : UInt8 => decide (x = 42)) pattern
            rw [hrest] at this
            simpa using this
          have hall : (x :: rest).all (· = 42) = false := by simp [hx]
          have hshort : (x :: rest).length ≤ fuel := by
            have hsuffix : pattern.dropWhile (· = 42) <:+ pattern := dropWhile_suffix _
            rw [hrest] at hsuffix
            exact Nat.le_trans hsuffix.length_le hlen'
          have hentry := matchEntry_spec nocase (cons_ne_nil x rest)
            fun _ t => ih hshort t fun _ h => nomatch hall.symm.trans h
          have hnil : ¬ Matches (globElems nocase (x :: rest)) [] := by
            rw [matches_globElems_nil, hall]
            exact nofun
          refine Decides.congr (fun t => ?_) (matchStar_spec hentry hnil (c :: s))
          rw [hdrop, hrest]
      · rename_i hp
        rw [globElems_cons hp]
        cases hone : matchOne nocase p pattern c with
        | none => exact ⟨by simp [hone], nofun⟩
        | some rest =>
          obtain rfl := matchOne_some hone
          refine Decides.one ?_ (by rw [hone]; rfl)
          dsimp only
          split
          · rename_i hnil
            subst hnil
            refine ⟨?_, nofun⟩
            rw [matches_globElems_nil, List.isEmpty_iff, List.dropWhile_eq_nil_iff,
              List.all_eq_true]
          · rename_i hne
            exact ih (Nat.le_trans (length_elemRest p pattern) hlen') s fun hnil => absurd hnil hne

/-- **`stringmatchlen` decides the matching of a pattern's elements.** -/
theorem stringmatchlen_iff {pattern : Bytes} (hne : pattern ≠ []) (s : Bytes) (nocase : Bool) :
    stringmatchlen pattern s nocase = true ↔ Matches (globElems nocase pattern) s := by
  refine (matchEntry_spec nocase hne (fun hall t => ?_) s).found
  exact matchLoop_spec nocase _ (Nat.le_refl _) t fun _ h => nomatch hall.symm.trans h

lemma stringmatchlen_nil (s : Bytes) (nocase : Bool) : stringmatchlen [] s nocase = true := rfl

/-- **The search at stars**: with its recursion and its shortcut the function finds the texts of the
elements it reads the pattern as, and takes the empty pattern for one that matches everything. -/
theorem glob_search_exact (pattern s : Bytes) (nocase : Bool) :
    stringmatchlen pattern s nocase = true ↔
      pattern = [] ∨ Matches (globElems nocase pattern) s := by
  by_cases hne : pattern = []
  · simp [hne, stringmatchlen_nil]
  · rw [stringmatchlen_iff hne, or_iff_right hne]

end EloqKV
