/-
  The element filters of ZADD (`ZAddXX`, `ZAddNX`, `ZAddLT`, `ZAddGT` in
  `src/redis_zset_object.cpp`).

  Each filter moves the accepted elements to the front of the vector and remembers their members as
  `std::string_view`s.  A view of a short owned string points into the vector slot itself, which may
  be written again by a later move, so the model keeps the inline buffer of every slot next to the
  remembered views.
-/
import EloqKV.EloqString

open List

namespace EloqKV.Zset

open Function

/-! ## Views into the element vector -/

/-- One entry of the element vector. -/
abbrev Element (S : Type) := S × EloqString

/-- What a remembered `string_view` points at: the inline buffer of a slot, or memory that
the filter never writes (a heap array, the client's request). -/
inductive KeyRef where
  | slot (i len : Nat)
  | outside (bytes : Bytes)
  deriving DecidableEq, Repr

/-- The inline buffers (`stack_array_`) of the slots of the vector. -/
abbrev Buffers := Nat → Bytes

/-- The bytes a view denotes at the moment it is read. -/
def KeyRef.read (raw : Buffers) : KeyRef → Bytes
  | .slot i len => (raw i).take len
  | .outside bytes => bytes

/-- `it->second.StringView()` for the element in slot `it`. -/
def viewOf (it : Nat) (s : EloqString) : KeyRef :=
  if s.type = .stack then .slot it s.stringView.length else .outside s.stringView

/-- What the C++ standard leaves open. `probes n k p` says whether a look-up of `p` in a hash table
of `n` entries compares itself with an entry that was `k` when it was inserted; `overlay` is what
the words of a heap or view string leave in the inline buffer. -/
structure Host where
  probes : Nat → Bytes → Bytes → Bool
  probes_self : ∀ n k, probes n k k = true
  overlay : Bytes → EloqString → Bytes

/-- `*result = std::move(*it)` as far as the buffer of the slot `result` goes. -/
def moveAssign (host : Host) (raw : Buffers) (result : Nat) (s : EloqString) : Buffers :=
  update raw result
    (if s.type = .stack then s.stringView ++ (raw result).drop s.stringView.length
     else host.overlay (raw result) s)

/-- The buffers after the element in slot `it` has gone to the slot `result`. -/
def moveElement (host : Host) (raw : Buffers) (it result : Nat) (s : EloqString) : Buffers :=
  if result = it then raw else moveAssign host raw result s

/-! ## The loop -/

section Filter

variable {S : Type}

/-- An entry of `used_field`. -/
structure Remembered (S : Type) where
  key : KeyRef
  hashed : Bytes
  score : S

variable (host : Host)

/-- Whether a look-up of `probe` in a table of `n` entries stops at this entry. -/
def Remembered.hit (raw : Buffers) (n : Nat) (probe : Bytes) (u : Remembered S) : Bool :=
  host.probes n u.hashed probe && u.key.read raw == probe

/-- The score `used_field.find(probe)` leads to. -/
def findUsed (raw : Buffers) (used : List (Remembered S)) (probe : Bytes) : Option S :=
  (used.find? (Remembered.hit host raw used.length probe)).map Remembered.score

/-- Insertion into `used_field`, of `n` entries, or `used_it->second = num`. -/
def remember (host : Host) (raw : Buffers) (n : Nat) (key : KeyRef) (probe : Bytes) (num : S) :
    List (Remembered S) → List (Remembered S)
  | [] => [⟨key, probe, num⟩]
  | u :: us =>
    if u.hit host raw n probe then { u with score := num } :: us
    else u :: remember host raw n key probe num us

/-- What tells the filters apart, on the remembered score, the stored one and the new one. -/
structure Rule (S : Type) where
  accepts : Option S → Option S → S → Bool
  counts : Option S → Option S → S → Bool
  modifies : Option S → Option S → S → Bool
  insertsAfterMove : Bool

/-- `used_field` after the element in slot `it` has been accepted and moved to `result`. -/
def rememberElement (rule : Rule S) (raw : Buffers) (used : List (Remembered S))
    (it result : Nat) (e : Element S) : List (Remembered S) :=
  remember host (if rule.insertsAfterMove then moveElement host raw it result e.2 else raw)
    used.length (viewOf it e.2) e.2.stringView e.1 used

/-- The variables of the loop; `result` is the length of `kept`. -/
structure FilterState (S : Type) where
  kept : List (Element S)
  raw : Buffers
  used : List (Remembered S)
  cnt : Nat
  modified : Bool

variable (z : Bytes → Option S) (rule : Rule S)

/-- One round of the loop, for slot `it`; later slots are unwritten, `result` never passes `it`. -/
def filterStep (it : Nat) (e : Element S) (st : FilterState S) : FilterState S :=
  let probe := e.2.stringView
  let used := findUsed host st.raw st.used probe
  if rule.accepts used (z probe) e.1 then
    { kept := st.kept ++ [e]
      raw := moveElement host st.raw it st.kept.length e.2
      used := rememberElement host rule st.raw st.used it st.kept.length e
      cnt := st.cnt + (rule.counts used (z probe) e.1).toNat
      modified := st.modified || rule.modifies used (z probe) e.1 }
  else st

/-- The loop from slot `it` on. -/
def filterLoop (host : Host) (z : Bytes → Option S) (rule : Rule S) :
    Nat → List (Element S) → FilterState S → FilterState S
  | _, [], st => st
  | it, e :: es, st => filterLoop host z rule (it + 1) es (filterStep host z rule it e st)

variable (elements : List (Element S))

def buffersOf : Buffers :=
  fun i => (elements[i]?.map fun e => e.2.stringView).getD []

def runFilter : FilterState S :=
  filterLoop host z rule 0 elements ⟨[], buffersOf elements, [], 0, false⟩

def zAddXX [DecidableEq S] (ch : Bool) : Rule S where
  accepts used hash _ := used.isSome || hash.isSome
  counts used hash num := ch && some num != (used <|> hash)
  modifies used hash num := some num != (used <|> hash)
  insertsAfterMove := false

def zAddNX : Rule S where
  accepts used hash _ := used.isNone && hash.isNone
  counts _ _ _ := true
  modifies _ _ _ := true
  insertsAfterMove := true

/-- `ZAddLT` and `ZAddGT` differ in the comparison only. -/
def zAddCompare (better : S → S → Bool) (ch xx : Bool) : Rule S where
  accepts used hash num :=
    ((used <|> hash).all fun old => better num old) && !(xx && used.isNone && hash.isNone)
  counts used hash num :=
    match used with
    | none => hash.isNone || (ch && hash.any fun old => better num old)
    | some old => ch && better num old
  modifies used hash num :=
    match used with
    | none => hash.isNone || hash.any fun old => better num old
    | some old => better num old
  insertsAfterMove := false

def zAddLT [LinearOrder S] (ch xx : Bool) : Rule S :=
  zAddCompare (fun num old => decide (num < old)) ch xx

def zAddGT [LinearOrder S] (ch xx : Bool) : Rule S :=
  zAddCompare (fun num old => decide (old < num)) ch xx

/-! ## The filter without a vector

What the loops are for: an element is judged against the score its member has so far, which
is the last score accepted in this command or else the score in the sorted set. -/

/-- The elements a rule lets through, with the accepted scores kept by member. -/
def admitted (z : Bytes → Option S) (rule : Rule S) :
    (Bytes → Option S) → List (Element S) → List (Element S)
  | _, [] => []
  | last, e :: es =>
    if rule.accepts (last e.2.stringView) (z e.2.stringView) e.1 then
      e :: admitted z rule (update last e.2.stringView (some e.1)) es
    else admitted z rule last es

/-- Every element is judged as if the remembered views, read in the moved buffers, still held. -/
def Recognised (host : Host) (z : Bytes → Option S) (rule : Rule S) :
    (Bytes → Option S) → Buffers → List (Remembered S) → Nat → Nat → List (Element S) → Prop
  | _, _, _, _, _, [] => True
  | last, raw, used, it, result, e :: es =>
    rule.accepts (findUsed host raw used e.2.stringView) (z e.2.stringView) e.1 =
        rule.accepts (last e.2.stringView) (z e.2.stringView) e.1 ∧
      if rule.accepts (last e.2.stringView) (z e.2.stringView) e.1 then
        Recognised host z rule (update last e.2.stringView (some e.1))
          (moveElement host raw it result e.2) (rememberElement host rule raw used it result e)
          (it + 1) (result + 1) es
      else Recognised host z rule last raw used (it + 1) result es

instance decidableRecognised (host : Host) (z : Bytes → Option S) (rule : Rule S) :
    (last : Bytes → Option S) → (raw : Buffers) → (used : List (Remembered S)) →
      (it result : Nat) → (es : List (Element S)) →
        Decidable (Recognised host z rule last raw used it result es)
  | _, _, _, _, _, [] => isTrue trivial
  | last, raw, used, it, result, e :: es => by
    have := decidableRecognised host z rule (update last e.2.stringView (some e.1))
      (moveElement host raw it result e.2) (rememberElement host rule raw used it result e)
      (it + 1) (result + 1) es
    have := decidableRecognised host z rule last raw used (it + 1) result es
    unfold Recognised
    infer_instance

/-- No remembered view is overwritten while elements are still to be judged: an accepted
element moves into a slot in `live` (one a remembered short member was in) only if it is the
last of the vector. -/
def Undisturbed (z : Bytes → Option S) (rule : Rule S) :
    (Bytes → Option S) → List Nat → Nat → Nat → List (Element S) → Prop
  | _, _, _, _, [] => True
  | last, live, it, result, e :: es =>
    if rule.accepts (last e.2.stringView) (z e.2.stringView) e.1 then
      (result = it ∨ result ∉ live ∨ es = []) ∧
        Undisturbed z rule (update last e.2.stringView (some e.1))
          (if e.2.type = .stack then it :: live else live) (it + 1) (result + 1) es
    else Undisturbed z rule last live (it + 1) result es

instance decidableUndisturbed (z : Bytes → Option S) (rule : Rule S) :
    (last : Bytes → Option S) → (live : List Nat) → (it result : Nat) →
      (es : List (Element S)) → Decidable (Undisturbed z rule last live it result es)
  | _, _, _, _, [] => isTrue trivial
  | last, live, it, result, e :: es => by
    have := decidableUndisturbed z rule (update last e.2.stringView (some e.1))
      (if e.2.type = .stack then it :: live else live) (it + 1) (result + 1) es
    have := decidableUndisturbed z rule last live (it + 1) result es
    unfold Undisturbed
    infer_instance

/-! ## Look-ups through views that still hold -/

/-- Every remembered view still denotes the member it was taken from. -/
def Intact (raw : Buffers) (used : List (Remembered S)) : Prop :=
  ∀ u ∈ used, u.key.read raw = u.hashed

/-- The score recorded for a member, by the member's own bytes. -/
def recorded (used : List (Remembered S)) (probe : Bytes) : Option S :=
  (used.find? fun u => u.hashed == probe).map Remembered.score

variable (raw : Buffers)

lemma hit_eq_of_read (n : Nat) (probe : Bytes) (u : Remembered S)
    (hu : u.key.read raw = u.hashed) : u.hit host raw n probe = (u.hashed == probe) := by
  unfold Remembered.hit
  rw [hu]
  by_cases hp : u.hashed = probe
  · rw [hp, host.probes_self]
    simp
  · simp [hp]

lemma findUsed_eq_recorded (used : List (Remembered S)) (probe : Bytes)
    (hused : Intact raw used) : findUsed host raw used probe = recorded used probe := by
  unfold findUsed recorded
  congr 1
  generalize used.length = n
  induction used with
  | nil => rfl
  | cons u us ih =>
    have hu := hit_eq_of_read host raw n probe u (hused u mem_cons_self)
    have hus := ih fun v hv => hused v (mem_cons_of_mem _ hv)
    simp only [List.find?_cons, hu, hus]

lemma recorded_remember (n : Nat) (key : KeyRef)
    (probe p : Bytes) (num : S) (used : List (Remembered S)) (hused : Intact raw used) :
    recorded (remember host raw n key probe num used) p =
      update (recorded used) probe (some num) p := by
  induction used with
  | nil =>
    by_cases hp : p = probe
    · simp [remember, recorded, hp]
    · simp [remember, recorded, hp, Ne.symm hp]
  | cons u us ih =>
    have hu := hit_eq_of_read host raw n probe u (hused u mem_cons_self)
    have hus := ih fun v hv => hused v (mem_cons_of_mem _ hv)
    by_cases hk : u.hashed = probe
    · by_cases hp : p = probe
      · simp [remember, recorded, hu, hk, hp]
      · simp [remember, recorded, hu, hk, hp, Ne.symm hp]
    · by_cases hp : p = probe
      · subst hp
        simpa [remember, recorded, hu, hk, List.find?_cons] using hus
      · by_cases hup : u.hashed = p
        · simp [remember, recorded, hu, hp, hup]
        · simpa [remember, recorded, hu, hk, hp, hup, List.find?_cons] using hus

lemma mem_remember (n : Nat) (key : KeyRef) (probe : Bytes)
    (num : S) (used : List (Remembered S)) (v : Remembered S)
    (hv : v ∈ remember host raw n key probe num used) :
    (∃ u ∈ used, v.key = u.key ∧ v.hashed = u.hashed) ∨ (v.key = key ∧ v.hashed = probe) := by
  induction used with
  | nil =>
    simp only [remember, mem_singleton] at hv
    exact Or.inr (by simp [hv])
  | cons u us ih =>
    unfold remember at hv
    split at hv
    · rcases mem_cons.mp hv with rfl | hv
      · exact Or.inl ⟨u, mem_cons_self, rfl, rfl⟩
      · exact Or.inl ⟨v, mem_cons_of_mem _ hv, rfl, rfl⟩
    · rcases mem_cons.mp hv with rfl | hv
      · exact Or.inl ⟨v, mem_cons_self, rfl, rfl⟩
      · rcases ih hv with ⟨w, hw, hvw⟩ | hnew
        · exact Or.inl ⟨w, mem_cons_of_mem _ hw, hvw⟩
        · exact Or.inr hnew

/-! ## The loop refines the filter -/

/-- What holds at the head of the loop while no remembered view has been overwritten. -/
structure Sync (raw : Buffers) (used : List (Remembered S)) (last : Bytes → Option S)
    (live : List Nat) (it result : Nat) (es : List (Element S)) : Prop where
  intact : Intact raw used
  scores : ∀ p, recorded used p = last p
  slots : ∀ u ∈ used, ∀ i len, u.key = .slot i len → i ∈ live
  below : ∀ i ∈ live, i < it
  behind : result ≤ it
  unread : ∀ k e, es[k]? = some e → raw (it + k) = e.2.stringView

lemma moveAssign_other (result i : Nat) (s : EloqString)
    (hi : i ≠ result) : moveAssign host raw result s i = raw i := by
  unfold moveAssign
  rw [update_of_ne hi]

variable {used : List (Remembered S)} {raw : Buffers}

lemma Intact.moveAssign (h : Intact raw used) (host : Host) (result : Nat) (s : EloqString)
    (hslot : ∀ u ∈ used, ∀ i len, u.key = .slot i len → i ≠ result) :
    Intact (moveAssign host raw result s) used := by
  intro u hu
  rw [← h u hu]
  cases hk : u.key with
  | outside bytes => rfl
  | slot i len =>
    have hi := hslot u hu i len hk
    simp [KeyRef.read, moveAssign_other host raw result i s hi]

lemma viewOf_read (raw : Buffers) (it : Nat) (s : EloqString)
    (hraw : raw it = s.stringView) : (viewOf it s).read raw = s.stringView := by
  unfold viewOf
  split
  · simp [KeyRef.read, hraw]
  · rfl

variable {es : List (Element S)} {last : Bytes → Option S} {live : List Nat} {it result : Nat}
  {e : Element S}

lemma Sync.moved (h : Sync raw used last live it result (e :: es)) (host : Host)
    (hfree : result = it ∨ result ∉ live) :
    Intact (moveElement host raw it result e.2) used ∧
      ∀ i, it ≤ i → moveElement host raw it result e.2 i = raw i := by
  by_cases hr : result = it
  · rw [moveElement, if_pos hr]
    exact ⟨h.intact, fun _ _ => rfl⟩
  · have hlive : result ∉ live := hfree.resolve_left hr
    have hbehind := h.behind
    rw [moveElement, if_neg hr]
    refine ⟨h.intact.moveAssign host result e.2 ?_, ?_⟩
    · intro u hu i len hk hi
      exact hlive (hi ▸ h.slots u hu i len hk)
    · intro i hi
      exact moveAssign_other host raw result i e.2 (by omega)

lemma Sync.accept (h : Sync raw used last live it result (e :: es)) (host : Host) (rule : Rule S)
    (hfree : result = it ∨ result ∉ live) :
    Sync (moveElement host raw it result e.2) (rememberElement host rule raw used it result e)
      (update last e.2.stringView (some e.1))
      (if e.2.type = .stack then it :: live else live) (it + 1) (result + 1) es := by
  obtain ⟨hintact, hsame⟩ := h.moved host hfree
  have hat : Intact (if rule.insertsAfterMove then moveElement host raw it result e.2 else raw)
      used := by
    cases rule.insertsAfterMove
    · exact h.intact
    · exact hintact
  have hself : moveElement host raw it result e.2 it = e.2.stringView := by
    rw [hsame it (Nat.le_refl it)]
    exact h.unread 0 e rfl
  refine ⟨?_, ?_, ?_, ?_, Nat.succ_le_succ h.behind, ?_⟩
  · intro v hv
    rcases mem_remember _ _ _ _ _ _ _ v hv with ⟨u, hu, hkey, hhash⟩ | ⟨hkey, hhash⟩
    · rw [hkey, hhash]
      exact hintact u hu
    · rw [hkey, hhash]
      exact viewOf_read _ it e.2 hself
  · intro p
    rw [rememberElement, recorded_remember _ _ _ _ _ _ _ _ hat]
    simp only [update_apply, h.scores]
  · intro v hv i len hk
    rcases mem_remember _ _ _ _ _ _ _ v hv with ⟨u, hu, hkey, _⟩ | ⟨hkey, _⟩
    · have hi := h.slots u hu i len (hkey ▸ hk)
      split
      · exact mem_cons_of_mem _ hi
      · exact hi
    · -- only an inline string is remembered by its slot
      rw [hkey] at hk
      by_cases hs : e.2.type = .stack
      · simp only [viewOf, hs, if_true, KeyRef.slot.injEq] at hk
        simp [hs, hk.1]
      · simp [viewOf, hs] at hk
  · intro i hi
    split at hi
    · rcases mem_cons.mp hi with rfl | hi
      · omega
      · exact Nat.lt_succ_of_lt (h.below i hi)
    · exact Nat.lt_succ_of_lt (h.below i hi)
  · intro k x hx
    rw [hsame _ (by omega)]
    have hk := h.unread (k + 1) x (by simpa using hx)
    rw [← hk]
    congr 1
    omega

lemma Sync.skip (h : Sync raw used last live it result (e :: es)) :
    Sync raw used last live (it + 1) result es := by
  refine ⟨h.intact, h.scores, h.slots, ?_, Nat.le_succ_of_le h.behind, ?_⟩
  · intro i hi
    exact Nat.lt_succ_of_lt (h.below i hi)
  · intro k x hx
    have hk := h.unread (k + 1) x (by simpa using hx)
    rw [← hk]
    congr 1
    omega

variable (es : List (Element S))

lemma recognised_of_undisturbed (h : Sync raw used last live it result es)
    (hfree : Undisturbed z rule last live it result es) :
    Recognised host z rule last raw used it result es := by
  -- induction on the elements still to be judged; `Sync` is what carries it
  induction es generalizing raw used last live it result with
  | nil => trivial
  | cons e es ih =>
    have hfind : findUsed host raw used e.2.stringView = last e.2.stringView := by
      rw [findUsed_eq_recorded host _ _ _ h.intact, h.scores]
    refine ⟨by rw [hfind], ?_⟩
    by_cases hacc : rule.accepts (last e.2.stringView) (z e.2.stringView) e.1
    · rw [Undisturbed, if_pos hacc] at hfree
      rw [if_pos hacc]
      obtain ⟨hslot, hrest⟩ := hfree
      rcases or_assoc.mpr hslot with hslot | rfl
      · exact ih (h.accept host rule hslot) hrest
      · trivial
    · rw [Undisturbed, if_neg hacc] at hfree
      rw [if_neg hacc]
      exact ih h.skip hfree

/-- **If every element is judged rightly, the loop keeps exactly the admitted elements.** -/
theorem filterLoop_kept (last : Bytes → Option S) (it : Nat)
    (st : FilterState S) (h : Recognised host z rule last st.raw st.used it st.kept.length es) :
    (filterLoop host z rule it es st).kept = st.kept ++ admitted z rule last es := by
  induction es generalizing last it st with
  | nil => simp [filterLoop, admitted]
  | cons e es ih =>
    obtain ⟨hjudged, hrest⟩ := h
    by_cases hacc : rule.accepts (last e.2.stringView) (z e.2.stringView) e.1
    · rw [hacc] at hjudged
      rw [if_pos hacc] at hrest
      rw [filterLoop, admitted, if_pos hacc,
        ih (update last e.2.stringView (some e.1)) (it + 1) (filterStep host z rule it e st)
          (by simpa [filterStep, hjudged] using hrest)]
      simp [filterStep, hjudged]
    · rw [if_neg hacc] at hrest
      have hstep : filterStep host z rule it e st = st := by
        simp [filterStep, hjudged, hacc]
      rw [filterLoop, admitted, if_neg hacc, hstep]
      exact ih last (it + 1) st hrest

/-- No score accepted yet. -/
def noneAccepted : Bytes → Option S := fun _ => none

/-- A filter call judges every element rightly. -/
def Recognises : Prop :=
  Recognised host z rule noneAccepted (buffersOf elements) [] 0 0 elements

instance (host : Host) (z : Bytes → Option S) (rule : Rule S) (elements : List (Element S)) :
    Decidable (Recognises host z rule elements) := by
  unfold Recognises
  infer_instance

lemma Undisturbed.recognises {z : Bytes → Option S} {rule : Rule S}
    {elements : List (Element S)} (h : Undisturbed z rule noneAccepted [] 0 0 elements)
    (host : Host) : Recognises host z rule elements := by
  have hstart : Sync (buffersOf elements) ([] : List (Remembered S)) noneAccepted [] 0 0
      elements := by
    refine ⟨nofun, fun _ => rfl, nofun, nofun, Nat.le_refl 0, ?_⟩
    intro k e he
    simp [buffersOf, he]
  exact recognised_of_undisturbed host z rule elements hstart h

lemma runFilter_kept {host : Host} {z : Bytes → Option S} {rule : Rule S}
    {elements : List (Element S)} (h : Recognises host z rule elements) :
    (runFilter host z rule elements).kept = admitted z rule noneAccepted elements :=
  filterLoop_kept host z rule elements noneAccepted 0 ⟨[], buffersOf elements, [], 0, false⟩ h

/-! ## When views are safe -/

lemma undisturbed_of_not_stack (last : Bytes → Option S) (it result : Nat)
    (hes : ∀ e ∈ es, e.2.type ≠ .stack) : Undisturbed z rule last [] it result es := by
  induction es generalizing last it result with
  | nil => trivial
  | cons e es ih =>
    have he := hes e mem_cons_self
    have hrest : ∀ x ∈ es, x.2.type ≠ .stack := fun x hx => hes x (mem_cons_of_mem _ hx)
    simp only [Undisturbed, if_neg he]
    split
    · exact ⟨Or.inr (Or.inl not_mem_nil), ih _ _ _ hrest⟩
    · exact ih _ _ _ hrest

lemma length_admitted_le (last : Bytes → Option S) :
    (admitted z rule last es).length ≤ es.length := by
  induction es generalizing last with
  | nil => exact Nat.le_refl 0
  | cons e es ih =>
    unfold admitted
    split
    · exact Nat.succ_le_succ (ih _)
    · exact Nat.le_succ_of_le (ih _)

lemma undisturbed_of_admitted_eq (last : Bytes → Option S) (live : List Nat) (it : Nat)
    (hes : admitted z rule last es = es) : Undisturbed z rule last live it it es := by
  induction es generalizing last live it with
  | nil => trivial
  | cons e es ih =>
    by_cases hacc : rule.accepts (last e.2.stringView) (z e.2.stringView) e.1
    · rw [admitted, if_pos hacc] at hes
      rw [Undisturbed, if_pos hacc]
      exact ⟨Or.inl rfl, ih _ _ _ (List.cons.inj hes).2⟩
    · -- a dropped element would leave fewer than there were
      rw [admitted, if_neg hacc] at hes
      have hlen := length_admitted_le z rule es last
      rw [hes, length_cons] at hlen
      omega

lemma admitted_admitted (last : Bytes → Option S) :
    admitted z rule last (admitted z rule last es) = admitted z rule last es := by
  induction es generalizing last with
  | nil => rfl
  | cons e es ih =>
    by_cases hacc : rule.accepts (last e.2.stringView) (z e.2.stringView) e.1
    · simp only [admitted, hacc, if_true, ih]
    · rw [admitted, if_neg hacc]
      exact ih last

lemma admitted_map (store : EloqString → EloqString)
    (hstore : ∀ s, (store s).stringView = s.stringView) (es : List (Element S))
    (last : Bytes → Option S) :
    admitted z rule last (es.map fun e => (e.1, store e.2)) =
      (admitted z rule last es).map fun e => (e.1, store e.2) := by
  induction es generalizing last with
  | nil => rfl
  | cons e es ih =>
    by_cases hacc : rule.accepts (last e.2.stringView) (z e.2.stringView) e.1
    · simp only [map_cons, admitted, hstore, hacc, if_true, ih]
    · rw [map_cons, admitted, admitted, hstore, if_neg hacc, if_neg hacc]
      exact ih last

/-! ## What is kept, whatever happens to the views -/

/-- Some elements are kept, in order, and a filter that reports a change keeps one. -/
lemma filterLoop_spec (it : Nat) (es : List (Element S)) (st : FilterState S) :
    ∃ l, l.Sublist es ∧ (filterLoop host z rule it es st).kept = st.kept ++ l ∧
      ((filterLoop host z rule it es st).modified = true → st.modified = true ∨ l ≠ []) := by
  induction es generalizing it st with
  | nil => exact ⟨[], List.Sublist.refl _, by simp [filterLoop], Or.inl⟩
  | cons e es ih =>
    obtain ⟨l, hsub, hkept, hmod⟩ := ih (it + 1) (filterStep host z rule it e st)
    rw [filterLoop]
    by_cases hacc : rule.accepts (findUsed host st.raw st.used e.2.stringView)
        (z e.2.stringView) e.1
    · refine ⟨e :: l, hsub.cons_cons e, ?_, fun _ => Or.inr (by simp)⟩
      rw [hkept]
      simp [filterStep, hacc]
    · have hstep : filterStep host z rule it e st = st := by
        simp [filterStep, hacc]
      rw [hstep] at hkept hmod ⊢
      exact ⟨l, hsub.cons e, hkept, hmod⟩

lemma runFilter_sublist : (runFilter host z rule es).kept.Sublist es := by
  obtain ⟨l, hsub, hkept, -⟩ := filterLoop_spec host z rule 0 es ⟨[], buffersOf es, [], 0, false⟩
  rw [runFilter, hkept]
  exact hsub

variable {es}

lemma runFilter_kept_ne_nil
    (hmod : (runFilter host z rule es).modified = true) : (runFilter host z rule es).kept ≠ [] := by
  obtain ⟨l, -, hkept, hne⟩ := filterLoop_spec host z rule 0 es ⟨[], buffersOf es, [], 0, false⟩
  rw [runFilter, hkept]
  simpa using hne hmod

/-- Whether an element is accepted while nothing is remembered yet. -/
def acceptsFirst (e : Element S) : Bool :=
  rule.accepts none (z e.2.stringView) e.1

lemma head?_filterLoop (it : Nat)
    (es : List (Element S)) (raw : Buffers) (cnt : Nat) (modified : Bool) :
    (filterLoop host z rule it es ⟨[], raw, [], cnt, modified⟩).kept.head? =
      es.find? (acceptsFirst z rule) := by
  induction es generalizing it with
  | nil => rfl
  | cons e es ih =>
    rw [filterLoop]
    by_cases hacc : acceptsFirst z rule e = true
    · have haccepts : rule.accepts none (z e.2.stringView) e.1 = true := hacc
      obtain ⟨l, -, hkept, -⟩ := filterLoop_spec host z rule (it + 1) es
        (filterStep host z rule it e ⟨[], raw, [], cnt, modified⟩)
      have hfirst : (filterStep host z rule it e ⟨[], raw, [], cnt, modified⟩).kept = [e] := by
        simp [filterStep, findUsed, haccepts]
      rw [hkept, hfirst, List.find?_cons_of_pos hacc]
      rfl
    · have hrefuses : ¬rule.accepts none (z e.2.stringView) e.1 = true := hacc
      have hstep : filterStep host z rule it e ⟨[], raw, [], cnt, modified⟩ =
          ⟨[], raw, [], cnt, modified⟩ := by
        simp [filterStep, findUsed, hrefuses]
      rw [hstep, List.find?_cons_of_neg hacc]
      exact ih (it + 1)

lemma runFilter_runFilter_ne_nil (hne : (runFilter host z rule es).kept ≠ []) :
    (runFilter host z rule (runFilter host z rule es).kept).kept ≠ [] := by
  obtain ⟨e, rest, hkept⟩ := exists_cons_of_ne_nil hne
  have hfirst : (runFilter host z rule es).kept.head? = _ := head?_filterLoop host z rule 0 es _ _ _
  have hagain : (runFilter host z rule (e :: rest)).kept.head? = _ :=
    head?_filterLoop host z rule 0 (e :: rest) _ _ _
  rw [hkept] at hfirst
  have hacc := List.find?_some hfirst.symm
  rw [List.find?_cons_of_pos hacc] at hagain
  rw [hkept]
  intro hnil
  simp [hnil] at hagain

end Filter

end EloqKV.Zset
