/-
  `GenRandMap` of `src/eloq_algorithm.cpp`: which members a random pop or a random read takes.

  The result is a `std::multimap` from positions in the container to positions in the answer.
  Without repetition every draw has to find a free position: if the drawn one is taken, an
  iterator over the map and the position walk upwards together, around the end, until they
  disagree.  The draws of `std::rand` are a function of their number.
-/
import Mathlib

open List

namespace EloqKV

open Option

/-- The `std::multimap<int32_t, int64_t>` in iteration order. -/
abbrev RandMap := List (Nat × Nat)

namespace RandMap

/-- `emplace`: behind the entries with the same key. -/
def emplace (map : RandMap) (index result : Nat) : RandMap :=
  map.orderedInsert (fun a b => a.1 < b.1) (index, result)

/-- The keys in iteration order. -/
def indexes (map : RandMap) : List Nat := map.map (·.1)

/-- The `while (true)` loop, with the iterator as a position; `none` if the fuel runs out. -/
def probe (size : Nat) (keys : List Nat) : Nat → Nat → Nat → Option Nat
  | 0, _, _ => none
  | fuel + 1, iter, ran =>
    let iter := if iter + 1 = keys.length then 0 else iter + 1
    let ran := if ran + 1 = size then 0 else ran + 1
    if keys[iter]? = some ran then probe size keys fuel iter ran else some ran

/-- One round of the outer loop: draw number `i`.  `none` if the inner loop does not end. -/
def draw (size : Nat) (repeated : Bool) (map : RandMap) (ran i : Nat) : Option RandMap :=
  if repeated then some (map.emplace ran i)
  else
    match map.indexes.findIdx? (· == ran) with
    | none => some (map.emplace ran i)
    | some iter =>
      -- after as many rounds as there are keys the loop would be where it started
      (probe size map.indexes map.length iter ran).map fun ran => map.emplace ran i

/-- `GenRandMap` after `count` rounds. -/
def genRandMap (size : Nat) (repeated : Bool) (rand : Nat → Nat) : Nat → Option RandMap
  | 0 => some []
  | i + 1 => (genRandMap size repeated rand i).bind fun map =>
      draw size repeated map (rand i % size) i

/-! ## Insertion -/

lemma perm_emplace (map : RandMap) (index result : Nat) :
    (map.emplace index result).Perm ((index, result) :: map) :=
  perm_orderedInsert _ _ _

variable {map : RandMap}

/-- A map stays sorted, by `<` if the new key is free and by `≤` in any case: an entry goes before
the first larger key, so what stands in front of it has keys up to its own. -/
lemma pairwise_emplace (r : Nat → Nat → Prop) [IsTrans Nat r] (hr : ∀ {a b}, a < b → r a b)
    (hmap : map.Pairwise fun a b => r a.1 b.1) {index : Nat}
    (hindex : ∀ k ∈ map.indexes, k ≤ index → r k index) (result : Nat) :
    (map.emplace index result).Pairwise fun a b => r a.1 b.1 := by
  induction map with
  | nil => exact pairwise_singleton _ _
  | cons e map ih =>
    obtain ⟨hhead, htail⟩ := pairwise_cons.1 hmap
    obtain ⟨hfirst, hrest⟩ := forall_mem_cons.1 hindex
    simp only [emplace, orderedInsert_cons]
    split
    · next hlt =>
      refine pairwise_cons.2 ⟨fun e' he' => ?_, hmap⟩
      rcases mem_cons.1 he' with rfl | he'
      · exact hr hlt
      · exact IsTrans.trans _ _ _ (hr hlt) (hhead e' he')
    · next hge =>
      refine pairwise_cons.2 ⟨fun e' he' => ?_, ih htail hrest⟩
      rcases mem_cons.1 ((perm_emplace map index result).mem_iff.1 he') with rfl | he'
      · exact hfirst (Nat.not_lt.1 hge)
      · exact hhead e' he'

/-- The keys do not decrease along the map. -/
def Sorted (map : RandMap) : Prop := map.Pairwise fun a b => a.1 ≤ b.1

lemma Sorted.emplace (hmap : map.Sorted) (index result : Nat) :
    (map.emplace index result).Sorted :=
  pairwise_emplace (· ≤ ·) Nat.le_of_lt hmap (fun _ _ hle => hle) result

/-! ## The walk -/

section Walk

variable {size : Nat} {keys : List Nat}

lemma wrap_eq_mod {i n : Nat} (hi : i < n) : (if i + 1 = n then 0 else i + 1) = (i + 1) % n := by
  split
  · next heq => rw [heq, Nat.mod_self]
  · rw [Nat.mod_eq_of_lt (by omega)]

lemma probe_eq_none {fuel iter ran : Nat} (hiter : iter < keys.length) (hran : ran < size)
    (hat : keys[iter]? = some ran) (hnone : probe size keys fuel iter ran = none) :
    keys[(iter + fuel) % keys.length]? = some ((ran + fuel) % size) := by
  induction fuel generalizing iter ran with
  | zero =>
    rwa [Nat.add_zero, Nat.add_zero, Nat.mod_eq_of_lt hiter, Nat.mod_eq_of_lt hran]
  | succ fuel ih =>
    simp only [probe, wrap_eq_mod hiter, wrap_eq_mod hran] at hnone
    split at hnone
    · next hnext =>
      have hlater := ih (Nat.mod_lt _ (by omega)) (Nat.mod_lt _ (by omega)) hnext hnone
      rwa [Nat.mod_add_mod, Nat.mod_add_mod, Nat.add_right_comm iter, Nat.add_right_comm ran]
        at hlater
    · contradiction

/-- Keys increase, so the iterator and the position step together while the next key is taken. -/
lemma next_key (hsorted : keys.Pairwise (· < ·)) (hbound : ∀ k ∈ keys, k < size)
    {iter ran : Nat} (hat : keys[iter]? = some ran) (hnext : (ran + 1) % size ∈ keys) :
    keys[(iter + 1) % keys.length]? = some ((ran + 1) % size) := by
  obtain ⟨hiter, hval⟩ := List.getElem?_eq_some_iff.1 hat
  obtain ⟨j, hj, hjval⟩ := getElem_of_mem hnext
  have hlt : ∀ a b (ha : a < keys.length) (hb : b < keys.length), a < b → keys[a] < keys[b] :=
    fun a b ha hb hab => pairwise_iff_getElem.1 hsorted a b ha hb hab
  have hran : ran < size := hval ▸ hbound _ (getElem_mem hiter)
  rw [getElem?_eq_some_iff]
  by_cases hlast : ran + 1 = size
  · -- the position wraps: the key of the iterator is the largest, that of `j` the smallest
    rw [hlast, Nat.mod_self] at hjval ⊢
    have hmax : iter + 1 = keys.length := by
      by_contra hne
      have h1 := hlt iter (iter + 1) hiter (by omega) (by omega)
      have h2 := hbound _ (getElem_mem (show iter + 1 < keys.length by omega))
      omega
    have hmin : j = 0 := by
      by_contra hne
      have := hlt 0 j (by omega) hj (by omega)
      omega
    subst hmin
    simp only [hmax, Nat.mod_self]
    exact ⟨hj, hjval⟩
  · rw [Nat.mod_eq_of_lt (by omega : ran + 1 < size)] at hjval ⊢
    have hsucc : j = iter + 1 := by
      rcases Nat.lt_trichotomy j (iter + 1) with h | h | h
      · rcases Nat.lt_or_ge j iter with h' | h'
        · have := hlt j iter hj hiter h'
          omega
        · obtain rfl : j = iter := by omega
          omega
      · exact h
      · have h1 := hlt iter (iter + 1) hiter (by omega) (by omega)
        have h2 := hlt (iter + 1) j (by omega) hj h
        omega
    subst hsucc
    simp only [Nat.mod_eq_of_lt hj]
    exact ⟨hj, hjval⟩

lemma probe_eq_some (hsorted : keys.Pairwise (· < ·)) (hbound : ∀ k ∈ keys, k < size)
    {fuel iter ran free : Nat} (hat : keys[iter]? = some ran)
    (hsome : probe size keys fuel iter ran = some free) : free < size ∧ free ∉ keys := by
  induction fuel generalizing iter ran with
  | zero => contradiction
  | succ fuel ih =>
    obtain ⟨hiter, hval⟩ := List.getElem?_eq_some_iff.1 hat
    have hran : ran < size := hval ▸ hbound _ (getElem_mem hiter)
    simp only [probe, wrap_eq_mod hiter, wrap_eq_mod hran] at hsome
    split at hsome
    · next hnext => exact ih hnext hsome
    · next hfree =>
      obtain rfl : (ran + 1) % size = free := by simpa using hsome
      exact ⟨Nat.mod_lt _ (by omega), fun hmem => hfree (next_key hsorted hbound hat hmem)⟩

/-- A whole round of the iterator is shorter than one of the position: a free one is found. -/
lemma probe_isSome (hroom : keys.length < size) {iter ran : Nat} (hran : ran < size)
    (hat : keys[iter]? = some ran) : (probe size keys keys.length iter ran).isSome := by
  obtain ⟨hiter, -⟩ := List.getElem?_eq_some_iff.1 hat
  by_contra hnone
  have hround := probe_eq_none hiter hran hat (by simpa using hnone)
  -- a whole round of the iterator is less than a whole round of the position
  rw [Nat.add_mod_right, Nat.mod_eq_of_lt hiter, hat, some.injEq] at hround
  rcases Nat.lt_or_ge (ran + keys.length) size with h | h
  · rw [Nat.mod_eq_of_lt h] at hround
    omega
  · rw [Nat.mod_eq_sub_mod h, Nat.mod_eq_of_lt (by omega)] at hround
    omega

end Walk

/-! ## A run without repetition -/

/-- What draws without repetition leave: increasing positions with results `0, …, count - 1`. -/
structure Drawn (size count : Nat) (map : RandMap) : Prop where
  sorted : map.Pairwise fun a b => a.1 < b.1
  bound : ∀ k ∈ map.indexes, k < size
  results : (map.map (·.2)).Perm (range count)

variable {size count : Nat}

lemma Drawn.length (hmap : Drawn size count map) : map.length = count := by
  simpa using hmap.results.length_eq

lemma Drawn.nodup (hmap : Drawn size count map) : map.indexes.Nodup :=
  (pairwise_map.2 hmap.sorted : map.indexes.Pairwise (· < ·)).imp Nat.ne_of_lt

lemma fills_emplace (hbound : ∀ k ∈ map.indexes, k < size)
    (hresults : (map.map (·.2)).Perm (range count)) {index : Nat} (hindex : index < size) :
    (∀ k ∈ (map.emplace index count).indexes, k < size) ∧
      ((map.emplace index count).map (·.2)).Perm (range (count + 1)) := by
  have hperm := perm_emplace map index count
  constructor
  · intro k hk
    rcases mem_cons.1 ((hperm.map _).mem_iff.1 hk) with rfl | hk
    · exact hindex
    · exact hbound k hk
  · rw [range_succ]
    exact (hperm.map _).trans ((hresults.cons count).trans (perm_append_singleton count _).symm)

lemma Drawn.emplace (hmap : Drawn size count map)
    {index : Nat} (hindex : index < size) (hfree : index ∉ map.indexes) :
    Drawn size (count + 1) (map.emplace index count) := by
  obtain ⟨hbound, hresults⟩ := fills_emplace hmap.bound hmap.results hindex
  have hbelow : ∀ k ∈ map.indexes, k ≤ index → k < index := fun k hk hle =>
    Nat.lt_of_le_of_ne hle fun heq => hfree (heq ▸ hk)
  exact ⟨pairwise_emplace (· < ·) id hmap.sorted hbelow count, hbound, hresults⟩

lemma Drawn.draw (hmap : Drawn size count map)
    (hcount : count < size) {ran : Nat} (hran : ran < size) :
    ∃ map', RandMap.draw size false map ran count = some map' ∧ Drawn size (count + 1) map' := by
  have hkeys : map.indexes.Pairwise (· < ·) := pairwise_map.2 hmap.sorted
  have hlength : map.indexes.length = map.length := length_map _
  simp only [RandMap.draw, Bool.false_eq_true, if_false]
  cases hfind : map.indexes.findIdx? (· == ran) with
  | none =>
    refine ⟨_, rfl, hmap.emplace hran fun hmem => ?_⟩
    simpa using findIdx?_eq_none_iff.1 hfind ran hmem
  | some iter =>
    obtain ⟨hlt, hat, -⟩ := findIdx?_eq_some_iff_getElem.1 hfind
    have hat' : map.indexes[iter]? = some ran :=
      List.getElem?_eq_some_iff.2 ⟨hlt, by simpa using hat⟩
    have hroom : map.indexes.length < size := by rw [hlength, hmap.length]; exact hcount
    obtain ⟨free, hprobe⟩ := isSome_iff_exists.1 (probe_isSome hroom hran hat')
    obtain ⟨hfreeLt, hfree⟩ := probe_eq_some hkeys hmap.bound hat' hprobe
    rw [hlength] at hprobe
    exact ⟨_, by simp only [hprobe, map_some], hmap.emplace hfreeLt hfree⟩

/-- **Draws without repetition** end, with different positions, while there are enough of them. -/
theorem drawn_genRandMap (hcount : count ≤ size) (rand : Nat → Nat) :
    ∃ map, genRandMap size false rand count = some map ∧ Drawn size count map := by
  induction count with
  | zero => exact ⟨[], rfl, ⟨List.Pairwise.nil, by simp [indexes], by simp⟩⟩
  | succ i ih =>
    obtain ⟨map, hrun, hmap⟩ := ih (by omega)
    obtain ⟨map', hdraw, hmap'⟩ := hmap.draw (by omega) (Nat.mod_lt (rand i) (by omega : size > 0))
    exact ⟨map', by rw [genRandMap, hrun]; exact hdraw, hmap'⟩

lemma filled_genRandMap (hsize : 0 < size) (rand : Nat → Nat) (count : Nat) :
    ∃ map, genRandMap size true rand count = some map ∧ map.Sorted ∧
      (∀ k ∈ map.indexes, k < size) ∧ (map.map (·.2)).Perm (range count) := by
  induction count with
  | zero => exact ⟨[], rfl, List.Pairwise.nil, by simp [indexes], by simp⟩
  | succ i ih =>
    obtain ⟨map, hrun, hsorted, hbound, hresults⟩ := ih
    refine ⟨_, ?_, hsorted.emplace _ i, fills_emplace hbound hresults (Nat.mod_lt (rand i) hsize)⟩
    rw [genRandMap, hrun]
    rfl

/-- **`GenRandMap` ends**, with as many entries as asked for: each result once, every position
inside the container, and no position twice unless repetition is on. -/
theorem genRandMap_right (hsize : 0 < size) (repeated : Bool)
    (hcount : repeated = false → count ≤ size) (rand : Nat → Nat) :
    ∃ map, genRandMap size repeated rand count = some map ∧ map.length = count ∧
      (map.map (·.2)).Perm (range count) ∧ (∀ k ∈ map.indexes, k < size) ∧
      (repeated = false → map.indexes.Nodup) := by
  cases repeated with
  | false =>
    obtain ⟨map, hrun, hmap⟩ := drawn_genRandMap (hcount rfl) rand
    exact ⟨map, hrun, hmap.length, hmap.results, hmap.bound, fun _ => hmap.nodup⟩
  | true =>
    obtain ⟨map, hrun, -, hbound, hresults⟩ := filled_genRandMap hsize rand count
    exact ⟨map, hrun, by simpa using hresults.length_eq, hresults, hbound, nofun⟩

/-- The second draw of position 1 goes around the end. -/
theorem genRandMap_wraps : ∃ map, genRandMap 2 false (fun _ => 1) 2 = some map ∧
    map.length = 2 ∧ map.indexes.Nodup := by
  obtain ⟨map, hrun, hlength, -, -, hnodup⟩ :=
    genRandMap_right Nat.two_pos false (fun _ => Nat.le_refl 2) fun _ => 1
  exact ⟨map, hrun, hlength, hnodup rfl⟩

/-- The map of a run that has no more draws than positions. -/
def sample {size count : Nat} (hcount : count ≤ size) (rand : Nat → Nat) : RandMap :=
  (genRandMap size false rand count).get <| by
    obtain ⟨map, hrun, -⟩ := drawn_genRandMap hcount rand
    exact hrun ▸ rfl

lemma drawn_sample (hcount : count ≤ size) (rand : Nat → Nat) :
    Drawn size count (sample hcount rand) := by
  obtain ⟨map, hrun, hmap⟩ := drawn_genRandMap hcount rand
  simpa only [sample, hrun, get_some] using hmap

/-! ## The answer -/

section Answer

variable {α : Type} [Inhabited α] {members : List α}

/-- The loop for a container much larger than the count: what an iterator reads from `hiter` on,
back at the start of the container behind its end. -/
def around (members : List α) : Nat → List α → List α
  | 0, _ => []
  | count + 1, hiter =>
    let next := hiter.tail
    hiter.headD default :: around members count (if next.isEmpty then members else next)

lemma around_eq_take {count : Nat} {hiter : List α} (hcount : count ≤ hiter.length) :
    around members count hiter = hiter.take count := by
  induction count generalizing hiter with
  | zero => rfl
  | succ count ih =>
    cases hiter with
    | nil => exact absurd hcount (by simp)
    | cons m rest =>
      rw [around, take_succ_cons, headD_cons, tail_cons]
      cases rest with
      | nil =>
        obtain rfl : count = 0 := by simpa using hcount
        rfl
      | cons m' rest => rw [isEmpty_cons, if_neg Bool.false_ne_true, ih (by simpa using hcount)]

/-- The one iterator over the container, its position, and the slots of the answer. -/
structure Pass (α : Type) where
  cnt : Nat
  hiter : List α
  out : List α

/-- `while (cnt < index) { cnt++; hiter++; }`. -/
def Pass.advance (pass : Pass α) (index : Nat) : Pass α :=
  (fun p : Pass α => { p with cnt := p.cnt + 1, hiter := p.hiter.tail })^[index - pass.cnt] pass

/-- An entry of the map: the iterator goes on to its index and fills its slot. -/
def Pass.visit (pass : Pass α) (e : Nat × Nat) : Pass α :=
  let pass := pass.advance e.1
  { pass with out := pass.out.set e.2 (pass.hiter.headD default) }

/-- The loop over the map. -/
def fill (map : RandMap) (members out : List α) : List α :=
  (map.foldl Pass.visit ⟨0, members, out⟩).out

/-- The loop that fills `string_list_`, which has a slot for every entry. -/
def answer (map : RandMap) (members : List α) : List α :=
  map.fill members (replicate map.length default)

omit [Inhabited α] in
lemma Pass.advance_at {cnt index : Nat} (hle : cnt ≤ index) (out : List α) :
    Pass.advance ⟨cnt, members.drop cnt, out⟩ index = ⟨index, members.drop index, out⟩ := by
  obtain ⟨steps, rfl⟩ := Nat.exists_eq_add_of_le hle
  rw [advance, Nat.add_sub_cancel_left]
  induction steps with
  | zero => rfl
  | succ steps ih => rw [Function.iterate_succ_apply', ih (by omega), tail_drop, Nat.add_assoc]

/-- The iterator never has to go back, since the keys do not decrease: every slot gets the member
at its key. -/
lemma Sorted.fill_eq {map : RandMap} (hmap : map.Sorted) (members out : List α) :
    map.fill members out
      = map.foldl (fun out e => out.set e.2 (members.getD e.1 default)) out := by
  suffices h : ∀ cnt, (∀ e ∈ map, cnt ≤ e.1) →
      (map.foldl Pass.visit ⟨cnt, members.drop cnt, out⟩).out
        = map.foldl (fun out e => out.set e.2 (members.getD e.1 default)) out from
    h 0 fun _ _ => Nat.zero_le _
  induction map generalizing out with
  | nil => exact fun _ _ => rfl
  | cons e map ih =>
    intro cnt hcnt
    obtain ⟨hhead, htail⟩ := pairwise_cons.1 hmap
    rw [foldl_cons, foldl_cons, Pass.visit, Pass.advance_at (hcnt e mem_cons_self),
      headD_eq_head?_getD, head?_drop, ← getD_eq_getElem?_getD]
    exact ih htail _ e.1 hhead

lemma length_foldl_set (map : RandMap) (members out : List α) :
    (map.foldl (fun out e => out.set e.2 (members.getD e.1 default)) out).length = out.length := by
  induction map generalizing out with
  | nil => rfl
  | cons e map ih => rw [foldl_cons, ih, length_set]

variable {map : RandMap}

lemma getElem?_foldl_set (hmap : (map.map (·.2)).Nodup) (members : List α)
    {out : List α} {e : Nat × Nat} (he : e ∈ map) (hlt : e.2 < out.length) :
    (map.foldl (fun out e => out.set e.2 (members.getD e.1 default)) out)[e.2]? =
      some (members.getD e.1 default) := by
  induction map using reverseRecOn with
  | nil => contradiction
  | append_singleton map last ih =>
    rw [map_append, nodup_append] at hmap
    obtain ⟨hinit, -, hfresh⟩ := hmap
    rw [foldl_concat, getElem?_set]
    rcases mem_append.1 he with hinner | hlast
    · have hne : last.2 ≠ e.2 := fun heq =>
        hfresh e.2 (mem_map_of_mem hinner) last.2 (by simp) heq.symm
      rw [if_neg hne]
      exact ih hinit hinner
    · obtain rfl : e = last := by simpa using hlast
      rw [if_pos rfl, length_foldl_set, if_pos hlt]

lemma getElem?_answer {count : Nat} (hsorted : map.Sorted)
    (hresults : (map.map (·.2)).Perm (range count)) (members : List α)
    {place : Nat} (hplace : place < count) :
    ∃ index, (index, place) ∈ map ∧
      (map.answer members)[place]? = some (members.getD index default) := by
  have hmem : place ∈ map.map (·.2) := hresults.mem_iff.2 (mem_range.2 hplace)
  obtain ⟨⟨index, _⟩, he, rfl⟩ := mem_map.1 hmem
  have hnodup : (map.map (·.2)).Nodup := hresults.nodup_iff.2 nodup_range
  refine ⟨index, he, ?_⟩
  rw [answer, hsorted.fill_eq]
  refine getElem?_foldl_set hnodup members he ?_
  rw [length_replicate]
  simpa using hplace.trans_eq (by simpa using hresults.length_eq.symm)

lemma answer_mem {count : Nat} (hsorted : map.Sorted)
    (hbound : ∀ k ∈ map.indexes, k < members.length)
    (hresults : (map.map (·.2)).Perm (range count)) :
    (map.answer members).length = count ∧ ∀ m ∈ map.answer members, m ∈ members := by
  have hlength : (map.answer members).length = count := by
    rw [answer, hsorted.fill_eq, length_foldl_set, length_replicate]
    simpa using hresults.length_eq
  refine ⟨hlength, fun m hm => ?_⟩
  obtain ⟨place, hlt, rfl⟩ := getElem_of_mem hm
  obtain ⟨index, he, hval⟩ := getElem?_answer hsorted hresults members
    (Nat.lt_of_lt_of_eq hlt hlength)
  have hindex := hbound _ (mem_map.2 ⟨_, he, rfl⟩)
  rw [getElem?_eq_getElem hlt, some.injEq, getD_eq_getElem _ _ hindex] at hval
  exact hval ▸ getElem_mem _

lemma Drawn.answer_spec {count : Nat}
    (hmap : Drawn members.length count map) (hnodup : members.Nodup) :
    (map.answer members).length = count ∧ (map.answer members).Nodup ∧
      ∀ m ∈ map.answer members, m ∈ members := by
  have hsorted : map.Sorted := hmap.sorted.imp Nat.le_of_lt
  obtain ⟨hlength, hmem⟩ := answer_mem hsorted hmap.bound hmap.results
  have hindex : ∀ {index place}, (index, place) ∈ map → index < members.length :=
    fun he => hmap.bound _ (mem_map.2 ⟨_, he, rfl⟩)
  refine ⟨hlength, nodup_iff_injective_getElem.2 ?_, hmem⟩
  intro a b hab
  obtain ⟨i, hi, hia⟩ := getElem?_answer hsorted hmap.results members
    (Nat.lt_of_lt_of_eq a.2 hlength)
  obtain ⟨j, hj, hjb⟩ := getElem?_answer hsorted hmap.results members
    (Nat.lt_of_lt_of_eq b.2 hlength)
  -- equal members have equal positions, and a position occurs once in the map
  have hij : i = j := by
    rw [getElem?_eq_getElem a.2, some.injEq, getD_eq_getElem _ _ (hindex hi)] at hia
    rw [getElem?_eq_getElem b.2, some.injEq, getD_eq_getElem _ _ (hindex hj)] at hjb
    exact hnodup.getElem_inj_iff.1 (hia.symm.trans (hab.trans hjb))
  exact Fin.ext (Prod.mk.inj (inj_on_of_nodup_map hmap.nodup hi hj hij)).2

/-- Either way of drawing fills every slot. -/
lemma exists_answer (hpos : 0 < members.length) (hnodup : members.Nodup) (repeated : Bool)
    (rand : Nat → Nat) {count : Nat} (hcount : repeated = false → count ≤ members.length) :
    ∃ map, genRandMap members.length repeated rand count = some map ∧ map.length = count ∧
      (map.answer members).length = count ∧ (∀ m ∈ map.answer members, m ∈ members) ∧
      (repeated = false → (map.answer members).Nodup) := by
  cases repeated with
  | true =>
    obtain ⟨map, hmap, hsorted, hbound, hresults⟩ := filled_genRandMap hpos rand count
    obtain ⟨hlength, hmem⟩ := answer_mem hsorted hbound hresults
    exact ⟨map, hmap, by simpa using hresults.length_eq, hlength, hmem, nofun⟩
  | false =>
    obtain ⟨map, hmap, hdrawn⟩ := drawn_genRandMap (hcount rfl) rand
    obtain ⟨hlength, hdistinct, hmem⟩ := hdrawn.answer_spec hnodup
    exact ⟨map, hmap, hdrawn.length, hlength, hmem, fun _ => hdistinct⟩

end Answer

end RandMap

end EloqKV
