/-
  The scan cursors a connection remembers (`CacheScanCursor` and `FindScanCursor` in
  `src/redis_connection_context.cpp`).

  A map from hashes to contents and counts, and a list of pointers to its nodes, the oldest in
  front.  A content that is cached again gets a second pointer to its one node, so that a node
  may go only with its last pointer.  The addresses of nodes are not given out twice here.
-/
import EloqKV.Bytes

open List Function

namespace EloqKV.Connection

open Connection

/-- The hash of a cursor, FNV-1a; `char` is signed. -/
def fnv1a (cursor : Bytes) : UInt64 :=
  cursor.foldl (fun hash byte => (hash ^^^ byte.toInt8.toInt64.toUInt64) * 1099511628211)
    14695981039346656037

/-- A node of `scan_cursors`; its key is the hash it is stored under. -/
structure CursorNode where
  address : Nat
  content : Bytes
  count : Nat
  deriving DecidableEq, Repr

structure CursorPointer where
  hash : UInt64
  address : Nat
  deriving DecidableEq, Repr

/-- `scan_cursors` and `scan_cursor_list`; `allocated` counts the nodes made so far. -/
structure CursorCache where
  scanCursors : UInt64 → Option CursorNode := fun _ => none
  scanCursorList : List CursorPointer := []
  allocated : Nat := 0

namespace CursorCache

variable (c : CursorCache)

def deref (p : CursorPointer) : Option CursorNode :=
  (c.scanCursors p.hash).filter (·.address = p.address)

/-- `CacheScanCursor` up to the new pointer. -/
def push (cursor : Bytes) : CursorCache :=
  let node := match c.scanCursors (fnv1a cursor) with
    | none => ⟨c.allocated, cursor, 1⟩
    | some node => { node with content := cursor, count := node.count + 1 }
  { scanCursors := Function.update c.scanCursors (fnv1a cursor) (some node)
    scanCursorList := c.scanCursorList ++ [⟨fnv1a cursor, node.address⟩]
    allocated := c.allocated + 1 }

/-- The rest of it, when the list is too long; nothing where a pointer leads to an erased node. -/
def popFront : Option CursorCache :=
  match c.scanCursorList with
  | [] => none
  | pr :: rest => (c.deref pr).map fun node =>
    { c with
      scanCursors := Function.update c.scanCursors pr.hash
        (if 1 < node.count then some { node with count := node.count - 1 } else none)
      scanCursorList := rest }

def cacheScanCursor (cursor : Bytes) : Option (UInt64 × CursorCache) :=
  if 100 < (c.push cursor).scanCursorList.length then
    (c.push cursor).popFront.map (fnv1a cursor, ·)
  else some (fnv1a cursor, c.push cursor)

def findScanCursor (cursorId : UInt64) : Option Bytes :=
  (c.scanCursors cursorId).map (·.content)

end CursorCache

inductive CursorCall where
  | cache (cursor : Bytes)
  | find (cursorId : UInt64)
  deriving DecidableEq, Repr

namespace CursorCall

def step (c : CursorCache) : CursorCall → Option CursorCache
  | cache cursor => (c.cacheScanCursor cursor).map Prod.snd
  | find _ => some c

def run (calls : List CursorCall) : Option CursorCache :=
  calls.foldlM step {}

def contents (calls : List CursorCall) : List Bytes :=
  calls.filterMap fun
    | cache cursor => some cursor
    | find _ => none

end CursorCall

variable (contents : List Bytes)

/-- The last hundred. -/
def recent : List Bytes :=
  contents.drop (contents.length - 100)

/-- What the cache promises about the contents that came last. -/
structure CursorCache.Remembers (c : CursorCache) (recent : List Bytes) : Prop where
  bounded : c.scanCursorList.length ≤ 100
  /-- No pointer leads to an erased node. -/
  alive : ∀ p ∈ c.scanCursorList, (c.deref p).isSome
  counted : ∀ hash node, c.scanCursors hash = some node →
    node.count = c.scanCursorList.count ⟨hash, node.address⟩
  found : ∀ hash content, c.findScanCursor hash = some content ↔
    content ∈ recent ∧ fnv1a content = hash

/-- The list follows the contents, and the map follows the list. -/
structure CursorCache.Follows (c : CursorCache) (recent : List Bytes) : Prop where
  hashes : c.scanCursorList.map (·.hash) = recent.map fnv1a
  alive : ∀ p ∈ c.scanCursorList, ∃ node,
    c.scanCursors p.hash = some node ∧ node.address = p.address
  counted : ∀ hash node, c.scanCursors hash = some node →
    node.count = c.scanCursorList.count ⟨hash, node.address⟩ ∧ 0 < node.count ∧
      node.content ∈ recent ∧ fnv1a node.content = hash

/-- Contents with the same hash are the same. -/
def Distinguished : Prop :=
  ∀ x ∈ contents, ∀ y ∈ contents, fnv1a x = fnv1a y → x = y

lemma Distinguished.mono {l l' : List Bytes} (h : Distinguished l) (hsub : l' ⊆ l) :
    Distinguished l' :=
  fun x hx y hy => h x (hsub hx) y (hsub hy)

lemma recent_subset : recent contents ⊆ contents :=
  drop_subset _ _

namespace CursorCache.Follows

variable {c : CursorCache} {recent : List Bytes}

lemma push_eq (h : c.Follows recent) (cursor : Bytes) : ∃ address,
    (c.push cursor).scanCursors = Function.update c.scanCursors (fnv1a cursor)
        (some ⟨address, cursor, c.scanCursorList.count ⟨fnv1a cursor, address⟩ + 1⟩) ∧
      (c.push cursor).scanCursorList = c.scanCursorList ++ [⟨fnv1a cursor, address⟩] ∧
      ∀ p ∈ c.scanCursorList, p.hash = fnv1a cursor → p.address = address := by
  cases hnode : c.scanCursors (fnv1a cursor) with
  | none =>
    have hunused : ∀ p ∈ c.scanCursorList, p.hash ≠ fnv1a cursor := by
      intro p hp heq
      obtain ⟨node, hnode', -⟩ := h.alive p hp
      rw [heq, hnode] at hnode'
      exact nomatch hnode'
    have hcount : c.scanCursorList.count ⟨fnv1a cursor, c.allocated⟩ = 0 :=
      count_eq_zero.mpr fun hmem => hunused _ hmem rfl
    refine ⟨c.allocated, ?_, ?_, fun p hp heq => absurd heq (hunused p hp)⟩
    · simp [push, hnode, hcount]
    · simp [push, hnode]
  | some node =>
    refine ⟨node.address, ?_, ?_, fun p hp heq => ?_⟩
    · simp [push, hnode, ← (h.counted _ node hnode).1]
    · simp [push, hnode]
    · obtain ⟨node', hnode', haddress⟩ := h.alive p hp
      rw [heq, hnode] at hnode'
      rw [← haddress, Option.some.inj hnode']

lemma push (h : c.Follows recent) (cursor : Bytes) :
    (c.push cursor).Follows (recent ++ [cursor]) := by
  obtain ⟨address, hmap, hlist, hsame⟩ := h.push_eq cursor
  refine ⟨?_, ?_, ?_⟩
  · rw [hlist, map_append, map_append, h.hashes]
    rfl
  · intro p hp
    rw [hlist, mem_append, mem_singleton] at hp
    rw [hmap]
    by_cases hhash : p.hash = fnv1a cursor
    · rw [hhash, update_self]
      refine ⟨_, rfl, ?_⟩
      rcases hp with hp | rfl
      · exact (hsame p hp hhash).symm
      · rfl
    · rw [update_of_ne hhash]
      exact h.alive p (hp.resolve_right fun heq => hhash (by rw [heq]))
  · intro hash node hnode
    rw [hmap] at hnode
    rw [hlist, count_append]
    by_cases hhash : hash = fnv1a cursor
    · rw [hhash, update_self] at hnode
      cases hnode
      rw [hhash, count_singleton_self]
      exact ⟨rfl, Nat.succ_pos _, mem_append_right _ (mem_singleton_self cursor), rfl⟩
    · rw [update_of_ne hhash] at hnode
      obtain ⟨hcount, hpos, hmem, hcontent⟩ := h.counted hash node hnode
      have hother :
          List.count (⟨hash, node.address⟩ : CursorPointer) [⟨fnv1a cursor, address⟩] = 0 :=
        count_eq_zero.mpr fun hmem =>
          hhash (congrArg CursorPointer.hash (mem_singleton.mp hmem))
      rw [hother]
      exact ⟨hcount, hpos, mem_append_left _ hmem, hcontent⟩

/-- With hashes told apart, the entry erased is that of the oldest cursor and of no other. -/
lemma popFront {oldest : Bytes} (h : c.Follows (oldest :: recent))
    (hdist : Distinguished (oldest :: recent)) :
    ∃ c', c.popFront = some c' ∧ c'.Follows recent := by
  obtain ⟨cursors, list, allocated⟩ := c
  cases list with
  | nil => exact nomatch h.hashes
  | cons pr rest =>
    obtain ⟨hhead, htail⟩ := List.cons.inj h.hashes
    obtain ⟨node, hnode, haddress⟩ := h.alive pr mem_cons_self
    obtain ⟨hcount, -, hcontent, hhash⟩ := h.counted pr.hash node hnode
    have hpr : (⟨pr.hash, node.address⟩ : CursorPointer) = pr := by rw [haddress]
    rw [hpr, count_cons_self] at hcount
    have hderef : CursorCache.deref ⟨cursors, pr :: rest, allocated⟩ pr = some node := by
      simp only [CursorCache.deref] at hnode ⊢
      rw [hnode, Option.filter_some, if_pos (decide_eq_true haddress)]
    -- all pointers with this hash are equal
    have hequal : ∀ q ∈ rest, q.hash = pr.hash → q = pr := by
      intro q hq heq
      obtain ⟨node', hnode', haddress'⟩ := h.alive q (mem_cons_of_mem _ hq)
      rw [heq, hnode] at hnode'
      rw [← hpr, ← heq, Option.some.inj hnode', haddress']
    refine ⟨_, congrArg (Option.map _) hderef, htail, ?_, ?_⟩
    · intro q hq
      dsimp only
      by_cases heq : q.hash = pr.hash
      · obtain rfl := hequal q hq heq
        have hpos : 0 < rest.count q := count_pos_iff.mpr hq
        rw [update_self, if_pos (by omega)]
        exact ⟨_, rfl, haddress⟩
      · rw [update_of_ne heq]
        exact h.alive q (mem_cons_of_mem _ hq)
    · intro hash node' hnode'
      dsimp only at hnode' ⊢
      by_cases heq : hash = pr.hash
      · rw [heq, update_self] at hnode'
        split at hnode'
        · next hmany =>
          cases hnode'
          have hpos : 0 < rest.count pr := by omega
          have hmem : pr.hash ∈ recent.map fnv1a := htail ▸ mem_map_of_mem (count_pos_iff.mp hpos)
          obtain ⟨content, hrecent, hsame⟩ := mem_map.mp hmem
          have hkept := hdist _ (mem_cons_of_mem _ hrecent) _ hcontent (hsame.trans hhash.symm)
          rw [heq, hpr, hcount]
          exact ⟨rfl, hpos, hkept ▸ hrecent, hhash⟩
        · exact nomatch hnode'
      · rw [update_of_ne heq] at hnode'
        obtain ⟨hcount', hpos, hmem, hhash'⟩ := h.counted hash node' hnode'
        rw [count_cons_of_ne fun hne => heq (congrArg CursorPointer.hash hne).symm] at hcount'
        refine ⟨hcount', hpos, (mem_cons.mp hmem).resolve_left fun hold => ?_, hhash'⟩
        exact heq (by rw [← hhash', hold]; exact hhead.symm)

lemma remembers (h : c.Follows recent) (hdist : Distinguished recent)
    (hlength : recent.length ≤ 100) : c.Remembers recent where
  bounded := by
    have hsame := congrArg List.length h.hashes
    rw [length_map, length_map] at hsame
    exact hsame ▸ hlength
  alive p hp := by
    obtain ⟨node, hnode, haddress⟩ := h.alive p hp
    rw [deref, hnode, Option.filter_some, if_pos (decide_eq_true haddress)]
    rfl
  counted hash node hnode := (h.counted hash node hnode).1
  found hash content := by
    rw [findScanCursor, Option.map_eq_some_iff]
    constructor
    · rintro ⟨node, hnode, rfl⟩
      exact (h.counted hash node hnode).2.2
    · rintro ⟨hmem, rfl⟩
      have hhash : fnv1a content ∈ c.scanCursorList.map (·.hash) := h.hashes ▸ mem_map_of_mem hmem
      obtain ⟨p, hp, hsame⟩ := mem_map.mp hhash
      obtain ⟨node, hnode, -⟩ := h.alive p hp
      rw [hsame] at hnode
      obtain ⟨-, -, hmem', hcontent⟩ := h.counted _ node hnode
      exact ⟨node, hnode, hdist _ hmem' _ hmem hcontent⟩

theorem cacheScanCursor {past : List Bytes} (h : c.Follows (Connection.recent past))
    {cursor : Bytes} (hdist : Distinguished (past ++ [cursor])) :
    ∃ c', c.cacheScanCursor cursor = some (fnv1a cursor, c') ∧
      c'.Follows (Connection.recent (past ++ [cursor])) := by
  have hpush := h.push cursor
  have hlength := congrArg List.length hpush.hashes
  rw [length_map, length_map, length_append, length_singleton,
    Connection.recent, length_drop] at hlength
  have hwindow : recent (past ++ [cursor])
      = past.drop (past.length + 1 - 100) ++ [cursor] := by
    rw [recent, length_append, length_singleton, drop_append_of_le_length (by omega)]
  rw [CursorCache.cacheScanCursor]
  by_cases hfull : 100 < (c.push cursor).scanCursorList.length
  · have hstart : past.length - 100 < past.length := by omega
    rw [recent, drop_eq_getElem_cons hstart, cons_append,
      show past.length - 100 + 1 = past.length + 1 - 100 by omega, ← hwindow] at hpush
    have hsub :
        past[past.length - 100] :: recent (past ++ [cursor]) ⊆ past ++ [cursor] :=
      cons_subset.mpr ⟨mem_append_left _ (getElem_mem _), recent_subset _⟩
    obtain ⟨c', hpop, hfollows⟩ := hpush.popFront (hdist.mono hsub)
    rw [if_pos hfull, hpop]
    exact ⟨c', rfl, hfollows⟩
  · rw [if_neg hfull, hwindow, show past.length + 1 - 100 = past.length - 100 by omega]
    exact ⟨_, rfl, hpush⟩

end CursorCache.Follows

/-- **Over every sequence of calls** the map and the list stay in step, no pointer is followed to an
erased node, and what is found are the last hundred contents. -/
theorem cursors_remembered (calls : List CursorCall)
    (hdist : Distinguished (CursorCall.contents calls)) : ∃ c, CursorCall.run calls = some c ∧
      c.Remembers (recent (CursorCall.contents calls)) := by
  suffices h : ∃ c, CursorCall.run calls = some c ∧
      c.Follows (recent (CursorCall.contents calls)) by
    obtain ⟨c, hrun, hfollows⟩ := h
    refine ⟨c, hrun, hfollows.remembers (hdist.mono (recent_subset _)) ?_⟩
    rw [recent, length_drop]
    omega
  induction calls using List.reverseRecOn with
  | nil => exact ⟨{}, rfl, rfl, nofun, nofun⟩
  | append_singleton calls call ih =>
    have hcontents : CursorCall.contents (calls ++ [call])
        = CursorCall.contents calls ++ CursorCall.contents [call] := filterMap_append ..
    rw [hcontents] at hdist ⊢
    obtain ⟨c, hrun, hfollows⟩ := ih (hdist.mono (subset_append_left ..))
    have hnext : CursorCall.run (calls ++ [call]) = CursorCall.step c call := by
      rw [CursorCall.run, foldlM_append, ← CursorCall.run, hrun]
      simp
    rw [hnext]
    cases call with
    | find cursorId =>
      rw [show CursorCall.contents [.find cursorId] = [] from rfl, append_nil]
      exact ⟨c, rfl, hfollows⟩
    | cache cursor =>
      obtain ⟨c', hcache, hfollows'⟩ := hfollows.cacheScanCursor hdist
      exact ⟨c', by rw [CursorCall.step, hcache]; rfl, hfollows'⟩

/-- A content cached twice is still there when its first pointer has gone. -/
theorem cursor_cached_twice :
    let calls :=
      CursorCall.cache [97] :: List.replicate 99 (.cache [98]) ++ [.cache [97], .cache [98]]
    Distinguished (CursorCall.contents calls) ∧ ∃ c, CursorCall.run calls = some c ∧
      c.Remembers (recent (CursorCall.contents calls)) := by
  intro calls
  have hdist : Distinguished (CursorCall.contents calls) := by
    unfold Distinguished
    decide +kernel
  exact ⟨hdist, cursors_remembered calls hdist⟩

end EloqKV.Connection
