/-
  LZF decompression (`LzfDecompress` in `src/redis_rdb_restore.cpp`).

  A control byte below 32 announces literals; any other one holds the upper bits of a distance and a
  length, where the length 7 means that an extension byte follows, and the lower bits of the
  distance come last.  The decoder checks both pointers before it moves them, except once: between
  the extension byte of a match and the byte of its distance.
-/
import EloqKV.Bytes
import EloqKV.Lib.BackReference
import EloqKV.Lib.Reader

open List hiding Cursor

namespace EloqKV.Rdb

open Lib.BackReference (cycle repeatFrom)
open Lib.Reader (Cursor Outcome Read)
open Lib.Reader.Read

/-! ## The decoder -/

/-- `kMaxLzfDecodedLength`. -/
def maxLzfDecodedLength : Nat := 64 * 1024 * 1024

/-- `memcpy` to the output.  To write behind the buffer is a fault. -/
def writeOut (limit : Nat) (out bytes : Bytes) : Read Bytes :=
  if out.length + bytes.length ≤ limit then pure (out ++ bytes) else fault

/-- `while (len-- != 0) *out++ = *ref++`, with a fault outside of what was written or the buffer. -/
def copyOut (limit : Nat) : Nat → Nat → Bytes → Read Bytes
  | 0, _, out => pure out
  | len + 1, ref, out =>
    match out[ref]? with
    | none => fault
    | some b => if out.length < limit then copyOut limit len (ref + 1) (out ++ [b]) else fault

def lzfLiteral (limit : Nat) (out : Bytes) (ctrl : UInt8) : Read Bytes := do
  let literalLen := ctrl.toNat + 1
  let left ← remaining
  check (literalLen ≤ left ∧ literalLen ≤ limit - out.length)
  let literals ← block literalLen
  writeOut limit out literals

/-- What the extension byte adds to the length of a match, for the length that has one. -/
def lzfExtension (ctrl : UInt8) : Read Nat :=
  if ctrl.toNat / 32 = 7 then do
    let left ← remaining
    check (0 < left)
    let ext ← byte
    pure ext.toNat
  else pure 0

def lzfMatch (limit : Nat) (out : Bytes) (ctrl : UInt8) : Read Bytes := do
  let left ← remaining
  check (0 < left ∧ out ≠ [])
  let extension ← lzfExtension ctrl
  -- this byte is read whether or not it is there
  let low ← byte
  let refOffset := ctrl.toNat % 32 * 256 + low.toNat
  let len := ctrl.toNat / 32 + extension + 2
  check (refOffset + 1 ≤ out.length ∧ len ≤ limit - out.length)
  copyOut limit len (out.length - refOffset - 1) out

/-- One round of the loop. -/
def lzfToken (limit : Nat) (out : Bytes) : Read Bytes := do
  let ctrl ← byte
  if ctrl.toNat < 32 then lzfLiteral limit out ctrl else lzfMatch limit out ctrl

/-- `while (in < in_end)`. -/
def lzfLoop (limit : Nat) : Nat → Bytes → Read Bytes
  | 0, _ => fault
  | fuel + 1, out => do
    let left ← remaining
    if left = 0 then do
      check (out.length = limit)
      pure out
    else do
      let out ← lzfToken limit out
      lzfLoop limit fuel out

/-- `LzfDecompress`: the output, if it returns true. -/
def lzfDecompress (compressed : Bytes) (expectedLen : Nat) : Outcome Bytes :=
  if maxLzfDecodedLength < expectedLen then .fail
  else (lzfLoop expectedLen (compressed.length + 1) [] (.at compressed)).1

/-! ## Streams -/

inductive Token where
  | literal (bytes : Bytes) (hbytes : 1 ≤ bytes.length ∧ bytes.length ≤ 32)
  | short (len refOffset : Nat) (hlen : 1 ≤ len ∧ len ≤ 6) (hoffset : refOffset < 2 ^ 13)
  | extended (ext : UInt8) (refOffset : Nat) (hoffset : refOffset < 2 ^ 13)

open Token

namespace Token

def encode : Token → Bytes
  | literal bytes _ => UInt8.ofNat (bytes.length - 1) :: bytes
  | short len refOffset _ _ =>
    [UInt8.ofNat (len * 32 + refOffset / 256), UInt8.ofNat (refOffset % 256)]
  | extended ext refOffset _ =>
    [UInt8.ofNat (7 * 32 + refOffset / 256), ext, UInt8.ofNat (refOffset % 256)]

/-- A reference to what was written `refOffset + 1` bytes ago, if there is that much. -/
def reference (out : Bytes) (refOffset len : Nat) : Option Bytes :=
  if refOffset < out.length then
    some (out ++ cycle (out.drop (out.length - refOffset - 1)) len)
  else none

def expand (out : Bytes) : Token → Option Bytes
  | literal bytes _ => some (out ++ bytes)
  | short len refOffset _ _ => reference out refOffset (len + 2)
  | extended ext refOffset _ => reference out refOffset (7 + ext.toNat + 2)

end Token

def encodeStream (tokens : List Token) : Bytes := tokens.flatMap encode

def expandStream (tokens : List Token) (out : Bytes) : Option Bytes :=
  tokens.foldlM expand out

/-- The input is a well-formed stream that expands to `out`. -/
def Expands (input out : Bytes) : Prop :=
  ∃ tokens, input = encodeStream tokens ∧ expandStream tokens [] = some out

/-- The input ends behind the extension byte of a match, after tokens that fit the buffer. -/
def CutMatch (input : Bytes) (limit : Nat) : Prop :=
  ∃ tokens out ctrl ext, input = encodeStream tokens ++ [ctrl, ext] ∧ 7 * 32 ≤ ctrl.toNat ∧
    expandStream tokens [] = some out ∧ out ≠ [] ∧ out.length ≤ limit

/-! ## One token -/

variable {out out' : Bytes}

lemma copyOut_eq {limit len ref : Nat}
    (hcopy : repeatFrom len ref out = some out') (hroom : out.length + len ≤ limit) (c : Cursor) :
    copyOut limit len ref out c = (.ok out', c) := by
  induction len generalizing ref out with
  | zero =>
    cases hcopy
    rfl
  | succ len ih =>
    obtain ⟨b, hb, hcopy⟩ := Option.bind_eq_some_iff.mp hcopy
    have hlen : (out ++ [b]).length = out.length + 1 := by simp
    rw [copyOut, hb]
    simp only
    rw [if_pos (by omega)]
    exact ih hcopy (by omega)

lemma length_reference {refOffset len : Nat}
    (h : reference out refOffset len = some out') : out'.length = out.length + len := by
  unfold reference at h
  split at h
  · rename_i hlt
    have hne : out.drop (out.length - refOffset - 1) ≠ [] := by
      intro hnil
      have hlen := congrArg List.length hnil
      rw [length_drop, length_nil] at hlen
      omega
    cases h
    rw [length_append, Lib.BackReference.length_cycle hne]
  · exact absurd h (by simp)

variable {out : Bytes} {limit : Nat}

lemma followReference (hout : out.length ≤ limit) (refOffset len : Nat) (c : Cursor) :
    (∀ out', reference out refOffset len = some out' → out'.length ≤ limit →
      (check (refOffset + 1 ≤ out.length ∧ len ≤ limit - out.length) >>= fun _ =>
        copyOut limit len (out.length - refOffset - 1) out) c = (.ok out', c)) ∧
    ((∀ out', reference out refOffset len = some out' → limit < out'.length) →
      ((check (refOffset + 1 ≤ out.length ∧ len ≤ limit - out.length) >>= fun _ =>
        copyOut limit len (out.length - refOffset - 1) out) c).1 = .fail) := by
  constructor
  · intro out' href hfits
    have hlen := length_reference href
    unfold reference at href
    split at href
    · cases href
      rw [check_bind (by omega)]
      exact copyOut_eq (Lib.BackReference.repeatFrom_eq (by omega) len) (by omega) c
    · exact absurd href (by simp)
  · intro hbig
    rw [check_bind_false (fun hok => ?_)]
    have href : reference out refOffset len
        = some (out ++ cycle (out.drop (out.length - refOffset - 1)) len) :=
      if_pos (by omega)
    have hlen := length_reference href
    have := hbig _ href
    omega

variable {ctrl : UInt8}

lemma lzfExtension_of_ne (hctrl : ctrl.toNat / 32 ≠ 7) (c : Cursor) :
    lzfExtension ctrl c = (.ok 0, c) := by
  rw [lzfExtension, if_neg hctrl, pure_run]

lemma lzfExtension_of_eq (hctrl : ctrl.toNat / 32 = 7) (ext : UInt8) (rest : Bytes) (o : Bool) :
    lzfExtension ctrl ⟨ext :: rest, o⟩ = (.ok ext.toNat, ⟨rest, o⟩) := by
  rw [lzfExtension, if_pos hctrl, remaining_bind, check_bind (by simp), byte_bind, pure_run]

lemma lzfMatch_nil (limit : Nat) (ctrl : UInt8) (c : Cursor) :
    lzfMatch limit [] ctrl c = (.fail, c) := by
  rw [lzfMatch, remaining_bind, check_bind_false (by simp)]

lemma toNat_ofNat {n : Nat} (hn : n < 256) : (UInt8.ofNat n).toNat = n :=
  UInt8.toNat_ofNat_of_lt' hn

lemma encode_ne_nil (t : Token) : t.encode ≠ [] := by
  cases t <;> simp [encode]

/-- **A token is decoded to its expansion**, if that fits the buffer, and refused otherwise. -/
theorem lzfToken_encode (hout : out.length ≤ limit) (t : Token) (rest : Bytes) (o : Bool) :
    (∀ out', t.expand out = some out' → out'.length ≤ limit →
      lzfToken limit out ⟨t.encode ++ rest, o⟩ = (.ok out', ⟨rest, o⟩)) ∧
    ((∀ out', t.expand out = some out' → limit < out'.length) →
      (lzfToken limit out ⟨t.encode ++ rest, o⟩).1 = .fail) := by
  cases t with
  | literal bytes hbytes =>
    have hctrl : (UInt8.ofNat (bytes.length - 1)).toNat = bytes.length - 1 := toNat_ofNat (by omega)
    have hlen : bytes.length - 1 + 1 = bytes.length := by omega
    have hread : ∀ out' : Bytes, (lzfToken limit out
        ⟨(literal bytes hbytes).encode ++ rest, o⟩)
          = lzfLiteral limit out (UInt8.ofNat (bytes.length - 1)) ⟨bytes ++ rest, o⟩ := by
      intro _
      rw [lzfToken, encode, cons_append, byte_bind]
      simp only [hctrl]
      rw [if_pos (by omega)]
    constructor
    · intro out' hexpand hfits
      cases hexpand
      rw [length_append] at hfits
      rw [hread out, lzfLiteral, remaining_bind, hctrl, hlen, check_bind ⟨by simp, by omega⟩,
        bind_of_ok (block_append bytes rest o), writeOut, if_pos hfits, pure_run]
    · intro hbig
      have := hbig _ rfl
      rw [length_append] at this
      rw [hread out, lzfLiteral, remaining_bind, hctrl, hlen, check_bind_false (by omega)]
  | short len refOffset hlen hoffset =>
    have hctrl : (UInt8.ofNat (len * 32 + refOffset / 256)).toNat = len * 32 + refOffset / 256 :=
      toNat_ofNat (by omega)
    have hlow : (UInt8.ofNat (refOffset % 256)).toNat = refOffset % 256 := toNat_ofNat (by omega)
    have hquot : (len * 32 + refOffset / 256) / 32 = len := by omega
    have hoff : (len * 32 + refOffset / 256) % 32 * 256 + refOffset % 256 = refOffset := by omega
    rw [lzfToken, encode, cons_append, cons_append, nil_append, byte_bind]
    simp only [hctrl]
    rw [if_neg (by omega)]
    by_cases hnil : out = []
    · subst hnil
      rw [lzfMatch_nil]
      exact ⟨fun out' hexpand _ => absurd hexpand (by simp [expand, reference]),
        fun _ => rfl⟩
    · rw [lzfMatch, remaining_bind, check_bind ⟨by simp, hnil⟩,
        bind_of_ok (lzfExtension_of_ne (by omega) _), byte_bind, hctrl, hlow, hquot, hoff]
      exact followReference hout refOffset (len + 2) ⟨rest, o⟩
  | extended ext refOffset hoffset =>
    have hctrl : (UInt8.ofNat (7 * 32 + refOffset / 256)).toNat = 7 * 32 + refOffset / 256 :=
      toNat_ofNat (by omega)
    have hlow : (UInt8.ofNat (refOffset % 256)).toNat = refOffset % 256 := toNat_ofNat (by omega)
    have hquot : (7 * 32 + refOffset / 256) / 32 = 7 := by omega
    have hoff : (7 * 32 + refOffset / 256) % 32 * 256 + refOffset % 256 = refOffset := by omega
    rw [lzfToken, encode, cons_append, cons_append, cons_append, nil_append, byte_bind]
    simp only [hctrl]
    rw [if_neg (by omega)]
    by_cases hnil : out = []
    · subst hnil
      rw [lzfMatch_nil]
      exact ⟨fun out' hexpand _ => absurd hexpand (by simp [expand, reference]),
        fun _ => rfl⟩
    · rw [lzfMatch, remaining_bind, check_bind ⟨by simp, hnil⟩,
        bind_of_ok (lzfExtension_of_eq (by omega) _ _ _), byte_bind, hctrl, hlow, hoff,
        show (7 * 32 + refOffset / 256) / 32 = 7 by omega]
      exact followReference hout refOffset (7 + ext.toNat + 2) ⟨rest, o⟩

/-! ## Inputs that are cut off -/

lemma token_or_cut (ctrl : UInt8) (rest : Bytes) :
    (∃ (t : Token) (rest' : Bytes), ctrl :: rest = t.encode ++ rest') ∨
      (ctrl.toNat < 32 ∧ rest.length < ctrl.toNat + 1) ∨ (32 ≤ ctrl.toNat ∧ rest = []) ∨
      (7 * 32 ≤ ctrl.toNat ∧ ∃ ext, rest = [ext]) := by
  have hctrl := ctrl.toNat_lt
  by_cases hlit : ctrl.toNat < 32
  · by_cases hlen : rest.length < ctrl.toNat + 1
    · exact .inr (.inl ⟨hlit, hlen⟩)
    · left
      have htake : (rest.take (ctrl.toNat + 1)).length = ctrl.toNat + 1 := by
        rw [length_take]
        omega
      refine ⟨.literal (rest.take (ctrl.toNat + 1)) (by omega), rest.drop (ctrl.toNat + 1), ?_⟩
      rw [encode, htake, Nat.add_sub_cancel, UInt8.ofNat_toNat, cons_append, take_append_drop]
  · match rest with
    | [] => exact .inr (.inr (.inl ⟨by omega, rfl⟩))
    | b :: rest =>
      have hb := b.toNat_lt
      by_cases hshort : ctrl.toNat / 32 = 7
      · match rest with
        | [] => exact .inr (.inr (.inr ⟨by omega, b, rfl⟩))
        | low :: rest =>
          have hlow := low.toNat_lt
          refine .inl ⟨.extended b (ctrl.toNat % 32 * 256 + low.toNat) (by omega), rest, ?_⟩
          have h₁ : 7 * 32 + (ctrl.toNat % 32 * 256 + low.toNat) / 256 = ctrl.toNat := by omega
          have h₂ : (ctrl.toNat % 32 * 256 + low.toNat) % 256 = low.toNat := by omega
          rw [encode, h₁, h₂, UInt8.ofNat_toNat, UInt8.ofNat_toNat]
          rfl
      · refine .inl ⟨.short (ctrl.toNat / 32) (ctrl.toNat % 32 * 256 + b.toNat) (by omega)
          (by omega), rest, ?_⟩
        have h₁ : ctrl.toNat / 32 * 32 + (ctrl.toNat % 32 * 256 + b.toNat) / 256 = ctrl.toNat := by
          omega
        have h₂ : (ctrl.toNat % 32 * 256 + b.toNat) % 256 = b.toNat := by omega
        rw [encode, h₁, h₂, UInt8.ofNat_toNat, UInt8.ofNat_toNat]
        rfl

lemma lzfToken_cut_literal {rest : Bytes} (hctrl : ctrl.toNat < 32)
    (hrest : rest.length < ctrl.toNat + 1) (limit : Nat) (out : Bytes) (o : Bool) :
    (lzfToken limit out ⟨ctrl :: rest, o⟩).1 = .fail := by
  rw [lzfToken, byte_bind]
  simp only [if_pos hctrl]
  rw [lzfLiteral, remaining_bind, check_bind_false (fun h => Nat.not_le.mpr hrest h.1)]

lemma lzfToken_cut_match (hctrl : 32 ≤ ctrl.toNat) (limit : Nat) (out : Bytes)
    (o : Bool) : (lzfToken limit out ⟨[ctrl], o⟩).1 = .fail := by
  rw [lzfToken, byte_bind]
  simp only [if_neg (Nat.not_lt.mpr hctrl)]
  rw [lzfMatch, remaining_bind, check_bind_false (by simp)]

theorem lzfToken_cut_extended (hctrl : 7 * 32 ≤ ctrl.toNat) (ext : UInt8)
    (limit : Nat) (out : Bytes) (o : Bool) :
    (lzfToken limit out ⟨[ctrl, ext], o⟩).1 = if out = [] then .fail else .fault := by
  have hlt := ctrl.toNat_lt
  rw [lzfToken, byte_bind, if_neg (by omega)]
  by_cases hnil : out = []
  · subst hnil
    rw [lzfMatch_nil, if_pos rfl]
  · rw [lzfMatch, remaining_bind, check_bind ⟨by simp, hnil⟩,
      bind_of_ok (lzfExtension_of_eq (by omega) ext [] o), if_neg hnil]
    rfl

/-- One round reads one token, or finds the input cut inside of it. -/
theorem lzfToken_cases (hout : out.length ≤ limit) (ctrl : UInt8) (rest : Bytes) (o : Bool) :
    (∀ mid c, lzfToken limit out ⟨ctrl :: rest, o⟩ = (.ok mid, c) → ∃ (t : Token) (rest' : Bytes),
      ctrl :: rest = t.encode ++ rest' ∧ t.expand out = some mid ∧ mid.length ≤ limit ∧
        c = ⟨rest', o⟩) ∧
    ((lzfToken limit out ⟨ctrl :: rest, o⟩).1 = .fault →
      7 * 32 ≤ ctrl.toNat ∧ (∃ ext, rest = [ext]) ∧ out ≠ []) := by
  -- a round that is refused proves both parts
  have hrefused : (lzfToken limit out ⟨ctrl :: rest, o⟩).1 = .fail →
      (∀ mid c, lzfToken limit out ⟨ctrl :: rest, o⟩ ≠ (.ok mid, c)) ∧
        (lzfToken limit out ⟨ctrl :: rest, o⟩).1 ≠ .fault := by
    intro hfail
    refine ⟨fun mid c h => ?_, fun h => ?_⟩
    · rw [h] at hfail
      exact nomatch hfail
    · rw [h] at hfail
      exact nomatch hfail
  rcases token_or_cut ctrl rest with ⟨t, rest', hsplit⟩ | ⟨hctrl, hcut⟩ | ⟨hctrl, rfl⟩ |
    ⟨hctrl, ext, rfl⟩
  · obtain ⟨hdecoded, hbig⟩ := lzfToken_encode hout t rest' o
    rw [← hsplit] at hdecoded hbig
    by_cases hfits : ∃ out', t.expand out = some out' ∧ out'.length ≤ limit
    · obtain ⟨out', hexpand, hlen⟩ := hfits
      have hrun := hdecoded out' hexpand hlen
      refine ⟨fun mid c h => ⟨t, rest', hsplit, ?_⟩, fun h => ?_⟩
      · obtain ⟨hmid, hc⟩ := Prod.mk.injEq .. ▸ hrun.symm.trans h
        cases hmid
        exact ⟨hexpand, hlen, hc.symm⟩
      · rw [hrun] at h
        exact nomatch h
    · obtain ⟨hok, hfault⟩ := hrefused (hbig fun out' hexpand =>
        Nat.lt_of_not_le fun hle => hfits ⟨out', hexpand, hle⟩)
      exact ⟨fun mid c h => absurd h (hok mid c), fun h => absurd h hfault⟩
  · obtain ⟨hok, hfault⟩ := hrefused (lzfToken_cut_literal hctrl hcut limit out o)
    exact ⟨fun mid c h => absurd h (hok mid c), fun h => absurd h hfault⟩
  · obtain ⟨hok, hfault⟩ := hrefused (lzfToken_cut_match hctrl limit out o)
    exact ⟨fun mid c h => absurd h (hok mid c), fun h => absurd h hfault⟩
  · have hrun := lzfToken_cut_extended hctrl ext limit out o
    by_cases hnil : out = []
    · rw [if_pos hnil] at hrun
      obtain ⟨hok, hfault⟩ := hrefused hrun
      exact ⟨fun mid c h => absurd h (hok mid c), fun h => absurd h hfault⟩
    · rw [if_neg hnil] at hrun
      refine ⟨fun mid c h => ?_, fun _ => ⟨hctrl, ⟨ext, rfl⟩, hnil⟩⟩
      rw [h] at hrun
      exact nomatch hrun

/-! ## The loop -/

lemma length_le_of_expandStream {tokens : List Token}
    (h : expandStream tokens out = some out') : out.length ≤ out'.length := by
  induction tokens generalizing out with
  | nil =>
    cases h
    exact Nat.le_refl _
  | cons t tokens ih =>
    obtain ⟨mid, hmid, h⟩ := Option.bind_eq_some_iff.mp h
    have hstep : out.length ≤ mid.length := by
      cases t with
      | literal bytes hbytes =>
        cases hmid
        simp
      | _ => exact length_reference hmid ▸ Nat.le_add_right _ _
    exact Nat.le_trans hstep (ih h)

lemma length_le_encodeStream (tokens : List Token) :
    tokens.length ≤ (encodeStream tokens).length := by
  induction tokens with
  | nil => exact Nat.le_refl _
  | cons t tokens ih =>
    have hpos := length_pos_of_ne_nil (encode_ne_nil t)
    rw [encodeStream, flatMap_cons, length_append, length_cons]
    rw [encodeStream] at ih
    omega

lemma lzfLoop_nil (limit fuel : Nat) (out : Bytes) (o : Bool) :
    lzfLoop limit (fuel + 1) out ⟨[], o⟩
      = (if out.length = limit then .ok out else .fail, ⟨[], o⟩) := by
  rw [lzfLoop, remaining_bind]
  simp only [length_nil, if_true]
  by_cases hlen : out.length = limit
  · rw [check_bind hlen, pure_run, if_pos hlen]
  · rw [check_bind_false hlen, if_neg hlen]

lemma lzfLoop_cons {limit fuel : Nat} {b : UInt8} {rest : Bytes} {o : Bool} :
    lzfLoop limit (fuel + 1) out ⟨b :: rest, o⟩
      = (lzfToken limit out >>= lzfLoop limit fuel) ⟨b :: rest, o⟩ := by
  rw [lzfLoop, remaining_bind, if_neg (by simp)]

lemma lzfLoop_append {tokens : List Token}
    (hexpand : expandStream tokens out = some out') (hfits : out'.length ≤ limit) (fuel : Nat)
    (rest : Bytes) (o : Bool) :
    lzfLoop limit (fuel + tokens.length) out ⟨encodeStream tokens ++ rest, o⟩
      = lzfLoop limit fuel out' ⟨rest, o⟩ := by
  induction tokens generalizing out with
  | nil =>
    cases hexpand
    rfl
  | cons t tokens ih =>
    have hall := length_le_of_expandStream hexpand
    obtain ⟨mid, hmid, hrest⟩ := Option.bind_eq_some_iff.mp hexpand
    have hlen := length_le_of_expandStream hrest
    have hout : out.length ≤ limit := by omega
    have htoken := (lzfToken_encode hout t (encodeStream tokens ++ rest) o).1 mid hmid (by omega)
    rw [encodeStream, flatMap_cons, append_assoc, ← encodeStream]
    obtain ⟨b, bytes, hb⟩ := exists_cons_of_ne_nil (encode_ne_nil t)
    rw [hb, cons_append] at htoken ⊢
    rw [length_cons, ← Nat.add_assoc, lzfLoop_cons, bind_of_ok htoken]
    exact ih hrest

/-- By induction on the tokens read.  Only a long match cut in front of its offset reads outside. -/
theorem lzfLoop_cases {limit fuel : Nat} {out input : Bytes} (hout : out.length ≤ limit)
    (hfuel : input.length < fuel) (o : Bool) :
    (∀ out', (lzfLoop limit fuel out ⟨input, o⟩).1 = .ok out' → ∃ tokens,
      input = encodeStream tokens ∧ expandStream tokens out = some out' ∧ out'.length = limit) ∧
    ((lzfLoop limit fuel out ⟨input, o⟩).1 = .fault → ∃ tokens out' ctrl ext,
      input = encodeStream tokens ++ [ctrl, ext] ∧ 7 * 32 ≤ ctrl.toNat ∧
        expandStream tokens out = some out' ∧ out' ≠ [] ∧ out'.length ≤ limit) := by
  induction fuel generalizing out input with
  | zero => exact absurd hfuel (Nat.not_lt_zero _)
  | succ fuel ih =>
    match input with
    | [] =>
      rw [lzfLoop_nil]
      by_cases hlen : out.length = limit
      · rw [if_pos hlen]
        refine ⟨fun out' h => ?_, nofun⟩
        cases h
        exact ⟨[], rfl, rfl, hlen⟩
      · rw [if_neg hlen]
        exact ⟨fun out' h => (nomatch h), nofun⟩
    | b :: rest =>
      obtain ⟨htoken, hcut⟩ := lzfToken_cases hout b rest o
      rw [lzfLoop_cons]
      rcases hrun : lzfToken limit out ⟨b :: rest, o⟩ with ⟨mid | _ | _, c⟩
      · -- a whole token, and the rest of the input by induction
        obtain ⟨t, rest', hsplit, hexpand, hlen, rfl⟩ := htoken mid c hrun
        have hshorter : rest'.length < fuel := by
          have hpos := length_pos_of_ne_nil (encode_ne_nil t)
          have := congrArg List.length hsplit
          rw [length_append] at this
          omega
        obtain ⟨hok, hfault⟩ := ih hlen hshorter
        rw [bind_of_ok hrun]
        constructor
        · intro out' h
          obtain ⟨tokens, hrest, htokens, hlimit⟩ := hok out' h
          refine ⟨t :: tokens, ?_, Option.bind_eq_some_iff.mpr ⟨mid, hexpand, htokens⟩, hlimit⟩
          rw [hsplit, hrest]
          rfl
        · intro h
          obtain ⟨tokens, out', ctrl, ext, hrest, hctrl, htokens, hne, hlimit⟩ := hfault h
          refine ⟨t :: tokens, out', ctrl, ext, ?_, hctrl,
            Option.bind_eq_some_iff.mpr ⟨mid, hexpand, htokens⟩, hne, hlimit⟩
          rw [hsplit, hrest, ← append_assoc]
          rfl
      · rw [bind_of_fail hrun]
        exact ⟨fun out' h => (nomatch h), nofun⟩
      · rw [bind_of_fault hrun]
        refine ⟨fun out' h => (nomatch h), fun _ => ?_⟩
        obtain ⟨hctrl, ⟨ext, rfl⟩, hne⟩ := hcut (congrArg Prod.fst hrun)
        exact ⟨[], out, b, ext, rfl, hctrl, rfl, hne, hout⟩

/-! ## The whole function -/

variable {expectedLen : Nat}

lemma lzfDecompress_of_le (hmax : expectedLen ≤ maxLzfDecodedLength) (compressed : Bytes) :
    lzfDecompress compressed expectedLen
      = (lzfLoop expectedLen (compressed.length + 1) [] (.at compressed)).1 := by
  rw [lzfDecompress, if_neg (Nat.not_lt.mpr hmax)]

lemma lzfDecompress_eq_ok (hmax : expectedLen ≤ maxLzfDecodedLength) (compressed out : Bytes) :
    lzfDecompress compressed expectedLen = .ok out
      ↔ Expands compressed out ∧ out.length = expectedLen := by
  rw [lzfDecompress_of_le hmax]
  constructor
  · intro h
    obtain ⟨tokens, hinput, hexpand, hlen⟩ :=
      (lzfLoop_cases (Nat.zero_le _) (Nat.lt_succ_self _) false).1 out h
    exact ⟨⟨tokens, hinput, hexpand⟩, hlen⟩
  · rintro ⟨⟨tokens, rfl, hexpand⟩, hlen⟩
    have hfuel := length_le_encodeStream tokens
    have hrun := lzfLoop_append hexpand (Nat.le_of_eq hlen)
      ((encodeStream tokens).length - tokens.length + 1) [] false
    have hsum : (encodeStream tokens).length - tokens.length + 1 + tokens.length
        = (encodeStream tokens).length + 1 := by omega
    rw [hsum, append_nil] at hrun
    rw [Lib.Reader.Cursor.at, hrun, lzfLoop_nil, if_pos hlen]

lemma lzfDecompress_eq_fault (hmax : expectedLen ≤ maxLzfDecodedLength) (compressed : Bytes) :
    lzfDecompress compressed expectedLen = .fault ↔ CutMatch compressed expectedLen := by
  rw [lzfDecompress_of_le hmax]
  constructor
  · intro h
    exact (lzfLoop_cases (Nat.zero_le _) (Nat.lt_succ_self _) false).2 h
  · rintro ⟨tokens, out, ctrl, ext, rfl, hctrl, hexpand, hne, hlen⟩
    have hfuel := length_le_encodeStream tokens
    have hrun := lzfLoop_append hexpand hlen ((encodeStream tokens).length - tokens.length + 2 + 1)
      [ctrl, ext] false
    have hsum : (encodeStream tokens).length - tokens.length + 2 + 1 + tokens.length
        = (encodeStream tokens ++ [ctrl, ext]).length + 1 := by
      simp only [length_append, length_cons, length_nil]
      omega
    have htoken := lzfToken_cut_extended hctrl ext expectedLen out false
    rw [if_neg hne] at htoken
    obtain ⟨c, hc⟩ : ∃ c, lzfToken expectedLen out ⟨[ctrl, ext], false⟩ = (.fault, c) :=
      ⟨_, Prod.ext htoken rfl⟩
    rw [hsum] at hrun
    rw [Lib.Reader.Cursor.at, hrun, lzfLoop_cons, bind_of_fault hc]

/-- The function touches only bytes of the input and of the buffer, and it returns true exactly for
streams that expand to as many bytes as expected, with their expansion as output. -/
def LzfCorrect (compressed : Bytes) (expectedLen : Nat) : Prop :=
  lzfDecompress compressed expectedLen ≠ .fault ∧
    ∀ out, lzfDecompress compressed expectedLen = .ok out
      ↔ Expands compressed out ∧ out.length = expectedLen

/-- **`LzfDecompress` is correct exactly for**: lengths up to its cap and inputs that do not end
behind the extension byte of a match, or lengths above its cap that the input does not expand
to. -/
theorem lzfDecompress_correct_iff (compressed : Bytes) (expectedLen : Nat) :
    LzfCorrect compressed expectedLen ↔
      (expectedLen ≤ maxLzfDecodedLength → ¬CutMatch compressed expectedLen) ∧
      (maxLzfDecodedLength < expectedLen → ∀ out, Expands compressed out →
        out.length ≠ expectedLen) := by
  by_cases hmax : expectedLen ≤ maxLzfDecodedLength
  · have hfault := lzfDecompress_eq_fault hmax compressed
    constructor
    · rintro ⟨hsafe, -⟩
      exact ⟨fun _ hcut => hsafe (hfault.mpr hcut), fun hlt => absurd hmax (Nat.not_le.mpr hlt)⟩
    · rintro ⟨hcut, -⟩
      exact ⟨fun h => hcut hmax (hfault.mp h), lzfDecompress_eq_ok hmax compressed⟩
  · -- above the cap the function returns false at once
    have hlt := Nat.lt_of_not_le hmax
    have hfail : lzfDecompress compressed expectedLen = .fail := if_pos hlt
    constructor
    · rintro ⟨-, hok⟩
      refine ⟨fun hle => absurd hle hmax, fun _ out hexpand hlen => ?_⟩
      rw [hfail] at hok
      exact nomatch (hok out).mpr ⟨hexpand, hlen⟩
    · rintro ⟨-, hnone⟩
      rw [LzfCorrect, hfail]
      refine ⟨fun h => (nomatch h), fun out => ⟨fun h => (nomatch h), ?_⟩⟩
      rintro ⟨hexpand, hlen⟩
      exact absurd hlen (hnone hlt out hexpand)

/-- The control and extension bytes of a match end the input: the byte behind it is read. -/
theorem cut_match_reads_behind_input :
    lzfDecompress [0, 97, 224, 0] 100 = .fault ∧ ¬LzfCorrect [0, 97, 224, 0] 100 := by
  have hfault : lzfDecompress [0, 97, 224, 0] 100 = .fault := by decide +kernel
  exact ⟨hfault, fun h => h.1 hfault⟩

end EloqKV.Rdb
