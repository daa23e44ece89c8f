/-
  Namespace tokens (`include/namespace/token.h`, `include/base64url.h`).

  A token is sixteen raw bytes; a client presents it as the 22 characters of their unpadded
  base64url text.  Two tokens are compared by their bytes.
-/
import EloqKV.Bytes

namespace EloqKV

/-! ## base64url -/

/-- `char_to_val` of `Base64UrlDecode`; `none` is its `-1`. -/
def charToVal (c : UInt8) : Option UInt32 :=
  if 65 ≤ c ∧ c ≤ 90 then some (c - 65).toUInt32
  else if 97 ≤ c ∧ c ≤ 122 then some ((c - 97).toUInt32 + 26)
  else if 48 ≤ c ∧ c ≤ 57 then some ((c - 48).toUInt32 + 52)
  else if c = 45 then some 62
  else if c = 95 then some 63
  else none

/-- The loop of `Base64UrlDecode`: the window, the pending bits and the bytes so far. -/
def base64UrlDecodeLoop (dstLen : Nat) :
    Bytes → UInt32 → Nat → Bytes → Option (UInt32 × Nat × Bytes)
  | [], val, bits, out => some (val, bits, out)
  | c :: cs, val, bits, out =>
    match charToVal c with
    | none => none
    | some code =>
      let val := (val <<< 6) ||| code
      if 8 ≤ bits + 6 then
        let bits := bits + 6 - 8
        if dstLen ≤ out.length then none
        else base64UrlDecodeLoop dstLen cs val bits (out ++ [(val >>> UInt32.ofNat bits).toUInt8])
      else base64UrlDecodeLoop dstLen cs val (bits + 6) out

/-- `Base64UrlDecode`; `none` is `false`, and what a failing call has written is dropped. -/
def base64UrlDecode (src : Bytes) (dstLen : Nat) : Option Bytes :=
  if src.length % 4 = 1 then none
  else
    match base64UrlDecodeLoop dstLen src 0 0 [] with
    | none => none
    | some (val, bits, out) =>
      if 0 < bits ∧ val &&& ((1 <<< UInt32.ofNat bits) - 1) ≠ 0 then none
      else if out.length = dstLen then some out
      else none

/-- The table `lookup` of `Base64UrlEncode`. -/
def base64UrlLookup (v : UInt32) : UInt8 :=
  if v < 26 then v.toUInt8 + 65
  else if v < 52 then v.toUInt8 - 26 + 97
  else if v < 62 then v.toUInt8 - 52 + 48
  else if v = 62 then 45
  else 95

/-- `Base64UrlEncode`: three bytes at a time, then the one or two bytes left over. -/
def base64UrlEncode : Bytes → Bytes
  | b₀ :: b₁ :: b₂ :: rest =>
    let val := (b₀.toUInt32 <<< 16) ||| (b₁.toUInt32 <<< 8) ||| b₂.toUInt32
    base64UrlLookup ((val >>> 18) &&& 63) :: base64UrlLookup ((val >>> 12) &&& 63)
      :: base64UrlLookup ((val >>> 6) &&& 63) :: base64UrlLookup (val &&& 63)
      :: base64UrlEncode rest
  | [b₀, b₁] =>
    let val := (b₀.toUInt32 <<< 16) ||| (b₁.toUInt32 <<< 8)
    [base64UrlLookup ((val >>> 18) &&& 63), base64UrlLookup ((val >>> 12) &&& 63),
      base64UrlLookup ((val >>> 6) &&& 63)]
  | [b₀] =>
    let val := b₀.toUInt32 <<< 16
    [base64UrlLookup ((val >>> 18) &&& 63), base64UrlLookup ((val >>> 12) &&& 63)]
  | [] => []

/-! ## Tokens -/

/-- `NamespaceToken`: `uint8_t bytes[16]` and the validity flag. -/
structure NamespaceToken where
  bytes : Bytes
  size_eq : bytes.length = 16
  valid : Bool
  deriving DecidableEq

namespace NamespaceToken

def empty : NamespaceToken where
  bytes := List.replicate 16 0
  size_eq := by simp
  valid := false

/-- `NamespaceToken(std::string_view raw_bytes)`. -/
def ofRaw (raw : Bytes) : NamespaceToken :=
  if h : raw.length = 16 then ⟨raw, h, true⟩ else empty

def fromBase64Url (b64 : Bytes) : NamespaceToken :=
  if b64.length = 22 then
    match base64UrlDecode b64 16 with
    | some raw => ofRaw raw
    | none => empty
  else empty

/-- `NamespaceToken::ToString`: the base64url text, empty for an invalid token. -/
def toText (t : NamespaceToken) : Bytes :=
  if t.valid then base64UrlEncode t.bytes else []

/-- `GenerateRandomToken` on sixteen random bytes, with the bits of a version 4 UUID. -/
def generateRandomToken (random : Bytes) : NamespaceToken :=
  ofRaw ((random.modify 6 fun b => (b &&& 0x0f) ||| 0x40).modify 8 fun b => (b &&& 0x3f) ||| 0x80)

/-- The loops around `GenerateRandomToken`: the first draw that is not `forbidden`, if there is one.
-/
def drawToken (forbidden : List Bytes) : List Bytes → Option NamespaceToken
  | [] => none
  | random :: draws =>
    let token := generateRandomToken random
    if token.toText ∈ forbidden then drawToken forbidden draws else some token

end NamespaceToken

end EloqKV
