/-
  Namespace ids, epochs and physical keys (`b255.cpp`, `include/namespace/prefix.h`,
  `include/namespace/context.h`).

  The physical key of a tenant's key is the tenant's prefix `<id>:<epoch>:` followed by the key;
  ids and epochs are written in base 255 with the byte of the delimiter left out of the digits.
-/
import EloqKV.Bytes

namespace EloqKV

/-! ## Base 255 -/

/-- `B255_DELIMITER`, the byte of `':'`. -/
def b255Delimiter : UInt8 := 58

/-- The digit loop of `b255e`, least significant digit last. -/
def b255Digits (fuel temp : Nat) (acc : Bytes) : Bytes :=
  match fuel with
  | 0 => acc
  | fuel + 1 =>
    if temp = 0 then acc
    else
      let digit := temp % 255
      let byte := UInt8.ofNat (if digit < b255Delimiter.toNat then digit else digit + 1)
      b255Digits fuel (temp / 255) (byte :: acc)

/-- `b255e`.  The buffer of the source has nine bytes, enough for any 64-bit value. -/
def b255e (id : Nat) : Bytes :=
  if id = 0 then [0] else b255Digits 9 id []

/-! ## Prefixes -/

def kDefaultNamespace : Bytes := ascii "default"

variable (encodedId : Bytes)

def makePrefix (epoch : Nat) : Bytes :=
  encodedId ++ [b255Delimiter] ++ b255e epoch ++ [b255Delimiter]

@[simp] lemma makePrefix_ne_nil (epoch : Nat) : makePrefix encodedId epoch ≠ [] := by
  simp [makePrefix]

lemma makePrefix_ne_default (epoch : Nat) : makePrefix encodedId epoch ≠ kDefaultNamespace := by
  intro h
  have hlast := congrArg List.getLast? h
  unfold makePrefix at hlast
  rw [List.getLast?_concat] at hlast
  exact absurd hlast (by decide)

/-- `ComposeNamespaceKey`: the physical key of `key` under the namespace prefix `ns`. -/
def composeNamespaceKey (ns key : Bytes) : Bytes :=
  if ns = [] ∨ ns = kDefaultNamespace then key else ns ++ key

@[simp] lemma composeNamespaceKey_makePrefix (epoch : Nat) (key : Bytes) :
    composeNamespaceKey (makePrefix encodedId epoch) key = makePrefix encodedId epoch ++ key := by
  unfold composeNamespaceKey
  simp [makePrefix_ne_default]

end EloqKV
