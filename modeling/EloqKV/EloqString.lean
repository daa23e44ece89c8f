/-
  Strings that own their bytes or point at somebody else's (`include/eloq_string.h`).

  A value of up to 23 bytes is stored inside the object itself, a longer one in a heap
  array, and a view points at bytes kept elsewhere.  Copies and moves keep the kind.
-/
import EloqKV.Bytes

namespace EloqKV

/-- `MAX_OBJECT_SIZE`: the largest serialized object. -/
def maxObjectSize : Nat := 256 * 1024 * 1024

/-- The capacity of `stack_array_`. -/
def inlineCapacity : Nat := 23

inductive StorageType where
  | stack
  | heap
  | view
  deriving DecidableEq, Repr

/-- `EloqString`: its storage and its bytes.  Inline storage holds no more than its array. -/
structure EloqString where
  type : StorageType
  stringView : Bytes
  fits : type = .stack → stringView.length ≤ inlineCapacity
  deriving DecidableEq, Repr

namespace EloqString

variable (bytes : Bytes)

/-- `EloqString(const char *ptr, uint32_t length)`: an owning string. -/
def ofPtr : EloqString :=
  if h : bytes.length ≤ inlineCapacity then ⟨.stack, bytes, fun _ => h⟩
  else ⟨.heap, bytes, fun hs => nomatch hs⟩

/-- `EloqString(std::string_view)`: a view. -/
def ofView : EloqString :=
  ⟨.view, bytes, fun hs => nomatch hs⟩

def clone (s : EloqString) : EloqString := ofPtr s.stringView

@[simp] lemma stringView_ofPtr : (ofPtr bytes).stringView = bytes := by
  unfold ofPtr
  split <;> rfl

@[simp] lemma stringView_ofView : (ofView bytes).stringView = bytes := rfl

@[simp] lemma stringView_clone (s : EloqString) : s.clone.stringView = s.stringView :=
  stringView_ofPtr s.stringView

@[simp] lemma type_ofView : (ofView bytes).type = .view := rfl

lemma type_ofPtr_ne_view : (ofPtr bytes).type ≠ .view := by
  unfold ofPtr
  split <;> simp

end EloqString

end EloqKV
