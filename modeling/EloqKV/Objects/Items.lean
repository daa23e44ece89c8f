/-
  The bytes the elements of a collection take (`sizeof(uint32_t) + Length()` throughout
  `src/redis_list_object.cpp`, `src/redis_set_object.cpp` and `src/redis_hash_object.cpp`): the
  length in four bytes and the content.
-/
import EloqKV.Bytes

namespace EloqKV

def itemLength (element : Bytes) : Nat := 4 + element.length

def itemsLength (elements : List Bytes) : Nat := (elements.map itemLength).sum

@[simp] lemma itemsLength_nil : itemsLength [] = 0 := rfl

@[simp] lemma itemsLength_cons (e : Bytes) (es : List Bytes) :
    itemsLength (e :: es) = itemLength e + itemsLength es := by
  simp [itemsLength]

@[simp] lemma itemsLength_append (es es' : List Bytes) :
    itemsLength (es ++ es') = itemsLength es + itemsLength es' := by
  simp [itemsLength]

lemma itemsLength_perm {es es' : List Bytes} (hperm : es.Perm es') :
    itemsLength es = itemsLength es' :=
  (hperm.map itemLength).sum_nat

@[simp] lemma itemsLength_reverse (es : List Bytes) : itemsLength es.reverse = itemsLength es :=
  itemsLength_perm es.reverse_perm

lemma itemsLength_erase {e : Bytes} {es : List Bytes} (he : e ∈ es) :
    itemLength e + itemsLength (es.erase e) = itemsLength es := by
  exact itemsLength_perm (List.perm_cons_erase he).symm

lemma itemsLength_le_of_sublist {es es' : List Bytes} (hsub : es.Sublist es') :
    itemsLength es ≤ itemsLength es' :=
  (hsub.map itemLength).sum_le_sum fun _ _ => Nat.zero_le _

end EloqKV
