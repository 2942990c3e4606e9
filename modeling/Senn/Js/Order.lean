import Senn.Js.Text
import Senn.Lib.KeyRange

/-! # Strings in the order of their code units

The order in which `Array.prototype.sort` puts strings. The instances are for those who open
the namespace. -/

namespace Senn.Js.CodeUnits
open Senn.Lib

scoped instance unitsOrder : LinearOrder UInt16 where
  le_refl := UInt16.le_refl
  le_trans _ _ _ := UInt16.le_trans
  lt_iff_le_not_ge _ _ := by
    rw [UInt16.not_le]
    exact ⟨fun h => ⟨UInt16.le_of_lt h, h⟩, And.right⟩
  le_antisymm _ _ := UInt16.le_antisymm
  le_total := UInt16.le_total
  toDecidableLE := inferInstance

scoped instance unitsTop : OrderTop UInt16 where
  top := 0xFFFF
  le_top u := by
    rw [UInt16.le_iff_toNat_le]
    have := u.toNat_lt
    show u.toNat ≤ 0xFFFF
    omega

/-- `keys.sort()` -/
def sorted (keys : List JsString) : List JsString := keys.insertionSort (· ≤ ·)

@[simp] theorem mem_sorted {keys : List JsString} {k : JsString} : k ∈ sorted keys ↔ k ∈ keys :=
  (List.perm_insertionSort _ keys).mem_iff

theorem sorted_ascending {keys : List JsString} (h : keys.Nodup) :
    (sorted keys).Pairwise (· < ·) := KeyRange.insertionSort_lt h

example : sorted [js "b", js "a", js "aa"] = [js "a", js "aa", js "b"] := by decide

end Senn.Js.CodeUnits
