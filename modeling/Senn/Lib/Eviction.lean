import Mathlib.Algebra.Order.BigOperators.Group.List
import Mathlib.Algebra.Order.Ring.Int
import Mathlib.Data.List.MinMax
import Mathlib.Data.List.Sort

/-! # Evicting the oldest first

A buffer over its budget drops its oldest entries one by one until it fits. What
is dropped then is the shortest prefix of the entries, in the order of their
age, whose removal brings the total within the budget. -/

namespace Senn.Lib

variable {α : Type*}

/-- The entries by age, those of one age in the order they stand in. -/
def byAge (age : α → Nat) (es : List α) : List α :=
  es.insertionSort fun a b => age a ≤ age b

/-- The first of the oldest entries is the first by age. -/
theorem byAge_oldest {age : α → Nat} {m : α} {before later : List α}
    (hbefore : ∀ a ∈ before, age m < age a) (hlater : ∀ a ∈ later, age m ≤ age a) :
    byAge age (before ++ m :: later) = m :: byAge age (before ++ later) := by
  induction before with
  | nil => exact List.insertionSort_cons_of_forall_rel _ hlater
  | cons a before ih =>
    have hlt : ¬age a ≤ age m := Nat.not_le_of_lt (hbefore a List.mem_cons_self)
    have ih := ih fun b hb => hbefore b (List.mem_cons_of_mem _ hb)
    unfold byAge at ih ⊢
    rw [List.cons_append, List.insertionSort_cons, ih, List.orderedInsert_of_not_le (fun a b => age a ≤ age b) _ hlt]
    rfl

/-- `argmin` splits the entries where the first of the oldest ones stands. -/
theorem argmin_split {age : α → Nat} {m : α} {es : List α} (h : es.argmin age = some m) :
    ∃ before later, es = before ++ m :: later ∧ (∀ a ∈ before, age m < age a) ∧
      ∀ a ∈ later, age m ≤ age a := by
  classical
  obtain ⟨hmem, hle, hfirst⟩ := List.mem_argmin_iff.mp (Option.mem_def.mpr h)
  obtain ⟨before, later, heq, hnot⟩ := List.eq_append_cons_of_mem hmem
  refine ⟨before, later, heq, fun a ha => ?_, fun a ha => hle a (by simp [heq, ha])⟩
  by_contra hlt
  have hidx := hfirst a (by simp [heq, ha]) (Nat.le_of_not_lt hlt)
  rw [heq, List.idxOf_append_of_notMem hnot, List.idxOf_append_of_mem ha] at hidx
  have := List.idxOf_lt_length_of_mem ha
  omega

/-- `p` is the shortest prefix of `es` whose removal brings `total` within `budget`. -/
structure ShortestPrefix (weight : α → Int) (budget total : Int) (es p : List α) : Prop where
  isPrefix : p <+: es
  fits : total - (p.map weight).sum ≤ budget
  least : ∀ q, q <+: es → total - (q.map weight).sum ≤ budget → p.length ≤ q.length

namespace ShortestPrefix
variable {weight : α → Int} {budget total : Int} {es p : List α}

/-- Under the budget nothing has to go. -/
theorem nil (h : total ≤ budget) : ShortestPrefix weight budget total es [] :=
  ⟨List.nil_prefix, by simpa using h, fun q _ _ => Nat.zero_le q.length⟩

/-- Over it the first entry has to, and what goes after it is as short as can be. -/
theorem cons {e : α} (hover : budget < total)
    (h : ShortestPrefix weight budget (total - weight e) es p) :
    ShortestPrefix weight budget total (e :: es) (e :: p) := by
  refine ⟨(List.prefix_cons_inj e).mpr h.isPrefix, ?_, ?_⟩
  · have := h.fits
    simp only [List.map_cons, List.sum_cons]
    omega
  · intro q hq hfits
    cases q with
    | nil => simp at hfits; omega
    | cons a q =>
      obtain ⟨rfl, hrest⟩ := List.cons_prefix_cons.mp hq
      have hle := h.least q hrest (by
        simp only [List.map_cons, List.sum_cons] at hfits
        omega)
      simpa using hle

end ShortestPrefix

end Senn.Lib
