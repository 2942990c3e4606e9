import Senn.Lib.InsMap
import Mathlib.Data.List.Infix

/-! # Many maps in one

The maps of several owners lie in one map whose keys are an owner's name, a separator and the
owner's own key. While no name has the separator, the composed keys keep the owners apart:
each part of the map is a map of its own. -/

namespace Senn.Lib.Namespace

variable {α ν : Type*} {sep : α} {i j k l : List α}

def compose (sep : α) (i k : List α) : List α := i ++ sep :: k

/-- What every key of the owner starts with. -/
def opening (sep : α) (i : List α) : List α := i ++ [sep]

theorem compose_eq (sep : α) (i k : List α) : compose sep i k = opening sep i ++ k := by
  simp [compose, opening]

theorem compose_inj (hi : sep ∉ i) (hj : sep ∉ j) :
    compose sep i k = compose sep j l ↔ i = j ∧ k = l := by
  induction i generalizing j with
  | nil =>
    cases j with
    | nil => simp [compose]
    | cons y j =>
      have hy : sep ≠ y := fun h => hj (h ▸ .head _)
      simp [compose, hy]
  | cons x i ih =>
    have hx : x ≠ sep := fun h => hi (h ▸ .head _)
    cases j with
    | nil => simp [compose, hx]
    | cons y j =>
      have hrest := @ih j (fun h => hi (.tail _ h)) (fun h => hj (.tail _ h))
      simp only [compose, List.cons_append, List.cons.injEq] at hrest ⊢
      rw [hrest, and_assoc]

theorem opening_prefix_iff (hi : sep ∉ i) (hj : sep ∉ j) :
    opening sep i <+: compose sep j l ↔ i = j := by
  constructor
  · rintro ⟨k, hk⟩
    rw [← compose_eq] at hk
    exact ((compose_inj hi hj).mp hk).1
  · rintro rfl
    exact ⟨l, (compose_eq sep i l).symm⟩

variable [DecidableEq α]

/-- The map of one owner. -/
def part (sep : α) (m : InsMap (List α) ν) (i k : List α) : Option ν := m.get (compose sep i k)

variable {m : InsMap (List α) ν}

theorem part_set (hi : sep ∉ i) (hj : sep ∉ j) (v : ν) :
    part sep (m.set (compose sep i k) v) j l =
      if j = i ∧ l = k then some v else part sep m j l := by
  simp only [part, InsMap.get_set, compose_inj hj hi]

theorem part_delete (hi : sep ∉ i) (hj : sep ∉ j) :
    part sep (m.delete (compose sep i k)) j l =
      if j = i ∧ l = k then none else part sep m j l := by
  simp only [part, InsMap.get_delete, compose_inj hj hi]

/-- Some keys are deleted one after the other. -/
theorem get_foldl_delete {κ : Type*} [DecidableEq κ] {p : κ → Prop} [DecidablePred p]
    {m : InsMap κ ν} {ks : List κ} {a : κ} :
    (ks.foldl (fun m k => if p k then m.delete k else m) m).get a =
      if a ∈ ks ∧ p a then none else m.get a := by
  induction ks generalizing m with
  | nil => simp
  | cons k ks ih =>
    rw [List.foldl_cons, ih]
    by_cases hp : p k
    · rw [if_pos hp, InsMap.get_delete]
      by_cases hak : a = k
      · simp [hak, hp]
      · simp [hak]
    · rw [if_neg hp]
      by_cases hak : a = k
      · simp [hak, hp]
      · simp [hak]

end Senn.Lib.Namespace
