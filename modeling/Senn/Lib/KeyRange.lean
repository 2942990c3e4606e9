import Mathlib.Data.List.Lex
import Mathlib.Data.List.Sort
import Mathlib.Order.BoundedOrder.Basic

/-! # Ranges of keys

Keys are words in the lexicographic order. The keys that start with a word lie together, from
the word itself on; a range that ends at the word and one greatest letter has all of them but
those that go on after that letter. -/

namespace Senn.Lib.KeyRange

variable {α : Type*} [LinearOrder α]

/-! ## Sorted keys -/

/-- The keys of a list without duplicates, in ascending order. -/
theorem insertionSort_lt {ks : List (List α)} (h : ks.Nodup) :
    (ks.insertionSort (· ≤ ·)).Pairwise (· < ·) := by
  have hsorted : (ks.insertionSort (· ≤ ·)).Pairwise (· ≤ ·) := List.pairwise_insertionSort _ _
  have hnodup : (ks.insertionSort (· ≤ ·)).Nodup := (List.perm_insertionSort _ ks).nodup_iff.mpr h
  exact hsorted.imp₂ (fun a b hle hne => lt_of_le_of_ne hle hne) hnodup

/-- A set of keys is listed in ascending order in one way only. -/
theorem eq_of_ascending {ks ls : List (List α)} (hks : ks.Pairwise (· < ·))
    (hls : ls.Pairwise (· < ·)) (h : ∀ k, k ∈ ks ↔ k ∈ ls) : ks = ls := by
  have hperm : ks.Perm ls :=
    (List.perm_ext_iff_of_nodup (hks.imp ne_of_lt) (hls.imp ne_of_lt)).mpr h
  exact hperm.eq_of_pairwise (fun a b _ _ hab hba => absurd (hab.trans hba) (lt_irrefl a)) hks hls

/-! ## Words that start with a word -/

theorem cons_le_cons_iff {x y : α} {p q : List α} :
    x :: p ≤ y :: q ↔ x < y ∨ x = y ∧ p ≤ q := by
  rw [← not_lt, ← not_lt]
  show ¬ List.Lex (· < ·) (y :: q) (x :: p) ↔ x < y ∨ x = y ∧ ¬ List.Lex (· < ·) q p
  rw [List.cons_lex_cons_iff]
  constructor
  · intro h
    obtain hlt | rfl | hgt := lt_trichotomy x y
    · exact .inl hlt
    · exact .inr ⟨rfl, fun hq => h (.inr ⟨rfl, hq⟩)⟩
    · exact absurd (.inl hgt) h
  · rintro (hlt | ⟨rfl, hq⟩) (hgt | ⟨heq, hq'⟩)
    · exact absurd hlt (lt_asymm hgt)
    · exact absurd heq (ne_of_gt hlt)
    · exact absurd hgt (lt_irrefl _)
    · exact hq hq'

theorem nil_le (p : List α) : [] ≤ p := by
  rw [← not_lt]
  intro h
  cases h

theorem le_append (p r : List α) : p ≤ p ++ r := by
  induction p with
  | nil => exact nil_le _
  | cons x p ih => exact cons_le_cons_iff.mpr (.inr ⟨rfl, ih⟩)

theorem append_le_append_iff {p r r' : List α} : p ++ r ≤ p ++ r' ↔ r ≤ r' := by
  induction p with
  | nil => rfl
  | cons x p ih => simpa [cons_le_cons_iff] using ih

/-- Between a word and one that continues it, every word continues it. -/
theorem exists_append {p k r : List α} (hle : p ≤ k) (hge : k ≤ p ++ r) : ∃ q, k = p ++ q := by
  induction p generalizing k with
  | nil => exact ⟨k, rfl⟩
  | cons x p ih =>
    cases k with
    | nil => exact absurd hle (not_le_of_gt (lt_of_le_of_ne (nil_le _) (by simp)))
    | cons y k =>
      have hx : x < y ∨ x = y ∧ p ≤ k := cons_le_cons_iff.mp hle
      have hy : y < x ∨ y = x ∧ k ≤ p ++ r := cons_le_cons_iff.mp hge
      obtain hlt | ⟨rfl, hp⟩ := hx
      · obtain hlt' | ⟨rfl, _⟩ := hy
        · exact absurd (hlt.trans hlt') (lt_irrefl x)
        · exact absurd hlt (lt_irrefl _)
      · obtain hlt' | ⟨_, hk⟩ := hy
        · exact absurd hlt' (lt_irrefl x)
        · obtain ⟨q, rfl⟩ := ih hp hk
          exact ⟨q, rfl⟩

variable [OrderTop α]

/-- A word that a greatest letter by itself bounds: it has no letter after such a one. -/
def Bounded (r : List α) : Prop := ∀ x xs, r = x :: xs → x = ⊤ → xs = []

theorem le_top_iff {r : List α} : r ≤ [⊤] ↔ Bounded r := by
  cases r with
  | nil =>
    constructor
    · intro _ x xs h
      cases h
    · intro _
      exact nil_le _
  | cons y ys =>
    rw [cons_le_cons_iff]
    constructor
    · rintro (hlt | ⟨rfl, hys⟩) x xs heq hx
      · obtain ⟨rfl, rfl⟩ := List.cons.inj heq
        exact absurd hx (ne_of_lt hlt)
      · obtain ⟨rfl, rfl⟩ := List.cons.inj heq
        exact le_antisymm hys (nil_le _)
    · intro h
      by_cases hy : y = ⊤
      · exact .inr ⟨hy, by rw [h y ys rfl hy]⟩
      · exact .inl (lt_of_le_of_ne le_top hy)

/-- The range that starts at a word and ends after it and one greatest letter. -/
theorem mem_range_iff {p k : List α} :
    p ≤ k ∧ k ≤ p ++ [⊤] ↔ ∃ r, k = p ++ r ∧ Bounded r := by
  constructor
  · rintro ⟨hle, hge⟩
    obtain ⟨r, rfl⟩ := exists_append hle hge
    exact ⟨r, rfl, le_top_iff.mp (append_le_append_iff.mp hge)⟩
  · rintro ⟨r, rfl, hr⟩
    exact ⟨le_append p r, append_le_append_iff.mpr (le_top_iff.mpr hr)⟩

end Senn.Lib.KeyRange
