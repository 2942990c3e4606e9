import Mathlib.Data.List.Basic

/-! # Balanced brackets

A text is balanced when each of its brackets has a partner. A counter of the
brackets that are open decides it, in one pass. -/

namespace Senn.Lib

variable {α : Type*} (o c : α)

/-- Every opening bracket `o` of the text has its closing `c`, and every `c` its `o`. -/
inductive Balanced : List α → Prop
  | nil : Balanced []
  | other {x s} (ho : x ≠ o) (hc : x ≠ c) (hs : Balanced s) : Balanced (x :: s)
  | pair {s t} (hs : Balanced s) (ht : Balanced t) : Balanced (o :: s ++ c :: t)

/-- The pass over the text, with the number of brackets that are open. -/
def closes [DecidableEq α] : Nat → List α → Bool
  | depth, [] => depth = 0
  | depth, x :: s =>
    if x = o then closes (depth + 1) s
    else if x = c then 0 < depth && closes (depth - 1) s
    else closes depth s

/-- `s` is balanced up to `depth` closing brackets. -/
inductive Closing : Nat → List α → Prop
  | zero {s} (hs : Balanced o c s) : Closing 0 s
  | succ {depth s t} (hs : Balanced o c s) (ht : Closing depth t) : Closing (depth + 1) (s ++ c :: t)

variable {o c}

theorem Closing.other {x : α} {depth : Nat} {s : List α} (ho : x ≠ o) (hc : x ≠ c)
    (h : Closing o c depth s) : Closing o c depth (x :: s) := by
  cases h with
  | zero hs => exact .zero (.other ho hc hs)
  | succ hs ht => exact .succ (.other ho hc hs) ht

/-- An opening bracket takes the first of the closing ones. -/
theorem Closing.opened {depth : Nat} {s : List α} (h : Closing o c (depth + 1) s) :
    Closing o c depth (o :: s) := by
  cases h with
  | @succ _ s t hs ht =>
    cases ht with
    | zero ht => exact .zero (.pair hs ht)
    | @succ depth t u ht hu =>
      have htext : o :: (s ++ c :: (t ++ c :: u)) = (o :: s ++ c :: t) ++ c :: u := by simp
      exact htext ▸ .succ (.pair hs ht) hu

variable [DecidableEq α]

/-- A balanced text leaves the number of open brackets as it was. -/
theorem closes_append (hne : o ≠ c) {s : List α} (h : Balanced o c s) :
    ∀ (depth : Nat) (t : List α), closes o c depth (s ++ t) = closes o c depth t := by
  induction h with
  | nil =>
    intro depth t
    rfl
  | other ho hc _ ih =>
    intro depth t
    rw [List.cons_append, closes, if_neg ho, if_neg hc, ih]
  | pair _ _ ihs iht =>
    intro depth t
    rw [List.append_assoc, List.cons_append, closes, if_pos rfl, ihs, List.cons_append, closes,
      if_neg hne.symm, if_pos rfl, Nat.add_sub_cancel, iht]
    simp

theorem closing_of_closes {s : List α} : ∀ {depth : Nat}, closes o c depth s = true →
    Closing o c depth s := by
  induction s with
  | nil =>
    intro depth h
    have hzero : depth = 0 := by simpa [closes] using h
    exact hzero ▸ .zero .nil
  | cons x s ih =>
    intro depth h
    rw [closes] at h
    split at h
    · next heq => exact heq ▸ (ih h).opened
    · next ho =>
      split at h
      · next heq =>
        obtain ⟨hpos, h⟩ := Bool.and_eq_true_iff.mp h
        obtain ⟨n, rfl⟩ := Nat.exists_eq_add_of_lt (of_decide_eq_true hpos)
        rw [Nat.zero_add, Nat.add_sub_cancel] at h
        rw [Nat.zero_add, heq]
        exact .succ .nil (ih h)
      · next hc => exact (ih h).other ho hc

/-- The pass accepts the balanced texts and no others. -/
theorem closes_iff (hne : o ≠ c) {s : List α} : closes o c 0 s = true ↔ Balanced o c s := by
  constructor
  · intro h
    cases closing_of_closes h with
    | zero hs => exact hs
  · intro h
    have happ := closes_append hne h 0 []
    rw [List.append_nil] at happ
    rw [happ]
    rfl

end Senn.Lib
