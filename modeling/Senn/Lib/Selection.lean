import Mathlib.Data.List.Nodup
import Mathlib.Data.List.Perm.Basic

/-! # Selections from a list

The first element of each key, and the order that moves the elements with a flag to the front
and keeps the rest of the order. -/

namespace Senn.Lib

variable {α κ : Type*}

/-! ## First of its key -/

section
variable [DecidableEq κ] (key : α → κ)

/-- The elements whose key is none of `seen` and not that of an element before. -/
def firsts : List κ → List α → List α
  | _, [] => []
  | seen, a :: l => if key a ∈ seen then firsts seen l else a :: firsts (key a :: seen) l

theorem firsts_sublist (l : List α) : ∀ seen, (firsts key seen l).Sublist l := by
  induction l with
  | nil => exact fun _ => .slnil
  | cons a l ih =>
    intro seen
    unfold firsts
    split
    · exact (ih seen).cons a
    · exact (ih _).cons_cons a

theorem not_mem_of_firsts {l : List α} : ∀ {seen}, ∀ a ∈ firsts key seen l, key a ∉ seen := by
  induction l with
  | nil => exact fun _ h => by cases h
  | cons b l ih =>
    intro seen a h
    unfold firsts at h
    split at h
    · exact ih a h
    · next hb =>
      obtain rfl | h := List.mem_cons.mp h
      · exact hb
      · exact fun hmem => ih a h (.tail _ hmem)

theorem firsts_nodup (l : List α) : ∀ seen, ((firsts key seen l).map key).Nodup := by
  induction l with
  | nil => exact fun _ => .nil
  | cons a l ih =>
    intro seen
    unfold firsts
    split
    · exact ih seen
    · refine List.nodup_cons.mpr ⟨fun hmem => ?_, ih _⟩
      obtain ⟨b, hb, heq⟩ := List.mem_map.mp hmem
      exact not_mem_of_firsts key b hb (heq ▸ .head _)

/-- An element is left out only for one with its key. -/
theorem key_mem_firsts {l : List α} : ∀ {seen}, ∀ a ∈ l, key a ∉ seen →
    key a ∈ (firsts key seen l).map key := by
  induction l with
  | nil => exact fun _ h => by cases h
  | cons b l ih =>
    intro seen a ha hseen
    unfold firsts
    obtain rfl | ha := List.mem_cons.mp ha
    · rw [if_neg hseen]
      exact .head _
    · split
      · exact ih a ha hseen
      · rw [List.map_cons, List.mem_cons]
        by_cases heq : key a = key b
        · exact .inl heq
        · exact .inr (ih a ha (by simp [heq, hseen]))

/-- What is kept is the first with its key. -/
theorem find?_of_firsts {l : List α} : ∀ {seen}, ∀ a ∈ firsts key seen l,
    l.find? (fun b => key b = key a) = some a := by
  induction l with
  | nil => exact fun _ h => by cases h
  | cons b l ih =>
    intro seen a ha
    unfold firsts at ha
    split at ha
    · next hb =>
      have hne : key b ≠ key a := fun heq => not_mem_of_firsts key a ha (heq ▸ hb)
      rw [List.find?_cons_of_neg (by simpa using hne)]
      exact ih a ha
    · obtain rfl | ha := List.mem_cons.mp ha
      · exact List.find?_cons_of_pos (by simp)
      · have hne : key b ≠ key a := fun heq => not_mem_of_firsts key a ha (heq ▸ .head _)
        rw [List.find?_cons_of_neg (by simpa using hne)]
        exact ih a ha

/-- Nothing is left out where every key is new. -/
theorem firsts_of_nodup {l : List α} : ∀ {seen}, (l.map key).Nodup → (∀ a ∈ l, key a ∉ seen) →
    firsts key seen l = l := by
  induction l with
  | nil => exact fun _ _ => rfl
  | cons a l ih =>
    intro seen hnodup hseen
    obtain ⟨hnot, hnodup⟩ := List.nodup_cons.mp hnodup
    rw [firsts, if_neg (hseen a (.head _)), ih hnodup]
    intro b hb hmem
    obtain heq | hmem := List.mem_cons.mp hmem
    · exact hnot (List.mem_map.mpr ⟨b, hb, heq⟩)
    · exact hseen b (.tail _ hb) hmem

end

/-! ## Flagged first -/

section
variable (flag : α → Bool)

/-- The stable sort in which what has the flag comes first. -/
def flaggedFirst (l : List α) : List α := l.mergeSort fun a b => flag a || !flag b

theorem flaggedFirst_perm (l : List α) : (flaggedFirst flag l).Perm l := List.mergeSort_perm l _

theorem flagged_trans (a b c : α) (hab : (flag a || !flag b) = true)
    (hbc : (flag b || !flag c) = true) : (flag a || !flag c) = true := by
  cases ha : flag a <;> cases hb : flag b <;> simp_all

theorem flagged_total (a b : α) : ((flag a || !flag b) || (flag b || !flag a)) = true := by
  cases flag a <;> simp

/-- A list in this order is its flagged elements, and then the others. -/
theorem eq_of_flagged {l : List α} (h : l.Pairwise fun a b => (flag a || !flag b) = true) :
    l = l.filter flag ++ l.filter fun a => !flag a := by
  induction l with
  | nil => rfl
  | cons a l ih =>
    obtain ⟨hfirst, hrest⟩ := List.pairwise_cons.mp h
    cases ha : flag a with
    | true => simpa [ha] using ih hrest
    | false =>
      have hnone : ∀ b ∈ l, ¬flag b = true := fun b hb => by simpa [ha] using hfirst b hb
      have hall : l.filter (fun b => !flag b) = l :=
        List.filter_eq_self.mpr fun b hb => by simpa using hnone b hb
      simp [ha, List.filter_eq_nil_iff.mpr hnone, hall]

/-- The elements of one flag stay in their order. -/
theorem filter_flaggedFirst {p : α → Bool} (l : List α)
    (hp : ∀ a b, p a = true → p b = true → (flag a || !flag b) = true) :
    (flaggedFirst flag l).filter p = l.filter p := by
  have hpairwise : (l.filter p).Pairwise fun a b => (flag a || !flag b) = true := by
    refine (List.pairwise_of_forall_mem_list fun a ha b hb => ?_)
    exact hp a b (List.mem_filter.mp ha).2 (List.mem_filter.mp hb).2
  have hsub := List.sublist_mergeSort (flagged_trans flag) (flagged_total flag) hpairwise
    List.filter_sublist
  have hfilter := hsub.filter p
  rw [List.filter_filter] at hfilter
  simp only [Bool.and_self] at hfilter
  exact (hfilter.eq_of_length ((flaggedFirst_perm flag l).filter p).length_eq.symm).symm

theorem flaggedFirst_eq (l : List α) :
    flaggedFirst flag l = l.filter flag ++ l.filter fun a => !flag a := by
  have hsorted := List.pairwise_mergeSort (flagged_trans flag) (flagged_total flag) l
  have heq := eq_of_flagged flag hsorted
  rw [← flaggedFirst] at heq
  rw [heq, filter_flaggedFirst flag l fun a b ha _ => by simp [ha],
    filter_flaggedFirst flag l fun a b _ hb => by rw [hb, Bool.or_true]]

/-- The order is one that sorting again does not change. -/
theorem flaggedFirst_idem (l : List α) :
    flaggedFirst flag (flaggedFirst flag l) = flaggedFirst flag l :=
  List.mergeSort_of_pairwise
    (List.pairwise_mergeSort (flagged_trans flag) (flagged_total flag) l)

end

end Senn.Lib
