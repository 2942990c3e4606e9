import Mathlib.Logic.Function.Basic
import Senn.Lib.Machine

/-! # Machines side by side

A family of machines of one kind, each with its own inputs and outputs. What one of them
does in a run of the family is what it does on its own inputs. -/

namespace Senn.Lib.Machine

variable {κ σ ι ο β : Type*} [DecidableEq κ] (step : σ → ι → σ × List ο)

/-- An input is for one machine of the family; its outputs are labelled with it. -/
def family (w : κ → σ) (e : κ × ι) : (κ → σ) × List (κ × ο) :=
  (Function.update w e.1 (step (w e.1) e.2).1, (step (w e.1) e.2).2.map fun o => (e.1, o))

/-- The entries of one machine. -/
def of (a : κ) (es : List (κ × β)) : List β := (es.filter fun e => e.1 = a).map Prod.snd

@[simp] theorem of_nil (a : κ) : of a ([] : List (κ × β)) = [] := rfl

@[simp] theorem of_append (a : κ) (es fs : List (κ × β)) : of a (es ++ fs) = of a es ++ of a fs := by
  simp [of]

theorem mem_of {a : κ} {b : β} {es : List (κ × β)} : b ∈ of a es ↔ (a, b) ∈ es := by
  simp [of]

theorem of_cons_self (a : κ) (b : β) (es : List (κ × β)) : of a ((a, b) :: es) = b :: of a es := by
  simp [of]

theorem of_cons_ne {a c : κ} (h : c ≠ a) (b : β) (es : List (κ × β)) :
    of a ((c, b) :: es) = of a es := by
  simp [of, h]

theorem of_label_self (a : κ) (os : List ο) : of a (os.map fun o => (a, o)) = os := by
  induction os with
  | nil => rfl
  | cons o os ih => rw [List.map_cons, of_cons_self, ih]

theorem of_label_ne {a c : κ} (h : c ≠ a) (os : List ο) : of a (os.map fun o => (c, o)) = [] := by
  induction os with
  | nil => rfl
  | cons o os ih => rw [List.map_cons, of_cons_ne h, ih]

theorem of_flatMap {α : Type*} (a : κ) (f : α → List (κ × β)) (xs : List α) :
    of a (xs.flatMap f) = xs.flatMap fun x => of a (f x) := by
  induction xs with
  | nil => rfl
  | cons x xs ih => rw [List.flatMap_cons, of_append, ih, List.flatMap_cons]

theorem flatMap_single {f : κ → List β} {a : κ} {xs : List κ} (ha : a ∈ xs) (hnodup : xs.Nodup)
    (h : ∀ c ∈ xs, c ≠ a → f c = []) : xs.flatMap f = f a := by
  induction xs with
  | nil => cases ha
  | cons c cs ih =>
    obtain ⟨hc, hcs⟩ := List.nodup_cons.mp hnodup
    rw [List.flatMap_cons]
    by_cases hca : c = a
    · subst hca
      have hrest : cs.flatMap f = [] := List.flatMap_eq_nil_iff.mpr fun d hd =>
        h d (.tail _ hd) fun hdc => hc (hdc ▸ hd)
      rw [hrest, List.append_nil]
    · rw [h c (.head _) hca, List.nil_append]
      exact ih ((List.mem_cons.mp ha).resolve_left (Ne.symm hca)) hcs fun d hd => h d (.tail _ hd)

theorem after_family (a : κ) (es : List (κ × ι)) : ∀ w : κ → σ,
    after (family step) w es a = after step (w a) (of a es) := by
  induction es with
  | nil => intro w; rfl
  | cons e es ih =>
    intro w
    obtain ⟨c, i⟩ := e
    rw [after_cons, ih]
    by_cases hc : c = a
    · subst hc
      rw [of_cons_self, after_cons]
      simp [family]
    · rw [of_cons_ne hc]
      simp [family, Function.update_of_ne (Ne.symm hc)]

theorem outputs_family (a : κ) (es : List (κ × ι)) : ∀ w : κ → σ,
    of a (outputs (family step) w es) = outputs step (w a) (of a es) := by
  induction es with
  | nil => intro w; rfl
  | cons e es ih =>
    intro w
    obtain ⟨c, i⟩ := e
    rw [outputs_cons, of_append, ih]
    by_cases hc : c = a
    · subst hc
      rw [of_cons_self, outputs_cons]
      simp [family, of_label_self]
    · rw [of_cons_ne hc]
      simp [family, of_label_ne hc, Function.update_of_ne (Ne.symm hc)]

/-- What an observer of one machine sees in a run of the family. -/
theorem noted_family (a : κ) (f : σ → ι → List β) (es : List (κ × ι)) : ∀ w : κ → σ,
    noted (family step) (fun w e => if e.1 = a then f (w a) e.2 else []) w es =
      noted step f (w a) (of a es) := by
  induction es with
  | nil => intro w; rfl
  | cons e es ih =>
    intro w
    obtain ⟨c, i⟩ := e
    rw [noted, ih]
    by_cases hc : c = a
    · subst hc
      rw [of_cons_self, noted, if_pos rfl]
      simp [family]
    · rw [of_cons_ne hc, if_neg hc]
      simp [family, Function.update_of_ne (Ne.symm hc)]

/-- What a machine has been given so far, the family has been given in some run so far. -/
theorem prefix_of {a : κ} {es : List (κ × β)} : ∀ {bs : List β}, bs <+: of a es →
    ∃ fs, fs <+: es ∧ of a fs = bs := by
  induction es with
  | nil =>
    intro bs h
    exact ⟨[], List.prefix_rfl, (List.prefix_nil.mp h).symm⟩
  | cons e es ih =>
    intro bs h
    obtain ⟨c, b⟩ := e
    by_cases hc : c = a
    · subst hc
      rw [of_cons_self] at h
      cases bs with
      | nil => exact ⟨[], List.nil_prefix, rfl⟩
      | cons b' bs =>
        obtain ⟨rfl, hbs⟩ := List.cons_prefix_cons.mp h
        obtain ⟨fs, hfs, rfl⟩ := ih hbs
        exact ⟨(c, b') :: fs, List.cons_prefix_cons.mpr ⟨rfl, hfs⟩, of_cons_self c b' fs⟩
    · rw [of_cons_ne hc] at h
      obtain ⟨fs, hfs, rfl⟩ := ih h
      exact ⟨(c, b) :: fs, List.cons_prefix_cons.mpr ⟨rfl, hfs⟩, of_cons_ne hc b fs⟩

end Senn.Lib.Machine
