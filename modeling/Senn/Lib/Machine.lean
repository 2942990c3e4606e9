import Mathlib.Data.List.Basic

/-! # Runs of an event-driven machine

A program driven by callbacks is a function from a state and an input to the
next state and what it puts out. This file has the runs of such a machine and
the ways its results are proved: an invariant carried along a run, a property that
holds all along a run exactly when every step of it meets a condition on the state
before the step, and a record of a run whose entries bar later ones. -/

namespace Senn.Lib.Machine

variable {σ ι ο β : Type*} (step : σ → ι → σ × List ο)

/-- The state after a list of inputs. -/
def after : σ → List ι → σ
  | s, [] => s
  | s, i :: is => after (step s i).1 is

/-- Everything a run puts out, in order. -/
def outputs : σ → List ι → List ο
  | _, [] => []
  | s, i :: is => (step s i).2 ++ outputs (step s i).1 is

/-- Every step of the run meets `C` in the state before it. -/
def Guarded (C : σ → ι → Prop) : σ → List ι → Prop
  | _, [] => True
  | s, i :: is => C s i ∧ Guarded C (step s i).1 is

/-- Every step that comes after one that meets `A` meets `C`. -/
def GuardedSince (A C : σ → ι → Prop) : σ → List ι → Prop
  | _, [] => True
  | s, i :: is => (A s i → Guarded step C (step s i).1 is) ∧ GuardedSince A C (step s i).1 is

/-- What `f` sees of each input and of the state before it, along a run. -/
def noted (f : σ → ι → List β) : σ → List ι → List β
  | _, [] => []
  | s, i :: is => f s i ++ noted f (step s i).1 is

/-- `P` holds in every state the run reaches, the first one included. -/
def Always (P : σ → Prop) (s : σ) (is : List ι) : Prop :=
  ∀ pre, pre <+: is → P (after step s pre)

instance Guarded.decidable {C : σ → ι → Prop} [∀ s i, Decidable (C s i)] :
    ∀ (s : σ) (is : List ι), Decidable (Guarded step C s is)
  | _, [] => inferInstanceAs (Decidable True)
  | s, i :: is =>
    have := Guarded.decidable (C := C) (step s i).1 is
    inferInstanceAs (Decidable (C s i ∧ Guarded step C (step s i).1 is))

@[simp] theorem after_nil (s : σ) : after step s ([] : List ι) = s := rfl

@[simp] theorem after_cons (s : σ) (i : ι) (is : List ι) :
    after step s (i :: is) = after step (step s i).1 is := rfl

@[simp] theorem after_append (s : σ) (is js : List ι) :
    after step s (is ++ js) = after step (after step s is) js := by
  induction is generalizing s with
  | nil => rfl
  | cons i is ih => exact ih (step s i).1

@[simp] theorem outputs_nil (s : σ) : outputs step s ([] : List ι) = [] := rfl

@[simp] theorem outputs_cons (s : σ) (i : ι) (is : List ι) :
    outputs step s (i :: is) = (step s i).2 ++ outputs step (step s i).1 is := rfl

/-- An output of a run is put out by one of its steps, after the outputs before it. -/
theorem outputs_split {is : List ι} {o : ο} {b : List ο} :
    ∀ {s : σ} {a : List ο}, outputs step s is = a ++ o :: b → ∃ pre i post,
      is = pre ++ i :: post ∧ outputs step s pre <+: a ∧ o ∈ (step (after step s pre) i).2 := by
  induction is with
  | nil => intro s a h; exact absurd h.symm (by simp [outputs])
  | cons i is ih =>
    intro s a h
    have hlater : ∀ a', a = (step s i).2 ++ a' → outputs step (step s i).1 is = a' ++ o :: b →
        ∃ pre j post, i :: is = pre ++ j :: post ∧ outputs step s pre <+: a ∧
          o ∈ (step (after step s pre) j).2 := by
      intro a' ha hrest
      obtain ⟨pre, j, post, heq, hpre, ho⟩ := ih hrest
      refine ⟨i :: pre, j, post, by rw [heq]; rfl, ?_, ho⟩
      rw [ha]
      exact (List.prefix_append_right_inj _).mpr hpre
    rcases List.append_eq_append_iff.mp h with ⟨a', ha, hrest⟩ | ⟨c, hc, hrest⟩
    · exact hlater a' ha hrest
    · cases c with
      | nil => exact hlater [] (by simpa using hc.symm) (by simpa using hrest.symm)
      | cons o' c =>
        obtain ⟨rfl, -⟩ := List.cons.inj hrest
        exact ⟨[], i, is, rfl, List.nil_prefix, by simp [hc]⟩

@[simp] theorem outputs_append (s : σ) (is js : List ι) :
    outputs step s (is ++ js) = outputs step s is ++ outputs step (after step s is) js := by
  induction is generalizing s with
  | nil => rfl
  | cons i is ih => simp only [List.cons_append, outputs_cons, ih, after_cons, List.append_assoc]

section
variable {step} {C : σ → ι → Prop} {P : σ → Prop}

theorem guarded_append {s : σ} {is js : List ι} :
    Guarded step C s (is ++ js) ↔
      Guarded step C s is ∧ Guarded step C (after step s is) js := by
  induction is generalizing s with
  | nil => simp [Guarded]
  | cons i is ih => simp only [List.cons_append, Guarded, ih, after_cons, and_assoc]

theorem guarded_at {s : σ} {pre post : List ι} {i : ι}
    (h : Guarded step C s (pre ++ i :: post)) : C (after step s pre) i :=
  (guarded_append.mp h).2.1

theorem Guarded.mono {D : σ → ι → Prop} (hCD : ∀ s i, C s i → D s i) {is : List ι} :
    ∀ {s : σ}, Guarded step C s is → Guarded step D s is := by
  induction is with
  | nil => intro s _; trivial
  | cons i is ih => intro s h; exact ⟨hCD s i h.1, ih h.2⟩

theorem guarded_iff_forall {s : σ} {is : List ι} :
    Guarded step C s is ↔ ∀ pre i post, is = pre ++ i :: post → C (after step s pre) i := by
  refine ⟨fun h pre i post heq => guarded_at (heq ▸ h), fun h => ?_⟩
  induction is generalizing s with
  | nil => trivial
  | cons i is ih =>
    exact ⟨h [] i is rfl, ih fun pre j post heq => h (i :: pre) j post (by rw [heq]; rfl)⟩

/-- Conditions that agree wherever an invariant holds guard the same runs. -/
theorem guarded_congr {I : σ → Prop} {D : σ → ι → Prop} (hI : ∀ s i, I s → I (step s i).1)
    (hCD : ∀ s i, I s → (C s i ↔ D s i)) {s : σ} (hs : I s) (is : List ι) :
    Guarded step C s is ↔ Guarded step D s is := by
  induction is generalizing s with
  | nil => exact Iff.rfl
  | cons i is ih => exact and_congr (hCD s i hs) (ih (hI s i hs))

/-- Outputs that a step gets right exactly when it meets `C` are right all along
a run exactly when every step of the run meets `C`. -/
theorem outputs_iff_guarded {Q : ο → Prop} (hstep : ∀ s i, (∀ o ∈ (step s i).2, Q o) ↔ C s i)
    (s : σ) (is : List ι) : (∀ o ∈ outputs step s is, Q o) ↔ Guarded step C s is := by
  induction is generalizing s with
  | nil => simp [Guarded]
  | cons i is ih => rw [outputs_cons, List.forall_mem_append, hstep, ih, Guarded]

/-- What one step preserves, a run preserves. -/
theorem after_inv (hstep : ∀ s i, P s → P (step s i).1) {s : σ} (hs : P s) (is : List ι) :
    P (after step s is) := by
  induction is generalizing s with
  | nil => exact hs
  | cons i is ih => exact ih (hstep s i hs)

/-- What a step that meets `C` preserves, a run of such steps preserves. -/
theorem guarded_inv (hstep : ∀ s i, P s → C s i → P (step s i).1) {s : σ} (hs : P s)
    {is : List ι} (h : Guarded step C s is) : P (after step s is) := by
  induction is generalizing s with
  | nil => exact hs
  | cons i is ih => exact ih (hstep s i hs h.1) h.2

/-- A condition that follows from another one wherever an invariant of its runs holds. -/
theorem Guarded.of_inv {D : σ → ι → Prop} (hstep : ∀ s i, P s → C s i → P (step s i).1)
    (hCD : ∀ s i, P s → C s i → D s i) {is : List ι} :
    ∀ {s : σ}, P s → Guarded step C s is → Guarded step D s is := by
  induction is with
  | nil => intro s _ _; trivial
  | cons i is ih => intro s hs h; exact ⟨hCD s i hs h.1, ih (hstep s i hs h.1) h.2⟩

/-- Where every step keeps `P` and puts out only what meets `Q`, so does a run. -/
theorem outputs_inv {Q : ο → Prop} (hstep : ∀ s i, P s → P (step s i).1)
    (hout : ∀ s i, P s → ∀ o ∈ (step s i).2, Q o) {s : σ} (hs : P s) (is : List ι) :
    ∀ o ∈ outputs step s is, Q o := by
  induction is generalizing s with
  | nil => simp
  | cons i is ih => exact List.forall_mem_append.mpr ⟨hout s i hs, ih (hstep s i hs)⟩

theorem always_cons {s : σ} {i : ι} {is : List ι} :
    Always step P s (i :: is) ↔ P s ∧ Always step P (step s i).1 is := by
  constructor
  · intro h
    refine ⟨h [] List.nil_prefix, fun pre hpre => ?_⟩
    exact h (i :: pre) (List.cons_prefix_cons.mpr ⟨rfl, hpre⟩)
  · rintro ⟨h0, h⟩ pre hpre
    cases pre with
    | nil => exact h0
    | cons j pre =>
      obtain ⟨rfl, hp⟩ := List.cons_prefix_cons.mp hpre
      exact h pre hp

/-- A property that one step keeps exactly when it meets `C` holds all along a
run exactly when every step of the run meets `C`. -/
theorem always_iff_guarded {I : σ → Prop} (hI : ∀ s i, I s → I (step s i).1)
    (hstep : ∀ s i, I s → P s → (P (step s i).1 ↔ C s i)) {s : σ} (hs : I s) (hP : P s)
    (is : List ι) : Always step P s is ↔ Guarded step C s is := by
  induction is generalizing s with
  | nil =>
    refine ⟨fun _ => trivial, fun _ pre hpre => ?_⟩
    rw [List.prefix_nil.mp hpre]
    exact hP
  | cons i is ih =>
    rw [always_cons]
    constructor
    · rintro ⟨_, h⟩
      have hP' : P (step s i).1 := h [] List.nil_prefix
      exact ⟨(hstep s i hs hP).mp hP', (ih (hI s i hs) hP').mp h⟩
    · rintro ⟨hC, h⟩
      have hP' := (hstep s i hs hP).mpr hC
      exact ⟨hP, (ih (hI s i hs) hP').mpr h⟩

/-- A property that a step has exactly when the state before it has it and the step meets `C`: once
lost it is never had again, so it is had in the end exactly when every step met `C`. -/
theorem after_iff_guarded {I : σ → Prop} (hI : ∀ s i, I s → I (step s i).1)
    (hstep : ∀ s i, I s → (P (step s i).1 ↔ P s ∧ C s i)) {s : σ} (hs : I s) (is : List ι) :
    P (after step s is) ↔ P s ∧ Guarded step C s is := by
  induction is generalizing s with
  | nil => exact (and_iff_left trivial).symm
  | cons i is ih => rw [after_cons, ih (hI s i hs), hstep s i hs, Guarded, and_assoc]

@[simp] theorem noted_append (f : σ → ι → List β) (s : σ) (is js : List ι) :
    noted step f s (is ++ js) = noted step f s is ++ noted step f (after step s is) js := by
  induction is generalizing s with
  | nil => rfl
  | cons i is ih => simp only [List.cons_append, noted, ih, after_cons, List.append_assoc]

theorem noted_singleton (f : σ → ι → List β) (s : σ) (i : ι) : noted step f s [i] = f s i :=
  List.append_nil _

/-- Once `a` is noted the state bars all that is not related to `a` and goes on to do
so; then the notes of a run are pairwise related. -/
theorem noted_pairwise {f : σ → ι → List β} {R : β → β → Prop} {B : σ → β → Prop}
    (hstep : ∀ s i, P s → P (step s i).1) (hone : ∀ s i, P s → (f s i).Pairwise R)
    (hbar : ∀ s i a, P s → a ∈ f s i → B (step s i).1 a)
    (hkeep : ∀ s i a, P s → B s a → B (step s i).1 a)
    (hlater : ∀ s i a b, P s → B s a → b ∈ f s i → R a b) {s : σ} (hs : P s) (is : List ι) :
    (noted step f s is).Pairwise R := by
  have hbarred : ∀ (is : List ι) {s : σ} {a : β}, P s → B s a →
      ∀ b ∈ noted step f s is, R a b := by
    intro is
    induction is with
    | nil => intro s a _ _ b hb; cases hb
    | cons i is ih =>
      intro s a hs ha b hb
      rcases List.mem_append.mp hb with hb | hb
      · exact hlater s i a b hs ha hb
      · exact ih (hstep s i hs) (hkeep s i a hs ha) b hb
  induction is generalizing s with
  | nil => exact .nil
  | cons i is ih =>
    refine List.pairwise_append.mpr ⟨hone s i hs, ih (hstep s i hs), fun a ha b hb => ?_⟩
    exact hbarred is (hstep s i hs) (hbar s i a hs ha) b hb

end

/-! ## A machine inside another one -/

section
variable {σ' ι' ο' : Type*} {step} {step' : σ' → ι' → σ' × List ο'} {part : σ → σ'}
  {moved : σ → ι → List ι'}

/-- Where each step of a machine takes a part of it through the inputs `moved`, a run takes it
through all of these in turn. -/
theorem after_part (hstep : ∀ s i, part (step s i).1 = after step' (part s) (moved s i))
    (is : List ι) :
    ∀ s, part (after step s is) = after step' (part s) (noted step moved s is) := by
  induction is with
  | nil => intro s; rfl
  | cons i is ih => intro s; rw [after_cons, ih, hstep, noted, after_append]

/-- What `see` makes of the outputs is then what the part puts out. -/
theorem outputs_part {see : List ο → List ο'} (hnil : see [] = [])
    (happend : ∀ a b, see (a ++ b) = see a ++ see b)
    (hstep : ∀ s i, part (step s i).1 = after step' (part s) (moved s i))
    (hsee : ∀ s i, see (step s i).2 = outputs step' (part s) (moved s i)) (is : List ι) :
    ∀ s, see (outputs step s is) = outputs step' (part s) (noted step moved s is) := by
  induction is with
  | nil => intro s; exact hnil
  | cons i is ih => intro s; rw [outputs_cons, happend, hsee, ih, hstep, noted, outputs_append]

theorem guarded_part {C : σ → ι → Prop} {C' : σ' → ι' → Prop}
    (hstep : ∀ s i, part (step s i).1 = after step' (part s) (moved s i))
    (hC : ∀ s i, C s i → Guarded step' C' (part s) (moved s i)) {is : List ι} :
    ∀ {s : σ}, Guarded step C s is → Guarded step' C' (part s) (noted step moved s is) := by
  induction is with
  | nil => intro s _; trivial
  | cons i is ih =>
    intro s h
    exact guarded_append.mpr ⟨hC s i h.1, hstep s i ▸ ih h.2⟩

end

end Senn.Lib.Machine
