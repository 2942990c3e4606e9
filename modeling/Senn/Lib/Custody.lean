import Mathlib.Data.List.Nodup
import Mathlib.Data.List.Perm.Basic
import Senn.Lib.Machine

/-! # Custody

Things that are open until someone closes them, and the places that hold them. A thing is held at
one place from the moment it is made; what is dropped while it is open is never held again, so
in the end all that is open is held exactly when nothing open was ever dropped. -/

namespace Senn.Lib.Custody

variable {σ ι ο α : Type*}

/-- What a state knows of the things. -/
structure View (α : Type*) where
  known : α → Prop
  isOpen : α → Prop
  held : List α

/-- Every thing is held once, and nothing is held or open that was never made. -/
structure View.Kept (v : View α) : Prop where
  nodup : v.held.Nodup
  known : ∀ a ∈ v.held, v.known a
  opened : ∀ a, v.isOpen a → v.known a

/-- All that is open is held. -/
def View.Tracked (v : View α) : Prop := ∀ a, v.isOpen a → a ∈ v.held

/-- A step that takes what it makes, drops some of what is held, and closes only what it holds. -/
structure Move (v v' : View α) (taken dropped : List α) : Prop where
  perm : (dropped ++ v'.held).Perm (v.held ++ taken)
  fresh : taken.Nodup ∧ ∀ a ∈ taken, ¬v.known a
  known : ∀ a, v'.known a ↔ v.known a ∨ a ∈ taken
  opened : ∀ a, v'.isOpen a → v.isOpen a ∨ a ∈ taken ∧ a ∈ v'.held
  closed : ∀ a, v.isOpen a → v'.isOpen a ∨ a ∈ v'.held

variable {v v' : View α} {taken dropped : List α}

theorem Move.nodup (h : Move v v' taken dropped) (hv : v.Kept) : (dropped ++ v'.held).Nodup := by
  rw [h.perm.nodup_iff, List.nodup_append]
  refine ⟨hv.nodup, h.fresh.1, fun a ha b hb heq => ?_⟩
  exact h.fresh.2 b hb (heq ▸ hv.known a ha)

theorem Move.mem_held (h : Move v v' taken dropped) {a : α} (ha : a ∈ v'.held) :
    a ∈ v.held ∨ a ∈ taken :=
  List.mem_append.mp (h.perm.subset (List.mem_append_right dropped ha))

theorem Move.kept (h : Move v v' taken dropped) (hv : v.Kept) : v'.Kept where
  nodup := (List.nodup_append.mp (h.nodup hv)).2.1
  known a ha := (h.known a).mpr ((h.mem_held ha).imp_left (hv.known a))
  opened a ha := (h.known a).mpr ((h.opened a ha).imp (hv.opened a) And.left)

/-- The state before may be one that knows and holds the same. -/
theorem Move.congr {u : View α} (h : Move v v' taken dropped) (hknown : ∀ a, u.known a ↔ v.known a)
    (hopen : ∀ a, u.isOpen a ↔ v.isOpen a) (hheld : v.held.Perm u.held) :
    Move u v' taken dropped where
  perm := h.perm.trans (hheld.append_right taken)
  fresh := ⟨h.fresh.1, fun a ha hu => h.fresh.2 a ha ((hknown a).mp hu)⟩
  known a := (h.known a).trans (or_congr_left (hknown a).symm)
  opened a ha := (h.opened a ha).imp_left (hopen a).mpr
  closed a ha := h.closed a ((hopen a).mp ha)

/-- All that is open is held after the step, if it was before and nothing open is dropped. -/
theorem Move.tracked_iff (h : Move v v' taken dropped) (hv : v.Kept) :
    v'.Tracked ↔ v.Tracked ∧ ∀ a ∈ dropped, ¬v.isOpen a := by
  have hstill : v'.Tracked → ∀ a, v.isOpen a → a ∈ v'.held := fun ht a ha =>
    (h.closed a ha).elim (ht a) id
  constructor
  · intro ht
    refine ⟨fun a ha => ?_, fun a hdropped ha => ?_⟩
    · obtain hheld | htaken := h.mem_held (hstill ht a ha)
      · exact hheld
      · exact absurd (hv.opened a ha) (h.fresh.2 a htaken)
    · exact (List.nodup_append.mp (h.nodup hv)).2.2 a hdropped a (hstill ht a ha) rfl
  · intro hboth a ha
    obtain ⟨ht, hclosed⟩ := hboth
    obtain ha | ⟨-, hheld⟩ := h.opened a ha
    · obtain hdropped | hheld := List.mem_append.mp
        (h.perm.symm.subset (List.mem_append_left taken (ht a ha)))
      · exact absurd ha (hclosed a hdropped)
      · exact hheld
    · exact hheld

/-- In a run of such steps all that is open in the end is held exactly when nothing that was open
has been dropped. -/
theorem tracked_after_iff {step : σ → ι → σ × List ο} {view : σ → View α}
    {taken dropped : σ → ι → List α}
    (hmove : ∀ s i, Move (view s) (view (step s i).1) (taken s i) (dropped s i)) {s : σ}
    (hkept : (view s).Kept) (htracked : (view s).Tracked) (is : List ι) :
    (view (Machine.after step s is)).Tracked ↔
      Machine.Guarded step (fun s i => ∀ a ∈ dropped s i, ¬(view s).isOpen a) s is := by
  have hrun := Machine.after_iff_guarded (P := fun s => (view s).Tracked)
    (I := fun s => (view s).Kept) (fun s i => (hmove s i).kept)
    (fun s i hs => (hmove s i).tracked_iff hs) hkept is
  rw [hrun, and_iff_right htracked]

end Senn.Lib.Custody
