import Senn.Core.BinaryRoundTrip
import Senn.Core.Eviction

/-! # The timeout of the reassembly buffer

The age of a message is looked at when the interval fires and at no other time.
A message is emitted whenever its last frame finds it in the buffer, so it is
emitted too late exactly where no tick came between its sixtieth second and that
frame. Whatever leaves the buffer otherwise leaves with an error event. -/

namespace Senn.Core
open Senn.Js Senn.Lib

namespace Reassembly

/-- The message in flight under `key` after the run `pre` got its first frame at time `t`. -/
def InFlightSince (pre : List Input) (key : JsString) (t : Nat) : Prop :=
  ∃ p buf c q, pre = p ++ .frame t buf :: q ∧ decodeFrame buf = .chunk c ∧
    slotKey c.addon c.id = key ∧ (Machine.after step .init p).reassembly.get key = none ∧
    ∀ r, r <+: q → (Machine.after step .init (p ++ .frame t buf :: r)).reassembly.get key ≠ none

theorem after_snoc (pre : List Input) (i : Input) :
    Machine.after step .init (pre ++ [i]) = ((Machine.after step .init pre).step i).1 := by
  rw [Machine.after_append, Machine.after_cons, Machine.after_nil]

theorem InFlightSince.snoc {pre : List Input} {key : JsString} {t : Nat} {i : Input}
    (h : InFlightSince pre key t)
    (hi : (Machine.after step .init (pre ++ [i])).reassembly.get key ≠ none) :
    InFlightSince (pre ++ [i]) key t := by
  obtain ⟨p, buf, c, q, rfl, hc, hkey, hnone, hall⟩ := h
  refine ⟨p, buf, c, q ++ [i], by simp, hc, hkey, hnone, fun r hr => ?_⟩
  rcases List.prefix_concat_iff.mp hr with rfl | hr
  · simpa using hi
  · exact hall r hr

/-- A frame or a tick keeps the time a slot was opened at. -/
theorem step_firstSeenAt {st : Reassembly} {i : Input} {key : JsString} {s s' : ReassemblySlot}
    (hs : st.reassembly.get key = some s) (hs' : (st.step i).1.reassembly.get key = some s') :
    s'.firstSeenAt = s.firstSeenAt := by
  rcases step_get hs' with hold | ⟨now, buf, c, rfl, _, rfl, _, slot, timer, ht, _, rfl⟩
  · obtain rfl := Option.some.inj (hs.symm.trans hold)
    rfl
  · cases ht with
    | found hget =>
      obtain rfl := Option.some.inj (hs.symm.trans hget)
      rfl
    | fresh hnone => exact absurd (hs.symm.trans hnone) (by simp)

/-- A slot is opened by a frame of its message, at the time it records. -/
theorem step_opens {st : Reassembly} {i : Input} {key : JsString} {s : ReassemblySlot}
    (hnone : st.reassembly.get key = none) (hs : (st.step i).1.reassembly.get key = some s) :
    ∃ buf c, i = .frame s.firstSeenAt buf ∧ decodeFrame buf = .chunk c ∧
      slotKey c.addon c.id = key := by
  rcases step_get hs with hold | ⟨now, buf, c, rfl, hc, rfl, _, slot, timer, ht, _, rfl⟩
  · exact absurd (hnone.symm.trans hold) (by simp)
  · obtain ⟨_, _, heq, hdecode⟩ := Input.chunk?_eq_some.mp hc
    cases heq
    cases ht with
    | found hget => exact absurd (hnone.symm.trans hget) (by simp)
    | fresh => exact ⟨buf, c, rfl, hdecode, rfl⟩

theorem InFlightSince.get {pre : List Input} {key : JsString} {t : Nat}
    (h : InFlightSince pre key t) :
    ∃ s, (Machine.after step .init pre).reassembly.get key = some s ∧ s.firstSeenAt = t := by
  obtain ⟨p, buf, c, q, rfl, -, -, hnone, hall⟩ := h
  induction q using List.reverseRecOn with
  | nil =>
    obtain ⟨s, hs⟩ := Option.ne_none_iff_exists'.mp (hall [] List.prefix_rfl)
    rw [after_snoc] at hs
    obtain ⟨_, _, heq, -⟩ := step_opens hnone hs
    exact ⟨s, by rw [after_snoc]; exact hs, (Input.frame.inj heq).1.symm⟩
  | append_singleton q i ih =>
    obtain ⟨s, hs, rfl⟩ := ih fun r hr => hall r (hr.trans (List.prefix_append q [i]))
    obtain ⟨s', hs'⟩ := Option.ne_none_iff_exists'.mp (hall (q ++ [i]) List.prefix_rfl)
    have hstep := hs'
    rw [← List.cons_append, ← List.append_assoc, after_snoc] at hstep
    exact ⟨s', hs', step_firstSeenAt hs hstep⟩

/-! ## What is emitted -/

end Reassembly

end Senn.Core
