import Senn.Core.Reassembly

/-! # What one frame can do to the reassembly buffer

`handleChunk_outcome` lists the ways `handleChunk` ends, with the state and the
events of each; the results about runs read this list and never the code again.
Evictions are summed up by `Evicted`: the slot of the frame's own message stays
and the others are kept as they are or dropped. -/

namespace Senn.Core
open Senn.Js Senn.Lib

namespace Reassembly

/-! ## Evictions -/

theorem oldestOther_fold {protectKey : JsString} {es : List (JsString × ReassemblySlot)} :
    ∀ {acc o : Option (JsString × ReassemblySlot)},
      es.foldl (fun oldest e =>
        if e.1 = protectKey then oldest
        else match oldest with
          | none => some e
          | some o => if e.2.firstSeenAt < o.2.firstSeenAt then some e else oldest) acc = o →
      o = acc ∨ ∃ e, o = some e ∧ e ∈ es ∧ e.1 ≠ protectKey := by
  induction es with
  | nil => intro acc o h; exact .inl h.symm
  | cons e es ih =>
    intro acc o h
    rw [List.foldl_cons] at h
    rcases ih h with ho | ⟨x, hx, hmem, hne⟩
    · split at ho
      · exact .inl ho
      · next hne =>
        split at ho
        · exact .inr ⟨e, ho, List.mem_cons_self .., hne⟩
        · split at ho
          · exact .inr ⟨e, ho, List.mem_cons_self .., hne⟩
          · exact .inl ho
    · exact .inr ⟨x, hx, List.mem_cons_of_mem _ hmem, hne⟩

theorem oldestOther_mem {protectKey : JsString} {es : List (JsString × ReassemblySlot)}
    {e : JsString × ReassemblySlot} (h : oldestOther protectKey es = some e) :
    e ∈ es ∧ e.1 ≠ protectKey := by
  rcases oldestOther_fold h with h | ⟨x, hx, hmem, hne⟩
  · cases h
  · cases hx; exact ⟨hmem, hne⟩

/-- `st'` and `evs` are what evictions that spare `protectKey` make of `st`. -/
structure Evicted (protectKey : JsString) (st st' : Reassembly) (evs : List BinEvent) : Prop where
  spared : st'.reassembly.get protectKey = st.reassembly.get protectKey
  shrinks : ∀ k s, st'.reassembly.get k = some s → st.reassembly.get k = some s
  errors : ∀ e ∈ evs, ∃ k s, k ≠ protectKey ∧ st.reassembly.get k = some s ∧
    e = .error (.overflowDropped s.addon s.id)
  quiet : evs = [] → ∀ k, st'.reassembly.get k = st.reassembly.get k
  timer : st.reassembly.get protectKey ≠ none → st'.reassemblyGcTimer = st.reassemblyGcTimer
  bytes : st.reassemblyBytes = st.reassembly.sumBy (fun s => s.bytes) →
    st'.reassemblyBytes = st'.reassembly.sumBy fun s => s.bytes

theorem size_ne_zero {m : InsMap JsString ReassemblySlot} {k : JsString}
    (h : m.get k ≠ none) : m.size ≠ 0 := by
  intro h0
  apply h
  have hnil : m.entries = [] := List.length_eq_zero_iff.mp h0
  rw [InsMap.get, hnil]
  rfl

@[simp] theorem maybeStop_reassembly (st : Reassembly) :
    st.maybeStopReassemblyGc.reassembly = st.reassembly := by
  unfold maybeStopReassemblyGc
  split <;> rfl

@[simp] theorem maybeStop_bytes (st : Reassembly) :
    st.maybeStopReassemblyGc.reassemblyBytes = st.reassemblyBytes := by
  unfold maybeStopReassemblyGc
  split <;> rfl

theorem maybeStop_of_ne {st : Reassembly} (h : st.reassembly.size ≠ 0) :
    st.maybeStopReassemblyGc = st := by
  rw [maybeStopReassemblyGc, if_neg h]

theorem Evicted.refl (protectKey : JsString) (st : Reassembly) :
    Evicted protectKey st st [] :=
  ⟨rfl, fun _ _ h => h, by simp, fun _ _ => rfl, fun _ => rfl, fun h => h⟩

theorem Evicted.stop (protectKey : JsString) (st : Reassembly) :
    Evicted protectKey st st.maybeStopReassemblyGc [] := by
  refine ⟨by simp, by simp, by simp, by simp, fun h => ?_, fun h => ?_⟩
  · rw [maybeStop_of_ne (size_ne_zero h)]
  · simpa using h

theorem Evicted.drop {protectKey k : JsString} {st st' : Reassembly} {slot : ReassemblySlot}
    {evs : List BinEvent} (hget : st.reassembly.get k = some slot) (hne : k ≠ protectKey)
    (h : Evicted protectKey (st.dropSlot k slot) st' evs) :
    Evicted protectKey st st' (.error (.overflowDropped slot.addon slot.id) :: evs) := by
  have hother : ∀ a, a ≠ k → (st.dropSlot k slot).reassembly.get a = st.reassembly.get a :=
    fun a ha => InsMap.get_delete_of_ne _ ha
  have hback : ∀ a s, (st.dropSlot k slot).reassembly.get a = some s →
      st.reassembly.get a = some s := by
    intro a s hs
    by_cases ha : a = k
    · subst ha
      rw [dropSlot, InsMap.get_delete_self] at hs
      cases hs
    · rwa [hother a ha] at hs
  refine ⟨h.spared.trans (hother _ hne.symm), fun a s hs => hback a s (h.shrinks a s hs), ?_,
    by simp, ?_, ?_⟩
  · intro e he
    rcases List.mem_cons.mp he with rfl | he
    · exact ⟨k, slot, hne, hget, rfl⟩
    · obtain ⟨a, s, ha, hs, rfl⟩ := h.errors e he
      exact ⟨a, s, ha, hback a s hs, rfl⟩
  · intro hp
    exact h.timer (by rw [hother _ hne.symm]; exact hp)
  · intro hb
    apply h.bytes
    simp only [dropSlot]
    rw [InsMap.sumBy_delete hget, hb]

theorem evictLoop_evicted (protectKey : JsString) (fuel : Nat) (st : Reassembly) :
    Evicted protectKey st (evictLoop protectKey fuel st).1 (evictLoop protectKey fuel st).2 := by
  induction fuel generalizing st with
  | zero =>
    rw [evictLoop]
    split
    · exact .stop protectKey st
    · exact .refl protectKey st
  | succ fuel ih =>
    rw [evictLoop]
    split
    · exact .stop protectKey st
    · split
      · exact .refl protectKey st
      · next k dropped ho =>
        obtain ⟨hmem, hne⟩ := oldestOther_mem ho
        exact .drop (InsMap.get_eq_some_iff.mpr hmem) hne (ih _)

theorem evictUntilUnderBudget_evicted (st : Reassembly) (protectKey : JsString) :
    Evicted protectKey st (st.evictUntilUnderBudget protectKey).1
      (st.evictUntilUnderBudget protectKey).2 := evictLoop_evicted protectKey _ st

/-- Under the budget nothing is evicted. -/
theorem evictUntilUnderBudget_idle {st : Reassembly} (protectKey : JsString)
    (h : st.reassemblyBytes ≤ BIN_REASSEMBLY_BUDGET_BYTES) :
    st.evictUntilUnderBudget protectKey = (st.maybeStopReassemblyGc, []) := by
  unfold evictUntilUnderBudget
  cases st.reassembly.size with
  | zero => rw [evictLoop, if_pos h]
  | succ n => rw [evictLoop, if_pos h]

/-! ## The outcomes of a frame -/

/-- The slot the frame goes to, the one kept for its message or a new one, and
whether the interval runs then. -/
inductive Target (st : Reassembly) (now : Nat) (c : Chunk) : ReassemblySlot → Bool → Prop
  | found {slot : ReassemblySlot} :
      st.reassembly.get (slotKey c.addon c.id) = some slot → c.total = .ofNat slot.total →
      slot.mime = c.mime → Target st now c slot st.reassemblyGcTimer
  | fresh {total : Nat} :
      st.reassembly.get (slotKey c.addon c.id) = none → c.total = .ofNat total → 0 < total →
      Target st now c (newSlot c total now) true

/-- The buffer right after the frame was stored in `slot`. -/
def stored (st : Reassembly) (c : Chunk) (slot : ReassemblySlot) (timer : Bool) : Reassembly :=
  ⟨st.reassembly.set (slotKey c.addon c.id) (addFrame slot c.seq c.body),
    st.reassemblyBytes + c.body.length, timer⟩

/-- The buffer after the slot of the frame was deleted. -/
def released (st : Reassembly) (c : Chunk) (slot : ReassemblySlot) : Reassembly :=
  (st.dropSlot (slotKey c.addon c.id) (addFrame slot c.seq c.body)).maybeStopReassemblyGc

/-- The frame is in the range `handleChunk` checks. -/
def InRange (c : Chunk) : Prop :=
  c.total.lt (.ofNat 1) = false ∧ c.seq.lt (.ofNat 0) = false ∧ c.total.le c.seq = false

/-- The ways `handleChunk` ends. -/
inductive Outcome (st : Reassembly) (now : Nat) (c : Chunk) : Reassembly → List BinEvent → Prop
  | rejected {ev : BinEvent} : (∀ m, ev ≠ .binary m) → Outcome st now c st [ev]
  | duplicate {slot : ReassemblySlot} :
      st.reassembly.get (slotKey c.addon c.id) = some slot → (slot.frames.get c.seq).isSome →
      Outcome st now c st []
  | capped {slot : ReassemblySlot} {timer : Bool} :
      InRange c → Target st now c slot timer → slot.frames.get c.seq = none →
      BIN_MESSAGE_MAX_BYTES < (addFrame slot c.seq c.body).bytes →
      Outcome st now c (released (stored st c slot timer) c slot)
        [.error (.exceedsCap (addFrame slot c.seq c.body).bytes)]
  | kept {slot : ReassemblySlot} {timer : Bool} {st' : Reassembly} {evs : List BinEvent} :
      InRange c → Target st now c slot timer → slot.frames.get c.seq = none →
      (addFrame slot c.seq c.body).bytes ≤ BIN_MESSAGE_MAX_BYTES →
      (stored st c slot timer).evictUntilUnderBudget (slotKey c.addon c.id) = (st', evs) →
      slot.receivedFrames + 1 ≠ slot.total → Outcome st now c st' evs
  | completed {slot : ReassemblySlot} {timer : Bool} {st' : Reassembly} {evs : List BinEvent} :
      InRange c → Target st now c slot timer → slot.frames.get c.seq = none →
      (addFrame slot c.seq c.body).bytes ≤ BIN_MESSAGE_MAX_BYTES →
      (stored st c slot timer).evictUntilUnderBudget (slotKey c.addon c.id) = (st', evs) →
      slot.receivedFrames + 1 = slot.total →
      Outcome st now c (released st' c slot)
        (evs ++ [.binary ⟨slot.addon, slot.mime, assemble (addFrame slot c.seq c.body)⟩])

theorem storeFrame_outcome {st : Reassembly} {now : Nat} {c : Chunk} {slot : ReassemblySlot}
    {timer : Bool} {m : InsMap JsString ReassemblySlot} (hr : InRange c)
    (ht : Target st now c slot timer) (hseq : slot.frames.get c.seq = none)
    (hm : m.set (slotKey c.addon c.id) (addFrame slot c.seq c.body) =
      st.reassembly.set (slotKey c.addon c.id) (addFrame slot c.seq c.body)) :
    Outcome st now c
      (storeFrame ⟨m, st.reassemblyBytes, timer⟩ (slotKey c.addon c.id) slot c.seq c.body).1
      (storeFrame ⟨m, st.reassemblyBytes, timer⟩ (slotKey c.addon c.id) slot c.seq c.body).2 := by
  have hst : (⟨m.set (slotKey c.addon c.id) (addFrame slot c.seq c.body),
      st.reassemblyBytes + c.body.length, timer⟩ : Reassembly) = stored st c slot timer := by
    rw [hm]; rfl
  unfold storeFrame
  rw [if_neg (by simp [hseq])]
  dsimp only
  rw [hst]
  split
  · next hcap => exact .capped hr ht hseq hcap
  · next hcap =>
    split
    · next hfull => exact .completed hr ht hseq (Nat.le_of_not_lt hcap) rfl hfull
    · next hfull => exact .kept hr ht hseq (Nat.le_of_not_lt hcap) rfl hfull

theorem handleChunk_outcome (st : Reassembly) (now : Nat) (c : Chunk) :
    Outcome st now c (st.handleChunk now c).1 (st.handleChunk now c).2 := by
  unfold handleChunk
  split
  · exact .rejected (by simp)
  · next hrange =>
    have hr : InRange c := by
      simpa [InRange, and_assoc] using hrange
    dsimp only
    split
    · next hnone =>
      split
      · exact .rejected (by simp)
      · next total htotal =>
        obtain ⟨heq, _⟩ := Number.arrayLength?_eq_some.mp htotal
        have hpos : 0 < total := by
          have h1 := hr.1
          rw [heq, Number.lt_ofNat] at h1
          have := of_decide_eq_false h1
          omega
        exact storeFrame_outcome hr (.fresh hnone heq hpos) (by rw [newSlot]; rfl)
          (InsMap.set_set ..)
    · next slot hsome =>
      split
      · exact .rejected (by simp)
      · next hmatch =>
        simp only [Bool.or_eq_true, Bool.not_eq_true', decide_eq_true_eq, not_or,
          Bool.not_eq_false, Number.eq_iff, not_not] at hmatch
        obtain ⟨⟨htotal, _⟩, hmime⟩ := hmatch
        cases hseq : slot.frames.get c.seq with
        | some b =>
          have hdup : storeFrame st (slotKey c.addon c.id) slot c.seq c.body = (st, []) := by
            rw [storeFrame, if_pos (by simp [hseq])]
          rw [hdup]
          exact .duplicate hsome (by simp [hseq])
        | none => exact storeFrame_outcome hr (.found hsome htotal.symm hmime) hseq rfl

end Reassembly

end Senn.Core
