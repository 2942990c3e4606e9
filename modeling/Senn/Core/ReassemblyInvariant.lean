import Senn.Core.ReassemblyStep

/-! # The accounting of the reassembly buffer

`Accounted` ties the byte counter to the slots, each slot's counters to the
frames stored in it, and the interval to the map. Every step keeps it, so it
holds in every state a run from the empty buffer reaches. -/

namespace Senn.Core
open Senn.Js Senn.Lib

/-- The counters of one slot, at rest: the message is not complete. -/
structure SlotOk (s : ReassemblySlot) : Prop where
  bytes_eq : (s.bytes : Int) = s.frames.sumBy fun b => b.length
  bytes_le : s.bytes ≤ BIN_MESSAGE_MAX_BYTES
  received : s.receivedFrames = s.frames.size
  incomplete : s.receivedFrames < s.total

structure Accounted (st : Reassembly) : Prop where
  bytes : st.reassemblyBytes = st.reassembly.sumBy fun s => s.bytes
  slots : ∀ k s, st.reassembly.get k = some s → SlotOk s
  keys : ∀ k s, st.reassembly.get k = some s → k = slotKey s.addon s.id
  timer : st.reassemblyGcTimer = true ↔ st.reassembly.size ≠ 0

namespace Reassembly

theorem init_accounted : Accounted .init :=
  ⟨rfl, by simp [init], by simp [init], by simp [init, InsMap.empty, InsMap.size]⟩

/-! ## Storing a frame -/

theorem Target.timer_true {st : Reassembly} {now : Nat} {c : Chunk} {slot : ReassemblySlot}
    {timer : Bool} (h : Accounted st) (ht : Target st now c slot timer) : timer = true := by
  cases ht with
  | found hget => exact h.timer.mpr (size_ne_zero (by rw [hget]; simp))
  | fresh => rfl

theorem addFrame_bytes {slot : ReassemblySlot} {seq : Number} {body : Bytes}
    (hs : (slot.bytes : Int) = slot.frames.sumBy fun b => b.length)
    (hseq : slot.frames.get seq = none) :
    ((addFrame slot seq body).bytes : Int) =
      (addFrame slot seq body).frames.sumBy fun b => b.length := by
  simp only [addFrame, InsMap.sumBy_set_of_none hseq]
  push_cast
  omega

/-- A slot a frame goes to: its counters are right, whether it is new or not. -/
structure SlotBase (s : ReassemblySlot) : Prop where
  bytes_eq : (s.bytes : Int) = s.frames.sumBy fun b => b.length
  received : s.receivedFrames = s.frames.size
  incomplete : s.receivedFrames < s.total

theorem Target.base {st : Reassembly} {now : Nat} {c : Chunk} {slot : ReassemblySlot}
    {timer : Bool} (h : Accounted st) (ht : Target st now c slot timer) : SlotBase slot := by
  cases ht with
  | found hget =>
    have hs := h.slots _ _ hget
    exact ⟨hs.bytes_eq, hs.received, hs.incomplete⟩
  | fresh _ _ hpos => exact ⟨rfl, rfl, hpos⟩

theorem Target.key {st : Reassembly} {now : Nat} {c : Chunk} {slot : ReassemblySlot}
    {timer : Bool} (h : Accounted st) (ht : Target st now c slot timer) :
    slotKey c.addon c.id = slotKey slot.addon slot.id := by
  cases ht with
  | found hget => exact h.keys _ _ hget
  | fresh => rfl

/-- The sum over the slots other than the one the frame goes to. -/
theorem Target.rest {st : Reassembly} {now : Nat} {c : Chunk} {slot : ReassemblySlot}
    {timer : Bool} (ht : Target st now c slot timer) :
    (st.reassembly.delete (slotKey c.addon c.id)).sumBy (fun s => s.bytes) =
      st.reassembly.sumBy (fun s => s.bytes) - slot.bytes := by
  cases ht with
  | found hget => exact InsMap.sumBy_delete hget
  | fresh hnone => rw [InsMap.delete_of_none hnone]; simp [newSlot]

theorem stored_bytes {st : Reassembly} {now : Nat} {c : Chunk} {slot : ReassemblySlot}
    {timer : Bool} (h : Accounted st) (ht : Target st now c slot timer) :
    (stored st c slot timer).reassemblyBytes =
      (stored st c slot timer).reassembly.sumBy fun s => s.bytes := by
  have hget := InsMap.get_set_self st.reassembly (slotKey c.addon c.id)
    (addFrame slot c.seq c.body)
  have hdel := InsMap.sumBy_delete (f := fun s : ReassemblySlot => (s.bytes : Int)) hget
  rw [InsMap.delete_set, ht.rest] at hdel
  have hb := h.bytes
  simp only [stored, addFrame] at hdel ⊢
  push_cast at hdel
  omega

theorem get_stored {st : Reassembly} {c : Chunk} {slot : ReassemblySlot} {timer : Bool} :
    (stored st c slot timer).reassembly.get (slotKey c.addon c.id) =
      some (addFrame slot c.seq c.body) := InsMap.get_set_self ..

theorem get_stored_of_ne {st : Reassembly} {c : Chunk} {slot : ReassemblySlot} {timer : Bool}
    {k : JsString} (h : k ≠ slotKey c.addon c.id) :
    (stored st c slot timer).reassembly.get k = st.reassembly.get k :=
  InsMap.get_set_of_ne _ _ h

theorem get_released {st : Reassembly} {c : Chunk} {slot : ReassemblySlot} (k : JsString) :
    (released st c slot).reassembly.get k =
      if k = slotKey c.addon c.id then none else st.reassembly.get k := by
  rw [released, maybeStop_reassembly, dropSlot, InsMap.get_delete]

/-- Deleting the slot of the frame restores the accounting. -/
theorem released_accounted {st : Reassembly} {c : Chunk} {slot : ReassemblySlot}
    (hget : st.reassembly.get (slotKey c.addon c.id) = some (addFrame slot c.seq c.body))
    (hb : st.reassemblyBytes = st.reassembly.sumBy fun s => s.bytes)
    (hslots : ∀ k s, k ≠ slotKey c.addon c.id → st.reassembly.get k = some s →
      SlotOk s ∧ k = slotKey s.addon s.id)
    (ht : st.reassemblyGcTimer = true) : Accounted (released st c slot) := by
  have hother : ∀ k s, (released st c slot).reassembly.get k = some s →
      SlotOk s ∧ k = slotKey s.addon s.id := by
    intro k s hk
    rw [get_released] at hk
    split at hk
    · cases hk
    · next hne => exact hslots k s hne hk
  refine ⟨?_, fun k s hk => (hother k s hk).1, fun k s hk => (hother k s hk).2, ?_⟩
  · simp only [released, maybeStop_bytes, maybeStop_reassembly, dropSlot,
      InsMap.sumBy_delete hget, hb]
  · unfold released maybeStopReassemblyGc
    split
    · next h0 => simp [h0]
    · next h0 => simp [dropSlot, ht] at h0 ⊢; exact h0

theorem Outcome.accounted {st st' : Reassembly} {now : Nat} {c : Chunk} {evs : List BinEvent}
    (h : Accounted st) (ho : Outcome st now c st' evs) : Accounted st' := by
  have hold : ∀ {slot timer} k s, k ≠ slotKey c.addon c.id →
      (stored st c slot timer).reassembly.get k = some s → SlotOk s ∧ k = slotKey s.addon s.id := by
    intro slot timer k s hne hk
    rw [get_stored_of_ne hne] at hk
    exact ⟨h.slots k s hk, h.keys k s hk⟩
  cases ho with
  | rejected => exact h
  | duplicate => exact h
  | capped hr ht hseq hcap =>
    exact released_accounted get_stored (stored_bytes h ht) hold (ht.timer_true h)
  | @kept slot timer st' evs hr ht hseq hcap he hne =>
    have hev := evictUntilUnderBudget_evicted (stored st c slot timer) (slotKey c.addon c.id)
    rw [he] at hev
    have hget := hev.spared.trans get_stored
    have hbase := ht.base h
    have hok : SlotOk (addFrame slot c.seq c.body) :=
      ⟨addFrame_bytes hbase.bytes_eq hseq, hcap, by
        simp only [addFrame, InsMap.size_set_of_none hseq, hbase.received], by
        have := hbase.incomplete
        simp only [addFrame]; omega⟩
    have hkey : slotKey c.addon c.id = slotKey slot.addon slot.id := ht.key h
    have hslots : ∀ k s, st'.reassembly.get k = some s → SlotOk s ∧ k = slotKey s.addon s.id := by
      intro k s hk
      by_cases hkc : k = slotKey c.addon c.id
      · subst hkc
        rw [hget] at hk
        obtain rfl := Option.some.inj hk
        exact ⟨hok, hkey⟩
      · exact hold k s hkc (hev.shrinks k s hk)
    refine ⟨hev.bytes (stored_bytes h ht), fun k s hk => (hslots k s hk).1,
      fun k s hk => (hslots k s hk).2, ?_⟩
    have htimer : st'.reassemblyGcTimer = true :=
      (hev.timer (by rw [get_stored]; simp)).trans (ht.timer_true h)
    exact iff_of_true htimer (size_ne_zero (by rw [hget]; simp))
  | @completed slot timer st' evs hr ht hseq hcap he hfull =>
    have hev := evictUntilUnderBudget_evicted (stored st c slot timer) (slotKey c.addon c.id)
    rw [he] at hev
    exact released_accounted (hev.spared.trans get_stored) (hev.bytes (stored_bytes h ht))
      (fun k s hne hk => hold k s hne (hev.shrinks k s hk))
      ((hev.timer (by rw [get_stored]; simp)).trans (ht.timer_true h))

/-! ## The interval -/

/-- A slot the interval leaves alone at time `now`. -/
def Recent (now : Nat) (s : ReassemblySlot) : Prop :=
  now - s.firstSeenAt < BIN_REASSEMBLY_TIMEOUT_MS

instance (now : Nat) (s : ReassemblySlot) : Decidable (Recent now s) :=
  inferInstanceAs (Decidable (_ < _))

structure Swept (now : Nat) (st st' : Reassembly) (evs : List BinEvent) : Prop where
  get : ∀ k, st'.reassembly.get k =
    (st.reassembly.get k).filter fun s => decide (Recent now s)
  bytes : st.reassemblyBytes = st.reassembly.sumBy (fun s => s.bytes) →
    st'.reassemblyBytes = st'.reassembly.sumBy fun s => s.bytes
  timer : st'.reassemblyGcTimer = st.reassemblyGcTimer
  errors : ∀ e ∈ evs, ∃ addon id, e = .error (.timeoutDropped addon id)
  quiet : evs = [] ↔ ∀ k s, st.reassembly.get k = some s → Recent now s

/-- The callback's visit of the entries that are left. -/
theorem gcEntry_fold (now : Nat) : ∀ (es : List (JsString × ReassemblySlot)) (st : Reassembly)
    (evs : List BinEvent), (es.map Prod.fst).Nodup →
    (∀ e ∈ es, st.reassembly.get e.1 = some e.2) →
    ∃ st' new, es.foldl (gcEntry now) (st, evs) = (st', evs ++ new) ∧
      (∀ k, st'.reassembly.get k = if k ∈ es.map Prod.fst then
        (st.reassembly.get k).filter fun s => decide (Recent now s) else st.reassembly.get k) ∧
      (st.reassemblyBytes = st.reassembly.sumBy (fun s => s.bytes) →
        st'.reassemblyBytes = st'.reassembly.sumBy fun s => s.bytes) ∧
      st'.reassemblyGcTimer = st.reassemblyGcTimer ∧
      (∀ e ∈ new, ∃ addon id, e = .error (.timeoutDropped addon id)) ∧
      (new = [] ↔ ∀ e ∈ es, Recent now e.2)
  | [], st, evs, _, _ => ⟨st, [], by simp, by simp, fun h => h, rfl, by simp, by simp⟩
  | e :: es, st, evs, hn, hget => by
    rw [List.map_cons, List.nodup_cons] at hn
    have he := hget e (List.mem_cons_self ..)
    have hes : ∀ x ∈ es, x.1 ≠ e.1 := fun x hx hxe => hn.1 (hxe ▸ List.mem_map_of_mem hx)
    rw [List.foldl_cons]
    by_cases hr : now - e.2.firstSeenAt < BIN_REASSEMBLY_TIMEOUT_MS
    · have hstep : gcEntry now (st, evs) e = (st, evs) := if_pos hr
      obtain ⟨st', new, hfold, h1, h2, h3, h4, h5⟩ := gcEntry_fold now es st evs hn.2
        fun x hx => hget x (List.mem_cons_of_mem _ hx)
      refine ⟨st', new, by rw [hstep, hfold], fun k => ?_, h2, h3, h4, ?_⟩
      · rw [h1]
        by_cases hk : k = e.1
        · subst hk
          rw [if_neg hn.1, if_pos (by simp), he, Option.filter_some,
            if_pos (decide_eq_true (p := Recent now e.2) hr)]
        · have hmem : k ∈ (e :: es).map Prod.fst ↔ k ∈ es.map Prod.fst := by
            rw [List.map_cons, List.mem_cons, or_iff_right hk]
          rw [if_congr hmem rfl rfl]
      · rw [h5, List.forall_mem_cons]
        exact (and_iff_right hr).symm
    · have hstep : gcEntry now (st, evs) e =
          (st.dropSlot e.1 e.2, evs ++ [.error (.timeoutDropped e.2.addon e.2.id)]) := if_neg hr
      obtain ⟨st', new, hfold, h1, h2, h3, h4, h5⟩ := gcEntry_fold now es (st.dropSlot e.1 e.2)
        (evs ++ [.error (.timeoutDropped e.2.addon e.2.id)]) hn.2 fun x hx => by
          rw [dropSlot, InsMap.get_delete_of_ne _ (hes x hx)]
          exact hget x (List.mem_cons_of_mem _ hx)
      refine ⟨st', .error (.timeoutDropped e.2.addon e.2.id) :: new, ?_, fun k => ?_, ?_, h3, ?_,
        iff_of_false (by simp) fun h => hr (h e (List.mem_cons_self ..))⟩
      · rw [hstep, hfold, List.append_assoc]; rfl
      · rw [h1]
        by_cases hk : k = e.1
        · subst hk
          rw [if_neg hn.1, if_pos (by simp), he, Option.filter_some,
            if_neg (by rw [decide_eq_false (p := Recent now e.2) hr]; exact Bool.false_ne_true),
            dropSlot, InsMap.get_delete_self]
        · have hd : (st.dropSlot e.1 e.2).reassembly.get k = st.reassembly.get k :=
            InsMap.get_delete_of_ne _ hk
          have hmem : k ∈ (e :: es).map Prod.fst ↔ k ∈ es.map Prod.fst := by
            rw [List.map_cons, List.mem_cons, or_iff_right hk]
          rw [if_congr hmem rfl rfl, hd]
      · intro hb
        apply h2
        simp only [dropSlot]
        rw [InsMap.sumBy_delete he, hb]
      · intro x hx
        rcases List.mem_cons.mp hx with rfl | hx
        · exact ⟨_, _, rfl⟩
        · exact h4 x hx

theorem gcStale_fold (st : Reassembly) (now : Nat) :
    ∃ st', st.gcStaleReassemblies now =
      (st'.maybeStopReassemblyGc, (st.gcStaleReassemblies now).2) ∧
      Swept now st st' (st.gcStaleReassemblies now).2 := by
  obtain ⟨st', new, hfold, h1, h2, h3, h4, h5⟩ := gcEntry_fold now st.reassembly.entries st []
    st.reassembly.nodup fun e he => InsMap.get_eq_some_iff.mpr he
  have hev : (st.gcStaleReassemblies now).2 = new := by
    rw [gcStaleReassemblies, hfold]; rfl
  rw [hev]
  refine ⟨st', by rw [gcStaleReassemblies, hfold]; rfl, fun k => ?_, h2, h3, h4,
    h5.trans ⟨fun h k s hk => h (k, s) (InsMap.get_eq_some_iff.mp hk), fun h e he =>
      h e.1 e.2 (InsMap.get_eq_some_iff.mpr he)⟩⟩
  rw [h1]
  split
  · rfl
  · next hk => rw [InsMap.get_eq_none_iff.mpr hk]; rfl

/-- The interval keeps slots as they are or drops them. -/
theorem gcStale_subset {st : Reassembly} {now : Nat} {k : JsString} {s : ReassemblySlot}
    (h : (st.gcStaleReassemblies now).1.reassembly.get k = some s) :
    st.reassembly.get k = some s := by
  obtain ⟨st', heq, hs⟩ := gcStale_fold st now
  rw [heq, maybeStop_reassembly, hs.get] at h
  exact (Option.filter_eq_some_iff.mp h).1

theorem gcTick_subset {st : Reassembly} {now : Nat} {k : JsString} {s : ReassemblySlot}
    (h : (st.step (.gcTick now)).1.reassembly.get k = some s) : st.reassembly.get k = some s := by
  rw [step] at h
  split at h
  · exact gcStale_subset h
  · exact h

theorem gcStale_accounted {st : Reassembly} (h : Accounted st) (ht : st.reassemblyGcTimer = true)
    (now : Nat) : Accounted (st.gcStaleReassemblies now).1 := by
  refine ⟨?_, fun k s hk => h.slots k s (gcStale_subset hk),
    fun k s hk => h.keys k s (gcStale_subset hk), ?_⟩
  · obtain ⟨st', heq, hs⟩ := gcStale_fold st now
    rw [heq]
    simpa using hs.bytes h.bytes
  · obtain ⟨st', heq, hs⟩ := gcStale_fold st now
    rw [heq]
    unfold maybeStopReassemblyGc
    split
    · next h0 => simp [h0]
    · next h0 => simp [hs.timer, ht, h0]

/-! ## Runs -/

theorem handleBinaryFrame_accounted {st : Reassembly} (h : Accounted st) (now : Nat) (buf : Bytes) :
    Accounted (st.handleBinaryFrame now buf).1 := by
  unfold handleBinaryFrame
  split
  · exact h
  · exact h
  · exact h
  · next c _ => exact (handleChunk_outcome st now c).accounted h

theorem step_accounted {st : Reassembly} (i : Input) (h : Accounted st) :
    Accounted (st.step i).1 := by
  cases i with
  | frame now buf => exact handleBinaryFrame_accounted h now buf
  | gcTick now =>
    rw [step]
    split
    · next ht => exact gcStale_accounted h ht now
    · exact h

theorem run_accounted (is : List Input) : Accounted (Machine.after step .init is) :=
  Machine.after_inv (fun _ i h => step_accounted i h) init_accounted is

end Reassembly

end Senn.Core
