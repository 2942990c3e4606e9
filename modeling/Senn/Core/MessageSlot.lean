import Senn.Core.ReassemblyInvariant

/-! # One message of the reassembly buffer on its own

`slotStep` is what a frame does to the slot of its message when nothing else is
in the buffer. `handleChunk_local` says that the buffer is a map of these: a
frame acts on the slot under its key as `slotStep` does, and the other slots
change only by evictions, each of which is reported. -/

namespace Senn.Core
open Senn.Js Senn.Lib

/-- `storeFrame` on the slot alone. -/
def slotStore (slot : ReassemblySlot) (seq : Number) (body : Bytes) :
    Option ReassemblySlot × List BinEvent :=
  if (slot.frames.get seq).isSome then (some slot, [])
  else
    let slot := Reassembly.addFrame slot seq body
    if slot.bytes > BIN_MESSAGE_MAX_BYTES then (none, [.error (.exceedsCap slot.bytes)])
    else if slot.receivedFrames = slot.total then
      (none, [.binary ⟨slot.addon, slot.mime, Reassembly.assemble slot⟩])
    else (some slot, [])

/-- `handleChunk` on the slot alone. -/
def slotStep (slot? : Option ReassemblySlot) (now : Nat) (c : Chunk) :
    Option ReassemblySlot × List BinEvent :=
  if c.total.lt (.ofNat 1) || c.seq.lt (.ofNat 0) || c.total.le c.seq then
    (slot?, [.error .seqTotalOutOfRange])
  else
    match slot? with
    | none =>
      match c.total.arrayLength? with
      | none => (none, [.thrown .rangeError])
      | some total => slotStore (Reassembly.newSlot c total now) c.seq c.body
    | some slot =>
      if !(Number.ofNat slot.total).eq c.total || slot.mime ≠ c.mime then
        (some slot, [.error .totalMimeMismatch])
      else slotStore slot c.seq c.body

namespace Reassembly

/-- What a frame for `key` does to a buffer, against the slot under `key` alone:
`dropped` are the evictions among its events. -/
structure Local (key : JsString) (st st' : Reassembly) (evs : List BinEvent)
    (alone : Option ReassemblySlot × List BinEvent) (dropped : List BinEvent) : Prop where
  events : evs = dropped ++ alone.2
  slot : st'.reassembly.get key = alone.1
  evicted : ∀ e ∈ dropped, ∃ k s, k ≠ key ∧ st.reassembly.get k = some s ∧
    e = .error (.overflowDropped s.addon s.id)
  others : dropped = [] → ∀ k, k ≠ key → st'.reassembly.get k = st.reassembly.get k

theorem Local.same {key : JsString} {st : Reassembly} {slot? : Option ReassemblySlot}
    (h : st.reassembly.get key = slot?) {evs : List BinEvent} :
    Local key st st evs (slot?, evs) [] :=
  ⟨rfl, h, by simp, fun _ _ _ => rfl⟩

theorem storeFrame_local (st : Reassembly) {key : JsString} {slot : ReassemblySlot}
    (hget : st.reassembly.get key = some slot) (seq : Number) (body : Bytes) :
    ∃ dropped, Local key st (storeFrame st key slot seq body).1
      (storeFrame st key slot seq body).2 (slotStore slot seq body) dropped := by
  unfold storeFrame slotStore
  split
  · exact ⟨[], .same hget⟩
  dsimp only
  split
  · refine ⟨[], rfl, ?_, by simp, fun _ k hk => ?_⟩
    · simp [dropSlot]
    · rw [maybeStop_reassembly, dropSlot, InsMap.get_delete_of_ne _ hk, InsMap.get_set_of_ne _ _ hk]
  · next hcap =>
    have hev := evictUntilUnderBudget_evicted ⟨st.reassembly.set key (addFrame slot seq body),
      st.reassemblyBytes + body.length, st.reassemblyGcTimer⟩ key
    have herr : ∀ e ∈ (evictUntilUnderBudget ⟨st.reassembly.set key (addFrame slot seq body),
        st.reassemblyBytes + body.length, st.reassemblyGcTimer⟩ key).2,
        ∃ k s, k ≠ key ∧ st.reassembly.get k = some s ∧
          e = .error (.overflowDropped s.addon s.id) := by
      intro e he
      obtain ⟨k, s, hk, hs, rfl⟩ := hev.errors e he
      exact ⟨k, s, hk, by rwa [InsMap.get_set_of_ne _ _ hk] at hs, rfl⟩
    split
    · refine ⟨_, rfl, ?_, herr, fun hd k hk => ?_⟩
      · rw [maybeStop_reassembly, dropSlot, InsMap.get_delete_self]
      · rw [maybeStop_reassembly, dropSlot, InsMap.get_delete_of_ne _ hk, hev.quiet hd,
          InsMap.get_set_of_ne _ _ hk]
    · refine ⟨_, (List.append_nil _).symm, ?_, herr, fun hd k hk => ?_⟩
      · exact hev.spared.trans (InsMap.get_set_self ..)
      · rw [hev.quiet hd, InsMap.get_set_of_ne _ _ hk]

theorem handleChunk_local (st : Reassembly) (now : Nat) (c : Chunk) :
    ∃ dropped, Local (slotKey c.addon c.id) st (st.handleChunk now c).1 (st.handleChunk now c).2
      (slotStep (st.reassembly.get (slotKey c.addon c.id)) now c) dropped := by
  unfold handleChunk slotStep
  split
  · exact ⟨[], .same rfl⟩
  dsimp only
  cases hget : st.reassembly.get (slotKey c.addon c.id) with
  | none =>
    cases c.total.arrayLength? with
    | none => exact ⟨[], .same hget⟩
    | some total =>
      obtain ⟨dropped, hl⟩ := storeFrame_local { st with
        reassembly := st.reassembly.set (slotKey c.addon c.id) (newSlot c total now)
        reassemblyGcTimer := true } (InsMap.get_set_self ..) c.seq c.body
      refine ⟨dropped, hl.events, hl.slot, fun e he => ?_, fun hd k hk => ?_⟩
      · obtain ⟨k, s, hk, hs, rfl⟩ := hl.evicted e he
        exact ⟨k, s, hk, by rwa [InsMap.get_set_of_ne _ _ hk] at hs, rfl⟩
      · rw [hl.others hd k hk]
        exact InsMap.get_set_of_ne _ _ hk
  | some slot =>
    dsimp only
    split
    · exact ⟨[], .same hget⟩
    · exact storeFrame_local st hget c.seq c.body

/-! ## A frame in an empty buffer -/

/-- The buffer holds no slot and no byte, and the interval is cleared. -/
structure Empty (st : Reassembly) : Prop where
  slots : st.reassembly.size = 0
  bytes : st.reassemblyBytes = 0
  timer : st.reassemblyGcTimer = false

/-- A received buffer that gets a slot of its own in an empty buffer. -/
def OpensSlot (buf : Bytes) : Prop :=
  ∃ c, decodeFrame buf = .chunk c ∧ InRange c ∧ c.total.arrayLength?.isSome = true ∧
    c.body.length ≤ BIN_MESSAGE_MAX_BYTES

theorem clear_empty (st : Reassembly) : Empty st.clear := ⟨rfl, rfl, rfl⟩

theorem get_of_size_zero {m : InsMap JsString ReassemblySlot} (h : m.size = 0) (k : JsString) :
    m.get k = none := by
  cases hk : m.get k with
  | none => rfl
  | some s => exact absurd h (size_ne_zero (by rw [hk]; simp))

theorem empty_iff {st : Reassembly} (h : Accounted st) :
    Empty st ↔ ∀ k, st.reassembly.get k = none := by
  refine ⟨fun he k => get_of_size_zero he.slots k, fun hnone => ?_⟩
  have hnil : st.reassembly.entries = [] := by
    cases hes : st.reassembly.entries with
    | nil => rfl
    | cons e es =>
      have he := InsMap.get_eq_some_iff.mpr (show (e.1, e.2) ∈ st.reassembly.entries by simp [hes])
      rw [hnone] at he
      cases he
  have hsize : st.reassembly.size = 0 := by simp [InsMap.size, hnil]
  refine ⟨hsize, ?_, ?_⟩
  · rw [h.bytes, InsMap.sumBy, hnil]; rfl
  · cases ht : st.reassemblyGcTimer with
    | false => rfl
    | true => exact absurd hsize (h.timer.mp ht)

theorem decodeHeader_chunk_total {header : Json} {body : Bytes} {c : Chunk}
    (h : decodeHeader header body = .chunk c) : (Number.ofNat 1).lt c.total = true := by
  unfold decodeHeader at h
  split at h
  · cases h
  split at h
  · split at h
    · cases h
    split at h
    · cases h
    split at h
    · split at h
      · next htotal =>
        obtain rfl := Decoded.chunk.inj h
        exact htotal
      · cases h
    · cases h
  · cases h

theorem decodeFrame_chunk_total {buf : Bytes} {c : Chunk} (h : decodeFrame buf = .chunk c) :
    (Number.ofNat 1).lt c.total = true := by
  unfold decodeFrame at h
  split at h
  · dsimp only at h
    split at h
    · cases h
    split at h
    · cases h
    · exact decodeHeader_chunk_total h
  · cases h

/-- The first frame of a message of several frames leaves its slot behind
unless one of the checks fails. -/
theorem slotStep_none {now : Nat} {c : Chunk} (htotal : (Number.ofNat 1).lt c.total = true) :
    (slotStep none now c).1 = none ↔
      ¬(InRange c ∧ c.total.arrayLength?.isSome = true ∧
        c.body.length ≤ BIN_MESSAGE_MAX_BYTES) := by
  unfold slotStep
  split
  · next hrange =>
    refine iff_of_true rfl fun h => ?_
    obtain ⟨h1, h2, h3⟩ := h.1
    simp [h1, h2, h3] at hrange
  · next hrange =>
    have hr : InRange c := by simpa [InRange, and_assoc] using hrange
    dsimp only
    cases hlen : c.total.arrayLength? with
    | none => simp
    | some total =>
      obtain ⟨heq, _⟩ := Number.arrayLength?_eq_some.mp hlen
      rw [heq, Number.lt_ofNat] at htotal
      have h1 : 1 < total := of_decide_eq_true htotal
      simp only [slotStore, newSlot, addFrame, InsMap.get_empty, Option.isSome_none,
        Bool.false_eq_true, if_false, Nat.zero_add, hr, true_and, Option.isSome_some]
      split
      · next hcap => exact iff_of_true rfl (Nat.not_le.mpr hcap)
      · next hcap =>
        rw [if_neg (by omega)]
        exact iff_of_false (by simp) (not_not.mpr (Nat.le_of_not_lt hcap))

theorem handleBinaryFrame_empty {st : Reassembly} (h : Accounted st) (he : Empty st) (now : Nat)
    (buf : Bytes) : Empty (st.handleBinaryFrame now buf).1 ↔ ¬OpensSlot buf := by
  have hacc := handleBinaryFrame_accounted h now buf
  unfold handleBinaryFrame at hacc ⊢
  unfold OpensSlot
  split at hacc
  · next hd => rw [hd]; simpa using he
  · next hd => rw [hd]; simpa using he
  · next hd => rw [hd]; simpa using he
  · next c hd =>
    rw [hd]
    have hnone := get_of_size_zero he.slots
    obtain ⟨dropped, hl⟩ := handleChunk_local st now c
    rw [hnone] at hl
    have hdropped : dropped = [] := by
      refine List.eq_nil_iff_forall_not_mem.mpr fun e hmem => ?_
      obtain ⟨k, s, _, hs, _⟩ := hl.evicted e hmem
      rw [hnone] at hs
      cases hs
    have hslot : (slotStep none now c).1 = none ↔ _ := slotStep_none (decodeFrame_chunk_total hd)
    rw [← hl.slot] at hslot
    have hempty : Empty (st.handleChunk now c).1 ↔
        (st.handleChunk now c).1.reassembly.get (slotKey c.addon c.id) = none := by
      rw [empty_iff hacc]
      refine ⟨fun hall => hall _, fun hkey k => ?_⟩
      by_cases hk : k = slotKey c.addon c.id
      · rw [hk, hkey]
      · rw [hl.others hdropped k hk, hnone]
    rw [hempty, hslot]
    simp

end Reassembly

end Senn.Core
