import Senn.Core.SendBinary
import Senn.Core.MessageSlot
import Senn.Core.ReassemblyExact

/-! # From `sendBinary` to the `binary` event

The frames of any sequence of calls, fed in order to a fresh receiver, give one
message for each call that resolved, in order, and nothing else but reports of
dropped parts of calls that rejected. The sender's half is `Sends`; the
receiver's half follows the slot of the message that is coming in. -/

namespace Senn.Core
open Senn.Js Senn.Lib

/-! ## The slices of a message -/

theorem slice_append (bytes : Bytes) (k : Nat) :
    bytes.take (k * BIN_BODY_PER_FRAME) ++ slice bytes k =
      bytes.take ((k + 1) * BIN_BODY_PER_FRAME) := by
  rw [slice, Nat.add_mul, Nat.one_mul, List.take_add]

theorem flatten_slices (bytes : Bytes) (k : Nat) :
    ((List.range k).map (slice bytes)).flatten = bytes.take (k * BIN_BODY_PER_FRAME) := by
  induction k with
  | zero => simp
  | succ k ih =>
    rw [List.range_succ, List.map_append, List.flatten_append, ih, ← slice_append]
    simp

theorem frameCount_covers (n : Nat) : n ≤ frameCount n * BIN_BODY_PER_FRAME := by
  simp only [frameCount, BIN_BODY_PER_FRAME]
  omega

theorem take_frameCount (bytes : Bytes) :
    bytes.take (frameCount bytes.length * BIN_BODY_PER_FRAME) = bytes :=
  List.take_of_length_le (frameCount_covers _)

namespace Reassembly

/-! ## The slot of the message that is coming in -/

/-- The slot has the first `i` frames of `m`, sent under `id`. -/
structure Partial (m : BinaryMessage) (id : JsString) (i : Nat) (slot : ReassemblySlot) : Prop where
  id_eq : slot.id = id
  addon : slot.addon = m.addon
  mime : slot.mime = m.mime
  total : slot.total = frameCount m.bytes.length
  received : slot.receivedFrames = i
  size : slot.frames.size = i
  bytes : slot.bytes = (m.bytes.take (i * BIN_BODY_PER_FRAME)).length
  sum : (slot.bytes : Int) = slot.frames.sumBy fun b => b.length
  frames : ∀ seq body, slot.frames.get seq = some body ↔
    ∃ j < i, seq = .ofNat j ∧ body = slice m.bytes j

/-- The frame number `i` of `m`. -/
def part (m : BinaryMessage) (id : JsString) (i : Nat) : Chunk :=
  ⟨m.addon, m.mime, id, .ofNat i, .ofNat (frameCount m.bytes.length), slice m.bytes i⟩

theorem partial_newSlot (m : BinaryMessage) (id : JsString) (now : Nat) :
    Partial m id 0 (newSlot (part m id 0) (frameCount m.bytes.length) now) where
  id_eq := rfl
  addon := rfl
  mime := rfl
  total := rfl
  received := rfl
  size := rfl
  bytes := by simp [newSlot]
  sum := rfl
  frames := by simp [newSlot]

theorem Partial.new {m : BinaryMessage} {id : JsString} {i : Nat} {slot : ReassemblySlot}
    (h : Partial m id i slot) : slot.frames.get (.ofNat i) = none := by
  rw [Option.eq_none_iff_forall_ne_some]
  intro body hb
  obtain ⟨j, hj, heq, _⟩ := (h.frames _ _).mp hb
  rw [Number.ofNat_inj] at heq
  omega

theorem Partial.add {m : BinaryMessage} {id : JsString} {i : Nat} {slot : ReassemblySlot}
    (h : Partial m id i slot) :
    Partial m id (i + 1) (addFrame slot (.ofNat i) (slice m.bytes i)) where
  id_eq := h.id_eq
  addon := h.addon
  mime := h.mime
  total := h.total
  received := congrArg (· + 1) h.received
  size := by simp only [addFrame, InsMap.size_set_of_none h.new, h.size]
  bytes := by
    rw [← slice_append, List.length_append]
    simp only [addFrame, h.bytes]
  sum := addFrame_bytes h.sum h.new
  frames := by
    intro seq body
    simp only [addFrame, InsMap.get_set]
    split
    · next hs =>
      refine ⟨fun hb => ⟨i, Nat.lt_succ_self i, hs, (Option.some.inj hb).symm⟩, ?_⟩
      rintro ⟨j, _, hj, hb⟩
      rw [hs, Number.ofNat_inj] at hj
      rw [hb, hj]
    · next hs =>
      rw [h.frames]
      constructor
      · rintro ⟨j, hj, hrest⟩
        exact ⟨j, Nat.lt_succ_of_lt hj, hrest⟩
      · rintro ⟨j, hj, heq, hb⟩
        refine ⟨j, ?_, heq, hb⟩
        rcases Nat.lt_succ_iff_lt_or_eq.mp hj with hlt | rfl
        · exact hlt
        · exact absurd heq hs

theorem Partial.bytes_le {m : BinaryMessage} {id : JsString} {i : Nat} {slot : ReassemblySlot}
    (h : Partial m id i slot) (hm : m.bytes.length ≤ BIN_MESSAGE_MAX_BYTES) :
    ¬slot.bytes > BIN_MESSAGE_MAX_BYTES := by
  rw [h.bytes, List.length_take]
  omega

/-- The last frame joins to the message that was sent. -/
theorem Partial.assembled {m : BinaryMessage} {id : JsString} {slot : ReassemblySlot}
    (h : Partial m id (frameCount m.bytes.length) slot) : assemble slot = m.bytes := by
  obtain ⟨body, hget, hbytes⟩ := assemble_complete slot h.sum
    (fun seq b hb => by
      obtain ⟨j, hj, heq, _⟩ := (h.frames _ _).mp hb
      exact ⟨j, h.total ▸ hj, heq⟩)
    (h.size.trans h.total.symm)
  have hbody : ∀ j ∈ List.range slot.total, body j = slice m.bytes j := by
    intro j hj
    obtain ⟨j', _, heq, hb⟩ := (h.frames _ _).mp (hget j (List.mem_range.mp hj))
    rw [hb, Number.ofNat_inj.mp heq]
  rw [hbytes, List.map_congr_left hbody, flatten_slices, h.total, take_frameCount]

/-- The slot of the message after `i` frames of it. -/
def Pending (m : BinaryMessage) (id : JsString) (i : Nat) (slot? : Option ReassemblySlot) : Prop :=
  (i = 0 ∧ slot? = none) ∨ ∃ slot, slot? = some slot ∧ 0 < i ∧ Partial m id i slot

theorem slotStore_part {m : BinaryMessage} {id : JsString} {i : Nat} {slot : ReassemblySlot}
    (h : Partial m id i slot) (hm : m.bytes.length ≤ BIN_MESSAGE_MAX_BYTES) :
    slotStore slot (.ofNat i) (slice m.bytes i) =
      if i + 1 = frameCount m.bytes.length then (none, [.binary m])
      else (some (addFrame slot (.ofNat i) (slice m.bytes i)), []) := by
  have hadd := h.add
  rw [slotStore, if_neg (by simp [h.new])]
  dsimp only
  rw [if_neg (hadd.bytes_le hm), hadd.received, hadd.total]
  split
  · next hlast =>
    rw [hlast] at hadd
    rw [hadd.assembled, hadd.addon, hadd.mime]
  · rfl

theorem part_inRange (m : BinaryMessage) (id : JsString) {i : Nat}
    (hi : i < frameCount m.bytes.length) :
    ((part m id i).total.lt (.ofNat 1) || (part m id i).seq.lt (.ofNat 0) ||
      (part m id i).total.le (part m id i).seq) = false := by
  simp [part]
  omega

theorem slotStep_part {m : BinaryMessage} {id : JsString} {i : Nat} (now : Nat)
    {slot? : Option ReassemblySlot} (h : Pending m id i slot?)
    (hi : i < frameCount m.bytes.length) (hm : m.bytes.length ≤ BIN_MESSAGE_MAX_BYTES) :
    ∃ slot, Partial m id i slot ∧ slotStep slot? now (part m id i) =
      slotStore slot (.ofNat i) (slice m.bytes i) := by
  have hr := part_inRange m id hi
  rcases h with ⟨rfl, rfl⟩ | ⟨slot, rfl, _, hp⟩
  · refine ⟨_, partial_newSlot m id now, ?_⟩
    have hcount : frameCount m.bytes.length < 2 ^ 32 := by
      simp only [frameCount, BIN_BODY_PER_FRAME, BIN_MESSAGE_MAX_BYTES] at hm ⊢
      omega
    have hlen : (part m id 0).total.arrayLength? = some (frameCount m.bytes.length) :=
      Number.arrayLength?_eq_some.mpr ⟨rfl, hcount⟩
    rw [slotStep, if_neg (by rw [hr]; exact Bool.false_ne_true)]
    simp only [hlen]
    rfl
  · refine ⟨slot, hp, ?_⟩
    rw [slotStep, if_neg (by rw [hr]; exact Bool.false_ne_true), if_neg]
    · rfl
    · simp [part, hp.total, hp.mime, Number.ofNat]

/-! ## The buffer while a message comes in -/

/-- The messages among the events are `ms`; the others report evictions. -/
def Delivers (evs : List BinEvent) (ms : List BinaryMessage) : Prop :=
  evs.filterMap BinEvent.binary? = ms ∧
    ∀ e ∈ evs, (∃ m, e = .binary m) ∨ ∃ addon id, e = .error (.overflowDropped addon id)

theorem Delivers.nil : Delivers [] [] := ⟨rfl, by simp⟩

theorem Delivers.append {evs evs' : List BinEvent} {ms ms' : List BinaryMessage}
    (h : Delivers evs ms) (h' : Delivers evs' ms') : Delivers (evs ++ evs') (ms ++ ms') := by
  refine ⟨by rw [List.filterMap_append, h.1, h'.1], fun e he => ?_⟩
  rcases List.mem_append.mp he with he | he
  · exact h.2 e he
  · exact h'.2 e he

theorem Delivers.binary (m : BinaryMessage) : Delivers [.binary m] [m] :=
  ⟨rfl, fun _ he => .inl ⟨m, List.mem_singleton.mp he⟩⟩

/-- The slots left are of messages whose ids are among `used`. -/
structure Holding (used : List JsString) (st : Reassembly) : Prop where
  accounted : Accounted st
  ids : ∀ k s, st.reassembly.get k = some s → s.id ∈ used

/-- The first `i` frames of `m` are in, beside slots with ids among `used`. -/
structure During (m : BinaryMessage) (id : JsString) (used : List JsString) (i : Nat)
    (st : Reassembly) : Prop where
  accounted : Accounted st
  pending : Pending m id i (st.reassembly.get (slotKey m.addon id))
  others : ∀ k s, k ≠ slotKey m.addon id → st.reassembly.get k = some s → s.id ∈ used

/-- Message ids without the separator: the key shows them. -/
theorem slotKey_id {a b i j : JsString} (hi : 0x1F ∉ i) (hj : 0x1F ∉ j)
    (h : slotKey a i = slotKey b j) : i = j := by
  have hrev : slotKey i.reverse a.reverse = slotKey j.reverse b.reverse := by
    have := congrArg List.reverse h
    simpa [slotKey] using this
  have := (slotKey_injective (by simpa using hi) (by simpa using hj) hrev).1
  exact List.reverse_injective this

theorem Holding.during {m : BinaryMessage} {id : JsString} {used : List JsString} {st : Reassembly}
    (h : Holding used st) (hplain : ∀ u ∈ used, 0x1F ∉ u) (hid : 0x1F ∉ id) (hnew : id ∉ used) :
    During m id used 0 st := by
  refine ⟨h.accounted, .inl ⟨rfl, ?_⟩, fun k s _ hs => h.ids k s hs⟩
  rw [Option.eq_none_iff_forall_ne_some]
  intro s hs
  have hmem := h.ids _ s hs
  have hkey := h.accounted.keys _ s hs
  exact hnew (slotKey_id hid (hplain _ hmem) hkey ▸ hmem)

theorem During.holding {m : BinaryMessage} {id : JsString} {used : List JsString} {i : Nat}
    {st : Reassembly} (h : During m id used i st) : Holding (id :: used) st := by
  refine ⟨h.accounted, fun k s hs => ?_⟩
  by_cases hk : k = slotKey m.addon id
  · rw [hk] at hs
    rcases h.pending with ⟨_, hnone⟩ | ⟨slot, hsome, _, hp⟩
    · rw [hnone] at hs; cases hs
    · rw [hsome] at hs
      rw [← Option.some.inj hs, hp.id_eq]
      exact List.mem_cons_self ..
  · exact List.mem_cons_of_mem _ (h.others k s hk hs)

theorem step_chunk {st : Reassembly} {now : Nat} {buf : Bytes} {c : Chunk}
    (h : decodeFrame buf = .chunk c) : st.step (.frame now buf) = st.handleChunk now c := by
  simp only [step, handleBinaryFrame, h]

/-- One frame of `m`, the last one or not. -/
theorem During.frame {m : BinaryMessage} {id : JsString} {used : List JsString} {i : Nat}
    {st : Reassembly} (h : During m id used i st) (now : Nat) (hi : i < frameCount m.bytes.length)
    (hm : m.bytes.length ≤ BIN_MESSAGE_MAX_BYTES) :
    if i + 1 = frameCount m.bytes.length then
      Delivers (st.handleChunk now (part m id i)).2 [m] ∧
        Holding used (st.handleChunk now (part m id i)).1
    else
      Delivers (st.handleChunk now (part m id i)).2 [] ∧
        During m id used (i + 1) (st.handleChunk now (part m id i)).1 := by
  obtain ⟨slot, hp, hstep⟩ := slotStep_part now h.pending hi hm
  obtain ⟨dropped, hl⟩ := handleChunk_local st now (part m id i)
  have hkey : slotKey (part m id i).addon (part m id i).id = slotKey m.addon id := rfl
  rw [hkey, hstep, slotStore_part hp hm] at hl
  have hacc := (handleChunk_outcome st now (part m id i)).accounted h.accounted
  have hdropped : Delivers dropped [] := by
    refine ⟨List.filterMap_eq_nil_iff.mpr fun e he => ?_, fun e he => .inr ?_⟩
    · obtain ⟨k, s, _, _, rfl⟩ := hl.evicted e he
      rfl
    · obtain ⟨k, s, _, _, rfl⟩ := hl.evicted e he
      exact ⟨_, _, rfl⟩
  have hothers : ∀ k s, k ≠ slotKey m.addon id →
      (st.handleChunk now (part m id i)).1.reassembly.get k = some s → s.id ∈ used := by
    intro k s hk hs
    rcases (handleChunk_outcome st now (part m id i)).get hs with hs | ⟨hk', _⟩
    · exact h.others k s hk hs
    · exact absurd hk' hk
  split at hl
  · next hlast =>
    rw [if_pos hlast]
    refine ⟨hl.events ▸ hdropped.append (.binary m), hacc, fun k s hs => ?_⟩
    refine hothers k s ?_ hs
    rintro rfl
    rw [hl.slot] at hs
    cases hs
  · next hlast =>
    rw [if_neg hlast]
    refine ⟨hl.events ▸ hdropped.append .nil, hacc, .inr ⟨_, hl.slot, Nat.succ_pos i, hp.add⟩,
      hothers⟩

/-! ## Calls -/

theorem decode_part {m : BinaryMessage} {id : JsString} {i : Nat} {buf : Bytes}
    (hm : m.bytes.length ≤ BIN_MESSAGE_MAX_BYTES) (haddon : m.addon ≠ [])
    (hn : 1 < frameCount m.bytes.length) (hi : i < frameCount m.bytes.length)
    (h : encodeFrame (partOpts m id (frameCount m.bytes.length) i) = some buf) :
    decodeFrame buf = .chunk (part m id i) := by
  have hcount : frameCount m.bytes.length ≤ 2 ^ 53 := by
    simp only [frameCount, BIN_BODY_PER_FRAME, BIN_MESSAGE_MAX_BYTES] at hm ⊢
    omega
  have hsmall : (partOpts m id (frameCount m.bytes.length) i).Small := by
    refine ⟨fun k hk => ?_, fun k hk => ?_⟩
    · obtain rfl := Option.some.inj hk; omega
    · obtain rfl := Option.some.inj hk; exact hcount
  rw [decodeFrame_encodeFrame hsmall h]
  exact decodeHeader_chunk haddon rfl rfl rfl hn

theorem decode_whole {m : BinaryMessage} {buf : Bytes} (haddon : m.addon ≠ [])
    (h : encodeFrame (wholeOpts m) = some buf) : decodeFrame buf = .whole m := by
  have hsmall : (wholeOpts m).Small := by
    refine ⟨fun k hk => ?_, fun k hk => ?_⟩
    · cases hk
    · cases hk
  rw [decodeFrame_encodeFrame hsmall h]
  exact decodeHeader_whole haddon rfl rfl rfl

/-- What a receiver is fed: buffers with the time each is handled. -/
def feed (timed : List (Nat × Bytes)) : List Input := timed.map fun f => .frame f.1 f.2

/-- Some of the frames of `m` from number `i` on. -/
theorem During.frames {m : BinaryMessage} {id : JsString} {used : List JsString}
    (hm : m.bytes.length ≤ BIN_MESSAGE_MAX_BYTES) (haddon : m.addon ≠ [])
    (hn : 1 < frameCount m.bytes.length) (timed : List (Nat × Bytes)) : ∀ {i : Nat}
    {st : Reassembly}, During m id used i st → i + timed.length ≤ frameCount m.bytes.length →
    i < frameCount m.bytes.length →
    (timed.map fun f => some f.2) = (List.range' i timed.length).map (fun seq =>
      encodeFrame (partOpts m id (frameCount m.bytes.length) seq)) →
    Delivers (Machine.outputs step st (feed timed))
        (if i + timed.length = frameCount m.bytes.length then [m] else []) ∧
      Holding (id :: used) (Machine.after step st (feed timed)) := by
  induction timed with
  | nil =>
    intro i st h _ hi _
    rw [if_neg (by simp only [List.length_nil]; omega)]
    exact ⟨.nil, h.holding⟩
  | cons f timed ih =>
    intro i st h hle hi hframes
    rw [List.length_cons] at hle
    rw [List.length_cons, List.range'_succ, List.map_cons, List.map_cons] at hframes
    obtain ⟨hf, hrest⟩ := List.cons.inj hframes
    have hdec := decode_part hm haddon hn hi hf.symm
    have hframe := h.frame f.1 hi hm
    rw [show feed (f :: timed) = .frame f.1 f.2 :: feed timed from rfl, Machine.outputs_cons,
      Machine.after_cons, step_chunk hdec]
    split at hframe
    · next hlast =>
      have hnil : timed = [] := List.length_eq_zero_iff.mp (by omega)
      subst hnil
      have hfeed : feed [] = [] := rfl
      rw [if_pos (by simpa using hlast), hfeed, Machine.outputs_nil, Machine.after_nil,
        List.append_nil]
      refine ⟨hframe.1, hframe.2.accounted, fun k s hs => ?_⟩
      exact List.mem_cons_of_mem _ (hframe.2.ids k s hs)
    · next hlast =>
      obtain ⟨hdel, hafter⟩ := ih hframe.2 (by omega) (by omega) hrest
      rw [List.length_cons, show i + (timed.length + 1) = i + 1 + timed.length by omega]
      exact ⟨hframe.1.append hdel, hafter⟩

/-- The messages of the calls that resolved. -/
def resolvedMessages (rs : List SendResult) : List BinaryMessage := rs.flatMap SendResult.delivered

def Input.now : Input → Nat
  | .frame now _ => now
  | .gcTick now => now

/-- No slot is from before `t₀`. -/
def Since (t₀ : Nat) (st : Reassembly) : Prop :=
  ∀ k s, st.reassembly.get k = some s → t₀ ≤ s.firstSeenAt

theorem Since.step {t₀ : Nat} {st : Reassembly} {i : Input} (h : Since t₀ st) (hi : t₀ ≤ i.now) :
    Since t₀ (st.step i).1 := by
  intro k s hs
  rcases step_get hs with hs | ⟨now, buf, c, rfl, hc, _, _, slot, timer, ht, _, rfl⟩
  · exact h k s hs
  · cases ht with
    | found hget => exact h _ slot hget
    | fresh => exact hi

end Reassembly

end Senn.Core
