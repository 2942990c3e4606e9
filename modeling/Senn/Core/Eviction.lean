import Senn.Core.SlotLoad
import Senn.Lib.Eviction

/-! # Which messages the buffer evicts

The eviction loop drops the message whose first frame came first until the rest
is within the budget. Against the messages sorted by age this is a prefix, and
the shortest one that will do. The message the frame belongs to is not among
them, whatever its age. -/

namespace Senn.Core
open Senn.Js Senn.Lib

namespace Reassembly

/-- The messages in flight other than that of `key`, in insertion order. -/
def others (key : JsString) (st : Reassembly) : List (JsString × ReassemblySlot) :=
  (st.reassembly.delete key).entries

/-- The error event of an evicted message. -/
def overflowError (e : JsString × ReassemblySlot) : BinEvent :=
  .error (.overflowDropped e.2.addon e.2.id)

/-- The event reports an evicted message. -/
def isOverflow : BinEvent → Bool
  | .error (.overflowDropped ..) => true
  | _ => false

/-- Of the messages of `st` other than that of `key`, `dropped` is what has to go for `total` bytes
to fit the budget when the oldest go first, and `st'` has the rest of them as they were. -/
structure DropsOldest (key : JsString) (total : Int) (st st' : Reassembly)
    (dropped : List (JsString × ReassemblySlot)) : Prop where
  shortest : ShortestPrefix (fun e => e.2.bytes) BIN_REASSEMBLY_BUDGET_BYTES total
    (byAge (fun e => e.2.firstSeenAt) (others key st)) dropped
  remaining : others key st' = (others key st).filter fun e => decide (e ∉ dropped)

theorem DropsOldest.none {key : JsString} {total : Int} {st st' : Reassembly}
    (htotal : total ≤ BIN_REASSEMBLY_BUDGET_BYTES) (h : others key st' = others key st) :
    DropsOldest key total st st' [] :=
  ⟨.nil htotal, by rw [h, List.filter_eq_self.mpr (by simp)]⟩

/-! ## The loop -/

theorem oldestOther_argmin (key : JsString) (st : Reassembly) :
    oldestOther key st.reassembly.entries =
      (others key st).argmin fun e => e.2.firstSeenAt := by
  unfold others InsMap.delete oldestOther List.argmin
  rw [List.foldl_filter]
  congr 1
  funext oldest e
  by_cases he : e.1 = key
  · simp [he]
  · cases oldest with
    | none => simp [he, List.argAux]
    | some o => simp [he, List.argAux]

/-- Dropping the first of the oldest messages leaves the others in their order. -/
theorem DropsOldest.cons {key k : JsString} {st st' : Reassembly} {slot : ReassemblySlot}
    {dropped : List (JsString × ReassemblySlot)}
    (hover : BIN_REASSEMBLY_BUDGET_BYTES < st.reassemblyBytes)
    (hold : oldestOther key st.reassembly.entries = some (k, slot))
    (h : DropsOldest key (st.dropSlot k slot).reassemblyBytes (st.dropSlot k slot) st' dropped) :
    DropsOldest key st.reassemblyBytes st st' ((k, slot) :: dropped) := by
  obtain ⟨hmem, hne⟩ := oldestOther_mem hold
  have hget : (st.reassembly.delete key).get k = some slot :=
    (InsMap.get_delete_of_ne _ hne).trans (InsMap.get_eq_some_iff.mpr hmem)
  have hrest : others key (st.dropSlot k slot) =
      (others key st).filter fun e => decide (e ≠ (k, slot)) := by
    rw [others, dropSlot, InsMap.delete_comm, InsMap.entries_delete hget, others]
  rw [oldestOther_argmin] at hold
  obtain ⟨before, later, heq, hbefore, hlater⟩ := argmin_split hold
  have hdrop : others key (st.dropSlot k slot) = before ++ later := by
    rw [others, dropSlot, InsMap.delete_comm]
    exact InsMap.entries_delete_split heq
  constructor
  · rw [heq, byAge_oldest hbefore hlater, ← hdrop]
    exact .cons hover h.shortest
  · rw [h.remaining, hrest, List.filter_filter]
    refine List.filter_congr fun e _ => ?_
    rw [← Bool.decide_and, decide_eq_decide, List.mem_cons, not_or, and_comm]

/-- The loop drops the oldest messages, with one error event for each. -/
theorem evictLoop_exact {key : JsString} (fuel : Nat) : ∀ st : Reassembly,
    st.reassembly.size ≤ fuel → st.reassemblyBytes = st.reassembly.sumBy (fun s => s.bytes) →
    (∀ s, st.reassembly.get key = some s → s.bytes ≤ BIN_REASSEMBLY_BUDGET_BYTES) →
    ∃ dropped, (evictLoop key fuel st).2 = dropped.map overflowError ∧
      DropsOldest key st.reassemblyBytes st (evictLoop key fuel st).1 dropped := by
  induction fuel with
  | zero =>
    intro st hsize hsum hprotect
    have halone : ∀ e ∈ st.reassembly.entries, e.1 = key := by
      rw [List.length_eq_zero_iff.mp (Nat.le_zero.mp hsize)]
      simp
    have hle := hsum ▸ sum_of_alone halone hprotect
    rw [evictLoop, if_pos hle]
    exact ⟨[], rfl, .none hle (by rw [others, maybeStop_reassembly, others])⟩
  | succ fuel ih =>
    intro st hsize hsum hprotect
    rw [evictLoop]
    split
    · next hle => exact ⟨[], rfl, .none hle (by rw [others, maybeStop_reassembly, others])⟩
    · next hover =>
      split
      · next hnone =>
        exact absurd (hsum ▸ sum_of_alone (oldestOther_none hnone) hprotect) hover
      · next k slot hold =>
        obtain ⟨hmem, hne⟩ := oldestOther_mem hold
        have hget := InsMap.get_eq_some_iff.mpr hmem
        obtain ⟨dropped, hevs, hdrops⟩ := ih (st.dropSlot k slot)
          (Nat.le_of_lt_succ ((InsMap.size_delete_lt hget).trans_le hsize))
          (by simp only [dropSlot, InsMap.sumBy_delete hget, hsum])
          fun s hs => hprotect s ((InsMap.get_delete_of_ne _ hne.symm).symm.trans hs)
        exact ⟨(k, slot) :: dropped, congrArg (overflowError (k, slot) :: ·) hevs,
          .cons (Int.not_le.mp hover) hold hdrops⟩

/-- With no slot left the loop ends in its first round. -/
theorem evictLoop_no_slots {key : JsString} {st : Reassembly} (h : st.reassembly.size = 0)
    (fuel : Nat) : evictLoop key fuel st = evictLoop key 0 st := by
  cases fuel with
  | zero => rfl
  | succ fuel =>
    have hnil : st.reassembly.entries = [] := List.length_eq_zero_iff.mp h
    rw [evictLoop, evictLoop, hnil]
    split
    · rfl
    · rfl

/-- More rounds than there are slots change nothing: the loop has ended before. -/
theorem evictLoop_fuel {key : JsString} (fuel : Nat) : ∀ {st : Reassembly} (rounds : Nat),
    st.reassembly.size ≤ fuel → st.reassembly.size ≤ rounds →
    evictLoop key rounds st = evictLoop key fuel st := by
  induction fuel with
  | zero =>
    intro st rounds hfuel _
    exact evictLoop_no_slots (Nat.le_zero.mp hfuel) rounds
  | succ fuel ih =>
    intro st rounds hfuel hrounds
    cases rounds with
    | zero => exact (evictLoop_no_slots (Nat.le_zero.mp hrounds) _).symm
    | succ rounds =>
      rw [evictLoop, evictLoop]
      split
      · rfl
      · cases hold : oldestOther key st.reassembly.entries with
        | none => rfl
        | some e =>
          have hlt := InsMap.size_delete_lt (InsMap.get_eq_some_iff.mpr (oldestOther_mem hold).1)
          dsimp only
          rw [ih rounds (Nat.le_of_lt_succ (hlt.trans_le hfuel))
            (Nat.le_of_lt_succ (hlt.trans_le hrounds))]

/-! ## A frame -/

/-- The frame is put into the slot of its message, and the message stays within its cap. -/
def Stores (st : Reassembly) (c : Chunk) : Prop :=
  InRange c ∧
    match st.reassembly.get (slotKey c.addon c.id) with
    | none => c.total.arrayLength?.isSome = true ∧ c.body.length ≤ BIN_MESSAGE_MAX_BYTES
    | some slot => c.total = .ofNat slot.total ∧ slot.mime = c.mime ∧
        slot.frames.get c.seq = none ∧ slot.bytes + c.body.length ≤ BIN_MESSAGE_MAX_BYTES

/-- The events `evs` and the buffer `st'` a frame for `key` with `room` bytes leaves, against the
events `alone` of the message without the others: where the frame is stored the oldest of the
others are dropped until there is room, and where it is not they stay. -/
structure Drops (key : JsString) (room : Nat) (stores : Prop) (st st' : Reassembly)
    (evs alone : List BinEvent) (dropped : List (JsString × ReassemblySlot)) : Prop where
  events : evs = dropped.map overflowError ++ alone
  stored : stores → DropsOldest key (st.reassemblyBytes + room) st st' dropped
  refused : ¬stores → dropped = [] ∧ others key st' = others key st

theorem Drops.kept {key : JsString} {room : Nat} {stores : Prop} {st st' : Reassembly}
    {evs : List BinEvent} (hrefused : ¬stores) (h : others key st' = others key st) :
    Drops key room stores st st' evs evs [] :=
  ⟨rfl, fun hs => absurd hs hrefused, fun _ => ⟨rfl, h⟩⟩

/-- What a frame does to its own message, which is what it does to that alone, and to the others. -/
structure FrameDrops (st : Reassembly) (now : Nat) (c : Chunk) (st' : Reassembly)
    (evs : List BinEvent) (dropped : List (JsString × ReassemblySlot)) : Prop where
  own : st'.reassembly.get (slotKey c.addon c.id) =
    (slotStep (st.reassembly.get (slotKey c.addon c.id)) now c).1
  quiet : ∀ e ∈ (slotStep (st.reassembly.get (slotKey c.addon c.id)) now c).2, isOverflow e = false
  drops : Drops (slotKey c.addon c.id) c.body.length (Stores st c) st st' evs
    (slotStep (st.reassembly.get (slotKey c.addon c.id)) now c).2 dropped

theorem others_set (key : JsString) (m : InsMap JsString ReassemblySlot) (slot : ReassemblySlot)
    (bytes bytes' : Int) (timer timer' : Bool) :
    others key ⟨m.set key slot, bytes, timer⟩ = others key ⟨m, bytes', timer'⟩ := by
  rw [others, others, InsMap.delete_set]

theorem others_drop (key : JsString) (st : Reassembly) (slot : ReassemblySlot) :
    others key (st.dropSlot key slot).maybeStopReassemblyGc = others key st := by
  rw [others, maybeStop_reassembly, dropSlot, InsMap.delete_of_none (InsMap.get_delete_self ..),
    others]

/-- The slot's message with the frame in it. -/
def put (st : Reassembly) (key : JsString) (slot : ReassemblySlot) (seq : Number) (body : Bytes) :
    Reassembly :=
  { st with
    reassembly := st.reassembly.set key (addFrame slot seq body)
    reassemblyBytes := st.reassemblyBytes + body.length }

theorem put_drops {st : Reassembly} {key : JsString} {slot : ReassemblySlot}
    (hget : st.reassembly.get key = some slot) (seq : Number) {body : Bytes}
    (hsum : st.reassemblyBytes = st.reassembly.sumBy fun s => s.bytes)
    (hcap : slot.bytes + body.length ≤ BIN_MESSAGE_MAX_BYTES) :
    ∃ dropped, ((put st key slot seq body).evictUntilUnderBudget key).2 =
        dropped.map overflowError ∧
      DropsOldest key (st.reassemblyBytes + body.length) st
        ((put st key slot seq body).evictUntilUnderBudget key).1 dropped := by
  have hput : (put st key slot seq body).reassemblyBytes =
      (put st key slot seq body).reassembly.sumBy fun s => s.bytes := by
    simp only [put, InsMap.sumBy_set_of_some hget, addFrame, hsum]
    push_cast
    omega
  have hown : ∀ s, (put st key slot seq body).reassembly.get key = some s →
      s.bytes ≤ BIN_REASSEMBLY_BUDGET_BYTES := by
    intro s hs
    obtain rfl := Option.some.inj ((InsMap.get_set_self ..).symm.trans hs)
    simp only [addFrame, BIN_MESSAGE_MAX_BYTES, BIN_REASSEMBLY_BUDGET_BYTES] at hcap ⊢
    omega
  obtain ⟨dropped, hevs, hdrops⟩ := evictLoop_exact _ _ (le_refl _) hput hown
  have hsame : others key (put st key slot seq body) = others key st := others_set ..
  exact ⟨dropped, hevs, hsame ▸ hdrops.shortest, hsame ▸ hdrops.remaining⟩

theorem storeFrame_drops (st : Reassembly) {key : JsString} {slot : ReassemblySlot}
    (hget : st.reassembly.get key = some slot) (seq : Number) (body : Bytes)
    (hsum : st.reassemblyBytes = st.reassembly.sumBy fun s => s.bytes) :
    ∃ dropped, Drops key body.length
      (slot.frames.get seq = none ∧ slot.bytes + body.length ≤ BIN_MESSAGE_MAX_BYTES) st
      (storeFrame st key slot seq body).1 (storeFrame st key slot seq body).2
      (slotStore slot seq body).2 dropped := by
  unfold storeFrame slotStore
  split
  · next hdup =>
    exact ⟨[], .kept (fun h => Option.isSome_iff_ne_none.mp hdup h.1) rfl⟩
  · next hdup =>
    have habsent : slot.frames.get seq = none := Option.not_isSome_iff_eq_none.mp hdup
    dsimp only
    split
    · next hcap =>
      refine ⟨[], .kept (fun h => absurd h.2 (Nat.not_le_of_lt hcap)) ?_⟩
      rw [others_drop]
      exact others_set ..
    · next hcap =>
      have hfits : slot.bytes + body.length ≤ BIN_MESSAGE_MAX_BYTES := Nat.le_of_not_lt hcap
      obtain ⟨dropped, hevs, hdrops⟩ := put_drops hget seq hsum hfits
      refine ⟨dropped, ?_, fun _ => ?_, fun h => absurd ⟨habsent, hfits⟩ h⟩
      · split
        · exact congrArg (· ++ _) hevs
        · rw [List.append_nil]
          exact hevs
      · split
        · refine ⟨hdrops.shortest, ?_⟩
          rw [others_drop]
          exact hdrops.remaining
        · exact hdrops

theorem handleChunk_local_drops {st : Reassembly} (h : Accounted st) (now : Nat) (c : Chunk) :
    ∃ dropped, Drops (slotKey c.addon c.id) c.body.length (Stores st c) st
      (st.handleChunk now c).1 (st.handleChunk now c).2
      (slotStep (st.reassembly.get (slotKey c.addon c.id)) now c).2 dropped := by
  by_cases hrange : (c.total.lt (.ofNat 1) || c.seq.lt (.ofNat 0) || c.total.le c.seq) = true
  · rw [handleChunk, slotStep.eq_def, if_pos hrange, if_pos hrange]
    refine ⟨[], .kept (fun hs => ?_) rfl⟩
    obtain ⟨⟨h1, h2, h3⟩, _⟩ := hs
    simp [h1, h2, h3] at hrange
  have hr : InRange c := by simpa [InRange, and_assoc] using hrange
  rw [handleChunk, slotStep.eq_def, if_neg hrange, if_neg hrange]
  dsimp only
  cases hget : st.reassembly.get (slotKey c.addon c.id) with
  | none =>
    have hstores : Stores st c ↔
        c.total.arrayLength?.isSome = true ∧ c.body.length ≤ BIN_MESSAGE_MAX_BYTES := by
      simp [Stores, hget, hr]
    dsimp only
    cases htotal : c.total.arrayLength? with
    | none => exact ⟨[], .kept (fun hs => by simp [htotal] at hstores; exact hstores hs) rfl⟩
    | some total =>
      obtain ⟨dropped, hd⟩ := storeFrame_drops ⟨st.reassembly.set (slotKey c.addon c.id)
        (newSlot c total now), st.reassemblyBytes, true⟩ (InsMap.get_set_self ..) c.seq c.body
        (by rw [InsMap.sumBy_set_of_none hget, h.bytes]; simp [newSlot])
      have hsame : others (slotKey c.addon c.id) ⟨st.reassembly.set (slotKey c.addon c.id)
        (newSlot c total now), st.reassemblyBytes, true⟩ = others (slotKey c.addon c.id) st :=
        others_set ..
      refine ⟨dropped, hd.events, fun hs => ?_, fun hs => ?_⟩
      · obtain ⟨h1, h2⟩ := hd.stored ⟨rfl, by simpa [newSlot] using (hstores.mp hs).2⟩
        rw [hsame] at h1 h2
        exact ⟨h1, h2⟩
      · rw [← hsame]
        refine hd.refused fun hn => hs (hstores.mpr ⟨by rw [htotal]; rfl, ?_⟩)
        simpa [newSlot] using hn.2
  | some slot =>
    have hstores : Stores st c ↔ (c.total = .ofNat slot.total ∧ slot.mime = c.mime) ∧
        slot.frames.get c.seq = none ∧ slot.bytes + c.body.length ≤ BIN_MESSAGE_MAX_BYTES := by
      simp [Stores, hget, hr, and_assoc]
    have hmatch : (!(Number.ofNat slot.total).eq c.total || decide (slot.mime ≠ c.mime)) = true ↔
        ¬(c.total = .ofNat slot.total ∧ slot.mime = c.mime) := by
      have hnan : Number.ofNat slot.total ≠ .nan := by simp [Number.ofNat]
      rw [Bool.or_eq_true, Bool.not_eq_true', decide_eq_true_eq, ← Bool.not_eq_true, Number.eq_iff,
        and_iff_left hnan, eq_comm, not_and_or]
    dsimp only
    split
    · next hmismatch => exact ⟨[], .kept (fun hs => hmatch.mp hmismatch (hstores.mp hs).1) rfl⟩
    · next hmismatch =>
      have hsame := not_not.mp (mt hmatch.mpr hmismatch)
      obtain ⟨dropped, hd⟩ := storeFrame_drops _ hget c.seq c.body h.bytes
      exact ⟨dropped, hd.events, fun hs => hd.stored (hstores.mp hs).2,
        fun hs => hd.refused fun hn => hs (hstores.mpr ⟨hsame, hn⟩)⟩

theorem slotStore_quiet (slot : ReassemblySlot) (seq : Number) (body : Bytes) {e : BinEvent}
    (he : e ∈ (slotStore slot seq body).2) : isOverflow e = false := by
  unfold slotStore at he
  split at he
  · simp at he
  · dsimp only at he
    split at he
    · obtain rfl := List.mem_singleton.mp he
      rfl
    · split at he
      · obtain rfl := List.mem_singleton.mp he
        rfl
      · simp at he

theorem slotStep_quiet {slot? : Option ReassemblySlot} {now : Nat} {c : Chunk} {e : BinEvent}
    (he : e ∈ (slotStep slot? now c).2) : isOverflow e = false := by
  unfold slotStep at he
  split at he
  · obtain rfl := List.mem_singleton.mp he
    rfl
  · split at he
    · split at he
      · obtain rfl := List.mem_singleton.mp he
        rfl
      · exact slotStore_quiet _ _ _ he
    · split at he
      · obtain rfl := List.mem_singleton.mp he
        rfl
      · exact slotStore_quiet _ _ _ he

theorem handleChunk_drops {st : Reassembly} (h : Accounted st) (now : Nat) (c : Chunk) :
    ∃ dropped, FrameDrops st now c (st.handleChunk now c).1 (st.handleChunk now c).2 dropped := by
  obtain ⟨_, hlocal⟩ := handleChunk_local st now c
  obtain ⟨dropped, hdrops⟩ := handleChunk_local_drops h now c
  exact ⟨dropped, hlocal.slot, fun _ he => slotStep_quiet he, hdrops⟩

theorem decodeFrame_quiet {buf : Bytes} {e : BinError} (h : decodeFrame buf = .bad e) :
    isOverflow (.error e) = false := by
  unfold decodeFrame at h
  split at h
  · dsimp only at h
    split at h
    · cases h; rfl
    · split at h
      · cases h; rfl
      · unfold decodeHeader at h
        repeat' split at h
        all_goals cases h
        all_goals rfl
  · cases h; rfl

theorem run_within (ins : List Input) : Within (Machine.after step .init ins) := by
  rw [after_chunks]
  exact Machine.after_inv (fun _ i h => chunkStep_within i h) init_within _

/-- After every frame the buffer is within its budget. Where the frame is stored, the other messages
dropped for it are the oldest ones and no more than it takes, each with one error event, and the
rest of them stay; the frame's own message is handled as if there were no others. -/
theorem eviction_exact (ins : List Input) (now : Nat) (buf : Bytes) :
    let st := Machine.after step .init ins
    let r := st.handleBinaryFrame now buf
    r.1.reassemblyBytes ≤ BIN_REASSEMBLY_BUDGET_BYTES ∧
      (∀ c, decodeFrame buf = .chunk c → ∃ dropped, FrameDrops st now c r.1 r.2 dropped) ∧
      ((∀ c, decodeFrame buf ≠ .chunk c) → r.1 = st ∧ ∀ e ∈ r.2, isOverflow e = false) ∧
      ∀ (buffer : Reassembly) (key : JsString) (rounds : Nat), buffer.reassembly.size ≤ rounds →
        evictLoop key rounds buffer = buffer.evictUntilUnderBudget key := by
  intro st r
  have hst : Within st := run_within ins
  have hevict : ∀ (buffer : Reassembly) (key : JsString) (rounds : Nat),
      buffer.reassembly.size ≤ rounds →
      evictLoop key rounds buffer = buffer.evictUntilUnderBudget key :=
    fun buffer key rounds h => evictLoop_fuel _ rounds (le_refl _) h
  have hframe : ∀ c, decodeFrame buf = .chunk c → r = st.handleChunk now c := by
    intro c hc
    simp only [r, handleBinaryFrame, hc]
  have hother : (∀ c, decodeFrame buf ≠ .chunk c) → r.1 = st ∧ ∀ e ∈ r.2, isOverflow e = false := by
    intro hne
    simp only [r, handleBinaryFrame]
    cases hd : decodeFrame buf with
    | bad e => exact ⟨rfl, List.forall_mem_singleton.mpr (decodeFrame_quiet hd)⟩
    | throws e => exact ⟨rfl, List.forall_mem_singleton.mpr rfl⟩
    | whole m => exact ⟨rfl, List.forall_mem_singleton.mpr rfl⟩
    | chunk c => exact absurd hd (hne c)
  refine ⟨?_, fun c hc => ?_, hother, hevict⟩
  · by_cases hchunk : ∃ c, decodeFrame buf = .chunk c
    · obtain ⟨c, hc⟩ := hchunk
      rw [hframe c hc]
      exact (handleChunk_within hst now c).budget
    · rw [(hother (not_exists.mp hchunk)).1]
      exact hst.budget
  · rw [hframe c hc]
    exact handleChunk_drops hst.accounted now c

end Reassembly

end Senn.Core
