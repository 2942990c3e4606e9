import Senn.Core.BinaryFrame
import Senn.Lib.Machine

/-! # The reassembly buffer of `PeerSession`

Frames of messages of several frames are kept in slots until the last one
arrives. The buffer is bounded in bytes by evicting the oldest other message,
in time by an interval that drops what is sixty seconds old. Every step is the
source's, with the order of its checks and of the events it emits; `Accounted`
is the invariant the byte counters keep. -/

namespace Senn.Core
open Senn.Js Senn.Lib

/-- `total` is the length `new Array(total)` gave `frames`. -/
structure ReassemblySlot where
  id : JsString
  addon : JsString
  mime : JsString
  total : Nat
  frames : InsMap Number Bytes
  receivedFrames : Nat
  bytes : Nat
  firstSeenAt : Nat
deriving DecidableEq

/-- The fields of a session the binary channel works on. -/
structure Reassembly where
  reassembly : InsMap JsString ReassemblySlot
  reassemblyBytes : Int
  reassemblyGcTimer : Bool
deriving DecidableEq

def Reassembly.init : Reassembly := ⟨.empty, 0, false⟩

/-- What the handler lets out: the events it emits, or an exception. -/
inductive BinEvent where
  | binary (m : BinaryMessage)
  | error (e : BinError)
  | thrown (e : JsError)
deriving DecidableEq

/-- The key of a message's slot: the add-on, a unit separator, the message id. -/
def slotKey (addon id : JsString) : JsString := addon ++ 0x1F :: id

/-- Keys without the separator in the add-on name one message each. -/
theorem slotKey_injective {a b i j : JsString} (ha : 0x1F ∉ a) (hb : 0x1F ∉ b)
    (h : slotKey a i = slotKey b j) : a = b ∧ i = j := by
  induction a generalizing b with
  | nil =>
    cases b with
    | nil => exact ⟨rfl, (List.cons.inj h).2⟩
    | cons v b => exact absurd (List.mem_cons.mpr (.inl (List.cons.inj h).1)) hb
  | cons u a ih =>
    cases b with
    | nil => exact absurd (List.mem_cons.mpr (.inl (List.cons.inj h).1.symm)) ha
    | cons v b =>
      obtain ⟨huv, htail⟩ := List.cons.inj h
      obtain ⟨hab, hij⟩ := ih (List.not_mem_of_not_mem_cons ha) (List.not_mem_of_not_mem_cons hb)
        htail
      exact ⟨by rw [huv, hab], hij⟩

namespace Reassembly

def maybeStopReassemblyGc (st : Reassembly) : Reassembly :=
  if st.reassembly.size = 0 then { st with reassemblyGcTimer := false } else st

/-- `this.reassembly.delete(key); this.reassemblyBytes -= slot.bytes` -/
def dropSlot (st : Reassembly) (key : JsString) (slot : ReassemblySlot) : Reassembly :=
  { st with
    reassembly := st.reassembly.delete key
    reassemblyBytes := st.reassemblyBytes - slot.bytes }

/-- The first of the oldest slots other than `protectKey`, in insertion order. -/
def oldestOther (protectKey : JsString) (es : List (JsString × ReassemblySlot)) :
    Option (JsString × ReassemblySlot) :=
  es.foldl (fun oldest e =>
    if e.1 = protectKey then oldest
    else match oldest with
      | none => some e
      | some o => if e.2.firstSeenAt < o.2.firstSeenAt then some e else oldest) none

/-- The eviction loop; each round deletes a slot, so the number of slots is
fuel enough and at fuel zero no slot is left to evict. -/
def evictLoop (protectKey : JsString) : Nat → Reassembly → Reassembly × List BinEvent
  | 0, st => (if st.reassemblyBytes ≤ BIN_REASSEMBLY_BUDGET_BYTES then st.maybeStopReassemblyGc
      else st, [])
  | fuel + 1, st =>
    if st.reassemblyBytes ≤ BIN_REASSEMBLY_BUDGET_BYTES then (st.maybeStopReassemblyGc, [])
    else
      match oldestOther protectKey st.reassembly.entries with
      | none => (st, [])
      | some (k, dropped) =>
        let r := evictLoop protectKey fuel (st.dropSlot k dropped)
        (r.1, .error (.overflowDropped dropped.addon dropped.id) :: r.2)

def evictUntilUnderBudget (st : Reassembly) (protectKey : JsString) :
    Reassembly × List BinEvent := evictLoop protectKey st.reassembly.size st

/-- The frames at the integer positions below `total`, one after the other. -/
def gathered (slot : ReassemblySlot) : Bytes :=
  ((List.range slot.total).filterMap fun i => slot.frames.get (.ofNat i)).flatten

/-- `new Uint8Array(slot.bytes)` with the gathered frames copied to its start. -/
def assemble (slot : ReassemblySlot) : Bytes :=
  gathered slot ++ List.replicate (slot.bytes - (gathered slot).length) 0

/-- The slot with one more frame. -/
def addFrame (slot : ReassemblySlot) (seq : Number) (body : Bytes) : ReassemblySlot :=
  { slot with
    frames := slot.frames.set seq body
    receivedFrames := slot.receivedFrames + 1
    bytes := slot.bytes + body.length }

/-- `handleChunk` once the slot of the message is known. -/
def storeFrame (st : Reassembly) (key : JsString) (slot : ReassemblySlot) (seq : Number)
    (body : Bytes) : Reassembly × List BinEvent :=
  if (slot.frames.get seq).isSome then (st, [])   -- a duplicate frame is ignored
  else
    let slot := addFrame slot seq body
    let st := { st with
      reassembly := st.reassembly.set key slot
      reassemblyBytes := st.reassemblyBytes + body.length }
    if slot.bytes > BIN_MESSAGE_MAX_BYTES then
      ((st.dropSlot key slot).maybeStopReassemblyGc, [.error (.exceedsCap slot.bytes)])
    else
      let (st, evicted) := st.evictUntilUnderBudget key
      if slot.receivedFrames = slot.total then
        ((st.dropSlot key slot).maybeStopReassemblyGc,
          evicted ++ [.binary ⟨slot.addon, slot.mime, assemble slot⟩])
      else (st, evicted)

def newSlot (c : Chunk) (total now : Nat) : ReassemblySlot :=
  ⟨c.id, c.addon, c.mime, total, .empty, 0, 0, now⟩

/-- `PeerSession.handleChunk` at time `now`. -/
def handleChunk (st : Reassembly) (now : Nat) (c : Chunk) : Reassembly × List BinEvent :=
  if c.total.lt (.ofNat 1) || c.seq.lt (.ofNat 0) || c.total.le c.seq then
    (st, [.error .seqTotalOutOfRange])
  else
    let key := slotKey c.addon c.id
    match st.reassembly.get key with
    | none =>
      match c.total.arrayLength? with
      | none => (st, [.thrown .rangeError])   -- `new Array(total)`
      | some total =>
        let slot := newSlot c total now
        storeFrame { st with
          reassembly := st.reassembly.set key slot
          reassemblyGcTimer := true } key slot c.seq c.body
    | some slot =>
      if !(Number.ofNat slot.total).eq c.total || slot.mime ≠ c.mime then
        (st, [.error .totalMimeMismatch])
      else storeFrame st key slot c.seq c.body

/-- `PeerSession.handleBinaryFrame` at time `now`. -/
def handleBinaryFrame (st : Reassembly) (now : Nat) (buf : Bytes) : Reassembly × List BinEvent :=
  match decodeFrame buf with
  | .bad e => (st, [.error e])
  | .throws e => (st, [.thrown e])
  | .whole m => (st, [.binary m])
  | .chunk c => st.handleChunk now c

/-- One entry of the map as the interval's callback visits it. -/
def gcEntry (now : Nat) (acc : Reassembly × List BinEvent) (e : JsString × ReassemblySlot) :
    Reassembly × List BinEvent :=
  if now - e.2.firstSeenAt < BIN_REASSEMBLY_TIMEOUT_MS then acc
  else (acc.1.dropSlot e.1 e.2, acc.2 ++ [.error (.timeoutDropped e.2.addon e.2.id)])

def gcStaleReassemblies (st : Reassembly) (now : Nat) : Reassembly × List BinEvent :=
  let r := st.reassembly.entries.foldl (gcEntry now) (st, [])
  (r.1.maybeStopReassemblyGc, r.2)

/-- What the buffer reacts to: a buffer on the channel, or the interval firing. -/
inductive Input where
  | frame (now : Nat) (buf : Bytes)
  | gcTick (now : Nat)
deriving DecidableEq

def step (st : Reassembly) : Input → Reassembly × List BinEvent
  | .frame now buf => st.handleBinaryFrame now buf
  | .gcTick now => if st.reassemblyGcTimer then st.gcStaleReassemblies now else (st, [])

/-- `close()` on the buffer. -/
def clear (_ : Reassembly) : Reassembly := .init

end Reassembly

end Senn.Core
