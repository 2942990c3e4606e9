import Senn.Core.BinaryFrame
import Senn.Lib.Machine

/-! # Sending on `core.bin`

`PeerSession.sendBinary` cuts a message into frames of at most 60 KiB, gives
frames of one message an id of the send counter, and hands them to the channel
one after the other until one cannot be built or the channel throws. -/

namespace Senn.Core
open Senn.Js Senn.Lib

inductive PeerSessionState where
  | idle
  | connecting
  | connected
  | closed
  | failed
deriving DecidableEq

def PeerSessionState.text : PeerSessionState → JsString
  | .idle => js "idle"
  | .connecting => js "connecting"
  | .connected => js "connected"
  | .closed => js "closed"
  | .failed => js "failed"

/-- Why `sendBinary` rejects. -/
inductive SendError where
  | badState (s : PeerSessionState)
  | addonEmpty
  | payloadExceeds (bytes : Nat)
  | notOpen
  | frameExceeds (frameLen : Nat)
  | channelThrew

/-- The message of the `Error`; an exception of the channel keeps its own. -/
def SendError.text : SendError → JsString
  | .badState s => js "PeerSession.sendBinary() called in state " ++ s.text
  | .addonEmpty => js "PeerSession.sendBinary: addon must be a non-empty string"
  | .payloadExceeds bytes => js "PeerSession.sendBinary: payload " ++ natText 10 bytes ++
      js "B exceeds " ++ natText 10 BIN_MESSAGE_MAX_BYTES ++ js "B"
  | .notOpen => js "PeerSession.sendBinary: binary channel is not open"
  | .frameExceeds frameLen => js "PeerSession.sendBinary: frame " ++ natText 10 frameLen ++
      js "B exceeds " ++ natText 10 BIN_FRAME_MAX_BYTES ++ js "B"
  | .channelThrew => []

/-- A call, with what it finds: the session's state, whether `binChannel` is
there and open, the clock, and the sends on which the channel throws. -/
structure SendCall where
  message : BinaryMessage
  state : PeerSessionState
  channelOpen : Bool
  now : Nat
  throwsAt : Nat → Bool

/-- What a call did: the frames the channel took, the message id it drew if it
drew one, and how its promise settled. -/
structure SendResult where
  message : BinaryMessage
  frames : List Bytes
  id : Option JsString
  error : Option SendError

/-- The next value of `nextSendId`. -/
def nextSendId (n : Nat) : Nat := (n + 1) % 0xffffff

/-- The id `newMessageId` makes from the clock and the new counter. -/
def messageId (now sendId : Nat) : JsString :=
  js "m_" ++ natText 36 now ++ js "_" ++ natText 36 sendId

/-- `Math.max(1, Math.ceil(byteLength / BIN_BODY_PER_FRAME))` -/
def frameCount (byteLength : Nat) : Nat :=
  max 1 ((byteLength + (BIN_BODY_PER_FRAME - 1)) / BIN_BODY_PER_FRAME)

/-- `message.bytes.subarray(start, end)` of the loop's round `seq`. -/
def slice (bytes : Bytes) (seq : Nat) : Bytes :=
  (bytes.drop (seq * BIN_BODY_PER_FRAME)).take BIN_BODY_PER_FRAME

def partOpts (m : BinaryMessage) (id : JsString) (total seq : Nat) : FrameOpts :=
  { addon := m.addon, mime := m.mime, body := slice m.bytes seq,
    id := some id, seq := some seq, total := some total }

def wholeOpts (m : BinaryMessage) : FrameOpts :=
  { addon := m.addon, mime := m.mime, body := m.bytes }

/-- `sendOneFrame` for each of `opts` in turn, until one of them throws; the
channel's sends are counted from `sent`. -/
def sendFrames (throwsAt : Nat → Bool) : Nat → List FrameOpts → List Bytes × Option SendError
  | _, [] => ([], none)
  | sent, opts :: rest =>
    match encodeFrame opts with
    | none => ([], some (.frameExceeds opts.frameLen))
    | some frame =>
      if throwsAt sent then ([], some .channelThrew)
      else
        let r := sendFrames throwsAt (sent + 1) rest
        (frame :: r.1, r.2)

/-- `PeerSession.sendBinary`, on the counter `nextSendId`. -/
def sendBinary (sendId : Nat) (call : SendCall) : Nat × List SendResult :=
  let m := call.message
  let rejected e : List SendResult := [⟨m, [], none, some e⟩]
  if call.state ≠ .connected then (sendId, rejected (.badState call.state))
  else if m.addon = [] then (sendId, rejected .addonEmpty)
  else if m.bytes.length > BIN_MESSAGE_MAX_BYTES then
    (sendId, rejected (.payloadExceeds m.bytes.length))
  else if !call.channelOpen then (sendId, rejected .notOpen)
  else
    let total := frameCount m.bytes.length
    if total = 1 then
      let r := sendFrames call.throwsAt 0 [wholeOpts m]
      (sendId, [⟨m, r.1, none, r.2⟩])
    else
      let sendId := nextSendId sendId
      let id := messageId call.now sendId
      let r := sendFrames call.throwsAt 0 ((List.range total).map (partOpts m id total))
      (sendId, [⟨m, r.1, some id, r.2⟩])

/-- The results of a sequence of calls on one session. -/
def sendAll (sendId : Nat) (calls : List SendCall) : List SendResult :=
  Machine.outputs sendBinary sendId calls

/-- The message of a call that resolved. -/
def SendResult.delivered (r : SendResult) : List BinaryMessage :=
  match r.error with
  | none => [r.message]
  | some _ => []

/-! ## What the frames of a call are -/

/-- Frames sent are the encodings of the first of the options, of all of them
when the loop ran to its end. -/
theorem sendFrames_spec (throwsAt : Nat → Bool) (opts : List FrameOpts) : ∀ sent,
    ∃ k ≤ opts.length, (sendFrames throwsAt sent opts).1.map some =
        (opts.take k).map encodeFrame ∧
      ((sendFrames throwsAt sent opts).2 = none ↔ k = opts.length) := by
  induction opts with
  | nil => intro sent; exact ⟨0, Nat.le_refl _, rfl, by simp [sendFrames]⟩
  | cons o opts ih =>
    intro sent
    cases he : encodeFrame o with
    | none => exact ⟨0, Nat.zero_le _, by simp [sendFrames, he], by simp [sendFrames, he]⟩
    | some frame =>
      by_cases ht : throwsAt sent = true
      · exact ⟨0, Nat.zero_le _, by simp [sendFrames, he, ht], by simp [sendFrames, he, ht]⟩
      · obtain ⟨k, hk, hframes, hend⟩ := ih (sent + 1)
        refine ⟨k + 1, Nat.succ_le_succ hk, ?_, ?_⟩
        · simp only [sendFrames, he, if_neg ht, List.map_cons, List.take_succ_cons, hframes]
        · simp only [sendFrames, he, if_neg ht, List.length_cons, Nat.add_right_cancel_iff]
          exact hend

/-- What a call can do. -/
inductive Sends : SendResult → Prop
  | nothing {m : BinaryMessage} {e : SendError} : Sends ⟨m, [], none, some e⟩
  | whole {m : BinaryMessage} {frame : Bytes} : m.addon ≠ [] →
      encodeFrame (wholeOpts m) = some frame → Sends ⟨m, [frame], none, none⟩
  | parts {m : BinaryMessage} {id : JsString} {frames : List Bytes} {error : Option SendError}
      {k : Nat} : m.addon ≠ [] → m.bytes.length ≤ BIN_MESSAGE_MAX_BYTES →
      1 < frameCount m.bytes.length → 0x1F ∉ id → k ≤ frameCount m.bytes.length →
      frames.map some = (List.range k).map (fun seq =>
        encodeFrame (partOpts m id (frameCount m.bytes.length) seq)) →
      (error = none ↔ k = frameCount m.bytes.length) → Sends ⟨m, frames, some id, error⟩

theorem messageId_plain (now sendId : Nat) : 0x1F ∉ messageId now sendId := by
  have htext : ∀ n, 0x1F ∉ natText 36 n := by
    intro n hn
    have h := natText_alphanumeric (by decide) (by decide) hn
    have h31 : (0x1F : UInt16).toNat = 31 := rfl
    omega
  simp only [messageId, List.mem_append, not_or]
  exact ⟨⟨⟨by decide, htext now⟩, by decide⟩, htext sendId⟩

theorem sendBinary_sends (sendId : Nat) (call : SendCall) :
    ∃ sendId' r, sendBinary sendId call = (sendId', [r]) ∧ r.message = call.message ∧ Sends r := by
  unfold sendBinary
  dsimp only
  split
  · exact ⟨_, _, rfl, rfl, .nothing⟩
  split
  · exact ⟨_, _, rfl, rfl, .nothing⟩
  next haddon =>
  split
  · exact ⟨_, _, rfl, rfl, .nothing⟩
  next hlen =>
  split
  · exact ⟨_, _, rfl, rfl, .nothing⟩
  split
  · obtain ⟨k, hk, hframes, hend⟩ := sendFrames_spec call.throwsAt [wholeOpts call.message] 0
    refine ⟨_, _, rfl, rfl, ?_⟩
    cases hr : sendFrames call.throwsAt 0 [wholeOpts call.message] with
    | mk frames error =>
      rw [hr] at hframes hend
      rcases Nat.le_one_iff_eq_zero_or_eq_one.mp hk with rfl | rfl
      · obtain rfl := List.map_eq_nil_iff.mp hframes
        cases error with
        | none => exact absurd (hend.mp rfl) (by simp)
        | some e => exact .nothing
      · obtain ⟨frame, rest, rfl, hframe, hrest⟩ := List.map_eq_cons_iff.mp hframes
        obtain rfl := List.map_eq_nil_iff.mp hrest
        obtain rfl : error = none := hend.mpr rfl
        exact .whole haddon hframe.symm
  · next hone =>
    obtain ⟨k, hk, hframes, hend⟩ := sendFrames_spec call.throwsAt
      ((List.range (frameCount call.message.bytes.length)).map (partOpts call.message
        (messageId call.now (nextSendId sendId)) (frameCount call.message.bytes.length))) 0
    rw [List.length_map, List.length_range] at hk hend
    have hcount : 1 < frameCount call.message.bytes.length := by
      have : 1 ≤ frameCount call.message.bytes.length := Nat.le_max_left ..
      omega
    refine ⟨_, _, rfl, rfl, .parts haddon (Nat.le_of_not_lt hlen) hcount
      (messageId_plain call.now (nextSendId sendId)) hk ?_ hend⟩
    rw [hframes, ← List.map_take, List.take_range, Nat.min_eq_left hk, List.map_map]
    rfl

/-- Every frame of a call fits the wire's cap. -/
theorem Sends.length {r : SendResult} (h : Sends r) {frame : Bytes} (hf : frame ∈ r.frames) :
    frame.length ≤ BIN_FRAME_MAX_BYTES := by
  have hlen : ∀ {opts : FrameOpts} {f : Bytes}, encodeFrame opts = some f →
      f.length ≤ BIN_FRAME_MAX_BYTES := by
    intro opts f ho
    obtain ⟨hlen, hle⟩ := encodeFrame_length ho
    omega
  cases h with
  | nothing => cases hf
  | whole _ ho => obtain rfl := List.mem_singleton.mp hf; exact hlen ho
  | parts _ _ _ _ _ hframes _ =>
    have hmem := List.mem_map_of_mem (f := some) hf
    rw [hframes] at hmem
    obtain ⟨seq, _, ho⟩ := List.mem_map.mp hmem
    exact hlen ho

end Senn.Core
