import Senn.Core.Stream
import Senn.Session.Closing

/-! # The channels of a session

`sendText` hands a text to the text channel or rejects. A text is reported where one comes out of a
text channel, and a binary message where a frame comes out of a binary one, and nowhere else. What
is not a frame makes the receiver drop at most slots. -/

namespace Senn.Session

open Senn.Js Senn.Lib Senn.Core

def TEXT_MAX_BYTES : Nat := 64 * 1024

/-- A call of `sendText`, with what it finds: whether the channel is open, and what it throws. -/
structure TextCall where
  message : JsString
  channelOpen : Bool
  thrown : Option JsString

/-- The text that a report is about. -/
def Out.text? : Out → Option JsString
  | .text data => some data
  | _ => none

/-- The binary message that a report is about. -/
def Out.binary? : Out → Option BinaryMessage
  | .bin e => Reassembly.BinEvent.binary? e
  | _ => none

/-- The texts a step reports. -/
def texts (outs : List Out) : List JsString := outs.filterMap Out.text?

/-- The binary messages a step reports. -/
def binaries (outs : List Out) : List BinaryMessage := outs.filterMap Out.binary?

theorem bin_texts (events : List BinEvent) : texts (events.map Out.bin) = [] := by
  simp [texts, Out.text?]

theorem bin_binaries (events : List BinEvent) :
    binaries (events.map Out.bin) = events.filterMap Reassembly.BinEvent.binary? := by
  rw [binaries, List.filterMap_map]
  rfl

/-- Nothing of it comes out of a channel. -/
structure Quiet (outs : List Out) : Prop where
  text : texts outs = []
  binary : binaries outs = []

theorem Quiet.nil : Quiet [] := ⟨rfl, rfl⟩

theorem Quiet.append {a b : List Out} (ha : Quiet a) (hb : Quiet b) : Quiet (a ++ b) := by
  refine ⟨?_, ?_⟩
  · rw [texts, List.filterMap_append]
    exact List.append_eq_nil_iff.mpr ⟨ha.text, hb.text⟩
  · rw [binaries, List.filterMap_append]
    exact List.append_eq_nil_iff.mpr ⟨ha.binary, hb.binary⟩

namespace PeerSession

/-- `sendText`: the text the channel takes, or the message of the rejection. -/
def sendText (s : PeerSession) (call : TextCall) : Except JsString JsString :=
  if s.currentState ≠ .connected then
    .error (js "PeerSession.sendText() called in state " ++ s.currentState.text)
  else
    let bytes := (utf8Encode call.message).length
    if bytes > TEXT_MAX_BYTES then
      .error (js "PeerSession.sendText: payload " ++ natText 10 bytes ++ js "B exceeds " ++
        natText 10 TEXT_MAX_BYTES ++ js "B")
    else if s.channel.isNone || !call.channelOpen then
      .error (js "PeerSession.sendText: data channel is not open")
    else
      match call.thrown with
      | some message => .error message
      | none => .ok call.message

theorem sendText_ok {s : PeerSession} {call : TextCall} {text : JsString} :
    s.sendText call = .ok text ↔ text = call.message ∧ s.currentState = .connected ∧
      (utf8Encode call.message).length ≤ TEXT_MAX_BYTES ∧ s.channel.isSome ∧
      call.channelOpen = true ∧ call.thrown = none := by
  unfold sendText
  by_cases hstate : s.currentState = .connected
  · by_cases hbytes : (utf8Encode call.message).length ≤ TEXT_MAX_BYTES
    · cases hchannel : s.channel <;> cases hopen : call.channelOpen <;>
        cases hthrown : call.thrown <;> simp [hstate, hbytes, Nat.not_lt.mpr hbytes, eq_comm]
    · simp [hstate, hbytes, Nat.lt_of_not_le hbytes]
  · simp [hstate]

/-! ## What is reported -/

/-- The events that bring something out of a channel, or go over the slots. -/
def Channelled : Event → Prop
  | .textMessage _ _ | .binMessage _ _ _ | .blobRead _ _ | .gcTick _ => True
  | _ => False

theorem setState_silent (s : PeerSession) (next : PeerSessionState) :
    Quiet (s.setState next).2 := by
  unfold setState
  split
  · exact .nil
  · exact ⟨rfl, rfl⟩

theorem close_silent (s : PeerSession) : Quiet s.close.2 := by
  unfold close
  split
  · exact ⟨rfl, rfl⟩
  · split
    · exact (setState_silent s .closed).append ⟨rfl, rfl⟩
    · exact (setState_silent s .closed).append ⟨rfl, rfl⟩

theorem signaling_quiet (s : PeerSession) (msg : SignalingMessage) :
    Quiet (s.handleSignalingMessage msg).2 := by
  unfold handleSignalingMessage
  split
  · exact .nil
  split
  · exact .nil
  unfold handleKind
  split
  · simp only
    split <;> exact .nil
  · exact .nil
  · exact .nil
  · exact close_silent s

theorem operationDone_quiet (s : PeerSession) (ok : Bool) : Quiet (s.operationDone ok).2 := by
  unfold operationDone
  split
  · split
    · exact .nil
    split
    · unfold fulfilled
      split
      · split <;> exact ⟨rfl, rfl⟩
      · exact .nil
      · split <;> exact ⟨rfl, rfl⟩
      · exact .nil
      · exact .nil
    · unfold rejected
      split
      · exact ⟨rfl, rfl⟩
      · exact ⟨rfl, rfl⟩
      · exact ⟨rfl, rfl⟩
      · split <;> exact ⟨rfl, rfl⟩
      · split <;> exact ⟨rfl, rfl⟩
  · exact .nil

theorem step_quiet (s : PeerSession) {ev : Event} (h : ¬Channelled ev) : Quiet (s.step ev).2 := by
  cases ev with
  | close => exact close_silent s
  | operationDone ok => exact operationDone_quiet s ok
  | signaling msg =>
    simp only [step]
    split
    · exact signaling_quiet s msg
    · exact .nil
  | start =>
    simp only [step, start]
    split
    · exact ⟨rfl, rfl⟩
    · exact setState_silent ..
  | negotiationNeeded => exact .nil
  | iceCandidate candidate =>
    simp only [step]
    split <;> exact ⟨rfl, rfl⟩
  | connectionStateChange cs =>
    simp only [step]
    split
    · exact .nil
    · split
      · split
        · exact setState_silent ..
        · exact .nil
      · split
        · exact setState_silent ..
        · exact .nil
      · exact .nil
  | dataChannel label =>
    simp only [step]
    split
    · exact .nil
    · split
      · exact .nil
      · split
        · exact .nil
        · split <;> exact .nil
  | channelOpen i =>
    simp only [step]
    split
    · exact setState_silent ..
    · exact .nil
  | channelClose i =>
    simp only [step]
    split
    · split
      · exact setState_silent ..
      · exact .nil
    · exact .nil
  | channelError i =>
    simp only [step]
    split <;> exact ⟨rfl, rfl⟩
  | offerPublished ok =>
    simp only [step]
    split
    · exact .nil
    · split <;> exact ⟨rfl, rfl⟩
  | answerPublished ok =>
    simp only [step]
    split
    · exact .nil
    · split <;> exact ⟨rfl, rfl⟩
  | byePublished =>
    simp only [step]
    split <;> exact ⟨rfl, rfl⟩
  | textMessage i data => exact absurd trivial h
  | binMessage i now data => exact absurd trivial h
  | blobRead k now => exact absurd trivial h
  | gcTick now => exact absurd trivial h

/-! ## Texts -/

/-- The text an event brings out of a text channel. -/
def heard (s : PeerSession) : Event → Option JsString
  | .textMessage i data => if s.channels[i]?.any (·.kind = .text) then data else none
  | _ => none

/-- A step reports what `heard` says. -/
theorem step_texts (s : PeerSession) (ev : Event) : texts (s.step ev).2 = (s.heard ev).toList := by
  by_cases hchannelled : Channelled ev
  · cases ev with
    | textMessage i data =>
      simp only [step, heard]
      cases hi : s.channels[i]? with
      | none => rfl
      | some channel =>
        obtain ⟨kind, closed⟩ := channel
        cases kind <;> cases data <;> rfl
    | binMessage i now data =>
      simp only [step, heard]
      split
      · split
        · exact bin_texts ..
        · rfl
        · rfl
      · rfl
    | blobRead k now =>
      simp only [step, heard]
      split
      · exact bin_texts ..
      · rfl
    | gcTick now => exact bin_texts ..
    | _ => exact hchannelled.elim
  · rw [(step_quiet s hchannelled).text]
    cases ev <;> first | rfl | exact absurd trivial hchannelled

/-! ## Binary messages -/

/-- The events that bring a frame. -/
def Framed : Event → Prop
  | .binMessage _ _ _ | .blobRead _ _ => True
  | _ => False

theorem gcTick_binaries (st : Reassembly) (now : Nat) :
    (st.step (.gcTick now)).2.filterMap Reassembly.BinEvent.binary? = [] := by
  refine List.filterMap_eq_nil_iff.mpr fun e he => ?_
  simp only [Reassembly.step] at he
  split at he
  · obtain ⟨st', -, hswept⟩ := Reassembly.gcStale_fold st now
    obtain ⟨addon, id, rfl⟩ := hswept.errors e he
    rfl
  · cases he

theorem step_unframed (s : PeerSession) {ev : Event} (h : ¬Framed ev)
    (hacc : Accounted s.reassembly) : binaries (s.step ev).2 = [] ∧
      Reassembly.Shrinks s.reassembly (s.step ev).1.reassembly := by
  refine ⟨?_, ?_⟩
  · by_cases hchannelled : Channelled ev
    · cases ev with
      | textMessage i data =>
        simp only [step]
        split <;> rfl
      | gcTick now => exact (bin_binaries _).trans (gcTick_binaries ..)
      | binMessage i now data => exact absurd trivial h
      | blobRead k now => exact absurd trivial h
      | _ => exact hchannelled.elim
    · exact (step_quiet s hchannelled).binary
  · have hkept : Reassembly.Shrinks s.reassembly s.reassembly := ⟨hacc, fun _ _ hs => hs⟩
    have hchange := step_resources s ev
    rw [show (s.step ev).1.reassembly = (s.step ev).1.resources.reassembly from rfl]
    generalize (s.step ev).1.resources = r at hchange ⊢
    cases hchange with
    | same => exact hkept
    | start => exact hkept
    | bound => exact hkept
    | again => exact hkept
    | bye => exact hkept
    | unused => exact Reassembly.shrinks_clear _
    | byePublished => exact Reassembly.shrinks_clear _
    | gcTick => exact Reassembly.shrinks_tick hacc _
    | frame now hcalls hframe => cases ev <;> first | exact absurd trivial h | cases hframe

/-- A frame out of a channel: the messages that the receiver makes of it, if the channel is a
binary one. -/
theorem step_frame (s : PeerSession) (i now : Nat) (buf : Bytes) :
    (s.step (.binMessage i now (.arrayBuffer buf))).1.reassembly =
        (if s.channels[i]?.any (·.kind = .bin) then
          (s.reassembly.step (.frame now buf)).1 else s.reassembly) ∧
      binaries (s.step (.binMessage i now (.arrayBuffer buf))).2 =
        if s.channels[i]?.any (·.kind = .bin) then
          (s.reassembly.step (.frame now buf)).2.filterMap Reassembly.BinEvent.binary? else [] := by
  simp only [step]
  cases hi : s.channels[i]? with
  | none => exact ⟨rfl, rfl⟩
  | some channel =>
    obtain ⟨kind, closed⟩ := channel
    cases kind with
    | text => exact ⟨rfl, rfl⟩
    | bin => exact ⟨rfl, bin_binaries _⟩

end PeerSession

end Senn.Session
