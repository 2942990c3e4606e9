import Senn.Addon.Host
import Senn.Lib.Machine

/-! # What the handlers of a host leave alone

Most handlers send, capture or report and leave a host's life, its sinks and its
storage requests as they are. They post nothing but errors and `media.track`. -/

namespace Senn.Addon
open Senn.Js Senn.Lib Senn.Protocol

/-- What the life of a host, its sinks and its storage requests are read from. -/
structure Vitals where
  manifest : AddonManifest
  options : AddonHostOptions
  iframe : Option (Option Window)
  currentState : AddonHostState
  listening : Bool
  bound : Bool
  closing : Option (Nat × LocalSender)
  mediaReceiveAudio : Bool
  mediaReceiveVideo : Bool
  mediaSinkDetachers : InsMap MediaKind Nat
  endedListeners : List (Nat × MediaKind)
  storageCalls : List (JsString × StorageCall)

/-- An output of no account to them. -/
def Out.Minor : Out → Prop
  | .post (.error _ _) | .post (.mediaTrack _ _ _) => True
  | .post _ | .state _ | .detach _ | .attach _ _ | .storage _ => False
  | _ => True

namespace AddonHost

def vitals (s : AddonHost) : Vitals where
  manifest := s.manifest
  options := s.options
  iframe := s.iframe
  currentState := s.currentState
  listening := s.listening
  bound := s.bound
  closing := s.closing
  mediaReceiveAudio := s.mediaReceiveAudio
  mediaReceiveVideo := s.mediaReceiveVideo
  mediaSinkDetachers := s.mediaSinkDetachers
  endedListeners := s.endedListeners
  storageCalls := s.storageCalls

/-- A handler's result that leaves the vitals alone. -/
structure Plain (s : AddonHost) (r : AddonHost × List Out) : Prop where
  vitals : r.1.vitals = s.vitals
  minor : ∀ o ∈ r.2, o.Minor

variable (s : AddonHost)

theorem Plain.refl : Plain s (s, []) := ⟨rfl, by simp⟩

theorem post_minor {msg : BridgePost} (h : Out.Minor (.post msg)) :
    ∀ o ∈ s.postToIframe msg, o.Minor := by
  unfold postToIframe
  split
  · simpa using h
  · simp

theorem Plain.error {s' : AddonHost} (h : s'.vitals = s.vitals) (code message : JsString) :
    Plain s (s', s.postBridgeError code message) := ⟨h, post_minor s trivial⟩

theorem setWants_vitals (kind : MediaKind) (on : Bool) :
    (s.setWants kind on).vitals = s.vitals := by
  cases kind <;> rfl

/-- A result after the `wants` record was written. -/
theorem Plain.of_wants {kind : MediaKind} {on : Bool} {r : AddonHost × List Out}
    (h : Plain (s.setWants kind on) r) : Plain s r :=
  ⟨h.vitals.trans (s.setWants_vitals kind on), h.minor⟩

theorem handleSend_plain (payload : Data) (now : Nat) : Plain s (s.handleSend payload now) := by
  unfold handleSend
  split
  · exact ⟨rfl, by simp [Out.Minor]⟩
  · split
    · exact ⟨rfl, by simp [Out.Minor]⟩
    · dsimp only
      split <;> exact ⟨rfl, by simp [Out.Minor]⟩

theorem handleSendBin_plain (mime bytes : Data) : Plain s (s.handleSendBin mime bytes) := by
  unfold handleSendBin
  split
  · exact .error s rfl _ _
  · split
    · split
      · exact .error s rfl _ _
      · split
        · exact .error s rfl _ _
        · exact ⟨rfl, by simp [Out.Minor]⟩
    · exact .error s rfl _ _

theorem handleAudioLevelSubscribe_plain : Plain s s.handleAudioLevelSubscribe := by
  unfold handleAudioLevelSubscribe
  split
  · exact .error s rfl _ _
  · exact ⟨rfl, by simp⟩

theorem handleMediaSendStart_plain (kind : MediaKind) (source : Option Data) :
    Plain s (s.handleMediaSendStart kind source) := by
  unfold handleMediaSendStart
  split
  · exact .error s rfl _ _
  · split
    · exact .error s rfl _ _
    · split
      · exact .error s rfl _ _
      · split
        · exact ⟨rfl, post_minor s trivial⟩
        · split
          · exact ⟨rfl, by simp [Out.Minor]⟩
          · exact .error s rfl _ _

theorem handleMediaSendStop_plain (kind : MediaKind) : Plain s (s.handleMediaSendStop kind) := by
  unfold handleMediaSendStop
  split
  · exact .refl s
  · exact ⟨rfl, by simp [Out.Minor]⟩

theorem captured_plain (i : Nat) (result : Capture) : Plain s (s.captured i result) := by
  unfold captured
  split
  · exact .refl s
  · cases result with
    | track track => exact ⟨rfl, by simp [Out.Minor]⟩
    | nothing => exact ⟨rfl, post_minor s trivial⟩
    | rejected message => exact ⟨rfl, post_minor s trivial⟩

theorem trackAdded_plain (i : Nat) (result : Except (Option JsString) Nat) :
    Plain s (s.trackAdded i result) := by
  unfold trackAdded
  split
  · exact .refl s
  · cases result with
    | ok senderId => exact ⟨rfl, post_minor _ trivial⟩
    | error message =>
      exact ⟨rfl, List.forall_mem_cons.mpr ⟨trivial, post_minor _ trivial⟩⟩

theorem senderRemoved_plain (i : Nat) (error : Option JsString) :
    Plain s (s.senderRemoved i error) := by
  unfold senderRemoved
  split
  · exact .refl s
  · refine ⟨rfl, List.forall_mem_append.mpr ⟨?_, List.forall_mem_cons.mpr
      ⟨trivial, post_minor _ trivial⟩⟩⟩
    cases error <;> simp [Out.Minor]

theorem handleStorage_vitals (rid op key value : Data) :
    ∃ calls, (s.handleStorage rid op key value).1.vitals =
      { s.vitals with storageCalls := calls } := by
  unfold handleStorage
  split
  · exact ⟨_, rfl⟩
  · dsimp only
    repeat' split
    all_goals exact ⟨_, rfl⟩

theorem storageSettled_vitals (i : Nat) (outcome : StorageOutcome) :
    ∃ calls, (s.storageSettled i outcome).1.vitals = { s.vitals with storageCalls := calls } := by
  unfold storageSettled
  split
  · exact ⟨_, rfl⟩
  · cases outcome <;> exact ⟨_, rfl⟩

/-- The operations whose handlers leave the vitals alone. -/
def Minor : BridgeOp → Prop
  | .send | .sendBin | .audioLevelSubscribe | .audioLevelUnsubscribe | .mediaSendStart _
  | .mediaSendStop _ | .error => True
  | _ => False

theorem handleOp_plain (msg : Data) (now : Nat) {op : BridgeOp} (h : Minor op) :
    Plain s (s.handleOp msg now op) := by
  cases op with
  | send => exact handleSend_plain ..
  | sendBin => exact handleSendBin_plain ..
  | audioLevelSubscribe => exact handleAudioLevelSubscribe_plain s
  | audioLevelUnsubscribe => exact ⟨rfl, by simp [handleOp]⟩
  | mediaSendStart kind => exact .of_wants s (handleMediaSendStart_plain ..)
  | mediaSendStop kind => exact .of_wants s (handleMediaSendStop_plain ..)
  | error =>
    unfold handleOp
    dsimp only
    split <;> exact ⟨rfl, by simp [Out.Minor]⟩
  | _ => exact h.elim

/-! ## Steps -/

/-- The operation of a window message that the host hears. -/
def heard (s : AddonHost) : Event → Option BridgeOp
  | .message source data _ =>
    if s.listening = true ∧ s.iframe = some source then bridgeOp data else none
  | _ => none

theorem step_unheard {source : Option Window} {data : Data} {now : Nat}
    (h : s.heard (.message source data now) = none) :
    s.step (.message source data now) = (s, []) := by
  simp only [heard] at h
  simp only [step, handleWindowMessage]
  by_cases hlistening : s.listening = true
  · by_cases hframe : s.iframe = some source
    · rw [if_pos ⟨hlistening, hframe⟩] at h
      simp [hframe, h]
    · simp [hframe]
  · simp [hlistening]

theorem step_heard {source : Option Window} {data : Data} {now : Nat} {op : BridgeOp}
    (h : s.heard (.message source data now) = some op) :
    s.step (.message source data now) = s.handleOp data now op := by
  simp only [heard] at h
  split at h
  · next hheard =>
    simp [step, handleWindowMessage, hheard.1, hheard.2, h]
  · cases h

/-- The events whose steps leave the vitals alone. -/
def Routine (s : AddonHost) : Event → Prop
  | .message source data now => ∀ op, s.heard (.message source data now) = some op → Minor op
  | .captured _ _ | .trackAdded _ _ | .senderRemoved _ _ | .sendTextRejected _
  | .sendBinaryRejected _ => True
  | _ => False

theorem step_plain {ev : Event} (h : s.Routine ev) : Plain s (s.step ev) := by
  cases ev with
  | message source data now =>
    cases hop : s.heard (.message source data now) with
    | none => exact step_unheard s hop ▸ .refl s
    | some op => exact step_heard s hop ▸ handleOp_plain s data now (h op hop)
  | captured i result => exact captured_plain ..
  | trackAdded i result => exact trackAdded_plain ..
  | senderRemoved i error => exact senderRemoved_plain ..
  | sendTextRejected message =>
    simp only [step]
    split
    · exact .refl s
    · exact ⟨rfl, by simp [Out.Minor]⟩
  | sendBinaryRejected message =>
    simp only [step]
    split
    · exact .refl s
    · exact ⟨rfl, post_minor s trivial⟩
  | _ => exact h.elim

end AddonHost

end Senn.Addon
