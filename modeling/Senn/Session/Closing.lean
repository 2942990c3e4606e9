import Senn.Session.States
import Senn.Core.MessageSlot

/-! # Closing a session

What a resolved `close` promises is `Released`. `step_resources` lists all a
step can do to the things `close` releases; from it, the exact condition under
which every resolved `close` keeps its promise. -/

namespace Senn.Session
open Senn.Js Senn.Lib Senn.Core

/-- What `close` releases; `rtcClosed` is `none` where there is no connection. -/
structure Resources where
  resolved : Bool
  closing : Nat
  signalingUnsub : Bool
  channels : List Channel
  rtcClosed : Option Bool
  reassembly : Reassembly

def Resources.tornDown (r : Resources) : Resources :=
  { r with
    resolved := true
    signalingUnsub := false
    channels := r.channels.map fun c => { c with closed := true }
    rtcClosed := r.rtcClosed.map fun _ => true
    reassembly := r.reassembly.clear }

/-- The subscription is released, the channels and the connection are closed,
and the reassembly buffer is empty with its interval cleared. -/
structure Resources.Released (r : Resources) : Prop where
  signaling : r.signalingUnsub = false
  channels : ∀ c ∈ r.channels, c.closed = true
  rtc : r.rtcClosed ≠ some false
  reassembly : r.reassembly.Empty

theorem Resources.tornDown_released (r : Resources) : r.tornDown.Released where
  signaling := rfl
  channels := by simp [tornDown]
  rtc := by cases h : r.rtcClosed <;> simp [tornDown, h]
  reassembly := Reassembly.clear_empty r.reassembly

namespace PeerSession

def resources (s : PeerSession) : Resources where
  resolved := s.closeResolved
  closing := s.closing
  signalingUnsub := s.signalingUnsub
  channels := s.channels
  rtcClosed := s.rtc.map fun pc => pc.closed
  reassembly := s.reassembly

/-- The event calls `close`, directly or as a `bye` of the remote peer. -/
def CallsClose (s : PeerSession) : Event → Prop
  | .close => True
  | .signaling (.bye from_) =>
    s.signalingUnsub = true ∧ s.accepts (.bye from_) = true ∧ s.pc = true ∧ s.rtc ≠ none
  | _ => False

/-- The buffer the event hands to `handleBinaryFrame`. -/
def frameOf (s : PeerSession) : Event → Option Bytes
  | .binMessage i _ (.arrayBuffer buf) =>
    match s.channels[i]? with
    | some ⟨.bin, _⟩ => some buf
    | _ => none
  | .blobRead k _ => s.blobs[k]?
  | _ => none

/-- What a step can do to the resources. -/
inductive ResourceChange (s : PeerSession) : Event → Resources → Prop
  | same {ev : Event} : ¬s.CallsClose ev → s.frameOf ev = none →
      ResourceChange s ev s.resources
  | start {channels : List Channel} : s.currentState = .idle →
      ResourceChange s .start { s.resources with
        signalingUnsub := true
        channels := channels
        rtcClosed := some false }
  | bound {label : JsString} {c : Channel} : s.resources.rtcClosed = some false →
      ResourceChange s (.dataChannel label) { s.resources with channels := s.channels ++ [c] }
  | again {ev : Event} : s.CallsClose ev → s.frameOf ev = none → s.currentState = .closed →
      ResourceChange s ev { s.resources with resolved := true }
  | bye {ev : Event} : s.CallsClose ev → s.frameOf ev = none → s.currentState ≠ .closed →
      ResourceChange s ev { s.resources with closing := s.resources.closing + 1 }
  | unused {ev : Event} : s.CallsClose ev → s.frameOf ev = none → s.currentState = .idle →
      ResourceChange s ev s.resources.tornDown
  | byePublished : 0 < s.closing →
      ResourceChange s .byePublished { s.resources.tornDown with closing := s.closing - 1 }
  | frame {ev : Event} {buf : Bytes} (now : Nat) : ¬s.CallsClose ev → s.frameOf ev = some buf →
      ResourceChange s ev
        { s.resources with reassembly := (s.reassembly.handleBinaryFrame now buf).1 }
  | gcTick {now : Nat} :
      ResourceChange s (.gcTick now)
        { s.resources with reassembly := (s.reassembly.step (.gcTick now)).1 }

/-! ## What each handler does -/

@[simp] theorem setState_resources (s : PeerSession) (next : PeerSessionState) :
    (s.setState next).1.resources = s.resources := by
  unfold setState
  split <;> rfl

theorem teardown_resources (s : PeerSession) : s.teardown.resources = s.resources.tornDown := by
  simp [teardown, resources, Resources.tornDown, Option.map_map, Function.comp_def]

theorem openChannels_resources (s : PeerSession) :
    s.openChannels.resources = { s.resources with channels := s.openChannels.channels } := by
  unfold openChannels
  split <;> rfl

theorem start_change (s : PeerSession) : ResourceChange s .start s.start.1.resources := by
  unfold start
  split
  · exact .same (fun h => h) rfl
  · next h =>
    dsimp only
    have hres (r : PeerSession) : { r with signalingUnsub := true }.resources =
      { r.resources with signalingUnsub := true } := rfl
    have hrtc (r : PeerSession) : { r with rtc := some .new, pc := true }.resources =
      { r.resources with rtcClosed := some false } := rfl
    rw [hres, openChannels_resources, hrtc, setState_resources]
    exact .start (not_not.mp h)

theorem close_change {s : PeerSession} {ev : Event} (hcalls : s.CallsClose ev)
    (hframe : s.frameOf ev = none) : ResourceChange s ev s.close.1.resources := by
  unfold close
  split
  · next hclosed => exact .again hcalls hframe hclosed
  · next hclosed =>
    dsimp only
    split
    · have hres (r : PeerSession) : { r with closing := r.closing + 1 }.resources =
        { r.resources with closing := r.resources.closing + 1 } := rfl
      rw [hres, setState_resources]
      exact .bye hcalls hframe hclosed
    · next hidle =>
      rw [teardown_resources, setState_resources]
      exact .unused hcalls hframe (not_not.mp hidle)

theorem runNegotiation_resources (s : PeerSession) : s.runNegotiation.resources = s.resources := by
  unfold runNegotiation
  split <;> rfl

theorem handleSignalingMessage_change (s : PeerSession) (hsub : s.signalingUnsub = true)
    (msg : SignalingMessage) :
    ResourceChange s (.signaling msg) (s.handleSignalingMessage msg).1.resources := by
  unfold handleSignalingMessage
  split
  · next hskip =>
    refine .same (fun h => ?_) rfl
    cases msg with
    | bye from_ => simp [h.2.1, h.2.2.1] at hskip
    | offer from_ sdp => exact h
    | answer from_ to_ sdp => exact h
    | ice from_ to_ candidate => exact h
  · next hpass =>
    split
    · next hrtc =>
      refine .same (fun h => ?_) rfl
      cases msg with
      | bye from_ => exact h.2.2.2 hrtc
      | offer from_ sdp => exact h
      | answer from_ to_ sdp => exact h
      | ice from_ to_ candidate => exact h
    · next pc hrtc =>
      cases msg with
      | offer from_ sdp =>
        have hkeep : (s.handleKind pc (.offer from_ sdp)).1.resources = s.resources := by
          unfold handleKind
          dsimp only
          split <;> rfl
        rw [hkeep]
        exact .same (fun h => h) rfl
      | answer from_ to_ sdp => exact .same (fun h => h) rfl
      | ice from_ to_ candidate => exact .same (fun h => h) rfl
      | bye from_ =>
        simp only [Bool.or_eq_true, Bool.not_eq_true', not_or, Bool.not_eq_false] at hpass
        exact close_change ⟨hsub, hpass.1, hpass.2, by simp [hrtc]⟩ rfl

theorem fulfilled_resources (s : PeerSession) (pc : Rtc) (task : Task) :
    (s.fulfilled pc task).1.resources = s.resources := by
  obtain ⟨_, _, _, _, hw⟩ := s.fulfilled_writes pc task
  rw [hw]
  rfl

theorem rejected_resources (s : PeerSession) (task : Task) :
    (s.rejected task).1.resources = s.resources := by
  obtain ⟨_, hw⟩ := s.rejected_writes task
  rw [hw]
  rfl

theorem run_closed {pc pc' : Rtc} {op : RtcOp} (h : pc.run op = some pc') :
    pc'.closed = pc.closed := by
  cases op with
  | setLocalDescription =>
    obtain rfl := Option.some.inj h
    unfold Rtc.setLocalDescription
    split <;> rfl
  | setRemoteOffer sdp =>
    obtain rfl := Option.some.inj h
    rfl
  | setRemoteAnswer sdp =>
    unfold Rtc.run at h
    split at h
    · next hop => cases hop
    · next hop => cases hop
    · split at h
      · obtain rfl := Option.some.inj h
        rfl
      · cases h
    · next hop => cases hop
  | addIceCandidate candidate =>
    obtain rfl := Option.some.inj h
    rfl

theorem operationDone_resources (s : PeerSession) (ok : Bool) :
    (s.operationDone ok).1.resources = s.resources := by
  unfold operationDone
  split
  · next pc task rest hrtc hchain =>
    split
    · rfl
    · split
      · next pc' hrun =>
        rw [fulfilled_resources]
        split at hrun
        · simp [resources, hrtc, run_closed hrun]
        · cases hrun
      · exact rejected_resources ..
  · rfl

/-- A step on the resources. -/
theorem step_resources (s : PeerSession) (ev : Event) :
    ResourceChange s ev (s.step ev).1.resources := by
  cases ev with
  | start => exact start_change s
  | close => exact close_change trivial rfl
  | negotiationNeeded =>
    simp only [step]
    split
    · exact .same (fun h => h) rfl
    · rw [runNegotiation_resources]
      exact .same (fun h => h) rfl
  | iceCandidate candidate =>
    simp only [step]
    split <;> exact .same (fun h => h) rfl
  | connectionStateChange cs =>
    have hkeep : (s.step (.connectionStateChange cs)).1.resources = s.resources := by
      simp only [step]
      split
      · rfl
      · cases cs with
        | failed => dsimp only; split <;> simp
        | closed => dsimp only; split <;> simp
        | _ => rfl
    rw [hkeep]
    exact .same (fun h => h) rfl
  | dataChannel label =>
    simp only [step]
    split
    · exact .same (fun h => h) rfl
    · next pc hrtc =>
      split
      · exact .same (fun h => h) rfl
      · next hopen =>
        simp only [Bool.or_eq_true, decide_eq_true_eq, not_or, Bool.not_eq_true] at hopen
        have hlive : s.resources.rtcClosed = some false := by simp [resources, hrtc, hopen.1]
        split
        · exact .bound hlive
        · split
          · exact .bound hlive
          · exact .same (fun h => h) rfl
  | channelOpen i =>
    simp only [step]
    split
    · rw [setState_resources]
      exact .same (fun h => h) rfl
    · exact .same (fun h => h) rfl
  | channelClose i =>
    simp only [step]
    split
    · split
      · rw [setState_resources]
        exact .same (fun h => h) rfl
      · exact .same (fun h => h) rfl
    · exact .same (fun h => h) rfl
  | channelError i => exact .same (fun h => h) rfl
  | textMessage i data =>
    simp only [step]
    split <;> exact .same (fun h => h) rfl
  | binMessage i now data =>
    simp only [step]
    split
    · next c hchannel =>
      cases data with
      | arrayBuffer buf => exact .frame now (fun h => h) (by simp [frameOf, hchannel])
      | blob buf => exact .same (fun h => h) rfl
      | other => exact .same (fun h => h) rfl
    · next hchannel =>
      refine .same (fun h => h) ?_
      cases data with
      | arrayBuffer buf =>
        unfold frameOf
        dsimp only
        split
        · next c hc => exact absurd hc (hchannel c)
        · rfl
      | blob buf => rfl
      | other => rfl
  | blobRead k now =>
    simp only [step]
    split
    · next buf hblob => exact .frame now (fun h => h) hblob
    · next hblob => exact .same (fun h => h) hblob
  | gcTick now => exact .gcTick
  | signaling msg =>
    simp only [step]
    split
    · next hsub => exact handleSignalingMessage_change s hsub msg
    · next hsub =>
      refine .same (fun h => ?_) rfl
      cases msg with
      | bye from_ => exact hsub h.1
      | offer from_ sdp => exact h
      | answer from_ to_ sdp => exact h
      | ice from_ to_ candidate => exact h
  | operationDone ok =>
    simp only [step]
    rw [operationDone_resources]
    exact .same (fun h => h) rfl
  | offerPublished ok =>
    simp only [step]
    split <;> exact .same (fun h => h) rfl
  | answerPublished ok =>
    simp only [step]
    split <;> exact .same (fun h => h) rfl
  | byePublished =>
    simp only [step]
    split
    · exact .same (fun h => h) rfl
    · next hclosing =>
      rw [teardown_resources]
      exact .byePublished (Nat.pos_of_ne_zero hclosing)

/-! ## What holds in every session -/

/-- Before `start` no call of `close` is under way or resolved, and after it the
connection is open until one resolves. -/
structure Sound (s : PeerSession) : Prop where
  fresh : Fresh s
  idle : s.currentState = .idle → s.resources.closing = 0 ∧ s.resources.resolved = false
  live : s.currentState ≠ .idle → s.resources.resolved = false →
    s.resources.rtcClosed = some false
  buffer : Accounted s.resources.reassembly

theorem new_sound (role : PeerSessionRole) (localPeerId : JsString)
    (remotePeerId : Option JsString) : Sound (.new role localPeerId remotePeerId) :=
  ⟨fun _ => ⟨rfl, rfl, rfl⟩, fun _ => ⟨rfl, rfl⟩, fun h => absurd rfl h, Reassembly.init_accounted⟩

theorem handleSignalingMessage_bye {s : PeerSession} {from_ : JsString}
    (h : s.CallsClose (.signaling (.bye from_))) :
    s.handleSignalingMessage (.bye from_) = s.close := by
  obtain ⟨_, haccepts, hpc, hrtc⟩ := h
  unfold handleSignalingMessage
  rw [if_neg (by simp [haccepts, hpc])]
  split
  · next h => exact absurd h hrtc
  · rfl

theorem callsClose_state {s : PeerSession} {ev : Event} (h : s.CallsClose ev) :
    (s.step ev).1.currentState = .closed := by
  cases ev with
  | close => exact close_state s
  | signaling msg =>
    cases msg with
    | bye from_ =>
      simp only [step, h.1, if_true, handleSignalingMessage_bye h]
      exact close_state s
    | offer from_ sdp => exact h.elim
    | answer from_ to_ sdp => exact h.elim
    | ice from_ to_ candidate => exact h.elim
  | _ => exact h.elim

theorem start_live {s : PeerSession} (h : s.currentState = .idle) :
    s.start.1.resources.rtcClosed = some false := by
  rw [start, if_neg (not_not.mpr h)]
  dsimp only [openChannels]
  split <;> rfl

theorem close_idle {s : PeerSession} (h : s.currentState = .idle) :
    s.close.1.resources = s.resources.tornDown := by
  rw [close, if_neg (by simp [h])]
  dsimp only
  rw [if_neg (not_not.mpr h), teardown_resources, setState_resources]

/-- Only `start` and `close` lead out of `idle`. -/
theorem leaves_idle {s : PeerSession} {ev : Event} (hs : Fresh s) (h : s.currentState = .idle)
    (hnext : (s.step ev).1.currentState ≠ .idle) : ev = .start ∨ ev = .close := by
  have hc := step_state s ev
  generalize (s.step ev).1.currentState = next at hc hnext
  cases hc with
  | same => exact absurd h hnext
  | start => exact .inl rfl
  | close => exact .inr rfl
  | failed hrtc => exact absurd h (not_idle hs (.inl hrtc))
  | closed hsource => exact absurd h (not_idle hs hsource)
  | opened hchannel => exact absurd h (not_idle hs (.inr (.inl (ne_nil_of_getElem? hchannel))))

theorem step_idle {s : PeerSession} {ev : Event} (hs : Sound s)
    (hnext : (s.step ev).1.currentState = .idle) :
    (s.step ev).1.resources.closing = 0 ∧ (s.step ev).1.resources.resolved = false := by
  obtain ⟨hclosing, hresolved⟩ := hs.idle (idle_of_step hnext)
  have hcalls : ¬s.CallsClose ev := by
    intro h
    rw [callsClose_state h] at hnext
    cases hnext
  have hchange := step_resources s ev
  generalize (s.step ev).1.resources = r at hchange
  cases hchange with
  | same => exact ⟨hclosing, hresolved⟩
  | start => exact ⟨hclosing, hresolved⟩
  | bound => exact ⟨hclosing, hresolved⟩
  | again h => exact absurd h hcalls
  | bye h => exact absurd h hcalls
  | unused h => exact absurd h hcalls
  | byePublished hpos => exact absurd hclosing (Nat.ne_of_gt hpos)
  | frame => exact ⟨hclosing, hresolved⟩
  | gcTick => exact ⟨hclosing, hresolved⟩

theorem step_live {s : PeerSession} {ev : Event} (hs : Sound s)
    (hnext : (s.step ev).1.currentState ≠ .idle)
    (hresolved : (s.step ev).1.resources.resolved = false) :
    (s.step ev).1.resources.rtcClosed = some false := by
  by_cases hidle : s.currentState = .idle
  · rcases leaves_idle hs.fresh hidle hnext with rfl | rfl
    · exact start_live hidle
    · rw [step, close_idle hidle] at hresolved
      cases hresolved
  · have hlive := hs.live hidle
    have hchange := step_resources s ev
    generalize (s.step ev).1.resources = r at hchange hresolved ⊢
    cases hchange with
    | same => exact hlive hresolved
    | start => rfl
    | bound h => exact h
    | again => cases hresolved
    | bye => exact hlive hresolved
    | unused => cases hresolved
    | byePublished => cases hresolved
    | frame => exact hlive hresolved
    | gcTick => exact hlive hresolved

theorem step_buffer {s : PeerSession} (ev : Event) (h : Accounted s.resources.reassembly) :
    Accounted (s.step ev).1.resources.reassembly := by
  have hchange := step_resources s ev
  generalize (s.step ev).1.resources = r at hchange ⊢
  cases hchange with
  | same => exact h
  | start => exact h
  | bound => exact h
  | again => exact h
  | bye => exact h
  | unused => exact Reassembly.init_accounted
  | byePublished => exact Reassembly.init_accounted
  | frame now => exact Reassembly.handleBinaryFrame_accounted h now _
  | gcTick => exact Reassembly.step_accounted _ h

theorem step_sound (s : PeerSession) (ev : Event) (hs : Sound s) : Sound (s.step ev).1 :=
  ⟨step_fresh s ev hs.fresh, step_idle hs, step_live hs, step_buffer ev hs.buffer⟩

/-- Whatever a session is called for or hears, its reassembly buffer is accounted for. -/
theorem reassembly_accounted (role : PeerSessionRole) (localPeerId : JsString)
    (remotePeerId : Option JsString) (evs : List Event) :
    Accounted (Machine.after step (.new role localPeerId remotePeerId) evs).reassembly :=
  (Machine.after_inv step_sound (new_sound role localPeerId remotePeerId) evs).buffer

/-! ## Which runs keep the promise -/

/-- Every `close` that has resolved has released everything. -/
def KeepsPromise (s : PeerSession) : Prop :=
  s.resources.resolved = true → s.resources.Released

/-- `close` is not called on a closed session that no earlier call has torn
down, and no frame that opens a slot is handled after the teardown. -/
structure Safe (s : PeerSession) (ev : Event) : Prop where
  calls : s.CallsClose ev → s.currentState = .closed → s.closeResolved = true
  frames : s.closeResolved = true → ∀ buf, s.frameOf ev = some buf → ¬Reassembly.OpensSlot buf

theorem gcTick_released {r : Resources} (h : r.Released) (now : Nat) :
    { r with reassembly := (r.reassembly.step (.gcTick now)).1 }.Released := by
  have hkeep : (r.reassembly.step (.gcTick now)).1 = r.reassembly := by
    simp [Reassembly.step, h.reassembly.timer]
  rw [hkeep]
  exact h

theorem frame_released {r : Resources} (hacc : Accounted r.reassembly) (h : r.Released) (now : Nat)
    (buf : Bytes) :
    { r with reassembly := (r.reassembly.handleBinaryFrame now buf).1 }.Released ↔
      ¬Reassembly.OpensSlot buf := by
  rw [← Reassembly.handleBinaryFrame_empty hacc h.reassembly now buf]
  exact ⟨fun h => h.reassembly, fun he => ⟨h.signaling, h.channels, h.rtc, he⟩⟩

theorem safe_of_quiet {s : PeerSession} {ev : Event} (hcalls : ¬s.CallsClose ev)
    (hframe : s.frameOf ev = none) : Safe s ev :=
  ⟨fun h => absurd h hcalls, fun _ buf hbuf => by rw [hframe] at hbuf; cases hbuf⟩

theorem safe_of_call {s : PeerSession} {ev : Event} (hcalls : s.currentState ≠ .closed)
    (hframe : s.frameOf ev = none) : Safe s ev :=
  ⟨fun _ h => absurd h hcalls, fun _ buf hbuf => by rw [hframe] at hbuf; cases hbuf⟩

/-- One step keeps the promise exactly when it is safe. -/
theorem step_keepsPromise {s : PeerSession} {ev : Event} (hs : Sound s) (hk : KeepsPromise s) :
    KeepsPromise (s.step ev).1 ↔ Safe s ev := by
  have hchange := step_resources s ev
  unfold KeepsPromise at hk ⊢
  generalize (s.step ev).1.resources = r at hchange ⊢
  cases hchange with
  | same hcalls hframe => exact iff_of_true hk (safe_of_quiet hcalls hframe)
  | start hidle =>
    refine iff_of_true (fun h => ?_) (safe_of_quiet (fun h => h) rfl)
    rw [(hs.idle hidle).2] at h
    cases h
  | bound hlive =>
    refine iff_of_true (fun h => ?_) (safe_of_quiet (fun h => h) rfl)
    exact absurd hlive (hk h).rtc
  | again hcalls hframe hclosed =>
    constructor
    · intro h
      refine ⟨fun _ _ => ?_, fun _ buf hbuf => by rw [hframe] at hbuf; cases hbuf⟩
      -- an open connection would not have been released
      by_contra hres
      refine (h rfl).rtc (hs.live ?_ (Bool.not_eq_true _ ▸ hres))
      rw [hclosed]
      simp
    · intro h _
      have hr := hk (h.calls hcalls hclosed)
      exact ⟨hr.signaling, hr.channels, hr.rtc, hr.reassembly⟩
  | bye hcalls hframe hopen =>
    refine iff_of_true (fun h => ?_) (safe_of_call hopen hframe)
    have hr := hk h
    exact ⟨hr.signaling, hr.channels, hr.rtc, hr.reassembly⟩
  | unused hcalls hframe hidle =>
    exact iff_of_true (fun _ => Resources.tornDown_released _)
      (safe_of_call (by simp [hidle]) hframe)
  | byePublished =>
    refine iff_of_true (fun _ => ?_) (safe_of_quiet (fun h => h) rfl)
    have hr := s.resources.tornDown_released
    exact ⟨hr.signaling, hr.channels, hr.rtc, hr.reassembly⟩
  | frame now hcalls hframe =>
    constructor
    · intro h
      refine ⟨fun hc => absurd hc hcalls, fun hres buf hbuf => ?_⟩
      rw [hframe] at hbuf
      obtain rfl := Option.some.inj hbuf
      exact (frame_released hs.buffer (hk hres) now _).mp (h hres)
    · intro h hres
      exact (frame_released hs.buffer (hk hres) now _).mpr (h.frames hres _ hframe)
  | gcTick =>
    exact iff_of_true (fun h => gcTick_released (hk h) _) (safe_of_quiet (fun h => h) rfl)

/-- All along a run every `close` that has resolved has released everything,
exactly when every step of the run is safe. -/
theorem close_releases_iff (role : PeerSessionRole) (localPeerId : JsString)
    (remotePeerId : Option JsString) (evs : List Event) :
    Machine.Always step KeepsPromise (.new role localPeerId remotePeerId) evs ↔
      Machine.Guarded step Safe (.new role localPeerId remotePeerId) evs :=
  Machine.always_iff_guarded step_sound (fun _ _ => step_keepsPromise) (new_sound ..)
    (fun h => by cases h) evs

/-- The remote side closed the text channel before `close` was called: `close`
returns at once and nothing is released. -/
theorem close_after_channelClose :
    ¬Machine.Always step KeepsPromise (.new .inviter (js "a") none)
      [.start, .channelClose 0, .close] := by
  intro h
  have hr := h [.start, .channelClose 0, .close] (List.prefix_refl _) rfl
  cases hr.signaling

end PeerSession

end Senn.Session
