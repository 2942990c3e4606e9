import Senn.Addon.Host
import Senn.Lib.Machine

/-! # Add-on permissions

Some operations check their permission when they happen, others rely on a
subscription or on a request that was let through before. `Holds` says that
those were let through rightly; every handler keeps it, and puts out nothing the
manifest does not permit. -/

namespace Senn.Addon
open Senn.Js Senn.Lib Senn.Protocol

/-- The text is an envelope of the add-on `id`. -/
def Carries (id text : JsString) : Prop :=
  ∃ ms, text = (Json.obj ms).stringify ∧ (Json.obj ms).get? (js "addon") = some (.str id)

/-- The manifest lists the permission an effect needs, and what leaves for the
peer carries the manifest's id. -/
def Permitted (m : AddonManifest) : Out → Prop
  | .sendText text => PEER_SEND ∈ m.permissions ∧ Carries m.id text
  | .sendBinary addon _ _ => PEER_SEND_BIN ∈ m.permissions ∧ addon = m.id
  | .storage call => call.permission ∈ m.permissions
  | .capture kind _ => kind.sendPermission ∈ m.permissions
  | .addLocalTrack kind _ => kind.sendPermission ∈ m.permissions
  | .attach kind _ => kind.receivePermission ∈ m.permissions
  | .post (.deliver _ _) => PEER_RECEIVE ∈ m.permissions
  | .post (.deliverBin _ _ _) => PEER_RECEIVE_BIN ∈ m.permissions
  | .post (.audioLevel _) => AUDIO_LEVEL ∈ m.permissions
  | _ => True

namespace AddonHost

/-- The host has the manifest `m`, and what it keeps for later was permitted. -/
structure Holds (m : AddonManifest) (s : AddonHost) : Prop where
  manifest : s.manifest = m
  audioLevel : s.audioLevelSubscribed = true → AUDIO_LEVEL ∈ m.permissions
  receive : ∀ kind, s.receives kind = true → kind.receivePermission ∈ m.permissions
  capturing : ∀ kind ∈ s.capturing, kind.sendPermission ∈ m.permissions

/-- A handler's result that keeps `Holds` and puts out permitted effects only. -/
structure Obeys (m : AddonManifest) (r : AddonHost × List Out) : Prop where
  holds : Holds m r.1
  permitted : ∀ o ∈ r.2, Permitted m o

variable {m : AddonManifest} {s : AddonHost}

theorem Holds.granted {permission : JsString} (h : Holds m s)
    (hg : ¬(!s.grants permission) = true) : permission ∈ m.permissions := by
  rw [← h.manifest]
  simpa [grants] using hg

theorem Holds.obeys (h : Holds m s) : Obeys m (s, []) := ⟨h, by simp⟩

theorem post_permitted (s : AddonHost) {msg : BridgePost} (h : Permitted m (.post msg)) :
    ∀ o ∈ s.postToIframe msg, Permitted m o := by
  unfold postToIframe
  split
  · simpa using h
  · simp

theorem Obeys.error {s' : AddonHost} (h : Holds m s') (s : AddonHost) (code message : JsString) :
    Obeys m (s', s.postBridgeError code message) := ⟨h, post_permitted s trivial⟩

theorem setState_obeys (h : Holds m s) (next : AddonHostState) : Obeys m (s.setState next) := by
  unfold setState
  split
  · exact h.obeys
  · exact ⟨⟨h.manifest, h.audioLevel, h.receive, h.capturing⟩, by simp [Permitted]⟩

theorem initialized_obeys (h : Holds m s) :
    Obeys m ((s.setState .initialized).1, (s.setState .initialized).2 ++
      (s.setState .initialized).1.postToIframe (s.setState .initialized).1.initMessage) := by
  have hs := setState_obeys h .initialized
  exact ⟨hs.holds, List.forall_mem_append.mpr ⟨hs.permitted, post_permitted _ trivial⟩⟩

theorem onIframeLoad_obeys (h : Holds m s) : Obeys m s.onIframeLoad := by
  unfold onIframeLoad
  split
  · exact h.obeys
  · exact initialized_obeys h

theorem handleReady_obeys (h : Holds m s) : Obeys m s.handleReady := by
  have hinit : Obeys m s.ensureInitPosted := by
    unfold ensureInitPosted
    split
    · exact initialized_obeys h
    · exact h.obeys
  unfold handleReady
  dsimp only
  split
  · have hactive := setState_obeys hinit.holds .active
    exact ⟨hactive.holds, List.forall_mem_append.mpr ⟨hinit.permitted, hactive.permitted⟩⟩
  · exact hinit

/-- Whatever the payload is, the text names the manifest's id as its add-on. -/
theorem stringified_envelope {id text : JsString} {now : Nat} {payload : Data}
    (h : stringified (s.envelope id now payload) = some text) : Carries s.manifest.id text := by
  unfold stringified at h
  obtain ⟨json, hjson, htext⟩ := Option.bind_eq_some_iff.mp h
  cases hp : payload.toJson with
  | none => simp [envelope, Data.toJson, Data.toMembers, Number.ofNat, hp] at hjson
  | some p =>
    simp only [envelope, Data.toJson, Data.toMembers, Number.ofNat, hp, Option.map_some,
      Option.pure_def, Option.bind_eq_bind, Option.bind_some, Option.some.injEq] at hjson
    subst hjson
    obtain rfl := Option.some.inj htext
    exact ⟨_, rfl, by simp [Json.get?, js]⟩

theorem handleSend_obeys (h : Holds m s) (payload : Data) (now : Nat) :
    Obeys m (s.handleSend payload now) := by
  unfold handleSend
  split
  · exact ⟨h, by simp [Permitted]⟩
  · next hg =>
    split
    · exact ⟨h, by simp [Permitted]⟩
    · dsimp only
      split
      · next text _ htext =>
        refine ⟨⟨h.manifest, h.audioLevel, h.receive, h.capturing⟩, ?_⟩
        have hcarries : Carries m.id text := h.manifest ▸ stringified_envelope htext
        simpa [Permitted] using ⟨h.granted hg, hcarries⟩
      · exact ⟨⟨h.manifest, h.audioLevel, h.receive, h.capturing⟩, by simp [Permitted]⟩

theorem handleSendBin_obeys (h : Holds m s) (mime bytes : Data) :
    Obeys m (s.handleSendBin mime bytes) := by
  unfold handleSendBin
  split
  · exact .error h ..
  · next hg =>
    split
    · split
      · exact .error h ..
      · split
        · exact .error h ..
        · refine ⟨⟨h.manifest, h.audioLevel, h.receive, h.capturing⟩, ?_⟩
          simpa [Permitted] using ⟨h.granted hg, congrArg AddonManifest.id h.manifest⟩
    · exact .error h ..

theorem handleAudioLevelSubscribe_obeys (h : Holds m s) : Obeys m s.handleAudioLevelSubscribe := by
  unfold handleAudioLevelSubscribe
  split
  · exact .error h ..
  · next hg => exact Holds.obeys ⟨h.manifest, fun _ => h.granted hg, h.receive, h.capturing⟩

theorem handleMediaSendStart_obeys (h : Holds m s) (kind : MediaKind) (source : Option Data) :
    Obeys m (s.handleMediaSendStart kind source) := by
  unfold handleMediaSendStart
  split
  · exact .error h ..
  · next hg =>
    have hgranted := h.granted hg
    split
    · exact .error h ..
    · split
      · exact .error h ..
      · split
        · exact ⟨h, post_permitted s trivial⟩
        · split
          · refine ⟨⟨h.manifest, h.audioLevel, h.receive, ?_⟩, by simpa [Permitted] using hgranted⟩
            simpa [or_imp, forall_and] using ⟨h.capturing, hgranted⟩
          · exact .error h ..

theorem captured_obeys (h : Holds m s) (i : Nat) (result : Capture) :
    Obeys m (s.captured i result) := by
  unfold captured
  split
  · exact h.obeys
  · next kind hkind =>
    -- the request was let through when it was made
    have hgranted := h.capturing kind (List.mem_of_getElem? hkind)
    have hrest : Holds m { s with capturing := s.capturing.eraseIdx i } :=
      ⟨h.manifest, h.audioLevel, h.receive,
        fun k hk => h.capturing k (List.mem_of_mem_eraseIdx hk)⟩
    cases result with
    | track track =>
      exact ⟨⟨hrest.manifest, hrest.audioLevel, hrest.receive, hrest.capturing⟩,
        by simpa [Permitted] using hgranted⟩
    | nothing => exact .error hrest ..
    | rejected message => exact .error hrest ..

theorem trackAdded_obeys (h : Holds m s) (i : Nat) (result : Except (Option JsString) Nat) :
    Obeys m (s.trackAdded i result) := by
  unfold trackAdded
  split
  · exact h.obeys
  · cases result with
    | ok senderId =>
      exact ⟨⟨h.manifest, h.audioLevel, h.receive, h.capturing⟩, post_permitted _ trivial⟩
    | error message =>
      exact ⟨⟨h.manifest, h.audioLevel, h.receive, h.capturing⟩,
        List.forall_mem_cons.mpr ⟨trivial, post_permitted _ trivial⟩⟩

theorem handleMediaSendStop_obeys (h : Holds m s) (kind : MediaKind) :
    Obeys m (s.handleMediaSendStop kind) := by
  unfold handleMediaSendStop
  split
  · exact h.obeys
  · exact ⟨⟨h.manifest, h.audioLevel, h.receive, h.capturing⟩, by simp [Permitted]⟩

theorem senderRemoved_obeys (h : Holds m s) (i : Nat) (error : Option JsString) :
    Obeys m (s.senderRemoved i error) := by
  unfold senderRemoved
  split
  · exact h.obeys
  · refine ⟨⟨h.manifest, h.audioLevel, h.receive, h.capturing⟩, ?_⟩
    refine List.forall_mem_append.mpr ⟨?_, List.forall_mem_cons.mpr
      ⟨trivial, post_permitted _ trivial⟩⟩
    cases error <;> simp [Permitted]

/-- A change of one receive flag that is permitted. -/
theorem Holds.setReceive (h : Holds m s) {kind : MediaKind} {on : Bool}
    (hon : on = true → kind.receivePermission ∈ m.permissions) :
    Holds m (s.setReceive kind on) := by
  have hother := h.receive
  cases kind with
  | audio =>
    refine ⟨h.manifest, h.audioLevel, fun k hk => ?_, h.capturing⟩
    cases k with
    | audio => exact hon hk
    | video => exact hother .video hk
  | video =>
    refine ⟨h.manifest, h.audioLevel, fun k hk => ?_, h.capturing⟩
    cases k with
    | audio => exact hother .audio hk
    | video => exact hon hk

theorem handleMediaReceiveSubscribe_obeys (h : Holds m s) (kind : MediaKind) :
    Obeys m (s.handleMediaReceiveSubscribe kind) := by
  unfold handleMediaReceiveSubscribe
  split
  · exact .error h ..
  · next hg =>
    split
    · exact .error h ..
    · exact (h.setReceive fun _ => h.granted hg).obeys

theorem handleMediaReceiveUnsubscribe_obeys (h : Holds m s) (kind : MediaKind) :
    Obeys m (s.handleMediaReceiveUnsubscribe kind) := by
  have hoff : Holds m (s.setReceive kind false) := h.setReceive fun hon => by cases hon
  unfold handleMediaReceiveUnsubscribe
  dsimp only
  split
  · exact hoff.obeys
  · exact ⟨⟨hoff.manifest, hoff.audioLevel, hoff.receive, hoff.capturing⟩, by simp [Permitted]⟩

theorem handleRemoteTrack_obeys (h : Holds m s) (kind : MediaKind) (track : Nat)
    (attached : Except JsString Nat) : Obeys m (s.handleRemoteTrack kind track attached) := by
  unfold handleRemoteTrack
  split
  · exact h.obeys
  · next hskip =>
    simp only [Bool.or_eq_true, Bool.not_eq_true', not_or, Bool.not_eq_false] at hskip
    have hgranted := h.receive kind hskip.1
    cases attached with
    | error message => exact ⟨h, by simpa [Permitted] using hgranted⟩
    | ok detach =>
      refine ⟨⟨h.manifest, h.audioLevel, h.receive, h.capturing⟩, ?_⟩
      refine List.forall_mem_cons.mpr ⟨hgranted, List.forall_mem_append.mpr
        ⟨?_, post_permitted _ trivial⟩⟩
      cases s.mediaSinkDetachers.get kind <;> simp [Permitted]

theorem trackEnded_obeys (h : Holds m s) (track : Nat) : Obeys m (s.trackEnded track) := by
  unfold trackEnded
  refine List.foldlRecOn _ _ h.obeys fun r hr listener _ => ?_
  obtain ⟨hr, hout⟩ := hr
  exact ⟨⟨hr.manifest, hr.audioLevel, hr.receive, hr.capturing⟩,
    List.forall_mem_append.mpr ⟨hout, post_permitted _ trivial⟩⟩

/-- The permission of a storage call is the one its operation was checked for. -/
theorem storageCall_permission {op key value : Data} {call : StorageCall}
    (h : storageCall op key value = some call) :
    (op.str? = some (js "get") ∨ op.str? = some (js "list")) ∧
        call.permission = STORAGE_LOCAL_READ ∨
      (op.str? = some (js "put") ∨ op.str? = some (js "delete") ∨ op.str? = some (js "clear")) ∧
        call.permission = STORAGE_LOCAL_WRITE := by
  unfold storageCall at h
  cases hop : op.str? with
  | none => simp [hop] at h
  | some o =>
    cases hkey : key.str? with
    | none =>
      simp only [hop, hkey] at h
      split at h
      · next hlist => obtain rfl := Option.some.inj h; simp [hlist, StorageCall.permission]
      · split at h
        · next hclear => obtain rfl := Option.some.inj h; simp [hclear, StorageCall.permission]
        · cases h
    | some k =>
      simp only [hop, hkey] at h
      split at h
      · next hget => obtain rfl := Option.some.inj h; simp [hget, StorageCall.permission]
      · split at h
        · next hput => obtain rfl := Option.some.inj h; simp [hput, StorageCall.permission]
        · split at h
          · next hdelete => obtain rfl := Option.some.inj h; simp [hdelete, StorageCall.permission]
          · split at h
            · next hlist =>
              obtain rfl := Option.some.inj h
              simp [hlist, StorageCall.permission]
            · split at h
              · next hclear =>
                obtain rfl := Option.some.inj h
                simp [hclear, StorageCall.permission]
              · cases h

theorem handleStorage_obeys (h : Holds m s) (rid op key value : Data) :
    Obeys m (s.handleStorage rid op key value) := by
  unfold handleStorage
  split
  · exact h.obeys
  · dsimp only
    split
    · exact h.obeys
    split
    · exact ⟨h, post_permitted s trivial⟩
    split
    · exact ⟨h, post_permitted s trivial⟩
    split
    · exact ⟨h, post_permitted s trivial⟩
    · next hread =>
      split
      · exact ⟨h, post_permitted s trivial⟩
      · next hwrite =>
        split
        · exact ⟨h, post_permitted s trivial⟩
        · next call hcall =>
          have hgranted : call.permission ∈ m.permissions := by
            rcases storageCall_permission hcall with ⟨hop, hperm⟩ | ⟨hop, hperm⟩
            · rw [hperm]
              refine h.granted fun hg => hread ?_
              rcases hop with hop | hop <;> simp [hop, hg]
            · rw [hperm]
              refine h.granted fun hg => hwrite ?_
              rcases hop with hop | hop | hop <;> simp [hop, hg]
          exact ⟨⟨h.manifest, h.audioLevel, h.receive, h.capturing⟩,
            by simpa [Permitted] using hgranted⟩

theorem storageSettled_obeys (h : Holds m s) (i : Nat) (outcome : StorageOutcome) :
    Obeys m (s.storageSettled i outcome) := by
  unfold storageSettled
  split
  · exact h.obeys
  · have hrest : Holds m { s with storageCalls := s.storageCalls.eraseIdx i } :=
      ⟨h.manifest, h.audioLevel, h.receive, h.capturing⟩
    cases outcome with
    | ok value => exact ⟨hrest, post_permitted _ trivial⟩
    | storageError code => exact ⟨hrest, post_permitted _ trivial⟩
    | failed message =>
      exact ⟨hrest, List.forall_mem_append.mpr ⟨post_permitted _ trivial, by simp [Permitted]⟩⟩

theorem Holds.setWants (h : Holds m s) (kind : MediaKind) (on : Bool) :
    Holds m (s.setWants kind on) := by
  cases kind <;> exact ⟨h.manifest, h.audioLevel, h.receive, h.capturing⟩

theorem handleOp_obeys (h : Holds m s) (msg : Data) (now : Nat) (op : BridgeOp) :
    Obeys m (s.handleOp msg now op) := by
  cases op with
  | ready => exact handleReady_obeys h
  | send => exact handleSend_obeys h ..
  | sendBin => exact handleSendBin_obeys h ..
  | audioLevelSubscribe => exact handleAudioLevelSubscribe_obeys h
  | audioLevelUnsubscribe =>
    exact Holds.obeys ⟨h.manifest, (fun hon => by cases hon), h.receive, h.capturing⟩
  | mediaSendStart kind => exact handleMediaSendStart_obeys (h.setWants kind true) ..
  | mediaSendStop kind => exact handleMediaSendStop_obeys (h.setWants kind false) ..
  | mediaReceiveSubscribe kind => exact handleMediaReceiveSubscribe_obeys h kind
  | mediaReceiveUnsubscribe kind => exact handleMediaReceiveUnsubscribe_obeys h kind
  | error =>
    unfold handleOp
    dsimp only
    split <;> exact ⟨h, by simp [Permitted]⟩
  | storage => exact handleStorage_obeys h ..

theorem handleWindowMessage_obeys (h : Holds m s) (source : Option Window) (data : Data)
    (now : Nat) : Obeys m (s.handleWindowMessage source data now) := by
  unfold handleWindowMessage
  split
  · exact h.obeys
  · split
    · exact h.obeys
    · exact handleOp_obeys h ..

/-! ## Deliveries -/

/-- What a call that delivers lets out: what it posts, or its rejection. -/
theorem settled_permitted {report : JsString → Out} {r : Except JsString (List Out)}
    (hreport : ∀ message, Permitted m (report message))
    (hr : ∀ outs, r = .ok outs → ∀ o ∈ outs, Permitted m o) :
    ∀ o ∈ settled report r, Permitted m o := by
  cases r with
  | ok outs => exact hr outs rfl
  | error message => simpa [settled] using hreport message

theorem deliver_permitted (h : Holds m s) (payload : Data) (from_ : Option JsString) :
    ∀ outs, s.deliver payload from_ = .ok outs → ∀ o ∈ outs, Permitted m o := by
  intro outs hd
  unfold deliver at hd
  split at hd
  · cases hd
  · split at hd
    · cases hd
    · next hg =>
      obtain rfl := Except.ok.inj hd
      exact post_permitted s (h.granted hg)

theorem deliverBinary_permitted (h : Holds m s) (mime : JsString) (bytes : Bytes)
    (from_ : Option JsString) :
    ∀ outs, s.deliverBinary mime bytes from_ = .ok outs → ∀ o ∈ outs, Permitted m o := by
  intro outs hd
  unfold deliverBinary at hd
  split at hd
  · cases hd
  · split at hd
    · cases hd
    · next hg =>
      obtain rfl := Except.ok.inj hd
      exact post_permitted s (h.granted hg)

theorem onSessionText_permitted (h : Holds m s) (json : JsString) :
    ∀ o ∈ s.onSessionText json, Permitted m o := by
  unfold onSessionText
  split
  · simp
  · split
    · simp
    · exact settled_permitted (fun _ => trivial) (deliver_permitted h _ _)

theorem onSessionBinary_permitted (h : Holds m s) (addon mime : JsString) (bytes : Bytes) :
    ∀ o ∈ s.onSessionBinary addon mime bytes, Permitted m o := by
  unfold onSessionBinary
  split
  · simp
  · split
    · simp
    · exact settled_permitted (fun _ => trivial) (deliverBinary_permitted h _ _ _)

theorem publishAudioLevel_permitted (h : Holds m s) (level : Number) :
    ∀ o ∈ s.publishAudioLevel level, Permitted m o := by
  unfold publishAudioLevel
  split
  · simp
  · next hsubscribed =>
    split
    · simp
    · split
      · exact post_permitted s (h.audioLevel (by simpa using hsubscribed))
      · simp

/-! ## Closing -/

theorem closeFrom_obeys (h : Holds m s) (n : Nat) : Obeys m (s.closeFrom n) := by
  unfold closeFrom
  split
  · exact ⟨⟨h.manifest, h.audioLevel, h.receive, h.capturing⟩, by simp [Permitted]⟩
  · refine ⟨⟨h.manifest, h.audioLevel, fun kind hk => ?_, h.capturing⟩, ?_⟩
    · cases kind <;> cases hk
    · intro o ho
      obtain ⟨e, _, rfl⟩ := List.mem_map.mp ho
      trivial

theorem close_obeys (h : Holds m s) : Obeys m s.close := by
  unfold close
  split
  · exact h.obeys
  · have hclosed := setState_obeys h .closed
    have hloop := closeFrom_obeys (m := m) (s := { (s.setState .closed).1 with
      listening := false, bound := false, audioLevelSubscribed := false })
      ⟨hclosed.holds.manifest, (fun hon => by cases hon), hclosed.holds.receive,
        hclosed.holds.capturing⟩ 0
    exact ⟨hloop.holds, List.forall_mem_append.mpr ⟨hclosed.permitted, hloop.permitted⟩⟩

theorem closeSenderRemoved_obeys (h : Holds m s) : Obeys m s.closeSenderRemoved := by
  unfold closeSenderRemoved
  split
  · exact h.obeys
  · next n sender _ =>
    have hloop := closeFrom_obeys (m := m) (s := { s with stopped := sender.track :: s.stopped })
      ⟨h.manifest, h.audioLevel, h.receive, h.capturing⟩ (n + 1)
    exact ⟨hloop.holds, List.forall_mem_cons.mpr ⟨trivial, hloop.permitted⟩⟩

/-! ## Every run -/

theorem step_obeys (h : Holds m s) (ev : Event) : Obeys m (s.step ev) := by
  cases ev with
  | iframeLoad => exact onIframeLoad_obeys h
  | contentWindow window => exact Holds.obeys ⟨h.manifest, h.audioLevel, h.receive, h.capturing⟩
  | message source data now =>
    unfold step
    dsimp only
    split
    · exact handleWindowMessage_obeys h ..
    · exact h.obeys
  | sessionText json =>
    refine ⟨h, ?_⟩
    simp only [step]
    split
    · exact onSessionText_permitted h json
    · simp
  | sessionBinary addon mime bytes =>
    refine ⟨h, ?_⟩
    simp only [step]
    split
    · exact onSessionBinary_permitted h addon mime bytes
    · simp
  | remoteTrack kind track attached =>
    unfold step
    dsimp only
    split
    · exact handleRemoteTrack_obeys h ..
    · exact h.obeys
  | trackEnded track => exact trackEnded_obeys h track
  | deliver payload from_ =>
    exact ⟨h, settled_permitted (fun _ => trivial) (deliver_permitted h _ _)⟩
  | deliverBinary mime bytes from_ =>
    exact ⟨h, settled_permitted (fun _ => trivial) (deliverBinary_permitted h _ _ _)⟩
  | publishAudioLevel level => exact ⟨h, publishAudioLevel_permitted h level⟩
  | close => exact close_obeys h
  | captured i result => exact captured_obeys h i result
  | trackAdded i result => exact trackAdded_obeys h i result
  | senderRemoved i error => exact senderRemoved_obeys h i error
  | closeSenderRemoved => exact closeSenderRemoved_obeys h
  | storageSettled i outcome => exact storageSettled_obeys h i outcome
  | sendTextRejected message =>
    unfold step
    dsimp only
    split
    · exact h.obeys
    · exact ⟨⟨h.manifest, h.audioLevel, h.receive, h.capturing⟩, by simp [Permitted]⟩
  | sendBinaryRejected message =>
    unfold step
    dsimp only
    split
    · exact h.obeys
    · exact ⟨⟨h.manifest, h.audioLevel, h.receive, h.capturing⟩, post_permitted s trivial⟩

theorem loaded_holds (manifest : AddonManifest) (options : AddonHostOptions)
    (sessionId : JsString) (window : Option Window) :
    Holds manifest (loaded manifest options sessionId window) := by
  unfold loaded
  dsimp only
  split
  · exact ⟨rfl, (fun h => by cases h), (fun kind h => by cases kind <;> cases h), by
      simp [mount, setState, create, bindToSession]⟩
  · exact ⟨rfl, (fun h => by cases h), (fun kind h => by cases kind <;> cases h), by
      simp [mount, setState, create]⟩

theorem post_mem {s : AddonHost} {msg msg' : BridgePost} (h : .post msg ∈ s.postToIframe msg') :
    msg = msg' := by
  unfold postToIframe at h
  split at h
  · simpa using h
  · cases h

/-- A payload from the peer link reaches the iframe only out of an envelope of
this add-on. -/
theorem onSessionText_delivers {json : JsString} {payload : Data} {from_ : Option JsString}
    (h : .post (.deliver payload from_) ∈ s.onSessionText json) :
    ∃ envelope, tryParseAddonEnvelope json = some envelope ∧ envelope.addon = s.manifest.id ∧
      payload = envelope.payload ∧ from_ = some s.manifest.id := by
  unfold onSessionText at h
  split at h
  · cases h
  · next envelope hparse =>
    split at h
    · cases h
    · next haddon =>
      have hid := not_not.mp haddon
      unfold deliver at h
      split at h
      · simp [settled] at h
      · split at h
        · simp [settled] at h
        · obtain ⟨rfl, rfl⟩ := BridgePost.deliver.inj (post_mem h)
          exact ⟨envelope, hparse, hid, rfl, congrArg some hid⟩

theorem onSessionBinary_delivers {addon mime mime' : JsString} {bytes bytes' : Bytes}
    {from_ : Option JsString}
    (h : .post (.deliverBin mime' bytes' from_) ∈ s.onSessionBinary addon mime bytes) :
    addon = s.manifest.id ∧ mime' = mime ∧ bytes' = bytes ∧ from_ = some addon := by
  unfold onSessionBinary at h
  split at h
  · cases h
  · next haddon =>
    split at h
    · cases h
    · unfold deliverBinary at h
      split at h
      · simp [settled] at h
      · obtain ⟨rfl, rfl, rfl⟩ := BridgePost.deliverBin.inj (post_mem h)
        exact ⟨not_not.mp haddon, rfl, rfl, rfl⟩

theorem foreign_message {source : Option Window} (h : s.iframe ≠ some source) (data : Data)
    (now : Nat) : s.step (.message source data now) = (s, []) := by
  simp [step, handleWindowMessage, h]

/-- What a run of a host with the manifest `m` from `s` on is held to. -/
structure PermissionSound (m : AddonManifest) (s : AddonHost) (evs : List Event) : Prop where
  permitted : ∀ o ∈ Machine.outputs step s evs, Permitted m o
  text : ∀ pre json post, evs = pre ++ .sessionText json :: post → ∀ payload from_,
    .post (.deliver payload from_) ∈ ((Machine.after step s pre).step (.sessionText json)).2 →
    ∃ envelope, tryParseAddonEnvelope json = some envelope ∧ envelope.addon = m.id ∧
      payload = envelope.payload ∧ from_ = some m.id
  binary : ∀ pre addon mime bytes post, evs = pre ++ .sessionBinary addon mime bytes :: post →
    ∀ mime' bytes' from_, .post (.deliverBin mime' bytes' from_) ∈
      ((Machine.after step s pre).step (.sessionBinary addon mime bytes)).2 →
    addon = m.id ∧ mime' = mime ∧ bytes' = bytes ∧ from_ = some m.id
  foreign : ∀ pre source data now post, evs = pre ++ .message source data now :: post →
    (Machine.after step s pre).iframe ≠ some source →
    (Machine.after step s pre).step (.message source data now) = (Machine.after step s pre, [])

/-- Whatever messages and events reach a host, in whatever order, it does
nothing the manifest does not permit, tells the peer its own id, delivers what
is for its add-on only and ignores every other window. -/
theorem permissions_sound (manifest : AddonManifest) (options : AddonHostOptions)
    (sessionId : JsString) (window : Option Window) (evs : List Event) :
    PermissionSound manifest (loaded manifest options sessionId window) evs := by
  have hloaded := loaded_holds manifest options sessionId window
  have hholds : ∀ pre, Holds manifest
      (Machine.after step (loaded manifest options sessionId window) pre) :=
    fun pre => Machine.after_inv (P := Holds manifest) (fun _ ev h => (step_obeys h ev).holds)
      hloaded pre
  refine ⟨?_, ?_, ?_, ?_⟩
  · exact Machine.outputs_inv (P := Holds manifest) (fun _ ev h => (step_obeys h ev).holds)
      (fun _ ev h => (step_obeys h ev).permitted) hloaded evs
  · intro pre json post _ payload from_ hpost
    simp only [step] at hpost
    split at hpost
    · have hdelivers := onSessionText_delivers hpost
      rwa [(hholds pre).manifest] at hdelivers
    · cases hpost
  · intro pre addon mime bytes post _ mime' bytes' from_ hpost
    simp only [step] at hpost
    split at hpost
    · obtain ⟨hid, hmime, hbytes, hfrom⟩ := onSessionBinary_delivers hpost
      rw [(hholds pre).manifest] at hid
      exact ⟨hid, hmime, hbytes, hid ▸ hfrom⟩
    · cases hpost
  · intro pre source data now post _ hforeign
    exact foreign_message hforeign data now

end AddonHost

end Senn.Addon
