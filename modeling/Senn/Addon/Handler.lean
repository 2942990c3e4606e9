import Senn.Addon.Bridge
import Senn.Addon.Permissions

/-! # What the message handler answers

For a message from the iframe, whatever it carries, and for the promises that the handler starts:
where the handler returns, and where what cannot be done is reported. -/

namespace Senn.Addon
open Senn.Js Senn.Protocol

/-- An error event, an error message to the add-on or an error reply of the storage. -/
def Out.Reports : Out → Prop
  | .error _ | .post (.error _ _) | .post (.storageResult _ (.error _)) => True
  | _ => False

/-- An exception of the handler, or a rejection nothing has caught. -/
def Out.Escapes : Out → Prop
  | .thrown | .rejected _ => True
  | _ => False

def Reported (outs : List Out) : Prop := ∃ o ∈ outs, o.Reports

namespace AddonHost

/-- The host cannot do what the message asks for. -/
def Refused (s : AddonHost) (msg : Data) : BridgeOp → Prop
  | .send => s.grants PEER_SEND = false ∨
      s.options.session.isSome = true ∧ (msg.get (js "payload")).toJson = none
  | .sendBin => s.grants PEER_SEND_BIN = false ∨ s.options.session = none ∨
      (msg.get (js "mime")).str? = none ∨
      ∀ bytes, (msg.get (js "bytes")).bytes? = some bytes → ADDON_BIN_MAX_BYTES < bytes.length
  | .audioLevelSubscribe => s.grants AUDIO_LEVEL = false
  | .mediaSendStart kind => s.grants kind.sendPermission = false ∨
      s.options.session.any (·.addLocalTrack) = false ∨
      ∀ provider, s.options.mediaCapture = some provider →
        s.mediaSendSenders.get kind = none ∧ provider.has kind = false
  | .mediaReceiveSubscribe kind =>
      s.grants kind.receivePermission = false ∨ s.options.mediaSink = none
  | .error => (msg.get (js "message")).text = none
  | .storage => s.currentState = .closed ∨ s.options.storage = false ∨
      (∀ rid, (msg.get (js "rid")).str? = some rid → rid = []) ∨
      ∀ call, storageCall (msg.get (js "storage")) (msg.get (js "key")) (msg.get (js "value")) =
        some call → s.grants call.permission = false
  | .ready | .audioLevelUnsubscribe | .mediaSendStop _ | .mediaReceiveUnsubscribe _ => False

/-- A payload without JSON text where there is a peer, an error whose message has no text, or a
request that is refused to a window that is gone or to a storage request without an id. -/
def Unanswered (s : AddonHost) (source : Option Window) (msg : Data) : BridgeOp → Prop
  | .send => s.grants PEER_SEND = true ∧ s.options.session.isSome = true ∧
      (msg.get (js "payload")).toJson = none
  | .error => (msg.get (js "message")).text = none
  | op => s.Refused msg op ∧ (source = none ∨
      op = .storage ∧ ∀ rid, (msg.get (js "rid")).str? = some rid → rid = [])

/-- The handler returns, and reports what it cannot do. -/
structure Handles (s : AddonHost) (source : Option Window) (data : Data) (now : Nat) : Prop where
  returns : .thrown ∉ (s.handleWindowMessage source data now).2
  reports : s.iframe = some source → ∀ op, bridgeOp data = some op → s.Refused data op →
    Reported (s.handleWindowMessage source data now).2

/-- The settlement of a promise that the handler started. -/
def Settles : Event → Prop
  | .captured _ _ | .trackAdded _ _ | .senderRemoved _ _ | .storageSettled _ _
  | .sendTextRejected _ | .sendBinaryRejected _ => True
  | _ => False

/-- The promise is one the host waits for, and it brings a failure. -/
def Failed (s : AddonHost) : Event → Prop
  | .captured i (.rejected _) | .captured i .nothing => i < s.capturing.length
  | .trackAdded i (.error _) => i < s.adding.length
  | .senderRemoved i (some _) => i < s.removing.length
  | .storageSettled i (.storageError _) | .storageSettled i (.failed _) =>
    i < s.storageCalls.length
  | .sendTextRejected _ => 0 < s.textSends
  | .sendBinaryRejected _ => 0 < s.binarySends
  | _ => False

/-- A failure the page hears of, whether the iframe has a window or not. -/
def Emitted : Event → Prop
  | .senderRemoved _ (some _) | .storageSettled _ (.failed _) | .sendTextRejected _ => True
  | _ => False

/-- The outputs are one post, of an error. -/
def Answers (s : AddonHost) (outs : List Out) : Prop :=
  ∃ m, (Out.post m).Reports ∧ outs = s.postToIframe m

variable {s : AddonHost} {w : Window} {outs : List Out}

/-! ## Posts -/

theorem Answers.reported (h : s.Answers outs) (hw : s.iframe = some (some w)) :
    Reported outs := by
  obtain ⟨m, hm, rfl⟩ := h
  rw [postToIframe, hw]
  exact ⟨_, .head _, hm⟩

theorem Answers.lost (h : s.Answers outs) (hw : s.iframe = some none) : outs = [] := by
  obtain ⟨m, -, rfl⟩ := h
  rw [postToIframe, hw]

theorem postBridgeError_answers (s : AddonHost) (code message : JsString) :
    s.Answers (s.postBridgeError code message) := ⟨.error code message, trivial, rfl⟩

theorem storageError_answers (s : AddonHost) (rid error : JsString) :
    s.Answers (s.storageError rid error) := ⟨.storageResult rid (.error error), trivial, rfl⟩

theorem thrown_not_posted (s : AddonHost) (m : BridgePost) : .thrown ∉ s.postToIframe m := by
  unfold postToIframe
  split <;> simp

theorem thrown_not_set (s : AddonHost) (next : AddonHostState) : .thrown ∉ (s.setState next).2 := by
  unfold setState
  split <;> simp

theorem thrown_not_append {a b : List Out} (ha : .thrown ∉ a) (hb : .thrown ∉ b) :
    .thrown ∉ a ++ b := by
  simp [ha, hb]

/-! ## Sending -/

theorem stringified_none {id : JsString} {now : Nat} {payload : Data} :
    stringified (s.envelope id now payload) = none ↔ payload.toJson = none := by
  cases hp : payload.toJson with
  | none => simp [stringified, envelope, Data.toJson, Data.toMembers, Number.ofNat, hp]
  | some p => simp [stringified, envelope, Data.toJson, Data.toMembers, Number.ofNat, hp]

theorem handleSend_refused (h : s.grants PEER_SEND = false) (payload : Data) (now : Nat) :
    (s.handleSend payload now).2 =
      [.error (js "addon attempted send without peer.send permission")] := by
  rw [handleSend, h]
  rfl

/-- Sending throws for a payload that has no JSON text, and for no other. -/
theorem thrown_mem_handleSend (hmanifest : s.manifest.Valid) (payload : Data) (now : Nat) :
    .thrown ∈ (s.handleSend payload now).2 ↔ s.grants PEER_SEND = true ∧
      s.options.session.isSome = true ∧ payload.toJson = none := by
  cases hgrants : s.grants PEER_SEND with
  | false =>
    rw [handleSend_refused hgrants]
    simp
  | true =>
    cases hsession : s.options.session with
    | none =>
      rw [handleSend_local hgrants hsession]
      simp
    | some link =>
      have hsome : s.options.session.isSome = true := by rw [hsession]; rfl
      rw [handleSend_peer hgrants hmanifest hsome]
      cases htext : stringified (s.envelope (newEnvelopeId s.counter now).2 now payload) with
      | none => simp [stringified_none.mp htext]
      | some text =>
        have hjson : payload.toJson ≠ none := fun hnone => by
          rw [stringified_none.mpr hnone] at htext
          cases htext
        simp [hjson]

/-! ## The other cases -/

theorem handleReady_returns (s : AddonHost) : .thrown ∉ s.handleReady.2 := by
  have hinit : .thrown ∉ s.ensureInitPosted.2 := by
    unfold ensureInitPosted
    split
    · exact thrown_not_append (thrown_not_set _ _) (thrown_not_posted _ _)
    · simp
  unfold handleReady
  dsimp only
  split
  · exact thrown_not_append hinit (thrown_not_set _ _)
  · exact hinit

theorem handleSendBin_returns (mime bytes : Data) : .thrown ∉ (s.handleSendBin mime bytes).2 := by
  unfold handleSendBin postBridgeError
  split
  · exact thrown_not_posted _ _
  split
  · split
    · exact thrown_not_posted _ _
    split
    · exact thrown_not_posted _ _
    · simp
  · exact thrown_not_posted _ _

theorem handleSendBin_answers {msg : Data} (h : s.Refused msg .sendBin) :
    s.Answers (s.handleSendBin (msg.get (js "mime")) (msg.get (js "bytes"))).2 := by
  have herror := s.postBridgeError_answers
  unfold handleSendBin
  split
  · exact herror _ _
  · next hgrants =>
    split
    · next mime bytes hmime hbytes =>
      split
      · exact herror _ _
      split
      · exact herror _ _
      · next hsize hsession =>
        obtain h | h | h | h := h
        · simp [h] at hgrants
        · simp [h] at hsession
        · rw [hmime] at h
          cases h
        · exact absurd (h bytes hbytes) hsize
    · exact herror _ _

theorem handleAudioLevelSubscribe_returns (s : AddonHost) :
    .thrown ∉ s.handleAudioLevelSubscribe.2 := by
  unfold handleAudioLevelSubscribe
  split
  · exact thrown_not_posted _ _
  · simp

theorem handleAudioLevelSubscribe_answers (h : s.grants AUDIO_LEVEL = false) :
    s.Answers s.handleAudioLevelSubscribe.2 := by
  rw [handleAudioLevelSubscribe, h]
  exact s.postBridgeError_answers _ _

theorem handleMediaSendStart_returns (kind : MediaKind) (source : Option Data) :
    .thrown ∉ (s.handleMediaSendStart kind source).2 := by
  unfold handleMediaSendStart postBridgeError
  split
  · exact thrown_not_posted _ _
  split
  · exact thrown_not_posted _ _
  split
  · exact thrown_not_posted _ _
  split
  · exact thrown_not_posted _ _
  split
  · simp
  · exact thrown_not_posted _ _

theorem handleMediaSendStart_answers {kind : MediaKind} {msg : Data}
    (h : s.Refused msg (.mediaSendStart kind)) (source : Option Data) :
    s.Answers (s.handleMediaSendStart kind source).2 := by
  have herror := s.postBridgeError_answers
  unfold handleMediaSendStart
  split
  · exact herror _ _
  · next hgrants =>
    split
    · exact herror _ _
    · next provider hprovider =>
      split
      · exact herror _ _
      · next hlink =>
        obtain h | h | h := h
        · simp [h] at hgrants
        · simp [h] at hlink
        · obtain ⟨hnone, hhas⟩ := h provider hprovider
          rw [hnone, hhas]
          exact herror _ _

theorem handleMediaSendStop_returns (kind : MediaKind) :
    .thrown ∉ (s.handleMediaSendStop kind).2 := by
  unfold handleMediaSendStop
  split <;> simp

theorem handleMediaReceiveSubscribe_returns (kind : MediaKind) :
    .thrown ∉ (s.handleMediaReceiveSubscribe kind).2 := by
  unfold handleMediaReceiveSubscribe postBridgeError
  split
  · exact thrown_not_posted _ _
  split
  · exact thrown_not_posted _ _
  · simp

theorem handleMediaReceiveSubscribe_answers {kind : MediaKind} {msg : Data}
    (h : s.Refused msg (.mediaReceiveSubscribe kind)) :
    s.Answers (s.handleMediaReceiveSubscribe kind).2 := by
  have herror := s.postBridgeError_answers
  unfold handleMediaReceiveSubscribe
  split
  · exact herror _ _
  · next hgrants =>
    split
    · exact herror _ _
    · next hsink =>
      obtain h | h := h
      · simp [h] at hgrants
      · simp [h] at hsink

theorem handleMediaReceiveUnsubscribe_returns (kind : MediaKind) :
    .thrown ∉ (s.handleMediaReceiveUnsubscribe kind).2 := by
  unfold handleMediaReceiveUnsubscribe
  dsimp only
  split <;> simp

theorem handleStorage_returns (rid op key value : Data) :
    .thrown ∉ (s.handleStorage rid op key value).2 := by
  unfold handleStorage storageError
  split
  · simp
  dsimp only
  split
  · simp
  split
  · exact thrown_not_posted _ _
  split
  · exact thrown_not_posted _ _
  split
  · exact thrown_not_posted _ _
  split
  · exact thrown_not_posted _ _
  split
  · exact thrown_not_posted _ _
  · simp

/-- A storage request with an id is answered. -/
theorem handleStorage_answers {msg : Data} (h : s.Refused msg .storage) {rid : JsString}
    (hrid : (msg.get (js "rid")).str? = some rid) (hne : rid ≠ []) :
    s.Answers (s.handleStorage (msg.get (js "rid")) (msg.get (js "storage")) (msg.get (js "key"))
      (msg.get (js "value"))).2 := by
  have herror := s.storageError_answers
  unfold handleStorage
  rw [hrid]
  dsimp only
  rw [if_neg hne]
  split
  · exact herror _ _
  · next hopen =>
    split
    · exact herror _ _
    · next hstorage =>
      split
      · exact herror _ _
      · next hread =>
        split
        · exact herror _ _
        · next hwrite =>
          split
          · exact herror _ _
          · next call hcall =>
            obtain h | h | h | h := h
            · exact absurd h hopen
            · simp [h] at hstorage
            · exact absurd (h rid hrid) hne
            · have hgrants := h call hcall
              obtain ⟨hop, hperm⟩ | ⟨hop, hperm⟩ := storageCall_permission hcall
              · rw [hperm] at hgrants
                obtain hop | hop := hop <;> simp [hop, hgrants] at hread
              · rw [hperm] at hgrants
                obtain hop | hop | hop := hop <;> simp [hop, hgrants] at hwrite

/-! ## The handler -/

theorem handleOp_returns (hmanifest : s.manifest.Valid) {msg : Data} (now : Nat) {op : BridgeOp}
    {source : Option Window} (h : ¬s.Unanswered source msg op) :
    .thrown ∉ (s.handleOp msg now op).2 := by
  cases op with
  | ready => exact s.handleReady_returns
  | send => exact fun hthrown => h ((thrown_mem_handleSend hmanifest _ now).mp hthrown)
  | sendBin => exact handleSendBin_returns _ _
  | audioLevelSubscribe => exact s.handleAudioLevelSubscribe_returns
  | audioLevelUnsubscribe => simp [handleOp]
  | mediaSendStart kind => exact handleMediaSendStart_returns kind _
  | mediaSendStop kind => exact handleMediaSendStop_returns kind
  | mediaReceiveSubscribe kind => exact handleMediaReceiveSubscribe_returns kind
  | mediaReceiveUnsubscribe kind => exact handleMediaReceiveUnsubscribe_returns kind
  | error =>
    obtain ⟨text, htext⟩ := Option.ne_none_iff_exists'.mp h
    simp [handleOp, htext]
  | storage => exact handleStorage_returns _ _ _ _

/-- A refused operation is answered with an error, but for `send`, `error` and a storage request
that has no id. -/
theorem handleOp_answers {msg : Data} (now : Nat) {op : BridgeOp} (h : s.Refused msg op)
    (hsend : op ≠ .send) (herror : op ≠ .error) (hrid : op = .storage →
      ∃ rid, (msg.get (js "rid")).str? = some rid ∧ rid ≠ []) :
    s.Answers (s.handleOp msg now op).2 := by
  cases op with
  | send => exact absurd rfl hsend
  | error => exact absurd rfl herror
  | sendBin => exact handleSendBin_answers h
  | audioLevelSubscribe => exact handleAudioLevelSubscribe_answers h
  | mediaSendStart kind =>
    have hwants : (s.setWants kind true).Refused msg (.mediaSendStart kind) := by
      cases kind <;> exact h
    obtain ⟨m, hm, houts⟩ := handleMediaSendStart_answers hwants (startSource msg kind)
    refine ⟨m, hm, houts.trans ?_⟩
    cases kind <;> rfl
  | mediaReceiveSubscribe kind => exact handleMediaReceiveSubscribe_answers h
  | storage =>
    obtain ⟨rid, hrid, hne⟩ := hrid rfl
    exact handleStorage_answers h hrid hne
  | ready | audioLevelUnsubscribe | mediaSendStop kind | mediaReceiveUnsubscribe kind =>
    exact absurd h id

theorem handleWindowMessage_op {source : Option Window} (hw : s.iframe = some source) {data : Data}
    {op : BridgeOp} (hop : bridgeOp data = some op) (now : Nat) :
    s.handleWindowMessage source data now = s.handleOp data now op := by
  rw [handleWindowMessage, if_neg (not_not.mpr hw), hop]

theorem handleStorage_ridless {rid op key value : Data} (h : ∀ r, rid.str? = some r → r = []) :
    (s.handleStorage rid op key value).2 = [] := by
  unfold handleStorage
  split
  · rfl
  · next r hr =>
    dsimp only
    rw [if_pos (h r hr)]

theorem unanswered_other {source : Option Window} {msg : Data} {op : BridgeOp} (hsend : op ≠ .send)
    (herror : op ≠ .error) : s.Unanswered source msg op ↔ s.Refused msg op ∧ (source = none ∨
      op = .storage ∧ ∀ rid, (msg.get (js "rid")).str? = some rid → rid = []) := by
  cases op with
  | send => exact absurd rfl hsend
  | error => exact absurd rfl herror
  | _ => rfl

/-- What goes unanswered is thrown or dropped. -/
theorem handleOp_unanswered (hmanifest : s.manifest.Valid) {source : Option Window}
    (hw : s.iframe = some source) {msg : Data} (now : Nat) {op : BridgeOp}
    (h : s.Unanswered source msg op) :
    .thrown ∈ (s.handleOp msg now op).2 ∨
      s.Refused msg op ∧ (s.handleOp msg now op).2 = [] := by
  by_cases hsend : op = .send
  · subst hsend
    exact .inl ((thrown_mem_handleSend hmanifest _ now).mpr h)
  by_cases herror : op = .error
  · subst herror
    have htext : (msg.get (js "message")).text = none := h
    exact .inl (by simp [handleOp, htext])
  obtain ⟨hrefused, hlost⟩ := (unanswered_other hsend herror).mp h
  refine .inr ⟨hrefused, ?_⟩
  by_cases hridless : op = .storage ∧ ∀ rid, (msg.get (js "rid")).str? = some rid → rid = []
  · obtain ⟨rfl, hrid⟩ := hridless
    exact handleStorage_ridless hrid
  · obtain rfl := hlost.resolve_right hridless
    have hanswers := handleOp_answers now hrefused hsend herror fun hop => by
      by_contra hnone
      exact hridless ⟨hop, fun rid hrid => by_contra fun hne => hnone ⟨rid, hrid, hne⟩⟩
    exact hanswers.lost hw

theorem handleOp_reports {source : Option Window} (hw : s.iframe = some source) {msg : Data}
    (now : Nat) {op : BridgeOp} (hrefused : s.Refused msg op) (h : ¬s.Unanswered source msg op) :
    Reported (s.handleOp msg now op).2 := by
  by_cases hsend : op = .send
  · subst hsend
    obtain hgrants | ⟨hsession, hjson⟩ := hrefused
    · rw [handleOp, handleSend_refused hgrants]
      exact ⟨_, .head _, trivial⟩
    · cases hgrants : s.grants PEER_SEND with
      | false =>
        rw [handleOp, handleSend_refused hgrants]
        exact ⟨_, .head _, trivial⟩
      | true => exact absurd ⟨hgrants, hsession, hjson⟩ h
  by_cases herror : op = .error
  · subst herror
    exact absurd hrefused h
  rw [unanswered_other hsend herror] at h
  obtain ⟨hsource, hrid⟩ := not_or.mp (not_and.mp h hrefused)
  obtain ⟨w, rfl⟩ := Option.ne_none_iff_exists'.mp hsource
  refine (handleOp_answers now hrefused hsend herror fun hop => ?_).reported hw
  by_contra hnone
  exact hrid ⟨hop, fun rid hsome => by_contra fun hne => hnone ⟨rid, hsome, hne⟩⟩

/-- The handler returns and reports, unless what it cannot do goes unanswered. -/
theorem handles_iff (hmanifest : s.manifest.Valid) (source : Option Window) (data : Data)
    (now : Nat) : s.Handles source data now ↔ ∀ op, s.iframe = some source →
      bridgeOp data = some op → ¬s.Unanswered source data op := by
  constructor
  · intro h op hw hop hun
    have hreturns := h.returns
    have hreports := h.reports hw op hop
    rw [handleWindowMessage_op hw hop] at hreturns hreports
    obtain hthrown | ⟨hrefused, hempty⟩ := handleOp_unanswered hmanifest hw now hun
    · exact hreturns hthrown
    · obtain ⟨o, ho, -⟩ := hreports hrefused
      rw [hempty] at ho
      cases ho
  · intro h
    refine ⟨?_, fun hw op hop hrefused => ?_⟩
    · unfold handleWindowMessage
      split
      · exact List.not_mem_nil
      · next hw =>
        split
        · exact List.not_mem_nil
        · next op hop => exact handleOp_returns hmanifest now (h op (not_not.mp hw) hop)
    · rw [handleWindowMessage_op hw hop]
      exact handleOp_reports hw now hrefused (h op hw hop)

/-! ## Promises -/

theorem Answers.reported_iff (h : s.Answers outs) :
    Reported outs ↔ ∃ w, s.iframe = some (some w) := by
  constructor
  · intro hreported
    obtain ⟨m, -, rfl⟩ := h
    obtain ⟨o, ho, -⟩ := hreported
    unfold postToIframe at ho
    split at ho
    · next w hw => exact ⟨w, hw⟩
    · cases ho
  · intro hw
    obtain ⟨w, hw⟩ := hw
    exact h.reported hw

theorem reported_cons {o : Out} (ho : ¬o.Reports) : Reported (o :: outs) ↔ Reported outs := by
  simp [Reported, ho]

theorem post_caught (s : AddonHost) (m : BridgePost) : ∀ o ∈ s.postToIframe m, ¬o.Escapes := by
  intro o ho
  unfold postToIframe at ho
  split at ho
  · obtain rfl := List.mem_singleton.mp ho
    exact id
  · cases ho

/-- A promise the handler started settles without an exception or a rejection. -/
theorem settles_caught {ev : Event} (h : Settles ev) : ∀ o ∈ (s.step ev).2, ¬o.Escapes := by
  have hpost := post_caught
  cases ev with
  | captured i result =>
    dsimp only [step]
    unfold captured
    split
    · simp
    · cases result with
      | track track => simp [Out.Escapes]
      | nothing => exact hpost _ _
      | rejected message => exact hpost _ _
  | trackAdded i result =>
    dsimp only [step]
    unfold trackAdded
    split
    · simp
    · cases result with
      | ok senderId => exact hpost _ _
      | error message => exact List.forall_mem_cons.mpr ⟨id, hpost _ _⟩
  | senderRemoved i error =>
    dsimp only [step]
    unfold senderRemoved
    split
    · simp
    · refine List.forall_mem_append.mpr ⟨?_, List.forall_mem_cons.mpr ⟨id, hpost _ _⟩⟩
      cases error <;> simp [Out.Escapes]
  | storageSettled i outcome =>
    dsimp only [step]
    unfold storageSettled
    split
    · simp
    · cases outcome with
      | ok value => exact hpost _ _
      | storageError code => exact hpost _ _
      | failed message => exact List.forall_mem_append.mpr ⟨hpost _ _, by simp [Out.Escapes]⟩
  | sendTextRejected message =>
    dsimp only [step]
    split <;> simp [Out.Escapes]
  | sendBinaryRejected message =>
    dsimp only [step]
    split
    · simp
    · exact hpost _ _
  | _ => cases h

/-- A failure is reported by an event, or to the iframe as long as there is one. -/
theorem failed_reported {ev : Event} (h : s.Failed ev) :
    Reported (s.step ev).2 ↔ Emitted ev ∨ ∃ w, s.iframe = some (some w) := by
  have hanswers : ∀ {outs}, s.Answers outs → ¬Emitted ev →
      (Reported outs ↔ Emitted ev ∨ ∃ w, s.iframe = some (some w)) := by
    intro outs houts hev
    rw [houts.reported_iff, or_iff_right hev]
  cases ev with
  | captured i result =>
    cases result with
    | track track => exact absurd h id
    | nothing | rejected message =>
      rw [step, captured, List.getElem?_eq_getElem h]
      exact hanswers (s.postBridgeError_answers _ _) id
  | trackAdded i result =>
    cases result with
    | ok senderId => exact absurd h id
    | error message =>
      rw [step, trackAdded, List.getElem?_eq_getElem h]
      exact (reported_cons id).trans (hanswers (s.postBridgeError_answers _ _) id)
  | senderRemoved i error =>
    cases error with
    | none => exact absurd h id
    | some message =>
      rw [step, senderRemoved, List.getElem?_eq_getElem h]
      exact iff_of_true ⟨_, .head _, trivial⟩ (.inl trivial)
  | storageSettled i outcome =>
    cases outcome with
    | ok value => exact absurd h id
    | storageError code =>
      rw [step, storageSettled, List.getElem?_eq_getElem h]
      exact hanswers (s.storageError_answers _ _) id
    | failed message =>
      rw [step, storageSettled, List.getElem?_eq_getElem h]
      exact iff_of_true ⟨.error message, by simp, trivial⟩ (.inl trivial)
  | sendTextRejected message =>
    rw [step, if_neg (Nat.ne_of_gt h)]
    exact iff_of_true ⟨_, .head _, trivial⟩ (.inl trivial)
  | sendBinaryRejected message =>
    rw [step, if_neg (Nat.ne_of_gt h)]
    exact hanswers (s.postBridgeError_answers _ _) id
  | _ => exact absurd h id

/-! ## Any message, any state -/

/-- Messages from any window with any value are handled where they are not left unanswered; the
promises started for them escape nowhere, and their failures are reported. -/
theorem messages_handled_iff (hmanifest : s.manifest.Valid) :
    (∀ source data now, s.Handles source data now ↔ ∀ op, s.iframe = some source →
      bridgeOp data = some op → ¬s.Unanswered source data op) ∧
    (∀ ev, Settles ev → ∀ o ∈ (s.step ev).2, ¬o.Escapes) ∧
    ∀ ev, s.Failed ev → (Reported (s.step ev).2 ↔ Emitted ev ∨ ∃ w, s.iframe = some (some w)) :=
  ⟨handles_iff hmanifest, fun _ => settles_caught, fun _ => failed_reported⟩

/-- A bridge message of an operation with one more member. -/
def opMessage (op : BridgeOp) (key : JsString) (value : Data) : Data :=
  .obj [(js "kind", .str ADDON_BRIDGE_KIND), (js "op", .str op.text), (key, value)]

theorem greeting_handled : chatManifest.Valid ∧
    chatHost.Handles (some 1) (opMessage .send (js "payload") (.str (js "hi"))) 0 := by
  refine ⟨chatManifest_valid, ((messages_handled_iff chatManifest_valid).1 _ _ _).mpr ?_⟩
  intro op _ hop hun
  have hsend : bridgeOp (opMessage .send (js "payload") (.str (js "hi"))) = some .send := by
    decide
  rw [hsend] at hop
  obtain rfl := Option.some.inj hop
  obtain ⟨-, -, hjson⟩ := hun
  revert hjson
  decide

/-- A bigint to send and an error whose message is no text make the handler throw. -/
theorem bigint_thrown :
    ¬chatHost.Handles (some 1) (opMessage .send (js "payload") (.bigint 1)) 0 ∧
    ¬chatHost.Handles (some 1) (opMessage .error (js "message")
      (.obj [(js "toString", .num (.ofNat 1))])) 0 := by
  constructor
  · intro h
    have hop : bridgeOp (opMessage .send (js "payload") (.bigint 1)) = some .send := by decide
    refine (handles_iff chatManifest_valid _ _ _).mp h .send rfl hop ⟨by decide, rfl, rfl⟩
  · intro h
    refine (handles_iff chatManifest_valid _ _ _).mp h .error rfl (by decide) ?_
    have htext : (Data.obj [(js "toString", .num (.ofNat 1))]).text = none := rfl
    exact htext

end AddonHost

end Senn.Addon
