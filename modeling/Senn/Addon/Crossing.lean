import Senn.Addon.Lifecycle
import Senn.Addon.Wire
import Senn.Core.BinaryFrame

/-! # What crosses a host

Of all that a host puts out, a text or a binary message for the peer comes from a `send` or a
`send-bin` of its page, and a payload for the page from the peer link or a call of `deliver`. The
manifest and the options of a host never change. -/

namespace Senn.Addon

open Senn.Js Senn.Lib Senn.Protocol
open Senn.Core (BinaryMessage)

/-- The output goes to the peer, or brings the page something of it. -/
def Out.crosses : Out → Bool
  | .sendText _ | .sendBinary _ _ _ | .post (.deliver _ _) | .post (.deliverBin _ _ _) => true
  | _ => false

/-- The text an output hands to the peer link. -/
def Out.text? : Out → Option JsString
  | .sendText text => some text
  | _ => none

/-- The binary message an output hands to the peer link. -/
def Out.binary? : Out → Option BinaryMessage
  | .sendBinary addon mime bytes => some ⟨addon, mime, bytes⟩
  | _ => none

def Out.posted? : Out → Option BridgePost
  | .post m => some m
  | _ => none

/-- The payload a post brings. -/
def BridgePost.payload? : BridgePost → Option Data
  | .deliver payload _ => some payload
  | _ => none

/-- The bytes a post brings, with their type. -/
def BridgePost.parcel? : BridgePost → Option (JsString × Bytes)
  | .deliverBin mime bytes _ => some (mime, bytes)
  | _ => none

/-- The texts handed to the peer link. -/
def texts (outs : List Out) : List JsString := outs.filterMap Out.text?

/-- The binary messages handed to the peer link. -/
def binaries (outs : List Out) : List BinaryMessage := outs.filterMap Out.binary?

/-- The messages posted to the page. -/
def posts (outs : List Out) : List BridgePost := outs.filterMap Out.posted?

/-- What is posted to the page of binary messages. -/
def parcels (outs : List Out) : List (JsString × Bytes) := (posts outs).filterMap BridgePost.parcel?

/-- The payload the add-on `id` reads in a text. -/
def readBy (id json : JsString) : Option Data :=
  (tryParseAddonEnvelope json).bind fun envelope =>
    if envelope.addon = id then some envelope.payload else none

namespace AddonHost

variable {s : AddonHost}

/-- Nothing of it crosses. -/
structure Home (outs : List Out) : Prop where
  all : ∀ o ∈ outs, o.crosses = false

theorem Home.nil : Home [] := ⟨by simp⟩

theorem Home.append {a b : List Out} (ha : Home a) (hb : Home b) : Home (a ++ b) :=
  ⟨List.forall_mem_append.mpr ⟨ha.all, hb.all⟩⟩

theorem Home.cons {o : Out} {outs : List Out} (ho : o.crosses = false) (h : Home outs) :
    Home (o :: outs) := ⟨List.forall_mem_cons.mpr ⟨ho, h.all⟩⟩

theorem home_post (s : AddonHost) {msg : BridgePost} (h : (Out.post msg).crosses = false) :
    Home (s.postToIframe msg) := by
  unfold postToIframe
  split
  · exact .cons h .nil
  · exact Home.nil

theorem home_error (s : AddonHost) (code message : JsString) :
    Home (s.postBridgeError code message) := home_post s rfl

theorem home_setState (s : AddonHost) (next : AddonHostState) : Home (s.setState next).2 := by
  unfold setState
  split
  · exact .nil
  · exact .cons rfl .nil

theorem home_onIframeLoad (s : AddonHost) : Home s.onIframeLoad.2 := by
  unfold onIframeLoad
  split
  · exact .nil
  · exact (home_setState ..).append (home_post _ rfl)

theorem home_handleReady (s : AddonHost) : Home s.handleReady.2 := by
  have hinit : Home s.ensureInitPosted.2 := by
    unfold ensureInitPosted
    split
    · exact (home_setState ..).append (home_post _ rfl)
    · exact .nil
  unfold handleReady
  dsimp only
  split
  · exact hinit.append (home_setState ..)
  · exact hinit

theorem home_audioLevelSubscribe (s : AddonHost) : Home s.handleAudioLevelSubscribe.2 := by
  unfold handleAudioLevelSubscribe
  split
  · exact home_error ..
  · exact .nil

theorem home_mediaSendStart (s : AddonHost) (kind : MediaKind) (source : Option Data) :
    Home (s.handleMediaSendStart kind source).2 := by
  unfold handleMediaSendStart
  split
  · exact home_error ..
  split
  · exact home_error ..
  split
  · exact home_error ..
  split
  · exact home_post _ rfl
  split
  · exact .cons rfl .nil
  · exact home_error ..

theorem home_mediaSendStop (s : AddonHost) (kind : MediaKind) :
    Home (s.handleMediaSendStop kind).2 := by
  unfold handleMediaSendStop
  split
  · exact .nil
  · exact .cons rfl .nil

theorem home_captured (s : AddonHost) (i : Nat) (result : Capture) :
    Home (s.captured i result).2 := by
  unfold captured
  split
  · exact .nil
  dsimp only
  split
  · exact .cons rfl .nil
  · exact home_error ..
  · exact home_error ..

theorem home_trackAdded (s : AddonHost) (i : Nat) (result : Except (Option JsString) Nat) :
    Home (s.trackAdded i result).2 := by
  unfold trackAdded
  split
  · exact .nil
  dsimp only
  split
  · exact home_post _ rfl
  · exact .cons rfl (home_error ..)

theorem home_senderRemoved (s : AddonHost) (i : Nat) (error : Option JsString) :
    Home (s.senderRemoved i error).2 := by
  unfold senderRemoved
  split
  · exact .nil
  cases error with
  | none => exact .cons rfl (home_post _ rfl)
  | some message => exact .cons rfl (.cons rfl (home_post _ rfl))

theorem home_mediaReceiveSubscribe (s : AddonHost) (kind : MediaKind) :
    Home (s.handleMediaReceiveSubscribe kind).2 := by
  unfold handleMediaReceiveSubscribe
  split
  · exact home_error ..
  split
  · exact home_error ..
  · exact .nil

theorem home_mediaReceiveUnsubscribe (s : AddonHost) (kind : MediaKind) :
    Home (s.handleMediaReceiveUnsubscribe kind).2 := by
  unfold handleMediaReceiveUnsubscribe
  dsimp only
  split
  · exact .nil
  · exact .cons rfl .nil

theorem home_detachers (entries : Option Nat) : Home (entries.map Out.detach).toList := by
  cases entries
  · exact .nil
  · exact .cons rfl .nil

theorem home_remoteTrack (s : AddonHost) (kind : MediaKind) (track : Nat)
    (attached : Except JsString Nat) : Home (s.handleRemoteTrack kind track attached).2 := by
  unfold handleRemoteTrack
  split
  · exact .nil
  split
  · exact .cons rfl (.cons rfl .nil)
  · exact .cons rfl ((home_detachers _).append (home_post _ rfl))

theorem home_trackEnded (s : AddonHost) (track : Nat) : Home (s.trackEnded track).2 := by
  unfold trackEnded
  have hfold : ∀ (listeners : List (Nat × MediaKind)) (r : AddonHost × List Out), Home r.2 →
      Home (listeners.foldl (fun r listener =>
        let r' := r.1.remoteTrackEnded listener.2
        (r'.1, r.2 ++ r'.2)) r).2 := by
    intro listeners
    induction listeners with
    | nil => intro r hr; exact hr
    | cons listener listeners ih => intro r hr; exact ih _ (hr.append (home_post _ rfl))
  exact hfold _ _ .nil

theorem home_storage (s : AddonHost) (rid op key value : Data) :
    Home (s.handleStorage rid op key value).2 := by
  unfold handleStorage
  split
  · exact .nil
  dsimp only
  split
  · exact .nil
  split
  · exact home_post _ rfl
  split
  · exact home_post _ rfl
  split
  · exact home_post _ rfl
  split
  · exact home_post _ rfl
  split
  · exact home_post _ rfl
  · exact .cons rfl .nil

theorem home_storageSettled (s : AddonHost) (i : Nat) (outcome : StorageOutcome) :
    Home (s.storageSettled i outcome).2 := by
  unfold storageSettled
  split
  · exact .nil
  dsimp only
  split
  · exact home_post _ rfl
  · exact home_post _ rfl
  · exact (home_post _ rfl).append (.cons rfl .nil)

theorem home_closeFrom (s : AddonHost) (n : Nat) : Home (s.closeFrom n).2 := by
  unfold closeFrom
  split
  · exact .cons rfl .nil
  · refine ⟨fun o ho => ?_⟩
    obtain ⟨e, -, rfl⟩ := List.mem_map.mp ho
    rfl

theorem home_close (s : AddonHost) : Home s.close.2 := by
  unfold close
  split
  · exact .nil
  · exact (home_setState ..).append (home_closeFrom ..)

theorem home_closeSenderRemoved (s : AddonHost) : Home s.closeSenderRemoved.2 := by
  unfold closeSenderRemoved
  split
  · exact .nil
  · exact .cons rfl (home_closeFrom ..)

theorem home_publishAudioLevel (s : AddonHost) (level : Number) :
    Home (s.publishAudioLevel level) := by
  unfold publishAudioLevel
  split
  · exact .nil
  split
  · exact .nil
  split
  · exact home_post _ rfl
  · exact .nil

/-- The other operations of a page keep to its side. -/
theorem home_handleOp (s : AddonHost) (msg : Data) (now : Nat) {op : BridgeOp} (hsend : op ≠ .send)
    (hsendBin : op ≠ .sendBin) : Home (s.handleOp msg now op).2 := by
  cases op with
  | send => exact absurd rfl hsend
  | sendBin => exact absurd rfl hsendBin
  | ready => exact home_handleReady s
  | audioLevelSubscribe => exact home_audioLevelSubscribe s
  | audioLevelUnsubscribe => exact .nil
  | mediaSendStart kind => exact home_mediaSendStart ..
  | mediaSendStop kind => exact home_mediaSendStop ..
  | mediaReceiveSubscribe kind => exact home_mediaReceiveSubscribe ..
  | mediaReceiveUnsubscribe kind => exact home_mediaReceiveUnsubscribe ..
  | error =>
    simp only [handleOp]
    split <;> exact .cons rfl .nil
  | storage => exact home_storage ..

/-- The events with which something crosses. -/
def Crossing (s : AddonHost) : Event → Prop
  | .message source data now => s.heard (.message source data now) = some .send ∨
      s.heard (.message source data now) = some .sendBin
  | .sessionText _ | .sessionBinary _ _ _ | .deliver _ _ | .deliverBinary _ _ _ => True
  | _ => False

theorem step_home {ev : Event} (h : ¬s.Crossing ev) : Home (s.step ev).2 := by
  cases ev with
  | iframeLoad => exact home_onIframeLoad s
  | contentWindow window => exact .nil
  | message source data now =>
    cases hop : s.heard (.message source data now) with
    | none =>
      rw [step_unheard s hop]
      exact .nil
    | some op =>
      rw [step_heard s hop]
      refine home_handleOp s data now ?_ ?_
      · rintro rfl
        exact h (.inl hop)
      · rintro rfl
        exact h (.inr hop)
  | sessionText json => exact absurd trivial h
  | sessionBinary addon mime bytes => exact absurd trivial h
  | deliver payload from_ => exact absurd trivial h
  | deliverBinary mime bytes from_ => exact absurd trivial h
  | remoteTrack kind track attached =>
    unfold step
    dsimp only
    split
    · exact home_remoteTrack ..
    · exact .nil
  | trackEnded track => exact home_trackEnded ..
  | publishAudioLevel level => exact home_publishAudioLevel ..
  | close => exact home_close s
  | captured i result => exact home_captured ..
  | trackAdded i result => exact home_trackAdded ..
  | senderRemoved i error => exact home_senderRemoved ..
  | closeSenderRemoved => exact home_closeSenderRemoved s
  | storageSettled i outcome => exact home_storageSettled ..
  | sendTextRejected message =>
    unfold step
    dsimp only
    split
    · exact .nil
    · exact .cons rfl .nil
  | sendBinaryRejected message =>
    unfold step
    dsimp only
    split
    · exact .nil
    · exact home_error ..


/-! ## What never changes -/

/-- The terms a host was created on. -/
def terms (s : AddonHost) : AddonManifest × AddonHostOptions := (s.manifest, s.options)

theorem terms_of_vitals {s' : AddonHost} (h : s'.vitals = s.vitals) : s'.terms = s.terms :=
  Prod.ext (congrArg Vitals.manifest h) (congrArg Vitals.options h)

theorem terms_of_calls {s' : AddonHost}
    (h : ∃ calls, s'.vitals = { s.vitals with storageCalls := calls }) : s'.terms = s.terms := by
  obtain ⟨calls, hv⟩ := h
  exact Prod.ext (congrArg Vitals.manifest hv) (congrArg Vitals.options hv)

theorem setState_terms (s : AddonHost) (next : AddonHostState) :
    (s.setState next).1.terms = s.terms := by
  unfold setState
  split <;> rfl

theorem handleReady_terms (s : AddonHost) : s.handleReady.1.terms = s.terms := by
  have hinit : s.ensureInitPosted.1.terms = s.terms := by
    unfold ensureInitPosted
    split
    · exact setState_terms ..
    · rfl
  unfold handleReady
  dsimp only
  split
  · exact (setState_terms ..).trans hinit
  · exact hinit

theorem closeFrom_terms (s : AddonHost) (n : Nat) : (s.closeFrom n).1.terms = s.terms := by
  unfold closeFrom
  split <;> rfl

theorem handleOp_terms (s : AddonHost) (msg : Data) (now : Nat) (op : BridgeOp) :
    (s.handleOp msg now op).1.terms = s.terms := by
  have hplain : ∀ {op : BridgeOp}, Minor op → (s.handleOp msg now op).1.terms = s.terms :=
    fun h => terms_of_vitals (handleOp_plain s msg now h).vitals
  cases op with
  | ready => exact handleReady_terms s
  | mediaReceiveSubscribe kind =>
    simp only [handleOp, handleMediaReceiveSubscribe]
    split
    · rfl
    split
    · rfl
    · cases kind <;> rfl
  | mediaReceiveUnsubscribe kind =>
    simp only [handleOp, handleMediaReceiveUnsubscribe]
    split <;> cases kind <;> rfl
  | storage => exact terms_of_calls (handleStorage_vitals ..)
  | send => exact hplain trivial
  | sendBin => exact hplain trivial
  | audioLevelSubscribe => exact hplain trivial
  | audioLevelUnsubscribe => rfl
  | mediaSendStart kind => exact hplain trivial
  | mediaSendStop kind => exact hplain trivial
  | error => exact hplain trivial

theorem trackEnded_terms (s : AddonHost) (track : Nat) :
    (s.trackEnded track).1.terms = s.terms := by
  unfold trackEnded
  have hfold : ∀ (listeners : List (Nat × MediaKind)) (r : AddonHost × List Out),
      (listeners.foldl (fun r listener =>
        let r' := r.1.remoteTrackEnded listener.2
        (r'.1, r.2 ++ r'.2)) r).1.terms = r.1.terms := by
    intro listeners
    induction listeners with
    | nil => intro r; rfl
    | cons listener listeners ih => intro r; exact ih _
  exact hfold _ _

theorem step_terms (s : AddonHost) (ev : Event) : (s.step ev).1.terms = s.terms := by
  by_cases hroutine : s.Routine ev
  · exact terms_of_vitals (step_plain s hroutine).vitals
  cases ev with
  | message source data now =>
    cases hop : s.heard (.message source data now) with
    | none => rw [step_unheard s hop]
    | some op => rw [step_heard s hop, handleOp_terms]
  | iframeLoad =>
    simp only [step, onIframeLoad]
    split
    · rfl
    · exact setState_terms ..
  | remoteTrack kind track attached =>
    simp only [step, handleRemoteTrack]
    split
    · split
      · rfl
      · split <;> rfl
    · rfl
  | trackEnded track => exact trackEnded_terms ..
  | close =>
    simp only [step, close]
    split
    · rfl
    · exact (closeFrom_terms ..).trans (setState_terms s .closed)
  | closeSenderRemoved =>
    simp only [step, closeSenderRemoved]
    split
    · rfl
    · exact closeFrom_terms ..
  | storageSettled i outcome => exact terms_of_calls (storageSettled_vitals ..)
  | contentWindow window => rfl
  | sessionText json => rfl
  | sessionBinary addon mime bytes => rfl
  | deliver payload from_ => rfl
  | deliverBinary mime bytes from_ => rfl
  | publishAudioLevel level => rfl
  | captured i result => exact absurd trivial hroutine
  | trackAdded i result => exact absurd trivial hroutine
  | senderRemoved i error => exact absurd trivial hroutine
  | sendTextRejected message => exact absurd trivial hroutine
  | sendBinaryRejected message => exact absurd trivial hroutine

/-! ## Texts and payloads -/

theorem Home.texts {outs : List Out} (h : Home outs) : texts outs = [] :=
  List.filterMap_eq_nil_iff.mpr fun o ho => by
    have hcrosses := h.all o ho
    cases o <;> first | rfl | cases hcrosses

theorem Home.payloads {outs : List Out} (h : Home outs) :
    (posts outs).filterMap BridgePost.payload? = [] := by
  refine List.filterMap_eq_nil_iff.mpr fun m hm => ?_
  obtain ⟨o, ho, hpost⟩ := List.mem_filterMap.mp hm
  have hcrosses := h.all o ho
  cases o with
  | post m' =>
    cases hpost
    cases m <;> first | rfl | cases hcrosses
  | _ => cases hpost

theorem texts_post (s : AddonHost) (m : BridgePost) : texts (s.postToIframe m) = [] := by
  unfold postToIframe
  split <;> rfl

/-- The texts of a `send`: at most the envelope around its payload, if there is a peer. -/
theorem handleSend_crosses (h : s.manifest.Valid) (payload : Data) (now : Nat) :
    texts (s.handleSend payload now).2 =
        (if s.grants PEER_SEND && s.options.session.isSome then
          (stringified (s.envelope (newEnvelopeId s.counter now).2 now payload)).toList else []) ∧
      posts (s.handleSend payload now).2 = [] := by
  cases hgrants : s.grants PEER_SEND with
  | false => simp [handleSend, hgrants, texts, posts, Out.text?, Out.posted?]
  | true =>
    cases hsession : s.options.session with
    | none =>
      rw [handleSend_local hgrants hsession]
      exact ⟨rfl, rfl⟩
    | some link =>
      rw [handleSend_peer hgrants h (by rw [hsession]; rfl)]
      cases stringified (s.envelope (newEnvelopeId s.counter now).2 now payload) <;>
        exact ⟨rfl, rfl⟩

theorem handleSendBin_texts (mime bytes : Data) :
    texts (s.handleSendBin mime bytes).2 = [] ∧
      (posts (s.handleSendBin mime bytes).2).filterMap BridgePost.payload? = [] := by
  have herror : ∀ code message, texts (s.postBridgeError code message) = [] ∧
      (posts (s.postBridgeError code message)).filterMap BridgePost.payload? = [] :=
    fun code message => ⟨(home_error s code message).texts, (home_error s code message).payloads⟩
  unfold handleSendBin
  split
  · exact herror ..
  split
  · split
    · exact herror ..
    split
    · exact herror ..
    · exact ⟨rfl, rfl⟩
  · exact herror ..

/-- The host takes what the peer's hosts send. -/
def hears (s : AddonHost) : Bool :=
  s.bound && s.currentState = .active && s.grants PEER_RECEIVE &&
    match s.iframe with
    | some (some _) => true
    | _ => false

/-- What a text of the peer brings the page. -/
theorem sessionText_crosses (s : AddonHost) (json : JsString) :
    texts (s.step (.sessionText json)).2 = [] ∧
    posts (s.step (.sessionText json)).2 =
      if s.hears then ((readBy s.manifest.id json).map fun payload =>
        BridgePost.deliver payload (some s.manifest.id)).toList else [] := by
  simp only [step]
  cases hbound : s.bound with
  | false => simp [hears, hbound, texts, posts]
  | true =>
    rw [if_pos rfl]
    unfold onSessionText readBy
    cases tryParseAddonEnvelope json with
    | none => simp [texts, posts]
    | some envelope =>
      dsimp only
      by_cases hid : envelope.addon = s.manifest.id
      · rw [if_neg (not_not.mpr hid), Option.bind_some, if_pos hid, deliver, hid]
        by_cases hactive : s.currentState = .active
        · cases hgrants : s.grants PEER_RECEIVE with
          | false => simp [hactive, hgrants, hears, settled, texts, posts, Out.text?, Out.posted?]
          | true =>
            have hpost : texts (s.postToIframe (.deliver envelope.payload (some s.manifest.id))) =
                [] := texts_post ..
            rw [if_neg (not_not.mpr hactive), Bool.not_true, if_neg Bool.false_ne_true]
            refine ⟨hpost, ?_⟩
            simp only [hears, hbound, hactive, hgrants, settled, postToIframe]
            split <;> simp_all [posts, Out.posted?]
        · simp [hactive, hears, settled, texts, posts, Out.text?, Out.posted?]
      · rw [if_pos hid, Option.bind_some, if_neg hid]
        simp [texts, posts]

/-- Events that have nothing to do with texts. -/
def Textless : Event → Prop
  | .message _ _ _ | .sessionText _ | .deliver _ _ => False
  | _ => True

theorem settled_binary (report : JsString → Out) (hreport : ∀ message, Home [report message])
    (s : AddonHost) (mime : JsString) (bytes : Bytes) (from_ : Option JsString) :
    texts (settled report (s.deliverBinary mime bytes from_)) = [] ∧
      (posts (settled report (s.deliverBinary mime bytes from_))).filterMap
        BridgePost.payload? = [] := by
  unfold deliverBinary
  split
  · exact ⟨(hreport _).texts, (hreport _).payloads⟩
  split
  · exact ⟨(hreport _).texts, (hreport _).payloads⟩
  · refine ⟨texts_post .., ?_⟩
    simp only [settled, postToIframe]
    split <;> rfl

theorem step_textless {ev : Event} (h : Textless ev) : texts (s.step ev).2 = [] ∧
    (posts (s.step ev).2).filterMap BridgePost.payload? = [] := by
  by_cases hcrossing : s.Crossing ev
  · cases ev with
    | sessionBinary addon mime bytes =>
      simp only [step, onSessionBinary]
      split
      · split
        · exact ⟨rfl, rfl⟩
        split
        · exact ⟨rfl, rfl⟩
        · exact settled_binary _ (fun message => .cons rfl .nil) ..
      · exact ⟨rfl, rfl⟩
    | deliverBinary mime bytes from_ =>
      exact settled_binary _ (fun message => .cons rfl .nil) ..
    | message source data now => exact h.elim
    | sessionText json => exact h.elim
    | deliver payload from_ => exact h.elim
    | _ => exact hcrossing.elim
  · have hhome := step_home hcrossing
    exact ⟨hhome.texts, hhome.payloads⟩

/-- What a message of the page hands to the peer link. -/
theorem message_crosses (h : s.manifest.Valid) (source : Option Window) (data : Data) (now : Nat) :
    texts (s.step (.message source data now)).2 =
        (if s.heard (.message source data now) = some .send ∧ s.grants PEER_SEND = true ∧
            s.options.session.isSome = true then
          (stringified (s.envelope (newEnvelopeId s.counter now).2 now
            (data.get (js "payload")))).toList else []) ∧
      (posts (s.step (.message source data now)).2).filterMap BridgePost.payload? = [] := by
  cases hop : s.heard (.message source data now) with
  | none =>
    rw [step_unheard s hop]
    simp [texts, posts]
  | some op =>
    rw [step_heard s hop]
    by_cases hsend : op = .send
    · subst hsend
      obtain ⟨htexts, hposts⟩ := handleSend_crosses h (data.get (js "payload")) now
      simp only [handleOp]
      rw [htexts, hposts]
      simp
    · by_cases hsendBin : op = .sendBin
      · subst hsendBin
        have hcross := handleSendBin_texts (s := s) (data.get (js "mime")) (data.get (js "bytes"))
        simp only [handleOp]
        rw [hcross.1, hcross.2]
        simp
      · have hhome := home_handleOp s data now hsend hsendBin
        rw [hhome.texts, hhome.payloads]
        simp [hsend]

/-! ## Binary messages -/

theorem Home.binaries {outs : List Out} (h : Home outs) : binaries outs = [] :=
  List.filterMap_eq_nil_iff.mpr fun o ho => by
    have hcrosses := h.all o ho
    cases o <;> first | rfl | cases hcrosses

theorem Home.parcels {outs : List Out} (h : Home outs) : parcels outs = [] := by
  refine List.filterMap_eq_nil_iff.mpr fun m hm => ?_
  obtain ⟨o, ho, hpost⟩ := List.mem_filterMap.mp hm
  have hcrosses := h.all o ho
  cases o with
  | post m' =>
    cases hpost
    cases m <;> first | rfl | cases hcrosses
  | _ => cases hpost

/-- Events that bring no binary message. -/
def Unpacked : Event → Prop
  | .sessionBinary _ _ _ | .deliverBinary _ _ _ => False
  | _ => True

/-- The outputs hand on nothing, or one message of the add-on, and post no binary message. -/
structure Packs (s : AddonHost) (outs : List Out) : Prop where
  sent : binaries outs = [] ∨ ∃ m, binaries outs = [m] ∧ m.addon = s.manifest.id
  posted : parcels outs = []

theorem Home.packs {outs : List Out} (h : Home outs) : Packs s outs := ⟨.inl h.binaries, h.parcels⟩

theorem handleSend_packs (s : AddonHost) (payload : Data) (now : Nat) :
    Packs s (s.handleSend payload now).2 := by
  unfold handleSend
  split
  · exact ⟨.inl rfl, rfl⟩
  split
  · exact ⟨.inl rfl, rfl⟩
  dsimp only
  split <;> exact ⟨.inl rfl, rfl⟩

theorem handleSendBin_packs (s : AddonHost) (mime bytes : Data) :
    Packs s (s.handleSendBin mime bytes).2 := by
  unfold handleSendBin
  split
  · exact (home_error ..).packs
  split
  · split
    · exact (home_error ..).packs
    split
    · exact (home_error ..).packs
    · exact ⟨.inr ⟨_, rfl, rfl⟩, rfl⟩
  · exact (home_error ..).packs

theorem settled_deliver (report : JsString → Out) (hreport : ∀ message, Home [report message])
    (s : AddonHost) (payload : Data) (from_ : Option JsString) :
    Packs s (settled report (s.deliver payload from_)) := by
  unfold deliver
  split
  · exact (hreport _).packs
  split
  · exact (hreport _).packs
  · simp only [settled, postToIframe]
    split <;> exact ⟨.inl rfl, rfl⟩

theorem settled_deliver_binaries (report : JsString → Out)
    (hreport : ∀ message, Home [report message]) (s : AddonHost) (payload : Data)
    (from_ : Option JsString) : binaries (settled report (s.deliver payload from_)) = [] := by
  unfold deliver
  split
  · exact (hreport _).binaries
  split
  · exact (hreport _).binaries
  · simp only [settled, postToIframe]
    split <;> rfl

/-- A step hands on at most one binary message, with the id of its add-on. -/
theorem step_packs {ev : Event} (h : Unpacked ev) : Packs s (s.step ev).2 := by
  by_cases hcrossing : s.Crossing ev
  · cases ev with
    | message source data now =>
      obtain hop | hop := hcrossing
      · rw [step_heard s hop]
        exact handleSend_packs ..
      · rw [step_heard s hop]
        exact handleSendBin_packs ..
    | sessionText json =>
      simp only [step, onSessionText]
      split
      · split
        · exact ⟨.inl rfl, rfl⟩
        split
        · exact ⟨.inl rfl, rfl⟩
        · exact settled_deliver _ (fun message => .cons rfl .nil) ..
      · exact ⟨.inl rfl, rfl⟩
    | deliver payload from_ => exact settled_deliver _ (fun message => .cons rfl .nil) ..
    | sessionBinary addon mime bytes => exact h.elim
    | deliverBinary mime bytes from_ => exact h.elim
    | _ => exact hcrossing.elim
  · exact (step_home hcrossing).packs

/-- The type and the bytes in a message of the page. -/
def parcelIn (data : Data) : Option (JsString × Bytes) := do
  let mime ← (data.get (js "mime")).str?
  let bytes ← (data.get (js "bytes")).bytes?
  return (mime, bytes)

theorem handleSendBin_binaries (data : Data) :
    binaries (s.handleSendBin (data.get (js "mime")) (data.get (js "bytes"))).2 = [] ∨
      ∃ m, parcelIn data = some m ∧
        binaries (s.handleSendBin (data.get (js "mime")) (data.get (js "bytes"))).2 =
          [⟨s.manifest.id, m.1, m.2⟩] := by
  unfold handleSendBin
  split
  · exact .inl (home_error ..).binaries
  split
  · next mime bytes hmime hbytes =>
    split
    · exact .inl (home_error ..).binaries
    split
    · exact .inl (home_error ..).binaries
    · exact .inr ⟨(mime, bytes), by simp [parcelIn, hmime, hbytes], rfl⟩
  · exact .inl (home_error ..).binaries

/-- Only a `send-bin` of the page hands on a binary message. -/
theorem step_binaries {ev : Event} (h : Unpacked ev) (hop : s.heard ev ≠ some .sendBin) :
    binaries (s.step ev).2 = [] := by
  by_cases hcrossing : s.Crossing ev
  · cases ev with
    | message source data now =>
      obtain hsend | hsendBin := hcrossing
      · rw [step_heard s hsend]
        simp only [handleOp, handleSend]
        split
        · rfl
        split
        · rfl
        split <;> rfl
      · exact absurd hsendBin hop
    | sessionText json =>
      simp only [step, onSessionText]
      split
      · split
        · rfl
        split
        · rfl
        · exact settled_deliver_binaries _ (fun message => .cons rfl .nil) ..
      · rfl
    | deliver payload from_ => exact settled_deliver_binaries _ (fun message => .cons rfl .nil) ..
    | sessionBinary addon mime bytes => exact h.elim
    | deliverBinary mime bytes from_ => exact h.elim
    | _ => exact hcrossing.elim
  · exact (step_home hcrossing).binaries

/-- A message of the page hands on what is in it, if anything. -/
theorem message_binaries (source : Option Window) (data : Data) (now : Nat) :
    binaries (s.step (.message source data now)).2 = [] ∨ ∃ m, parcelIn data = some m ∧
      binaries (s.step (.message source data now)).2 = [⟨s.manifest.id, m.1, m.2⟩] := by
  by_cases hop : s.heard (.message source data now) = some .sendBin
  · rw [step_heard s hop]
    exact handleSendBin_binaries data
  · exact .inl (step_binaries trivial hop)

/-- The host takes binary messages of the peer's hosts. -/
def hearsBinary (s : AddonHost) : Bool :=
  s.bound && s.currentState = .active && s.grants PEER_RECEIVE_BIN &&
    match s.iframe with
    | some (some _) => true
    | _ => false

/-- What a binary message of the peer brings the page. -/
theorem sessionBinary_parcels (s : AddonHost) (m : BinaryMessage) :
    parcels (s.step (.sessionBinary m.addon m.mime m.bytes)).2 =
      if m.addon = s.manifest.id ∧ s.hearsBinary = true then [(m.mime, m.bytes)] else [] := by
  simp only [step, onSessionBinary]
  by_cases hbound : s.bound = true
  · rw [if_pos hbound]
    by_cases hid : m.addon = s.manifest.id
    · rw [if_neg (not_not.mpr hid)]
      by_cases hgrants : s.grants PEER_RECEIVE_BIN = true
      · rw [hgrants, Bool.not_true, if_neg Bool.false_ne_true, deliverBinary]
        by_cases hactive : s.currentState = .active
        · rw [if_neg (not_not.mpr hactive), hgrants, Bool.not_true, if_neg Bool.false_ne_true]
          simp only [hearsBinary, hbound, hactive, hgrants, settled, postToIframe]
          split <;> simp_all [parcels, posts, Out.posted?, BridgePost.parcel?]
        · simp [hactive, hearsBinary, settled, parcels, posts, Out.posted?]
      · simp [hgrants, hearsBinary, parcels, posts]
    · simp [hid, parcels, posts]
  · simp [hbound, hearsBinary, parcels, posts]

end AddonHost

end Senn.Addon
