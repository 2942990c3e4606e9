import Senn.Addon.Effects

/-! # The life of a host

A host moves on from one state to the next and ends in `closed`. Once it is closed it
hears no window and no peer link, and when its first `close` has returned the iframe and
all sinks are gone. -/

namespace Senn.Addon
open Senn.Js Senn.Lib Senn.Protocol

def Vitals.receives (v : Vitals) : MediaKind → Bool
  | .audio => v.mediaReceiveAudio
  | .video => v.mediaReceiveVideo

/-- How the parts of a host fit together. -/
structure Vitals.Coherent (v : Vitals) : Prop where
  deaf : v.currentState = .closed → v.listening = false ∧ v.bound = false
  closing : v.closing ≠ none → v.currentState = .closed
  gone : v.currentState = .closed → v.closing = none →
    v.iframe = none ∧ (∀ kind, v.receives kind = false) ∧ v.mediaSinkDetachers = .empty
  subscribed : ∀ kind detach, v.mediaSinkDetachers.get kind = some detach → v.receives kind = true

theorem Vitals.Coherent.of_calls {v : Vitals} (h : v.Coherent)
    (calls : List (JsString × StorageCall)) : ({ v with storageCalls := calls }).Coherent :=
  ⟨h.deaf, h.closing, h.gone, h.subscribed⟩

namespace AddonHost

variable {s : AddonHost}

theorem vitals_receives (s : AddonHost) (kind : MediaKind) :
    s.vitals.receives kind = s.receives kind := by
  cases kind <;> rfl

theorem heard_listening {ev : Event} {op : BridgeOp} (h : s.heard ev = some op) :
    s.listening = true := by
  cases ev with
  | message source data now =>
    simp only [heard] at h
    split at h
    · next hheard => exact hheard.1
    · cases h
  | _ => cases h

/-- What an open host does to its state. -/
theorem coherent_opened (h : s.vitals.Coherent) (hopen : s.currentState ≠ .closed)
    (next : AddonHostState) (hnext : next ≠ .closed) :
    ({ s with currentState := next }).vitals.Coherent where
  deaf hclosed := absurd hclosed hnext
  closing hc := absurd (h.closing hc) hopen
  gone hclosed := absurd hclosed hnext
  subscribed := h.subscribed

theorem coherent_setState (h : s.vitals.Coherent) (hopen : s.currentState ≠ .closed)
    (next : AddonHostState) (hnext : next ≠ .closed) : (s.setState next).1.vitals.Coherent := by
  unfold setState
  split
  · exact h
  · exact coherent_opened h hopen next hnext

theorem coherent_onIframeLoad (h : s.vitals.Coherent) : s.onIframeLoad.1.vitals.Coherent := by
  unfold onIframeLoad
  split
  · exact h
  · next hmounted =>
    exact coherent_setState h (by rw [not_not.mp hmounted]; decide) .initialized (by decide)

theorem coherent_handleReady (h : s.vitals.Coherent) : s.handleReady.1.vitals.Coherent := by
  have hinit : s.ensureInitPosted.1.vitals.Coherent := by
    unfold ensureInitPosted
    split
    · next hmounted =>
      exact coherent_setState h (by rw [hmounted]; decide) .initialized (by decide)
    · exact h
  unfold handleReady
  dsimp only
  split
  · next hinitialized =>
    exact coherent_setState hinit (by rw [hinitialized]; decide) .active (by decide)
  · exact hinit

theorem coherent_handleMediaReceiveSubscribe (h : s.vitals.Coherent)
    (hlistening : s.listening = true) (kind : MediaKind) :
    (s.handleMediaReceiveSubscribe kind).1.vitals.Coherent := by
  have hopen : s.currentState ≠ .closed := by
    intro hclosed
    have hdeaf : s.listening = false := (h.deaf hclosed).1
    simp [hdeaf] at hlistening
  have hon : (s.setReceive kind true).vitals.Coherent := by
    have hreceives : ∀ k, s.vitals.receives k = true →
        (s.setReceive kind true).vitals.receives k = true := by
      intro k hk
      cases kind <;> cases k <;> first | rfl | exact hk
    cases kind
    · exact ⟨h.deaf, h.closing, fun hclosed => absurd hclosed hopen,
        fun k d hd => hreceives k (h.subscribed k d hd)⟩
    · exact ⟨h.deaf, h.closing, fun hclosed => absurd hclosed hopen,
        fun k d hd => hreceives k (h.subscribed k d hd)⟩
  unfold handleMediaReceiveSubscribe
  split
  · exact h
  · split
    · exact h
    · exact hon

theorem coherent_handleMediaReceiveUnsubscribe (h : s.vitals.Coherent)
    (hlistening : s.listening = true) (kind : MediaKind) :
    (s.handleMediaReceiveUnsubscribe kind).1.vitals.Coherent := by
  have hopen : s.currentState ≠ .closed := by
    intro hclosed
    have hdeaf : s.listening = false := (h.deaf hclosed).1
    simp [hdeaf] at hlistening
  have hsame : (s.setReceive kind false).mediaSinkDetachers = s.mediaSinkDetachers := by
    cases kind <;> rfl
  have hother : ∀ k, k ≠ kind → (s.setReceive kind false).vitals.receives k =
      s.vitals.receives k := by
    intro k hk
    cases kind <;> cases k <;> first | rfl | exact absurd rfl hk
  -- without the kind's sink, the other one is still subscribed to
  have hrest : ∀ m : InsMap MediaKind Nat, m.get kind = none →
      (∀ k d, m.get k = some d → s.mediaSinkDetachers.get k = some d) →
      ({ s.setReceive kind false with mediaSinkDetachers := m }).vitals.Coherent := by
    intro m hnone hm
    have hsub : ∀ k d, m.get k = some d →
        (s.setReceive kind false).vitals.receives k = true := by
      intro k d hd
      have hk : k ≠ kind := by
        rintro rfl
        rw [hnone] at hd
        cases hd
      rw [hother k hk]
      exact h.subscribed k d (hm k d hd)
    cases kind <;> exact ⟨h.deaf, h.closing, fun hclosed => absurd hclosed hopen, hsub⟩
  unfold handleMediaReceiveUnsubscribe
  dsimp only
  rw [hsame]
  split
  · next hnone =>
    have hkept := hrest s.mediaSinkDetachers hnone fun k d hd => hd
    cases kind <;> exact hkept
  · exact hrest _ (InsMap.get_delete_self ..) fun k d hd => by
      rw [InsMap.get_delete] at hd
      split at hd
      · cases hd
      · exact hd

theorem coherent_handleRemoteTrack (h : s.vitals.Coherent) (hbound : s.bound = true)
    (kind : MediaKind) (track : Nat) (attached : Except JsString Nat) :
    (s.handleRemoteTrack kind track attached).1.vitals.Coherent := by
  have hopen : s.currentState ≠ .closed := by
    intro hclosed
    have hdeaf : s.bound = false := (h.deaf hclosed).2
    simp [hdeaf] at hbound
  unfold handleRemoteTrack
  split
  · exact h
  · next hskip =>
    cases attached with
    | error message => exact h
    | ok detach =>
      refine ⟨h.deaf, h.closing, fun hclosed => absurd hclosed hopen, fun k d hd => ?_⟩
      simp only [vitals, InsMap.get_set] at hd
      split at hd
      · next hk =>
        simp only [Bool.or_eq_true, Bool.not_eq_true', not_or, Bool.not_eq_false] at hskip
        rw [hk]
        exact (vitals_receives s kind).trans hskip.1
      · exact h.subscribed k d hd

theorem coherent_remoteTrackEnded (h : s.vitals.Coherent) (kind : MediaKind) :
    (s.remoteTrackEnded kind).1.vitals.Coherent := by
  have hget : ∀ k d, (s.mediaSinkDetachers.delete kind).get k = some d →
      s.mediaSinkDetachers.get k = some d := by
    intro k d hd
    rw [InsMap.get_delete] at hd
    split at hd
    · cases hd
    · exact hd
  refine ⟨h.deaf, h.closing, fun hclosed hdone => ?_, fun k d hd => h.subscribed k d (hget k d hd)⟩
  obtain ⟨hframe, hreceives, hempty⟩ := h.gone hclosed hdone
  refine ⟨hframe, hreceives, ?_⟩
  have hsinks : s.mediaSinkDetachers = .empty := hempty
  simp only [remoteTrackEnded, vitals, hsinks]
  rfl

theorem coherent_trackEnded (h : s.vitals.Coherent) (track : Nat) :
    (s.trackEnded track).1.vitals.Coherent := by
  unfold trackEnded
  exact List.foldlRecOn (motive := fun (r : AddonHost × List Out) => r.1.vitals.Coherent) _ _ h
    fun r hr listener _ => coherent_remoteTrackEnded hr listener.2

theorem coherent_closeFrom (hclosed : s.currentState = .closed) (hlistening : s.listening = false)
    (hbound : s.bound = false)
    (hsub : ∀ kind d, s.mediaSinkDetachers.get kind = some d → s.receives kind = true) (n : Nat) :
    (s.closeFrom n).1.vitals.Coherent := by
  unfold closeFrom
  split
  · refine ⟨fun _ => ⟨hlistening, hbound⟩, fun _ => hclosed, fun _ hdone => ?_, fun k d hd => ?_⟩
    · cases hdone
    · exact (vitals_receives s k).trans (hsub k d hd)
  · refine ⟨fun _ => ⟨hlistening, hbound⟩, fun _ => hclosed, fun _ _ => ⟨rfl, ?_, rfl⟩, ?_⟩
    · intro kind
      cases kind <;> rfl
    · intro kind d hd
      cases hd

theorem coherent_close (h : s.vitals.Coherent) : s.close.1.vitals.Coherent := by
  have hsub : ∀ kind d, s.mediaSinkDetachers.get kind = some d → s.receives kind = true :=
    fun kind d hd => (vitals_receives s kind).symm.trans (h.subscribed kind d hd)
  unfold close
  split
  · exact h
  · next hopen =>
    simp only [setState, if_neg hopen]
    refine coherent_closeFrom rfl rfl rfl (fun kind d hd => ?_) 0
    have hk := hsub kind d hd
    cases kind <;> exact hk

theorem coherent_closeSenderRemoved (h : s.vitals.Coherent) :
    s.closeSenderRemoved.1.vitals.Coherent := by
  unfold closeSenderRemoved
  split
  · exact h
  · next n sender hclosing =>
    have hclosed : s.currentState = .closed := h.closing (by simp [vitals, hclosing])
    obtain ⟨hlistening, hbound⟩ := h.deaf hclosed
    have hsub : ∀ kind d, s.mediaSinkDetachers.get kind = some d → s.receives kind = true :=
      fun kind d hd => (vitals_receives s kind).symm.trans (h.subscribed kind d hd)
    refine coherent_closeFrom (s := { s with stopped := sender.track :: s.stopped }) hclosed
      hlistening hbound (fun kind d hd => ?_) (n + 1)
    have hk := hsub kind d hd
    cases kind <;> exact hk

theorem coherent_handleOp (h : s.vitals.Coherent) (hlistening : s.listening = true) (msg : Data)
    (now : Nat) (op : BridgeOp) : (s.handleOp msg now op).1.vitals.Coherent := by
  by_cases hminor : Minor op
  · exact (handleOp_plain s msg now hminor).vitals ▸ h
  · cases op with
    | ready => exact coherent_handleReady h
    | mediaReceiveSubscribe kind => exact coherent_handleMediaReceiveSubscribe h hlistening kind
    | mediaReceiveUnsubscribe kind =>
      exact coherent_handleMediaReceiveUnsubscribe h hlistening kind
    | storage =>
      obtain ⟨calls, hw⟩ := s.handleStorage_vitals (msg.get (js "rid")) (msg.get (js "storage"))
        (msg.get (js "key")) (msg.get (js "value"))
      exact hw ▸ h.of_calls calls
    | _ => exact absurd trivial hminor

/-- Every step leaves a host coherent. -/
theorem step_coherent (h : s.vitals.Coherent) (ev : Event) : (s.step ev).1.vitals.Coherent := by
  cases ev with
  | iframeLoad => exact coherent_onIframeLoad h
  | contentWindow window =>
    refine ⟨h.deaf, h.closing, fun hclosed hdone => ?_, h.subscribed⟩
    obtain ⟨hframe, hrest⟩ := h.gone hclosed hdone
    have hframe : s.iframe = none := hframe
    exact ⟨by simp [step, vitals, hframe], hrest⟩
  | message source data now =>
    cases hop : s.heard (.message source data now) with
    | none => exact step_unheard s hop ▸ h
    | some op => exact step_heard s hop ▸ coherent_handleOp h (heard_listening hop) data now op
  | remoteTrack kind track attached =>
    simp only [step]
    split
    · next hbound => exact coherent_handleRemoteTrack h hbound kind track attached
    · exact h
  | trackEnded track => exact coherent_trackEnded h track
  | close => exact coherent_close h
  | closeSenderRemoved => exact coherent_closeSenderRemoved h
  | storageSettled i outcome =>
    obtain ⟨calls, hw⟩ := s.storageSettled_vitals i outcome
    exact hw ▸ h.of_calls calls
  | sessionText _ | sessionBinary _ _ _ | deliver _ _ | deliverBinary _ _ _
  | publishAudioLevel _ => exact h
  | captured i result => exact (captured_plain s i result).vitals ▸ h
  | trackAdded i result => exact (trackAdded_plain s i result).vitals ▸ h
  | senderRemoved i error => exact (senderRemoved_plain s i error).vitals ▸ h
  | sendTextRejected message =>
    have hplain : s.Routine (.sendTextRejected message) := trivial
    exact (s.step_plain hplain).vitals ▸ h
  | sendBinaryRejected message =>
    have hplain : s.Routine (.sendBinaryRejected message) := trivial
    exact (s.step_plain hplain).vitals ▸ h

end AddonHost

/-! ## States and posts -/

/-- The state that may follow another one. -/
def AddonHostState.Next : AddonHostState → AddonHostState → Prop
  | .created, .mounted | .mounted, .initialized | .initialized, .active => True
  | s, .closed => s ≠ .closed
  | _, _ => False

/-- The states lead, one after the other, from the first state to the last. -/
def Moves : AddonHostState → List AddonHostState → AddonHostState → Prop
  | a, [], b => a = b
  | a, c :: cs, b => a.Next c ∧ Moves c cs b

theorem Moves.append {b c : AddonHostState} {cs : List AddonHostState} :
    ∀ {as : List AddonHostState} {a : AddonHostState}, Moves a as b → Moves b cs c →
      Moves a (as ++ cs) c
  | [], _, h, h' => h ▸ h'
  | _ :: _, _, h, h' => ⟨h.1, Moves.append h.2 h'⟩

/-- The state an output reports. -/
def Out.state? : Out → Option AddonHostState
  | .state s => some s
  | _ => none

def Out.isInit : Out → Bool
  | .post (.init _ _ _) => true
  | _ => false

/-- The output posts a `deliver`, a `deliver-bin` or an `audio.level`. -/
def Out.Delivery : Out → Prop
  | .post (.deliver _ _) | .post (.deliverBin _ _ _) | .post (.audioLevel _) => True
  | _ => False

/-- The output is of no account to the life of a host. -/
def Out.Idle : Out → Prop
  | .state _ | .post (.init _ _ _) | .post (.deliver _ _) | .post (.deliverBin _ _ _)
  | .post (.audioLevel _) => False
  | _ => True

theorem Out.Idle.spec {o : Out} (h : o.Idle) :
    o.state? = none ∧ o.isInit = false ∧ ¬o.Delivery := by
  cases o with
  | state => exact h.elim
  | post m => cases m <;> first | exact ⟨rfl, rfl, fun hd => hd⟩ | exact h.elim
  | _ => exact ⟨rfl, rfl, fun hd => hd⟩

theorem Out.Minor.idle {o : Out} (h : o.Minor) : o.Idle := by
  cases o with
  | post m => cases m <;> trivial
  | state => exact h.elim
  | _ => trivial

theorem Out.Delivery.spec {o : Out} (h : o.Delivery) : o.state? = none ∧ o.isInit = false := by
  cases o with
  | post m => cases m <;> first | exact ⟨rfl, rfl⟩ | exact h.elim
  | _ => exact h.elim

namespace AddonHost

/-- What is put out without a change of the host: deliveries by an active one only. -/
structure Delivers (s : AddonHost) (outs : List Out) : Prop where
  all : ∀ o ∈ outs, o.Minor ∨ (o.Delivery ∧ s.currentState = .active)

/-- The state stays, and nothing of account to it is put out. -/
structure Still (s : AddonHost) (r : AddonHost × List Out) : Prop where
  state : r.1.currentState = s.currentState
  idle : ∀ o ∈ r.2, o.Idle

/-- What a step does to the state: nothing, or one of the moves with its outputs. -/
inductive Life (s : AddonHost) : AddonHost × List Out → Prop
  | delivered {r : AddonHost × List Out} : r.1 = s → Delivers s r.2 → Life s r
  | still {r : AddonHost × List Out} : Still s r → Life s r
  | initialized {r : AddonHost × List Out} : s.currentState = .mounted →
      r = ({ s with currentState := .initialized },
        .state .initialized :: s.postToIframe s.initMessage) → Life s r
  | readied {r : AddonHost × List Out} : s.currentState = .mounted →
      r = ({ s with currentState := .active },
        .state .initialized :: s.postToIframe s.initMessage ++ [.state .active]) → Life s r
  | activated {r : AddonHost × List Out} : s.currentState = .initialized →
      r = ({ s with currentState := .active }, [.state .active]) → Life s r
  | closed {r : AddonHost × List Out} {outs : List Out} : s.currentState ≠ .closed →
      r.1.currentState = .closed → r.2 = .state .closed :: outs → (∀ o ∈ outs, o.Idle) → Life s r

variable {s : AddonHost}

theorem Still.refl (s : AddonHost) : Still s (s, []) := ⟨rfl, by simp⟩

theorem Plain.still {r : AddonHost × List Out} (h : Plain s r) : Still s r := by
  have hstate : r.1.currentState = s.currentState := congrArg Vitals.currentState h.vitals
  exact ⟨hstate, fun o ho => (h.minor o ho).idle⟩

theorem onIframeLoad_life (s : AddonHost) : Life s s.onIframeLoad := by
  unfold onIframeLoad
  split
  · exact .still (.refl s)
  · next hmounted =>
    have hmounted := not_not.mp hmounted
    refine .initialized hmounted ?_
    simp [setState, hmounted, postToIframe, initMessage]

theorem handleReady_life (s : AddonHost) : Life s s.handleReady := by
  unfold handleReady ensureInitPosted
  by_cases hmounted : s.currentState = .mounted
  · refine .readied hmounted ?_
    simp [hmounted, setState, postToIframe, initMessage]
  · by_cases hinitialized : s.currentState = .initialized
    · refine .activated hinitialized ?_
      simp [hinitialized, setState]
    · refine .still ⟨?_, ?_⟩ <;> simp [hmounted, hinitialized]

theorem post_idle {msg : BridgePost} (h : Out.Idle (.post msg)) :
    ∀ o ∈ s.postToIframe msg, o.Idle := by
  unfold postToIframe
  split
  · simpa using h
  · simp

theorem handleMediaReceiveSubscribe_still (s : AddonHost) (kind : MediaKind) :
    Still s (s.handleMediaReceiveSubscribe kind) := by
  unfold handleMediaReceiveSubscribe
  split
  · exact ⟨rfl, post_idle trivial⟩
  · split
    · exact ⟨rfl, post_idle trivial⟩
    · exact ⟨by cases kind <;> rfl, by simp⟩

theorem handleMediaReceiveUnsubscribe_still (s : AddonHost) (kind : MediaKind) :
    Still s (s.handleMediaReceiveUnsubscribe kind) := by
  unfold handleMediaReceiveUnsubscribe
  dsimp only
  split
  · exact ⟨by cases kind <;> rfl, by simp⟩
  · refine ⟨by cases kind <;> rfl, ?_⟩
    simp [Out.Idle]

theorem handleStorage_still (s : AddonHost) (rid op key value : Data) :
    Still s (s.handleStorage rid op key value) := by
  unfold handleStorage
  split
  · exact .refl s
  · dsimp only
    split
    · exact .refl s
    split
    · exact ⟨rfl, post_idle trivial⟩
    split
    · exact ⟨rfl, post_idle trivial⟩
    split
    · exact ⟨rfl, post_idle trivial⟩
    split
    · exact ⟨rfl, post_idle trivial⟩
    split
    · exact ⟨rfl, post_idle trivial⟩
    · refine ⟨rfl, ?_⟩
      simp [Out.Idle]

theorem storageSettled_still (s : AddonHost) (i : Nat) (outcome : StorageOutcome) :
    Still s (s.storageSettled i outcome) := by
  unfold storageSettled
  split
  · exact .refl s
  · cases outcome with
    | ok value => exact ⟨rfl, post_idle trivial⟩
    | storageError code => exact ⟨rfl, post_idle trivial⟩
    | failed message =>
      refine ⟨rfl, List.forall_mem_append.mpr ⟨post_idle trivial, ?_⟩⟩
      simp [Out.Idle]

theorem handleRemoteTrack_still (s : AddonHost) (kind : MediaKind) (track : Nat)
    (attached : Except JsString Nat) : Still s (s.handleRemoteTrack kind track attached) := by
  unfold handleRemoteTrack
  split
  · exact .refl s
  · cases attached with
    | error message =>
      refine ⟨rfl, ?_⟩
      simp [Out.Idle]
    | ok detach =>
      refine ⟨rfl, List.forall_mem_cons.mpr ⟨trivial, List.forall_mem_append.mpr
        ⟨?_, post_idle trivial⟩⟩⟩
      cases s.mediaSinkDetachers.get kind with
      | none => simp
      | some d => simp [Out.Idle]

theorem trackEnded_still (s : AddonHost) (track : Nat) : Still s (s.trackEnded track) := by
  have hfold : (s.trackEnded track).1.currentState = s.currentState ∧
      ∀ o ∈ (s.trackEnded track).2, o.Idle := by
    unfold trackEnded
    refine List.foldlRecOn (motive := fun (r : AddonHost × List Out) =>
      r.1.currentState = s.currentState ∧ ∀ o ∈ r.2, o.Idle) _ _ ⟨rfl, by simp⟩ fun r hr l _ => ?_
    exact ⟨hr.1, List.forall_mem_append.mpr ⟨hr.2, post_idle trivial⟩⟩
  exact ⟨hfold.1, hfold.2⟩

theorem closeFrom_idle (s : AddonHost) (n : Nat) :
    (s.closeFrom n).1.currentState = s.currentState ∧ ∀ o ∈ (s.closeFrom n).2, o.Idle := by
  unfold closeFrom
  split
  · exact ⟨rfl, by simp [Out.Idle]⟩
  · refine ⟨rfl, fun o ho => ?_⟩
    obtain ⟨e, _, rfl⟩ := List.mem_map.mp ho
    trivial

theorem close_life (s : AddonHost) : Life s s.close := by
  unfold close
  split
  · exact .still (.refl s)
  · next hopen =>
    simp only [setState, if_neg hopen]
    have hloop := closeFrom_idle { s with
      currentState := .closed, listening := false, bound := false
      audioLevelSubscribed := false } 0
    exact .closed hopen hloop.1 rfl hloop.2

theorem closeSenderRemoved_still (s : AddonHost) : Still s s.closeSenderRemoved := by
  unfold closeSenderRemoved
  split
  · exact .refl s
  · next n sender _ =>
    have hloop := closeFrom_idle { s with stopped := sender.track :: s.stopped } (n + 1)
    exact ⟨hloop.1, List.forall_mem_cons.mpr ⟨trivial, hloop.2⟩⟩

/-! ## Deliveries -/

theorem Delivers.nil (s : AddonHost) : Delivers s [] := ⟨by simp⟩

theorem Delivers.post (hactive : s.currentState = .active) {msg : BridgePost}
    (h : Out.Delivery (.post msg)) : Delivers s (s.postToIframe msg) := by
  refine ⟨fun o ho => .inr ⟨?_, hactive⟩⟩
  unfold postToIframe at ho
  split at ho
  · exact List.mem_singleton.mp ho ▸ h
  · cases ho

theorem Delivers.settled {report : JsString → Out} {r : Except JsString (List Out)}
    (hreport : ∀ message, (report message).Minor) (hr : ∀ outs, r = .ok outs → Delivers s outs) :
    Delivers s (settled report r) := by
  cases r with
  | ok outs => exact hr outs rfl
  | error message => exact ⟨fun o ho => .inl (List.mem_singleton.mp ho ▸ hreport message)⟩

theorem deliver_delivers (payload : Data) (from_ : Option JsString) :
    ∀ outs, s.deliver payload from_ = .ok outs → Delivers s outs := by
  intro outs h
  unfold deliver at h
  split at h
  · cases h
  · next hactive =>
    split at h
    · cases h
    · obtain rfl := Except.ok.inj h
      exact .post (not_not.mp hactive) trivial

theorem deliverBinary_delivers (mime : JsString) (bytes : Bytes) (from_ : Option JsString) :
    ∀ outs, s.deliverBinary mime bytes from_ = .ok outs → Delivers s outs := by
  intro outs h
  unfold deliverBinary at h
  split at h
  · cases h
  · next hactive =>
    split at h
    · cases h
    · obtain rfl := Except.ok.inj h
      exact .post (not_not.mp hactive) trivial

theorem onSessionText_active (s : AddonHost) (json : JsString) :
    Delivers s (s.onSessionText json) := by
  unfold onSessionText
  split
  · exact .nil s
  · split
    · exact .nil s
    · exact .settled (fun _ => trivial) (deliver_delivers _ _)

theorem onSessionBinary_active (s : AddonHost) (addon mime : JsString) (bytes : Bytes) :
    Delivers s (s.onSessionBinary addon mime bytes) := by
  unfold onSessionBinary
  split
  · exact .nil s
  · split
    · exact .nil s
    · exact .settled (fun _ => trivial) (deliverBinary_delivers _ _ _)

theorem publishAudioLevel_active (s : AddonHost) (level : Number) :
    Delivers s (s.publishAudioLevel level) := by
  unfold publishAudioLevel
  split
  · exact .nil s
  · split
    · exact .nil s
    · next hactive =>
      split
      · exact .post (not_not.mp hactive) trivial
      · exact .nil s

/-- The events that deliver. -/
def OnDelivery : Event → Prop
  | .sessionText _ | .sessionBinary _ _ _ | .deliver _ _ | .deliverBinary _ _ _
  | .publishAudioLevel _ => True
  | _ => False

theorem step_delivers {ev : Event} (hev : OnDelivery ev) :
    (s.step ev).1 = s ∧ Delivers s (s.step ev).2 := by
  cases ev with
  | sessionText json =>
    refine ⟨rfl, ?_⟩
    simp only [step]
    split
    · exact onSessionText_active s json
    · exact .nil s
  | sessionBinary addon mime bytes =>
    refine ⟨rfl, ?_⟩
    simp only [step]
    split
    · exact onSessionBinary_active s addon mime bytes
    · exact .nil s
  | deliver payload from_ =>
    exact ⟨rfl, .settled (fun _ => trivial) (deliver_delivers _ _)⟩
  | deliverBinary mime bytes from_ =>
    exact ⟨rfl, .settled (fun _ => trivial) (deliverBinary_delivers _ _ _)⟩
  | publishAudioLevel level => exact ⟨rfl, publishAudioLevel_active s level⟩
  | _ => exact hev.elim

theorem handleOp_still (s : AddonHost) (msg : Data) (now : Nat) {op : BridgeOp}
    (h : op ≠ .ready) : Still s (s.handleOp msg now op) := by
  by_cases hminor : Minor op
  · exact (handleOp_plain s msg now hminor).still
  · cases op with
    | ready => exact absurd rfl h
    | mediaReceiveSubscribe kind => exact handleMediaReceiveSubscribe_still s kind
    | mediaReceiveUnsubscribe kind => exact handleMediaReceiveUnsubscribe_still s kind
    | storage => exact handleStorage_still ..
    | _ => exact absurd trivial hminor

/-- The events that may move a host on. -/
def Moving (s : AddonHost) : Event → Prop
  | .iframeLoad | .close => True
  | .message source data now => s.heard (.message source data now) = some .ready
  | _ => False

theorem step_still {ev : Event} (hdelivery : ¬OnDelivery ev) (hmoving : ¬s.Moving ev) :
    Still s (s.step ev) := by
  cases ev with
  | contentWindow window => exact ⟨rfl, by simp [step]⟩
  | message source data now =>
    cases hop : s.heard (.message source data now) with
    | none => exact step_unheard s hop ▸ .refl s
    | some op =>
      have hready : op ≠ .ready := by
        rintro rfl
        exact hmoving hop
      exact step_heard s hop ▸ handleOp_still s data now hready
  | remoteTrack kind track attached =>
    simp only [step]
    split
    · exact handleRemoteTrack_still s kind track attached
    · exact .refl s
  | trackEnded track => exact trackEnded_still s track
  | closeSenderRemoved => exact closeSenderRemoved_still s
  | storageSettled i outcome => exact storageSettled_still s i outcome
  | captured i result => exact (captured_plain s i result).still
  | trackAdded i result => exact (trackAdded_plain s i result).still
  | senderRemoved i error => exact (senderRemoved_plain s i error).still
  | sendTextRejected message =>
    have hplain : s.Routine (.sendTextRejected message) := trivial
    exact (s.step_plain hplain).still
  | sendBinaryRejected message =>
    have hplain : s.Routine (.sendBinaryRejected message) := trivial
    exact (s.step_plain hplain).still
  | iframeLoad | close => exact absurd trivial hmoving
  | _ => exact absurd trivial hdelivery

theorem step_life (s : AddonHost) (ev : Event) : Life s (s.step ev) := by
  by_cases hdelivery : OnDelivery ev
  · obtain ⟨hsame, hdelivers⟩ := step_delivers (s := s) hdelivery
    exact .delivered hsame hdelivers
  · by_cases hmoving : s.Moving ev
    · cases ev with
      | iframeLoad => exact onIframeLoad_life s
      | close => exact close_life s
      | message source data now => exact step_heard s hmoving ▸ handleReady_life s
      | _ => exact hmoving.elim
    · exact .still (step_still hdelivery hmoving)

/-! ## Over a run -/

theorem filterMap_state {outs : List Out} (h : ∀ o ∈ outs, o.state? = none) :
    outs.filterMap Out.state? = [] := List.filterMap_eq_nil_iff.mpr h

theorem post_state (s : AddonHost) (msg : BridgePost) :
    (s.postToIframe msg).filterMap Out.state? = [] := by
  unfold postToIframe
  split <;> rfl

theorem Delivers.state {outs : List Out} (h : Delivers s outs) : ∀ o ∈ outs, o.state? = none := by
  intro o ho
  rcases h.all o ho with hminor | ⟨hdelivery, _⟩
  · exact hminor.idle.spec.1
  · exact hdelivery.spec.1

theorem Life.moves {r : AddonHost × List Out} (h : Life s r) :
    Moves s.currentState (r.2.filterMap Out.state?) r.1.currentState := by
  cases h with
  | delivered hsame hdelivers =>
    rw [hsame, filterMap_state hdelivers.state]
    rfl
  | still hstill =>
    rw [hstill.state, filterMap_state fun o ho => (hstill.idle o ho).spec.1]
    rfl
  | initialized hmounted heq =>
    simp [heq, hmounted, Out.state?, post_state, Moves, AddonHostState.Next]
  | readied hmounted heq =>
    simp [heq, hmounted, Out.state?, post_state, Moves, AddonHostState.Next]
  | activated hinitialized heq =>
    simp [heq, hinitialized, Out.state?, Moves, AddonHostState.Next]
  | @closed outs hopen hclosed heq hidle =>
    have hnone : outs.filterMap Out.state? = [] := filterMap_state fun o ho => (hidle o ho).spec.1
    simp only [heq, Out.state?, List.filterMap_cons, hnone, hclosed, Moves, and_true]
    cases hstate : s.currentState with
    | closed => exact absurd hstate hopen
    | _ => simp [AddonHostState.Next]

theorem run_moves (evs : List Event) (s : AddonHost) :
    Moves s.currentState ((Machine.outputs step s evs).filterMap Out.state?)
      (Machine.after step s evs).currentState := by
  induction evs generalizing s with
  | nil => rfl
  | cons ev evs ih =>
    rw [Machine.outputs_cons, List.filterMap_append]
    exact (step_life s ev).moves.append (ih (s.step ev).1)

/-- The host has not posted `init`. -/
def Early (s : AddonHost) : Prop := s.currentState = .mounted

/-- The outputs of a step that post `init`. -/
def inits (s : AddonHost) (ev : Event) : List Out := (s.step ev).2.filter Out.isInit

theorem filter_init {outs : List Out} (h : ∀ o ∈ outs, o.isInit = false) :
    outs.filter Out.isInit = [] :=
  List.filter_eq_nil_iff.mpr fun o ho => by simp [h o ho]

theorem post_inits (s : AddonHost) (msg : BridgePost) :
    ((s.postToIframe msg).filter Out.isInit).length ≤ 1 :=
  (List.length_filter_le ..).trans (by unfold postToIframe; split <;> simp)

/-- `init` is posted on leaving `mounted` only, and once. -/
theorem Life.inits {r : AddonHost × List Out} (h : Life s r) :
    (r.2.filter Out.isInit).length ≤ 1 ∧
      (r.2.filter Out.isInit ≠ [] → s.Early ∧ ¬r.1.Early) ∧ (¬s.Early → ¬r.1.Early) := by
  cases h with
  | delivered hsame hdelivers =>
    have hnone : r.2.filter Out.isInit = [] := filter_init fun o ho => by
      rcases hdelivers.all o ho with hminor | ⟨hdelivery, _⟩
      · exact hminor.idle.spec.2.1
      · exact hdelivery.spec.2
    simp [hnone, hsame]
  | still hstill =>
    have hnone : r.2.filter Out.isInit = [] := filter_init fun o ho => (hstill.idle o ho).spec.2.1
    simp [hnone, Early, hstill.state]
  | initialized hmounted heq =>
    subst heq
    refine ⟨?_, fun _ => ⟨hmounted, by simp [Early]⟩, fun _ => by simp [Early]⟩
    have hpost := post_inits s s.initMessage
    simpa [Out.isInit, List.filter_cons] using hpost
  | readied hmounted heq =>
    subst heq
    refine ⟨?_, fun _ => ⟨hmounted, by simp [Early]⟩, fun _ => by simp [Early]⟩
    have hpost := post_inits s s.initMessage
    simpa [Out.isInit, List.filter_cons] using hpost
  | activated hinitialized heq => simp [heq, Out.isInit, Early]
  | @closed outs hopen hclosed heq hidle =>
    have hnone : outs.filter Out.isInit = [] := filter_init fun o ho => (hidle o ho).spec.2.1
    simp [heq, Out.isInit, hnone, Early, hclosed]

theorem noted_inits (evs : List Event) (s : AddonHost) :
    (Machine.outputs step s evs).filter Out.isInit = Machine.noted step inits s evs := by
  induction evs generalizing s with
  | nil => rfl
  | cons ev evs ih => rw [Machine.outputs_cons, List.filter_append, ih, Machine.noted]; rfl

theorem run_inits (evs : List Event) (s : AddonHost) :
    ((Machine.outputs step s evs).filter Out.isInit).length ≤ 1 := by
  have hpairwise : (Machine.noted step inits s evs).Pairwise fun _ _ => False := by
    refine Machine.noted_pairwise (P := fun _ => True) (B := fun s _ => ¬s.Early)
      (fun _ _ _ => trivial) (fun s ev _ => ?_) (fun s ev a _ ha => ?_)
      (fun s ev _ _ h => (step_life s ev).inits.2.2 h) (fun s ev a b _ hlate hb => ?_) trivial evs
    · have hone := (step_life s ev).inits.1
      unfold inits
      cases houts : (s.step ev).2.filter Out.isInit with
      | nil => exact .nil
      | cons o os =>
        rw [houts, List.length_cons] at hone
        rw [List.length_eq_zero_iff.mp (by omega : os.length = 0)]
        exact List.pairwise_singleton ..
    · exact ((step_life s ev).inits.2.1 (List.ne_nil_of_mem ha)).2
    · exact absurd ((step_life s ev).inits.2.1 (List.ne_nil_of_mem hb)).1 hlate
  rw [noted_inits]
  cases hnoted : Machine.noted step inits s evs with
  | nil => exact Nat.zero_le _
  | cons a as =>
    rw [hnoted] at hpairwise
    cases as with
    | nil => exact Nat.le_refl _
    | cons b bs => exact ((List.pairwise_cons.mp hpairwise).1 b (List.mem_cons_self ..)).elim

/-! ## `init` first -/

/-- Messages come from a window, and a mounted iframe has one when it loads. -/
def FromWindow (s : AddonHost) : Event → Prop
  | .iframeLoad => s.currentState = .mounted → ∃ window, s.iframe = some (some window)
  | .message source _ _ => s.iframe = some source → source ≠ none
  | _ => True

theorem heard_iframe {source : Option Window} {data : Data} {now : Nat} {op : BridgeOp}
    (h : s.heard (.message source data now) = some op) : s.iframe = some source := by
  simp only [heard] at h
  split at h
  · next hheard => exact hheard.2
  · cases h

theorem close_closed (s : AddonHost) : s.close.1.currentState = .closed := by
  unfold close
  split
  · assumption
  · next hopen =>
    simp only [setState, if_neg hopen]
    exact (closeFrom_idle _ 0).1

/-- What moves a mounted host on, other than `close`, finds a window. -/
theorem moving_window {ev : Event} (hmounted : s.currentState = .mounted) (hmoving : s.Moving ev)
    (hev : s.FromWindow ev) (hopen : (s.step ev).1.currentState ≠ .closed) :
    ∃ window, s.iframe = some (some window) := by
  cases ev with
  | iframeLoad => exact hev hmounted
  | close => exact absurd (close_closed s) hopen
  | message source data now =>
    have hframe : s.iframe = some source := heard_iframe hmoving
    cases source with
    | none => exact absurd rfl (hev hframe)
    | some window => exact ⟨window, hframe⟩
  | _ => exact hmoving.elim

theorem post_init {window : Window} (h : s.iframe = some (some window)) :
    Out.post s.initMessage ∈ s.postToIframe s.initMessage := by
  simp [postToIframe, h]

theorem step_init {ev : Event} (hmounted : s.currentState = .mounted) (hev : s.FromWindow ev) :
    (s.step ev).1.currentState = .mounted ∨ (s.step ev).1.currentState = .closed ∨
      ∃ o ∈ (s.step ev).2, o.isInit = true := by
  by_cases hclosed : (s.step ev).1.currentState = .closed
  · exact .inr (.inl hclosed)
  · by_cases hmoving : s.Moving ev
    · obtain ⟨window, hframe⟩ := moving_window hmounted hmoving hev hclosed
      have hpost := post_init hframe
      cases step_life s ev with
      | delivered hsame _ => exact .inl (by rw [hsame, hmounted])
      | still hstill => exact .inl (hstill.state.trans hmounted)
      | initialized _ heq =>
        refine .inr (.inr ⟨.post s.initMessage, ?_, rfl⟩)
        rw [heq]
        exact List.mem_cons_of_mem _ hpost
      | readied _ heq =>
        refine .inr (.inr ⟨.post s.initMessage, ?_, rfl⟩)
        rw [heq]
        exact List.mem_append_left _ (List.mem_cons_of_mem _ hpost)
      | activated hinitialized _ =>
        rw [hmounted] at hinitialized
        cases hinitialized
      | closed _ hc _ _ => exact absurd hc hclosed
    · by_cases hdelivery : OnDelivery ev
      · exact .inl ((step_delivers hdelivery).1 ▸ hmounted)
      · exact .inl ((step_still hdelivery hmoving).state.trans hmounted)

theorem Life.closed_stays {r : AddonHost × List Out} (h : Life s r)
    (hclosed : s.currentState = .closed) : r.1.currentState = .closed := by
  cases h with
  | delivered hsame _ => rw [hsame, hclosed]
  | still hstill => rw [hstill.state, hclosed]
  | initialized hmounted _ | readied hmounted _ => simp [hclosed] at hmounted
  | activated hinitialized _ => simp [hclosed] at hinitialized
  | closed hopen _ _ _ => exact absurd hclosed hopen

/-- A host that has left `mounted` and is not closed has posted `init`. -/
theorem run_init {evs : List Event} : ∀ {s : AddonHost}, s.currentState = .mounted →
    Machine.Guarded step FromWindow s evs → (Machine.after step s evs).currentState = .mounted ∨
      (Machine.after step s evs).currentState = .closed ∨
      ∃ o ∈ Machine.outputs step s evs, o.isInit = true := by
  induction evs with
  | nil => intro s hmounted _; exact .inl hmounted
  | cons ev evs ih =>
    intro s hmounted hguard
    rcases step_init hmounted hguard.1 with hstill | hclosed | ⟨o, ho, hinit⟩
    · rcases ih hstill hguard.2 with hmounted' | hclosed' | ⟨o, ho, hinit⟩
      · exact .inl hmounted'
      · exact .inr (.inl hclosed')
      · exact .inr (.inr ⟨o, List.mem_append_right _ ho, hinit⟩)
    · refine .inr (.inl ?_)
      exact Machine.after_inv (P := fun s : AddonHost => s.currentState = .closed)
        (fun s ev h => (step_life s ev).closed_stays h) hclosed evs
    · exact .inr (.inr ⟨o, List.mem_append_left _ ho, hinit⟩)

theorem Life.delivery {r : AddonHost × List Out} (h : Life s r) {o : Out} (ho : o ∈ r.2)
    (hdelivery : o.Delivery) : s.currentState = .active := by
  have hpost : ∀ msg, o ∈ s.postToIframe msg → ¬Out.Delivery (.post msg) → False := by
    intro msg hmem hnot
    unfold postToIframe at hmem
    split at hmem
    · exact hnot (List.mem_singleton.mp hmem ▸ hdelivery)
    · cases hmem
  have hstate : ∀ next, o ≠ .state next := by
    rintro next rfl
    exact hdelivery
  cases h with
  | delivered _ hdelivers =>
    rcases hdelivers.all o ho with hminor | ⟨_, hactive⟩
    · exact absurd hdelivery hminor.idle.spec.2.2
    · exact hactive
  | still hstill => exact absurd hdelivery (hstill.idle o ho).spec.2.2
  | initialized _ heq =>
    subst heq
    rcases List.mem_cons.mp ho with hs | hmem
    · exact absurd hs (hstate _)
    · exact (hpost _ hmem id).elim
  | readied _ heq =>
    subst heq
    rcases List.mem_append.mp ho with hmem | hs
    · rcases List.mem_cons.mp hmem with hs | hmem
      · exact absurd hs (hstate _)
      · exact (hpost _ hmem id).elim
    · exact absurd (List.mem_singleton.mp hs) (hstate _)
  | activated _ heq =>
    subst heq
    exact absurd (List.mem_singleton.mp ho) (hstate _)
  | closed _ _ heq hidle =>
    rw [heq] at ho
    rcases List.mem_cons.mp ho with hs | hmem
    · exact absurd hs (hstate _)
    · exact absurd hdelivery (hidle o hmem).spec.2.2

/-! ## After `close` -/

/-- The first `close` has returned. -/
def Ended (s : AddonHost) : Prop := s.currentState = .closed ∧ s.closing = none

end AddonHost

def Out.isPost : Out → Bool
  | .post _ => true
  | _ => false

namespace AddonHost

variable {s : AddonHost}

/-- The host goes on to be ended, and posts nothing. -/
structure Quiet (r : AddonHost × List Out) : Prop where
  ended : r.1.Ended
  silent : ∀ o ∈ r.2, o.isPost = false

theorem Quiet.refl (h : s.Ended) : Quiet (s, []) := ⟨h, by simp⟩

theorem post_gone (h : s.iframe = none) (msg : BridgePost) : s.postToIframe msg = [] := by
  simp [postToIframe, h]

theorem Ended.gone (h : s.Ended) (hc : s.vitals.Coherent) : s.iframe = none :=
  (hc.gone h.1 h.2).1

theorem Ended.of_vitals {s' : AddonHost} (h : s.Ended) (hv : s'.vitals = s.vitals) : s'.Ended :=
  ⟨(congrArg Vitals.currentState hv).trans h.1, (congrArg Vitals.closing hv).trans h.2⟩

theorem Ended.of_calls {s' : AddonHost} (h : s.Ended)
    (hv : ∃ calls, s'.vitals = { s.vitals with storageCalls := calls }) : s'.Ended := by
  obtain ⟨calls, hv⟩ := hv
  exact ⟨(congrArg Vitals.currentState hv).trans h.1, (congrArg Vitals.closing hv).trans h.2⟩

theorem captured_quiet (h : s.Ended) (hgone : s.iframe = none) (i : Nat) (result : Capture) :
    Quiet (s.captured i result) := by
  refine ⟨h.of_vitals (captured_plain s i result).vitals, ?_⟩
  unfold captured
  split
  · simp
  · cases result <;> simp [postBridgeError, postToIframe, hgone, Out.isPost]

theorem trackAdded_quiet (h : s.Ended) (hgone : s.iframe = none) (i : Nat)
    (result : Except (Option JsString) Nat) : Quiet (s.trackAdded i result) := by
  refine ⟨h.of_vitals (trackAdded_plain s i result).vitals, ?_⟩
  unfold trackAdded
  split
  · simp
  · cases result <;> simp [postBridgeError, postToIframe, hgone, Out.isPost]

theorem senderRemoved_quiet (h : s.Ended) (hgone : s.iframe = none) (i : Nat)
    (error : Option JsString) : Quiet (s.senderRemoved i error) := by
  refine ⟨h.of_vitals (senderRemoved_plain s i error).vitals, ?_⟩
  unfold senderRemoved
  split
  · simp
  · cases error <;> simp [postToIframe, hgone, Out.isPost]

theorem storageSettled_quiet (h : s.Ended) (hgone : s.iframe = none) (i : Nat)
    (outcome : StorageOutcome) : Quiet (s.storageSettled i outcome) := by
  refine ⟨h.of_calls (storageSettled_vitals s i outcome), ?_⟩
  unfold storageSettled
  split
  · simp
  · cases outcome <;> simp [storageReply, storageError, postToIframe, hgone, Out.isPost]

theorem trackEnded_quiet (h : s.Ended) (hgone : s.iframe = none) (track : Nat) :
    Quiet (s.trackEnded track) := by
  have hloop : (s.trackEnded track).1.iframe = none ∧ Quiet (s.trackEnded track) := by
    unfold trackEnded
    refine List.foldlRecOn (motive := fun (r : AddonHost × List Out) =>
      r.1.iframe = none ∧ Quiet r) _ _ ⟨hgone, .refl h⟩ fun r hr listener _ => ?_
    refine ⟨hr.1, hr.2.ended, List.forall_mem_append.mpr ⟨hr.2.silent, ?_⟩⟩
    simp [remoteTrackEnded, post_gone hr.1]
  exact hloop.2

/-- An ended host stays so and posts nothing. -/
theorem step_quiet (h : s.Ended) (hc : s.vitals.Coherent) (ev : Event) : Quiet (s.step ev) := by
  have hgone : s.iframe = none := h.gone hc
  have hlistening : s.listening = false := (hc.deaf h.1).1
  have hbound : s.bound = false := (hc.deaf h.1).2
  have hrejects : ∀ message, Quiet (s, [.rejected message]) := fun _ => ⟨h, by simp [Out.isPost]⟩
  cases ev with
  | iframeLoad => simpa [step, onIframeLoad, h.1] using Quiet.refl h
  | contentWindow window => exact ⟨h, by simp [step]⟩
  | message source data now => simpa [step, hlistening] using Quiet.refl h
  | sessionText json => simpa [step, hbound] using Quiet.refl h
  | sessionBinary addon mime bytes => simpa [step, hbound] using Quiet.refl h
  | remoteTrack kind track attached => simpa [step, hbound] using Quiet.refl h
  | trackEnded track => exact trackEnded_quiet h hgone track
  | deliver payload from_ => simpa [step, deliver, h.1, settled] using hrejects _
  | deliverBinary mime bytes from_ => simpa [step, deliverBinary, h.1, settled] using hrejects _
  | publishAudioLevel level => simpa [step, publishAudioLevel, h.1] using Quiet.refl h
  | close => simpa [step, close, h.1] using Quiet.refl h
  | captured i result => exact captured_quiet h hgone i result
  | trackAdded i result => exact trackAdded_quiet h hgone i result
  | senderRemoved i error => exact senderRemoved_quiet h hgone i error
  | closeSenderRemoved => simpa [step, closeSenderRemoved, h.2] using Quiet.refl h
  | storageSettled i outcome => exact storageSettled_quiet h hgone i outcome
  | sendTextRejected message =>
    simp only [step]
    split
    · exact .refl h
    · exact ⟨h, by simp [Out.isPost]⟩
  | sendBinaryRejected message =>
    simp only [step]
    split
    · exact .refl h
    · exact ⟨h, by simp [postBridgeError, post_gone hgone]⟩

/-! ## The window of the iframe -/

/-- The iframe, and whether its messages are listened to. -/
def place (s : AddonHost) : Option (Option Window) × Bool := (s.iframe, s.listening)

theorem place_of_vitals {s' : AddonHost} (h : s'.vitals = s.vitals) : s'.place = s.place :=
  Prod.ext (congrArg Vitals.iframe h) (congrArg Vitals.listening h)

theorem place_of_calls {s' : AddonHost}
    (h : ∃ calls, s'.vitals = { s.vitals with storageCalls := calls }) : s'.place = s.place := by
  obtain ⟨calls, h⟩ := h
  exact Prod.ext (congrArg Vitals.iframe h) (congrArg Vitals.listening h)

theorem setState_place (s : AddonHost) (next : AddonHostState) :
    (s.setState next).1.place = s.place := by
  unfold setState
  split <;> rfl

theorem onIframeLoad_place (s : AddonHost) : s.onIframeLoad.1.place = s.place := by
  unfold onIframeLoad
  split
  · rfl
  · exact setState_place ..

theorem handleReady_place (s : AddonHost) : s.handleReady.1.place = s.place := by
  have hinit : s.ensureInitPosted.1.place = s.place := by
    unfold ensureInitPosted
    split
    · exact setState_place ..
    · rfl
  unfold handleReady
  dsimp only
  split
  · exact (setState_place ..).trans hinit
  · exact hinit

theorem handleOp_place (s : AddonHost) (msg : Data) (now : Nat) (op : BridgeOp) :
    (s.handleOp msg now op).1.place = s.place := by
  by_cases hminor : Minor op
  · exact place_of_vitals (handleOp_plain s msg now hminor).vitals
  · cases op with
    | ready => exact handleReady_place s
    | mediaReceiveSubscribe kind =>
      simp only [handleOp, handleMediaReceiveSubscribe]
      split
      · rfl
      · split
        · rfl
        · cases kind <;> rfl
    | mediaReceiveUnsubscribe kind =>
      simp only [handleOp, handleMediaReceiveUnsubscribe]
      split <;> cases kind <;> rfl
    | storage => exact place_of_calls (s.handleStorage_vitals _ _ _ _)
    | _ => exact absurd trivial hminor

theorem closeFrom_iframe (s : AddonHost) (n : Nat) :
    (s.closeFrom n).1.iframe = s.iframe ∨ (s.closeFrom n).1.iframe = none := by
  unfold closeFrom
  split
  · exact .inl rfl
  · exact .inr rfl

/-- An open host hears its iframe, which has its window; a closed one may have removed it. -/
structure Framed (window : Window) (s : AddonHost) : Prop where
  coherent : s.vitals.Coherent
  iframe : s.iframe = some (some window) ∨ (s.iframe = none ∧ s.currentState = .closed)
  attentive : s.currentState ≠ .closed → s.listening = true

theorem Framed.kept {window : Window} {ev : Event} (h : s.Framed window)
    (hplace : (s.step ev).1.place = s.place) : (s.step ev).1.Framed window := by
  have hframe : (s.step ev).1.iframe = s.iframe := congrArg Prod.fst hplace
  have hlistening : (s.step ev).1.listening = s.listening := congrArg Prod.snd hplace
  have hstays : s.currentState = .closed → (s.step ev).1.currentState = .closed :=
    (step_life s ev).closed_stays
  refine ⟨step_coherent h.coherent ev, h.iframe.imp (hframe ▸ ·) ?_, fun hopen => ?_⟩
  · exact fun hnone => ⟨hframe ▸ hnone.1, hstays hnone.2⟩
  · exact hlistening ▸ h.attentive fun hclosed => hopen (hstays hclosed)

theorem Framed.closed {window : Window} {ev : Event} (h : s.Framed window)
    (hclosed : (s.step ev).1.currentState = .closed)
    (hframe : (s.step ev).1.iframe = s.iframe ∨ (s.step ev).1.iframe = none) :
    (s.step ev).1.Framed window := by
  refine ⟨step_coherent h.coherent ev, ?_, fun hopen => absurd hclosed hopen⟩
  rcases hframe with hsame | hnone
  · exact h.iframe.imp (hsame ▸ ·) fun hgone => ⟨hsame ▸ hgone.1, hclosed⟩
  · exact .inr ⟨hnone, hclosed⟩

theorem step_framed {window : Window} {ev : Event} (h : s.Framed window)
    (hev : ∀ w, ev = .contentWindow w → s.iframe = none ∨ s.iframe = some w) :
    (s.step ev).1.Framed window := by
  cases ev with
  | iframeLoad => exact h.kept (onIframeLoad_place s)
  | contentWindow w =>
    refine h.kept ?_
    rcases hev w rfl with hframe | hframe <;> simp [step, place, hframe]
  | message source data now =>
    cases hop : s.heard (.message source data now) with
    | none => exact h.kept (by rw [step_unheard s hop])
    | some op =>
      refine h.kept ?_
      rw [step_heard s hop]
      exact handleOp_place s data now op
  | remoteTrack kind track attached =>
    refine h.kept ?_
    simp only [step, handleRemoteTrack]
    repeat' split
    all_goals rfl
  | trackEnded track =>
    refine h.kept ?_
    simp only [step, trackEnded]
    exact List.foldlRecOn (motive := fun (r : AddonHost × List Out) => r.1.place = s.place) _ _
      rfl fun r hr _ _ => hr
  | close =>
    refine h.closed (close_closed s) ?_
    simp only [step, close]
    split
    · exact .inl rfl
    · have hframe : (s.setState .closed).1.iframe = s.iframe :=
        congrArg Prod.fst (setState_place s .closed)
      exact (closeFrom_iframe _ 0).imp (·.trans hframe) id
  | closeSenderRemoved =>
    cases hclosing : s.closing with
    | none => exact h.kept (by simp [step, closeSenderRemoved, hclosing])
    | some entry =>
      have hclosed : s.currentState = .closed := h.coherent.closing (by simp [vitals, hclosing])
      refine h.closed ((closeSenderRemoved_still s).state.trans hclosed) ?_
      simp only [step, closeSenderRemoved, hclosing]
      exact closeFrom_iframe { s with stopped := entry.2.track :: s.stopped } _
  | storageSettled i outcome => exact h.kept (place_of_calls (s.storageSettled_vitals i outcome))
  | captured i result => exact h.kept (place_of_vitals (captured_plain s i result).vitals)
  | trackAdded i result => exact h.kept (place_of_vitals (trackAdded_plain s i result).vitals)
  | senderRemoved i error => exact h.kept (place_of_vitals (senderRemoved_plain s i error).vitals)
  | sendTextRejected message | sendBinaryRejected message =>
    refine h.kept ?_
    simp only [step]
    split <;> rfl
  | _ => exact h.kept rfl

/-- An iframe that stays where it was mounted has its window. -/
theorem Framed.fromWindow {window : Window} (h : s.Framed window) (ev : Event) :
    s.FromWindow ev := by
  cases ev with
  | iframeLoad =>
    intro hmounted
    rcases h.iframe with hframe | ⟨_, hclosed⟩
    · exact ⟨window, hframe⟩
    · rw [hmounted] at hclosed
      cases hclosed
  | message source data now =>
    rintro hsource rfl
    rcases h.iframe with hframe | ⟨hframe, _⟩
    · rw [hsource] at hframe
      cases hframe
    · rw [hsource] at hframe
      cases hframe
  | _ => trivial

theorem run_fromWindow {window : Window} {evs : List Event} : ∀ {s : AddonHost},
    s.Framed window → (∀ w, Event.contentWindow w ∉ evs) →
      Machine.Guarded step FromWindow s evs := by
  induction evs with
  | nil => intro _ _ _; trivial
  | cons ev evs ih =>
    intro s h hkept
    refine ⟨h.fromWindow ev, ih (step_framed h ?_) fun w hw => hkept w (.tail _ hw)⟩
    rintro w rfl
    exact absurd (.head _) (hkept w)

/-! ## The whole life -/

/-- The run of a mounted host `s`, after `mount` put out `mounted`. -/
structure LifecycleSound (mounted : List Out) (s : AddonHost) (evs : List Event) : Prop where
  moves : Moves .created ((mounted ++ Machine.outputs step s evs).filterMap Out.state?)
    (Machine.after step s evs).currentState
  closes : ∀ pre, pre <+: evs → ((Machine.after step s pre).step .close).1.currentState = .closed
  initOnce : ((Machine.outputs step s evs).filter Out.isInit).length ≤ 1
  initFirst : Machine.Guarded step FromWindow s evs → ∀ before o rest,
    Machine.outputs step s evs = before ++ o :: rest → o.Delivery →
      ∃ i ∈ before, i.isInit = true
  activeOnly : ∀ pre ev post, evs = pre ++ ev :: post →
    ∀ o ∈ ((Machine.after step s pre).step ev).2, o.Delivery →
      (Machine.after step s pre).currentState = .active
  closeIdle : ∀ pre, pre <+: evs → (Machine.after step s pre).currentState = .closed →
    (Machine.after step s pre).step .close = (Machine.after step s pre, [])
  closedQuiet : ∀ pre post, evs = pre ++ post → (Machine.after step s pre).Ended →
    ∀ o ∈ Machine.outputs step (Machine.after step s pre) post, o.isPost = false

theorem run_initFirst {evs : List Event} (hmounted : s.currentState = .mounted)
    (hguard : Machine.Guarded step FromWindow s evs) {before rest : List Out} {o : Out}
    (hsplit : Machine.outputs step s evs = before ++ o :: rest) (hdelivery : o.Delivery) :
    ∃ i ∈ before, i.isInit = true := by
  obtain ⟨pre, ev, post, rfl, hprefix, ho⟩ := Machine.outputs_split step hsplit
  have hactive := (step_life _ ev).delivery ho hdelivery
  rcases run_init hmounted (Machine.guarded_append.mp hguard).1 with hstate | hstate | ⟨i, hi, hinit⟩
  · rw [hactive] at hstate
    cases hstate
  · rw [hactive] at hstate
    cases hstate
  · exact ⟨i, hprefix.subset hi, hinit⟩

theorem run_quiet {evs : List Event} (h : s.Ended) (hc : s.vitals.Coherent) :
    ∀ o ∈ Machine.outputs step s evs, o.isPost = false :=
  Machine.outputs_inv (P := fun s : AddonHost => s.Ended ∧ s.vitals.Coherent)
    (fun _ ev hs => ⟨(step_quiet hs.1 hs.2 ev).ended, step_coherent hs.2 ev⟩)
    (fun _ ev hs => (step_quiet hs.1 hs.2 ev).silent) ⟨h, hc⟩ evs

theorem loaded_vitals (manifest : AddonManifest) (options : AddonHostOptions)
    (sessionId : JsString) (window : Option Window) :
    let s := loaded manifest options sessionId window
    s.currentState = .mounted ∧ s.place = (some window, true) ∧ s.vitals.Coherent := by
  unfold loaded
  dsimp only
  split <;>
    exact ⟨rfl, rfl, fun h => (by cases h), fun h => absurd rfl h, fun h => (by cases h),
      fun _ _ h => (by cases h)⟩

theorem loaded_framed (manifest : AddonManifest) (options : AddonHostOptions)
    (sessionId : JsString) (window : Window) :
    (loaded manifest options sessionId (some window)).Framed window := by
  obtain ⟨_, hplace, hcoherent⟩ := loaded_vitals manifest options sessionId (some window)
  exact ⟨hcoherent, .inl (congrArg Prod.fst hplace), fun _ => congrArg Prod.snd hplace⟩

/-- Every run of a loaded host is a sound life, and its iframe has a window all along unless
it is moved about in the document. -/
theorem lifecycle_sound (manifest : AddonManifest) (options : AddonHostOptions)
    (sessionId : JsString) (window : Option Window) (evs : List Event) :
    LifecycleSound ((create manifest options sessionId).mount window).2
        (loaded manifest options sessionId window) evs ∧
      (window.isSome → (∀ w, Event.contentWindow w ∉ evs) →
        Machine.Guarded step FromWindow (loaded manifest options sessionId window) evs) := by
  obtain ⟨hmounted, _, hcoherent⟩ := loaded_vitals manifest options sessionId window
  have hafter : ∀ pre, (Machine.after step (loaded manifest options sessionId window)
      pre).vitals.Coherent := fun pre =>
    Machine.after_inv (P := fun s : AddonHost => s.vitals.Coherent)
      (fun _ ev h => step_coherent h ev) hcoherent pre
  refine ⟨⟨?_, fun _ _ => close_closed _, run_inits evs _, ?_, ?_, ?_, ?_⟩, ?_⟩
  · have hmount : ((create manifest options sessionId).mount window).2 = [.state .mounted] := by
      simp [mount, setState, create]
    rw [hmount]
    refine ⟨trivial, ?_⟩
    exact hmounted ▸ run_moves evs (loaded manifest options sessionId window)
  · intro hguard before o rest
    exact run_initFirst hmounted hguard
  · intro pre ev post _ o ho hdelivery
    exact (step_life _ ev).delivery ho hdelivery
  · intro pre _ hclosed
    simp [step, close, hclosed]
  · intro pre post _ hended
    exact run_quiet hended (hafter pre)
  · intro hwindow hkept
    obtain ⟨w, rfl⟩ := Option.isSome_iff_exists.mp hwindow
    exact run_fromWindow (loaded_framed manifest options sessionId w) hkept

/-- A message of the mounted iframe. -/
def bridgeMessage (op : BridgeOp) (members : List (JsString × Data)) : Event :=
  .message (some 0)
    (.obj ((js "kind", .str ADDON_BRIDGE_KIND) :: (js "op", .str op.text) :: members)) 0

/-- A manifest that asks for deliveries. -/
def peerManifest : AddonManifest where
  id := js "org.senn.peer"
  name := js "Peer"
  version := js "1.0.0"
  entry := js "index.html"
  license := js "MIT"
  permissions := [ PEER_RECEIVE]
  capabilities := [.str (js "peer")]

/-- `ready` before the load event, a delivery, and `close` twice. -/
def peerRun : List Event :=
  [bridgeMessage .ready [], .iframeLoad, .deliver .null none, .close, .close]

theorem lifecycle_sound_peerRun :
    LifecycleSound [.state .mounted]
        (loaded peerManifest ⟨none, false, none, none⟩ (js "s") (some 0)) peerRun ∧
      Machine.Guarded step FromWindow
        (loaded peerManifest ⟨none, false, none, none⟩ (js "s") (some 0)) peerRun :=
  (lifecycle_sound peerManifest ⟨none, false, none, none⟩ (js "s") (some 0) peerRun).imp_right
    fun h => h rfl (by simp [peerRun, bridgeMessage])

end AddonHost

end Senn.Addon
