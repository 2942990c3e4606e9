import Senn.Addon.Lifecycle

/-! # Storage requests

Each storage message with a `rid` is refused at once or becomes a call of the storage, and
the result of the call is posted when it settles. `close` answers nothing: the requests
whose calls have not settled by then lose their reply channel with the iframe. -/

namespace Senn.Addon
open Senn.Js Senn.Lib Senn.Protocol

/-- A storage request: the call it asks for, or the error it is refused with. -/
structure Asked where
  rid : JsString
  call : Except JsString StorageCall

abbrev Reply := JsString × Except JsString Data

/-- What a request is answered with once its call ends so. -/
def StorageCall.result (call : StorageCall) : StorageOutcome → Except JsString Data
  | .ok value => .ok (call.reply value)
  | .storageError code => .error code
  | .failed _ => .error (js "invalid-request")

/-- A request that is refused is answered with its error. -/
def Asked.refusal (q : Asked) : List (Asked × Except JsString Data) :=
  match q.call with
  | .error error => [(q, .error error)]
  | .ok _ => []

def Out.reply? : Out → Option Reply
  | .post (.storageResult rid result) => some (rid, result)
  | _ => none

/-- The results posted. -/
def replies (outs : List Out) : List Reply := outs.filterMap Out.reply?

@[simp] theorem replies_nil : replies [] = [] := rfl

@[simp] theorem replies_append (outs outs' : List Out) :
    replies (outs ++ outs') = replies outs ++ replies outs' := List.filterMap_append

theorem replies_eq_nil {outs : List Out} (h : ∀ o ∈ outs, o.reply? = none) : replies outs = [] :=
  List.filterMap_eq_nil_iff.mpr h

theorem Out.Minor.not_reply {o : Out} (h : o.Minor) : o.reply? = none := by
  cases o with
  | post m => cases m <;> first | rfl | exact h.elim
  | _ => rfl

namespace AddonHost

/-- The checks of `handleStorage`: the call, or the error. -/
def granted (s : AddonHost) (op key value : Data) : Except JsString StorageCall :=
  let needsRead := op.str? = some (js "get") || op.str? = some (js "list")
  let needsWrite := op.str? = some (js "put") || op.str? = some (js "delete") ||
    op.str? = some (js "clear")
  if !s.options.storage then .error (js "permission-denied")
  else if needsRead && !s.grants STORAGE_LOCAL_READ then .error (js "permission-denied")
  else if needsWrite && !s.grants STORAGE_LOCAL_WRITE then .error (js "permission-denied")
  else
    match storageCall op key value with
    | none => .error (js "invalid-request")
    | some call => .ok call

/-- The request in a window message; one without a `rid` is none. -/
def request (s : AddonHost) (data : Data) : List Asked :=
  if bridgeOp data = some .storage then
    match (data.get (js "rid")).str? with
    | none => []
    | some rid =>
      if rid = [] then []
      else
        [⟨rid, s.granted (data.get (js "storage")) (data.get (js "key")) (data.get (js "value"))⟩]
  else []

/-- The requests the iframe sends in a step. -/
def asked (s : AddonHost) : Event → List Asked
  | .message source data _ => if s.iframe = some source then s.request data else []
  | _ => []

/-- The requests a step settles, each with its own outcome. -/
def settles (s : AddonHost) (ev : Event) : List (Asked × Except JsString Data) :=
  match ev with
  | .storageSettled i outcome =>
    match s.storageCalls[i]? with
    | none => []
    | some (rid, call) => [(⟨rid, .ok call⟩, call.result outcome)]
  | _ => (s.asked ev).flatMap Asked.refusal

/-- The requests whose calls have not settled. -/
def inFlight (s : AddonHost) : List Asked := s.storageCalls.map fun c => ⟨c.1, .ok c.2⟩

/-- `close` finds no request in flight, none is sent after it, and the iframe stays in the
document. -/
def Served (s : AddonHost) : Event → Prop
  | .close => s.storageCalls = []
  | .message source data now =>
    s.asked (.message source data now) = [] ∨ s.currentState ≠ .closed
  | .contentWindow window => s.iframe = none ∨ s.iframe = some window
  | _ => True

instance Served.decidable (s : AddonHost) : ∀ ev, Decidable (s.Served ev)
  | .close => inferInstanceAs (Decidable (s.storageCalls = []))
  | .message source data now =>
    inferInstanceAs (Decidable (s.asked (.message source data now) = [] ∨
      s.currentState ≠ .closed))
  | .contentWindow window =>
    inferInstanceAs (Decidable (s.iframe = none ∨ s.iframe = some window))
  | .iframeLoad | .sessionText _ | .sessionBinary _ _ _ | .remoteTrack _ _ _ | .trackEnded _
  | .deliver _ _ | .deliverBinary _ _ _ | .publishAudioLevel _ | .captured _ _ | .trackAdded _ _
  | .senderRemoved _ _ | .closeSenderRemoved | .storageSettled _ _ | .sendTextRejected _
  | .sendBinaryRejected _ => inferInstanceAs (Decidable True)

/-- A step that has nothing to do with storage. -/
structure Calm (s : AddonHost) (r : AddonHost × List Out) : Prop where
  manifest : r.1.manifest = s.manifest
  options : r.1.options = s.options
  calls : r.1.storageCalls = s.storageCalls
  silent : replies r.2 = []

variable {s : AddonHost}

/-! ## The other handlers -/

theorem Calm.refl (s : AddonHost) : Calm s (s, []) := ⟨rfl, rfl, rfl, rfl⟩

theorem Calm.then {r r' : AddonHost × List Out} (h : Calm s r) (h' : Calm r.1 r') :
    Calm s (r'.1, r.2 ++ r'.2) :=
  ⟨h'.manifest.trans h.manifest, h'.options.trans h.options, h'.calls.trans h.calls,
    by simp [h.silent, h'.silent]⟩

theorem Calm.outs {r : AddonHost × List Out} (h : Calm s r) {outs : List Out}
    (houts : replies outs = []) : Calm s (r.1, r.2 ++ outs) :=
  ⟨h.manifest, h.options, h.calls, by simp [h.silent, houts]⟩

theorem Plain.calm {r : AddonHost × List Out} (h : Plain s r) : Calm s r :=
  ⟨congrArg Vitals.manifest h.vitals, congrArg Vitals.options h.vitals,
    congrArg Vitals.storageCalls h.vitals, replies_eq_nil fun o ho => (h.minor o ho).not_reply⟩

theorem replies_post {msg : BridgePost} (h : Out.reply? (.post msg) = none) (s : AddonHost) :
    replies (s.postToIframe msg) = [] := by
  unfold postToIframe
  split
  · exact replies_eq_nil (by simpa using h)
  · rfl

theorem setState_calm (s : AddonHost) (next : AddonHostState) : Calm s (s.setState next) := by
  unfold setState
  split
  · exact .refl s
  · exact ⟨rfl, rfl, rfl, rfl⟩

theorem onIframeLoad_calm (s : AddonHost) : Calm s s.onIframeLoad := by
  unfold onIframeLoad
  split
  · exact .refl s
  · exact (setState_calm s .initialized).outs (replies_post rfl _)

theorem handleReady_calm (s : AddonHost) : Calm s s.handleReady := by
  have hinit : Calm s s.ensureInitPosted := by
    unfold ensureInitPosted
    split
    · exact (setState_calm s .initialized).outs (replies_post rfl _)
    · exact .refl s
  unfold handleReady
  dsimp only
  split
  · exact hinit.then (setState_calm s.ensureInitPosted.1 .active)
  · exact hinit

theorem handleMediaReceiveSubscribe_calm (s : AddonHost) (kind : MediaKind) :
    Calm s (s.handleMediaReceiveSubscribe kind) := by
  unfold handleMediaReceiveSubscribe
  split
  · exact ⟨rfl, rfl, rfl, replies_post rfl s⟩
  · split
    · exact ⟨rfl, rfl, rfl, replies_post rfl s⟩
    · cases kind <;> exact ⟨rfl, rfl, rfl, rfl⟩

theorem handleMediaReceiveUnsubscribe_calm (s : AddonHost) (kind : MediaKind) :
    Calm s (s.handleMediaReceiveUnsubscribe kind) := by
  unfold handleMediaReceiveUnsubscribe
  dsimp only
  split <;> cases kind <;> exact ⟨rfl, rfl, rfl, rfl⟩

theorem handleRemoteTrack_calm (s : AddonHost) (kind : MediaKind) (track : Nat)
    (attached : Except JsString Nat) : Calm s (s.handleRemoteTrack kind track attached) := by
  unfold handleRemoteTrack
  split
  · exact .refl s
  · cases attached with
    | error message => exact ⟨rfl, rfl, rfl, rfl⟩
    | ok detach =>
      refine ⟨rfl, rfl, rfl, ?_⟩
      show replies ([.attach kind track] ++ ((s.mediaSinkDetachers.get kind).map
        Out.detach).toList ++ s.postToIframe (.mediaTrack .remote kind true)) = []
      rw [replies_append, replies_append, replies_post rfl s]
      cases s.mediaSinkDetachers.get kind <;> rfl

theorem trackEnded_calm (s : AddonHost) (track : Nat) : Calm s (s.trackEnded track) := by
  unfold trackEnded
  refine List.foldlRecOn (motive := fun (r : AddonHost × List Out) => Calm s r) _ _ (.refl s)
    fun r hr l _ => ?_
  exact hr.then ⟨rfl, rfl, rfl, replies_post rfl r.1⟩

theorem closeFrom_calm (s : AddonHost) (n : Nat) : Calm s (s.closeFrom n) := by
  unfold closeFrom
  split
  · exact ⟨rfl, rfl, rfl, rfl⟩
  · refine ⟨rfl, rfl, rfl, replies_eq_nil fun o ho => ?_⟩
    obtain ⟨e, _, rfl⟩ := List.mem_map.mp ho
    rfl

theorem close_calm (s : AddonHost) : Calm s s.close := by
  unfold close
  split
  · exact .refl s
  · have hloop := closeFrom_calm { (s.setState .closed).1 with
      listening := false, bound := false, audioLevelSubscribed := false } 0
    exact (setState_calm s .closed).then ⟨hloop.manifest, hloop.options, hloop.calls, hloop.silent⟩

theorem closeSenderRemoved_calm (s : AddonHost) : Calm s s.closeSenderRemoved := by
  unfold closeSenderRemoved
  split
  · exact .refl s
  · next n sender _ =>
    have hloop := closeFrom_calm { s with stopped := sender.track :: s.stopped } (n + 1)
    exact ⟨hloop.manifest, hloop.options, hloop.calls, hloop.silent⟩

theorem Delivers.calm {outs : List Out} (h : Delivers s outs) : Calm s (s, outs) := by
  refine ⟨rfl, rfl, rfl, replies_eq_nil fun o ho => ?_⟩
  rcases h.all o ho with hminor | ⟨hdelivery, _⟩
  · exact hminor.not_reply
  · cases o with
    | post m => cases m <;> first | rfl | exact hdelivery.elim
    | _ => rfl

theorem handleOp_calm (s : AddonHost) (msg : Data) (now : Nat) {op : BridgeOp}
    (h : op ≠ .storage) : Calm s (s.handleOp msg now op) := by
  by_cases hminor : Minor op
  · exact (handleOp_plain s msg now hminor).calm
  · cases op with
    | ready => exact handleReady_calm s
    | mediaReceiveSubscribe kind => exact handleMediaReceiveSubscribe_calm s kind
    | mediaReceiveUnsubscribe kind => exact handleMediaReceiveUnsubscribe_calm s kind
    | storage => exact absurd rfl h
    | _ => exact absurd trivial hminor

/-- The events that have to do with storage. -/
def Storing (s : AddonHost) : Event → Prop
  | .message source data now => s.heard (.message source data now) = some .storage
  | .storageSettled _ _ => True
  | _ => False

theorem step_calm {ev : Event} (h : ¬s.Storing ev) : Calm s (s.step ev) := by
  by_cases hdelivery : OnDelivery ev
  · obtain ⟨hsame, hdelivers⟩ := step_delivers (s := s) hdelivery
    have hstep : s.step ev = (s, (s.step ev).2) := Prod.ext hsame rfl
    rw [hstep]
    exact hdelivers.calm
  · cases ev with
    | iframeLoad => exact onIframeLoad_calm s
    | contentWindow window => exact ⟨rfl, rfl, rfl, rfl⟩
    | message source data now =>
      cases hop : s.heard (.message source data now) with
      | none => exact step_unheard s hop ▸ .refl s
      | some op =>
        rw [step_heard s hop]
        exact handleOp_calm s data now fun hstorage => h (hop.trans (by rw [hstorage]))
    | remoteTrack kind track attached =>
      simp only [step]
      split
      · exact handleRemoteTrack_calm s kind track attached
      · exact .refl s
    | trackEnded track => exact trackEnded_calm s track
    | close => exact close_calm s
    | closeSenderRemoved => exact closeSenderRemoved_calm s
    | captured i result => exact (captured_plain s i result).calm
    | trackAdded i result => exact (trackAdded_plain s i result).calm
    | senderRemoved i error => exact (senderRemoved_plain s i error).calm
    | sendTextRejected message =>
      have hplain : s.Routine (.sendTextRejected message) := trivial
      exact (s.step_plain hplain).calm
    | sendBinaryRejected message =>
      have hplain : s.Routine (.sendBinaryRejected message) := trivial
      exact (s.step_plain hplain).calm
    | storageSettled i outcome => exact absurd trivial h
    | _ => exact absurd trivial hdelivery

/-! ## Requests and results -/

/-- What the host does with a request. -/
def undertake (s : AddonHost) (q : Asked) : AddonHost × List Out :=
  match q.call with
  | .error error => (s, s.storageError q.rid error)
  | .ok call => ({ s with storageCalls := s.storageCalls ++ [(q.rid, call)] }, [.storage call])

theorem handleStorage_undertake (hopen : s.currentState ≠ .closed) {rid : Data} {text : JsString}
    (hrid : rid.str? = some text) (hne : text ≠ []) (op key value : Data) :
    s.handleStorage rid op key value = s.undertake ⟨text, s.granted op key value⟩ := by
  unfold handleStorage granted undertake
  simp only [hrid, if_neg hne, if_neg hopen]
  split
  · rfl
  split
  · rfl
  split
  · rfl
  cases storageCall op key value <;> rfl

theorem handleStorage_void {rid : Data} (h : ∀ text, rid.str? = some text → text = [])
    (op key value : Data) : s.handleStorage rid op key value = (s, []) := by
  unfold handleStorage
  cases hrid : rid.str? with
  | none => rfl
  | some text => simp [h text hrid]

theorem request_cases (s : AddonHost) (data : Data) :
    (s.request data = [] ∧ (bridgeOp data = some .storage → ∀ text,
      (data.get (js "rid")).str? = some text → text = [])) ∨
    ∃ text, bridgeOp data = some .storage ∧ (data.get (js "rid")).str? = some text ∧ text ≠ [] ∧
      s.request data = [⟨text, s.granted (data.get (js "storage")) (data.get (js "key"))
        (data.get (js "value"))⟩] := by
  unfold request
  split
  · next hop =>
    cases hrid : (data.get (js "rid")).str? with
    | none => exact .inl ⟨rfl, fun _ text h => by cases h⟩
    | some text =>
      by_cases hne : text = []
      · refine .inl ⟨by simp [hne], fun _ text' h => ?_⟩
        obtain rfl := Option.some.inj h
        exact hne
      · exact .inr ⟨text, hop, rfl, hne, by simp [hne]⟩
  · next hop => exact .inl ⟨rfl, fun h => absurd h hop⟩

/-- A message with a request is heard by an open host, and undertaken. -/
theorem step_request {window : Window} (h : s.Framed window) (hopen : s.currentState ≠ .closed)
    {data : Data} {now : Nat} {q : Asked} (hq : s.request data = [q]) :
    s.step (.message (some window) data now) = s.undertake q := by
  rcases request_cases s data with ⟨hnone, _⟩ | ⟨text, hop, hrid, hne, heq⟩
  · rw [hq] at hnone
    cases hnone
  · have hframe : s.iframe = some (some window) :=
      h.iframe.resolve_right fun hclosed => hopen hclosed.2
    have hheard : s.heard (.message (some window) data now) = some .storage := by
      simp [heard, h.attentive hopen, hframe, hop]
    obtain rfl := List.singleton_inj.mp (hq.symm.trans heq)
    rw [step_heard s hheard]
    exact handleStorage_undertake hopen hrid hne ..

/-- A message without a request is of no account to storage. -/
theorem step_no_request {source : Option Window} {data : Data} {now : Nat}
    (h : s.asked (.message source data now) = []) :
    Calm s (s.step (.message source data now)) := by
  by_cases hstoring : s.Storing (.message source data now)
  · have hframe : s.iframe = some source := heard_iframe hstoring
    have hop : bridgeOp data = some .storage := by
      have hheard : s.heard (.message source data now) = some .storage := hstoring
      simpa [heard, heard_listening hstoring, hframe] using hheard
    simp only [asked, if_pos hframe] at h
    rcases request_cases s data with ⟨_, hvoid⟩ | ⟨text, _, _, _, heq⟩
    · have hstep : s.step (.message source data now) = (s, []) :=
        (step_heard s hstoring).trans (handleStorage_void (hvoid hop) ..)
      exact hstep ▸ .refl s
    · rw [h] at heq
      cases heq
  · exact step_calm hstoring

theorem settles_message (s : AddonHost) (source : Option Window) (data : Data) (now : Nat) :
    s.settles (.message source data now) =
      (s.asked (.message source data now)).flatMap Asked.refusal := rfl

/-- What a step asks and settles, up to its order: results are posted for the requests it
settles, and the others stay in flight. -/
structure Balances (s : AddonHost) (ev : Event) (r : AddonHost × List Out) : Prop where
  manifest : r.1.manifest = s.manifest
  options : r.1.options = s.options
  replies : replies r.2 = (s.settles ev).map fun a => (a.1.rid, a.2)
  requests : (s.asked ev ++ s.inFlight).Perm ((s.settles ev).map Prod.fst ++ r.1.inFlight)

theorem Calm.balances {ev : Event} {r : AddonHost × List Out} (h : Calm s r)
    (hasked : s.asked ev = []) (hsettles : s.settles ev = []) : Balances s ev r := by
  refine ⟨h.manifest, h.options, by rw [h.silent, hsettles]; rfl, ?_⟩
  rw [hasked, hsettles, inFlight, inFlight, h.calls]
  rfl

theorem undertake_balances {window : Window} (hframe : s.iframe = some (some window)) {ev : Event}
    {q : Asked} (hasked : s.asked ev = [q]) (hsettles : s.settles ev = q.refusal) :
    Balances s ev (s.undertake q) := by
  obtain ⟨rid, call⟩ := q
  cases call with
  | error error =>
    refine ⟨rfl, rfl, ?_, ?_⟩
    · simp [undertake, hsettles, Asked.refusal, storageError, postToIframe, hframe]
      rfl
    · rw [hasked, hsettles]
      rfl
  | ok call =>
    refine ⟨rfl, rfl, ?_, ?_⟩
    · rw [hsettles]
      rfl
    · rw [hasked, hsettles]
      simp only [undertake, inFlight, Asked.refusal, List.map_append, List.map_nil, List.nil_append]
      exact List.perm_append_comm

theorem storageSettled_balances {window : Window} (hframe : s.storageCalls ≠ [] →
    s.iframe = some (some window)) (i : Nat) (outcome : StorageOutcome) :
    Balances s (.storageSettled i outcome) (s.storageSettled i outcome) := by
  cases hcall : s.storageCalls[i]? with
  | none =>
    have hstep : s.storageSettled i outcome = (s, []) := by simp [storageSettled, hcall]
    have hsettles : s.settles (.storageSettled i outcome) = [] := by simp [settles, hcall]
    exact hstep ▸ (Calm.refl s).balances rfl hsettles
  | some entry =>
    obtain ⟨rid, call⟩ := entry
    have hframe := hframe (List.ne_nil_of_mem (List.mem_of_getElem? hcall))
    have hsettles : s.settles (.storageSettled i outcome) =
        [(⟨rid, .ok call⟩, call.result outcome)] := by simp [settles, hcall]
    have hcalls : (s.storageSettled i outcome).1.storageCalls = s.storageCalls.eraseIdx i := by
      simp only [storageSettled, hcall]
      cases outcome <;> rfl
    refine ⟨?_, ?_, ?_, ?_⟩
    · simp only [storageSettled, hcall]
      cases outcome <;> rfl
    · simp only [storageSettled, hcall]
      cases outcome <;> rfl
    · rw [hsettles]
      simp only [storageSettled, hcall]
      cases outcome <;>
        simp [storageReply, storageError, postToIframe, hframe] <;> rfl
    · obtain ⟨hlt, hget⟩ := List.getElem?_eq_some_iff.mp hcall
      rw [hsettles, inFlight, inFlight, hcalls]
      have hperm := (List.getElem_cons_eraseIdx_perm hlt).map
        (fun c : JsString × StorageCall => (⟨c.1, .ok c.2⟩ : Asked))
      rw [hget] at hperm
      exact hperm.symm

/-- A host that serves its iframe: when it is closed, no request is in flight. -/
structure Serving (window : Window) (s : AddonHost) : Prop where
  framed : s.Framed window
  spent : s.currentState = .closed → s.storageCalls = []

theorem Serving.iframe {window : Window} (h : s.Serving window) (hcalls : s.storageCalls ≠ []) :
    s.iframe = some (some window) :=
  h.framed.iframe.resolve_right fun hclosed => hcalls (h.spent hclosed.2)

/-- A step of a served host balances. -/
theorem step_balances {window : Window} (h : s.Serving window) {ev : Event} (hev : s.Served ev) :
    Balances s ev (s.step ev) := by
  cases ev with
  | message source data now =>
    by_cases hasked : s.asked (.message source data now) = []
    · refine (step_no_request hasked).balances hasked ?_
      rw [settles_message, hasked]
      rfl
    · have hopen := hev.resolve_left hasked
      have hframe := h.framed.iframe.resolve_right fun hclosed => hopen hclosed.2
      have hsource : s.iframe = some source := by
        by_contra hne
        exact hasked (by simp [AddonHost.asked, hne])
      obtain rfl := Option.some.inj (hframe.symm.trans hsource)
      simp only [asked, if_pos hframe] at hasked
      rcases request_cases s data with ⟨hnone, _⟩ | ⟨text, _, _, _, heq⟩
      · exact absurd hnone hasked
      · rw [step_request h.framed hopen heq]
        refine undertake_balances hframe ?_ ?_
        · simp only [asked, if_pos hframe, heq]
        · rw [settles_message]
          simp [asked, hframe, heq]
  | storageSettled i outcome => exact storageSettled_balances h.iframe i outcome
  | _ =>
    refine (step_calm ?_).balances rfl rfl
    exact id

theorem step_open {ev : Event} (hopen : s.currentState ≠ .closed) (hev : ev ≠ .close) :
    (s.step ev).1.currentState ≠ .closed := by
  by_cases hdelivery : OnDelivery ev
  · rw [(step_delivers hdelivery).1]
    exact hopen
  · by_cases hmoving : s.Moving ev
    · cases ev with
      | iframeLoad =>
        simp only [step, onIframeLoad]
        split
        · exact hopen
        · simp only [setState]
          split
          · exact hopen
          · simp
      | close => exact absurd rfl hev
      | message source data now =>
        rw [step_heard s hmoving]
        simp only [handleOp, handleReady, ensureInitPosted, setState]
        repeat' split
        all_goals simp_all
      | _ => exact hmoving.elim
    · rw [(step_still hdelivery hmoving).state]
      exact hopen

theorem step_serving {window : Window} (h : s.Serving window) {ev : Event} (hev : s.Served ev) :
    (s.step ev).1.Serving window := by
  refine ⟨step_framed h.framed ?_, fun hclosed => ?_⟩
  · rintro w rfl
    exact hev
  · by_cases hwas : s.currentState = .closed
    · -- no request joins the empty list of calls
      have hcalls := h.spent hwas
      by_cases hstoring : s.Storing ev
      · cases ev with
        | message source data now =>
          have hlistening : s.listening = false := (h.framed.coherent.deaf hwas).1
          have hheard : s.listening = true := heard_listening hstoring
          simp [hlistening] at hheard
        | storageSettled i outcome => simp [step, storageSettled, hcalls]
        | _ => exact hstoring.elim
      · exact (step_calm hstoring).calls.trans hcalls
    · by_cases hclose : ev = .close
      · subst hclose
        exact (close_calm s).calls.trans hev
      · exact absurd hclosed (step_open hwas hclose)

/-- The same for a run. -/
theorem run_balances {window : Window} {evs : List Event} : ∀ {s : AddonHost}, s.Serving window →
    Machine.Guarded step Served s evs →
      replies (Machine.outputs step s evs) =
        (Machine.noted step settles s evs).map (fun a => (a.1.rid, a.2)) ∧
      (Machine.noted step asked s evs ++ s.inFlight).Perm
        ((Machine.noted step settles s evs).map Prod.fst ++ (Machine.after step s evs).inFlight) ∧
      (Machine.after step s evs).Serving window := by
  induction evs with
  | nil => intro s h _; exact ⟨rfl, .refl _, h⟩
  | cons ev evs ih =>
    intro s h hguard
    have hstep := step_balances h hguard.1
    obtain ⟨hreplies, hrequests, hserving⟩ := ih (step_serving h hguard.1) hguard.2
    refine ⟨?_, ?_, hserving⟩
    · rw [Machine.outputs_cons, replies_append, hstep.replies, hreplies, Machine.noted,
        List.map_append]
    · classical
      refine List.perm_iff_count.mpr fun q => ?_
      have hfirst := hstep.requests.count_eq q
      have hlater := hrequests.count_eq q
      simp only [Machine.noted, Machine.after_cons, List.map_append, List.count_append]
        at hfirst hlater ⊢
      omega

/-! ## Every request is answered -/

/-- The requests of a run: the ones settled with their own outcome, the ones `close` answered,
and the ones in flight. -/
structure StorageAccounted (s : AddonHost) (evs : List Event) (closed : List Asked) : Prop where
  answered : (replies (Machine.outputs step s evs)).Perm
    ((Machine.noted step settles s evs).map (fun a => (a.1.rid, a.2)) ++
      closed.map fun q => (q.rid, .error (js "closed")))
  requests : (Machine.noted step asked s evs).Perm
    ((Machine.noted step settles s evs).map Prod.fst ++ closed ++
      (Machine.after step s evs).inFlight)
  early : closed ≠ [] → Event.close ∈ evs
  none_left : Event.close ∈ evs → (Machine.noted step asked s evs).Perm
    ((Machine.noted step settles s evs).map Prod.fst ++ closed)

/-- All along a run every request is answered once, or its call has not settled and the host
is open. -/
def StorageAnswered (s : AddonHost) (evs : List Event) : Prop :=
  ∀ pre, pre <+: evs → ∃ closed, StorageAccounted s pre closed

theorem after_close {evs : List Event} (h : Event.close ∈ evs) :
    (Machine.after step s evs).currentState = .closed := by
  obtain ⟨pre, post, rfl⟩ := List.append_of_mem h
  rw [Machine.after_append, Machine.after_cons]
  exact Machine.after_inv (P := fun s : AddonHost => s.currentState = .closed)
    (fun s ev h => (step_life s ev).closed_stays h) (close_closed _) post

theorem run_answered {window : Window} {evs : List Event} (h : s.Serving window)
    (hnone : s.storageCalls = []) (hguard : Machine.Guarded step Served s evs) :
    StorageAnswered s evs := by
  rintro pre ⟨rest, rfl⟩
  obtain ⟨hreplies, hrequests, hserving⟩ := run_balances h (Machine.guarded_append.mp hguard).1
  have hrequests : (Machine.noted step asked s pre).Perm
      ((Machine.noted step settles s pre).map Prod.fst ++
        (Machine.after step s pre).inFlight) := by
    simpa [inFlight, hnone] using hrequests
  refine ⟨[], by rw [hreplies]; simp, by simpa using hrequests, fun h => absurd rfl h, fun hclose => ?_⟩
  have hspent := hserving.spent (after_close hclose)
  simpa [inFlight, hspent] using hrequests

theorem loaded_serving (manifest : AddonManifest) (options : AddonHostOptions)
    (sessionId : JsString) (window : Window) :
    (loaded manifest options sessionId (some window)).Serving window ∧
      (loaded manifest options sessionId (some window)).storageCalls = [] := by
  have hcalls : (loaded manifest options sessionId (some window)).storageCalls = [] := by
    unfold loaded
    dsimp only
    split <;> rfl
  exact ⟨⟨loaded_framed manifest options sessionId window, fun _ => hcalls⟩, hcalls⟩

end AddonHost

end Senn.Addon
