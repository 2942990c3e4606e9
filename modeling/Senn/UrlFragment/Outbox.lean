import Senn.UrlFragment.Adapter
import Senn.Lib.Machine

/-! # What is published is exported

The bundles exported for a room and what is left in its outbox are the messages published
to it, in order: a publish adds to the outbox, an export takes all of it. -/

namespace Senn.UrlFragment
open Senn.Js Senn.Lib Senn.Lib.Machine Senn.Protocol

/-- A JSON value that is a signaling message. -/
def Publishable (message : Data) : Prop :=
  (∃ v : Json, v.Exact ∧ message = .ofJson v) ∧ (message? message).isSome = true

/-- Messages are published to rooms, and are messages; `close` is not called. -/
def Event.Proper : Event → Prop
  | .publish roomId message => isRoomId roomId = true ∧ Publishable message
  | .close => False
  | _ => True

/-- The messages of an encoded bundle. -/
def contents (P : Platform) (encoded : JsString) : List SignalingMessage :=
  match decodeSignalingBundle P encoded with
  | .ok bundle => bundle.messages
  | .error _ => []

namespace UrlFragmentSignaling

variable {P : Platform} {s : UrlFragmentSignaling} {roomId : JsString} {messages : List Data}

/-- The messages that an event publishes to a room. -/
def posted (roomId : JsString) (s : UrlFragmentSignaling) : Event → List SignalingMessage
  | .publish room message =>
    if room = roomId ∧ s.closed = false then (message? message).toList else []
  | _ => []

/-- The bundle that an event exports for a room; an empty outbox makes none. -/
def exported (P : Platform) (roomId : JsString) (s : UrlFragmentSignaling) :
    Event → List JsString
  | .exportBundle room =>
    if room = roomId ∧ (s.outbox.get room).getD [] ≠ [] then
      (s.exportBundle P room).2.filterMap fun
        | .exported _ (.ok encoded) => some encoded
        | _ => none
    else []
  | _ => []

/-- The messages waiting for a room. -/
def waiting (s : UrlFragmentSignaling) (roomId : JsString) : List SignalingMessage :=
  ((s.outbox.get roomId).getD []).filterMap message?

/-- Every step is on a proper event. -/
def Proper (_ : UrlFragmentSignaling) (ev : Event) : Prop := ev.Proper

/-! ## Bundles -/

/-- Messages that are JSON values make a bundle that is one. -/
theorem bundleOf_json (roomId : JsString) (h : ∀ m ∈ messages, Publishable m) :
    ∃ v : Json, v.Exact ∧ bundleOf roomId messages = .ofJson v := by
  have hvs : ∃ vs : List Json, (∀ v ∈ vs, v.Exact) ∧ messages = vs.map Data.ofJson := by
    induction messages with
    | nil => exact ⟨[], by simp, rfl⟩
    | cons m messages ih =>
      obtain ⟨⟨v, hv, rfl⟩, _⟩ := h m (.head _)
      obtain ⟨vs, hvs, rfl⟩ := ih fun m' hm' => h m' (.tail _ hm')
      exact ⟨v :: vs, List.forall_mem_cons.mpr ⟨hv, hvs⟩, rfl⟩
  obtain ⟨vs, hvs, rfl⟩ := hvs
  refine ⟨.obj [(js "v", .num (.ofNat SIGNALING_BUNDLE_VERSION)), (js "roomId", .str roomId),
    (js "messages", .arr vs)], ⟨by simp; decide, readsBack_ofNat (by decide), trivial,
    exactElems_iff.mpr hvs, trivial⟩, ?_⟩
  simp only [bundleOf, bundleMembers, Data.ofJson, Data.ofMembers, ofJsons_map]

theorem bundleMembers_version (roomId : JsString) (messages : List Data) :
    versionField (bundleMembers roomId messages) = .ok () := by
  have hget : ownProperty (bundleMembers roomId messages) (js "v") =
      .num (.ofNat SIGNALING_BUNDLE_VERSION) := rfl
  rw [versionField, hget]
  decide +kernel

theorem bundleMembers_roomId (hroom : isRoomId roomId = true) (messages : List Data) :
    roomIdField (bundleMembers roomId messages) = .ok roomId := by
  have hget : ownProperty (bundleMembers roomId messages) (js "roomId") = .str roomId := rfl
  have hfilter : (some roomId).filter isRoomId = some roomId := by simp [Option.filter, hroom]
  rw [roomIdField, hget, Data.str?, hfilter]

theorem bundleMembers_messages (roomId : JsString) (hne : messages ≠ []) :
    messagesField (bundleMembers roomId messages) = .ok messages := by
  obtain ⟨m, rest, rfl⟩ := List.exists_cons_of_ne_nil hne
  rfl

theorem bundleOf_valid (hroom : isRoomId roomId = true) (hne : messages ≠ [])
    (h : ∀ m ∈ messages, Publishable m) :
    validateSignalingBundle (bundleOf roomId messages) =
      .ok ⟨roomId, messages.filterMap message?⟩ := by
  have hkeys : noOtherKeys (objectKeys (bundleOf roomId messages)) = .ok () := rfl
  have hall := validateMessages_ok (fun m hm => (h m hm).2) 0
  simp only [validateSignalingBundle, hkeys]
  simp only [bundleOf, bundleObject, bind, Except.bind, bundleMembers_version,
    bundleMembers_roomId hroom, bundleMembers_messages roomId hne, hall]
  rfl

/-- The bundle of an outbox is exported, and decoded to its messages. -/
theorem encode_outbox (hP : P.Lossless) (hroom : isRoomId roomId = true) (hne : messages ≠ [])
    (h : ∀ m ∈ messages, Publishable m) :
    ∃ encoded, encodeSignalingBundle P (bundleOf roomId messages) = .ok encoded ∧
      decodeSignalingBundle P encoded = .ok ⟨roomId, messages.filterMap message?⟩ := by
  obtain ⟨v, hv, hbundle⟩ := bundleOf_json roomId h
  have hvalid := bundleOf_valid hroom hne h
  rw [hbundle] at hvalid ⊢
  exact decode_encode P hP hv hvalid

/-! ## Runs -/

/-- An adapter that is open, whose outboxes hold messages of rooms. -/
structure Stored (s : UrlFragmentSignaling) : Prop where
  opened : s.closed = false
  outbox : ∀ roomId messages, s.outbox.get roomId = some messages →
    isRoomId roomId = true ∧ messages ≠ [] ∧ ∀ m ∈ messages, Publishable m

/-- What a step makes of a room's outbox: the bundle it exports and what is waiting after it
are what was waiting, and what it publishes. -/
structure Accounts (P : Platform) (roomId : JsString) (s : UrlFragmentSignaling) (ev : Event) :
    Prop where
  decodes : ∀ encoded ∈ exported P roomId s ev,
    ∃ bundle, decodeSignalingBundle P encoded = .ok bundle ∧ bundle.roomId = roomId
  messages : (exported P roomId s ev).flatMap (contents P) ++ (s.step P ev).1.waiting roomId =
    s.waiting roomId ++ posted roomId s ev

theorem publish_stored (h : s.Stored) {room : JsString} {message : Data}
    (hroom : isRoomId room = true) (hmessage : Publishable message) :
    (s.publish room message).1.Stored ∧ ∀ roomId, Accounts P roomId s (.publish room message) := by
  obtain ⟨m, hm⟩ := Option.isSome_iff_exists.mp hmessage.2
  have hstep : (s.publish room message).1 =
      { s with outbox := s.outbox.set room ((s.outbox.get room).getD [] ++ [message]) } := by
    unfold publish
    rw [if_neg (by simp [h.opened])]
    split
    · next list hlist => simp [hlist]
    · next hnone => simp [hnone]
  refine ⟨?_, fun roomId => ⟨fun _ hmem => (by cases hmem), ?_⟩⟩
  · rw [hstep]
    refine ⟨h.opened, fun roomId messages hget => ?_⟩
    dsimp only at hget
    by_cases hsame : roomId = room
    · subst hsame
      rw [InsMap.get_set_self] at hget
      obtain rfl := Option.some.inj hget
      refine ⟨hroom, by simp, List.forall_mem_append.mpr ⟨?_, by simpa using hmessage⟩⟩
      cases hold : s.outbox.get roomId with
      | none => simp
      | some list => exact (h.outbox roomId list hold).2.2
    · rw [InsMap.get_set_of_ne _ _ hsame] at hget
      exact h.outbox roomId messages hget
  · change [] ++ (s.publish room message).1.waiting roomId = _
    rw [hstep, List.nil_append, waiting, posted]
    by_cases hsame : room = roomId
    · subst hsame
      simp [waiting, h.opened, hm]
    · simp [waiting, hsame, InsMap.get_set_of_ne _ _ (Ne.symm hsame)]

theorem exportBundle_stored (hP : P.Lossless) (h : s.Stored) (room : JsString) :
    (s.exportBundle P room).1.Stored ∧ ∀ roomId, Accounts P roomId s (.exportBundle room) := by
  cases hget : s.outbox.get room with
  | none =>
    have hstep : s.exportBundle P room = (s, [.exported room (.ok [])]) := by
      simp [exportBundle, h.opened, hget]
    refine ⟨by rwa [hstep], fun roomId => ?_⟩
    have hnone : exported P roomId s (.exportBundle room) = [] := by simp [exported, hget]
    exact ⟨by simp [hnone], by simp [hnone, step, hstep, posted]⟩
  | some messages =>
    obtain ⟨hroom, hne, hmessages⟩ := h.outbox room messages hget
    obtain ⟨encoded, hencode, hdecode⟩ := encode_outbox hP hroom hne hmessages
    have hstep : s.exportBundle P room =
        ({ s with outbox := s.outbox.delete room }, [.exported room (.ok encoded)]) := by
      obtain ⟨m, rest, rfl⟩ := List.exists_cons_of_ne_nil hne
      simp [exportBundle, h.opened, hget, hencode, Except.mapError]
    refine ⟨?_, fun roomId => ?_⟩
    · rw [hstep]
      refine ⟨h.opened, fun roomId messages' hget' => ?_⟩
      dsimp only at hget'
      rw [InsMap.get_delete] at hget'
      split at hget'
      · cases hget'
      · exact h.outbox roomId messages' hget'
    · by_cases hsame : room = roomId
      · subst hsame
        have hone : exported P room s (.exportBundle room) = [encoded] := by
          simp [exported, hget, hne, hstep]
        refine ⟨?_, ?_⟩
        · rw [hone]
          intro encoded' hmem
          rw [List.mem_singleton.mp hmem]
          exact ⟨_, hdecode, rfl⟩
        · rw [hone]
          simp [step, hstep, waiting, hget, contents, hdecode, posted]
      · have hnone : exported P roomId s (.exportBundle room) = [] := by simp [exported, hsame]
        refine ⟨by simp [hnone], ?_⟩
        simp [hnone, step, hstep, waiting, posted, InsMap.get_delete_of_ne _ (Ne.symm hsame)]

/-- The steps that have no part in the outbox. -/
theorem step_outbox {ev : Event} (hproper : s.Proper ev)
    (hpublish : ∀ roomId message, ev ≠ .publish roomId message)
    (hexport : ∀ roomId, ev ≠ .exportBundle roomId) :
    (s.step P ev).1.outbox = s.outbox ∧ (s.step P ev).1.closed = s.closed := by
  cases ev with
  | publish roomId message => exact absurd rfl (hpublish roomId message)
  | exportBundle roomId => exact absurd rfl (hexport roomId)
  | close => exact hproper.elim
  | subscribe roomId handler =>
    simp only [step, subscribe, add]
    repeat' split
    all_goals exact ⟨rfl, rfl⟩
  | unsubscribe k =>
    simp only [step, unsubscribe]
    repeat' split
    all_goals exact ⟨rfl, rfl⟩
  | importBundle encoded =>
    simp only [step, importBundle]
    split <;> exact ⟨rfl, rfl⟩
  | decoded k =>
    simp only [step, decoded]
    repeat' split
    all_goals exact ⟨rfl, rfl⟩
  | turn k throws =>
    simp only [step, turn]
    split <;> exact ⟨rfl, rfl⟩

theorem step_stored (hP : P.Lossless) (h : s.Stored) {ev : Event} (hproper : s.Proper ev) :
    (s.step P ev).1.Stored ∧ ∀ roomId, Accounts P roomId s ev := by
  by_cases hpublish : ∃ roomId message, ev = .publish roomId message
  · obtain ⟨roomId, message, rfl⟩ := hpublish
    exact publish_stored h hproper.1 hproper.2
  by_cases hexport : ∃ roomId, ev = .exportBundle roomId
  · obtain ⟨roomId, rfl⟩ := hexport
    exact exportBundle_stored hP h roomId
  obtain ⟨houtbox, hclosed⟩ := step_outbox (P := P) hproper
    (fun roomId message heq => hpublish ⟨roomId, message, heq⟩)
    (fun roomId heq => hexport ⟨roomId, heq⟩)
  refine ⟨⟨hclosed.trans h.opened, by rw [houtbox]; exact h.outbox⟩, fun roomId => ?_⟩
  have hnone : exported P roomId s ev = [] := by
    unfold exported
    split
    · next room => exact absurd ⟨room, rfl⟩ hexport
    · rfl
  have hquiet : posted roomId s ev = [] := by
    unfold posted
    split
    · next room message => exact absurd ⟨room, message, rfl⟩ hpublish
    · rfl
  refine ⟨by simp [hnone], ?_⟩
  simp [hnone, hquiet, waiting, houtbox]

/-- The bundles exported for a room and what is waiting are the messages published to it. -/
theorem run_accounts (hP : P.Lossless) (roomId : JsString) {evs : List Event} :
    ∀ {s : UrlFragmentSignaling}, s.Stored → Guarded (step P) Proper s evs →
      (∀ encoded ∈ noted (step P) (exported P roomId) s evs,
        ∃ bundle, decodeSignalingBundle P encoded = .ok bundle ∧ bundle.roomId = roomId) ∧
      (noted (step P) (exported P roomId) s evs).flatMap (contents P) ++
          (after (step P) s evs).waiting roomId =
        s.waiting roomId ++ noted (step P) (posted roomId) s evs := by
  induction evs with
  | nil => intro s _ _; simp [noted]
  | cons ev evs ih =>
    intro s h hproper
    obtain ⟨hafter, haccounts⟩ := step_stored hP h hproper.1
    obtain ⟨hdecodes, hmessages⟩ := ih hafter hproper.2
    have hone := (haccounts roomId).messages
    refine ⟨List.forall_mem_append.mpr ⟨(haccounts roomId).decodes, hdecodes⟩, ?_⟩
    rw [noted, noted, after_cons, List.flatMap_append, List.append_assoc, hmessages,
      ← List.append_assoc, hone, List.append_assoc]

/-- An export leaves nothing waiting. -/
theorem export_waiting (h : s.closed = false) (roomId : JsString) :
    ((s.step P (.exportBundle roomId)).1).waiting roomId = [] := by
  simp only [step, exportBundle, h, Bool.false_eq_true, if_false]
  split
  · next hnone => simp [waiting, hnone]
  · next hnone => simp [waiting, hnone]
  · simp [waiting]

end UrlFragmentSignaling

end Senn.UrlFragment
