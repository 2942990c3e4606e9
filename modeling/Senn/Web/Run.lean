import Senn.Web.Page

/-! # Runs of the web page

What a page has put out so far: its transport is where the page's calls took it, what it exports
and composes is what its sessions published, and its sessions are the handlers of the transport. -/

namespace Senn.Web
open Senn.Js Senn.Lib Senn.Lib.Machine Senn.Lib.Subscriptions Senn.Protocol Senn.Invite
open Senn.UrlFragment (UrlFragmentSignaling Publishable invokes received)
open Senn.UrlFragment.UrlFragmentSignaling (exportUrl Stored Accounts Dispatched)

/-- The calls of the transport. -/
def requests (outs : List Out) : List UrlFragment.Event :=
  outs.filterMap fun
    | .transport ev _ => some ev
    | _ => none

/-- What the transport puts out. -/
def answers (outs : List Out) : List UrlFragment.Out :=
  outs.flatMap fun
    | .transport _ outs => outs
    | _ => []

def publishedBy (roomId : JsString) : UrlFragment.Event → List SignalingMessage
  | .publish room message => if room = roomId then (message? message).toList else []
  | _ => []

/-- The messages published in a room. -/
def published (roomId : JsString) (outs : List Out) : List SignalingMessage :=
  (requests outs).flatMap (publishedBy roomId)

/-- A JSON value that is a signaling message. -/
def Sendable (message : Data) : Prop :=
  (∃ v : Json, v.Proper ∧ message = .ofJson v) ∧ (message? message).isSome = true

/-- `newRoomId` returns ids of rooms, and sessions publish signaling messages. -/
def Event.Fair : Event → Prop
  | .createRoom id => isRoomId id = true
  | .retry id _ => isRoomId id = true
  | .resumed _ id _ => isRoomId id = true
  | .published _ message => Sendable message
  | _ => True

@[simp] theorem requests_append (a b : List Out) : requests (a ++ b) = requests a ++ requests b :=
  List.filterMap_append

@[simp] theorem answers_append (a b : List Out) : answers (a ++ b) = answers a ++ answers b :=
  List.flatMap_append

@[simp] theorem published_append (roomId : JsString) (a b : List Out) :
    published roomId (a ++ b) = published roomId a ++ published roomId b := by
  simp [published]

theorem failed_silent {outs : List Out} (h : ∀ o ∈ outs, ∃ e, o = .failed e) :
    requests outs = [] ∧ answers outs = [] := by
  constructor
  · refine List.filterMap_eq_nil_iff.mpr fun o ho => ?_
    obtain ⟨e, rfl⟩ := h o ho
    rfl
  · refine List.flatMap_eq_nil_iff.mpr fun o ho => ?_
    obtain ⟨e, rfl⟩ := h o ho
    rfl

/-! ## Candidates in JSON -/

theorem get_ofJson {v : Json} (hv : v.Proper) (k : JsString) :
    (Data.ofJson v).get k = .undefined ∨ ∃ c : Json, c.Proper ∧ (Data.ofJson v).get k = .ofJson c := by
  cases v with
  | obj ms =>
    have hms : ProperMembers ms := hv.2
    clear hv
    induction ms with
    | nil => exact .inl rfl
    | cons m ms ih =>
      obtain ⟨name, v⟩ := m
      by_cases hk : name = k
      · subst hk
        exact .inr ⟨v, hms.1, by simp [Data.get, Data.ofJson, Data.ofMembers, ownProperty]⟩
      · have hnext : (Data.ofJson (.obj ((name, v) :: ms))).get k = (Data.ofJson (.obj ms)).get k := by
          simp [Data.get, Data.ofJson, Data.ofMembers, ownProperty, hk]
        rw [hnext]
        exact ih hms.2
  | _ => exact .inl rfl

theorem Sendable.inJson {message : Data} (h : Sendable message) {m : SignalingMessage}
    (hm : message? message = some m) : m.InJson := by
  obtain ⟨⟨v, hv, rfl⟩, -⟩ := h
  have hcarries := validateMessage_carries (message?_some.mp hm)
  cases m with
  | ice from_ to_ candidate =>
    obtain ⟨-, -, -, hcandidate⟩ := hcarries
    obtain hnone | ⟨c, hc, hget⟩ := get_ofJson hv (js "candidate")
    · obtain ⟨-, _, -, -, hfields⟩ := validateMessage_fields (message?_some.mp hm)
      exact absurd (hcandidate.symm.trans hnone) (hfields (js "candidate", candidate)
        (by simp [SignalingMessage.fields])).2
    · exact ⟨c, hc, hcandidate.symm.trans hget⟩
  | _ => trivial

theorem Sendable.publishable {message : Data} (h : Sendable message) : Publishable message := by
  obtain ⟨⟨v, hv, rfl⟩, hm⟩ := h
  exact ⟨⟨v, hv.exact, rfl⟩, hm⟩

/-! ## What a page has put out -/

/-- An exported bundle holds a stretch of what was published in its room. -/
def Taken (P : Platform) (roomId encoded : JsString) (outs : List Out) : Prop :=
  Kept encoded ∧ ∃ b, decodeSignalingBundle P encoded = .ok b ∧ b.roomId = roomId ∧
    b.messages ≠ [] ∧ b.messages <:+: published roomId outs ∧ ∀ m ∈ b.messages, m.InJson

/-- A link leads to what was published in its room, and to the page as the inviter, or to none. -/
def Linked (parse : UrlParser) (P : Platform) (me roomId url : JsString) (outs : List Out) : Prop :=
  ∃ b inviter, Leads parse P url b inviter ∧ b.roomId = roomId ∧ b.messages ≠ [] ∧
    b.messages <:+: published roomId outs ∧ (inviter = none ∨ inviter = some me)

/-- A page that has put out `outs`. -/
structure Sound (parse : UrlParser) (P : Platform) (me location : JsString) (outs : List Out)
    (s : WebPage) : Prop where
  isMe : s.me = me
  isLocation : s.location = location
  transport : s.transport = after (UrlFragmentSignaling.step P) .create (requests outs)
  proper : ∀ ev ∈ requests outs, ev.Proper
  stored : s.transport.Stored
  tidy : s.transport.setsOf.Tidy
  rooms : ∀ a ∈ s.sessions, isRoomId a.roomId = true
  waiting : ∀ roomId, s.transport.waiting roomId <:+ published roomId outs
  inJson : ∀ roomId, ∀ m ∈ s.transport.waiting roomId, m.InJson
  exports : ∀ roomId encoded, .exporting roomId (.ok encoded) ∈ s.calls → encoded ≠ [] →
    Taken P roomId encoded outs
  links : ∀ roomId url, .link roomId url ∈ outs → Linked parse P me roomId url outs

namespace Sound

variable {parse : UrlParser} {P : Platform} {reason me location : JsString} {outs : List Out}
  {s : WebPage}

theorem load (parse : UrlParser) (P : Platform) (me location : JsString) :
    Sound parse P me location [] (.load me location) where
  isMe := rfl
  isLocation := rfl
  transport := rfl
  proper := by simp [requests]
  stored := ⟨rfl, fun _ _ h => by cases h⟩
  tidy := UrlFragmentSignaling.create_tidy
  rooms := by simp [WebPage.load]
  waiting _ := List.nil_suffix
  inJson _ _ h := by cases h
  exports _ _ h := by cases h
  links _ _ h := by cases h

theorem published_earlier (roomId : JsString) (outs more : List Out) :
    published roomId outs <+: published roomId (outs ++ more) := by
  rw [published_append]
  exact List.prefix_append ..

theorem taken_mono {roomId encoded : JsString} (h : Taken P roomId encoded outs)
    (more : List Out) : Taken P roomId encoded (outs ++ more) := by
  obtain ⟨hkept, b, hdecode, hroom, hne, hinfix, hjson⟩ := h
  exact ⟨hkept, b, hdecode, hroom, hne,
    hinfix.trans (published_earlier roomId outs more).isInfix, hjson⟩

theorem linked_mono {roomId url : JsString} (h : Linked parse P me roomId url outs)
    (more : List Out) : Linked parse P me roomId url (outs ++ more) := by
  obtain ⟨b, inviter, hleads, hroom, hne, hinfix, hinviter⟩ := h
  exact ⟨b, inviter, hleads, hroom, hne,
    hinfix.trans (published_earlier roomId outs more).isInfix, hinviter⟩

/-- What the transport publishes for a request. -/
theorem posted_eq (h : s.transport.closed = false) (roomId : JsString) (ev : UrlFragment.Event) :
    UrlFragmentSignaling.posted roomId s.transport ev = publishedBy roomId ev := by
  cases ev with
  | publish room message => simp [UrlFragmentSignaling.posted, publishedBy, h]
  | _ => rfl

/-- The page calls no transport. -/
theorem quiet (h : Sound parse P me location outs s) {session : Option Nat} {calls : List Call}
    {more : List Out} (hcalls : ∀ roomId encoded, .exporting roomId (.ok encoded) ∈ calls →
      .exporting roomId (.ok encoded) ∈ s.calls) (hmore : requests more = [])
    (hlinks : ∀ roomId url, .link roomId url ∈ more → Linked parse P me roomId url outs) :
    Sound parse P me location (outs ++ more) { s with session, calls } where
  isMe := h.isMe
  isLocation := h.isLocation
  transport := by rw [requests_append, hmore, List.append_nil, h.transport]
  proper := by rw [requests_append, hmore, List.append_nil]; exact h.proper
  stored := h.stored
  tidy := h.tidy
  rooms := h.rooms
  waiting roomId := (h.waiting roomId).trans (by simp [published, hmore])
  inJson := h.inJson
  exports roomId encoded hc hne := taken_mono (h.exports _ _ (hcalls _ _ hc) hne) more
  links roomId url hlink := by
    obtain hlink | hlink := List.mem_append.mp hlink
    · exact linked_mono (h.links _ _ hlink) more
    · exact linked_mono (hlinks _ _ hlink) more

/-- The page calls its transport. -/
theorem call (hP : P.Lossless) (h : Sound parse P me location outs s) {ev : UrlFragment.Event}
    (hev : ev.Proper) (hsend : ∀ room message, ev = .publish room message → Sendable message) :
    Sound parse P me location (outs ++ (s.call P ev).2) (s.call P ev).1 := by
  have hrequests : requests (s.call P ev).2 = [ev] := rfl
  obtain ⟨hstored, haccounts⟩ := UrlFragmentSignaling.step_stored hP h.stored hev
  have hwaiting : ∀ roomId, (s.call P ev).1.transport.waiting roomId <:+
      s.transport.waiting roomId ++ publishedBy roomId ev := by
    intro roomId
    rw [← posted_eq h.stored.opened, ← (haccounts roomId).messages]
    exact List.suffix_append ..
  refine ⟨h.isMe, h.isLocation, ?_, ?_, hstored, ?_, h.rooms, fun roomId => ?_, fun roomId m hm => ?_,
    fun roomId encoded hc hne => taken_mono (h.exports _ _ hc hne) _, fun roomId url hlink => ?_⟩
  · rw [requests_append, hrequests, after_append, ← h.transport]
    rfl
  · rw [requests_append, hrequests]
    exact List.forall_mem_append.mpr ⟨h.proper, by simpa using hev⟩
  · have hopen : ev ≠ .close := by
      rintro rfl
      exact hev
    exact (UrlFragmentSignaling.step_sets (P := P) h.tidy hopen).1.setMove.tidy h.tidy
  · rw [published_append]
    refine (hwaiting roomId).trans ?_
    obtain ⟨before, heq⟩ := h.waiting roomId
    refine ⟨before, ?_⟩
    rw [← heq]
    simp [published, hrequests]
  · obtain hm | hm := List.mem_append.mp ((hwaiting roomId).subset hm)
    · exact h.inJson roomId m hm
    · cases ev with
      | publish room message =>
        rw [publishedBy] at hm
        split at hm
        · exact (hsend room message rfl).inJson (by simpa using hm)
        · cases hm
      | _ => cases hm
  · obtain hlink | hlink := List.mem_append.mp hlink
    · exact linked_mono (h.links _ _ hlink) _
    · cases List.mem_singleton.mp hlink

/-- What is exported is what was waiting. -/
theorem taken_of_export (hP : Deflates P) (h : Sound parse P me location outs s)
    {roomId encoded : JsString} (hresult : s.transport.exportResult P roomId = .ok encoded)
    (hne : encoded ≠ []) : Taken P roomId encoded outs := by
  unfold UrlFragmentSignaling.exportResult at hresult
  rw [if_neg (by simp [h.stored.opened])] at hresult
  split at hresult
  · exact absurd (Except.ok.inj hresult).symm hne
  · exact absurd (Except.ok.inj hresult).symm hne
  · next messages _ hget =>
    obtain ⟨hroom, hmessages, hall⟩ := h.stored.outbox _ _ hget
    obtain ⟨encoded', hencode, hdecode⟩ :=
      UrlFragmentSignaling.encode_outbox hP.lossless hroom hmessages hall
    rw [hencode] at hresult
    obtain rfl := Except.ok.inj hresult
    have hwaiting : s.transport.waiting roomId = messages.filterMap message? := by
      rw [UrlFragmentSignaling.waiting, hget, Option.getD_some]
    refine ⟨(encodeSignalingBundle_kept hP hencode).1, _, hdecode, rfl, ?_, ?_, ?_⟩
    · obtain ⟨m, rest, rfl⟩ := List.exists_cons_of_ne_nil hmessages
      obtain ⟨m', hm'⟩ := Option.isSome_iff_exists.mp (hall m (.head _)).2
      simp [hm']
    · rw [← hwaiting]
      exact (h.waiting roomId).isInfix
    · rw [← hwaiting]
      exact h.inJson roomId

theorem exporting (hP : Deflates P) (h : Sound parse P me location outs s) (roomId : JsString) :
    Sound parse P me location
      (outs ++ ((s.await (.exporting roomId (s.transport.exportResult P roomId))).call P
        (.exportBundle roomId)).2)
      ((s.await (.exporting roomId (s.transport.exportResult P roomId))).call P
        (.exportBundle roomId)).1 := by
  have hawait : Sound parse P me location outs
      (s.await (.exporting roomId (s.transport.exportResult P roomId))) := by
    refine { h with exports := fun room encoded hc hne => ?_ }
    obtain hc | hc := List.mem_append.mp hc
    · exact h.exports room encoded hc hne
    · obtain ⟨rfl, hresult⟩ := Call.exporting.inj (List.mem_singleton.mp hc)
      exact taken_of_export hP h hresult.symm hne
  exact hawait.call hP.lossless trivial fun _ _ heq => by cases heq

theorem attached (hP : P.Lossless) (h : Sound parse P me location outs s) {a : Attached}
    {room remotePeer : Option JsString} {calls : List Call} (ha : isRoomId a.roomId = true)
    (hcalls : ∀ roomId encoded, .exporting roomId (.ok encoded) ∈ calls →
      .exporting roomId (.ok encoded) ∈ s.calls) :
    Sound parse P me location
      (outs ++ ({ s with room, remotePeer, calls }.attach P a).2)
      ({ s with room, remotePeer, calls }.attach P a).1 := by
  have hattached : Sound parse P me location outs
      { s with
        room, remotePeer, calls
        session := some s.sessions.length
        sessions := s.sessions ++ [a] } :=
    { h with
      rooms := List.forall_mem_append.mpr ⟨h.rooms, by simpa using ha⟩
      exports := fun roomId encoded hc hne => h.exports _ _ (hcalls _ _ hc) hne }
  exact hattached.call hP trivial fun _ _ heq => by cases heq

/-- The link that is made of a bundle. -/
theorem linked (hparse : parse.Reparses) (hP : Deflates P) (hlocation : Located parse location)
    (h : Sound parse P me location outs s) {roomId encoded url : JsString}
    (htaken : Taken P roomId encoded outs) (hne : encoded ≠ [])
    (hurl : exportUrl parse P s.toPage roomId encoded = .ok url) :
    Linked parse P me roomId url outs := by
  obtain ⟨hkept, b, hdecode, rfl, hmessages, hinfix, hjson⟩ := htaken
  have hbase : s.toPage.base = location := h.isLocation
  have hme : s.toPage.me = me := h.isMe
  cases hhop : s.toPage.isFirstHop with
  | true =>
    have hleads := inviter_leads hparse hP hhop hdecode hjson hurl
    rw [hme] at hleads
    exact ⟨b, _, hleads, rfl, hmessages, hinfix, .inr rfl⟩
  | false =>
    unfold exportUrl at hurl
    rw [hhop, if_neg (by simp), hbase] at hurl
    obtain rfl := Except.ok.inj hurl
    exact ⟨b, none, joiner_leads hparse hlocation hkept hne hdecode, rfl, hmessages, hinfix, .inl rfl⟩

theorem attaches_room {ev : Event} (hev : ev.Fair) {a : Attached}
    (ha : WebPage.Attaches parse P s ev a) : isRoomId a.roomId = true := by
  cases ha with
  | created => exact hev
  | again => exact hev
  | later => exact hev
  | joined _ hparsed =>
    obtain ⟨_, -, -, hinvite, -⟩ := parseInviteBundleUrl_ok.mp hparsed
    obtain ⟨_, -, -, hdecode⟩ := inviteParam_ok.mp hinvite
    exact (decodeInvite_valid hdecode).roomId

theorem step (reason : JsString) (hparse : parse.Reparses) (hP : Deflates P)
    (hlocation : Located parse location) (h : Sound parse P me location outs s)
    {ev : Event} (hev : ev.Fair) :
    Sound parse P me location (outs ++ (s.step parse P reason ev).2)
      (s.step parse P reason ev).1 := by
  have hexporting : ∀ {calls : List Call}, (∀ c ∈ calls, s.Traced ev c) →
      ∀ roomId encoded, .exporting roomId (.ok encoded) ∈ calls →
        .exporting roomId (.ok encoded) ∈ s.calls := fun hcalls roomId encoded hc =>
    hcalls _ hc
  have hmoves := WebPage.step_moves parse P reason s ev
  generalize s.step parse P reason ev = r at hmoves ⊢
  cases hmoves with
  | quiet hcalls houts =>
    refine h.quiet (hexporting hcalls) (failed_silent houts).1 fun _ _ hlink => ?_
    obtain ⟨e, he⟩ := houts _ hlink
    cases he
  | linked hcalls hk hne hurl =>
    have htaken := h.exports _ _ (List.mem_of_getElem? hk) hne
    have hlinked := h.linked hparse hP hlocation htaken hne hurl
    refine h.quiet (hexporting hcalls) rfl fun roomId url hlink => ?_
    obtain ⟨rfl, rfl⟩ := Out.link.inj (List.mem_singleton.mp hlink)
    exact hlinked
  | attached hcalls ha =>
    exact h.attached hP.lossless (attaches_room hev ha) (hexporting hcalls)
  | exporting => exact h.exporting hP _
  | @importing href encoded calls hcalls =>
    have hcalled : Sound parse P me location outs { s with calls } :=
      { h with exports := fun _ _ hc hne => h.exports _ _ (hexporting hcalls _ _ hc) hne }
    exact hcalled.call hP.lossless trivial fun _ _ heq => by cases heq
  | passed hpasses =>
    cases hpasses with
    | published ha =>
      refine h.call hP.lossless ⟨h.rooms _ (List.mem_of_getElem? ha), hev.publishable⟩ ?_
      intro room message heq
      obtain ⟨-, rfl⟩ := UrlFragment.Event.publish.inj heq
      exact hev
    | left => exact h.call hP.lossless trivial fun _ _ heq => by cases heq
    | decoded => exact h.call hP.lossless trivial fun _ _ heq => by cases heq
    | turn => exact h.call hP.lossless trivial fun _ _ heq => by cases heq

theorem run (reason : JsString) (hparse : parse.Reparses) (hP : Deflates P)
    (hlocation : Located parse location) (evs : List Event) :
    ∀ {outs : List Out} {s : WebPage}, Sound parse P me location outs s →
      (∀ ev ∈ evs, ev.Fair) →
      Sound parse P me location (outs ++ outputs (WebPage.step parse P reason) s evs)
        (after (WebPage.step parse P reason) s evs) := by
  induction evs with
  | nil =>
    intro outs s h _
    rwa [outputs_nil, List.append_nil, after_nil]
  | cons ev evs ih =>
    intro outs s h hfair
    obtain ⟨hev, hevs⟩ := List.forall_mem_cons.mp hfair
    rw [outputs_cons, after_cons, ← List.append_assoc]
    exact ih (h.step reason hparse hP hlocation hev) hevs

end Sound

/-! ## Sessions as handlers -/

/-- Session `k` is subscribed by the `k`-th call, as handler `k` of its room. -/
structure Housed (s : WebPage) : Prop where
  calls : s.transport.unsubscribes.length = s.sessions.length
  handler : ∀ (k : Nat) (room : JsString) (n : Nat),
    s.transport.unsubscribes[k]? = some (room, n) → n = k
  members : ∀ room, ∀ k ∈ s.transport.subscribed room,
    ∃ a, s.sessions[k]? = some a ∧ a.roomId = room

theorem housed_load (me location : JsString) : Housed (.load me location) where
  calls := rfl
  handler _ _ _ h := by cases h
  members _ _ h := by cases h

/-- What a step does with the transport. -/
inductive Called (P : Platform) (s : WebPage) (ev : Event) (r : WebPage × List Out) : Prop
  | silent : r.1.transport = s.transport → r.1.sessions = s.sessions → requests r.2 = [] →
      answers r.2 = [] → Called P s ev r
  | request {ev' : UrlFragment.Event} : r.1.transport = (s.transport.step P ev').1 →
      r.1.sessions = s.sessions → requests r.2 = [ev'] →
      answers r.2 = (s.transport.step P ev').2 → (∀ room n, ev' ≠ .subscribe room n) →
      (∀ k, ev' = .unsubscribe k → ev = .left k) → Called P s ev r
  | attached {a : Attached} :
      r.1.transport = (s.transport.step P (.subscribe a.roomId s.sessions.length)).1 →
      r.1.sessions = s.sessions ++ [a] →
      requests r.2 = [.subscribe a.roomId s.sessions.length] →
      answers r.2 = (s.transport.step P (.subscribe a.roomId s.sessions.length)).2 →
      Called P s ev r

section
variable {parse : UrlParser} {P : Platform} {reason me location : JsString} {outs : List Out}
  {s : WebPage} {ev : Event}

variable (parse P reason) in
theorem step_called (s : WebPage) (ev : Event) :
    Called P s ev (s.step parse P reason ev) := by
  have hmoves := WebPage.step_moves parse P reason s ev
  generalize s.step parse P reason ev = r at hmoves ⊢
  have hcall : ∀ (s' : WebPage) (ev' : UrlFragment.Event),
      answers (s'.call P ev').2 = (s'.transport.step P ev').2 := fun s' ev' => List.append_nil _
  cases hmoves with
  | quiet _ houts => exact .silent rfl rfl (failed_silent houts).1 (failed_silent houts).2
  | linked => exact .silent rfl rfl rfl rfl
  | attached => exact .attached rfl rfl rfl (hcall _ _)
  | exporting => exact .request rfl rfl rfl (hcall _ _) (by simp) (by simp)
  | importing => exact .request rfl rfl rfl (hcall _ _) (by simp) (by simp)
  | passed hpasses =>
    cases hpasses with
    | published => exact .request rfl rfl rfl (hcall _ _) (by simp) (by simp)
    | left k =>
      refine .request rfl rfl rfl (hcall _ _) (by simp) fun n heq => ?_
      rw [UrlFragment.Event.unsubscribe.inj heq]
    | decoded => exact .request rfl rfl rfl (hcall _ _) (by simp) (by simp)
    | turn => exact .request rfl rfl rfl (hcall _ _) (by simp) (by simp)

/-- A call of the transport that subscribes nobody. -/
theorem other_op {ev' : UrlFragment.Event} (hother : ∀ room n, ev' ≠ .subscribe room n)
    (room : JsString) (n : Nat) : s.transport.op ev' ≠ some (.subscribe room n) := by
  cases ev' with
  | subscribe room n => exact absurd rfl (hother room n)
  | _ => simp [UrlFragmentSignaling.op]

theorem Called.housed {r : WebPage × List Out} (hc : Called P s ev r)
    (hsound : Sound parse P me location outs s) (hproper : ∀ e ∈ requests r.2, e.Proper)
    (h : Housed s) : Housed r.1 := by
  cases hc with
  | silent htransport hsessions => exact ⟨by rw [htransport, hsessions, h.calls],
      by rw [htransport]; exact h.handler, by rw [htransport, hsessions]; exact h.members⟩
  | @request ev' htransport hsessions hrequests _ hother =>
    have hopen : ev' ≠ .close := by
      rintro rfl
      exact hproper .close (by rw [hrequests]; exact .head _)
    obtain ⟨hmove, -⟩ := UrlFragmentSignaling.step_sets (P := P) hsound.tidy hopen
    rw [← htransport] at hmove
    have hcalls : r.1.transport.unsubscribes = s.transport.unsubscribes := by
      generalize hop : s.transport.op ev' = op at hmove
      have hno := other_op (s := s) hother
      rw [hop] at hno
      generalize r.1.transport.setsOf = sets, r.1.transport.unsubscribes = calls at hmove ⊢
      cases hmove with
      | none => rfl
      | void => rfl
      | left => rfl
      | member => exact absurd rfl (hno _ _)
      | joined => exact absurd rfl (hno _ _)
    refine ⟨by rw [hcalls, hsessions, h.calls], by rw [hcalls]; exact h.handler,
      fun room k hk => ?_⟩
    obtain hk | hop := hmove.mem_members hsound.tidy hk
    · rw [hsessions]
      exact h.members room k hk
    · exact absurd hop (other_op hother _ _)
  | @attached a htransport hsessions =>
    have hopen : UrlFragment.Event.subscribe a.roomId s.sessions.length ≠ .close := by simp
    obtain ⟨hmove, -⟩ := UrlFragmentSignaling.step_sets (P := P) hsound.tidy hopen
    have hop : s.transport.op (.subscribe a.roomId s.sessions.length) =
        some (.subscribe a.roomId s.sessions.length) := by
      simp [UrlFragmentSignaling.op, hsound.stored.opened]
    rw [hop, ← htransport] at hmove
    have hcalls : r.1.transport.unsubscribes =
        s.transport.unsubscribes ++ [(a.roomId, s.sessions.length)] := by
      generalize r.1.transport.setsOf = sets, r.1.transport.unsubscribes = calls at hmove ⊢
      cases hmove with
      | member => rfl
      | joined => rfl
    refine ⟨by simp [hcalls, hsessions, h.calls], fun k room n hk => ?_, fun room k hk => ?_⟩
    · rw [hcalls, List.getElem?_append] at hk
      split at hk
      · exact h.handler k room n hk
      · next hlt =>
        obtain ⟨hlt', heq⟩ := List.getElem?_eq_some_iff.mp hk
        have hk' : k = s.sessions.length := by
          simp only [List.length_singleton] at hlt'
          rw [h.calls] at hlt hlt'
          omega
        subst hk'
        simp [← h.calls] at hk
        rw [← hk.2, h.calls]
    · rw [hsessions]
      obtain hk | hop := hmove.mem_members hsound.tidy hk
      · obtain ⟨a', ha', hroom⟩ := h.members room k hk
        exact ⟨a', List.getElem?_append_left (List.getElem?_eq_some_iff.mp ha').1 ▸ ha', hroom⟩
      · obtain ⟨rfl, rfl⟩ := Op.subscribe.inj (Option.some.inj hop)
        exact ⟨a, List.getElem?_concat_length, rfl⟩

/-- A session that does not leave stays subscribed. -/
theorem Called.stays {r : WebPage × List Out} (hc : Called P s ev r)
    (hsound : Sound parse P me location outs s) (hproper : ∀ e ∈ requests r.2, e.Proper)
    (h : Housed s) {room : JsString} {k : Nat} (hk : k ∈ s.transport.subscribed room)
    (hleft : ev ≠ .left k) : k ∈ r.1.transport.subscribed room := by
  cases hc with
  | silent htransport => rwa [htransport]
  | @request ev' htransport _ hrequests _ _ hunsubscribe =>
    have hopen : ev' ≠ .close := by
      rintro rfl
      exact hproper .close (by rw [hrequests]; exact .head _)
    obtain ⟨hmove, -⟩ := UrlFragmentSignaling.step_sets (P := P) hsound.tidy hopen
    rw [← htransport] at hmove
    refine hmove.stays hsound.tidy hk fun n hop hcall => ?_
    obtain rfl := h.handler n room k hcall
    cases ev' with
    | unsubscribe m =>
      obtain rfl := Op.undo.inj (Option.some.inj hop)
      exact hleft (hunsubscribe _ rfl)
    | subscribe room n =>
      rw [UrlFragmentSignaling.op] at hop
      split at hop <;> cases hop
    | _ => cases hop
  | @attached a htransport =>
    have hopen : UrlFragment.Event.subscribe a.roomId s.sessions.length ≠ .close := by simp
    obtain ⟨hmove, -⟩ := UrlFragmentSignaling.step_sets (P := P) hsound.tidy hopen
    rw [← htransport] at hmove
    refine hmove.stays hsound.tidy hk fun n hop => ?_
    rw [UrlFragmentSignaling.op] at hop
    split at hop <;> cases hop

/-- While an import is dispatched, a session that does not leave gets what it has yet to get. -/
theorem run_handed (reason : JsString) (hparse : parse.Reparses) (hP : Deflates P)
    (hlocation : Located parse location) {encoded room : JsString} {i j k : Nat}
    (evs : List Event) : ∀ {outs : List Out} {s : WebPage},
    Sound parse P me location outs s → Housed s → (∀ ev ∈ evs, ev.Fair) →
      s.transport.Dispatched P encoded j room i → k ∈ s.transport.subscribed room →
      (∀ ev ∈ evs, ev ≠ .left k) →
      received k (invokes j (answers (outputs (WebPage.step parse P reason) s evs))) ++
          (after (WebPage.step parse P reason) s evs).transport.remaining j k =
        s.transport.remaining j k := by
  induction evs with
  | nil =>
    intro _ s _ _ _ _ _ _
    rfl
  | cons ev evs ih =>
    intro outs s hsound hhoused hfair hdispatched hk hleft
    obtain ⟨hev, hevs⟩ := List.forall_mem_cons.mp hfair
    obtain ⟨hleft, hlefts⟩ := List.forall_mem_cons.mp hleft
    have hcalled := step_called parse P reason s ev
    have hnext := hsound.step reason hparse hP hlocation hev
    have hproper : ∀ e ∈ requests (s.step parse P reason ev).2, e.Proper := fun e he =>
      hnext.proper e (by rw [requests_append]; exact List.mem_append_right _ he)
    have hstays := hcalled.stays hsound hproper hhoused hk hleft
    have hone : (s.step parse P reason ev).1.transport.Dispatched P encoded j room i ∧
        received k (invokes j (answers (s.step parse P reason ev).2)) ++
          (s.step parse P reason ev).1.transport.remaining j k = s.transport.remaining j k := by
      have hlater := hstays
      cases hcalled with
      | silent htransport _ _ hanswers =>
        rw [htransport, hanswers]
        exact ⟨hdispatched, rfl⟩
      | @request ev' htransport _ hrequests hanswers =>
        have hopen : ev' ≠ .close := by
          rintro rfl
          exact hproper .close (by rw [hrequests]; exact .head _)
        rw [htransport] at hlater ⊢
        rw [hanswers]
        exact UrlFragmentSignaling.step_dispatched hsound.tidy hopen hdispatched hk hlater
      | attached htransport _ _ hanswers =>
        rw [htransport] at hlater ⊢
        rw [hanswers]
        exact UrlFragmentSignaling.step_dispatched hsound.tidy (by simp) hdispatched hk hlater
    rw [outputs_cons, after_cons, answers_append, UrlFragment.invokes_append,
      UrlFragment.received_append, List.append_assoc,
      ih hnext (hcalled.housed hsound hproper hhoused) hevs hone.1 hstays hlefts, hone.2]

end

section
variable {parse : UrlParser} {P : Platform} {reason me location : JsString}

theorem run_housed (hparse : parse.Reparses) (hP : Deflates P) (hlocation : Located parse location)
    (evs : List Event) : ∀ {outs : List Out} {s : WebPage}, Sound parse P me location outs s →
      Housed s → (∀ ev ∈ evs, ev.Fair) → Housed (after (WebPage.step parse P reason) s evs) := by
  induction evs with
  | nil => exact fun _ h _ => h
  | cons ev evs ih =>
    intro outs s hsound h hfair
    obtain ⟨hev, hevs⟩ := List.forall_mem_cons.mp hfair
    have hnext := hsound.step reason hparse hP hlocation hev
    have hproper : ∀ e ∈ requests (s.step parse P reason ev).2, e.Proper := fun e he =>
      hnext.proper e (by rw [requests_append]; exact List.mem_append_right _ he)
    exact ih hnext ((step_called parse P reason s ev).housed hsound hproper h) hevs

variable (parse P reason) in
/-- A session is there for good. -/
theorem run_sessions (evs : List Event) : ∀ s : WebPage,
    s.sessions <+: (after (WebPage.step parse P reason) s evs).sessions := by
  induction evs with
  | nil => exact fun s => List.prefix_rfl
  | cons ev evs ih =>
    intro s
    refine List.IsPrefix.trans ?_ (ih _)
    cases step_called parse P reason s ev with
    | silent _ hsessions => exact hsessions ▸ List.prefix_rfl
    | request _ hsessions => exact hsessions ▸ List.prefix_rfl
    | attached _ hsessions => exact hsessions ▸ List.prefix_append _ _

/-- What an adapter imports, it was called to import. -/
theorem mem_imported {encoded : JsString} {evs : List UrlFragment.Event} :
    ∀ {s : UrlFragmentSignaling},
      encoded ∈ noted (UrlFragmentSignaling.step P) UrlFragmentSignaling.imported s evs →
      .importBundle encoded ∈ evs := by
  induction evs with
  | nil =>
    intro s h
    cases h
  | cons ev evs ih =>
    intro s h
    obtain h | h := List.mem_append.mp h
    · cases ev with
      | importBundle encoded' => exact List.mem_singleton.mp h ▸ .head _
      | _ => cases h
    · exact .tail _ (ih h)

/-- An import of the transport was asked for by the page. -/
theorem Sound.import_requested {outs : List Out} {s : WebPage}
    (h : Sound parse P me location outs s) {j : Nat} {stage : UrlFragment.ImportStage}
    (hj : s.transport.imports[j]? = some stage) : ∃ encoded, .importBundle encoded ∈ requests outs ∧
      UrlFragmentSignaling.Sound P s.transport encoded stage := by
  have hproper : Guarded (UrlFragmentSignaling.step P) UrlFragmentSignaling.Proper .create
      (requests outs) := guarded_iff_forall.mpr fun pre ev post heq =>
    h.proper ev (heq ▸ List.mem_append_right pre (.head _))
  obtain ⟨-, hall⟩ := UrlFragmentSignaling.run_sound hproper
  rw [← h.transport] at hall
  obtain ⟨encoded, hencoded, hsound⟩ := hall j stage hj
  exact ⟨encoded, mem_imported (List.mem_of_getElem? hencoded), hsound⟩

/-- Only sessions of the room of an imported bundle are called, with messages of the bundle. -/
theorem Sound.step_invoked {outs : List Out} {s : WebPage} {ev : Event}
    (h : Sound parse P me location outs s)
    (hproper : ∀ e ∈ requests (s.step parse P reason ev).2, e.Proper) {j k : Nat}
    {m : SignalingMessage}
    (hinvoke : .invoke j k m ∈ answers (s.step parse P reason ev).2) : ∃ encoded b,
      .importBundle encoded ∈ requests outs ∧ decodeSignalingBundle P encoded = .ok b ∧
        m ∈ b.messages ∧ k ∈ s.transport.subscribed b.roomId := by
  have hcall : ∀ {ev' : UrlFragment.Event}, ev' ≠ .close →
      .invoke j k m ∈ (s.transport.step P ev').2 → ∃ encoded b,
      .importBundle encoded ∈ requests outs ∧ decodeSignalingBundle P encoded = .ok b ∧
        m ∈ b.messages ∧ k ∈ s.transport.subscribed b.roomId := by
    intro ev' hopen hmem
    have hinvokes : (k, m) ∈ invokes j (s.transport.step P ev').2 :=
      List.mem_filterMap.mpr ⟨_, hmem, by simp⟩
    cases hj : s.transport.imports[j]? with
    | none =>
      rw [UrlFragmentSignaling.invokes_none hj] at hinvokes
      cases hinvokes
    | some stage =>
      obtain ⟨encoded, hrequest, hsound⟩ := h.import_requested hj
      obtain ⟨_, _, hmove⟩ := UrlFragmentSignaling.step_import (P := P) h.tidy hopen hj
      obtain ⟨b, hdecode, hm, hk⟩ := hmove.calls_subscribed hsound _ hinvokes
      exact ⟨encoded, b, hrequest, hdecode, hm, hk⟩
  cases step_called parse P reason s ev with
  | silent _ _ _ hanswers =>
    rw [hanswers] at hinvoke
    cases hinvoke
  | @request ev' _ _ hrequests hanswers =>
    refine hcall ?_ (hanswers ▸ hinvoke)
    rintro rfl
    exact hproper .close (by rw [hrequests]; exact .head _)
  | attached _ _ _ hanswers => exact hcall (by simp) (hanswers ▸ hinvoke)

end

end Senn.Web
