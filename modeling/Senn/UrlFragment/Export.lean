import Senn.Protocol.InviteForm
import Senn.Session.PeerSession
import Senn.UrlFragment.Outbox

/-! # Exports that fail

`exportBundle` takes the messages out of the outbox before `encodeSignalingBundle`
looks at them, and `composeExportUrl` of the host builds its URL when they are
gone. Nothing puts them back: an export that fails loses exactly what it had
taken out. -/

namespace Senn.UrlFragment
open Senn.Js Senn.Lib Senn.Lib.Machine Senn.Protocol
open Senn.Invite (InviteUrlError SENN_PROTOCOL_VERSION SIGNALING_BUNDLE_FRAGMENT_KEY studioInvite
  INVITE_URL_MAX_LENGTH allowedScheme assertAllowedScheme bothText rawMessages demand demand_ok
  buildInviteBundleUrl encodeInvite parseUrl_ok checkLength_ok)
open Senn.Session (PeerSessionRole)

/-- What `composeExportUrl` rejects with. -/
inductive ComposeError where
  | adapter (e : AdapterError)
  | bundle (e : BundleError)
  | url (e : InviteUrlError)

/-- The variables of the host that `composeExportUrl` reads after its `await`;
`base` is the origin and the path of the page. -/
structure Page where
  me : JsString
  remotePeer : Option JsString
  sessionRole : Option PeerSessionRole
  base : JsString

def Page.isFirstHop (page : Page) : Bool :=
  page.remotePeer = none ∧ page.sessionRole = some .inviter

/-- The invite of the first hop. -/
def Page.invite (page : Page) (roomId : JsString) : Data :=
  .obj [(js "v", .num (.ofNat 1)), (js "roomId", .str roomId), (js "from", .str page.me),
    (js "protocolVersion", .str SENN_PROTOCOL_VERSION),
    (js "capabilities", .arr [.str (js "text-v1")] [])]

/-- `UrlFragmentSignaling.toFragment` -/
def toFragment (encoded : JsString) : JsString :=
  SIGNALING_BUNDLE_FRAGMENT_KEY ++ 0x3D :: encoded

namespace UrlFragmentSignaling

variable (parse : UrlParser) (P : Platform)

/-- What the promise of `exportBundle` settles to. -/
def exportResult (s : UrlFragmentSignaling) (roomId : JsString) : Except AdapterError JsString :=
  if s.closed then .error .closed
  else
    match s.outbox.get roomId with
    | none | some [] => .ok []
    | some messages => (encodeSignalingBundle P (bundleOf roomId messages)).mapError .bundle

/-- `composeExportUrl` after its `await` of `exportBundle`. -/
def exportUrl (page : Page) (roomId encoded : JsString) : Except ComposeError JsString :=
  if page.isFirstHop then do
    let decoded ← (decodeSignalingBundle P encoded).mapError .bundle
    (buildInviteBundleUrl parse P page.base (page.invite roomId)
      (SignalingBundleV1.toData ⟨roomId, decoded.messages⟩)).mapError .url
  else .ok (page.base ++ 0x23 :: toFragment encoded)

/-- `composeExportUrl`; `none` is `null`. -/
def composeExportUrl (s : UrlFragmentSignaling) (room : Option JsString) (page : Page) :
    UrlFragmentSignaling × Except ComposeError (Option JsString) :=
  match room with
  | none | some [] => (s, .ok none)
  | some roomId =>
    ((s.exportBundle P roomId).1,
      match s.exportResult P roomId with
      | .error e => .error (.adapter e)
      | .ok [] => .ok (some [])
      | .ok encoded => (exportUrl parse P page roomId encoded).map some)

/-- The messages waiting in a room's outbox. -/
def pending (s : UrlFragmentSignaling) (roomId : JsString) : List Data :=
  (s.outbox.get roomId).getD []

/-- The message that an event adds to a room's outbox. -/
def added (roomId : JsString) (s : UrlFragmentSignaling) : Event → List Data
  | .publish room message => if room = roomId ∧ s.closed = false then [message] else []
  | _ => []

/-- The event is no export of the room, and not `close`. -/
def Calm (roomId : JsString) (_ : UrlFragmentSignaling) : Event → Prop
  | .exportBundle room => room ≠ roomId
  | .close => False
  | _ => True

/-- Whatever is published afterwards, the room's outbox holds what it held in `s`, and then
what was published. -/
def Keeps (roomId : JsString) (s s' : UrlFragmentSignaling) : Prop :=
  ∀ more, Guarded (step P) (Calm roomId) s' more →
    (after (step P) s' more).pending roomId =
      s.pending roomId ++ noted (step P) (added roomId) s' more

variable {P} {s : UrlFragmentSignaling} {roomId : JsString}

/-! ## The three cases of `exportBundle` -/

theorem export_closed (h : s.closed = true) :
    s.exportBundle P roomId = (s, [.exported roomId (s.exportResult P roomId)]) ∧
      s.exportResult P roomId = .error .closed := by
  simp [exportBundle, exportResult, h]

theorem export_empty (h : s.closed = false) (hempty : s.pending roomId = []) :
    s.exportBundle P roomId = (s, [.exported roomId (s.exportResult P roomId)]) ∧
      s.exportResult P roomId = .ok [] := by
  unfold pending at hempty
  cases hget : s.outbox.get roomId with
  | none => simp [exportBundle, exportResult, h, hget]
  | some messages =>
    rw [hget] at hempty
    obtain rfl : messages = [] := hempty
    simp [exportBundle, exportResult, h, hget]

theorem export_drains (h : s.closed = false) (hne : s.pending roomId ≠ []) :
    s.exportBundle P roomId = ({ s with outbox := s.outbox.delete roomId },
        [.exported roomId (s.exportResult P roomId)]) ∧
      s.exportResult P roomId =
        (encodeSignalingBundle P (bundleOf roomId (s.pending roomId))).mapError .bundle := by
  cases hget : s.outbox.get roomId with
  | none => exact absurd (by simp [pending, hget]) hne
  | some messages =>
    cases messages with
    | nil => exact absurd (by simp [pending, hget]) hne
    | cons m rest => simp [exportBundle, exportResult, h, hget, pending]

/-! ## What comes after an export -/

theorem exportBundle_other {room : JsString} (h : room ≠ roomId) :
    (s.exportBundle P room).1.pending roomId = s.pending roomId := by
  unfold exportBundle
  split
  · rfl
  · split
    · rfl
    · rfl
    · simp [pending, InsMap.get_delete_of_ne _ (Ne.symm h)]

theorem publish_pending (s : UrlFragmentSignaling) (roomId room : JsString) (message : Data) :
    (s.publish room message).1.pending roomId =
      s.pending roomId ++ s.added roomId (.publish room message) := by
  unfold publish added
  cases hclosed : s.closed with
  | true => simp
  | false =>
    by_cases hroom : room = roomId
    · subst hroom
      cases hget : s.outbox.get room with
      | none => simp [pending, hget]
      | some list => simp [pending, hget]
    · cases hget : s.outbox.get room with
      | none => simp [pending, hroom, InsMap.get_set_of_ne _ _ (Ne.symm hroom)]
      | some list => simp [pending, hroom, InsMap.get_set_of_ne _ _ (Ne.symm hroom)]

/-- A calm step adds to the outbox what it publishes. -/
theorem calm_pending {ev : Event} (h : s.Calm roomId ev) :
    (s.step P ev).1.pending roomId = s.pending roomId ++ s.added roomId ev := by
  by_cases hpublish : ∃ room message, ev = .publish room message
  · obtain ⟨room, message, rfl⟩ := hpublish
    exact publish_pending s roomId room message
  by_cases hexport : ∃ room, ev = .exportBundle room
  · obtain ⟨room, rfl⟩ := hexport
    simpa [added, step] using exportBundle_other (P := P) h
  have hproper : s.Proper ev := by
    cases ev with
    | publish room message => exact absurd ⟨room, message, rfl⟩ hpublish
    | close => exact h
    | _ => trivial
  have hadded : s.added roomId ev = [] := by
    cases ev with
    | publish room message => exact absurd ⟨room, message, rfl⟩ hpublish
    | _ => rfl
  obtain ⟨houtbox, _⟩ := step_outbox (P := P) hproper
    (fun room message heq => hpublish ⟨room, message, heq⟩) (fun room heq => hexport ⟨room, heq⟩)
  rw [hadded, List.append_nil, pending, pending, houtbox]

theorem calm_run_pending {more : List Event} :
    ∀ {s : UrlFragmentSignaling}, Guarded (step P) (Calm roomId) s more →
      (after (step P) s more).pending roomId =
        s.pending roomId ++ noted (step P) (added roomId) s more := by
  induction more with
  | nil => intro s _; simp [noted]
  | cons ev more ih =>
    intro s h
    rw [after_cons, ih h.2, calm_pending h.1, noted, List.append_assoc]

/-- An outbox is kept when nothing was taken out of it. -/
theorem keeps_iff {s' : UrlFragmentSignaling} :
    Keeps P roomId s s' ↔ s'.pending roomId = s.pending roomId := by
  constructor
  · intro h
    simpa [noted] using h [] trivial
  · intro h more hmore
    rw [calm_run_pending hmore, h]

theorem export_keeps (h : s.closed = true ∨ s.pending roomId = []) :
    Keeps P roomId s (s.exportBundle P roomId).1 := by
  refine keeps_iff.mpr ?_
  cases hclosed : s.closed with
  | true => rw [(export_closed hclosed).1]
  | false =>
    have hempty := h.resolve_left (by simp [hclosed])
    rw [(export_empty hclosed hempty).1]

theorem export_loses (h : s.closed = false) (hne : s.pending roomId ≠ []) :
    ¬Keeps P roomId s (s.exportBundle P roomId).1 := by
  intro hkeeps
  have hsame := keeps_iff.mp hkeeps
  rw [(export_drains h hne).1] at hsame
  exact hne (by rw [← hsame]; simp [pending])

/-! ## Which exports fail -/

/-- The room is a RoomId, every message is one, and none makes `JSON.stringify` throw. -/
structure Encodable (roomId : JsString) (messages : List Data) : Prop where
  roomId : isRoomId roomId = true
  valid : ∀ m ∈ messages, (message? m).isSome = true
  writable : ∀ m ∈ messages, m.toJson ≠ none

theorem toElems_isSome {xs : List Data} :
    (Data.toElems xs).isSome = true ↔ ∀ x ∈ xs, x.toJson ≠ none := by
  induction xs with
  | nil => simp [Data.toElems]
  | cons x xs ih =>
    rw [List.forall_mem_cons, ← ih, Data.toElems]
    cases hx : x.toJson with
    | none => simp
    | some v => cases hxs : Data.toElems xs <;> simp

theorem bundleOf_toJson (roomId : JsString) {messages : List Data} :
    (∃ v, (bundleOf roomId messages).toJson = some (some v)) ↔
      ∀ m ∈ messages, m.toJson ≠ none := by
  rw [← toElems_isSome]
  cases hxs : Data.toElems messages with
  | none => simp [bundleOf, bundleMembers, Data.toJson, Data.toMembers, hxs]
  | some vs => simp [bundleOf, bundleMembers, Data.toJson, Data.toMembers, hxs, Number.ofNat]

theorem validateMessages_isOk {xs : List Data} {i : Nat} :
    (∃ messages, validateMessages i xs = .ok messages) ↔
      ∀ x ∈ xs, (message? x).isSome = true := by
  constructor
  · intro h
    obtain ⟨messages, h⟩ := h
    have hall := validateMessages_iff.mp h
    clear h
    induction hall with
    | nil => simp
    | cons hm _ ih =>
      refine List.forall_mem_cons.mpr ⟨?_, ih⟩
      rw [message?_some.mpr hm]
      rfl
  · intro h
    exact ⟨_, validateMessages_ok h i⟩

/-- A bundle is accepted for its room and its messages alone. -/
theorem bundleOf_isOk {messages : List Data} (hne : messages ≠ []) :
    (∃ b, validateSignalingBundle (bundleOf roomId messages) = .ok b) ↔
      isRoomId roomId = true ∧ ∀ m ∈ messages, (message? m).isSome = true := by
  have hkeys : noOtherKeys (objectKeys (bundleOf roomId messages)) = .ok () := rfl
  have hobject : bundleObject (bundleOf roomId messages) (js "bundle") =
    .ok (bundleMembers roomId messages) := rfl
  unfold validateSignalingBundle
  rw [hobject, ok_bind, hkeys, ok_bind, bundleMembers_version, ok_bind]
  rw [← validateMessages_isOk (i := 0)]
  constructor
  · intro h
    obtain ⟨b, h⟩ := h
    obtain ⟨id, hid, h⟩ := bind_ok h
    obtain ⟨hid', hroom⟩ := roomIdField_iff.mp hid
    obtain rfl : roomId = id := Data.str.inj hid'
    rw [bundleMembers_messages roomId hne, ok_bind] at h
    obtain ⟨ms, hms, _⟩ := bind_ok h
    exact ⟨hroom, ms, hms⟩
  · intro h
    obtain ⟨hroom, ms, hms⟩ := h
    rw [bundleMembers_roomId hroom, ok_bind, bundleMembers_messages roomId hne, ok_bind, hms]
    exact ⟨_, rfl⟩

/-- A bundle is encoded exactly when its parts are. -/
theorem encode_iff {messages : List Data} (hne : messages ≠ []) :
    (∃ encoded, encodeSignalingBundle P (bundleOf roomId messages) = .ok encoded) ↔
      Encodable roomId messages := by
  constructor
  · intro h
    obtain ⟨encoded, h⟩ := h
    obtain ⟨b, hb, hjson⟩ := bind_ok h
    obtain ⟨hroom, hvalid⟩ := (bundleOf_isOk hne).mp ⟨b, hb⟩
    refine ⟨hroom, hvalid, (bundleOf_toJson roomId).mp ?_⟩
    split at hjson
    · next v hv => exact ⟨v, hv⟩
    · cases hjson
    · cases hjson
  · intro h
    obtain ⟨b, hb⟩ := (bundleOf_isOk hne).mpr ⟨h.roomId, h.valid⟩
    obtain ⟨v, hv⟩ := (bundleOf_toJson roomId).mpr h.writable
    unfold encodeSignalingBundle
    rw [hb, ok_bind, hv]
    exact ⟨_, rfl⟩

/-- The URL of the first hop can be built: the bundle decodes to messages of this peer, the page
has an allowed scheme, and the URL is not too long. -/
def FirstHopFits (parse : UrlParser) (P : Platform) (page : Page) (roomId encoded : JsString) :
    Prop :=
  ∃ decoded url inviteEncoded bundleEncoded,
    decodeSignalingBundle P encoded = .ok decoded ∧
    (∀ m ∈ decoded.messages, m.from_ = page.me) ∧
    parse page.base none = some url ∧ allowedScheme url = true ∧
    encodeInvite P (page.invite roomId) = .ok inviteEncoded ∧
    encodeSignalingBundle P (SignalingBundleV1.toData ⟨roomId, decoded.messages⟩) =
      .ok bundleEncoded ∧
    (url.setHash (bothText inviteEncoded bundleEncoded)).href.length ≤ INVITE_URL_MAX_LENGTH

theorem fields_from (m : SignalingMessage) :
    (Data.obj m.fields).get (js "from") = .str m.from_ := by
  cases m <;> rfl

theorem toData_all_from {b : SignalingBundleV1} {me : JsString} :
    ((rawMessages b.toData).all fun msg => (msg.get (js "from")).str? = some me) = true ↔
      ∀ m ∈ b.messages, m.from_ = me := by
  have hraw : rawMessages b.toData = b.messages.map fun m => .obj m.fields := rfl
  rw [hraw, List.all_map, List.all_eq_true]
  refine forall₂_congr fun m _ => ?_
  rw [Function.comp_apply, fields_from, Data.str?, decide_eq_true_iff, Option.some_inj]

variable {parse : UrlParser} {page : Page}

theorem firstHop_iff (hhop : page.isFirstHop = true) {encoded : JsString} :
    (∃ url, exportUrl parse P page roomId encoded = .ok url) ↔
      FirstHopFits parse P page roomId encoded := by
  unfold exportUrl
  rw [if_pos hhop]
  constructor
  · intro h
    obtain ⟨result, h⟩ := h
    obtain ⟨decoded, hdecoded, h⟩ := bind_ok h
    have h := mapError_ok.mp h
    unfold buildInviteBundleUrl at h
    obtain ⟨_, _, h⟩ := bind_ok h
    obtain ⟨_, _, h⟩ := bind_ok h
    obtain ⟨_, _, h⟩ := bind_ok h
    obtain ⟨_, hfrom, h⟩ := bind_ok h
    obtain ⟨url, hurl, h⟩ := bind_ok h
    obtain ⟨_, hscheme, h⟩ := bind_ok h
    obtain ⟨inviteEncoded, hinvite, h⟩ := bind_ok h
    obtain ⟨bundleEncoded, hbundle, hlength⟩ := bind_ok h
    exact ⟨decoded, url, inviteEncoded, bundleEncoded, mapError_ok.mp hdecoded,
      toData_all_from.mp (demand_ok.mp hfrom), parseUrl_ok.mp hurl, demand_ok.mp hscheme,
      mapError_ok.mp hinvite, mapError_ok.mp hbundle, (checkLength_ok.mp hlength).2⟩
  · intro h
    obtain ⟨decoded, url, inviteEncoded, bundleEncoded, hdecoded, hfrom, hurl, hscheme, hinvite,
      hbundle, hlength⟩ := h
    obtain ⟨p, hp, _⟩ := bind_ok hinvite
    obtain ⟨b, hb, _⟩ := bind_ok hbundle
    have hroom : demand
        (((SignalingBundleV1.toData ⟨roomId, decoded.messages⟩).get (js "roomId")).str? =
          ((page.invite roomId).get (js "roomId")).str?)
        (js "bundle.roomId must equal invite.roomId") = .ok () := by
      refine demand_ok.mpr (decide_eq_true ?_)
      rfl
    have hsender : demand ((rawMessages (SignalingBundleV1.toData ⟨roomId, decoded.messages⟩)).all
          fun msg => (msg.get (js "from")).str? = ((page.invite roomId).get (js "from")).str?)
        (js "every bundle message.from must equal invite.from on the first hop") = .ok () :=
      demand_ok.mpr (toData_all_from.mpr hfrom)
    refine ⟨(url.setHash (bothText inviteEncoded bundleEncoded)).href, ?_⟩
    unfold buildInviteBundleUrl
    rw [mapError_ok.mpr hdecoded, ok_bind, mapError_ok.mpr hp, ok_bind, mapError_ok.mpr hb, ok_bind,
      hroom, ok_bind, hsender, ok_bind, parseUrl_ok.mpr hurl, ok_bind, assertAllowedScheme,
      demand_ok.mpr hscheme, ok_bind, mapError_ok.mpr hinvite, ok_bind, mapError_ok.mpr hbundle,
      ok_bind]
    exact mapError_ok.mpr (checkLength_ok.mpr ⟨rfl, hlength⟩)

/-! ## What a failed export loses -/

/-- When `exportBundle` rejects, the outbox is as it was. -/
def ExportKeeps (P : Platform) (s : UrlFragmentSignaling) (roomId : JsString) : Prop :=
  ∀ e, .exported roomId (.error e) ∈ (s.exportBundle P roomId).2 →
    Keeps P roomId s (s.exportBundle P roomId).1

/-- When `composeExportUrl` rejects, the outbox is as it was. -/
def ComposeKeeps (parse : UrlParser) (P : Platform) (s : UrlFragmentSignaling)
    (roomId : JsString) (page : Page) : Prop :=
  ∀ e, (s.composeExportUrl parse P (some roomId) page).2 = .error e →
    Keeps P roomId s (s.composeExportUrl parse P (some roomId) page).1

/-- The messages are encoded, and on the first hop fit into the URL of the invite. -/
def Composable (parse : UrlParser) (P : Platform) (page : Page) (roomId : JsString)
    (messages : List Data) : Prop :=
  Encodable roomId messages ∧
    ∀ encoded, encodeSignalingBundle P (bundleOf roomId messages) = .ok encoded → encoded ≠ [] →
      page.isFirstHop = true → FirstHopFits parse P page roomId encoded

theorem never_fails_iff {ε α : Type} {x : Except ε α} {K : Prop} (hK : ¬K) :
    (∀ e, x = .error e → K) ↔ ∃ a, x = .ok a := by
  cases x <;> simp [hK]

theorem exported_iff (hclosed : s.closed = false) (hne : s.pending roomId ≠ []) :
    (∃ encoded, s.exportResult P roomId = .ok encoded) ↔
      Encodable roomId (s.pending roomId) := by
  rw [(export_drains hclosed hne).2, ← encode_iff (P := P) hne]
  simp only [mapError_ok]

theorem exportKeeps_iff : ExportKeeps P s roomId ↔
    s.closed = true ∨ s.pending roomId = [] ∨ Encodable roomId (s.pending roomId) := by
  by_cases hkept : s.closed = true ∨ s.pending roomId = []
  · exact iff_of_true (fun _ _ => export_keeps hkept) (by tauto)
  obtain ⟨hopen, hne⟩ := not_or.mp hkept
  have hclosed : s.closed = false := by simpa using hopen
  rw [or_iff_right hopen, or_iff_right hne, ← exported_iff (P := P) hclosed hne,
    ← never_fails_iff (export_loses (P := P) hclosed hne)]
  refine forall_congr' fun e => ?_
  rw [(export_drains (P := P) hclosed hne).1, List.mem_singleton, Out.exported.injEq, eq_comm,
    and_iff_right rfl, eq_comm]

/-- What `composeExportUrl` makes of what it took out of the outbox. -/
theorem composed_iff (hroom : roomId ≠ []) (hclosed : s.closed = false)
    (hne : s.pending roomId ≠ []) :
    (∃ url, (s.composeExportUrl parse P (some roomId) page).2 = .ok url) ↔
      Composable parse P page roomId (s.pending roomId) := by
  have hresult : (s.composeExportUrl parse P (some roomId) page).2 =
      match (encodeSignalingBundle P (bundleOf roomId (s.pending roomId))).mapError .bundle with
      | .error e => .error (.adapter e)
      | .ok [] => .ok (some [])
      | .ok encoded => (exportUrl parse P page roomId encoded).map some := by
    obtain ⟨c, room, rfl⟩ := List.exists_cons_of_ne_nil hroom
    rw [← (export_drains (P := P) hclosed hne).2]
    rfl
  rw [hresult, Composable, ← encode_iff (P := P) hne]
  cases hencode : encodeSignalingBundle P (bundleOf roomId (s.pending roomId)) with
  | error e => simp [Except.mapError]
  | ok encoded =>
    cases encoded with
    | nil => simp [Except.mapError]
    | cons c rest =>
      have hmap : (∃ url, (exportUrl parse P page roomId (c :: rest)).map some = .ok url) ↔
          ∃ url, exportUrl parse P page roomId (c :: rest) = .ok url := by
        cases exportUrl parse P page roomId (c :: rest) <;> simp [Except.map]
      have hhop : (∃ url, exportUrl parse P page roomId (c :: rest) = .ok url) ↔
          (page.isFirstHop = true → FirstHopFits parse P page roomId (c :: rest)) := by
        by_cases h : page.isFirstHop = true
        · rw [firstHop_iff h]
          exact (imp_iff_right h).symm
        · simp [exportUrl, h]
      simpa [Except.mapError] using hmap.trans hhop

theorem composeKeeps_iff : ComposeKeeps parse P s roomId page ↔
    roomId = [] ∨ s.closed = true ∨ s.pending roomId = [] ∨
      Composable parse P page roomId (s.pending roomId) := by
  by_cases hroom : roomId = []
  · subst hroom
    exact iff_of_true (fun e he => by cases he) (.inl rfl)
  have hstep : (s.composeExportUrl parse P (some roomId) page).1 = (s.exportBundle P roomId).1 := by
    obtain ⟨c, room, rfl⟩ := List.exists_cons_of_ne_nil hroom
    rfl
  unfold ComposeKeeps
  rw [hstep, or_iff_right hroom]
  by_cases hkept : s.closed = true ∨ s.pending roomId = []
  · exact iff_of_true (fun _ _ => export_keeps hkept) (by tauto)
  obtain ⟨hopen, hne⟩ := not_or.mp hkept
  have hclosed : s.closed = false := by simpa using hopen
  rw [or_iff_right hopen, or_iff_right hne, ← composed_iff hroom hclosed hne]
  exact never_fails_iff (export_loses (P := P) hclosed hne)

/-- A failed export keeps the outbox exactly when there was nothing to take out of it; a call that
takes messages out is safe exactly when it does not fail. -/
theorem failed_export_keeps_iff (parse : UrlParser) (P : Platform) (s : UrlFragmentSignaling)
    (roomId : JsString) (page : Page) :
    (ExportKeeps P s roomId ↔
      s.closed = true ∨ s.pending roomId = [] ∨ Encodable roomId (s.pending roomId)) ∧
    (ComposeKeeps parse P s roomId page ↔
      roomId = [] ∨ s.closed = true ∨ s.pending roomId = [] ∨
        Composable parse P page roomId (s.pending roomId)) :=
  ⟨exportKeeps_iff, composeKeeps_iff⟩

def studioOffer : Data :=
  .obj [(js "kind", .str (js "offer")), (js "from", .str studioInvite.from_),
    (js "sdp", .str (js "v=0"))]

/-- The outbox of a room with an offer and a text that is no message. -/
def mixedOutbox : UrlFragmentSignaling :=
  after (step storedPlatform) create
    [.publish studioInvite.roomId studioOffer, .publish studioInvite.roomId (.str (js "hello"))]

/-- The export is rejected for the text, and the offer is gone as well. -/
theorem mixedOutbox_lost : ¬∀ parse P s roomId page,
    ExportKeeps P s roomId ∧ ComposeKeeps parse P s roomId page := by
  intro h
  have hkeeps := (h (fun _ _ => none) storedPlatform mixedOutbox studioInvite.roomId
    ⟨studioInvite.from_, none, none, js "https://senn.example/join"⟩).1
  have hpending : mixedOutbox.pending studioInvite.roomId = [studioOffer, .str (js "hello")] := rfl
  rcases exportKeeps_iff.mp hkeeps with hclosed | hempty | hencodable
  · cases hclosed
  · rw [hpending] at hempty
    cases hempty
  · have hvalid := hencodable.valid (.str (js "hello")) (by simp [hpending])
    cases hvalid

end UrlFragmentSignaling

end Senn.UrlFragment
