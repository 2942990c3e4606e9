import Senn.Js.Url
import Senn.Protocol.BundleGrammar
import Senn.Protocol.Invite

/-! # Invite URLs

An invite in the fragment of a URL, and with it the first bundle: `buildInviteUrl`,
`buildInviteBundleUrl` and their parsers. -/

namespace Senn.Invite
open Senn.Js Senn.Protocol

/-- What the functions throw: an error of the invite, one of the bundle, or the TypeError of
`new URL`. -/
inductive InviteUrlError where
  | invite (e : InviteError)
  | bundle (e : BundleError)
  | typeError
deriving DecidableEq

def urlError (message : JsString) : InviteUrlError := .invite (inviteError message)

def demand (ok : Bool) (message : JsString) : Except InviteUrlError Unit :=
  (insist ok message).mapError .invite

def INVITE_FRAGMENT_KEY : JsString := js "i"
def SIGNALING_BUNDLE_FRAGMENT_KEY : JsString := js "s"
def INVITE_URL_MAX_LENGTH : Nat := 2048

def LOOPBACK_HOSTS : List JsString := [js "localhost", js "127.0.0.1", js "[::1]", js "::1"]

def allowedScheme (url : Url) : Bool :=
  url.protocol = js "https:" || url.protocol = js "file:" ||
    (url.protocol = js "http:" && decide (url.hostname ∈ LOOPBACK_HOSTS))

def assertAllowedScheme (url : Url) : Except InviteUrlError Unit :=
  demand (allowedScheme url)
    (js "invite scheme must be https (or http on loopback / file://), got " ++ url.protocol ++
      js "//" ++ url.hostname)

/-- The length check of a built URL. -/
def checkLength (label result : JsString) : Except InviteUrlError JsString :=
  if result.length > INVITE_URL_MAX_LENGTH then
    .error (urlError (label ++ js " exceeds " ++ natText 10 INVITE_URL_MAX_LENGTH ++ js " chars (" ++
      natText 10 result.length ++ js ")"))
  else .ok result

/-- The parameters in a URL's fragment. -/
def fragmentParams (url : Url) : List (JsString × JsString) :=
  searchParams (match url.hash with
    | 0x23 :: fragment => fragment
    | hash => hash)

/-- A `ParsedInviteBundle`. -/
structure ParsedInviteBundle where
  invite : InvitePayload
  bundle : Option SignalingBundleV1

variable (parse : UrlParser) (P : Platform)

def parseUrl (href : JsString) : Except InviteUrlError Url :=
  match parse href none with
  | some url => .ok url
  | none => .error .typeError

def buildInviteUrl (baseUrl : JsString) (payload : Data) : Except InviteUrlError JsString := do
  let url ← parseUrl parse baseUrl
  assertAllowedScheme url
  let encoded ← (encodeInvite P payload).mapError .invite
  checkLength (js "invite URL") (url.setHash (INVITE_FRAGMENT_KEY ++ 0x3D :: encoded)).href

/-- `params.get(INVITE_FRAGMENT_KEY)`, which may not be empty, decoded. -/
def inviteParam (params : List (JsString × JsString)) : Except InviteUrlError InvitePayload :=
  match (paramsGet params INVITE_FRAGMENT_KEY).getD [] with
  | [] => .error (urlError (js "missing #i= fragment"))
  | encoded => (decodeInvite P encoded).mapError .invite

def parseInviteUrl (href : JsString) : Except InviteUrlError InvitePayload := do
  let url ← parseUrl parse href
  inviteParam P (fragmentParams url)

/-- The elements of `bundle.messages`. -/
def rawMessages (bundle : Data) : List Data :=
  match bundle.get (js "messages") with
  | .arr xs _ => xs
  | _ => []

def buildInviteBundleUrl (baseUrl : JsString) (invite bundle : Data) :
    Except InviteUrlError JsString := do
  let _ ← (validateInvitePayload invite).mapError .invite
  let _ ← (validateSignalingBundle bundle).mapError .bundle
  -- what is compared are strings once both are validated
  demand ((bundle.get (js "roomId")).str? = (invite.get (js "roomId")).str?)
    (js "bundle.roomId must equal invite.roomId")
  demand ((rawMessages bundle).all fun msg =>
      (msg.get (js "from")).str? = (invite.get (js "from")).str?)
    (js "every bundle message.from must equal invite.from on the first hop")
  let url ← parseUrl parse baseUrl
  assertAllowedScheme url
  let inviteEncoded ← (encodeInvite P invite).mapError .invite
  let bundleEncoded ← (encodeSignalingBundle P bundle).mapError .bundle
  checkLength (js "invite+bundle URL")
    (url.setHash (INVITE_FRAGMENT_KEY ++ 0x3D :: inviteEncoded ++ 0x26 ::
      (SIGNALING_BUNDLE_FRAGMENT_KEY ++ 0x3D :: bundleEncoded))).href

/-- The loop over `params.keys()`. -/
def noUnknownKeys : List (JsString × JsString) → Except InviteUrlError Unit
  | [] => .ok ()
  | (key, _) :: params =>
    if key = INVITE_FRAGMENT_KEY ∨ key = SIGNALING_BUNDLE_FRAGMENT_KEY then noUnknownKeys params
    else .error (urlError (js "unknown fragment key: " ++ key))

/-- The bundle of a parsed URL, `null` when there is none. -/
def bundleParam (params : List (JsString × JsString)) (invite : InvitePayload) :
    Except InviteUrlError (Option SignalingBundleV1) :=
  match (paramsGet params SIGNALING_BUNDLE_FRAGMENT_KEY).getD [] with
  | [] => .ok none
  | encoded => do
    let bundle ← (decodeSignalingBundle P encoded).mapError .bundle
    demand (bundle.roomId = invite.roomId) (js "bundle.roomId does not match invite.roomId")
    demand (bundle.messages.all fun msg => msg.from_ = invite.from_)
      (js "bundle message.from does not match invite.from on the first hop")
    return some bundle

def parseInviteBundleUrl (href : JsString) : Except InviteUrlError ParsedInviteBundle := do
  let url ← parseUrl parse href
  let params := fragmentParams url
  noUnknownKeys params
  let invite ← inviteParam P params
  let bundle ← bundleParam P params invite
  return ⟨invite, bundle⟩

/-! ## What is built is parsed -/

/-- What is relied on of the compression: it is lossless, and an empty stream is an error. -/
structure Deflates (P : Platform) : Prop where
  lossless : P.Lossless
  terminated : P.inflateRaw [] = none

/-- The result is short enough, of an allowed scheme, and the base in all but its fragment. -/
def Carried (base result : JsString) : Prop :=
  ∃ u u' fragment, parse base none = some u ∧ parse result none = some u' ∧
    u' = { u with fragment := some fragment } ∧ result = u.withoutFragment ++ 0x23 :: fragment ∧
    allowedScheme u' = true ∧ result.length ≤ INVITE_URL_MAX_LENGTH

variable {parse P}

theorem demand_ok {ok : Bool} {message : JsString} : demand ok message = .ok () ↔ ok = true :=
  mapError_ok.trans insist_ok

theorem parseUrl_ok {href : JsString} {url : Url} :
    parseUrl parse href = .ok url ↔ parse href none = some url := by
  unfold parseUrl
  cases parse href none <;> simp

theorem checkLength_ok {label text result : JsString} :
    checkLength label text = .ok result ↔ text = result ∧ text.length ≤ INVITE_URL_MAX_LENGTH := by
  unfold checkLength
  split
  · next hlong =>
    simp only [reduceCtorEq, false_iff]
    rintro ⟨_, hshort⟩
    omega
  · next hshort =>
    simp only [Except.ok.injEq, iff_self_and]
    omega

theorem encoded_kept (bytes : Bytes) : Kept (base64urlEncode bytes) := by
  have hall : ∀ n, n < 64 → formKeeps (b64Digit n).toNat = true := by decide +kernel
  intro u hu
  obtain ⟨n, hn, rfl⟩ := base64urlEncode_digits bytes u hu
  exact hall n hn

theorem encoded_ne_nil (hP : Deflates P) (input : Bytes) :
    base64urlEncode (P.deflateRaw input) ≠ [] := by
  intro hnil
  have hdecode := base64urlDecode_encode (P.deflateRaw input)
  rw [hnil] at hdecode
  have hempty : P.deflateRaw input = [] := (Except.ok.inj hdecode).symm
  have hinflate := hP.lossless input
  rw [hempty, hP.terminated] at hinflate
  cases hinflate

theorem fragmentParams_setHash (u : Url) {s : JsString} (hne : s ≠ [])
    (h : ∀ v ∈ s, Url.Plain v) : fragmentParams (u.setHash s) = searchParams s := by
  rw [u.setHash_plain hne h]
  cases s with
  | nil => exact absurd rfl hne
  | cons v r => rfl

/-- The parameter `i`, as it is written. -/
def inviteText (encoded : JsString) : JsString := INVITE_FRAGMENT_KEY ++ 0x3D :: encoded

/-- Both parameters, as they are written. -/
def bothText (inviteEncoded bundleEncoded : JsString) : JsString :=
  inviteText inviteEncoded ++ 0x26 :: (SIGNALING_BUNDLE_FRAGMENT_KEY ++ 0x3D :: bundleEncoded)

theorem key_kept : Kept INVITE_FRAGMENT_KEY ∧ Kept SIGNALING_BUNDLE_FRAGMENT_KEY := by
  constructor <;> exact List.forall_mem_singleton.mpr (by decide)

theorem inviteText_ne_nil (encoded : JsString) : inviteText encoded ≠ [] := by
  simp [inviteText]

theorem bothText_ne_nil (inviteEncoded bundleEncoded : JsString) :
    bothText inviteEncoded bundleEncoded ≠ [] := by
  simp [bothText]

theorem inviteText_plain {encoded : JsString} (h : Kept encoded) :
    ∀ v ∈ inviteText encoded, Url.Plain v := by
  intro v hv
  rcases List.mem_append.mp hv with hv | hv
  · exact .of_kept (key_kept.1 v hv)
  · rcases List.mem_cons.mp hv with rfl | hv
    · exact ⟨by decide, by decide⟩
    · exact .of_kept (h v hv)

theorem bothText_plain {inviteEncoded bundleEncoded : JsString} (h : Kept inviteEncoded)
    (h' : Kept bundleEncoded) : ∀ v ∈ bothText inviteEncoded bundleEncoded, Url.Plain v := by
  intro v hv
  rcases List.mem_append.mp hv with hv | hv
  · exact inviteText_plain h v hv
  · rcases List.mem_cons.mp hv with rfl | hv
    · exact ⟨by decide, by decide⟩
    · rcases List.mem_append.mp hv with hv | hv
      · exact .of_kept (key_kept.2 v hv)
      · rcases List.mem_cons.mp hv with rfl | hv
        · exact ⟨by decide, by decide⟩
        · exact .of_kept (h' v hv)

theorem searchParams_inviteText {encoded : JsString} (h : Kept encoded) :
    searchParams (inviteText encoded) = [(INVITE_FRAGMENT_KEY, encoded)] := by
  have hparams : searchParams (inviteText encoded) = formParts (inviteText encoded) :=
    searchParams_kept (by decide)
  rw [hparams, inviteText, formParts_one key_kept.1 h]

theorem searchParams_bothText {inviteEncoded bundleEncoded : JsString} (h : Kept inviteEncoded)
    (h' : Kept bundleEncoded) : searchParams (bothText inviteEncoded bundleEncoded) =
      [(INVITE_FRAGMENT_KEY, inviteEncoded), (SIGNALING_BUNDLE_FRAGMENT_KEY, bundleEncoded)] := by
  have hparams : searchParams (bothText inviteEncoded bundleEncoded) =
      formParts (bothText inviteEncoded bundleEncoded) := searchParams_kept (by decide)
  rw [hparams, bothText, inviteText, formParts_cons key_kept.1 h, formParts_one key_kept.2 h']

/-- What is built from a base with a plain fragment carries it. -/
theorem carried_of_build (hparse : parse.Reparses) {base label result fragment : JsString}
    {u : Url} (hu : parse base none = some u) (hscheme : allowedScheme u = true)
    (hne : fragment ≠ []) (hplain : ∀ v ∈ fragment, Url.Plain v)
    (hlength : checkLength label (u.setHash fragment).href = .ok result) :
    Carried parse base result ∧ parse result none = some (u.setHash fragment) := by
  obtain ⟨rfl, hshort⟩ := checkLength_ok.mp hlength
  have hset := u.setHash_plain hne hplain
  have hparsed := hparse base u hu fragment hne hplain
  refine ⟨⟨u, _, fragment, hu, hparsed, hset, ?_, ?_, hshort⟩, hparsed⟩
  · rw [hset]
    rfl
  · rw [hset]
    exact hscheme

theorem inviteParam_ok {params : List (JsString × JsString)} {p : InvitePayload} :
    inviteParam P params = .ok p ↔ ∃ encoded, paramsGet params INVITE_FRAGMENT_KEY = some encoded ∧
      encoded ≠ [] ∧ decodeInvite P encoded = .ok p := by
  unfold inviteParam
  cases paramsGet params INVITE_FRAGMENT_KEY with
  | none => simp
  | some encoded =>
    cases encoded with
    | nil => simp
    | cons v r => simp [mapError_ok]

theorem noUnknownKeys_ok {params : List (JsString × JsString)} :
    noUnknownKeys params = .ok () ↔ ∀ param ∈ params,
      param.1 = INVITE_FRAGMENT_KEY ∨ param.1 = SIGNALING_BUNDLE_FRAGMENT_KEY := by
  induction params with
  | nil => simp [noUnknownKeys]
  | cons param params ih =>
    obtain ⟨key, value⟩ := param
    rw [List.forall_mem_cons, ← ih, noUnknownKeys]
    split <;> simp [*]

/-- A bundle is for the room of the invite and its messages come from the inviter. -/
def FirstHop (invite : InvitePayload) (bundle : SignalingBundleV1) : Prop :=
  bundle.roomId = invite.roomId ∧ ∀ m ∈ bundle.messages, m.from_ = invite.from_

theorem bundleParam_ok {params : List (JsString × JsString)} {p : InvitePayload}
    {bundle : Option SignalingBundleV1} :
    bundleParam P params p = .ok bundle ↔
      (bundle = none ∧ (paramsGet params SIGNALING_BUNDLE_FRAGMENT_KEY).getD [] = []) ∨
      ∃ b encoded, bundle = some b ∧
        paramsGet params SIGNALING_BUNDLE_FRAGMENT_KEY = some encoded ∧ encoded ≠ [] ∧
        decodeSignalingBundle P encoded = .ok b ∧ FirstHop p b := by
  unfold bundleParam
  have hnone : (.ok none : Except InviteUrlError (Option SignalingBundleV1)) = .ok bundle ↔
      bundle = none := by
    rw [Except.ok.injEq, eq_comm]
  cases paramsGet params SIGNALING_BUNDLE_FRAGMENT_KEY with
  | none => simp [hnone]
  | some encoded =>
    cases encoded with
    | nil => simp [hnone]
    | cons v r =>
      simp only [Option.getD_some, reduceCtorEq, and_false, false_or]
      constructor
      · intro h
        obtain ⟨b, hb, h⟩ := bind_ok h
        obtain ⟨_, hroom, h⟩ := bind_ok h
        obtain ⟨_, hfrom, h⟩ := bind_ok h
        refine ⟨b, v :: r, (Except.ok.inj h).symm, rfl, List.cons_ne_nil _ _, mapError_ok.mp hb,
          of_decide_eq_true (demand_ok.mp hroom), ?_⟩
        simpa using demand_ok.mp hfrom
      · rintro ⟨b, encoded, rfl, heq, _, hb, hroom, hfrom⟩
        obtain rfl := Option.some.inj heq
        have hall : (b.messages.all fun msg => decide (msg.from_ = p.from_)) = true := by
          simpa using hfrom
        rw [mapError_ok.mpr hb, ok_bind, demand_ok.mpr (decide_eq_true hroom), ok_bind,
          demand_ok.mpr hall]
        rfl

theorem parseInviteUrl_ok {href : JsString} {p : InvitePayload} :
    parseInviteUrl parse P href = .ok p ↔
      ∃ url, parse href none = some url ∧ inviteParam P (fragmentParams url) = .ok p := by
  unfold parseInviteUrl
  constructor
  · intro h
    obtain ⟨url, hurl, h⟩ := bind_ok h
    exact ⟨url, parseUrl_ok.mp hurl, h⟩
  · rintro ⟨url, hurl, h⟩
    rw [parseUrl_ok.mpr hurl, ok_bind, h]

theorem parseInviteBundleUrl_ok {href : JsString} {r : ParsedInviteBundle} :
    parseInviteBundleUrl parse P href = .ok r ↔
      ∃ url, parse href none = some url ∧ noUnknownKeys (fragmentParams url) = .ok () ∧
        inviteParam P (fragmentParams url) = .ok r.invite ∧
        bundleParam P (fragmentParams url) r.invite = .ok r.bundle := by
  unfold parseInviteBundleUrl
  constructor
  · intro h
    obtain ⟨url, hurl, h⟩ := bind_ok h
    obtain ⟨_, hkeys, h⟩ := bind_ok h
    obtain ⟨invite, hinvite, h⟩ := bind_ok h
    obtain ⟨bundle, hbundle, h⟩ := bind_ok h
    obtain rfl := Except.ok.inj h
    exact ⟨url, parseUrl_ok.mp hurl, hkeys, hinvite, hbundle⟩
  · rintro ⟨url, hurl, hkeys, hinvite, hbundle⟩
    rw [parseUrl_ok.mpr hurl, ok_bind]
    dsimp only
    rw [hkeys, ok_bind, hinvite, ok_bind, hbundle]
    rfl

/-- What is encoded is a text of the alphabet that is decoded to the validated payload. -/
theorem encodeInvite_kept (hP : Deflates P) {payload : Data} {encoded : JsString}
    (h : encodeInvite P payload = .ok encoded) : Kept encoded ∧ encoded ≠ [] ∧
      ∃ p, validateInvitePayload payload = .ok p ∧ decodeInvite P encoded = .ok p := by
  obtain ⟨p, hp, _⟩ := bind_ok h
  rw [encodeInvite_accepted hp] at h
  obtain rfl := Except.ok.inj h
  exact ⟨encoded_kept _, encoded_ne_nil hP _, p, hp,
    decodeInvite_encoded hP.lossless (payload_valid hp)⟩

theorem encodeSignalingBundle_kept (hP : Deflates P) {bundle : Data} {encoded : JsString}
    (h : encodeSignalingBundle P bundle = .ok encoded) : Kept encoded ∧ encoded ≠ [] := by
  obtain ⟨b, _, h⟩ := bind_ok h
  split at h
  · obtain rfl := Except.ok.inj h
    exact ⟨encoded_kept _, encoded_ne_nil hP _⟩
  · cases h
  · cases h

theorem fragmentParams_inviteText (u : Url) {encoded : JsString} (h : Kept encoded) :
    fragmentParams (u.setHash (inviteText encoded)) = [(INVITE_FRAGMENT_KEY, encoded)] := by
  rw [fragmentParams_setHash u (inviteText_ne_nil _) (inviteText_plain h),
    searchParams_inviteText h]

theorem inviteParam_inviteText (u : Url) {encoded : JsString} {p : InvitePayload}
    (h : Kept encoded) (hne : encoded ≠ []) (hdecode : decodeInvite P encoded = .ok p) :
    inviteParam P (fragmentParams (u.setHash (inviteText encoded))) = .ok p := by
  rw [fragmentParams_inviteText u h]
  exact inviteParam_ok.mpr ⟨encoded, rfl, hne, hdecode⟩

/-- What `buildInviteUrl` returns is parsed by both parsers as its invite. -/
theorem buildInviteUrl_parsed (hparse : parse.Reparses) (hP : Deflates P) {base result : JsString}
    {payload : Data} (h : buildInviteUrl parse P base payload = .ok result) :
    Carried parse base result ∧ ∃ p, validateInvitePayload payload = .ok p ∧
      parseInviteUrl parse P result = .ok p ∧
      parseInviteBundleUrl parse P result = .ok ⟨p, none⟩ := by
  unfold buildInviteUrl at h
  obtain ⟨u, hu, h⟩ := bind_ok h
  obtain ⟨_, hscheme, h⟩ := bind_ok h
  obtain ⟨encoded, hencoded, hlength⟩ := bind_ok h
  obtain ⟨hkept, hne, p, hp, hdecode⟩ := encodeInvite_kept hP (mapError_ok.mp hencoded)
  obtain ⟨hcarried, hparsed⟩ := carried_of_build hparse (parseUrl_ok.mp hu)
    (demand_ok.mp hscheme) (inviteText_ne_nil encoded) (inviteText_plain hkept) hlength
  have hinvite := inviteParam_inviteText u hkept hne hdecode
  refine ⟨hcarried, p, hp, parseInviteUrl_ok.mpr ⟨_, hparsed, hinvite⟩,
    parseInviteBundleUrl_ok.mpr ⟨_, hparsed, ?_, hinvite, ?_⟩⟩
  · rw [fragmentParams_inviteText u hkept]
    rfl
  · rw [fragmentParams_inviteText u hkept]
    rfl

theorem spelled_from {xs : List Data} {messages : List SignalingMessage} {id : JsString}
    (h : List.Forall₂ SpellsMessage xs messages)
    (hxs : ∀ msg ∈ xs, (msg.get (js "from")).str? = some id) : ∀ m ∈ messages, m.from_ = id := by
  induction h with
  | nil => simp
  | @cons x m xs messages hm _ ih =>
    obtain ⟨hone, hrest⟩ := List.forall_mem_cons.mp hxs
    refine List.forall_mem_cons.mpr ⟨?_, ih hrest⟩
    obtain ⟨ms, rfl, hperm⟩ := hm
    have hsender : ownProperty ms (js "from") = .str m.from_ :=
      ownProperty_of_perm hperm m.fields_nodup m.from_mem
    rw [Data.get, hsender] at hone
    exact Option.some.inj hone

/-- The raw ids that are compared are those of the validated payloads. -/
theorem firstHop_of_raw {invite bundle : Data} {p : InvitePayload} {b : SignalingBundleV1}
    (hp : ∃ ms, invite = .obj ms ∧ InviteDocument ms p) (hb : Spells bundle b)
    (hroom : (bundle.get (js "roomId")).str? = (invite.get (js "roomId")).str?)
    (hfrom : ∀ msg ∈ rawMessages bundle,
      (msg.get (js "from")).str? = (invite.get (js "from")).str?) : FirstHop p b := by
  obtain ⟨ms, rfl, hinvite⟩ := hp
  obtain ⟨fields, xs, rest, rfl, hperm, hxs⟩ := hb
  have hget := fun {k v} =>
    ownProperty_of_perm (k := k) (v := v) hperm (bundleFields_nodup b.roomId xs rest)
  have hroomId : ownProperty fields (js "roomId") = .str b.roomId :=
    hget (by simp [bundleFields])
  have hmessages : ownProperty fields (js "messages") = .arr xs rest :=
    hget (by simp [bundleFields])
  have hraw : rawMessages (.obj fields) = xs := by
    unfold rawMessages
    rw [Data.get, hmessages]
  constructor
  · rw [Data.get, Data.get, hroomId, hinvite.roomId] at hroom
    exact Option.some.inj hroom
  · rw [hraw, Data.get, hinvite.from_] at hfrom
    exact spelled_from hxs hfrom

/-- What `buildInviteBundleUrl` returns is parsed as its invite and its bundle. -/
theorem buildInviteBundleUrl_parsed (hparse : parse.Reparses) (hP : Deflates P)
    {base result : JsString} {invite bundle : Data} (hbundle : Tidy bundle)
    (hjson : ∀ b, validateSignalingBundle bundle = .ok b → ∀ m ∈ b.messages, m.InJson)
    (h : buildInviteBundleUrl parse P base invite bundle = .ok result) :
    Carried parse base result ∧ ∃ p b, (∃ ms, invite = .obj ms ∧ InviteDocument ms p) ∧
      Spells bundle b ∧ parseInviteBundleUrl parse P result = .ok ⟨p, some b⟩ := by
  unfold buildInviteBundleUrl at h
  obtain ⟨p, hp, h⟩ := bind_ok h
  obtain ⟨b, hb, h⟩ := bind_ok h
  obtain ⟨_, hroom, h⟩ := bind_ok h
  obtain ⟨_, hfrom, h⟩ := bind_ok h
  obtain ⟨u, hu, h⟩ := bind_ok h
  obtain ⟨_, hscheme, h⟩ := bind_ok h
  obtain ⟨inviteEncoded, hinviteEncoded, h⟩ := bind_ok h
  obtain ⟨bundleEncoded, hbundleEncoded, hlength⟩ := bind_ok h
  have hp := mapError_ok.mp hp
  have hb := mapError_ok.mp hb
  have hdocument := validateInvitePayload_ok.mp hp
  obtain ⟨hspells, _, hcodec⟩ := (bundle_roundTrip hP.lossless) bundle b hbundle hb
  have hhop : FirstHop p b := by
    refine firstHop_of_raw hdocument hspells (of_decide_eq_true (demand_ok.mp hroom)) ?_
    simpa using demand_ok.mp hfrom
  obtain ⟨hkept, hne, p', hp', hdecode⟩ := encodeInvite_kept hP (mapError_ok.mp hinviteEncoded)
  obtain rfl := Except.ok.inj (hp.symm.trans hp')
  obtain ⟨encoded, hencode, hdecode'⟩ := hcodec (hjson b hb)
  obtain rfl := Except.ok.inj (hencode.symm.trans (mapError_ok.mp hbundleEncoded))
  obtain ⟨hkept', hne'⟩ := encodeSignalingBundle_kept hP hencode
  obtain ⟨hcarried, hparsed⟩ := carried_of_build hparse (parseUrl_ok.mp hu)
    (demand_ok.mp hscheme) (bothText_ne_nil inviteEncoded encoded) (bothText_plain hkept hkept')
    hlength
  have hparams : fragmentParams (u.setHash (bothText inviteEncoded encoded)) =
      [(INVITE_FRAGMENT_KEY, inviteEncoded), (SIGNALING_BUNDLE_FRAGMENT_KEY, encoded)] := by
    rw [fragmentParams_setHash u (bothText_ne_nil _ _) (bothText_plain hkept hkept'),
      searchParams_bothText hkept hkept']
  refine ⟨hcarried, p, b, hdocument, hspells, parseInviteBundleUrl_ok.mpr ⟨_, hparsed, ?_, ?_, ?_⟩⟩
  · rw [hparams]
    rfl
  · rw [hparams]
    exact inviteParam_ok.mpr ⟨inviteEncoded, rfl, hne, hdecode⟩
  · rw [hparams]
    exact bundleParam_ok.mpr (.inr ⟨b, encoded, rfl, rfl, hne', hdecode', hhop⟩)

/-- What the builders return is short enough, of an allowed scheme and the base in all but its
fragment, and is parsed as what it was built from; and every bundle that is parsed is one of a
first hop. -/
theorem inviteUrl_roundTrip (hparse : parse.Reparses) (hP : Deflates P) :
    (∀ base invite bundle result, Tidy bundle →
      (∀ b, validateSignalingBundle bundle = .ok b → ∀ m ∈ b.messages, m.InJson) →
      buildInviteBundleUrl parse P base invite bundle = .ok result →
      Carried parse base result ∧ ∃ p b, (∃ ms, invite = .obj ms ∧ InviteDocument ms p) ∧
        Spells bundle b ∧ parseInviteBundleUrl parse P result = .ok ⟨p, some b⟩) ∧
    (∀ base payload result, buildInviteUrl parse P base payload = .ok result →
      Carried parse base result ∧ ∃ p, (∃ ms, payload = .obj ms ∧ InviteDocument ms p) ∧
        parseInviteUrl parse P result = .ok p ∧
        parseInviteBundleUrl parse P result = .ok ⟨p, none⟩) ∧
    ∀ href r, parseInviteBundleUrl parse P href = .ok r → ∀ b ∈ r.bundle, FirstHop r.invite b := by
  refine ⟨fun base invite bundle result htidy hjson h => ?_, fun base payload result h => ?_,
    fun href r h b hb => ?_⟩
  · exact buildInviteBundleUrl_parsed hparse hP htidy hjson h
  · obtain ⟨hcarried, p, hp, hparsed⟩ := buildInviteUrl_parsed hparse hP h
    exact ⟨hcarried, p, validateInvitePayload_ok.mp hp, hparsed⟩
  · obtain ⟨url, _, _, _, hbundle⟩ := parseInviteBundleUrl_ok.mp h
    rw [Option.mem_def.mp hb] at hbundle
    obtain ⟨heq, _⟩ | ⟨b', _, heq, _, _, _, hhop⟩ := bundleParam_ok.mp hbundle
    · cases heq
    · exact Option.some.inj heq ▸ hhop

/-! ## An invite to the studio -/

/-- The page of the studio. -/
def studioUrl : Url where
  scheme := js "https"
  username := []
  password := []
  host := some (js "senn.example")
  port := none
  path := .segments [js "join"]
  query := none
  fragment := none

/-- A parser that knows this page and its plain fragments. -/
def studioParser : UrlParser := fun input _ =>
  if input = studioUrl.href then some studioUrl
  else if (studioUrl.href ++ [0x23]).isPrefixOf input then
    let fragment := input.drop (studioUrl.href.length + 1)
    if fragment.all fun v => 0x23 < v.toNat && !fragmentEscapes v.toNat then
      some { studioUrl with fragment := some fragment }
    else none
  else none

theorem studioParser_reparses : studioParser.Reparses := by
  intro input u hu s hne hplain
  have hbase : ∃ fragment, u = { studioUrl with fragment := fragment } := by
    unfold studioParser at hu
    split at hu
    · exact ⟨none, (Option.some.inj hu).symm⟩
    split at hu
    · dsimp only at hu
      split at hu
      · exact ⟨_, (Option.some.inj hu).symm⟩
      · cases hu
    · cases hu
  obtain ⟨fragment, rfl⟩ := hbase
  rw [Url.setHash_plain _ hne hplain]
  show studioParser (studioUrl.href ++ 0x23 :: s) none = some { studioUrl with fragment := some s }
  have hother : studioUrl.href ++ 0x23 :: s ≠ studioUrl.href := by simp
  have hprefix : (studioUrl.href ++ [0x23]).isPrefixOf (studioUrl.href ++ 0x23 :: s) = true := by
    rw [List.isPrefixOf_iff_prefix]
    exact ⟨s, by simp⟩
  have hdrop : (studioUrl.href ++ 0x23 :: s).drop (studioUrl.href.length + 1) = s := by
    rw [List.drop_append]
    simp
  have hall : (s.all fun v => decide (0x23 < v.toNat) && !fragmentEscapes v.toNat) = true := by
    refine List.all_eq_true.mpr fun v hv => ?_
    simp [(hplain v hv).1, (hplain v hv).2]
  unfold studioParser
  rw [if_neg hother, if_pos hprefix]
  dsimp only
  rw [hdrop, if_pos hall]

/-- A deflate stream of one stored block, for what fits into one. -/
def storeBlock (input : Bytes) : Bytes :=
  let n := input.length
  if n < 0x10000 then
    1 :: UInt8.ofNat n :: UInt8.ofNat (n / 256) :: ~~~UInt8.ofNat n :: ~~~UInt8.ofNat (n / 256) ::
      input
  else storeBytes input

def readBlock : Bytes → Option Bytes
  | 1 :: l :: h :: l' :: h' :: r =>
    if r.length = l.toNat + 256 * h.toNat ∧ l' = ~~~l ∧ h' = ~~~h then some r else none
  | input => readStored input

def blockPlatform : Platform := ⟨storeBlock, readBlock, fun _ => js "Unexpected token"⟩

theorem blockPlatform_deflates : Deflates blockPlatform := by
  refine ⟨fun input => ?_, rfl⟩
  show readBlock (storeBlock input) = some input
  unfold storeBlock
  dsimp only
  split
  · next hn =>
    have hlength : input.length =
        (UInt8.ofNat input.length).toNat + 256 * (UInt8.ofNat (input.length / 256)).toNat := by
      rw [UInt8.toNat_ofNat', UInt8.toNat_ofNat']
      omega
    rw [readBlock, if_pos ⟨hlength, rfl, rfl⟩]
  · next hn =>
    cases input with
    | nil => exact absurd (by decide) hn
    | cons b bs =>
      have hread : readBlock (storeBytes (b :: bs)) = readStored (storeBytes (b :: bs)) := rfl
      rw [hread]
      exact storedPlatform_lossless (b :: bs)

theorem inviteUrl_roundTrip_studio : ∃ result,
    buildInviteBundleUrl studioParser blockPlatform studioUrl.href (.ofJson studioInvite.toJson)
      offerBundle = .ok result ∧
    Carried studioParser studioUrl.href result ∧ ∃ p b,
      parseInviteBundleUrl studioParser blockPlatform result = .ok ⟨p, some b⟩ := by
  have hbuilt : (buildInviteBundleUrl studioParser blockPlatform studioUrl.href
      (.ofJson studioInvite.toJson) offerBundle).isOk = true := by decide +kernel
  obtain ⟨result, hresult⟩ := isOk_iff.mp hbuilt
  have hjson : ∀ b, validateSignalingBundle offerBundle = .ok b → ∀ m ∈ b.messages, m.InJson := by
    intro b hb
    obtain rfl := Except.ok.inj ((show validateSignalingBundle offerBundle = .ok offered from
      rfl).symm.trans hb)
    exact offered_inJson
  obtain ⟨hcarried, p, b, _, _, hparsed⟩ :=
    (inviteUrl_roundTrip studioParser_reparses blockPlatform_deflates).1 _ _ _ result
      offerBundle_tidy hjson hresult
  exact ⟨result, hresult, hcarried, p, b, hparsed⟩

end Senn.Invite
