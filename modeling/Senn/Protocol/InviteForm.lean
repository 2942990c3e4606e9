import Senn.Protocol.InviteUrl

/-! # The form of an invite URL

What the parsers enforce of the documented form. They read the fragment, and neither looks at the
scheme, at the length or at the protocol version; only `parseInviteBundleUrl` looks at the other
keys of the fragment. -/

namespace Senn.Invite
open Senn.Js Senn.Protocol

def SENN_PROTOCOL_VERSION : JsString := js "0.1.0"

/-- The major version of a SemVer text. -/
def majorOf (version : JsString) : Nat := ofDigits (version.takeWhile isDigit)

/-- This implementation understands the major version it has itself. -/
def Understood (protocolVersion : JsString) : Prop :=
  majorOf protocolVersion = majorOf SENN_PROTOCOL_VERSION

/-- No key but `i` and `s`. -/
def KnownKeys (params : List (JsString × JsString)) : Prop :=
  ∀ param ∈ params, param.1 = INVITE_FRAGMENT_KEY ∨ param.1 = SIGNALING_BUNDLE_FRAGMENT_KEY

/-- The documented form of a URL with this invite. -/
structure InForm (href : JsString) (url : Url) (invite : InvitePayload) : Prop where
  scheme : allowedScheme url = true
  length : href.length ≤ INVITE_URL_MAX_LENGTH
  keys : KnownKeys (fragmentParams url)
  version : Understood invite.protocolVersion

variable (parse : UrlParser) (P : Platform)

/-- The URL has the parameter `i`, and it is the invite: base64url of the deflated JSON of an
invite document. -/
def CarriesInvite (href : JsString) (url : Url) (invite : InvitePayload) : Prop :=
  parse href none = some url ∧ ∃ encoded compressed utf8 json ms,
    paramsGet (fragmentParams url) INVITE_FRAGMENT_KEY = some encoded ∧ encoded ≠ [] ∧
    base64urlDecode encoded = .ok compressed ∧ P.inflateRaw compressed = some utf8 ∧
    Json.parse (utf8Decode utf8) = some json ∧ Data.ofJson json = .obj ms ∧
    InviteDocument ms invite

/-- The parsers resolve only for URLs of the form, and agree. -/
structure Enforced (href : JsString) : Prop where
  invite : ∀ p, parseInviteUrl parse P href = .ok p →
    ∃ url, parse href none = some url ∧ InForm href url p
  bundle : ∀ r, parseInviteBundleUrl parse P href = .ok r →
    ∃ url, parse href none = some url ∧ InForm href url r.invite
  agrees : ∀ r, parseInviteBundleUrl parse P href = .ok r →
    parseInviteUrl parse P href = .ok r.invite
  alone : ∀ url, parse href none = some url →
    paramsGet (fragmentParams url) SIGNALING_BUNDLE_FRAGMENT_KEY = none →
    ∀ p, parseInviteUrl parse P href = .ok p →
      ∃ r, parseInviteBundleUrl parse P href = .ok r ∧ r.invite = p

variable {parse P}

theorem decodeInvite_ok {encoded : JsString} {p : InvitePayload} :
    decodeInvite P encoded = .ok p ↔ ∃ compressed utf8 json ms,
      base64urlDecode encoded = .ok compressed ∧ P.inflateRaw compressed = some utf8 ∧
      Json.parse (utf8Decode utf8) = some json ∧ Data.ofJson json = .obj ms ∧
      InviteDocument ms p := by
  unfold decodeInvite
  constructor
  · intro h
    split at h
    · cases h
    · next compressed hcompressed =>
      split at h
      · cases h
      · next utf8 hutf8 =>
        split at h
        · cases h
        · next json hjson =>
          obtain ⟨ms, hms, hdocument⟩ := validateInvitePayload_ok.mp h
          exact ⟨compressed, utf8, json, ms, hcompressed, hutf8, hjson, hms, hdocument⟩
  · rintro ⟨compressed, utf8, json, ms, hcompressed, hutf8, hjson, hms, hdocument⟩
    rw [hcompressed]
    dsimp only
    rw [hutf8]
    dsimp only
    rw [hjson]
    exact validateInvitePayload_ok.mpr ⟨ms, hms, hdocument⟩

/-- `parseInviteUrl` resolves for the URLs that carry an invite, and for no others. -/
theorem parseInviteUrl_carries {href : JsString} {p : InvitePayload} :
    parseInviteUrl parse P href = .ok p ↔ ∃ url, CarriesInvite parse P href url p := by
  rw [parseInviteUrl_ok]
  refine exists_congr fun url => and_congr_right fun _ => ?_
  rw [inviteParam_ok]
  constructor
  · rintro ⟨encoded, hget, hne, hdecode⟩
    obtain ⟨compressed, utf8, json, ms, h⟩ := decodeInvite_ok.mp hdecode
    exact ⟨encoded, compressed, utf8, json, ms, hget, hne, h⟩
  · rintro ⟨encoded, compressed, utf8, json, ms, hget, hne, h⟩
    exact ⟨encoded, hget, hne, decodeInvite_ok.mpr ⟨compressed, utf8, json, ms, h⟩⟩

/-- What `parseInviteBundleUrl` resolves with is what `parseInviteUrl` does. -/
theorem parsers_agree {href : JsString} {r : ParsedInviteBundle}
    (h : parseInviteBundleUrl parse P href = .ok r) :
    parseInviteUrl parse P href = .ok r.invite := by
  obtain ⟨url, hurl, _, hinvite, _⟩ := parseInviteBundleUrl_ok.mp h
  exact parseInviteUrl_ok.mpr ⟨url, hurl, hinvite⟩

/-- Without `s` and unknown keys, what `parseInviteUrl` resolves with is what
`parseInviteBundleUrl` does. -/
theorem parsers_agree_alone {href : JsString} {url : Url} {p : InvitePayload}
    (hurl : parse href none = some url) (hkeys : KnownKeys (fragmentParams url))
    (halone : paramsGet (fragmentParams url) SIGNALING_BUNDLE_FRAGMENT_KEY = none)
    (h : parseInviteUrl parse P href = .ok p) :
    parseInviteBundleUrl parse P href = .ok ⟨p, none⟩ := by
  obtain ⟨url', hurl', hinvite⟩ := parseInviteUrl_ok.mp h
  obtain rfl := Option.some.inj (hurl.symm.trans hurl')
  refine parseInviteBundleUrl_ok.mpr ⟨url, hurl, noUnknownKeys_ok.mpr hkeys, hinvite, ?_⟩
  refine bundleParam_ok.mpr (.inl ⟨rfl, ?_⟩)
  rw [halone]
  rfl

/-- The parsers enforce the form of a URL exactly where it carries no invite or has that form
anyway. -/
theorem decoders_enforce_iff (parse : UrlParser) (P : Platform) (href : JsString) :
    Enforced parse P href ↔ ∀ url p, CarriesInvite parse P href url p → InForm href url p := by
  constructor
  · intro h url p hcarries
    obtain ⟨url', hurl', hform⟩ := h.invite p (parseInviteUrl_carries.mpr ⟨url, hcarries⟩)
    obtain rfl := Option.some.inj (hcarries.1.symm.trans hurl')
    exact hform
  · intro h
    have hinvite : ∀ p, parseInviteUrl parse P href = .ok p →
        ∃ url, parse href none = some url ∧ InForm href url p := by
      intro p hp
      obtain ⟨url, hcarries⟩ := parseInviteUrl_carries.mp hp
      exact ⟨url, hcarries.1, h url p hcarries⟩
    refine ⟨hinvite, fun r hr => hinvite _ (parsers_agree hr), fun r hr => parsers_agree hr, ?_⟩
    intro url hurl halone p hp
    obtain ⟨url', hurl', hform⟩ := hinvite p hp
    obtain rfl := Option.some.inj (hurl.symm.trans hurl')
    exact ⟨⟨p, none⟩, parsers_agree_alone hurl hform.keys halone hp, rfl⟩

/-! ## An invite of another version -/

/-- The invite to the studio, by a later implementation. -/
def laterInvite : InvitePayload := { studioInvite with protocolVersion := js "7.0.0" }

theorem laterInvite_valid : laterInvite.Valid := by
  obtain ⟨hroom, hfrom, _, hne, htags, hnote⟩ := studioInvite_valid
  exact ⟨hroom, hfrom, by decide, hne, htags, hnote⟩

def laterEncoded : JsString :=
  base64urlEncode (blockPlatform.deflateRaw (utf8Encode laterInvite.toJson.stringify))

def laterHref : JsString := studioUrl.href ++ 0x23 :: inviteText laterEncoded

/-- It is parsed: no parser looks at the version. -/
theorem laterHref_not_enforced : ¬ Enforced studioParser blockPlatform laterHref := by
  intro h
  have hkept : Kept laterEncoded := encoded_kept _
  have hne : laterEncoded ≠ [] := encoded_ne_nil blockPlatform_deflates _
  have hdecode : decodeInvite blockPlatform laterEncoded = .ok laterInvite :=
    decodeInvite_encoded blockPlatform_deflates.lossless laterInvite_valid
  have hparsed := studioParser_reparses studioUrl.href studioUrl (if_pos rfl) _
    (inviteText_ne_nil laterEncoded) (inviteText_plain hkept)
  have hhref : (studioUrl.setHash (inviteText laterEncoded)).href = laterHref := by
    rw [studioUrl.setHash_plain (inviteText_ne_nil _) (inviteText_plain hkept)]
    rfl
  rw [hhref] at hparsed
  obtain ⟨_, _, hform⟩ := h.invite laterInvite
    (parseInviteUrl_ok.mpr ⟨_, hparsed, inviteParam_inviteText studioUrl hkept hne hdecode⟩)
  exact absurd hform.version (by unfold Understood; decide)

end Senn.Invite
