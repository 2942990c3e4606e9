import Senn.Addon.Host
import Senn.Js.Url
import Senn.Signing.Signature

/-! # Loading an add-on

`AddonHost.load`: the manifest is fetched as bytes, its signature is checked where the host asks
for that, and only then are the bytes parsed, validated and mounted. What the fetcher answers is
an input; what `load` does to the page is a list of effects. -/

namespace Senn.Addon
open Senn.Js Senn.Protocol Senn.Signing

inductive VerifyMode where
  | none
  | optional
  | required
deriving DecidableEq

structure AddonHostVerifyOptions where
  mode : VerifyMode
  trustedKeys : Option (List JsString)
deriving DecidableEq

/-- The options that `load` itself reads, and those of the host. -/
structure LoadOptions where
  manifestUrl : JsString
  verify : Option AddonHostVerifyOptions
  host : AddonHostOptions

/-- What `load` has from the page and the platform. -/
structure LoadPlatform (Priv Pub : Type) where
  parseUrl : UrlParser
  crypto : WebCrypto Priv Pub
  dates : Dates
  syntaxError (text : JsString) : JsString     -- the message of `JSON.parse`'s error
  location : Option JsString                   -- `globalThis.location?.href`
  sessionId : JsString                         -- `newEnvelopeId()`
  contentWindow : Option Window                -- of the new iframe

/-- What a call of the fetcher gives; reading the body may fail with a message. -/
inductive Fetched where
  | rejected
  | response (status : Nat) (body : Except JsString Bytes)

/-- `res.ok` -/
def okStatus (status : Nat) : Bool := 200 ≤ status && status ≤ 299

/-- What `load` rejects with: an `AddonValidationError`, a TypeError, or what the fetcher, the
body or Web Crypto rejected with. -/
inductive LoadError where
  | validation (message : JsString)
  | typeError
  | fetch
  | signing (e : SigningError)
deriving DecidableEq

def loadError (message : JsString) : LoadError :=
  .validation (js "senn: addon validation failed — " ++ message)

structure Iframe where
  sandbox : List JsString
  referrerPolicy : JsString
  title : JsString
  src : JsString
deriving DecidableEq

inductive ListenerTarget where
  | iframe
  | window
  | session
deriving DecidableEq

/-- What `load` does to the network and to the page. -/
inductive LoadEffect where
  | fetch (url : Url)
  | createIframe (frame : Iframe)
  | appendIframe
  | listen (target : ListenerTarget) (event : JsString)
deriving DecidableEq

variable {Priv Pub : Type} (P : LoadPlatform Priv Pub)

/-- The bytes of the manifest. -/
def manifestBytes (manifestUrl : Url) : Fetched → Except LoadError Bytes
  | .rejected => .error .fetch
  | .response status body =>
    if okStatus status then body.mapError fun _ => .fetch
    else .error (loadError
      (js "fetch " ++ manifestUrl.href ++ js " returned " ++ natText 10 status))

def SigningError.message : SigningError → JsString
  | .signature message | .keystore message => message
  | .rangeError | .rejected => []

/-- `validateSignaturePayload(await sigRes.json())`, with the error `load` makes of its own. -/
def signaturePayload (body : Except JsString Bytes) : Except LoadError ManifestSignatureV1 :=
  let invalid := fun message => loadError (js "signature payload invalid: " ++ message)
  match body with
  | .error message => .error (invalid message)
  | .ok bytes =>
    match Json.parse (utf8Decode bytes) with
    | none => .error (invalid (P.syntaxError (utf8Decode bytes)))
    | some json =>
      (validateSignaturePayload P.dates (.ofJson json)).mapError fun e =>
        invalid (SigningError.message e)

/-- The signature's answer, once it is there. -/
def checkAnswer (mode : VerifyMode) (trustedKeys : List JsString) (sigUrl : Url) (bytes : Bytes) :
    Fetched → Except LoadError Unit
  | .rejected => .error .fetch
  | .response status body =>
    if status = 404 then
      if mode = .required then
        .error (loadError (js "required signature missing: " ++ sigUrl.href))
      else .ok ()
    else if !okStatus status then
      .error (loadError (js "fetch " ++ sigUrl.href ++ js " returned " ++ natText 10 status))
    else do
      let sig ← signaturePayload P body
      let result ← (verifyManifest P.crypto bytes sig (some trustedKeys)).mapError .signing
      if result.ok then .ok ()
      else .error (loadError
        (js "signature verification failed: " ++ result.reason.getD (js "unknown")))

/-- The second step: the signature is fetched and checked unless the mode is `none`. -/
def checkSignature (verify : AddonHostVerifyOptions) (manifestUrl : Url) (bytes : Bytes)
    (sigAnswer : Fetched) : List LoadEffect × Except LoadError Unit :=
  if verify.mode = .none then ([], .ok ())
  else
    match verify.trustedKeys with
    | none | some [] =>
      ([], .error (loadError (js "verify.trustedKeys is required when verify.mode is not 'none'")))
    | some (k :: ks) =>
      match newUrl P.parseUrl (js "manifest.sig.json") manifestUrl.href with
      | none => ([], .error .typeError)
      | some sigUrl =>
        ([.fetch sigUrl], checkAnswer P verify.mode (k :: ks) sigUrl bytes sigAnswer)

def ofManifestError : ManifestError → LoadError
  | .validation message => .validation message
  | .typeError => .typeError

/-- The third step: the bytes are parsed and validated. -/
def parseManifest (bytes : Bytes) : Except LoadError AddonManifest :=
  match Json.parse (utf8Decode bytes) with
  | none =>
    .error (loadError (js "manifest is not valid JSON: " ++ P.syntaxError (utf8Decode bytes)))
  | some json => (validateManifest (.ofJson json)).mapError ofManifestError

/-- The iframe `mount` makes. -/
def iframeOf (manifest : AddonManifest) (entryUrl : Url) : Iframe where
  sandbox := js "allow-scripts" ::
    if js "file.write.user_approved" ∈ manifest.permissions then [js "allow-downloads"] else []
  referrerPolicy := js "no-referrer"
  title := js "SENN add-on: " ++ manifest.name
  src := entryUrl.href

/-- `mount` and, with a session, `bindToSession`. -/
def mountEffects (options : AddonHostOptions) (manifest : AddonManifest) (entryUrl : Url) :
    List LoadEffect :=
  [.createIframe (iframeOf manifest entryUrl), .listen .iframe (js "load"), .appendIframe,
    .listen .window (js "message")] ++
  if options.session.isSome then
    [.listen .session (js "text"), .listen .session (js "binary"),
      .listen .session (js "remote-track")]
  else []

/-- The parsed manifest and its entry's URL, after the checks. -/
def verifiedManifest (manifestUrl : Url) (bytes : Bytes) (checked : Except LoadError Unit) :
    Except LoadError (AddonManifest × Url) := do
  checked
  let manifest ← parseManifest P bytes
  match newUrl P.parseUrl manifest.entry manifestUrl.href with
  | some entryUrl => .ok (manifest, entryUrl)
  | none => .error .typeError

/-- `AddonHost.load`, with what the fetcher answers for the manifest and for its signature. -/
def load (opts : LoadOptions) (answer sigAnswer : Fetched) :
    List LoadEffect × Except LoadError AddonHost :=
  match newUrl P.parseUrl opts.manifestUrl (P.location.getD (js "http://senn.invalid/")) with
  | none => ([], .error .typeError)
  | some manifestUrl =>
    match manifestBytes manifestUrl answer with
    | .error e => ([.fetch manifestUrl], .error e)
    | .ok bytes =>
      let checked := checkSignature P (opts.verify.getD ⟨.none, none⟩) manifestUrl bytes sigAnswer
      let fetched := .fetch manifestUrl :: checked.1
      match verifiedManifest P manifestUrl bytes checked.2 with
      | .error e => (fetched, .error e)
      | .ok (manifest, entryUrl) =>
        (fetched ++ mountEffects opts.host manifest entryUrl,
          .ok (AddonHost.loaded manifest opts.host P.sessionId P.contentWindow))

/-! ## What may be mounted -/

/-- The body is a signature document whose key is trusted, and it verifies over the bytes. -/
def SignedBy (trustedKeys : List JsString) (body bytes : Bytes) : Prop :=
  ∃ json ms sig, Json.parse (utf8Decode body) = some json ∧ Data.ofJson json = .obj ms ∧
    SignatureDocument P.dates ms sig ∧ sig.publicKey ∈ trustedKeys ∧
    ∃ k s, KeyOf P.crypto sig.publicKey k ∧ base64urlDecode sig.signature = .ok s ∧
      P.crypto.verify k s bytes = true

/-- The answer for the signature is good enough for the mode. -/
def Vouched (mode : VerifyMode) (trustedKeys : List JsString) (bytes : Bytes)
    (sigAnswer : Fetched) : Prop :=
  (∃ status body, sigAnswer = .response status (.ok body) ∧ okStatus status = true ∧
    SignedBy P trustedKeys body bytes) ∨
  mode = .optional ∧ ∃ body, sigAnswer = .response 404 body

/-- The bytes of a manifest are what the host asks for. -/
def Authentic (verify : AddonHostVerifyOptions) (manifestUrl : Url) (bytes : Bytes)
    (sigAnswer : Fetched) : Prop :=
  verify.mode = .none ∨
    ∃ k ks, verify.trustedKeys = some (k :: ks) ∧
      (newUrl P.parseUrl (js "manifest.sig.json") manifestUrl.href).isSome ∧
      Vouched P verify.mode (k :: ks) bytes sigAnswer

/-- The answers let this manifest, the parse of bytes that are authentic, be mounted with this
entry. -/
def Mountable (opts : LoadOptions) (answer sigAnswer : Fetched) (manifest : AddonManifest)
    (entryUrl : Url) : Prop :=
  ∃ manifestUrl status bytes json,
    newUrl P.parseUrl opts.manifestUrl (P.location.getD (js "http://senn.invalid/")) =
      some manifestUrl ∧
    answer = .response status (.ok bytes) ∧ okStatus status = true ∧
    Authentic P (opts.verify.getD ⟨.none, none⟩) manifestUrl bytes sigAnswer ∧
    Json.parse (utf8Decode bytes) = some json ∧
    validateManifest (.ofJson json) = .ok manifest ∧
    newUrl P.parseUrl manifest.entry manifestUrl.href = some entryUrl

variable {P}

theorem manifestBytes_ok {manifestUrl : Url} {answer : Fetched} {bytes : Bytes} :
    manifestBytes manifestUrl answer = .ok bytes ↔
      ∃ status, answer = .response status (.ok bytes) ∧ okStatus status = true := by
  cases answer with
  | rejected => simp [manifestBytes]
  | response status body =>
    show (if okStatus status = true then _ else _) = _ ↔ _
    by_cases hok : okStatus status = true
    · rw [if_pos hok, mapError_ok]
      simp [hok]
    · simp [hok]

theorem signaturePayload_ok {body : Except JsString Bytes} {sig : ManifestSignatureV1} :
    signaturePayload P body = .ok sig ↔
      ∃ bytes json ms, body = .ok bytes ∧ Json.parse (utf8Decode bytes) = some json ∧
        Data.ofJson json = .obj ms ∧ SignatureDocument P.dates ms sig := by
  cases body with
  | error message => simp [signaturePayload]
  | ok bytes =>
    unfold signaturePayload
    cases hjson : Json.parse (utf8Decode bytes) with
    | none => simp [hjson]
    | some json =>
      simp only [hjson, mapError_ok, validateSignaturePayload_ok]
      simp [hjson]

/-- A result is good in one way. -/
theorem verifyManifest_good {C : WebCrypto Priv Pub} {bytes : Bytes} {sig : ManifestSignatureV1}
    {trustedKeys : Option (List JsString)} {result : VerifyResult}
    (h : verifyManifest C bytes sig trustedKeys = .ok result) (hok : result.ok = true) :
    result = ⟨true, none⟩ := by
  unfold verifyManifest at h
  split at h
  · obtain rfl := Except.ok.inj h
    cases hok
  · obtain ⟨_, _, h⟩ := bind_ok h
    obtain ⟨_, _, h⟩ := bind_ok h
    split at h
    · exact (Except.ok.inj h).symm
    · obtain rfl := Except.ok.inj h
      cases hok

theorem checkAnswer_ok {mode : VerifyMode} (hmode : mode ≠ .none) {trustedKeys : List JsString}
    {sigUrl : Url} {bytes : Bytes} {sigAnswer : Fetched} :
    checkAnswer P mode trustedKeys sigUrl bytes sigAnswer = .ok () ↔
      Vouched P mode trustedKeys bytes sigAnswer := by
  cases sigAnswer with
  | rejected => simp [checkAnswer, Vouched]
  | response status body =>
    show (if status = 404 then _ else _) = _ ↔ _
    unfold Vouched
    by_cases habsent : status = 404
    · subst habsent
      have hbad : okStatus 404 = false := by decide
      rw [if_pos rfl]
      cases mode with
      | none => exact absurd rfl hmode
      | optional => simp
      | required => simp [hbad]
    rw [if_neg habsent]
    by_cases hok : okStatus status = true
    · rw [if_neg (by simp [hok])]
      constructor
      · intro h
        obtain ⟨sig, hsig, h⟩ := bind_ok h
        obtain ⟨result, hresult, h⟩ := bind_ok h
        have hresult := mapError_ok.mp hresult
        split at h
        · next hgood =>
          obtain rfl := verifyManifest_good hresult hgood
          obtain ⟨body', json, ms, rfl, hjson, hms, hdocument⟩ := signaturePayload_ok.mp hsig
          exact .inl ⟨status, body', rfl, hok, json, ms, sig, hjson, hms, hdocument,
            verifyManifest_ok.mp hresult⟩
        · cases h
      · rintro (⟨_, body', heq, _, json, ms, sig, hjson, hms, hdocument, hverify⟩ |
          ⟨_, _, heq⟩)
        · obtain ⟨rfl, rfl⟩ := Fetched.response.inj heq
          have hsig := signaturePayload_ok.mpr ⟨body', json, ms, rfl, hjson, hms, hdocument⟩
          rw [hsig, ok_bind, mapError_ok.mpr (verifyManifest_ok.mpr hverify), ok_bind]
          rfl
        · exact absurd (Fetched.response.inj heq).1 habsent
    · rw [if_pos (by simp [hok])]
      simp [hok, habsent]

theorem checkSignature_ok {verify : AddonHostVerifyOptions} {manifestUrl : Url} {bytes : Bytes}
    {sigAnswer : Fetched} :
    (checkSignature P verify manifestUrl bytes sigAnswer).2 = .ok () ↔
      Authentic P verify manifestUrl bytes sigAnswer := by
  unfold checkSignature Authentic
  by_cases hmode : verify.mode = .none
  · simp [hmode]
  rw [if_neg hmode, or_iff_right hmode]
  split
  · next hkeys => simp [hkeys]
  · next hkeys => simp [hkeys]
  · next k ks hkeys =>
    split
    · next hurl => simp [hurl]
    · next sigUrl hurl =>
      show checkAnswer P verify.mode (k :: ks) sigUrl bytes sigAnswer = .ok () ↔ _
      rw [checkAnswer_ok hmode]
      constructor
      · intro h
        exact ⟨k, ks, hkeys, by simp [hurl], h⟩
      · rintro ⟨k', ks', hkeys', _, h⟩
        obtain ⟨rfl, rfl⟩ := List.cons.inj (Option.some.inj (hkeys.symm.trans hkeys'))
        exact h

theorem checkSignature_fetches {verify : AddonHostVerifyOptions} {manifestUrl : Url}
    {bytes : Bytes} {sigAnswer : Fetched} {effect : LoadEffect}
    (h : effect ∈ (checkSignature P verify manifestUrl bytes sigAnswer).1) :
    ∃ url, effect = .fetch url := by
  unfold checkSignature at h
  split at h
  · cases h
  split at h
  · cases h
  · cases h
  split at h
  · cases h
  · exact ⟨_, List.mem_singleton.mp h⟩

theorem parseManifest_ok {bytes : Bytes} {manifest : AddonManifest} :
    parseManifest P bytes = .ok manifest ↔
      ∃ json, Json.parse (utf8Decode bytes) = some json ∧
        validateManifest (.ofJson json) = .ok manifest := by
  unfold parseManifest
  cases Json.parse (utf8Decode bytes) with
  | none => simp
  | some json => simp [mapError_ok]

theorem verifiedManifest_ok {manifestUrl : Url} {bytes : Bytes} {checked : Except LoadError Unit}
    {manifest : AddonManifest} {entryUrl : Url} :
    verifiedManifest P manifestUrl bytes checked = .ok (manifest, entryUrl) ↔
      checked = .ok () ∧ parseManifest P bytes = .ok manifest ∧
        newUrl P.parseUrl manifest.entry manifestUrl.href = some entryUrl := by
  unfold verifiedManifest
  constructor
  · intro h
    obtain ⟨_, hchecked, h⟩ := bind_ok h
    obtain ⟨manifest', hmanifest, h⟩ := bind_ok h
    split at h
    · next hentry =>
      obtain ⟨rfl, rfl⟩ := Prod.mk.inj (Except.ok.inj h)
      exact ⟨hchecked, hmanifest, hentry⟩
    · cases h
  · rintro ⟨hchecked, hmanifest, hentry⟩
    rw [hchecked, ok_bind, hmanifest, ok_bind, hentry]

/-- A manifest that may be mounted is mounted. -/
theorem load_mountable {opts : LoadOptions} {answer sigAnswer : Fetched}
    {manifest : AddonManifest} {entryUrl : Url}
    (h : Mountable P opts answer sigAnswer manifest entryUrl) :
    ∃ fetches, (∀ effect ∈ fetches, ∃ url, effect = .fetch url) ∧
      load P opts answer sigAnswer =
        (fetches ++ mountEffects opts.host manifest entryUrl,
          .ok (AddonHost.loaded manifest opts.host P.sessionId P.contentWindow)) := by
  obtain ⟨manifestUrl, status, bytes, json, hurl, rfl, hok, hauthentic, hjson, hvalid, hentry⟩ := h
  have hbytes : manifestBytes manifestUrl (.response status (.ok bytes)) = .ok bytes :=
    manifestBytes_ok.mpr ⟨status, rfl, hok⟩
  have hchecked := checkSignature_ok.mpr hauthentic
  have hverified := verifiedManifest_ok.mpr
    ⟨hchecked, parseManifest_ok.mpr ⟨json, hjson, hvalid⟩, hentry⟩
  unfold load
  simp only [hurl, hbytes, hverified]
  refine ⟨_, fun effect heffect => ?_, rfl⟩
  obtain rfl | hrest := List.mem_cons.mp heffect
  · exact ⟨_, rfl⟩
  · exact checkSignature_fetches hrest

/-- Without one, `load` rejects and has only fetched. -/
theorem load_rejected {opts : LoadOptions} {answer sigAnswer : Fetched}
    (h : ∀ manifest entryUrl, ¬ Mountable P opts answer sigAnswer manifest entryUrl) :
    (∃ e, (load P opts answer sigAnswer).2 = .error e) ∧
      ∀ effect ∈ (load P opts answer sigAnswer).1, ∃ url, effect = .fetch url := by
  unfold load
  split
  · exact ⟨⟨_, rfl⟩, fun _ hmem => by cases hmem⟩
  · next manifestUrl hurl =>
    split
    · exact ⟨⟨_, rfl⟩, fun _ hmem => ⟨_, List.mem_singleton.mp hmem⟩⟩
    · next bytes hbytes =>
      dsimp only
      split
      · refine ⟨⟨_, rfl⟩, fun effect hmem => ?_⟩
        obtain rfl | hrest := List.mem_cons.mp hmem
        · exact ⟨_, rfl⟩
        · exact checkSignature_fetches hrest
      · next manifest entryUrl hverified =>
        obtain ⟨hchecked, hmanifest, hentry⟩ := verifiedManifest_ok.mp hverified
        obtain ⟨status, rfl, hok⟩ := manifestBytes_ok.mp hbytes
        obtain ⟨json, hjson, hvalid⟩ := parseManifest_ok.mp hmanifest
        exact absurd ⟨manifestUrl, status, bytes, json, hurl, rfl, hok,
          checkSignature_ok.mp hchecked, hjson, hvalid, hentry⟩ (h manifest entryUrl)

theorem created_iff {opts : LoadOptions} {answer sigAnswer : Fetched} {manifest : AddonManifest}
    {entryUrl : Url} (h : Mountable P opts answer sigAnswer manifest entryUrl) {frame : Iframe} :
    .createIframe frame ∈ (load P opts answer sigAnswer).1 ↔ frame = iframeOf manifest entryUrl := by
  obtain ⟨fetches, hfetches, heq⟩ := load_mountable h
  have hnot : .createIframe frame ∉ fetches := by
    intro hmem
    obtain ⟨url, hurl⟩ := hfetches _ hmem
    cases hurl
  rw [heq]
  simp only [List.mem_append, hnot, false_or, mountEffects]
  split <;> simp

theorem mountable_of_created {opts : LoadOptions} {answer sigAnswer : Fetched} {frame : Iframe}
    (h : .createIframe frame ∈ (load P opts answer sigAnswer).1) :
    ∃ manifest entryUrl, Mountable P opts answer sigAnswer manifest entryUrl := by
  by_contra hnone
  obtain ⟨_, hfetches⟩ := load_rejected fun m u hm => hnone ⟨m, u, hm⟩
  obtain ⟨url, hurl⟩ := hfetches _ h
  cases hurl

/-- Loading is sound: an iframe is created where the answers let a manifest be mounted, and only
there; what is mounted is that manifest with its entry; and otherwise `load` rejects and has
neither created an iframe nor registered a listener. -/
theorem load_sound (P : LoadPlatform Priv Pub) (opts : LoadOptions) (answer sigAnswer : Fetched) :
    ((∃ frame, .createIframe frame ∈ (load P opts answer sigAnswer).1) ↔
      ∃ manifest entryUrl, Mountable P opts answer sigAnswer manifest entryUrl) ∧
    (∀ manifest entryUrl, Mountable P opts answer sigAnswer manifest entryUrl →
      (load P opts answer sigAnswer).2 =
        .ok (AddonHost.loaded manifest opts.host P.sessionId P.contentWindow) ∧
      ∀ frame, .createIframe frame ∈ (load P opts answer sigAnswer).1 ↔
        frame = iframeOf manifest entryUrl) ∧
    ((¬ ∃ manifest entryUrl, Mountable P opts answer sigAnswer manifest entryUrl) →
      (∃ e, (load P opts answer sigAnswer).2 = .error e) ∧
      ∀ effect ∈ (load P opts answer sigAnswer).1, ∃ url, effect = .fetch url) := by
  refine ⟨⟨fun ⟨frame, hframe⟩ => ?_, fun ⟨manifest, entryUrl, h⟩ => ?_⟩, ?_, ?_⟩
  · exact mountable_of_created hframe
  · exact ⟨_, (created_iff h).mpr rfl⟩
  · intro manifest entryUrl h
    obtain ⟨fetches, _, heq⟩ := load_mountable h
    exact ⟨by rw [heq], fun frame => created_iff h⟩
  · intro hnone
    exact load_rejected fun m u hm => hnone ⟨m, u, hm⟩

end Senn.Addon
