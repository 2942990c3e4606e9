import Senn.Addon.Load
import Senn.Js.UrlParser
import Senn.Registry.Schema

/-! # The add-on gallery

What the gallery takes a document for, and the rows it makes of a registry: for every entry the
manifest and the signature it finds on the registry's site. Beside it the gate of the web host,
which a gallery hands a registry over to. -/

namespace Senn.Gallery
open Senn.Js Senn.Signing Senn.Schema
open Senn.Addon (Fetched okStatus)

/-- What the gallery has from the page and the platform; `fetch` is what the server answers. -/
structure GalleryPlatform (Priv Pub : Type) where
  parseUrl : UrlParser
  crypto : WebCrypto Priv Pub
  dates : Dates
  fetch (url : JsString) : Fetched

inductive GalleryError where
  | network
  | http (status : Nat) (url : JsString)
  | body
  | syntax_
  | typeError
  | signing (e : SigningError)
  | metaOfMeta (url : JsString)
  | schema (url : JsString)

/-! ## Documents -/

/-- `typeof value === "object" && value !== null` -/
def isObject : Option Json → Bool
  | some (.obj _) | some (.arr _) => true
  | _ => false

/-- `typeof value === "string"` -/
def isString : Option Json → Bool
  | some (.str _) => true
  | _ => false

/-- `value === n` -/
def isNumber (n : Nat) : Option Json → Bool
  | some (.num x) => x.eq (.ofNat n)
  | _ => false

/-- `value === s` -/
def isText (s : JsString) : Option Json → Bool
  | some (.str t) => t = s
  | _ => false

def elements : Option Json → Option (List Json)
  | some (.arr xs) => some xs
  | _ => none

/-- An array of strings. -/
def isStrings (value : Option Json) : Bool := (isStringArray value).isSome

def SUBMISSION_FIELDS : List JsString :=
  [js "id", js "addonId", js "version", js "manifestUrl", js "signatureUrl", js "publicKey",
    js "submittedAt", js "contact", js "status", js "statusUpdatedAt"]

def SUBMISSIONS_KIND : JsString := js "senn-publisher-submissions"
def META_KIND : JsString := js "senn-publisher-meta"

/-- A document of one kind, at version 1. -/
def isKind (kind : JsString) (value : Json) : Bool :=
  isObject (some value) && isNumber 1 (value.get? (js "v")) &&
    isText kind (value.get? (js "kind"))

def isSubmissionsIndex (value : Json) : Bool :=
  isKind SUBMISSIONS_KIND value &&
    match elements (value.get? (js "submissions")) with
    | some submissions => submissions.all fun s =>
        isObject (some s) && SUBMISSION_FIELDS.all fun k => isString (s.get? k)
    | none => false

def isMetaIndex (value : Json) : Bool :=
  isKind META_KIND value &&
    match elements (value.get? (js "publishers")) with
    | some publishers => publishers ≠ [] && publishers.all fun p =>
        isObject (some p) && isString (p.get? (js "url"))
    | none => false

def ADDON_FIELDS : List JsString :=
  [js "id", js "name", js "version", js "description", js "path"]

/-- An entry of `addons`, as `isRegistry` looks at it. -/
def isEntry (a : Json) : Bool :=
  isObject (some a) && ADDON_FIELDS.all (fun k => isString (a.get? k)) &&
    isStrings (a.get? (js "capabilities"))

def isRegistry (value : Json) : Bool :=
  isObject (some value) &&
    (isNumber 1 (value.get? (js "v")) || isNumber 2 (value.get? (js "v")) ||
      isNumber 3 (value.get? (js "v"))) &&
    isObject (value.get? (js "publisher")) &&
    isString ((value.get? (js "publisher")).bind fun pub => pub.get? (js "name")) &&
    isStrings (value.get? (js "trustedKeys")) &&
    match elements (value.get? (js "addons")) with
    | some addons => addons.all isEntry
    | none => false

/-- A field of an entry that is a string. -/
def textOf (addon : Json) (k : JsString) : JsString := (stringIfAny (addon.get? k)).getD []

/-! ## Where a manifest is -/

def basenameOfPath (path : JsString) : JsString :=
  ((path.reverse.dropWhile (· = 0x2F)).takeWhile (· ≠ 0x2F)).reverse

/-- What stands before `/registry/<publisher>/<file>`; a path name has no line terminators. -/
def registryPrefix (pathname : JsString) : Option JsString :=
  match (pathname.splitOn 0x2F).reverse with
  | file :: publisher :: registry :: dir :: dirs =>
    if registry = js "registry" ∧ publisher ≠ [] ∧ file ≠ [] then
      some ([0x2F].intercalate (dir :: dirs).reverse)
    else none
  | _ => none

def tupleOrigin (u : Url) : JsString := u.protocol ++ js "//" ++ u.hostname ++ u.portText

section
variable (parse : UrlParser)

/-- `u.origin` -/
def origin (u : Url) : JsString :=
  if (UrlParse.defaultPort u.scheme).isSome then tupleOrigin u
  else if u.scheme = js "blob" then
    match parse u.pathname none with
    | some inner =>
      if inner.scheme = js "http" ∨ inner.scheme = js "https" then tupleOrigin inner else js "null"
    | none => js "null"
  else js "null"

/-- `manifestUrlFor`; without a prefix it is that of an empty one. -/
def manifestUrlFor (registryUrl addonPath : JsString) : Option JsString := do
  let u ← parse registryUrl none
  let slug := basenameOfPath addonPath
  let url ← newUrl parse
    ((registryPrefix u.pathname).getD [] ++ js "/addons/" ++ slug ++ js "/manifest.json")
    (origin parse u)
  return url.href

def sigUrlFor (manifestUrl : JsString) : Option JsString :=
  (newUrl parse (js "manifest.sig.json") manifestUrl).map Url.href

end

/-! ## Rows -/

variable {Priv Pub : Type} (P : GalleryPlatform Priv Pub)

def fetchBytes (url : JsString) : Except GalleryError Bytes :=
  match P.fetch url with
  | .rejected => .error .network
  | .response status body =>
    if okStatus status then body.mapError fun _ => .body else .error (.http status url)

def fetchJson (url : JsString) : Except GalleryError Json := do
  let bytes ← fetchBytes P url
  match Json.parse (utf8Decode bytes) with
  | some json => return json
  | none => .error .syntax_

structure AddonRow where
  registryUrl : JsString
  addon : Json
  manifestUrl : JsString
  sigUrl : JsString
  manifest : Option Json
  signature : Option ManifestSignatureV1
  verifyResult : VerifyResult
  fetchError : Option GalleryError

/-- What is fetched for a row, and what `verifyManifest` makes of it; of two fetches that fail the
manifest's is reported. -/
def checked (trustedKeys : List JsString) (manifestUrl sigUrl : JsString) :
    Except GalleryError (Bytes × ManifestSignatureV1 × VerifyResult) := do
  let manifestBytes ← fetchBytes P manifestUrl
  let sigJson ← fetchJson P sigUrl
  let signature ← (validateSignaturePayload P.dates (.ofJson sigJson)).mapError .signing
  let result ←
    (verifyManifest P.crypto manifestBytes signature (some trustedKeys)).mapError .signing
  return (manifestBytes, signature, result)

/-- The row of an entry; `none` is the TypeError of `new URL`. -/
def addonRow (url : JsString) (trustedKeys : List JsString) (addon : Json) : Option AddonRow := do
  let manifestUrl ← manifestUrlFor P.parseUrl url (textOf addon (js "path"))
  let sigUrl ← sigUrlFor P.parseUrl manifestUrl
  match checked P trustedKeys manifestUrl sigUrl with
  | .ok (bytes, signature, result) =>
    return ⟨url, addon, manifestUrl, sigUrl, Json.parse (utf8Decode bytes), some signature, result,
      none⟩
  | .error e =>
    return ⟨url, addon, manifestUrl, sigUrl, none, none, ⟨false, some (js "fetch-error")⟩, some e⟩

/-- The rows of a registry, of which one that throws rejects them all. -/
def addonRows (url : JsString) (registry : Json) : Option (List AddonRow) :=
  let trustedKeys := (isStringArray (registry.get? (js "trustedKeys"))).getD []
  ((elements (registry.get? (js "addons"))).getD []).mapM (addonRow P url trustedKeys)

/-- A registry with its rows. -/
def registryRows (url : JsString) (value : Json) : Except GalleryError (Json × List AddonRow) :=
  if isRegistry value then
    match addonRows P url value with
    | some rows => .ok (value, rows)
    | none => .error .typeError
  else .error (.schema url)

def loadPublisherIndex (url : JsString) : Except GalleryError (Json × List AddonRow) := do
  let value ← fetchJson P url
  if isMetaIndex value then .error (.metaOfMeta url) else registryRows P url value

/-- What a URL turns out to be; the publishers of a meta-index are loaded one by one. -/
inductive LoadResult where
  | submissions (value : Json)
  | metaIndex (value : Json)
  | registry (registry : Json) (addons : List AddonRow)

def loadFromUrl (url : JsString) : Except GalleryError LoadResult := do
  let value ← fetchJson P url
  if isSubmissionsIndex value then return .submissions value
  else if isMetaIndex value then return .metaIndex value
  else do
    let r ← registryRows P url value
    return .registry r.1 r.2

/-! ## The hand-off -/

/-- What the web host shows of a registry that is handed over, and trusts. -/
structure Handoff where
  publisher : Option Json
  trustedKeys : List Json

inductive HandoffError where
  | schema
  | typeError
deriving DecidableEq

/-- `registry.publisher.name` -/
def publisherName (json : Json) : Except HandoffError (Option Json) :=
  match json.get? (js "publisher") with
  | none | some .null => .error .typeError
  | some publisher => .ok (publisher.get? (js "name"))

/-- `handleHandoff`, once the registry is fetched. -/
def handoff (json : Json) : Except HandoffError Handoff :=
  match json with
  | .null => .error .typeError
  | json =>
    if !isNumber 1 (json.get? (js "v")) && !isNumber 2 (json.get? (js "v")) then .error .schema
    else
      match elements (json.get? (js "trustedKeys")) with
      | none | some [] => .error .schema
      | some trustedKeys => do
        let publisher ← publisherName json
        return ⟨publisher, trustedKeys⟩

end Senn.Gallery
