import Senn.Registry.Readers
import Senn.Registry.Verifier
import Senn.Signing.Keystore

/-! # What a verified row means

The gallery finds the manifest of an entry by the last segment of its path, and does not look at
what the manifest says. The official verifier goes by the whole path, and compares. -/

namespace Senn.Gallery
open Senn.Js Senn.Signing Senn.Schema
open Senn.Scripts (Files OwnFiles SignedText Describes manifestPath sigPath verifyAddon verifyAddon_ok
  readUtf8 HasBom readUtf8_plain readUtf8_bom)

variable {Priv Pub : Type} {F : Files} {P : GalleryPlatform Priv Pub} {url : JsString}
  {keys : List JsString}

/-! ## The bytes behind a row -/

/-- What the server answers for the manifest and the signature of an entry. -/
def Served (P : GalleryPlatform Priv Pub) (url path : JsString) (bytes body : Bytes) : Prop :=
  ∃ manifestUrl sigUrl, manifestUrlFor P.parseUrl url path = some manifestUrl ∧
    sigUrlFor P.parseUrl manifestUrl = some sigUrl ∧ fetchBytes P manifestUrl = .ok bytes ∧
    fetchBytes P sigUrl = .ok body

theorem fetchJson_ok {json : Json} : fetchJson P url = .ok json ↔
    ∃ body, fetchBytes P url = .ok body ∧ Json.parse (utf8Decode body) = some json := by
  unfold fetchJson
  cases hfetch : fetchBytes P url with
  | error e => exact iff_of_false (fun h => nomatch h) (by simp)
  | ok body =>
    rw [ok_bind]
    cases hparse : Json.parse (utf8Decode body) with
    | none => exact iff_of_false (fun h => nomatch h) (by simp [hparse])
    | some json' =>
      constructor
      · intro h
        obtain rfl := Except.ok.inj h
        exact ⟨body, rfl, hparse⟩
      · intro h
        obtain ⟨body', heq, hparse'⟩ := h
        obtain rfl := Except.ok.inj heq
        exact congrArg Except.ok (Option.some.inj (hparse.symm.trans hparse'))

/-- The fetches and the checks of a row that has a result. -/
theorem checked_ok {manifestUrl sigUrl : JsString} {bytes : Bytes} {sig : ManifestSignatureV1}
    {result : VerifyResult} :
    checked P keys manifestUrl sigUrl = .ok (bytes, sig, result) ↔
      fetchBytes P manifestUrl = .ok bytes ∧ ∃ body json, fetchBytes P sigUrl = .ok body ∧
        Json.parse (utf8Decode body) = some json ∧
        validateSignaturePayload P.dates (.ofJson json) = .ok sig ∧
        verifyManifest P.crypto bytes sig (some keys) = .ok result := by
  unfold checked
  constructor
  · intro h
    obtain ⟨bytes', hbytes, h⟩ := bind_ok h
    obtain ⟨json, hjson, h⟩ := bind_ok h
    obtain ⟨sig', hsig, h⟩ := bind_ok h
    obtain ⟨result', hresult, h⟩ := bind_ok h
    obtain ⟨rfl, rfl, rfl⟩ : bytes' = bytes ∧ sig' = sig ∧ result' = result := by
      simpa using Except.ok.inj h
    obtain ⟨body, hbody, hparse⟩ := fetchJson_ok.mp hjson
    exact ⟨hbytes, body, json, hbody, hparse, mapError_ok.mp hsig, mapError_ok.mp hresult⟩
  · intro h
    obtain ⟨hbytes, body, json, hbody, hparse, hsig, hresult⟩ := h
    rw [hbytes, ok_bind, fetchJson_ok.mpr ⟨body, hbody, hparse⟩, ok_bind,
      mapError_ok.mpr hsig, ok_bind, mapError_ok.mpr hresult]
    rfl

section row
variable {raw : Json} {row : AddonRow}

/-- Behind a good row stand a manifest and a signature that the server answers with. -/
theorem addonRow_good (h : addonRow P url keys raw = some row) (hok : row.verifyResult.ok = true) :
    ∃ bytes body, Served P url (textOf raw (js "path")) bytes body ∧
      SignedText P.crypto P.dates keys (utf8Decode body) bytes ∧
      fetchBytes P row.manifestUrl = .ok bytes ∧ row.manifest = Json.parse (utf8Decode bytes) := by
  unfold addonRow at h
  obtain ⟨manifestUrl, hmanifestUrl, h⟩ := Option.bind_eq_some_iff.mp h
  obtain ⟨sigUrl, hsigUrl, h⟩ := Option.bind_eq_some_iff.mp h
  split at h
  · next bytes sig result hchecked =>
    obtain rfl := Option.some.inj h
    obtain ⟨hbytes, body, json, hbody, hparse, hsig, hresult⟩ := checked_ok.mp hchecked
    have hgood := Scripts.result_ok hresult hok
    exact ⟨bytes, body, ⟨manifestUrl, sigUrl, hmanifestUrl, hsigUrl, hbytes, hbody⟩,
      ⟨json, sig, hparse, hsig, hgood ▸ hresult⟩, hbytes, rfl⟩
  · obtain rfl := Option.some.inj h
    exact nomatch hok

/-- The row of an entry whose manifest the server signs is good. -/
theorem addonRow_of_signed {bytes body : Bytes} (h : addonRow P url keys raw = some row)
    (hserved : Served P url (textOf raw (js "path")) bytes body)
    (hsigned : SignedText P.crypto P.dates keys (utf8Decode body) bytes) :
    row.verifyResult.ok = true ∧ fetchBytes P row.manifestUrl = .ok bytes ∧
      row.manifest = Json.parse (utf8Decode bytes) := by
  obtain ⟨manifestUrl, sigUrl, hmanifestUrl, hsigUrl, hbytes, hbody⟩ := hserved
  obtain ⟨json, sig, hparse, hsig, hresult⟩ := hsigned
  have hchecked := checked_ok.mpr ⟨hbytes, body, json, hbody, hparse, hsig, hresult⟩
  unfold addonRow at h
  rw [hmanifestUrl, Option.bind_eq_bind, Option.bind_some, hsigUrl, Option.bind_some,
    hchecked] at h
  obtain rfl := Option.some.inj h
  exact ⟨rfl, hbytes, rfl⟩

end row

/-! ## One entry -/

/-- The row means of its entry what the official verifier means: that passes the entry, the signed
manifest is the entry's own, and says what the row displays. -/
structure MeansOfficial (F : Files) (P : GalleryPlatform Priv Pub) (keys : List JsString)
    (row : AddonRow) (a : RegistryAddon) : Prop where
  verified : ∃ r, verifyAddon F P.crypto P.dates a keys = .ok r ∧ r.ok = true
  own : ∃ bytes, fetchBytes P row.manifestUrl = .ok bytes ∧
    F.readFile (manifestPath F a.path) = .ok bytes
  displayed : ∃ manifest, row.manifest = some manifest ∧
    manifest.get? (js "id") = some (.str (textOf row.addon (js "id"))) ∧
    manifest.get? (js "version") = some (.str (textOf row.addon (js "version"))) ∧
    ∀ s, manifest.get? (js "description") = some (.str s) →
      s = textOf row.addon (js "description")

/-- The manifest is the one at the entry's own path, with a signature there that verifies it, and
it describes the entry. -/
def Backed (F : Files) (P : GalleryPlatform Priv Pub) (keys : List JsString) (a : RegistryAddon)
    (bytes : Bytes) : Prop :=
  (∃ sigBytes, OwnFiles F a.path bytes sigBytes ∧
    SignedText P.crypto P.dates keys (readUtf8 sigBytes) bytes) ∧
  ∃ manifest, Json.parse (utf8Decode bytes) = some manifest ∧ Describes a manifest

/-- What the server signs for this entry is backed by the entry's own files. -/
def EntryBacked (F : Files) (P : GalleryPlatform Priv Pub) (url : JsString) (keys : List JsString)
    (a : RegistryAddon) : Prop :=
  ∀ bytes body, Served P url a.path bytes body →
    SignedText P.crypto P.dates keys (utf8Decode body) bytes → Backed F P keys a bytes

theorem row_official_iff {raw : Json} {row : AddonRow} {a : RegistryAddon}
    (h : addonRow P url keys raw = some row) (hshows : Shows raw a) :
    (row.verifyResult.ok = true → MeansOfficial F P keys row a) ↔ EntryBacked F P url keys a := by
  have haddon := addonRow_addon h
  constructor
  · intro hmeans bytes body hserved hsigned
    rw [← hshows.path] at hserved
    obtain ⟨hok, hbytes, hmanifest⟩ := addonRow_of_signed h hserved hsigned
    obtain ⟨hverified, ⟨bytes', hbytes', hown⟩, -⟩ := hmeans hok
    obtain rfl := Except.ok.inj (hbytes.symm.trans hbytes')
    obtain ⟨bytes', sigBytes, manifest, hfiles, hsig, hparse, hdescribes⟩ :=
      verifyAddon_ok.mp hverified
    obtain rfl := Except.ok.inj (hown.symm.trans hfiles.manifest)
    exact ⟨⟨sigBytes, hfiles, hsig⟩, manifest, hparse, hdescribes⟩
  · intro hbacked hok
    obtain ⟨bytes, body, hserved, hsigned, hbytes, hmanifest⟩ := addonRow_good h hok
    rw [hshows.path] at hserved
    obtain ⟨⟨sigBytes, hfiles, hsig⟩, manifest, hparse, hdescribes⟩ := hbacked bytes body hserved hsigned
    refine ⟨verifyAddon_ok.mpr ⟨bytes, sigBytes, manifest, hfiles, hsig, hparse, hdescribes⟩,
      ⟨bytes, hbytes, hfiles.manifest⟩, manifest, hmanifest.trans hparse, ?_⟩
    rw [haddon, hshows.id, hshows.version, hshows.description]
    exact ⟨hdescribes.id, hdescribes.version, hdescribes.description⟩

/-! ## The layout of the repository -/

/-- `[A-Za-z0-9_-]` -/
def isSlugUnit (u : UInt16) : Bool :=
  isDigit u || (0x41 ≤ u && u ≤ 0x5A) || u = 0x5F || u = 0x2D || (0x61 ≤ u && u ≤ 0x7A)

def IsSlug (slug : JsString) : Prop := slug ≠ [] ∧ ∀ u ∈ slug, isSlugUnit u = true

/-- Where the repository keeps an add-on that its site serves. -/
def publicPath (slug : JsString) : JsString := js "apps/web/public/addons/" ++ slug

/-- The server answers with the contents of a file, if there is one. -/
def Serves (F : Files) (P : GalleryPlatform Priv Pub) (url path : JsString) : Prop :=
  ∀ bytes, fetchBytes P url = .ok bytes ↔ F.access path = true ∧ F.readFile path = .ok bytes

/-- The registry is served in the repository's layout: its entries' URLs can be formed, and there
the server has the files of the add-on of that name. -/
def Layout (F : Files) (P : GalleryPlatform Priv Pub) (url : JsString)
    (addons : List RegistryAddon) : Prop :=
  ∀ a ∈ addons, IsSlug (basenameOfPath a.path) → ∃ manifestUrl sigUrl,
    manifestUrlFor P.parseUrl url a.path = some manifestUrl ∧
    sigUrlFor P.parseUrl manifestUrl = some sigUrl ∧
    Serves F P manifestUrl (manifestPath F (publicPath (basenameOfPath a.path))) ∧
    Serves F P sigUrl (sigPath F (publicPath (basenameOfPath a.path)))

theorem basenameOfPath_public {slug : JsString} (h : IsSlug slug) :
    basenameOfPath (publicPath slug) = slug := by
  have hslash : ∀ u ∈ slug.reverse, u ≠ 0x2F := by
    intro u hu heq
    have hunit := h.2 u (List.mem_reverse.mp hu)
    rw [heq] at hunit
    exact absurd hunit (by decide)
  have hreverse : (publicPath slug).reverse =
      slug.reverse ++ 0x2F :: (js "apps/web/public/addons").reverse := by
    rw [publicPath, List.reverse_append]
    rfl
  have hdrop : (publicPath slug).reverse.dropWhile (· = 0x2F) = (publicPath slug).reverse := by
    rw [hreverse]
    obtain ⟨u, t, ht⟩ := List.exists_cons_of_ne_nil (List.reverse_ne_nil_iff.mpr h.1)
    have hu : u ≠ 0x2F := hslash u (by rw [ht]; exact List.mem_cons_self)
    rw [ht, List.cons_append, List.dropWhile_cons_of_neg (by simpa using hu)]
  rw [basenameOfPath, hdrop, hreverse,
    List.takeWhile_append_of_pos fun u hu => decide_eq_true (hslash u hu),
    List.takeWhile_cons_of_neg (by decide), List.append_nil, List.reverse_reverse]

/-- In the layout, what is served for an entry of the public directory are its own files. -/
theorem served_own {addons : List RegistryAddon} (hlayout : Layout F P url addons)
    {a : RegistryAddon} (ha : a ∈ addons) {slug : JsString} (hslug : IsSlug slug)
    (hpath : a.path = publicPath slug) (bytes body : Bytes) :
    Served P url a.path bytes body ↔ OwnFiles F a.path bytes body := by
  have hbase : basenameOfPath a.path = slug := hpath ▸ basenameOfPath_public hslug
  obtain ⟨manifestUrl, sigUrl, hmanifestUrl, hsigUrl, hmanifest, hsig⟩ :=
    hlayout a ha (hbase ▸ hslug)
  rw [hbase, ← hpath] at hmanifest hsig
  constructor
  · intro h
    obtain ⟨manifestUrl', sigUrl', hurl, hurl', hbytes, hbody⟩ := h
    obtain rfl := Option.some.inj (hmanifestUrl.symm.trans hurl)
    obtain rfl := Option.some.inj (hsigUrl.symm.trans hurl')
    obtain ⟨hthere, hread⟩ := (hmanifest bytes).mp hbytes
    obtain ⟨hthere', hread'⟩ := (hsig body).mp hbody
    exact ⟨hthere, hthere', hread, hread'⟩
  · intro h
    exact ⟨manifestUrl, sigUrl, hmanifestUrl, hsigUrl,
      (hmanifest bytes).mpr ⟨h.manifestThere, h.manifest⟩, (hsig body).mpr ⟨h.sigThere, h.sig⟩⟩

theorem signedText_readUtf8 {bytes body : Bytes} :
    SignedText P.crypto P.dates keys (readUtf8 body) bytes ↔
      SignedText P.crypto P.dates keys (utf8Decode body) bytes ∧ ¬HasBom body := by
  by_cases hbom : HasBom body
  · refine iff_of_false (fun h => ?_) fun h => h.2 hbom
    obtain ⟨json, sig, hparse, -⟩ := h
    exact nomatch (readUtf8_bom hbom).symm.trans hparse
  · rw [readUtf8_plain hbom, and_iff_left hbom]

/-! ## A registry -/

section registry
variable {V : Schema.Platform} {doc : Json} {reg : Registry} {rows : List AddonRow}

/-- Every good row means what the official verifier means. -/
def RowsMeanOfficial (F : Files) (P : GalleryPlatform Priv Pub) (reg : Registry)
    (rows : List AddonRow) : Prop :=
  List.Forall₂ (fun (row : AddonRow) (a : RegistryAddon) =>
    row.verifyResult.ok = true → MeansOfficial F P reg.trustedKeys row a) rows reg.addons

theorem loadPublisherIndex_rows {value : Json}
    (h : loadPublisherIndex P url = .ok (value, rows)) : addonRows P url value = some rows := by
  unfold loadPublisherIndex at h
  obtain ⟨value', -, h⟩ := bind_ok h
  split at h
  · exact nomatch h
  unfold registryRows at h
  split at h
  · cases hrows : addonRows P url value' with
    | none =>
      rw [hrows] at h
      exact nomatch h
    | some rows' =>
      rw [hrows] at h
      obtain ⟨rfl, rfl⟩ := Prod.mk.inj (Except.ok.inj h)
      exact hrows
  · exact nomatch h

theorem rowsMeanOfficial_iff (haccepted : validateRegistry V doc = .ok reg)
    (hload : loadPublisherIndex P url = .ok (doc, rows)) :
    RowsMeanOfficial F P reg rows ↔ ∀ a ∈ reg.addons, EntryBacked F P url reg.trustedKeys a := by
  obtain ⟨raws, h⟩ := validateRegistry_accepted haccepted
  have hmap : raws.mapM (addonRow P url reg.trustedKeys) = some rows := by
    rw [← loadPublisherIndex_rows hload, addonRows, h.trustedKeys, h.addons]
    rfl
  have hrows := mapM_some.mp hmap
  have hshows := h.shows
  unfold RowsMeanOfficial
  generalize reg.addons = addons at hshows
  clear hload h haccepted hmap
  induction hshows generalizing rows with
  | nil =>
    cases hrows
    simp
  | @cons raw a raws addons hshow _ ih =>
    cases hrows with
    | @cons _ row _ rows hrow hrows =>
      rw [List.forall₂_cons, List.forall_mem_cons]
      exact and_congr (row_official_iff hrow hshow) (ih hrows)

theorem entryBacked_public {addons : List RegistryAddon} (hlayout : Layout F P url addons)
    {a : RegistryAddon} (ha : a ∈ addons) {slug : JsString} (hslug : IsSlug slug)
    (hpath : a.path = publicPath slug) :
    EntryBacked F P url keys a ↔ ∀ bytes sigBytes, OwnFiles F a.path bytes sigBytes →
      SignedText P.crypto P.dates keys (utf8Decode sigBytes) bytes → ¬HasBom sigBytes ∧
        ∃ manifest, Json.parse (utf8Decode bytes) = some manifest ∧ Describes a manifest := by
  refine forall_congr' fun bytes => forall_congr' fun body => ?_
  rw [served_own hlayout ha hslug hpath]
  refine forall_congr' fun hown => forall_congr' fun hsigned => and_congr_left' ?_
  constructor
  · intro h
    obtain ⟨sigBytes, hown', hsigned'⟩ := h
    obtain rfl := Except.ok.inj (hown.sig.symm.trans hown'.sig)
    exact (signedText_readUtf8.mp hsigned').2
  · intro hbom
    exact ⟨body, hown, signedText_readUtf8.mpr ⟨hsigned, hbom⟩⟩

/-- The rows mean what the official verifier means when every entry whose served manifest is
signed is backed; in the layout of the repository, when the manifests that are signed describe
their entries and no signature begins with a byte order mark. -/
theorem rows_official_iff (haccepted : validateRegistry V doc = .ok reg)
    (hload : loadPublisherIndex P url = .ok (doc, rows)) :
    (RowsMeanOfficial F P reg rows ↔ ∀ a ∈ reg.addons, EntryBacked F P url reg.trustedKeys a) ∧
    (Layout F P url reg.addons →
      (∀ a ∈ reg.addons, ∃ slug, IsSlug slug ∧ a.path = publicPath slug) →
      (RowsMeanOfficial F P reg rows ↔
        ∀ a ∈ reg.addons, ∀ bytes sigBytes, OwnFiles F a.path bytes sigBytes →
          SignedText P.crypto P.dates reg.trustedKeys (utf8Decode sigBytes) bytes →
          ¬HasBom sigBytes ∧
            ∃ manifest, Json.parse (utf8Decode bytes) = some manifest ∧ Describes a manifest)) := by
  have hrows := rowsMeanOfficial_iff (F := F) haccepted hload
  refine ⟨hrows, fun hlayout hpublic => hrows.trans ?_⟩
  refine forall_congr' fun a => forall_congr' fun ha => ?_
  obtain ⟨slug, hslug, hpath⟩ := hpublic a ha
  exact entryBacked_public hlayout ha hslug hpath

end registry

/-! ## An entry that is ahead of its manifest -/

/-- An entry of this version, in the public directory. -/
def notesAddon (version : JsString) : RegistryAddon :=
  ⟨js "dev.notes", js "Notes", version, js "", publicPath (js "notes"), [], none, none, none, none,
    none⟩

def notesAt (version : JsString) : Registry where
  v := 2
  publisher := ⟨js "senn", none⟩
  trustedKeys := [base64urlEncode alicePublic.val]
  addons := [notesAddon version]

def notesManifest : Json :=
  .obj [(js "id", .str (js "dev.notes")), (js "version", .str (js "1.0.0"))]

def notesBytes : Bytes := utf8Encode notesManifest.stringify

/-- What the trusted key makes of the manifest. -/
def notesSignature : ManifestSignatureV1 :=
  ⟨base64urlEncode alicePublic.val, base64urlEncode (pairCrypto.sign aliceKey notesBytes),
    js "2026-04-25T15:33:00.000Z"⟩

def notesSignatureJson : Json :=
  .obj [(js "v", .num (.ofNat 1)), (js "alg", .str SIGNATURE_ALG),
    (js "publicKey", .str notesSignature.publicKey), (js "signature", .str notesSignature.signature),
    (js "signedAt", .str notesSignature.signedAt)]

def notesSigBytes : Bytes := utf8Encode notesSignatureJson.stringify

/-- The add-on's files in the repository. -/
def notesFiles : Files where
  root := js "/senn"
  access path := path = js "/senn/apps/web/public/addons/notes/manifest.json" ||
    path = js "/senn/apps/web/public/addons/notes/manifest.sig.json"
  readFile path :=
    if path = js "/senn/apps/web/public/addons/notes/manifest.json" then .ok notesBytes
    else if path = js "/senn/apps/web/public/addons/notes/manifest.sig.json" then .ok notesSigBytes
    else .error (js "ENOENT")
  syntaxError _ := js "Unexpected token"

/-- A site of this registry and of the files. -/
def notesSite (version : JsString) : GalleryPlatform RawKey RawKey where
  parseUrl := basicParse Addon.webHost
  crypto := pairCrypto
  dates := oneDay
  fetch url :=
    if url = js "https://senn.example/addons/notes/manifest.json" then .response 200 (.ok notesBytes)
    else if url = js "https://senn.example/addons/notes/manifest.sig.json" then
      .response 200 (.ok notesSigBytes)
    else if url = registryUrl then
      .response 200 (.ok (utf8Encode (notesAt version).toJson.stringify))
    else .response 404 (.ok [])

/-- The published version and one that is ahead of it. -/
abbrev IsNotesVersion (version : JsString) : Prop := version = js "1.0.0" ∨ version = js "2.0.0"

theorem notesAt_accepted {version : JsString} (h : IsNotesVersion version) :
    validateRegistry oneDate (notesAt version).toJson = .ok (notesAt version) := by
  cases h with
  | inl h => subst h; rfl
  | inr h => subst h; rfl

theorem notesAt_fetched (version : JsString) :
    fetchJson (notesSite version) registryUrl = .ok (notesAt version).toJson := by
  have hexact : (notesAt version).toJson.Exact := by
    have hkeys : [js "v", js "publisher", js "trustedKeys", js "addons"].Nodup := by decide
    have hname : [js "name"].Nodup := by decide
    have hfields : [js "id", js "name", js "version", js "description", js "path",
        js "capabilities"].Nodup := by decide
    have haddon : (notesAddon version).toJson.Exact :=
      ⟨hfields, trivial, trivial, trivial, trivial, trivial, trivial, trivial⟩
    have hversion : 2 ≤ 2 ^ 53 := by decide
    exact ⟨hkeys, readsBack_ofNat hversion, ⟨hname, trivial, trivial⟩, ⟨trivial, trivial⟩,
      ⟨haddon, trivial⟩, trivial⟩
  have hfetch : fetchBytes (notesSite version) registryUrl =
      .ok (utf8Encode (notesAt version).toJson.stringify) := rfl
  refine fetchJson_ok.mpr ⟨_, hfetch, ?_⟩
  rw [utf8Decode_stringify, parse_stringify hexact]

theorem notes_urls :
    manifestUrlFor (basicParse Addon.webHost) registryUrl (publicPath (js "notes")) =
        some (js "https://senn.example/addons/notes/manifest.json") ∧
      sigUrlFor (basicParse Addon.webHost) (js "https://senn.example/addons/notes/manifest.json") =
        some (js "https://senn.example/addons/notes/manifest.sig.json") :=
  ⟨by decide +kernel, by decide +kernel⟩

theorem notes_slug : IsSlug (js "notes") := by
  have hunits : (js "notes").all isSlugUnit = true := by decide
  exact ⟨by decide, List.all_eq_true.mp hunits⟩

theorem notes_own : OwnFiles notesFiles (publicPath (js "notes")) notesBytes notesSigBytes := by
  have hmanifest : manifestPath notesFiles (publicPath (js "notes")) =
      js "/senn/apps/web/public/addons/notes/manifest.json" := by decide
  have hsig : sigPath notesFiles (publicPath (js "notes")) =
      js "/senn/apps/web/public/addons/notes/manifest.sig.json" := by decide
  refine ⟨?_, ?_, ?_, ?_⟩
  · rw [hmanifest]; rfl
  · rw [hsig]; rfl
  · rw [hmanifest]; rfl
  · rw [hsig]; rfl

theorem notes_layout (version : JsString) :
    Layout notesFiles (notesSite version) registryUrl (notesAt version).addons := by
  intro a ha _
  obtain rfl := List.mem_singleton.mp ha
  obtain ⟨hmanifestUrl, hsigUrl⟩ := notes_urls
  have hown := notes_own
  have hbase : basenameOfPath (notesAddon version).path = js "notes" :=
    basenameOfPath_public notes_slug
  rw [hbase]
  have hserved : fetchBytes (notesSite version)
      (js "https://senn.example/addons/notes/manifest.json") = .ok notesBytes := rfl
  have hserved' : fetchBytes (notesSite version)
      (js "https://senn.example/addons/notes/manifest.sig.json") = .ok notesSigBytes := rfl
  refine ⟨_, _, hmanifestUrl, hsigUrl, fun bytes => ?_, fun bytes => ?_⟩
  · rw [hserved, hown.manifest, Except.ok.injEq, Except.ok.injEq]
    exact (and_iff_right hown.manifestThere).symm
  · rw [hserved', hown.sig, Except.ok.injEq, Except.ok.injEq]
    exact (and_iff_right hown.sigThere).symm

theorem notes_rows {version : JsString} (h : IsNotesVersion version) :
    ∃ rows, loadPublisherIndex (notesSite version) registryUrl =
      .ok ((notesAt version).toJson, rows) := by
  obtain ⟨raws, haccepted⟩ := validateRegistry_accepted (notesAt_accepted h)
  have hurls : ∀ a ∈ (notesAt version).addons,
      RowUrls (notesSite version).parseUrl registryUrl a.path := by
    intro a ha
    obtain rfl := List.mem_singleton.mp ha
    exact ⟨_, _, notes_urls⟩
  obtain ⟨rows, hrows, -⟩ := (rows_iff (notesAt version).trustedKeys haccepted.shows).mpr hurls
  have hrows : addonRows (notesSite version) registryUrl (notesAt version).toJson = some rows := by
    rw [addonRows, haccepted.trustedKeys, haccepted.addons]
    exact hrows
  have hmeta : isMetaIndex (notesAt version).toJson = false := rfl
  refine ⟨rows, ?_⟩
  rw [loadPublisherIndex, notesAt_fetched, ok_bind, hmeta, if_neg Bool.false_ne_true,
    registryRows, if_pos haccepted.isRegistry, hrows]

theorem notes_signed : SignedText pairCrypto oneDay [base64urlEncode alicePublic.val]
    (utf8Decode notesSigBytes) notesBytes := by
  have hexact : notesSignatureJson.Exact :=
    ⟨by decide, readsBack_ofNat (by decide), trivial, trivial, trivial, trivial, trivial⟩
  refine ⟨notesSignatureJson, notesSignature, ?_, ?_, ?_⟩
  · rw [notesSigBytes, utf8Decode_stringify, parse_stringify hexact]
  · exact validateSignaturePayload_toData ⟨_, base64urlDecode_encode _, alicePublic.property⟩
      ⟨_, base64urlDecode_encode _, pairCrypto_correct.sign_length _ _⟩ (by decide)
  · refine verifyManifest_ok.mpr ⟨List.mem_cons_self, alicePublic, _, pair_keyOf alicePublic,
      base64urlDecode_encode _, ?_⟩
    exact (pairCrypto_correct.verify_sign _ _ _).mpr rfl

theorem notes_parsed : Json.parse (utf8Decode notesBytes) = some notesManifest := by
  have hexact : notesManifest.Exact := ⟨by decide, trivial, trivial, trivial⟩
  rw [notesBytes, utf8Decode_stringify, parse_stringify hexact]

/-- Where the entry is at the version of its manifest, its row means what it should. -/
theorem notesPublished_official : ∃ rows,
    loadPublisherIndex (notesSite (js "1.0.0")) registryUrl =
      .ok ((notesAt (js "1.0.0")).toJson, rows) ∧
    RowsMeanOfficial notesFiles (notesSite (js "1.0.0")) (notesAt (js "1.0.0")) rows := by
  obtain ⟨rows, hload⟩ := notes_rows (.inl rfl)
  refine ⟨rows, hload, ?_⟩
  refine ((rows_official_iff (notesAt_accepted (.inl rfl)) hload).2 (notes_layout _)
    fun a ha => ?_).mpr fun a ha bytes sigBytes hown _ => ?_
  · obtain rfl := List.mem_singleton.mp ha
    exact ⟨js "notes", notes_slug, rfl⟩
  · obtain rfl := List.mem_singleton.mp ha
    obtain rfl := Except.ok.inj (notes_own.manifest.symm.trans hown.manifest)
    obtain rfl := Except.ok.inj (notes_own.sig.symm.trans hown.sig)
    refine ⟨fun hbom => ?_, notesManifest, notes_parsed, rfl, rfl, fun s hs => nomatch hs⟩
    obtain ⟨rest, heq⟩ := hbom
    have hhead : notesSigBytes.head? = some 0x7B := rfl
    rw [heq] at hhead
    exact absurd (Option.some.inj hhead) (by decide)

/-- Where the entry is ahead of it, the row is verified all the same. -/
theorem notesAhead_differs : ¬∀ (V : Schema.Platform) (F : Files)
    (P : GalleryPlatform RawKey RawKey) (url : JsString) (doc : Json) (reg : Registry)
    (rows : List AddonRow), validateRegistry V doc = .ok reg →
    loadPublisherIndex P url = .ok (doc, rows) → Layout F P url reg.addons →
    RowsMeanOfficial F P reg rows := by
  intro h
  obtain ⟨rows, hload⟩ := notes_rows (.inr rfl)
  have haccepted := notesAt_accepted (.inr rfl)
  have hmeans := h _ notesFiles _ _ _ _ _ haccepted hload (notes_layout _)
  have hbacked := (rowsMeanOfficial_iff haccepted hload).mp hmeans _ List.mem_cons_self
  obtain ⟨-, manifest, hparse, hdescribes⟩ := hbacked notesBytes notesSigBytes
    ((served_own (notes_layout _) List.mem_cons_self notes_slug rfl _ _).mpr notes_own) notes_signed
  obtain rfl := Option.some.inj (notes_parsed.symm.trans hparse)
  have hversion : some (Json.str (js "1.0.0")) = some (.str (js "2.0.0")) := hdescribes.version
  exact absurd (Json.str.inj (Option.some.inj hversion)) (by decide)

end Senn.Gallery
