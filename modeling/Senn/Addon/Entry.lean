import Senn.Addon.ManifestFile
import Senn.Js.UrlParser

/-! # Where an add-on's code comes from

`load` mounts whatever `new URL(manifest.entry, manifestUrl)` is. Here that is the parser of the URL
standard, and the entries are told apart that stay on the manifest's origin and in its directory. -/

namespace Senn.Addon
open Senn.Js Senn.Js.UrlParse

/-! ## Origins and directories -/

/-- The origin of the URL is a scheme, a host and a port; other origins are opaque. -/
def HasTupleOrigin (u : Url) : Prop := (defaultPort u.scheme).isSome = true

/-- Both URLs have one origin, which is no opaque one. -/
def SameOrigin (u v : Url) : Prop :=
  HasTupleOrigin u ∧ v.scheme = u.scheme ∧ v.host = u.host ∧ v.port = u.port

/-- A path leads to something inside of a directory. -/
def Below (dir path : List JsString) : Prop := ∃ rest, rest ≠ [] ∧ path = dir ++ rest

/-- The URL's path is inside of the directory of the manifest. -/
def InDirectory (manifestUrl u : Url) : Prop :=
  ∃ ss ss', manifestUrl.path = .segments ss ∧ u.path = .segments ss' ∧ Below ss.dropLast ss'

/-! ## Entries -/

/-- The part of a text that is resolved against a URL of this scheme; a text with another scheme
has none. -/
def ownText (scheme : JsString) (t : Points) : Option Points :=
  match scheme? t with
  | some (s, r) => if s = scheme then some r else none
  | none => some t

variable (H : HostParser)

/-- The reference stays on the origin of the manifest and in its directory `dir`: an authority is
that of the manifest, and the walk along the segments, with the dots among them, ends in `dir`. -/
def StaysIn (manifestUrl : Url) (dir : List JsString) : Reference → Prop
  | .authority t => ∀ a, authority? H manifestUrl.scheme t = some a →
      some a.host = manifestUrl.host ∧ a.port = manifestUrl.port ∧
        Below dir (walk manifestUrl.scheme [] (segmentsOf true (dropSlash true a.rest)))
  | .rooted t => Below dir (walk manifestUrl.scheme [] (segmentsOf true t))
  | .relative t =>
    if t.head?.all endsPath then Below dir (pathList manifestUrl.path)
    else Below dir (walk manifestUrl.scheme dir (segmentsOf true t))

/-- The entry is no URL here, or a reference that stays. -/
def EntryStays (manifestUrl : Url) (entry : JsString) : Prop :=
  basicParse H entry (some manifestUrl) = none ∨
    HasTupleOrigin manifestUrl ∧ ∃ ss t, manifestUrl.path = .segments ss ∧
      ownText manifestUrl.scheme (cleaned entry) = some t ∧
      StaysIn H manifestUrl ss.dropLast (reference true t)

variable {H}

/-- A text without a foreign scheme is resolved as a reference. -/
theorem basicParse_own {manifestUrl : Url} {entry : JsString} {ss : List JsString} {t : Points}
    (horigin : HasTupleOrigin manifestUrl) (hpath : manifestUrl.path = .segments ss)
    (ht : ownText manifestUrl.scheme (cleaned entry) = some t) :
    basicParse H entry (some manifestUrl) = resolve H manifestUrl (reference true t) := by
  obtain ⟨hspecial, hfile⟩ := isSpecial_of_port horigin
  unfold ownText at ht
  unfold basicParse
  cases hscheme : scheme? (cleaned entry) with
  | none =>
    rw [hscheme] at ht
    obtain rfl := Option.some.inj ht
    show parseRelative H manifestUrl (cleaned entry) = _
    unfold parseRelative
    rw [hpath]
    dsimp only
    rw [if_neg hfile, hspecial]
  | some p =>
    obtain ⟨s, r⟩ := p
    rw [hscheme] at ht
    dsimp only at ht
    split at ht
    · next hs =>
      subst hs
      obtain rfl := Option.some.inj ht
      show parseAbsolute H (some manifestUrl) manifestUrl.scheme r = _
      unfold parseAbsolute
      have hbase : (some manifestUrl).filter (fun b => b.scheme = manifestUrl.scheme) =
          some manifestUrl := by simp [Option.filter]
      rw [if_neg hfile, if_pos hspecial, hbase]
    · cases ht

/-- A text with a foreign scheme is not resolved to the origin of the manifest. -/
theorem basicParse_foreign {manifestUrl u : Url} {entry : JsString}
    (ht : ownText manifestUrl.scheme (cleaned entry) = none)
    (h : basicParse H entry (some manifestUrl) = some u) : u.scheme ≠ manifestUrl.scheme := by
  unfold ownText at ht
  unfold basicParse at h
  cases hscheme : scheme? (cleaned entry) with
  | none =>
    rw [hscheme] at ht
    cases ht
  | some p =>
    obtain ⟨s, r⟩ := p
    rw [hscheme] at ht h
    dsimp only at ht
    split at ht
    · cases ht
    · next hs =>
      rw [parseAbsolute_scheme h]
      exact hs

/-- A URL with the manifest's scheme, host and port is on its origin, and in its directory where
its path is. -/
theorem stays_iff {manifestUrl u : Url} {ss ss' : List JsString}
    (horigin : HasTupleOrigin manifestUrl) (hpath : manifestUrl.path = .segments ss)
    (hscheme : u.scheme = manifestUrl.scheme) (hu : u.path = .segments ss') :
    SameOrigin manifestUrl u ∧ InDirectory manifestUrl u ↔
      (u.host = manifestUrl.host ∧ u.port = manifestUrl.port) ∧ Below ss.dropLast ss' := by
  have hin : InDirectory manifestUrl u ↔ Below ss.dropLast ss' := by
    simp [InDirectory, hpath, hu]
  rw [hin, SameOrigin, and_iff_right horigin, and_iff_right hscheme]

/-- What a reference is resolved to is on the origin and in the directory of the manifest exactly
where it stays there. -/
theorem resolve_stays {manifestUrl : Url} {ss : List JsString}
    (horigin : HasTupleOrigin manifestUrl) (hpath : manifestUrl.path = .segments ss)
    (r : Reference) :
    (∀ u, resolve H manifestUrl r = some u →
      SameOrigin manifestUrl u ∧ InDirectory manifestUrl u) ↔
      StaysIn H manifestUrl ss.dropLast r := by
  obtain ⟨hspecial, hfile⟩ := isSpecial_of_port horigin
  have hstays {u : Url} {ss' : List JsString} (hscheme : u.scheme = manifestUrl.scheme)
      (hu : u.path = .segments ss') :
      SameOrigin manifestUrl u ∧ InDirectory manifestUrl u ↔
        (u.host = manifestUrl.host ∧ u.port = manifestUrl.port) ∧ Below ss.dropLast ss' :=
    stays_iff horigin hpath hscheme hu
  cases r with
  | authority t =>
    have hone : ∀ a, SameOrigin manifestUrl (pathStart (authorityUrl manifestUrl.scheme a) a.rest) ∧
        InDirectory manifestUrl (pathStart (authorityUrl manifestUrl.scheme a) a.rest) ↔
        some a.host = manifestUrl.host ∧ a.port = manifestUrl.port ∧ Below ss.dropLast
          (walk manifestUrl.scheme [] (segmentsOf true (dropSlash true a.rest))) := by
      intro a
      rw [pathStart_special (authorityUrl manifestUrl.scheme a) a.rest hspecial,
        hstays (pathState_scheme (authorityUrl manifestUrl.scheme a) _ _) (pathState_path _ _ _)]
      simp [authorityUrl, hspecial, and_assoc]
    show (∀ u, authorityState H manifestUrl.scheme t = some u → _) ↔ _
    unfold authorityState StaysIn
    constructor
    · intro h a ha
      exact (hone a).mp (h _ (by rw [ha]; rfl))
    · intro h u hu
      obtain ⟨a, ha, rfl⟩ := Option.map_eq_some_iff.mp hu
      exact (hone a).mpr (h a ha)
  | rooted t =>
    show (∀ u, some (pathState manifestUrl [] t) = some u → _) ↔ _
    simp only [Option.some.injEq, forall_eq']
    rw [hstays (pathState_scheme _ _ _) (pathState_path _ _ _), hspecial]
    simp [StaysIn]
  | relative t =>
    unfold resolve StaysIn
    simp only [Option.some.injEq, forall_eq']
    by_cases hends : t.head?.all endsPath = true
    · rw [if_pos hends, if_pos hends,
        hstays (withTail_scheme _ _) ((withTail_path _ _).trans hpath), hpath]
      simp [pathList]
    · have hshorten : shorten manifestUrl.scheme (pathList manifestUrl.path) = ss.dropLast := by
        simp [shorten, hfile, hpath, pathList]
      rw [if_neg hends, if_neg hends, hshorten,
        hstays (pathState_scheme _ _ _) (pathState_path _ _ _), hspecial]
      simp

/-- An entry that is resolved is on the origin and in the directory of the manifest exactly where
it stays there. -/
theorem entry_stays_iff {manifestUrl : Url} {entry : JsString} :
    (∀ u, basicParse H entry (some manifestUrl) = some u →
      SameOrigin manifestUrl u ∧ InDirectory manifestUrl u) ↔ EntryStays H manifestUrl entry := by
  unfold EntryStays
  constructor
  · intro h
    cases hu : basicParse H entry (some manifestUrl) with
    | none => exact .inl rfl
    | some u =>
      obtain ⟨⟨horigin, hscheme, _⟩, ss, _, hpath, _⟩ := h u hu
      cases ht : ownText manifestUrl.scheme (cleaned entry) with
      | none => exact absurd hscheme (basicParse_foreign ht hu)
      | some t =>
        rw [basicParse_own horigin hpath ht] at h
        exact .inr ⟨horigin, ss, t, hpath, rfl, (resolve_stays horigin hpath _).mp h⟩
  · rintro (hnone | ⟨horigin, ss, t, hpath, ht, hstays⟩) u hu
    · rw [hnone] at hu
      cases hu
    · rw [basicParse_own horigin hpath ht] at hu
      exact (resolve_stays horigin hpath _).mpr hstays u hu

/-! ## Loading -/

section
variable {Priv Pub : Type} (P : LoadPlatform Priv Pub) (opts : LoadOptions)
  (answer sigAnswer : Fetched)

/-- The URL that the manifest is fetched from. -/
def manifestUrlOf : Option Url :=
  newUrl P.parseUrl opts.manifestUrl (P.location.getD (js "http://senn.invalid/"))

/-- The manifest is what the answers deliver for its URL: authentic, parsed and validated. -/
def Delivered (manifestUrl : Url) (manifest : AddonManifest) : Prop :=
  manifestUrlOf P opts = some manifestUrl ∧ ∃ status bytes json,
    answer = .response status (.ok bytes) ∧ okStatus status = true ∧
    Authentic P (opts.verify.getD ⟨.none, none⟩) manifestUrl bytes sigAnswer ∧
    Json.parse (utf8Decode bytes) = some json ∧ validateManifest (.ofJson json) = .ok manifest

/-- Every iframe that is created is that of a manifest that was delivered, and its source is on the
origin and in the directory of the manifest's URL. -/
def LoadsInside : Prop :=
  ∀ frame, .createIframe frame ∈ (load P opts answer sigAnswer).1 →
    ∃ manifestUrl manifest entryUrl, Delivered P opts answer sigAnswer manifestUrl manifest ∧
      newUrl P.parseUrl manifest.entry manifestUrl.href = some entryUrl ∧
      frame = iframeOf manifest entryUrl ∧
      SameOrigin manifestUrl entryUrl ∧ InDirectory manifestUrl entryUrl

variable {P opts answer sigAnswer}

theorem mountable_iff {manifest : AddonManifest} {entryUrl : Url} :
    Mountable P opts answer sigAnswer manifest entryUrl ↔ ∃ manifestUrl,
      Delivered P opts answer sigAnswer manifestUrl manifest ∧
        newUrl P.parseUrl manifest.entry manifestUrl.href = some entryUrl := by
  constructor
  · rintro ⟨manifestUrl, status, bytes, json, hurl, hanswer, hok, hauthentic, hjson, hvalid, hentry⟩
    exact ⟨manifestUrl, ⟨hurl, status, bytes, json, hanswer, hok, hauthentic, hjson, hvalid⟩,
      hentry⟩
  · rintro ⟨manifestUrl, ⟨hurl, status, bytes, json, hanswer, hok, hauthentic, hjson, hvalid⟩,
      hentry⟩
    exact ⟨manifestUrl, status, bytes, json, hurl, hanswer, hok, hauthentic, hjson, hvalid, hentry⟩

theorem Delivered.unique {manifestUrl manifestUrl' : Url} {manifest manifest' : AddonManifest}
    (h : Delivered P opts answer sigAnswer manifestUrl manifest)
    (h' : Delivered P opts answer sigAnswer manifestUrl' manifest') :
    manifestUrl = manifestUrl' ∧ manifest = manifest' := by
  obtain ⟨hurl, status, bytes, json, rfl, _, _, hjson, hvalid⟩ := h
  obtain ⟨hurl', status', bytes', json', heq, _, _, hjson', hvalid'⟩ := h'
  obtain ⟨rfl, hbytes⟩ := Fetched.response.inj heq
  obtain rfl := Except.ok.inj hbytes
  obtain rfl := Option.some.inj (hjson.symm.trans hjson')
  exact ⟨Option.some.inj (hurl.symm.trans hurl'), Except.ok.inj (hvalid.symm.trans hvalid')⟩

/-- With the parser of the URL standard an entry is resolved against the URL of the manifest. -/
theorem newUrl_entry (hparse : P.parseUrl = basicParse H) {manifestUrl : Url}
    (hsettles : P.parseUrl.Settles manifestUrl) (entry : JsString) :
    newUrl P.parseUrl entry manifestUrl.href = basicParse H entry (some manifestUrl) := by
  unfold newUrl
  rw [hsettles, Option.bind_eq_bind, Option.bind_some, hparse]

/-- An add-on's code comes from the origin and the directory of its manifest exactly where the
entries stay there. -/
theorem loadsInside_iff (hparse : P.parseUrl = basicParse H)
    (hsettles : ∀ u, manifestUrlOf P opts = some u → P.parseUrl.Settles u) :
    LoadsInside P opts answer sigAnswer ↔ ∀ manifestUrl manifest,
      Delivered P opts answer sigAnswer manifestUrl manifest →
        EntryStays H manifestUrl manifest.entry := by
  constructor
  · intro h manifestUrl manifest hdelivered
    refine entry_stays_iff.mp fun u hu => ?_
    rw [← newUrl_entry hparse (hsettles _ hdelivered.1)] at hu
    have hmountable := mountable_iff.mpr ⟨manifestUrl, hdelivered, hu⟩
    obtain ⟨manifestUrl', manifest', entryUrl', hdelivered', hentry, _, horigin, hin⟩ :=
      h _ ((created_iff hmountable).mpr rfl)
    obtain ⟨rfl, rfl⟩ := hdelivered.unique hdelivered'
    obtain rfl := Option.some.inj (hu.symm.trans hentry)
    exact ⟨horigin, hin⟩
  · intro h frame hframe
    obtain ⟨manifest, entryUrl, hmountable⟩ := mountable_of_created hframe
    obtain ⟨manifestUrl, hdelivered, hentry⟩ := mountable_iff.mp hmountable
    have hu := hentry
    rw [newUrl_entry hparse (hsettles _ hdelivered.1)] at hu
    obtain ⟨horigin, hin⟩ := entry_stays_iff.mpr (h manifestUrl manifest hdelivered) entryUrl hu
    exact ⟨manifestUrl, manifest, entryUrl, hdelivered, hentry, (created_iff hmountable).mp hframe,
      horigin, hin⟩

end

/-! ## A page with two manifests -/

/-- Hosts of lower-case letters and dots. -/
def webHost : HostParser := fun _ t =>
  if t.all fun c => (0x61 ≤ c && c ≤ 0x7A) || c = 0x2E then some (t.map UInt16.ofNat) else none

def webPlatform : LoadPlatform Unit Unit :=
  { Scripts.barePlatform with parseUrl := basicParse webHost }

def echoOptions : LoadOptions where
  manifestUrl := js "https://senn.example/addons/echo/manifest.json"
  verify := none
  host := ⟨none, false, none, none⟩

def echoUrl : Url where
  scheme := js "https"
  username := []
  password := []
  host := some (js "senn.example")
  port := none
  path := .segments [js "addons", js "echo", js "manifest.json"]
  query := none
  fragment := none

theorem echoUrl_parsed : manifestUrlOf webPlatform echoOptions = some echoUrl := by decide +kernel

theorem echoUrl_settles : webPlatform.parseUrl.Settles echoUrl := by
  unfold UrlParser.Settles
  decide +kernel

/-- A manifest of this entry, in order otherwise. -/
def manifestEntering (entry : JsString) : AddonManifest where
  id := js "dev.senn.echo"
  name := js "Echo"
  version := js "0.1.0"
  entry := entry
  license := js "Apache-2.0"
  permissions := [js "ui.panel"]
  capabilities := [.str (js "echo-v1")]

def manifestJson (entry : JsString) : Json :=
  .obj [(js "id", .str (js "dev.senn.echo")), (js "name", .str (js "Echo")),
    (js "version", .str (js "0.1.0")), (js "entry", .str entry),
    (js "license", .str (js "Apache-2.0")), (js "network", .bool false),
    (js "permissions", .arr [.str (js "ui.panel")]),
    (js "capabilities", .arr [.str (js "echo-v1")])]

def echoAnswer (entry : JsString) : Fetched :=
  .response 200 (.ok (utf8Encode (manifestJson entry).stringify))

theorem delivered_entering {entry : JsString} (hne : entry ≠ []) :
    Delivered webPlatform echoOptions (echoAnswer entry) .rejected echoUrl
      (manifestEntering entry) := by
  have hkeys : [js "id", js "name", js "version", js "entry", js "license", js "network",
      js "permissions", js "capabilities"].Nodup := by decide
  have hexact : (manifestJson entry).Exact :=
    ⟨hkeys, by simp [ExactMembers, ExactElems, Json.Exact]⟩
  refine ⟨echoUrl_parsed, 200, _, manifestJson entry, rfl, by decide, .inl rfl, ?_, ?_⟩
  · rw [utf8Decode_stringify, parse_stringify hexact]
  · cases entry with
    | nil => exact absurd rfl hne
    | cons v r => rfl

/-- A page of the add-on is loaded, as the theorem has it. -/
theorem loadsInside_index :
    LoadsInside webPlatform echoOptions (echoAnswer (js "index.html")) .rejected := by
  refine (loadsInside_iff (H := webHost) rfl fun u hu => ?_).mpr fun manifestUrl manifest h => ?_
  · obtain rfl := Option.some.inj (echoUrl_parsed.symm.trans hu)
    exact echoUrl_settles
  · obtain ⟨rfl, rfl⟩ := (delivered_entering (by decide)).unique h
    have hbelow : Below [js "addons", js "echo"] [js "addons", js "echo", js "index.html"] :=
      ⟨[js "index.html"], by simp, rfl⟩
    exact .inr ⟨by unfold HasTupleOrigin; decide, _, _, rfl, rfl, hbelow⟩

/-- An entry of another origin is mounted all the same. -/
theorem otherOrigin_mounted :
    ¬ LoadsInside webPlatform echoOptions (echoAnswer (js "https://other.example/index.html"))
      .rejected := by
  intro h
  have hdelivered : Delivered webPlatform echoOptions _ _ echoUrl (manifestEntering _) :=
    delivered_entering (show js "https://other.example/index.html" ≠ [] by decide)
  have hentry : newUrl webPlatform.parseUrl (js "https://other.example/index.html") echoUrl.href =
      some { echoUrl with
        host := some (js "other.example"), path := .segments [js "index.html"] } := by
    decide +kernel
  have hmountable := mountable_iff.mpr ⟨echoUrl, hdelivered, hentry⟩
  obtain ⟨_, _, _, hdelivered', hentry', _, ⟨_, _, hhost, _⟩, _⟩ :=
    h _ ((created_iff hmountable).mpr rfl)
  obtain ⟨rfl, rfl⟩ := hdelivered.unique hdelivered'
  obtain rfl := Option.some.inj (hentry.symm.trans hentry')
  exact absurd hhost (by decide)

end Senn.Addon
