import Senn.Addon.Entry
import Senn.Registry.Additive
import Senn.Registry.Gallery
import Mathlib.Tactic.IntervalCases

/-! # The readers of a registry

A document that `validateRegistry` accepts is a registry for the gallery, and gets a row for every
entry. The web host takes it over only at the first two versions of the schema. -/

namespace Senn.Gallery
open Senn.Js Senn.Signing Senn.Schema

variable {V : Schema.Platform} {doc value : Json} {ms : Members} {message : JsString}

/-! ## What is read of an accepted document -/

theorem looseMembers_isObject {value : Option Json} (h : looseMembers value message = .ok ms) :
    isObject value = true := by
  unfold looseMembers at h
  split at h
  · rfl
  · rfl
  · cases h

theorem stringArray_some {value : Option Json} {ss : List JsString}
    (h : stringArray value message = .ok ss) : isStringArray value = some ss := by
  unfold stringArray at h
  split at h
  · next hss => rw [hss, Except.ok.inj h]
  · cases h

/-- The entry of a document and the add-on the validator makes of it agree in what a row shows. -/
structure Shows (raw : Json) (a : RegistryAddon) : Prop where
  id : textOf raw (js "id") = a.id
  name : textOf raw (js "name") = a.name
  version : textOf raw (js "version") = a.version
  description : textOf raw (js "description") = a.description
  path : textOf raw (js "path") = a.path

theorem textOf_some {raw : Json} {k s : JsString} (h : raw.get? k = some (.str s)) :
    textOf raw k = s := by
  rw [textOf, h]
  rfl

theorem validateAddon_entry {v : Nat} {raw : Json} {place : JsString} {a : RegistryAddon}
    (h : validateAddon V v raw place = .ok a) : isEntry raw = true ∧ Shows raw a := by
  obtain ⟨ms, h⟩ := validateAddon_iff.mp h
  have hget : ∀ {k s}, member ms k = some (.str s) → raw.get? k = some (.str s) :=
    fun hk => (looseMembers_get h.object _).trans hk
  have hid := hget (stringMember_some h.id)
  have hname := hget (stringMember_some h.name)
  have hversion := hget (stringMember_some h.version)
  have hdescription := hget (stringMember_some h.description)
  have hpath := hget (stringMember_some h.path)
  have hcapabilities : isStrings (raw.get? (js "capabilities")) = true := by
    rw [isStrings, looseMembers_get h.object, stringArray_some h.capabilities]
    rfl
  refine ⟨?_, textOf_some hid, textOf_some hname, textOf_some hversion, textOf_some hdescription,
    textOf_some hpath⟩
  simp [isEntry, looseMembers_isObject h.object, ADDON_FIELDS, hid, hname, hversion, hdescription,
    hpath, isString, hcapabilities]

theorem validateAddons_entries {v i : Nat} {raws : List Json} {addons : List RegistryAddon}
    (h : validateAddons V v i raws = .ok addons) :
    raws.all isEntry = true ∧ List.Forall₂ Shows raws addons := by
  have hall := validateAddons_forall₂ h
  clear h
  induction hall with
  | nil => exact ⟨rfl, .nil⟩
  | cons ha _ ih =>
    obtain ⟨_, ha⟩ := ha
    obtain ⟨hentry, hshows⟩ := validateAddon_entry ha
    exact ⟨by simp [hentry, ih.1], .cons hshows ih.2⟩

/-- What the readers find in an accepted document. -/
structure Accepted (doc : Json) (reg : Registry) (raws : List Json) : Prop where
  object : isObject (some doc) = true
  version : (reg.v = 1 ∨ reg.v = 2 ∨ reg.v = 3) ∧
    doc.get? (js "v") = some (.num (.ofNat reg.v))
  publisher : ∃ pub, doc.get? (js "publisher") = some pub ∧ isObject (some pub) = true ∧
    pub.get? (js "name") = some (.str reg.publisher.name)
  trustedKeys : isStringArray (doc.get? (js "trustedKeys")) = some reg.trustedKeys
  nonempty : reg.trustedKeys ≠ []
  addons : elements (doc.get? (js "addons")) = some raws
  entries : raws.all isEntry = true
  shows : List.Forall₂ Shows raws reg.addons

theorem validateRegistry_accepted {reg : Registry} (h : validateRegistry V doc = .ok reg) :
    ∃ raws, Accepted doc reg raws := by
  obtain ⟨o, pub, raws, h⟩ := validateRegistry_iff.mp h
  obtain ⟨hrange, hversion⟩ := schemaVersion_ok h.version
  obtain ⟨hentries, hshows⟩ := validateAddons_entries h.addons
  have hget := looseMembers_get h.object
  have hpub := h.publisher
  have hpublisher := looseMembers_isObject hpub
  refine ⟨raws, looseMembers_isObject h.object, ⟨hrange, (hget _).trans hversion⟩, ?_, ?_,
    h.nonempty, ?_, hentries, hshows⟩
  · cases hvalue : member o (js "publisher") with
    | none => rw [hvalue] at hpublisher; cases hpublisher
    | some value =>
      rw [hvalue] at hpub hpublisher
      exact ⟨value, (hget _).trans hvalue, hpublisher,
        (looseMembers_get hpub _).trans (stringMember_some h.name)⟩
  · rw [hget]
    exact stringArray_some h.trustedKeys
  · rw [hget, arrayValue_some h.entries]
    rfl

theorem isNumber_ofNat {n m : Nat} (h : n ≤ 3 ∧ m ≤ 3) :
    isNumber n (some (.num (.ofNat m))) = decide (m = n) := by
  obtain ⟨hn, hm⟩ := h
  interval_cases n <;> interval_cases m <;> rfl

theorem Accepted.isRegistry {reg : Registry} {raws : List Json} (h : Accepted doc reg raws) :
    isRegistry doc = true := by
  obtain ⟨pub, hpub, hobject, hname⟩ := h.publisher
  obtain ⟨hrange, hversion⟩ := h.version
  have hv : (isNumber 1 (doc.get? (js "v")) || isNumber 2 (doc.get? (js "v")) ||
      isNumber 3 (doc.get? (js "v"))) = true := by
    rw [hversion, isNumber_ofNat (by omega), isNumber_ofNat (by omega), isNumber_ofNat (by omega)]
    rcases hrange with hv | hv | hv <;> simp [hv]
  have hkeys : isStrings (doc.get? (js "trustedKeys")) = true := by
    rw [isStrings, h.trustedKeys]
    rfl
  have hbind : ((some pub).bind fun pub => pub.get? (js "name")) =
    some (.str reg.publisher.name) := hname
  unfold Gallery.isRegistry
  rw [h.object, hv, hkeys, h.addons, hpub, hobject, hbind]
  simpa [isString] using h.entries

/-! ## Rows -/

variable {Priv Pub : Type} {P : GalleryPlatform Priv Pub} {url : JsString}

theorem mapM_some {α β : Type} {f : α → Option β} {xs : List α} {ys : List β} :
    xs.mapM f = some ys ↔ List.Forall₂ (fun x y => f x = some y) xs ys := by
  induction xs generalizing ys with
  | nil => simp [eq_comm]
  | cons x xs ih =>
    rw [List.mapM_cons]
    constructor
    · intro h
      obtain ⟨y, hy, h⟩ := Option.bind_eq_some_iff.mp h
      obtain ⟨rest, hrest, h⟩ := Option.bind_eq_some_iff.mp h
      obtain rfl := Option.some.inj h
      exact .cons hy (ih.mp hrest)
    · intro h
      cases h with
      | cons hy hrest =>
        rw [hy, ih.mpr hrest]
        rfl

/-- The URLs of a row can be formed. -/
def RowUrls (parse : UrlParser) (url path : JsString) : Prop :=
  ∃ manifestUrl sigUrl, manifestUrlFor parse url path = some manifestUrl ∧
    sigUrlFor parse manifestUrl = some sigUrl

theorem addonRow_addon {keys : List JsString} {raw : Json} {row : AddonRow}
    (h : addonRow P url keys raw = some row) : row.addon = raw := by
  unfold addonRow at h
  obtain ⟨manifestUrl, _, h⟩ := Option.bind_eq_some_iff.mp h
  obtain ⟨sigUrl, _, h⟩ := Option.bind_eq_some_iff.mp h
  split at h
  · obtain rfl := Option.some.inj h
    rfl
  · obtain rfl := Option.some.inj h
    rfl

theorem addonRow_some (keys : List JsString) {raw : Json} :
    (∃ row, addonRow P url keys raw = some row) ↔
      RowUrls P.parseUrl url (textOf raw (js "path")) := by
  unfold addonRow RowUrls
  constructor
  · intro h
    obtain ⟨row, h⟩ := h
    obtain ⟨manifestUrl, hm, h⟩ := Option.bind_eq_some_iff.mp h
    obtain ⟨sigUrl, hs, _⟩ := Option.bind_eq_some_iff.mp h
    exact ⟨manifestUrl, sigUrl, hm, hs⟩
  · intro h
    obtain ⟨manifestUrl, sigUrl, hm, hs⟩ := h
    rw [hm, Option.bind_eq_bind, Option.bind_some, hs, Option.bind_some]
    split <;> exact ⟨_, rfl⟩

/-- There is a row for every entry exactly when the URLs of each can be formed. -/
theorem rows_iff (keys : List JsString) {raws : List Json} {addons : List RegistryAddon}
    (h : List.Forall₂ Shows raws addons) :
    (∃ rows, raws.mapM (addonRow P url keys) = some rows ∧
        List.Forall₂ (fun (row : AddonRow) a => Shows row.addon a) rows addons) ↔
      ∀ a ∈ addons, RowUrls P.parseUrl url a.path := by
  induction h with
  | nil => simp
  | @cons raw a raws addons hshows _ ih =>
    rw [List.forall_mem_cons, ← ih, ← hshows.path, ← addonRow_some (P := P) keys]
    constructor
    · intro hrows
      obtain ⟨rows, hmap, hall⟩ := hrows
      cases mapM_some.mp hmap with
      | cons hrow hrest =>
        cases hall with
        | cons _ hall => exact ⟨⟨_, hrow⟩, _, mapM_some.mpr hrest, hall⟩
    · intro hrows
      obtain ⟨⟨row, hrow⟩, rows, hmap, hall⟩ := hrows
      refine ⟨row :: rows, mapM_some.mpr (.cons hrow (mapM_some.mp hmap)), .cons ?_ hall⟩
      rwa [addonRow_addon hrow]

/-! ## The hand-off -/

theorem isStringArray_some {value : Option Json} {ss : List JsString}
    (h : isStringArray value = some ss) : elements value = some (ss.map .str) := by
  unfold isStringArray at h
  split at h
  · next xs =>
    refine congrArg some ?_
    induction xs generalizing ss with
    | nil => rw [← Option.some.inj h]; rfl
    | cons x xs ih =>
      cases x with
      | str s =>
        obtain ⟨rest, hrest, rfl⟩ := Option.map_eq_some_iff.mp h
        rw [ih hrest, List.map_cons]
      | _ => cases h
  · cases h

/-- The web host takes over an accepted document, with its trusted keys, at versions 1 and 2. -/
theorem Accepted.handoff {reg : Registry} {raws : List Json} (h : Accepted doc reg raws) :
    handoff doc =
      if reg.v = 1 ∨ reg.v = 2 then
        .ok ⟨some (.str reg.publisher.name), reg.trustedKeys.map .str⟩
      else .error .schema := by
  obtain ⟨pub, hpub, hobject, hname⟩ := h.publisher
  obtain ⟨hrange, hversion⟩ := h.version
  obtain ⟨key, keys, hkeys⟩ := List.exists_cons_of_ne_nil h.nonempty
  have hgate : (!isNumber 1 (doc.get? (js "v")) && !isNumber 2 (doc.get? (js "v"))) =
      !decide (reg.v = 1 ∨ reg.v = 2) := by
    rw [hversion, isNumber_ofNat (by omega), isNumber_ofNat (by omega)]
    simp
  have hpublisher : publisherName doc = .ok (some (.str reg.publisher.name)) := by
    unfold publisherName
    rw [hpub]
    cases pub with
    | null => cases hobject
    | _ => exact congrArg _ hname
  have htrusted := isStringArray_some h.trustedKeys
  have hnull : doc ≠ .null := by
    rintro rfl
    cases h.object
  unfold Gallery.handoff
  split
  · exact absurd rfl hnull
  · rw [hgate, htrusted, hkeys]
    by_cases hv : reg.v = 1 ∨ reg.v = 2
    · rw [if_neg (by simp [hv]), if_pos hv, List.map_cons]
      dsimp only
      rw [hpublisher]
      rfl
    · rw [if_pos (by simp [hv]), if_neg hv]

/-! ## All readers -/

/-- The document is no meta-index and no list of submissions. -/
def OfNoOtherKind (doc : Json) : Prop :=
  doc.get? (js "kind") ≠ some (.str META_KIND) ∧
    doc.get? (js "kind") ≠ some (.str SUBMISSIONS_KIND)

theorem isKind_false {kind : JsString} (h : doc.get? (js "kind") ≠ some (.str kind)) :
    isKind kind doc = false := by
  have htext : isText kind (doc.get? (js "kind")) = false := by
    unfold isText
    split
    · next t ht => exact decide_eq_false fun heq => h (by rw [ht, heq])
    · rfl
  simp [isKind, htext]

/-- The gallery recognises a document as the registry and lists its entries, and the web host
takes it over with the same trusted keys. -/
structure ReadAlike (P : GalleryPlatform Priv Pub) (url : JsString) (doc : Json) (reg : Registry) :
    Prop where
  recognised : isRegistry doc = true
  listed : ∃ rows, loadFromUrl P url = .ok (.registry doc rows) ∧
    List.Forall₂ (fun (row : AddonRow) a => Shows row.addon a) rows reg.addons
  handedOver : ∃ handed, handoff doc = .ok handed ∧
    ∀ k, k ∈ handed.trustedKeys ↔ ∃ s ∈ reg.trustedKeys, k = .str s

theorem listed_iff {reg : Registry} {raws : List Json} (hfetch : fetchJson P url = .ok doc)
    (h : Accepted doc reg raws) (hkind : OfNoOtherKind doc) :
    (∃ rows, loadFromUrl P url = .ok (.registry doc rows) ∧
        List.Forall₂ (fun (row : AddonRow) a => Shows row.addon a) rows reg.addons) ↔
      ∀ a ∈ reg.addons, RowUrls P.parseUrl url a.path := by
  rw [← rows_iff reg.trustedKeys h.shows]
  have hsubmissions : isSubmissionsIndex doc = false := by
    simp [isSubmissionsIndex, isKind_false hkind.2]
  have hmeta : isMetaIndex doc = false := by simp [isMetaIndex, isKind_false hkind.1]
  have hrows : addonRows P url doc = raws.mapM (addonRow P url reg.trustedKeys) := by
    rw [addonRows, h.trustedKeys, h.addons]
    rfl
  unfold loadFromUrl registryRows
  rw [hfetch, ok_bind, hsubmissions, hmeta, h.isRegistry, hrows]
  simp only [Bool.false_eq_true, if_false, if_true]
  cases raws.mapM (addonRow P url reg.trustedKeys) with
  | none => simp [bind, Except.bind]
  | some rows => simp [bind, Except.bind, pure, Except.pure]

/-- Of an accepted registry all readers have the same view exactly where its version is known to
the web host, too, and the URLs of its rows can be formed. -/
theorem readers_agree_iff {reg : Registry} (hfetch : fetchJson P url = .ok doc)
    (h : validateRegistry V doc = .ok reg) (hkind : OfNoOtherKind doc) :
    isRegistry doc = true ∧ (ReadAlike P url doc reg ↔
      (reg.v = 1 ∨ reg.v = 2) ∧ ∀ a ∈ reg.addons, RowUrls P.parseUrl url a.path) := by
  obtain ⟨raws, haccepted⟩ := validateRegistry_accepted h
  refine ⟨haccepted.isRegistry, ?_⟩
  rw [← listed_iff hfetch haccepted hkind]
  constructor
  · intro hread
    obtain ⟨handed, hhanded, _⟩ := hread.handedOver
    refine ⟨?_, hread.listed⟩
    rw [haccepted.handoff] at hhanded
    by_contra hv
    rw [if_neg hv] at hhanded
    cases hhanded
  · intro hrest
    obtain ⟨hv, hlisted⟩ := hrest
    refine ⟨haccepted.isRegistry, hlisted, _, haccepted.handoff.trans (if_pos hv), fun k => ?_⟩
    simp [eq_comm]

/-- A site that serves one registry. -/
def registrySite (registry : Registry) : GalleryPlatform Unit Unit where
  parseUrl := basicParse Addon.webHost
  crypto := Scripts.barePlatform.crypto
  dates := Scripts.barePlatform.dates
  fetch _ := .response 200 (.ok (utf8Encode registry.toJson.stringify))

def registryUrl : JsString := js "https://senn.example/registry/official/index.json"

theorem registrySite_fetch {registry : Registry} (h : registry.toJson.Exact) (url : JsString) :
    fetchJson (registrySite registry) url = .ok registry.toJson := by
  have hbytes : fetchBytes (registrySite registry) url =
    .ok (utf8Encode registry.toJson.stringify) := rfl
  rw [fetchJson, hbytes, ok_bind, utf8Decode_stringify, parse_stringify h]
  rfl

/-- A registry of one entry. -/
def notesRegistry (v : Nat) : Registry where
  v := v
  publisher := ⟨js "senn", none⟩
  trustedKeys := [js "key"]
  addons := [plainAddon (js "dev.notes")]

theorem notesRegistry_fetch {v : Nat} (h : v = 2 ∨ v = 3) :
    fetchJson (registrySite (notesRegistry v)) registryUrl = .ok (notesRegistry v).toJson := by
  refine registrySite_fetch ?_ registryUrl
  have haddon : (plainAddon (js "dev.notes")).toJson.Exact :=
    ⟨by decide, trivial, trivial, trivial, trivial, trivial, trivial, trivial⟩
  have hkeys : [js "v", js "publisher", js "trustedKeys", js "addons"].Nodup := by decide
  have hname : [js "name"].Nodup := by decide
  refine ⟨hkeys, ?_, ⟨hname, trivial, trivial⟩, ⟨trivial, trivial⟩, ⟨haddon, trivial⟩,
    trivial⟩
  rcases h with rfl | rfl
  · exact readsBack_ofNat (by decide)
  · exact readsBack_ofNat (by decide)

theorem notesRegistry_kind (v : Nat) : OfNoOtherKind (notesRegistry v).toJson := by
  have hkind : (notesRegistry v).toJson.get? (js "kind") = none := rfl
  exact ⟨by simp [hkind], by simp [hkind]⟩

/-- The registry is read alike at version 2. -/
theorem readers_agree_notes :
    ReadAlike (registrySite (notesRegistry 2)) registryUrl (notesRegistry 2).toJson
      (notesRegistry 2) := by
  refine (readers_agree_iff (V := oneDate) (notesRegistry_fetch (.inl rfl)) (by rfl)
    (notesRegistry_kind 2)).2.mpr ⟨.inr rfl, fun a ha => ?_⟩
  obtain rfl := List.mem_singleton.mp ha
  exact ⟨js "https://senn.example/addons/notes/manifest.json",
    js "https://senn.example/addons/notes/manifest.sig.json", by decide +kernel,
    by decide +kernel⟩

/-- At version 3 the web host refuses it. -/
theorem thirdVersion_refused :
    ¬∀ (V : Schema.Platform) (P : GalleryPlatform Unit Unit) (url : JsString) (doc : Json)
      (reg : Registry), fetchJson P url = .ok doc → validateRegistry V doc = .ok reg →
      OfNoOtherKind doc → ReadAlike P url doc reg := by
  intro h
  obtain ⟨handed, hhanded, _⟩ := (h oneDate (registrySite (notesRegistry 3)) registryUrl
    (notesRegistry 3).toJson (notesRegistry 3) (notesRegistry_fetch (.inr rfl)) (by rfl)
    (notesRegistry_kind 3)).handedOver
  cases hhanded

end Senn.Gallery
