import Senn.Addon.Load

/-! # The manifest validator of the build

`validateManifestFile`, which runs before a manifest is signed, beside the host's parsing and
validation of the same bytes. -/

namespace Senn.Scripts
open Senn.Js Senn.Protocol Senn.Addon

def REQUIRED_FIELDS : List JsString :=
  [js "id", js "name", js "version", js "entry", js "license", js "permissions", js "network",
    js "capabilities"]

def KNOWN_PERMISSIONS : List JsString :=
  [js "peer.send", js "peer.receive", js "peer.send.bin", js "peer.receive.bin",
    js "storage.local.read", js "storage.local.write", js "file.read.user_selected",
    js "file.write.user_approved", js "ui.panel", js "ui.overlay", js "presence.read",
    js "audio.level", js "media.send.audio", js "media.send.video", js "media.receive.audio",
    js "media.receive.video"]

/-- What `validateManifestFile` throws: a `ManifestValidationError` with its path, or a
TypeError. -/
inductive ManifestFileError where
  | validation (path message : JsString)
  | typeError
deriving DecidableEq

def manifestFileError (path message : JsString) : ManifestFileError :=
  .validation path (js "manifest invalid (" ++ path ++ js "): " ++ message)

def assert (ok : Bool) (path message : JsString) : Except ManifestFileError Unit :=
  if ok then .ok () else .error (manifestFileError path message)

/-- `readFile(path, "utf8")` of these bytes; a byte order mark stays. -/
def readUtf8 (bytes : Bytes) : JsString :=
  (utf8Run .start (bytes.map UInt8.toNat)).flatMap pointUnits

/-- `field in value` -/
def isIn (field : JsString) : Data → Except ManifestFileError Bool
  | .obj ms | .arr _ ms => .ok (Data.hasOwn ms field)
  | .bytes _ | .other _ _ | .backRef _ => .ok false
  | _ => .error .typeError

/-- The loop over the required fields. -/
def requireFields (path : JsString) (manifest : Data) :
    List JsString → Except ManifestFileError Unit
  | [] => .ok ()
  | field :: fields => do
    let has ← isIn field manifest
    assert has path (js "missing required field: " ++ field)
    requireFields path manifest fields

/-- The loop over the permissions. -/
def checkPermissions (path : JsString) : List Data → Except ManifestFileError Unit
  | [] => .ok ()
  | perm :: perms =>
    if perm.str?.any (· ∈ KNOWN_PERMISSIONS) then checkPermissions path perms
    else
      match perm.text with
      | some t => .error (manifestFileError path (js "unknown permission: " ++ t))
      | none => .error .typeError

/-- The checks on the parsed manifest. -/
def validateManifestValue (path : JsString) (manifest : Data) :
    Except ManifestFileError Unit := do
  let permissions := elements? (manifest.get (js "permissions"))
  let capabilities := (elements? (manifest.get (js "capabilities"))).getD []
  requireFields path manifest REQUIRED_FIELDS
  assert ((manifest.get (js "id")).str?.any matchesAddonId) path
    (js "id must match reverse-DNS pattern (see docs/addon-manifest.md)")
  assert ((manifest.get (js "version")).str?.any matchesSemver) path
    (js "version must be SemVer 2.0.0")
  assert (isFalse (manifest.get (js "network"))) path (js "network must be false")
  assert permissions.isSome path (js "permissions must be an array")
  checkPermissions path (permissions.getD [])
  assert (!capabilities.isEmpty) path (js "capabilities must be a non-empty array")

/-- `validateManifestFile(path)`, where the file holds these bytes. -/
def validateManifestFile (syntaxError : JsString → JsString) (path : JsString) (bytes : Bytes) :
    Except ManifestFileError Unit :=
  match Json.parse (readUtf8 bytes) with
  | none =>
    .error (manifestFileError path (js "not valid JSON: " ++ syntaxError (readUtf8 bytes)))
  | some json => validateManifestValue path (.ofJson json)

/-! ## What either validator accepts -/

def KnownPermission (perm : Data) : Prop := ∃ s ∈ Addon.KNOWN_PERMISSIONS, perm = .str s

/-- What both validators ask of the members. -/
structure Core (ms : List (JsString × Data)) : Prop where
  id : ∃ s, ownProperty ms (js "id") = .str s ∧ matchesAddonId s = true
  version : ∃ s, ownProperty ms (js "version") = .str s ∧ matchesSemver s = true
  network : ownProperty ms (js "network") = .bool false
  permissions : ∃ perms rest, ownProperty ms (js "permissions") = .arr perms rest ∧
    ∀ perm ∈ perms, KnownPermission perm
  capabilities : ∃ c cs rest, ownProperty ms (js "capabilities") = .arr (c :: cs) rest

def TEXT_FIELDS : List JsString := [js "name", js "entry", js "license"]

/-- The text fields are there. -/
def Listed (ms : List (JsString × Data)) : Prop := ∀ k ∈ TEXT_FIELDS, Data.hasOwn ms k = true

/-- The text fields are strings that are not empty. -/
def Texts (ms : List (JsString × Data)) : Prop :=
  ∀ k ∈ TEXT_FIELDS, ∃ s, ownProperty ms k = .str s ∧ s ≠ []

theorem known_eq : KNOWN_PERMISSIONS = Addon.KNOWN_PERMISSIONS := rfl

theorem any_str {check : JsString → Bool} {value : Data} :
    value.str?.any check = true ↔ ∃ s, value = .str s ∧ check s = true := by
  cases value <;> simp [Data.str?]

theorem check_stringMember {check : JsString → Bool} (hnil : check [] = false)
    {ms : List (JsString × Data)} {k : JsString} :
    check (stringMember ms k) = true ↔ ∃ s, ownProperty ms k = .str s ∧ check s = true := by
  unfold stringMember
  cases ownProperty ms k <;> simp [Data.str?, hnil]

theorem isFalse_iff {value : Data} : Addon.isFalse value = true ↔ value = .bool false := by
  cases value with
  | bool b => cases b <;> simp [Addon.isFalse]
  | _ => simp [Addon.isFalse]

theorem elements?_iff {value : Data} {xs : List Data} :
    elements? value = some xs ↔ ∃ rest, value = .arr xs rest := by
  cases value <;> simp [elements?]

theorem capabilities_iff {value : Data} :
    (!((elements? value).getD []).isEmpty) = true ↔ ∃ c cs rest, value = .arr (c :: cs) rest := by
  cases value with
  | arr xs ms => cases xs <;> simp [elements?]
  | _ => simp [elements?]

theorem hasOwn_of_ownProperty {ms : List (JsString × Data)} {k : JsString}
    (h : ownProperty ms k ≠ .undefined) : Data.hasOwn ms k = true := by
  unfold ownProperty at h
  split at h
  · next m hm =>
    have hkey := List.find?_some (p := fun m : JsString × Data => decide (m.1 = k)) hm
    exact List.any_eq_true.mpr ⟨m, List.mem_of_find?_eq_some hm, hkey⟩
  · exact absurd rfl h

/-! ## The build -/

theorem assert_ok {ok : Bool} {path message : JsString} :
    assert ok path message = .ok () ↔ ok = true := by
  unfold assert
  split <;> simp [*]

theorem requireFields_ok {path : JsString} {ms : List (JsString × Data)} {fields : List JsString} :
    requireFields path (.obj ms) fields = .ok () ↔ ∀ k ∈ fields, Data.hasOwn ms k = true := by
  induction fields with
  | nil => simp [requireFields]
  | cons k fields ih =>
    rw [List.forall_mem_cons, requireFields, isIn, ok_bind, ← ih]
    constructor
    · intro h
      obtain ⟨_, hassert, h⟩ := bind_ok h
      exact ⟨assert_ok.mp hassert, h⟩
    · rintro ⟨hk, h⟩
      rw [assert_ok.mpr hk, ok_bind, h]

theorem build_permissions {path : JsString} {perms : List Data} :
    checkPermissions path perms = .ok () ↔ ∀ perm ∈ perms, KnownPermission perm := by
  induction perms with
  | nil => simp [checkPermissions]
  | cons perm perms ih =>
    have hknown : perm.str?.any (· ∈ KNOWN_PERMISSIONS) = true ↔ KnownPermission perm := by
      rw [any_str, known_eq]
      simp [KnownPermission, and_comm]
    rw [List.forall_mem_cons, ← ih, checkPermissions, ← hknown]
    by_cases h : perm.str?.any (· ∈ KNOWN_PERMISSIONS) = true
    · rw [if_pos h, and_iff_right h]
    · rw [if_neg h]
      split <;> simp [h]

/-- The build accepts an object with the required fields whose core is in order. -/
theorem validateManifestValue_ok {path : JsString} {json : Json} :
    validateManifestValue path (.ofJson json) = .ok () ↔
      ∃ ms, Data.ofJson json = .obj ms ∧ Core ms ∧ Listed ms := by
  constructor
  · intro h
    unfold validateManifestValue at h
    obtain ⟨_, hfields, h⟩ := bind_ok h
    obtain ⟨_, hid, h⟩ := bind_ok h
    obtain ⟨_, hversion, h⟩ := bind_ok h
    obtain ⟨_, hnetwork, h⟩ := bind_ok h
    obtain ⟨_, harray, h⟩ := bind_ok h
    obtain ⟨_, hperms, hcapabilities⟩ := bind_ok h
    obtain ⟨id, hid, hmatches⟩ := any_str.mp (assert_ok.mp hid)
    obtain ⟨perms, hsome⟩ := Option.isSome_iff_exists.mp (assert_ok.mp harray)
    obtain ⟨rest, hpermissions⟩ := elements?_iff.mp hsome
    rw [hsome] at hperms
    cases json with
    | obj ms =>
      refine ⟨_, rfl, ⟨⟨id, hid, hmatches⟩, any_str.mp (assert_ok.mp hversion),
        isFalse_iff.mp (assert_ok.mp hnetwork), ⟨perms, rest, hpermissions,
          build_permissions.mp hperms⟩, capabilities_iff.mp (assert_ok.mp hcapabilities)⟩, ?_⟩
      intro k hk
      refine requireFields_ok.mp hfields k ?_
      revert k
      decide
    | _ => cases hid
  · rintro ⟨ms, hms, hcore, hlisted⟩
    obtain ⟨perms, rest, hpermissions, hknown⟩ := hcore.permissions
    have hfields : requireFields path (.obj ms) REQUIRED_FIELDS = .ok () := by
      obtain ⟨_, hid, _⟩ := hcore.id
      obtain ⟨_, hversion, _⟩ := hcore.version
      obtain ⟨_, _, _, hcapabilities⟩ := hcore.capabilities
      refine requireFields_ok.mpr ?_
      simp only [TEXT_FIELDS, Listed, List.forall_mem_cons] at hlisted
      simp only [REQUIRED_FIELDS, List.forall_mem_cons]
      refine ⟨?_, hlisted.1, ?_, hlisted.2.1, hlisted.2.2.1, ?_, ?_, ?_, by simp⟩
      · exact hasOwn_of_ownProperty (by simp [hid])
      · exact hasOwn_of_ownProperty (by simp [hversion])
      · exact hasOwn_of_ownProperty (by simp [hpermissions])
      · exact hasOwn_of_ownProperty (by simp [hcore.network])
      · exact hasOwn_of_ownProperty (by simp [hcapabilities])
    have hsome : elements? ((Data.obj ms).get (js "permissions")) = some perms :=
      elements?_iff.mpr ⟨rest, hpermissions⟩
    have hid : ((Data.obj ms).get (js "id")).str?.any matchesAddonId = true :=
      any_str.mpr hcore.id
    have hversion : ((Data.obj ms).get (js "version")).str?.any matchesSemver = true :=
      any_str.mpr hcore.version
    have hnetwork : Addon.isFalse ((Data.obj ms).get (js "network")) = true :=
      isFalse_iff.mpr hcore.network
    have hcapabilities := capabilities_iff.mpr hcore.capabilities
    have harray : (some perms).isSome = true := rfl
    unfold validateManifestValue
    rw [hms, hfields, ok_bind, assert_ok.mpr hid, ok_bind, assert_ok.mpr hversion, ok_bind,
      assert_ok.mpr hnetwork, ok_bind, hsome, assert_ok.mpr harray, ok_bind]
    show (checkPermissions path perms >>= _) = _
    rw [build_permissions.mpr hknown, ok_bind]
    exact assert_ok.mpr hcapabilities

/-! ## The host -/

theorem demand_ok {ok : Bool} {message : JsString} :
    demand ok message = .ok () ↔ ok = true := by
  unfold demand
  split <;> simp [*]

theorem host_permissions {perms : List Data} :
    (∃ ps, Addon.checkPermissions perms = .ok ps) ↔ ∀ perm ∈ perms, KnownPermission perm := by
  induction perms with
  | nil => simp [Addon.checkPermissions]
  | cons perm perms ih =>
    have hknown : (∃ p, perm.str?.filter (· ∈ Addon.KNOWN_PERMISSIONS) = some p) ↔
        KnownPermission perm := by
      cases perm <;> simp [KnownPermission, Data.str?, Option.filter_eq_some_iff]
    rw [List.forall_mem_cons, ← ih, ← hknown, Addon.checkPermissions]
    split
    · next p hp => cases Addon.checkPermissions perms <;> simp [Except.map, hp]
    · next hnone =>
      simp only [hnone]
      split <;> simp

/-- The host accepts an object whose core and texts are in order. -/
theorem validateManifest_ok {value : Data} :
    (∃ manifest, validateManifest value = .ok manifest) ↔
      ∃ ms, value = .obj ms ∧ Core ms ∧ Texts ms := by
  have hnonempty : ∀ {ms : List (JsString × Data)} {k : JsString},
      decide (stringMember ms k ≠ []) = true ↔ ∃ s, ownProperty ms k = .str s ∧ s ≠ [] := by
    intro ms k
    have hiff := @check_stringMember (fun s => decide (s ≠ [])) rfl ms k
    rw [hiff]
    simp
  constructor
  · rintro ⟨manifest, h⟩
    unfold validateManifest at h
    obtain ⟨ms, hms, h⟩ := bind_ok h
    obtain ⟨_, hid, h⟩ := bind_ok h
    obtain ⟨_, hname, h⟩ := bind_ok h
    obtain ⟨_, hversion, h⟩ := bind_ok h
    obtain ⟨_, hentry, h⟩ := bind_ok h
    obtain ⟨_, hlicense, h⟩ := bind_ok h
    obtain ⟨_, hnetwork, h⟩ := bind_ok h
    obtain ⟨_, harray, h⟩ := bind_ok h
    obtain ⟨permissions, hperms, h⟩ := bind_ok h
    obtain ⟨_, hcapabilities, _⟩ := bind_ok h
    obtain ⟨id, hid, hmatches⟩ := (check_stringMember rfl).mp (demand_ok.mp hid)
    obtain ⟨perms, hsome⟩ := Option.isSome_iff_exists.mp (demand_ok.mp harray)
    obtain ⟨rest, hpermissions⟩ := elements?_iff.mp hsome
    rw [hsome] at hperms
    have hcore : Core ms := ⟨⟨id, hid, hmatches⟩,
      (check_stringMember (by decide)).mp (demand_ok.mp hversion),
      isFalse_iff.mp (demand_ok.mp hnetwork),
      ⟨perms, rest, hpermissions, host_permissions.mp ⟨_, hperms⟩⟩,
      capabilities_iff.mp (demand_ok.mp hcapabilities)⟩
    have htexts : Texts ms := by
      simp only [Texts, TEXT_FIELDS, List.forall_mem_cons]
      exact ⟨hnonempty.mp (demand_ok.mp hname), hnonempty.mp (demand_ok.mp hentry),
        hnonempty.mp (demand_ok.mp hlicense), by simp⟩
    -- an object of another class has no `id`
    cases value with
    | obj ms' =>
      obtain rfl := Except.ok.inj hms
      exact ⟨ms', rfl, hcore, htexts⟩
    | bytes b => obtain rfl := Except.ok.inj hms; cases hid
    | other text json => obtain rfl := Except.ok.inj hms; cases hid
    | backRef text => obtain rfl := Except.ok.inj hms; cases hid
    | _ => cases hms
  · rintro ⟨ms, rfl, hcore, htexts⟩
    obtain ⟨perms, rest, hpermissions, hknown⟩ := hcore.permissions
    obtain ⟨permissions, hperms⟩ := host_permissions.mpr hknown
    simp only [Texts, TEXT_FIELDS, List.forall_mem_cons] at htexts
    have hsome : elements? (ownProperty ms (js "permissions")) = some perms :=
      elements?_iff.mpr ⟨rest, hpermissions⟩
    have hid : matchesAddonId (stringMember ms (js "id")) = true :=
      (check_stringMember rfl).mpr hcore.id
    have hversion : matchesSemver (stringMember ms (js "version")) = true :=
      (check_stringMember (by decide)).mpr hcore.version
    have harray : (some perms).isSome = true := rfl
    unfold validateManifest
    rw [asObject, ok_bind]
    simp only [hsome]
    rw [demand_ok.mpr hid, ok_bind, demand_ok.mpr (hnonempty.mpr htexts.1), ok_bind,
      demand_ok.mpr hversion, ok_bind, demand_ok.mpr (hnonempty.mpr htexts.2.1), ok_bind,
      demand_ok.mpr (hnonempty.mpr htexts.2.2.1), ok_bind,
      demand_ok.mpr (isFalse_iff.mpr hcore.network), ok_bind, demand_ok.mpr harray, ok_bind]
    show ∃ manifest, (Addon.checkPermissions perms >>= _) = .ok manifest
    rw [hperms, ok_bind, demand_ok.mpr (capabilities_iff.mpr hcore.capabilities)]
    exact ⟨_, rfl⟩

/-! ## Both on the same bytes -/

/-- The bytes begin with a byte order mark. -/
def HasBom (bytes : Bytes) : Prop := ∃ rest, bytes = 0xEF :: 0xBB :: 0xBF :: rest

/-- The object in a file, after a byte order mark. -/
def Holds (bytes : Bytes) (ms : List (JsString × Data)) : Prop :=
  ∃ json, Json.parse (utf8Decode bytes) = some json ∧ Data.ofJson json = .obj ms

/-- If the file holds an object whose core is in order: without a byte order mark, its text
fields are strings that are not empty as soon as they are there; with one, they are not. -/
def SameVerdict (bytes : Bytes) : Prop :=
  ∀ ms, Holds bytes ms → Core ms →
    (¬ HasBom bytes → Listed ms → Texts ms) ∧ (HasBom bytes → ¬ Texts ms)

theorem readUtf8_plain {bytes : Bytes} (h : ¬ HasBom bytes) : readUtf8 bytes = utf8Decode bytes := by
  have hkept : dropBom (bytes.map UInt8.toNat) = bytes.map UInt8.toNat := by
    unfold dropBom
    split
    · next rest heq =>
      obtain ⟨a, r, rfl, ha, hr⟩ := List.map_eq_cons_iff.mp heq
      obtain ⟨b, r, rfl, hb, hr⟩ := List.map_eq_cons_iff.mp hr
      obtain ⟨c, r, rfl, hc, _⟩ := List.map_eq_cons_iff.mp hr
      obtain rfl : a = 0xEF := UInt8.toNat_inj.mp ha
      obtain rfl : b = 0xBB := UInt8.toNat_inj.mp hb
      obtain rfl : c = 0xBF := UInt8.toNat_inj.mp hc
      exact absurd ⟨r, rfl⟩ h
    · rfl
  rw [utf8Decode, hkept, readUtf8]

/-- No JSON text begins with the mark. -/
theorem parse_bom (s : JsString) : Json.parse (0xFEFF :: s) = none := rfl

theorem readUtf8_bom {bytes : Bytes} (h : HasBom bytes) : Json.parse (readUtf8 bytes) = none := by
  obtain ⟨rest, rfl⟩ := h
  exact parse_bom ((utf8Run .start (rest.map UInt8.toNat)).flatMap pointUnits)

theorem listed_of_texts {ms : List (JsString × Data)} (h : Texts ms) : Listed ms := by
  intro k hk
  obtain ⟨s, hs, _⟩ := h k hk
  exact hasOwn_of_ownProperty (by simp [hs])

variable {Priv Pub : Type}

theorem host_accepts {P : LoadPlatform Priv Pub} {bytes : Bytes} :
    (∃ manifest, parseManifest P bytes = .ok manifest) ↔
      ∃ ms, Holds bytes ms ∧ Core ms ∧ Texts ms := by
  constructor
  · rintro ⟨manifest, h⟩
    obtain ⟨json, hjson, hvalid⟩ := parseManifest_ok.mp h
    obtain ⟨ms, hms, hcore, htexts⟩ := validateManifest_ok.mp ⟨manifest, hvalid⟩
    exact ⟨ms, ⟨json, hjson, hms⟩, hcore, htexts⟩
  · rintro ⟨ms, ⟨json, hjson, hms⟩, hcore, htexts⟩
    obtain ⟨manifest, hvalid⟩ := validateManifest_ok.mpr ⟨ms, hms, hcore, htexts⟩
    exact ⟨manifest, parseManifest_ok.mpr ⟨json, hjson, hvalid⟩⟩

theorem build_accepts {syntaxError : JsString → JsString} {path : JsString} {bytes : Bytes} :
    validateManifestFile syntaxError path bytes = .ok () ↔
      ¬ HasBom bytes ∧ ∃ ms, Holds bytes ms ∧ Core ms ∧ Listed ms := by
  unfold validateManifestFile
  by_cases hbom : HasBom bytes
  · rw [readUtf8_bom hbom]
    simp [hbom]
  rw [readUtf8_plain hbom, and_iff_right hbom]
  constructor
  · intro h
    split at h
    · cases h
    · next json hjson =>
      obtain ⟨ms, hms, hcore, hlisted⟩ := validateManifestValue_ok.mp h
      exact ⟨ms, ⟨json, hjson, hms⟩, hcore, hlisted⟩
  · rintro ⟨ms, ⟨json, hjson, hms⟩, hcore, hlisted⟩
    rw [hjson]
    exact validateManifestValue_ok.mpr ⟨ms, hms, hcore, hlisted⟩

/-- The build and the host give the same verdict on the files that `SameVerdict` describes, and
on no others. -/
theorem validators_agree_iff (P : LoadPlatform Priv Pub) (path : JsString) (bytes : Bytes) :
    (validateManifestFile P.syntaxError path bytes = .ok () ↔
      ∃ manifest, parseManifest P bytes = .ok manifest) ↔ SameVerdict bytes := by
  rw [build_accepts, host_accepts]
  constructor
  · intro hagree ms hholds hcore
    refine ⟨fun hplain hlisted => ?_, fun hbom htexts => ?_⟩
    · obtain ⟨ms', ⟨json', hjson', hms'⟩, _, htexts⟩ := hagree.mp ⟨hplain, ms, hholds, hcore, hlisted⟩
      obtain ⟨json, hjson, hms⟩ := hholds
      obtain rfl := Option.some.inj (hjson.symm.trans hjson')
      obtain rfl := Data.obj.inj (hms.symm.trans hms')
      exact htexts
    · exact (hagree.mpr ⟨ms, hholds, hcore, htexts⟩).1 hbom
  · intro hsame
    constructor
    · rintro ⟨hplain, ms, hholds, hcore, hlisted⟩
      exact ⟨ms, hholds, hcore, (hsame ms hholds hcore).1 hplain hlisted⟩
    · rintro ⟨ms, hholds, hcore, htexts⟩
      exact ⟨fun hbom => (hsame ms hholds hcore).2 hbom htexts, ms, hholds, hcore,
        listed_of_texts htexts⟩

/-! ## Two manifests they disagree on -/

/-- A manifest of this name, in order otherwise. -/
def manifestNamed (name : JsString) : Json :=
  .obj [(js "id", .str (js "dev.senn.echo")), (js "name", .str name),
    (js "version", .str (js "0.1.0")), (js "entry", .str (js "index.html")),
    (js "license", .str (js "Apache-2.0")), (js "network", .bool false),
    (js "permissions", .arr [.str (js "ui.panel")]),
    (js "capabilities", .arr [.str (js "echo-v1")])]

def manifestText (name : JsString) : Bytes := utf8Encode (manifestNamed name).stringify

/-- The members as the validators read them. -/
def membersNamed (name : JsString) : List (JsString × Data) :=
  [(js "id", .str (js "dev.senn.echo")), (js "name", .str name), (js "version", .str (js "0.1.0")),
    (js "entry", .str (js "index.html")), (js "license", .str (js "Apache-2.0")),
    (js "network", .bool false), (js "permissions", .arr [.str (js "ui.panel")] []),
    (js "capabilities", .arr [.str (js "echo-v1")] [])]

theorem manifestText_holds (name : JsString) : Holds (manifestText name) (membersNamed name) := by
  have hkeys : [js "id", js "name", js "version", js "entry", js "license", js "network",
      js "permissions", js "capabilities"].Nodup := by decide
  have hexact : (manifestNamed name).Exact :=
    ⟨hkeys, by simp [ExactMembers, ExactElems, Json.Exact]⟩
  refine ⟨manifestNamed name, ?_, rfl⟩
  rw [manifestText, utf8Decode_stringify, parse_stringify hexact]

theorem manifestText_plain (name : JsString) : ¬ HasBom (manifestText name) := by
  rintro ⟨rest, h⟩
  have hhead : (manifestText name).head? = some 0x7B := rfl
  rw [h] at hhead
  exact absurd (Option.some.inj hhead) (by decide)

theorem membersNamed_core (name : JsString) : Core (membersNamed name) := by
  refine ⟨⟨js "dev.senn.echo", rfl, by decide⟩, ⟨js "0.1.0", rfl, by decide⟩, rfl,
    ⟨_, _, rfl, ?_⟩, ⟨_, _, _, rfl⟩⟩
  rintro perm hperm
  obtain rfl := List.mem_singleton.mp hperm
  exact ⟨js "ui.panel", by decide, rfl⟩

/-- The manifest after a byte order mark. -/
def markedText (name : JsString) : Bytes := 0xEF :: 0xBB :: 0xBF :: manifestText name

theorem markedText_holds (name : JsString) : Holds (markedText name) (membersNamed name) := by
  obtain ⟨json, hjson, hms⟩ := manifestText_holds name
  refine ⟨json, ?_, hms⟩
  show Json.parse (readUtf8 (manifestText name)) = some json
  rw [readUtf8_plain (manifestText_plain name), hjson]

/-- A platform without URLs and keys. -/
def barePlatform : LoadPlatform Unit Unit where
  parseUrl _ _ := none
  crypto := ⟨fun _ => (), fun _ => none, fun _ => [], fun _ => none, fun _ => [], fun _ _ => [],
    fun _ _ _ => false⟩
  dates := ⟨fun _ => false, fun _ => []⟩
  syntaxError _ := js "Unexpected token"
  location := none
  sessionId := js "s"
  contentWindow := none

/-- The build passes a manifest with an empty name, and fails one behind a byte order mark; the
host does the opposite. -/
theorem verdicts_differ :
    (validateManifestFile barePlatform.syntaxError (js "manifest.json") (manifestText []) = .ok () ∧
      ¬ ∃ manifest, parseManifest barePlatform (manifestText []) = .ok manifest) ∧
    (validateManifestFile barePlatform.syntaxError (js "manifest.json")
        (markedText (js "Echo")) ≠ .ok () ∧
      ∃ manifest, parseManifest barePlatform (markedText (js "Echo")) = .ok manifest) := by
  have hlisted : ∀ name, Listed (membersNamed name) := by
    intro name
    simp only [Listed, TEXT_FIELDS, List.forall_mem_cons]
    exact ⟨rfl, rfl, rfl, by simp⟩
  refine ⟨⟨?_, ?_⟩, ?_, ?_⟩
  · exact build_accepts.mpr ⟨manifestText_plain _, _, manifestText_holds _, membersNamed_core _,
      hlisted _⟩
  · intro h
    obtain ⟨ms, ⟨json, hjson, hms⟩, _, htexts⟩ := host_accepts.mp h
    obtain ⟨json', hjson', hms'⟩ := manifestText_holds []
    obtain rfl := Option.some.inj (hjson.symm.trans hjson')
    obtain rfl := Data.obj.inj (hms'.symm.trans hms)
    obtain ⟨s, hs, hne⟩ := htexts (js "name") (by decide)
    exact hne (Data.str.inj hs).symm
  · intro h
    exact (build_accepts.mp h).1 ⟨_, rfl⟩
  · refine host_accepts.mpr ⟨_, markedText_holds _, membersNamed_core _, ?_⟩
    simp only [Texts, TEXT_FIELDS, List.forall_mem_cons]
    exact ⟨⟨js "Echo", rfl, by decide⟩, ⟨_, rfl, by decide⟩, ⟨_, rfl, by decide⟩, by simp⟩

end Senn.Scripts
