import Senn.Protocol.Envelope

/-! # Add-on manifests

What the host accepts as a manifest, and the permissions it may list. -/

namespace Senn.Addon
open Senn.Js Senn.Protocol

def PEER_SEND : JsString := js "peer.send"
def PEER_RECEIVE : JsString := js "peer.receive"
def PEER_SEND_BIN : JsString := js "peer.send.bin"
def PEER_RECEIVE_BIN : JsString := js "peer.receive.bin"
def STORAGE_LOCAL_READ : JsString := js "storage.local.read"
def STORAGE_LOCAL_WRITE : JsString := js "storage.local.write"
def AUDIO_LEVEL : JsString := js "audio.level"
def MEDIA_SEND_AUDIO : JsString := js "media.send.audio"
def MEDIA_SEND_VIDEO : JsString := js "media.send.video"
def MEDIA_RECEIVE_AUDIO : JsString := js "media.receive.audio"
def MEDIA_RECEIVE_VIDEO : JsString := js "media.receive.video"

def KNOWN_PERMISSIONS : List JsString :=
  [PEER_SEND, PEER_RECEIVE, PEER_SEND_BIN, PEER_RECEIVE_BIN, STORAGE_LOCAL_READ,
    STORAGE_LOCAL_WRITE, js "file.read.user_selected", js "file.write.user_approved",
    js "ui.panel", js "ui.overlay", js "presence.read", AUDIO_LEVEL, MEDIA_SEND_AUDIO,
    MEDIA_SEND_VIDEO, MEDIA_RECEIVE_AUDIO, MEDIA_RECEIVE_VIDEO]

/-- The members of a manifest; `network` is always `false`. -/
structure AddonManifest where
  id : JsString
  name : JsString
  version : JsString
  entry : JsString
  license : JsString
  permissions : List JsString
  capabilities : List Data

/-- What `validateManifest` throws: an `AddonValidationError`, or the TypeError of
`String` on an unknown permission. -/
inductive ManifestError where
  | validation (message : JsString)
  | typeError
deriving DecidableEq

def manifestError (message : JsString) : ManifestError :=
  .validation (js "senn: addon validation failed — " ++ message)

def demand (ok : Bool) (message : JsString) : Except ManifestError Unit :=
  if ok then .ok () else .error (manifestError message)

/-- The loop over the permissions. -/
def checkPermissions : List Data → Except ManifestError (List JsString)
  | [] => .ok []
  | perm :: perms =>
    match perm.str?.filter (· ∈ KNOWN_PERMISSIONS) with
    | some p => (checkPermissions perms).map (p :: ·)
    | none =>
      match perm.text with
      | some t => .error (manifestError (js "unknown permission: " ++ t))
      | none => .error .typeError

/-- The elements of a value, when it is an array. -/
def elements? : Data → Option (List Data)
  | .arr xs _ => some xs
  | _ => none

/-- The members of a value, when it is an object that is no array. -/
def asObject : Data → Except ManifestError (List (JsString × Data))
  | .obj ms => .ok ms
  | .bytes _ | .other _ _ | .backRef _ => .ok []
  | _ => .error (manifestError (js "manifest is not an object"))

def isFalse : Data → Bool
  | .bool false => true
  | _ => false

def validateManifest (value : Data) : Except ManifestError AddonManifest := do
  let ms ← asObject value
  let id := stringMember ms (js "id")
  let name := stringMember ms (js "name")
  let version := stringMember ms (js "version")
  let entry := stringMember ms (js "entry")
  let license := stringMember ms (js "license")
  let permissions := elements? (ownProperty ms (js "permissions"))
  let capabilities := (elements? (ownProperty ms (js "capabilities"))).getD []
  demand (matchesAddonId id) (js "id must match reverse-DNS")
  demand (name ≠ []) (js "name must be non-empty string")
  demand (matchesSemver version) (js "version must be SemVer")
  demand (entry ≠ []) (js "entry must be non-empty string")
  demand (license ≠ []) (js "license must be non-empty string")
  demand (isFalse (ownProperty ms (js "network"))) (js "network must be false")
  demand permissions.isSome (js "permissions must be array")
  let permissions ← checkPermissions (permissions.getD [])
  demand (!capabilities.isEmpty) (js "capabilities must be non-empty array")
  return ⟨id, name, version, entry, license, permissions, capabilities⟩

/-- What every accepted manifest meets. -/
structure AddonManifest.Valid (m : AddonManifest) : Prop where
  id : matchesAddonId m.id = true
  version : matchesSemver m.version = true
  permissions : ∀ p ∈ m.permissions, p ∈ KNOWN_PERMISSIONS

theorem checkPermissions_known {perms : List Data} {ps : List JsString}
    (h : checkPermissions perms = .ok ps) : ∀ p ∈ ps, p ∈ KNOWN_PERMISSIONS := by
  induction perms generalizing ps with
  | nil =>
    obtain rfl := Except.ok.inj h
    simp
  | cons perm perms ih =>
    unfold checkPermissions at h
    split at h
    · next p hp =>
      cases hrest : checkPermissions perms with
      | error e =>
        rw [hrest] at h
        cases h
      | ok qs =>
        rw [hrest] at h
        obtain rfl := Except.ok.inj h
        have hmem := (Option.filter_eq_some_iff.mp hp).2
        exact List.forall_mem_cons.mpr ⟨of_decide_eq_true hmem, ih hrest⟩
    · split at h <;> cases h

theorem demand_ok {ok : Bool} {message : JsString} {u : Unit} (h : demand ok message = .ok u) :
    ok = true := by
  unfold demand at h
  split at h
  · next hok => exact hok
  · cases h

theorem validateManifest_valid {value : Data} {m : AddonManifest}
    (h : validateManifest value = .ok m) : m.Valid := by
  unfold validateManifest at h
  obtain ⟨ms, _, h⟩ := bind_ok h
  obtain ⟨_, hid, h⟩ := bind_ok h
  obtain ⟨_, _, h⟩ := bind_ok h
  obtain ⟨_, hversion, h⟩ := bind_ok h
  obtain ⟨_, _, h⟩ := bind_ok h
  obtain ⟨_, _, h⟩ := bind_ok h
  obtain ⟨_, _, h⟩ := bind_ok h
  obtain ⟨_, _, h⟩ := bind_ok h
  obtain ⟨permissions, hperms, h⟩ := bind_ok h
  obtain ⟨_, _, h⟩ := bind_ok h
  obtain rfl := Except.ok.inj h
  exact ⟨demand_ok hid, demand_ok hversion, checkPermissions_known hperms⟩

end Senn.Addon
