import Senn.Addon.ManifestFile
import Senn.Registry.Schema

/-! # The official verifier

`verifyAddon` of `verify-official-addons.ts`: it finds an entry's manifest and signature by the
entry's own path, and checks the manifest against the entry. -/

namespace Senn.Scripts
open Senn.Js Senn.Signing Senn.Schema

/-- The files of the repository. -/
structure Files where
  root : JsString                              -- `REPO_ROOT`
  access (path : JsString) : Bool
  readFile (path : JsString) : Except JsString Bytes
  syntaxError (text : JsString) : JsString     -- what `JSON.parse` says of a text

/-! ## Paths -/

/-- The segments that are left of a path, on those before it. -/
def walkSegments : List JsString → List JsString → List JsString
  | walked, [] => walked.reverse
  | walked, s :: segments =>
    if s = [] ∨ s = js "." then walkSegments walked segments
    else if s = js ".." then walkSegments walked.tail segments
    else walkSegments (s :: walked) segments

/-- `resolve(base, path)`, from a base that is absolute. -/
def resolve (base path : JsString) : JsString :=
  let full := if path.head? = some 0x2F then path else base ++ 0x2F :: path
  0x2F :: [0x2F].intercalate (walkSegments [] (full.splitOn 0x2F))

variable (F : Files)

def manifestPath (addonPath : JsString) : JsString :=
  resolve (resolve F.root addonPath) (js "manifest.json")

def sigPath (addonPath : JsString) : JsString :=
  resolve (resolve F.root addonPath) (js "manifest.sig.json")

/-! ## One add-on -/

structure AddonResult where
  id : JsString
  path : JsString
  ok : Bool
  reason : Option JsString
  publicKey : Option JsString
  signedAt : Option JsString

/-- What `verifyAddon` rejects with: the manifest cannot be read or parsed, a TypeError, or an
error of `verifyManifest`. -/
inductive VerifierError where
  | read (message : JsString)
  | syntaxError
  | typeError
  | signing (e : SigningError)

/-- `JSON.parse` and `validateSignaturePayload`, with the message of what is thrown. -/
def readSignature (D : Dates) (path : JsString) : Except JsString ManifestSignatureV1 :=
  match F.readFile path with
  | .error message => .error message
  | .ok bytes =>
    match Json.parse (readUtf8 bytes) with
    | none => .error (F.syntaxError (readUtf8 bytes))
    | some json =>
      (validateSignaturePayload D (.ofJson json)).mapError Addon.SigningError.message

/-- `String(manifest[k])` -/
def memberText (manifest : Json) (k : JsString) : Except VerifierError JsString :=
  match ((manifest.get? k).elim .undefined Data.ofJson).text with
  | some s => .ok s
  | none => .error .typeError

/-- `manifest[k] === s` -/
def isMember (manifest : Json) (k s : JsString) : Bool :=
  match manifest.get? k with
  | some (.str t) => t = s
  | _ => false

/-- What is wrong with the manifest beside the entry, if anything is. -/
def crossCheck (addon : RegistryAddon) (manifest : Json) : Except VerifierError (Option JsString) :=
  match manifest with
  | .null => .error .typeError
  | _ =>
    if !isMember manifest (js "id") addon.id then do
      let id ← memberText manifest (js "id")
      return some (js "manifest.id " ++ id ++ js " != registry id " ++ addon.id)
    else if !isMember manifest (js "version") addon.version then do
      let version ← memberText manifest (js "version")
      return some (js "manifest.version " ++ version ++ js " != registry version " ++ addon.version)
    else
      match manifest.get? (js "description") with
      | some (.str description) =>
        if description = addon.description then .ok none
        else .ok (some (js "manifest.description != registry description (manifest=" ++
          quote description ++ js " registry=" ++ quote addon.description ++ js ")"))
      | _ => .ok none

def verifyAddon {Priv Pub : Type} (C : WebCrypto Priv Pub) (D : Dates) (addon : RegistryAddon)
    (trustedKeys : List JsString) : Except VerifierError AddonResult :=
  let failed (reason : JsString) (sig : Option ManifestSignatureV1) : AddonResult :=
    ⟨addon.id, addon.path, false, some reason, sig.map ManifestSignatureV1.publicKey,
      sig.map ManifestSignatureV1.signedAt⟩
  if !F.access (manifestPath F addon.path) then .ok (failed (js "manifest.json missing") none)
  else if !F.access (sigPath F addon.path) then .ok (failed (js "manifest.sig.json missing") none)
  else match readSignature F D (sigPath F addon.path) with
    | .error message => .ok (failed (js "signature schema: " ++ message) none)
    | .ok sig => do
      let manifestBytes ← (F.readFile (manifestPath F addon.path)).mapError .read
      let result ← (verifyManifest C manifestBytes sig (some trustedKeys)).mapError .signing
      if result.ok then
        match Json.parse (utf8Decode manifestBytes) with
        | none => .error .syntaxError
        | some manifest =>
          match ← crossCheck addon manifest with
          | some reason => return failed reason (some sig)
          | none =>
            return ⟨addon.id, addon.path, true, none, some sig.publicKey, some sig.signedAt⟩
      else return failed (result.reason.getD (js "verify failed")) (some sig)

/-! ## What it accepts -/

/-- The text is that of a signature document, with a key that is trusted and a signature that
verifies over the bytes. -/
def SignedText {Priv Pub : Type} (C : WebCrypto Priv Pub) (D : Dates) (trustedKeys : List JsString)
    (text : JsString) (bytes : Bytes) : Prop :=
  ∃ json sig, Json.parse text = some json ∧ validateSignaturePayload D (.ofJson json) = .ok sig ∧
    verifyManifest C bytes sig (some trustedKeys) = .ok ⟨true, none⟩

/-- The manifest is the one that the entry describes. -/
structure Describes (addon : RegistryAddon) (manifest : Json) : Prop where
  id : manifest.get? (js "id") = some (.str addon.id)
  version : manifest.get? (js "version") = some (.str addon.version)
  description : ∀ s, manifest.get? (js "description") = some (.str s) → s = addon.description

theorem isMember_iff {manifest : Json} {k s : JsString} :
    isMember manifest k s = true ↔ manifest.get? k = some (.str s) := by
  unfold isMember
  split
  · next t h => simp [h]
  · next h =>
    refine iff_of_false (by simp) fun hs => ?_
    exact h s hs

theorem crossCheck_none {addon : RegistryAddon} {manifest : Json} :
    crossCheck addon manifest = .ok none ↔ Describes addon manifest := by
  unfold crossCheck
  split
  · refine iff_of_false (by simp) fun h => ?_
    exact nomatch h.id
  split
  · next hid =>
    refine iff_of_false (fun h => ?_) fun h => ?_
    · obtain ⟨id, -, h⟩ := bind_ok h
      exact nomatch h
    · simp [isMember_iff.mpr h.id] at hid
  · next hid =>
  split
  · next hversion =>
    refine iff_of_false (fun h => ?_) fun h => ?_
    · obtain ⟨version, -, h⟩ := bind_ok h
      exact nomatch h
    · simp [isMember_iff.mpr h.version] at hversion
  · next hversion =>
  have hid := isMember_iff.mp (by simpa using hid)
  have hversion := isMember_iff.mp (by simpa using hversion)
  split
  · next s hs =>
    split
    · next heq =>
      refine iff_of_true rfl ⟨hid, hversion, fun t ht => ?_⟩
      rw [hs] at ht
      obtain rfl : s = t := by simpa using ht
      exact heq
    · next hne => exact iff_of_false (by simp) fun h => hne (h.description s hs)
  · next hnone => exact iff_of_true rfl ⟨hid, hversion, fun t ht => absurd ht (hnone t)⟩

variable {F}

/-- An entry's own files are there, with these contents. -/
structure OwnFiles (F : Files) (addonPath : JsString) (bytes sigBytes : Bytes) : Prop where
  manifestThere : F.access (manifestPath F addonPath) = true
  sigThere : F.access (sigPath F addonPath) = true
  manifest : F.readFile (manifestPath F addonPath) = .ok bytes
  sig : F.readFile (sigPath F addonPath) = .ok sigBytes

section
variable {Priv Pub : Type} {C : WebCrypto Priv Pub} {D : Dates} {trustedKeys : List JsString}
  {addon : RegistryAddon}

/-- A result is good only with no reason. -/
theorem result_ok {bytes : Bytes} {sig : ManifestSignatureV1} {result : VerifyResult}
    (h : verifyManifest C bytes sig (some trustedKeys) = .ok result) (hok : result.ok = true) :
    result = ⟨true, none⟩ := by
  unfold verifyManifest at h
  split at h
  · obtain rfl := Except.ok.inj h
    exact nomatch hok
  · obtain ⟨k, -, h⟩ := bind_ok h
    obtain ⟨s, -, h⟩ := bind_ok h
    split at h
    · exact (Except.ok.inj h).symm
    · obtain rfl := Except.ok.inj h
      exact nomatch hok

theorem readSignature_ok {path : JsString} {sig : ManifestSignatureV1} :
    readSignature F D path = .ok sig ↔ ∃ bytes json, F.readFile path = .ok bytes ∧
      Json.parse (readUtf8 bytes) = some json ∧
      validateSignaturePayload D (.ofJson json) = .ok sig := by
  unfold readSignature
  cases hread : F.readFile path with
  | error message => simp
  | ok bytes =>
    cases hparse : Json.parse (readUtf8 bytes) with
    | none => simp [hparse]
    | some json => simp [hparse, mapError_ok]

/-- The verifier passes an entry when its own files are signed and the manifest describes it. -/
theorem verifyAddon_ok :
    (∃ r, verifyAddon F C D addon trustedKeys = .ok r ∧ r.ok = true) ↔
      ∃ bytes sigBytes manifest, OwnFiles F addon.path bytes sigBytes ∧
        SignedText C D trustedKeys (readUtf8 sigBytes) bytes ∧
        Json.parse (utf8Decode bytes) = some manifest ∧ Describes addon manifest := by
  constructor
  · intro h
    obtain ⟨r, h, hok⟩ := h
    unfold verifyAddon at h
    dsimp only at h
    split at h
    · obtain rfl := Except.ok.inj h
      exact nomatch hok
    next hmanifest =>
    split at h
    · obtain rfl := Except.ok.inj h
      exact nomatch hok
    next hsig =>
    split at h
    · obtain rfl := Except.ok.inj h
      exact nomatch hok
    next sig hread =>
    obtain ⟨sigBytes, json, hsigBytes, hjson, hpayload⟩ := readSignature_ok.mp hread
    obtain ⟨bytes, hbytes, h⟩ := bind_ok h
    obtain ⟨result, hresult, h⟩ := bind_ok h
    have hbytes := mapError_ok.mp hbytes
    have hresult := mapError_ok.mp hresult
    split at h
    · next hgood =>
      split at h
      · exact nomatch h
      next manifest hparse =>
      obtain ⟨reason?, hcross, h⟩ := bind_ok h
      cases reason? with
      | some reason =>
        obtain rfl := Except.ok.inj h
        exact nomatch hok
      | none =>
        have hown : OwnFiles F addon.path bytes sigBytes :=
          ⟨by simpa using hmanifest, by simpa using hsig, hbytes, hsigBytes⟩
        exact ⟨bytes, sigBytes, manifest, hown,
          ⟨json, sig, hjson, hpayload, result_ok hresult hgood ▸ hresult⟩, hparse,
          crossCheck_none.mp hcross⟩
    · obtain rfl := Except.ok.inj h
      exact nomatch hok
  · intro h
    obtain ⟨bytes, sigBytes, manifest, hown, ⟨json, sig, hjson, hpayload, hresult⟩, hparse,
      hdescribes⟩ := h
    have hread := readSignature_ok.mpr ⟨sigBytes, json, hown.sig, hjson, hpayload⟩
    refine ⟨⟨addon.id, addon.path, true, none, some sig.publicKey, some sig.signedAt⟩, ?_, rfl⟩
    unfold verifyAddon
    simp only [hown.manifestThere, hown.sigThere, hread, hown.manifest, Bool.not_true,
      Bool.false_eq_true, if_false, Except.mapError, ok_bind, hresult, if_true, hparse,
      crossCheck_none.mpr hdescribes]
    rfl

end

end Senn.Scripts
