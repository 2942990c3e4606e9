import Senn.Js.Base64Url
import Senn.Protocol.Codec

/-! # Manifest signatures

The validator of a `manifest.sig.json`, and signing and verifying with the Ed25519 of
Web Crypto, which is a parameter. -/

namespace Senn.Signing
open Senn.Js Senn.Protocol

/-- The Ed25519 keys of Web Crypto. An import that fails rejects. -/
structure WebCrypto (PrivateKey PublicKey : Type) where
  publicOf (k : PrivateKey) : PublicKey              -- the other half of a generated pair
  importRaw (raw : Bytes) : Option PublicKey
  exportRaw (k : PublicKey) : Bytes
  importPkcs8 (der : Bytes) : Option PrivateKey
  exportPkcs8 (k : PrivateKey) : Bytes
  sign (k : PrivateKey) (data : Bytes) : Bytes
  verify (k : PublicKey) (signature data : Bytes) : Bool

/-- What the module uses of `Date`; a time is in milliseconds. -/
structure Dates where
  parses (s : JsString) : Bool                       -- `Date.parse(s)` is a time
  isoText (t : Int) : JsString                       -- `toISOString()` of a valid date

/-- The time of a `Date`; an invalid one has none. -/
abbrev Date := Option Int

structure ManifestSignatureV1 where
  publicKey : JsString
  signature : JsString
  signedAt : JsString
deriving DecidableEq

/-- What the functions throw or reject with: a `ManifestSignatureError`, a `KeystoreError`,
the RangeError of an invalid date, or an error of Web Crypto. -/
inductive SigningError where
  | signature (message : JsString)
  | keystore (message : JsString)
  | rangeError
  | rejected
deriving DecidableEq

def signatureError (message : JsString) : SigningError :=
  .signature (js "senn: manifest signature — " ++ message)

def check (ok : Bool) (e : SigningError) : Except SigningError Unit :=
  if ok then .ok () else .error e

abbrev SENN_MANIFEST_SIGNING_VERSION : Nat := 1
def SIGNATURE_ALG : JsString := js "Ed25519"
abbrev ED25519_PUBLIC_KEY_BYTES : Nat := 32
abbrev ED25519_SIGNATURE_BYTES : Nat := 64

def ALLOWED_KEYS : List JsString :=
  [js "v", js "alg", js "publicKey", js "signature", js "signedAt"]

def base64Text : Base64Error → JsString
  | .alphabet => js "not base64url"
  | .length => js "invalid base64url length"
  | .digit => js "invalid base64url digit"

/-- `base64urlDecode`, with the errors of this module. -/
def decode (s : JsString) : Except SigningError Bytes :=
  (base64urlDecode s).mapError fun e => signatureError (base64Text e)

/-! ## The validator -/

/-- The members of an object that is no array; an object of another class has none of those
that are read. -/
def asObject : Data → Except SigningError (List (JsString × Data))
  | .obj ms => .ok ms
  | .bytes _ | .other _ _ | .backRef _ => .ok []
  | _ => .error (signatureError (js "signature is not an object"))

/-- The loop over `Object.keys(obj)`. -/
def noOtherKeys : List JsString → Except SigningError Unit
  | [] => .ok ()
  | k :: ks =>
    if k ∈ ALLOWED_KEYS then noOtherKeys ks
    else .error (signatureError (js "unknown field: " ++ k))

/-- A string member that decodes to `size` bytes. -/
def bytesField (ms : List (JsString × Data)) (k : JsString) (size : Nat) :
    Except SigningError JsString :=
  match (ownProperty ms k).str? with
  | none => .error (signatureError (k ++ js " must be a string"))
  | some s => do
    let bytes ← decode s
    check (bytes.length = size)
      (signatureError (k ++ js " must decode to " ++ natText 10 size ++ js " bytes"))
    return s

def signedAtField (D : Dates) (ms : List (JsString × Data)) : Except SigningError JsString :=
  match (ownProperty ms (js "signedAt")).str?.filter D.parses with
  | some s => .ok s
  | none => .error (signatureError (js "signedAt must be ISO-8601"))

def validateSignaturePayload (D : Dates) (value : Data) :
    Except SigningError ManifestSignatureV1 := do
  let ms ← asObject value
  noOtherKeys (objectKeys value)
  check ((ownProperty ms (js "v")).isNumber SENN_MANIFEST_SIGNING_VERSION)
    (signatureError (js "v must be 1"))
  check ((ownProperty ms (js "alg")).isText SIGNATURE_ALG)
    (signatureError (js "alg must be " ++ SIGNATURE_ALG))
  let publicKey ← bytesField ms (js "publicKey") ED25519_PUBLIC_KEY_BYTES
  let signature ← bytesField ms (js "signature") ED25519_SIGNATURE_BYTES
  let signedAt ← signedAtField D ms
  return ⟨publicKey, signature, signedAt⟩

/-! ## Keys, signing and verifying -/

variable {Priv Pub : Type}

structure SennKeyPair (Priv Pub : Type) where
  publicKey : Pub
  privateKey : Priv
  publicKeyBase64 : JsString

/-- `generateKeyPair`, where Web Crypto has generated the pair of `k`. -/
def generateKeyPair (C : WebCrypto Priv Pub) (k : Priv) :
    Except SigningError (SennKeyPair Priv Pub) := do
  let raw := C.exportRaw (C.publicOf k)
  check (raw.length = ED25519_PUBLIC_KEY_BYTES)
    (signatureError (js "unexpected public key length"))
  return ⟨C.publicOf k, k, base64urlEncode raw⟩

/-- What an import gives. -/
def imported {α : Type} : Option α → Except SigningError α
  | some k => .ok k
  | none => .error .rejected

def importPublicKey (C : WebCrypto Priv Pub) (base64url : JsString) : Except SigningError Pub := do
  let raw ← decode base64url
  check (raw.length = ED25519_PUBLIC_KEY_BYTES)
    (signatureError (js "public key must be 32 bytes (got " ++ natText 10 raw.length ++ js ")"))
  imported (C.importRaw raw)

/-- `date.toISOString()` -/
def Dates.toISOString (D : Dates) : Date → Except SigningError JsString
  | some t => .ok (D.isoText t)
  | none => .error .rangeError

/-- `signManifest` at time `now`. -/
def signManifest (C : WebCrypto Priv Pub) (D : Dates) (manifestBytes : Bytes)
    (keyPair : SennKeyPair Priv Pub) (signedAt : Option Date) (now : Int) :
    Except SigningError ManifestSignatureV1 := do
  let sig := C.sign keyPair.privateKey manifestBytes
  check (sig.length = ED25519_SIGNATURE_BYTES)
    (signatureError (js "signature must be 64 bytes (got " ++ natText 10 sig.length ++ js ")"))
  let signedAt ← D.toISOString (signedAt.getD (some now))
  return ⟨keyPair.publicKeyBase64, base64urlEncode sig, signedAt⟩

structure VerifyResult where
  ok : Bool
  reason : Option JsString
deriving DecidableEq

def verifyManifest (C : WebCrypto Priv Pub) (manifestBytes : Bytes) (sig : ManifestSignatureV1)
    (trustedKeys : Option (List JsString)) : Except SigningError VerifyResult :=
  if trustedKeys.any (sig.publicKey ∉ ·) then .ok ⟨false, some (js "untrusted-key")⟩
  else do
    let publicKey ← importPublicKey C sig.publicKey
    let sigBytes ← decode sig.signature
    if C.verify publicKey sigBytes manifestBytes then return ⟨true, none⟩
    else return ⟨false, some (js "bad-signature")⟩

/-! ## What the validator accepts -/

theorem check_ok {ok : Bool} {e : SigningError} {u : Unit} (h : check ok e = .ok u) :
    ok = true := by
  unfold check at h
  split at h
  · next hok => exact hok
  · cases h

theorem check_true {ok : Bool} (e : SigningError) (h : ok = true) : check ok e = .ok () := by
  rw [check, if_pos h]

@[simp] theorem decode_ok {s : JsString} {bytes : Bytes} :
    decode s = .ok bytes ↔ base64urlDecode s = .ok bytes := by
  unfold decode
  cases base64urlDecode s <;> simp [Except.mapError]

theorem noOtherKeys_ok {ks : List JsString} {u : Unit} :
    noOtherKeys ks = .ok u ↔ ∀ k ∈ ks, k ∈ ALLOWED_KEYS := by
  induction ks with
  | nil => simp [noOtherKeys]
  | cons k ks ih =>
    unfold noOtherKeys
    split
    · next hk => rw [ih, List.forall_mem_cons, and_iff_right hk]
    · next hk =>
      constructor
      · intro h
        cases h
      · intro h
        exact absurd (h k (List.mem_cons_self ..)) hk

/-- A string encodes `size` bytes. -/
def Encodes (size : Nat) (s : JsString) : Prop :=
  ∃ bytes, base64urlDecode s = .ok bytes ∧ bytes.length = size

theorem bytesField_ok {ms : List (JsString × Data)} {k s : JsString} {size : Nat} :
    bytesField ms k size = .ok s ↔ ownProperty ms k = .str s ∧ Encodes size s := by
  unfold bytesField
  constructor
  · intro h
    split at h
    · cases h
    · next hs =>
      obtain ⟨bytes, hbytes, h⟩ := bind_ok h
      obtain ⟨_, hsize, h⟩ := bind_ok h
      obtain rfl := Except.ok.inj h
      exact ⟨str?_eq_some hs, bytes, decode_ok.mp hbytes, of_decide_eq_true (check_ok hsize)⟩
  · rintro ⟨hs, bytes, hbytes, hsize⟩
    have hcheck := check_true (signatureError (k ++ js " must decode to " ++ natText 10 size ++
      js " bytes")) (decide_eq_true hsize)
    rw [hs]
    show (decode s >>= _) = _
    rw [decode_ok.mpr hbytes, ok_bind, hcheck]
    rfl

theorem signedAtField_ok {D : Dates} {ms : List (JsString × Data)} {s : JsString} :
    signedAtField D ms = .ok s ↔
      ownProperty ms (js "signedAt") = .str s ∧ D.parses s = true := by
  unfold signedAtField
  constructor
  · intro h
    split at h
    · next hs =>
      obtain rfl := Except.ok.inj h
      obtain ⟨hstr, hparses⟩ := Option.filter_eq_some_iff.mp hs
      exact ⟨str?_eq_some hstr, hparses⟩
    · cases h
  · rintro ⟨hs, hparses⟩
    have hfilter : (ownProperty ms (js "signedAt")).str?.filter D.parses = some s := by
      rw [hs]
      exact Option.filter_eq_some_iff.mpr ⟨rfl, hparses⟩
    rw [hfilter]

/-- The object is a signature document: the documented members, each as documented, and no
other. -/
structure SignatureDocument (D : Dates) (ms : List (JsString × Data))
    (sig : ManifestSignatureV1) : Prop where
  keys : ∀ k ∈ ms.map Prod.fst, k ∈ ALLOWED_KEYS
  v : ownProperty ms (js "v") = .num (.ofNat 1)
  alg : ownProperty ms (js "alg") = .str (js "Ed25519")
  publicKey : ownProperty ms (js "publicKey") = .str sig.publicKey
  signature : ownProperty ms (js "signature") = .str sig.signature
  signedAt : ownProperty ms (js "signedAt") = .str sig.signedAt
  publicKeyBytes : Encodes 32 sig.publicKey
  signatureBytes : Encodes 64 sig.signature
  signedAtParses : D.parses sig.signedAt = true

theorem SignatureDocument.accepted {D : Dates} {ms : List (JsString × Data)}
    {sig : ManifestSignatureV1} (h : SignatureDocument D ms sig) :
    validateSignaturePayload D (.obj ms) = .ok sig := by
  have hpublicKey := bytesField_ok.mpr ⟨h.publicKey, h.publicKeyBytes⟩
  have hsignature := bytesField_ok.mpr ⟨h.signature, h.signatureBytes⟩
  have hsignedAt := signedAtField_ok.mpr ⟨h.signedAt, h.signedAtParses⟩
  have hkeys : noOtherKeys (ms.map Prod.fst) = .ok () := noOtherKeys_ok.mpr h.keys
  have halg : (ownProperty ms (js "alg")).isText SIGNATURE_ALG = true := Data.isText_iff.mpr h.alg
  unfold validateSignaturePayload
  rw [asObject, ok_bind, objectKeys, hkeys, ok_bind, check_true _ (Data.isNumber_iff.mpr h.v), ok_bind,
    check_true _ halg, ok_bind, hpublicKey, ok_bind, hsignature, ok_bind, hsignedAt]
  rfl

/-- The validator accepts the signature documents and nothing else. -/
theorem validateSignaturePayload_ok {D : Dates} {value : Data} {sig : ManifestSignatureV1} :
    validateSignaturePayload D value = .ok sig ↔
      ∃ ms, value = .obj ms ∧ SignatureDocument D ms sig := by
  constructor
  · intro h
    unfold validateSignaturePayload at h
    obtain ⟨ms, hms, h⟩ := bind_ok h
    obtain ⟨_, hkeys, h⟩ := bind_ok h
    obtain ⟨_, hv, h⟩ := bind_ok h
    obtain ⟨_, halg, h⟩ := bind_ok h
    obtain ⟨publicKey, hpublicKey, h⟩ := bind_ok h
    obtain ⟨signature, hsignature, h⟩ := bind_ok h
    obtain ⟨signedAt, hsignedAt, h⟩ := bind_ok h
    obtain rfl := Except.ok.inj h
    have hv := Data.isNumber_iff.mp (check_ok hv)
    have halg := Data.isText_iff.mp (check_ok halg)
    obtain ⟨hpublicKey, hpublicKeyBytes⟩ := bytesField_ok.mp hpublicKey
    obtain ⟨hsignature, hsignatureBytes⟩ := bytesField_ok.mp hsignature
    obtain ⟨hsignedAt, hparses⟩ := signedAtField_ok.mp hsignedAt
    -- an object of another class has no `v`
    cases value with
    | obj ms' =>
      obtain rfl := Except.ok.inj hms
      exact ⟨ms', rfl, noOtherKeys_ok.mp hkeys, hv, halg, hpublicKey, hsignature, hsignedAt,
        hpublicKeyBytes, hsignatureBytes, hparses⟩
    | bytes b => obtain rfl := Except.ok.inj hms; cases hv
    | other text json => obtain rfl := Except.ok.inj hms; cases hv
    | backRef text => obtain rfl := Except.ok.inj hms; cases hv
    | _ => cases hms
  · rintro ⟨ms, rfl, h⟩
    exact h.accepted

/-- The object the functions return. -/
def ManifestSignatureV1.toData (sig : ManifestSignatureV1) : Data :=
  .obj [(js "v", .num (.ofNat 1)), (js "alg", .str SIGNATURE_ALG),
    (js "publicKey", .str sig.publicKey), (js "signature", .str sig.signature),
    (js "signedAt", .str sig.signedAt)]

/-- A signature whose members are as documented is accepted unchanged. -/
theorem validateSignaturePayload_toData {D : Dates} {sig : ManifestSignatureV1}
    (hpublicKey : Encodes 32 sig.publicKey) (hsignature : Encodes 64 sig.signature)
    (hsignedAt : D.parses sig.signedAt = true) :
    validateSignaturePayload D sig.toData = .ok sig := by
  have hkeys : ∀ k ∈ ALLOWED_KEYS, k ∈ ALLOWED_KEYS := fun k hk => hk
  refine SignatureDocument.accepted ⟨hkeys, ?_, ?_, ?_, ?_, ?_, hpublicKey, hsignature, hsignedAt⟩
  all_goals rfl

/-! ## What verification accepts -/

/-- The key a string encodes. -/
def KeyOf (C : WebCrypto Priv Pub) (s : JsString) (k : Pub) : Prop :=
  ∃ raw, base64urlDecode s = .ok raw ∧ raw.length = 32 ∧ C.importRaw raw = some k

theorem importPublicKey_ok {C : WebCrypto Priv Pub} {s : JsString} {k : Pub} :
    importPublicKey C s = .ok k ↔ KeyOf C s k := by
  unfold importPublicKey
  constructor
  · intro h
    obtain ⟨raw, hraw, h⟩ := bind_ok h
    obtain ⟨_, hlength, h⟩ := bind_ok h
    refine ⟨raw, decode_ok.mp hraw, of_decide_eq_true (check_ok hlength), ?_⟩
    cases hk : C.importRaw raw with
    | none => rw [hk] at h; cases h
    | some k' => rw [hk] at h; rw [Except.ok.inj h]
  · rintro ⟨raw, hraw, hlength, hk⟩
    rw [decode_ok.mpr hraw, ok_bind, check_true _ (decide_eq_true hlength), ok_bind, hk]
    rfl

/-- The signature's key is among the trusted ones, and the signature verifies over the bytes. -/
theorem verifyManifest_ok {C : WebCrypto Priv Pub} {manifestBytes : Bytes}
    {sig : ManifestSignatureV1} {trusted : List JsString} :
    verifyManifest C manifestBytes sig (some trusted) = .ok ⟨true, none⟩ ↔
      sig.publicKey ∈ trusted ∧ ∃ k bytes, KeyOf C sig.publicKey k ∧
        base64urlDecode sig.signature = .ok bytes ∧ C.verify k bytes manifestBytes = true := by
  unfold verifyManifest
  by_cases hmem : sig.publicKey ∈ trusted
  · rw [if_neg (by simp [hmem]), and_iff_right hmem]
    constructor
    · intro h
      obtain ⟨k, hk, h⟩ := bind_ok h
      obtain ⟨bytes, hbytes, h⟩ := bind_ok h
      refine ⟨k, bytes, importPublicKey_ok.mp hk, decode_ok.mp hbytes, ?_⟩
      split at h
      · next hverify => exact hverify
      · cases h
    · rintro ⟨k, bytes, hk, hbytes, hverify⟩
      rw [importPublicKey_ok.mpr hk, ok_bind, decode_ok.mpr hbytes, ok_bind, if_pos hverify]
      rfl
  · rw [if_pos (by simp [hmem])]
    simp [hmem]

end Senn.Signing
