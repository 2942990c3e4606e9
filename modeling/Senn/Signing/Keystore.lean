import Senn.Signing.Signature

/-! # Keystores

Export and import of a key pair, and what signing with it promises: the signature is accepted
by the validator, and verifies with the pair's own key over the signed bytes and no others. -/

namespace Senn.Signing
open Senn.Js Senn.Protocol

def keystoreError (message : JsString) : SigningError := .keystore (js "senn: keystore — " ++ message)

def KEYSTORE_VERSION : Nat := 1

structure KeystoreV1 where
  publicKey : JsString
  privateKey : JsString
deriving DecidableEq

/-- The object `exportKeystore` returns. -/
def KeystoreV1.toData (store : KeystoreV1) : Data :=
  .obj [(js "v", .num (.ofNat KEYSTORE_VERSION)), (js "alg", .str SIGNATURE_ALG),
    (js "publicKey", .str store.publicKey), (js "privateKey", .str store.privateKey)]

variable {Priv Pub : Type}

def exportKeystore (C : WebCrypto Priv Pub) (kp : SennKeyPair Priv Pub) : KeystoreV1 :=
  ⟨kp.publicKeyBase64, base64urlEncode (C.exportPkcs8 kp.privateKey)⟩

/-- An object that is no array. -/
def isPlainObject : Data → Bool
  | .obj _ | .bytes _ | .other _ _ | .backRef _ => true
  | _ => false

/-- Both keys are strings. -/
def keyStrings (value : Data) : Except SigningError (JsString × JsString) :=
  match (value.get (js "publicKey")).str?, (value.get (js "privateKey")).str? with
  | some publicKey, some privateKey => .ok (publicKey, privateKey)
  | _, _ => .error (keystoreError (js "publicKey/privateKey must be strings"))

def loadKeystore (C : WebCrypto Priv Pub) (value : Data) :
    Except SigningError (SennKeyPair Priv Pub) := do
  check (isPlainObject value) (keystoreError (js "not an object"))
  check ((value.get (js "v")).isNumber KEYSTORE_VERSION) (keystoreError (js "v must be 1"))
  check ((value.get (js "alg")).isText SIGNATURE_ALG)
    (keystoreError (js "alg must be " ++ SIGNATURE_ALG))
  let keys ← keyStrings value
  let pubRaw ← decode keys.1
  check (pubRaw.length = ED25519_PUBLIC_KEY_BYTES)
    (keystoreError (js "publicKey is not 32 bytes"))
  let privBytes ← decode keys.2
  let privateKey ← imported (C.importPkcs8 privBytes)
  let publicKey ← imported (C.importRaw pubRaw)
  return ⟨publicKey, privateKey, keys.1⟩

/-! ## What signing promises -/

/-- Ed25519 in Web Crypto: what is exported is imported again, signatures have 64 bytes, and one
verifies exactly under the public key of the key that signed. -/
structure WebCrypto.Correct (C : WebCrypto Priv Pub) : Prop where
  importRaw_exportRaw : ∀ k, C.importRaw (C.exportRaw k) = some k
  importPkcs8_exportPkcs8 : ∀ k, C.importPkcs8 (C.exportPkcs8 k) = some k
  sign_length : ∀ k data, (C.sign k data).length = 64
  verify_sign : ∀ pub k data, C.verify pub (C.sign k data) data = true ↔ pub = C.publicOf k

/-- `Date.parse` reads what `toISOString` writes. -/
def Dates.Correct (D : Dates) : Prop := ∀ t, D.parses (D.isoText t) = true

/-- The signature of some bytes does not verify over others. -/
def WebCrypto.Binds (C : WebCrypto Priv Pub) (k : Priv) (data other : Bytes) : Prop :=
  C.verify (C.publicOf k) (C.sign k data) other = true → other = data

/-- At every time and for every manifest, the pair makes a signature that the validator accepts
unchanged and that verifies for exactly those bytes; and it survives export and load. -/
structure Signs (C : WebCrypto Priv Pub) (D : Dates) (kp : SennKeyPair Priv Pub) : Prop where
  signed : ∀ manifestBytes (signedAt : Option Int) now, ∃ sig,
    signManifest C D manifestBytes kp (signedAt.map some) now = .ok sig ∧
    validateSignaturePayload D sig.toData = .ok sig ∧
    ∀ bytes, C.Binds kp.privateKey manifestBytes bytes →
      (verifyManifest C bytes sig (some [kp.publicKeyBase64]) = .ok ⟨true, none⟩ ↔
        bytes = manifestBytes)
  reloaded : ∃ kp', loadKeystore C (exportKeystore C kp).toData = .ok kp' ∧
    kp'.publicKeyBase64 = kp.publicKeyBase64 ∧
    ∀ manifestBytes signedAt now,
      signManifest C D manifestBytes kp' signedAt now = signManifest C D manifestBytes kp signedAt now

/-- The key in a member of a keystore. -/
def keyIn {α : Type} (value : Data) (k : JsString) (importKey : Bytes → Option α) : Option α :=
  match value.get k with
  | .str s => (base64urlDecode s).toOption.bind importKey
  | _ => none

/-- The public key of a keystore is the one of its private key. -/
def Consistent (C : WebCrypto Priv Pub) (value : Data) : Prop :=
  ∃ k, keyIn value (js "privateKey") C.importPkcs8 = some k ∧
    keyIn value (js "publicKey") C.importRaw = some (C.publicOf k)

/-! ## Pairs that were generated or loaded -/

variable {C : WebCrypto Priv Pub} {D : Dates} {kp : SennKeyPair Priv Pub} {value : Data}

theorem imported_ok {α : Type} {o : Option α} {k : α} : imported o = .ok k ↔ o = some k := by
  cases o <;> simp [imported]

theorem keyStrings_ok {keys : JsString × JsString} (h : keyStrings value = .ok keys) :
    value.get (js "publicKey") = .str keys.1 ∧ value.get (js "privateKey") = .str keys.2 := by
  unfold keyStrings at h
  split at h
  · next hpublic hprivate =>
    obtain rfl := Except.ok.inj h
    exact ⟨str?_eq_some hpublic, str?_eq_some hprivate⟩
  · cases h

/-- The text of a generated pair encodes its public key. -/
theorem generateKeyPair_ok (hC : C.Correct) {k : Priv} (h : generateKeyPair C k = .ok kp) :
    KeyOf C kp.publicKeyBase64 kp.publicKey ∧ kp.publicKey = C.publicOf kp.privateKey := by
  unfold generateKeyPair at h
  obtain ⟨_, hlength, h⟩ := bind_ok h
  obtain rfl := Except.ok.inj h
  exact ⟨⟨_, base64urlDecode_encode _, of_decide_eq_true (check_ok hlength),
    hC.importRaw_exportRaw _⟩, rfl⟩

/-- The text of a loaded pair encodes its public key; its halves are those of the keystore. -/
theorem loadKeystore_ok (h : loadKeystore C value = .ok kp) :
    KeyOf C kp.publicKeyBase64 kp.publicKey ∧
      keyIn value (js "publicKey") C.importRaw = some kp.publicKey ∧
      keyIn value (js "privateKey") C.importPkcs8 = some kp.privateKey := by
  unfold loadKeystore at h
  obtain ⟨_, _, h⟩ := bind_ok h
  obtain ⟨_, _, h⟩ := bind_ok h
  obtain ⟨_, _, h⟩ := bind_ok h
  obtain ⟨keys, hkeys, h⟩ := bind_ok h
  obtain ⟨pubRaw, hpubRaw, h⟩ := bind_ok h
  obtain ⟨_, hlength, h⟩ := bind_ok h
  obtain ⟨privBytes, hprivBytes, h⟩ := bind_ok h
  obtain ⟨privateKey, hprivate, h⟩ := bind_ok h
  obtain ⟨publicKey, hpublic, h⟩ := bind_ok h
  obtain rfl := Except.ok.inj h
  obtain ⟨hpublicText, hprivateText⟩ := keyStrings_ok hkeys
  have hpubRaw := decode_ok.mp hpubRaw
  have hprivBytes := decode_ok.mp hprivBytes
  have hpublic := imported_ok.mp hpublic
  have hprivate := imported_ok.mp hprivate
  refine ⟨⟨pubRaw, hpubRaw, of_decide_eq_true (check_ok hlength), hpublic⟩, ?_, ?_⟩
  · rw [keyIn, hpublicText]
    show (base64urlDecode keys.1).toOption.bind C.importRaw = _
    rw [hpubRaw]
    exact hpublic
  · rw [keyIn, hprivateText]
    show (base64urlDecode keys.2).toOption.bind C.importPkcs8 = _
    rw [hprivBytes]
    exact hprivate

theorem consistent_iff (h : loadKeystore C value = .ok kp) :
    Consistent C value ↔ kp.publicKey = C.publicOf kp.privateKey := by
  obtain ⟨_, hpublic, hprivate⟩ := loadKeystore_ok h
  constructor
  · rintro ⟨k, hk, hpub⟩
    obtain rfl := Option.some.inj (hprivate.symm.trans hk)
    exact Option.some.inj (hpublic.symm.trans hpub)
  · intro heq
    exact ⟨kp.privateKey, hprivate, heq ▸ hpublic⟩

/-- What an exported pair is loaded as. -/
theorem loadKeystore_exportKeystore (hC : C.Correct)
    (h : KeyOf C kp.publicKeyBase64 kp.publicKey) :
    loadKeystore C (exportKeystore C kp).toData = .ok kp := by
  obtain ⟨pubRaw, hraw, hlength, hpublic⟩ := h
  have hobject : isPlainObject (exportKeystore C kp).toData = true := rfl
  have hversion : ((exportKeystore C kp).toData.get (js "v")).isNumber KEYSTORE_VERSION = true :=
    Data.isNumber_iff.mpr rfl
  have halg : ((exportKeystore C kp).toData.get (js "alg")).isText SIGNATURE_ALG = true :=
    Data.isText_iff.mpr rfl
  have hkeys : keyStrings (exportKeystore C kp).toData =
      .ok (kp.publicKeyBase64, base64urlEncode (C.exportPkcs8 kp.privateKey)) := rfl
  have hprivate : decode (base64urlEncode (C.exportPkcs8 kp.privateKey)) =
      .ok (C.exportPkcs8 kp.privateKey) := decode_ok.mpr (base64urlDecode_encode _)
  unfold loadKeystore
  rw [check_true _ hobject, ok_bind, check_true _ hversion, ok_bind, check_true _ halg, ok_bind,
    hkeys, ok_bind, decode_ok.mpr hraw, ok_bind, check_true _ (decide_eq_true hlength), ok_bind,
    hprivate, ok_bind, imported_ok.mpr (hC.importPkcs8_exportPkcs8 _), ok_bind,
    imported_ok.mpr hpublic]
  rfl

/-- The signature a pair makes. -/
theorem signManifest_eq (hC : C.Correct) (kp : SennKeyPair Priv Pub) (manifestBytes : Bytes)
    (signedAt : Option Int) (now : Int) :
    signManifest C D manifestBytes kp (signedAt.map some) now =
      .ok ⟨kp.publicKeyBase64, base64urlEncode (C.sign kp.privateKey manifestBytes),
        D.isoText (signedAt.getD now)⟩ := by
  have hlength : (C.sign kp.privateKey manifestBytes).length = ED25519_SIGNATURE_BYTES :=
    hC.sign_length _ _
  unfold signManifest
  show (check _ _ >>= _) = _
  rw [check_true _ (decide_eq_true hlength), ok_bind]
  cases signedAt <;> rfl

/-- The pair's own signature is accepted over some bytes where its public key verifies it. -/
theorem verifyManifest_signed (h : KeyOf C kp.publicKeyBase64 kp.publicKey) {sig : Bytes}
    {signedAt : JsString} {bytes : Bytes} :
    verifyManifest C bytes ⟨kp.publicKeyBase64, base64urlEncode sig, signedAt⟩
        (some [kp.publicKeyBase64]) = .ok ⟨true, none⟩ ↔
      C.verify kp.publicKey sig bytes = true := by
  rw [verifyManifest_ok]
  constructor
  · rintro ⟨_, k, sigBytes, ⟨raw, hraw, _, hk⟩, hsig, hverify⟩
    obtain ⟨raw', hraw', _, hk'⟩ := h
    obtain rfl := Except.ok.inj (hraw'.symm.trans hraw)
    obtain rfl := Option.some.inj (hk'.symm.trans hk)
    obtain rfl := Except.ok.inj ((base64urlDecode_encode _).symm.trans hsig)
    exact hverify
  · intro hverify
    exact ⟨List.mem_singleton_self _, kp.publicKey, sig, h, base64urlDecode_encode _, hverify⟩

/-- A pair whose text encodes its public key keeps the promise where its halves belong together,
and only there. -/
theorem signs_iff (hC : C.Correct) (hD : D.Correct) (h : KeyOf C kp.publicKeyBase64 kp.publicKey) :
    Signs C D kp ↔ kp.publicKey = C.publicOf kp.privateKey := by
  constructor
  · intro hsigns
    obtain ⟨sig, hsig, _, hverify⟩ := hsigns.signed [] none 0
    obtain rfl := Except.ok.inj ((signManifest_eq hC kp [] none 0).symm.trans hsig)
    have hown := (hverify [] fun _ => rfl).mpr rfl
    exact (hC.verify_sign _ _ _).mp ((verifyManifest_signed h).mp hown)
  · intro heq
    refine ⟨fun manifestBytes signedAt now => ?_, kp, loadKeystore_exportKeystore hC h, rfl,
      fun _ _ _ => rfl⟩
    refine ⟨_, signManifest_eq hC kp manifestBytes signedAt now, ?_, fun bytes hbinds => ?_⟩
    · obtain ⟨raw, hraw, hlength, _⟩ := h
      exact validateSignaturePayload_toData ⟨raw, hraw, hlength⟩
        ⟨_, base64urlDecode_encode _, hC.sign_length _ _⟩ (hD _)
    · rw [verifyManifest_signed h, heq]
      constructor
      · intro hverify
        exact hbinds hverify
      · rintro rfl
        exact (hC.verify_sign _ _ _).mpr rfl

/-- Generated pairs keep the promise; a pair that was loaded keeps it where the keystore's public
key is the one of its private key, and only there. -/
theorem keys_sign_iff (hC : C.Correct) (hD : D.Correct) :
    (∀ k kp, generateKeyPair C k = .ok kp → Signs C D kp) ∧
    ∀ value kp, loadKeystore C value = .ok kp → (Signs C D kp ↔ Consistent C value) := by
  refine ⟨fun k kp h => ?_, fun value kp h => ?_⟩
  · obtain ⟨hkey, heq⟩ := generateKeyPair_ok hC h
    exact (signs_iff hC hD hkey).mpr heq
  · rw [consistent_iff h]
    exact signs_iff hC hD (loadKeystore_ok h).1

/-! ## A keystore with halves of two pairs -/

/-- A key of 32 bytes. -/
abbrev RawKey := { raw : Bytes // raw.length = 32 }

def rawKey (raw : Bytes) : Option RawKey := if h : raw.length = 32 then some ⟨raw, h⟩ else none

/-- A private key, its public key, and the public key of another pair. -/
def aliceKey : RawKey :=
  ⟨[0x9d, 0x61, 0xb1, 0x9d, 0xef, 0xfd, 0x5a, 0x60, 0xba, 0x84, 0x4a, 0xf4,
    0x92, 0xec, 0x2c, 0xc4, 0x44, 0x49, 0xc5, 0x69, 0x7b, 0x32, 0x69, 0x19,
    0x70, 0x3b, 0xac, 0x03, 0x1c, 0xae, 0x7f, 0x60], rfl⟩
def alicePublic : RawKey :=
  ⟨[0xd7, 0x5a, 0x98, 0x01, 0x82, 0xb1, 0x0a, 0xb7, 0xd5, 0x4b, 0xfe, 0xd3,
    0xc9, 0x64, 0x07, 0x3a, 0x0e, 0xe1, 0x72, 0xf3, 0xda, 0xa6, 0x23, 0x25,
    0xaf, 0x02, 0x1a, 0x68, 0xf7, 0x07, 0x51, 0x1a], rfl⟩
def bobPublic : RawKey :=
  ⟨[0x3d, 0x40, 0x17, 0xc3, 0xe8, 0x43, 0x89, 0x5a, 0x92, 0xb7, 0x0a, 0xa7,
    0x4d, 0x1b, 0x7e, 0xbc, 0x9c, 0x98, 0x2c, 0xcf, 0x2e, 0xc4, 0x96, 0x8c,
    0xc0, 0xcd, 0x55, 0xf1, 0x2a, 0xf4, 0x66, 0x0c], rfl⟩

/-- What stands before the key in its PKCS #8 form. -/
def PKCS8_PREFIX : Bytes :=
  [0x30, 0x2e, 0x02, 0x01, 0x00, 0x30, 0x05, 0x06, 0x03, 0x2b, 0x65, 0x70,
    0x04, 0x22, 0x04, 0x20]

/-- 32 bytes that depend on the data. -/
def digest (data : Bytes) : Bytes :=
  (List.range 32).map fun i => data.foldl (fun h b => h * 31 + b) (UInt8.ofNat i)

/-- Signatures of two keys: the public key and a digest. -/
def pairCrypto : WebCrypto RawKey RawKey where
  publicOf k := if k = aliceKey then alicePublic else bobPublic
  importRaw := rawKey
  exportRaw := Subtype.val
  importPkcs8 der := if der.take 16 = PKCS8_PREFIX then rawKey (der.drop 16) else none
  exportPkcs8 k := PKCS8_PREFIX ++ k.val
  sign k data := (if k = aliceKey then alicePublic else bobPublic).val ++ digest data
  verify k signature data := signature = k.val ++ digest data

theorem rawKey_val (k : RawKey) : rawKey k.val = some k := dif_pos k.property

theorem pairCrypto_correct : pairCrypto.Correct := by
  refine ⟨rawKey_val, fun k => ?_, fun k data => ?_, fun pub k data => ?_⟩
  · exact rawKey_val k
  · show ((pairCrypto.publicOf k).val ++ digest data).length = 64
    rw [List.length_append, (pairCrypto.publicOf k).property, digest, List.length_map,
      List.length_range]
  · show decide ((pairCrypto.publicOf k).val ++ digest data = pub.val ++ digest data) = true ↔ _
    rw [decide_eq_true_iff, List.append_left_inj, Subtype.val_inj]
    exact eq_comm

/-- Dates of one day. -/
def oneDay : Dates where
  parses s := s = js "2026-04-25T15:33:00.000Z"
  isoText _ := js "2026-04-25T15:33:00.000Z"

theorem oneDay_correct : oneDay.Correct := by
  intro t
  show decide (oneDay.isoText t = oneDay.isoText t) = true
  exact decide_eq_true rfl

def alicePair : SennKeyPair RawKey RawKey := ⟨alicePublic, aliceKey, base64urlEncode alicePublic.val⟩

/-- A keystore with the public key of another pair. -/
def mixedPair : SennKeyPair RawKey RawKey := ⟨bobPublic, aliceKey, base64urlEncode bobPublic.val⟩

theorem pair_keyOf (k : RawKey) :
    KeyOf pairCrypto (base64urlEncode k.val) k :=
  ⟨k.val, base64urlDecode_encode _, k.property, rawKey_val _⟩

/-- A generated pair, and the keystores of two pairs: one keeps the promise. -/
theorem keys_sign_alicePair :
    Signs pairCrypto oneDay alicePair ∧
    (Signs pairCrypto oneDay alicePair ↔
      Consistent pairCrypto (exportKeystore pairCrypto alicePair).toData) ∧
    (Signs pairCrypto oneDay mixedPair ↔
      Consistent pairCrypto (exportKeystore pairCrypto mixedPair).toData) := by
  obtain ⟨hgenerated, hloaded⟩ := keys_sign_iff pairCrypto_correct oneDay_correct
  refine ⟨hgenerated aliceKey alicePair ?_, hloaded _ _ ?_, hloaded _ _ ?_⟩
  · rfl
  · exact loadKeystore_exportKeystore pairCrypto_correct (pair_keyOf _)
  · exact loadKeystore_exportKeystore pairCrypto_correct (pair_keyOf _)

/-- The keystore of the mixed pair loads, and what it signs does not verify. -/
theorem mixedPair_breaks :
    ¬ ∀ {Priv Pub : Type} (C : WebCrypto Priv Pub) (D : Dates), C.Correct → D.Correct →
      ∀ value kp, loadKeystore C value = .ok kp → Signs C D kp := by
  intro h
  have hkey := pair_keyOf bobPublic
  have hload : loadKeystore pairCrypto (exportKeystore pairCrypto mixedPair).toData =
      .ok mixedPair := loadKeystore_exportKeystore pairCrypto_correct hkey
  have hsigns := h pairCrypto oneDay pairCrypto_correct oneDay_correct _ _ hload
  have heq := (signs_iff pairCrypto_correct oneDay_correct hkey).mp hsigns
  exact absurd heq (by decide)

end Senn.Signing
