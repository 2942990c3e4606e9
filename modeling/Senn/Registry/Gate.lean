import Senn.Registry.SignOfficial

/-! # The gate and the scripts before it

A signature stands beside the manifest it is of, and apart from everything else the gate reads. So
whatever a script does, and wherever it stops, the add-ons stay signed: each with the key that the
script last logged for it. -/

namespace Senn.Scripts
open Senn.Js Senn.Signing Senn.Schema
open Senn.Gallery (validateRegistry_accepted Shows textOf)

/-! ## The files of a directory -/

/-- A name of a file in a directory. -/
structure IsFileName (name : JsString) : Prop where
  nonempty : name ≠ []
  noSlash : (0x2F : UInt16) ∉ name
  noDots : name ≠ js "." ∧ name ≠ js ".."

theorem walkSegments_name {name : JsString} (h : IsFileName name) (segments : List JsString) :
    ∀ walked, walkSegments walked (segments ++ [name]) = walkSegments walked segments ++ [name] := by
  induction segments with
  | nil =>
    intro walked
    have hkept : ¬(name = [] ∨ name = js ".") := by simp [h.nonempty, h.noDots.1]
    simp only [List.nil_append, walkSegments, if_neg hkept, if_neg h.noDots.2,
      List.reverse_cons]
  | cons s segments ih =>
    intro walked
    rw [List.cons_append, walkSegments, walkSegments]
    split
    · exact ih walked
    split
    · exact ih walked.tail
    · exact ih (s :: walked)

theorem intercalate_snoc (sep x : JsString) (a : JsString) (as : List JsString) :
    sep.intercalate (a :: as ++ [x]) = sep.intercalate (a :: as) ++ sep ++ x := by
  induction as generalizing a with
  | nil => simp [List.intercalate_cons_cons]
  | cons b as ih =>
    rw [List.cons_append, List.cons_append, List.intercalate_cons_cons, ← List.cons_append, ih,
      List.intercalate_cons_cons]
    simp only [List.append_assoc]

/-- The files of a directory differ in what stands behind the last slash. -/
theorem resolve_name (dir : JsString) :
    ∃ front, ∀ name, IsFileName name → resolve dir name = front ++ 0x2F :: name := by
  have hresolve : ∀ name, IsFileName name → resolve dir name =
      0x2F :: [0x2F].intercalate (walkSegments [] (dir.splitOn 0x2F) ++ [name]) := by
    intro name h
    have hhead : name.head? ≠ some 0x2F := fun he => h.noSlash (List.mem_of_mem_head? he)
    have hsplit : name.splitOn 0x2F = [name] := List.splitOn_eq_singleton h.noSlash
    rw [resolve, if_neg hhead, List.splitOn_append_cons_self, hsplit, walkSegments_name h]
  cases hsegments : walkSegments [] (dir.splitOn 0x2F) with
  | nil => exact ⟨[], fun name h => by rw [hresolve name h, hsegments]; simp⟩
  | cons s segments =>
    refine ⟨0x2F :: [0x2F].intercalate (s :: segments), fun name h => ?_⟩
    rw [hresolve name h, hsegments, intercalate_snoc]
    simp

theorem resolve_ne {dir dir' name name' : JsString} (h : IsFileName name) (h' : IsFileName name')
    (hne : name ≠ name') : resolve dir name ≠ resolve dir' name' := by
  obtain ⟨front, hfront⟩ := resolve_name dir
  obtain ⟨front', hfront'⟩ := resolve_name dir'
  intro heq
  rw [hfront name h, hfront' name' h'] at heq
  exact hne (after_last_separator heq h.noSlash h'.noSlash)

/-- Two directories that share one file share them all. -/
theorem resolve_same {dir dir' name other : JsString} (h : IsFileName name) (ho : IsFileName other)
    (heq : resolve dir name = resolve dir' name) : resolve dir other = resolve dir' other := by
  obtain ⟨front, hfront⟩ := resolve_name dir
  obtain ⟨front', hfront'⟩ := resolve_name dir'
  rw [hfront name h, hfront' name h] at heq
  rw [hfront other ho, hfront' other ho, (List.append_inj_left' heq rfl)]

theorem manifestName : IsFileName (js "manifest.json") :=
  ⟨by decide, by decide, by decide, by decide⟩

theorem sigName : IsFileName (js "manifest.sig.json") :=
  ⟨by decide, by decide, by decide, by decide⟩

theorem indexName : IsFileName (js "index.json") :=
  ⟨by decide, by decide, by decide, by decide⟩

theorem metaName : IsFileName (js "meta.json") :=
  ⟨by decide, by decide, by decide, by decide⟩

theorem resolve_official (F : Files) {name : JsString} (h : IsFileName name) :
    resolve F.root (js "addons/official/" ++ name) =
      resolve (F.root ++ 0x2F :: js "addons/official") name := by
  have hhead : name.head? ≠ some 0x2F := fun he => h.noSlash (List.mem_of_mem_head? he)
  have hsplit : F.root ++ 0x2F :: (js "addons/official/" ++ name) =
      F.root ++ 0x2F :: js "addons/official" ++ 0x2F :: name := by simp [js]
  rw [resolve, resolve, if_neg (by simp [js]), if_neg hhead, hsplit]

/-- The registry and the list of publishers are no manifest and no signature. -/
theorem official_ne (F : Files) {name dir name' : JsString} (h : IsFileName name)
    (h' : IsFileName name') (hne : name ≠ name') :
    resolve F.root (js "addons/official/" ++ name) ≠ resolve dir name' := by
  rw [resolve_official F h]
  exact resolve_ne h h' hne

/-! ## What is read after a file is written -/

section
variable {F : Files} {path q : JsString} {bytes : Bytes}

@[simp] theorem registryPath_write : registryPath (F.write path bytes) = registryPath F := rfl

@[simp] theorem metaPath_write : metaPath (F.write path bytes) = metaPath F := rfl

@[simp] theorem manifestPath_write (addonPath : JsString) :
    manifestPath (F.write path bytes) addonPath = manifestPath F addonPath := rfl

@[simp] theorem sigPath_write (addonPath : JsString) :
    sigPath (F.write path bytes) addonPath = sigPath F addonPath := rfl

@[simp] theorem access_write : (F.write path bytes).access path = true := Function.update_self ..

@[simp] theorem readFile_write : (F.write path bytes).readFile path = .ok bytes :=
  Function.update_self ..

theorem access_write_ne (h : q ≠ path) : (F.write path bytes).access q = F.access q :=
  Function.update_of_ne h ..

theorem readFile_write_ne (h : q ≠ path) : (F.write path bytes).readFile q = F.readFile q :=
  Function.update_of_ne h ..

theorem readJson_write_ne (h : q ≠ path) : readJson (F.write path bytes) q = readJson F q := by
  rw [readJson, readJson, readFile, readFile, readFile_write_ne h]
  rfl

theorem readUtf8_utf8Encode {s : JsString} (hs : wellFormed s = true) :
    readUtf8 (utf8Encode s) = s := by
  rw [readUtf8, map_toNat_utf8Encode, utf8Run_flatMap (scalars_scalar s), units_scalars s hs]

/-- What a script writes as JSON is read back. -/
theorem parse_written {json : Json} (h : json.Exact) :
    Json.parse (readUtf8 (utf8Encode json.fileText)) = some json := by
  rw [readUtf8_utf8Encode (wellFormed_fileText json), parse_fileText h]

theorem mapM_ok {α β ε : Type} {f : α → Except ε β} {xs : List α} {ys : List β} :
    xs.mapM f = .ok ys ↔ List.Forall₂ (fun x y => f x = .ok y) xs ys := by
  induction xs generalizing ys with
  | nil => simp [pure, Except.pure, eq_comm]
  | cons x xs ih =>
    rw [List.mapM_cons]
    constructor
    · intro h
      obtain ⟨y, hy, h⟩ := bind_ok h
      obtain ⟨ys', hys, h⟩ := bind_ok h
      obtain rfl := Except.ok.inj h
      exact .cons hy (ih.mp hys)
    · intro h
      cases h with
      | cons hy hys => rw [hy, ok_bind, ih.mpr hys]; rfl

end

/-! ## Signatures -/

section
variable {Priv Pub : Type} {T : Tools Priv Pub} {F F' : Files} {kp : SennKeyPair Priv Pub}
  {keys : List JsString} {key text : JsString} {bytes : Bytes} {a : RegistryAddon}

theorem signedText_iff : SignedText T.crypto T.dates keys text bytes ↔
    ∃ key ∈ keys, SignedText T.crypto T.dates [key] text bytes := by
  constructor
  · intro h
    obtain ⟨json, sig, hjson, hsig, hverify⟩ := h
    obtain ⟨hmem, hkey⟩ := verifyManifest_ok.mp hverify
    exact ⟨sig.publicKey, hmem, json, sig, hjson, hsig,
      verifyManifest_ok.mpr ⟨List.mem_singleton_self _, hkey⟩⟩
  · intro h
    obtain ⟨key, hmem, json, sig, hjson, hsig, hverify⟩ := h
    obtain ⟨hone, hkey⟩ := verifyManifest_ok.mp hverify
    rw [List.mem_singleton.mp hone] at hkey
    exact ⟨json, sig, hjson, hsig,
      verifyManifest_ok.mpr ⟨List.mem_singleton.mp hone ▸ hmem, List.mem_singleton.mp hone ▸ hkey⟩⟩

/-- A text is signed with one key. -/
theorem signedText_unique {key' : JsString} (h : SignedText T.crypto T.dates [key] text bytes)
    (h' : SignedText T.crypto T.dates [key'] text bytes) : key = key' := by
  obtain ⟨json, sig, hjson, hsig, hverify⟩ := h
  obtain ⟨json', sig', hjson', hsig', hverify'⟩ := h'
  obtain rfl := Option.some.inj (hjson.symm.trans hjson')
  obtain rfl := Except.ok.inj (hsig.symm.trans hsig')
  exact (List.mem_singleton.mp (verifyManifest_ok.mp hverify).1).symm.trans
    (List.mem_singleton.mp (verifyManifest_ok.mp hverify').1)

/-- The halves of the pair belong together, and its text encodes the public one. -/
structure Paired (T : Tools Priv Pub) (kp : SennKeyPair Priv Pub) : Prop where
  keyOf : KeyOf T.crypto kp.publicKeyBase64 kp.publicKey
  halves : kp.publicKey = T.crypto.publicOf kp.privateKey

theorem signatureJson_exact (sig : ManifestSignatureV1) : (signatureJson sig).Exact := by
  have hkeys : [js "v", js "alg", js "publicKey", js "signature", js "signedAt"].Nodup := by decide
  exact ⟨hkeys, readsBack_ofNat (by decide), trivial, trivial, trivial, trivial, trivial⟩

/-- What a pair writes is a signature of its own key. -/
theorem signTo_ok (hC : T.crypto.Correct) (hD : T.dates.Correct) (hkp : Paired T kp)
    {denied : Denied} {now : Int} {path : JsString}
    (h : signTo T kp denied now bytes path F = .ok F') : ∃ sigBytes, F' = F.write path sigBytes ∧
      SignedText T.crypto T.dates [kp.publicKeyBase64] (readUtf8 sigBytes) bytes := by
  obtain ⟨sig, hsig, h⟩ := bind_ok h
  have hmade := signManifest_eq (D := T.dates) hC kp bytes none now
  obtain rfl := Except.ok.inj (hmade.symm.trans (mapError_ok.mp hsig))
  obtain ⟨raw, hraw, hlength, -⟩ := hkp.keyOf
  have hverify : T.crypto.verify kp.publicKey (T.crypto.sign kp.privateKey bytes) bytes = true :=
    (hC.verify_sign _ _ _).mpr hkp.halves
  have hpayload : validateSignaturePayload T.dates (ManifestSignatureV1.toData
      ⟨kp.publicKeyBase64, base64urlEncode (T.crypto.sign kp.privateKey bytes),
        T.dates.isoText now⟩) = .ok _ :=
    validateSignaturePayload_toData ⟨raw, hraw, hlength⟩
      ⟨_, base64urlDecode_encode _, hC.sign_length _ _⟩ (hD now)
  unfold writeFile at h
  split at h
  · exact nomatch h
  · exact ⟨_, (Except.ok.inj h).symm, _, _, parse_written (signatureJson_exact _), hpayload,
      (verifyManifest_signed hkp.keyOf).mpr hverify⟩

/-- The manifest of an entry describes it, and the signature beside it is one of this key. -/
def EntrySigned (T : Tools Priv Pub) (F : Files) (a : RegistryAddon) (key : JsString) : Prop :=
  ∃ bytes sigBytes manifest, OwnFiles F a.path bytes sigBytes ∧
    SignedText T.crypto T.dates [key] (readUtf8 sigBytes) bytes ∧
    Json.parse (utf8Decode bytes) = some manifest ∧ Describes a manifest

theorem EntrySigned.verified (h : EntrySigned T F a key) :
    (∃ r, verifyAddon F T.crypto T.dates a keys = .ok r ∧ r.ok = true) ↔ key ∈ keys := by
  obtain ⟨bytes, sigBytes, manifest, hown, hsigned, hparse, hdescribes⟩ := h
  rw [verifyAddon_ok]
  constructor
  · intro h
    obtain ⟨bytes', sigBytes', manifest', hown', hsigned', -⟩ := h
    obtain rfl := Except.ok.inj (hown.manifest.symm.trans hown'.manifest)
    obtain rfl := Except.ok.inj (hown.sig.symm.trans hown'.sig)
    obtain ⟨key', hmem, hsigned'⟩ := signedText_iff.mp hsigned'
    exact signedText_unique hsigned hsigned' ▸ hmem
  · intro hmem
    exact ⟨bytes, sigBytes, manifest, hown, signedText_iff.mpr ⟨key, hmem, hsigned⟩, hparse,
      hdescribes⟩

theorem EntrySigned.write (h : EntrySigned T F a key) {path : JsString}
    (hmanifest : manifestPath F a.path ≠ path) (hsig : sigPath F a.path ≠ path) :
    EntrySigned T (F.write path bytes) a key := by
  obtain ⟨own, sigBytes, manifest, hown, hrest⟩ := h
  refine ⟨own, sigBytes, manifest, ⟨?_, ?_, ?_, ?_⟩, hrest⟩
  · exact (access_write_ne hmanifest).trans hown.manifestThere
  · exact (access_write_ne hsig).trans hown.sigThere
  · exact (readFile_write_ne hmanifest).trans hown.manifest
  · exact (readFile_write_ne hsig).trans hown.sig

/-- A signature that is written beside the manifest of an entry is the entry's. -/
theorem EntrySigned.resign (h : EntrySigned T F a key) {dir key' : JsString} {sigBytes : Bytes}
    (hread : manifestPath F a.path = resolve dir (js "manifest.json") →
      F.readFile (manifestPath F a.path) = .ok bytes)
    (hsigned : SignedText T.crypto T.dates [key'] (readUtf8 sigBytes) bytes)
    (hpath : sigPath F a.path = resolve dir (js "manifest.sig.json")) :
    EntrySigned T (F.write (resolve dir (js "manifest.sig.json")) sigBytes) a key' := by
  obtain ⟨own, _, manifest, hown, _, hrest⟩ := h
  have hsame : manifestPath F a.path = resolve dir (js "manifest.json") :=
    resolve_same sigName manifestName hpath
  obtain rfl := Except.ok.inj (hown.manifest.symm.trans (hread hsame))
  have hne : manifestPath F a.path ≠ resolve dir (js "manifest.sig.json") :=
    resolve_ne manifestName sigName (by decide)
  refine ⟨own, sigBytes, manifest, ⟨?_, ?_, ?_, ?_⟩, hsigned, hrest⟩
  · exact (access_write_ne hne).trans hown.manifestThere
  · rw [sigPath_write, hpath, access_write]
  · exact (readFile_write_ne hne).trans hown.manifest
  · rw [sigPath_write, hpath, readFile_write]

end

/-! ## The gate -/

section
variable {Priv Pub : Type} {T : Tools Priv Pub} {F : Files} {reg : Registry}

end

/-! ## What every script keeps -/

/-- The registry is this one but for its keys, the gate passes the list of publishers, and every
add-on is signed: the signature at a path with the key `signer` has there. -/
structure Kept {Priv Pub : Type} (T : Tools Priv Pub) (reg : Registry)
    (signer : JsString → JsString) (keys : List JsString) (F : Files) : Prop where
  there : F.access (registryPath F) = true
  registry : VerifyOfficial.loadRegistry T F (registryPath F) = .ok { reg with trustedKeys := keys }
  signed : ∀ a ∈ reg.addons, EntrySigned T F a (signer (sigPath F a.path))
  publishers : VerifyOfficial.verifyMeta T F (metaPath F) = .ok ()

/-- The keys once some signatures are written. -/
def resigned (signer : JsString → JsString) (signed : List Signed) : JsString → JsString :=
  signed.foldl (fun signer s => Function.update signer s.sigPath s.publicKey) signer

/-- The path is none of those the gate reads. -/
structure Apart (reg : Registry) (F : Files) (path : JsString) : Prop where
  registry : registryPath F ≠ path
  publishers : metaPath F ≠ path
  manifests : ∀ a ∈ reg.addons, manifestPath F a.path ≠ path
  signatures : ∀ a ∈ reg.addons, sigPath F a.path ≠ path

section
variable {Priv Pub : Type} {T : Tools Priv Pub} {F : Files} {reg : Registry}
  {signer : JsString → JsString} {keys : List JsString} {path : JsString} {bytes : Bytes}
  {kp : SennKeyPair Priv Pub}

theorem loadRegistry_write (h : registryPath F ≠ path) :
    VerifyOfficial.loadRegistry T (F.write path bytes) (registryPath F) =
      VerifyOfficial.loadRegistry T F (registryPath F) := by
  rw [VerifyOfficial.loadRegistry, VerifyOfficial.loadRegistry, readJson_write_ne h]

theorem verifyMeta_write (h : metaPath F ≠ path) :
    VerifyOfficial.verifyMeta T (F.write path bytes) (metaPath F) =
      VerifyOfficial.verifyMeta T F (metaPath F) := by
  rw [VerifyOfficial.verifyMeta, VerifyOfficial.verifyMeta, access_write_ne h, readJson_write_ne h]

/-- A file that the gate does not read. -/
theorem Kept.write (h : Kept T reg signer keys F) (hpath : Apart reg F path) :
    Kept T reg signer keys (F.write path bytes) where
  there := (access_write_ne hpath.registry).trans h.there
  registry := (loadRegistry_write hpath.registry).trans h.registry
  signed a ha := (h.signed a ha).write (hpath.manifests a ha) (hpath.signatures a ha)
  publishers := (verifyMeta_write hpath.publishers).trans h.publishers

/-- A signature beside a manifest, whether or not it is one of an entry. -/
theorem Kept.sign (h : Kept T reg signer keys F) {dir key : JsString} {sigBytes : Bytes}
    (hread : ∀ a ∈ reg.addons, manifestPath F a.path = resolve dir (js "manifest.json") →
      F.readFile (manifestPath F a.path) = .ok bytes)
    (hsigned : SignedText T.crypto T.dates [key] (readUtf8 sigBytes) bytes) :
    Kept T reg (Function.update signer (resolve dir (js "manifest.sig.json")) key) keys
      (F.write (resolve dir (js "manifest.sig.json")) sigBytes) where
  there := (access_write_ne (official_ne F indexName sigName (by decide))).trans h.there
  registry := (loadRegistry_write (official_ne F indexName sigName (by decide))).trans h.registry
  signed a ha := by
    rw [sigPath_write]
    by_cases hpath : sigPath F a.path = resolve dir (js "manifest.sig.json")
    · rw [hpath, Function.update_self]
      exact (h.signed a ha).resign (hread a ha) hsigned hpath
    · rw [Function.update_of_ne hpath]
      exact (h.signed a ha).write (resolve_ne manifestName sigName (by decide)) hpath
  publishers := (verifyMeta_write (official_ne F metaName sigName (by decide))).trans h.publishers

end

/-! ## What a script leaves -/

/-- Everything is kept, with the keys of the signatures that were written. -/
structure Leaves {Priv Pub : Type} (T : Tools Priv Pub) (reg : Registry)
    (signer : JsString → JsString) (keys : List JsString) (F F' : Files) (signed : List Signed) :
    Prop where
  root : F'.root = F.root
  kept : Kept T reg (resigned signer signed) keys F'
  manifests : ∀ a ∈ reg.addons,
    F'.readFile (manifestPath F a.path) = F.readFile (manifestPath F a.path)

/-- The keystore at a path holds both halves of one pair. -/
def KeystorePaired {Priv Pub : Type} (T : Tools Priv Pub) (F : Files) (path : JsString) : Prop :=
  ∀ json, readJson F path = .ok json → Consistent T.crypto (.ofJson json)

section
variable {Priv Pub : Type} {T : Tools Priv Pub} {F F' : Files} {reg : Registry}
  {signer : JsString → JsString} {keys : List JsString} {path : JsString} {bytes : Bytes}
  {kp : SennKeyPair Priv Pub} {denied : Denied}

theorem manifestPath_root (h : F'.root = F.root) (addonPath : JsString) :
    manifestPath F' addonPath = manifestPath F addonPath := by
  rw [manifestPath, manifestPath, h]

theorem Leaves.nothing (h : Kept T reg signer keys F) : Leaves T reg signer keys F F [] :=
  ⟨rfl, h, fun _ _ => rfl⟩

theorem Leaves.append {F'' : Files} {signed more : List Signed} {keys' : List JsString}
    (h : Leaves T reg signer keys F F' signed)
    (h' : Leaves T reg (resigned signer signed) keys' F' F'' more) :
    Leaves T reg signer keys' F F'' (signed ++ more) where
  root := h'.root.trans h.root
  kept := by
    rw [resigned, List.foldl_append]
    exact h'.kept
  manifests a ha := by
    rw [← h.manifests a ha, ← manifestPath_root h.root]
    exact h'.manifests a ha

/-- A pair signs the manifest of a directory. -/
theorem Kept.signTo (hC : T.crypto.Correct) (hD : T.dates.Correct) (h : Kept T reg signer keys F)
    (hkp : Paired T kp) {dir : JsString} {now : Int}
    (hread : ∀ a ∈ reg.addons, manifestPath F a.path = resolve dir (js "manifest.json") →
      F.readFile (manifestPath F a.path) = .ok bytes)
    (hsign : signTo T kp denied now bytes (resolve dir (js "manifest.sig.json")) F = .ok F') :
    Leaves T reg signer keys F F'
      [⟨resolve dir (js "manifest.sig.json"), kp.publicKeyBase64⟩] := by
  obtain ⟨sigBytes, rfl, hsigned⟩ := signTo_ok hC hD hkp hsign
  exact ⟨rfl, h.sign hread hsigned,
    fun a _ => readFile_write_ne (resolve_ne manifestName sigName (by decide))⟩

/-- What `sign-manifest.ts` is given: a keystore of one pair, or a place for a new one that is apart
from what the gate reads. -/
def SignManifest.Proper (T : Tools Priv Pub) (reg : Registry) (F : Files)
    (args : SignManifest.Args) : Prop :=
  if SignManifest.given args.keyPath then
    KeystorePaired T F (resolve T.cwd (args.keyPath.getD []))
  else Apart reg F (resolve T.cwd (args.generateKeyPath.getD []))

theorem map_eq_of_forall₂ {α β γ : Type} {R : α → β → Prop} {f : α → γ} {g : β → γ}
    (hR : ∀ x y, R x y → g y = f x) {xs : List α} {ys : List β} (h : List.Forall₂ R xs ys) :
    ys.map g = xs.map f := by
  induction h with
  | nil => rfl
  | cons hxy _ ih => rw [List.map_cons, List.map_cons, hR _ _ hxy, ih]

theorem SignAllOfficial.entryOf_path {raw : Json} {e : SignAllOfficial.RegistryEntry}
    (h : SignAllOfficial.entryOf raw = .ok e) : e.path = textOf raw (js "path") := by
  unfold SignAllOfficial.entryOf at h
  split at h
  · split at h
    · next hid hpath =>
      obtain rfl := Except.ok.inj h
      exact (Gallery.textOf_some hpath).symm
    · exact nomatch h
  · split at h
    · next hid hpath =>
      obtain rfl := Except.ok.inj h
      exact (Gallery.textOf_some hpath).symm
    · exact nomatch h
  · exact nomatch h

/-- The script finds the entries that the gate checks. -/
theorem Kept.entries (h : Kept T reg signer keys F) {entries : List SignAllOfficial.RegistryEntry}
    (hload : SignAllOfficial.loadRegistry F = .ok entries) :
    entries.map SignAllOfficial.RegistryEntry.path = reg.addons.map RegistryAddon.path := by
  obtain ⟨json, hjson, hvalid⟩ := bind_ok h.registry
  obtain ⟨raws, haccepted⟩ := validateRegistry_accepted (mapError_ok.mp hvalid)
  obtain ⟨json', hjson', hload⟩ := bind_ok hload
  obtain rfl := Except.ok.inj (hjson.symm.trans hjson')
  have haddons : json.get? (js "addons") = some (.arr raws) := by
    have helements := haccepted.addons
    unfold Gallery.elements at helements
    split at helements
    · next xs heq => rw [heq, Option.some.inj helements]
    · exact nomatch helements
  have hentries : raws.mapM SignAllOfficial.entryOf = .ok entries := by
    split at hload
    · exact nomatch hload
    · rw [haddons] at hload
      exact hload
  have hscript : entries.map SignAllOfficial.RegistryEntry.path = raws.map (textOf · (js "path")) :=
    map_eq_of_forall₂ (fun _ _ he => SignAllOfficial.entryOf_path he) (mapM_ok.mp hentries)
  have hgate : reg.addons.map RegistryAddon.path = raws.map (textOf · (js "path")) :=
    map_eq_of_forall₂ (fun _ _ hshows => hshows.path.symm) haccepted.shows
  exact hscript.trans hgate.symm

end

end Senn.Scripts
