import Senn.Js.JsonIndent
import Senn.Registry.MetaIndex
import Senn.Registry.Verifier
import Senn.Signing.Keystore

/-! # The signing scripts

`sign-manifest.ts` and `sign-all-official.ts` write signatures to the files of the repository, and
`verify-official-addons.ts` is the gate after them. A script that fails leaves what it has written
by then. -/

namespace Senn.Scripts
open Senn.Js Senn.Signing Senn.Schema
open Senn.Gallery (validateMetaIndex)

/-- What the scripts have from the platform. -/
structure Tools (Priv Pub : Type) where
  crypto : WebCrypto Priv Pub
  dates : Dates
  schema : Schema.Platform
  parseUrl : UrlParser
  cwd : JsString                               -- `process.cwd()`

/-- What a script stops with. -/
inductive ScriptError where
  | thrown (message : JsString)
  | file (message : JsString)
  | syntaxError (message : JsString)
  | typeError
  | signing (e : SigningError)

/-! ## Files -/

def readFile (F : Files) (path : JsString) : Except ScriptError Bytes :=
  (F.readFile path).mapError .file

/-- `JSON.parse(await readFile(path, "utf8"))` -/
def readJson (F : Files) (path : JsString) : Except ScriptError Json := do
  let bytes ← readFile F path
  match Json.parse (readUtf8 bytes) with
  | some json => return json
  | none => .error (.syntaxError (F.syntaxError (readUtf8 bytes)))

def Files.write (F : Files) (path : JsString) (bytes : Bytes) : Files :=
  { F with
    access := Function.update F.access path true
    readFile := Function.update F.readFile path (.ok bytes) }

/-- The paths that cannot be written, with what the platform says of them. -/
abbrev Denied := JsString → Option JsString

def writeFile (denied : Denied) (F : Files) (path : JsString) (bytes : Bytes) :
    Except ScriptError Files :=
  match denied path with
  | some message => .error (.file message)
  | none => .ok (F.write path bytes)

def registryPath (F : Files) : JsString := resolve F.root (js "addons/official/index.json")

def metaPath (F : Files) : JsString := resolve F.root (js "addons/official/meta.json")

/-! ## Signing -/

variable {Priv Pub : Type} (T : Tools Priv Pub)

/-- The object `signManifest` returns, as it is written. -/
def signatureJson (sig : ManifestSignatureV1) : Json :=
  .obj [(js "v", .num (.ofNat 1)), (js "alg", .str SIGNATURE_ALG),
    (js "publicKey", .str sig.publicKey), (js "signature", .str sig.signature),
    (js "signedAt", .str sig.signedAt)]

/-- The object `exportKeystore` returns, as it is written. -/
def keystoreJson (store : KeystoreV1) : Json :=
  .obj [(js "v", .num (.ofNat KEYSTORE_VERSION)), (js "alg", .str SIGNATURE_ALG),
    (js "publicKey", .str store.publicKey), (js "privateKey", .str store.privateKey)]

/-- A signature that a script has written, with the key that it logs. -/
structure Signed where
  sigPath : JsString
  publicKey : JsString
deriving DecidableEq

/-- The files a script leaves, the signatures it has written, and how it ends. -/
structure Outcome where
  files : Files
  signed : List Signed
  result : Except ScriptError Unit

def Outcome.failed (F : Files) (e : ScriptError) : Outcome := ⟨F, [], .error e⟩

/-- `signManifest` and the `writeFile` of its result. -/
def signTo (kp : SennKeyPair Priv Pub) (denied : Denied) (now : Int) (bytes : Bytes)
    (sigPath : JsString) (F : Files) : Except ScriptError Files := do
  let sig ← (signManifest T.crypto T.dates bytes kp none now).mapError .signing
  writeFile denied F sigPath (utf8Encode (signatureJson sig).fileText)

/-- `loadKeystore(JSON.parse(await readFile(path, "utf8")))` -/
def readKeystore (F : Files) (path : JsString) : Except ScriptError (SennKeyPair Priv Pub) := do
  let json ← readJson F path
  (loadKeystore T.crypto (.ofJson json)).mapError .signing

namespace SignManifest

structure Args where
  addonDir : JsString
  keyPath : Option JsString
  generateKeyPath : Option JsString
  force : Bool

/-- What the loop over the arguments has gathered. -/
structure Scanned where
  positional : List JsString := []
  keyPath : Option JsString := none
  generateKeyPath : Option JsString := none
  force : Bool := false

/-- The loop over the arguments; an option at the end has no value. -/
def scan : Scanned → List JsString → Scanned
  | acc, [] => acc
  | acc, a :: argv =>
    if a = js "--key" then
      match argv with
      | [] => { acc with keyPath := none }
      | path :: argv => scan { acc with keyPath := some path } argv
    else if a = js "--generate-key" then
      match argv with
      | [] => { acc with generateKeyPath := none }
      | path :: argv => scan { acc with generateKeyPath := some path } argv
    else if a = js "--force" then scan { acc with force := true } argv
    else scan { acc with positional := acc.positional ++ [a] } argv

/-- A string that is there and not empty. -/
def given (s : Option JsString) : Bool := s.any (· ≠ [])

def parseArgs (argv : List JsString) : Except ScriptError Args :=
  let acc := scan {} argv
  match acc.positional with
  | [addonDir] =>
    if !given acc.keyPath && !given acc.generateKeyPath then
      .error (.thrown (js "must provide --key or --generate-key"))
    else if given acc.keyPath && given acc.generateKeyPath then
      .error (.thrown (js "--key and --generate-key are mutually exclusive"))
    else .ok ⟨addonDir, acc.keyPath, acc.generateKeyPath, acc.force⟩
  | _ => .error (.thrown (js
      "usage: sign-manifest <addon-dir> (--key <ks.json> | --generate-key <ks.json> [--force])"))

/-- `loadOrGenerate`, where Web Crypto would generate the pair of `newKey`; with the files it
leaves. -/
def loadOrGenerate (denied : Denied) (newKey : Priv) (args : Args) (F : Files) :
    Except ScriptError (SennKeyPair Priv Pub × Files) := do
  if given args.keyPath then
    let kp ← readKeystore T F (resolve T.cwd (args.keyPath.getD []))
    return (kp, F)
  else
    let path := args.generateKeyPath.getD []
    if !args.force && F.access (resolve T.cwd path) then
      .error (.thrown (js "refusing to overwrite existing keystore " ++ path ++
        js " (use --force)"))
    else
      let kp ← (generateKeyPair T.crypto newKey).mapError .signing
      let F ← writeFile denied F (resolve T.cwd path)
        (utf8Encode (keystoreJson (exportKeystore T.crypto kp)).fileText)
      return (kp, F)

/-- What stands before the keys: the manifest's bytes and where its signature goes. -/
def target (args : Args) (F : Files) : Except ScriptError (Bytes × JsString) := do
  let dir := resolve T.cwd args.addonDir
  let manifestPath := resolve dir (js "manifest.json")
  if !F.access manifestPath then
    .error (.thrown (js "manifest not found: " ++ manifestPath))
  else
    let bytes ← readFile F manifestPath
    return (bytes, resolve dir (js "manifest.sig.json"))

def main (denied : Denied) (newKey : Priv) (now : Int) (argv : List JsString) (F : Files) :
    Outcome :=
  match parseArgs argv with
  | .error e => .failed F e
  | .ok args =>
    match target T args F with
    | .error e => .failed F e
    | .ok (bytes, sigPath) =>
      match loadOrGenerate T denied newKey args F with
      | .error e => .failed F e
      | .ok (kp, F) =>
        match signTo T kp denied now bytes sigPath F with
        | .error e => .failed F e
        | .ok F => ⟨F, [⟨sigPath, kp.publicKeyBase64⟩], .ok ()⟩

end SignManifest

namespace SignAllOfficial

structure RegistryEntry where
  id : JsString
  path : JsString

def parseArgs (argv : List JsString) : Except ScriptError JsString :=
  match argv.filter fun a => !(js "--").isPrefixOf a with
  | [path] => .ok (resolve T.cwd path)
  | _ => .error (.thrown (js "usage: sign-all-official <keystore.json>"))

/-- The checks on an entry of `addons`. -/
def entryOf (raw : Json) : Except ScriptError RegistryEntry :=
  match raw with
  | .obj _ | .arr _ =>
    match raw.get? (js "id"), raw.get? (js "path") with
    | some (.str id), some (.str path) => .ok ⟨id, path⟩
    | _, _ => .error (.thrown (js "addon entry missing id/path"))
  | _ => .error (.thrown (js "addon entry not an object"))

def loadRegistry (F : Files) : Except ScriptError (List RegistryEntry) := do
  let raw ← readJson F (registryPath F)
  match raw with
  | .null => .error .typeError
  | raw =>
    match raw.get? (js "addons") with
    | some (.arr addons) => addons.mapM entryOf
    | _ => .error (.thrown (js "registry.addons missing"))

def preflight (F : Files) (registry : List RegistryEntry) : Except ScriptError Unit :=
  match registry.filter fun a => !F.access (manifestPath F a.path) with
  | [] => .ok ()
  | missing => .error (.thrown (js "missing manifest.json for:\n  - " ++
      (js "\n  - ").intercalate (missing.map fun a =>
        a.id ++ js " (" ++ manifestPath F a.path ++ js ")")))

/-- What stands before the loop: the keys and the entries. -/
def prepare (argv : List JsString) (F : Files) :
    Except ScriptError (SennKeyPair Priv Pub × List RegistryEntry) := do
  let keystorePath ← parseArgs T argv
  if !F.access keystorePath then
    .error (.thrown (js "keystore not found: " ++ keystorePath))
  else
    let kp ← readKeystore T F keystorePath
    let registry ← loadRegistry F
    preflight F registry
    return (kp, registry)

def signEntry (kp : SennKeyPair Priv Pub) (denied : Denied) (now : Int) (a : RegistryEntry)
    (F : Files) : Except ScriptError Files := do
  let bytes ← readFile F (manifestPath F a.path)
  signTo T kp denied now bytes (sigPath F a.path) F

/-- The loop over the entries; `now i` is the time at the one of index `i`. -/
def signEntries (kp : SennKeyPair Priv Pub) (denied : Denied) (now : Nat → Int) :
    Nat → List RegistryEntry → Files → Outcome
  | _, [], F => ⟨F, [], .ok ()⟩
  | i, a :: registry, F =>
    match signEntry T kp denied (now i) a F with
    | .error e => .failed F e
    | .ok F' =>
      let rest := signEntries kp denied now (i + 1) registry F'
      { rest with signed := ⟨sigPath F a.path, kp.publicKeyBase64⟩ :: rest.signed }

def main (denied : Denied) (now : Nat → Int) (argv : List JsString) (F : Files) : Outcome :=
  match prepare T argv F with
  | .error e => .failed F e
  | .ok (kp, registry) => signEntries T kp denied now 0 registry F

end SignAllOfficial

namespace VerifyOfficial

structure Args where
  registry : JsString
  meta_ : JsString

/-- The loop over the arguments. -/
def scan : Args → List JsString → Except ScriptError Args
  | args, [] => .ok args
  | args, a :: argv =>
    if a = js "--registry" then
      match argv with
      | [] => .error (.thrown (js "--registry needs a path"))
      | path :: argv => scan { args with registry := resolve T.cwd path } argv
    else if a = js "--meta" then
      match argv with
      | [] => .error (.thrown (js "--meta needs a path"))
      | path :: argv => scan { args with meta_ := resolve T.cwd path } argv
    else .error (.thrown (js "unknown argument: " ++ a))

def parseArgs (F : Files) (argv : List JsString) : Except ScriptError Args :=
  scan T ⟨registryPath F, metaPath F⟩ argv

def rejection : VerifierError → ScriptError
  | .read message => .file message
  | .syntaxError => .syntaxError []
  | .typeError => .typeError
  | .signing e => .signing e

def loadRegistry (F : Files) (path : JsString) : Except ScriptError Registry := do
  let json ← readJson F path
  (validateRegistry T.schema json).mapError .thrown

/-- The results of all add-ons; of several that reject the first one is taken. -/
def results (F : Files) (registry : Registry) : Except ScriptError (List AddonResult) :=
  registry.addons.mapM fun a =>
    (verifyAddon F T.crypto T.dates a registry.trustedKeys).mapError rejection

/-- The check of the list of publishers, which need not be there. -/
def verifyMeta (F : Files) (path : JsString) : Except ScriptError Unit :=
  if F.access path then do
    let json ← readJson F path
    let _ ← (validateMetaIndex T.parseUrl json).mapError .thrown
    return ()
  else .ok ()

def main (argv : List JsString) (F : Files) : Except ScriptError Unit := do
  let args ← parseArgs T F argv
  if !F.access args.registry then .error (.thrown (js "registry not found: " ++ args.registry))
  else
    let registry ← loadRegistry T F args.registry
    let results ← results T F registry
    let failed := results.countP fun r => !r.ok
    if 0 < failed then
      .error (.thrown (natText 10 failed ++ js " of " ++ natText 10 results.length ++ js " failed"))
    else verifyMeta T F args.meta_

end VerifyOfficial

end Senn.Scripts
