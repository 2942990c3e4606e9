import Senn.Lib.Machine
import Senn.Registry.Gate
import Senn.Registry.VerifiedRows

/-! # Rotating the official key

The registry's keys are edited by hand, and the scripts sign with one keystore after another, each
run of which may stop anywhere. The gate is green exactly as long as the key that last signed every
add-on is trusted. -/

namespace Senn.Scripts
open Senn.Js Senn.Signing Senn.Schema Senn.Lib

/-! ## Runs -/

namespace Rotation

/-- What is done to the repository: an edit of the registry, or a run of a script. -/
inductive Event (Priv : Type) where
  | edit (text : Bytes)
  | signManifest (denied : Denied) (newKey : Priv) (now : Int) (argv : List JsString)
  | signAll (denied : Denied) (now : Nat → Int) (argv : List JsString)

variable {Priv Pub : Type} (T : Tools Priv Pub) (reg : Registry)

/-- The files after an event, and the signatures it has written. -/
def step (F : Files) : Event Priv → Files × List Signed
  | .edit text => (F.write (registryPath F) text, [])
  | .signManifest denied newKey now argv =>
    let o := SignManifest.main T denied newKey now argv F
    (o.files, o.signed)
  | .signAll denied now argv =>
    let o := SignAllOfficial.main T denied now argv F
    (o.files, o.signed)

/-- The registry at its place is this one, with these keys. -/
def Trusts (keys : List JsString) (F : Files) : Prop :=
  VerifyOfficial.loadRegistry T F (registryPath F) = .ok { reg with trustedKeys := keys }

/-- An edit changes nothing but the keys, a keystore holds one pair, and a new one is put apart from
what the gate reads. -/
def Fair (F : Files) : Event Priv → Prop
  | .edit text => ∃ keys, Trusts T reg keys (F.write (registryPath F) text)
  | .signManifest _ _ _ argv =>
    ∀ args, SignManifest.parseArgs argv = .ok args → SignManifest.Proper T reg F args
  | .signAll _ _ argv =>
    ∀ path, SignAllOfficial.parseArgs T argv = .ok path → KeystorePaired T F path

variable {T reg} {F : Files} {signer : JsString → JsString} {keys : List JsString}

end Rotation

end Senn.Scripts
