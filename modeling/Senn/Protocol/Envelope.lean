import Senn.Js.Data

/-! # Add-on envelopes

The patterns of add-on ids and versions, and the validation of the envelope that
carries an add-on's message over the text channel. -/

namespace Senn.Protocol
open Senn.Js

def isLowerUnit (u : UInt16) : Bool := 0x61 ≤ u && u ≤ 0x7A

/-- `[a-z][a-z0-9-]*` -/
def isAddonIdLabel : JsString → Bool
  | [] => false
  | u :: r => isLowerUnit u && r.all fun v => isLowerUnit v || isDigit v || v = 0x2D

/-- `ADDON_ID.test(s)`: two labels or more with dots between them. -/
def matchesAddonId (s : JsString) : Bool :=
  let labels := s.splitOn 0x2E
  2 ≤ labels.length && labels.all isAddonIdLabel

/-- `[0-9A-Za-z.-]` -/
def isSemverUnit (u : UInt16) : Bool :=
  isDigit u || isLowerUnit u || (0x41 ≤ u && u ≤ 0x5A) || u = 0x2E || u = 0x2D

/-- An optional part of a version, with the unit that opens it. -/
def isSemverSuffix : JsString → Bool
  | [] => true
  | _ :: r => r ≠ [] && r.all isSemverUnit

/-- `SEMVER.test(s)`: the first `+` opens the build part, a `-` before it the
pre-release part. -/
def matchesSemver (s : JsString) : Bool :=
  let build := s.dropWhile (· ≠ 0x2B)
  let rest := s.takeWhile (· ≠ 0x2B)
  let pre := rest.dropWhile (· ≠ 0x2D)
  let numbers := (rest.takeWhile (· ≠ 0x2D)).splitOn 0x2E
  numbers.length = 3 && numbers.all (fun n => n ≠ [] && n.all isDigit) && isSemverSuffix pre &&
    isSemverSuffix build

structure AddonMessageEnvelope where
  id : JsString
  addon : JsString
  version : JsString
  createdAt : ℚ
  payload : Data

/-- The message of an `EnvelopeValidationError`. -/
def envelopeError (message : JsString) : JsString :=
  js "senn: envelope validation failed — " ++ message

def require (ok : Bool) (message : JsString) : Except JsString Unit :=
  if ok then .ok () else .error (envelopeError message)

/-- The string a member is; no check accepts the empty string. -/
def stringMember (ms : List (JsString × Data)) (k : JsString) : JsString :=
  (ownProperty ms k).str?.getD []

/-- The checks on the members of the object. -/
def validateMembers (ms : List (JsString × Data)) : Except JsString AddonMessageEnvelope := do
  let id := stringMember ms (js "id")
  let addon := stringMember ms (js "addon")
  let version := stringMember ms (js "version")
  let createdAt := ownProperty ms (js "createdAt")
  require (stringMember ms (js "kind") = js "addon.message") (js "kind must be addon.message")
  require (id ≠ []) (js "id must be a non-empty string")
  require (matchesAddonId addon) (js "addon must be a reverse-DNS id")
  require (matchesSemver version) (js "version must be SemVer")
  require createdAt.finite?.isSome (js "createdAt must be a finite number")
  require (Data.hasOwn ms (js "payload")) (js "payload missing")
  return {
    id := id
    addon := addon
    version := version
    createdAt := createdAt.finite?.getD 0
    payload := ownProperty ms (js "payload") }

/-- `validateAddonEnvelope`; an object of another class has none of the members. -/
def validateAddonEnvelope : Data → Except JsString AddonMessageEnvelope
  | .obj ms => validateMembers ms
  | .bytes _ | .other _ _ | .backRef _ => validateMembers []
  | _ => .error (envelopeError (js "addon envelope is not an object"))

def tryParseAddonEnvelope (json : JsString) : Option AddonMessageEnvelope :=
  match Json.parse json with
  | none => none
  | some parsed =>
    let parsed := Data.ofJson parsed
    if !parsed.isObject then none
    else if (parsed.get (js "kind")).str? ≠ some (js "addon.message") then none
    else (validateAddonEnvelope parsed).toOption

example : matchesAddonId (js "dev.senn.chat-2") = true := by decide +kernel

example : matchesSemver (js "1.20.3-rc.1+build-7") = true := by decide +kernel

end Senn.Protocol
