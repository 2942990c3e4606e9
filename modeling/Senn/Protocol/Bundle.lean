import Senn.Js.Data
import Senn.Protocol.Ids

/-! # The messages of a signaling bundle

`validateMessage` with its checks in the order of the source and the texts of
its errors. What it accepts has every field of its kind, of the right type, and
no other. -/

namespace Senn.Protocol
open Senn.Js

/-- A `SignalingMessage` as the validator returns it. -/
inductive SignalingMessage where
  | offer (from_ sdp : JsString)
  | answer (from_ to_ sdp : JsString)
  | ice (from_ to_ : JsString) (candidate : Data)
  | bye (from_ : JsString)

def KNOWN_KINDS : List JsString := [js "offer", js "answer", js "ice", js "bye"]

/-- What the validator throws: a `BundleValidationError`, or the TypeError of
`String` on a kind that is no string. -/
inductive BundleError where
  | validation (message : JsString)
  | typeError
deriving DecidableEq

def bundleError (message : JsString) : BundleError :=
  .validation (js "senn: bundle validation failed — " ++ message)

/-- The message at `idx`, as the errors name it. -/
def messageLabel (idx : Nat) : JsString := js "messages[" ++ natText 10 idx ++ js "]"

/-- The members of a value, when it is an object that is no array; an object of
another class has none of those that are read. -/
def bundleObject (value : Data) (label : JsString) :
    Except BundleError (List (JsString × Data)) :=
  match value with
  | .obj ms => .ok ms
  | .bytes _ | .other _ _ | .backRef _ => .ok []
  | _ => .error (bundleError (label ++ js " is not an object"))

def kindField (ms : List (JsString × Data)) (idx : Nat) : Except BundleError JsString :=
  let kind := ownProperty ms (js "kind")
  match kind.str?.filter (· ∈ KNOWN_KINDS) with
  | some k => .ok k
  | none =>
    match kind.text with
    | some t => .error (bundleError (messageLabel idx ++ js ".kind is invalid: " ++ t))
    | none => .error .typeError

def peerIdField (ms : List (JsString × Data)) (idx : Nat) (k : JsString) :
    Except BundleError JsString :=
  match (ownProperty ms k).str?.filter isPeerId with
  | some id => .ok id
  | none => .error (bundleError (messageLabel idx ++ js "." ++ k ++ js " is not a PeerId"))

def sdpField (ms : List (JsString × Data)) (idx : Nat) : Except BundleError JsString :=
  match (ownProperty ms (js "sdp")).str?.filter (· ≠ []) with
  | some sdp => .ok sdp
  | none => .error (bundleError (messageLabel idx ++ js ".sdp must be a non-empty string"))

def candidateField (ms : List (JsString × Data)) (idx : Nat) : Except BundleError Data :=
  let candidate := ownProperty ms (js "candidate")
  if candidate.isObject then .ok candidate
  else .error (bundleError (messageLabel idx ++ js ".candidate must be an RTCIceCandidateInit"))

/-- The loop over `Object.keys(obj)`. -/
def noOtherFields (allowed : List JsString) (idx : Nat) :
    List (JsString × Data) → Except BundleError Unit
  | [] => .ok ()
  | (k, _) :: ms =>
    if k ∈ allowed then noOtherFields allowed idx ms
    else .error (bundleError (messageLabel idx ++ js " unknown field: " ++ k))

/-- `validateMessage` -/
def validateMessage (value : Data) (idx : Nat) : Except BundleError SignalingMessage := do
  let ms ← bundleObject value (messageLabel idx)
  let kind ← kindField ms idx
  let from_ ← peerIdField ms idx (js "from")
  if kind = js "offer" then
    let sdp ← sdpField ms idx
    noOtherFields [js "kind", js "from", js "sdp"] idx ms
    return .offer from_ sdp
  else if kind = js "answer" then
    let sdp ← sdpField ms idx
    let to_ ← peerIdField ms idx (js "to")
    noOtherFields [js "kind", js "from", js "to", js "sdp"] idx ms
    return .answer from_ to_ sdp
  else if kind = js "ice" then
    let candidate ← candidateField ms idx
    let to_ ← peerIdField ms idx (js "to")
    noOtherFields [js "kind", js "from", js "to", js "candidate"] idx ms
    return .ice from_ to_ candidate
  else
    noOtherFields [js "kind", js "from"] idx ms
    return .bye from_

/-! ## What the validator accepts -/

/-- `v` has the fields of the message. -/
def Carries (v : Data) : SignalingMessage → Prop
  | .offer from_ sdp => v.get (js "kind") = .str (js "offer") ∧ v.get (js "from") = .str from_ ∧
      v.get (js "sdp") = .str sdp
  | .answer from_ to_ sdp => v.get (js "kind") = .str (js "answer") ∧
      v.get (js "from") = .str from_ ∧ v.get (js "to") = .str to_ ∧ v.get (js "sdp") = .str sdp
  | .ice from_ to_ candidate => v.get (js "kind") = .str (js "ice") ∧
      v.get (js "from") = .str from_ ∧ v.get (js "to") = .str to_ ∧
      v.get (js "candidate") = candidate
  | .bye from_ => v.get (js "kind") = .str (js "bye") ∧ v.get (js "from") = .str from_

theorem str?_eq_some {v : Data} {s : JsString} (h : v.str? = some s) : v = .str s := by
  cases v <;> simp_all [Data.str?]

theorem kindField_ok {ms : List (JsString × Data)} {idx : Nat} {kind : JsString}
    (h : kindField ms idx = .ok kind) :
    ownProperty ms (js "kind") = .str kind ∧ kind ∈ KNOWN_KINDS := by
  simp only [kindField] at h
  split at h
  · next k hk =>
    obtain rfl := Except.ok.inj h
    obtain ⟨hstr, hmem⟩ := Option.filter_eq_some_iff.mp hk
    exact ⟨str?_eq_some hstr, of_decide_eq_true hmem⟩
  · split at h <;> cases h

theorem peerIdField_ok {ms : List (JsString × Data)} {idx : Nat} {k id : JsString}
    (h : peerIdField ms idx k = .ok id) : ownProperty ms k = .str id := by
  unfold peerIdField at h
  split at h
  · next hid =>
    obtain rfl := Except.ok.inj h
    exact str?_eq_some (Option.filter_eq_some_iff.mp hid).1
  · cases h

theorem sdpField_ok {ms : List (JsString × Data)} {idx : Nat} {sdp : JsString}
    (h : sdpField ms idx = .ok sdp) : ownProperty ms (js "sdp") = .str sdp := by
  unfold sdpField at h
  split at h
  · next hsdp =>
    obtain rfl := Except.ok.inj h
    exact str?_eq_some (Option.filter_eq_some_iff.mp hsdp).1
  · cases h

theorem candidateField_ok {ms : List (JsString × Data)} {idx : Nat} {candidate : Data}
    (h : candidateField ms idx = .ok candidate) : ownProperty ms (js "candidate") = candidate := by
  simp only [candidateField] at h
  split at h
  · exact Except.ok.inj h
  · cases h

/-- A value with one of the known kinds is an object that is no array. -/
theorem bundleObject_ok {value : Data} {label : JsString} {ms : List (JsString × Data)}
    {s : JsString} (h : bundleObject value label = .ok ms)
    (hkind : ownProperty ms (js "kind") = .str s) : value = .obj ms := by
  cases value with
  | obj ms' => rw [Except.ok.inj h]
  | bytes b => obtain rfl := Except.ok.inj h; cases hkind
  | other text json => obtain rfl := Except.ok.inj h; cases hkind
  | backRef text => obtain rfl := Except.ok.inj h; cases hkind
  | _ => cases h

/-- What is accepted has the fields of the message it is returned as. -/
theorem validateMessage_carries {value : Data} {idx : Nat} {m : SignalingMessage}
    (h : validateMessage value idx = .ok m) : Carries value m := by
  unfold validateMessage at h
  obtain ⟨ms, hobj, h⟩ := bind_ok h
  obtain ⟨kind, hkind, h⟩ := bind_ok h
  obtain ⟨from_, hfrom, h⟩ := bind_ok h
  obtain ⟨hkind, hknown⟩ := kindField_ok hkind
  rw [bundleObject_ok hobj hkind]
  have hsender := peerIdField_ok hfrom
  split at h
  · next hoffer =>
    obtain ⟨sdp, hsdp, h⟩ := bind_ok h
    obtain ⟨_, _, h⟩ := bind_ok h
    obtain rfl := Except.ok.inj h
    exact ⟨hoffer ▸ hkind, hsender, sdpField_ok hsdp⟩
  split at h
  · next hanswer =>
    obtain ⟨sdp, hsdp, h⟩ := bind_ok h
    obtain ⟨to_, hto, h⟩ := bind_ok h
    obtain ⟨_, _, h⟩ := bind_ok h
    obtain rfl := Except.ok.inj h
    exact ⟨hanswer ▸ hkind, hsender, peerIdField_ok hto, sdpField_ok hsdp⟩
  split at h
  · next hice =>
    obtain ⟨candidate, hcandidate, h⟩ := bind_ok h
    obtain ⟨to_, hto, h⟩ := bind_ok h
    obtain ⟨_, _, h⟩ := bind_ok h
    obtain rfl := Except.ok.inj h
    exact ⟨hice ▸ hkind, hsender, peerIdField_ok hto, candidateField_ok hcandidate⟩
  · next hoffer hanswer hice =>
    obtain ⟨_, _, h⟩ := bind_ok h
    obtain rfl := Except.ok.inj h
    have hbye : kind = js "bye" := by
      simpa [KNOWN_KINDS, hoffer, hanswer, hice] using hknown
    exact ⟨hbye ▸ hkind, hsender⟩

end Senn.Protocol
