import Senn.Js.Base64Url
import Senn.Js.JsonRoundTrip
import Senn.Protocol.Bundle

/-! # The signaling bundle codec

`validateSignalingBundle`, `encodeSignalingBundle` and `decodeSignalingBundle`: JSON in
UTF-8, compressed, as base64url. The streams of the platform are parameters. -/

namespace Senn.Protocol
open Senn.Js

/-- What the codec has from the platform. -/
structure Platform where
  deflateRaw (input : Bytes) : Bytes
  inflateRaw (input : Bytes) : Option Bytes       -- `none` where the stream fails
  syntaxError (text : JsString) : JsString        -- the message of `JSON.parse`'s error

/-- Decompression gives back what was compressed. -/
def Platform.Lossless (P : Platform) : Prop :=
  ∀ input, P.inflateRaw (P.deflateRaw input) = some input

/-- A deflate stream with a stored block for each byte and an empty last one. -/
def storeBytes : Bytes → Bytes
  | [] => [1, 0, 0, 0xFF, 0xFF]
  | b :: bs => 0 :: 1 :: 0 :: 0xFE :: 0xFF :: b :: storeBytes bs

def readStored : Bytes → Option Bytes
  | [1, 0, 0, 0xFF, 0xFF] => some []
  | 0 :: 1 :: 0 :: 0xFE :: 0xFF :: b :: r => (readStored r).map (b :: ·)
  | _ => none

/-- A platform that stores what it is to compress. -/
def storedPlatform : Platform := ⟨storeBytes, readStored, fun _ => js "Unexpected token"⟩

theorem storedPlatform_lossless : storedPlatform.Lossless := by
  intro input
  show readStored (storeBytes input) = some input
  induction input with
  | nil => rfl
  | cons b bs ih => rw [storeBytes, readStored, ih]; rfl

structure SignalingBundleV1 where
  roomId : JsString
  messages : List SignalingMessage

def SIGNALING_BUNDLE_VERSION : Nat := 1

def ALLOWED_BUNDLE_KEYS : List JsString := [js "v", js "roomId", js "messages"]

/-- `Object.keys` of an object that is no array. -/
def objectKeys : Data → List JsString
  | .obj ms => ms.map Prod.fst
  | .bytes b => (List.range b.length).map (natText 10)
  | _ => []

/-- The loop over `Object.keys(obj)`. -/
def noOtherKeys : List JsString → Except BundleError Unit
  | [] => .ok ()
  | k :: ks =>
    if k ∈ ALLOWED_BUNDLE_KEYS then noOtherKeys ks
    else .error (bundleError (js "unknown field: " ++ k))

def versionField (ms : List (JsString × Data)) : Except BundleError Unit :=
  match ownProperty ms (js "v") with
  | .num x =>
    if x.eq (.ofNat SIGNALING_BUNDLE_VERSION) then .ok ()
    else .error (bundleError (js "v must be 1"))
  | _ => .error (bundleError (js "v must be 1"))

def roomIdField (ms : List (JsString × Data)) : Except BundleError JsString :=
  match (ownProperty ms (js "roomId")).str?.filter isRoomId with
  | some roomId => .ok roomId
  | none => .error (bundleError (js "roomId is not a RoomId"))

def messagesField (ms : List (JsString × Data)) : Except BundleError (List Data) :=
  match ownProperty ms (js "messages") with
  | .arr (x :: xs) _ => .ok (x :: xs)
  | _ => .error (bundleError (js "messages must be a non-empty array"))

/-- `obj.messages.map((m, i) => validateMessage(m, i))`, from index `i` on. -/
def validateMessages : Nat → List Data → Except BundleError (List SignalingMessage)
  | _, [] => .ok []
  | i, x :: xs => do
    let m ← validateMessage x i
    let ms ← validateMessages (i + 1) xs
    return m :: ms

def validateSignalingBundle (value : Data) : Except BundleError SignalingBundleV1 := do
  let ms ← bundleObject value (js "bundle")
  noOtherKeys (objectKeys value)
  versionField ms
  let roomId ← roomIdField ms
  let xs ← messagesField ms
  let messages ← validateMessages 0 xs
  return ⟨roomId, messages⟩

variable (P : Platform)

/-- `encodeSignalingBundle`; `JSON.stringify` may throw a TypeError. -/
def encodeSignalingBundle (bundle : Data) : Except BundleError JsString := do
  let _ ← validateSignalingBundle bundle
  match bundle.toJson with
  | some (some json) => return base64urlEncode (P.deflateRaw (utf8Encode json.stringify))
  | some none | none => .error .typeError

def base64Message : Base64Error → JsString
  | .alphabet => js "bundle is not base64url"
  | .length => js "invalid base64url length"
  | .digit => js "invalid base64url digit"

/-- `decodeSignalingBundle`; a stream that fails throws a TypeError. -/
def decodeSignalingBundle (encoded : JsString) : Except BundleError SignalingBundleV1 :=
  match base64urlDecode encoded with
  | .error e => .error (bundleError (base64Message e))
  | .ok compressed =>
    match P.inflateRaw compressed with
    | none => .error .typeError
    | some utf8 =>
      match Json.parse (utf8Decode utf8) with
      | none =>
        .error (bundleError (js "payload is not valid JSON: " ++ P.syntaxError (utf8Decode utf8)))
      | some parsed => validateSignalingBundle (.ofJson parsed)

/-! ## What is encoded is decoded -/

mutual
/-- `JSON.stringify` writes what `JSON.parse` reads. -/
theorem toJson_ofJson : ∀ {v : Json}, v.Exact → (Data.ofJson v).toJson = some (some v)
  | .null, _ | .bool _, _ | .str _, _ => rfl
  | .num x, h => by
    obtain ⟨⟨q, rfl⟩, _⟩ := h
    rfl
  | .arr xs, h => by
    rw [Data.ofJson, Data.toJson, toElems_ofJsons h]
    rfl
  | .obj ms, h => by
    rw [Data.ofJson, Data.toJson, toMembers_ofMembers h.2]
    rfl
theorem toElems_ofJsons : ∀ {xs : List Json}, ExactElems xs →
    Data.toElems (Data.ofJsons xs) = some xs
  | [], _ => rfl
  | x :: xs, h => by
    rw [Data.ofJsons, Data.toElems, toJson_ofJson h.1, toElems_ofJsons h.2]
    rfl
theorem toMembers_ofMembers : ∀ {ms : List (JsString × Json)}, ExactMembers ms →
    Data.toMembers (Data.ofMembers ms) = some ms
  | [], _ => rfl
  | (k, v) :: ms, h => by
    rw [Data.ofMembers, Data.toMembers, toJson_ofJson h.1, toMembers_ofMembers h.2]
    rfl
end

theorem ofJsons_map (vs : List Json) : Data.ofJsons vs = vs.map Data.ofJson := by
  induction vs with
  | nil => rfl
  | cons v vs ih => rw [Data.ofJsons, ih, List.map_cons]

theorem ofMembers_map (ms : List (JsString × Json)) :
    Data.ofMembers ms = ms.map fun m => (m.1, .ofJson m.2) := by
  induction ms with
  | nil => rfl
  | cons m ms ih =>
    obtain ⟨k, v⟩ := m
    rw [Data.ofMembers, ih, List.map_cons]

theorem exactElems_iff {vs : List Json} : ExactElems vs ↔ ∀ v ∈ vs, v.Exact := by
  induction vs with
  | nil => simp [ExactElems]
  | cons v vs ih => simp [ExactElems, ih]

/-- What is accepted as it is and as its JSON is read is encoded, and decoded to what was
validated. -/
theorem decode_written (hP : P.Lossless) {value : Data} {v : Json} {bundle : SignalingBundleV1}
    (hwritten : value.toJson = some (some v)) (hv : v.Exact)
    (h : validateSignalingBundle value = .ok bundle)
    (hread : validateSignalingBundle (.ofJson v) = .ok bundle) :
    ∃ encoded, encodeSignalingBundle P value = .ok encoded ∧
      decodeSignalingBundle P encoded = .ok bundle := by
  refine ⟨base64urlEncode (P.deflateRaw (utf8Encode v.stringify)), ?_, ?_⟩
  · rw [encodeSignalingBundle, h, hwritten]
    rfl
  · rw [decodeSignalingBundle, base64urlDecode_encode]
    dsimp only
    rw [hP]
    dsimp only
    rw [utf8Decode_stringify, parse_stringify hv]
    exact hread

/-- An accepted bundle of JSON values is encoded, and decoded to what was validated. -/
theorem decode_encode (hP : P.Lossless) {v : Json} (hv : v.Exact) {bundle : SignalingBundleV1}
    (h : validateSignalingBundle (.ofJson v) = .ok bundle) :
    ∃ encoded, encodeSignalingBundle P (.ofJson v) = .ok encoded ∧
      decodeSignalingBundle P encoded = .ok bundle :=
  decode_written P hP (toJson_ofJson hv) hv h h

/-! ## What is accepted at any place -/

theorem kindField_any {ms : List (JsString × Data)} {i j : Nat} {kind : JsString}
    (h : kindField ms i = .ok kind) : kindField ms j = .ok kind := by
  simp only [kindField] at h ⊢
  split at h
  · exact h
  · split at h <;> cases h

theorem peerIdField_any {ms : List (JsString × Data)} {i j : Nat} {k id : JsString}
    (h : peerIdField ms i k = .ok id) : peerIdField ms j k = .ok id := by
  unfold peerIdField at h ⊢
  split at h
  · exact h
  · cases h

theorem sdpField_any {ms : List (JsString × Data)} {i j : Nat} {sdp : JsString}
    (h : sdpField ms i = .ok sdp) : sdpField ms j = .ok sdp := by
  unfold sdpField at h ⊢
  split at h
  · exact h
  · cases h

theorem candidateField_any {ms : List (JsString × Data)} {i j : Nat} {candidate : Data}
    (h : candidateField ms i = .ok candidate) : candidateField ms j = .ok candidate := by
  simp only [candidateField] at h ⊢
  split at h
  · next hobject => rw [if_pos hobject]; exact h
  · cases h

theorem noOtherFields_any {allowed : List JsString} {i j : Nat} {ms : List (JsString × Data)}
    (h : noOtherFields allowed i ms = .ok ()) : noOtherFields allowed j ms = .ok () := by
  induction ms with
  | nil => rfl
  | cons m ms ih =>
    obtain ⟨k, _⟩ := m
    simp only [noOtherFields] at h ⊢
    split at h
    · next hk => rw [if_pos hk]; exact ih h
    · cases h

theorem bundleObject_any {value : Data} {l l' : JsString} {ms : List (JsString × Data)}
    (h : bundleObject value l = .ok ms) : bundleObject value l' = .ok ms := by
  unfold bundleObject at h ⊢
  split at h
  · exact h
  · exact h
  · exact h
  · exact h
  · cases h

/-- Where a message stands in a bundle does not matter. -/
theorem validateMessage_any {value : Data} {i : Nat} {m : SignalingMessage}
    (h : validateMessage value i = .ok m) (j : Nat) : validateMessage value j = .ok m := by
  unfold validateMessage at h ⊢
  obtain ⟨ms, hobject, h⟩ := bind_ok h
  obtain ⟨kind, hkind, h⟩ := bind_ok h
  obtain ⟨from_, hfrom, h⟩ := bind_ok h
  rw [bundleObject_any hobject]
  simp only [bind, Except.bind, kindField_any (j := j) hkind,
    peerIdField_any (j := j) hfrom]
  split at h
  · next hoffer =>
    obtain ⟨sdp, hsdp, h⟩ := bind_ok h
    obtain ⟨_, hfields, h⟩ := bind_ok h
    simp only [if_pos hoffer, sdpField_any (j := j) hsdp, noOtherFields_any (j := j) hfields]
    exact h
  split at h
  · next hoffer hanswer =>
    obtain ⟨sdp, hsdp, h⟩ := bind_ok h
    obtain ⟨to_, hto, h⟩ := bind_ok h
    obtain ⟨_, hfields, h⟩ := bind_ok h
    simp only [if_neg hoffer, if_pos hanswer, sdpField_any (j := j) hsdp,
      peerIdField_any (j := j) hto, noOtherFields_any (j := j) hfields]
    exact h
  split at h
  · next hoffer hanswer hice =>
    obtain ⟨candidate, hcandidate, h⟩ := bind_ok h
    obtain ⟨to_, hto, h⟩ := bind_ok h
    obtain ⟨_, hfields, h⟩ := bind_ok h
    simp only [if_neg hoffer, if_neg hanswer, if_pos hice, candidateField_any (j := j) hcandidate,
      peerIdField_any (j := j) hto, noOtherFields_any (j := j) hfields]
    exact h
  · next hoffer hanswer hice =>
    obtain ⟨_, hfields, h⟩ := bind_ok h
    simp only [if_neg hoffer, if_neg hanswer, if_neg hice, noOtherFields_any (j := j) hfields]
    exact h

/-- A message that `validateMessage` accepts, as it returns it. -/
def message? (value : Data) : Option SignalingMessage := (validateMessage value 0).toOption

theorem message?_some {value : Data} {m : SignalingMessage} :
    message? value = some m ↔ validateMessage value 0 = .ok m := by
  unfold message?
  cases validateMessage value 0 <;> simp [Except.toOption]

theorem validateMessages_ok {values : List Data} (h : ∀ v ∈ values, (message? v).isSome = true) :
    ∀ i, validateMessages i values = .ok (values.filterMap message?) := by
  induction values with
  | nil => intro i; rfl
  | cons v values ih =>
    intro i
    obtain ⟨m, hm⟩ := Option.isSome_iff_exists.mp (h v (.head _))
    have hone := validateMessage_any (message?_some.mp hm) i
    have hrest := ih (fun v' hv' => h v' (.tail _ hv')) (i + 1)
    rw [validateMessages, hone, List.filterMap_cons_some hm]
    simp only [bind, Except.bind, hrest]
    rfl

end Senn.Protocol
