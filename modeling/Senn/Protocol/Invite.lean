import Senn.Protocol.Codec
import Senn.Protocol.Envelope

/-! # Invites

`validateInvitePayload`, `encodeInvite` and `decodeInvite`: the payload in JSON with its keys in
one order, UTF-8, compressed, as base64url. -/

namespace Senn.Invite
open Senn.Js Senn.Protocol

structure InvitePayload where
  roomId : JsString
  from_ : JsString
  protocolVersion : JsString
  capabilities : List JsString
  note : Option JsString
deriving DecidableEq

abbrev INVITE_PAYLOAD_VERSION : Nat := 1

def ALLOWED_KEYS : List JsString :=
  [js "v", js "roomId", js "from", js "protocolVersion", js "capabilities", js "note"]

/-- What the functions throw: an `InviteValidationError`, or the TypeError of `String`, of
`JSON.stringify` or of a stream that fails. -/
inductive InviteError where
  | validation (message : JsString)
  | typeError
deriving DecidableEq

def inviteError (message : JsString) : InviteError :=
  .validation (js "senn: invite validation failed — " ++ message)

def insist (ok : Bool) (message : JsString) : Except InviteError Unit :=
  if ok then .ok () else .error (inviteError message)

/-- `CAPABILITY_TAG.test(s)`: a name, `-v` and the digits at the end. -/
def matchesCapabilityTag (s : JsString) : Bool :=
  match s.reverse.dropWhile isDigit with
  | 0x76 :: 0x2D :: name => s.reverse.takeWhile isDigit ≠ [] && isAddonIdLabel name.reverse
  | _ => false

/-! ## The validator -/

/-- The members of an object that is no array; an object of another class has none of those
that are read. -/
def asObject : Data → Except InviteError (List (JsString × Data))
  | .obj ms => .ok ms
  | .bytes _ | .other _ _ | .backRef _ => .ok []
  | _ => .error (inviteError (js "payload is not an object"))

/-- The loop over `Object.keys(obj)`. -/
def noOtherKeys : List JsString → Except InviteError Unit
  | [] => .ok ()
  | k :: ks =>
    if k ∈ ALLOWED_KEYS then noOtherKeys ks
    else .error (inviteError (js "unknown field: " ++ k))

/-- A string member that meets a check. -/
def textField (ms : List (JsString × Data)) (k : JsString) (check : JsString → Bool)
    (message : JsString) : Except InviteError JsString :=
  match (ownProperty ms k).str?.filter check with
  | some s => .ok s
  | none => .error (inviteError message)

def capabilitiesField (ms : List (JsString × Data)) : Except InviteError (List Data) :=
  match ownProperty ms (js "capabilities") with
  | .arr (tag :: tags) _ => .ok (tag :: tags)
  | _ => .error (inviteError (js "capabilities must be a non-empty array"))

/-- The loop over the capabilities. -/
def checkTags : List Data → Except InviteError (List JsString)
  | [] => .ok []
  | tag :: tags =>
    match tag.str?.filter matchesCapabilityTag with
    | some s => (checkTags tags).map (s :: ·)
    | none =>
      match tag.text with
      | some t => .error (inviteError (js "invalid capability tag: " ++ t))
      | none => .error .typeError

/-- `note`; `[...note].length` counts code points. -/
def noteField : Data → Except InviteError (Option JsString)
  | .undefined => .ok none
  | .str s =>
    if (scalars s).length > 64 then .error (inviteError (js "note exceeds 64 code points"))
    else .ok (some s)
  | _ => .error (inviteError (js "note must be a string when present"))

def validateInvitePayload (value : Data) : Except InviteError InvitePayload := do
  let ms ← asObject value
  noOtherKeys (objectKeys value)
  insist ((ownProperty ms (js "v")).isNumber INVITE_PAYLOAD_VERSION) (js "v must be 1")
  let roomId ← textField ms (js "roomId") isRoomId (js "roomId is not a RoomId")
  let from_ ← textField ms (js "from") isPeerId (js "from is not a PeerId")
  let protocolVersion ← textField ms (js "protocolVersion") matchesSemver
    (js "protocolVersion is not SemVer")
  let tags ← capabilitiesField ms
  let capabilities ← checkTags tags
  let note ← noteField (ownProperty ms (js "note"))
  return ⟨roomId, from_, protocolVersion, capabilities, note⟩

/-! ## The codec -/

/-- The object `canonicalJsonStringify` writes. -/
def ordered (payload : Data) : Data :=
  .obj ([js "v", js "roomId", js "from", js "protocolVersion", js "capabilities"].map
      (fun k => (k, payload.get k)) ++
    match payload.get (js "note") with
    | .undefined => []
    | note => [(js "note", note)])

/-- `canonicalJsonStringify`; `none` is the TypeError. -/
def canonicalJsonStringify (payload : Data) : Option JsString :=
  ((ordered payload).toJson.bind id).map Json.stringify

def base64Text : Base64Error → JsString
  | .alphabet => js "invite is not base64url"
  | .length => js "invalid base64url length"
  | .digit => js "invalid base64url digit"

variable (P : Platform)

def encodeInvite (payload : Data) : Except InviteError JsString := do
  let _ ← validateInvitePayload payload
  match canonicalJsonStringify payload with
  | some json => return base64urlEncode (P.deflateRaw (utf8Encode json))
  | none => .error .typeError

def decodeInvite (encoded : JsString) : Except InviteError InvitePayload :=
  match base64urlDecode encoded with
  | .error e => .error (inviteError (base64Text e))
  | .ok compressed =>
    match P.inflateRaw compressed with
    | none => .error .typeError
    | some utf8 =>
      match Json.parse (utf8Decode utf8) with
      | none =>
        .error (inviteError (js "payload is not valid JSON: " ++ P.syntaxError (utf8Decode utf8)))
      | some parsed => validateInvitePayload (.ofJson parsed)

/-! ## What the validator accepts -/

/-- What every accepted payload meets. -/
structure InvitePayload.Valid (p : InvitePayload) : Prop where
  roomId : isRoomId p.roomId = true
  from_ : isPeerId p.from_ = true
  protocolVersion : matchesSemver p.protocolVersion = true
  capabilities : p.capabilities ≠ []
  tags : ∀ tag ∈ p.capabilities, matchesCapabilityTag tag = true
  note : ∀ note ∈ p.note, (scalars note).length ≤ 64

/-- A note as a member. -/
def noteData : Option JsString → Data
  | none => .undefined
  | some note => .str note

/-- The object is the invite document of a payload: its members, and no other. -/
structure InviteDocument (ms : List (JsString × Data)) (p : InvitePayload) : Prop where
  keys : ∀ k ∈ ms.map Prod.fst, k ∈ ALLOWED_KEYS
  v : ownProperty ms (js "v") = .num (.ofNat 1)
  roomId : ownProperty ms (js "roomId") = .str p.roomId
  from_ : ownProperty ms (js "from") = .str p.from_
  protocolVersion : ownProperty ms (js "protocolVersion") = .str p.protocolVersion
  capabilities : ∃ rest, ownProperty ms (js "capabilities") = .arr (p.capabilities.map .str) rest
  note : ownProperty ms (js "note") = noteData p.note
  valid : p.Valid

theorem insist_ok {ok : Bool} {message : JsString} : insist ok message = .ok () ↔ ok = true := by
  unfold insist
  split <;> simp [*]

theorem noOtherKeys_ok {ks : List JsString} :
    noOtherKeys ks = .ok () ↔ ∀ k ∈ ks, k ∈ ALLOWED_KEYS := by
  induction ks with
  | nil => simp [noOtherKeys]
  | cons k ks ih =>
    rw [List.forall_mem_cons, ← ih, noOtherKeys]
    split <;> simp [*]

theorem textField_ok {ms : List (JsString × Data)} {k message s : JsString}
    {check : JsString → Bool} :
    textField ms k check message = .ok s ↔ ownProperty ms k = .str s ∧ check s = true := by
  unfold textField
  constructor
  · intro h
    split at h
    · next hs =>
      obtain rfl := Except.ok.inj h
      obtain ⟨hstr, hcheck⟩ := Option.filter_eq_some_iff.mp hs
      exact ⟨str?_eq_some hstr, hcheck⟩
    · cases h
  · rintro ⟨hs, hcheck⟩
    have hfilter : (ownProperty ms k).str?.filter check = some s := by
      rw [hs]
      exact Option.filter_eq_some_iff.mpr ⟨rfl, hcheck⟩
    rw [hfilter]

theorem checkTags_ok {tags : List Data} {ss : List JsString} :
    checkTags tags = .ok ss ↔
      tags = ss.map .str ∧ ∀ s ∈ ss, matchesCapabilityTag s = true := by
  induction tags generalizing ss with
  | nil => cases ss <;> simp [checkTags]
  | cons tag tags ih =>
    rw [checkTags]
    constructor
    · intro h
      split at h
      · next s hs =>
        obtain ⟨hstr, hmatches⟩ := Option.filter_eq_some_iff.mp hs
        cases hrest : checkTags tags with
        | error e => rw [hrest] at h; cases h
        | ok rest =>
          rw [hrest] at h
          obtain rfl := Except.ok.inj h
          obtain ⟨htags, hall⟩ := ih.mp hrest
          exact ⟨by rw [str?_eq_some hstr, htags]; rfl, List.forall_mem_cons.mpr ⟨hmatches, hall⟩⟩
      · split at h <;> cases h
    · rintro ⟨heq, hall⟩
      cases ss with
      | nil => cases heq
      | cons s ss =>
        obtain ⟨rfl, rfl⟩ := List.cons.inj heq
        obtain ⟨hmatches, hall⟩ := List.forall_mem_cons.mp hall
        have hfilter : (Data.str s).str?.filter matchesCapabilityTag = some s :=
          Option.filter_eq_some_iff.mpr ⟨rfl, hmatches⟩
        rw [hfilter, ih.mpr ⟨rfl, hall⟩]
        rfl

theorem noteField_ok {value : Data} {note : Option JsString} :
    noteField value = .ok note ↔
      value = noteData note ∧ ∀ s ∈ note, (scalars s).length ≤ 64 := by
  cases value with
  | undefined => cases note <;> simp [noteField, noteData]
  | str s =>
    rw [noteField]
    split
    · next hlong =>
      simp only [reduceCtorEq, false_iff]
      rintro ⟨heq, hshort⟩
      cases note with
      | none => cases heq
      | some s' =>
        obtain rfl := Data.str.inj heq
        exact absurd (hshort s rfl) (by omega)
    · next hshort =>
      constructor
      · intro h
        obtain rfl := Except.ok.inj h
        exact ⟨rfl, by simpa using hshort⟩
      · rintro ⟨heq, _⟩
        cases note with
        | none => cases heq
        | some s' => rw [Data.str.inj heq]
  | _ => cases note <;> simp [noteField, noteData]

theorem InviteDocument.accepted {ms : List (JsString × Data)} {p : InvitePayload}
    (h : InviteDocument ms p) : validateInvitePayload (.obj ms) = .ok p := by
  obtain ⟨rest, hcapabilities⟩ := h.capabilities
  have hkeys : noOtherKeys (ms.map Prod.fst) = .ok () := noOtherKeys_ok.mpr h.keys
  have hversion : (ownProperty ms (js "v")).isNumber INVITE_PAYLOAD_VERSION = true :=
    Data.isNumber_iff.mpr h.v
  have htags : capabilitiesField ms = .ok (p.capabilities.map .str) := by
    unfold capabilitiesField
    rw [hcapabilities]
    cases hcaps : p.capabilities with
    | nil => exact absurd hcaps h.valid.capabilities
    | cons tag tags => rfl
  unfold validateInvitePayload
  rw [asObject, ok_bind, objectKeys, hkeys, ok_bind, insist_ok.mpr hversion, ok_bind,
    textField_ok.mpr ⟨h.roomId, h.valid.roomId⟩, ok_bind,
    textField_ok.mpr ⟨h.from_, h.valid.from_⟩, ok_bind,
    textField_ok.mpr ⟨h.protocolVersion, h.valid.protocolVersion⟩, ok_bind, htags, ok_bind,
    checkTags_ok.mpr ⟨rfl, h.valid.tags⟩, ok_bind, noteField_ok.mpr ⟨h.note, h.valid.note⟩]
  rfl

/-- The validator accepts the invite documents and nothing else. -/
theorem validateInvitePayload_ok {value : Data} {p : InvitePayload} :
    validateInvitePayload value = .ok p ↔ ∃ ms, value = .obj ms ∧ InviteDocument ms p := by
  constructor
  · intro h
    unfold validateInvitePayload at h
    obtain ⟨ms, hms, h⟩ := bind_ok h
    obtain ⟨_, hkeys, h⟩ := bind_ok h
    obtain ⟨_, hv, h⟩ := bind_ok h
    obtain ⟨roomId, hroomId, h⟩ := bind_ok h
    obtain ⟨from_, hfrom, h⟩ := bind_ok h
    obtain ⟨protocolVersion, hversion, h⟩ := bind_ok h
    obtain ⟨tags, htags, h⟩ := bind_ok h
    obtain ⟨capabilities, hcapabilities, h⟩ := bind_ok h
    obtain ⟨note, hnote, h⟩ := bind_ok h
    obtain rfl := Except.ok.inj h
    have hv := Data.isNumber_iff.mp (insist_ok.mp hv)
    obtain ⟨hroomId, hroom⟩ := textField_ok.mp hroomId
    obtain ⟨hfrom, hpeer⟩ := textField_ok.mp hfrom
    obtain ⟨hversion, hsemver⟩ := textField_ok.mp hversion
    obtain ⟨rfl, hall⟩ := checkTags_ok.mp hcapabilities
    obtain ⟨hnote, hshort⟩ := noteField_ok.mp hnote
    have harray : ∃ rest, ownProperty ms (js "capabilities") =
        .arr (capabilities.map .str) rest ∧ capabilities ≠ [] := by
      unfold capabilitiesField at htags
      split at htags
      · next tag tags rest heq =>
        have htags := Except.ok.inj htags
        refine ⟨rest, heq.trans (by rw [htags]), ?_⟩
        rintro rfl
        cases htags
      · cases htags
    obtain ⟨rest, harray, hne⟩ := harray
    -- an object of another class has no `v`
    cases value with
    | obj ms' =>
      obtain rfl := Except.ok.inj hms
      exact ⟨ms', rfl, noOtherKeys_ok.mp hkeys, hv, hroomId, hfrom, hversion, ⟨rest, harray⟩,
        hnote, hroom, hpeer, hsemver, hne, hall, hshort⟩
    | bytes b => obtain rfl := Except.ok.inj hms; cases hv
    | other text json => obtain rfl := Except.ok.inj hms; cases hv
    | backRef text => obtain rfl := Except.ok.inj hms; cases hv
    | _ => cases hms
  · rintro ⟨ms, rfl, h⟩
    exact h.accepted

/-! ## What is encoded is decoded -/

/-- The JSON of a payload. -/
def InvitePayload.toJson (p : InvitePayload) : Json :=
  .obj ([(js "v", .num (.ofNat 1)), (js "roomId", .str p.roomId), (js "from", .str p.from_),
      (js "protocolVersion", .str p.protocolVersion),
      (js "capabilities", .arr (p.capabilities.map .str))] ++
    match p.note with
    | none => []
    | some note => [(js "note", .str note)])

theorem toElems_strs (ss : List JsString) : Data.toElems (ss.map .str) = some (ss.map .str) := by
  induction ss with
  | nil => rfl
  | cons s ss ih =>
    rw [List.map_cons, Data.toElems, ih]
    rfl

theorem InvitePayload.exact (p : InvitePayload) : p.toJson.Exact := by
  have hversion : (Json.num (.ofNat 1)).Exact := readsBack_ofNat (n := 1) (by decide)
  have hcapabilities : ExactElems (p.capabilities.map .str) := by
    refine exactElems_iff.mpr fun v hv => ?_
    obtain ⟨s, _, rfl⟩ := List.mem_map.mp hv
    trivial
  have hplain : [js "v", js "roomId", js "from", js "protocolVersion", js "capabilities"].Nodup := by
    decide
  have hnoted : [js "v", js "roomId", js "from", js "protocolVersion", js "capabilities",
      js "note"].Nodup := by decide
  unfold InvitePayload.toJson
  cases p.note with
  | none => exact ⟨hplain, hversion, trivial, trivial, trivial, hcapabilities, trivial⟩
  | some note =>
    exact ⟨hnoted, hversion, trivial, trivial, trivial, hcapabilities, trivial, trivial⟩

/-- The JSON of a valid payload is its invite document. -/
theorem InvitePayload.Valid.document {p : InvitePayload} (h : p.Valid) :
    ∃ ms, Data.ofJson p.toJson = .obj ms ∧ InviteDocument ms p := by
  have harray : Data.ofJson (.arr (p.capabilities.map .str)) = .arr (p.capabilities.map .str) [] := by
    rw [Data.ofJson, ofJsons_map, List.map_map]
    rfl
  have hplain : ∀ k ∈ [js "v", js "roomId", js "from", js "protocolVersion", js "capabilities"],
      k ∈ ALLOWED_KEYS := by decide
  refine ⟨_, rfl, ?_⟩
  cases hnote : p.note with
  | none =>
    simp only [List.append_nil]
    exact ⟨hplain, rfl, rfl, rfl, rfl, ⟨[], harray⟩, by rw [hnote]; rfl, h⟩
  | some note =>
    exact ⟨fun k hk => hk, rfl, rfl, rfl, rfl, ⟨[], harray⟩, by rw [hnote]; rfl, h⟩

/-- A valid payload is accepted unchanged. -/
theorem InvitePayload.Valid.accepted {p : InvitePayload} (h : p.Valid) :
    validateInvitePayload (.ofJson p.toJson) = .ok p :=
  validateInvitePayload_ok.mpr h.document

/-- Of an invite document the canonical JSON of its payload is written. -/
theorem InviteDocument.canonical {ms : List (JsString × Data)} {p : InvitePayload}
    (h : InviteDocument ms p) : canonicalJsonStringify (.obj ms) = some p.toJson.stringify := by
  obtain ⟨rest, hcapabilities⟩ := h.capabilities
  have hnote : (Data.obj ms).get (js "note") = noteData p.note := h.note
  have hordered : (ordered (.obj ms)).toJson = some (some p.toJson) := by
    unfold ordered InvitePayload.toJson
    rw [hnote]
    simp only [List.map_cons, List.map_nil, Data.get, h.v, h.roomId, h.from_, h.protocolVersion,
      hcapabilities]
    cases p.note <;> simp [noteData, Data.toJson, Data.toMembers, toElems_strs, Number.ofNat]
  rw [canonicalJsonStringify, hordered]
  rfl

variable {P : Platform}

/-- The encoding of what is accepted depends on its payload alone. -/
theorem encodeInvite_accepted {value : Data} {p : InvitePayload}
    (h : validateInvitePayload value = .ok p) :
    encodeInvite P value = .ok (base64urlEncode (P.deflateRaw (utf8Encode p.toJson.stringify))) := by
  obtain ⟨ms, rfl, hdocument⟩ := validateInvitePayload_ok.mp h
  rw [encodeInvite, h, hdocument.canonical]
  rfl

theorem decodeInvite_encoded (hP : P.Lossless) {p : InvitePayload} (h : p.Valid) :
    decodeInvite P (base64urlEncode (P.deflateRaw (utf8Encode p.toJson.stringify))) = .ok p := by
  rw [decodeInvite, base64urlDecode_encode]
  dsimp only
  rw [hP]
  dsimp only
  rw [utf8Decode_stringify, parse_stringify p.exact]
  exact h.accepted

theorem decodeInvite_valid {encoded : JsString} {p : InvitePayload}
    (h : decodeInvite P encoded = .ok p) : p.Valid := by
  unfold decodeInvite at h
  split at h
  · cases h
  split at h
  · cases h
  split at h
  · cases h
  · obtain ⟨_, _, hdocument⟩ := validateInvitePayload_ok.mp h
    exact hdocument.valid

theorem payload_valid {value : Data} {p : InvitePayload}
    (h : validateInvitePayload value = .ok p) : p.Valid := by
  obtain ⟨_, _, hdocument⟩ := validateInvitePayload_ok.mp h
  exact hdocument.valid

/-- What is accepted is encoded and decoded to the validated payload; two accepted values have
one encoding exactly where they are one payload; and what is decoded is accepted unchanged. -/
theorem invite_codec (hP : P.Lossless) :
    (∀ value p, validateInvitePayload value = .ok p → ∃ encoded,
      encodeInvite P value = .ok encoded ∧ decodeInvite P encoded = .ok p) ∧
    (∀ value value' p p', validateInvitePayload value = .ok p →
      validateInvitePayload value' = .ok p' →
      (encodeInvite P value = encodeInvite P value' ↔ p = p')) ∧
    ∀ encoded p, decodeInvite P encoded = .ok p →
      validateInvitePayload (.ofJson p.toJson) = .ok p := by
  refine ⟨fun value p h => ?_, fun value value' p p' h h' => ?_, fun encoded p h => ?_⟩
  · exact ⟨_, encodeInvite_accepted h, decodeInvite_encoded hP (payload_valid h)⟩
  · rw [encodeInvite_accepted h, encodeInvite_accepted h']
    constructor
    · intro heq
      have hdecode := decodeInvite_encoded hP (payload_valid h)
      rw [Except.ok.inj heq, decodeInvite_encoded hP (payload_valid h')] at hdecode
      exact (Except.ok.inj hdecode).symm
    · rintro rfl
      rfl
  · exact (decodeInvite_valid h).accepted

/-- An invite to a studio; its note ends in a lone surrogate. -/
def studioInvite : InvitePayload where
  roomId := js "01jrmcv3p4n8e7y9w0q5t2k1h6"
  from_ := js "01jrmcv3p4abcdefghjkmnpqrs"
  protocolVersion := js "0.1.0"
  capabilities := [js "text-v1", js "whiteboard-v1"]
  note := some (js "studio drop-in" ++ [0xD83D])

theorem studioInvite_valid : studioInvite.Valid := by
  refine ⟨by decide, by decide, by decide, by decide, by decide, fun note hnote => ?_⟩
  obtain rfl := Option.some.inj hnote
  decide

theorem invite_codec_studio : ∃ encoded,
    encodeInvite storedPlatform (.ofJson studioInvite.toJson) = .ok encoded ∧
      decodeInvite storedPlatform encoded = .ok studioInvite :=
  (invite_codec storedPlatform_lossless).1 _ _ studioInvite_valid.accepted

end Senn.Invite
