import Senn.Addon.Host
import Senn.Js.NumberText
import Senn.Protocol.Codec

/-! # What crosses the bridge

A payload goes from an add-on through its host as JSON text, and from the peer's host to the
add-on there. The window's messages carry more than JSON does: what is JSON data arrives as it
was sent, anything else does not. -/

namespace Senn.Js.Data

mutual
/-- A value that can be: its numbers are doubles, and no object has a key twice. -/
def Cloned : Data → Prop
  | .num (.fin q) => IsDouble (.fin q)
  | .obj ms => (ms.map Prod.fst).Nodup ∧ ClonedMembers ms
  | .arr xs _ => ClonedElems xs
  | _ => True
def ClonedElems : List Data → Prop
  | [] => True
  | x :: xs => Cloned x ∧ ClonedElems xs
def ClonedMembers : List (JsString × Data) → Prop
  | [] => True
  | (_, v) :: ms => Cloned v ∧ ClonedMembers ms
end

mutual
/-- JSON data: no `undefined`, no other number or object, and arrays of elements only. -/
def isJson : Data → Bool
  | .null | .bool _ | .num (.fin _) | .str _ => true
  | .arr xs ms => isJsons xs && ms.isEmpty
  | .obj ms => areJson ms
  | _ => false
def isJsons : List Data → Bool
  | [] => true
  | x :: xs => isJson x && isJsons xs
def areJson : List (JsString × Data) → Bool
  | [] => true
  | (_, v) :: ms => isJson v && areJson ms
end

mutual
/-- JSON data is what some JSON value is read as. -/
theorem exists_json : ∀ {v : Data}, v.Cloned → isJson v = true → ∃ j : Json, j.Proper ∧ ofJson j = v
  | .null, _, _ => ⟨.null, trivial, rfl⟩
  | .bool b, _, _ => ⟨.bool b, trivial, rfl⟩
  | .num (.fin q), hv, _ => ⟨.num (.fin q), hv, rfl⟩
  | .str s, _, _ => ⟨.str s, trivial, rfl⟩
  | .arr xs ms, hv, h => by
    rw [isJson, Bool.and_eq_true, List.isEmpty_iff] at h
    obtain ⟨hxs, rfl⟩ := h
    obtain ⟨js, hjs, rfl⟩ := exists_jsons hv hxs
    exact ⟨.arr js, hjs, rfl⟩
  | .obj ms, hv, h => by
    obtain ⟨js, hjs, rfl⟩ := exists_members hv.2 h
    refine ⟨.obj js, ⟨?_, hjs⟩, rfl⟩
    have hkeys := hv.1
    rwa [Protocol.ofMembers_map, List.map_map] at hkeys
theorem exists_jsons : ∀ {xs : List Data}, ClonedElems xs → isJsons xs = true →
    ∃ js : List Json, ProperElems js ∧ ofJsons js = xs
  | [], _, _ => ⟨[], trivial, rfl⟩
  | x :: xs, hv, h => by
    obtain ⟨hx, hxs⟩ := Bool.and_eq_true_iff.mp h
    obtain ⟨j, hj, rfl⟩ := exists_json hv.1 hx
    obtain ⟨js, hjs, rfl⟩ := exists_jsons hv.2 hxs
    exact ⟨j :: js, ⟨hj, hjs⟩, rfl⟩
theorem exists_members : ∀ {ms : List (JsString × Data)}, ClonedMembers ms → areJson ms = true →
    ∃ js : List (JsString × Json), ProperMembers js ∧ ofMembers js = ms
  | [], _, _ => ⟨[], trivial, rfl⟩
  | (k, v) :: ms, hv, h => by
    obtain ⟨hx, hms⟩ := Bool.and_eq_true_iff.mp h
    obtain ⟨j, hj, rfl⟩ := exists_json hv.1 hx
    obtain ⟨js, hjs, rfl⟩ := exists_members hv.2 hms
    exact ⟨(k, j) :: js, ⟨hj, hjs⟩, rfl⟩
end

mutual
theorem isJson_ofJson : ∀ {j : Json}, j.Exact → isJson (ofJson j) = true
  | .null, _ | .bool _, _ | .str _, _ => rfl
  | .num _, h => by
    obtain ⟨⟨q, rfl⟩, -⟩ := h
    rfl
  | .arr xs, h => by
    rw [ofJson, isJson, isJsons_ofJsons h]
    rfl
  | .obj ms, h => areJson_ofMembers h.2
theorem isJsons_ofJsons : ∀ {js : List Json}, ExactElems js → isJsons (ofJsons js) = true
  | [], _ => rfl
  | j :: js, h => by rw [ofJsons, isJsons, isJson_ofJson h.1, isJsons_ofJsons h.2]; rfl
theorem areJson_ofMembers : ∀ {js : List (JsString × Json)}, ExactMembers js →
    areJson (ofMembers js) = true
  | [], _ => rfl
  | (k, j) :: js, h => by rw [ofMembers, areJson, isJson_ofJson h.1, areJson_ofMembers h.2]; rfl
end

end Senn.Js.Data

namespace Senn.Addon.AddonHost
open Senn.Js Senn.Protocol

variable {s : AddonHost}

theorem newEnvelopeId_ne_nil (counter now : Nat) : (newEnvelopeId counter now).2 ≠ [] := by
  unfold newEnvelopeId
  simp [js]

/-- An envelope that a host makes is accepted. -/
theorem envelope_valid (h : s.manifest.Valid) {id : JsString} (hid : id ≠ []) (now : Nat)
    (payload : Data) : validateAddonEnvelope (s.envelope id now payload) =
      .ok ⟨id, s.manifest.id, s.manifest.version, now, payload⟩ := by
  simp [validateAddonEnvelope, envelope, validateMembers, stringMember, ownProperty, Data.hasOwn,
    Data.str?, Data.finite?, require, h.id, h.version, hid, js, Number.ofNat, ok_bind]

/-- The envelope as JSON. -/
def envelopeJson (s : AddonHost) (id : JsString) (now : Nat) (payload : Json) : Json :=
  .obj [(js "id", .str id), (js "kind", .str (js "addon.message")),
    (js "addon", .str s.manifest.id), (js "version", .str s.manifest.version),
    (js "createdAt", .num (.ofNat now)), (js "payload", payload)]

theorem envelopeJson_exact {id : JsString} {now : Nat} (hnow : now ≤ 2 ^ 53) {payload : Json}
    (h : payload.Exact) : (s.envelopeJson id now payload).Exact :=
  ⟨by simp [js], trivial, trivial, trivial, trivial, readsBack_ofNat hnow, h, trivial⟩

/-- The text of an envelope around JSON data is parsed to the envelope. -/
theorem tryParse_envelope (h : s.manifest.Valid) {id : JsString} (hid : id ≠ []) {now : Nat}
    (hnow : now ≤ 2 ^ 53) {payload : Json} (hpayload : payload.Exact) :
    tryParseAddonEnvelope (s.envelopeJson id now payload).stringify =
      some ⟨id, s.manifest.id, s.manifest.version, now, .ofJson payload⟩ := by
  have hread : Data.ofJson (s.envelopeJson id now payload) =
      s.envelope id now (.ofJson payload) := rfl
  have hkind : ((s.envelope id now (.ofJson payload)).get (js "kind")).str? =
      some (js "addon.message") := by
    simp [envelope, Data.get, ownProperty, Data.str?, js]
  rw [tryParseAddonEnvelope, parse_stringify (envelopeJson_exact hnow hpayload)]
  dsimp only
  rw [hread, hkind, envelope_valid h hid]
  rfl

theorem stringified_envelopeJson {id : JsString} {now : Nat} (hnow : now ≤ 2 ^ 53) {payload : Json}
    (h : payload.Exact) : stringified (s.envelope id now (.ofJson payload)) =
      some (s.envelopeJson id now payload).stringify := by
  have hexact : (s.envelopeJson id now payload).Exact := envelopeJson_exact hnow h
  have hjson := toJson_ofJson hexact
  have hread : Data.ofJson (s.envelopeJson id now payload) =
      s.envelope id now (.ofJson payload) := rfl
  rw [stringified, ← hread, hjson]
  rfl

/-! ## Sending -/

theorem handleSend_local (h : s.grants PEER_SEND = true) (hsession : s.options.session = none)
    (payload : Data) (now : Nat) : (s.handleSend payload now).2 = [.send payload] := by
  rw [handleSend, h, hsession]
  rfl

/-- What a host with a peer puts out: the text of the envelope, if there is one. -/
theorem handleSend_peer (h : s.grants PEER_SEND = true) (hmanifest : s.manifest.Valid)
    (hsession : s.options.session.isSome = true) (payload : Data) (now : Nat) :
    (s.handleSend payload now).2 = [.send payload,
      ((stringified (s.envelope (newEnvelopeId s.counter now).2 now payload)).map
        Out.sendText).getD .thrown] := by
  have hpeer : ¬s.options.session.isNone = true := by
    rw [Option.isNone_iff_eq_none]
    exact Option.isSome_iff_ne_none.mp hsession
  rw [handleSend, h, Bool.not_true, if_neg Bool.false_ne_true, if_neg hpeer]
  dsimp only
  rw [envelope_valid hmanifest (newEnvelopeId_ne_nil s.counter now)]
  cases stringified (s.envelope (newEnvelopeId s.counter now).2 now payload) <;> rfl

/-- What a peer's hosts do with a text: the one with the add-on's id delivers the payload, any
other does nothing. -/
structure Delivered (id : JsString) (payload : Data) (text : JsString) : Prop where
  own : ∀ peer : AddonHost, peer.manifest.id = id → peer.grants PEER_RECEIVE = true →
    peer.currentState = .active →
      peer.onSessionText text = peer.postToIframe (.deliver payload (some id))
  others : ∀ peer : AddonHost, peer.manifest.id ≠ id → peer.onSessionText text = []

/-- The text is read as the envelope around the payload that was sent at a time. -/
def Carried (s : AddonHost) (payload : Data) (now : Nat) (text : JsString) : Prop :=
  tryParseAddonEnvelope text = some ⟨(newEnvelopeId s.counter now).2, s.manifest.id,
    s.manifest.version, now, payload⟩ ∧ Delivered s.manifest.id payload text

/-- A payload survives the bridge: what is sent of it is read as it was validated and emitted,
and what is not JSON data is not sent but reported. -/
structure Survives (s : AddonHost) (payload : Data) (now : Nat) : Prop where
  emitted : .send payload ∈ (s.handleSend payload now).2
  carried : ∀ text, .sendText text ∈ (s.handleSend payload now).2 → s.Carried payload now text
  reported : s.options.session.isSome = true → payload.isJson = false →
    (∃ message, .error message ∈ (s.handleSend payload now).2) ∧
      ∀ text, .sendText text ∉ (s.handleSend payload now).2

theorem onSessionText_some {peer : AddonHost} {text : JsString} {envelope : AddonMessageEnvelope}
    (h : tryParseAddonEnvelope text = some envelope) : peer.onSessionText text =
      if envelope.addon ≠ peer.manifest.id then []
      else settled .error (peer.deliver envelope.payload (some envelope.addon)) := by
  rw [onSessionText, h]

theorem delivered_of_parsed {text : JsString} {envelope : AddonMessageEnvelope}
    (h : tryParseAddonEnvelope text = some envelope) :
    Delivered envelope.addon envelope.payload text where
  own := by
    intro peer hid hgrants hactive
    rw [onSessionText_some h, if_neg (not_not.mpr hid.symm), deliver, if_neg (not_not.mpr hactive),
      hgrants]
    rfl
  others := by
    intro peer hid
    rw [onSessionText_some h, if_pos (Ne.symm hid)]

/-- JSON data survives, and without a peer there is nothing to lose; no other payload does. -/
theorem survives_iff {payload : Data} {now : Nat} (hgrants : s.grants PEER_SEND = true)
    (hmanifest : s.manifest.Valid) (hpayload : payload.Cloned) (hnow : now ≤ 2 ^ 53) :
    s.Survives payload now ↔ payload.isJson = true ∨ s.options.session = none := by
  cases hsession : s.options.session with
  | none =>
    have houts := handleSend_local hgrants hsession payload now
    refine iff_of_true ⟨?_, ?_, ?_⟩ (.inr rfl)
    · rw [houts]
      exact .head _
    · intro text htext
      rw [houts] at htext
      simp at htext
    · intro hsome
      rw [hsession] at hsome
      cases hsome
  | some link =>
    have hsome : s.options.session.isSome = true := by rw [hsession]; rfl
    have houts := handleSend_peer hgrants hmanifest hsome payload now
    constructor
    · intro h
      refine .inl (by_contra fun hjson => ?_)
      obtain ⟨⟨message, hmessage⟩, -⟩ := h.reported hsome (Bool.eq_false_of_not_eq_true hjson)
      rw [houts] at hmessage
      cases hstringified : stringified (s.envelope (newEnvelopeId s.counter now).2 now payload) with
      | none => simp [hstringified] at hmessage
      | some text => simp [hstringified] at hmessage
    · intro h
      have hjson : payload.isJson = true := h.resolve_right (by simp)
      obtain ⟨json, hproper, rfl⟩ := Data.exists_json hpayload hjson
      have hid := newEnvelopeId_ne_nil s.counter now
      rw [stringified_envelopeJson hnow hproper.exact] at houts
      have hparsed := tryParse_envelope hmanifest hid hnow hproper.exact
      refine ⟨?_, fun text htext => ?_, fun _ hnot => ?_⟩
      · rw [houts]
        exact .head _
      · rw [houts] at htext
        have heq : text = (s.envelopeJson (newEnvelopeId s.counter now).2 now json).stringify := by
          simpa using htext
        rw [heq]
        exact ⟨hparsed, delivered_of_parsed hparsed⟩
      · rw [hjson] at hnot
        cases hnot

/-! ## An add-on with a peer -/

def chatManifest : AddonManifest where
  id := js "dev.senn.chat"
  name := js "Chat"
  version := js "0.1.0"
  entry := js "./index.html"
  license := js "Apache-2.0"
  permissions := [PEER_SEND, PEER_RECEIVE]
  capabilities := [.str (js "chat-v1")]

def chatHost : AddonHost :=
  loaded chatManifest ⟨some ⟨false⟩, false, none, none⟩ (js "s") (some 1)

theorem chatManifest_valid : chatManifest.Valid where
  id := by decide +kernel
  version := by decide +kernel
  permissions := by decide

theorem survives_greeting :
    (Data.str (js "hi")).Cloned ∧ chatHost.Survives (.str (js "hi")) 0 := by
  have hcloned : (Data.str (js "hi")).Cloned := trivial
  exact ⟨hcloned,
    (survives_iff (by decide) chatManifest_valid hcloned (Nat.zero_le _)).mpr (.inl rfl)⟩

/-- `NaN` is sent, and arrives as `null`; a bigint makes the handler throw. -/
theorem nan_arrives_as_null :
    ¬chatHost.Survives (.num .nan) 0 ∧
    (∃ text envelope, (chatHost.handleSend (.num .nan) 0).2 =
        [.send (.num .nan), .sendText text] ∧
      tryParseAddonEnvelope text = some envelope ∧ envelope.payload = .null) ∧
    (chatHost.handleSend (.bigint 1) 0).2 = [.send (.bigint 1), .thrown] := by
  have hgrants : chatHost.grants PEER_SEND = true := by decide
  have hid := newEnvelopeId_ne_nil chatHost.counter 0
  have houts := handleSend_peer hgrants chatManifest_valid rfl (.num .nan) 0
  have hnull : Json.null.Exact := trivial
  have hparsed := tryParse_envelope (s := chatHost) chatManifest_valid hid (Nat.zero_le _) hnull
  refine ⟨fun h => ?_, ⟨_, _, houts, hparsed, rfl⟩, ?_⟩
  · obtain ⟨⟨message, hmessage⟩, -⟩ := h.reported rfl rfl
    rw [houts] at hmessage
    have hpair : ∀ payload text, Out.error message ∉ [Out.send payload, .sendText text] := by
      simp
    exact hpair _ _ hmessage
  · exact handleSend_peer hgrants chatManifest_valid rfl (.bigint 1) 0

end Senn.Addon.AddonHost
