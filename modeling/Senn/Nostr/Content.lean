import Senn.Js.Data

/-! # The content of Nostr events

`encryptV2` and `tryDecryptV2` around the cipher of `nostr-tools`, the plain
form of version 1, and the frames a relay sends. The cipher, the key derivation
of WebCrypto and the ids of `finalizeEvent` are parameters. -/

namespace Senn.Nostr
open Senn.Js

def SENN_NOSTR_KIND : Nat := 25556
def SENN_TAG_PREFIX : JsString := js "senn:"
def V2_SENTINEL : JsString := js "nv44"

/-- What the adapter has from its libraries. -/
structure Libraries where
  hkdf (ikm salt info : Bytes) : Bytes
  encrypt (plaintext : JsString) (key nonce : Bytes) : Option JsString   -- `none` where it throws
  decrypt (payload : JsString) (key : Bytes) : Option JsString
  eventId (createdAt : Nat) (tag content : JsString) : JsString

/-- Libraries under which every event has one id. -/
def oneId : Libraries where
  hkdf _ _ _ := []
  encrypt _ _ _ := none
  decrypt _ _ := none
  eventId _ _ _ := js "e0"

variable (L : Libraries)

def deriveRoomKey (roomId : JsString) : Bytes :=
  L.hkdf (utf8Encode roomId) (utf8Encode (js "senn-nip44-v1"))
    (utf8Encode (js "senn:nostr-signaling:v2"))

/-- `encryptV2`; the key is pinned to 32 bytes. -/
def encryptV2 (message : Json) (roomKey nonce : Bytes) : Option JsString :=
  if roomKey.length = 32 then L.encrypt (V2_SENTINEL ++ message.stringify) roomKey nonce else none

inductive V2DecryptResult where
  | v2 (message : Json)
  | v2NoSentinel
  | decryptFail

/-- The string a value of a frame is, when it is one. -/
def string? : Option Json → Option JsString
  | some (.str s) => some s
  | _ => none

/-- `tryDecryptV2`; `none` is the exception about the length of the key. The
cipher throws on a payload that is no string. -/
def tryDecryptV2 (content : Option Json) (roomKey : Bytes) : Option V2DecryptResult :=
  if roomKey.length = 32 then
    match (string? content).bind fun payload => L.decrypt payload roomKey with
    | none => some .decryptFail
    | some plaintext =>
      if V2_SENTINEL.isPrefixOf plaintext then
        match Json.parse (plaintext.drop V2_SENTINEL.length) with
        | some message => some (.v2 message)
        | none => some .v2NoSentinel
      else some .v2NoSentinel
  else none

/-- `JSON.parse(content)` in its `try`. -/
def parsePlain (content : Option Json) : Option Json :=
  match content with
  | none => Json.parse (js "undefined")
  | some content => (Data.ofJson content).text.bind Json.parse

/-- `decodeContent` once the key of the room is there. -/
def decodeV2 (content : Option Json) (roomKey : Bytes) : Option Json :=
  match tryDecryptV2 L content roomKey with
  | some (.v2 message) => some message
  | some .v2NoSentinel => none
  | some .decryptFail => parsePlain content
  | none => none

/-- `encodeContent` in an adapter whose known-answer test has passed. -/
def encodeContent (v2Enabled : Bool) (roomId : JsString) (message : Json) (nonce : Bytes) :
    Option JsString :=
  if v2Enabled then encryptV2 L message (deriveRoomKey L roomId) nonce
  else some message.stringify

/-- `decodeContent` in such an adapter; `none` is an exception. -/
def decodeContent (v2Enabled : Bool) (roomId : JsString) (content : Option Json) :
    Option (Option Json) :=
  if v2Enabled then
    match tryDecryptV2 L content (deriveRoomKey L roomId) with
    | some (.v2 message) => some (some message)
    | some .v2NoSentinel => some none
    | some .decryptFail => some (parsePlain content)
    | none => none
  else some (parsePlain content)

/-- A frame of a relay the adapter reacts to. -/
inductive RelayFrame where
  | event (subId : JsString) (event : Json)
  | ok (eventId : JsString) (ok : Bool) (msg : Option JsString)

/-- `Boolean(v)` of a parsed value, or of a missing one. -/
def truthy : Option Json → Bool
  | none => false
  | some v => (Data.ofJson v).truthy

/-- `onRelayMessage` up to where it tells the frames apart. -/
def relayFrame? (data : JsString) : Option RelayFrame :=
  match Json.parse data with
  | some (.arr frame) =>
    let tag := string? frame[0]?
    if tag = some (js "EVENT") then
      match string? frame[1]?, (frame[2]? : Option Json) with
      | some subId, some event =>
        if (Data.ofJson event).isObject then some (.event subId event) else none
      | _, _ => none
    else if tag = some (js "OK") then
      (string? frame[1]?).map fun eventId => .ok eventId (truthy frame[2]?) (string? frame[3]?)
    else none
  | _ => none

/-- Two values are the same element of a `Set`; objects are their own. -/
def sameElement : Option Json → Option Json → Bool
  | none, none => true
  | some .null, some .null => true
  | some (.bool a), some (.bool b) => a = b
  | some (.num a), some (.num b) => a = b
  | some (.str a), some (.str b) => a = b
  | _, _ => false

end Senn.Nostr
