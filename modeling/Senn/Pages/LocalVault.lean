import Senn.Addon.BinaryNet
import Senn.Js.Btoa

/-! # The local-vault add-on

Its page puts files into the storage of the add-on, sends the peer one of those that it lists, with
its name in front of its bytes, and keeps those that the peer sends until they are saved. Files come
in whole, in order and at most once; and whatever a page stores, gets or downloads, someone has
picked it, byte for byte. -/

namespace Senn.Pages

open Senn.Js Senn.Lib Senn.Addon
open Senn.Lib.Pipe (Side Seen puts takes)

def KEY_PREFIX : JsString := js "vault/"
def PEER_BIN_MAX_BYTES : Nat := 4 * 1024 * 1024

/-- A file that the user picks. -/
structure PickedFile where
  name : JsString
  type : JsString
  bytes : Bytes

/-- A record of the storage. -/
structure VaultFile where
  name : JsString
  type : JsString
  size : Nat
  b64 : JsString

/-- A file of the peer, as the button that saves it has it. -/
structure Received where
  name : JsString
  mime : JsString
  body : Bytes

/-- The page: the files that it lists, each with its key, and those of the peer. The lines that it
shows are left out. -/
structure LocalVault where
  initialized : Bool
  list : List (JsString × VaultFile)
  inbox : List Received

/-- `keysListed` and `fetched` are what `refreshList` goes on with, when `storage.list` and a
`storage.get` have resolved; the others but `init` are the buttons. -/
inductive VaultInput where
  | init
  | keysListed
  | fetched (key : JsString) (file : VaultFile)
  | add (file : Option PickedFile)
  | download (i : Nat)
  | send (i : Nat)
  | delete (i : Nat)
  | save (i : Nat)

inductive VaultOut where
  | put (key : JsString) (file : VaultFile)
  | delete (key : JsString)
  | post (msg : Data)
  | download (name type : JsString) (bytes : Bytes)

def bytesToBase64 (bytes : Bytes) : Option JsString := btoa (binaryString bytes)

def base64ToBytes (b64 : JsString) : Option Bytes := (atob b64).map (·.map UInt16.toUInt8)

/-- `type || "application/octet-stream"` -/
def orOctets (type : JsString) : JsString :=
  if type = [] then js "application/octet-stream" else type

/-- The message of `senn.peer.sendBinary({ mime, bytes })`. -/
def sendBinaryPost (mime : JsString) (bytes : Bytes) : Data :=
  .obj [(js "kind", .str ADDON_BRIDGE_KIND), (js "op", .str (js "send-bin")),
    (js "mime", .str (orOctets mime)), (js "bytes", .bytes bytes)]

/-- What `sendToPeer` hands to the SDK: a header of two bytes, the lower one first, the name and the
bytes of the file. -/
def sendToPeer (file : VaultFile) : Option (JsString × Bytes) := do
  let bytes ← base64ToBytes file.b64
  if bytes.length > PEER_BIN_MAX_BYTES then none
  else
    let nameBytes := utf8Encode file.name
    if nameBytes.length > 255 then none
    else
      let frame := [UInt8.ofNat nameBytes.length, UInt8.ofNat (nameBytes.length / 256)] ++
        nameBytes ++ bytes
      if frame.length > PEER_BIN_MAX_BYTES then none else some (orOctets file.type, frame)

/-- The file in a message of the peer. -/
def handleIncoming (mime : JsString) (framedBytes : Bytes) : Option Received :=
  match framedBytes with
  | low :: high :: _ =>
    let nameLen := low.toNat + 256 * high.toNat
    if 2 + nameLen > framedBytes.length then none
    else some ⟨utf8Decode ((framedBytes.drop 2).take nameLen), mime, framedBytes.drop (2 + nameLen)⟩
  | _ => none

namespace PickedFile

/-- The record of a file that is added. -/
def record (file : PickedFile) : Option VaultFile :=
  (bytesToBase64 file.bytes).map fun b64 => ⟨file.name, file.type, file.bytes.length, b64⟩

end PickedFile

namespace Received

/-- The record of a file that is saved. -/
def record (file : Received) : Option VaultFile :=
  (bytesToBase64 file.body).map fun b64 => ⟨file.name, file.mime, file.body.length, b64⟩

end Received

namespace LocalVault

def new : LocalVault := ⟨false, [], []⟩

def downloadKey (file : VaultFile) : Option VaultOut :=
  (base64ToBytes file.b64).map fun bytes => .download file.name (orOctets file.type) bytes

def putRecord (record : Option VaultFile) : List VaultOut :=
  record.toList.map fun file => .put (KEY_PREFIX ++ file.name) file

def go (s : LocalVault) : VaultInput → LocalVault × List VaultOut
  | .init => ({ s with initialized := true }, [])
  | .keysListed => ({ s with list := [] }, [])
  | .fetched key file => ({ s with list := s.list ++ [(key, file)] }, [])
  | .add none => (s, [])
  | .add (some file) =>
    if !s.initialized then (s, [])
    else if file.bytes.length > 700 * 1024 then (s, [])
    else (s, putRecord file.record)
  | .download i => (s, ((s.list[i]?).bind fun e => downloadKey e.2).toList)
  | .send i =>
    (s, ((s.list[i]?).bind fun e => sendToPeer e.2).toList.map fun req =>
      .post (sendBinaryPost req.1 req.2))
  | .delete i => (s, (s.list[i]?).toList.map fun e => .delete e.1)
  | .save i => (s, putRecord ((s.inbox[i]?).bind Received.record))

/-- `senn.on("deliver-bin", …)` -/
def onDeliverBin (s : LocalVault) (parcel : JsString × Bytes) : LocalVault :=
  { s with inbox := s.inbox ++ (handleIncoming parcel.1 parcel.2).toList }

end LocalVault

/-! ## A file on its way -/

/-- The name that the peer reads. -/
def heardName (name : JsString) : JsString := utf8Decode (utf8Encode name)

/-- What the peer makes of a file that is sent. -/
def received (file : VaultFile) : Option Received := do
  let _ ← sendToPeer file
  let bytes ← base64ToBytes file.b64
  return ⟨heardName file.name, orOctets file.type, bytes⟩

theorem base64ToBytes_bytesToBase64 (bytes : Bytes) :
    ∃ b64, bytesToBase64 bytes = some b64 ∧ base64ToBytes b64 = some bytes := by
  obtain ⟨b64, hencode, hdecode⟩ := btoa_binaryString bytes
  exact ⟨b64, hencode, by rw [base64ToBytes, hdecode, Option.map_some, map_toUInt8_binaryString]⟩

theorem orOctets_idem (type : JsString) : orOctets (orOctets type) = orOctets type := by
  unfold orOctets
  by_cases h : type = []
  · rw [if_pos h, if_neg (by decide)]
  · rw [if_neg h, if_neg h]

/-- The frame of a name and of bytes holds both. -/
theorem handleIncoming_frame (mime : JsString) {name bytes : Bytes} (h : name.length ≤ 255) :
    handleIncoming mime ([UInt8.ofNat name.length, UInt8.ofNat (name.length / 256)] ++ name ++ bytes)
      = some ⟨utf8Decode name, mime, bytes⟩ := by
  have hlen : (UInt8.ofNat name.length).toNat + 256 * (UInt8.ofNat (name.length / 256)).toNat =
      name.length := by
    simp only [UInt8.toNat_ofNat']
    omega
  simp only [handleIncoming, List.cons_append, List.nil_append, hlen]
  rw [if_neg (by simp only [List.length_cons, List.length_append]; omega)]
  simp [Nat.add_comm 2]

/-- What is sent is read as what it was. -/
theorem sendToPeer_received (file : VaultFile) :
    ((sendToPeer file).bind fun req => handleIncoming req.1 req.2) = received file := by
  unfold received
  cases hsend : sendToPeer file with
  | none => rfl
  | some req =>
    unfold sendToPeer at hsend
    cases hbytes : base64ToBytes file.b64 with
    | none => simp [hbytes] at hsend
    | some bytes =>
      simp only [hbytes, Option.bind_eq_bind, Option.bind_some] at hsend ⊢
      split at hsend
      · cases hsend
      split at hsend
      · cases hsend
      · next hname =>
        split at hsend
        · cases hsend
        · obtain rfl := Option.some.inj hsend
          exact handleIncoming_frame _ (not_lt.mp hname)

/-! ## Where files come from -/

/-- A name that a peer reads as it is. -/
def PlainName (name : JsString) : Prop := wellFormed name = true ∧ name.head? ≠ some 0xFEFF

/-- A name and a type, both those of a file that was picked, if the peer reads its name as it is and
it has a type. -/
structure PickedFile.Labels (file : PickedFile) (name type : JsString) : Prop where
  name : PlainName file.name → name = file.name
  type : type = file.type ∨ file.type = [] ∧ type = orOctets []

/-- The record holds a file that was picked. -/
def VaultFile.Of (known : PickedFile → Prop) (file : VaultFile) : Prop :=
  ∃ p, known p ∧ p.Labels file.name file.type ∧ file.size = p.bytes.length ∧
    bytesToBase64 p.bytes = some file.b64

def Received.Of (known : PickedFile → Prop) (file : Received) : Prop :=
  ∃ p, known p ∧ p.Labels file.name file.mime ∧ file.body = p.bytes

/-- What the page puts out of files was picked. -/
def VaultOut.Of (known : PickedFile → Prop) : VaultOut → Prop
  | .put _ file => file.Of known
  | .download name type bytes => ∃ p, known p ∧ p.Labels name type ∧ bytes = p.bytes
  | _ => True

section
variable {known : PickedFile → Prop}

theorem PickedFile.Labels.orOctets {file : PickedFile} {name type : JsString}
    (h : file.Labels name type) : file.Labels name (orOctets type) := by
  refine ⟨h.name, ?_⟩
  obtain htype | ⟨hfile, htype⟩ := h.type
  · by_cases hnone : file.type = []
    · exact .inr ⟨hnone, by rw [htype, hnone]⟩
    · exact .inl (by rw [htype, Pages.orOctets, if_neg hnone])
  · exact .inr ⟨hfile, by rw [htype, orOctets_idem]⟩

theorem PickedFile.Labels.heard {file : PickedFile} {name type : JsString}
    (h : file.Labels name type) : file.Labels (heardName name) type := by
  refine ⟨fun hplain => ?_, h.type⟩
  rw [h.name hplain]
  exact utf8Decode_utf8Encode hplain.1 hplain.2

theorem VaultFile.Of.bytes {file : VaultFile} (h : file.Of known) : ∃ p, known p ∧
    p.Labels file.name file.type ∧ base64ToBytes file.b64 = some p.bytes := by
  obtain ⟨p, hp, hlabels, -, hb64⟩ := h
  obtain ⟨b64, hencode, hdecode⟩ := base64ToBytes_bytesToBase64 p.bytes
  obtain rfl := Option.some.inj (hencode.symm.trans hb64)
  exact ⟨p, hp, hlabels, hdecode⟩

theorem VaultFile.Of.received {file : VaultFile} (h : file.Of known) {r : Received}
    (hr : Pages.received file = some r) : r.Of known := by
  obtain ⟨p, hp, hlabels, hbytes⟩ := h.bytes
  unfold Pages.received at hr
  cases hsend : sendToPeer file with
  | none => simp [hsend] at hr
  | some req =>
    simp only [hsend, hbytes, Option.bind_eq_bind, Option.bind_some, Option.pure_def,
      Option.some.injEq] at hr
    exact hr ▸ ⟨p, hp, hlabels.heard.orOctets, rfl⟩

theorem Received.Of.record {file : Received} (h : file.Of known) {r : VaultFile}
    (hr : file.record = some r) : r.Of known := by
  obtain ⟨p, hp, hlabels, hbody⟩ := h
  obtain ⟨b64, hencode, rfl⟩ := Option.map_eq_some_iff.mp hr
  rw [hbody] at hencode
  exact ⟨p, hp, hlabels, congrArg List.length hbody, hencode⟩

theorem PickedFile.record_of {file : PickedFile} (h : known file) {r : VaultFile}
    (hr : file.record = some r) : r.Of known := by
  obtain ⟨b64, hencode, rfl⟩ := Option.map_eq_some_iff.mp hr
  exact ⟨file, h, ⟨fun _ => rfl, .inl rfl⟩, rfl, hencode⟩

end

/-! ## Two vaults -/

def VaultOut.post? : VaultOut → Option Data
  | .post msg => some msg
  | _ => none

def VaultOut.put? : VaultOut → Option VaultFile
  | .put _ file => some file
  | _ => none

/-- The vault on both sides of a session, among other add-ons: its pages, what they have posted to
the windows of their hosts, and the records that they have put into their storages. -/
structure Vaults (κ : Type*) where
  net : BinaryNet (Option κ)
  page : Side → LocalVault
  posts : Side → List Data
  stored : Side → List VaultFile

namespace Vaults

inductive Move (κ : Type*) where
  | act (s : Side) (input : VaultInput)
  | window (s : Side) (now : Nat) (link : BinaryLink)    -- the next message of a page, at its host
  | net (move : BinaryNet.Move (Option κ))

/-- What a page puts out, or what the net shows of an add-on. -/
inductive Out (κ : Type*) where
  | page (s : Side) (out : VaultOut)
  | net (e : Option κ × Seen (JsString × Bytes))

variable {κ : Type*} [DecidableEq κ] (hosts : List (Option κ)) (window : Side → Window)

/-- The net moves on; the pages hear what is posted to them. -/
def crossed (w : Vaults κ) (move : BinaryNet.Move (Option κ)) : Vaults κ × List (Out κ) :=
  let r := w.net.step hosts move
  ({ w with
    net := r.1
    page := fun s => (takes s (Machine.of none r.2)).foldl LocalVault.onDeliverBin (w.page s) },
    r.2.map .net)

def step (w : Vaults κ) : Move κ → Vaults κ × List (Out κ)
  | .act s input =>
    let r := (w.page s).go input
    ({ w with
      page := Function.update w.page s r.1
      posts := Function.update w.posts s (w.posts s ++ r.2.filterMap VaultOut.post?)
      stored := Function.update w.stored s (w.stored s ++ r.2.filterMap VaultOut.put?) },
      r.2.map (.page s))
  | .window s now link =>
    match w.posts s with
    | [] => (w, [])
    | data :: rest =>
      { w with posts := Function.update w.posts s rest }.crossed hosts
        (.host (s, none) (.message (some (window s)) data now) link)
  | .net move => w.crossed hosts move

/-- The binary messages a page posts are all that its host hears of them, and what a page reads from
its storage it has put there. -/
def Fair (w : Vaults κ) : Move κ → Prop
  | .act s (.fetched _ file) => file ∈ w.stored s
  | .act _ _ => True
  | .window s _ _ => w.net.sendId s + 1 < 0xffffff
  | .net (.host (s, none) ev link) =>
    w.net.Fair (.host (s, none) ev link) ∧ (w.net.host (s, none)).heard ev ≠ some .sendBin
  | .net move => w.net.Fair move

/-- The host and the session take what the page posts, and nothing that is for the vault gets lost
in the net. -/
def Clear (w : Vaults κ) : Move κ → Prop
  | .act _ _ => True
  | .window s now link => ∀ data ∈ (w.posts s).head?,
    (w.net.step hosts (.host (s, none) (.message (some (window s)) data now) link)).2 ≠ []
  | .net move => w.net.Clear none move

/-- The file that a page tries to send in a move. -/
def sent (s : Side) (w : Vaults κ) : Move κ → List VaultFile
  | .act t (.send i) => if t = s then ((w.page s).list[i]?).toList.map Prod.snd else []
  | _ => []

/-! ## The net in it -/

/-- The move of the net. -/
def moved (w : Vaults κ) : Move κ → List (BinaryNet.Move (Option κ))
  | .act _ _ => []
  | .window s now link => (w.posts s).head?.toList.map fun data =>
    .host (s, none) (.message (some (window s)) data now) link
  | .net move => [move]

/-- What the net shows of the vault. -/
def seen (outs : List (Out κ)) : List (Seen (JsString × Bytes)) :=
  Machine.of none (outs.filterMap fun
    | .net e => some e
    | .page _ _ => none)

theorem seen_append (a b : List (Out κ)) : seen (a ++ b) = seen a ++ seen b := by
  simp [seen]

theorem seen_net (es : List (Option κ × Seen (JsString × Bytes))) :
    seen (es.map Out.net) = Machine.of none es := by
  simp [seen, List.filterMap_map, Function.comp_def]

theorem seen_page (s : Side) (outs : List VaultOut) :
    seen (outs.map (Out.page s) : List (Out κ)) = [] := by
  simp [seen, List.filterMap_map, Function.comp_def]

end Vaults

end Senn.Pages
