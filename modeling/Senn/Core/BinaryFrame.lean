import Senn.Js.JsonRoundTrip

/-! # Frames of `core.bin`

A frame is a little-endian length, a JSON header of that length and a body.
`encodeFrame` builds one as `PeerSession.sendOneFrame` does and `decodeFrame`
is what `PeerSession.handleBinaryFrame` makes of a received buffer before any
state is touched. The two are inverse on every frame that fits the wire. -/

namespace Senn.Core
open Senn.Js

def BIN_FRAME_MAX_BYTES : Nat := 64 * 1024
def BIN_BODY_PER_FRAME : Nat := 60 * 1024
def BIN_MESSAGE_MAX_BYTES : Nat := 4 * 1024 * 1024
def BIN_REASSEMBLY_BUDGET_BYTES : Nat := 16 * 1024 * 1024
def BIN_REASSEMBLY_TIMEOUT_MS : Nat := 60000

/-- `PeerSessionBinaryMessage` -/
structure BinaryMessage where
  addon : JsString
  mime : JsString
  bytes : Bytes
deriving DecidableEq

/-- The arguments of `handleChunk`: one frame of a message of several frames. -/
structure Chunk where
  addon : JsString
  mime : JsString
  id : JsString
  seq : Number
  total : Number
  body : Bytes
deriving DecidableEq

/-- The errors a session reports about `core.bin`, with what their texts quote. -/
inductive BinError where
  | unexpectedNonBinary
  | tooShort
  | headerLenOutOfRange
  | headerParse
  | headerSchema
  | sizeMismatch
  | seqTotalOutOfRange
  | totalMimeMismatch
  | exceedsCap (bytes : Nat)
  | overflowDropped (addon id : JsString)
  | timeoutDropped (addon id : JsString)
deriving DecidableEq

/-- The message of the `Error`; the engine's own text of a SyntaxError is left out. -/
def BinError.text : BinError → JsString
  | .unexpectedNonBinary => js "PeerSession.bin: unexpected non-binary frame"
  | .tooShort => js "PeerSession.bin: frame too short for header_len"
  | .headerLenOutOfRange => js "PeerSession.bin: header_len out of range"
  | .headerParse => js "PeerSession.bin: header parse: "
  | .headerSchema => js "PeerSession.bin: header schema invalid"
  | .sizeMismatch => js "PeerSession.bin: header.size != body length"
  | .seqTotalOutOfRange => js "PeerSession.bin: seq/total out of range"
  | .totalMimeMismatch => js "PeerSession.bin: chunk total/mime mismatch within message"
  | .exceedsCap bytes => js "PeerSession.bin: message exceeds cap (" ++ natText 10 bytes ++
      js "B > " ++ natText 10 BIN_MESSAGE_MAX_BYTES ++ js "B)"
  | .overflowDropped addon id =>
      js "PeerSession.bin: reassembly-overflow dropped " ++ addon ++ js "/" ++ id
  | .timeoutDropped addon id =>
      js "PeerSession.bin: reassembly-timeout dropped " ++ addon ++ js "/" ++ id

/-- An exception that leaves the handler. -/
inductive JsError where
  | typeError
  | rangeError
deriving DecidableEq

/-- What a received buffer is, before any state is touched. -/
inductive Decoded where
  | bad (e : BinError)
  | throws (e : JsError)
  | whole (m : BinaryMessage)
  | chunk (c : Chunk)
deriving DecidableEq

/-- `view.getUint32(0, true)` -/
def readU32 (b0 b1 b2 b3 : UInt8) : Nat :=
  b0.toNat + b1.toNat * 0x100 + b2.toNat * 0x10000 + b3.toNat * 0x1000000

/-- `view.setUint32(0, n, true)` -/
def writeU32 (n : Nat) : Bytes :=
  [UInt8.ofNat (n % 0x100), UInt8.ofNat (n / 0x100 % 0x100), UInt8.ofNat (n / 0x10000 % 0x100),
    UInt8.ofNat (n / 0x1000000 % 0x100)]

/-- The header once it parsed, and the body after it. -/
def decodeHeader (header : Json) (body : Bytes) : Decoded :=
  match header with
  | .null => .throws .typeError   -- `header.v` of null
  | header =>
    match header.get? (js "v"), header.get? (js "addon"), header.get? (js "mime"),
      header.get? (js "size") with
    | some (.num v), some (.str addon), some (.str mime), some (.num size) =>
      if !v.eq (.ofNat 1) || addon = [] then .bad .headerSchema
      else if !size.eq (.ofNat body.length) then .bad .sizeMismatch
      else
        match header.get? (js "id"), header.get? (js "seq"), header.get? (js "total") with
        | some (.str id), some (.num seq), some (.num total) =>
          if (Number.ofNat 1).lt total then .chunk ⟨addon, mime, id, seq, total, body⟩
          else .whole ⟨addon, mime, body⟩
        | _, _, _ => .whole ⟨addon, mime, body⟩
    | _, _, _, _ => .bad .headerSchema

def decodeFrame (buf : Bytes) : Decoded :=
  match buf with
  | b0 :: b1 :: b2 :: b3 :: rest =>
    let headerLen := readU32 b0 b1 b2 b3
    if headerLen = 0 ∨ 4 + headerLen > buf.length then .bad .headerLenOutOfRange
    else
      match Json.parse (utf8Decode (rest.take headerLen)) with
      | none => .bad .headerParse
      | some header => decodeHeader header (rest.drop headerLen)
  | _ => .bad .tooShort

/-- The options of `sendOneFrame`. -/
structure FrameOpts where
  addon : JsString
  mime : JsString
  body : Bytes
  id : Option JsString := none
  seq : Option Nat := none
  total : Option Nat := none

def FrameOpts.header (opts : FrameOpts) : Json := .obj <|
  [(js "v", .num (.ofNat 1)), (js "addon", .str opts.addon), (js "mime", .str opts.mime),
    (js "size", .num (.ofNat opts.body.length))] ++
  (opts.id.map fun id => (js "id", Json.str id)).toList ++
  (opts.seq.map fun seq => (js "seq", Json.num (.ofNat seq))).toList ++
  (opts.total.map fun total => (js "total", Json.num (.ofNat total))).toList

def FrameOpts.headerBytes (opts : FrameOpts) : Bytes := utf8Encode opts.header.stringify

def FrameOpts.frameLen (opts : FrameOpts) : Nat :=
  4 + opts.headerBytes.length + opts.body.length

/-- The frame `sendOneFrame` hands to the channel; `none` where it throws instead. -/
def encodeFrame (opts : FrameOpts) : Option Bytes :=
  if opts.frameLen > BIN_FRAME_MAX_BYTES then none
  else some (writeU32 opts.headerBytes.length ++ opts.headerBytes ++ opts.body)

/-! ## Reading back what was written -/

theorem readU32_writeU32 {n : Nat} (h : n < 2 ^ 32) :
    readU32 (UInt8.ofNat (n % 0x100)) (UInt8.ofNat (n / 0x100 % 0x100))
      (UInt8.ofNat (n / 0x10000 % 0x100)) (UInt8.ofNat (n / 0x1000000 % 0x100)) = n := by
  simp only [readU32, UInt8.toNat_ofNat']
  omega

theorem encodeFrame_length {opts : FrameOpts} {buf : Bytes} (h : encodeFrame opts = some buf) :
    buf.length = opts.frameLen ∧ opts.frameLen ≤ BIN_FRAME_MAX_BYTES := by
  unfold encodeFrame at h
  split at h
  · cases h
  · next hle =>
    cases h
    refine ⟨?_, Nat.le_of_not_lt hle⟩
    simp only [List.length_append, FrameOpts.frameLen, writeU32, List.length_cons, List.length_nil]

theorem utf8Encode_ne_nil {s : JsString} (h : s ≠ []) : utf8Encode s ≠ [] := by
  intro he
  have hm := congrArg (List.map UInt8.toNat) he
  rw [map_toNat_utf8Encode] at hm
  have hc : ∀ c, utf8 c ≠ [] := by
    intro c
    unfold utf8
    split
    · simp
    split
    · simp
    split <;> simp
  match s, h with
  | [u], _ => exact hc _ (by simpa [scalars] using hm)
  | u :: v :: r, _ =>
    rw [scalars] at hm
    split at hm
    · exact hc _ (List.append_eq_nil_iff.mp hm).1
    · exact hc _ (List.append_eq_nil_iff.mp hm).1

/-- The numbers of a header are read back. -/
def FrameOpts.Small (opts : FrameOpts) : Prop :=
  (∀ n, opts.seq = some n → n ≤ 2 ^ 53) ∧ ∀ n, opts.total = some n → n ≤ 2 ^ 53

theorem header_keys_nodup (opts : FrameOpts) : ∀ ms, opts.header = .obj ms →
    (ms.map Prod.fst).Nodup := by
  intro ms hms
  have hopt : ∀ {α : Type} (o : Option α) (k : JsString) (f : α → Json),
      ((o.map fun a => (k, f a)).toList.map Prod.fst).Sublist [k] := by
    intro α o k f
    cases o <;> simp
  rw [FrameOpts.header, Json.obj.injEq] at hms
  rw [← hms, List.map_append, List.map_append, List.map_append]
  refine List.Nodup.sublist (((List.Sublist.refl _).append (hopt opts.id _ _)).append
    (hopt opts.seq _ _) |>.append (hopt opts.total _ _)) ?_
  show List.Nodup [js "v", js "addon", js "mime", js "size", js "id", js "seq", js "total"]
  decide

theorem header_exact {opts : FrameOpts} (hs : opts.Small) (hb : opts.body.length ≤ 2 ^ 53) :
    opts.header.Exact := by
  refine ⟨header_keys_nodup opts _ rfl, exactMembers_iff.mpr ?_⟩
  intro m hm
  simp only [List.mem_append, List.mem_cons, List.not_mem_nil, or_false, Option.mem_toList,
    Option.map_eq_some_iff] at hm
  rcases hm with ((h | ⟨id, _, rfl⟩) | ⟨seq, hseq, rfl⟩) | ⟨total, htotal, rfl⟩
  · rcases h with rfl | rfl | rfl | rfl
    · exact readsBack_ofNat (n := 1) (by decide)
    · trivial
    · trivial
    · exact readsBack_ofNat hb
  · trivial
  · exact readsBack_ofNat (hs.1 seq hseq)
  · exact readsBack_ofNat (hs.2 total htotal)

/-- `handleBinaryFrame` reads the header `sendOneFrame` wrote. -/
theorem decodeFrame_encodeFrame {opts : FrameOpts} {buf : Bytes} (hs : opts.Small)
    (h : encodeFrame opts = some buf) : decodeFrame buf = decodeHeader opts.header opts.body := by
  obtain ⟨hlen, hle⟩ := encodeFrame_length h
  unfold encodeFrame at h
  split at h
  · cases h
  have hbuf := Option.some.inj h
  have hb : opts.headerBytes.length + opts.body.length ≤ 65532 := by
    simp only [FrameOpts.frameLen, BIN_FRAME_MAX_BYTES] at hle
    omega
  have hparse : Json.parse (utf8Decode opts.headerBytes) = some opts.header := by
    rw [FrameOpts.headerBytes, utf8Decode_stringify]
    exact parse_stringify (header_exact hs (by omega))
  have hne : opts.headerBytes.length ≠ 0 := by
    intro h0
    refine utf8Encode_ne_nil ?_ (List.length_eq_zero_iff.mp h0)
    intro hnil
    obtain ⟨u, t, ht, _⟩ := opens_stringify opts.header (header_exact hs (by omega)) []
    rw [hnil] at ht
    cases ht
  have hu := readU32_writeU32 (n := opts.headerBytes.length) (by omega)
  simp only [writeU32, List.cons_append, List.nil_append] at hbuf
  subst hbuf
  simp only [decodeFrame, hu, List.length_cons, List.length_append, List.take_left', hparse,
    List.drop_left']
  rw [if_neg (by omega)]

theorem num_eq_self (n : Nat) : (Number.ofNat n).eq (.ofNat n) = true := by
  simp [Number.ofNat]

/-- A header without `id`, `seq` and `total` is a whole message. -/
theorem decodeHeader_whole {opts : FrameOpts} (ha : opts.addon ≠ []) (hid : opts.id = none)
    (hseq : opts.seq = none) (htotal : opts.total = none) :
    decodeHeader opts.header opts.body = .whole ⟨opts.addon, opts.mime, opts.body⟩ := by
  obtain ⟨addon, mime, body, id, seq, total⟩ := opts
  subst hid hseq htotal
  have hv : (FrameOpts.header ⟨addon, mime, body, none, none, none⟩).get? (js "v") =
      some (.num (.ofNat 1)) := rfl
  have haddon : (FrameOpts.header ⟨addon, mime, body, none, none, none⟩).get? (js "addon") =
      some (.str addon) := rfl
  have hmime : (FrameOpts.header ⟨addon, mime, body, none, none, none⟩).get? (js "mime") =
      some (.str mime) := rfl
  have hsize : (FrameOpts.header ⟨addon, mime, body, none, none, none⟩).get? (js "size") =
      some (.num (.ofNat body.length)) := rfl
  have hnoid : (FrameOpts.header ⟨addon, mime, body, none, none, none⟩).get? (js "id") = none := rfl
  unfold decodeHeader
  split
  · next h => cases h
  · simp only [hv, haddon, hmime, hsize, hnoid, num_eq_self]
    rw [if_neg (by simpa using ha), if_neg (by simp)]

/-- A header with all three is a frame of a message of several frames. -/
theorem decodeHeader_chunk {opts : FrameOpts} {id : JsString} {seq total : Nat}
    (ha : opts.addon ≠ []) (hid : opts.id = some id) (hseq : opts.seq = some seq)
    (htotal : opts.total = some total) (hn : 1 < total) :
    decodeHeader opts.header opts.body =
      .chunk ⟨opts.addon, opts.mime, id, .ofNat seq, .ofNat total, opts.body⟩ := by
  obtain ⟨addon, mime, body, id', seq', total'⟩ := opts
  subst hid hseq htotal
  have hv : (FrameOpts.header ⟨addon, mime, body, some id, some seq, some total⟩).get? (js "v") =
      some (.num (.ofNat 1)) := rfl
  have haddon : (FrameOpts.header ⟨addon, mime, body, some id, some seq, some total⟩).get?
      (js "addon") = some (.str addon) := rfl
  have hmime : (FrameOpts.header ⟨addon, mime, body, some id, some seq, some total⟩).get?
      (js "mime") = some (.str mime) := rfl
  have hsize : (FrameOpts.header ⟨addon, mime, body, some id, some seq, some total⟩).get?
      (js "size") = some (.num (.ofNat body.length)) := rfl
  have hid : (FrameOpts.header ⟨addon, mime, body, some id, some seq, some total⟩).get?
      (js "id") = some (.str id) := rfl
  have hseq : (FrameOpts.header ⟨addon, mime, body, some id, some seq, some total⟩).get?
      (js "seq") = some (.num (.ofNat seq)) := rfl
  have htotal : (FrameOpts.header ⟨addon, mime, body, some id, some seq, some total⟩).get?
      (js "total") = some (.num (.ofNat total)) := rfl
  unfold decodeHeader
  split
  · next h => cases h
  · simp only [hv, haddon, hmime, hsize, hid, hseq, htotal, num_eq_self, Number.lt_ofNat]
    rw [if_neg (by simpa using ha), if_neg (by simp), if_pos (by simpa using hn)]

end Senn.Core
