import Senn.Js.Data
import Senn.Lib.Digits
import Senn.Protocol.Ids

/-! # How ids are made

A room id is 16 random bytes, shifted left by two bits, as 26 digits of five bits; a peer id is
the time in ten digits and 10 random bytes in sixteen. Both are read back, and peer ids are in
the order of their times. -/

namespace Senn.Protocol
open Senn.Js Senn.Lib Senn.Lib.Digits

def ALPHABET : JsString := js "0123456789abcdefghjkmnpqrstvwxyz"

/-- `ALPHABET[n]` -/
def idDigit (n : Nat) : UInt16 := (ALPHABET[n]?).getD 0

/-- The loop that reads `n` bytes as one integer. -/
def readBytes (n : Nat) (bytes : Bytes) : Nat :=
  (List.range n).foldl (fun v i => v <<< 8 ||| ((bytes[i]?).getD 0).toNat) 0

/-- The loop that writes the digits number `n - 1` to 0 of an integer. -/
def writeDigits (n v : Nat) : JsString :=
  (List.range n).reverse.map fun i => idDigit ((v >>> (i * 5)) &&& 0x1f)

def encodeBase32_130 (bytes : Bytes) : Except JsString JsString :=
  if bytes.length ≠ 16 then .error (js "senn: expected 16 bytes")
  else
    let hi := readBytes 16 bytes
    .ok (writeDigits 26 (hi <<< 2))

/-- The loop that takes `n` digits off an integer, the lowest first. -/
def takeDigits : Nat → Nat → JsString
  | 0, _ => []
  | n + 1, ts => idDigit (ts &&& 0x1f) :: takeDigits n (ts >>> 5)

/-- `toNat?` is `none` for what is no integer or below zero. -/
def encodeUlid (timestampMs : Number) (random10 : Bytes) : Except JsString JsString :=
  if random10.length ≠ 10 then .error (js "senn: ulid randomness must be 10 bytes")
  else
    match timestampMs.toNat?.filter (· ≤ 0xffffffffffff) with
    | none => .error (js "senn: ulid timestamp out of range")
    | some ts =>
      let head := (takeDigits 10 ts).reverse
      let tail := writeDigits 16 (readBytes 10 random10)
      .ok (head ++ tail)

/-- `globalThis.crypto` -/
structure Crypto where
  getRandomValues : Nat → Bytes
  length_values : ∀ n, (getRandomValues n).length = n

def getCrypto : Option Crypto → Except JsString Crypto
  | some crypto => .ok crypto
  | none => .error (js "senn: Web Crypto (crypto.getRandomValues) is required")

def newRoomId (crypto : Option Crypto) : Except JsString JsString := do
  let crypto ← getCrypto crypto
  encodeBase32_130 (crypto.getRandomValues 16)

def newPeerId (crypto : Option Crypto) (now : Number) : Except JsString JsString := do
  let crypto ← getCrypto crypto
  encodeUlid now (crypto.getRandomValues 10)

/-! ## Digits -/

/-- The value of a digit. -/
def idDigitValue (u : UInt16) : Nat := ALPHABET.idxOf u

/-- The number that the characters of an id stand for. -/
def idValue (s : JsString) : Nat := value 32 (s.map idDigitValue)

/-- The number that bytes stand for. -/
def bytesValue (bytes : Bytes) : Nat := value 256 (bytes.map UInt8.toNat)

theorem idDigitValue_digit : ∀ n < 32, idDigitValue (idDigit n) = n := by decide

theorem isIdUnit_digit : ∀ n < 32, isIdUnit (idDigit n) = true := by decide

theorem idDigit_lt : ∀ n < 32, ∀ m < n, idDigit m < idDigit n := by decide

theorem digits_lt_32 (k n : Nat) : ∀ d ∈ digits 32 k n, d < 32 := fun _ hd =>
  digits_lt_base (by decide) hd

theorem matchesId_digits (n : Nat) : matchesId ((digits 32 26 n).map idDigit) = true := by
  rw [matchesId, List.length_map, length_digits, Bool.and_eq_true, List.all_eq_true]
  refine ⟨rfl, fun u hu => ?_⟩
  obtain ⟨d, hd, rfl⟩ := List.mem_map.mp hu
  exact isIdUnit_digit d (digits_lt_32 _ _ d hd)

theorem idValue_digits {k n : Nat} (hn : n < 32 ^ k) :
    idValue ((digits 32 k n).map idDigit) = n := by
  have hmap : (digits 32 k n).map (idDigitValue ∘ idDigit) = digits 32 k n := by
    conv_rhs => rw [← List.map_id (digits 32 k n)]
    exact List.map_congr_left fun d hd => idDigitValue_digit d (digits_lt_32 _ _ d hd)
  rw [idValue, List.map_map, hmap, value_digits, Nat.mod_eq_of_lt hn]

theorem bytes_lt_256 (bytes : Bytes) : ∀ d ∈ bytes.map UInt8.toNat, d < 256 := by
  intro d hd
  obtain ⟨u, -, rfl⟩ := List.mem_map.mp hd
  exact u.toNat_lt

theorem bytesValue_lt (bytes : Bytes) : bytesValue bytes < 256 ^ bytes.length := by
  have hlt := value_lt (bytes_lt_256 bytes)
  rwa [List.length_map] at hlt

theorem bytesValue_injective {a b : Bytes} (hlength : a.length = b.length)
    (h : bytesValue a = bytesValue b) : a = b := by
  have hmap := value_injective (bytes_lt_256 a) (bytes_lt_256 b) (by simpa using hlength) h
  exact List.map_injective_iff.mpr (fun _ _ => UInt8.toNat_inj.mp) hmap

/-! ## The loops -/

theorem readBytes_take (bytes : Bytes) : ∀ n ≤ bytes.length,
    readBytes n bytes = bytesValue (bytes.take n) := by
  intro n
  induction n with
  | zero => exact fun _ => rfl
  | succ n ih =>
    intro hn
    have hget : bytes[n]? = some bytes[n] := List.getElem?_eq_getElem hn
    have hstep : readBytes (n + 1) bytes =
        readBytes n bytes <<< 8 ||| ((bytes[n]?).getD 0).toNat := by
      rw [readBytes, List.range_succ, List.foldl_append]
      rfl
    have hbyte : bytes[n].toNat < 2 ^ 8 := UInt8.toNat_lt _
    rw [hstep, ih (by omega), hget, Option.getD_some, shiftLeft_or hbyte, bytesValue, bytesValue,
      ← List.take_append_getElem hn, List.map_append, value_append]
    simp [value]

theorem readBytes_eq {n : Nat} {bytes : Bytes} (h : bytes.length = n) :
    readBytes n bytes = bytesValue bytes := by
  rw [readBytes_take bytes n h.ge, List.take_of_length_le h.le]

theorem writeDigits_eq (n v : Nat) : writeDigits n v = (digits 32 n v).map idDigit := by
  induction n with
  | zero => rfl
  | succ n ih =>
    rw [writeDigits, List.range_succ, List.reverse_append, List.map_append, digits, List.map_cons,
      ← ih]
    exact congrArg (idDigit · :: _) (shiftRight_and v n 5)

theorem takeDigits_eq (n ts : Nat) :
    (takeDigits n ts).reverse = (digits 32 n ts).map idDigit := by
  induction n generalizing ts with
  | zero => rfl
  | succ n ih =>
    have hlow : ts &&& 0x1f = ts % 32 := Nat.and_two_pow_sub_one_eq_mod ts 5
    have hrest : ts >>> 5 = ts / 32 := Nat.shiftRight_eq_div_pow ts 5
    rw [takeDigits, List.reverse_cons, ih, digits_succ_last, List.map_append, hlow, hrest]
    rfl

/-! ## What the encoders return -/

theorem encodeBase32_130_ok {bytes : Bytes} (h : bytes.length = 16) : encodeBase32_130 bytes =
    .ok ((digits 32 26 (bytesValue bytes * 4)).map idDigit) := by
  rw [encodeBase32_130, if_neg (not_not.mpr h)]
  show Except.ok (writeDigits 26 (readBytes 16 bytes <<< 2)) = _
  rw [readBytes_eq h, writeDigits_eq, Nat.shiftLeft_eq]

theorem encodeUlid_ok {ts : Nat} {random : Bytes} (hts : ts < 2 ^ 48) (h : random.length = 10) :
    encodeUlid (.ofNat ts) random = .ok ((digits 32 10 ts).map idDigit ++
      (digits 32 16 (bytesValue random)).map idDigit) := by
  have hfilter : (Number.ofNat ts).toNat?.filter (· ≤ 0xffffffffffff) = some ts := by
    rw [Number.toNat?_ofNat, Option.filter_some, if_pos (decide_eq_true (by omega))]
  rw [encodeUlid, if_neg (not_not.mpr h), hfilter, readBytes_eq h, writeDigits_eq]
  exact congrArg (fun head => Except.ok (head ++ _)) (takeDigits_eq 10 ts)

/-- Only a time of 48 bits is encoded. -/
theorem encodeUlid_inv {now : Number} {random : Bytes} {id : JsString}
    (h : encodeUlid now random = .ok id) :
    random.length = 10 ∧ ∃ ts < 2 ^ 48, now = .ofNat ts := by
  unfold encodeUlid at h
  split at h
  · cases h
  · next hlength =>
    split at h
    · cases h
    · next ts hts =>
      obtain ⟨hnat, hle⟩ := Option.filter_eq_some_iff.mp hts
      refine ⟨not_not.mp hlength, ts, ?_, Number.toNat?_eq_some.mp hnat⟩
      have hle := of_decide_eq_true hle
      omega

theorem matchesId_ulid (ts v : Nat) :
    matchesId ((digits 32 10 ts).map idDigit ++ (digits 32 16 v).map idDigit) = true := by
  rw [matchesId, List.length_append, List.length_map, List.length_map, length_digits,
    length_digits, ← List.map_append, Bool.and_eq_true, List.all_eq_true]
  refine ⟨rfl, fun u hu => ?_⟩
  obtain ⟨d, hd, rfl⟩ := List.mem_map.mp hu
  rcases List.mem_append.mp hd with hd | hd
  · exact isIdUnit_digit d (digits_lt_32 _ _ d hd)
  · exact isIdUnit_digit d (digits_lt_32 _ _ d hd)

/-- The bytes that the characters of an id stand for. -/
def idBytes (n : Nat) (s : JsString) : Bytes := (digits 256 n (idValue s)).map UInt8.ofNat

theorem idBytes_digits {k : Nat} {bytes : Bytes} (h : 256 ^ bytes.length ≤ 32 ^ k) :
    idBytes bytes.length ((digits 32 k (bytesValue bytes)).map idDigit) = bytes := by
  have hdigits := digits_value (bytes_lt_256 bytes)
  rw [List.length_map] at hdigits
  rw [idBytes, idValue_digits (Nat.lt_of_lt_of_le (bytesValue_lt bytes) h), bytesValue, hdigits,
    List.map_map]
  conv_rhs => rw [← List.map_id bytes]
  exact List.map_congr_left fun u _ => UInt8.ofNat_toNat

/-- Random bytes of one length. -/
abbrev Random (n : Nat) := { bytes : Bytes // bytes.length = n }

/-- Milliseconds in 48 bits. -/
abbrev Timestamp := Fin (2 ^ 48)

theorem base32_injective (a b : Random 16)
    (h : encodeBase32_130 a.val = encodeBase32_130 b.val) : a = b := by
  have ha := bytesValue_lt a.val
  have hb := bytesValue_lt b.val
  rw [a.property] at ha
  rw [b.property] at hb
  rw [encodeBase32_130_ok a.property, encodeBase32_130_ok b.property] at h
  have hvalue := congrArg idValue (Except.ok.inj h)
  rw [idValue_digits (by omega), idValue_digits (by omega)] at hvalue
  exact Subtype.ext (bytesValue_injective (a.property.trans b.property.symm) (by omega))

/-- What the two parts of a peer id stand for. -/
theorem encodeUlid_parts (t : Timestamp) (r : Random 10) :
    ∃ id, encodeUlid (.ofNat t) r.val = .ok id ∧ matchesId id = true ∧
      idValue (id.take 10) = t ∧ idBytes 10 (id.drop 10) = r.val := by
  refine ⟨_, encodeUlid_ok t.isLt r.property, matchesId_ulid _ _, ?_, ?_⟩
  · rw [List.take_left' (by rw [List.length_map, length_digits]),
      idValue_digits (Nat.lt_of_lt_of_le t.isLt (by decide))]
  · rw [List.drop_left' (by rw [List.length_map, length_digits])]
    have hsize : 256 ^ r.val.length ≤ 32 ^ 16 := by
      rw [r.property]
      decide
    have hbytes := idBytes_digits hsize
    rwa [r.property] at hbytes

theorem encodeUlid_lt {t u : Timestamp} (h : t < u) (r q : Random 10) {id id' : JsString}
    (ht : encodeUlid (.ofNat t) r.val = .ok id) (hu : encodeUlid (.ofNat u) q.val = .ok id') :
    id < id' := by
  obtain rfl := Except.ok.inj ((encodeUlid_ok t.isLt r.property).symm.trans ht)
  obtain rfl := Except.ok.inj ((encodeUlid_ok u.isLt q.property).symm.trans hu)
  have hdigits : digits 32 10 t < digits 32 10 u :=
    digits_lt h (Nat.lt_of_lt_of_le u.isLt (by decide))
  have hhead := map_lt (fun m n hmn hn => idDigit_lt n hn m hmn) (digits_lt_32 10 u) hdigits
  exact append_lt_append (by rw [List.length_map, List.length_map, length_digits, length_digits])
    hhead

theorem newRoomId_ok (crypto : Crypto) :
    ∃ id, newRoomId (some crypto) = .ok id ∧ isRoomId id = true :=
  ⟨_, encodeBase32_130_ok (crypto.length_values 16), matchesId_digits _⟩

theorem newPeerId_inv {crypto : Option Crypto} {now : Number} {id : JsString}
    (h : newPeerId crypto now = .ok id) : isPeerId id = true := by
  obtain ⟨crypto, -, h⟩ := bind_ok h
  obtain ⟨hlength, ts, hts, rfl⟩ := encodeUlid_inv h
  obtain rfl := Except.ok.inj ((encodeUlid_ok hts hlength).symm.trans h)
  exact matchesId_ulid _ _

/-- Ids are faithful: the encodings are injective, a peer id is read back part by part, all ids
have the form of ids, and peer ids are in the order of their times. -/
theorem ids_faithful :
    (∀ a b : Random 16, encodeBase32_130 a.val = encodeBase32_130 b.val → a = b) ∧
    (∀ (t u : Timestamp) (r q : Random 10),
      encodeUlid (.ofNat t) r.val = encodeUlid (.ofNat u) q.val → t = u ∧ r = q) ∧
    (∀ (t : Timestamp) (r : Random 10), ∃ id, encodeUlid (.ofNat t) r.val = .ok id ∧
      matchesId id = true ∧ idValue (id.take 10) = t ∧ idBytes 10 (id.drop 10) = r.val) ∧
    (∀ a : Random 16, ∃ id, encodeBase32_130 a.val = .ok id ∧ matchesId id = true) ∧
    (∀ crypto : Crypto, ∃ id, newRoomId (some crypto) = .ok id ∧ isRoomId id = true) ∧
    (∀ (crypto : Crypto) (t : Timestamp), ∃ id, newPeerId (some crypto) (.ofNat t) = .ok id) ∧
    (∀ (crypto : Option Crypto) (now : Number) (id : JsString), newPeerId crypto now = .ok id →
      isPeerId id = true) ∧
    ∀ (t u : Timestamp) (r q : Random 10) (id id' : JsString), t < u →
      encodeUlid (.ofNat t) r.val = .ok id → encodeUlid (.ofNat u) q.val = .ok id' → id < id' := by
  refine ⟨base32_injective, fun t u r q h => ?_, encodeUlid_parts,
    fun a => ⟨_, encodeBase32_130_ok a.property, matchesId_digits _⟩, newRoomId_ok,
    fun crypto t => ⟨_, encodeUlid_ok t.isLt (crypto.length_values 10)⟩,
    fun _ _ _ => newPeerId_inv, fun t u r q id id' hlt => encodeUlid_lt hlt r q⟩
  obtain ⟨id, hid, -, ht, hr⟩ := encodeUlid_parts t r
  obtain ⟨id', hid', -, hu, hq⟩ := encodeUlid_parts u q
  obtain rfl := Except.ok.inj (hid.symm.trans (h.trans hid'))
  exact ⟨Fin.ext (ht.symm.trans hu), Subtype.ext (hr.symm.trans hq)⟩

example : newPeerId (some ⟨fun n => List.replicate n 0xFF, fun _ => List.length_replicate⟩)
    (.ofNat 1) = .ok (js "0000000001zzzzzzzzzzzzzzzz") := by decide

end Senn.Protocol
