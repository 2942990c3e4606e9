import Senn.Js.Base64Loops
import Senn.Protocol.Codec
import Senn.Protocol.Invite
import Senn.Signing.Signature

/-! # The copies of base64url

Which strings the decoder accepts, and which of them the encoder writes back: those whose
left-over bits are zero. The code is there three times, in `invite.ts`, `bundle.ts` and the
manifest package; the copies differ in the errors they throw. -/

namespace Senn.Js.Base64

/-! ## Accepted and canonical strings -/

/-- The low bits of the last digit that belong to no byte. -/
def unusedBits (s : JsString) : Nat :=
  let last := (s.getLast?.bind b64Lookup).getD 0
  if s.length % 4 = 2 then last % 16 else if s.length % 4 = 3 then last % 4 else 0

theorem unusedBits_group (a b c d : UInt16) (r : JsString) :
    unusedBits (a :: b :: c :: d :: r) = unusedBits r := by
  have hlength : (a :: b :: c :: d :: r).length % 4 = r.length % 4 := by
    simp only [List.length_cons]
    omega
  unfold unusedBits
  rw [hlength]
  cases r with
  | nil => rfl
  | cons u r => rfl

theorem b64Digit_lookup {u : UInt16} {n : Nat} (h : b64Lookup u = some n) : b64Digit n = u := by
  unfold b64Lookup at h
  dsimp only at h
  split at h
  · next hlt =>
    obtain rfl := Option.some.inj h
    rw [b64Digit, List.getElem?_eq_getElem hlt, Option.getD_some, List.getElem_idxOf]
  · cases h

theorem b64Digit_eq_iff {m n : Nat} {u : UInt16} (hm : m < 64) (hn : b64Lookup u = some n) :
    b64Digit m = u ↔ m = n := by
  constructor
  · rintro rfl
    exact Option.some.inj ((b64Lookup_digit m hm).symm.trans hn)
  · rintro rfl
    exact b64Digit_lookup hn

theorem byte_toNat {n : Nat} (hn : n < 256) : (UInt8.ofNat n).toNat = n := by
  rw [UInt8.toNat_ofNat']
  exact Nat.mod_eq_of_lt hn

theorem firstByte_toNat {a b : Nat} (ha : a < 64) (hb : b < 64) :
    (UInt8.ofNat (a * 4 + b / 16)).toNat = a * 4 + b / 16 := byte_toNat (by omega)

theorem secondByte_toNat {b c : Nat} (hc : c < 64) :
    (UInt8.ofNat (b % 16 * 16 + c / 4)).toNat = b % 16 * 16 + c / 4 := byte_toNat (by omega)

theorem thirdByte_toNat {c d : Nat} (hd : d < 64) :
    (UInt8.ofNat (c % 4 * 64 + d)).toNat = c % 4 * 64 + d := byte_toNat (by omega)

/-- The groups are decoded to three bytes for four digits, which are encoded as the same digits
when the left-over bits are zero. -/
theorem groups_exact : ∀ s : JsString, Digits s → s.length % 4 ≠ 1 →
    ∃ bytes, base64urlGroups s = .ok bytes ∧ bytes.length = 3 * s.length / 4 ∧
      (base64urlEncode bytes = s ↔ unusedBits s = 0)
  | [], _, _ => ⟨[], rfl, rfl, iff_of_true rfl rfl⟩
  | [_], _, hone => absurd rfl hone
  | [u, v], hs, _ => by
    obtain ⟨⟨a, ha⟩, hs⟩ := digits_cons hs
    obtain ⟨⟨b, hb⟩, -⟩ := digits_cons hs
    have ha64 := b64Lookup_lt ha
    have hb64 := b64Lookup_lt hb
    refine ⟨[UInt8.ofNat (a * 4 + b / 16)], by simp only [base64urlGroups, ha, hb], by simp, ?_⟩
    have hunused : unusedBits [u, v] = b % 16 := by simp [unusedBits, hb]
    rw [hunused, base64urlEncode, firstByte_toNat ha64 hb64, List.cons.injEq, List.cons.injEq,
      b64Digit_eq_iff (by omega) ha, b64Digit_eq_iff (by omega) hb, and_iff_left rfl]
    omega
  | [u, v, w], hs, _ => by
    obtain ⟨⟨a, ha⟩, hs⟩ := digits_cons hs
    obtain ⟨⟨b, hb⟩, hs⟩ := digits_cons hs
    obtain ⟨⟨c, hc⟩, -⟩ := digits_cons hs
    have ha64 := b64Lookup_lt ha
    have hb64 := b64Lookup_lt hb
    have hc64 := b64Lookup_lt hc
    refine ⟨[UInt8.ofNat (a * 4 + b / 16), UInt8.ofNat (b % 16 * 16 + c / 4)],
      by simp only [base64urlGroups, ha, hb, hc], by simp, ?_⟩
    have hunused : unusedBits [u, v, w] = c % 4 := by simp [unusedBits, hc]
    rw [hunused, base64urlEncode, firstByte_toNat ha64 hb64, secondByte_toNat hc64,
      List.cons.injEq, List.cons.injEq, List.cons.injEq, b64Digit_eq_iff (by omega) ha,
      b64Digit_eq_iff (by omega) hb, b64Digit_eq_iff (by omega) hc, and_iff_left rfl]
    omega
  | u :: v :: w :: x :: r, hs, hone => by
    obtain ⟨⟨a, ha⟩, hs⟩ := digits_cons hs
    obtain ⟨⟨b, hb⟩, hs⟩ := digits_cons hs
    obtain ⟨⟨c, hc⟩, hs⟩ := digits_cons hs
    obtain ⟨⟨d, hd⟩, hs⟩ := digits_cons hs
    have ha64 := b64Lookup_lt ha
    have hb64 := b64Lookup_lt hb
    have hc64 := b64Lookup_lt hc
    have hd64 := b64Lookup_lt hd
    simp only [List.length_cons] at hone ⊢
    obtain ⟨bytes, hbytes, hlength, hiff⟩ := groups_exact r hs (by omega)
    refine ⟨UInt8.ofNat (a * 4 + b / 16) :: UInt8.ofNat (b % 16 * 16 + c / 4) ::
      UInt8.ofNat (c % 4 * 64 + d) :: bytes, ?_, ?_, ?_⟩
    · simp only [base64urlGroups, ha, hb, hc, hd, hbytes]
      rfl
    · simp only [List.length_cons, hlength]
      omega
    · rw [unusedBits_group, ← hiff, base64urlEncode, firstByte_toNat ha64 hb64,
        secondByte_toNat hc64, thirdByte_toNat hd64, List.cons.injEq, List.cons.injEq,
        List.cons.injEq, List.cons.injEq, b64Digit_eq_iff (by omega) ha,
        b64Digit_eq_iff (by omega) hb, b64Digit_eq_iff (by omega) hc,
        b64Digit_eq_iff (by omega) hd]
      constructor
      · exact fun h => h.2.2.2.2
      · exact fun h => ⟨by omega, by omega, by omega, by omega, h⟩

theorem digits_iff {s : JsString} :
    Digits s ↔ (s.all fun u => (b64Lookup u).isSome) = true := by
  simp only [List.all_eq_true, Option.isSome_iff_exists]
  rfl

theorem decoded_iff {s : JsString} :
    (∃ bytes, base64urlDecode s = .ok bytes) ↔ Digits s ∧ s.length % 4 ≠ 1 := by
  rw [digits_iff]
  unfold base64urlDecode
  split
  · next hall =>
    split
    · next hone => exact iff_of_false (fun h => nomatch h.choose_spec) fun h => h.2 hone
    · next hone =>
      obtain ⟨bytes, hbytes, -⟩ := groups_exact s (digits_iff.mpr hall) hone
      exact iff_of_true ⟨bytes, hbytes⟩ ⟨hall, hone⟩
  · next hall => exact iff_of_false (fun h => nomatch h.choose_spec) fun h => hall h.1

/-- What is decoded is as long as it should be, and encoded as the same string when the
left-over bits are zero. -/
theorem decoded_exact {s : JsString} {bytes : Bytes} (h : base64urlDecode s = .ok bytes) :
    bytes.length = 3 * s.length / 4 ∧ (base64urlEncode bytes = s ↔ unusedBits s = 0) := by
  obtain ⟨hdigits, hone⟩ := decoded_iff.mp ⟨bytes, h⟩
  obtain ⟨bytes', hbytes', hexact⟩ := groups_exact s hdigits hone
  have hgroups : base64urlDecode s = base64urlGroups s := by
    rw [base64urlDecode, if_pos (digits_iff.mp hdigits), if_neg hone]
  obtain rfl := Except.ok.inj (h.symm.trans (hgroups.trans hbytes'))
  exact hexact

end Senn.Js.Base64

/-! ## The three copies -/

namespace Senn.InviteBase64
open Senn.Js

def B64_ALPHABET : JsString :=
  js "ABCDEFGHIJKLMNOPQRSTUVWXYZabcdefghijklmnopqrstuvwxyz0123456789-_"

def base64urlEncode (bytes : Bytes) : JsString := Base64.encode B64_ALPHABET bytes

def base64urlDecode (encoded : JsString) : Except Invite.InviteError Bytes :=
  (Base64.decode B64_ALPHABET encoded).mapError fun e =>
    Invite.inviteError (Invite.base64Text e)

end Senn.InviteBase64

namespace Senn.BundleBase64
open Senn.Js

def B64_ALPHABET : JsString :=
  js "ABCDEFGHIJKLMNOPQRSTUVWXYZabcdefghijklmnopqrstuvwxyz0123456789-_"

def base64urlEncode (bytes : Bytes) : JsString := Base64.encode B64_ALPHABET bytes

def base64urlDecode (encoded : JsString) : Except Protocol.BundleError Bytes :=
  (Base64.decode B64_ALPHABET encoded).mapError fun e =>
    Protocol.bundleError (Protocol.base64Message e)

end Senn.BundleBase64

namespace Senn.ManifestBase64
open Senn.Js

def B64_ALPHABET : JsString :=
  js "ABCDEFGHIJKLMNOPQRSTUVWXYZabcdefghijklmnopqrstuvwxyz0123456789-_"

def base64urlEncode (bytes : Bytes) : JsString := Base64.encode B64_ALPHABET bytes

def base64urlDecode (s : JsString) : Except Signing.SigningError Bytes :=
  (Base64.decode B64_ALPHABET s).mapError fun e => Signing.signatureError (Signing.base64Text e)

/-- It is what keys and signatures are decoded with. -/
theorem base64urlDecode_signing (s : JsString) : base64urlDecode s = Signing.decode s :=
  congrArg (Except.mapError _) (Base64.decode_eq s)

end Senn.ManifestBase64

namespace Senn.Base64Copies
open Senn.Js

inductive Copy where
  | invite
  | bundle
  | manifest

namespace Copy

/-- What a copy throws. -/
def Thrown : Copy → Type
  | .invite => Invite.InviteError
  | .bundle => Protocol.BundleError
  | .manifest => Signing.SigningError

def encode : Copy → Bytes → JsString
  | .invite => InviteBase64.base64urlEncode
  | .bundle => BundleBase64.base64urlEncode
  | .manifest => ManifestBase64.base64urlEncode

def decode : (c : Copy) → JsString → Except c.Thrown Bytes
  | .invite => InviteBase64.base64urlDecode
  | .bundle => BundleBase64.base64urlDecode
  | .manifest => ManifestBase64.base64urlDecode

/-- A copy is an exact codec, with a third of four times the length rounded up: it reads back what
it writes, accepts the strings of digits whose length can be that of an encoding, and writes back
those without left-over bits. -/
structure Exact (c : Copy) : Prop where
  roundTrip : ∀ bytes, c.decode (c.encode bytes) = .ok bytes
  encodedLength : ∀ bytes, (c.encode bytes).length = (4 * bytes.length + 2) / 3
  encodedDigits : ∀ bytes, ∀ u ∈ c.encode bytes, u ∈ B64_ALPHABET
  accepts : ∀ s, (∃ bytes, c.decode s = .ok bytes) ↔
    (∀ u ∈ s, u ∈ B64_ALPHABET) ∧ s.length % 4 ≠ 1
  decodedLength : ∀ s bytes, c.decode s = .ok bytes → bytes.length = 3 * s.length / 4
  canonical : ∀ s bytes, c.decode s = .ok bytes →
    (c.encode bytes = s ↔ Base64.unusedBits s = 0)

theorem encode_eq (c : Copy) (bytes : Bytes) : c.encode bytes = base64urlEncode bytes := by
  cases c with
  | invite | bundle | manifest => exact Base64.encode_eq bytes

theorem decode_ok (c : Copy) {s : JsString} {bytes : Bytes} :
    c.decode s = .ok bytes ↔ base64urlDecode s = .ok bytes := by
  rw [← Base64.decode_eq]
  cases c with
  | invite | bundle | manifest => exact mapError_ok

theorem toOption_decode (c : Copy) {s : JsString} {bytes : Bytes} :
    (c.decode s).toOption = some bytes ↔ base64urlDecode s = .ok bytes := by
  rw [← c.decode_ok]
  cases c.decode s with
  | error e => simp [Except.toOption]
  | ok bytes => simp [Except.toOption]

theorem exact (c : Copy) : c.Exact where
  roundTrip bytes := by
    rw [c.encode_eq, c.decode_ok, base64urlDecode_encode]
  encodedLength bytes := by
    rw [c.encode_eq, base64urlEncode_length]
  encodedDigits bytes u hu := by
    rw [c.encode_eq] at hu
    obtain ⟨n, hn, rfl⟩ := base64urlEncode_digits bytes u hu
    exact Base64.b64Lookup_mem.mp (by rw [b64Lookup_digit n hn]; rfl)
  accepts s := by
    simp only [c.decode_ok, Base64.decoded_iff, Base64.Digits, ← Option.isSome_iff_exists,
      Base64.b64Lookup_mem]
  decodedLength s bytes h := (Base64.decoded_exact (c.decode_ok.mp h)).1
  canonical s bytes h := by
    rw [c.encode_eq]
    exact (Base64.decoded_exact (c.decode_ok.mp h)).2

end Copy

/-- Each copy is an exact codec, and any two of them encode alike and decode alike: to the same
bytes, or with an error both. -/
theorem base64url_exact : (∀ c : Copy, c.Exact) ∧
    ∀ c d : Copy, (∀ bytes, c.encode bytes = d.encode bytes) ∧
      ∀ s, (c.decode s).toOption = (d.decode s).toOption := by
  refine ⟨Copy.exact, fun c d => ⟨fun bytes => by rw [c.encode_eq, d.encode_eq], fun s => ?_⟩⟩
  exact Option.ext fun bytes => c.toOption_decode.trans d.toOption_decode.symm

end Senn.Base64Copies
