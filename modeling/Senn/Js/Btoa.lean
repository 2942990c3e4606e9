import Senn.Js.Base64Url

/-! # `btoa` and `atob`

Base64 of a binary string, one unit for each byte: the digits of base64url with `+` and `/` for `-`
and `_`, filled up with `=` to groups of four. The decoder skips white space and takes the digits
with or without what fills them up. -/

namespace Senn.Js

/-- The digit of base64 for one of base64url. -/
def base64Digit (u : UInt16) : UInt16 := if u = 0x2D then 0x2B else if u = 0x5F then 0x2F else u

/-- The digit of base64url for one of base64. -/
def urlDigit? (u : UInt16) : Option UInt16 :=
  if u = 0x2B then some 0x2D
  else if u = 0x2F then some 0x5F
  else if u = 0x2D ∨ u = 0x5F then none
  else some u

/-- The string whose units are the bytes. -/
def binaryString (bytes : Bytes) : JsString := bytes.map UInt8.toUInt16

/-- `btoa(s)`; it throws when a unit is no byte. -/
def btoa (s : JsString) : Option JsString :=
  if s.all (· ≤ 0xFF) then
    let digits := (base64urlEncode (s.map UInt16.toUInt8)).map base64Digit
    some (digits ++ List.replicate ((4 - digits.length % 4) % 4) 0x3D)
  else none

/-- The white space that `atob` skips. -/
def isAsciiWhitespace (u : UInt16) : Bool :=
  u = 0x09 || u = 0x0A || u = 0x0C || u = 0x0D || u = 0x20

/-- The string without one or two `=` at its end. -/
def withoutPadding (s : JsString) : JsString :=
  match s.reverse with
  | 0x3D :: 0x3D :: r => r.reverse
  | 0x3D :: r => r.reverse
  | _ => s

/-- `atob(s)`, `none` when it throws. -/
def atob (s : JsString) : Option JsString := do
  let data := s.filter (!isAsciiWhitespace ·)
  let data := if data.length % 4 = 0 then withoutPadding data else data
  let digits ← data.mapM urlDigit?
  let bytes ← (base64urlDecode digits).toOption
  return binaryString bytes

/-! ## What is encoded is read back -/

theorem base64Digit_spec : ∀ n < 64, urlDigit? (base64Digit (b64Digit n)) = some (b64Digit n) ∧
    isAsciiWhitespace (base64Digit (b64Digit n)) = false ∧ base64Digit (b64Digit n) ≠ 0x3D := by
  decide +kernel

theorem mapM_urlDigit {digits : JsString} (h : ∀ u ∈ digits, ∃ n < 64, u = b64Digit n) :
    (digits.map base64Digit).mapM urlDigit? = some digits := by
  induction digits with
  | nil => rfl
  | cons u digits ih =>
    obtain ⟨⟨n, hn, rfl⟩, hdigits⟩ := List.forall_mem_cons.mp h
    rw [List.map_cons, List.mapM_cons, (base64Digit_spec n hn).1, ih hdigits]
    rfl

/-- What fills up the digits is taken away again. -/
theorem withoutPadding_append {digits : JsString} (h : ∀ u ∈ digits, u ≠ 0x3D) {k : Nat}
    (hk : k ≤ 2) : withoutPadding (digits ++ List.replicate k 0x3D) = digits := by
  have hlast : ∀ r, digits.reverse ≠ 0x3D :: r := fun r heq =>
    h 0x3D (List.mem_reverse.mp (heq ▸ List.mem_cons_self)) rfl
  have hplain : withoutPadding digits = digits := by
    unfold withoutPadding
    split
    · next r heq => exact absurd heq (hlast _)
    · next r _ heq => exact absurd heq (hlast _)
    · rfl
  match k, hk with
  | 0, _ => rw [List.replicate_zero, List.append_nil, hplain]
  | 1, _ =>
    rw [withoutPadding, List.reverse_append]
    simp only [List.replicate_one, List.reverse_singleton, List.singleton_append]
    exact List.reverse_reverse digits
  | 2, _ =>
    rw [withoutPadding, List.reverse_append]
    exact List.reverse_reverse digits

theorem binaryString_all (bytes : Bytes) : (binaryString bytes).all (· ≤ 0xFF) = true := by
  refine List.all_eq_true.mpr fun u hu => ?_
  obtain ⟨b, -, rfl⟩ := List.mem_map.mp hu
  have hb := b.toNat_lt
  simp only [decide_eq_true_eq, UInt16.le_iff_toNat_le, UInt8.toNat_toUInt16]
  exact Nat.le_of_lt_succ hb

theorem map_toUInt8_binaryString (bytes : Bytes) :
    (binaryString bytes).map UInt16.toUInt8 = bytes := by
  rw [binaryString, List.map_map]
  exact List.map_id'' (fun b => UInt8.toUInt8_toUInt16 b) bytes

/-- Bytes are always encoded, and `atob` reads them back. -/
theorem btoa_binaryString (bytes : Bytes) : ∃ s, btoa (binaryString bytes) = some s ∧
    atob s = some (binaryString bytes) := by
  have hdigits := base64urlEncode_digits bytes
  refine ⟨_, by rw [btoa, if_pos (binaryString_all bytes), map_toUInt8_binaryString], ?_⟩
  generalize hencoded : (base64urlEncode bytes).map base64Digit = encoded
  have hlength : encoded.length = (4 * bytes.length + 2) / 3 := by
    rw [← hencoded, List.length_map, base64urlEncode_length]
  have hunits : ∀ u ∈ encoded, isAsciiWhitespace u = false ∧ u ≠ 0x3D := by
    intro u hu
    rw [← hencoded] at hu
    obtain ⟨d, hd, rfl⟩ := List.mem_map.mp hu
    obtain ⟨n, hn, rfl⟩ := hdigits d hd
    exact (base64Digit_spec n hn).2
  have hfilter : (encoded ++ List.replicate ((4 - encoded.length % 4) % 4) 0x3D).filter
      (!isAsciiWhitespace ·) = encoded ++ List.replicate ((4 - encoded.length % 4) % 4) 0x3D := by
    refine List.filter_eq_self.mpr fun u hu => ?_
    obtain hu | hu := List.mem_append.mp hu
    · rw [(hunits u hu).1]
      rfl
    · rw [List.eq_of_mem_replicate hu]
      rfl
  have hfour : (encoded ++ List.replicate ((4 - encoded.length % 4) % 4) 0x3D).length % 4 = 0 := by
    rw [List.length_append, List.length_replicate]
    omega
  have hfill : (4 - encoded.length % 4) % 4 ≤ 2 := by omega
  rw [atob, hfilter]
  simp only [if_pos hfour, withoutPadding_append (fun u hu => (hunits u hu).2) hfill]
  rw [← hencoded, mapM_urlDigit hdigits]
  simp [base64urlDecode_encode, Except.toOption]

end Senn.Js
