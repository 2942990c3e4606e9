import Senn.Js.Text

/-! # base64url

Bytes in the URL-safe alphabet, three for four digits, without padding. A last group of two
or three digits holds one or two bytes; the bits it has left over are not looked at. -/

namespace Senn.Js

def B64_ALPHABET : JsString :=
  js "ABCDEFGHIJKLMNOPQRSTUVWXYZabcdefghijklmnopqrstuvwxyz0123456789-_"

/-- `B64_ALPHABET[n]` -/
def b64Digit (n : Nat) : UInt16 := (B64_ALPHABET[n]?).getD 0

/-- The lookup table of the decoder. -/
def b64Lookup (u : UInt16) : Option Nat :=
  let n := B64_ALPHABET.idxOf u
  if n < B64_ALPHABET.length then some n else none

def base64urlEncode : Bytes → JsString
  | a :: b :: c :: r =>
    b64Digit (a.toNat / 4) :: b64Digit (a.toNat % 4 * 16 + b.toNat / 16) ::
      b64Digit (b.toNat % 16 * 4 + c.toNat / 64) :: b64Digit (c.toNat % 64) :: base64urlEncode r
  | [a, b] =>
    [b64Digit (a.toNat / 4), b64Digit (a.toNat % 4 * 16 + b.toNat / 16),
      b64Digit (b.toNat % 16 * 4)]
  | [a] => [b64Digit (a.toNat / 4), b64Digit (a.toNat % 4 * 16)]
  | [] => []

/-- What the decoder throws for. -/
inductive Base64Error where
  | alphabet
  | length
  | digit
deriving DecidableEq

/-- The groups of the decoder, on a string whose length is checked. -/
def base64urlGroups : JsString → Except Base64Error Bytes
  | a :: b :: c :: d :: r =>
    match b64Lookup a, b64Lookup b, b64Lookup c, b64Lookup d with
    | some a, some b, some c, some d => do
      let bytes ← base64urlGroups r
      return UInt8.ofNat (a * 4 + b / 16) :: UInt8.ofNat (b % 16 * 16 + c / 4) ::
        UInt8.ofNat (c % 4 * 64 + d) :: bytes
    | _, _, _, _ => .error .digit
  | [a, b, c] =>
    match b64Lookup a, b64Lookup b, b64Lookup c with
    | some a, some b, some c => .ok [UInt8.ofNat (a * 4 + b / 16), UInt8.ofNat (b % 16 * 16 + c / 4)]
    | _, _, _ => .error .digit
  | [a, b] =>
    match b64Lookup a, b64Lookup b with
    | some a, some b => .ok [UInt8.ofNat (a * 4 + b / 16)]
    | _, _ => .error .digit
  | _ => .ok []

def base64urlDecode (s : JsString) : Except Base64Error Bytes :=
  if s.all fun u => (b64Lookup u).isSome then
    if s.length % 4 = 1 then .error .length else base64urlGroups s
  else .error .alphabet

theorem b64Lookup_digit : ∀ n, n < 64 → b64Lookup (b64Digit n) = some n := by decide +kernel

/-- The digits of an encoding. -/
theorem base64urlEncode_digits (bytes : Bytes) :
    ∀ u ∈ base64urlEncode bytes, ∃ n < 64, u = b64Digit n := by
  induction bytes using base64urlEncode.induct with
  | case1 a b c r ih =>
    have ha := a.toNat_lt
    have hb := b.toNat_lt
    have hc := c.toNat_lt
    simp only [base64urlEncode, List.forall_mem_cons]
    exact ⟨⟨_, by omega, rfl⟩, ⟨_, by omega, rfl⟩, ⟨_, by omega, rfl⟩, ⟨_, by omega, rfl⟩, ih⟩
  | case2 a b =>
    have ha := a.toNat_lt
    have hb := b.toNat_lt
    simp only [base64urlEncode, List.forall_mem_cons]
    exact ⟨⟨_, by omega, rfl⟩, ⟨_, by omega, rfl⟩, ⟨_, by omega, rfl⟩, by simp⟩
  | case3 a =>
    have ha := a.toNat_lt
    simp only [base64urlEncode, List.forall_mem_cons]
    exact ⟨⟨_, by omega, rfl⟩, ⟨_, by omega, rfl⟩, by simp⟩
  | case4 => simp [base64urlEncode]

theorem base64urlEncode_length (bytes : Bytes) :
    (base64urlEncode bytes).length = (4 * bytes.length + 2) / 3 := by
  induction bytes using base64urlEncode.induct with
  | case1 a b c r ih =>
    simp only [base64urlEncode, List.length_cons, ih]
    omega
  | case2 a b => simp [base64urlEncode]
  | case3 a => simp [base64urlEncode]
  | case4 => rfl

theorem base64urlGroups_encode (bytes : Bytes) :
    base64urlGroups (base64urlEncode bytes) = .ok bytes := by
  induction bytes using base64urlEncode.induct with
  | case1 a b c r ih =>
    have ha := a.toNat_lt
    have hb := b.toNat_lt
    have hc := c.toNat_lt
    rw [base64urlEncode, base64urlGroups]
    simp only [b64Lookup_digit _ (show a.toNat / 4 < 64 by omega),
      b64Lookup_digit _ (show a.toNat % 4 * 16 + b.toNat / 16 < 64 by omega),
      b64Lookup_digit _ (show b.toNat % 16 * 4 + c.toNat / 64 < 64 by omega),
      b64Lookup_digit _ (show c.toNat % 64 < 64 by omega), ih]
    have hfirst : a.toNat / 4 * 4 + (a.toNat % 4 * 16 + b.toNat / 16) / 16 = a.toNat := by omega
    have hsecond : (a.toNat % 4 * 16 + b.toNat / 16) % 16 * 16 +
        (b.toNat % 16 * 4 + c.toNat / 64) / 4 = b.toNat := by omega
    have hthird : (b.toNat % 16 * 4 + c.toNat / 64) % 4 * 64 + c.toNat % 64 = c.toNat := by omega
    simp only [hfirst, hsecond, hthird, UInt8.ofNat_toNat]
    rfl
  | case2 a b =>
    have ha := a.toNat_lt
    have hb := b.toNat_lt
    rw [base64urlEncode, base64urlGroups]
    simp only [b64Lookup_digit _ (show a.toNat / 4 < 64 by omega),
      b64Lookup_digit _ (show a.toNat % 4 * 16 + b.toNat / 16 < 64 by omega),
      b64Lookup_digit _ (show b.toNat % 16 * 4 < 64 by omega)]
    have hfirst : a.toNat / 4 * 4 + (a.toNat % 4 * 16 + b.toNat / 16) / 16 = a.toNat := by omega
    have hsecond : (a.toNat % 4 * 16 + b.toNat / 16) % 16 * 16 + b.toNat % 16 * 4 / 4 =
        b.toNat := by omega
    simp only [hfirst, hsecond, UInt8.ofNat_toNat]
  | case3 a =>
    have ha := a.toNat_lt
    rw [base64urlEncode, base64urlGroups]
    simp only [b64Lookup_digit _ (show a.toNat / 4 < 64 by omega),
      b64Lookup_digit _ (show a.toNat % 4 * 16 < 64 by omega)]
    have hfirst : a.toNat / 4 * 4 + a.toNat % 4 * 16 / 16 = a.toNat := by omega
    simp only [hfirst, UInt8.ofNat_toNat]
  | case4 => rfl

/-- The decoder reads back what the encoder writes. -/
theorem base64urlDecode_encode (bytes : Bytes) :
    base64urlDecode (base64urlEncode bytes) = .ok bytes := by
  have hall : ((base64urlEncode bytes).all fun u => (b64Lookup u).isSome) = true := by
    refine List.all_eq_true.mpr fun u hu => ?_
    obtain ⟨n, hn, rfl⟩ := base64urlEncode_digits bytes u hu
    rw [b64Lookup_digit n hn]
    rfl
  have hlength : (base64urlEncode bytes).length % 4 ≠ 1 := by
    rw [base64urlEncode_length]
    omega
  rw [base64urlDecode, if_pos hall, if_neg hlength, base64urlGroups_encode]

end Senn.Js
