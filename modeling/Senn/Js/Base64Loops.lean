import Senn.Js.Base64Url
import Senn.Lib.Digits

/-! # The loops of base64url

The encoder and the decoder as they are written, over an alphabet: indices into the input, a
table of 128 entries, shifts and masks. With the alphabet of the program they are the functions
on lists. -/

namespace Senn.Js.Base64
open Senn.Lib.Digits

variable (alphabet : JsString)

/-- `bytes[i] ?? 0` -/
def byteAt (bytes : Bytes) (i : Nat) : Nat := ((bytes[i]?).getD 0).toNat

/-- What `out += alphabet[n]` adds. -/
def digitAt (n : Nat) : JsString := (alphabet[n]?).toList

/-- The last one or two bytes. -/
def encodeTail (bytes : Bytes) (i : Nat) (out : JsString) : JsString :=
  let rem := bytes.length - i
  if rem = 1 then
    let a := byteAt bytes i
    out ++ digitAt alphabet (a >>> 2) ++ digitAt alphabet ((a &&& 0x03) <<< 4)
  else if rem = 2 then
    let a := byteAt bytes i
    let b := byteAt bytes (i + 1)
    out ++ digitAt alphabet (a >>> 2) ++ digitAt alphabet ((a &&& 0x03) <<< 4 ||| b >>> 4) ++
      digitAt alphabet ((b &&& 0x0f) <<< 2)
  else out

/-- The loop over groups of three bytes. -/
def encodeFrom (bytes : Bytes) (i : Nat) (out : JsString) : JsString :=
  if i + 3 ≤ bytes.length then
    let a := byteAt bytes i
    let b := byteAt bytes (i + 1)
    let c := byteAt bytes (i + 2)
    encodeFrom bytes (i + 3)
      (out ++ digitAt alphabet (a >>> 2) ++ digitAt alphabet ((a &&& 0x03) <<< 4 ||| b >>> 4) ++
        digitAt alphabet ((b &&& 0x0f) <<< 2 ||| c >>> 6) ++ digitAt alphabet (c &&& 0x3f))
  else encodeTail alphabet bytes i out
termination_by bytes.length - i

def encode (bytes : Bytes) : JsString := encodeFrom alphabet bytes 0 []

/-- `[A-Za-z0-9_-]` -/
def isUnit (u : UInt16) : Bool :=
  (0x41 ≤ u && u ≤ 0x5A) || (0x61 ≤ u && u ≤ 0x7A) || isDecimal u || u = 0x5F || u = 0x2D
where
  isDecimal (u : UInt16) : Bool := 0x30 ≤ u && u ≤ 0x39

/-- The table, filled with the places of the digits. -/
def lookup : List Int :=
  alphabet.zipIdx.foldl (fun table e => table.set e.1.toNat e.2) (List.replicate 128 (-1))

/-- `lookup[s.charCodeAt(ii)] ?? -1` -/
def lookupAt (s : JsString) (ii : Nat) : Int :=
  match s[ii]? with
  | some u => ((lookup alphabet)[u.toNat]?).getD (-1)
  | none => -1

/-- The loop over groups of four digits, with how many there are left; `(a | b | c | d) < 0`
when one of them is negative. -/
def decodeGroups (s : JsString) : Nat → Nat → Bytes → Except Base64Error (Nat × Bytes)
  | 0, ii, out => .ok (ii, out)
  | groups + 1, ii, out =>
    let a := lookupAt alphabet s ii
    let b := lookupAt alphabet s (ii + 1)
    let c := lookupAt alphabet s (ii + 2)
    let d := lookupAt alphabet s (ii + 3)
    if a < 0 ∨ b < 0 ∨ c < 0 ∨ d < 0 then .error .digit
    else
      decodeGroups s groups (ii + 4)
        (out ++ [UInt8.ofNat (a.toNat <<< 2 ||| b.toNat >>> 4),
          UInt8.ofNat ((b.toNat &&& 0x0f) <<< 4 ||| c.toNat >>> 2),
          UInt8.ofNat ((c.toNat &&& 0x03) <<< 6 ||| d.toNat)])

/-- The last two or three digits. -/
def decodeTail (s : JsString) (tail : Nat) (ii : Nat) (out : Bytes) : Except Base64Error Bytes :=
  let a := lookupAt alphabet s ii
  let b := lookupAt alphabet s (ii + 1)
  let c := lookupAt alphabet s (ii + 2)
  if tail = 2 then
    if a < 0 ∨ b < 0 then .error .digit
    else .ok (out ++ [UInt8.ofNat (a.toNat <<< 2 ||| b.toNat >>> 4)])
  else if tail = 3 then
    if a < 0 ∨ b < 0 ∨ c < 0 then .error .digit
    else
      .ok (out ++ [UInt8.ofNat (a.toNat <<< 2 ||| b.toNat >>> 4),
        UInt8.ofNat ((b.toNat &&& 0x0f) <<< 4 ||| c.toNat >>> 2)])
  else .ok out

def decode (s : JsString) : Except Base64Error Bytes :=
  if !s.all isUnit then .error .alphabet
  else
    let fullGroups := s.length / 4
    let tail := s.length - fullGroups * 4
    if tail = 1 then .error .length
    else do
      let (ii, out) ← decodeGroups alphabet s fullGroups 0 []
      decodeTail alphabet s tail ii out

/-! ## Shifts and masks -/

/-- The lowest `i` bits of one number and what `j` shifts leave of another. -/
theorem joined {a b : Nat} (i j k : Nat) (hb : b < 2 ^ (j + k)) :
    (a &&& (2 ^ i - 1)) <<< k ||| b >>> j = a % 2 ^ i * 2 ^ k + b / 2 ^ j := by
  rw [shiftLeft_or (shiftRight_lt hb), Nat.and_two_pow_sub_one_eq_mod, Nat.shiftRight_eq_div_pow]

theorem high (a : Nat) : a >>> 2 = a / 4 := Nat.shiftRight_eq_div_pow a 2

theorem low_high {a b : Nat} (hb : b < 256) :
    (a &&& 0x03) <<< 4 ||| b >>> 4 = a % 4 * 16 + b / 16 := joined 2 4 4 hb

theorem low_high' {b c : Nat} (hc : c < 256) :
    (b &&& 0x0f) <<< 2 ||| c >>> 6 = b % 16 * 4 + c / 64 := joined 4 6 2 hc

theorem low_shifted (a : Nat) : (a &&& 0x03) <<< 4 = a % 4 * 16 := by
  rw [Nat.shiftLeft_eq]
  exact congrArg (· * 16) (Nat.and_two_pow_sub_one_eq_mod a 2)

theorem low_shifted' (b : Nat) : (b &&& 0x0f) <<< 2 = b % 16 * 4 := by
  rw [Nat.shiftLeft_eq]
  exact congrArg (· * 4) (Nat.and_two_pow_sub_one_eq_mod b 4)

theorem low (c : Nat) : c &&& 0x3f = c % 64 := Nat.and_two_pow_sub_one_eq_mod c 6

theorem first_byte {a b : Nat} (hb : b < 64) : a <<< 2 ||| b >>> 4 = a * 4 + b / 16 := by
  have hlow : b >>> 4 < 2 ^ 2 := shiftRight_lt hb
  rw [shiftLeft_or hlow]
  exact congrArg (a * 4 + ·) (Nat.shiftRight_eq_div_pow b 4)

theorem second_byte {b c : Nat} (hc : c < 64) :
    (b &&& 0x0f) <<< 4 ||| c >>> 2 = b % 16 * 16 + c / 4 := joined 4 2 4 hc

theorem third_byte {c d : Nat} (hd : d < 64) : (c &&& 0x03) <<< 6 ||| d = c % 4 * 64 + d := by
  have hd : d < 2 ^ 6 := hd
  rw [shiftLeft_or hd]
  exact congrArg (· * 64 + d) (Nat.and_two_pow_sub_one_eq_mod c 2)

/-! ## The encoder -/

theorem digitAt_lt {n : Nat} (hn : n < 64) : digitAt B64_ALPHABET n = [b64Digit n] := by
  have hlt : n < B64_ALPHABET.length := hn
  rw [digitAt, b64Digit, List.getElem?_eq_getElem hlt]
  rfl

theorem byteAt_drop {bytes r : Bytes} {i : Nat} {x : UInt8} (h : bytes.drop i = x :: r) :
    byteAt bytes i = x.toNat ∧ bytes.drop (i + 1) = r := by
  constructor
  · rw [byteAt, ← List.head?_drop, h]
    rfl
  · rw [← List.drop_drop, h]
    rfl

theorem encodeTail_eq {bytes : Bytes} {i : Nat} (h : bytes.length < i + 3) (out : JsString) :
    encodeTail B64_ALPHABET bytes i out = out ++ base64urlEncode (bytes.drop i) := by
  have hlen : (bytes.drop i).length = bytes.length - i := List.length_drop
  unfold encodeTail
  match hr : bytes.drop i with
  | [] =>
    rw [hr, List.length_nil] at hlen
    rw [if_neg (by omega), if_neg (by omega), base64urlEncode, List.append_nil]
  | [x] =>
    obtain ⟨ha, -⟩ := byteAt_drop hr
    have hx := x.toNat_lt
    rw [hr, List.length_singleton] at hlen
    dsimp only
    rw [if_pos hlen.symm, ha, high, low_shifted, digitAt_lt (by omega), digitAt_lt (by omega),
      base64urlEncode, List.append_assoc]
    rfl
  | [x, y] =>
    obtain ⟨ha, hr'⟩ := byteAt_drop hr
    obtain ⟨hb, -⟩ := byteAt_drop hr'
    have hx := x.toNat_lt
    have hy := y.toNat_lt
    rw [hr] at hlen
    simp only [List.length_cons, List.length_nil] at hlen
    dsimp only
    rw [if_neg (by omega), if_pos (by omega), ha, hb, high, low_high hy, low_shifted',
      digitAt_lt (by omega), digitAt_lt (by omega), digitAt_lt (by omega), base64urlEncode,
      List.append_assoc, List.append_assoc]
    rfl
  | x :: y :: z :: r =>
    rw [hr] at hlen
    simp only [List.length_cons] at hlen
    omega

theorem encodeFrom_eq (bytes : Bytes) (i : Nat) (out : JsString) :
    encodeFrom B64_ALPHABET bytes i out = out ++ base64urlEncode (bytes.drop i) := by
  fun_induction encodeFrom B64_ALPHABET bytes i out with
  | case1 i out hle a b c ih =>
    have hlen : (bytes.drop i).length = bytes.length - i := List.length_drop
    match hr : bytes.drop i with
    | [] | [x] | [x, y] =>
      rw [hr] at hlen
      simp only [List.length_cons, List.length_nil] at hlen
      omega
    | x :: y :: z :: r =>
      obtain ⟨ha, hr'⟩ := byteAt_drop hr
      obtain ⟨hb, hr''⟩ := byteAt_drop hr'
      obtain ⟨hc, hrest⟩ := byteAt_drop hr''
      have hx := x.toNat_lt
      have hy := y.toNat_lt
      have hz := z.toNat_lt
      rw [ih, hrest]
      simp only [a, b, c]
      rw [ha, hb, hc, high, low_high hy, low_high' hz, low, digitAt_lt (by omega),
        digitAt_lt (by omega), digitAt_lt (by omega), digitAt_lt (by omega), base64urlEncode]
      simp only [List.append_assoc, List.cons_append, List.nil_append]
  | case2 i out hle => exact encodeTail_eq (by omega) out

theorem encode_eq (bytes : Bytes) : encode B64_ALPHABET bytes = base64urlEncode bytes :=
  encodeFrom_eq bytes 0 []

/-! ## The decoder -/

/-- The place of a unit in the table. -/
def place (u : UInt16) : Int :=
  match b64Lookup u with
  | some n => n
  | none => -1

theorem alphabet_ascii : ∀ u ∈ B64_ALPHABET, u.toNat < 128 := by
  have hall : B64_ALPHABET.all (fun u => u.toNat < 128) = true := by decide
  exact fun u hu => of_decide_eq_true (List.all_eq_true.mp hall u hu)

theorem b64Lookup_lt {u : UInt16} {n : Nat} (h : b64Lookup u = some n) : n < 64 := by
  unfold b64Lookup at h
  dsimp only at h
  split at h
  · next hlt =>
    obtain rfl := Option.some.inj h
    exact hlt
  · cases h

theorem b64Lookup_mem {u : UInt16} : (b64Lookup u).isSome = true ↔ u ∈ B64_ALPHABET := by
  unfold b64Lookup
  dsimp only
  rw [← List.idxOf_lt_length_iff]
  split
  · next hlt => exact iff_of_true rfl hlt
  · next hge => exact iff_of_false Bool.false_ne_true hge

theorem isUnit_small : ∀ k < 128,
    isUnit (UInt16.ofNat k) = (b64Lookup (UInt16.ofNat k)).isSome := by decide +kernel

theorem lookup_small : ∀ k < 128,
    ((lookup B64_ALPHABET)[k]?).getD (-1) = place (UInt16.ofNat k) := by decide +kernel

theorem lookup_length (alphabet : JsString) : (lookup alphabet).length = 128 := by
  unfold lookup
  refine List.foldlRecOn (motive := fun table : List Int => table.length = 128) _ _ ?_ ?_
  · exact List.length_replicate
  · intro table hlen e _
    rw [List.length_set, hlen]

theorem isUnit_iff (u : UInt16) : isUnit u = (b64Lookup u).isSome := by
  by_cases hu : u.toNat < 128
  · have hsmall := isUnit_small u.toNat hu
    rwa [UInt16.ofNat_toNat] at hsmall
  · have hout : (b64Lookup u).isSome = false :=
      Bool.eq_false_iff.mpr fun h => hu (alphabet_ascii u (b64Lookup_mem.mp h))
    rw [hout, Bool.eq_false_iff]
    intro h
    simp only [isUnit, isUnit.isDecimal, Bool.or_eq_true, Bool.and_eq_true, decide_eq_true_eq,
      UInt16.le_iff_toNat_le] at h
    rcases h with (((h | h) | h) | rfl) | rfl
    · have hle : u.toNat ≤ 0x5A := h.2
      omega
    · have hle : u.toNat ≤ 0x7A := h.2
      omega
    · have hle : u.toNat ≤ 0x39 := h.2
      omega
    · exact hu (by decide)
    · exact hu (by decide)

theorem lookupAt_some {s : JsString} {ii : Nat} {u : UInt16} (h : s[ii]? = some u) :
    lookupAt B64_ALPHABET s ii = place u := by
  unfold lookupAt
  rw [h]
  dsimp only
  by_cases hu : u.toNat < 128
  · have hsmall := lookup_small u.toNat hu
    rwa [UInt16.ofNat_toNat] at hsmall
  · have hout : b64Lookup u = none :=
      Option.not_isSome_iff_eq_none.mp fun h => hu (alphabet_ascii u (b64Lookup_mem.mp h))
    rw [List.getElem?_eq_none (by rw [lookup_length]; omega), place, hout]
    rfl

theorem lookupAt_digit {s r : JsString} {ii n : Nat} {u : UInt16} (h : s.drop ii = u :: r)
    (hn : b64Lookup u = some n) :
    lookupAt B64_ALPHABET s ii = n ∧ n < 64 ∧ s.drop (ii + 1) = r := by
  have hget : s[ii]? = some u := by rw [← List.head?_drop, h]; rfl
  refine ⟨by rw [lookupAt_some hget, place, hn], b64Lookup_lt hn, ?_⟩
  rw [← List.drop_drop, h]
  rfl

/-- A string of digits. -/
def Digits (s : JsString) : Prop := ∀ u ∈ s, ∃ n, b64Lookup u = some n

theorem digits_cons {u : UInt16} {s : JsString} (h : Digits (u :: s)) :
    (∃ n, b64Lookup u = some n) ∧ Digits s := List.forall_mem_cons.mp h

theorem decodeTail_eq {s : JsString} {ii tail : Nat} (hdigits : Digits (s.drop ii))
    (htail : (s.drop ii).length = tail) (hlt : tail < 4) (hone : tail ≠ 1) (out : Bytes) :
    decodeTail B64_ALPHABET s tail ii out = (base64urlGroups (s.drop ii)).map (out ++ ·) := by
  unfold decodeTail
  match hr : s.drop ii with
  | [] =>
    rw [hr] at htail
    obtain rfl : tail = 0 := htail.symm
    rw [base64urlGroups]
    · exact congrArg Except.ok (List.append_nil out).symm
    all_goals simp
  | [u] =>
    rw [hr] at htail
    exact absurd htail.symm hone
  | [u, v] =>
    rw [hr] at htail hdigits
    obtain rfl : tail = 2 := htail.symm
    obtain ⟨⟨a, ha⟩, hdigits⟩ := digits_cons hdigits
    obtain ⟨⟨b, hb⟩, -⟩ := digits_cons hdigits
    obtain ⟨hla, -, hr'⟩ := lookupAt_digit hr ha
    obtain ⟨hlb, hb64, -⟩ := lookupAt_digit hr' hb
    have hfirst : (a : Int).toNat <<< 2 ||| (b : Int).toNat >>> 4 = a * 4 + b / 16 :=
      first_byte hb64
    simp only [hla, hlb, base64urlGroups, ha, hb]
    rw [if_pos trivial, if_neg (by omega), hfirst]
    rfl
  | [u, v, w] =>
    rw [hr] at htail hdigits
    obtain rfl : tail = 3 := htail.symm
    obtain ⟨⟨a, ha⟩, hdigits⟩ := digits_cons hdigits
    obtain ⟨⟨b, hb⟩, hdigits⟩ := digits_cons hdigits
    obtain ⟨⟨c, hc⟩, -⟩ := digits_cons hdigits
    obtain ⟨hla, -, hr'⟩ := lookupAt_digit hr ha
    obtain ⟨hlb, hb64, hr''⟩ := lookupAt_digit hr' hb
    obtain ⟨hlc, hc64, -⟩ := lookupAt_digit hr'' hc
    have hfirst : (a : Int).toNat <<< 2 ||| (b : Int).toNat >>> 4 = a * 4 + b / 16 :=
      first_byte hb64
    have hsecond : ((b : Int).toNat &&& 0x0f) <<< 4 ||| (c : Int).toNat >>> 2 =
        b % 16 * 16 + c / 4 := second_byte hc64
    simp only [hla, hlb, hlc, base64urlGroups, ha, hb, hc]
    rw [if_neg (by omega), if_pos trivial, if_neg (by omega), hfirst, hsecond]
    rfl
  | u :: v :: w :: x :: r =>
    rw [hr] at htail
    simp only [List.length_cons] at htail
    omega

theorem decodeGroups_eq {s : JsString} {tail : Nat} (hlt : tail < 4) (hone : tail ≠ 1)
    (groups : Nat) : ∀ {ii : Nat} (out : Bytes), Digits (s.drop ii) →
    (s.drop ii).length = groups * 4 + tail →
    (do
      let (ii, out) ← decodeGroups B64_ALPHABET s groups ii out
      decodeTail B64_ALPHABET s tail ii out) =
        (base64urlGroups (s.drop ii)).map (out ++ ·) := by
  induction groups with
  | zero =>
    intro ii out hdigits hlength
    exact decodeTail_eq hdigits (by omega) hlt hone out
  | succ groups ih =>
    intro ii out hdigits hlength
    match hr : s.drop ii with
    | [] | [u] | [u, v] | [u, v, w] =>
      rw [hr] at hlength
      simp only [List.length_cons, List.length_nil] at hlength
      omega
    | u :: v :: w :: x :: r =>
      rw [hr] at hlength hdigits
      obtain ⟨⟨a, ha⟩, hdigits⟩ := digits_cons hdigits
      obtain ⟨⟨b, hb⟩, hdigits⟩ := digits_cons hdigits
      obtain ⟨⟨c, hc⟩, hdigits⟩ := digits_cons hdigits
      obtain ⟨⟨d, hd⟩, hdigits⟩ := digits_cons hdigits
      obtain ⟨hla, -, hr'⟩ := lookupAt_digit hr ha
      obtain ⟨hlb, hb64, hr''⟩ := lookupAt_digit hr' hb
      obtain ⟨hlc, hc64, hr3⟩ := lookupAt_digit hr'' hc
      obtain ⟨hld, hd64, hr4⟩ := lookupAt_digit hr3 hd
      have hfirst : (a : Int).toNat <<< 2 ||| (b : Int).toNat >>> 4 = a * 4 + b / 16 :=
        first_byte hb64
      have hsecond : ((b : Int).toNat &&& 0x0f) <<< 4 ||| (c : Int).toNat >>> 2 =
          b % 16 * 16 + c / 4 := second_byte hc64
      have hthird : ((c : Int).toNat &&& 0x03) <<< 6 ||| (d : Int).toNat = c % 4 * 64 + d :=
        third_byte hd64
      simp only [List.length_cons] at hlength
      rw [← hr4] at hdigits
      have hlength' : (s.drop (ii + 4)).length = groups * 4 + tail := by
        rw [hr4]
        omega
      have hrest := ih (out ++ [UInt8.ofNat (a * 4 + b / 16), UInt8.ofNat (b % 16 * 16 + c / 4),
        UInt8.ofNat (c % 4 * 64 + d)]) hdigits hlength'
      simp only [decodeGroups, hla, hlb, hlc, hld]
      rw [if_neg (by omega), hfirst, hsecond, hthird, hrest, hr4, base64urlGroups]
      simp only [ha, hb, hc, hd]
      cases base64urlGroups r with
      | error e => rfl
      | ok bytes => exact congrArg Except.ok (by simp)

/-- The decoder is the function on lists. -/
theorem decode_eq (s : JsString) : decode B64_ALPHABET s = base64urlDecode s := by
  have hall : s.all isUnit = s.all fun u => (b64Lookup u).isSome :=
    congrArg s.all (funext isUnit_iff)
  unfold decode base64urlDecode
  rw [hall]
  cases hs : s.all fun u => (b64Lookup u).isSome with
  | false => rfl
  | true =>
    have hdigits : Digits s := fun u hu =>
      Option.isSome_iff_exists.mp (List.all_eq_true.mp hs u hu)
    have htail : s.length - s.length / 4 * 4 = s.length % 4 := by omega
    rw [if_neg (by simp), if_pos rfl]
    dsimp only
    rw [htail]
    split
    · rfl
    · next hone =>
      rw [← List.drop_zero (l := s)] at hdigits
      have hgroups := decodeGroups_eq (s := s) (Nat.mod_lt _ (by decide)) hone (s.length / 4) []
        hdigits (by rw [List.drop_zero]; omega)
      refine hgroups.trans ?_
      rw [List.drop_zero]
      cases base64urlGroups s <;> rfl

end Senn.Js.Base64
