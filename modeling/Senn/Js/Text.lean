import Mathlib.Data.Nat.Digits.Defs
import Mathlib.Data.Nat.Digits.Lemmas

/-! # Strings, their UTF-8 encoding and decoding

A string is its UTF-16 code units. `utf8Encode` is `TextEncoder.encode`, which
reads a lone surrogate as U+FFFD; `utf8Decode` is the non-fatal
`TextDecoder.decode`, which drops a leading byte order mark and puts U+FFFD for
every malformed sequence. On strings without lone surrogates the two are
inverse. -/

namespace Senn.Js

/-- A string: its UTF-16 code units. -/
abbrev JsString := List UInt16

instance : LawfulBEq JsString := inferInstance

/-- Bytes of a `Uint8Array` or an `ArrayBuffer`. -/
abbrev Bytes := List UInt8

/-- A string literal of the source (all of them are in the basic plane). -/
def js (s : String) : JsString := s.toList.map fun c => UInt16.ofNat c.toNat

/-! ## Numerals -/

/-- The digit of value `d`, letters from ten on. -/
def digitUnit (d : Nat) : UInt16 := UInt16.ofNat (if d < 10 then 48 + d else 87 + d)

/-- `n.toString(b)` of a natural number. -/
def natText (b n : Nat) : JsString :=
  if n = 0 then [48] else (Nat.digits b n).reverse.map digitUnit

theorem natText_ne_nil {b : Nat} (n : Nat) : natText b n ≠ [] := by
  unfold natText
  split
  · simp
  · next h =>
    intro hn
    have hd : Nat.digits b n = [] := by simpa using hn
    exact h (Nat.digits_eq_nil_iff_eq_zero.mp hd)

/-- The value of a digit. -/
def digitVal (u : UInt16) : Nat := if u.toNat < 58 then u.toNat - 48 else u.toNat - 87

theorem digitVal_digitUnit : ∀ d < 36, digitVal (digitUnit d) = d := by decide

/-- A numeral says which number it is. -/
theorem ofDigits_digitVal {b : Nat} (hb : 1 < b) (hb' : b ≤ 36) (n : Nat) :
    Nat.ofDigits b ((natText b n).map digitVal).reverse = n := by
  unfold natText
  split
  · next hn => simp [hn, digitVal]
  · have hmap : (Nat.digits b n).map (digitVal ∘ digitUnit) = Nat.digits b n := by
      conv_rhs => rw [← List.map_id (Nat.digits b n)]
      refine List.map_congr_left fun d hd => digitVal_digitUnit d ?_
      exact Nat.lt_of_lt_of_le (Nat.digits_lt_base hb hd) hb'
    rw [List.map_map, List.map_reverse, List.reverse_reverse, hmap, Nat.ofDigits_digits]

theorem natText_injective {b m n : Nat} (hb : 1 < b) (hb' : b ≤ 36)
    (h : natText b m = natText b n) : m = n := by
  rw [← ofDigits_digitVal hb hb' m, h, ofDigits_digitVal hb hb' n]

/-- Nothing but digits and letters, so no separator of the program, occurs in a numeral. -/
theorem natText_alphanumeric {b : Nat} (hb : 1 < b) (hb' : b ≤ 36) {n : Nat} {u : UInt16}
    (hu : u ∈ natText b n) :
    (48 ≤ u.toNat ∧ u.toNat ≤ 57) ∨ (97 ≤ u.toNat ∧ u.toNat ≤ 122) := by
  unfold natText at hu
  split at hu
  · rw [List.mem_singleton.mp hu]; decide
  · obtain ⟨d, hd, rfl⟩ := List.mem_map.mp hu
    have hlt : d < b := Nat.digits_lt_base hb (List.mem_reverse.mp hd)
    unfold digitUnit
    split
    · left
      simp only [UInt16.toNat_ofNat']
      omega
    · right
      simp only [UInt16.toNat_ofNat']
      omega

/-- What follows the last separator of two equal texts is the same. -/
theorem after_last_separator {α : Type} {c : α} : ∀ {as bs xs ys : List α},
    as ++ c :: xs = bs ++ c :: ys → c ∉ xs → c ∉ ys → xs = ys
  | [], [], _, _, h, _, _ => (List.cons.inj h).2
  | [], b :: bs, xs, ys, h, hx, _ => by
    have htail := (List.cons.inj h).2
    exact absurd (htail ▸ List.mem_append_right bs (List.mem_cons_self ..)) hx
  | a :: as, [], xs, ys, h, _, hy => by
    have htail := (List.cons.inj h).2
    exact absurd (htail ▸ List.mem_append_right as (List.mem_cons_self ..)) hy
  | a :: as, b :: bs, xs, ys, h, hx, hy => after_last_separator (List.cons.inj h).2 hx hy

theorem separator_not_mem_natText (n : Nat) : (0x5F : UInt16) ∉ natText 36 n := by
  intro h
  rcases natText_alphanumeric (by decide) (by decide) h with h | h
  · exact absurd h.2 (by decide)
  · exact absurd h.1 (by decide)

/-- A number below `b ^ k` has at most `k` digits. -/
theorem natText_length_le {b n k : Nat} (hb : 1 < b) (hk : 0 < k) (h : n < b ^ k) :
    (natText b n).length ≤ k := by
  unfold natText
  split
  · exact hk
  · rw [List.length_map, List.length_reverse]
    exact (Nat.digits_length_le_iff hb n).mpr h

/-- A number from `b ^ k` on has more than `k` digits. -/
theorem lt_natText_length {b n k : Nat} (hb : 1 < b) (h : b ^ k ≤ n) :
    k < (natText b n).length := by
  have hn : n ≠ 0 := by
    intro h0
    have := Nat.pow_pos (n := k) (Nat.zero_lt_of_lt hb)
    omega
  rw [natText, if_neg hn, List.length_map, List.length_reverse]
  exact (Nat.lt_digits_length_iff hb n).mpr h

/-! ## Code points -/

def isHigh (u : UInt16) : Bool := 0xD800 ≤ u.toNat && u.toNat ≤ 0xDBFF
def isLow (u : UInt16) : Bool := 0xDC00 ≤ u.toNat && u.toNat ≤ 0xDFFF
def isSurrogate (u : UInt16) : Bool := isHigh u || isLow u

/-- The code point of a surrogate pair. -/
def pairPoint (u v : UInt16) : Nat := 0x10000 + (u.toNat - 0xD800) * 0x400 + (v.toNat - 0xDC00)

/-- The code points of a string, a lone surrogate read as U+FFFD. -/
def scalars : JsString → List Nat
  | [] => []
  | [u] => [if isSurrogate u then 0xFFFD else u.toNat]
  | u :: v :: r =>
    if isHigh u && isLow v then pairPoint u v :: scalars r
    else (if isSurrogate u then 0xFFFD else u.toNat) :: scalars (v :: r)

/-- The code units of a code point. -/
def pointUnits (c : Nat) : JsString :=
  if c < 0x10000 then [UInt16.ofNat c]
  else [UInt16.ofNat (0xD800 + (c - 0x10000) / 0x400), UInt16.ofNat (0xDC00 + (c - 0x10000) % 0x400)]

/-- Every surrogate of the string is one half of a pair. -/
def wellFormed : JsString → Bool
  | [] => true
  | [u] => !isSurrogate u
  | u :: v :: r =>
    if isHigh u && isLow v then wellFormed r else !isSurrogate u && wellFormed (v :: r)

/-- A code point that is not a surrogate. -/
def Scalar (c : Nat) : Prop := c < 0xD800 ∨ (0xDFFF < c ∧ c < 0x110000)

theorem pointUnits_toNat (u : UInt16) : pointUnits u.toNat = [u] := by
  have := u.toNat_lt
  rw [pointUnits, if_pos (by omega), UInt16.ofNat_toNat]

theorem pointUnits_pair {u v : UInt16} (hu : isHigh u = true) (hv : isLow v = true) :
    pointUnits (pairPoint u v) = [u, v] := by
  simp only [isHigh, isLow, Bool.and_eq_true, decide_eq_true_eq] at hu hv
  have h1 : pairPoint u v - 0x10000 = (u.toNat - 0xD800) * 0x400 + (v.toNat - 0xDC00) := by
    unfold pairPoint; omega
  rw [pointUnits, if_neg (by unfold pairPoint; omega), h1]
  have hdiv : 0xD800 + ((u.toNat - 0xD800) * 0x400 + (v.toNat - 0xDC00)) / 0x400 = u.toNat := by
    omega
  have hmod : 0xDC00 + ((u.toNat - 0xD800) * 0x400 + (v.toNat - 0xDC00)) % 0x400 = v.toNat := by
    omega
  rw [hdiv, hmod, UInt16.ofNat_toNat, UInt16.ofNat_toNat]

theorem scalar_toNat {u : UInt16} (h : isSurrogate u = false) : Scalar u.toNat := by
  have := u.toNat_lt
  simp only [isSurrogate, isHigh, isLow, Bool.or_eq_false_iff, Bool.and_eq_false_iff,
    decide_eq_false_iff_not] at h
  unfold Scalar
  omega

theorem scalar_replacement : Scalar 0xFFFD := by simp [Scalar]

theorem scalar_pair {u v : UInt16} (hu : isHigh u = true) (hv : isLow v = true) :
    Scalar (pairPoint u v) := by
  simp only [isHigh, isLow, Bool.and_eq_true, decide_eq_true_eq] at hu hv
  unfold Scalar pairPoint
  omega

theorem scalars_scalar : ∀ s : JsString, ∀ c ∈ scalars s, Scalar c
  | [], c, h => by cases h
  | [u], c, h => by
    rw [scalars, List.mem_singleton] at h
    subst h
    split
    · exact scalar_replacement
    · next hu => exact scalar_toNat (by simpa using hu)
  | u :: v :: r, c, h => by
    rw [scalars] at h
    split at h
    · next hp =>
      obtain ⟨hu, hv⟩ := Bool.and_eq_true_iff.mp hp
      rcases List.mem_cons.mp h with hc | h
      · rw [hc]; exact scalar_pair hu hv
      · exact scalars_scalar r c h
    · rcases List.mem_cons.mp h with rfl | h
      · split
        · exact scalar_replacement
        · next hu => exact scalar_toNat (by simpa using hu)
      · exact scalars_scalar (v :: r) c h

theorem units_scalars : ∀ s : JsString, wellFormed s = true → (scalars s).flatMap pointUnits = s
  | [], _ => rfl
  | [u], h => by
    have hu : isSurrogate u = false := by simpa [wellFormed] using h
    simp [scalars, hu, pointUnits_toNat]
  | u :: v :: r, h => by
    rw [wellFormed] at h
    rw [scalars]
    split
    · next hp =>
      rw [if_pos hp] at h
      obtain ⟨hu, hv⟩ := Bool.and_eq_true_iff.mp hp
      rw [List.flatMap_cons, pointUnits_pair hu hv, units_scalars r h]
      rfl
    · next hp =>
      rw [if_neg hp] at h
      obtain ⟨hu, hr⟩ := Bool.and_eq_true_iff.mp h
      have hu : isSurrogate u = false := by simpa using hu
      rw [if_neg (by simp [hu]), List.flatMap_cons, pointUnits_toNat, units_scalars (v :: r) hr]
      rfl

theorem wellFormed_cons {u : UInt16} {s : JsString} (hu : isSurrogate u = false) :
    wellFormed (u :: s) = wellFormed s := by
  have hh : isHigh u = false := (Bool.or_eq_false_iff.mp hu).1
  cases s with
  | nil => simp [wellFormed, hu]
  | cons v r => rw [wellFormed, if_neg (by simp [hh])]; simp [hu]

theorem wellFormed_append : ∀ {s t : JsString}, wellFormed s = true → wellFormed t = true →
    wellFormed (s ++ t) = true
  | [], _, _, ht => ht
  | [u], t, hs, ht => by
    rw [List.singleton_append, wellFormed_cons (by simpa [wellFormed] using hs)]
    exact ht
  | u :: v :: r, t, hs, ht => by
    rw [wellFormed] at hs
    rw [List.cons_append, List.cons_append, wellFormed]
    split
    · next hp =>
      rw [if_pos hp] at hs
      exact wellFormed_append hs ht
    · next hp =>
      rw [if_neg hp] at hs
      obtain ⟨hu, hr⟩ := Bool.and_eq_true_iff.mp hs
      rw [hu, Bool.true_and, ← List.cons_append]
      exact wellFormed_append hr ht

theorem scalars_append : ∀ {s : JsString} (t : JsString), wellFormed s = true →
    scalars (s ++ t) = scalars s ++ scalars t
  | [], _, _ => rfl
  | [u], t, hs => by
    have hu : isSurrogate u = false := by simpa [wellFormed] using hs
    have hh : isHigh u = false := (Bool.or_eq_false_iff.mp hu).1
    cases t with
    | nil => simp [scalars]
    | cons v r => simp [scalars, hh, hu]
  | u :: v :: r, t, hs => by
    rw [wellFormed] at hs
    rw [List.cons_append, List.cons_append, scalars, scalars]
    split
    · next hp =>
      rw [if_pos hp] at hs
      rw [scalars_append t hs, List.cons_append]
    · next hp =>
      rw [if_neg hp] at hs
      rw [← List.cons_append, scalars_append t (Bool.and_eq_true_iff.mp hs).2, List.cons_append]

/-- Text of characters below the surrogates. -/
theorem wellFormed_of_lt {s : JsString} (h : ∀ u ∈ s, u.toNat < 0xD800) : wellFormed s = true := by
  induction s with
  | nil => rfl
  | cons u s ih =>
    have hu : isSurrogate u = false := by
      have := h u (List.mem_cons_self ..)
      simp only [isSurrogate, isHigh, isLow, Bool.or_eq_false_iff, Bool.and_eq_false_iff,
        decide_eq_false_iff_not]
      omega
    rw [wellFormed_cons hu]
    exact ih fun v hv => h v (List.mem_cons_of_mem _ hv)

/-! ## UTF-8 -/

/-- The bytes of a code point. -/
def utf8 (c : Nat) : List Nat :=
  if c < 0x80 then [c]
  else if c < 0x800 then [0xC0 + c / 0x40, 0x80 + c % 0x40]
  else if c < 0x10000 then [0xE0 + c / 0x1000, 0x80 + c / 0x40 % 0x40, 0x80 + c % 0x40]
  else [0xF0 + c / 0x40000, 0x80 + c / 0x1000 % 0x40, 0x80 + c / 0x40 % 0x40, 0x80 + c % 0x40]

/-- `new TextEncoder().encode(s)` -/
def utf8Encode (s : JsString) : Bytes := ((scalars s).flatMap utf8).map UInt8.ofNat

/-- The decoder between two bytes: how many continuation bytes are owed, the
bits read so far and the range of the next byte. -/
structure Utf8State where
  need : Nat
  point : Nat
  lower : Nat
  upper : Nat
deriving DecidableEq

def Utf8State.start : Utf8State := ⟨0, 0, 0x80, 0xBF⟩

/-- A byte where a sequence may begin. -/
def utf8First (b : Nat) : List Nat × Utf8State :=
  if b ≤ 0x7F then ([b], .start)
  else if 0xC2 ≤ b ∧ b ≤ 0xDF then ([], ⟨1, b % 0x20, 0x80, 0xBF⟩)
  else if 0xE0 ≤ b ∧ b ≤ 0xEF then
    ([], ⟨2, b % 0x10, if b = 0xE0 then 0xA0 else 0x80, if b = 0xED then 0x9F else 0xBF⟩)
  else if 0xF0 ≤ b ∧ b ≤ 0xF4 then
    ([], ⟨3, b % 0x08, if b = 0xF0 then 0x90 else 0x80, if b = 0xF4 then 0x8F else 0xBF⟩)
  else ([0xFFFD], .start)

/-- One byte. A byte that cannot continue the sequence begins a new one. -/
def utf8Step (st : Utf8State) (b : Nat) : List Nat × Utf8State :=
  if st.need = 0 then utf8First b
  else if st.lower ≤ b ∧ b ≤ st.upper then
    if st.need = 1 then ([st.point * 0x40 + b % 0x40], .start)
    else ([], ⟨st.need - 1, st.point * 0x40 + b % 0x40, 0x80, 0xBF⟩)
  else (0xFFFD :: (utf8First b).1, (utf8First b).2)

def utf8Run : Utf8State → List Nat → List Nat
  | st, [] => if st.need = 0 then [] else [0xFFFD]
  | st, b :: bs => (utf8Step st b).1 ++ utf8Run (utf8Step st b).2 bs

/-- The byte order mark `TextDecoder` drops. -/
def dropBom : List Nat → List Nat
  | 0xEF :: 0xBB :: 0xBF :: r => r
  | r => r

/-- `new TextDecoder().decode(bytes)` -/
def utf8Decode (bs : Bytes) : JsString :=
  (utf8Run .start (dropBom (bs.map UInt8.toNat))).flatMap pointUnits

theorem utf8Encode_append {s : JsString} (t : JsString) (hs : wellFormed s = true) :
    utf8Encode (s ++ t) = utf8Encode s ++ utf8Encode t := by
  rw [utf8Encode, scalars_append t hs, List.flatMap_append, List.map_append, utf8Encode, utf8Encode]

theorem utf8_lt {c b : Nat} (h : Scalar c) (hb : b ∈ utf8 c) : b < 256 := by
  unfold Scalar at h
  unfold utf8 at hb
  split at hb
  · simp only [List.mem_singleton] at hb; omega
  split at hb
  · simp only [List.mem_cons, List.not_mem_nil, or_false] at hb; omega
  split at hb
  · simp only [List.mem_cons, List.not_mem_nil, or_false] at hb; omega
  · simp only [List.mem_cons, List.not_mem_nil, or_false] at hb; omega

theorem utf8Step_cont {n p lo hi b : Nat} (hn : n ≠ 0) (hb : lo ≤ b ∧ b ≤ hi) :
    utf8Step ⟨n, p, lo, hi⟩ b =
      if n = 1 then ([p * 0x40 + b % 0x40], .start) else ([], ⟨n - 1, p * 0x40 + b % 0x40, 0x80, 0xBF⟩) := by
  rw [utf8Step, if_neg hn, if_pos hb]

/-- The decoder reads back one encoded code point. -/
theorem utf8Run_utf8 {c : Nat} (h : Scalar c) (r : List Nat) :
    utf8Run .start (utf8 c ++ r) = c :: utf8Run .start r := by
  unfold Scalar at h
  have first : ∀ b, utf8Step .start b = utf8First b := fun b => rfl
  by_cases h1 : c < 0x80
  · have hf : utf8First c = ([c], .start) := by rw [utf8First, if_pos (by omega)]
    simp only [utf8, if_pos h1, List.singleton_append, utf8Run, first, hf]
  by_cases h2 : c < 0x800
  · have hf : utf8First (0xC0 + c / 0x40) = ([], ⟨1, c / 0x40, 0x80, 0xBF⟩) := by
      rw [utf8First, if_neg (by omega), if_pos (by omega)]
      congr 2; omega
    simp only [utf8, if_neg h1, if_pos h2, List.cons_append, List.nil_append, utf8Run, first, hf]
    rw [utf8Step_cont (by decide) (by omega), if_pos rfl]
    simp only [List.cons_append, List.nil_append]
    congr 1; omega
  by_cases h3 : c < 0x10000
  · have hf : utf8First (0xE0 + c / 0x1000) = ([], ⟨2, c / 0x1000,
        if 0xE0 + c / 0x1000 = 0xE0 then 0xA0 else 0x80,
        if 0xE0 + c / 0x1000 = 0xED then 0x9F else 0xBF⟩) := by
      rw [utf8First, if_neg (by omega), if_neg (by omega), if_pos (by omega)]
      congr 2; omega
    simp only [utf8, if_neg h1, if_neg h2, if_pos h3, List.cons_append, List.nil_append, utf8Run,
      first, hf]
    rw [utf8Step_cont (by decide) (by split <;> split <;> omega), if_neg (by decide),
      utf8Step_cont (by decide) (by omega), if_pos rfl]
    simp only [List.cons_append, List.nil_append]
    congr 1; omega
  · have hf : utf8First (0xF0 + c / 0x40000) = ([], ⟨3, c / 0x40000,
        if 0xF0 + c / 0x40000 = 0xF0 then 0x90 else 0x80,
        if 0xF0 + c / 0x40000 = 0xF4 then 0x8F else 0xBF⟩) := by
      rw [utf8First, if_neg (by omega), if_neg (by omega), if_neg (by omega), if_pos (by omega)]
      congr 2; omega
    simp only [utf8, if_neg h1, if_neg h2, if_neg h3, List.cons_append, List.nil_append, utf8Run,
      first, hf]
    rw [utf8Step_cont (by decide) (by split <;> split <;> omega), if_neg (by decide),
      utf8Step_cont (by decide) (by omega), if_neg (by decide),
      utf8Step_cont (by decide) (by omega), if_pos rfl]
    simp only [List.cons_append, List.nil_append]
    congr 1; omega

theorem utf8Run_flatMap {cs : List Nat} (h : ∀ c ∈ cs, Scalar c) :
    utf8Run .start (cs.flatMap utf8) = cs := by
  induction cs with
  | nil => rfl
  | cons c cs ih =>
    rw [List.flatMap_cons, utf8Run_utf8 (h c (List.mem_cons_self ..)),
      ih fun d hd => h d (List.mem_cons_of_mem _ hd)]

theorem map_toNat_utf8Encode (s : JsString) :
    (utf8Encode s).map UInt8.toNat = (scalars s).flatMap utf8 := by
  rw [utf8Encode, List.map_map]
  conv_rhs => rw [← List.map_id ((scalars s).flatMap utf8)]
  apply List.map_congr_left
  intro b hb
  obtain ⟨c, hc, hbc⟩ := List.mem_flatMap.mp hb
  have hlt := utf8_lt (scalars_scalar s c hc) hbc
  simp only [Function.comp_apply, UInt8.toNat_ofNat', id_eq]
  omega

/-- A string without lone surrogates and without a byte order mark at its
start is decoded from its encoding. -/
theorem utf8Decode_utf8Encode {s : JsString} (hs : wellFormed s = true)
    (hb : s.head? ≠ some 0xFEFF) : utf8Decode (utf8Encode s) = s := by
  have hrun := utf8Run_flatMap (scalars_scalar s)
  have hbom : dropBom ((scalars s).flatMap utf8) = (scalars s).flatMap utf8 := by
    unfold dropBom
    split
    · next r he =>
      rw [he] at hrun
      have hpoint : utf8Run .start (0xEF :: 0xBB :: 0xBF :: r) = 0xFEFF :: utf8Run .start r := rfl
      have hunits := units_scalars s hs
      rw [← hrun, hpoint, List.flatMap_cons] at hunits
      exact absurd (by rw [← hunits]; rfl) hb
    · rfl
  rw [utf8Decode, map_toNat_utf8Encode, hbom, hrun, units_scalars s hs]

end Senn.Js
