import Mathlib.Algebra.Order.Field.Basic
import Mathlib.Data.Nat.Prime.Basic
import Mathlib.Tactic.Linarith
import Mathlib.Tactic.FieldSimp
import Mathlib.Tactic.Ring
import Mathlib.Tactic.NormNum
import Senn.Js.JsonRoundTrip

/-! # Every double reads back

The text of a double is that of its shortest digits, or of all of them; the reader makes the
same double of it. -/

namespace Senn.Js

/-! ## Fractions of naturals -/

theorem powered_eq (b m : Nat) (e : Int) : powered b m e = m * (b : ℚ) ^ e := by
  unfold powered
  split
  · next he =>
    obtain ⟨n, rfl⟩ := Int.eq_ofNat_of_zero_le he
    simp
  · next he =>
    obtain ⟨n, hn⟩ : ∃ n : Nat, e = -(n : Int) := ⟨(-e).toNat, by omega⟩
    subst hn
    rw [Rat.mkRat_eq_div, zpow_neg]
    simp [div_eq_mul_inv]

theorem num_div_den {q : ℚ} (hq : 0 ≤ q) : (q.num.natAbs : ℚ) / q.den = q := by
  have hnum : 0 ≤ q.num := Rat.num_nonneg.mpr hq
  have hcast : ((q.num.natAbs : Nat) : ℚ) = (q.num : ℚ) := by
    rw [← Int.cast_natCast, Int.natAbs_of_nonneg hnum]
  rw [hcast, Rat.num_div_den]

theorem scaled_pos {b : Nat} (hb : 0 < b) (q : ℚ) (e : Int) : 0 < (scaled b q e).2 := by
  unfold scaled
  split
  · exact Nat.mul_pos q.pos (Nat.pow_pos hb)
  · exact q.pos

theorem scaled_div {b : Nat} (hb : 0 < b) {q : ℚ} (hq : 0 ≤ q) (e : Int) :
    ((scaled b q e).1 : ℚ) / (scaled b q e).2 = q / (b : ℚ) ^ e := by
  have hpow : (b : ℚ) ≠ 0 := by exact_mod_cast hb.ne'
  conv_rhs => rw [← num_div_den hq]
  unfold scaled
  split
  · next he =>
    obtain ⟨n, rfl⟩ := Int.eq_ofNat_of_zero_le he
    push_cast
    rw [Int.toNat_natCast, zpow_natCast, div_div]
  · next he =>
    obtain ⟨n, hn⟩ : ∃ n : Nat, e = -(n : Int) := ⟨(-e).toNat, by omega⟩
    subst hn
    push_cast
    rw [neg_neg, Int.toNat_natCast, zpow_neg, zpow_natCast]
    field_simp

/-! ## The shortest digits -/

/-- The exponent is that of the leading digit. -/
theorem decimalExponent_spec {q : ℚ} (hq : 0 < q) :
    (10 : ℚ) ^ (decimalExponent q - 1) ≤ q ∧ q < (10 : ℚ) ^ decimalExponent q := by
  have hnum : q.num.natAbs ≠ 0 := by
    have := Rat.num_pos.mpr hq
    omega
  have hlow : (10 : ℚ) ^ Nat.log 10 q.num.natAbs ≤ q.num.natAbs := by
    exact_mod_cast Nat.pow_log_le_self 10 hnum
  have hhigh : (q.num.natAbs : ℚ) < (10 : ℚ) ^ (Nat.log 10 q.num.natAbs + 1) := by
    exact_mod_cast Nat.lt_pow_succ_log_self (by decide) _
  have hlow' : (10 : ℚ) ^ Nat.log 10 q.den ≤ q.den := by
    exact_mod_cast Nat.pow_log_le_self 10 q.den_nz
  have hhigh' : (q.den : ℚ) < (10 : ℚ) ^ (Nat.log 10 q.den + 1) := by
    exact_mod_cast Nat.lt_pow_succ_log_self (by decide) _
  have hden : (0 : ℚ) < q.den := by exact_mod_cast q.pos
  have hq' := num_div_den hq.le
  have hten : (10 : ℚ) ≠ 0 := by norm_num
  obtain ⟨a, ha⟩ : ∃ a, Nat.log 10 q.num.natAbs = a := ⟨_, rfl⟩
  obtain ⟨d, hd⟩ : ∃ d, Nat.log 10 q.den = d := ⟨_, rfl⟩
  rw [ha] at hlow hhigh
  rw [hd] at hlow' hhigh'
  have hupper : q < (10 : ℚ) ^ ((a : Int) - d + 1) := by
    have heq : (10 : ℚ) ^ ((a : Int) - d + 1) = 10 ^ (a + 1) / 10 ^ d := by
      rw [← zpow_natCast, ← zpow_natCast, ← zpow_sub₀ hten]
      congr 1
      push_cast
      ring
    rw [heq, ← hq']
    calc (q.num.natAbs : ℚ) / q.den < 10 ^ (a + 1) / q.den := by gcongr
      _ ≤ 10 ^ (a + 1) / 10 ^ d := by gcongr
  have hlower : (10 : ℚ) ^ ((a : Int) - d - 1) ≤ q := by
    have heq : (10 : ℚ) ^ ((a : Int) - d - 1) = 10 ^ a / 10 ^ (d + 1) := by
      rw [← zpow_natCast, ← zpow_natCast, ← zpow_sub₀ hten]
      congr 1
      push_cast
      ring
    rw [heq, ← hq']
    calc (10 : ℚ) ^ a / 10 ^ (d + 1) ≤ 10 ^ a / q.den := by gcongr
      _ ≤ (q.num.natAbs : ℚ) / q.den := by gcongr
  have hscaled := scaled_div (b := 10) (by decide) hq.le ((a : Int) - d)
  have hpos : (0 : ℚ) < (scaled 10 q ((a : Int) - d)).2 := by
    exact_mod_cast scaled_pos (b := 10) (by decide) q _
  have hpow : (0 : ℚ) < (10 : ℚ) ^ ((a : Int) - d) := zpow_pos (by norm_num) _
  have hless : (scaled 10 q ((a : Int) - d)).1 < (scaled 10 q ((a : Int) - d)).2 ↔
      q < (10 : ℚ) ^ ((a : Int) - d) := by
    rw [← div_lt_one hpow, ← Nat.cast_lt (α := ℚ), ← div_lt_one hpos, hscaled]
    norm_num
  unfold decimalExponent
  simp only [ha, hd]
  split
  · next h => exact ⟨hlower, hless.mp h⟩
  · next h =>
    rw [add_sub_cancel_right]
    exact ⟨not_lt.mp fun hlt => h (hless.mpr hlt), hupper⟩

theorem roundEven_cases (n d : Nat) : roundEven n d = n / d ∨ roundEven n d = n / d + 1 := by
  unfold roundEven
  dsimp only
  split <;> simp

/-- The digits found are as many as asked for, and give the double. -/
theorem digitsOf_spec {q : ℚ} (hq : 0 < q) {k s : Nat} (hk : 1 ≤ k) {n : Int}
    (h : digitsOf? q k = some (s, n)) :
    10 ^ (k - 1) ≤ s ∧ s < 10 ^ k ∧ toDouble (powered 10 s (n - k)) = .fin q := by
  obtain ⟨hlow, hhigh⟩ := decimalExponent_spec hq
  have hten : (10 : ℚ) ≠ 0 := by norm_num
  obtain ⟨e, he⟩ : ∃ e, decimalExponent q = e := ⟨_, rfl⟩
  rw [he] at hlow hhigh
  have hscaled := scaled_div (b := 10) (by decide) hq.le (e - k)
  have hpos : (0 : ℚ) < (scaled 10 q (e - k)).2 := by
    exact_mod_cast scaled_pos (b := 10) (by decide) q _
  have hpow : (0 : ℚ) < (10 : ℚ) ^ (e - k) := zpow_pos (by norm_num) _
  have hlow' : 10 ^ (k - 1) * (scaled 10 q (e - k)).2 ≤ (scaled 10 q (e - k)).1 := by
    have hle : (10 : ℚ) ^ (k - 1) ≤ ((scaled 10 q (e - k)).1 : ℚ) / (scaled 10 q (e - k)).2 := by
      rw [hscaled, Nat.cast_ofNat, le_div_iff₀ hpow, ← zpow_natCast, ← zpow_add₀ hten]
      refine le_trans (le_of_eq ?_) hlow
      congr 1
      omega
    rw [le_div_iff₀ hpos] at hle
    exact_mod_cast hle
  have hhigh' : (scaled 10 q (e - k)).1 < 10 ^ k * (scaled 10 q (e - k)).2 := by
    have hlt : ((scaled 10 q (e - k)).1 : ℚ) / (scaled 10 q (e - k)).2 < (10 : ℚ) ^ k := by
      rw [hscaled, Nat.cast_ofNat, div_lt_iff₀ hpow, ← zpow_natCast, ← zpow_add₀ hten]
      refine lt_of_lt_of_eq hhigh ?_
      congr 1
      omega
    rw [div_lt_iff₀ hpos] at hlt
    exact_mod_cast hlt
  have hden := scaled_pos (b := 10) (by decide) q (e - k)
  have hfloor : 10 ^ (k - 1) ≤ (scaled 10 q (e - k)).1 / (scaled 10 q (e - k)).2 :=
    (Nat.le_div_iff_mul_le hden).mpr hlow'
  have hfloor' : (scaled 10 q (e - k)).1 / (scaled 10 q (e - k)).2 < 10 ^ k :=
    (Nat.div_lt_iff_lt_mul hden).mpr hhigh'
  unfold digitsOf? at h
  simp only [he] at h
  obtain ⟨t, ht, hs⟩ := Option.map_eq_some_iff.mp h
  have hmem := List.mem_of_find?_eq_some ht
  have hreads : toDouble (powered 10 t (e - k)) = .fin q := by
    have := List.find?_some (p := fun s => decide (toDouble (powered 10 s (e - k)) = .fin q)) ht
    exact of_decide_eq_true this
  have hround := roundEven_cases (scaled 10 q (e - k)).1 (scaled 10 q (e - k)).2
  have ht' : 10 ^ (k - 1) ≤ t ∧ t ≤ 10 ^ k := by
    simp only [List.mem_cons, List.not_mem_nil, or_false] at hmem
    obtain rfl | rfl := hmem
    · omega
    · split <;> omega
  split at hs
  · next hcarry =>
    -- all nines rounded up: one digit less, one place more
    obtain ⟨rfl, rfl⟩ := Prod.mk.inj hs
    refine ⟨le_refl _, Nat.pow_lt_pow_right (by decide) (by omega), ?_⟩
    rw [← hreads, hcarry, powered_eq, powered_eq]
    congr 1
    push_cast
    rw [← zpow_natCast, ← zpow_natCast, ← zpow_add₀ hten, ← zpow_add₀ hten]
    congr 1
    omega
  · next hcarry =>
    obtain ⟨rfl, rfl⟩ := Prod.mk.inj hs
    exact ⟨ht'.1, lt_of_le_of_ne ht'.2 hcarry, hreads⟩

/-- The denominator of a double is a power of two. -/
theorem den_of_double {q : ℚ} (hq : 0 < q) (h : toDouble q = .fin q) :
    q.den = 2 ^ Nat.log2 q.den := by
  have hdvd : ∃ j, q.den ∣ 2 ^ j := by
    unfold toDouble at h
    split at h
    · next hint => exact ⟨0, by rw [hint.1, pow_zero]⟩
    · dsimp only at h
      split at h
      · split at h <;> cases h
      · have hneg : ¬ q.num < 0 := not_lt.mpr (Rat.num_nonneg.mpr hq.le)
        have hq' := Number.fin.inj h
        rw [if_neg hneg] at hq'
        unfold powered at hq'
        split at hq'
        · refine ⟨0, ?_⟩
          rw [← hq', Rat.den_natCast, pow_zero]
        · generalize lastBit q = e at hq'
          generalize roundEven (scaled 2 q e).1 (scaled 2 q e).2 = m at hq'
          refine ⟨(-e).toNat, ?_⟩
          rw [← hq', Rat.den_mkRat, if_neg (by positivity)]
          exact Nat.div_dvd_of_dvd (Nat.gcd_dvd_left _ _)
  obtain ⟨j, hj⟩ := hdvd
  obtain ⟨i, _, hi⟩ := (Nat.dvd_prime_pow Nat.prime_two).mp hj
  rw [hi, Nat.log2_two_pow]

/-- The digits of a double's text: their number, and that they give the double. -/
theorem shortest_spec {q : ℚ} (hq : 0 < q) (h : toDouble q = .fin q) {k s : Nat} {n : Int}
    (hs : shortest q = (k, s, n)) :
    1 ≤ k ∧ 10 ^ (k - 1) ≤ s ∧ s < 10 ^ k ∧ toDouble (powered 10 s (n - k)) = .fin q := by
  unfold shortest at hs
  cases hfound : (List.range' 1 17).findSome? fun k => (digitsOf? q k).map fun p => (k, p) with
  | some p =>
    rw [hfound] at hs
    obtain ⟨k', hk', hsome⟩ := List.exists_of_findSome?_eq_some hfound
    obtain ⟨p', hp', heq⟩ := Option.map_eq_some_iff.mp hsome
    obtain rfl : p = (k, s, n) := hs
    obtain ⟨rfl, rfl⟩ := Prod.mk.inj heq
    have hk : 1 ≤ k' := (List.mem_range'_1.mp hk').1
    exact ⟨hk, digitsOf_spec hq hk hp'⟩
  | none =>
    rw [hfound] at hs
    simp only [Option.getD_none, Prod.mk.injEq] at hs
    obtain ⟨rfl, rfl, rfl⟩ := hs
    have hnum : q.num.natAbs ≠ 0 := by
      have := Rat.num_pos.mpr hq
      omega
    have hne : q.num.natAbs * 5 ^ Nat.log2 q.den ≠ 0 := by positivity
    refine ⟨by omega, Nat.pow_log_le_self 10 hne, Nat.lt_pow_succ_log_self (by decide) _, ?_⟩
    have hvalue : powered 10 (q.num.natAbs * 5 ^ Nat.log2 q.den)
        (((Nat.log 10 (q.num.natAbs * 5 ^ Nat.log2 q.den) + 1 : Nat) : Int) - Nat.log2 q.den -
          (Nat.log 10 (q.num.natAbs * 5 ^ Nat.log2 q.den) + 1 : Nat)) = q := by
      rw [powered_eq, sub_sub_cancel_left, zpow_neg, zpow_natCast]
      conv_rhs => rw [← num_div_den hq.le, den_of_double hq h]
      have hfive : (5 : ℚ) ^ Nat.log2 q.den ≠ 0 := by positivity
      have htwo : (2 : ℚ) ^ Nat.log2 q.den ≠ 0 := by positivity
      have hten : (10 : ℚ) ^ Nat.log2 q.den = 2 ^ Nat.log2 q.den * 5 ^ Nat.log2 q.den := by
        rw [← mul_pow]
        norm_num
      push_cast
      rw [hten]
      field_simp
    rw [hvalue, h]

/-! ## Reading the text -/

/-- What may follow a run of digits. -/
def DigitEnd (r : JsString) : Prop := ∀ u r', r = u :: r' → isDigit u = false

theorem NumEnd.digitEnd {r : JsString} (h : NumEnd r) : DigitEnd r := fun u r' he => (h u r' he).1

theorem digitEnd_cons {u : UInt16} {r : JsString} (h : isDigit u = false) : DigitEnd (u :: r) := by
  intro v r' he
  obtain ⟨rfl, _⟩ := List.cons.inj he
  exact h

theorem parseDigits_run {ds r : JsString} (hne : ds ≠ []) (hd : ∀ u ∈ ds, isDigit u = true)
    (hr : DigitEnd r) : parseDigits (ds ++ r) = some (ds, r) := by
  have hspan : ∀ {ds : JsString}, (∀ u ∈ ds, isDigit u = true) → spanDigits (ds ++ r) = (ds, r) := by
    intro ds hd
    induction ds with
    | nil =>
      cases r with
      | nil => rfl
      | cons u r' => simp [spanDigits, hr u r' rfl]
    | cons u ds ih =>
      have hu := hd u (.head _)
      simp [spanDigits, hu, ih fun v hv => hd v (.tail _ hv)]
  rw [parseDigits, hspan hd, if_neg hne]

/-- Digits that begin with no zero are the integer part. -/
theorem parseInteger_run {u : UInt16} {ds r : JsString} (hu : u ≠ 0x30)
    (hd : ∀ v ∈ u :: ds, isDigit v = true) (hr : DigitEnd r) :
    parseInteger (u :: ds ++ r) = some (u :: ds, r) := by
  unfold parseInteger
  split
  · next he => exact absurd (List.cons.inj he).1 hu
  · exact parseDigits_run (List.cons_ne_nil _ _) hd hr

theorem parseFraction_run {ds r : JsString} (hne : ds ≠ []) (hd : ∀ v ∈ ds, isDigit v = true)
    (hr : DigitEnd r) : parseFraction (0x2E :: ds ++ r) = some (ds, r) :=
  parseDigits_run hne hd hr

theorem parseFraction_none {r : JsString} (hr : ∀ r', r ≠ 0x2E :: r') :
    parseFraction r = some ([], r) := by
  unfold parseFraction
  split
  · next r' => exact absurd rfl (hr r')
  · rfl

theorem ofDigits_append (ds es : JsString) :
    ofDigits (ds ++ es) = ofDigits ds * 10 ^ es.length + ofDigits es := by
  induction es using List.reverseRecOn with
  | nil => simp [ofDigits]
  | append_singleton es u ih =>
    rw [← List.append_assoc, ofDigits_snoc, ih, ofDigits_snoc, List.length_append,
      List.length_singleton, pow_succ]
    ring

theorem ofDigits_zeros (m : Nat) : ofDigits (List.replicate m 48) = 0 := by
  induction m with
  | zero => rfl
  | succ m ih =>
    rw [List.replicate_succ', ofDigits_snoc, ih]
    rfl

theorem zeros_digits {m : Nat} {u : UInt16} (h : u ∈ List.replicate m (48 : UInt16)) :
    isDigit u = true := by
  rw [List.eq_of_mem_replicate h]
  decide

/-- The exponent of a text. -/
def exponentText (e : Int) : JsString := js (if e < 0 then "e-" else "e+") ++ natText 10 e.natAbs

theorem parseExponent_text (e : Int) {r : JsString} (hr : NumEnd r) :
    parseExponent (exponentText e ++ r) = some (e, r) := by
  have hdigits := parseDigits_run (natText_ne_nil (b := 10) e.natAbs)
    (fun _ hu => natText_digits hu) hr.digitEnd
  unfold exponentText
  split
  · show ((parseDigits (natText 10 e.natAbs ++ r)).map
      fun p => (-(ofDigits p.1 : Int), p.2)) = some (e, r)
    rw [hdigits, Option.map_some, ofDigits_natText]
    congr 2
    omega
  · show ((parseDigits (natText 10 e.natAbs ++ r)).map
      fun p => ((ofDigits p.1 : Int), p.2)) = some (e, r)
    rw [hdigits, Option.map_some, ofDigits_natText]
    congr 2
    omega

theorem natText_length {k s : Nat} (hk : 1 ≤ k) (hlow : 10 ^ (k - 1) ≤ s) (hhigh : s < 10 ^ k) :
    (natText 10 s).length = k := by
  have hs : s ≠ 0 := by
    have : 0 < 10 ^ (k - 1) := by positivity
    omega
  have hlog : Nat.log 10 s = k - 1 := by
    refine (Nat.log_eq_iff (.inr ⟨by decide, hs⟩)).mpr ⟨hlow, ?_⟩
    rwa [Nat.sub_add_cancel hk]
  rw [natText, if_neg hs, List.length_map, List.length_reverse, Nat.length_digits 10 s (by decide) hs,
    hlog, Nat.sub_add_cancel hk]

theorem parseUnsigned_parts {int frac s r1 r2 r3 : JsString} {e : Int}
    (hint : parseInteger s = some (int, r1)) (hfrac : parseFraction r1 = some (frac, r2))
    (hexp : parseExponent r2 = some (e, r3)) :
    parseUnsigned s = some (powered 10 (ofDigits (int ++ frac)) (e - frac.length), r3) := by
  simp only [parseUnsigned, hint, hfrac, hexp, Option.bind_eq_bind, Option.bind_some]
  rfl

section
variable {s : Nat} {e : Int} {r E : JsString}

/-- A numeral and zeros behind it, before something that is no fraction. -/
theorem reads_integer (hs : s ≠ 0) (m : Nat) (hexp : parseExponent E = some (e, r))
    (hend : DigitEnd E) (hpoint : ∀ r', E ≠ 0x2E :: r') :
    parseUnsigned (natText 10 s ++ List.replicate m 48 ++ E) =
      some (powered 10 (s * 10 ^ m) e, r) := by
  obtain ⟨u, t, ht⟩ := List.exists_cons_of_ne_nil (natText_ne_nil (b := 10) s)
  have hdigits : ∀ v ∈ u :: (t ++ List.replicate m 48), isDigit v = true := by
    intro v hv
    rw [← List.cons_append, ← ht] at hv
    rcases List.mem_append.mp hv with hv | hv
    · exact natText_digits hv
    · exact zeros_digits hv
  have hparse := parseUnsigned_parts (parseInteger_run (natText_head hs ht) hdigits hend)
    (parseFraction_none hpoint) hexp
  have hvalue : ofDigits (u :: (t ++ List.replicate m 48) ++ []) = s * 10 ^ m := by
    rw [List.append_nil, ← List.cons_append, ← ht, ofDigits_append, ofDigits_natText,
      ofDigits_zeros, List.length_replicate, Nat.add_zero]
  rw [hvalue, List.length_nil, Nat.cast_zero, sub_zero] at hparse
  rw [ht, List.cons_append]
  exact hparse

/-- A numeral with a point among its digits. -/
theorem reads_point (hs : s ≠ 0) {m : Nat} (hm : 0 < m) (hlength : m < (natText 10 s).length)
    (hexp : parseExponent E = some (e, r)) (hend : DigitEnd E) :
    parseUnsigned ((natText 10 s).take m ++ 0x2E :: (natText 10 s).drop m ++ E) =
      some (powered 10 s (e + m - (natText 10 s).length), r) := by
  obtain ⟨u, t, ht⟩ := List.exists_cons_of_ne_nil (natText_ne_nil (b := 10) s)
  have hfirst : ∀ v ∈ u :: t.take (m - 1), isDigit v = true := by
    intro v hv
    refine natText_digits (n := s) ?_
    rw [ht]
    rcases List.mem_cons.mp hv with rfl | hv
    · exact .head _
    · exact .tail _ (List.mem_of_mem_take hv)
  have hsecond : ∀ v ∈ (natText 10 s).drop m, isDigit v = true := fun v hv =>
    natText_digits (List.mem_of_mem_drop hv)
  have hne : (natText 10 s).drop m ≠ [] := by
    intro hnil
    have := List.drop_eq_nil_iff.mp hnil
    omega
  have htake : (natText 10 s).take m = u :: t.take (m - 1) := by
    rw [ht, List.take_cons hm]
  have hpoint : DigitEnd (0x2E :: (natText 10 s).drop m ++ E) := digitEnd_cons (by decide)
  have hparse := parseUnsigned_parts (parseInteger_run (natText_head hs ht) hfirst hpoint)
    (parseFraction_run hne hsecond hend) hexp
  have hvalue : ofDigits (u :: t.take (m - 1) ++ (natText 10 s).drop m) = s := by
    rw [← htake, List.take_append_drop, ofDigits_natText]
  have hexponent : e - ((natText 10 s).drop m).length = e + m - (natText 10 s).length := by
    rw [List.length_drop]
    omega
  rw [hvalue, hexponent] at hparse
  rw [htake, List.append_assoc]
  exact hparse

/-- A numeral with a zero, a point and zeros before it. -/
theorem reads_fraction (m : Nat) (hr : NumEnd r) :
    parseUnsigned (js "0." ++ List.replicate m 48 ++ natText 10 s ++ r) =
      some (powered 10 s (-m - (natText 10 s).length), r) := by
  have hfrac : ∀ v ∈ List.replicate m 48 ++ natText 10 s, isDigit v = true := by
    intro v hv
    rcases List.mem_append.mp hv with hv | hv
    · exact zeros_digits hv
    · exact natText_digits hv
  have hne : List.replicate m 48 ++ natText 10 s ≠ [] := by simp [natText_ne_nil]
  have hint : parseInteger (0x30 :: 0x2E :: (List.replicate m 48 ++ natText 10 s) ++ r) =
      some ([0x30], 0x2E :: (List.replicate m 48 ++ natText 10 s) ++ r) := rfl
  have hparse := parseUnsigned_parts hint (parseFraction_run hne hfrac hr.digitEnd)
    (parseExponent_end hr)
  have hvalue : ofDigits ([0x30] ++ (List.replicate m 48 ++ natText 10 s)) = s := by
    rw [ofDigits_append, ofDigits_append, ofDigits_zeros, ofDigits_natText]
    simp [ofDigits]
  have hexponent : (0 : Int) - (List.replicate m 48 ++ natText 10 s).length =
      -m - (natText 10 s).length := by
    rw [List.length_append, List.length_replicate]
    push_cast
    ring
  rw [hvalue, hexponent] at hparse
  rw [show js "0." = [0x30, 0x2E] from rfl]
  simpa only [List.cons_append, List.nil_append, List.append_assoc] using hparse

end

/-- An exponent stands behind digits and is no fraction. -/
theorem exponentText_end (e : Int) (r : JsString) :
    DigitEnd (exponentText e ++ r) ∧ ∀ r', exponentText e ++ r ≠ 0x2E :: r' := by
  have hletter : ∃ r', exponentText e ++ r = 0x65 :: r' := by
    unfold exponentText
    split <;> exact ⟨_, rfl⟩
  obtain ⟨r', hr'⟩ := hletter
  rw [hr']
  refine ⟨digitEnd_cons (by decide), fun r'' heq => ?_⟩
  exact absurd (List.cons.inj heq).1 (by decide)

/-- The text of a positive double reads as its digits. -/
theorem parseUnsigned_positiveText {q : ℚ} (hq : 0 < q) (h : toDouble q = .fin q) {r : JsString}
    (hr : NumEnd r) : ∃ v, parseUnsigned (positiveText q ++ r) = some (v, r) ∧
      toDouble v = .fin q := by
  obtain ⟨k, s, n, hs⟩ : ∃ k s n, shortest q = (k, s, n) := ⟨_, _, _, rfl⟩
  obtain ⟨hk, hlow, hhigh, hdouble⟩ := shortest_spec hq h hs
  have hlength := natText_length hk hlow hhigh
  have hs0 : s ≠ 0 := by
    have : 0 < 10 ^ (k - 1) := by positivity
    omega
  have hpoint : ∀ r', r ≠ 0x2E :: r' := fun r' heq => (hr _ _ heq).2.1 rfl
  unfold positiveText
  simp only [hs]
  split
  · next hn =>
    refine ⟨_, reads_integer hs0 _ (parseExponent_end hr) hr.digitEnd hpoint, ?_⟩
    rw [← hdouble, powered_eq, powered_eq]
    have hexponent : n - (k : Int) = ((n - k).toNat : Int) := by omega
    rw [hexponent, zpow_natCast]
    simp
  split
  · next hn hn' =>
    refine ⟨_, reads_point hs0 (by omega) (by omega) (parseExponent_end hr) hr.digitEnd, ?_⟩
    rw [← hdouble, hlength]
    congr 2
    omega
  split
  · next hn hn' hn'' =>
    refine ⟨_, reads_fraction _ hr, ?_⟩
    rw [← hdouble, hlength]
    congr 2
    omega
  · next hn hn' hn'' =>
    have htext : ∀ mantissa : JsString, mantissa ++ js (if n - 1 < 0 then "e-" else "e+") ++
        natText 10 (n - 1).natAbs ++ r = mantissa ++ (exponentText (n - 1) ++ r) := by
      intro mantissa
      simp only [exponentText, List.append_assoc]
    obtain ⟨hend, hletter⟩ := exponentText_end (n - 1) r
    have hexponent := parseExponent_text (n - 1) hr
    rw [htext]
    by_cases hone : k = 1
    · rw [if_pos hone, ← List.append_nil (natText 10 s)]
      refine ⟨_, reads_integer hs0 0 hexponent hend hletter, ?_⟩
      rw [← hdouble, pow_zero, Nat.mul_one, hone]
      rfl
    · rw [if_neg hone]
      refine ⟨_, reads_point hs0 (by decide) (by omega) hexponent hend, ?_⟩
      rw [← hdouble, hlength]
      congr 2
      omega

/-! ## Every double -/

/-- A double with its sign turned. -/
theorem toDouble_neg {q : ℚ} (hq : q ≠ 0) {p : ℚ} (h : toDouble q = .fin p) :
    toDouble (-q) = .fin (-p) := by
  have hsign : (-q).num < 0 ↔ ¬ q.num < 0 := by
    rw [Rat.num_neg_eq_neg_num]
    have := Rat.num_ne_zero.mpr hq
    omega
  have hsize : (-q).num.natAbs = q.num.natAbs := by rw [Rat.num_neg_eq_neg_num, Int.natAbs_neg]
  have hden : (-q).den = q.den := Rat.den_neg_eq_den q
  have hlast : lastBit (-q) = lastBit q := by
    unfold lastBit scaled
    simp only [hsize, hden]
  have hscaled : ∀ e, scaled 2 (-q) e = scaled 2 q e := by
    intro e
    unfold scaled
    simp only [hsize, hden]
  unfold toDouble at h ⊢
  simp only [hsize, hden, hlast, hscaled, hsign]
  split at h
  · next hint => rw [if_pos hint, Number.fin.inj h]
  · next hint =>
    rw [if_neg hint]
    dsimp only at h
    by_cases hlarge : ((2 ^ 1024 : Nat) : ℚ) ≤
        powered 2 (roundEven (scaled 2 q (lastBit q)).1 (scaled 2 q (lastBit q)).2) (lastBit q)
    · rw [if_pos hlarge] at h
      split at h <;> cases h
    · rw [if_neg hlarge] at h ⊢
      rw [← Number.fin.inj h]
      by_cases hnum : q.num < 0 <;> simp [hnum]

/-- A finite double. -/
def IsDouble (x : Number) : Prop := ∃ q, x = .fin q ∧ toDouble q = .fin q

/-- The unsigned part of a text. -/
theorem parseNum_unsigned {s r : JsString} {v : ℚ} (h : parseUnsigned s = some (v, r)) :
    parseNum s = some (toDouble v, r) := by
  unfold parseNum
  split
  · next r' =>
    have hnone : parseUnsigned (0x2D :: r') = none := rfl
    rw [hnone] at h
    cases h
  · rw [h, Option.map_some]

theorem readsBack_positive {q : ℚ} (hq : 0 < q) (h : toDouble q = .fin q) {r : JsString}
    (hr : NumEnd r) : ∃ v, parseUnsigned (numText (.fin q) ++ r) = some (v, r) ∧
      toDouble v = .fin q := by
  have hnum : ¬ q.num < 0 := not_lt.mpr (Rat.num_nonneg.mpr hq.le)
  unfold numText
  simp only [if_neg hnum, List.nil_append]
  split
  · next hint =>
    refine ⟨_, parseUnsigned_natText _ hr, ?_⟩
    have hvalue : ((q.num.natAbs : Nat) : ℚ) = q := by
      have := num_div_den hq.le
      rwa [hint.1, Nat.cast_one, div_one] at this
    rw [hvalue, h]
  · exact parseUnsigned_positiveText hq h hr

/-- Every finite double reads back. -/
theorem readsBack_double {x : Number} (hx : IsDouble x) : ReadsBack x := by
  obtain ⟨q, rfl, h⟩ := hx
  refine ⟨⟨q, rfl⟩, fun r hr => ?_⟩
  obtain hneg | rfl | hpos := lt_trichotomy q 0
  · have hpos : 0 < -q := by linarith
    obtain ⟨v, hparse, hv⟩ := readsBack_positive hpos (toDouble_neg hneg.ne h) hr
    have hzero : v ≠ 0 := by
      rintro rfl
      have h0 : toDouble 0 = .fin 0 := toDouble_nat (n := 0) (by decide)
      exact hpos.ne (Number.fin.inj (h0.symm.trans hv))
    have htext : numText (.fin q) = 0x2D :: numText (.fin (-q)) := by
      have hnum : q.num < 0 := Rat.num_neg.mpr hneg
      have hnum' : ¬ -q.num < 0 := by omega
      unfold numText
      simp only [if_pos hnum, if_neg hnum', Rat.num_neg_eq_neg_num, Int.natAbs_neg,
        Rat.den_neg_eq_den, List.nil_append, List.singleton_append]
    rw [htext]
    show (parseUnsigned (numText (.fin (-q)) ++ r)).map (fun p => (toDouble (-p.1), p.2)) = _
    rw [hparse, Option.map_some, toDouble_neg hzero hv, neg_neg]
  · exact (readsBack_ofNat (n := 0) (by decide)).2 r hr
  · obtain ⟨v, hparse, hv⟩ := readsBack_positive hpos h hr
    rw [parseNum_unsigned hparse, hv]

mutual
/-- A JSON value: its numbers are finite doubles, and no object has a key twice. -/
def Json.Proper : Json → Prop
  | .num x => IsDouble x
  | .arr xs => ProperElems xs
  | .obj ms => (ms.map Prod.fst).Nodup ∧ ProperMembers ms
  | _ => True
def ProperElems : List Json → Prop
  | [] => True
  | x :: xs => x.Proper ∧ ProperElems xs
def ProperMembers : List (JsString × Json) → Prop
  | [] => True
  | (_, v) :: ms => v.Proper ∧ ProperMembers ms
end

mutual
theorem Json.Proper.exact : ∀ {v : Json}, v.Proper → v.Exact
  | .null, _ | .bool _, _ | .str _, _ => trivial
  | .num _, h => readsBack_double h
  | .arr _, h => ProperElems.exact h
  | .obj _, h => ⟨h.1, ProperMembers.exact h.2⟩
theorem ProperElems.exact : ∀ {xs : List Json}, ProperElems xs → ExactElems xs
  | [], _ => trivial
  | _ :: _, h => ⟨h.1.exact, ProperElems.exact h.2⟩
theorem ProperMembers.exact : ∀ {ms : List (JsString × Json)}, ProperMembers ms → ExactMembers ms
  | [], _ => trivial
  | (_, _) :: _, h => ⟨h.1.exact, ProperMembers.exact h.2⟩
end

end Senn.Js
