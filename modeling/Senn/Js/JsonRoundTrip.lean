import Senn.Js.Json

/-! # `JSON.parse` after `JSON.stringify`

The reader gives back every value the writer writes: strings with any code
units, lone surrogates included, numbers whose text reads back (`ReadsBack`,
which holds of the integers the program writes), arrays, and objects with
distinct keys. The written text has no lone surrogate, so it also survives
UTF-8. -/

namespace Senn.Js
open Senn.Lib

/-! ## Strings -/

theorem hexVal_digitUnit : ∀ d, d < 16 → hexVal (digitUnit d) = some d := by decide

theorem hex4_hexDigits (u : UInt16) :
    hex4 (digitUnit (u.toNat / 0x1000 % 16)) (digitUnit (u.toNat / 0x100 % 16))
      (digitUnit (u.toNat / 0x10 % 16)) (digitUnit (u.toNat % 16)) = some u := by
  have hu := u.toNat_lt
  have hv : u.toNat / 0x1000 % 16 * 0x1000 + u.toNat / 0x100 % 16 * 0x100 +
      u.toNat / 0x10 % 16 * 0x10 + u.toNat % 16 = u.toNat := by omega
  have hd : ∀ n, n % 16 < 16 := fun n => Nat.mod_lt _ (by decide)
  simp only [hex4, hexVal_digitUnit _ (hd _), Option.bind_eq_bind, Option.bind_some, hv,
    UInt16.ofNat_toNat]
  rfl

theorem parseStr_unicode (u : UInt16) (r : JsString) :
    parseStr (0x5C :: 0x75 :: hexDigits u.toNat ++ r) =
      (parseStr r).map fun p => (u :: p.1, p.2) := by
  simp only [hexDigits, List.cons_append, List.nil_append]
  rw [parseStr.eq_def]
  simp only [if_neg (show (0x5C : UInt16) ≠ 0x22 by decide), if_true, hex4_hexDigits,
    Option.bind_some]

theorem parseStr_escaped {u v : UInt16} (hv : v ≠ 0x75) (h : unescape v = some u) (r : JsString) :
    parseStr (0x5C :: v :: r) = (parseStr r).map fun p => (u :: p.1, p.2) := by
  rw [parseStr.eq_def]
  simp only [if_neg (show (0x5C : UInt16) ≠ 0x22 by decide), if_true, if_neg hv, h,
    Option.bind_some]

theorem parseStr_plain {u : UInt16} (h1 : u ≠ 0x22) (h2 : u ≠ 0x5C) (h3 : ¬ u.toNat < 0x20)
    (r : JsString) : parseStr (u :: r) = (parseStr r).map fun p => (u :: p.1, p.2) := by
  rw [parseStr.eq_def]
  simp only [if_neg h1, if_neg h2, if_neg h3]

theorem parseStr_close (r : JsString) : parseStr (0x22 :: r) = some ([], r) := by
  rw [parseStr.eq_def]
  simp only [if_true]

theorem parseStr_escapeUnit (u : UInt16) (r : JsString) :
    parseStr (escapeUnit u ++ r) = (parseStr r).map fun p => (u :: p.1, p.2) := by
  unfold escapeUnit
  split
  · next h => subst h; exact parseStr_escaped (by decide) (by decide) r
  split
  · next h => subst h; exact parseStr_escaped (by decide) (by decide) r
  split
  · next h => subst h; exact parseStr_escaped (by decide) (by decide) r
  split
  · next h => subst h; exact parseStr_escaped (by decide) (by decide) r
  split
  · next h => subst h; exact parseStr_escaped (by decide) (by decide) r
  split
  · next h => subst h; exact parseStr_escaped (by decide) (by decide) r
  split
  · next h => subst h; exact parseStr_escaped (by decide) (by decide) r
  split
  · exact parseStr_unicode u r
  · next h1 h2 h3 =>
    have h20 : ¬ u.toNat < 0x20 := by
      intro h
      exact h3 (by simp [h])
    exact parseStr_plain h1 h2 h20 r

/-- A surrogate is none of the characters a JSON string treats specially. -/
theorem parseStr_surrogate {u : UInt16} (h : 0xD800 ≤ u.toNat) (r : JsString) :
    parseStr (u :: r) = (parseStr r).map fun p => (u :: p.1, p.2) := by
  refine parseStr_plain ?_ ?_ (by omega) r
  · intro hu; rw [hu] at h; exact absurd h (by decide)
  · intro hu; rw [hu] at h; exact absurd h (by decide)

theorem parseStr_escape : ∀ (s r : JsString), parseStr (escape s ++ 0x22 :: r) = some (s, r)
  | [], r => parseStr_close r
  | [u], r => by
    rw [escape, parseStr_escapeUnit, parseStr_close]
    rfl
  | u :: v :: s, r => by
    rw [escape]
    split
    · next hp =>
      simp only [isHigh, isLow, Bool.and_eq_true, decide_eq_true_eq] at hp
      rw [List.cons_append, List.cons_append, parseStr_surrogate (by omega),
        parseStr_surrogate (by omega), parseStr_escape s r]
      rfl
    · rw [List.append_assoc, parseStr_escapeUnit, parseStr_escape (v :: s) r]
      rfl

/-! ## Numbers -/

/-- What may follow a number: nothing that would continue it. -/
def NumEnd (r : JsString) : Prop :=
  ∀ u r', r = u :: r' → isDigit u = false ∧ u ≠ 0x2E ∧ u ≠ 0x65 ∧ u ≠ 0x45

theorem numEnd_nil : NumEnd [] := by intro u r' h; cases h

theorem numEnd_cons {u : UInt16} {r : JsString}
    (h : isDigit u = false ∧ u ≠ 0x2E ∧ u ≠ 0x65 ∧ u ≠ 0x45) : NumEnd (u :: r) := by
  intro v r' he
  cases he
  exact h

theorem spanDigits_append {ds r : JsString} (hd : ∀ u ∈ ds, isDigit u = true) (hr : NumEnd r) :
    spanDigits (ds ++ r) = (ds, r) := by
  induction ds with
  | nil =>
    cases r with
    | nil => rfl
    | cons u r' => simp [spanDigits, (hr u r' rfl).1]
  | cons u ds ih =>
    have hu := hd u (List.mem_cons_self ..)
    simp [spanDigits, hu, ih fun v hv => hd v (List.mem_cons_of_mem _ hv)]

theorem toNat_digitUnit {d : Nat} (h : d < 10) : (digitUnit d).toNat = 48 + d := by
  rw [digitUnit, if_pos h, UInt16.toNat_ofNat']
  omega

theorem natText_digits {n : Nat} {u : UInt16} (hu : u ∈ natText 10 n) : isDigit u = true := by
  unfold natText at hu
  split at hu
  · rw [List.mem_singleton.mp hu]; decide
  · obtain ⟨d, hd, rfl⟩ := List.mem_map.mp hu
    have hlt : d < 10 := Nat.digits_lt_base (by decide) (List.mem_reverse.mp hd)
    have := toNat_digitUnit hlt
    simp only [isDigit, Bool.and_eq_true, decide_eq_true_eq]
    omega

theorem ofDigits_snoc (ds : JsString) (u : UInt16) :
    ofDigits (ds ++ [u]) = ofDigits ds * 10 + (u.toNat - 48) := by
  simp [ofDigits]

theorem ofDigits_reverse {ds : List Nat} (h : ∀ d ∈ ds, d < 10) :
    ofDigits (ds.reverse.map digitUnit) = Nat.ofDigits 10 ds := by
  induction ds with
  | nil => rfl
  | cons d ds ih =>
    have hd := toNat_digitUnit (h d (List.mem_cons_self ..))
    rw [List.reverse_cons, List.map_append, List.map_cons, List.map_nil, ofDigits_snoc,
      ih fun x hx => h x (List.mem_cons_of_mem _ hx), Nat.ofDigits_cons, hd]
    omega

theorem ofDigits_natText (n : Nat) : ofDigits (natText 10 n) = n := by
  unfold natText
  split
  · next h => rw [h]; rfl
  · rw [ofDigits_reverse fun d hd => Nat.digits_lt_base (by decide) hd, Nat.ofDigits_digits]

/-- The numeral of a positive number does not begin with a zero. -/
theorem natText_head {n : Nat} {u : UInt16} {r : JsString} (hn : n ≠ 0)
    (h : natText 10 n = u :: r) : u ≠ 0x30 := by
  rw [natText, if_neg hn] at h
  have hne : Nat.digits 10 n ≠ [] := Nat.digits_ne_nil_iff_ne_zero.mpr hn
  have hlast := Nat.getLast_digit_ne_zero 10 hn
  have hmem : (Nat.digits 10 n).getLast hne ∈ Nat.digits 10 n := List.getLast_mem hne
  have hlt : (Nat.digits 10 n).getLast hne < 10 := Nat.digits_lt_base (by decide) hmem
  have hhead : u = digitUnit ((Nat.digits 10 n).getLast hne) := by
    have hd := List.dropLast_append_getLast hne
    rw [← hd, List.reverse_append, List.reverse_singleton, List.singleton_append,
      List.map_cons] at h
    exact (List.cons.inj h).1.symm
  intro hu
  have := toNat_digitUnit hlt
  rw [← hhead, hu] at this
  have h48 : (0x30 : UInt16).toNat = 48 := rfl
  omega

theorem parseInteger_natText (n : Nat) {r : JsString} (hr : NumEnd r) :
    parseInteger (natText 10 n ++ r) = some (natText 10 n, r) := by
  by_cases hn : n = 0
  · subst hn; rfl
  · have hdigits : ∀ u ∈ natText 10 n, isDigit u = true := fun u hu => natText_digits hu
    have hspan := spanDigits_append hdigits hr
    obtain ⟨u, t, ht⟩ := List.exists_cons_of_ne_nil (natText_ne_nil (b := 10) n)
    have hu := natText_head hn ht
    rw [ht] at hspan ⊢
    rw [List.cons_append] at hspan ⊢
    unfold parseInteger
    split
    · next he => exact absurd (List.cons.inj he).1 hu
    · rw [parseDigits, hspan, if_neg (by simp)]

theorem parseFraction_end {r : JsString} (hr : NumEnd r) : parseFraction r = some ([], r) := by
  unfold parseFraction
  split
  · next r' => exact absurd rfl (hr _ r' rfl).2.1
  · rfl

theorem parseExponent_end {r : JsString} (hr : NumEnd r) : parseExponent r = some (0, r) := by
  cases r with
  | nil => rfl
  | cons u r' =>
    obtain ⟨_, _, he, hE⟩ := hr u r' rfl
    rw [parseExponent.eq_def]
    simp only [if_neg (show ¬ (u = 0x65 ∨ u = 0x45) by simp [he, hE])]

theorem parseUnsigned_natText (n : Nat) {r : JsString} (hr : NumEnd r) :
    parseUnsigned (natText 10 n ++ r) = some ((n : ℚ), r) := by
  simp only [parseUnsigned, parseInteger_natText n hr, parseFraction_end hr, parseExponent_end hr,
    Option.bind_eq_bind, Option.bind_some, List.append_nil, ofDigits_natText, List.length_nil,
    Nat.cast_zero, Int.sub_self]
  simp [powered]

/-- A number whose text the reader gives back. -/
def ReadsBack (x : Number) : Prop :=
  (∃ q, x = .fin q) ∧ ∀ r, NumEnd r → parseNum (numText x ++ r) = some (x, r)

theorem readsBack_ofNat {n : Nat} (h : n ≤ 2 ^ 53) : ReadsBack (.ofNat n) := by
  refine ⟨⟨_, rfl⟩, fun r hr => ?_⟩
  rw [numText_ofNat h]
  have hp := parseUnsigned_natText n hr
  obtain ⟨u, t, ht⟩ := List.exists_cons_of_ne_nil (natText_ne_nil (b := 10) n)
  have hu : isDigit u = true := natText_digits (n := n) (by rw [ht]; exact List.mem_cons_self ..)
  rw [ht, List.cons_append] at hp ⊢
  unfold parseNum
  split
  · next he =>
    rw [(List.cons.inj he).1] at hu
    exact absurd hu (by decide)
  · rw [hp, Option.map_some, toDouble_nat h]

/-- A number begins with a digit or a minus sign. -/
theorem parseNum_head {u : UInt16} {r : JsString} {p : Number × JsString}
    (h : parseNum (u :: r) = some p) : u = 0x2D ∨ isDigit u = true := by
  unfold parseNum at h
  split at h
  · next he => exact .inl (List.cons.inj he).1
  · right
    obtain ⟨q, hq, _⟩ := Option.map_eq_some_iff.mp h
    unfold parseUnsigned at hq
    obtain ⟨i, hi, _⟩ := Option.bind_eq_some_iff.mp hq
    unfold parseInteger at hi
    split at hi
    · next he => rw [(List.cons.inj he).1]; decide
    · by_contra hd
      simp [parseDigits, spanDigits, hd] at hi

/-! ## Values -/

mutual
/-- Every number reads back and every object has distinct keys. -/
def Json.Exact : Json → Prop
  | .num x => ReadsBack x
  | .arr xs => ExactElems xs
  | .obj ms => (ms.map Prod.fst).Nodup ∧ ExactMembers ms
  | _ => True
def ExactElems : List Json → Prop
  | [] => True
  | x :: xs => x.Exact ∧ ExactElems xs
def ExactMembers : List (JsString × Json) → Prop
  | [] => True
  | (_, v) :: ms => v.Exact ∧ ExactMembers ms
end

theorem exactMembers_iff {ms : List (JsString × Json)} :
    ExactMembers ms ↔ ∀ m ∈ ms, m.2.Exact := by
  induction ms with
  | nil => simp [ExactMembers]
  | cons m ms ih => simp [ExactMembers, ih]

theorem foldl_set_entries (ms : List (JsString × Json)) :
    ∀ (m : InsMap JsString Json), ((m.entries ++ ms).map Prod.fst).Nodup →
      (ms.foldl (fun m e => m.set e.1 e.2) m).entries = m.entries ++ ms := by
  induction ms with
  | nil => intro m _; simp
  | cons e ms ih =>
    intro m h
    have hfresh : e.1 ∉ m.entries.map Prod.fst := by
      rw [List.map_append, List.map_cons] at h
      intro he
      exact (List.nodup_append.mp h).2.2 _ he _ (List.mem_cons_self ..) rfl
    have hset : (m.set e.1 e.2).entries = m.entries ++ [e] := by
      simp [InsMap.set, hfresh]
    rw [List.foldl_cons, ih _ (by rw [hset]; simpa using h), hset, List.append_assoc]
    rfl

theorem ownMembers_of_nodup {ms : List (JsString × Json)} (h : (ms.map Prod.fst).Nodup) :
    ownMembers ms = ms := by
  simpa [ownMembers, InsMap.empty] using
    foldl_set_entries ms InsMap.empty (by simpa [InsMap.empty] using h)

/-- The reader's dispatch on the first character of a value. -/
def Opens (s : JsString) : Prop :=
  ∃ u r, s = u :: r ∧ skipWs s = s ∧ u ≠ 0x5D ∧ u ≠ 0x7D

theorem skipWs_cons {u : UInt16} {r : JsString}
    (h : ¬ (u = 0x20 ∨ u = 0x0A ∨ u = 0x0D ∨ u = 0x09)) : skipWs (u :: r) = u :: r := by
  rw [skipWs, if_neg h]

theorem opens_cons {u : UInt16} {r : JsString}
    (h : ¬ (u = 0x20 ∨ u = 0x0A ∨ u = 0x0D ∨ u = 0x09) ∧ u ≠ 0x5D ∧ u ≠ 0x7D) :
    Opens (u :: r) := ⟨u, r, rfl, skipWs_cons h.1, h.2⟩

theorem isDigit_ne {u v : UInt16} (hu : isDigit u = true) (hv : isDigit v = false) : u ≠ v := by
  intro h
  rw [h, hv] at hu
  cases hu

/-- A number opens a value and none of the other openings. -/
theorem number_head {x : Number} (hx : ReadsBack x) (r : JsString) :
    ∃ u t, numText x ++ r = u :: t ∧ (u = 0x2D ∨ isDigit u = true) := by
  have h := hx.2 [] numEnd_nil
  rw [List.append_nil] at h
  cases ht : numText x with
  | nil => rw [ht] at h; cases h
  | cons u t =>
    rw [ht] at h
    exact ⟨u, t ++ r, rfl, parseNum_head h⟩

theorem opens_stringify (v : Json) (hv : v.Exact) (r : JsString) : Opens (v.stringify ++ r) := by
  match v with
  | .null => exact opens_cons (by decide)
  | .bool true => exact opens_cons (by decide)
  | .bool false => exact opens_cons (by decide)
  | .str s => exact opens_cons (by decide)
  | .arr [] => exact opens_cons (by decide)
  | .arr (x :: xs) => exact opens_cons (by decide)
  | .obj [] => exact opens_cons (by decide)
  | .obj ((k, v) :: ms) => exact opens_cons (by decide)
  | .num x =>
    obtain ⟨q, hq⟩ := hv.1
    obtain ⟨u, t, ht, hu⟩ := number_head hv r
    have he : (Json.num x).stringify = numText x := by rw [hq]; rfl
    rw [he, ht]
    rcases hu with rfl | hu
    · exact opens_cons (by decide)
    · refine opens_cons ⟨?_, isDigit_ne hu (by decide), isDigit_ne hu (by decide)⟩
      rintro (h | h | h | h) <;> exact isDigit_ne hu (by decide) h

mutual
/-- The fuel a value takes. -/
def Json.size : Json → Nat
  | .arr [] => 1
  | .arr (x :: xs) => 2 + x.size + sizeElems xs
  | .obj [] => 1
  | .obj ((_, v) :: ms) => 2 + v.size + sizeMembers ms
  | _ => 1
def sizeElems : List Json → Nat
  | [] => 0
  | x :: xs => 1 + x.size + sizeElems xs
def sizeMembers : List (JsString × Json) → Nat
  | [] => 0
  | (_, v) :: ms => 1 + v.size + sizeMembers ms
end

theorem skipWs_stringifyElems (xs : List Json) (r : JsString) :
    skipWs (stringifyElems xs ++ r) = stringifyElems xs ++ r := by
  cases xs <;> exact skipWs_cons (by decide)

theorem skipWs_stringifyMembers (ms : List (JsString × Json)) (r : JsString) :
    skipWs (stringifyMembers ms ++ r) = stringifyMembers ms ++ r := by
  match ms with
  | [] => exact skipWs_cons (by decide)
  | (k, v) :: ms => exact skipWs_cons (by decide)

theorem numEnd_stringifyElems (xs : List Json) (r : JsString) :
    NumEnd (stringifyElems xs ++ r) := by
  cases xs <;> exact numEnd_cons (by decide)

theorem numEnd_stringifyMembers (ms : List (JsString × Json)) (r : JsString) :
    NumEnd (stringifyMembers ms ++ r) := by
  match ms with
  | [] => exact numEnd_cons (by decide)
  | (k, v) :: ms => exact numEnd_cons (by decide)

theorem parseValue_num {x : Number} (hx : ReadsBack x) (n : Nat) {r : JsString} (hr : NumEnd r) :
    parseValue (n + 1) (numText x ++ r) = some (.num x, r) := by
  obtain ⟨u, t, ht, hu⟩ := number_head hx r
  have hp := hx.2 r hr
  rw [ht] at hp ⊢
  have hne : ∀ v, v ≠ 0x2D ∧ isDigit v = false → u ≠ v := by
    intro v hv
    rcases hu with rfl | hu
    · exact hv.1.symm
    · exact isDigit_ne hu hv.2
  have hws : skipWs (u :: t) = u :: t := skipWs_cons (by
    rintro (h | h | h | h) <;> exact hne _ (by decide) h)
  rw [parseValue.eq_def]
  simp only [hws]
  rw [if_neg (hne _ (by decide)), if_neg (hne _ (by decide)), if_neg (hne _ (by decide)),
    if_neg (hne _ (by decide)), if_neg (hne _ (by decide)), if_neg (hne _ (by decide)), hp]
  rfl

theorem parseValue_str (s : JsString) (n : Nat) (r : JsString) :
    parseValue (n + 1) (quote s ++ r) = some (.str s, r) := by
  have hq : quote s ++ r = 0x22 :: (escape s ++ 0x22 :: r) := by simp [quote]
  rw [hq, parseValue.eq_def]
  simp only [skipWs_cons (u := 0x22) (by decide), parseStr_escape]
  rfl

/-- An opening bracket before the elements the reader of elements reads. -/
theorem parseValue_arr {n : Nat} {s r : JsString} {xs : List Json} (hs : Opens s)
    (h : parseElems n s = some (xs, r)) : parseValue (n + 1) (0x5B :: s) = some (.arr xs, r) := by
  obtain ⟨u, t, rfl, hws, h1, _⟩ := hs
  rw [parseValue.eq_def]
  simp only [skipWs_cons (u := 0x5B) (by decide), hws]
  rw [if_neg (by decide), if_pos trivial]
  split
  · next he => exact absurd (List.cons.inj he).1 h1
  · rw [h]; rfl

theorem parseValue_obj {n : Nat} {s r : JsString} {ms : List (JsString × Json)} (hs : Opens s)
    (hk : (ms.map Prod.fst).Nodup) (h : parseMembers n s = some (ms, r)) :
    parseValue (n + 1) (0x7B :: s) = some (.obj ms, r) := by
  obtain ⟨u, t, rfl, hws, _, h1⟩ := hs
  rw [parseValue.eq_def]
  simp only [skipWs_cons (u := 0x7B) (by decide), hws]
  rw [if_pos trivial]
  split
  · next he => exact absurd (List.cons.inj he).1 h1
  · rw [h, Option.map_some, ownMembers_of_nodup hk]

mutual
theorem parseValue_stringify : ∀ (v : Json) (n : Nat) (r : JsString), v.Exact → v.size ≤ n →
    NumEnd r → parseValue n (v.stringify ++ r) = some (v, r)
  | _, 0, _, _, hn, _ => by
    rename_i v _ _ _
    match v with
    | .null | .bool _ | .num _ | .str _ | .arr [] | .obj [] => simp [Json.size] at hn
    | .arr (x :: xs) => simp [Json.size] at hn
    | .obj ((k, v) :: ms) => simp [Json.size] at hn
  | .null, n + 1, r, _, _, _ => rfl
  | .bool true, n + 1, r, _, _, _ => rfl
  | .bool false, n + 1, r, _, _, _ => rfl
  | .num x, n + 1, r, hx, _, hr => by
    obtain ⟨q, hq⟩ := hx.1
    have he : (Json.num x).stringify = numText x := by rw [hq]; rfl
    rw [he]
    exact parseValue_num hx n hr
  | .str s, n + 1, r, _, _, _ => parseValue_str s n r
  | .arr [], n + 1, r, _, _, _ => rfl
  | .arr (x :: xs), n + 1, r, hx, hn, _ => by
    simp only [Json.size] at hn
    have he : (Json.arr (x :: xs)).stringify ++ r =
        0x5B :: (x.stringify ++ (stringifyElems xs ++ r)) := by simp [Json.stringify]
    rw [he]
    exact parseValue_arr (opens_stringify x hx.1 _)
      (parseElems_stringify x xs n r hx.1 hx.2 (by omega))
  | .obj [], n + 1, r, _, _, _ => rfl
  | .obj ((k, v) :: ms), n + 1, r, hx, hn, _ => by
    simp only [Json.size] at hn
    have he : (Json.obj ((k, v) :: ms)).stringify ++ r =
        0x7B :: (quote k ++ 0x3A :: (v.stringify ++ (stringifyMembers ms ++ r))) := by
      simp [Json.stringify]
    rw [he]
    exact parseValue_obj (opens_cons (by decide)) hx.1
      (parseMembers_stringify k v ms n r hx.2.1 hx.2.2 (by omega))
theorem parseElems_stringify : ∀ (x : Json) (xs : List Json) (n : Nat) (r : JsString), x.Exact →
    ExactElems xs → 1 + x.size + sizeElems xs ≤ n →
    parseElems n (x.stringify ++ (stringifyElems xs ++ r)) = some (x :: xs, r)
  | _, _, 0, _, _, _, hn => by omega
  | x, xs, n + 1, r, hx, hxs, hn => by
    have hv := parseValue_stringify x n (stringifyElems xs ++ r) hx (by omega)
      (numEnd_stringifyElems xs r)
    rw [parseElems.eq_def]
    simp only [hv, skipWs_stringifyElems]
    match xs, hxs, hn with
    | [], _, _ => rfl
    | y :: ys, hys, hn =>
      simp only [sizeElems] at hn
      have ih := parseElems_stringify y ys n r hys.1 hys.2 (by omega)
      simp only [stringifyElems, List.cons_append, List.append_assoc, ih, Option.map_some]
theorem parseMembers_stringify : ∀ (k : JsString) (v : Json) (ms : List (JsString × Json)) (n : Nat)
    (r : JsString), v.Exact → ExactMembers ms → 1 + v.size + sizeMembers ms ≤ n →
    parseMembers n (quote k ++ 0x3A :: (v.stringify ++ (stringifyMembers ms ++ r))) =
      some ((k, v) :: ms, r)
  | _, _, _, 0, _, _, _, hn => by omega
  | k, v, ms, n + 1, r, hv, hms, hn => by
    have hval := parseValue_stringify v n (stringifyMembers ms ++ r) hv (by omega)
      (numEnd_stringifyMembers ms r)
    have hq : quote k ++ 0x3A :: (v.stringify ++ (stringifyMembers ms ++ r)) =
        0x22 :: (escape k ++ 0x22 :: 0x3A :: (v.stringify ++ (stringifyMembers ms ++ r))) := by
      simp [quote]
    rw [hq, parseMembers.eq_def]
    simp only [skipWs_cons (u := 0x22) (by decide), parseStr_escape,
      skipWs_cons (u := 0x3A) (by decide), hval, skipWs_stringifyMembers]
    match ms, hms, hn with
    | [], _, _ => rfl
    | (k', v') :: ms', hms', hn =>
      simp only [sizeMembers] at hn
      have ih := parseMembers_stringify k' v' ms' n r hms'.1 hms'.2 (by omega)
      simp only [stringifyMembers, List.cons_append, List.append_assoc, ih, Option.map_some]
end

mutual
theorem size_le_length : ∀ v : Json, v.Exact → v.size ≤ v.stringify.length
  | .null, _ | .bool true, _ | .bool false, _ | .arr [], _ | .obj [], _ => by
    simp [Json.size, Json.stringify, js]
  | .num x, hx => by
    obtain ⟨q, hq⟩ := hx.1
    obtain ⟨u, t, ht, _⟩ := number_head hx []
    have he : (Json.num x).stringify = u :: t := by rw [← ht, List.append_nil, hq]; rfl
    simp [Json.size, he]
  | .str s, _ => by simp [Json.size, Json.stringify, quote]
  | .arr (x :: xs), hx => by
    have h1 := size_le_length x hx.1
    have h2 := sizeElems_lt_length xs hx.2
    simp only [Json.size, Json.stringify, List.length_cons, List.length_append]
    omega
  | .obj ((k, v) :: ms), hx => by
    have h1 := size_le_length v hx.2.1
    have h2 := sizeMembers_lt_length ms hx.2.2
    simp only [Json.size, Json.stringify, List.length_cons, List.length_append]
    omega
theorem sizeElems_lt_length : ∀ xs : List Json, ExactElems xs →
    sizeElems xs < (stringifyElems xs).length
  | [], _ => by simp [sizeElems, stringifyElems]
  | x :: xs, hx => by
    have h1 := size_le_length x hx.1
    have h2 := sizeElems_lt_length xs hx.2
    simp only [sizeElems, stringifyElems, List.length_cons, List.length_append]
    omega
theorem sizeMembers_lt_length : ∀ ms : List (JsString × Json), ExactMembers ms →
    sizeMembers ms < (stringifyMembers ms).length
  | [], _ => by simp [sizeMembers, stringifyMembers]
  | (k, v) :: ms, hx => by
    have h1 := size_le_length v hx.1
    have h2 := sizeMembers_lt_length ms hx.2
    simp only [sizeMembers, stringifyMembers, List.length_cons, List.length_append]
    omega
end

/-- `JSON.parse(JSON.stringify(v))` is `v`. -/
theorem parse_stringify {v : Json} (hv : v.Exact) : Json.parse v.stringify = some v := by
  have hsize := size_le_length v hv
  have h := parseValue_stringify v (v.stringify.length + 1) [] hv (by omega) numEnd_nil
  rw [List.append_nil] at h
  rw [Json.parse, h]
  rfl

/-! ## The text in UTF-8 -/

theorem digitUnit_lt : ∀ d, d < 36 → (digitUnit d).toNat < 0x80 := by decide

theorem natText_ascii {n : Nat} {u : UInt16} (hu : u ∈ natText 10 n) : u.toNat < 0x80 := by
  have := natText_digits hu
  simp only [isDigit, Bool.and_eq_true, decide_eq_true_eq] at this
  omega

theorem literal_ascii {s : JsString} {u : UInt16} (h : (s.all fun v => v.toNat < 0x80) = true)
    (hu : u ∈ s) : u.toNat < 0x80 :=
  of_decide_eq_true (List.all_eq_true.mp h u hu)

theorem positiveText_ascii {q : ℚ} {u : UInt16} (hu : u ∈ positiveText q) : u.toNat < 0x80 := by
  have hdot : (46 : UInt16).toNat < 0x80 := by decide
  simp only [positiveText] at hu
  split at hu
  · rcases List.mem_append.mp hu with h | h
    · exact natText_ascii h
    · rw [(List.mem_replicate.mp h).2]; decide
  split at hu
  · rcases List.mem_append.mp hu with h | h
    · exact natText_ascii (List.mem_of_mem_take h)
    · rcases List.mem_cons.mp h with rfl | h
      · exact hdot
      · exact natText_ascii (List.mem_of_mem_drop h)
  split at hu
  · rcases List.mem_append.mp hu with h | h
    · rcases List.mem_append.mp h with h | h
      · exact literal_ascii (by decide) h
      · rw [(List.mem_replicate.mp h).2]; decide
    · exact natText_ascii h
  · rcases List.mem_append.mp hu with h | h
    · rcases List.mem_append.mp h with h | h
      · split at h
        · exact natText_ascii h
        · rcases List.mem_append.mp h with h | h
          · exact natText_ascii (List.mem_of_mem_take h)
          · rcases List.mem_cons.mp h with rfl | h
            · exact hdot
            · exact natText_ascii (List.mem_of_mem_drop h)
      · split at h <;> exact literal_ascii (by decide) h
    · exact natText_ascii h

theorem numText_ascii {x : Number} {u : UInt16} (hu : u ∈ numText x) : u.toNat < 0x80 := by
  cases x with
  | nan | ninf | pinf => exact literal_ascii (by decide) hu
  | fin q =>
    rcases List.mem_append.mp hu with h | h
    · split at h
      · exact literal_ascii (by decide) h
      · cases h
    · split at h
      · exact natText_ascii h
      · exact positiveText_ascii h

theorem wellFormed_ascii {s : JsString} (h : ∀ u ∈ s, u.toNat < 0x80) : wellFormed s = true :=
  wellFormed_of_lt fun u hu => Nat.lt_of_lt_of_le (h u hu) (by decide)

theorem hexDigits_ascii (u : UInt16) :
    ∀ v ∈ (0x5C :: 0x75 :: hexDigits u.toNat : JsString), v.toNat < 0x80 := by
  have hd : ∀ n, (digitUnit (n % 16)).toNat < 0x80 := fun n =>
    digitUnit_lt _ (Nat.lt_of_lt_of_le (Nat.mod_lt _ (by decide)) (by decide))
  intro v hv
  simp only [hexDigits, List.mem_cons, List.not_mem_nil, or_false] at hv
  obtain rfl | rfl | rfl | rfl | rfl | rfl := hv
  · decide
  · decide
  all_goals exact hd _

theorem wellFormed_escapeUnit (u : UInt16) : wellFormed (escapeUnit u) = true := by
  unfold escapeUnit
  split
  · rfl
  split
  · rfl
  split
  · rfl
  split
  · rfl
  split
  · rfl
  split
  · rfl
  split
  · rfl
  split
  · exact wellFormed_ascii (hexDigits_ascii u)
  · next h =>
    have hs : isSurrogate u = false := by
      simp only [Bool.or_eq_true, not_or, Bool.not_eq_true] at h
      exact h.2
    rw [wellFormed, hs]
    rfl

theorem wellFormed_escape : ∀ s : JsString, wellFormed (escape s) = true
  | [] => rfl
  | [u] => wellFormed_escapeUnit u
  | u :: v :: s => by
    rw [escape]
    split
    · next hp => rw [wellFormed, if_pos hp]; exact wellFormed_escape s
    · exact wellFormed_append (wellFormed_escapeUnit u) (wellFormed_escape (v :: s))

theorem wellFormed_ascii_cons {u : UInt16} {s : JsString} (hu : u.toNat < 0x80)
    (hs : wellFormed s = true) : wellFormed (u :: s) = true :=
  wellFormed_append (s := [u]) (wellFormed_ascii (by simpa using hu)) hs

theorem wellFormed_quote (s : JsString) : wellFormed (quote s) = true :=
  wellFormed_ascii_cons (by decide) (wellFormed_append (wellFormed_escape s) rfl)

mutual
/-- The written text has no lone surrogate. -/
theorem wellFormed_stringify : ∀ v : Json, wellFormed v.stringify = true
  | .null | .bool true | .bool false | .arr [] | .obj [] => by decide
  | .num (.fin q) => wellFormed_ascii fun u hu => numText_ascii hu
  | .num .nan | .num .ninf | .num .pinf => by decide
  | .str s => wellFormed_quote s
  | .arr (x :: xs) => wellFormed_ascii_cons (by decide)
      (wellFormed_append (wellFormed_stringify x) (wellFormed_stringifyElems xs))
  | .obj ((k, v) :: ms) => wellFormed_ascii_cons (by decide)
      (wellFormed_append (wellFormed_append (wellFormed_quote k)
        (wellFormed_ascii_cons (by decide) (wellFormed_stringify v)))
        (wellFormed_stringifyMembers ms))
theorem wellFormed_stringifyElems : ∀ xs : List Json, wellFormed (stringifyElems xs) = true
  | [] => rfl
  | x :: xs => wellFormed_ascii_cons (by decide)
      (wellFormed_append (wellFormed_stringify x) (wellFormed_stringifyElems xs))
theorem wellFormed_stringifyMembers : ∀ ms : List (JsString × Json),
    wellFormed (stringifyMembers ms) = true
  | [] => rfl
  | (k, v) :: ms => wellFormed_ascii_cons (by decide)
      (wellFormed_append (wellFormed_append (wellFormed_quote k)
        (wellFormed_ascii_cons (by decide) (wellFormed_stringify v)))
        (wellFormed_stringifyMembers ms))
end

/-- No value's text begins with a byte order mark. -/
theorem stringify_head (v : Json) : v.stringify.head? ≠ some 0xFEFF := by
  match v with
  | .null | .bool true | .bool false | .arr [] | .obj [] => decide
  | .num .nan | .num .ninf | .num .pinf => decide
  | .str s => simp [Json.stringify, quote]
  | .arr (x :: xs) => simp [Json.stringify]
  | .obj ((k, v) :: ms) => simp [Json.stringify]
  | .num (.fin q) =>
    intro h
    have := numText_ascii (x := .fin q) (List.mem_of_mem_head? h)
    exact absurd this (by decide)

/-- JSON text survives UTF-8. -/
theorem utf8Decode_stringify (v : Json) : utf8Decode (utf8Encode v.stringify) = v.stringify :=
  utf8Decode_utf8Encode (wellFormed_stringify v) (stringify_head v)

end Senn.Js
