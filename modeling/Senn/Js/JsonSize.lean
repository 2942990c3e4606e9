import Senn.Js.JsonRoundTrip

/-! # The size of JSON text

How many bytes of UTF-8 a string is, what its escapes add to them in JSON text, and what the text
of an array or an object is made of. -/

namespace Senn.Js

/-- `new TextEncoder().encode(s).byteLength` -/
def textBytes (s : JsString) : Nat := (utf8Encode s).length

theorem textBytes_append {s : JsString} (t : JsString) (hs : wellFormed s = true) :
    textBytes (s ++ t) = textBytes s + textBytes t := by
  rw [textBytes, utf8Encode_append t hs, List.length_append]
  rfl

theorem textBytes_scalars (s : JsString) :
    textBytes s = ((scalars s).map fun c => (utf8 c).length).sum := by
  rw [textBytes, utf8Encode, List.length_map, List.length_flatMap]

theorem ascii_of_all {s : JsString} (h : s.all (fun u => u.toNat < 0x80) = true) :
    ∀ u ∈ s, u.toNat < 0x80 :=
  fun u hu => of_decide_eq_true (List.all_eq_true.mp h u hu)

theorem textBytes_ascii {s : JsString} (h : ∀ u ∈ s, u.toNat < 0x80) : textBytes s = s.length := by
  induction s with
  | nil => rfl
  | cons u s ih =>
    obtain ⟨hu, hs⟩ := List.forall_mem_cons.mp h
    have hone : wellFormed [u] = true := wellFormed_ascii (by simpa using hu)
    have hsurrogate : isSurrogate u = false := by simpa [wellFormed] using hone
    have hunit : textBytes [u] = 1 := by
      simp [textBytes_scalars, scalars, hsurrogate, utf8, hu]
    rw [← List.singleton_append, textBytes_append s hone, ih hs, hunit, List.length_append]
    rfl

theorem textBytes_cons_ascii {u : UInt16} (hu : u.toNat < 0x80) (s : JsString) :
    textBytes (u :: s) = 1 + textBytes s := by
  have hunit : ∀ v ∈ [u], v.toNat < 0x80 := by simpa using hu
  rw [← List.singleton_append, textBytes_append s (wellFormed_ascii hunit), textBytes_ascii hunit]
  rfl

/-! ## Escapes -/

/-- The bytes that escaping a unit adds. -/
def escapeExtra (u : UInt16) : Nat :=
  if u = 0x08 ∨ u = 0x09 ∨ u = 0x0A ∨ u = 0x0C ∨ u = 0x0D ∨ u = 0x22 ∨ u = 0x5C then 1
  else if u.toNat < 0x20 then 5
  else if isSurrogate u then 3
  else 0

/-- The bytes that escaping a string adds. -/
def escapesExtra : JsString → Nat
  | [] => 0
  | [u] => escapeExtra u
  | u :: v :: r =>
    if isHigh u && isLow v then escapesExtra r else escapeExtra u + escapesExtra (v :: r)

theorem textBytes_unit {u : UInt16} (h : u.toNat < 0x80) : textBytes [u] = 1 :=
  textBytes_ascii (by simpa using h)

theorem textBytes_escapeUnit (u : UInt16) :
    textBytes (escapeUnit u) = textBytes [u] + escapeExtra u := by
  by_cases hshort : u = 0x08 ∨ u = 0x09 ∨ u = 0x0A ∨ u = 0x0C ∨ u = 0x0D ∨ u = 0x22 ∨ u = 0x5C
  · obtain rfl | rfl | rfl | rfl | rfl | rfl | rfl := hshort <;> decide
  · obtain ⟨h08, h09, h0A, h0C, h0D, h22, h5C⟩ := by simpa only [not_or] using hshort
    rw [escapeUnit, if_neg h08, if_neg h09, if_neg h0A, if_neg h0C, if_neg h0D, if_neg h22,
      if_neg h5C, escapeExtra, if_neg hshort]
    have hlong : textBytes (0x5C :: 0x75 :: hexDigits u.toNat) = 6 :=
      textBytes_ascii (hexDigits_ascii u)
    by_cases hlow : u.toNat < 0x20
    · have hunit : textBytes [u] = 1 := textBytes_unit (by omega)
      simp [hlow, hlong, hunit]
    · cases hsurrogate : isSurrogate u with
      | true =>
        have hunit : textBytes [u] = 3 := by
          rw [textBytes_scalars, scalars, hsurrogate]
          rfl
        simp [hlow, hlong, hunit]
      | false => simp [hlow]

theorem textBytes_escape : ∀ s : JsString, textBytes (escape s) = textBytes s + escapesExtra s
  | [] => rfl
  | [u] => textBytes_escapeUnit u
  | u :: v :: r => by
    rw [escape, escapesExtra]
    split
    · next hp =>
      have hpair : ∀ t, textBytes (u :: v :: t) = (utf8 (pairPoint u v)).length + textBytes t := by
        intro t
        rw [textBytes_scalars, scalars, if_pos hp, List.map_cons, List.sum_cons, textBytes_scalars]
      rw [hpair, hpair, textBytes_escape r]
      omega
    · next hp =>
      have hunit : textBytes (u :: v :: r) = textBytes [u] + textBytes (v :: r) := by
        rw [textBytes_scalars, scalars, if_neg hp, List.map_cons, List.sum_cons,
          textBytes_scalars [u], textBytes_scalars]
        rfl
      rw [textBytes_append _ (wellFormed_escapeUnit u), textBytes_escapeUnit,
        textBytes_escape (v :: r), hunit]
      omega

theorem textBytes_quote (s : JsString) :
    textBytes (quote s) = textBytes s + (2 + escapesExtra s) := by
  have hclose : textBytes [0x22] = 1 := textBytes_unit (by decide)
  rw [quote, List.cons_append, textBytes_cons_ascii (by decide),
    textBytes_append _ (wellFormed_escape s), textBytes_escape, hclose]
  omega

/-! ## Arrays and objects -/

theorem textBytes_stringifyElems (xs : List Json) : textBytes (stringifyElems xs) =
    1 + (xs.map fun x => 1 + textBytes x.stringify).sum := by
  induction xs with
  | nil => exact textBytes_unit (by decide)
  | cons x xs ih =>
    rw [stringifyElems, List.cons_append, textBytes_cons_ascii (by decide),
      textBytes_append _ (wellFormed_stringify x), ih, List.map_cons, List.sum_cons]
    omega

/-- An element takes its text and a comma or a bracket. -/
theorem textBytes_arr (xs : List Json) : textBytes (Json.arr xs).stringify =
    1 + max 1 (xs.map fun x => 1 + textBytes x.stringify).sum := by
  cases xs with
  | nil => exact textBytes_ascii (ascii_of_all (by decide))
  | cons x xs =>
    rw [Json.stringify, List.cons_append, textBytes_cons_ascii (by decide),
      textBytes_append _ (wellFormed_stringify x), textBytes_stringifyElems, List.map_cons,
      List.sum_cons]
    omega

/-- The text of a member: its name, a colon and its value. -/
def memberBytes (m : JsString × Json) : Nat := textBytes (quote m.1) + 1 + textBytes m.2.stringify

theorem textBytes_member (k : JsString) (v : Json) (r : JsString) :
    textBytes (quote k ++ 0x3A :: v.stringify ++ r) = memberBytes (k, v) + textBytes r := by
  rw [List.append_assoc, textBytes_append _ (wellFormed_quote k), List.cons_append,
    textBytes_cons_ascii (by decide), textBytes_append _ (wellFormed_stringify v)]
  unfold memberBytes
  dsimp only
  omega

theorem textBytes_stringifyMembers (ms : List (JsString × Json)) :
    textBytes (stringifyMembers ms) = 1 + (ms.map fun m => 1 + memberBytes m).sum := by
  induction ms with
  | nil => exact textBytes_unit (by decide)
  | cons m ms ih =>
    obtain ⟨k, v⟩ := m
    rw [stringifyMembers, List.cons_append, List.cons_append, textBytes_cons_ascii (by decide),
      textBytes_member, ih, List.map_cons, List.sum_cons]
    omega

theorem textBytes_obj (ms : List (JsString × Json)) : textBytes (Json.obj ms).stringify =
    1 + max 1 (ms.map fun m => 1 + memberBytes m).sum := by
  cases ms with
  | nil => exact textBytes_ascii (ascii_of_all (by decide))
  | cons m ms =>
    obtain ⟨k, v⟩ := m
    rw [Json.stringify, List.cons_append, List.cons_append, textBytes_cons_ascii (by decide),
      textBytes_member, textBytes_stringifyMembers, List.map_cons, List.sum_cons]
    omega

end Senn.Js
