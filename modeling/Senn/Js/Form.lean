import Senn.Js.Json

/-! # `application/x-www-form-urlencoded`

What `URLSearchParams` makes of a parameter, and how the query of a URL is read back. -/

namespace Senn.Js

/-- The bytes that stand for themselves: letters, digits and `*-._`. -/
def formKeeps (b : Nat) : Bool :=
  (0x30 ≤ b && b ≤ 0x39) || (0x41 ≤ b && b ≤ 0x5A) || (0x61 ≤ b && b ≤ 0x7A) || b = 0x2A ||
    b = 0x2D || b = 0x2E || b = 0x5F

def upperHex (d : Nat) : UInt16 := UInt16.ofNat (if d < 10 then 48 + d else 55 + d)

/-- One byte: a space as `+`, a byte that is not kept as `%XX`. -/
def formByte (b : Nat) : JsString :=
  if b = 0x20 then [0x2B]
  else if formKeeps b then [UInt16.ofNat b]
  else [0x25, upperHex (b / 16), upperHex (b % 16)]

/-- A name or a value; `URLSearchParams` holds a string with its lone surrogates replaced. -/
def formEncode (s : JsString) : JsString := ((scalars s).flatMap utf8).flatMap formByte

/-- `toString` of a `URLSearchParams` with one parameter. -/
def formParam (name value : JsString) : JsString := formEncode name ++ 0x3D :: formEncode value

def percentDecode : List Nat → List Nat
  | 0x25 :: h :: l :: r =>
    match hexVal (UInt16.ofNat h), hexVal (UInt16.ofNat l) with
    | some h', some l' => (h' * 16 + l') :: percentDecode r
    | _, _ => 0x25 :: percentDecode (h :: l :: r)
  | b :: r => b :: percentDecode r
  | [] => []

def plusToSpace (b : Nat) : Nat := if b = 0x2B then 0x20 else b

def formDecode (s : JsString) : JsString :=
  (utf8Run .start (percentDecode (((scalars s).flatMap utf8).map plusToSpace))).flatMap pointUnits

/-- The name and the value of a part of a query. -/
def formPair (part : JsString) : JsString × JsString :=
  (formDecode (part.takeWhile fun u => u ≠ 0x3D),
    formDecode ((part.dropWhile fun u => u ≠ 0x3D).drop 1))

/-- `new URLSearchParams(query).get(name)` -/
def formGet (query name : JsString) : Option JsString :=
  ((((query.splitOn 0x26).filter (· ≠ [])).map formPair).find? fun p => p.1 = name).map Prod.snd

/-- The parameters in a query, in order. -/
def formParts (query : JsString) : List (JsString × JsString) :=
  ((query.splitOn 0x26).filter (· ≠ [])).map formPair

/-- `new URLSearchParams(init)`, which drops one leading `?`. -/
def searchParams (init : JsString) : List (JsString × JsString) :=
  match init with
  | 0x3F :: query => formParts query
  | query => formParts query

/-- `params.get(name)` -/
def paramsGet (params : List (JsString × JsString)) (name : JsString) : Option JsString :=
  (params.find? fun p => p.1 = name).map Prod.snd

theorem hexVal_upperHex : ∀ d, d < 16 → hexVal (UInt16.ofNat (upperHex d).toNat) = some d := by
  decide

theorem upperHex_ascii : ∀ d, d < 16 →
    (upperHex d).toNat < 0x80 ∧ upperHex d ≠ 0x26 ∧ upperHex d ≠ 0x3D := by
  decide

theorem formKeeps_ascii : ∀ b, b < 0x80 → formKeeps b = true →
    (UInt16.ofNat b).toNat < 0x80 ∧ UInt16.ofNat b ≠ 0x26 ∧ UInt16.ofNat b ≠ 0x3D := by
  decide

theorem formKeeps_lt {b : Nat} (h : formKeeps b = true) : b < 0x80 := by
  simp only [formKeeps, Bool.or_eq_true, Bool.and_eq_true, decide_eq_true_eq] at h
  omega

theorem formByte_ascii {b : Nat} (hb : b < 256) {u : UInt16} (hu : u ∈ formByte b) :
    u.toNat < 0x80 ∧ u ≠ 0x26 ∧ u ≠ 0x3D := by
  unfold formByte at hu
  split at hu
  · obtain rfl := List.mem_singleton.mp hu
    decide
  split at hu
  · next hkeeps =>
    obtain rfl := List.mem_singleton.mp hu
    exact formKeeps_ascii b (formKeeps_lt hkeeps) hkeeps
  · simp only [List.mem_cons, List.not_mem_nil, or_false] at hu
    obtain rfl | rfl | rfl := hu
    · decide
    · exact upperHex_ascii _ (by omega)
    · exact upperHex_ascii _ (by omega)

theorem formEncode_ascii (s : JsString) :
    ∀ u ∈ formEncode s, u.toNat < 0x80 ∧ u ≠ 0x26 ∧ u ≠ 0x3D := by
  intro u hu
  obtain ⟨b, hb, hu⟩ := List.mem_flatMap.mp hu
  obtain ⟨c, hc, hb⟩ := List.mem_flatMap.mp hb
  exact formByte_ascii (utf8_lt (scalars_scalar s c hc) hb) hu

theorem scalars_ascii : ∀ {s : JsString}, (∀ u ∈ s, u.toNat < 0x80) →
    (scalars s).flatMap utf8 = s.map UInt16.toNat
  | [], _ => rfl
  | [u], h => by
    have hu := h u (.head _)
    have hsur : isSurrogate u = false := by
      simp only [isSurrogate, isHigh, isLow, Bool.or_eq_false_iff, Bool.and_eq_false_iff,
        decide_eq_false_iff_not]
      omega
    simp [scalars, hsur, utf8, hu]
  | u :: v :: r, h => by
    have hu := h u (.head _)
    have hsur : isSurrogate u = false := by
      simp only [isSurrogate, isHigh, isLow, Bool.or_eq_false_iff, Bool.and_eq_false_iff,
        decide_eq_false_iff_not]
      omega
    have hhigh : isHigh u = false := (Bool.or_eq_false_iff.mp hsur).1
    have hrest : ∀ x ∈ v :: r, x.toNat < 0x80 := fun x hx => h x (.tail _ hx)
    rw [scalars, hhigh, hsur]
    simp only [Bool.false_and, Bool.false_eq_true, if_false, List.flatMap_cons, List.map_cons]
    rw [scalars_ascii hrest, utf8, if_pos hu]
    rfl

theorem percentDecode_plain {b : Nat} (h : b ≠ 0x25) (r : List Nat) :
    percentDecode (b :: r) = b :: percentDecode r := by
  rw [percentDecode]
  rintro _ _ _ rfl
  exact absurd rfl h

theorem percentDecode_formByte {b : Nat} (hb : b < 256) (r : List Nat) :
    percentDecode (((formByte b).map UInt16.toNat).map plusToSpace ++ r) =
      b :: percentDecode r := by
  unfold formByte
  split
  · next hspace =>
    subst hspace
    exact percentDecode_plain (by decide) r
  split
  · next hkeeps =>
    have hplain : b ≠ 0x25 ∧ b ≠ 0x2B := by
      constructor <;> (rintro rfl; exact absurd hkeeps (by decide))
    have hunit : (UInt16.ofNat b).toNat = b := UInt16.toNat_ofNat_of_lt (by simp [UInt16.size]; omega)
    simp only [List.map_cons, List.map_nil, hunit, plusToSpace, if_neg hplain.2]
    exact percentDecode_plain hplain.1 r
  · have hdigit : ∀ d, d < 16 → plusToSpace (upperHex d).toNat = (upperHex d).toNat := by decide
    have hhigh : b / 16 < 16 := by omega
    have hlow : b % 16 < 16 := by omega
    have hpercent : plusToSpace (0x25 : UInt16).toNat = 0x25 := rfl
    simp only [List.map_cons, List.map_nil, hdigit _ hhigh, hdigit _ hlow, hpercent,
      List.cons_append, List.nil_append]
    rw [percentDecode]
    simp only [hexVal_upperHex _ hhigh, hexVal_upperHex _ hlow]
    congr 1
    omega

theorem percentDecode_formBytes {bs : List Nat} (h : ∀ b ∈ bs, b < 256) :
    percentDecode (((bs.flatMap formByte).map UInt16.toNat).map plusToSpace) = bs := by
  induction bs with
  | nil => rfl
  | cons b bs ih =>
    rw [List.flatMap_cons, List.map_append, List.map_append,
      percentDecode_formByte (h b (.head _)), ih fun c hc => h c (.tail _ hc)]

/-- A component is read back with its lone surrogates replaced. -/
theorem formDecode_formEncode (s : JsString) :
    formDecode (formEncode s) = (scalars s).flatMap pointUnits := by
  have hbytes : ∀ b ∈ (scalars s).flatMap utf8, b < 256 := by
    intro b hb
    obtain ⟨c, hc, hb⟩ := List.mem_flatMap.mp hb
    exact utf8_lt (scalars_scalar s c hc) hb
  rw [formDecode, scalars_ascii fun u hu => (formEncode_ascii s u hu).1, formEncode,
    percentDecode_formBytes hbytes, utf8Run_flatMap (scalars_scalar s)]

/-- A parameter is read back verbatim when it is well formed. -/
theorem formGet_formParam {name value : JsString} (hname : wellFormed name = true)
    (hvalue : wellFormed value = true) : formGet (formParam name value) name = some value := by
  have hamp : (0x26 : UInt16) ∉ formParam name value := by
    intro h
    rcases List.mem_append.mp h with h | h
    · exact (formEncode_ascii name _ h).2.1 rfl
    · rcases List.mem_cons.mp h with h | h
      · exact absurd h (by decide)
      · exact (formEncode_ascii value _ h).2.1 rfl
  have hequals : ∀ u ∈ formEncode name, decide (u ≠ (0x3D : UInt16)) = true := fun u hu =>
    decide_eq_true (formEncode_ascii name u hu).2.2
  have hpair : formPair (formParam name value) = (name, value) := by
    rw [formPair, formParam, List.takeWhile_append_of_pos hequals,
      List.dropWhile_append_of_pos hequals]
    simp [formDecode_formEncode, units_scalars name hname, units_scalars value hvalue]
  have hne : formParam name value ≠ [] := by simp [formParam]
  rw [formGet, List.splitOn_eq_singleton hamp]
  simp [hne, hpair]

/-! ## Parameters that need no escapes -/

/-- Every unit stands for itself. -/
def Kept (s : JsString) : Prop := ∀ u ∈ s, formKeeps u.toNat = true

theorem formEncode_kept {s : JsString} (h : Kept s) : formEncode s = s := by
  have hascii : ∀ u ∈ s, u.toNat < 0x80 := fun u hu => formKeeps_lt (h u hu)
  rw [formEncode, scalars_ascii hascii]
  clear hascii
  induction s with
  | nil => rfl
  | cons u r ih =>
    have hkeeps := h u (.head _)
    have hspace : u.toNat ≠ 0x20 := by
      intro heq
      rw [heq] at hkeeps
      exact absurd hkeeps (by decide)
    rw [List.map_cons, List.flatMap_cons, ih fun v hv => h v (.tail _ hv), formByte,
      if_neg hspace, if_pos hkeeps]
    simp

theorem formDecode_kept {s : JsString} (h : Kept s) : formDecode s = s := by
  have hwell : wellFormed s = true := wellFormed_of_lt fun u hu => by
    have := formKeeps_lt (h u hu)
    omega
  have hdecode := formDecode_formEncode s
  rwa [formEncode_kept h, units_scalars s hwell] at hdecode

theorem Kept.not_mem {s : JsString} (h : Kept s) {u : UInt16} (hu : formKeeps u.toNat = false) :
    u ∉ s := by
  intro hmem
  exact absurd (h u hmem) (by simp [hu])

variable {name value : JsString}

theorem formPair_kept (hname : Kept name) (hvalue : Kept value) :
    formPair (name ++ 0x3D :: value) = (name, value) := by
  have hequals : ∀ u ∈ name, decide (u ≠ (0x3D : UInt16)) = true := by
    intro u hu
    refine decide_eq_true ?_
    rintro rfl
    exact hname.not_mem (by decide) hu
  rw [formPair, List.takeWhile_append_of_pos hequals, List.dropWhile_append_of_pos hequals]
  simp [formDecode_kept hname, formDecode_kept hvalue]

theorem param_no_ampersand (hname : Kept name) (hvalue : Kept value) :
    (0x26 : UInt16) ∉ name ++ 0x3D :: value := by
  intro h
  rcases List.mem_append.mp h with h | h
  · exact hname.not_mem (by decide) h
  · rcases List.mem_cons.mp h with h | h
    · exact absurd h (by decide)
    · exact hvalue.not_mem (by decide) h

theorem formParts_one (hname : Kept name) (hvalue : Kept value) :
    formParts (name ++ 0x3D :: value) = [(name, value)] := by
  rw [formParts, List.splitOn_eq_singleton (param_no_ampersand hname hvalue),
    List.filter_cons_of_pos (by simp), List.filter_nil, List.map_cons, List.map_nil,
    formPair_kept hname hvalue]

theorem formParts_cons (hname : Kept name) (hvalue : Kept value) (rest : JsString) :
    formParts (name ++ 0x3D :: value ++ 0x26 :: rest) = (name, value) :: formParts rest := by
  rw [formParts, List.splitOn_append_cons_self_of_not_mem (param_no_ampersand hname hvalue),
    List.filter_cons_of_pos (by simp), List.map_cons, formPair_kept hname hvalue]
  rfl

theorem searchParams_kept {u : UInt16} {r : JsString} (hu : formKeeps u.toNat = true) :
    searchParams (u :: r) = formParts (u :: r) := by
  unfold searchParams
  split
  · next heq =>
    obtain ⟨rfl, _⟩ := List.cons.inj heq
    exact absurd hu (by decide)
  · rfl

end Senn.Js
