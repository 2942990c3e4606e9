import Senn.Js.JsonRoundTrip

/-! # Indented JSON text

`JSON.stringify(v, null, 2)`, in which the scripts write their files: the reader gives back the
value, whatever white space stands behind it. -/

namespace Senn.Js

/-! ## Writing -/

/-- A line break and the indent of a depth. -/
def lineAt (depth : Nat) : JsString := 0x0A :: List.replicate (2 * depth) 0x20

mutual
/-- `JSON.stringify(v, null, 2)`, at a depth. -/
def Json.indent (depth : Nat) : Json → JsString
  | .arr (x :: xs) => 0x5B :: lineAt (depth + 1) ++ x.indent (depth + 1) ++ indentElems depth xs
  | .obj ((k, v) :: ms) =>
    0x7B :: lineAt (depth + 1) ++ quote k ++ 0x3A :: 0x20 :: v.indent (depth + 1) ++
      indentMembers depth ms
  | v => v.stringify
/-- The elements after the first one, and the closing bracket. -/
def indentElems (depth : Nat) : List Json → JsString
  | [] => lineAt depth ++ [0x5D]
  | x :: xs => 0x2C :: lineAt (depth + 1) ++ x.indent (depth + 1) ++ indentElems depth xs
/-- The members after the first one, and the closing brace. -/
def indentMembers (depth : Nat) : List (JsString × Json) → JsString
  | [] => lineAt depth ++ [0x7D]
  | (k, v) :: ms =>
    0x2C :: lineAt (depth + 1) ++ quote k ++ 0x3A :: 0x20 :: v.indent (depth + 1) ++
      indentMembers depth ms
end

/-- `JSON.stringify(v, null, 2)` and a line break. -/
def Json.fileText (v : Json) : JsString := v.indent 0 ++ [0x0A]

/-! ## Reading -/

theorem skipWs_line (depth : Nat) (s : JsString) : skipWs (lineAt depth ++ s) = skipWs s := by
  have hspaces : ∀ n, skipWs (List.replicate n 0x20 ++ s) = skipWs s := by
    intro n
    induction n with
    | zero => rfl
    | succ n ih => rw [List.replicate_succ, List.cons_append, skipWs, if_pos (.inl rfl), ih]
  rw [lineAt, List.cons_append, skipWs, if_pos (.inr (.inl rfl)), hspaces]

theorem parseValue_skip {s t : JsString} (h : skipWs s = skipWs t) (n : Nat) :
    parseValue n s = parseValue n t := by
  cases n with
  | zero => rfl
  | succ n =>
    rw [parseValue.eq_def, parseValue.eq_def (n + 1) t]
    simp only [h]

theorem parseElems_skip {s t : JsString} (h : skipWs s = skipWs t) (n : Nat) :
    parseElems n s = parseElems n t := by
  cases n with
  | zero => rfl
  | succ n =>
    rw [parseElems.eq_def, parseElems.eq_def (n + 1) t]
    simp only [parseValue_skip h]

theorem parseMembers_skip {s t : JsString} (h : skipWs s = skipWs t) (n : Nat) :
    parseMembers n s = parseMembers n t := by
  cases n with
  | zero => rfl
  | succ n =>
    rw [parseMembers.eq_def, parseMembers.eq_def (n + 1) t]
    simp only [h]

/-- An opening bracket, a line break and the elements. -/
theorem parseValue_lineArr {n depth : Nat} {s r : JsString} {xs : List Json} (hs : Opens s)
    (h : parseElems n s = some (xs, r)) :
    parseValue (n + 1) (0x5B :: lineAt depth ++ s) = some (.arr xs, r) := by
  have hbare := parseValue_arr hs h
  rw [parseValue.eq_def] at hbare ⊢
  simp only [List.cons_append, skipWs_cons (u := 0x5B) (by decide), skipWs_line] at hbare ⊢
  rw [if_neg (by decide), if_pos trivial] at hbare ⊢
  exact hbare

theorem parseValue_lineObj {n depth : Nat} {s r : JsString} {ms : List (JsString × Json)}
    (hs : Opens s) (hk : (ms.map Prod.fst).Nodup) (h : parseMembers n s = some (ms, r)) :
    parseValue (n + 1) (0x7B :: lineAt depth ++ s) = some (.obj ms, r) := by
  have hbare := parseValue_obj hs hk h
  rw [parseValue.eq_def] at hbare ⊢
  simp only [List.cons_append, skipWs_cons (u := 0x7B) (by decide), skipWs_line] at hbare ⊢
  rw [if_pos trivial] at hbare ⊢
  exact hbare

theorem opens_indent (depth : Nat) (v : Json) (hv : v.Exact) (r : JsString) :
    Opens (v.indent depth ++ r) := by
  match v with
  | .arr (x :: xs) => exact opens_cons (by decide)
  | .obj ((k, v) :: ms) => exact opens_cons (by decide)
  | .null | .bool _ | .num _ | .str _ | .arr [] | .obj [] =>
    exact opens_stringify _ hv r

theorem numEnd_indentElems (depth : Nat) (xs : List Json) (r : JsString) :
    NumEnd (indentElems depth xs ++ r) := by
  cases xs <;> exact numEnd_cons (by decide)

theorem numEnd_indentMembers (depth : Nat) (ms : List (JsString × Json)) (r : JsString) :
    NumEnd (indentMembers depth ms ++ r) := by
  cases ms with
  | nil => exact numEnd_cons (by decide)
  | cons e ms =>
    obtain ⟨k, v⟩ := e
    exact numEnd_cons (by decide)

mutual
theorem parseValue_indent : ∀ (depth : Nat) (v : Json) (n : Nat) (r : JsString), v.Exact →
    v.size ≤ n → NumEnd r → parseValue n (v.indent depth ++ r) = some (v, r)
  | _, .null, n, r, hv, hn, hr | _, .bool _, n, r, hv, hn, hr | _, .num _, n, r, hv, hn, hr
  | _, .str _, n, r, hv, hn, hr | _, .arr [], n, r, hv, hn, hr | _, .obj [], n, r, hv, hn, hr =>
    parseValue_stringify _ n r hv hn hr
  | depth, .arr (x :: xs), 0, r, _, hn, _ => by simp [Json.size] at hn
  | depth, .obj ((k, v) :: ms), 0, r, _, hn, _ => by simp [Json.size] at hn
  | depth, .arr (x :: xs), n + 1, r, hx, hn, _ => by
    simp only [Json.size] at hn
    have he : (Json.arr (x :: xs)).indent depth ++ r =
        0x5B :: lineAt (depth + 1) ++ (x.indent (depth + 1) ++ (indentElems depth xs ++ r)) := by
      simp [Json.indent]
    rw [he]
    exact parseValue_lineArr (opens_indent _ x hx.1 _)
      (parseElems_indent depth x xs n r hx.1 hx.2 (by omega))
  | depth, .obj ((k, v) :: ms), n + 1, r, hx, hn, _ => by
    simp only [Json.size] at hn
    have he : (Json.obj ((k, v) :: ms)).indent depth ++ r = 0x7B :: lineAt (depth + 1) ++
        (quote k ++ 0x3A :: 0x20 :: (v.indent (depth + 1) ++ (indentMembers depth ms ++ r))) := by
      simp [Json.indent]
    rw [he]
    exact parseValue_lineObj (opens_cons (by decide)) hx.1
      (parseMembers_indent depth k v ms n r hx.2.1 hx.2.2 (by omega))
theorem parseElems_indent : ∀ (depth : Nat) (x : Json) (xs : List Json) (n : Nat) (r : JsString),
    x.Exact → ExactElems xs → 1 + x.size + sizeElems xs ≤ n →
    parseElems n (x.indent (depth + 1) ++ (indentElems depth xs ++ r)) = some (x :: xs, r)
  | _, _, _, 0, _, _, _, hn => by omega
  | depth, x, xs, n + 1, r, hx, hxs, hn => by
    have hv := parseValue_indent (depth + 1) x n (indentElems depth xs ++ r) hx (by omega)
      (numEnd_indentElems depth xs r)
    rw [parseElems.eq_def]
    simp only [hv]
    match xs, hxs, hn with
    | [], _, _ =>
      simp only [indentElems, List.append_assoc, skipWs_line]
      rfl
    | y :: ys, hys, hn =>
      simp only [sizeElems] at hn
      have ih := parseElems_indent depth y ys n r hys.1 hys.2 (by omega)
      simp only [indentElems, List.cons_append, List.append_assoc,
        skipWs_cons (u := 0x2C) (by decide), parseElems_skip (skipWs_line _ _), ih,
        Option.map_some]
theorem parseMembers_indent : ∀ (depth : Nat) (k : JsString) (v : Json)
    (ms : List (JsString × Json)) (n : Nat) (r : JsString), v.Exact → ExactMembers ms →
    1 + v.size + sizeMembers ms ≤ n →
    parseMembers n (quote k ++ 0x3A :: 0x20 :: (v.indent (depth + 1) ++
      (indentMembers depth ms ++ r))) = some ((k, v) :: ms, r)
  | _, _, _, _, 0, _, _, _, hn => by omega
  | depth, k, v, ms, n + 1, r, hv, hms, hn => by
    have hval := parseValue_indent (depth + 1) v n (indentMembers depth ms ++ r) hv (by omega)
      (numEnd_indentMembers depth ms r)
    have hspace : parseValue n (0x20 :: (v.indent (depth + 1) ++ (indentMembers depth ms ++ r))) =
        some (v, indentMembers depth ms ++ r) := by
      rw [parseValue_skip (t := v.indent (depth + 1) ++ (indentMembers depth ms ++ r)) _ n, hval]
      rw [skipWs, if_pos (.inl rfl)]
    have hq : quote k ++ 0x3A :: 0x20 :: (v.indent (depth + 1) ++ (indentMembers depth ms ++ r)) =
        0x22 :: (escape k ++ 0x22 :: 0x3A ::
          (0x20 :: (v.indent (depth + 1) ++ (indentMembers depth ms ++ r)))) := by
      simp [quote]
    rw [hq, parseMembers.eq_def]
    simp only [skipWs_cons (u := 0x22) (by decide), parseStr_escape,
      skipWs_cons (u := 0x3A) (by decide), hspace]
    match ms, hms, hn with
    | [], _, _ =>
      simp only [indentMembers, List.append_assoc, skipWs_line]
      rfl
    | (k', v') :: ms', hms', hn =>
      simp only [sizeMembers] at hn
      have ih := parseMembers_indent depth k' v' ms' n r hms'.1 hms'.2 (by omega)
      simp only [indentMembers, List.cons_append, List.append_assoc,
        skipWs_cons (u := 0x2C) (by decide), parseMembers_skip (skipWs_line _ _), ih,
        Option.map_some]
end

mutual
theorem length_le_indent : ∀ (depth : Nat) (v : Json), v.stringify.length ≤ (v.indent depth).length
  | _, .null | _, .bool _ | _, .num _ | _, .str _ | _, .arr [] | _, .obj [] => le_rfl
  | depth, .arr (x :: xs) => by
    have h1 := length_le_indent (depth + 1) x
    have h2 := length_le_indentElems depth xs
    simp only [Json.stringify, Json.indent, List.length_cons, List.length_append]
    omega
  | depth, .obj ((k, v) :: ms) => by
    have h1 := length_le_indent (depth + 1) v
    have h2 := length_le_indentMembers depth ms
    simp only [Json.stringify, Json.indent, List.length_cons, List.length_append]
    omega
theorem length_le_indentElems : ∀ (depth : Nat) (xs : List Json),
    (stringifyElems xs).length ≤ (indentElems depth xs).length
  | depth, [] => by simp [stringifyElems, indentElems]
  | depth, x :: xs => by
    have h1 := length_le_indent (depth + 1) x
    have h2 := length_le_indentElems depth xs
    simp only [stringifyElems, indentElems, List.length_cons, List.length_append]
    omega
theorem length_le_indentMembers : ∀ (depth : Nat) (ms : List (JsString × Json)),
    (stringifyMembers ms).length ≤ (indentMembers depth ms).length
  | depth, [] => by simp [stringifyMembers, indentMembers]
  | depth, (k, v) :: ms => by
    have h1 := length_le_indent (depth + 1) v
    have h2 := length_le_indentMembers depth ms
    simp only [stringifyMembers, indentMembers, List.length_cons, List.length_append]
    omega
end

/-- What is written to a file is read back. -/
theorem parse_fileText {v : Json} (hv : v.Exact) : Json.parse v.fileText = some v := by
  have hsize := size_le_length v hv
  have hlength := length_le_indent 0 v
  have hend : NumEnd [0x0A] := numEnd_cons (by decide)
  have hfuel : v.size ≤ v.fileText.length + 1 := by
    rw [Json.fileText, List.length_append]
    omega
  have hvalue : parseValue (v.fileText.length + 1) v.fileText = some (v, [0x0A]) :=
    parseValue_indent 0 v _ [0x0A] hv hfuel hend
  rw [Json.parse, hvalue]
  rfl

/-! ## The text in UTF-8 -/

theorem wellFormed_lineAt (depth : Nat) : wellFormed (lineAt depth) = true := by
  refine wellFormed_ascii fun u hu => ?_
  obtain rfl | hu := List.mem_cons.mp hu
  · decide
  · rw [(List.mem_replicate.mp hu).2]
    decide

mutual
theorem wellFormed_indent : ∀ (depth : Nat) (v : Json), wellFormed (v.indent depth) = true
  | _, .null | _, .bool _ | _, .num _ | _, .str _ | _, .arr [] | _, .obj [] =>
    wellFormed_stringify _
  | depth, .arr (x :: xs) => wellFormed_ascii_cons (by decide)
      (wellFormed_append (wellFormed_append (wellFormed_lineAt _)
        (wellFormed_indent (depth + 1) x)) (wellFormed_indentElems depth xs))
  | depth, .obj ((k, v) :: ms) => wellFormed_ascii_cons (by decide)
      (wellFormed_append (wellFormed_append (wellFormed_append (wellFormed_lineAt _)
        (wellFormed_quote k)) (wellFormed_ascii_cons (by decide) (wellFormed_ascii_cons (by decide)
          (wellFormed_indent (depth + 1) v)))) (wellFormed_indentMembers depth ms))
theorem wellFormed_indentElems : ∀ (depth : Nat) (xs : List Json),
    wellFormed (indentElems depth xs) = true
  | depth, [] => wellFormed_append (wellFormed_lineAt depth) rfl
  | depth, x :: xs => wellFormed_ascii_cons (by decide)
      (wellFormed_append (wellFormed_append (wellFormed_lineAt _)
        (wellFormed_indent (depth + 1) x)) (wellFormed_indentElems depth xs))
theorem wellFormed_indentMembers : ∀ (depth : Nat) (ms : List (JsString × Json)),
    wellFormed (indentMembers depth ms) = true
  | depth, [] => wellFormed_append (wellFormed_lineAt depth) rfl
  | depth, (k, v) :: ms => wellFormed_ascii_cons (by decide)
      (wellFormed_append (wellFormed_append (wellFormed_append (wellFormed_lineAt _)
        (wellFormed_quote k)) (wellFormed_ascii_cons (by decide) (wellFormed_ascii_cons (by decide)
          (wellFormed_indent (depth + 1) v)))) (wellFormed_indentMembers depth ms))
end

theorem wellFormed_fileText (v : Json) : wellFormed v.fileText = true :=
  wellFormed_append (wellFormed_indent 0 v) rfl

end Senn.Js
