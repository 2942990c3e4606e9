import Senn.Js.Json

/-! # Data that crosses windows

A value a window message can carry, after structured cloning: no functions, no
symbols, own enumerable properties only. Property reads, `JSON.stringify` and
`String` are the ones the program applies to such values. -/

namespace Senn.Js

/-- A value after structured cloning. `other` is an object of a class not listed
(a `Map`, a `Date`, an `ArrayBuffer`, ...), and `backRef` one that encloses the
place where it stands; both come with what `String` and `JSON.stringify` make of
them there, `none` where these throw. -/
inductive Data where
  | undefined
  | null
  | bool (b : Bool)
  | num (x : Number)
  | bigint (n : Int)
  | str (s : JsString)
  | bytes (b : Bytes)                                    -- a `Uint8Array`
  | obj (ms : List (JsString × Data))
  | arr (xs : List Data) (ms : List (JsString × Data))   -- elements, other properties
  | other (text : Option JsString) (json : Option Json)
  | backRef (text : Option JsString)

/-- An own property, `undefined` when there is none. -/
def ownProperty (ms : List (JsString × Data)) (k : JsString) : Data :=
  match ms.find? fun m => decide (m.1 = k) with
  | some m => m.2
  | none => .undefined

namespace Data

/-- `v[k]`, of the keys the program reads: no prototype has one of them, and
objects of the other classes have none of their own. -/
def get : Data → JsString → Data
  | .obj ms, k => ownProperty ms k
  | .arr _ ms, k => ownProperty ms k
  | _, _ => .undefined

/-- `typeof v === "object" && v !== null` -/
def isObject : Data → Bool
  | .obj _ | .arr _ _ | .bytes _ | .other _ _ | .backRef _ => true
  | _ => false

/-- `v` in a condition -/
def truthy : Data → Bool
  | .undefined | .null => false
  | .bool b => b
  | .num x => !(x.eq (.ofNat 0)) && x.eq x
  | .bigint n => n ≠ 0
  | .str s => s ≠ []
  | _ => true

/-- The string a value is, when it is one. -/
def str? : Data → Option JsString
  | .str s => some s
  | _ => none

/-- The finite number a value is, when it is one. -/
def finite? : Data → Option ℚ
  | .num (.fin q) => some q
  | _ => none

/-- `v === n` -/
def isNumber (n : Nat) : Data → Bool
  | .num x => x.eq (.ofNat n)
  | _ => false

/-- `v === s` -/
def isText (s : JsString) : Data → Bool
  | .str t => t = s
  | _ => false

/-- The bytes of a `Uint8Array`. -/
def bytes? : Data → Option Bytes
  | .bytes b => some b
  | _ => none

mutual
/-- A value as `JSON.parse` makes it. -/
def ofJson : Json → Data
  | .null => .null
  | .bool b => .bool b
  | .num x => .num x
  | .str s => .str s
  | .arr xs => .arr (ofJsons xs) []
  | .obj ms => .obj (ofMembers ms)
def ofJsons : List Json → List Data
  | [] => []
  | x :: xs => ofJson x :: ofJsons xs
def ofMembers : List (JsString × Json) → List (JsString × Data)
  | [] => []
  | (k, v) :: ms => (k, ofJson v) :: ofMembers ms
end

/-- The own properties of a `Uint8Array`, from its index `i` on. -/
def byteMembers : Nat → Bytes → List (JsString × Json)
  | _, [] => []
  | i, b :: bs => (natText 10 i, .num (.ofNat b.toNat)) :: byteMembers (i + 1) bs

mutual
/-- What `JSON.stringify` writes for a value: `some none` where it leaves the
value out, `none` where it throws a TypeError. -/
def toJson : Data → Option (Option Json)
  | .undefined => some none
  | .null => some (some .null)
  | .bool b => some (some (.bool b))
  | .num (.fin q) => some (some (.num (.fin q)))
  | .num _ => some (some .null)
  | .bigint _ => none
  | .str s => some (some (.str s))
  | .bytes b => some (some (.obj (byteMembers 0 b)))
  | .obj ms => (toMembers ms).map fun ms => some (.obj ms)
  | .arr xs _ => (toElems xs).map fun xs => some (.arr xs)
  | .other _ json => json.map some
  | .backRef _ => none
def toElems : List Data → Option (List Json)
  | [] => some []
  | x :: xs => do
    let x ← toJson x
    let xs ← toElems xs
    return x.getD .null :: xs
def toMembers : List (JsString × Data) → Option (List (JsString × Json))
  | [] => some []
  | (k, v) :: ms => do
    let v ← toJson v
    let ms ← toMembers ms
    return (v.map fun v => (k, v)).toList ++ ms
end

/-- The object has an own property `k`. -/
def hasOwn (ms : List (JsString × Data)) (k : JsString) : Bool := ms.any fun m => m.1 = k

/-- Strings with a comma between them. -/
def joinComma : List JsString → JsString
  | [] => []
  | [s] => s
  | s :: ss => s ++ 0x2C :: joinComma ss

/-- The decimal text of an integer. -/
def intText (n : Int) : JsString := (if n < 0 then [45] else []) ++ natText 10 n.natAbs

mutual
/-- `String(v)`; `none` is the TypeError. An own `toString` is no function, and
`valueOf` gives no primitive value. -/
def text : Data → Option JsString
  | .undefined => some (js "undefined")
  | .null => some (js "null")
  | .bool true => some (js "true")
  | .bool false => some (js "false")
  | .num x => some (numText x)
  | .bigint n => some (intText n)
  | .str s => some s
  | .bytes b => some (joinComma (b.map fun x => natText 10 x.toNat))
  | .obj ms => if hasOwn ms (js "toString") then none else some (js "[object Object]")
  | .arr xs ms =>
    if hasOwn ms (js "toString") then none
    else if hasOwn ms (js "join") then some (js "[object Array]")
    else (elemTexts xs).map joinComma
  | .other text _ => text
  | .backRef text => text
/-- The elements as `join` writes them. -/
def elemTexts : List Data → Option (List JsString)
  | [] => some []
  | .undefined :: xs => (elemTexts xs).map ([] :: ·)
  | .null :: xs => (elemTexts xs).map ([] :: ·)
  | x :: xs => do
    let t ← text x
    let ts ← elemTexts xs
    return t :: ts
end

theorem isText_iff {s : JsString} {v : Data} : v.isText s = true ↔ v = .str s := by
  cases v <;> simp [isText]

theorem isNumber_iff {n : Nat} {v : Data} : v.isNumber n = true ↔ v = .num (.ofNat n) := by
  cases v with
  | num x =>
    simp only [isNumber, Number.eq_iff, Data.num.injEq, and_iff_left_iff_imp]
    rintro rfl h
    cases h
  | _ => simp [isNumber]

end Data

/-- Code that returned got past each of its checks. -/
theorem bind_ok {ε α β : Type} {x : Except ε α} {f : α → Except ε β} {b : β}
    (h : x >>= f = .ok b) : ∃ a, x = .ok a ∧ f a = .ok b := by
  cases x with
  | error e => cases h
  | ok a => exact ⟨a, rfl, h⟩

theorem ok_bind {ε α β : Type} (a : α) (f : α → Except ε β) : (Except.ok a >>= f) = f a := rfl

theorem mapError_ok {ε ε' α : Type} {x : Except ε α} {f : ε → ε'} {a : α} :
    x.mapError f = .ok a ↔ x = .ok a := by
  cases x <;> simp [Except.mapError]

theorem isOk_iff {ε α : Type} {x : Except ε α} : x.isOk = true ↔ ∃ a, x = .ok a := by
  cases x <;> simp [Except.isOk, Except.toBool]

end Senn.Js
