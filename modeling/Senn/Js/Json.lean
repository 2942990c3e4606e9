import Senn.Js.Number
import Senn.Lib.InsMap

/-! # JSON text

`Json.stringify` and `Json.parse` are `JSON.stringify` and `JSON.parse`: the
writer escapes quotes, control characters and lone surrogates, the reader is
the ECMA-404 grammar on UTF-16 code units. A member given twice keeps its first
place and its last value. -/

namespace Senn.Js
open Senn.Lib

inductive Json where
  | null
  | bool (b : Bool)
  | num (x : Number)
  | str (s : JsString)
  | arr (xs : List Json)
  | obj (ms : List (JsString × Json))

/-- `v[k]` of a parsed value; a value that is not an object has no members here. -/
def Json.get? : Json → JsString → Option Json
  | .obj ms, k => (ms.find? fun m => decide (m.1 = k)).map Prod.snd
  | _, _ => none

/-! ## Writing -/

def hexDigits (n : Nat) : JsString :=
  [digitUnit (n / 0x1000 % 16), digitUnit (n / 0x100 % 16), digitUnit (n / 0x10 % 16),
    digitUnit (n % 16)]

/-- The escape of one code unit that is not half of a surrogate pair. -/
def escapeUnit (u : UInt16) : JsString :=
  if u = 0x08 then [0x5C, 0x62]
  else if u = 0x09 then [0x5C, 0x74]
  else if u = 0x0A then [0x5C, 0x6E]
  else if u = 0x0C then [0x5C, 0x66]
  else if u = 0x0D then [0x5C, 0x72]
  else if u = 0x22 then [0x5C, 0x22]
  else if u = 0x5C then [0x5C, 0x5C]
  else if u.toNat < 0x20 || isSurrogate u then 0x5C :: 0x75 :: hexDigits u.toNat
  else [u]

def escape : JsString → JsString
  | [] => []
  | [u] => escapeUnit u
  | u :: v :: r =>
    if isHigh u && isLow v then u :: v :: escape r else escapeUnit u ++ escape (v :: r)

def quote (s : JsString) : JsString := 0x22 :: escape s ++ [0x22]

mutual
/-- `JSON.stringify` of a JSON value. -/
def Json.stringify : Json → JsString
  | .null => js "null"
  | .bool true => js "true"
  | .bool false => js "false"
  | .num (.fin q) => numText (.fin q)
  | .num _ => js "null"
  | .str s => quote s
  | .arr [] => [0x5B, 0x5D]
  | .arr (x :: xs) => 0x5B :: x.stringify ++ stringifyElems xs
  | .obj [] => [0x7B, 0x7D]
  | .obj ((k, v) :: ms) => 0x7B :: quote k ++ 0x3A :: v.stringify ++ stringifyMembers ms
/-- The elements after the first one, and the closing bracket. -/
def stringifyElems : List Json → JsString
  | [] => [0x5D]
  | x :: xs => 0x2C :: x.stringify ++ stringifyElems xs
/-- The members after the first one, and the closing brace. -/
def stringifyMembers : List (JsString × Json) → JsString
  | [] => [0x7D]
  | (k, v) :: ms => 0x2C :: quote k ++ 0x3A :: v.stringify ++ stringifyMembers ms
end

/-! ## Reading -/

def skipWs : JsString → JsString
  | [] => []
  | u :: r => if u = 0x20 ∨ u = 0x0A ∨ u = 0x0D ∨ u = 0x09 then skipWs r else u :: r

def isDigit (u : UInt16) : Bool := 48 ≤ u.toNat && u.toNat ≤ 57

def hexVal (u : UInt16) : Option Nat :=
  if isDigit u then some (u.toNat - 48)
  else if 65 ≤ u.toNat ∧ u.toNat ≤ 70 then some (u.toNat - 55)
  else if 97 ≤ u.toNat ∧ u.toNat ≤ 102 then some (u.toNat - 87)
  else none

def hex4 (a b c d : UInt16) : Option UInt16 := do
  let a ← hexVal a
  let b ← hexVal b
  let c ← hexVal c
  let d ← hexVal d
  return UInt16.ofNat (a * 0x1000 + b * 0x100 + c * 0x10 + d)

/-- The character a backslash and `u` stand for. -/
def unescape (u : UInt16) : Option UInt16 :=
  if u = 0x22 ∨ u = 0x5C ∨ u = 0x2F then some u
  else if u = 0x62 then some 0x08
  else if u = 0x66 then some 0x0C
  else if u = 0x6E then some 0x0A
  else if u = 0x72 then some 0x0D
  else if u = 0x74 then some 0x09
  else none

/-- A string after its opening quote: its value and what follows the closing one. -/
def parseStr : JsString → Option (JsString × JsString)
  | [] => none
  | u :: r =>
    if u = 0x22 then some ([], r)
    else if u = 0x5C then
      match r with
      | [] => none
      | e :: r' =>
        if e = 0x75 then
          match r' with
          | a :: b :: c :: d :: r'' =>
            (hex4 a b c d).bind fun v => (parseStr r'').map fun p => (v :: p.1, p.2)
          | _ => none
        else (unescape e).bind fun v => (parseStr r').map fun p => (v :: p.1, p.2)
    else if u.toNat < 0x20 then none
    else (parseStr r).map fun p => (u :: p.1, p.2)

def spanDigits : JsString → JsString × JsString
  | [] => ([], [])
  | u :: r => if isDigit u then (u :: (spanDigits r).1, (spanDigits r).2) else ([], u :: r)

def ofDigits (ds : JsString) : Nat := ds.foldl (fun n u => n * 10 + (u.toNat - 48)) 0

/-- One or more digits. -/
def parseDigits (s : JsString) : Option (JsString × JsString) :=
  if (spanDigits s).1 = [] then none else some (spanDigits s)

def parseInteger (s : JsString) : Option (JsString × JsString) :=
  match s with
  | 0x30 :: r => some ([0x30], r)
  | s => parseDigits s

def parseFraction (s : JsString) : Option (JsString × JsString) :=
  match s with
  | 0x2E :: r => parseDigits r
  | s => some ([], s)

def parseExponent (s : JsString) : Option (Int × JsString) :=
  match s with
  | [] => some (0, [])
  | e :: r =>
    if e = 0x65 ∨ e = 0x45 then
      match r with
      | 0x2B :: r' => (parseDigits r').map fun p => ((ofDigits p.1 : Int), p.2)
      | 0x2D :: r' => (parseDigits r').map fun p => (-(ofDigits p.1 : Int), p.2)
      | r' => (parseDigits r').map fun p => ((ofDigits p.1 : Int), p.2)
    else some (0, e :: r)

def parseUnsigned (s : JsString) : Option (ℚ × JsString) := do
  let (int, r1) ← parseInteger s
  let (frac, r2) ← parseFraction r1
  let (exp, r3) ← parseExponent r2
  return (powered 10 (ofDigits (int ++ frac)) (exp - frac.length), r3)

def parseNum (s : JsString) : Option (Number × JsString) :=
  match s with
  | 0x2D :: r => (parseUnsigned r).map fun p => (toDouble (-p.1), p.2)
  | s => (parseUnsigned s).map fun p => (toDouble p.1, p.2)

/-- The members of an object as its text gives them, each key once. -/
def ownMembers (ms : List (JsString × Json)) : List (JsString × Json) :=
  (ms.foldl (fun m e => m.set e.1 e.2) (InsMap.empty : InsMap JsString Json)).entries

mutual
/-- A value and the text after it; the fuel bounds the nesting and the length. -/
def parseValue : Nat → JsString → Option (Json × JsString)
  | 0, _ => none
  | n + 1, s =>
    match skipWs s with
    | [] => none
    | c :: r =>
      if c = 0x7B then
        match skipWs r with
        | 0x7D :: r' => some (.obj [], r')
        | r' => (parseMembers n r').map fun p => (.obj (ownMembers p.1), p.2)
      else if c = 0x5B then
        match skipWs r with
        | 0x5D :: r' => some (.arr [], r')
        | r' => (parseElems n r').map fun p => (.arr p.1, p.2)
      else if c = 0x22 then (parseStr r).map fun p => (.str p.1, p.2)
      else if c = 0x6E then
        if r.take 3 = js "ull" then some (.null, r.drop 3) else none
      else if c = 0x74 then
        if r.take 3 = js "rue" then some (.bool true, r.drop 3) else none
      else if c = 0x66 then
        if r.take 4 = js "alse" then some (.bool false, r.drop 4) else none
      else (parseNum (c :: r)).map fun p => (.num p.1, p.2)
def parseElems : Nat → JsString → Option (List Json × JsString)
  | 0, _ => none
  | n + 1, s =>
    match parseValue n s with
    | none => none
    | some (x, r) =>
      match skipWs r with
      | 0x2C :: r' => (parseElems n r').map fun p => (x :: p.1, p.2)
      | 0x5D :: r' => some ([x], r')
      | _ => none
def parseMembers : Nat → JsString → Option (List (JsString × Json) × JsString)
  | 0, _ => none
  | n + 1, s =>
    match skipWs s with
    | 0x22 :: r =>
      match parseStr r with
      | none => none
      | some (k, r1) =>
        match skipWs r1 with
        | 0x3A :: r2 =>
          match parseValue n r2 with
          | none => none
          | some (v, r3) =>
            match skipWs r3 with
            | 0x2C :: r4 => (parseMembers n r4).map fun p => ((k, v) :: p.1, p.2)
            | 0x7D :: r4 => some ([(k, v)], r4)
            | _ => none
        | _ => none
    | _ => none
end

/-- `JSON.parse(s)`; `none` is the SyntaxError. -/
def Json.parse (s : JsString) : Option Json :=
  match parseValue (s.length + 1) s with
  | some (v, r) => if skipWs r = [] then some v else none
  | none => none

end Senn.Js
