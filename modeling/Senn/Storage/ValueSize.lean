import Senn.Js.JsonSize
import Senn.Storage.AddonStorage

/-! # The size of stored values

A value is measured by its JSON text before it is put, and kept as the structured clone. What
the text leaves out is compared here with what it has around the strings it shows. -/

namespace Senn.Storage
open Senn.Js

/-- The bytes of a buffer, where it stands first; a clone has every buffer once. -/
inductive Buffer where
  | own (bytes : Bytes)
  | seen

/-- What `JSON.stringify` reads of a typed array. -/
inductive Elements where
  | numbers (xs : List Number)
  | bigints (xs : List Int)

/-- A value after structured cloning, a wrapper object as the primitive it wraps. -/
inductive Clone where
  | undefined
  | null
  | bool (b : Bool)
  | num (x : Number)
  | bigint (n : Int)
  | str (s : JsString)
  | date (text : Option JsString)                          -- an invalid one has none
  | buffer (b : Buffer)                                    -- an `ArrayBuffer` or a `DataView`
  | typed (xs : Elements) (b : Buffer)
  | map (entries : List (Clone × Clone))
  | set (xs : List Clone)
  | record (strings : List JsString) (bytes : Bytes)       -- a `RegExp`, an `Error`, a `Blob`, ...
  | obj (ms : List (JsString × Clone))
  | arr (xs : List Clone) (ms : List (JsString × Clone))   -- elements, other properties
  | again (v : Clone)                                      -- an object that stands before, too
  | backRef                                                -- one that encloses this place

namespace Clone

/-! ## JSON text -/

def numberJson : Number → Json
  | .fin q => .num (.fin q)
  | _ => .null

/-- The own properties of a typed array, from its index `i` on. -/
def elementMembers : Nat → List Number → List (JsString × Json)
  | _, [] => []
  | i, x :: xs => (natText 10 i, numberJson x) :: elementMembers (i + 1) xs

mutual
/-- What `JSON.stringify` writes for a value: `some none` where it leaves the value out, `none`
where it throws a TypeError. -/
def toJson : Clone → Option (Option Json)
  | .undefined => some none
  | .null => some (some .null)
  | .bool b => some (some (.bool b))
  | .num x => some (some (numberJson x))
  | .bigint _ => none
  | .str s => some (some (.str s))
  | .date text => some (some ((text.map .str).getD .null))
  | .buffer _ => some (some (.obj []))
  | .typed (.numbers xs) _ => some (some (.obj (elementMembers 0 xs)))
  | .typed (.bigints []) _ => some (some (.obj []))
  | .typed (.bigints _) _ => none
  | .map _ => some (some (.obj []))
  | .set _ => some (some (.obj []))
  | .record _ _ => some (some (.obj []))
  | .obj ms => (toMembers ms).map fun ms => some (.obj ms)
  | .arr xs _ => (toElems xs).map fun xs => some (.arr xs)
  | .again v => toJson v
  | .backRef => none
def toElems : List Clone → Option (List Json)
  | [] => some []
  | x :: xs => do
    let x ← toJson x
    let xs ← toElems xs
    return x.getD .null :: xs
def toMembers : List (JsString × Clone) → Option (List (JsString × Json))
  | [] => some []
  | (k, v) :: ms => do
    let v ← toJson v
    let ms ← toMembers ms
    return (v.map fun v => (k, v)).toList ++ ms
end

/-- The values that an add-on puts; the text of an error is not told apart. -/
def values : AddonStorage.Values Clone where
  null := .null
  isNullish
    | .null | .undefined => true
    | _ => false
  stringify v :=
    match toJson v with
    | some json => .ok (json.map Json.stringify)
    | none => .error []

/-! ## What a value holds -/

def Buffer.size : Buffer → Nat
  | .own bytes => bytes.length
  | .seen => 0

mutual
/-- The bytes of its buffers, and of its strings in UTF-8. -/
def size : Clone → Nat
  | .str s => textBytes s
  | .buffer b => Buffer.size b
  | .typed _ b => Buffer.size b
  | .map es => sizeEntries es
  | .set xs => sizeElems xs
  | .record ss bytes => (ss.map textBytes).sum + bytes.length
  | .obj ms => sizeMembers ms
  | .arr xs ms => sizeElems xs + sizeMembers ms
  | .undefined | .null | .bool _ | .num _ | .bigint _ | .date _ | .again _ | .backRef => 0
def sizeElems : List Clone → Nat
  | [] => 0
  | x :: xs => size x + sizeElems xs
def sizeMembers : List (JsString × Clone) → Nat
  | [] => 0
  | (_, v) :: ms => size v + sizeMembers ms
def sizeEntries : List (Clone × Clone) → Nat
  | [] => 0
  | (k, v) :: es => size k + size v + sizeEntries es
end

mutual
/-- The same of the parts that JSON text does not show. -/
def hidden : Clone → Nat
  | .buffer b => Buffer.size b
  | .typed _ b => Buffer.size b
  | .map es => sizeEntries es
  | .set xs => sizeElems xs
  | .record ss bytes => (ss.map textBytes).sum + bytes.length
  | .obj ms => hiddenMembers ms
  | .arr xs ms => hiddenElems xs + sizeMembers ms
  | .undefined | .null | .bool _ | .num _ | .bigint _ | .str _ | .date _ | .again _ | .backRef => 0
def hiddenElems : List Clone → Nat
  | [] => 0
  | x :: xs => hidden x + hiddenElems xs
def hiddenMembers : List (JsString × Clone) → Nat
  | [] => 0
  | (_, v) :: ms => hidden v + hiddenMembers ms
end

def isUndefined : Clone → Bool
  | .undefined => true
  | .again v => isUndefined v
  | _ => false

/-- A quoted name. -/
def nameBytes (k : JsString) : Nat := textBytes k + (2 + escapesExtra k)

def numberBytes : Number → Nat
  | .fin q => textBytes (numText (.fin q))
  | _ => 4

def elementsBytes : Nat → List Number → Nat
  | _, [] => 0
  | i, x :: xs => 1 + (nameBytes (natText 10 i) + 1 + numberBytes x) + elementsBytes (i + 1) xs

mutual
/-- The bytes of JSON text that are not those of a string the value holds there: quotes,
escapes, names, numbers, literals and punctuation, and what is written once more. -/
def around : Clone → Nat
  | .undefined | .null => 4
  | .bool b => if b then 4 else 5
  | .num x => numberBytes x
  | .str s => 2 + escapesExtra s
  | .date (some text) => nameBytes text
  | .date none => 4
  | .typed (.numbers xs) _ => 1 + max 1 (elementsBytes 0 xs)
  | .obj ms => 1 + max 1 (aroundMembers ms)
  | .arr xs _ => 1 + max 1 (aroundElems xs)
  | .again v => size v - hidden v + around v
  | .typed (.bigints _) _ | .buffer _ | .map _ | .set _ | .record _ _ => 2
  | .bigint _ | .backRef => 0
def aroundElems : List Clone → Nat
  | [] => 0
  | x :: xs => 1 + around x + aroundElems xs
def aroundMembers : List (JsString × Clone) → Nat
  | [] => 0
  | (k, v) :: ms =>
    (if isUndefined v then 0 else 1 + (nameBytes k + 1 + around v)) + aroundMembers ms
end

mutual
/-- JSON has no text for the value: it shows a bigint, or an object inside itself. -/
def throws : Clone → Bool
  | .bigint _ | .backRef => true
  | .typed (.bigints xs) _ => xs ≠ []
  | .obj ms => throwsMembers ms
  | .arr xs _ => throwsElems xs
  | .again v => throws v
  | _ => false
def throwsElems : List Clone → Bool
  | [] => false
  | x :: xs => throws x || throwsElems xs
def throwsMembers : List (JsString × Clone) → Bool
  | [] => false
  | (_, v) :: ms => throws v || throwsMembers ms
end

/-! ## What the text is made of -/

mutual
theorem hidden_le_size : ∀ v : Clone, hidden v ≤ size v
  | .obj ms => hiddenMembers_le ms
  | .arr xs _ => Nat.add_le_add_right (hiddenElems_le xs) _
  | .str _ | .again _ => Nat.zero_le _
  | .undefined | .null | .bool _ | .num _ | .bigint _ | .date _ | .buffer _ | .typed _ _
  | .map _ | .set _ | .record _ _ | .backRef => Nat.le_refl _
theorem hiddenElems_le : ∀ xs : List Clone, hiddenElems xs ≤ sizeElems xs
  | [] => Nat.le_refl _
  | x :: xs => Nat.add_le_add (hidden_le_size x) (hiddenElems_le xs)
theorem hiddenMembers_le : ∀ ms : List (JsString × Clone), hiddenMembers ms ≤ sizeMembers ms
  | [] => Nat.le_refl _
  | (_, v) :: ms => Nat.add_le_add (hidden_le_size v) (hiddenMembers_le ms)
end


theorem textBytes_numberJson (x : Number) : textBytes (numberJson x).stringify = numberBytes x := by
  cases x with
  | fin q => rfl
  | _ => exact textBytes_ascii (ascii_of_all (by decide))

theorem sum_elementMembers (xs : List Number) : ∀ i,
    ((elementMembers i xs).map fun m => 1 + memberBytes m).sum = elementsBytes i xs := by
  induction xs with
  | nil => exact fun _ => rfl
  | cons x xs ih =>
    intro i
    rw [elementMembers, List.map_cons, List.sum_cons, ih, elementsBytes, memberBytes,
      textBytes_quote, textBytes_numberJson, nameBytes]

theorem hidden_of_isUndefined : ∀ {v : Clone}, isUndefined v = true → hidden v = size v
  | .undefined, _ => rfl
  | .again _, _ => rfl

theorem isUndefined_iff : ∀ {v : Clone}, isUndefined v = true ↔ toJson v = some none
  | .undefined => by simp [isUndefined, toJson]
  | .again v => by rw [isUndefined, toJson]; exact isUndefined_iff
  | .typed (.numbers _) _ | .typed (.bigints []) _ | .typed (.bigints (_ :: _)) _ => by
    simp [isUndefined, toJson]
  | .null | .bool _ | .num _ | .bigint _ | .str _ | .date _ | .buffer _ | .map _ | .set _
  | .record _ _ | .backRef | .obj _ | .arr _ _ => by simp [isUndefined, toJson]

/-- An element that is left out is written as `null`. -/
theorem absent_element : ∀ {v : Clone}, toJson v = some none →
    textBytes Json.null.stringify + hidden v = size v + around v
  | .undefined, _ => rfl
  | .again v, h => by
    have hnull : textBytes Json.null.stringify = 4 := rfl
    have hinner := absent_element (v := v) h
    have heq := hidden_of_isUndefined ((isUndefined_iff (v := v)).mpr h)
    rw [hidden, size, around]
    omega
  | .typed (.numbers _) _, h | .typed (.bigints []) _, h | .typed (.bigints (_ :: _)) _, h => by
    cases h
  | .null, h | .bool _, h | .num _, h | .bigint _, h | .str _, h | .date _, h | .buffer _, h
  | .map _, h | .set _, h | .record _ _, h | .backRef, h => by cases h
  | .obj ms, h => by
    obtain ⟨_, _, heq⟩ := Option.map_eq_some_iff.mp h
    cases heq
  | .arr xs _, h => by
    obtain ⟨_, _, heq⟩ := Option.map_eq_some_iff.mp h
    cases heq

mutual
/-- The text shows the strings that are not hidden, and what is around them. -/
theorem textBytes_toJson : ∀ {v : Clone} {j : Json}, toJson v = some (some j) →
    textBytes j.stringify + hidden v = size v + around v
  | .null, _, h => by
    cases h
    rfl
  | .bool b, _, h => by
    cases h
    cases b <;> rfl
  | .num x, _, h => by
    cases h
    rw [textBytes_numberJson, hidden, size, around]
    omega
  | .str s, _, h => by
    cases h
    exact textBytes_quote s
  | .date none, _, h => by
    cases h
    rfl
  | .date (some text), _, h => by
    cases h
    show textBytes (quote text) + 0 = 0 + nameBytes text
    rw [textBytes_quote, Nat.zero_add]
    rfl
  | .buffer b, _, h => by
    cases h
    exact Nat.add_comm _ _
  | .typed (.numbers xs) b, _, h => by
    cases h
    rw [textBytes_obj, sum_elementMembers, hidden, size, around]
    omega
  | .typed (.bigints []) b, _, h => by
    cases h
    exact Nat.add_comm _ _
  | .map es, _, h => by
    cases h
    exact Nat.add_comm _ _
  | .set xs, _, h => by
    cases h
    exact Nat.add_comm _ _
  | .record ss bytes, _, h => by
    cases h
    exact Nat.add_comm _ _
  | .obj ms, j, h => by
    obtain ⟨js, hjs, heq⟩ := Option.map_eq_some_iff.mp h
    obtain rfl := Option.some.inj heq
    obtain ⟨hsum, hzero⟩ := sum_toMembers hjs
    rw [textBytes_obj, hidden, size, around]
    omega
  | .arr xs ms, j, h => by
    obtain ⟨js, hjs, heq⟩ := Option.map_eq_some_iff.mp h
    obtain rfl := Option.some.inj heq
    obtain ⟨hsum, hzero⟩ := sum_toElems hjs
    rw [textBytes_arr, hidden, size, around]
    omega
  | .again v, j, h => by
    have htext := textBytes_toJson (v := v) h
    have hle := hidden_le_size v
    rw [hidden, size, around]
    omega
theorem sum_toElems : ∀ {xs : List Clone} {js : List Json}, toElems xs = some js →
    (js.map fun j => 1 + textBytes j.stringify).sum + hiddenElems xs =
        sizeElems xs + aroundElems xs ∧
      ((js.map fun j => 1 + textBytes j.stringify).sum = 0 ↔ aroundElems xs = 0)
  | [], _, h => by
    cases h
    exact ⟨rfl, Iff.rfl⟩
  | x :: xs, _, h => by
    obtain ⟨o, ho, h⟩ := Option.bind_eq_some_iff.mp h
    obtain ⟨js, hjs, h⟩ := Option.bind_eq_some_iff.mp h
    obtain rfl := Option.some.inj h
    obtain ⟨hsum, -⟩ := sum_toElems hjs
    have htext : textBytes (o.getD .null).stringify + hidden x = size x + around x := by
      cases o with
      | some j => exact textBytes_toJson ho
      | none => exact absent_element ho
    rw [List.map_cons, List.sum_cons, hiddenElems, sizeElems, aroundElems]
    omega
theorem sum_toMembers : ∀ {ms : List (JsString × Clone)} {js : List (JsString × Json)},
    toMembers ms = some js →
    (js.map fun m => 1 + memberBytes m).sum + hiddenMembers ms =
        sizeMembers ms + aroundMembers ms ∧
      ((js.map fun m => 1 + memberBytes m).sum = 0 ↔ aroundMembers ms = 0)
  | [], _, h => by
    cases h
    exact ⟨rfl, Iff.rfl⟩
  | (k, v) :: ms, _, h => by
    obtain ⟨o, ho, h⟩ := Option.bind_eq_some_iff.mp h
    obtain ⟨js, hjs, h⟩ := Option.bind_eq_some_iff.mp h
    obtain rfl := Option.some.inj h
    obtain ⟨hsum, hzero⟩ := sum_toMembers hjs
    rw [hiddenMembers, sizeMembers, aroundMembers]
    cases o with
    | none =>
      have habsent := isUndefined_iff.mpr ho
      rw [if_pos habsent, hidden_of_isUndefined habsent]
      simp only [Option.map_none, Option.toList_none, List.nil_append]
      omega
    | some j =>
      have hpresent : ¬isUndefined v = true := by
        intro hv
        cases ho.symm.trans (isUndefined_iff.mp hv)
      have htext := textBytes_toJson ho
      have hmember : memberBytes (k, j) = nameBytes k + 1 + textBytes j.stringify := by
        rw [memberBytes, textBytes_quote]
        rfl
      rw [if_neg hpresent]
      simp only [Option.map_some, Option.toList_some, List.singleton_append, List.map_cons,
        List.sum_cons, hmember]
      omega
end

mutual
theorem toJson_none : ∀ {v : Clone}, toJson v = none ↔ throws v = true
  | .obj ms => by rw [toJson, Option.map_eq_none_iff, toMembers_none, throws]
  | .arr xs _ => by rw [toJson, Option.map_eq_none_iff, toElems_none, throws]
  | .again v => by rw [toJson, toJson_none, throws]
  | .typed (.numbers _) _ | .typed (.bigints []) _ | .typed (.bigints (_ :: _)) _ => by
    simp [toJson, throws]
  | .undefined | .null | .bool _ | .num _ | .bigint _ | .str _ | .date _ | .buffer _ | .map _
  | .set _ | .record _ _ | .backRef => by simp [toJson, throws]
theorem toElems_none : ∀ {xs : List Clone}, toElems xs = none ↔ throwsElems xs = true
  | [] => by simp [toElems, throwsElems]
  | x :: xs => by
    rw [toElems, throwsElems, Bool.or_eq_true, ← toJson_none, ← toElems_none]
    cases toJson x <;> cases toElems xs <;> simp
theorem toMembers_none : ∀ {ms : List (JsString × Clone)},
    toMembers ms = none ↔ throwsMembers ms = true
  | [] => by simp [toMembers, throwsMembers]
  | (_, v) :: ms => by
    rw [toMembers, throwsMembers, Bool.or_eq_true, ← toJson_none, ← toMembers_none]
    cases toJson v <;> cases toMembers ms <;> simp
end

/-! ## The cap -/

open AddonStorage Protocol

/-- The measure rejects the value, or bounds what it holds. -/
def Measured (v : Clone) : Prop :=
  (∃ message, approximateBytes values v = .error ⟨.valueNotCloneable, message⟩) ∨
    ∃ n, approximateBytes values v = .ok n ∧ size v ≤ n

/-- The cap is effective for the value: it is measured, and put only if it holds no more. -/
def Capped (v : Clone) : Prop :=
  Measured v ∧ ∀ (B : Type) [StorageBackend B Clone] (b b' : B) (addonId key : JsString) (now : ℚ),
    AddonStorage.put values b addonId key v now = .ok b' → size v ≤ MAX_VALUE_BYTES

theorem approximateBytes_some {v : Clone} {j : Json} (h : toJson v = some (some j)) :
    approximateBytes values v = .ok (textBytes j.stringify) := by
  simp only [approximateBytes, values, h]
  rfl

theorem approximateBytes_none {v : Clone} (h : toJson v = none) :
    approximateBytes values v = .error ⟨.valueNotCloneable, []⟩ := by
  simp only [approximateBytes, values, h]

theorem approximateBytes_absent {v : Clone} (h : toJson v = some none) :
    approximateBytes values v = .ok 0 := by
  simp only [approximateBytes, values, h]
  rfl

theorem size_of_isUndefined : ∀ {v : Clone}, isUndefined v = true → size v = 0
  | .undefined, _ => rfl
  | .again _, _ => rfl

theorem measured_iff {v : Clone} : Measured v ↔ throws v = true ∨ hidden v ≤ around v := by
  cases hjson : toJson v with
  | none => exact iff_of_true (.inl ⟨_, approximateBytes_none hjson⟩) (.inl (toJson_none.mp hjson))
  | some o =>
    have hthrows : ¬throws v = true := by
      rw [← toJson_none, hjson]
      exact Option.some_ne_none o
    cases o with
    | none =>
      have habsent := isUndefined_iff.mpr hjson
      have hsize := size_of_isUndefined habsent
      refine iff_of_true (.inr ⟨0, approximateBytes_absent hjson, hsize.le⟩) (.inr ?_)
      rw [hidden_of_isUndefined habsent, hsize]
      exact Nat.zero_le _
    | some j =>
      have htext := textBytes_toJson hjson
      have hbytes := approximateBytes_some hjson
      constructor
      · intro h
        obtain ⟨message, hmessage⟩ | ⟨n, hn, hle⟩ := h
        · cases hbytes.symm.trans hmessage
        · obtain rfl := Except.ok.inj (hbytes.symm.trans hn)
          exact .inr (by omega)
      · exact fun h => .inr ⟨_, hbytes, by have := h.resolve_left hthrows; omega⟩

/-- A value that is put has been measured, and is within the cap. -/
theorem put_measured {B : Type} [StorageBackend B Clone] {b b' : B} {addonId key : JsString}
    {v : Clone} {now : ℚ} (h : AddonStorage.put values b addonId key v now = .ok b') :
    ∃ n, approximateBytes values v = .ok n ∧ n ≤ MAX_VALUE_BYTES := by
  obtain ⟨_, hvalid, -⟩ := bind_ok h
  obtain ⟨_, -, hvalid⟩ := bind_ok hvalid
  obtain ⟨n, hn, hvalid⟩ := bind_ok hvalid
  split at hvalid
  · cases hvalid
  · next hle => exact ⟨n, hn, Nat.le_of_not_lt hle⟩

/-- The cap is effective for a value exactly where JSON has no text for it, or the text has at
least as much around the strings it shows as it leaves out of the value. -/
theorem value_capped_iff (v : Clone) : Capped v ↔ throws v = true ∨ hidden v ≤ around v := by
  refine ⟨fun h => measured_iff.mp h.1, fun h => ⟨measured_iff.mpr h, ?_⟩⟩
  intro B _ b b' addonId key now hput
  obtain ⟨n, hn, hle⟩ := put_measured hput
  obtain ⟨message, hmessage⟩ | ⟨m, hm, hsize⟩ := measured_iff.mpr h
  · cases hn.symm.trans hmessage
  · obtain rfl := Except.ok.inj (hn.symm.trans hm)
    exact hsize.trans hle

/-- Where the cap is effective for every value that is put, no add-on keeps one above it. -/
theorem kept_within_cap {calls : List (Call Clone)}
    (hids : ∀ c ∈ calls, matchesAddonId c.addonId = true)
    (hcapped : ∀ c ∈ calls, ∀ key v now, c.op = .put key v now →
      throws v = true ∨ hidden v ≤ around v)
    {addonId k : JsString} (haddon : (0x20 : UInt16) ∉ addonId) {v : Clone}
    (h : keptFor (Lib.Machine.after (step values) (.create : InMemoryStorageBackend Clone) calls)
      addonId k = some v) : size v ≤ MAX_VALUE_BYTES := by
  rw [(keptFor_after hids haddon).2] at h
  obtain ⟨before, now, rest, heq, hvalid, -⟩ := replay_eq_some.mp h
  have hop : Op.put k v now ∈ (own addonId calls).map Call.op := heq ▸ by simp
  obtain ⟨c, hc, hcop⟩ := List.mem_map.mp hop
  have hcond := hcapped c (List.mem_filter.mp hc).1 k v now hcop
  have hput : AddonStorage.put values (.create : InMemoryStorageBackend Clone) addonId k v now =
      StorageBackend.put .create addonId k ⟨v, now⟩ := by
    rw [AddonStorage.put, hvalid]
    rfl
  exact ((value_capped_iff v).mpr hcond).2 _ _ _ _ _ _ hput

/-- An `ArrayBuffer` of one byte more than the cap. -/
def largeBuffer : Clone := .buffer (.own (List.replicate (MAX_VALUE_BYTES + 1) 0))

theorem largeBuffer_put : ¬Capped largeBuffer ∧ size largeBuffer = MAX_VALUE_BYTES + 1 ∧
    approximateBytes values largeBuffer = .ok 2 ∧
    (AddonStorage.put values (.create : InMemoryStorageBackend Clone) (js "dev.a") (js "k")
      largeBuffer 0).isOk = true := by
  have hsize : size largeBuffer = MAX_VALUE_BYTES + 1 := List.length_replicate
  have hput : (AddonStorage.put values (.create : InMemoryStorageBackend Clone) (js "dev.a")
      (js "k") largeBuffer 0).isOk = true := rfl
  refine ⟨fun h => ?_, hsize, rfl, hput⟩
  obtain ⟨b', hb'⟩ := isOk_iff.mp hput
  have hle := h.2 _ _ _ _ _ _ hb'
  omega

end Clone

end Senn.Storage
