import Senn.Js.Order
import Senn.Lib.Namespace
import Senn.Lib.Words
import Senn.Protocol.Envelope

/-! # Storage backends

The interface of the backends and the two that implement it: a map in memory, and an object
store of IndexedDB, whose cursor visits a range of keys in their order. All add-ons share one
map; a key in it is an add-on's id, a space and the add-on's key. -/

namespace Senn.Storage
open Senn.Js Senn.Lib Senn.Protocol CodeUnits

inductive StorageErrorCode where
  | permissionDenied
  | keyTooLong
  | valueTooLarge
  | quotaExceeded
  | valueNotCloneable
  | closed
  | invalidRequest
deriving DecidableEq

def StorageErrorCode.text : StorageErrorCode → JsString
  | .permissionDenied => js "permission-denied"
  | .keyTooLong => js "key-too-long"
  | .valueTooLarge => js "value-too-large"
  | .quotaExceeded => js "quota-exceeded"
  | .valueNotCloneable => js "value-not-cloneable"
  | .closed => js "closed"
  | .invalidRequest => js "invalid-request"

structure StorageError where
  code : StorageErrorCode
  message : JsString
deriving DecidableEq

/-- `new StorageError(code)` -/
def StorageError.ofCode (code : StorageErrorCode) : StorageError := ⟨code, code.text⟩

structure StorageRecord (V : Type) where
  value : V
  updatedAt : ℚ

/-- A backend whose calls settle one after the other; `B` is its state. -/
class StorageBackend (B : Type) (V : outParam Type) where
  get : B → JsString → JsString → Except StorageError (Option (StorageRecord V))
  put : B → JsString → JsString → StorageRecord V → Except StorageError B
  delete : B → JsString → JsString → Except StorageError B
  list : B → JsString → Except StorageError (List JsString)
  clear : B → JsString → Except StorageError B
  close : B → B

def namespaceKey (addonId key : JsString) : JsString := Namespace.compose 0x20 addonId key

/-- What all keys of an add-on start with. -/
def namespaceStart (addonId : JsString) : JsString := Namespace.opening 0x20 addonId

variable {V : Type}

/-! ## In memory -/

structure InMemoryStorageBackend (V : Type) where
  map : InsMap JsString (StorageRecord V)
  closed : Bool

namespace InMemoryStorageBackend

def create : InMemoryStorageBackend V := ⟨.empty, false⟩

def get (b : InMemoryStorageBackend V) (addonId key : JsString) :
    Except StorageError (Option (StorageRecord V)) :=
  if b.closed then .error (.ofCode .closed) else .ok (b.map.get (namespaceKey addonId key))

def put (b : InMemoryStorageBackend V) (addonId key : JsString) (record : StorageRecord V) :
    Except StorageError (InMemoryStorageBackend V) :=
  if b.closed then .error (.ofCode .closed)
  else .ok { b with map := b.map.set (namespaceKey addonId key) record }

def delete (b : InMemoryStorageBackend V) (addonId key : JsString) :
    Except StorageError (InMemoryStorageBackend V) :=
  if b.closed then .error (.ofCode .closed)
  else .ok { b with map := b.map.delete (namespaceKey addonId key) }

/-- `map.keys()` -/
def keys (b : InMemoryStorageBackend V) : List JsString := b.map.entries.map Prod.fst

def list (b : InMemoryStorageBackend V) (addonId : JsString) :
    Except StorageError (List JsString) :=
  if b.closed then .error (.ofCode .closed)
  else
    let start := namespaceStart addonId
    .ok (sorted ((b.keys.filter fun k => start <+: k).map fun k => k.drop start.length))

def clear (b : InMemoryStorageBackend V) (addonId : JsString) :
    Except StorageError (InMemoryStorageBackend V) :=
  if b.closed then .error (.ofCode .closed)
  else
    let start := namespaceStart addonId
    .ok { b with map := b.keys.foldl (fun m k => if start <+: k then m.delete k else m) b.map }

def close (_ : InMemoryStorageBackend V) : InMemoryStorageBackend V := ⟨.empty, true⟩

instance : StorageBackend (InMemoryStorageBackend V) V where
  get := get
  put := put
  delete := delete
  list := list
  clear := clear
  close := close

end InMemoryStorageBackend

/-! ## In IndexedDB -/

/-- A backend whose database opens; `store` is the object store in it. -/
structure IndexedDbStorageBackend (V : Type) where
  store : InsMap JsString (StorageRecord V)
  closed : Bool

namespace IndexedDbStorageBackend

def create : IndexedDbStorageBackend V := ⟨.empty, false⟩

/-- The store of a transaction. -/
def tx (b : IndexedDbStorageBackend V) :
    Except StorageError (InsMap JsString (StorageRecord V)) :=
  if b.closed then .error (.ofCode .closed) else .ok b.store

/-- The keys that `openCursor(IDBKeyRange.bound(lower, upper))` visits. -/
def cursorKeys (store : InsMap JsString (StorageRecord V)) (lower upper : JsString) :
    List JsString :=
  sorted ((store.entries.map Prod.fst).filter fun k => lower ≤ k ∧ k ≤ upper)

/-- The keys of an add-on, as `list` and `clear` ask for them. -/
def namespaceKeys (store : InsMap JsString (StorageRecord V)) (addonId : JsString) :
    List JsString :=
  cursorKeys store (namespaceStart addonId) (namespaceStart addonId ++ [0xFFFF])

def get (b : IndexedDbStorageBackend V) (addonId key : JsString) :
    Except StorageError (Option (StorageRecord V)) := do
  let store ← b.tx
  return store.get (namespaceKey addonId key)

def put (b : IndexedDbStorageBackend V) (addonId key : JsString) (record : StorageRecord V) :
    Except StorageError (IndexedDbStorageBackend V) := do
  let store ← b.tx
  return { b with store := store.set (namespaceKey addonId key) record }

def delete (b : IndexedDbStorageBackend V) (addonId key : JsString) :
    Except StorageError (IndexedDbStorageBackend V) := do
  let store ← b.tx
  return { b with store := store.delete (namespaceKey addonId key) }

def list (b : IndexedDbStorageBackend V) (addonId : JsString) :
    Except StorageError (List JsString) := do
  let store ← b.tx
  let start := namespaceStart addonId
  return sorted ((namespaceKeys store addonId).map fun k => k.drop start.length)

def clear (b : IndexedDbStorageBackend V) (addonId : JsString) :
    Except StorageError (IndexedDbStorageBackend V) := do
  let store ← b.tx
  return { b with store := (namespaceKeys store addonId).foldl InsMap.delete store }

/-- `close`; what is stored stays in the database. -/
def close (b : IndexedDbStorageBackend V) : IndexedDbStorageBackend V := { b with closed := true }

instance : StorageBackend (IndexedDbStorageBackend V) V where
  get := get
  put := put
  delete := delete
  list := list
  clear := clear
  close := close

end IndexedDbStorageBackend

/-! ## Calls -/

/-- A call of a backend. -/
inductive BackendCall (V : Type) where
  | get (addonId key : JsString)
  | put (addonId key : JsString) (record : StorageRecord V)
  | delete (addonId key : JsString)
  | list (addonId : JsString)
  | clear (addonId : JsString)
  | close

/-- What the promise of a call settles with. -/
inductive BackendResult (V : Type) where
  | record (r : Option (StorageRecord V))
  | keys (ks : List JsString)
  | done
  | failed (e : StorageError)

variable {B : Type} [StorageBackend B V]

/-- A call that changes the backend, when it does not fail. -/
def settle (b : B) : Except StorageError B → B × List (BackendResult V)
  | .ok b' => (b', [.done])
  | .error e => (b, [.failed e])

def perform (b : B) : BackendCall V → B × List (BackendResult V)
  | .get addonId key =>
    match StorageBackend.get b addonId key with
    | .ok r => (b, [.record r])
    | .error e => (b, [.failed e])
  | .put addonId key record => settle b (StorageBackend.put b addonId key record)
  | .delete addonId key => settle b (StorageBackend.delete b addonId key)
  | .list addonId =>
    match StorageBackend.list b addonId with
    | .ok ks => (b, [.keys ks])
    | .error e => (b, [.failed e])
  | .clear addonId => settle b (StorageBackend.clear b addonId)
  | .close => (StorageBackend.close b, [.done])

/-! ## The keys of an add-on -/

/-- An add-on's id has no space, so the space after it ends it. -/
theorem no_space {s : JsString} (h : matchesAddonId s = true) : (0x20 : UInt16) ∉ s := by
  simp only [matchesAddonId, Bool.and_eq_true, List.all_eq_true] at h
  have hlabels : ∀ label ∈ s.splitOn 0x2E, ∀ u ∈ label, u ≠ 0x20 := by
    intro label hlabel u hu hspace
    have hunits := h.2 label hlabel
    subst hspace
    cases label with
    | nil => cases hu
    | cons v r =>
      simp only [isAddonIdLabel, Bool.and_eq_true, List.all_eq_true] at hunits
      obtain rfl | hr := List.mem_cons.mp hu
      · exact absurd hunits.1 (by decide)
      · exact absurd (hunits.2 _ hr) (by decide)
  exact fun hmem => (forall_splitOn _ s).mp hlabels _ hmem (by decide) rfl

theorem nodup_dropped {start : JsString} {keys : List JsString} (h : keys.Nodup)
    (hstart : ∀ k ∈ keys, start <+: k) : (keys.map fun k => k.drop start.length).Nodup := by
  refine List.Nodup.map_on (fun k hk l hl heq => ?_) h
  obtain ⟨r, rfl⟩ := hstart k hk
  obtain ⟨r', rfl⟩ := hstart l hl
  simp only [List.drop_left] at heq
  rw [heq]

theorem mem_keys_iff {m : InsMap JsString (StorageRecord V)} {k : JsString} :
    k ∈ m.entries.map Prod.fst ↔ (m.get k).isSome = true := by
  rw [← not_iff_not, ← InsMap.get_eq_none_iff]
  simp

namespace InMemoryStorageBackend

variable {b : InMemoryStorageBackend V} {addonId key k : JsString}

/-- What `list` returns: the keys with the start of the add-on, without it. -/
def listed (b : InMemoryStorageBackend V) (addonId : JsString) : List JsString :=
  sorted ((b.keys.filter fun k => namespaceStart addonId <+: k).map fun k =>
    k.drop (namespaceStart addonId).length)

theorem mem_listed :
    k ∈ b.listed addonId ↔ (b.map.get (namespaceKey addonId k)).isSome = true := by
  rw [listed, mem_sorted, List.mem_map, namespaceKey, Namespace.compose_eq]
  constructor
  · rintro ⟨l, hl, rfl⟩
    obtain ⟨hmem, hstart⟩ := List.mem_filter.mp hl
    obtain ⟨r, rfl⟩ := of_decide_eq_true hstart
    rw [List.drop_left]
    exact mem_keys_iff.mp hmem
  · intro hk
    refine ⟨_, List.mem_filter.mpr ⟨mem_keys_iff.mpr hk, ?_⟩, List.drop_left⟩
    exact decide_eq_true (List.prefix_append _ _)

theorem listed_ascending : (b.listed addonId).Pairwise (· < ·) := by
  refine sorted_ascending (nodup_dropped (b.map.nodup.filter _) fun k hk => ?_)
  exact of_decide_eq_true (List.mem_filter.mp hk).2

/-- The map after `clear`. -/
def cleared (b : InMemoryStorageBackend V) (addonId : JsString) :
    InsMap JsString (StorageRecord V) :=
  b.keys.foldl (fun m k => if namespaceStart addonId <+: k then m.delete k else m) b.map

theorem get_cleared :
    (b.cleared addonId).get k = if namespaceStart addonId <+: k then none else b.map.get k := by
  rw [cleared, Namespace.get_foldl_delete]
  by_cases hk : k ∈ b.keys
  · simp [hk]
  · have hnone : b.map.get k = none := InsMap.get_eq_none_iff.mpr hk
    simp [hk, hnone]

variable (h : b.closed = false)
include h

/-! While the backend is open, no call of it fails. -/

theorem get_open : b.get addonId key = .ok (b.map.get (namespaceKey addonId key)) := by
  simp [get, h]

theorem put_open (record : StorageRecord V) : b.put addonId key record =
    .ok { b with map := b.map.set (namespaceKey addonId key) record } := by
  simp [put, h]

theorem delete_open : b.delete addonId key =
    .ok { b with map := b.map.delete (namespaceKey addonId key) } := by
  simp [delete, h]

theorem list_open : b.list addonId = .ok (b.listed addonId) := by
  simp [list, h, listed]

theorem clear_open : b.clear addonId = .ok { b with map := b.cleared addonId } := by
  simp [clear, h, cleared]

end InMemoryStorageBackend

end Senn.Storage
