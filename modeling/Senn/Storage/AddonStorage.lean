import Senn.Lib.Machine
import Senn.Storage.Backend

/-! # An add-on's storage

`createAddonStorage`: the checks of keys and values in front of a backend. All add-ons share
the backend, and each of them sees a map of its own. -/

namespace Senn.Storage.AddonStorage
open Senn.Js Senn.Lib Senn.Lib.Machine Senn.Protocol CodeUnits

def MAX_KEY_LENGTH : Nat := 256

def MAX_VALUE_BYTES : Nat := 1 * 1024 * 1024

/-- Values as the storage sees them: which ones `??` replaces by `null`, and what
`JSON.stringify` makes of one (`undefined` is no text), or the message of its error. -/
structure Values (V : Type) where
  null : V
  isNullish : V → Bool
  stringify : V → Except JsString (Option JsString)

variable {V : Type} (W : Values V)

/-- `rec?.value ?? null` -/
def Values.orNull : Option V → V
  | some v => if W.isNullish v then W.null else v
  | none => W.null

def validateKey (key : JsString) : Except StorageError Unit :=
  if key.length > MAX_KEY_LENGTH then .error (.ofCode .keyTooLong) else .ok ()

def approximateBytes (value : V) : Except StorageError Nat :=
  match W.stringify value with
  | .ok text => .ok (utf8Encode (text.getD [])).length
  | .error message => .error ⟨.valueNotCloneable, message⟩

/-- The checks of `put`. -/
def validatePut (key : JsString) (value : V) : Except StorageError Unit := do
  validateKey key
  let bytes ← approximateBytes W value
  if bytes > MAX_VALUE_BYTES then .error (.ofCode .valueTooLarge) else .ok ()

/-! ## The calls of an add-on -/

section
variable {B : Type} [StorageBackend B V] (b : B) (addonId : JsString)

def get (key : JsString) : Except StorageError V := do
  validateKey key
  let record ← StorageBackend.get b addonId key
  return W.orNull (record.map StorageRecord.value)

def put (key : JsString) (value : V) (now : ℚ) : Except StorageError B := do
  validatePut W key value
  StorageBackend.put b addonId key ⟨value, now⟩

def delete (key : JsString) : Except StorageError B := do
  validateKey key
  StorageBackend.delete b addonId key

def list : Except StorageError (List JsString) := StorageBackend.list b addonId

def clear : Except StorageError B := StorageBackend.clear b addonId

end

/-- What an add-on asks of its storage; `now` is the clock of a `put`. -/
inductive Op (V : Type) where
  | get (key : JsString)
  | put (key : JsString) (value : V) (now : ℚ)
  | delete (key : JsString)
  | list
  | clear

/-- What the promise of a call settles with. -/
inductive Result (V : Type) where
  | value (v : V)
  | keys (ks : List JsString)
  | done
  | rejected (e : StorageError)

structure Call (V : Type) where
  addonId : JsString
  op : Op V

section
variable {B : Type} [StorageBackend B V]

/-- A call that changes the backend, when it is not rejected. -/
def changed (b : B) : Except StorageError B → B × Result V
  | .ok b' => (b', .done)
  | .error e => (b, .rejected e)

def perform (b : B) (addonId : JsString) : Op V → B × Result V
  | .get key =>
    match get W b addonId key with
    | .ok v => (b, .value v)
    | .error e => (b, .rejected e)
  | .put key value now => changed b (put W b addonId key value now)
  | .delete key => changed b (delete b addonId key)
  | .list =>
    match list b addonId with
    | .ok ks => (b, .keys ks)
    | .error e => (b, .rejected e)
  | .clear => changed b (clear b addonId)

/-- A call of one of the add-ons, with what it settles with. -/
def step (b : B) (c : Call V) : B × List (JsString × Result V) :=
  ((perform W b c.addonId c.op).1, [(c.addonId, (perform W b c.addonId c.op).2)])

end

/-! ## A map for each add-on -/

/-- The call changes what is kept under `k`. -/
def Op.Writes (k : JsString) : Op V → Prop
  | .put key value _ => key = k ∧ validatePut W key value = .ok ()
  | .delete key => key = k ∧ validateKey key = .ok ()
  | .clear => True
  | .get _ | .list => False

/-- `v` was put under `k`, and nothing was put there, deleted or cleared since. -/
def LastPut (ops : List (Op V)) (k : JsString) (v : V) : Prop :=
  ∃ before now rest, ops = before ++ .put k v now :: rest ∧ validatePut W k v = .ok () ∧
    ∀ op ∈ rest, ¬ op.Writes W k

/-- A check refuses a call with its error, or lets the call settle with one of `good`. -/
def Checked (check : Except StorageError Unit) (good : Result V → Prop) (r : Result V) : Prop :=
  (∃ e, check = .error e ∧ r = .rejected e) ∨ check = .ok () ∧ good r

/-- What a call settles with where `kept` says which value is kept under a key. -/
def Answers (kept : JsString → V → Prop) : Op V → Result V → Prop
  | .get key, r =>
    Checked (validateKey key) (fun r => (∃ v, kept key v ∧ r = .value (W.orNull (some v))) ∨
      (∀ v, ¬ kept key v) ∧ r = .value W.null) r
  | .put key value _, r => Checked (validatePut W key value) (fun r => r = .done) r
  | .delete key, r => Checked (validateKey key) (fun r => r = .done) r
  | .list, r => ∃ ks, r = .keys ks ∧ ks.Pairwise (· < ·) ∧ ∀ k, k ∈ ks ↔ ∃ v, kept k v
  | .clear, r => r = .done

/-- What one add-on keeps, as a map. -/
abbrev Kept (V : Type) := JsString → Option V

instance Op.Writes.decidable (k : JsString) : ∀ op : Op V, Decidable (op.Writes W k)
  | .put key value _ => inferInstanceAs (Decidable (key = k ∧ validatePut W key value = .ok ()))
  | .delete key => inferInstanceAs (Decidable (key = k ∧ validateKey key = .ok ()))
  | .clear => inferInstanceAs (Decidable True)
  | .get _ | .list => inferInstanceAs (Decidable False)

/-- What a call that writes leaves behind. -/
def Op.leaves : Op V → Option V
  | .put _ value _ => some value
  | _ => none

/-- The map after a call. -/
def Op.apply (m : Kept V) (op : Op V) : Kept V := fun k =>
  if op.Writes W k then op.leaves else m k

/-- The map after a list of calls. -/
def replay (ops : List (Op V)) : Kept V := ops.foldl (fun m op => op.apply W m) fun _ => none

variable {W}

theorem replay_append (ops : List (Op V)) (op : Op V) :
    replay W (ops ++ [op]) = op.apply W (replay W ops) := by
  simp [replay]

/-- A call that writes under `k` puts a value there or leaves none. -/
theorem leaves_eq_some {op : Op V} {k : JsString} {v : V} (h : op.Writes W k) :
    op.leaves = some v ↔ ∃ now, op = .put k v now := by
  cases op with
  | get key => exact h.elim
  | list => exact h.elim
  | clear => simp [Op.leaves]
  | put key value now => simp [Op.leaves, h.1]
  | delete key => simp [Op.leaves]

theorem lastPut_append {ops : List (Op V)} {op : Op V} {k : JsString} {v : V} :
    LastPut W (ops ++ [op]) k v ↔
      op.Writes W k ∧ (∃ now, op = .put k v now) ∨ ¬ op.Writes W k ∧ LastPut W ops k v := by
  constructor
  · rintro ⟨before, now, rest, heq, hok, hrest⟩
    cases rest using List.reverseRecOn with
    | nil =>
      obtain ⟨rfl, hop⟩ := List.append_inj' heq rfl
      obtain rfl := (List.cons.inj hop).1
      exact .inl ⟨⟨rfl, hok⟩, now, rfl⟩
    | append_singleton rest last =>
      rw [← List.cons_append, ← List.append_assoc] at heq
      obtain ⟨rfl, hop⟩ := List.append_inj' heq rfl
      obtain rfl := (List.cons.inj hop).1
      exact .inr ⟨hrest _ (by simp), before, now, rest, rfl, hok,
        fun op' hop' => hrest op' (by simp [hop'])⟩
  · rintro (⟨hwrites, now, rfl⟩ | ⟨hno, before, now, rest, rfl, hok, hrest⟩)
    · exact ⟨ops, now, [], rfl, hwrites.2, by simp⟩
    · refine ⟨before, now, rest ++ [op], by simp, hok, fun op' hop' => ?_⟩
      obtain hop' | hop' := List.mem_append.mp hop'
      · exact hrest op' hop'
      · rw [List.mem_singleton.mp hop']
        exact hno

/-- The map keeps what was put last. -/
theorem replay_eq_some {ops : List (Op V)} {k : JsString} {v : V} :
    replay W ops k = some v ↔ LastPut W ops k v := by
  induction ops using List.reverseRecOn with
  | nil =>
    constructor
    · intro h
      cases h
    · rintro ⟨before, now, rest, heq, _⟩
      exact absurd heq (by simp)
  | append_singleton ops op ih =>
    rw [replay_append, lastPut_append, Op.apply]
    by_cases hop : op.Writes W k
    · rw [if_pos hop, leaves_eq_some hop]
      simp [hop]
    · rw [if_neg hop, ih]
      simp [hop]

theorem Checked.unique {check : Except StorageError Unit} {good : Result V → Prop}
    {r r' : Result V} (h : Checked check good r) (hgood : ∀ r r', good r → good r' → r = r')
    (h' : Checked check good r') : r = r' := by
  obtain ⟨e, he, rfl⟩ | ⟨hok, h⟩ := h
  · obtain ⟨e', he', rfl⟩ | ⟨hok', _⟩ := h'
    · rw [Except.error.inj (he.symm.trans he')]
    · rw [he] at hok'
      cases hok'
  · obtain ⟨e', he', rfl⟩ | ⟨_, h'⟩ := h'
    · rw [hok] at he'
      cases he'
    · exact hgood r r' h h'

/-- What the backend in memory has for an add-on. -/
def keptFor (b : InMemoryStorageBackend V) (addonId : JsString) : Kept V := fun k =>
  (Namespace.part 0x20 b.map addonId k).map StorageRecord.value

variable {b : InMemoryStorageBackend V} {addonId other : JsString}

theorem perform_closed (h : b.closed = false) (op : Op V) :
    (perform W b addonId op).1.closed = false := by
  cases op with
  | get key =>
    simp only [perform]
    split <;> exact h
  | put key value now =>
    simp only [perform, put]
    cases validatePut W key value with
    | error e => exact h
    | ok u =>
      simp only [StorageBackend.put, InMemoryStorageBackend.put_open h]
      exact h
  | delete key =>
    simp only [perform, delete]
    cases validateKey key with
    | error e => exact h
    | ok u =>
      simp only [StorageBackend.delete, InMemoryStorageBackend.delete_open h]
      exact h
  | list =>
    simp only [perform]
    split <;> exact h
  | clear =>
    simp only [perform, clear, StorageBackend.clear, InMemoryStorageBackend.clear_open h]
    exact h

/-- A call changes what it writes of its own add-on, and nothing else. -/
theorem keptFor_perform (h : b.closed = false) (haddon : (0x20 : UInt16) ∉ addonId)
    (hother : (0x20 : UInt16) ∉ other) (op : Op V) (k : JsString) :
    keptFor (perform W b addonId op).1 other k =
      if other = addonId ∧ op.Writes W k then op.leaves else keptFor b other k := by
  cases op with
  | get key =>
    have hsame : (perform W b addonId (.get key)).1 = b := by
      simp only [perform]
      split <;> rfl
    rw [hsame, if_neg fun hw => hw.2]
  | list =>
    have hsame : (perform W b addonId .list).1 = b := by
      simp only [perform]
      split <;> rfl
    rw [hsame, if_neg fun hw => hw.2]
  | put key value now =>
    cases hcheck : validatePut W key value with
    | error e =>
      rw [if_neg fun hw => by cases hcheck.symm.trans hw.2.2]
      simp only [perform, put, hcheck]
      rfl
    | ok u =>
      simp only [perform, put, hcheck, StorageBackend.put, InMemoryStorageBackend.put_open h]
      show Option.map _ (Namespace.part 0x20 (b.map.set (Namespace.compose 0x20 _ _) _) _ _) = _
      rw [Namespace.part_set haddon hother]
      by_cases hw : other = addonId ∧ k = key
      · rw [if_pos hw, if_pos ⟨hw.1, hw.2.symm, hcheck⟩]
        rfl
      · rw [if_neg hw, if_neg fun hw' => hw ⟨hw'.1, hw'.2.1.symm⟩]
        rfl
  | delete key =>
    cases hcheck : validateKey key with
    | error e =>
      rw [if_neg fun hw => by cases hcheck.symm.trans hw.2.2]
      simp only [perform, delete, hcheck]
      rfl
    | ok u =>
      simp only [perform, delete, hcheck, StorageBackend.delete,
        InMemoryStorageBackend.delete_open h]
      show Option.map _ (Namespace.part 0x20 (b.map.delete (Namespace.compose 0x20 _ _)) _ _) = _
      rw [Namespace.part_delete haddon hother]
      by_cases hw : other = addonId ∧ k = key
      · rw [if_pos hw, if_pos ⟨hw.1, hw.2.symm, hcheck⟩]
        rfl
      · rw [if_neg hw, if_neg fun hw' => hw ⟨hw'.1, hw'.2.1.symm⟩]
        rfl
  | clear =>
    simp only [perform, clear, StorageBackend.clear, InMemoryStorageBackend.clear_open h]
    show Option.map _ ((b.cleared addonId).get (Namespace.compose 0x20 other k)) = _
    rw [InMemoryStorageBackend.get_cleared]
    have hstart : namespaceStart addonId <+: Namespace.compose 0x20 other k ↔ addonId = other :=
      Namespace.opening_prefix_iff haddon hother
    by_cases hw : addonId = other
    · rw [if_pos (hstart.mpr hw), if_pos ⟨hw.symm, trivial⟩]
      rfl
    · rw [if_neg fun hp => hw (hstart.mp hp), if_neg fun hw' => hw hw'.1.symm]
      rfl

/-! ## Runs -/

/-- The calls of one add-on. -/
def own (addonId : JsString) (calls : List (Call V)) : List (Call V) :=
  calls.filter fun c => c.addonId = addonId

variable {calls : List (Call V)}

theorem own_append (addonId : JsString) (calls : List (Call V)) (c : Call V) :
    own addonId (calls ++ [c]) =
      if c.addonId = addonId then own addonId calls ++ [c] else own addonId calls := by
  by_cases h : c.addonId = addonId <;> simp [own, h]

/-- What is kept for an add-on after a run is what its own calls leave. -/
theorem keptFor_after (hids : ∀ c ∈ calls, matchesAddonId c.addonId = true)
    (haddon : (0x20 : UInt16) ∉ addonId) :
    (after (step W) (.create : InMemoryStorageBackend V) calls).closed = false ∧
      keptFor (after (step W) .create calls) addonId =
        replay W ((own addonId calls).map Call.op) := by
  induction calls using List.reverseRecOn with
  | nil => exact ⟨rfl, rfl⟩
  | append_singleton calls c ih =>
    obtain ⟨hopen, hkept⟩ := ih fun c' hc' => hids c' (by simp [hc'])
    have hc := no_space (hids c (by simp))
    rw [after_append, after_cons, after_nil]
    refine ⟨perform_closed hopen c.op, ?_⟩
    funext k
    show keptFor (perform W _ c.addonId c.op).1 addonId k = _
    rw [keptFor_perform hopen hc haddon, hkept, own_append]
    by_cases hown : c.addonId = addonId
    · rw [if_pos hown, List.map_append, List.map_singleton, replay_append, Op.apply]
      by_cases hw : c.op.Writes W k
      · rw [if_pos ⟨hown.symm, hw⟩, if_pos hw]
      · rw [if_neg fun h' => hw h'.2, if_neg hw]
    · rw [if_neg hown, if_neg fun h' => hown h'.1.symm]

end Senn.Storage.AddonStorage
