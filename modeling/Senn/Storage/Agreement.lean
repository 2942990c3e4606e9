import Senn.Lib.Machine
import Senn.Storage.Backend

/-! # Where the two backends agree

`IndexedDbStorageBackend` asks its cursor for the keys up to the start of the add-on and one
`U+FFFF` after it. A key that goes on after a leading `U+FFFF` is put and read, but lies beyond
that range: `list` and `clear` leave it out. -/

namespace Senn.Storage
open Senn.Js Senn.Lib Senn.Lib.Machine Senn.Protocol CodeUnits

variable {V : Type}

/-- The cursor reaches the key: nothing follows a leading `U+FFFF`. -/
def InRange (key : JsString) : Prop := key.head? = some 0xFFFF → key.length = 1

instance (key : JsString) : Decidable (InRange key) :=
  inferInstanceAs (Decidable (key.head? = some 0xFFFF → key.length = 1))

/-- A call as an add-on's storage makes it. -/
def BackendCall.Allowed : BackendCall V → Prop
  | .get addonId key | .put addonId key _ | .delete addonId key =>
    matchesAddonId addonId = true ∧ key.length ≤ 256
  | .list addonId | .clear addonId => matchesAddonId addonId = true
  | .close => True

instance BackendCall.Allowed.decidable : ∀ c : BackendCall V, Decidable c.Allowed
  | .get addonId key | .put addonId key _ | .delete addonId key =>
    inferInstanceAs (Decidable (matchesAddonId addonId = true ∧ key.length ≤ 256))
  | .list addonId | .clear addonId => inferInstanceAs (Decidable (matchesAddonId addonId = true))
  | .close => inferInstanceAs (Decidable True)

/-- The key that a call puts is one of `K`. -/
def BackendCall.PutsIn (K : JsString → Prop) : BackendCall V → Prop
  | .put _ key _ => K key
  | _ => True

theorem inRange_iff {key : JsString} : InRange key ↔ KeyRange.Bounded key := by
  cases key with
  | nil =>
    constructor
    · intro _ x xs h
      cases h
    · intro _ h
      cases h
  | cons u r =>
    constructor
    · intro h x xs heq hx
      obtain ⟨rfl, rfl⟩ := List.cons.inj heq
      have hlength := h (congrArg some hx)
      exact List.length_eq_zero_iff.mp (Nat.succ.inj hlength)
    · intro h hu
      rw [h u r rfl (Option.some.inj hu)]
      rfl

/-! ## The database after a call -/

namespace IndexedDbStorageBackend

variable {d : IndexedDbStorageBackend V} {addonId key k : JsString}

/-- The cursor visits the stored keys of the add-on that are in range. -/
theorem mem_namespaceKeys : k ∈ namespaceKeys d.store addonId ↔
    ∃ key, k = namespaceKey addonId key ∧ InRange key ∧ (d.store.get k).isSome = true := by
  rw [namespaceKeys, cursorKeys, mem_sorted, List.mem_filter, mem_keys_iff, decide_eq_true_eq]
  show _ ∧ _ ∧ k ≤ namespaceStart addonId ++ [⊤] ↔ _
  rw [KeyRange.mem_range_iff]
  simp only [inRange_iff, namespaceKey, Namespace.compose_eq, namespaceStart]
  constructor
  · rintro ⟨hstored, key, heq, hbounded⟩
    exact ⟨key, heq, hbounded, hstored⟩
  · rintro ⟨key, heq, hbounded, hstored⟩
    exact ⟨hstored, key, heq, hbounded⟩

/-- What `list` returns. -/
def listed (d : IndexedDbStorageBackend V) (addonId : JsString) : List JsString :=
  sorted ((namespaceKeys d.store addonId).map fun k => k.drop (namespaceStart addonId).length)

theorem mem_listed : key ∈ d.listed addonId ↔
    InRange key ∧ (d.store.get (namespaceKey addonId key)).isSome = true := by
  rw [listed, mem_sorted, List.mem_map]
  constructor
  · rintro ⟨k, hk, rfl⟩
    obtain ⟨key, rfl, hrange, hstored⟩ := mem_namespaceKeys.mp hk
    rw [namespaceKey, Namespace.compose_eq, namespaceStart, List.drop_left]
    exact ⟨hrange, hstored⟩
  · rintro ⟨hrange, hstored⟩
    refine ⟨_, mem_namespaceKeys.mpr ⟨key, rfl, hrange, hstored⟩, ?_⟩
    rw [namespaceKey, Namespace.compose_eq, namespaceStart, List.drop_left]

theorem listed_ascending : (d.listed addonId).Pairwise (· < ·) := by
  refine sorted_ascending (nodup_dropped ?_ fun k hk => ?_)
  · exact (List.perm_insertionSort _ _).nodup_iff.mpr (d.store.nodup.filter _)
  · obtain ⟨key, rfl, _⟩ := mem_namespaceKeys.mp hk
    rw [namespaceKey, Namespace.compose_eq]
    exact List.prefix_append _ _

theorem get_foldl_delete (m : InsMap JsString (StorageRecord V)) (ks : List JsString) :
    (ks.foldl InsMap.delete m).get k = if k ∈ ks then none else m.get k := by
  induction ks generalizing m with
  | nil => simp
  | cons l ks ih =>
    rw [List.foldl_cons, ih, InsMap.get_delete]
    by_cases hl : k = l
    · simp [hl]
    · simp [hl]

variable (h : d.closed = false)
include h

/-! While the backend is open, no call of it fails. -/

theorem get_open : d.get addonId key = .ok (d.store.get (namespaceKey addonId key)) := by
  simp [get, tx, h, bind, Except.bind, pure, Except.pure]

theorem put_open (record : StorageRecord V) : d.put addonId key record =
    .ok { d with store := d.store.set (namespaceKey addonId key) record } := by
  simp [put, tx, h, bind, Except.bind, pure, Except.pure]

theorem delete_open : d.delete addonId key =
    .ok { d with store := d.store.delete (namespaceKey addonId key) } := by
  simp [delete, tx, h, bind, Except.bind, pure, Except.pure]

theorem list_open : d.list addonId = .ok (d.listed addonId) := by
  simp [list, tx, h, listed, bind, Except.bind, pure, Except.pure]

theorem clear_open : d.clear addonId =
    .ok { d with store := (namespaceKeys d.store addonId).foldl InsMap.delete d.store } := by
  simp [clear, tx, h, bind, Except.bind, pure, Except.pure]

end IndexedDbStorageBackend

/-! ## Side by side -/

/-- The two backends keep the same, and no key that the cursor does not reach. -/
structure Agree (b : InMemoryStorageBackend V) (d : IndexedDbStorageBackend V) : Prop where
  closed : d.closed = b.closed
  same : b.closed = false → ∀ k, d.store.get k = b.map.get k
  reached : b.closed = false → ∀ addonId key, (0x20 : UInt16) ∉ addonId →
    (b.map.get (namespaceKey addonId key)).isSome = true → InRange key

variable {b : InMemoryStorageBackend V} {d : IndexedDbStorageBackend V} {c : BackendCall V}

theorem agree_create : Agree (V := V) .create .create :=
  ⟨rfl, fun _ _ => rfl, fun _ _ _ _ h => by cases h⟩

theorem perform_closed (hb : b.closed = true) (hd : d.closed = true) :
    (perform d c).2 = (perform b c).2 ∧
      (perform b c).1.closed = true ∧ (perform d c).1.closed = true := by
  cases c with
  | close => exact ⟨rfl, rfl, rfl⟩
  | get addonId key =>
    simp [perform, StorageBackend.get, IndexedDbStorageBackend.get, IndexedDbStorageBackend.tx,
      InMemoryStorageBackend.get, hb, hd, bind, Except.bind]
  | put addonId key record =>
    simp [perform, settle, StorageBackend.put, IndexedDbStorageBackend.put,
      IndexedDbStorageBackend.tx, InMemoryStorageBackend.put, hb, hd, bind, Except.bind]
  | delete addonId key =>
    simp [perform, settle, StorageBackend.delete, IndexedDbStorageBackend.delete,
      IndexedDbStorageBackend.tx, InMemoryStorageBackend.delete, hb, hd, bind, Except.bind]
  | list addonId =>
    simp [perform, StorageBackend.list, IndexedDbStorageBackend.list, IndexedDbStorageBackend.tx,
      InMemoryStorageBackend.list, hb, hd, bind, Except.bind]
  | clear addonId =>
    simp [perform, settle, StorageBackend.clear, IndexedDbStorageBackend.clear,
      IndexedDbStorageBackend.tx, InMemoryStorageBackend.clear, hb, hd, bind, Except.bind]

/-- A call whose key the cursor reaches, if it puts one, has the same result on both sides. -/
theorem perform_agree (h : Agree b d) (hallowed : c.Allowed) (hput : c.PutsIn InRange) :
    (perform d c).2 = (perform b c).2 ∧ Agree (perform b c).1 (perform d c).1 := by
  cases hb : b.closed with
  | true =>
    obtain ⟨hout, hb', hd'⟩ := perform_closed (c := c) hb (h.closed.trans hb)
    exact ⟨hout, hd'.trans hb'.symm, fun ho => by simp [hb'] at ho, fun ho => by simp [hb'] at ho⟩
  | false =>
    have hd : d.closed = false := h.closed.trans hb
    have hsame := h.same hb
    have hreached := h.reached hb
    cases c with
    | close =>
      refine ⟨rfl, rfl, ?_, ?_⟩
      · intro ho
        cases ho
      · intro ho
        cases ho
    | get addonId key =>
      simp only [perform, StorageBackend.get, IndexedDbStorageBackend.get_open hd,
        InMemoryStorageBackend.get_open hb, hsame]
      exact ⟨trivial, h⟩
    | put addonId key record =>
      simp only [perform, StorageBackend.put, IndexedDbStorageBackend.put_open hd,
        InMemoryStorageBackend.put_open hb, settle]
      refine ⟨trivial, h.closed, fun _ k => ?_, fun _ other l hother hstored => ?_⟩
      · rw [InsMap.get_set, InsMap.get_set, hsame]
      · by_cases hkey : namespaceKey other l = namespaceKey addonId key
        · have hinj := (Namespace.compose_inj hother (no_space hallowed.1)).mp hkey
          rw [hinj.2]
          exact hput
        · refine hreached other l hother ?_
          rwa [InsMap.get_set_of_ne _ _ hkey] at hstored
    | delete addonId key =>
      simp only [perform, StorageBackend.delete, IndexedDbStorageBackend.delete_open hd,
        InMemoryStorageBackend.delete_open hb, settle]
      refine ⟨trivial, h.closed, fun _ k => ?_, fun _ other l hother hstored => ?_⟩
      · rw [InsMap.get_delete, InsMap.get_delete, hsame]
      · refine hreached other l hother ?_
        rw [InsMap.get_delete] at hstored
        split at hstored
        · cases hstored
        · exact hstored
    | list addonId =>
      simp only [perform, StorageBackend.list, IndexedDbStorageBackend.list_open hd,
        InMemoryStorageBackend.list_open hb]
      have hlisted : d.listed addonId = b.listed addonId := by
        refine KeyRange.eq_of_ascending IndexedDbStorageBackend.listed_ascending
          InMemoryStorageBackend.listed_ascending fun key => ?_
        rw [IndexedDbStorageBackend.mem_listed, InMemoryStorageBackend.mem_listed, hsame]
        exact and_iff_right_of_imp (hreached addonId key (no_space hallowed))
      rw [hlisted]
      exact ⟨rfl, h⟩
    | clear addonId =>
      simp only [perform, StorageBackend.clear, IndexedDbStorageBackend.clear_open hd,
        InMemoryStorageBackend.clear_open hb, settle]
      refine ⟨trivial, h.closed, fun _ k => ?_, fun _ other l hother hstored => ?_⟩
      · rw [IndexedDbStorageBackend.get_foldl_delete, InMemoryStorageBackend.get_cleared, hsame]
        by_cases hk : k ∈ IndexedDbStorageBackend.namespaceKeys d.store addonId
        · obtain ⟨key, rfl, _⟩ := IndexedDbStorageBackend.mem_namespaceKeys.mp hk
          have hstart : namespaceStart addonId <+: namespaceKey addonId key :=
            ⟨key, (Namespace.compose_eq _ _ _).symm⟩
          rw [if_pos hk, if_pos hstart]
        · rw [if_neg hk]
          split
          · next hstart =>
            obtain ⟨key, rfl⟩ := hstart
            rw [← Option.not_isSome_iff_eq_none]
            intro hstored
            have hkey : namespaceStart addonId ++ key = namespaceKey addonId key :=
              (Namespace.compose_eq _ _ _).symm
            rw [hkey] at hk hstored
            refine hk (IndexedDbStorageBackend.mem_namespaceKeys.mpr ⟨key, rfl, ?_, ?_⟩)
            · exact hreached addonId key (no_space hallowed) hstored
            · rw [hsame]
              exact hstored
          · rfl
      · refine hreached other l hother ?_
        rw [InMemoryStorageBackend.get_cleared] at hstored
        split at hstored
        · cases hstored
        · exact hstored

/-! ## Runs -/

theorem outputs_agree {calls : List (BackendCall V)}
    (hcalls : ∀ c ∈ calls, c.Allowed ∧ c.PutsIn InRange) (h : Agree b d) :
    outputs perform d calls = outputs perform b calls := by
  induction calls generalizing b d with
  | nil => rfl
  | cons c calls ih =>
    obtain ⟨hallowed, hput⟩ := hcalls c (.head _)
    obtain ⟨hout, hagree⟩ := perform_agree h hallowed hput
    rw [outputs_cons, outputs_cons, hout, ih (fun c' hc' => hcalls c' (.tail _ hc')) hagree]

/-- A key that the cursor does not reach is put, and then listed by one backend only. -/
def missedRun (key : JsString) (record : StorageRecord V) : List (BackendCall V) :=
  [.put (js "dev.a") key record, .list (js "dev.a")]

theorem missedRun_differs {key : JsString} (h : ¬ InRange key) (record : StorageRecord V) :
    outputs perform (.create : IndexedDbStorageBackend V) (missedRun key record) ≠
      outputs perform (.create : InMemoryStorageBackend V) (missedRun key record) := by
  intro heq
  let b : InMemoryStorageBackend V :=
    ⟨InsMap.empty.set (namespaceKey (js "dev.a") key) record, false⟩
  let d : IndexedDbStorageBackend V :=
    ⟨InsMap.empty.set (namespaceKey (js "dev.a") key) record, false⟩
  have hkeys : [BackendResult.done, .keys (d.listed (js "dev.a"))] =
      [BackendResult.done, .keys (b.listed (js "dev.a"))] := heq
  have hlisted : d.listed (js "dev.a") = b.listed (js "dev.a") := by
    simpa using hkeys
  have hmem : key ∈ b.listed (js "dev.a") :=
    InMemoryStorageBackend.mem_listed.mpr (by simp [b])
  rw [← hlisted] at hmem
  exact h (IndexedDbStorageBackend.mem_listed.mp hmem).1

/-- The backends settle the calls of every run the same way if and only if no key that is put
goes on after a leading `U+FFFF`. -/
theorem backends_agree_iff (K : JsString → Prop) :
    (∀ calls : List (BackendCall Data), (∀ c ∈ calls, c.Allowed ∧ c.PutsIn K) →
      outputs perform (.create : IndexedDbStorageBackend Data) calls =
        outputs perform (.create : InMemoryStorageBackend Data) calls) ↔
      ∀ key, K key → key.length ≤ 256 → InRange key := by
  constructor
  · intro h key hkey hlength
    by_contra hrange
    refine missedRun_differs hrange ⟨.null, 0⟩ (h _ fun c hc => ?_)
    have haddon : matchesAddonId (js "dev.a") = true := by decide
    simp only [missedRun, List.mem_cons, List.not_mem_nil, or_false] at hc
    obtain rfl | rfl := hc
    · exact ⟨⟨haddon, hlength⟩, hkey⟩
    · exact ⟨haddon, trivial⟩
  · intro h calls hcalls
    refine outputs_agree (fun c hc => ?_) agree_create
    obtain ⟨hallowed, hput⟩ := hcalls c hc
    refine ⟨hallowed, ?_⟩
    cases c with
    | put addonId key record => exact h key hput hallowed.2
    | _ => trivial

/-- `U+FFFF` and a letter: put, and not listed by the database. -/
theorem missedRun_not_agreed :
    ¬ ∀ calls : List (BackendCall Data), (∀ c ∈ calls, c.Allowed) →
      outputs perform (.create : IndexedDbStorageBackend Data) calls =
        outputs perform (.create : InMemoryStorageBackend Data) calls := by
  intro h
  have hout : ¬ InRange [0xFFFF, 0x61] := by decide
  refine missedRun_differs hout ⟨.null, 0⟩ (h _ fun c hc => ?_)
  simp only [missedRun, List.mem_cons, List.not_mem_nil, or_false] at hc
  obtain rfl | rfl := hc <;> decide

end Senn.Storage
