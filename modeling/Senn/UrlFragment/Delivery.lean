import Senn.Lib.Family
import Senn.UrlFragment.Dispatch
import Senn.UrlFragment.Outbox

/-! # From publishing to the handlers

Adapters side by side, with bundles carried from one to the other: the bundles exported for
a room hold the messages published to it, each once and in order, and an imported bundle is
handed on to the handlers of its room, and to no others. -/

namespace Senn.UrlFragment
open Senn.Js Senn.Lib Senn.Lib.Machine Senn.Lib.Subscriptions Senn.Protocol

namespace UrlFragmentSignaling

variable {P : Platform} {s : UrlFragmentSignaling} {evs pre mid : List Event} {k handler : Nat}

theorem Proper.open_ {ev : Event} (h : s.Proper ev) : ev ≠ .close := by
  rintro rfl
  exact h

/-! ## Runs of one adapter -/

theorem run_tidy (h : s.setsOf.Tidy) (hopen : s.closed = false)
    (hproper : Guarded (step P) Proper s evs) :
    (after (step P) s evs).setsOf.Tidy ∧ (after (step P) s evs).closed = false := by
  refine guarded_inv (P := fun s => s.setsOf.Tidy ∧ s.closed = false) ?_ ⟨h, hopen⟩ hproper
  intro s ev hs hproper
  obtain ⟨hmove, hclosed⟩ := step_sets hs.1 hproper.open_
  exact ⟨hmove.setMove.tidy hs.1, hclosed.trans hs.2⟩

/-- The imports that are there before a step stay; `importBundle` adds one. -/
theorem step_imports (s : UrlFragmentSignaling) (ev : Event) :
    (s.step P ev).1.imports.length = s.imports.length + (s.imported ev).length := by
  cases ev with
  | publish roomId message =>
    simp only [step, publish]
    repeat' split
    all_goals rfl
  | subscribe roomId handler =>
    simp only [step, subscribe, add]
    repeat' split
    all_goals simp [imported]
  | unsubscribe k =>
    simp only [step, unsubscribe]
    repeat' split
    all_goals simp [imported, delete]
  | close => rfl
  | exportBundle roomId =>
    simp only [step, exportBundle]
    repeat' split
    all_goals rfl
  | importBundle encoded =>
    simp only [step, importBundle]
    split <;> simp [imported]
  | decoded k =>
    simp only [step, decoded]
    repeat' split
    all_goals simp [imported]
  | turn k throws =>
    simp only [step, turn]
    split <;> simp [imported]

/-- A new import is of the string it was called with. -/
theorem step_new {ev : Event} {stage : ImportStage} (hnone : s.imports[k]? = none)
    (hk : (s.step P ev).1.imports[k]? = some stage) : k = s.imports.length ∧
      ∃ encoded, s.imported ev = [encoded] ∧ (stage = .decoding encoded ∨ stage = .settled) := by
  have hlength := s.step_imports (P := P) ev
  have hlt := (List.getElem?_eq_some_iff.mp hk).1
  have hge := List.getElem?_eq_none_iff.mp hnone
  cases ev with
  | importBundle encoded =>
    simp only [imported, List.length_singleton] at hlength
    have heq : k = s.imports.length := by omega
    subst heq
    refine ⟨rfl, encoded, rfl, ?_⟩
    simp only [step, importBundle] at hk
    split at hk
    · simp at hk
      exact .inr hk.symm
    · simp at hk
      exact .inl hk.symm
  | _ =>
    simp only [imported, List.length_nil] at hlength
    omega

/-- Every import is of a string that was imported, and sound. -/
theorem run_sound (hproper : Guarded (step P) Proper create evs) :
    (after (step P) create evs).imports.length = (noted (step P) imported create evs).length ∧
      ∀ (k : Nat) (stage : ImportStage), (after (step P) create evs).imports[k]? = some stage →
        ∃ encoded, (noted (step P) imported create evs)[k]? = some encoded ∧
          Sound P (after (step P) create evs) encoded stage := by
  induction evs using List.reverseRecOn with
  | nil => exact ⟨rfl, fun k stage hk => by cases hk⟩
  | append_singleton evs ev ih =>
    obtain ⟨hguard, hlast, -⟩ := guarded_append.mp hproper
    obtain ⟨hlength, hsound⟩ := ih hguard
    have htidy := (run_tidy create_tidy rfl hguard).1
    rw [after_append, noted_append, after_cons, after_nil, noted_singleton]
    refine ⟨by rw [step_imports, List.length_append, hlength], fun k stage hk => ?_⟩
    cases hwas : (after (step P) create evs).imports[k]? with
    | some old =>
      obtain ⟨encoded, hencoded, hold⟩ := hsound k old hwas
      obtain ⟨stage', hstage', hmove⟩ := step_import (P := P) htidy hlast.open_ hwas
      obtain rfl := Option.some.inj (hk.symm.trans hstage')
      have hlt := (List.getElem?_eq_some_iff.mp hencoded).1
      exact ⟨encoded, by rw [List.getElem?_append_left hlt, hencoded], hmove.sound htidy hold⟩
    | none =>
      obtain ⟨rfl, encoded, himported, hnew⟩ := step_new hwas hk
      refine ⟨encoded, ?_, ?_⟩
      · rw [himported, hlength]
        simp
      · rcases hnew with rfl | rfl
        · exact .decoding
        · exact .settled

/-- The messages an import has yet to hand to a handler. -/
def remaining (s : UrlFragmentSignaling) (k handler : Nat) : List SignalingMessage :=
  ((s.imports[k]?).map (ImportStage.remaining handler)).getD []

/-- An import of `encoded` has been dispatched from set `i` of its room on. -/
def Dispatched (P : Platform) (encoded : JsString) (k : Nat) (roomId : JsString) (i : Nat)
    (s : UrlFragmentSignaling) : Prop :=
  s.imports[k]? = some .settled ∨ s.handlers.get roomId = some i ∧
    ∃ messages delivered turn,
      s.imports[k]? = some (.dispatching roomId i messages delivered turn) ∧
      Sound P s encoded (.dispatching roomId i messages delivered turn)

theorem step_dispatched {encoded roomId : JsString} {i : Nat} {ev : Event} (htidy : s.setsOf.Tidy)
    (hopen : ev ≠ .close) (h : s.Dispatched P encoded k roomId i)
    (hbefore : handler ∈ s.subscribed roomId)
    (hafter : handler ∈ (s.step P ev).1.subscribed roomId) :
    (s.step P ev).1.Dispatched P encoded k roomId i ∧
      received handler (invokes k (s.step P ev).2) ++ (s.step P ev).1.remaining k handler =
        s.remaining k handler := by
  rcases h with hsettled | ⟨hget, messages, delivered, turn, hstage, hsound⟩
  · obtain ⟨stage', hstage', hmove⟩ := step_import (P := P) htidy hopen hsettled
    generalize invokes k (s.step P ev).2 = calls at hmove ⊢
    have hdone : stage' = .settled ∧ calls = [] := by
      cases hmove with
      | kept | settled | joins | leaves => exact ⟨rfl, rfl⟩
    obtain ⟨rfl, rfl⟩ := hdone
    exact ⟨.inl hstage', by simp [remaining, hsettled, hstage', ImportStage.remaining]⟩
  · have hset : handler ∈ s.elements i := subscribed_elements hget ▸ hbefore
    obtain ⟨stage', hstage', hmove⟩ := step_import (P := P) htidy hopen hstage
    obtain ⟨hget', hshape, hmessages⟩ := hmove.remaining hsound hget hset hafter
    have hsound' := hmove.sound htidy hsound
    refine ⟨?_, ?_⟩
    · rcases hshape with rfl | ⟨messages', delivered', turn', rfl⟩
      · exact .inl hstage'
      · exact .inr ⟨hget', _, _, _, hstage', hsound'⟩
    · simpa [remaining, hstage, hstage'] using hmessages

/-- While an import is dispatched, a handler that stays subscribed gets what it has yet to
get, in order. -/
theorem run_remaining {encoded roomId : JsString} {i : Nat} :
    ∀ {s : UrlFragmentSignaling}, s.setsOf.Tidy → Guarded (step P) Proper s mid →
      s.Dispatched P encoded k roomId i →
      (∀ p, p <+: mid → handler ∈ (after (step P) s p).subscribed roomId) →
      received handler (invokes k (outputs (step P) s mid)) ++
          (after (step P) s mid).remaining k handler = s.remaining k handler := by
  induction mid with
  | nil => intro s _ _ _ _; rfl
  | cons ev mid ih =>
    intro s htidy hproper hdispatched hstays
    have hopen := hproper.1.open_
    have htidy' := (step_sets (P := P) htidy hopen).1.setMove.tidy htidy
    have hlater : ∀ p, p <+: mid →
        handler ∈ (after (step P) (s.step P ev).1 p).subscribed roomId := fun p hp =>
      hstays (ev :: p) (List.cons_prefix_cons.mpr ⟨rfl, hp⟩)
    obtain ⟨hnext, hone⟩ := step_dispatched htidy hopen hdispatched (hstays [] List.nil_prefix)
      (hlater [] List.nil_prefix)
    rw [outputs_cons, invokes_append, received_append, after_cons, List.append_assoc,
      ih htidy' hproper.2 hnext hlater, hone]

/-- When its string has been decoded, an import is dispatched to the handlers its room has. -/
theorem decoded_dispatched {encoded : JsString} {bundle : SignalingBundleV1} (htidy : s.setsOf.Tidy)
    (hk : s.imports[k]? = some (.decoding encoded))
    (hdecode : decodeSignalingBundle P encoded = .ok bundle)
    (hsubscribed : handler ∈ (s.step P (.decoded k)).1.subscribed bundle.roomId) :
    ∃ i, (s.step P (.decoded k)).1.Dispatched P encoded k bundle.roomId i ∧
      (s.step P (.decoded k)).1.remaining k handler = bundle.messages := by
  have hlt := (List.getElem?_eq_some_iff.mp hk).1
  cases hget : s.handlers.get bundle.roomId with
  | none =>
    have hstep : s.step P (.decoded k) = ({ s with imports := s.imports.set k .settled },
        [.imported k (.ok (bundle.roomId, 0))]) := by
      simp [step, decoded, hk, hdecode, hget]
    rw [hstep, subscribed, Sets.members_none hget] at hsubscribed
    cases hsubscribed
  | some i =>
    have hne : s.elements i ≠ [] := htidy.current _ i hget
    have hstep : s.step P (.decoded k) = ({ s with
        imports := s.imports.set k (.dispatching bundle.roomId i bundle.messages 0 none) }, []) := by
      simp [step, decoded, hk, hdecode, hget, hne]
    rw [hstep]
    refine ⟨i, .inr ⟨hget, bundle.messages, 0, none, by simp [hlt], ?_⟩, ?_⟩
    · exact .dispatching hdecode (fun m hm => hm) (fun t ht => (by cases ht))
        ⟨htidy.bound i hne, fun _ => hget⟩
    · simp [remaining, hlt]

/-- An import that resolves has nothing left to hand on. -/
theorem resolved_remaining {ev : Event} {result : Except AdapterError (JsString × Nat)}
    (hout : Out.imported k result ∈ (s.step P ev).2) : (s.step P ev).1.remaining k handler = [] := by
  have hset : ∀ {s : UrlFragmentSignaling}, (s.imports[k]? = none ∨ s.imports[k]? = some .settled) →
      s.remaining k handler = [] := by
    rintro s (h | h) <;> simp [remaining, h, ImportStage.remaining]
  have hsettled : ∀ {xs : List ImportStage}, (xs.set k .settled)[k]? = none ∨
      (xs.set k .settled)[k]? = some .settled := by
    intro xs
    by_cases hk : k < xs.length
    · exact .inr (by simp [hk])
    · exact .inl (List.getElem?_eq_none (by simpa using hk))
  cases ev with
  | publish roomId message =>
    simp only [step, publish] at hout
    repeat' split at hout
    all_goals simp at hout
  | subscribe roomId handler =>
    simp only [step, subscribe] at hout
    repeat' split at hout
    all_goals simp at hout
  | unsubscribe j =>
    simp only [step, (s.unsubscribe_cases j).2] at hout
    cases hout
  | close => cases hout
  | exportBundle roomId =>
    simp only [step, exportBundle] at hout
    repeat' split at hout
    all_goals simp at hout
  | importBundle encoded =>
    simp only [step, importBundle] at hout ⊢
    split at hout
    · next hclosed =>
      simp at hout
      obtain ⟨rfl, _⟩ := hout
      rw [if_pos hclosed]
      exact hset (.inr (by simp))
    · cases hout
  | decoded j =>
    simp only [step, decoded] at hout ⊢
    split at hout
    · next hj =>
      split at hout
      · simp at hout
        obtain ⟨rfl, _⟩ := hout
        exact hset hsettled
      · split at hout
        · split at hout
          · next hi =>
            simp at hout
            obtain ⟨rfl, _⟩ := hout
            rw [if_pos hi]
            exact hset hsettled
          · cases hout
        · simp at hout
          obtain ⟨rfl, _⟩ := hout
          exact hset hsettled
    · cases hout
  | turn j throws =>
    simp only [step, turn] at hout ⊢
    split at hout
    · cases throws <;> simp at hout
    · cases hout
    · cases hout
    · simp at hout
      obtain ⟨rfl, _⟩ := hout
      exact hset hsettled
    · cases hout

/-- Only an import that is there calls handlers. -/
theorem invokes_none (hk : s.imports[k]? = none) (ev : Event) :
    invokes k (s.step P ev).2 = [] := by
  cases ev with
  | publish roomId message =>
    simp only [step, publish]
    repeat' split
    all_goals rfl
  | subscribe roomId handler =>
    simp only [step, subscribe]
    repeat' split
    all_goals rfl
  | unsubscribe j =>
    simp only [step, (s.unsubscribe_cases j).2]
    rfl
  | close => rfl
  | exportBundle roomId =>
    simp only [step, exportBundle]
    repeat' split
    all_goals rfl
  | importBundle encoded =>
    simp only [step, importBundle]
    split <;> rfl
  | decoded j =>
    simp only [step, decoded]
    repeat' split
    all_goals rfl
  | turn j throws =>
    simp only [step, turn]
    split
    · next hj =>
      have hne : j ≠ k := by
        rintro rfl
        rw [hk] at hj
        cases hj
      cases throws <;> simp [invokes, hne]
    all_goals rfl

theorem run_called (hproper : Guarded (step P) Proper create evs) {ev : Event}
    (hopen : ev ≠ .close) {call : Nat × SignalingMessage}
    (hcall : call ∈ invokes k ((after (step P) create evs).step P ev).2) : ∃ encoded bundle,
      (noted (step P) imported create evs)[k]? = some encoded ∧
        decodeSignalingBundle P encoded = .ok bundle ∧ call.2 ∈ bundle.messages ∧
        call.1 ∈ (after (step P) create evs).subscribed bundle.roomId := by
  cases hk : (after (step P) create evs).imports[k]? with
  | none =>
    rw [invokes_none hk] at hcall
    cases hcall
  | some stage =>
    obtain ⟨encoded, hencoded, hsound⟩ := (run_sound hproper).2 k stage hk
    obtain ⟨_, _, hmove⟩ := step_import (P := P) (run_tidy create_tidy rfl hproper).1 hopen hk
    obtain ⟨bundle, hdecode, hmessage, hhandler⟩ := hmove.calls_subscribed hsound call hcall
    exact ⟨encoded, bundle, hencoded, hdecode, hmessage, hhandler⟩

end UrlFragmentSignaling

/-! ## Adapters side by side -/

open UrlFragmentSignaling

variable {κ : Type} [DecidableEq κ]

/-- The adapters after events, each of which is for one of them. -/
def world (P : Platform) (evs : List (κ × Event)) : κ → UrlFragmentSignaling :=
  after (family (step P)) (fun _ => create) evs

/-- The bundles an adapter has exported for a room. -/
def exportedBy (P : Platform) (a : κ) (roomId : JsString) (evs : List (κ × Event)) :
    List JsString :=
  noted (family (step P)) (fun w e => if e.1 = a then exported P roomId (w a) e.2 else [])
    (fun _ => create) evs

/-- The messages published to a room of an adapter. -/
def publishedBy (P : Platform) (a : κ) (roomId : JsString) (evs : List (κ × Event)) :
    List SignalingMessage :=
  noted (family (step P)) (fun w e => if e.1 = a then posted roomId (w a) e.2 else [])
    (fun _ => create) evs

/-- The strings an adapter was called to import. -/
def importedBy (P : Platform) (a : κ) (evs : List (κ × Event)) : List JsString :=
  noted (family (step P)) (fun w e => if e.1 = a then imported (w a) e.2 else [])
    (fun _ => create) evs

/-- What an adapter puts out after `pre`, as `mid` goes on. -/
def putOutBy (P : Platform) (a : κ) (pre mid : List (κ × Event)) : List Out :=
  of a (outputs (family (step P)) (world P pre) mid)

/-- Everything is delivered once and in order, all along a run of the adapters. -/
structure Delivers (P : Platform) (evs : List (κ × Event)) : Prop where
  /-- The bundles exported for a room, up to an export, hold what was published before it. -/
  exports : ∀ a roomId pre, pre ++ [(a, .exportBundle roomId)] <+: evs →
    (exportedBy P a roomId (pre ++ [(a, .exportBundle roomId)])).flatMap (contents P) =
      publishedBy P a roomId pre
  rooms : ∀ a roomId, ∀ encoded ∈ exportedBy P a roomId evs,
    ∃ bundle, decodeSignalingBundle P encoded = .ok bundle ∧ bundle.roomId = roomId
  /-- A handler that is subscribed when the import is dispatched, and stays so, gets the
  messages of the bundle once and in order. -/
  handed : ∀ a k pre mid encoded bundle handler, pre ++ (a, .decoded k) :: mid <+: evs →
    (world P pre a).imports[k]? = some (.decoding encoded) →
    decodeSignalingBundle P encoded = .ok bundle →
    (∀ p, p <+: mid →
      handler ∈ (world P (pre ++ (a, .decoded k) :: p) a).subscribed bundle.roomId) →
    received handler (invokes k (putOutBy P a (pre ++ [(a, .decoded k)]) mid)) ++
      (world P (pre ++ (a, .decoded k) :: mid) a).remaining k handler = bundle.messages
  /-- When the import resolves, nothing is left. -/
  resolved : ∀ a k pre e result, pre ++ [(a, e)] <+: evs →
    Out.imported k result ∈ ((world P pre a).step P e).2 →
    ∀ handler, (world P (pre ++ [(a, e)]) a).remaining k handler = []
  /-- Only handlers of the bundle's room are called, with messages of the bundle. -/
  others : ∀ a k pre e, pre ++ [(a, e)] <+: evs →
    ∀ call ∈ invokes k ((world P pre a).step P e).2, ∃ encoded bundle,
      (importedBy P a pre)[k]? = some encoded ∧ decodeSignalingBundle P encoded = .ok bundle ∧
        call.2 ∈ bundle.messages ∧ call.1 ∈ (world P pre a).subscribed bundle.roomId

theorem world_eq (P : Platform) (a : κ) (evs : List (κ × Event)) :
    world P evs a = after (step P) create (of a evs) := after_family (step P) a evs _

theorem world_concat (P : Platform) (a : κ) (e : Event) (evs : List (κ × Event)) :
    world P (evs ++ [(a, e)]) a = ((world P evs a).step P e).1 := by
  rw [world_eq, world_eq, of_append, of_cons_self, after_append]
  rfl

theorem world_split (P : Platform) (a : κ) (e : Event) (evs mid : List (κ × Event)) :
    world P (evs ++ (a, e) :: mid) a =
      after (step P) ((world P evs a).step P e).1 (of a mid) := by
  rw [world_eq, world_eq, of_append, of_cons_self, after_append]
  rfl

/-- Where messages that are JSON values are published to rooms, and `deflate-raw` is
lossless, everything is delivered once and in order. -/
theorem carries_once (P : Platform) (hP : P.Lossless) (evs : List (κ × Event))
    (hproper : ∀ e ∈ evs, e.2.Proper) : Delivers P evs := by
  have hguarded : ∀ a pre, pre <+: evs → Guarded (step P) Proper create (of a pre) := by
    intro a pre hpre
    refine guarded_iff_forall.mpr fun before e rest heq => ?_
    have hmem : e ∈ of a pre := by simp [heq]
    obtain ⟨⟨c, e'⟩, he, rfl⟩ := List.mem_map.mp hmem
    exact hproper (c, e') (hpre.subset (List.mem_filter.mp he).1)
  have hstored : create.Stored := ⟨rfl, fun _ _ h => by cases h⟩
  constructor
  case exports =>
    intro a roomId pre hpre
    have hguard := hguarded a _ hpre
    rw [of_append, of_cons_self, of_nil] at hguard
    have hopen := (run_tidy create_tidy rfl (guarded_append.mp hguard).1).2
    have haccounts := (run_accounts hP roomId hstored hguard).2
    rw [after_append, after_cons, after_nil, export_waiting hopen, List.append_nil,
      noted_append (posted roomId), noted_singleton] at haccounts
    rw [exportedBy, noted_family, of_append, of_cons_self, of_nil, publishedBy, noted_family,
      haccounts]
    simp [waiting, create, posted]
  case rooms =>
    intro a roomId encoded hencoded
    rw [exportedBy, noted_family] at hencoded
    exact (run_accounts hP roomId hstored (hguarded a evs List.prefix_rfl)).1 encoded hencoded
  case handed =>
    intro a k pre mid encoded bundle handler hpre hk hdecode hstays
    have hguard := hguarded a _ hpre
    rw [of_append, of_cons_self] at hguard
    obtain ⟨hbefore, hnow, hlater⟩ := guarded_append.mp hguard
    have htidy := (run_tidy create_tidy rfl hbefore).1
    rw [← world_eq] at htidy hlater
    have hsubscribed : ∀ p, p <+: of a mid → handler ∈
        (after (step P) ((world P pre a).step P (.decoded k)).1 p).subscribed bundle.roomId := by
      intro p hp
      obtain ⟨q, hq, rfl⟩ := prefix_of hp
      rw [← world_split]
      exact hstays q hq
    obtain ⟨i, hdispatched, hall⟩ :=
      decoded_dispatched htidy hk hdecode (hsubscribed [] List.nil_prefix)
    have hsets := step_sets (P := P) htidy hnow.open_
    rw [putOutBy, outputs_family, world_concat, world_split,
      run_remaining (hsets.1.setMove.tidy htidy) hlater hdispatched hsubscribed, hall]
  case resolved =>
    intro a k pre e result _ hout handler
    rw [world_concat]
    exact resolved_remaining hout
  case others =>
    intro a k pre e hpre call hcall
    have hguard := hguarded a _ hpre
    rw [of_append, of_cons_self, of_nil] at hguard
    obtain ⟨hbefore, hnow, -⟩ := guarded_append.mp hguard
    rw [world_eq] at hcall ⊢
    rw [importedBy, noted_family]
    exact run_called hbefore hnow.open_ hcall

/-- A platform that does not compress. -/
def plainPlatform : Platform := ⟨id, some, id⟩

def farewellRoom : JsString := js "aaaaaaaaaaaaaaaaaaaaaaaaaa"

def farewell : Json := .obj [(js "kind", .str (js "bye")), (js "from", .str farewellRoom)]

def farewellBundle : JsString :=
  match encodeSignalingBundle plainPlatform (bundleOf farewellRoom [.ofJson farewell]) with
  | .ok encoded => encoded
  | .error _ => []

/-- One adapter publishes and exports, the other one imports for two handlers. -/
def farewellRun : List (Bool × Event) :=
  [(true, .publish farewellRoom (.ofJson farewell)), (false, .subscribe farewellRoom 1),
    (true, .exportBundle farewellRoom), (false, .importBundle farewellBundle),
    (false, .subscribe farewellRoom 2), (false, .decoded 0), (false, .turn 0 false),
    (false, .turn 0 true), (false, .turn 0 false), (false, .turn 0 false), (false, .turn 0 false)]

theorem carries_once_farewellRun :
    exportedBy plainPlatform true farewellRoom farewellRun = [farewellBundle] ∧
      Delivers plainPlatform farewellRun := by
  refine ⟨by decide +kernel, carries_once plainPlatform (fun _ => rfl) farewellRun ?_⟩
  have hproper : (Event.publish farewellRoom (.ofJson farewell)).Proper :=
    ⟨by decide +kernel, ⟨farewell, ⟨by decide +kernel, trivial, trivial, trivial⟩, rfl⟩,
      by decide +kernel⟩
  simp only [farewellRun, List.forall_mem_cons]
  exact ⟨hproper, trivial, trivial, trivial, trivial, trivial, trivial, trivial, trivial, trivial,
    trivial, by simp⟩

end Senn.UrlFragment
