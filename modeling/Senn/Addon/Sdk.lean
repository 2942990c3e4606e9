import Senn.Addon.Storage

/-! # The add-on SDK and its host

The SDK numbers its storage requests and keeps a promise for each `rid` until the result
with that `rid` comes in. Requests and results travel in order between the two windows. -/

namespace Senn.Addon
open Senn.Js Senn.Lib Senn.Protocol

/-- A call of `senn.storage`. -/
inductive SdkCall where
  | get (key : Data)
  | put (key value : Data)
  | delete (key : Data)
  | list
  | clear

namespace SdkCall

/-- The members a call adds to its message. -/
def members : SdkCall → List (JsString × Data)
  | .get key => [(js "storage", .str (js "get")), (js "key", key)]
  | .put key value => [(js "storage", .str (js "put")), (js "key", key), (js "value", value)]
  | .delete key => [(js "storage", .str (js "delete")), (js "key", key)]
  | .list => [(js "storage", .str (js "list"))]
  | .clear => [(js "storage", .str (js "clear"))]

/-- The host's checks of a call. -/
def admitted (s : AddonHost) (c : SdkCall) : Except JsString StorageCall :=
  s.granted (ownProperty c.members (js "storage")) (ownProperty c.members (js "key"))
    (ownProperty c.members (js "value"))

end SdkCall

def ridOf (n : Nat) : JsString := js "r_" ++ natText 10 n

/-- The storage part of the SDK: a promise is named by the count of its call. -/
structure Sdk where
  nextRid : Nat
  pendingStorage : InsMap JsString Nat

namespace Sdk

def create : Sdk := ⟨0, .empty⟩

/-- The message of the call with number `n`. -/
def message (n : Nat) (c : SdkCall) : Data :=
  .obj ([(js "kind", .str ADDON_BRIDGE_KIND), (js "op", .str (js "storage")),
    (js "rid", .str (ridOf n))] ++ c.members)

/-- `rpcStorage`, with the message it posts. -/
def rpcStorage (k : Sdk) (c : SdkCall) : Sdk × Data :=
  let n := k.nextRid + 1
  (⟨n, k.pendingStorage.set (ridOf n) n⟩, message n c)

/-- The message listener: the promise it settles, if any. -/
def onMessage (k : Sdk) : BridgePost → Sdk × List (Nat × Except JsString Data)
  | .storageResult rid result =>
    match k.pendingStorage.get rid with
    | none => (k, [])
    | some n => ({ k with pendingStorage := k.pendingStorage.delete rid }, [(n, result)])
  | _ => (k, [])

end Sdk

/-- A host and the SDK in its iframe, with the messages between the two windows. -/
structure World where
  host : AddonHost
  sdk : Sdk
  toHost : List Data
  toSdk : List BridgePost

inductive Move where
  | call (c : SdkCall)
  | arrive (now : Nat)            -- of the next message at the host
  | receive                       -- of the next message at the SDK
  | host (ev : Event)             -- any other, which is no storage message

def Out.post? : Out → Option BridgePost
  | .post m => some m
  | _ => none

namespace World

def start (host : AddonHost) : World := ⟨host, .create, [], []⟩

/-- The event of a move at the host. -/
def event (window : Window) (w : World) : Move → List Event
  | .arrive now => w.toHost.head?.toList.map fun data => .message (some window) data now
  | .host ev => if (w.host.asked ev).isEmpty then [ev] else []
  | _ => []

/-- The host takes its event, if there is one. -/
def hosted (w : World) : List Event → World
  | [] => w
  | ev :: _ =>
    { w with host := (w.host.step ev).1, toSdk := w.toSdk ++ (w.host.step ev).2.filterMap Out.post? }

/-- The output of the SDK is the promise it settles. -/
def step (window : Window) (w : World) (m : Move) : World × List (Nat × Except JsString Data) :=
  match m with
  | .call c =>
    let r := w.sdk.rpcStorage c
    ({ w with sdk := r.1, toHost := w.toHost ++ [r.2] }, [])
  | .arrive _ => ({ w.hosted (w.event window m) with toHost := w.toHost.tail }, [])
  | .receive =>
    match w.toSdk with
    | [] => (w, [])
    | post :: posts =>
      let r := w.sdk.onMessage post
      ({ w with sdk := r.1, toSdk := posts }, r.2)
  | .host _ => (w.hosted (w.event window m), [])

/-- The requests that a move of the host settles. -/
def settles (window : Window) (w : World) (m : Move) : List (Asked × Except JsString Data) :=
  (w.event window m).flatMap w.host.settles

end World

/-- The call of a move. -/
def Move.call? : Move → Option SdkCall
  | .call c => some c
  | _ => none

/-! ## Messages and numbers -/

def BridgePost.reply? : BridgePost → Option Reply
  | .storageResult rid result => some (rid, result)
  | _ => none

/-- The results among the messages to the SDK. -/
def results (posts : List BridgePost) : List Reply := posts.filterMap BridgePost.reply?

theorem results_posts (outs : List Out) : results (outs.filterMap Out.post?) = replies outs := by
  rw [results, replies, List.filterMap_filterMap]
  refine List.filterMap_congr fun o _ => ?_
  cases o with
  | post m => cases m <;> rfl
  | _ => rfl

theorem ridOf_injective {m n : Nat} (h : ridOf m = ridOf n) : m = n :=
  natText_injective (by decide) (by decide) (List.append_cancel_left h)

theorem request_message (s : AddonHost) (n : Nat) (c : SdkCall) :
    s.request (Sdk.message n c) = [⟨ridOf n, c.admitted s⟩] := by
  have hop : AddonHost.bridgeOp (Sdk.message n c) = some .storage := rfl
  have hrid : ((Sdk.message n c).get (js "rid")).str? = some (ridOf n) := rfl
  have hne : ridOf n ≠ [] := by simp [ridOf, js]
  rw [AddonHost.request, if_pos hop]
  simp only [hrid, if_neg hne]
  rfl

/-- Requests are judged by the manifest and the options of the host. -/
theorem request_congr {s s' : AddonHost} (hmanifest : s'.manifest = s.manifest)
    (hoptions : s'.options = s.options) (data : Data) : s'.request data = s.request data := by
  have hadmit : ∀ op key value, s'.granted op key value = s.granted op key value := by
    intro op key value
    unfold AddonHost.granted AddonHost.grants
    rw [hmanifest, hoptions]
  simp only [AddonHost.request, hadmit]

/-- The calls as the host sees them. -/
def numbered (s : AddonHost) (calls : List SdkCall) : List Asked :=
  calls.mapIdx fun i c => ⟨ridOf (i + 1), c.admitted s⟩

theorem numbered_concat (s : AddonHost) (calls : List SdkCall) (c : SdkCall) :
    numbered s (calls ++ [c]) =
      numbered s calls ++ [⟨ridOf (calls.length + 1), c.admitted s⟩] := by
  simp [numbered, List.mapIdx_append]

theorem numbered_rids (s : AddonHost) (calls : List SdkCall) :
    (numbered s calls).map Asked.rid = (List.range' 1 calls.length).map ridOf := by
  refine List.ext_getElem (by simp [numbered]) fun i _ _ => ?_
  simp [numbered, Nat.add_comm]

theorem numbered_nodup (s : AddonHost) (calls : List SdkCall) :
    ((numbered s calls).map Asked.rid).Nodup := by
  rw [numbered_rids]
  exact List.Nodup.map (fun _ _ h => ridOf_injective h) List.nodup_range'

/-! ## Every promise is settled -/

def Event.isClose : Event → Bool
  | .close => true
  | _ => false

namespace World

/-- `close` finds no request under way or in flight, and no call follows it. -/
def Prompt (w : World) : Move → Prop
  | .call _ => w.host.currentState ≠ .closed
  | .host ev => w.host.Served ev ∧ (ev.isClose = true → w.toHost = [])
  | _ => True

instance Prompt.decidable (w : World) : ∀ m, Decidable (w.Prompt m)
  | .call _ => inferInstanceAs (Decidable (w.host.currentState ≠ .closed))
  | .host ev =>
    inferInstanceAs (Decidable (w.host.Served ev ∧ (ev.isClose = true → w.toHost = [])))
  | .arrive _ | .receive => inferInstanceAs (Decidable True)

/-- A world after the SDK's `calls`, with the requests that were settled with their own
outcomes and the promises that were: each call is under way to the host, in flight or
settled, and each result is under way to the SDK or has settled a promise. -/
structure Balanced (window : Window) (host : AddonHost) (w : World) (calls : List SdkCall)
    (due : List (Asked × Except JsString Data)) (settled : List (Nat × Except JsString Data)) :
    Prop where
  serving : w.host.Serving window
  manifest : w.host.manifest = host.manifest
  options : w.host.options = host.options
  count : w.sdk.nextRid = calls.length
  ledger : (numbered host calls).Perm
    (due.map Prod.fst ++ w.host.inFlight ++ w.toHost.flatMap host.request)
  messages : ∀ data ∈ w.toHost, ∃ q, host.request data = [q]
  posted : due.map (fun a => (a.1.rid, a.2)) =
    settled.map (fun a => (ridOf a.1, a.2)) ++ results w.toSdk
  table : ∀ rid n, w.sdk.pendingStorage.get rid = some n ↔
    rid = ridOf n ∧ n ∈ List.range' 1 calls.length ∧ n ∉ settled.map Prod.fst
  quiet : w.host.currentState = .closed → w.toHost = []

variable {window : Window} {host : AddonHost} {w : World} {calls : List SdkCall}
  {due : List (Asked × Except JsString Data)} {settled : List (Nat × Except JsString Data)}

/-- A settled request is that of a call. -/
theorem Balanced.call_of_due (h : Balanced window host w calls due settled)
    {d : Asked × Except JsString Data} (hd : d ∈ due) :
    ∃ i c, calls[i]? = some c ∧ d.1 = ⟨ridOf (i + 1), c.admitted host⟩ := by
  have hmem : d.1 ∈ numbered host calls :=
    h.ledger.symm.subset (List.mem_append_left _ (List.mem_append_left _ (List.mem_map_of_mem hd)))
  obtain ⟨i, hi, heq⟩ := List.mem_mapIdx.mp hmem
  exact ⟨i, calls[i], List.getElem?_eq_getElem hi, heq.symm⟩

/-- A result answers one call: it is that call's own. -/
theorem Balanced.own (h : Balanced window host w calls due settled)
    {rid : JsString} {result : Except JsString Data}
    (hr : (rid, result) ∈ due.map fun a => (a.1.rid, a.2)) :
    ∃ n c, rid = ridOf n ∧ n ∈ List.range' 1 calls.length ∧ calls[n - 1]? = some c ∧
      (⟨ridOf n, c.admitted host⟩, result) ∈ due := by
  obtain ⟨d, hd, heq⟩ := List.mem_map.mp hr
  obtain ⟨i, c, hc, hq⟩ := h.call_of_due hd
  obtain ⟨rfl, rfl⟩ := Prod.mk.inj heq
  obtain ⟨hlt, _⟩ := List.getElem?_eq_some_iff.mp hc
  refine ⟨i + 1, c, by rw [hq], ?_, hc, ?_⟩
  · exact List.mem_range'_1.mpr ⟨by omega, by omega⟩
  · rw [← hq]
    exact hd

theorem Balanced.settled_range (h : Balanced window host w calls due settled) :
    ∀ n ∈ settled.map Prod.fst, n ∈ List.range' 1 calls.length := by
  intro n hn
  obtain ⟨a, ha, rfl⟩ := List.mem_map.mp hn
  have hr : (ridOf a.1, a.2) ∈ due.map fun a => (a.1.rid, a.2) := by
    rw [h.posted]
    exact List.mem_append_left _ (List.mem_map.mpr ⟨a, ha, rfl⟩)
  obtain ⟨n, _, hrid, hn, _⟩ := h.own hr
  exact ridOf_injective hrid ▸ hn

theorem Balanced.due_nodup (h : Balanced window host w calls due settled) :
    (settled.map (fun a => ridOf a.1) ++ (results w.toSdk).map Prod.fst).Nodup := by
  have hrids : due.map (fun a => a.1.rid) =
      settled.map (fun a => ridOf a.1) ++ (results w.toSdk).map Prod.fst := by
    have hfst := congrArg (List.map Prod.fst) h.posted
    simpa [List.map_map, Function.comp_def] using hfst
  have hdue : (due.map Prod.fst).map Asked.rid = due.map (fun a => a.1.rid) := by
    simp [List.map_map, Function.comp_def]
  have hperm := h.ledger.map Asked.rid
  have hnodup := hperm.nodup_iff.mp (numbered_nodup host calls)
  rw [List.append_assoc, List.map_append] at hnodup
  rw [← hrids, ← hdue]
  exact (List.nodup_append.mp hnodup).1

/-! ## Steps -/

theorem Balanced.call (h : Balanced window host w calls due settled)
    (hopen : w.host.currentState ≠ .closed) (c : SdkCall) :
    Balanced window host (w.step window (.call c)).1 (calls ++ [c]) due settled := by
  have hnumber : w.sdk.nextRid + 1 = calls.length + 1 := by rw [h.count]
  have hrequest := request_message host (calls.length + 1) c
  have hfresh : calls.length + 1 ∉ settled.map Prod.fst := by
    intro hmem
    have hrange := List.mem_range'_1.mp (h.settled_range _ hmem)
    omega
  refine ⟨h.serving, h.manifest, h.options, ?_, ?_, ?_, h.posted, ?_, fun hc => absurd hc hopen⟩
  · simp [step, Sdk.rpcStorage, h.count]
  · simp only [step, Sdk.rpcStorage, hnumber, numbered_concat, List.flatMap_append,
      List.flatMap_singleton, hrequest, ← List.append_assoc]
    exact h.ledger.append_right _
  · simp only [step, Sdk.rpcStorage, hnumber]
    exact List.forall_mem_append.mpr ⟨h.messages, by simp [hrequest]⟩
  · intro rid n
    simp only [step, Sdk.rpcStorage, hnumber, InsMap.get_set, List.length_append,
      List.length_singleton]
    split
    · next hrid =>
      subst hrid
      constructor
      · intro hn
        obtain rfl := Option.some.inj hn
        exact ⟨rfl, List.mem_range'_1.mpr ⟨by omega, by omega⟩, hfresh⟩
      · rintro ⟨hrid, _, _⟩
        rw [ridOf_injective hrid]
    · next hrid =>
      rw [h.table]
      refine and_congr_right fun heq => and_congr_left fun _ => ?_
      have hne : n ≠ calls.length + 1 := by
        rintro rfl
        exact hrid heq
      simp only [List.mem_range'_1]
      omega

/-- The host takes an event that is served. -/
theorem Balanced.hosted (h : Balanced window host w calls due settled) {ev : Event}
    (hev : w.host.Served ev) {rest : List Data}
    (hrest : (w.toHost.flatMap host.request).Perm (w.host.asked ev ++ rest.flatMap host.request))
    (hsub : ∀ data ∈ rest, data ∈ w.toHost)
    (hquiet : (w.host.step ev).1.currentState = .closed → rest = []) :
    Balanced window host { w.hosted [ev] with toHost := rest } calls (due ++ w.host.settles ev)
      settled := by
  have hbalances := AddonHost.step_balances h.serving hev
  refine ⟨AddonHost.step_serving h.serving hev, hbalances.manifest.trans h.manifest,
    hbalances.options.trans h.options, h.count, ?_, fun data hd => h.messages data (hsub data hd),
    ?_, h.table, hquiet⟩
  · classical
    refine List.perm_iff_count.mpr fun q => ?_
    have hcalls := h.ledger.count_eq q
    have hrests := hrest.count_eq q
    have hstep := hbalances.requests.count_eq q
    simp only [List.count_append] at hcalls hrests hstep
    simp only [World.hosted, List.map_append, List.count_append]
    omega
  · have hposts : results (w.toSdk ++ (w.host.step ev).2.filterMap Out.post?) =
        results w.toSdk ++ replies (w.host.step ev).2 := by
      rw [← results_posts]
      exact List.filterMap_append
    simp only [World.hosted, List.map_append, hposts, h.posted, hbalances.replies,
      List.append_assoc]

theorem Balanced.arrive (h : Balanced window host w calls due settled) (now : Nat) :
    Balanced window host (w.step window (.arrive now)).1 calls
      (due ++ w.settles window (.arrive now)) settled := by
  cases hqueue : w.toHost with
  | nil =>
    have hstep : (w.step window (.arrive now)).1 = w := by
      simp only [World.step, World.event, hqueue]
      cases w
      simp_all [World.hosted]
    have hsettles : w.settles window (.arrive now) = [] := by
      simp [World.settles, World.event, hqueue]
    rw [hstep, hsettles, List.append_nil]
    exact h
  | cons data rest =>
    have hopen : w.host.currentState ≠ .closed := by
      intro hclosed
      have hempty := h.quiet hclosed
      rw [hqueue] at hempty
      cases hempty
    have hframe : w.host.iframe = some (some window) :=
      h.serving.framed.iframe.resolve_right fun hclosed => hopen hclosed.2
    have hasked : w.host.asked (.message (some window) data now) = host.request data := by
      simp only [AddonHost.asked, if_pos hframe]
      exact request_congr h.manifest h.options data
    have hevent : w.event window (.arrive now) = [.message (some window) data now] := by
      simp [World.event, hqueue]
    have hstep : (w.step window (.arrive now)).1 =
        { w.hosted [.message (some window) data now] with toHost := rest } := by
      simp only [World.step, hevent, hqueue, List.tail_cons]
    rw [hstep, World.settles, hevent, List.flatMap_singleton]
    have hserved : w.host.Served (.message (some window) data now) := Or.inr hopen
    refine h.hosted hserved ?_ ?_ ?_
    · rw [hqueue, List.flatMap_cons, hasked]
    · intro d hd
      rw [hqueue]
      exact .tail _ hd
    · intro hclosed
      exact absurd hclosed (AddonHost.step_open hopen fun hne => by cases hne)

theorem Balanced.receive (h : Balanced window host w calls due settled) :
    Balanced window host (w.step window .receive).1 calls due
      (settled ++ (w.step window .receive).2) := by
  cases hqueue : w.toSdk with
  | nil =>
    simp only [World.step, hqueue, List.append_nil]
    exact h
  | cons post posts =>
    simp only [World.step, hqueue]
    cases hreply : post.reply? with
    | none =>
      have hignored : w.sdk.onMessage post = (w.sdk, []) := by
        cases post <;> first | rfl | cases hreply
      have hresults : results w.toSdk = results posts := by
        rw [hqueue]
        exact List.filterMap_cons_none hreply
      rw [hignored, List.append_nil]
      exact ⟨h.serving, h.manifest, h.options, h.count, h.ledger, h.messages,
        hresults ▸ h.posted, h.table, h.quiet⟩
    | some reply =>
      obtain ⟨rid, result⟩ := reply
      obtain rfl : post = .storageResult rid result := by
        cases post with
        | storageResult rid' result' =>
          obtain ⟨rfl, rfl⟩ := Prod.mk.inj (Option.some.inj hreply)
          rfl
        | _ => cases hreply
      have hresults : results w.toSdk = (rid, result) :: results posts := by
        rw [hqueue]
        rfl
      have hdue := h.posted
      rw [hresults] at hdue
      have hmem : (rid, result) ∈ due.map fun a => (a.1.rid, a.2) := by
        rw [hdue]
        exact List.mem_append_right _ (.head _)
      obtain ⟨n, _, rfl, hrange, _, _⟩ := h.own hmem
      have hnodup := h.due_nodup
      rw [hresults, List.map_cons] at hnodup
      have hnew : n ∉ settled.map Prod.fst := by
        intro hmem
        obtain ⟨a, ha, rfl⟩ := List.mem_map.mp hmem
        exact (List.nodup_append.mp hnodup).2.2 _ (List.mem_map.mpr ⟨a, ha, rfl⟩) _ (.head _) rfl
      have hget : w.sdk.pendingStorage.get (ridOf n) = some n :=
        (h.table _ _).mpr ⟨rfl, hrange, hnew⟩
      simp only [Sdk.onMessage, hget]
      refine ⟨h.serving, h.manifest, h.options, h.count, h.ledger, h.messages, ?_, ?_, h.quiet⟩
      · rw [hdue]
        simp
      · intro rid m
        rw [InsMap.get_delete]
        split
        · next hrid =>
          subst hrid
          constructor
          · intro hm
            cases hm
          · rintro ⟨hrid, _, hm⟩
            exact absurd (by simp [ridOf_injective hrid]) hm
        · next hrid =>
          rw [h.table]
          refine and_congr_right fun heq => and_congr_right fun _ => ?_
          have hne : m ≠ n := by
            rintro rfl
            exact hrid heq
          simp [hne]

theorem Balanced.event (h : Balanced window host w calls due settled) {ev : Event}
    (hev : w.Prompt (.host ev)) :
    Balanced window host (w.step window (.host ev)).1 calls
      (due ++ w.settles window (.host ev)) settled := by
  cases hasked : w.host.asked ev with
  | cons q qs =>
    have hevent : w.event window (.host ev) = [] := by simp [World.event, hasked]
    simp only [World.step, World.settles, hevent, List.flatMap_nil, List.append_nil]
    exact h
  | nil =>
    have hevent : w.event window (.host ev) = [ev] := by simp [World.event, hasked]
    have hstep : (w.step window (.host ev)).1 =
        { w.hosted [ev] with toHost := w.toHost } := by
      simp only [World.step, hevent]
      rfl
    rw [hstep, World.settles, hevent, List.flatMap_singleton]
    refine h.hosted hev.1 (by rw [hasked]; rfl) (fun _ hd => hd) fun hclosed => ?_
    by_cases hclose : ev = .close
    · exact hev.2 (by rw [hclose]; rfl)
    · by_cases hwas : w.host.currentState = .closed
      · exact h.quiet hwas
      · exact absurd hclosed (AddonHost.step_open hwas hclose)

theorem step_balanced (h : Balanced window host w calls due settled) {m : Move}
    (hm : w.Prompt m) :
    Balanced window host (w.step window m).1 (calls ++ m.call?.toList)
      (due ++ w.settles window m) (settled ++ (w.step window m).2) := by
  cases m with
  | call c =>
    have hcall := h.call hm c
    simpa [Move.call?, World.settles, World.event, World.step] using hcall
  | arrive now =>
    have harrive := h.arrive now
    simpa [Move.call?, World.step] using harrive
  | receive =>
    have hreceive := h.receive
    simpa [Move.call?, World.settles, World.event] using hreceive
  | host ev =>
    have hevent := h.event hm
    simpa [Move.call?, World.step] using hevent

theorem run_balanced {moves : List Move} : ∀ {w : World} {calls : List SdkCall}
    {due : List (Asked × Except JsString Data)} {settled : List (Nat × Except JsString Data)},
    Balanced window host w calls due settled → Machine.Guarded (step window) Prompt w moves →
      Balanced window host (Machine.after (step window) w moves)
        (calls ++ moves.filterMap Move.call?)
        (due ++ Machine.noted (step window) (settles window) w moves)
        (settled ++ Machine.outputs (step window) w moves) := by
  induction moves with
  | nil => intro w calls due settled h _; simpa [Machine.noted] using h
  | cons m moves ih =>
    intro w calls due settled h hguard
    have hrest := ih (step_balanced h hguard.1) hguard.2
    have hcalls : (m :: moves).filterMap Move.call? =
        m.call?.toList ++ moves.filterMap Move.call? := by
      cases hcall : m.call? <;> simp [hcall]
    simpa only [hcalls, Machine.noted, Machine.after_cons, Machine.outputs_cons,
      List.append_assoc] using hrest

/-- Each promise is settled once, with its call's own outcome, or what settles it is under
way; when nothing is, all promises are settled. -/
structure PromisesAccounted (host : AddonHost) (w : World) (calls : List SdkCall)
    (due : List (Asked × Except JsString Data)) (settled : List (Nat × Except JsString Data)) :
    Prop where
  once : ((List.range' 1 calls.length).map ridOf).Perm
    (settled.map (fun a => ridOf a.1) ++ (results w.toSdk).map Prod.fst ++
      w.host.inFlight.map Asked.rid ++ (w.toHost.flatMap host.request).map Asked.rid)
  own : ∀ a ∈ settled, ∃ c, calls[a.1 - 1]? = some c ∧
    (⟨ridOf a.1, c.admitted host⟩, a.2) ∈ due
  done : w.toHost = [] → w.host.storageCalls = [] → w.toSdk = [] →
    (settled.map Prod.fst).Perm (List.range' 1 calls.length) ∧ w.sdk.pendingStorage = .empty

/-- This holds all along a run. -/
def PromisesKept (window : Window) (host : AddonHost) (moves : List Move) : Prop :=
  ∀ pre, pre <+: moves →
    PromisesAccounted host (Machine.after (step window) (start host) pre)
      (pre.filterMap Move.call?) (Machine.noted (step window) (settles window) (start host) pre)
      (Machine.outputs (step window) (start host) pre)

theorem Balanced.accounted (h : Balanced window host w calls due settled) :
    PromisesAccounted host w calls due settled := by
  have hrids : due.map (fun a => a.1.rid) =
      settled.map (fun a => ridOf a.1) ++ (results w.toSdk).map Prod.fst := by
    have hfst := congrArg (List.map Prod.fst) h.posted
    simpa [List.map_map, Function.comp_def] using hfst
  have honce : ((List.range' 1 calls.length).map ridOf).Perm
      (settled.map (fun a => ridOf a.1) ++ (results w.toSdk).map Prod.fst ++
        w.host.inFlight.map Asked.rid ++ (w.toHost.flatMap host.request).map Asked.rid) := by
    rw [← numbered_rids host, ← hrids]
    have hperm := h.ledger.map Asked.rid
    simpa [List.map_append, List.map_map, Function.comp_def] using hperm
  refine ⟨honce, fun a ha => ?_, fun hhost hcalls hsdk => ?_⟩
  · have hr : (ridOf a.1, a.2) ∈ due.map fun a => (a.1.rid, a.2) := by
      rw [h.posted]
      exact List.mem_append_left _ (List.mem_map.mpr ⟨a, ha, rfl⟩)
    obtain ⟨n, c, hrid, _, hc, hdue⟩ := h.own hr
    rw [ridOf_injective hrid]
    exact ⟨c, hc, hdue⟩
  · have hall : ((List.range' 1 calls.length).map ridOf).Perm
        ((settled.map Prod.fst).map ridOf) := by
      simpa [hhost, hsdk, AddonHost.inFlight, hcalls, results, Function.comp_def] using honce
    have hsettled : (List.range' 1 calls.length).Perm (settled.map Prod.fst) :=
      (List.map_perm_map_iff fun _ _ heq => ridOf_injective heq).mp hall
    refine ⟨hsettled.symm, InsMap.ext (List.eq_nil_iff_forall_not_mem.mpr ?_)⟩
    rintro ⟨rid, n⟩ hentry
    obtain ⟨_, hrange, hnot⟩ := (h.table rid n).mp (InsMap.get_eq_some_iff.mpr hentry)
    exact hnot (hsettled.subset hrange)

theorem start_balanced (h : host.Serving window) (hnone : host.storageCalls = []) :
    Balanced window host (start host) [] [] [] := by
  refine ⟨h, rfl, rfl, rfl, ?_, by simp [start], rfl, ?_, fun _ => rfl⟩
  · simp [start, numbered, AddonHost.inFlight, hnone]
  · intro rid n
    simp [start, Sdk.create]

end World

/-- In every run in which `close` finds no request under way or in flight and none follows it,
every request is answered and every promise of the SDK is settled, each with its own outcome. -/
theorem storage_answered (manifest : AddonManifest) (options : AddonHostOptions)
    (sessionId : JsString) (window : Window) (evs : List Event) (moves : List Move)
    (hserved : Machine.Guarded AddonHost.step AddonHost.Served
      (.loaded manifest options sessionId (some window)) evs)
    (hprompt : Machine.Guarded (World.step window) World.Prompt
      (.start (.loaded manifest options sessionId (some window))) moves) :
    (AddonHost.loaded manifest options sessionId (some window)).StorageAnswered evs ∧
      World.PromisesKept window (.loaded manifest options sessionId (some window)) moves := by
  obtain ⟨hserving, hnone⟩ := AddonHost.loaded_serving manifest options sessionId window
  refine ⟨AddonHost.run_answered hserving hnone hserved, ?_⟩
  rintro pre ⟨rest, rfl⟩
  have hguard := (Machine.guarded_append.mp hprompt).1
  exact (World.run_balanced (World.start_balanced hserving hnone) hguard).accounted

/-- A manifest that asks to read the storage. -/
def readerManifest : AddonManifest where
  id := js "org.senn.reader"
  name := js "Reader"
  version := js "1.0.0"
  entry := js "index.html"
  license := js "MIT"
  permissions := [ STORAGE_LOCAL_READ]
  capabilities := [.str (js "reader")]

def readerOptions : AddonHostOptions := ⟨none, true, none, none⟩

/-- A `storage` message of the mounted iframe. -/
def storageMessage (rid op : JsString) : Event :=
  AddonHost.bridgeMessage .storage
    [(js "rid", .str rid), (js "storage", .str op), (js "key", .str (js "k"))]

/-- Two requests, settled the other way round, a refused one between them, and `close`. -/
def readerRun : List Event :=
  [storageMessage (js "a") (js "get"), storageMessage (js "b") (js "put"),
    storageMessage (js "c") (js "list"), .storageSettled 1 (.ok .null),
    .storageSettled 0 (.storageError (js "key-too-long")), .close]

/-- The same through the SDK. -/
def readerMoves : List Move :=
  [.call (.get (.str (js "k"))), .call (.put (.str (js "k")) .null), .arrive 0, .call .list,
    .arrive 0, .arrive 0, .host (.storageSettled 1 (.ok .null)), .receive,
    .host (.storageSettled 0 (.storageError (js "key-too-long"))), .host .close, .receive, .receive]

theorem storage_answered_reader :
    (AddonHost.loaded readerManifest readerOptions (js "s") (some 0)).StorageAnswered readerRun ∧
      World.PromisesKept 0 (.loaded readerManifest readerOptions (js "s") (some 0)) readerMoves :=
  storage_answered readerManifest readerOptions (js "s") 0 readerRun readerMoves
    (by decide +kernel) (by decide +kernel)

/-- A request is in flight when `close` is called. -/
def closedRun : List Event := [storageMessage (js "a") (js "get"), .close]

theorem closedRun_unanswered : ¬ ∀ manifest : AddonManifest, manifest.Valid →
    ∀ options sessionId window evs,
      (AddonHost.loaded manifest options sessionId (some window)).StorageAnswered evs := by
  intro h
  have hvalid : readerManifest.Valid := ⟨by decide +kernel, by decide +kernel, by decide +kernel⟩
  obtain ⟨closed, haccounted⟩ :=
    h readerManifest hvalid readerOptions (js "s") 0 closedRun closedRun List.prefix_rfl
  have hanswered := haccounted.answered.length_eq
  have hasked := (haccounted.none_left (.tail _ (.head _))).length_eq
  rw [List.length_append, List.length_map, List.length_map] at hanswered
  rw [List.length_append, List.length_map] at hasked
  have hreplies : (replies (Machine.outputs AddonHost.step
      (.loaded readerManifest readerOptions (js "s") (some 0)) closedRun)).length = 0 := by
    decide +kernel
  have hone : (Machine.noted AddonHost.step AddonHost.asked
      (.loaded readerManifest readerOptions (js "s") (some 0)) closedRun).length = 1 := by
    decide +kernel
  omega

end Senn.Addon
