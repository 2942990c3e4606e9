import Senn.Addon.Lifecycle
import Senn.Addon.LocalTracks
import Senn.Lib.Custody

/-! # The add-on of the web host's page

The page holds one add-on at a time in `addonHost`. A load closes that one and fetches the next, a
retry closes it; both wait in between, and nothing keeps a second load or retry from starting
meanwhile. The hosts themselves are the machines of `AddonHost`. -/

namespace Senn.Addon
open Senn.Js Senn.Lib Senn.Protocol

/-! ## The page -/

/-- Who waits for `addonHost.close()`. -/
inductive Caller where
  | loadAddonByManifest
  | resetForRetry
deriving DecidableEq

/-- What a call of the page waits for. A `close` of a host that is closed returns at once; `own`
says that this call has closed it. -/
inductive Task where
  | sessionClosing
  | closing (caller : Caller) (host : Nat) (own : Bool)
  | loading (session : Bool)                    -- in `AddonHost.load`
  | loaded (host : Nat)                         -- which has made this host
deriving DecidableEq

/-- The page, with every host it has made. -/
structure WebHost where
  addonMount : Bool
  hosts : List AddonHost
  addonHost : Option Nat
  session : Bool
  tasks : List Task

/-- The add-on that `AddonHost.load` has accepted, and what its host starts with. -/
structure AcceptedAddon where
  manifest : AddonManifest
  sessionId : JsString
  window : Option Window

/-- Calls and events; `close` is a call of the page's own. -/
inductive WebEvent where
  | loadAddonByManifest
  | resetForRetry
  | attachSession
  | sessionClosed (t : Nat)
  | closeReturned (t : Nat)
  | loadSettled (t : Nat) (result : Option AcceptedAddon)
  | loadReturned (t : Nat)
  | host (i : Nat) (ev : Event)

/-- What the page hands to a host. -/
def webOptions (session : Bool) : AddonHostOptions where
  session := if session then some ⟨true⟩ else none
  storage := true
  mediaCapture := some ⟨true, true⟩
  mediaSink := some ⟨true, false⟩

namespace WebHost

def opened (addonMount : Bool) : WebHost where
  addonMount := addonMount
  hosts := []
  addonHost := none
  session := false
  tasks := []

/-- A step of one host. -/
def hostStep (s : WebHost) (i : Nat) (ev : Event) : WebHost × List (Nat × Out) :=
  match s.hosts[i]? with
  | none => (s, [])
  | some host =>
    let r := host.step ev
    ({ s with hosts := s.hosts.set i r.1 }, r.2.map fun o => (i, o))

/-- The host is there and not closed. -/
def isOpen (s : WebHost) (i : Nat) : Bool := s.hosts[i]?.any fun host => host.currentState ≠ .closed

/-- `await addonHost.close()` -/
def callClose (s : WebHost) (caller : Caller) (i : Nat) : WebHost × List (Nat × Out) :=
  let r := s.hostStep i .close
  ({ r.1 with tasks := s.tasks ++ [.closing caller i (s.isOpen i)] }, r.2)

/-- `loadAddonByManifest` once there is no host, up to the end of `AddonHost.load`. -/
def startLoad (s : WebHost) : WebHost :=
  if s.addonMount then { s with tasks := s.tasks ++ [.loading s.session] } else s

/-- The end of `resetForRetry`, with the session that `startInviter` attaches. -/
def finishReset (s : WebHost) : WebHost := { s with session := true }

def loadAddonByManifest (s : WebHost) : WebHost × List (Nat × Out) :=
  match s.addonHost with
  | some i => s.callClose .loadAddonByManifest i
  | none => (s.startLoad, [])

/-- `resetForRetry` once there is no session. -/
def resetAddon (s : WebHost) : WebHost × List (Nat × Out) :=
  match s.addonHost with
  | some i => s.callClose .resetForRetry i
  | none => (s.finishReset, [])

def resetForRetry (s : WebHost) : WebHost × List (Nat × Out) :=
  if s.session then ({ s with tasks := s.tasks ++ [.sessionClosing] }, []) else s.resetAddon

def sessionClosed (s : WebHost) (t : Nat) : WebHost × List (Nat × Out) :=
  match s.tasks[t]? with
  | some .sessionClosing =>
    { s with session := false, tasks := s.tasks.eraseIdx t }.resetAddon
  | _ => (s, [])

/-- The loop of the host's `close` has ended. -/
def closeDone (s : WebHost) (i : Nat) : Bool := s.hosts[i]?.all fun host => host.closing.isNone

/-- The call that waits for `addonHost.close()` goes on. -/
def closeReturned (s : WebHost) (t : Nat) : WebHost :=
  match s.tasks[t]? with
  | some (.closing caller i own) =>
    if own && !s.closeDone i then s
    else
      let s := { s with addonHost := none, tasks := s.tasks.eraseIdx t }
      match caller with
      | .loadAddonByManifest => s.startLoad
      | .resetForRetry => s.finishReset
  | _ => s

/-- `AddonHost.load` fails, or makes its host. -/
def loadSettled (s : WebHost) (t : Nat) (result : Option AcceptedAddon) : WebHost :=
  match s.tasks[t]? with
  | some (.loading session) =>
    match result with
    | none => { s with tasks := s.tasks.eraseIdx t }
    | some a =>
      { s with
        hosts := s.hosts ++ [.loaded a.manifest (webOptions session) a.sessionId a.window]
        tasks := s.tasks.eraseIdx t ++ [.loaded s.hosts.length] }
  | _ => s

/-- `loadAddonByManifest` goes on with the host that was made. -/
def loadReturned (s : WebHost) (t : Nat) : WebHost :=
  match s.tasks[t]? with
  | some (.loaded i) => { s with addonHost := some i, tasks := s.tasks.eraseIdx t }
  | _ => s

def step (s : WebHost) : WebEvent → WebHost × List (Nat × Out)
  | .loadAddonByManifest => s.loadAddonByManifest
  | .resetForRetry => s.resetForRetry
  | .attachSession => ({ s with session := true }, [])
  | .sessionClosed t => s.sessionClosed t
  | .closeReturned t => (s.closeReturned t, [])
  | .loadSettled t result => (s.loadSettled t result, [])
  | .loadReturned t => (s.loadReturned t, [])
  | .host _ .close => (s, [])
  | .host i ev => s.hostStep i ev

end WebHost

/-! ## One host -/

namespace AddonHost

variable {s : AddonHost}

theorem handleReady_open (hopen : s.currentState ≠ .closed) :
    s.handleReady.1.currentState ≠ .closed := by
  unfold handleReady ensureInitPosted
  by_cases hmounted : s.currentState = .mounted
  · simp [hmounted, setState]
  · by_cases hinitialized : s.currentState = .initialized
    · simp [hinitialized, setState]
    · simpa [hmounted, hinitialized] using hopen

/-- Only `close` closes a host. -/
theorem step_closed_iff {ev : Event} (hev : ev ≠ .close) :
    (s.step ev).1.currentState = .closed ↔ s.currentState = .closed := by
  refine ⟨fun hclosed => ?_, (step_life s ev).closed_stays⟩
  by_contra hopen
  by_cases hdelivery : OnDelivery ev
  · rw [(step_delivers hdelivery).1] at hclosed
    exact hopen hclosed
  by_cases hmoving : s.Moving ev
  · cases ev with
    | iframeLoad =>
      dsimp only [step] at hclosed
      unfold onIframeLoad at hclosed
      split at hclosed
      · exact hopen hclosed
      · next hmounted => simp [setState, not_not.mp hmounted] at hclosed
    | close => exact hev rfl
    | message source data now =>
      rw [step_heard s hmoving] at hclosed
      exact handleReady_open hopen hclosed
    | _ => exact absurd hmoving id
  · rw [(step_still hdelivery hmoving).state] at hclosed
    exact hopen hclosed

/-- Nor does anything else start the loop of `close`. -/
theorem step_closing {ev : Event} (hev : ev ≠ .close) (hc : s.vitals.Coherent)
    (h : (s.step ev).1.closing ≠ none) : s.closing ≠ none := by
  intro hnone
  have hclosed : s.currentState = .closed :=
    (step_closed_iff hev).mp ((step_coherent hc ev).closing h)
  exact h (step_quiet ⟨hclosed, hnone⟩ hc ev).ended.2

end AddonHost

/-! ## Who holds the hosts -/

/-- A host that no one holds but the load that has made it. -/
def Task.host? : Task → Option Nat
  | .loaded i => some i
  | _ => none

namespace WebHost

/-- The hosts the page still has, in `addonHost` or in a load that has not returned. -/
def held (s : WebHost) : List Nat := s.addonHost.toList ++ s.tasks.filterMap Task.host?

def view (s : WebHost) : Custody.View Nat where
  known i := i < s.hosts.length
  isOpen i := s.isOpen i = true
  held := s.held

/-- The host that a step makes. -/
def taken (s : WebHost) : WebEvent → List Nat
  | .loadSettled t (some _) =>
    match s.tasks[t]? with
    | some (.loading _) => [s.hosts.length]
    | _ => []
  | _ => []

/-- The host that a step takes out of `addonHost`. -/
def dropped (s : WebHost) : WebEvent → List Nat
  | .closeReturned t =>
    match s.tasks[t]? with
    | some (.closing _ i own) => if own && !s.closeDone i then [] else s.addonHost.toList
    | _ => []
  | .loadReturned t =>
    match s.tasks[t]? with
    | some (.loaded _) => s.addonHost.toList
    | _ => []
  | _ => []

variable {s : WebHost}

theorem host?_eraseIdx {tasks : List Task} {t : Nat} {task : Task} (h : tasks[t]? = some task) :
    (task.host?.toList ++ (tasks.eraseIdx t).filterMap Task.host?).Perm
      (tasks.filterMap Task.host?) := by
  obtain ⟨ht, rfl⟩ := List.getElem?_eq_some_iff.mp h
  have hperm := (List.getElem_cons_eraseIdx_perm ht).filterMap Task.host?
  rw [List.filterMap_cons] at hperm
  cases hhost : tasks[t].host? with
  | none => simpa [hhost] using hperm
  | some i => simpa [hhost] using hperm

theorem isOpen_set {i : Nat} {host : AddonHost} (hi : s.hosts[i]? = some host) (host' : AddonHost)
    (j : Nat) : ({ s with hosts := s.hosts.set i host' } : WebHost).isOpen j =
      if j = i then decide (host'.currentState ≠ .closed) else s.isOpen j := by
  obtain ⟨hlt, -⟩ := List.getElem?_eq_some_iff.mp hi
  unfold isOpen
  dsimp only
  split
  · next heq => simp [heq, hlt]
  · next hne => rw [List.getElem?_set_ne (Ne.symm hne)]

/-- A step that leaves the hosts as open as they are. -/
theorem move_of_held {s' : WebHost} {dropped : List Nat} (hlen : s'.hosts.length = s.hosts.length)
    (hopen : ∀ i, s'.isOpen i = s.isOpen i) (hperm : (dropped ++ s'.held).Perm s.held) :
    Custody.Move s.view s'.view [] dropped where
  perm := by rwa [List.append_nil]
  fresh := ⟨List.nodup_nil, by simp⟩
  known i := by simp [view, hlen]
  opened i hi := .inl ((hopen i).symm.trans hi)
  closed i hi := .inl ((hopen i).trans hi)

theorem callClose_held (s : WebHost) (caller : Caller) (i : Nat) :
    (s.callClose caller i).1.held = s.held := by
  unfold callClose hostStep held
  dsimp only
  split <;> simp [Task.host?]

theorem callClose_length (s : WebHost) (caller : Caller) (i : Nat) :
    (s.callClose caller i).1.hosts.length = s.hosts.length := by
  unfold callClose hostStep
  dsimp only
  split <;> simp

/-- The host is closed from the call on. -/
theorem callClose_isOpen (s : WebHost) (caller : Caller) (i j : Nat) :
    (s.callClose caller i).1.isOpen j = (s.isOpen j && decide (j ≠ i)) := by
  unfold callClose hostStep
  dsimp only
  cases hi : s.hosts[i]? with
  | none =>
    by_cases heq : j = i
    · simp [isOpen, heq, hi]
    · simp [isOpen, heq]
  | some host =>
    have hclosed : (host.step .close).1.currentState = .closed := host.close_closed
    refine (isOpen_set hi (host.step .close).1 j).trans ?_
    rw [hclosed]
    by_cases heq : j = i <;> simp [heq]

theorem callClose_move {i : Nat} (h : s.addonHost = some i) (caller : Caller) :
    Custody.Move s.view (s.callClose caller i).1.view [] [] where
  perm := by
    rw [List.nil_append, List.append_nil]
    exact .of_eq (s.callClose_held caller i)
  fresh := ⟨List.nodup_nil, by simp⟩
  known j := by simp [view, callClose_length]
  opened j hj := by
    have hj : (s.callClose caller i).1.isOpen j = true := hj
    rw [callClose_isOpen, Bool.and_eq_true] at hj
    exact .inl hj.1
  closed j hj := by
    have hj : s.isOpen j = true := hj
    by_cases heq : j = i
    · right
      have hmem : j ∈ s.held := by simp [held, h, heq]
      rw [← s.callClose_held caller i] at hmem
      exact hmem
    · left
      refine (s.callClose_isOpen caller i j).trans ?_
      simp [hj, heq]

theorem startLoad_held (s : WebHost) : s.startLoad.held = s.held := by
  unfold startLoad
  split
  · simp [held, Task.host?]
  · rfl

theorem startLoad_hosts (s : WebHost) : s.startLoad.hosts = s.hosts := by
  unfold startLoad
  split <;> rfl

theorem isOpen_congr {s' : WebHost} (h : s'.hosts = s.hosts) (i : Nat) :
    s'.isOpen i = s.isOpen i := by
  rw [isOpen, isOpen, h]

/-- A step that leaves the hosts alone. -/
theorem move_of_hosts {s' : WebHost} {dropped : List Nat} (hhosts : s'.hosts = s.hosts)
    (hperm : (dropped ++ s'.held).Perm s.held) : Custody.Move s.view s'.view [] dropped :=
  move_of_held (congrArg List.length hhosts) (isOpen_congr hhosts) hperm

theorem move_refl (s : WebHost) : Custody.Move s.view s.view [] [] := move_of_hosts rfl .rfl

theorem resetAddon_move (s : WebHost) : Custody.Move s.view s.resetAddon.1.view [] [] := by
  unfold resetAddon
  split
  · next i hi => exact callClose_move hi _
  · exact move_of_hosts rfl .rfl

theorem hostStep_isOpen (s : WebHost) (i : Nat) {ev : Event} (hev : ev ≠ .close) (j : Nat) :
    (s.hostStep i ev).1.isOpen j = s.isOpen j := by
  unfold hostStep
  split
  · rfl
  · next host hi =>
    rw [isOpen_set hi]
    split
    · next heq =>
      rw [heq, isOpen, hi]
      have hsame := not_congr (AddonHost.step_closed_iff (s := host) hev)
      simp [hsame]
    · rfl

theorem hostStep_move (i : Nat) {ev : Event} (hev : ev ≠ .close) :
    Custody.Move s.view (s.hostStep i ev).1.view [] [] := by
  refine move_of_held ?_ (s.hostStep_isOpen i hev) ?_
  · unfold hostStep
    split <;> simp
  · unfold hostStep
    split <;> exact .rfl

/-- A step of a host that the page does not call. -/
theorem step_host (s : WebHost) (i : Nat) (ev : Event) :
    ev = .close ∧ s.step (.host i ev) = (s, []) ∨
      ev ≠ .close ∧ s.step (.host i ev) = s.hostStep i ev := by
  cases ev with
  | close => exact .inl ⟨rfl, rfl⟩
  | _ => exact .inr ⟨nofun, rfl⟩

theorem closeReturned_move (s : WebHost) (t : Nat) :
    Custody.Move s.view (s.closeReturned t).view [] (s.dropped (.closeReturned t)) := by
  unfold closeReturned dropped
  dsimp only
  split
  · next caller i own ht =>
    split
    · exact s.move_refl
    · have hperm := (host?_eraseIdx ht).append_left s.addonHost.toList
      cases caller with
      | loadAddonByManifest =>
        refine move_of_hosts (startLoad_hosts _) ?_
        rw [startLoad_held]
        exact hperm
      | resetForRetry => exact move_of_hosts rfl hperm
  · exact move_of_hosts rfl .rfl

theorem loadReturned_move (s : WebHost) (t : Nat) :
    Custody.Move s.view (s.loadReturned t).view [] (s.dropped (.loadReturned t)) := by
  unfold loadReturned dropped
  dsimp only
  split
  · next i ht => exact move_of_hosts rfl ((host?_eraseIdx ht).append_left s.addonHost.toList)
  · exact move_of_hosts rfl .rfl

/-- A load makes its host. -/
theorem load_move {t : Nat} {session : Bool} (ht : s.tasks[t]? = some (.loading session))
    (host : AddonHost) : Custody.Move s.view
      ({ s with
        hosts := s.hosts ++ [host]
        tasks := s.tasks.eraseIdx t ++ [.loaded s.hosts.length] } : WebHost).view
      [s.hosts.length] [] where
  perm := by
    have hperm := (host?_eraseIdx ht).append_left s.addonHost.toList
    refine .trans (.of_eq ?_) (hperm.append_right [s.hosts.length])
    simp [view, held, Task.host?]
  fresh := ⟨List.nodup_singleton _, by simp [view]⟩
  known i := by simp [view, Nat.le_iff_lt_or_eq]
  opened i hi := by
    have hi : (s.hosts ++ [host])[i]?.any (fun h => decide (h.currentState ≠ .closed)) = true := hi
    by_cases hlt : i < s.hosts.length
    · rw [List.getElem?_append_left hlt] at hi
      exact .inl hi
    · by_cases heq : i = s.hosts.length
      · exact .inr (by simp [view, held, Task.host?, heq])
      · have hend : (s.hosts ++ [host]).length ≤ i := by
          rw [List.length_append, List.length_singleton]
          omega
        rw [List.getElem?_eq_none hend] at hi
        cases hi
  closed i hi := by
    have hi : s.hosts[i]?.any (fun h => decide (h.currentState ≠ .closed)) = true := hi
    by_cases hlt : i < s.hosts.length
    · have hsame : (s.hosts ++ [host])[i]? = s.hosts[i]? := List.getElem?_append_left hlt
      rw [← hsame] at hi
      exact .inl hi
    · rw [List.getElem?_eq_none (Nat.le_of_not_lt hlt)] at hi
      cases hi

theorem loadSettled_move (s : WebHost) (t : Nat) (result : Option AcceptedAddon) :
    Custody.Move s.view (s.loadSettled t result).view (s.taken (.loadSettled t result)) [] := by
  unfold loadSettled
  split
  · next session ht =>
    cases result with
    | none => exact move_of_hosts rfl ((host?_eraseIdx ht).append_left s.addonHost.toList)
    | some a =>
      have htaken : s.taken (.loadSettled t (some a)) = [s.hosts.length] := by rw [taken, ht]
      rw [htaken]
      exact load_move ht _
  · next hnot =>
    have htaken : s.taken (.loadSettled t result) = [] := by
      unfold taken
      cases result with
      | none => rfl
      | some a =>
        dsimp only
        split
        · next session ht => exact absurd ht (hnot session)
        · rfl
    rw [htaken]
    exact move_refl s

theorem sessionClosed_move (s : WebHost) (t : Nat) :
    Custody.Move s.view (s.sessionClosed t).1.view [] [] := by
  unfold sessionClosed
  split
  · next ht =>
    refine (resetAddon_move _).congr (fun _ => .rfl) (fun _ => .rfl) ?_
    exact (host?_eraseIdx ht).append_left s.addonHost.toList
  · exact move_of_hosts rfl .rfl

/-- Every step takes what it makes and closes only what the page holds. -/
theorem step_move (s : WebHost) (ev : WebEvent) :
    Custody.Move s.view (s.step ev).1.view (s.taken ev) (s.dropped ev) := by
  cases ev with
  | loadAddonByManifest =>
    dsimp only [step, taken, dropped]
    unfold loadAddonByManifest
    split
    · next i hi => exact callClose_move hi _
    · exact move_of_hosts (startLoad_hosts s) (.of_eq (startLoad_held s))
  | resetForRetry =>
    dsimp only [step, taken, dropped]
    unfold resetForRetry
    split
    · exact move_of_hosts rfl (.of_eq (by simp [held, Task.host?]))
    · exact s.resetAddon_move
  | attachSession => exact move_of_hosts rfl .rfl
  | sessionClosed t => exact s.sessionClosed_move t
  | closeReturned t => exact s.closeReturned_move t
  | loadSettled t result => exact s.loadSettled_move t result
  | loadReturned t => exact s.loadReturned_move t
  | host i ev =>
    obtain ⟨-, hstep⟩ | ⟨hev, hstep⟩ := s.step_host i ev
    · rw [hstep]
      exact s.move_refl
    · rw [hstep]
      exact hostStep_move i hev

/-! ## The hosts, one by one -/

/-- What a step can do to the hosts. -/
inductive HostsChange (hosts : List AddonHost) (ev : WebEvent) : List AddonHost → Prop
  | same : HostsChange hosts ev hosts
  | closed {i : Nat} {host : AddonHost} : hosts[i]? = some host →
      HostsChange hosts ev (hosts.set i (host.step .close).1)
  | stepped {i : Nat} {host : AddonHost} {e : Event} : ev = .host i e → hosts[i]? = some host →
      HostsChange hosts ev (hosts.set i (host.step e).1)
  | loaded {a : AcceptedAddon} {session : Bool} : HostsChange hosts ev
      (hosts ++ [.loaded a.manifest (webOptions session) a.sessionId a.window])

theorem callClose_hosts (caller : Caller) (i : Nat) (ev : WebEvent) :
    HostsChange s.hosts ev (s.callClose caller i).1.hosts := by
  unfold callClose hostStep
  dsimp only
  split
  · exact .same
  · next host hi => exact .closed hi

theorem resetAddon_hosts (s : WebHost) (ev : WebEvent) :
    HostsChange s.hosts ev s.resetAddon.1.hosts := by
  unfold resetAddon
  split
  · exact callClose_hosts _ _ ev
  · exact .same

theorem step_hosts (s : WebHost) (ev : WebEvent) :
    HostsChange s.hosts ev (s.step ev).1.hosts := by
  cases ev with
  | loadAddonByManifest =>
    dsimp only [step]
    unfold loadAddonByManifest
    split
    · exact callClose_hosts _ _ _
    · dsimp only
      rw [startLoad_hosts]
      exact .same
  | resetForRetry =>
    dsimp only [step]
    unfold resetForRetry
    split
    · exact .same
    · exact s.resetAddon_hosts _
  | attachSession => exact .same
  | sessionClosed t =>
    dsimp only [step]
    unfold sessionClosed
    split
    · exact resetAddon_hosts { s with session := false, tasks := s.tasks.eraseIdx t } _
    · exact .same
  | closeReturned t =>
    dsimp only [step]
    unfold closeReturned
    split
    · next caller i own _ =>
      split
      · exact .same
      · cases caller with
        | loadAddonByManifest =>
          dsimp only
          rw [startLoad_hosts]
          exact .same
        | resetForRetry => exact .same
    · exact .same
  | loadSettled t result =>
    dsimp only [step]
    unfold loadSettled
    split
    · cases result with
      | none => exact .same
      | some a => exact .loaded
    · exact .same
  | loadReturned t =>
    dsimp only [step]
    unfold loadReturned
    split <;> exact .same
  | host i e =>
    obtain ⟨-, hstep⟩ | ⟨-, hstep⟩ := s.step_host i e
    · rw [hstep]
      exact .same
    · rw [hstep]
      unfold hostStep
      split
      · exact .same
      · next host hi => exact .stepped rfl hi

/-- What loads give every host and every step of a host keeps, all hosts have. -/
theorem HostsChange.inv {hosts hosts' : List AddonHost} {ev : WebEvent} {I : AddonHost → Prop}
    (h : HostsChange hosts ev hosts')
    (hloaded : ∀ manifest options sessionId window, I (.loaded manifest options sessionId window))
    (hclose : ∀ host, I host → I (host.step .close).1)
    (hstep : ∀ i host e, ev = .host i e → hosts[i]? = some host → I host → I (host.step e).1)
    (hall : ∀ host ∈ hosts, I host) : ∀ host ∈ hosts', I host := by
  have hset : ∀ {i : Nat} {host : AddonHost}, I host → ∀ h ∈ hosts.set i host, I h := by
    intro i host hhost h hmem
    obtain hmem | rfl := List.mem_or_eq_of_mem_set hmem
    · exact hall h hmem
    · exact hhost
  cases h with
  | same => exact hall
  | closed hi => exact hset (hclose _ (hall _ (List.mem_of_getElem? hi)))
  | stepped hev hi => exact hset (hstep _ _ _ hev hi (hall _ (List.mem_of_getElem? hi)))
  | loaded =>
    refine List.forall_mem_append.mpr ⟨hall, fun host hmem => ?_⟩
    obtain rfl := List.mem_singleton.mp hmem
    exact hloaded _ _ _ _

theorem step_hosts_coherent (h : ∀ host ∈ s.hosts, host.vitals.Coherent) (ev : WebEvent) :
    ∀ host ∈ (s.step ev).1.hosts, host.vitals.Coherent :=
  (s.step_hosts ev).inv
    (fun manifest options sessionId window =>
      (AddonHost.loaded_vitals manifest options sessionId window).2.2)
    (fun _ hhost => AddonHost.step_coherent hhost .close)
    (fun _ _ e _ _ hhost => AddonHost.step_coherent hhost e) h

/-- The host's step registers no sender where none may be. -/
def orderly (s : WebHost) : WebEvent → Bool
  | .host i ev => s.hosts[i]?.all fun host => host.orderly ev
  | _ => true

theorem step_hosts_kept (h : ∀ host ∈ s.hosts, host.books.Kept) {ev : WebEvent}
    (horderly : s.orderly ev = true) : ∀ host ∈ (s.step ev).1.hosts, host.books.Kept := by
  refine (s.step_hosts ev).inv AddonHost.loaded_kept
    (fun _ hhost => AddonHost.step_kept .close hhost rfl) (fun i host e hev hi hhost => ?_) h
  subst hev
  rw [orderly, hi] at horderly
  exact AddonHost.step_kept e hhost horderly

/-! ## Closes -/

/-- For every host in the loop of its `close` there is the call that waits for it. -/
def Awaited (s : WebHost) : Prop := ∀ i host, s.hosts[i]? = some host → host.closing ≠ none →
  ∃ caller, Task.closing caller i true ∈ s.tasks

theorem Awaited.of_tasks {s' : WebHost} (h : s.Awaited) (hhosts : s'.hosts = s.hosts)
    (htasks : s.tasks ⊆ s'.tasks) : s'.Awaited := by
  intro i host hi hclosing
  rw [hhosts] at hi
  obtain ⟨caller, hmem⟩ := h i host hi hclosing
  exact ⟨caller, htasks hmem⟩

/-- A call that goes on has not left a close behind that runs. -/
theorem Awaited.erase (h : s.Awaited) {t : Nat} {task : Task} (ht : s.tasks[t]? = some task)
    (hdone : ∀ caller i, task = .closing caller i true → s.closeDone i = true) :
    ({ s with tasks := s.tasks.eraseIdx t } : WebHost).Awaited := by
  intro i host hi hclosing
  obtain ⟨caller, hmem⟩ := h i host hi hclosing
  refine ⟨caller, Books.mem_eraseIdx_of_ne ht hmem fun heq => ?_⟩
  have hnone := hdone caller i heq.symm
  have hi : s.hosts[i]? = some host := hi
  rw [closeDone, hi, Option.all_some, Option.isNone_iff_eq_none] at hnone
  exact hclosing hnone

theorem Awaited.callClose (h : s.Awaited) (caller : Caller) (i : Nat) :
    (s.callClose caller i).1.Awaited := by
  have hnew : s.tasks ⊆ s.tasks ++ [.closing caller i (s.isOpen i)] :=
    List.subset_append_left _ _
  unfold WebHost.callClose hostStep
  dsimp only
  cases hi : s.hosts[i]? with
  | none => exact h.of_tasks rfl hnew
  | some host =>
    intro j host' hj hclosing
    have hj : (s.hosts.set i (host.step .close).1)[j]? = some host' := hj
    by_cases heq : j = i
    · subst heq
      by_cases hclosed : host.currentState = .closed
      · have hsame : (host.step .close).1 = host := by
          dsimp only [AddonHost.step]
          rw [AddonHost.close, if_pos hclosed]
        obtain ⟨hlt, -⟩ := List.getElem?_eq_some_iff.mp hi
        rw [hsame, List.getElem?_set_self hlt] at hj
        obtain rfl := Option.some.inj hj
        obtain ⟨c, hmem⟩ := h j host hi hclosing
        exact ⟨c, hnew hmem⟩
      · refine ⟨caller, List.mem_append_right _ ?_⟩
        have hopen : s.isOpen j = true := by simp [isOpen, hi, hclosed]
        rw [hopen]
        exact .head _
    · rw [List.getElem?_set_ne (Ne.symm heq)] at hj
      obtain ⟨c, hmem⟩ := h j host' hj hclosing
      exact ⟨c, hnew hmem⟩

theorem Awaited.startLoad (h : s.Awaited) : s.startLoad.Awaited := by
  unfold WebHost.startLoad
  split
  · exact h.of_tasks rfl (List.subset_append_left _ _)
  · exact h

theorem Awaited.resetAddon (h : s.Awaited) : s.resetAddon.1.Awaited := by
  unfold WebHost.resetAddon
  split
  · exact h.callClose _ _
  · exact h.of_tasks rfl (List.Subset.refl _)

theorem Awaited.hostStep (h : s.Awaited) (hc : ∀ host ∈ s.hosts, host.vitals.Coherent) (i : Nat)
    {ev : Event} (hev : ev ≠ .close) : (s.hostStep i ev).1.Awaited := by
  unfold WebHost.hostStep
  split
  · exact h
  · next host hi =>
    intro j host' hj hclosing
    have hj : (s.hosts.set i (host.step ev).1)[j]? = some host' := hj
    by_cases heq : j = i
    · subst heq
      obtain ⟨hlt, -⟩ := List.getElem?_eq_some_iff.mp hi
      rw [List.getElem?_set_self hlt] at hj
      obtain rfl := Option.some.inj hj
      exact h j host hi (AddonHost.step_closing hev (hc host (List.mem_of_getElem? hi)) hclosing)
    · rw [List.getElem?_set_ne (Ne.symm heq)] at hj
      exact h j host' hj hclosing

theorem Awaited.closeReturned (h : s.Awaited) (t : Nat) : (s.closeReturned t).Awaited := by
  unfold WebHost.closeReturned
  split
  · next caller i own ht =>
    split
    · exact h
    · next hready =>
      have herase := h.erase ht fun caller' j heq => by
        cases heq
        simpa using hready
      have hnone : ({ s with addonHost := none, tasks := s.tasks.eraseIdx t } : WebHost).Awaited :=
        herase.of_tasks rfl (List.Subset.refl _)
      cases caller with
      | loadAddonByManifest => exact hnone.startLoad
      | resetForRetry => exact hnone.of_tasks rfl (List.Subset.refl _)
  · exact h

theorem Awaited.loadSettled (h : s.Awaited) (t : Nat) (result : Option AcceptedAddon) :
    (s.loadSettled t result).Awaited := by
  unfold WebHost.loadSettled
  split
  · next session ht =>
    have herase := h.erase ht fun caller i heq => by cases heq
    cases result with
    | none => exact herase
    | some a =>
      intro i host hi hclosing
      have hi : (s.hosts ++ [.loaded a.manifest (webOptions session) a.sessionId a.window])[i]? =
          some host := hi
      by_cases hlt : i < s.hosts.length
      · rw [List.getElem?_append_left hlt] at hi
        obtain ⟨caller, hmem⟩ := herase i host hi hclosing
        exact ⟨caller, List.mem_append_left _ hmem⟩
      · rw [List.getElem?_append_right (Nat.le_of_not_lt hlt)] at hi
        obtain rfl := List.mem_singleton.mp (List.mem_of_getElem? hi)
        obtain ⟨hmounted, -, hcoherent⟩ := AddonHost.loaded_vitals a.manifest (webOptions session)
          a.sessionId a.window
        have hclosed := hmounted.symm.trans (hcoherent.closing hclosing)
        cases hclosed
  · exact h

theorem step_awaited (h : s.Awaited) (hc : ∀ host ∈ s.hosts, host.vitals.Coherent)
    (ev : WebEvent) : (s.step ev).1.Awaited := by
  cases ev with
  | loadAddonByManifest =>
    dsimp only [step]
    unfold loadAddonByManifest
    split
    · exact h.callClose _ _
    · exact h.startLoad
  | resetForRetry =>
    dsimp only [step]
    unfold resetForRetry
    split
    · exact h.of_tasks rfl (List.subset_append_left _ _)
    · exact h.resetAddon
  | attachSession => exact h.of_tasks rfl (List.Subset.refl _)
  | sessionClosed t =>
    dsimp only [step]
    unfold sessionClosed
    split
    · next ht =>
      have herase := h.erase ht fun caller i heq => by cases heq
      have hgone : ({ s with session := false, tasks := s.tasks.eraseIdx t } : WebHost).Awaited :=
        herase.of_tasks rfl (List.Subset.refl _)
      exact hgone.resetAddon
    · exact h
  | closeReturned t => exact h.closeReturned t
  | loadSettled t result => exact h.loadSettled t result
  | loadReturned t =>
    dsimp only [step]
    unfold loadReturned
    split
    · next i ht =>
      have herase := h.erase ht fun caller j heq => by cases heq
      exact herase.of_tasks rfl (List.Subset.refl _)
    · exact h
  | host i ev =>
    obtain ⟨-, hstep⟩ | ⟨hev, hstep⟩ := s.step_host i ev
    · rw [hstep]
      exact h
    · rw [hstep]
      exact h.hostStep hc i hev

/-! ## One live add-on -/

/-- The hosts are sound, and no close runs that no call waits for. -/
structure Sound (s : WebHost) : Prop where
  coherent : ∀ host ∈ s.hosts, host.vitals.Coherent
  awaited : s.Awaited

theorem step_sound (h : s.Sound) (ev : WebEvent) : (s.step ev).1.Sound :=
  ⟨step_hosts_coherent h.coherent ev, step_awaited h.awaited h.coherent ev⟩

/-- A host that is not closed is the page's, and any other one has no iframe and no session. -/
structure OneLive (s : WebHost) : Prop where
  live : ∀ i, s.isOpen i = true → s.addonHost = some i
  gone : ∀ i host, s.hosts[i]? = some host → s.addonHost ≠ some i →
    host.iframe = none ∧ host.bound = false

/-- A track of any other host is stopped, or a promise that the host waits for will stop it. -/
def Released (s : WebHost) : Prop := ∀ i host, s.hosts[i]? = some host → s.addonHost ≠ some i →
  ∀ kind track, host.Live kind track → (kind, track) ∈ host.adding ∨
    ∃ sender, (kind, sender) ∈ host.removing ∧ sender.track = track

/-- A step takes no host out of `addonHost` that is not closed. -/
def Keeps (s : WebHost) (ev : WebEvent) : Prop := ∀ i ∈ s.dropped ev, ¬s.isOpen i = true

/-- No load and no retry starts while another one is under way. -/
def Alone (s : WebHost) : WebEvent → Prop
  | .loadAddonByManifest | .resetForRetry => s.tasks = []
  | _ => True

/-- A host that is closed, once no call waits. -/
theorem Sound.ended (h : s.Sound) (hdone : s.tasks = []) {i : Nat} {host : AddonHost}
    (hi : s.hosts[i]? = some host) (hclosed : s.isOpen i = false) : host.Ended := by
  refine ⟨by simpa [isOpen, hi] using hclosed, by_contra fun hclosing => ?_⟩
  obtain ⟨caller, hmem⟩ := h.awaited i host hi hclosing
  rw [hdone] at hmem
  cases hmem

theorem Sound.oneLive_iff (h : s.Sound) (hdone : s.tasks = []) :
    s.OneLive ↔ s.view.Tracked := by
  have hheld : ∀ i, i ∈ s.held ↔ s.addonHost = some i := by
    intro i
    rw [held, hdone, List.filterMap_nil, List.append_nil, Option.mem_toList]
  refine ⟨fun hlive i hi => (hheld i).mpr (hlive.live i hi), fun ht => ?_⟩
  have hlive : ∀ i, s.isOpen i = true → s.addonHost = some i := fun i hi => (hheld i).mp (ht i hi)
  refine ⟨hlive, fun i host hi hother => ?_⟩
  have hended := h.ended hdone hi (Bool.eq_false_iff.mpr fun hopen => hother (hlive i hopen))
  have hcoherent := h.coherent host (List.mem_of_getElem? hi)
  exact ⟨hended.gone hcoherent, (hcoherent.deaf hended.1).2⟩

theorem Sound.released (h : s.Sound) (hdone : s.tasks = []) (hlive : s.OneLive)
    (hkept : ∀ host ∈ s.hosts, host.books.Kept) : s.Released := by
  intro i host hi hother kind track htrack
  have hended := h.ended hdone hi
    (Bool.eq_false_iff.mpr fun hopen => hother (hlive.live i hopen))
  have hbooks := hkept host (List.mem_of_getElem? hi)
  cases hbooks.held kind track htrack.1 with
  | stopped hstopped => exact absurd hstopped htrack.2
  | adding hadding => exact .inl hadding
  | @removing sender hremoving heq => exact .inr ⟨sender, hremoving, heq⟩
  | @registered sender hsender heq =>
    have hempty : host.mediaSendSenders = .empty :=
      hbooks.cleared (decide_eq_true hended.1) hended.2
    have hsender : host.mediaSendSenders.get kind = some sender := hsender
    rw [hempty] at hsender
    cases hsender

theorem opened_sound (addonMount : Bool) : (opened addonMount).Sound :=
  ⟨by simp [opened], by simp [Awaited, opened]⟩

theorem sound_after (addonMount : Bool) (events : List WebEvent) :
    (Machine.after step (opened addonMount) events).Sound :=
  Machine.after_inv (P := Sound) (fun _ ev h => step_sound h ev) (opened_sound addonMount) events

/-- Once nothing waits, one add-on is live exactly when no open host was taken from `addonHost`. -/
theorem oneLive_iff_keeps (addonMount : Bool) (events : List WebEvent)
    (hdone : (Machine.after step (opened addonMount) events).tasks = []) :
    (Machine.after step (opened addonMount) events).OneLive ↔
      Machine.Guarded step Keeps (opened addonMount) events := by
  rw [(sound_after addonMount events).oneLive_iff hdone]
  have hmove : ∀ s ev, Custody.Move (view s) (view (step s ev).1) (taken s ev) (dropped s ev) :=
    step_move
  refine Custody.tracked_after_iff hmove ⟨?_, ?_, ?_⟩ ?_ events
  · simp [view, held, opened]
  · simp [view, held, opened]
  · simp [view, isOpen, opened]
  · simp [Custody.View.Tracked, view, isOpen, opened]

/-! ## Loads and retries one at a time -/

/-- What is under way when loads and retries come one after the other. -/
inductive Phase (s : WebHost) : Prop
  | idle : s.tasks = [] → Phase s
  | sessionClosing : s.tasks = [.sessionClosing] → Phase s
  | closing {caller : Caller} {i : Nat} {own : Bool} : s.tasks = [.closing caller i own] →
      s.addonHost = some i → s.isOpen i = false → Phase s
  | loading {session : Bool} : s.tasks = [.loading session] → s.addonHost = none → Phase s
  | loaded {i : Nat} : s.tasks = [.loaded i] → s.addonHost = none → Phase s

/-- The only task there is. -/
theorem Phase.single (h : s.Phase) {t : Nat} {task : Task} (ht : s.tasks[t]? = some task) :
    s.tasks = [task] ∧ s.tasks.eraseIdx t = [] := by
  have hone : ∀ {a : Task}, s.tasks = [a] → s.tasks = [task] ∧ s.tasks.eraseIdx t = [] := by
    intro a ha
    rw [ha] at ht ⊢
    cases t with
    | zero => exact ⟨congrArg ([·]) (Option.some.inj ht), rfl⟩
    | succ t => cases ht
  cases h with
  | idle htasks =>
    rw [htasks] at ht
    cases ht
  | sessionClosing htasks => exact hone htasks
  | closing htasks _ _ => exact hone htasks
  | loading htasks _ => exact hone htasks
  | loaded htasks _ => exact hone htasks

theorem mem_dropped {ev : WebEvent} {i : Nat} (h : i ∈ s.dropped ev) : s.addonHost = some i ∧
    ∃ (t : Nat) (task : Task), s.tasks[t]? = some task ∧
      ((∃ caller j own, task = Task.closing caller j own) ∨ ∃ j, task = Task.loaded j) := by
  cases ev with
  | closeReturned t =>
    unfold dropped at h
    dsimp only at h
    split at h
    · next caller j own ht =>
      split at h
      · cases h
      · exact ⟨Option.mem_toList.mp h, t, _, ht, .inl ⟨caller, j, own, rfl⟩⟩
    · cases h
  | loadReturned t =>
    unfold dropped at h
    dsimp only at h
    split at h
    · next j ht => exact ⟨Option.mem_toList.mp h, t, _, ht, .inr ⟨j, rfl⟩⟩
    · cases h
  | _ => cases h

theorem Phase.keeps (h : s.Phase) (ev : WebEvent) : s.Keeps ev := by
  intro i hi hopen
  obtain ⟨haddon, t, task, ht, htask⟩ := mem_dropped hi
  obtain ⟨hsingle, -⟩ := h.single ht
  cases h with
  | idle htasks =>
    rw [htasks] at ht
    cases ht
  | sessionClosing htasks =>
    obtain rfl : Task.sessionClosing = task := List.singleton_injective (htasks.symm.trans hsingle)
    obtain ⟨_, _, _, heq⟩ | ⟨_, heq⟩ := htask <;> cases heq
  | closing _ hheld hclosed =>
    obtain rfl := Option.some.inj (hheld.symm.trans haddon)
    rw [hclosed] at hopen
    cases hopen
  | loading _ hnone =>
    rw [hnone] at haddon
    cases haddon
  | loaded _ hnone =>
    rw [hnone] at haddon
    cases haddon

theorem Phase.congr {s' : WebHost} (h : s.Phase) (htasks : s'.tasks = s.tasks)
    (haddon : s'.addonHost = s.addonHost) (hopen : ∀ i, s'.isOpen i = s.isOpen i) : s'.Phase := by
  cases h with
  | idle h => exact .idle (htasks.trans h)
  | sessionClosing h => exact .sessionClosing (htasks.trans h)
  | closing h hi hclosed =>
    exact .closing (htasks.trans h) (haddon.trans hi) ((hopen _).trans hclosed)
  | loading h hnone => exact .loading (htasks.trans h) (haddon.trans hnone)
  | loaded h hnone => exact .loaded (htasks.trans h) (haddon.trans hnone)

theorem callClose_phase (h : s.tasks = []) {i : Nat} (hi : s.addonHost = some i) (caller : Caller) :
    (s.callClose caller i).1.Phase := by
  have hclosed : (s.callClose caller i).1.isOpen i = false := by
    rw [callClose_isOpen]
    simp
  have htasks : (s.callClose caller i).1.tasks = [.closing caller i (s.isOpen i)] :=
    congrArg (· ++ [_]) h
  have hheld : (s.callClose caller i).1.addonHost = some i := by
    unfold callClose hostStep
    dsimp only
    split <;> exact hi
  exact .closing htasks hheld hclosed

theorem startLoad_phase (h : s.tasks = []) (hnone : s.addonHost = none) : s.startLoad.Phase := by
  unfold startLoad
  split
  · exact .loading (congrArg (· ++ [_]) h) hnone
  · exact .idle h

theorem resetAddon_phase (h : s.tasks = []) : s.resetAddon.1.Phase := by
  unfold resetAddon
  split
  · next i hi => exact callClose_phase h hi _
  · exact .idle h

theorem Phase.step (h : s.Phase) (ev : WebEvent) (halone : s.Alone ev) : (s.step ev).1.Phase := by
  cases ev with
  | loadAddonByManifest =>
    dsimp only [WebHost.step]
    unfold loadAddonByManifest
    split
    · next i hi => exact callClose_phase halone hi _
    · next hnone => exact startLoad_phase halone hnone
  | resetForRetry =>
    dsimp only [WebHost.step]
    unfold resetForRetry
    split
    · exact .sessionClosing (congrArg (· ++ [_]) halone)
    · exact resetAddon_phase halone
  | attachSession => exact h.congr rfl rfl fun _ => rfl
  | sessionClosed t =>
    dsimp only [WebHost.step]
    unfold sessionClosed
    split
    · next ht => exact resetAddon_phase (h.single ht).2
    · exact h
  | closeReturned t =>
    dsimp only [WebHost.step]
    unfold closeReturned
    split
    · next caller i own ht =>
      obtain ⟨-, hnil⟩ := h.single ht
      split
      · exact h
      · cases caller with
        | loadAddonByManifest => exact startLoad_phase hnil rfl
        | resetForRetry => exact .idle hnil
    · exact h
  | loadSettled t result =>
    dsimp only [WebHost.step]
    unfold loadSettled
    split
    · next session ht =>
      obtain ⟨hsingle, hnil⟩ := h.single ht
      cases result with
      | none => exact .idle hnil
      | some a =>
        have htasks : s.tasks.eraseIdx t ++ [.loaded s.hosts.length] =
            [.loaded s.hosts.length] := by
          rw [hnil, List.nil_append]
        cases h with
        | loading _ hnone => exact .loaded htasks hnone
        | idle h | sessionClosing h | closing h _ _ | loaded h _ =>
          rw [h] at hsingle
          cases hsingle
    · exact h
  | loadReturned t =>
    dsimp only [WebHost.step]
    unfold loadReturned
    split
    · next i ht => exact .idle (h.single ht).2
    · exact h
  | host i ev =>
    obtain ⟨-, hstep⟩ | ⟨hev, hstep⟩ := s.step_host i ev
    · rw [hstep]
      exact h
    · rw [hstep]
      have hopen := s.hostStep_isOpen i hev
      have hrest : (s.hostStep i ev).1.tasks = s.tasks ∧
          (s.hostStep i ev).1.addonHost = s.addonHost := by
        unfold hostStep
        split <;> exact ⟨rfl, rfl⟩
      exact h.congr hrest.1 hrest.2 hopen

theorem alone_keeps {addonMount : Bool} {events : List WebEvent}
    (h : Machine.Guarded step Alone (opened addonMount) events) :
    Machine.Guarded step Keeps (opened addonMount) events :=
  Machine.Guarded.of_inv (P := Phase) (fun _ ev hs halone => hs.step ev halone)
    (fun _ ev hs _ => hs.keeps ev) (.idle rfl) h

/-! ## Runs -/

/-- In every run that takes no open host out of `addonHost` and registers its hosts' tracks in
order, one add-on is live and the others keep nothing whenever no call waits. The first is needed:
once nothing waits, one add-on is live in no other run. Loads and retries that do not overlap are
enough for it. -/
theorem one_addon_live (addonMount : Bool) (events : List WebEvent) :
    (Machine.Guarded step (fun s ev => s.Keeps ev ∧ s.orderly ev = true) (opened addonMount)
        events →
      Machine.Always step (fun s => s.tasks = [] → s.OneLive ∧ s.Released) (opened addonMount)
        events) ∧
    ((Machine.after step (opened addonMount) events).tasks = [] →
      ((Machine.after step (opened addonMount) events).OneLive ↔
        Machine.Guarded step Keeps (opened addonMount) events)) ∧
    (Machine.Guarded step Alone (opened addonMount) events →
      Machine.Guarded step Keeps (opened addonMount) events) := by
  refine ⟨fun hboth pre hpre hdone => ?_, oneLive_iff_keeps addonMount events, alone_keeps⟩
  obtain ⟨post, rfl⟩ := hpre
  have hpre := (Machine.guarded_append.mp hboth).1
  have hlive : (Machine.after step (opened addonMount) pre).OneLive :=
    (oneLive_iff_keeps addonMount pre hdone).mpr (hpre.mono fun _ _ h => h.1)
  have hkept : ∀ host ∈ (Machine.after step (opened addonMount) pre).hosts, host.books.Kept :=
    Machine.guarded_inv (P := fun s => ∀ host ∈ s.hosts, host.books.Kept)
      (fun _ _ h hC => step_hosts_kept h hC.2) (by simp [opened]) hpre
  exact ⟨hlive, (sound_after addonMount pre).released hdone hlive hkept⟩

/-- An add-on that may use the microphone. -/
def micAddon : AcceptedAddon := ⟨AddonHost.micManifest, js "s", some 0⟩

/-- It is loaded, its track is sent, and it is loaded again. -/
def reloaded : List WebEvent :=
  [.attachSession, .loadAddonByManifest, .loadSettled 0 (some micAddon), .loadReturned 0,
    .host 0 (AddonHost.micMessage (.mediaSendStart .audio)), .host 0 (.captured 0 (.track 1)),
    .host 0 (.trackAdded 0 (.ok 10)), .loadAddonByManifest, .host 0 .closeSenderRemoved,
    .closeReturned 0, .loadSettled 0 (some micAddon), .loadReturned 0]

/-- The page after a run. -/
def run (events : List WebEvent) : WebHost := Machine.after step (opened true) events

theorem reloaded_live : (run reloaded).OneLive ∧ (run reloaded).Released := by
  have hguard : Machine.Guarded step (fun s ev => s.Keeps ev ∧ s.orderly ev = true) (opened true)
      reloaded := by
    unfold Keeps
    decide +kernel
  exact (one_addon_live true reloaded).1 hguard reloaded (List.prefix_refl _) (by decide +kernel)

/-- Two loads before the first has settled. -/
def twoClicks : List WebEvent :=
  [.loadAddonByManifest, .loadAddonByManifest, .loadSettled 0 (some micAddon), .loadReturned 1,
    .loadSettled 0 (some micAddon), .loadReturned 0]

/-- A load that fails, while the add-on before it waits for `addLocalTrack`. -/
def lateTrack : List WebEvent :=
  [.attachSession, .loadAddonByManifest, .loadSettled 0 (some micAddon), .loadReturned 0,
    .host 0 (AddonHost.micMessage (.mediaSendStart .audio)), .host 0 (.captured 0 (.track 1)),
    .loadAddonByManifest, .closeReturned 0, .loadSettled 0 none, .host 0 (.trackAdded 0 (.ok 10))]

/-- Two add-ons are live, of which the page holds one; a closed one keeps its track. -/
theorem twoClicks_leave_two :
    ((run twoClicks).tasks = [] ∧ (run twoClicks).isOpen 0 = true ∧
      (run twoClicks).isOpen 1 = true ∧ ¬(run twoClicks).OneLive) ∧
    (run lateTrack).tasks = [] ∧ (run lateTrack).addonHost = none ∧ ¬(run lateTrack).Released := by
  refine ⟨⟨by decide +kernel, by decide +kernel, by decide +kernel, fun h => ?_⟩,
    by decide +kernel, by decide +kernel, fun h => ?_⟩
  · have hfirst := h.live 0 (by decide +kernel)
    have hsecond : (run twoClicks).addonHost = some 1 := by decide +kernel
    rw [hsecond] at hfirst
    cases hfirst
  · have hkeeps : (run lateTrack).hosts[0]?.any fun host => host.obtained = [(.audio, 1)] ∧
        host.stopped = [] ∧ host.adding = [] ∧ host.removing = [] := by decide +kernel
    obtain ⟨host, hi, hhost⟩ := (Option.any_eq_true _ _).mp hkeeps
    obtain ⟨hobtained, hstopped, hadding, hremoving⟩ := of_decide_eq_true hhost
    have hnone : (run lateTrack).addonHost ≠ some 0 := by decide +kernel
    have hlive : host.Live .audio 1 := ⟨by rw [hobtained]; exact .head _, by simp [hstopped]⟩
    have hwaits := h 0 host hi hnone .audio 1 hlive
    simp [hadding, hremoving] at hwaits

end WebHost

end Senn.Addon
