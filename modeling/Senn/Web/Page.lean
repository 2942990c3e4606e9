import Senn.Lib.Family
import Senn.UrlFragment.Delivery
import Senn.Web.Links

/-! # The web page

Its room, its session and the links it composes and consumes. A function that awaits goes on in a
later step; in between the page may be clicked again. A session is what the page sees of it: it is
subscribed in its room when it starts, publishes there, and leaves at some time. -/

namespace Senn.Web
open Senn.Js Senn.Lib Senn.Protocol Senn.Invite
open Senn.Session (PeerSessionRole)
open Senn.UrlFragment (AdapterError ComposeError UrlFragmentSignaling)
open Senn.UrlFragment.UrlFragmentSignaling (exportUrl)

/-- A session that was attached, with what its constructor got. -/
structure Attached where
  role : PeerSessionRole
  roomId : JsString
  remotePeerId : Option JsString
deriving DecidableEq

/-- Where a function that awaits stands. -/
inductive Call where
  | exporting (roomId : JsString) (result : Except AdapterError JsString)   -- `composeExportUrl`
  | parsing (href : JsString)                                               -- `consumeUrl`
  | joined (href : JsString) (bundle : Bool)                                -- `consumeUrl`
  | closingSession                                                          -- `resetForRetry`
  | closingAddon                                                            -- `resetForRetry`
  | settled

/-- `resumed` has what the rest of the function may read: an id of `newRoomId`, and whether an
add-on is loaded. -/
inductive Event where
  | createRoom (id : JsString)
  | retry (id : JsString) (addonHost : Bool)
  | composeExportUrl
  | consumeUrl (href : JsString)
  | resumed (k : Nat) (id : JsString) (addonHost : Bool)
  | published (k : Nat) (message : Data)                 -- by session `k`
  | left (k : Nat)                                       -- `signalingUnsub` of session `k`
  | decoded (k : Nat)                                    -- in `importBundle`
  | turn (k : Nat) (throws : Bool)                       -- in `importBundle`

/-- What a function rejects with. -/
inductive PageError where
  | compose (e : ComposeError)
  | invite (e : InviteUrlError)
  | bundle (e : BundleError)

inductive Out where
  | link (roomId url : JsString)
  | failed (e : PageError)
  | transport (ev : UrlFragment.Event) (outs : List UrlFragment.Out)

/-- The variables of the page; `location` is its origin and its path. -/
structure WebPage where
  me : JsString
  location : JsString
  transport : UrlFragmentSignaling
  room : Option JsString
  remotePeer : Option JsString
  session : Option Nat                 -- among `sessions`
  sessions : List Attached             -- all that were made
  calls : List Call

namespace WebPage

def load (me location : JsString) : WebPage :=
  ⟨me, location, .create, none, none, none, [], []⟩

/-- `room`, where it is truthy. -/
def inRoom (s : WebPage) : Option JsString := s.room.filter (· ≠ [])

/-- The page as `composeExportUrl` sees it. -/
def toPage (s : WebPage) : UrlFragment.Page where
  me := s.me
  remotePeer := s.remotePeer
  sessionRole := (s.session.bind (s.sessions[·]?)).map Attached.role
  base := s.location

variable (parse : UrlParser) (P : Platform) (reason : JsString)

/-- The page calls its transport, or a promise of it goes on. -/
def call (s : WebPage) (ev : UrlFragment.Event) : WebPage × List Out :=
  let r := s.transport.step P ev
  ({ s with transport := r.1 }, [.transport ev r.2])

/-- `attachSession`, and `start` of the session. -/
def attach (s : WebPage) (a : Attached) : WebPage × List Out :=
  { s with
    session := some s.sessions.length
    sessions := s.sessions ++ [a] }.call P (.subscribe a.roomId s.sessions.length)

def startInviter (s : WebPage) (id : JsString) : WebPage × List Out :=
  match s.inRoom with
  | some _ => (s, [])
  | none => { s with room := some id }.attach P ⟨.inviter, id, none⟩

def startJoiner (s : WebPage) (invite : InvitePayload) : WebPage × List Out :=
  match s.inRoom with
  | some _ => (s, [])   -- logged, where it is another room
  | none =>
    { s with room := some invite.roomId, remotePeer := some invite.from_ }.attach P
      ⟨.joiner, invite.roomId, some invite.from_⟩

/-- The end of `resetForRetry`. -/
def reset (s : WebPage) (id : JsString) : WebPage × List Out :=
  { s with room := none, remotePeer := none }.startInviter P id

def await (s : WebPage) (c : Call) : WebPage := { s with calls := s.calls ++ [c] }

def settle (s : WebPage) (k : Nat) (c : Call) : WebPage := { s with calls := s.calls.set k c }

def resetForRetry (s : WebPage) (id : JsString) (addonHost : Bool) : WebPage × List Out :=
  match s.session with
  | some _ => (s.await .closingSession, [])
  | none => if addonHost then (s.await .closingAddon, []) else s.reset P id

/-- `composeExportUrl` up to its first `await`. -/
def composeExportUrl (s : WebPage) : WebPage × List Out :=
  match s.inRoom with
  | none => (s, [])
  | some roomId =>
    (s.await (.exporting roomId (s.transport.exportResult P roomId))).call P (.exportBundle roomId)

/-- The rest of `composeExportUrl`; an empty outbox makes no link. -/
def exported (s : WebPage) (roomId : JsString) : Except AdapterError JsString → List Out
  | .error e => [.failed (.compose (.adapter e))]
  | .ok [] => []
  | .ok encoded =>
    match exportUrl parse P s.toPage roomId encoded with
    | .error e => [.failed (.compose e)]
    | .ok url => [.link roomId url]

/-- `consumeUrl` up to its first `await`. -/
def consumeUrl (s : WebPage) (href : JsString) : WebPage × List Out :=
  if looksLikeInvite href then (s.await (.parsing href), [])
  else
    match extractBundleFromUrl parse reason href with
    | .error e => (s, [.failed (.bundle e)])
    | .ok encoded =>
      match s.inRoom with
      | none => (s, [])
      | some _ => s.call P (.importBundle (encoded.getD href))

/-- The rest of `consumeUrl`, once the page joined. -/
def joined (s : WebPage) (href : JsString) (bundle : Bool) : WebPage × List Out :=
  if bundle then
    match extractBundleFromUrl parse reason href with
    | .error e => (s, [.failed (.bundle e)])
    | .ok none | .ok (some []) => (s, [])
    | .ok (some encoded) => s.call P (.importBundle encoded)
  else (s, [])

/-- What the `k`-th call awaits has settled. -/
def resumed (s : WebPage) (k : Nat) (id : JsString) (addonHost : Bool) : WebPage × List Out :=
  match s.calls[k]? with
  | some (.exporting roomId result) => (s.settle k .settled, s.exported parse P roomId result)
  | some (.parsing href) =>
    match parseInviteBundleUrl parse P href with
    | .error e => (s.settle k .settled, [.failed (.invite e)])
    | .ok parsed => (s.settle k (.joined href parsed.bundle.isSome)).startJoiner P parsed.invite
  | some (.joined href bundle) => (s.settle k .settled).joined parse P reason href bundle
  | some .closingSession =>
    if addonHost then ({ s.settle k .closingAddon with session := none }, [])
    else { s.settle k .settled with session := none }.reset P id
  | some .closingAddon => (s.settle k .settled).reset P id
  | some .settled | none => (s, [])

def step (s : WebPage) : Event → WebPage × List Out
  | .createRoom id => s.startInviter P id
  | .retry id addonHost => s.resetForRetry P id addonHost
  | .composeExportUrl => s.composeExportUrl P
  | .consumeUrl href => s.consumeUrl parse P reason href
  | .resumed k id addonHost => s.resumed parse P reason k id addonHost
  | .published k message =>
    match s.sessions[k]? with
    | some a => s.call P (.publish a.roomId message)
    | none => (s, [])
  | .left k => s.call P (.unsubscribe k)
  | .decoded k => s.call P (.decoded k)
  | .turn k throws => s.call P (.turn k throws)

/-! ## What a step can do -/

/-- Where a call that waits for the page's own functions comes from. -/
def Traced (s : WebPage) (ev : Event) : Call → Prop
  | .exporting roomId result => .exporting roomId result ∈ s.calls
  | .parsing href =>
    .parsing href ∈ s.calls ∨ ev = .consumeUrl href ∧ looksLikeInvite href = true
  | .joined href bundle => .joined href bundle ∈ s.calls ∨ .parsing href ∈ s.calls
  | _ => True

/-- The link whose bundle is imported. -/
def Imports (s : WebPage) (ev : Event) (href : JsString) : Prop :=
  ev = .consumeUrl href ∧ looksLikeInvite href = false ∨ ∃ bundle, .joined href bundle ∈ s.calls

/-- What a session is made for. -/
inductive Attaches (s : WebPage) : Event → Attached → Prop
  | created {id : JsString} : Attaches s (.createRoom id) ⟨.inviter, id, none⟩
  | again {id : JsString} {addonHost : Bool} : Attaches s (.retry id addonHost) ⟨.inviter, id, none⟩
  | later {k : Nat} {id : JsString} {addonHost : Bool} :
      Attaches s (.resumed k id addonHost) ⟨.inviter, id, none⟩
  | joined {k : Nat} {id href : JsString} {addonHost : Bool} {parsed : ParsedInviteBundle} :
      .parsing href ∈ s.calls → parseInviteBundleUrl parse P href = .ok parsed →
      Attaches s (.resumed k id addonHost)
        ⟨.joiner, parsed.invite.roomId, some parsed.invite.from_⟩

/-- The calls a page passes on to its transport. -/
inductive Passes (s : WebPage) : Event → UrlFragment.Event → Prop
  | published {k : Nat} {message : Data} {a : Attached} : s.sessions[k]? = some a →
      Passes s (.published k message) (.publish a.roomId message)
  | left (k : Nat) : Passes s (.left k) (.unsubscribe k)
  | decoded (k : Nat) : Passes s (.decoded k) (.decoded k)
  | turn (k : Nat) (throws : Bool) : Passes s (.turn k throws) (.turn k throws)

inductive Moves (s : WebPage) (ev : Event) : WebPage × List Out → Prop
  | quiet {session : Option Nat} {calls : List Call} {outs : List Out} :
      (∀ c ∈ calls, s.Traced ev c) → (∀ o ∈ outs, ∃ e, o = .failed e) →
      Moves s ev ({ s with session, calls }, outs)
  | linked {k : Nat} {roomId encoded url : JsString} {calls : List Call} :
      (∀ c ∈ calls, s.Traced ev c) → s.calls[k]? = some (.exporting roomId (.ok encoded)) →
      encoded ≠ [] → exportUrl parse P s.toPage roomId encoded = .ok url →
      Moves s ev ({ s with calls }, [.link roomId url])
  | attached {a : Attached} {remotePeer : Option JsString} {calls : List Call} :
      (∀ c ∈ calls, s.Traced ev c) → Attaches parse P s ev a →
      Moves s ev
        ({ s with room := some a.roomId, remotePeer, calls }.attach P a)
  | exporting {roomId : JsString} : s.inRoom = some roomId →
      Moves s ev ((s.await (.exporting roomId (s.transport.exportResult P roomId))).call P
        (.exportBundle roomId))
  | importing {href encoded : JsString} {calls : List Call} :
      (∀ c ∈ calls, s.Traced ev c) → s.Imports ev href →
      (extractBundleFromUrl parse reason href = .ok (some encoded) ∨
        extractBundleFromUrl parse reason href = .ok none ∧ encoded = href) →
      Moves s ev ({ s with calls }.call P (.importBundle encoded))
  | passed {ev' : UrlFragment.Event} : s.Passes ev ev' → Moves s ev (s.call P ev')

section
variable {parse P reason} {s : WebPage} {ev : Event}

theorem traced_calls : ∀ c ∈ s.calls, s.Traced ev c := by
  intro c hc
  cases c with
  | exporting roomId result => exact hc
  | parsing href => exact .inl hc
  | joined href bundle => exact .inl hc
  | _ => trivial

theorem traced_set {k : Nat} {d : Call} (hd : s.Traced ev d) :
    ∀ c ∈ s.calls.set k d, s.Traced ev c := by
  intro c hc
  obtain hc | rfl := List.mem_or_eq_of_mem_set hc
  · exact traced_calls c hc
  · exact hd

theorem traced_await {d : Call} (hd : s.Traced ev d) : ∀ c ∈ s.calls ++ [d], s.Traced ev c := by
  intro c hc
  obtain hc | hc := List.mem_append.mp hc
  · exact traced_calls c hc
  · exact List.mem_singleton.mp hc ▸ hd

theorem startInviter_moves {calls : List Call} {id : JsString} (hcalls : ∀ c ∈ calls, s.Traced ev c)
    (ha : Attaches parse P s ev ⟨.inviter, id, none⟩) {session : Option Nat} :
    Moves parse P reason s ev ({ s with calls, session }.startInviter P id) ∧
      Moves parse P reason s ev ({ s with calls, session }.reset P id) := by
  refine ⟨?_, .attached hcalls ha⟩
  unfold startInviter
  split
  · exact .quiet hcalls (by simp)
  · exact .attached hcalls ha

theorem resumed_moves (k : Nat) (id : JsString) (addonHost : Bool) :
    Moves parse P reason s (.resumed k id addonHost)
      (s.resumed parse P reason k id addonHost) := by
  have hsettle : ∀ c ∈ s.calls.set k .settled, s.Traced (.resumed k id addonHost) c :=
    traced_set trivial
  unfold resumed
  split
  · next roomId result hk =>
    unfold exported
    split
    · exact .quiet hsettle (by simp)
    · exact .quiet hsettle (by simp)
    · next encoded hne =>
      split
      · exact .quiet hsettle (by simp)
      · next url hurl => exact .linked hsettle hk (fun h => hne h) hurl
  · next href hk =>
    have hmem := List.mem_of_getElem? hk
    split
    · exact .quiet hsettle (by simp)
    · next parsed hparsed =>
      have hcalls : ∀ c ∈ s.calls.set k (.joined href parsed.bundle.isSome),
          s.Traced (.resumed k id addonHost) c := traced_set (.inr hmem)
      unfold startJoiner
      split
      · exact .quiet hcalls (by simp)
      · exact .attached hcalls (.joined hmem hparsed)
  · next href bundle hk =>
    have himports : s.Imports (.resumed k id addonHost) href :=
      .inr ⟨bundle, List.mem_of_getElem? hk⟩
    unfold joined
    split
    · split
      · exact .quiet hsettle (by simp)
      · exact .quiet hsettle (by simp)
      · exact .quiet hsettle (by simp)
      · next hencoded => exact .importing hsettle himports (.inl hencoded)
    · exact .quiet hsettle (by simp)
  · split
    · exact .quiet (traced_set trivial) (by simp)
    · exact (startInviter_moves hsettle .later).2
  · exact (startInviter_moves hsettle .later).2
  · exact .quiet traced_calls (by simp)
  · exact .quiet traced_calls (by simp)

variable (parse P reason) in
theorem step_moves (s : WebPage) (ev : Event) :
    Moves parse P reason s ev (s.step parse P reason ev) := by
  cases ev with
  | createRoom id => exact (startInviter_moves traced_calls .created).1
  | retry id addonHost =>
    simp only [step, resetForRetry]
    split
    · exact .quiet (traced_await trivial) (by simp)
    · split
      · exact .quiet (traced_await trivial) (by simp)
      · exact (startInviter_moves traced_calls .again).2
  | composeExportUrl =>
    simp only [step, composeExportUrl]
    split
    · exact .quiet traced_calls (by simp)
    · next roomId hroom => exact .exporting hroom
  | consumeUrl href =>
    simp only [step, consumeUrl]
    split
    · next hform => exact .quiet (traced_await (.inr ⟨rfl, hform⟩)) (by simp)
    · next hform =>
      split
      · exact .quiet traced_calls (by simp)
      · next encoded hencoded =>
        split
        · exact .quiet traced_calls (by simp)
        · refine .importing traced_calls (.inl ⟨rfl, Bool.eq_false_iff.mpr hform⟩) ?_
          cases encoded with
          | none => exact .inr ⟨hencoded, rfl⟩
          | some encoded => exact .inl hencoded
  | resumed k id addonHost => exact resumed_moves k id addonHost
  | published k message =>
    simp only [step]
    split
    · next a ha => exact .passed (.published ha)
    · exact .quiet traced_calls (by simp)
  | left k => exact .passed (.left k)
  | decoded k => exact .passed (.decoded k)
  | turn k throws => exact .passed (.turn k throws)

end

end WebPage

end Senn.Web
