import Senn.Protocol.Codec
import Senn.Lib.InsMap

/-! # `UrlFragmentSignaling`

Messages wait in an outbox per room until a bundle of them is exported, and an imported
bundle is handed to the room's handlers. The loops of `importBundle` go on turn by turn: the
handlers they call may publish, export, import, subscribe, unsubscribe and close. -/

namespace Senn.UrlFragment
open Senn.Js Senn.Lib Senn.Protocol

/-- Where a call of `importBundle` stands. In `dispatching` it has the rest of
`bundle.messages`, `delivered`, and of the message it is at the handlers yet to be called;
the iterator of the set sees handlers that are added or deleted on the way. -/
inductive ImportStage where
  | decoding (encoded : JsString)
  | dispatching (roomId : JsString) (set : Nat) (messages : List SignalingMessage)
      (delivered : Nat) (turn : Option (SignalingMessage × List Nat))
  | settled

inductive Event where
  | publish (roomId : JsString) (message : Data)
  | subscribe (roomId : JsString) (handler : Nat)
  | unsubscribe (k : Nat)                  -- the function that the `k`-th `subscribe` returned
  | close
  | exportBundle (roomId : JsString)
  | importBundle (encoded : JsString)
  | decoded (k : Nat)                      -- `decodeSignalingBundle` of the `k`-th import settles
  | turn (k : Nat) (throws : Bool)         -- of the loops of an import; a called handler may throw

inductive AdapterError where
  | closed
  | bundle (e : BundleError)

inductive Out where
  | published (roomId : JsString) (result : Except AdapterError Unit)
  | closedError                                                       -- `subscribe` threw
  | exported (roomId : JsString) (result : Except AdapterError JsString)
  | imported (k : Nat) (result : Except AdapterError (JsString × Nat))
  | invoke (k : Nat) (handler : Nat) (message : SignalingMessage)
  | logError

/-- The adapter. `sets` are the handlers of all sets ever made, `handlers` says which one is
a room's now, and `unsubscribes` are the functions `subscribe` returned. -/
structure UrlFragmentSignaling where
  outbox : InsMap JsString (List Data)
  handlers : InsMap JsString Nat
  closed : Bool
  sets : List (List Nat)
  unsubscribes : List (JsString × Nat)
  imports : List ImportStage

namespace ImportStage

/-- A handler is added to a set. -/
def joined (i handler : Nat) : ImportStage → ImportStage
  | .dispatching roomId set messages delivered (some (message, todo)) =>
    if set = i then .dispatching roomId set messages delivered (some (message, todo ++ [handler]))
    else .dispatching roomId set messages delivered (some (message, todo))
  | stage => stage

/-- A handler is deleted from a set. -/
def left (i handler : Nat) : ImportStage → ImportStage
  | .dispatching roomId set messages delivered (some (message, todo)) =>
    if set = i then
      .dispatching roomId set messages delivered (some (message, todo.filter (· ≠ handler)))
    else .dispatching roomId set messages delivered (some (message, todo))
  | stage => stage

end ImportStage

namespace UrlFragmentSignaling

def create : UrlFragmentSignaling := ⟨.empty, .empty, false, [], [], []⟩

def publish (s : UrlFragmentSignaling) (roomId : JsString) (message : Data) :
    UrlFragmentSignaling × List Out :=
  if s.closed then (s, [.published roomId (.error .closed)])
  else
    match s.outbox.get roomId with
    | some list =>
      ({ s with outbox := s.outbox.set roomId (list ++ [message]) }, [.published roomId (.ok ())])
    | none => ({ s with outbox := s.outbox.set roomId [message] }, [.published roomId (.ok ())])

/-- The handlers of a set. -/
def elements (s : UrlFragmentSignaling) (i : Nat) : List Nat := (s.sets[i]?).getD []

/-- `set.add(handler)` -/
def add (s : UrlFragmentSignaling) (i handler : Nat) : UrlFragmentSignaling :=
  if handler ∈ s.elements i then s
  else
    { s with
      sets := s.sets.modify i (· ++ [handler])
      imports := s.imports.map (·.joined i handler) }

/-- `live.delete(handler)` -/
def delete (s : UrlFragmentSignaling) (i handler : Nat) : UrlFragmentSignaling :=
  { s with
    sets := s.sets.modify i (·.filter (· ≠ handler))
    imports := s.imports.map (·.left i handler) }

def subscribe (s : UrlFragmentSignaling) (roomId : JsString) (handler : Nat) :
    UrlFragmentSignaling × List Out :=
  if s.closed then (s, [.closedError])
  else
    let s := { s with unsubscribes := s.unsubscribes ++ [(roomId, handler)] }
    match s.handlers.get roomId with
    | some i => (s.add i handler, [])
    | none =>
      let s := { s with
        handlers := s.handlers.set roomId s.sets.length
        sets := s.sets ++ [[]] }
      (s.add (s.sets.length - 1) handler, [])

/-- A call of the function that the `k`-th `subscribe` returned. -/
def unsubscribe (s : UrlFragmentSignaling) (k : Nat) : UrlFragmentSignaling × List Out :=
  match s.unsubscribes[k]? with
  | none => (s, [])
  | some (roomId, handler) =>
    match s.handlers.get roomId with
    | none => (s, [])
    | some i =>
      let live := s.delete i handler
      if live.elements i = [] then ({ live with handlers := live.handlers.delete roomId }, [])
      else (live, [])

def close (s : UrlFragmentSignaling) : UrlFragmentSignaling × List Out :=
  ({ s with
    closed := true
    outbox := .empty
    handlers := .empty }, [])

def bundleMembers (roomId : JsString) (messages : List Data) : List (JsString × Data) :=
  [(js "v", .num (.ofNat SIGNALING_BUNDLE_VERSION)), (js "roomId", .str roomId),
    (js "messages", .arr messages [])]

/-- The bundle `exportBundle` makes of the messages of an outbox. -/
def bundleOf (roomId : JsString) (messages : List Data) : Data :=
  .obj (bundleMembers roomId messages)

variable (P : Platform)

/-- `exportBundle`, with what its promise settles to. -/
def exportBundle (s : UrlFragmentSignaling) (roomId : JsString) :
    UrlFragmentSignaling × List Out :=
  if s.closed then (s, [.exported roomId (.error .closed)])
  else
    match s.outbox.get roomId with
    | none | some [] => (s, [.exported roomId (.ok [])])
    | some messages =>
      ({ s with outbox := s.outbox.delete roomId },
        [.exported roomId ((encodeSignalingBundle P (bundleOf roomId messages)).mapError .bundle)])

/-- `importBundle` up to its `await`. -/
def importBundle (s : UrlFragmentSignaling) (encoded : JsString) :
    UrlFragmentSignaling × List Out :=
  if s.closed then
    ({ s with imports := s.imports ++ [.settled] }, [.imported s.imports.length (.error .closed)])
  else ({ s with imports := s.imports ++ [.decoding encoded] }, [])

/-- `importBundle` after its `await`, up to the loops. -/
def decoded (s : UrlFragmentSignaling) (k : Nat) : UrlFragmentSignaling × List Out :=
  match s.imports[k]? with
  | some (.decoding encoded) =>
    match decodeSignalingBundle P encoded with
    | .error e =>
      ({ s with imports := s.imports.set k .settled }, [.imported k (.error (.bundle e))])
    | .ok bundle =>
      match s.handlers.get bundle.roomId with
      | some i =>
        if s.elements i = [] then
          ({ s with imports := s.imports.set k .settled }, [.imported k (.ok (bundle.roomId, 0))])
        else
          ({ s with
            imports := s.imports.set k (.dispatching bundle.roomId i bundle.messages 0 none) }, [])
      | none =>
        ({ s with imports := s.imports.set k .settled }, [.imported k (.ok (bundle.roomId, 0))])
  | _ => (s, [])

/-- One turn of the loops of an import: the next handler, the end of the inner loop, the next
message, or the end. -/
def turn (s : UrlFragmentSignaling) (k : Nat) (throws : Bool) : UrlFragmentSignaling × List Out :=
  match s.imports[k]? with
  | some (.dispatching roomId i messages delivered (some (message, handler :: todo))) =>
    ({ s with
      imports := s.imports.set k (.dispatching roomId i messages delivered (some (message, todo))) },
      .invoke k handler message :: if throws then [.logError] else [])
  | some (.dispatching roomId i messages delivered (some (_, []))) =>
    ({ s with imports := s.imports.set k (.dispatching roomId i messages (delivered + 1) none) }, [])
  | some (.dispatching roomId i (message :: messages) delivered none) =>
    ({ s with
      imports := s.imports.set k
        (.dispatching roomId i messages delivered (some (message, s.elements i))) }, [])
  | some (.dispatching roomId _ [] delivered none) =>
    ({ s with imports := s.imports.set k .settled }, [.imported k (.ok (roomId, delivered))])
  | _ => (s, [])

def step (s : UrlFragmentSignaling) : Event → UrlFragmentSignaling × List Out
  | .publish roomId message => s.publish roomId message
  | .subscribe roomId handler => s.subscribe roomId handler
  | .unsubscribe k => s.unsubscribe k
  | .close => s.close
  | .exportBundle roomId => s.exportBundle P roomId
  | .importBundle encoded => s.importBundle encoded
  | .decoded k => s.decoded P k
  | .turn k throws => s.turn k throws

end UrlFragmentSignaling

end Senn.UrlFragment
