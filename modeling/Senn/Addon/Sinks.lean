import Senn.Addon.Lifecycle

/-! # The sinks of remote tracks

A host attaches each remote track of a kind it receives to a sink and keeps the function
that detaches it. Every attached sink is accounted for: its detach function was called
once, or the host keeps it and has yet to call it. A track that ends is the exception: its
listener drops the entry of the kind, whichever sink that is, and calls nothing. -/

namespace Senn.Addon
open Senn.Js Senn.Lib Senn.Protocol

/-- The sink of a track, with its detach function. -/
structure Sink where
  kind : MediaKind
  track : Nat
  detacher : Nat
deriving DecidableEq

/-- Its entry in the table of a host. -/
def Sink.entry (x : Sink) : MediaKind × Nat := (x.kind, x.detacher)

def Out.isAttach : Out → Bool
  | .attach _ _ => true
  | _ => false

def Out.detach? : Out → Option Nat
  | .detach detacher => some detacher
  | _ => none

/-- The detach functions called. -/
def detaches (outs : List Out) : List Nat := outs.filterMap Out.detach?

@[simp] theorem detaches_nil : detaches [] = [] := rfl

@[simp] theorem detaches_append (outs outs' : List Out) :
    detaches (outs ++ outs') = detaches outs ++ detaches outs' := List.filterMap_append

theorem detaches_eq_nil {outs : List Out} (h : ∀ o ∈ outs, o.detach? = none) :
    detaches outs = [] := List.filterMap_eq_nil_iff.mpr h

theorem Out.Minor.not_detach {o : Out} (h : o.Minor) : o.detach? = none := by
  cases o with
  | detach d => exact h.elim
  | _ => rfl

namespace AddonHost

/-- The sinks a step attaches. -/
def attached (s : AddonHost) (ev : Event) : List Sink :=
  match ev with
  | .remoteTrack kind track (.ok detacher) =>
    if (s.step ev).2.any Out.isAttach then [⟨kind, track, detacher⟩] else []
  | _ => []

/-- No track that was attached as a kind ends while a sink of the kind is attached. -/
def Attended (s : AddonHost) : Event → Prop
  | .trackEnded track =>
    ∀ l ∈ s.endedListeners, l.1 = track → s.mediaSinkDetachers.get l.2 = none
  | _ => True

instance Attended.decidable (s : AddonHost) : ∀ ev, Decidable (s.Attended ev)
  | .trackEnded track => inferInstanceAs (Decidable (∀ l ∈ s.endedListeners, l.1 = track →
      s.mediaSinkDetachers.get l.2 = none))
  | .iframeLoad | .contentWindow _ | .message _ _ _ | .sessionText _ | .sessionBinary _ _ _
  | .remoteTrack _ _ _ | .deliver _ _ | .deliverBinary _ _ _ | .publishAudioLevel _ | .close
  | .captured _ _ | .trackAdded _ _ | .senderRemoved _ _ | .closeSenderRemoved
  | .storageSettled _ _ | .sendTextRejected _ | .sendBinaryRejected _ =>
    inferInstanceAs (Decidable True)

/-- A replacement, the end of a track, an unsubscribe or `close`. -/
def Releases (s : AddonHost) : Event → Prop
  | .remoteTrack _ _ _ | .trackEnded _ | .close | .closeSenderRemoved => True
  | .message source data now =>
    ∃ kind, s.heard (.message source data now) = some (.mediaReceiveUnsubscribe kind)
  | _ => False

/-- Sinks stay as they are, and no detach function is called. -/
structure Kept (s : AddonHost) (r : AddonHost × List Out) : Prop where
  sinks : r.1.mediaSinkDetachers = s.mediaSinkDetachers
  listeners : r.1.endedListeners = s.endedListeners
  silent : detaches r.2 = []

/-- What a step does to the sinks, with the ones it attaches. -/
inductive SinkMove (s : AddonHost) : List Sink → AddonHost × List Out → Prop
  | kept {r : AddonHost × List Out} : Kept s r → SinkMove s [] r
  | attached {r : AddonHost × List Out} {kind : MediaKind} {track detacher : Nat} :
    r.1.mediaSinkDetachers = s.mediaSinkDetachers.set kind detacher →
    r.1.endedListeners = s.endedListeners ++ [(track, kind)] →
    detaches r.2 = (s.mediaSinkDetachers.get kind).toList →
    SinkMove s [⟨kind, track, detacher⟩] r
  | unsubscribed {r : AddonHost × List Out} {kind : MediaKind} :
    r.1.mediaSinkDetachers = s.mediaSinkDetachers.delete kind →
    r.1.endedListeners = s.endedListeners →
    detaches r.2 = (s.mediaSinkDetachers.get kind).toList → SinkMove s [] r
  | cleared {r : AddonHost × List Out} :
    r.1.mediaSinkDetachers = .empty → r.1.endedListeners = s.endedListeners →
    detaches r.2 = s.mediaSinkDetachers.entries.map Prod.snd → SinkMove s [] r

variable {s : AddonHost}

/-! ## The handlers -/

theorem Kept.refl (s : AddonHost) : Kept s (s, []) := ⟨rfl, rfl, rfl⟩

theorem Kept.of_vitals {r : AddonHost × List Out} (hv : r.1.vitals = s.vitals)
    (hsilent : detaches r.2 = []) : Kept s r :=
  ⟨congrArg Vitals.mediaSinkDetachers hv, congrArg Vitals.endedListeners hv, hsilent⟩

theorem Plain.kept {r : AddonHost × List Out} (h : Plain s r) : Kept s r :=
  .of_vitals h.vitals (detaches_eq_nil fun o ho => (h.minor o ho).not_detach)

@[simp] theorem detaches_post (s : AddonHost) (msg : BridgePost) :
    detaches (s.postToIframe msg) = [] := by
  unfold postToIframe
  split <;> rfl

theorem setState_kept (s : AddonHost) (next : AddonHostState) : Kept s (s.setState next) := by
  unfold setState
  split
  · exact .refl s
  · exact ⟨rfl, rfl, rfl⟩

theorem onIframeLoad_kept (s : AddonHost) : Kept s s.onIframeLoad := by
  unfold onIframeLoad
  split
  · exact .refl s
  · obtain ⟨hsinks, hlisteners, hsilent⟩ := setState_kept s .initialized
    exact ⟨hsinks, hlisteners, by simp [hsilent]⟩

theorem handleReady_kept (s : AddonHost) : Kept s s.handleReady := by
  have hinit : Kept s s.ensureInitPosted := by
    unfold ensureInitPosted
    split
    · obtain ⟨hsinks, hlisteners, hsilent⟩ := setState_kept s .initialized
      exact ⟨hsinks, hlisteners, by simp [hsilent]⟩
    · exact .refl s
  unfold handleReady
  dsimp only
  split
  · obtain ⟨hsinks, hlisteners, hsilent⟩ := setState_kept s.ensureInitPosted.1 .active
    exact ⟨hsinks.trans hinit.sinks, hlisteners.trans hinit.listeners,
      by simp [hsilent, hinit.silent]⟩
  · exact hinit

theorem handleMediaReceiveSubscribe_kept (s : AddonHost) (kind : MediaKind) :
    Kept s (s.handleMediaReceiveSubscribe kind) := by
  unfold handleMediaReceiveSubscribe
  split
  · exact ⟨rfl, rfl, detaches_post ..⟩
  · split
    · exact ⟨rfl, rfl, detaches_post ..⟩
    · cases kind <;> exact ⟨rfl, rfl, rfl⟩

theorem handleStorage_kept (s : AddonHost) (rid op key value : Data) :
    Kept s (s.handleStorage rid op key value) := by
  unfold handleStorage
  split
  · exact .refl s
  · dsimp only
    split
    · exact .refl s
    repeat' split
    all_goals first | exact ⟨rfl, rfl, detaches_post ..⟩ | exact ⟨rfl, rfl, rfl⟩

theorem storageSettled_kept (s : AddonHost) (i : Nat) (outcome : StorageOutcome) :
    Kept s (s.storageSettled i outcome) := by
  unfold storageSettled
  split
  · exact .refl s
  · cases outcome with
    | ok value => exact ⟨rfl, rfl, detaches_post ..⟩
    | storageError code => exact ⟨rfl, rfl, detaches_post ..⟩
    | failed message =>
      refine ⟨rfl, rfl, ?_⟩
      simp only [detaches_append, storageError, detaches_post]
      rfl

theorem Delivers.kept {outs : List Out} (h : Delivers s outs) : Kept s (s, outs) := by
  refine ⟨rfl, rfl, detaches_eq_nil fun o ho => ?_⟩
  rcases h.all o ho with hminor | ⟨hdelivery, _⟩
  · exact hminor.not_detach
  · cases o with
    | detach d => exact hdelivery.elim
    | _ => rfl

theorem handleOp_kept (s : AddonHost) (msg : Data) (now : Nat) {op : BridgeOp}
    (h : ∀ kind, op ≠ .mediaReceiveUnsubscribe kind) : Kept s (s.handleOp msg now op) := by
  by_cases hminor : Minor op
  · exact (handleOp_plain s msg now hminor).kept
  · cases op with
    | ready => exact handleReady_kept s
    | mediaReceiveSubscribe kind => exact handleMediaReceiveSubscribe_kept s kind
    | mediaReceiveUnsubscribe kind => exact absurd rfl (h kind)
    | storage => exact handleStorage_kept ..
    | _ => exact absurd trivial hminor

/-- What does not release a sink keeps them all. -/
theorem step_keepsSinks {ev : Event} (h : ¬s.Releases ev) : Kept s (s.step ev) := by
  by_cases hdelivery : OnDelivery ev
  · obtain ⟨hsame, hdelivers⟩ := step_delivers (s := s) hdelivery
    have hstep : s.step ev = (s, (s.step ev).2) := Prod.ext hsame rfl
    rw [hstep]
    exact hdelivers.kept
  · cases ev with
    | iframeLoad => exact onIframeLoad_kept s
    | contentWindow window => exact ⟨rfl, rfl, rfl⟩
    | message source data now =>
      cases hop : s.heard (.message source data now) with
      | none => exact step_unheard s hop ▸ .refl s
      | some op =>
        rw [step_heard s hop]
        refine handleOp_kept s data now fun kind hkind => h ⟨kind, ?_⟩
        rw [hop, hkind]
    | captured i result => exact (captured_plain s i result).kept
    | trackAdded i result => exact (trackAdded_plain s i result).kept
    | senderRemoved i error => exact (senderRemoved_plain s i error).kept
    | storageSettled i outcome => exact storageSettled_kept s i outcome
    | sendTextRejected message =>
      have hplain : s.Routine (.sendTextRejected message) := trivial
      exact (s.step_plain hplain).kept
    | sendBinaryRejected message =>
      have hplain : s.Routine (.sendBinaryRejected message) := trivial
      exact (s.step_plain hplain).kept
    | remoteTrack kind track result => exact absurd trivial h
    | trackEnded track => exact absurd trivial h
    | close => exact absurd trivial h
    | closeSenderRemoved => exact absurd trivial h
    | _ => exact absurd trivial hdelivery

theorem remoteTrack_move (s : AddonHost) (kind : MediaKind) (track : Nat)
    (result : Except JsString Nat) :
    SinkMove s (s.attached (.remoteTrack kind track result))
      (s.step (.remoteTrack kind track result)) := by
  have hstep : s.step (.remoteTrack kind track result) =
      if s.bound then s.handleRemoteTrack kind track result else (s, []) := rfl
  cases result with
  | error message =>
    refine .kept ?_
    rw [hstep, handleRemoteTrack]
    repeat' split
    all_goals exact ⟨rfl, rfl, rfl⟩
  | ok detacher =>
    rw [attached, hstep, handleRemoteTrack]
    split
    · split
      · exact .kept (.refl s)
      · refine .attached rfl rfl ?_
        show detaches ([.attach kind track] ++ ((s.mediaSinkDetachers.get kind).map
          Out.detach).toList ++ s.postToIframe (.mediaTrack .remote kind true)) = _
        rw [detaches_append, detaches_append, detaches_post, List.append_nil]
        cases s.mediaSinkDetachers.get kind <;> rfl
    · exact .kept (.refl s)

theorem unsubscribe_move (s : AddonHost) (kind : MediaKind) :
    SinkMove s [] (s.handleMediaReceiveUnsubscribe kind) := by
  have hsinks : (s.setReceive kind false).mediaSinkDetachers = s.mediaSinkDetachers := by
    cases kind <;> rfl
  have hlisteners : (s.setReceive kind false).endedListeners = s.endedListeners := by
    cases kind <;> rfl
  unfold handleMediaReceiveUnsubscribe
  dsimp only
  rw [hsinks]
  split
  · exact .kept ⟨hsinks, hlisteners, rfl⟩
  · next detach hget =>
    refine @SinkMove.unsubscribed s _ kind rfl hlisteners ?_
    rw [hget]
    rfl

theorem trackEnded_kept {track : Nat} (h : s.Attended (.trackEnded track)) :
    Kept s (s.trackEnded track) := by
  unfold trackEnded
  have hnone : ∀ l ∈ s.endedListeners.filter (·.1 = track),
      s.mediaSinkDetachers.get l.2 = none := by
    intro l hl
    obtain ⟨hmem, htrack⟩ := List.mem_filter.mp hl
    exact h l hmem (of_decide_eq_true htrack)
  refine List.foldlRecOn (motive := fun (r : AddonHost × List Out) => Kept s r) _ _ (.refl s)
    fun r hr l hl => ?_
  refine ⟨?_, hr.listeners, ?_⟩
  · have hget := hnone l hl
    rw [← hr.sinks] at hget
    exact (InsMap.delete_of_none hget).trans hr.sinks
  · simp [hr.silent, remoteTrackEnded]

theorem closeFrom_move (s : AddonHost) (n : Nat) : SinkMove s [] (s.closeFrom n) := by
  unfold closeFrom
  split
  · exact .kept ⟨rfl, rfl, rfl⟩
  · refine .cleared rfl rfl ?_
    simp only [closeRest, detaches]
    induction s.mediaSinkDetachers.entries with
    | nil => rfl
    | cons e es ih => simpa [Out.detach?] using ih

/-- A move of a host with other fields, and after outputs that detach nothing. -/
theorem SinkMove.transfer {s' : AddonHost} {new : List Sink} {r : AddonHost × List Out}
    {outs : List Out} (h : SinkMove s' new r) (hsinks : s'.mediaSinkDetachers = s.mediaSinkDetachers)
    (hlisteners : s'.endedListeners = s.endedListeners) (houts : detaches outs = []) :
    SinkMove s new (r.1, outs ++ r.2) := by
  have hdetaches : detaches (outs ++ r.2) = detaches r.2 := by simp [houts]
  cases h with
  | kept hkept =>
    exact .kept ⟨hkept.sinks.trans hsinks, hkept.listeners.trans hlisteners,
      hdetaches.trans hkept.silent⟩
  | attached hset hlist hout =>
    exact .attached (hset.trans (by rw [hsinks])) (hlist.trans (by rw [hlisteners]))
      (hdetaches.trans (hout.trans (by rw [hsinks])))
  | unsubscribed hdelete hlist hout =>
    exact .unsubscribed (hdelete.trans (by rw [hsinks])) (hlist.trans hlisteners)
      (hdetaches.trans (hout.trans (by rw [hsinks])))
  | cleared hempty hlist hout =>
    exact .cleared hempty (hlist.trans hlisteners) (hdetaches.trans (hout.trans (by rw [hsinks])))

theorem close_move (s : AddonHost) : SinkMove s [] s.close := by
  unfold close
  split
  · exact .kept (.refl s)
  · obtain ⟨hsinks, hlisteners, hsilent⟩ := setState_kept s .closed
    exact (closeFrom_move _ 0).transfer hsinks hlisteners hsilent

theorem closeSenderRemoved_move (s : AddonHost) : SinkMove s [] s.closeSenderRemoved := by
  unfold closeSenderRemoved
  split
  · exact .kept (.refl s)
  · next n sender _ =>
    have hloop := closeFrom_move { s with stopped := sender.track :: s.stopped } (n + 1)
    have hstop : detaches [.stopTrack sender.track] = [] := rfl
    exact hloop.transfer (s := s) rfl rfl hstop

theorem step_move {ev : Event} (h : s.Attended ev) : SinkMove s (s.attached ev) (s.step ev) := by
  cases ev with
  | remoteTrack kind track result => exact remoteTrack_move s kind track result
  | trackEnded track => exact .kept (trackEnded_kept h)
  | close => exact close_move s
  | closeSenderRemoved => exact closeSenderRemoved_move s
  | message source data now =>
    by_cases hunsubscribe : s.Releases (.message source data now)
    · obtain ⟨kind, hop⟩ := hunsubscribe
      exact step_heard s hop ▸ unsubscribe_move s kind
    · exact .kept (step_keepsSinks hunsubscribe)
  | _ => exact .kept (step_keepsSinks fun hreleases => hreleases.elim)

/-! ## Accounting -/

/-- The sinks that the table of a host stands for. -/
structure Keeps (s : AddonHost) (held : List Sink) : Prop where
  table : (held.map Sink.entry).Perm s.mediaSinkDetachers.entries
  listened : ∀ x ∈ held, (x.track, x.kind) ∈ s.endedListeners

theorem Keeps.released {held : List Sink} (h : Keeps s held) (kind : MediaKind) :
    ((held.filter fun x => x.kind = kind).map Sink.detacher).Perm
      (s.mediaSinkDetachers.get kind).toList := by
  have hentries : ((held.filter fun x => x.kind = kind).map Sink.entry).Perm
      ((s.mediaSinkDetachers.get kind).map (kind, ·)).toList := by
    have hfilter := h.table.filter fun e => e.1 = kind
    rw [List.filter_map] at hfilter
    exact hfilter.trans (s.mediaSinkDetachers.filter_key_perm kind)
  have hsnd := hentries.map Prod.snd
  rw [List.map_map] at hsnd
  refine hsnd.trans (.of_eq ?_)
  cases s.mediaSinkDetachers.get kind <;> rfl

theorem Keeps.rest {held : List Sink} (h : Keeps s held) (kind : MediaKind) :
    ((held.filter fun x => !decide (x.kind = kind)).map Sink.entry).Perm
      (s.mediaSinkDetachers.delete kind).entries := by
  have hfilter := h.table.filter fun e => !decide (e.1 = kind)
  rw [List.filter_map] at hfilter
  refine hfilter.trans (.of_eq ?_)
  simp only [InsMap.delete, decide_not]

/-- What a move attaches is kept with the rest, or its detach function was called. -/
theorem SinkMove.accounts {new : List Sink} {r : AddonHost × List Out} (h : SinkMove s new r)
    {held : List Sink} (hheld : Keeps s held) : ∃ released held',
      (new ++ held).Perm (released ++ held') ∧
      (released.map Sink.detacher).Perm (detaches r.2) ∧ Keeps r.1 held' := by
  have hsplit : ∀ kind, held.Perm ((held.filter fun x => x.kind = kind) ++
      held.filter fun x => !decide (x.kind = kind)) :=
    fun kind => (List.filter_append_perm (fun x => decide (x.kind = kind)) held).symm
  cases h with
  | kept hkept =>
    refine ⟨[], held, .refl _, .of_eq hkept.silent.symm, ?_, ?_⟩
    · rw [hkept.sinks]
      exact hheld.table
    · rw [hkept.listeners]
      exact hheld.listened
  | @attached r kind track detacher hset hlist hout =>
    refine ⟨held.filter fun x => x.kind = kind,
      ⟨kind, track, detacher⟩ :: held.filter fun x => !decide (x.kind = kind), ?_, ?_, ?_, ?_⟩
    · exact ((hsplit kind).cons _).trans List.perm_middle.symm
    · exact hout ▸ hheld.released kind
    · rw [hset]
      exact ((hheld.rest kind).cons _).trans (InsMap.set_perm ..).symm
    · rw [hlist]
      refine List.forall_mem_cons.mpr ⟨List.mem_append_right _ (.head _), fun x hx => ?_⟩
      exact List.mem_append_left _ (hheld.listened x (List.mem_of_mem_filter hx))
  | @unsubscribed r kind hdelete hlist hout =>
    refine ⟨held.filter fun x => x.kind = kind, held.filter fun x => !decide (x.kind = kind),
      hsplit kind, ?_, ?_, ?_⟩
    · exact hout ▸ hheld.released kind
    · rw [hdelete]
      exact hheld.rest kind
    · rw [hlist]
      exact fun x hx => hheld.listened x (List.mem_of_mem_filter hx)
  | cleared hempty hlist hout =>
    refine ⟨held, [], by simp, ?_, ?_, by simp⟩
    · have hsnd := hheld.table.map Prod.snd
      rw [List.map_map] at hsnd
      exact hout ▸ hsnd
    · rw [hempty]
      exact .refl _

/-- The same for a run. -/
theorem run_accounts {evs : List Event} : ∀ {s : AddonHost} {held : List Sink},
    Machine.Guarded step Attended s evs → Keeps s held → ∃ released held',
      (Machine.noted step attached s evs ++ held).Perm (released ++ held') ∧
      (released.map Sink.detacher).Perm (detaches (Machine.outputs step s evs)) ∧
      Keeps (Machine.after step s evs) held' := by
  induction evs with
  | nil => intro s held _ hheld; exact ⟨[], held, .refl _, .refl _, hheld⟩
  | cons ev evs ih =>
    intro s held hguard hheld
    obtain ⟨released, held', hperm, hcalled, hheld'⟩ := (step_move hguard.1).accounts hheld
    obtain ⟨released', held'', hperm', hcalled', hheld''⟩ := ih hguard.2 hheld'
    refine ⟨released ++ released', held'', List.perm_iff_count.mpr fun x => ?_, ?_, hheld''⟩
    · have hfirst := hperm.count_eq x
      have hlater := hperm'.count_eq x
      simp only [List.count_append] at hfirst hlater
      rw [Machine.noted]
      simp only [List.count_append]
      omega
    · rw [List.map_append, Machine.outputs_cons, detaches_append]
      exact hcalled.append hcalled'

/-! ## Every sink is released once -/

/-- The sinks attached in a run: the ones whose detach function was called, and the ones
whose detach function has yet to be. -/
structure SinksAccounted (s : AddonHost) (evs : List Event) (released undetached : List Sink) :
    Prop where
  all : (Machine.noted step attached s evs).Perm (released ++ undetached)
  called : (released.map Sink.detacher).Perm (detaches (Machine.outputs step s evs))
  cause : ∀ pre ev, evs = pre ++ [ev] → detaches ((Machine.after step s pre).step ev).2 ≠ [] →
    (Machine.after step s pre).Releases ev
  onePerKind : (undetached.map Sink.kind).Nodup
  ended : ∀ pre track, evs = pre ++ [.trackEnded track] → ∀ x ∈ undetached, x.track ≠ track
  unsubscribed : ∀ pre source data now kind, evs = pre ++ [.message source data now] →
    (Machine.after step s pre).heard (.message source data now) =
      some (.mediaReceiveUnsubscribe kind) → ∀ x ∈ undetached, x.kind ≠ kind
  unreceived : ∀ x ∈ undetached, (Machine.after step s evs).receives x.kind = true
  closed : (Machine.after step s evs).Ended → undetached = []

/-- All along a run every attached sink is accounted for. -/
def SinksReleased (s : AddonHost) (evs : List Event) : Prop :=
  ∀ pre, pre <+: evs → ∃ released undetached, SinksAccounted s pre released undetached

theorem Keeps.get {held : List Sink} (h : Keeps s held) {x : Sink} (hx : x ∈ held) :
    s.mediaSinkDetachers.get x.kind = some x.detacher :=
  InsMap.get_eq_some_iff.mpr (h.table.subset (List.mem_map_of_mem hx))

theorem Keeps.receives {held : List Sink} (h : Keeps s held) (hc : s.vitals.Coherent) :
    ∀ x ∈ held, s.receives x.kind = true := fun x hx =>
  (vitals_receives s x.kind).symm.trans (hc.subscribed x.kind x.detacher (h.get hx))

theorem Keeps.onePerKind {held : List Sink} (h : Keeps s held) : (held.map Sink.kind).Nodup := by
  have hkeys := h.table.map Prod.fst
  rw [List.map_map] at hkeys
  exact hkeys.nodup_iff.mpr s.mediaSinkDetachers.nodup

theorem Keeps.gone {held : List Sink} (h : Keeps s held) (hc : s.vitals.Coherent)
    (hended : s.Ended) : held = [] := by
  have hempty : s.mediaSinkDetachers = .empty := (hc.gone hended.1 hended.2).2.2
  have htable := h.table
  rw [hempty] at htable
  exact List.map_eq_nil_iff.mp (List.perm_nil.mp htable)

/-- After the end of a track, no sink of the track is kept. -/
theorem Keeps.ended {held : List Sink} {track : Nat} (hattended : s.Attended (.trackEnded track))
    (h : Keeps (s.trackEnded track).1 held) : ∀ x ∈ held, x.track ≠ track := by
  rintro x hx rfl
  have hkept := trackEnded_kept hattended
  have hlistened := h.listened x hx
  rw [hkept.listeners] at hlistened
  have hget := h.get hx
  rw [hkept.sinks, hattended _ hlistened rfl] at hget
  cases hget

theorem setReceive_self (s : AddonHost) (kind : MediaKind) (on : Bool) :
    (s.setReceive kind on).receives kind = on := by
  cases kind <;> rfl

theorem unsubscribe_receives (s : AddonHost) (kind : MediaKind) :
    (s.handleMediaReceiveUnsubscribe kind).1.receives kind = false := by
  unfold handleMediaReceiveUnsubscribe
  dsimp only
  split
  · exact setReceive_self s kind false
  · cases kind <;> rfl

theorem loaded_keeps (manifest : AddonManifest) (options : AddonHostOptions)
    (sessionId : JsString) (window : Option Window) :
    Keeps (loaded manifest options sessionId window) [] := by
  unfold loaded
  dsimp only
  split <;> exact ⟨.refl _, by simp⟩

/-- In every run in which no track ends while a sink of its kind is attached, every
attached sink is released once. -/
theorem sinks_released (manifest : AddonManifest) (options : AddonHostOptions)
    (sessionId : JsString) (window : Option Window) (evs : List Event)
    (hattended : Machine.Guarded step Attended (loaded manifest options sessionId window) evs) :
    SinksReleased (loaded manifest options sessionId window) evs := by
  rintro pre ⟨rest, rfl⟩
  have hguard := (Machine.guarded_append.mp hattended).1
  obtain ⟨released, held, hperm, hcalled, hheld⟩ :=
    run_accounts hguard (loaded_keeps manifest options sessionId window)
  have hcoherent := (loaded_vitals manifest options sessionId window).2.2
  have hafter := Machine.after_inv (P := fun s : AddonHost => s.vitals.Coherent)
    (fun _ ev h => step_coherent h ev) hcoherent pre
  refine ⟨released, held, by simpa using hperm, hcalled, ?_, hheld.onePerKind, ?_, ?_,
    hheld.receives hafter, hheld.gone hafter⟩
  · intro pre' ev _ hcalls
    by_contra hreleases
    exact hcalls (step_keepsSinks hreleases).silent
  · rintro pre' track rfl
    rw [Machine.after_append] at hheld
    exact hheld.ended (Machine.guarded_at hguard)
  · rintro pre' source data now kind rfl hop x hx rfl
    have hreceives := hheld.receives hafter x hx
    rw [Machine.after_append, Machine.after_cons, Machine.after_nil, step_heard _ hop] at hreceives
    exact absurd hreceives (by simp [handleOp, unsubscribe_receives])

/-- A manifest that asks for remote audio. -/
def speakerManifest : AddonManifest where
  id := js "org.senn.speaker"
  name := js "Speaker"
  version := js "1.0.0"
  entry := js "index.html"
  license := js "MIT"
  permissions := [ MEDIA_RECEIVE_AUDIO]
  capabilities := [.str (js "speaker")]

def speakerOptions : AddonHostOptions := ⟨some ⟨false⟩, false, none, some ⟨true, false⟩⟩

def speakerHost : AddonHost := loaded speakerManifest speakerOptions (js "s") (some 0)

/-- A track is replaced, the next one is unsubscribed from, both end, and `close` finds a
third one. -/
def speakerRun : List Event :=
  [bridgeMessage (.mediaReceiveSubscribe .audio) [], .remoteTrack .audio 1 (.ok 5),
    .remoteTrack .audio 2 (.ok 6), bridgeMessage (.mediaReceiveUnsubscribe .audio) [],
    .trackEnded 1, .trackEnded 2, bridgeMessage (.mediaReceiveSubscribe .audio) [],
    .remoteTrack .audio 3 (.ok 7), .close]

theorem sinks_released_speakerRun : SinksReleased speakerHost speakerRun :=
  sinks_released _ _ _ _ _ (by decide +kernel)

/-- The attached track ends before `close`. -/
def endedRun : List Event :=
  [bridgeMessage (.mediaReceiveSubscribe .audio) [], .remoteTrack .audio 1 (.ok 5),
    .trackEnded 1, .close]

theorem endedRun_undetached : ¬ ∀ manifest : AddonManifest, manifest.Valid →
    ∀ options sessionId window evs,
      SinksReleased (loaded manifest options sessionId window) evs := by
  intro h
  have hvalid : speakerManifest.Valid := ⟨by decide +kernel, by decide +kernel, by decide +kernel⟩
  obtain ⟨released, undetached, haccounted⟩ :=
    h speakerManifest hvalid speakerOptions (js "s") (some 0) endedRun endedRun List.prefix_rfl
  have hended : (Machine.after step speakerHost endedRun).Ended :=
    ⟨by decide +kernel, by decide +kernel⟩
  have hsilent : detaches (Machine.outputs step speakerHost endedRun) = [] := by decide +kernel
  have hone : Machine.noted step attached speakerHost endedRun = [⟨.audio, 1, 5⟩] := by
    decide +kernel
  have hcalled := haccounted.called
  have hall := haccounted.all
  rw [show undetached = [] from haccounted.closed hended, List.append_nil] at hall
  have hlength := hall.length_eq
  have hzero := hcalled.length_eq
  rw [List.length_map] at hzero
  change (Machine.noted step attached speakerHost endedRun).length = _ at hlength
  change released.length = (detaches (Machine.outputs step speakerHost endedRun)).length at hzero
  rw [hone] at hlength
  rw [hsilent] at hzero
  rw [hzero] at hlength
  cases hlength

end AddonHost

end Senn.Addon
