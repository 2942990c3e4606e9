import Senn.Addon.Crossing
import Senn.Lib.Family
import Senn.Lib.Pipe
import Senn.Session.Channels

/-! # Add-ons of two peers

On each side of a session there are the same add-ons, each a page in an iframe and the host of it.
A page posts messages to the window that all hosts listen to; a host posts messages to its page;
and all hosts of a side, and the chat, share the one text channel of the session. Whatever is
posted or sent waits its turn; each turn is a move of its own. -/

namespace Senn.Addon

open Senn.Js Senn.Lib Senn.Lib.Pipe Senn.Protocol
open Senn.Session (PeerSession)

/-- What a page goes on at. -/
inductive PageInput (ι : Type*) where
  | own (i : ι)
  | posted (m : BridgePost)

namespace PageInput

variable {ι : Type*}

/-- The payload an input brings. -/
def payload? : PageInput ι → Option Data
  | .own _ => none
  | .posted m => m.payload?

/-- What is delivered with an input was parsed. -/
def Parsed (input : PageInput ι) : Prop := ∀ payload ∈ input.payload?, payload.Parsed

end PageInput

/-- The program of a page: what it sends are JavaScript values. -/
structure Page (σ ι : Type*) where
  go : σ → PageInput ι → σ × List Data
  written : ∀ s input, input.Parsed → ∀ msg ∈ (go s input).2, (msg.get (js "payload")).Written

/-- The add-ons: their ids, their programs, the order in which the hosts of a side listen, and the
windows of the iframes. -/
structure Setup (κ : Type*) (σ ι : κ → Type*) where
  id : κ → JsString
  page : ∀ a, Page (σ a) (ι a)
  hosts : List κ
  window : Side × κ → Window
  id_injective : id.Injective
  nodup : hosts.Nodup
  complete : ∀ a, a ∈ hosts
  windows : ∀ s a b, window (s, a) = window (s, b) → a = b

/-- What add-ons read in a text was parsed. -/
def Setup.Carried {κ : Type*} {σ ι : κ → Type*} (setup : Setup κ σ ι) (text : JsString) : Prop :=
  ∀ a payload, readBy (setup.id a) text = some payload → payload.Parsed

structure Net (κ : Type*) (σ : κ → Type*) where
  page : ∀ p : Side × κ, σ p.2
  host : Side × κ → AddonHost
  session : Side → PeerSession
  toHost : Side × κ → List Data             -- posted by a page
  toPage : Side × κ → List BridgePost       -- posted by a host
  channel : Side → List JsString            -- on the way to a side

/-- What `channel.send` finds. -/
structure Link where
  channelOpen : Bool
  thrown : Option JsString

namespace Net

inductive Move (κ : Type*) (ι : κ → Type*) where
  | act (p : Side × κ) (i : ι p.2)                      -- of a page, at an input of its own
  | window (p : Side × κ) (now : Nat) (link : Link)     -- takes the next message of a page
  | page (p : Side × κ)                                 -- takes the next message of its host
  | receive (s : Side) (i : Nat)                        -- the next text, out of a channel
  | host (p : Side × κ) (ev : Event) (link : Link)
  | session (s : Side) (ev : Session.Event)
  | say (s : Side) (text : JsString) (link : Link)      -- a line of the chat
  | cut (s : Side)                                      -- what is on the way to `s` is lost

/-- The payload of a message of a page, as it arrives, if the message is a `send`. -/
def sent? (msg : Data) : Option Data :=
  if AddonHost.bridgeOp msg = some .send then (msg.get (js "payload")).wire else none

variable {κ : Type*} {σ ι : κ → Type*} [DecidableEq κ] (setup : Setup κ σ ι)

/-- A page goes on. -/
def goOn (net : Net κ σ) (p : Side × κ) (input : PageInput (ι p.2)) :
    Net κ σ × List (κ × Seen Data) :=
  let r := (setup.page p.2).go (net.page p) input
  ({ net with
    page := Function.update net.page p r.1
    toHost := Function.update net.toHost p (net.toHost p ++ r.2) },
    ((r.2.filterMap sent?).map (Seen.put p.1.other)).map fun seen => (p.2, seen))

/-- The channel takes what `sendText` hands it. -/
def offer (net : Net κ σ) (s : Side) (link : Link) (texts : List JsString) : Net κ σ :=
  let taken := texts.filterMap fun text =>
    ((net.session s).sendText ⟨text, link.channelOpen, link.thrown⟩).toOption
  { net with channel := Function.update net.channel s.other (net.channel s.other ++ taken) }

/-- All hosts of a side hear an event. -/
def allHear (net : Net κ σ) (s : Side) (ev : Event) (link : Link) : Net κ σ :=
  offer { net with
    host := fun p => if p.1 = s then ((net.host p).step ev).1 else net.host p
    toPage := fun p =>
      if p.1 = s then net.toPage p ++ posts ((net.host p).step ev).2 else net.toPage p }
    s link (setup.hosts.flatMap fun a => texts ((net.host (s, a)).step ev).2)

/-- One host goes on. -/
def hostDoes (net : Net κ σ) (p : Side × κ) (ev : Event) (link : Link) : Net κ σ :=
  let r := (net.host p).step ev
  offer { net with
    host := Function.update net.host p r.1
    toPage := Function.update net.toPage p (net.toPage p ++ posts r.2) } p.1 link (texts r.2)

/-- The session of a side goes on; the hosts hear the texts it reports. -/
def sessionDoes (net : Net κ σ) (s : Side) (ev : Session.Event) : Net κ σ :=
  let r := (net.session s).step ev
  (Session.texts r.2).foldl (fun net text => net.allHear setup s (.sessionText text) ⟨false, none⟩)
    { net with session := Function.update net.session s r.1 }

def step (net : Net κ σ) : Move κ ι → Net κ σ × List (κ × Seen Data)
  | .act p i => net.goOn setup p (.own i)
  | .window p now link =>
    match net.toHost p with
    | [] => (net, [])
    | msg :: msgs =>
      ({ net with toHost := Function.update net.toHost p msgs }.allHear setup p.1
        (.message (some (setup.window p)) msg now) link, [])
  | .page p =>
    match net.toPage p with
    | [] => (net, [])
    | m :: ms =>
      let r := { net with toPage := Function.update net.toPage p ms }.goOn setup p (.posted m)
      (r.1, (m.payload?.map fun payload => (p.2, Seen.taken p.1 payload)).toList ++ r.2)
  | .receive s i =>
    match net.channel s with
    | [] => (net, [])
    | text :: rest =>
      ({ net with channel := Function.update net.channel s rest }.sessionDoes setup s
        (.textMessage i (some text)), [])
  | .host p ev link => (net.hostDoes p ev link, [])
  | .session s ev => (net.sessionDoes setup s ev, [])
  | .say s text link => (net.offer s link [text], [])
  | .cut s => ({ net with channel := Function.update net.channel s [] }, [])

/-- The moves there are: time is a double, iframes stay in the document, no call of `deliver` of
the host page's own, and no line of the chat that is an envelope of one of the add-ons. -/
def Move.Fair : Move κ ι → Prop
  | .window _ now _ => now ≤ 2 ^ 53
  | .host _ ev _ => AddonHost.Textless ev ∧ ∀ w, ev ≠ .contentWindow w
  | .session _ ev => ∀ i data, ev ≠ .textMessage i data
  | .say _ text _ => ∀ a, readBy (setup.id a) text = none
  | _ => True

/-- A net as it comes about: hosts of valid manifests with their windows, and nothing else on the
way than what they and their pages post. -/
structure Sound (net : Net κ σ) : Prop where
  framed : ∀ p, (net.host p).Framed (setup.window p)
  valid : ∀ p, (net.host p).manifest.Valid
  id : ∀ p, (net.host p).manifest.id = setup.id p.2
  written : ∀ p, ∀ msg ∈ net.toHost p, (msg.get (js "payload")).Written
  carried : ∀ s, ∀ text ∈ net.channel s, setup.Carried text
  delivered : ∀ p, ∀ payload from_, .deliver payload from_ ∈ net.toPage p →
    from_ = some (setup.id p.2) ∧ payload.Parsed

/-! ## Texts that are taken -/

section
variable {κ : Type*} {σ ι : κ → Type*} {setup : Setup κ σ ι} {net : Net κ σ}

/-- What a channel takes of texts. -/
def taken (net : Net κ σ) (s : Side) (link : Link) (ts : List JsString) : List JsString :=
  ts.filterMap fun text =>
    ((net.session s).sendText ⟨text, link.channelOpen, link.thrown⟩).toOption

theorem taken_sub (net : Net κ σ) (s : Side) (link : Link) (ts : List JsString) :
    (net.taken s link ts).Sublist ts := by
  induction ts with
  | nil => exact List.Sublist.refl _
  | cons text ts ih =>
    simp only [taken, List.filterMap_cons]
    cases hsend : (net.session s).sendText ⟨text, link.channelOpen, link.thrown⟩ with
    | error e => exact ih.cons text
    | ok t =>
      obtain ⟨rfl, -⟩ := Session.PeerSession.sendText_ok.mp hsend
      exact ih.cons_cons _

theorem mem_offer {s t : Side} {link : Link} {ts : List JsString} {text : JsString}
    (h : text ∈ (net.offer s link ts).channel t) :
    text ∈ net.channel t ∨ t = s.other ∧ text ∈ ts := by
  simp only [offer, Function.update_apply] at h
  split at h
  · rename_i ht
    obtain h | h := List.mem_append.mp h
    · exact .inl (ht ▸ h)
    · exact .inr ⟨ht, (net.taken_sub s link ts).subset h⟩
  · exact .inl h

theorem offer_nil (net : Net κ σ) (s : Side) (link : Link) : net.offer s link [] = net := by
  rw [offer, List.filterMap_nil, List.append_nil, Function.update_eq_self]

end

/-! ## What a message of a page comes to -/

section
variable {κ : Type*} {σ ι : κ → Type*} {setup : Setup κ σ ι} {net : Net κ σ}

/-- A message of a page is for its own host. -/
theorem foreign_host (h : net.Sound setup) {p q : Side × κ} (hside : q.1 = p.1) (hne : q ≠ p)
    (msg : Data) (now : Nat) :
    (net.host q).step (.message (some (setup.window p)) msg now) = (net.host q, []) := by
  refine AddonHost.step_unheard _ (if_neg fun hheard => ?_)
  rcases (h.framed q).iframe with hframe | ⟨hframe, -⟩
  · have hwindow : setup.window q = setup.window p := by
      have heq := hframe.symm.trans hheard.2
      simpa using heq
    obtain ⟨s, b⟩ := q
    obtain ⟨s', c⟩ := p
    cases hside
    exact hne (Prod.ext rfl (setup.windows s b c hwindow))
  · rw [hframe] at hheard
    cases hheard.2

/-- The texts of a page's message are read by its own add-on as what it sends, and by no other. -/
theorem message_read (h : net.Sound setup) {p : Side × κ} {msg : Data} {msgs : List Data}
    (hqueue : net.toHost p = msg :: msgs) {now : Nat} (hnow : now ≤ 2 ^ 53) :
    ∀ text ∈ texts ((net.host p).step (.message (some (setup.window p)) msg now)).2,
      readBy (setup.id p.2) text = sent? msg ∧
        ∀ a, a ≠ p.2 → readBy (setup.id a) text = none := by
  intro text htext
  rw [(AddonHost.message_crosses (h.valid p) ..).1] at htext
  split at htext
  · rename_i hsend
    have hop : AddonHost.bridgeOp msg = some .send := by
      have hheard := hsend.1
      rw [AddonHost.heard] at hheard
      split at hheard
      · exact hheard
      · cases hheard
    have hwritten := h.written p msg (by rw [hqueue]; exact .head _)
    have hread := AddonHost.tryParse_stringified (h.valid p)
      (AddonHost.newEnvelopeId_ne_nil (net.host p).counter now) hnow hwritten
      (Option.mem_toList.mp htext)
    rw [readBy, hread, h.id p, sent?, if_pos hop]
    refine ⟨?_, fun a ha => ?_⟩
    · cases (msg.get (js "payload")).wire <;> simp
    · rw [readBy, hread, h.id p]
      cases (msg.get (js "payload")).wire with
      | none => rfl
      | some payload => exact if_neg fun hid => ha (setup.id_injective hid).symm
  · cases htext

end

/-! ## Every move leaves a net sound -/

section
variable {κ : Type*} {σ ι : κ → Type*} {setup : Setup κ σ ι} {net : Net κ σ}

theorem Sound.hearText (h : net.Sound setup) (s : Side) {text : JsString}
    (htext : setup.Carried text) (link : Link) :
    (net.allHear setup s (.sessionText text) link).Sound setup := by
  have hstep : ∀ p, ((net.host p).step (.sessionText text)).1 = net.host p := fun p => rfl
  have htexts : setup.hosts.flatMap (fun b => texts ((net.host (s, b)).step
      (.sessionText text)).2) = [] :=
    List.flatMap_eq_nil_iff.mpr fun b _ => ((net.host (s, b)).sessionText_crosses text).1
  refine ⟨fun q => ?_, fun q => ?_, fun q => ?_, h.written, ?_, fun q payload from_ hm => ?_⟩
  · simp only [allHear, offer, hstep, ite_self]
    exact h.framed q
  · simp only [allHear, offer, hstep, ite_self]
    exact h.valid q
  · simp only [allHear, offer, hstep, ite_self]
    exact h.id q
  · intro t text' htext'
    simp only [allHear, htexts, offer_nil] at htext'
    exact h.carried t text' htext'
  · simp only [allHear, offer] at hm
    split at hm
    · obtain hm | hm := List.mem_append.mp hm
      · exact h.delivered q payload from_ hm
      · rw [((net.host q).sessionText_crosses text).2, h.id] at hm
        split at hm
        · obtain ⟨payload', hread, heq⟩ := Option.map_eq_some_iff.mp (Option.mem_toList.mp hm)
          cases heq
          exact ⟨rfl, htext q.2 _ hread⟩
        · cases hm
    · exact h.delivered q payload from_ hm

theorem Sound.sessionDoes (h : net.Sound setup) (s : Side) {ev : Session.Event}
    (hev : ∀ text ∈ Session.texts ((net.session s).step ev).2, setup.Carried text) :
    (net.sessionDoes setup s ev).Sound setup := by
  have hfold : ∀ (ts : List JsString) (net : Net κ σ), (∀ text ∈ ts, setup.Carried text) →
      net.Sound setup →
        (ts.foldl (fun net text => net.allHear setup s (.sessionText text) ⟨false, none⟩)
          net).Sound setup := by
    intro ts
    induction ts with
    | nil => intro net _ h; exact h
    | cons text ts ih =>
      intro net hts h
      obtain ⟨htext, hts⟩ := List.forall_mem_cons.mp hts
      exact ih _ hts (h.hearText s htext _)
  exact hfold _ _ hev ⟨h.framed, h.valid, h.id, h.written, h.carried, h.delivered⟩

variable [DecidableEq κ]

theorem Sound.withToHost (h : net.Sound setup) {p : Side × κ} {msgs : List Data}
    (hsub : msgs ⊆ net.toHost p) :
    Sound setup { net with toHost := Function.update net.toHost p msgs } := by
  refine ⟨h.framed, h.valid, h.id, fun q m hm => ?_, h.carried, h.delivered⟩
  dsimp only at hm
  by_cases hq : q = p
  · subst hq
    rw [Function.update_self] at hm
    exact h.written q m (hsub hm)
  · rw [Function.update_of_ne hq] at hm
    exact h.written q m hm

theorem Sound.withToPage (h : net.Sound setup) {p : Side × κ} {ms : List BridgePost}
    (hsub : ms ⊆ net.toPage p) :
    Sound setup { net with toPage := Function.update net.toPage p ms } := by
  refine ⟨h.framed, h.valid, h.id, h.written, h.carried, fun q payload from_ hm => ?_⟩
  dsimp only at hm
  by_cases hq : q = p
  · subst hq
    rw [Function.update_self] at hm
    exact h.delivered q payload from_ (hsub hm)
  · rw [Function.update_of_ne hq] at hm
    exact h.delivered q payload from_ hm

theorem payload_of_deliver {ms : List BridgePost} (h : ms.filterMap BridgePost.payload? = [])
    {payload : Data} {from_ : Option JsString} : .deliver payload from_ ∉ ms := fun hm => by
  have hnone := List.filterMap_eq_nil_iff.mp h _ hm
  cases hnone

/-- A host that goes on and posts no delivery leaves a net sound. -/
theorem Sound.hostDoes (h : net.Sound setup) {p : Side × κ} {ev : Event}
    (hev : ∀ w, ev ≠ .contentWindow w)
    (hposts : (posts ((net.host p).step ev).2).filterMap BridgePost.payload? = [])
    (htexts : ∀ text ∈ texts ((net.host p).step ev).2, setup.Carried text)
    (link : Link) : (net.hostDoes p ev link).Sound setup := by
  have hterms := (net.host p).step_terms ev
  refine ⟨fun q => ?_, fun q => ?_, fun q => ?_, h.written, fun s text htext => ?_,
    fun q payload from_ hm => ?_⟩
  · simp only [Net.hostDoes, offer, Function.update_apply]
    split
    · rename_i hq
      rw [hq]
      exact AddonHost.step_framed (h.framed p) fun w hw => absurd hw (hev w)
    · exact h.framed q
  · simp only [Net.hostDoes, offer, Function.update_apply]
    split
    · rw [show ((net.host p).step ev).1.manifest = (net.host p).manifest from
        congrArg Prod.fst hterms]
      exact h.valid p
    · exact h.valid q
  · simp only [Net.hostDoes, offer, Function.update_apply]
    split
    · rename_i hq
      rw [show ((net.host p).step ev).1.manifest = (net.host p).manifest from
        congrArg Prod.fst hterms, hq]
      exact h.id p
    · exact h.id q
  · obtain htext | ⟨-, htext⟩ := mem_offer htext
    · exact h.carried s text htext
    · exact htexts text htext
  · simp only [Net.hostDoes, offer, Function.update_apply] at hm
    split at hm
    · rename_i hq
      subst hq
      obtain hm | hm := List.mem_append.mp hm
      · exact h.delivered q payload from_ hm
      · exact absurd hm (payload_of_deliver hposts)
    · exact h.delivered q payload from_ hm

theorem allHear_message (h : net.Sound setup) (p : Side × κ) (msg : Data) (now : Nat)
    (link : Link) : net.allHear setup p.1 (.message (some (setup.window p)) msg now) link =
      net.hostDoes p (.message (some (setup.window p)) msg now) link := by
  have hforeign := fun q (hside : q.1 = p.1) (hne : q ≠ p) => foreign_host h hside hne msg now
  have htexts : setup.hosts.flatMap (fun b => texts ((net.host (p.1, b)).step
      (.message (some (setup.window p)) msg now)).2) =
      texts ((net.host p).step (.message (some (setup.window p)) msg now)).2 := by
    refine Machine.flatMap_single (setup.complete p.2) setup.nodup fun b _ hb => ?_
    rw [hforeign (p.1, b) rfl fun heq => hb (congrArg Prod.snd heq)]
    rfl
  simp only [allHear, hostDoes, htexts]
  congr 2
  · funext q
    rw [Function.update_apply]
    by_cases hq : q = p
    · rw [if_pos hq, if_pos (congrArg Prod.fst hq), hq]
    · rw [if_neg hq]
      split
      · rename_i hside
        rw [hforeign q hside hq]
      · rfl
  · funext q
    rw [Function.update_apply]
    by_cases hq : q = p
    · rw [if_pos hq, if_pos (congrArg Prod.fst hq), hq]
    · rw [if_neg hq]
      split
      · rename_i hside
        rw [hforeign q hside hq]
        exact List.append_nil _
      · rfl

theorem Sound.goOn (h : net.Sound setup) (p : Side × κ) {input : PageInput (ι p.2)}
    (hinput : input.Parsed) : (net.goOn setup p input).1.Sound setup := by
  refine ⟨h.framed, h.valid, h.id, fun q m hm => ?_, h.carried, h.delivered⟩
  simp only [Net.goOn, Function.update_apply] at hm
  split at hm
  · rename_i hq
    subst hq
    obtain hm | hm := List.mem_append.mp hm
    · exact h.written q m hm
    · exact (setup.page q.2).written _ _ hinput m hm
  · exact h.written q m hm

/-- Every move leaves a net sound. -/
theorem step_sound (h : net.Sound setup) {move : Move κ ι} (hfair : move.Fair setup) :
    (net.step setup move).1.Sound setup := by
  cases move with
  | act p i =>
    have hinput : (PageInput.own i).Parsed := fun payload hpayload => by cases hpayload
    exact h.goOn p hinput
  | page p =>
    cases hqueue : net.toPage p with
    | nil =>
      simp only [step, hqueue]
      exact h
    | cons m ms =>
      simp only [step, hqueue]
      have hsub : ms ⊆ net.toPage p := by
        rw [hqueue]
        exact List.subset_cons_self ..
      have hinput : (PageInput.posted m : PageInput (ι p.2)).Parsed := by
        intro payload hpayload
        cases m with
        | deliver payload' from_ =>
          cases hpayload
          exact (h.delivered p payload from_ (by rw [hqueue]; exact .head _)).2
        | _ => cases hpayload
      exact (h.withToPage hsub).goOn p hinput
  | window p now link =>
    cases hqueue : net.toHost p with
    | nil =>
      simp only [step, hqueue]
      exact h
    | cons msg msgs =>
      have hsub : msgs ⊆ net.toHost p := by
        rw [hqueue]
        exact List.subset_cons_self ..
      have hrest := h.withToHost hsub
      simp only [step, hqueue]
      rw [allHear_message hrest]
      refine hrest.hostDoes (fun w hw => by cases hw)
        (AddonHost.message_crosses (s := net.host p) (h.valid p) ..).2 (fun text htext => ?_) link
      intro a payload hread
      obtain ⟨hown, hothers⟩ := message_read h hqueue hfair text htext
      by_cases ha : a = p.2
      · rw [ha, hown, sent?] at hread
        split at hread
        · exact Data.wire_parsed (h.written p msg (by rw [hqueue]; exact .head _)) hread
        · cases hread
      · rw [hothers a ha] at hread
        cases hread
  | receive s i =>
    cases hqueue : net.channel s with
    | nil =>
      simp only [step, hqueue]
      exact h
    | cons text rest =>
      simp only [step, hqueue]
      have hrest : Sound setup { net with channel := Function.update net.channel s rest } := by
        refine ⟨h.framed, h.valid, h.id, h.written, fun t text' htext' => ?_, h.delivered⟩
        simp only [Function.update_apply] at htext'
        split at htext'
        · rename_i ht
          exact h.carried t text' (by rw [ht, hqueue]; exact .tail _ htext')
        · exact h.carried t text' htext'
      refine hrest.sessionDoes s fun text' htext' => ?_
      rw [Session.PeerSession.step_texts, Session.PeerSession.heard] at htext'
      split at htext'
      · cases Option.mem_toList.mp htext'
        exact h.carried s text (by rw [hqueue]; exact .head _)
      · cases htext'
  | host p ev link =>
    obtain ⟨htexts, hposts⟩ := AddonHost.step_textless (s := net.host p) hfair.1
    refine h.hostDoes hfair.2 hposts (fun text htext => ?_) link
    rw [htexts] at htext
    cases htext
  | session s ev =>
    refine h.sessionDoes s fun text htext => ?_
    rw [Session.PeerSession.step_texts] at htext
    cases ev with
    | textMessage i data => exact absurd rfl (hfair i data)
    | _ => cases htext
  | say s text link =>
    refine ⟨h.framed, h.valid, h.id, h.written, fun t text' htext => ?_, h.delivered⟩
    obtain htext | ⟨-, htext⟩ := mem_offer htext
    · exact h.carried t text' htext
    · intro a payload hread
      rw [List.mem_singleton.mp htext, hfair a] at hread
      cases hread
  | cut s =>
    refine ⟨h.framed, h.valid, h.id, h.written, fun t text htext => ?_, h.delivered⟩
    simp only [step, Function.update_apply] at htext
    split at htext
    · cases htext
    · exact h.carried t text htext

end

/-! ## The start -/

section
variable {κ : Type*} {σ ι : κ → Type*} {setup : Setup κ σ ι}

/-- Hosts just loaded, and nothing on the way. -/
def start (setup : Setup κ σ ι) (manifest : Side × κ → AddonManifest)
    (options : Side × κ → AddonHostOptions) (sessionId : Side × κ → JsString)
    (session : Side → PeerSession) (page : ∀ p : Side × κ, σ p.2) : Net κ σ where
  page := page
  host := fun p => .loaded (manifest p) (options p) (sessionId p) (some (setup.window p))
  session := session
  toHost := fun _ => []
  toPage := fun _ => []
  channel := fun _ => []

end

end Net

end Senn.Addon
