import Senn.Web.Run

/-! # From one page to another

Pages side by side that consume the links which they composed. A link holds a stretch of what the
sessions of its page published in its room; a session of another page in that room gets it once and
in order. -/

namespace Senn.Web
open Senn.Js Senn.Lib Senn.Lib.Machine Senn.Protocol Senn.Invite
open Senn.UrlFragment (UrlFragmentSignaling invokes received)

/-! ## Where imports and joiners come from -/

/-- A page that consumed only links of `K`: it imported bundles they lead to, and joined rooms of
their inviters. -/
structure Known (parse : UrlParser) (P : Platform) (K : JsString → Prop) (outs : List Out)
    (s : WebPage) : Prop where
  parsing : ∀ href, .parsing href ∈ s.calls → K href ∧ looksLikeInvite href = true
  joined : ∀ href bundle, .joined href bundle ∈ s.calls → K href
  imports : ∀ encoded, .importBundle encoded ∈ requests outs → ∃ href b inviter, K href ∧
    Leads parse P href b inviter ∧ decodeSignalingBundle P encoded = .ok b
  joiners : ∀ a ∈ s.sessions, a.role = .joiner → ∃ href b id, K href ∧
    Leads parse P href b (some id) ∧ a.roomId = b.roomId ∧ a.remotePeerId = some id

namespace Known

variable {parse : UrlParser} {P : Platform} {reason : JsString} {K : JsString → Prop}
  {outs : List Out} {s : WebPage} {ev : Event}

theorem load (me location : JsString) : Known parse P K [] (.load me location) where
  parsing _ h := by cases h
  joined _ _ h := by cases h
  imports _ h := by cases h
  joiners _ h := by cases h

theorem calls_known (h : Known parse P K outs s) (hev : ∀ href, ev = .consumeUrl href → K href)
    {calls : List Call} (hcalls : ∀ c ∈ calls, s.Traced ev c) :
    (∀ href, .parsing href ∈ calls → K href ∧ looksLikeInvite href = true) ∧
      ∀ href bundle, .joined href bundle ∈ calls → K href := by
  constructor
  · intro href hc
    obtain hc | ⟨rfl, hform⟩ := hcalls _ hc
    · exact h.parsing href hc
    · exact ⟨hev href rfl, hform⟩
  · intro href bundle hc
    obtain hc | hc := hcalls _ hc
    · exact h.joined href bundle hc
    · exact (h.parsing href hc).1

/-- What is imported is the bundle that the link leads to. -/
theorem import_decodes (hK : ∀ href, K href → ∃ b inviter, Leads parse P href b inviter)
    {href encoded : JsString} (hhref : K href)
    (hencoded : extractBundleFromUrl parse reason href = .ok (some encoded) ∨
      extractBundleFromUrl parse reason href = .ok none ∧ encoded = href) :
    ∃ b inviter, Leads parse P href b inviter ∧ decodeSignalingBundle P encoded = .ok b := by
  obtain ⟨b, inviter, hleads⟩ := hK href hhref
  obtain ⟨encoded', -, hdecode, hextract⟩ := hleads.bundle
  refine ⟨b, inviter, hleads, ?_⟩
  obtain h | ⟨h, -⟩ := hencoded
  · obtain rfl := Option.some.inj (Except.ok.inj (h.symm.trans (hextract reason)))
    exact hdecode
  · cases (Except.ok.inj (h.symm.trans (hextract reason)) : none = some encoded')

/-- What an inviter's link is parsed as. -/
theorem attaches_joiner (hK : ∀ href, K href → ∃ b inviter, Leads parse P href b inviter)
    (h : Known parse P K outs s) {a : Attached} (ha : WebPage.Attaches parse P s ev a)
    (hrole : a.role = .joiner) : ∃ href b id, K href ∧ Leads parse P href b (some id) ∧
      a.roomId = b.roomId ∧ a.remotePeerId = some id := by
  cases ha with
  | created => cases hrole
  | again => cases hrole
  | later => cases hrole
  | @joined k id href addonHost parsed hcall hparsed =>
    obtain ⟨hhref, hform⟩ := h.parsing href hcall
    obtain ⟨b, inviter, hleads⟩ := hK href hhref
    obtain ⟨id', rfl⟩ := Option.isSome_iff_exists.mp (hleads.form.symm.trans hform)
    obtain ⟨p, hp, hroom, hfrom⟩ := hleads.invite id' rfl
    obtain rfl := Except.ok.inj (hparsed.symm.trans hp)
    exact ⟨href, b, id', hhref, hleads, hroom, congrArg some hfrom⟩

theorem step (hK : ∀ href, K href → ∃ b inviter, Leads parse P href b inviter)
    (h : Known parse P K outs s) (hev : ∀ href, ev = .consumeUrl href → K href) :
    Known parse P K (outs ++ (s.step parse P reason ev).2) (s.step parse P reason ev).1 := by
  have hmoves := WebPage.step_moves parse P reason s ev
  generalize s.step parse P reason ev = r at hmoves ⊢
  have himports : ∀ more : List Out, (∀ encoded, .importBundle encoded ∉ requests more) →
      ∀ encoded, .importBundle encoded ∈ requests (outs ++ more) → ∃ href b inviter, K href ∧
        Leads parse P href b inviter ∧ decodeSignalingBundle P encoded = .ok b := by
    intro more hmore encoded hmem
    rw [requests_append] at hmem
    obtain hmem | hmem := List.mem_append.mp hmem
    · exact h.imports encoded hmem
    · exact absurd hmem (hmore encoded)
  cases hmoves with
  | quiet hcalls houts =>
    obtain ⟨hparsing, hjoined⟩ := h.calls_known hev hcalls
    exact ⟨hparsing, hjoined, himports _ (by simp [(failed_silent houts).1]), h.joiners⟩
  | linked hcalls =>
    obtain ⟨hparsing, hjoined⟩ := h.calls_known hev hcalls
    exact ⟨hparsing, hjoined, himports _ (by simp [requests]), h.joiners⟩
  | attached hcalls ha =>
    obtain ⟨hparsing, hjoined⟩ := h.calls_known hev hcalls
    refine ⟨hparsing, hjoined, himports _ (by simp [requests, WebPage.attach, WebPage.call]),
      List.forall_mem_append.mpr ⟨h.joiners, ?_⟩⟩
    rw [List.forall_mem_singleton]
    exact h.attaches_joiner hK ha
  | exporting =>
    refine ⟨fun href hc => ?_, fun href bundle hc => ?_,
      himports _ (by simp [requests, WebPage.call]), h.joiners⟩
    · exact h.parsing href (by simpa [WebPage.call, WebPage.await] using hc)
    · exact h.joined href bundle (by simpa [WebPage.call, WebPage.await] using hc)
  | @importing href encoded calls hcalls hlink hencoded =>
    obtain ⟨hparsing, hjoined⟩ := h.calls_known hev hcalls
    refine ⟨hparsing, hjoined, fun encoded' hmem => ?_, h.joiners⟩
    rw [requests_append] at hmem
    obtain hmem | hmem := List.mem_append.mp hmem
    · exact h.imports encoded' hmem
    · obtain rfl := UrlFragment.Event.importBundle.inj (List.mem_singleton.mp hmem)
      have hhref : K href := by
        obtain ⟨heq, -⟩ | ⟨bundle, hc⟩ := hlink
        · exact hev href heq
        · exact h.joined href bundle hc
      obtain ⟨b, inviter, hleads, hdecode⟩ := import_decodes hK hhref hencoded
      exact ⟨href, b, inviter, hhref, hleads, hdecode⟩
  | passed hpasses =>
    refine ⟨h.parsing, h.joined, himports _ ?_, h.joiners⟩
    cases hpasses <;> simp [requests, WebPage.call]

theorem run (hK : ∀ href, K href → ∃ b inviter, Leads parse P href b inviter)
    (evs : List Event) : ∀ {outs : List Out} {s : WebPage}, Known parse P K outs s →
      (∀ href, .consumeUrl href ∈ evs → K href) →
      Known parse P K (outs ++ outputs (WebPage.step parse P reason) s evs)
        (after (WebPage.step parse P reason) s evs) := by
  induction evs with
  | nil =>
    intro outs s h _
    rwa [outputs_nil, List.append_nil, after_nil]
  | cons ev evs ih =>
    intro outs s h hev
    rw [outputs_cons, after_cons, ← List.append_assoc]
    exact ih (h.step hK fun href heq => hev href (heq ▸ .head _))
      fun href hmem => hev href (.tail _ hmem)

end Known

/-- A link leads to one bundle and one inviter. -/
theorem Leads.unique {parse : UrlParser} {P : Platform} {href : JsString} {b b' : SignalingBundleV1}
    {inviter inviter' : Option JsString} (h : Leads parse P href b inviter)
    (h' : Leads parse P href b' inviter') : b' = b ∧ inviter' = inviter := by
  obtain ⟨encoded, -, hdecode, hextract⟩ := h.bundle
  obtain ⟨encoded', -, hdecode', hextract'⟩ := h'.bundle
  obtain rfl := Option.some.inj (Except.ok.inj ((hextract []).symm.trans (hextract' [])))
  refine ⟨Except.ok.inj (hdecode'.symm.trans hdecode), ?_⟩
  have hform := h'.form.symm.trans h.form
  cases inviter with
  | none => exact Option.isSome_eq_false_iff.mp hform |> Option.isNone_iff_eq_none.mp
  | some id =>
    obtain ⟨id', rfl⟩ := Option.isSome_iff_exists.mp hform
    obtain ⟨p, hp, -, hfrom⟩ := h.invite id rfl
    obtain ⟨p', hp', -, hfrom'⟩ := h'.invite id' rfl
    obtain ⟨rfl, -⟩ := ParsedInviteBundle.mk.inj (Except.ok.inj (hp.symm.trans hp'))
    rw [← hfrom, ← hfrom']

/-! ## Pages side by side -/

/-- What the pages have from their browsers; `reason` is what `new URL` says of a text that is no
URL. -/
structure Setting (κ : Type) where
  parse : UrlParser
  platform : Platform
  reason : JsString
  me : κ → JsString
  location : κ → JsString

namespace Setting

variable {κ : Type} [DecidableEq κ]

def step (w : Setting κ) : WebPage → Event → WebPage × List Out :=
  WebPage.step w.parse w.platform w.reason

def start (w : Setting κ) : κ → WebPage := fun a => .load (w.me a) (w.location a)

def pages (w : Setting κ) (evs : List (κ × Event)) : κ → WebPage :=
  after (family w.step) w.start evs

/-- What a page has put out. -/
def putOut (w : Setting κ) (a : κ) (evs : List (κ × Event)) : List Out :=
  of a (outputs (family w.step) w.start evs)

/-- What a page puts out after `pre`, as `mid` goes on. -/
def putOutSince (w : Setting κ) (a : κ) (pre mid : List (κ × Event)) : List Out :=
  of a (outputs (family w.step) (w.pages pre) mid)

omit [DecidableEq κ] in
/-- The platform does its part, and the addresses of the pages are plain. -/
structure Proper (w : Setting κ) : Prop where
  reparses : w.parse.Reparses
  deflates : Deflates w.platform
  located : ∀ a, Located w.parse (w.location a)

/-- Every link that is consumed was composed by one of the pages. -/
structure Fair (w : Setting κ) (evs : List (κ × Event)) : Prop where
  events : ∀ e ∈ evs, e.2.Fair
  links : ∀ pre a href, pre ++ [(a, .consumeUrl href)] <+: evs →
    ∃ b room, .link room href ∈ w.putOut b pre

/-- The pages are connected by their links, all along a run. -/
structure Connected (w : Setting κ) (evs : List (κ × Event)) : Prop where
  /-- A link leads to a stretch of what the sessions of its page published in its room, and, if it
  is an invite, to the page. -/
  links : ∀ a room url, .link room url ∈ w.putOut a evs →
    Linked w.parse w.platform (w.me a) room url (w.putOut a evs)
  /-- Who joined a room has the peer that composed a link for it. -/
  joined : ∀ b, ∀ s ∈ (w.pages evs b).sessions, s.role = .joiner →
    ∃ a url, .link s.roomId url ∈ w.putOut a evs ∧ s.remotePeerId = some (w.me a)
  /-- A session that is subscribed when an import is dispatched, and does not leave, gets what the
  link leads to once and in order. -/
  handed : ∀ b pre mid j k encoded bundle, pre ++ (b, .decoded j) :: mid <+: evs →
    (w.pages pre b).transport.imports[j]? = some (.decoding encoded) →
    decodeSignalingBundle w.platform encoded = .ok bundle →
    k ∈ (w.pages pre b).transport.subscribed bundle.roomId → (b, .left k) ∉ mid →
    (∃ a url inviter, .link bundle.roomId url ∈ w.putOut a pre ∧
      Leads w.parse w.platform url bundle inviter) ∧
    received k (invokes j (answers (w.putOutSince b (pre ++ [(b, .decoded j)]) mid))) ++
      (w.pages (pre ++ (b, .decoded j) :: mid) b).transport.remaining j k = bundle.messages
  /-- Whatever a session gets was published in its room. -/
  others : ∀ b j k m, .invoke j k m ∈ answers (w.putOut b evs) →
    ∃ s, (w.pages evs b).sessions[k]? = some s ∧ ∃ a, m ∈ published s.roomId (w.putOut a evs)

section
variable {w : Setting κ} {evs pre : List (κ × Event)}

theorem pages_eq (w : Setting κ) (a : κ) (evs : List (κ × Event)) :
    w.pages evs a = after w.step (.load (w.me a) (w.location a)) (of a evs) :=
  after_family w.step a evs _

theorem putOut_eq (w : Setting κ) (a : κ) (evs : List (κ × Event)) :
    w.putOut a evs = outputs w.step (.load (w.me a) (w.location a)) (of a evs) :=
  outputs_family w.step a evs _

theorem pages_append (w : Setting κ) (a : κ) (pre mid : List (κ × Event)) :
    w.pages (pre ++ mid) a = after w.step (w.pages pre a) (of a mid) := by
  rw [pages_eq, of_append, after_append, ← pages_eq]

theorem putOutSince_eq (w : Setting κ) (a : κ) (pre mid : List (κ × Event)) :
    w.putOutSince a pre mid = outputs w.step (w.pages pre a) (of a mid) :=
  outputs_family w.step a mid _

theorem putOut_append (w : Setting κ) (a : κ) (pre mid : List (κ × Event)) :
    w.putOut a (pre ++ mid) = w.putOut a pre ++ outputs w.step (w.pages pre a) (of a mid) := by
  rw [putOut_eq, of_append, outputs_append, ← putOut_eq, ← pages_eq]

theorem Fair.earlier (h : w.Fair evs) (hpre : pre <+: evs) : w.Fair pre where
  events e he := h.events e (hpre.subset he)
  links pre' a href hpre' := h.links pre' a href (hpre'.trans hpre)

theorem Fair.of_events (h : w.Fair evs) (a : κ) : ∀ ev ∈ of a evs, ev.Fair := fun _ hev =>
  h.events _ (mem_of.mp hev)

theorem sound (hw : w.Proper) (h : w.Fair evs) (a : κ) :
    Sound w.parse w.platform (w.me a) (w.location a) (w.putOut a evs) (w.pages evs a) := by
  rw [pages_eq, putOut_eq]
  exact (Sound.load w.parse w.platform _ _).run w.reason hw.reparses hw.deflates (hw.located a) _
    (h.of_events a)

theorem housed (hw : w.Proper) (h : w.Fair evs) (a : κ) : Housed (w.pages evs a) := by
  rw [pages_eq]
  exact run_housed hw.reparses hw.deflates (hw.located a) _ (Sound.load _ _ _ _)
    (housed_load _ _) (h.of_events a)

/-- A link that was composed by one of the pages. -/
def Composed (w : Setting κ) (evs : List (κ × Event)) (href : JsString) : Prop :=
  ∃ a room, .link room href ∈ w.putOut a evs

theorem Composed.mono {href : JsString} (h : w.Composed pre href) (hpre : pre <+: evs) :
    w.Composed evs href := by
  obtain ⟨mid, rfl⟩ := hpre
  obtain ⟨a, room, hlink⟩ := h
  exact ⟨a, room, putOut_append w a pre mid ▸ List.mem_append_left _ hlink⟩

theorem known (hw : w.Proper) (h : w.Fair evs) (a : κ) :
    Known w.parse w.platform (w.Composed evs) (w.putOut a evs) (w.pages evs a) := by
  have hK : ∀ href, w.Composed evs href → ∃ b inviter, Leads w.parse w.platform href b inviter := by
    intro href ⟨c, room, hlink⟩
    obtain ⟨b, inviter, hleads, -⟩ := (sound hw h c).links room href hlink
    exact ⟨b, inviter, hleads⟩
  rw [pages_eq, putOut_eq]
  refine (Known.load _ _).run hK _ fun href hmem => ?_
  obtain ⟨pre, post, heq⟩ := List.append_of_mem (mem_of.mp hmem)
  have hpre : pre ++ [(a, Event.consumeUrl href)] <+: evs := ⟨post, by simp [heq]⟩
  obtain ⟨c, room, hlink⟩ := h.links pre a href hpre
  exact Composed.mono ⟨c, room, hlink⟩ ((List.prefix_append _ _).trans hpre)

/-- What a composed link leads to, whoever finds it. -/
theorem composed_linked (hw : w.Proper) (h : w.Fair evs) {href : JsString}
    (hlink : w.Composed evs href) {b : SignalingBundleV1} {inviter : Option JsString}
    (hleads : Leads w.parse w.platform href b inviter) : ∃ a,
      .link b.roomId href ∈ w.putOut a evs ∧ b.messages <:+: published b.roomId (w.putOut a evs) ∧
        (inviter = none ∨ inviter = some (w.me a)) := by
  obtain ⟨a, room, hlink⟩ := hlink
  obtain ⟨b', inviter', hleads', rfl, -, hinfix, hinviter⟩ := (sound hw h a).links room href hlink
  obtain ⟨rfl, rfl⟩ := hleads'.unique hleads
  exact ⟨a, hlink, hinfix, hinviter⟩

theorem connected_joined (hw : w.Proper) (h : w.Fair evs) {b : κ} {s : Attached}
    (hs : s ∈ (w.pages evs b).sessions) (hrole : s.role = .joiner) :
    ∃ a url, .link s.roomId url ∈ w.putOut a evs ∧ s.remotePeerId = some (w.me a) := by
  obtain ⟨href, bundle, id, hhref, hleads, hroom, hremote⟩ := (known hw h b).joiners s hs hrole
  obtain ⟨a, hlink, -, hinviter⟩ := composed_linked hw h hhref hleads
  obtain hinviter | hinviter := hinviter
  · cases hinviter
  · exact ⟨a, href, hroom ▸ hlink, hremote.trans (hinviter ▸ rfl)⟩

theorem connected_handed (hw : w.Proper) (h : w.Fair evs) {b : κ} {pre mid : List (κ × Event)}
    {j k : Nat} {encoded : JsString} {bundle : SignalingBundleV1}
    (hpre : pre ++ (b, .decoded j) :: mid <+: evs)
    (hj : (w.pages pre b).transport.imports[j]? = some (.decoding encoded))
    (hdecode : decodeSignalingBundle w.platform encoded = .ok bundle)
    (hk : k ∈ (w.pages pre b).transport.subscribed bundle.roomId) (hleft : (b, .left k) ∉ mid) :
    (∃ a url inviter, .link bundle.roomId url ∈ w.putOut a pre ∧
      Leads w.parse w.platform url bundle inviter) ∧
    received k (invokes j (answers (w.putOutSince b (pre ++ [(b, .decoded j)]) mid))) ++
      (w.pages (pre ++ (b, .decoded j) :: mid) b).transport.remaining j k = bundle.messages := by
  have hfair := h.earlier ((List.prefix_append pre _).trans hpre)
  have hfair' : w.Fair (pre ++ [(b, .decoded j)]) :=
    h.earlier (List.IsPrefix.trans ⟨mid, by simp⟩ hpre)
  have hsound := sound hw hfair b
  constructor
  · obtain ⟨encoded', hrequest, himport⟩ := hsound.import_requested hj
    have heq : encoded' = encoded := by
      cases himport
      rfl
    subst heq
    obtain ⟨href, b', inviter, hhref, hleads, hdecode'⟩ :=
      (known hw hfair b).imports encoded' hrequest
    obtain rfl := Except.ok.inj (hdecode.symm.trans hdecode')
    obtain ⟨a, hlink, -⟩ := composed_linked hw hfair hhref hleads
    exact ⟨a, href, inviter, hlink, hleads⟩
  · have hnext := sound hw hfair' b
    have hone : w.pages (pre ++ [(b, .decoded j)]) b =
        ((w.pages pre b).step w.parse w.platform w.reason (.decoded j)).1 := by
      rw [pages_append, of_cons_self, of_nil]
      rfl
    have hstays : k ∈ (w.pages (pre ++ [(b, .decoded j)]) b).transport.subscribed bundle.roomId := by
      rw [hone]
      refine (step_called w.parse w.platform w.reason _ (.decoded j)).stays hsound ?_
        (housed hw hfair b) hk (by simp)
      exact fun e he => List.mem_singleton.mp he ▸ trivial
    obtain ⟨i, hdispatched, hremaining⟩ :=
      UrlFragmentSignaling.decoded_dispatched hsound.tidy hj hdecode (hone ▸ hstays)
    have hevents : ∀ ev ∈ of b mid, ev.Fair := fun ev hev =>
      (h.earlier hpre).events (b, ev) (by simp [mem_of.mp hev])
    have hnoLeft : ∀ ev ∈ of b mid, ev ≠ .left k := by
      rintro ev hev rfl
      exact hleft (mem_of.mp hev)
    have hdispatched' : (w.pages (pre ++ [(b, .decoded j)]) b).transport.Dispatched w.platform
        encoded j bundle.roomId i := hone ▸ hdispatched
    have hlater : w.pages (pre ++ (b, .decoded j) :: mid) b =
        after w.step (w.pages (pre ++ [(b, .decoded j)]) b) (of b mid) := by
      rw [List.append_cons, pages_append]
    have hall := run_handed w.reason hw.reparses hw.deflates (hw.located b) (of b mid) hnext
      (housed hw hfair' b) hevents hdispatched' hstays hnoLeft
    rw [hlater, putOutSince_eq, ← hremaining]
    refine hall.trans ?_
    rw [hone]
    rfl

theorem mem_answers {outs : List Out} {o : UrlFragment.Out} :
    o ∈ answers outs ↔ ∃ ev outs', .transport ev outs' ∈ outs ∧ o ∈ outs' := by
  constructor
  · intro h
    obtain ⟨out, hout, h⟩ := List.mem_flatMap.mp h
    cases out with
    | transport ev outs' => exact ⟨ev, outs', hout, h⟩
    | _ => cases h
  · rintro ⟨ev, outs', hout, h⟩
    exact List.mem_flatMap.mpr ⟨_, hout, h⟩

theorem connected_others (hw : w.Proper) (h : w.Fair evs) {b : κ} {j k : Nat}
    {m : SignalingMessage} (hinvoke : .invoke j k m ∈ answers (w.putOut b evs)) :
    ∃ s, (w.pages evs b).sessions[k]? = some s ∧ ∃ a, m ∈ published s.roomId (w.putOut a evs) := by
  have hevents := h.of_events b
  obtain ⟨ev', outs', hout, hmem⟩ := mem_answers.mp hinvoke
  obtain ⟨before, rest, hsplit⟩ := List.append_of_mem hout
  rw [putOut_eq] at hsplit
  obtain ⟨pre, ev, post, hevs, hbefore, hstep⟩ := outputs_split w.step hsplit
  rw [hevs] at hevents
  obtain ⟨hpre, hrest⟩ := List.forall_mem_append.mp hevents
  have hsound := (Sound.load w.parse w.platform (w.me b) (w.location b)).run w.reason
    hw.reparses hw.deflates (hw.located b) pre hpre
  have hnext := hsound.step w.reason hw.reparses hw.deflates (hw.located b) (hrest ev (.head _))
  obtain ⟨encoded, bundle, hrequest, hdecode, hm, hk⟩ := hsound.step_invoked
    (fun e he => hnext.proper e (by rw [requests_append]; exact List.mem_append_right _ he))
    (mem_answers.mpr ⟨ev', outs', hstep, hmem⟩)
  -- the bundle is the one of a link, and its room the one of the session
  have himport : .importBundle encoded ∈ requests (w.putOut b evs) := by
    rw [putOut_eq, hevs, outputs_append, requests_append]
    exact List.mem_append_left _ hrequest
  obtain ⟨href, bundle', inviter, hhref, hleads, hdecode'⟩ :=
    (known hw h b).imports encoded himport
  obtain rfl := Except.ok.inj (hdecode.symm.trans hdecode')
  obtain ⟨a, -, hinfix, -⟩ := composed_linked hw h hhref hleads
  obtain ⟨s, hs, hroom⟩ := (run_housed hw.reparses hw.deflates (hw.located b) pre
    (Sound.load _ _ _ _) (housed_load _ _) hpre).members _ k hk
  refine ⟨s, ?_, a, hroom ▸ hinfix.subset hm⟩
  rw [pages_eq, hevs, after_append]
  obtain ⟨more, hmore⟩ := run_sessions w.parse w.platform w.reason (ev :: post)
    (after w.step (.load (w.me b) (w.location b)) pre)
  exact hmore ▸ (List.getElem?_append_left (List.getElem?_eq_some_iff.mp hs).1).trans hs

/-- Pages that consume one another's links are connected. -/
theorem links_connect (hw : w.Proper) (h : w.Fair evs) : w.Connected evs where
  links a room url hlink := (sound hw h a).links room url hlink
  joined _ _ hs hrole := connected_joined hw h hs hrole
  handed _ _ _ _ _ _ _ hpre hj hdecode hk hleft :=
    connected_handed hw h hpre hj hdecode hk hleft
  others _ _ _ _ hinvoke := connected_others hw h hinvoke

end

end Setting

/-! ## A studio -/

/-- An inviter and a joiner, both at the page of the studio. -/
def studio : Setting Bool where
  parse := studioParser
  platform := blockPlatform
  reason := js "Invalid URL"
  me inviter := if inviter then js "01jrmcv3p4abcdefghjkmnpqrs" else js "01jrmcv3p4n8e7y9w0q5t2k1h6"
  location _ := studioUrl.href

def studioRoom : JsString := js "01jrmcv3p4n8e7y9w0q5t2k1h6"

def studioOffer : Json :=
  .obj [(js "kind", .str (js "offer")), (js "from", .str (studio.me true)),
    (js "sdp", .str (js "v=0"))]

/-- The inviter composes a link. -/
def invited : List (Bool × Event) :=
  [(true, .createRoom studioRoom), (true, .published 0 (.ofJson studioOffer)),
    (true, .composeExportUrl), (true, .resumed 0 studioRoom false)]

def linksOf (outs : List Out) : List JsString :=
  outs.filterMap fun
    | .link roomId url => if roomId = studioRoom then some url else none
    | _ => none

def studioLink : JsString := ((linksOf (studio.putOut true invited)).head?).getD []

/-- The joiner opens it, and imports the offer. -/
def studioRun : List (Bool × Event) :=
  invited ++ [(false, .consumeUrl studioLink), (false, .resumed 0 studioRoom false),
    (false, .resumed 0 studioRoom false), (false, .decoded 0), (false, .turn 0 false),
    (false, .turn 0 false)]

theorem studioLink_composed : .link studioRoom studioLink ∈ studio.putOut true invited := by
  have hlink : (linksOf (studio.putOut true invited)).head?.isSome = true := by decide +kernel
  obtain ⟨url, hurl⟩ := Option.isSome_iff_exists.mp hlink
  have hmem : url ∈ linksOf (studio.putOut true invited) := List.mem_of_head? hurl
  rw [studioLink, hurl, Option.getD_some]
  obtain ⟨o, ho, heq⟩ := List.mem_filterMap.mp hmem
  split at heq
  · next roomId url' =>
    split at heq
    · next hroom =>
      obtain rfl := Option.some.inj heq
      exact hroom ▸ ho
    · cases heq
  · cases heq

theorem studio_proper : studio.Proper where
  reparses := studioParser_reparses
  deflates := blockPlatform_deflates
  located _ := by
    have hparsed : studioParser studioUrl.href none = some studioUrl := by decide +kernel
    have hplain : includes studioUrl.href (js "i=") = false := by decide +kernel
    exact ⟨⟨studioUrl, hparsed, rfl⟩, hplain⟩

theorem studioRun_fair : studio.Fair studioRun where
  events := by
    have hroom : isRoomId studioRoom = true := by decide +kernel
    have hoffer : Sendable (.ofJson studioOffer) := by
      refine ⟨⟨studioOffer, ⟨by decide +kernel, trivial, trivial, trivial, trivial⟩, rfl⟩, ?_⟩
      decide +kernel
    simp [studioRun, invited, Event.Fair, hroom, hoffer]
  links pre a href := by
    rintro ⟨post, hpost⟩
    have hget : studioRun[pre.length]? = some (a, .consumeUrl href) := by
      rw [← hpost, List.append_assoc, List.getElem?_append_right (Nat.le_refl _), Nat.sub_self]
      rfl
    have hpre : pre = studioRun.take pre.length := by
      rw [← hpost, List.append_assoc, List.take_left]
    have hlength : pre.length < 10 := (List.getElem?_eq_some_iff.mp hget).1
    generalize pre.length = n at hget hpre hlength
    interval_cases n <;> simp [studioRun, invited] at hget
    obtain ⟨rfl, rfl⟩ := hget
    exact hpre ▸ ⟨true, studioRoom, studioLink_composed⟩

theorem links_connect_studio : studio.Connected studioRun :=
  Setting.links_connect studio_proper studioRun_fair

end Senn.Web
