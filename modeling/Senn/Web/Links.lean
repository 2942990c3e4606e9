import Senn.UrlFragment.Export

/-! # Links between pages

What `composeExportUrl` of the web page makes of an encoded bundle, and what `consumeUrl` finds in
it: from an inviter an invite with the bundle, from a joiner the bundle alone. -/

namespace Senn.Web
open Senn.Js Senn.Protocol Senn.Invite
open Senn.UrlFragment (Page toFragment)
open Senn.UrlFragment.UrlFragmentSignaling (exportUrl)

/-- `href.includes(text)` -/
def includes (href text : JsString) : Bool := decide (text <:+: href)

/-- The links that `consumeUrl` takes for invites. -/
def looksLikeInvite (href : JsString) : Bool :=
  includes href (js "#") && includes href (js "i=")

variable (parse : UrlParser) (P : Platform)

/-- `extractBundleFromUrl`; `reason` is the message of the error that `new URL` throws. -/
def extractBundleFromUrl (reason href : JsString) : Except BundleError (Option JsString) :=
  match parse href none with
  | none => .error (bundleError (js "not a valid URL: " ++ reason))
  | some url =>
    match url.hash with
    | [] | [0x23] => .ok none
    | 0x23 :: fragment => .ok (paramsGet (searchParams fragment) SIGNALING_BUNDLE_FRAGMENT_KEY)
    | fragment => .ok (paramsGet (searchParams fragment) SIGNALING_BUNDLE_FRAGMENT_KEY)

/-- The address of a page, its origin and its path, is a URL without a query. -/
structure Located (base : JsString) : Prop where
  parsed : ∃ u, parse base none = some u ∧ u.withoutFragment = base
  plain : includes base (js "i=") = false

/-- A page finds the bundle in the link, and the invite of the inviter, if it is one of an
inviter. -/
structure Leads (href : JsString) (b : SignalingBundleV1) (inviter : Option JsString) : Prop where
  form : looksLikeInvite href = inviter.isSome
  invite : ∀ me, inviter = some me → ∃ p, parseInviteBundleUrl parse P href = .ok ⟨p, some b⟩ ∧
    p.roomId = b.roomId ∧ p.from_ = me
  bundle : ∃ encoded, encoded ≠ [] ∧ decodeSignalingBundle P encoded = .ok b ∧
    ∀ reason, extractBundleFromUrl parse reason href = .ok (some encoded)

variable {parse P}

/-! ## Substrings -/

theorem includes_append_left {href text : JsString} (h : includes href text = true)
    (before : JsString) : includes (before ++ href) text = true := by
  obtain ⟨a, b, rfl⟩ := of_decide_eq_true h
  exact decide_eq_true ⟨before ++ a, b, by simp⟩

theorem includes_cons {v : UInt16} {r : JsString} : includes (v :: r) [v] = true :=
  decide_eq_true ⟨[], r, rfl⟩

/-- A text with an `i=` in it has the `i` or the `=` at the place of `v`, or has it on one side. -/
theorem infix_append_cons {a b : JsString} {v : UInt16} (hi : v ≠ 0x69) (heq : v ≠ 0x3D)
    (h : js "i=" <:+: a ++ v :: b) : js "i=" <:+: a ∨ js "i=" <:+: b := by
  induction a with
  | nil =>
    obtain hprefix | hinfix := List.infix_cons_iff.mp h
    · exact absurd (List.cons_prefix_cons.mp hprefix).1.symm hi
    · exact .inr hinfix
  | cons w a ih =>
    obtain hprefix | hinfix := List.infix_cons_iff.mp h
    · obtain ⟨rfl, hrest⟩ := List.cons_prefix_cons.mp hprefix
      cases a with
      | nil => exact absurd (List.cons_prefix_cons.mp hrest).1.symm heq
      | cons x a =>
        obtain ⟨rfl, -⟩ := List.cons_prefix_cons.mp hrest
        exact .inl ⟨[], a, rfl⟩
    · exact (ih hinfix).imp_left fun h => h.trans (List.infix_cons_iff.mpr (.inr (List.infix_refl a)))

/-! ## The bundle in a link -/

/-- The parameter `s` of a URL is the bundle that is extracted. -/
theorem extractBundleFromUrl_ok {href encoded : JsString} {url : Url}
    (hurl : parse href none = some url)
    (hget : paramsGet (fragmentParams url) SIGNALING_BUNDLE_FRAGMENT_KEY = some encoded)
    (reason : JsString) : extractBundleFromUrl parse reason href = .ok (some encoded) := by
  unfold extractBundleFromUrl
  rw [hurl]
  unfold fragmentParams at hget
  dsimp only
  split
  · next h =>
    rw [h] at hget
    cases hget
  · next h =>
    rw [h] at hget
    cases hget
  · next fragment _ h =>
    rw [h] at hget
    exact congrArg _ hget
  · next hash _ _ hno =>
    split at hget
    · next fragment h => exact absurd h (hno fragment)
    · exact congrArg _ hget

/-- The link of a joiner. -/
theorem toFragment_kept {encoded : JsString} (h : Kept encoded) :
    toFragment encoded ≠ [] ∧ (∀ v ∈ toFragment encoded, Url.Plain v) ∧
      searchParams (toFragment encoded) = [(SIGNALING_BUNDLE_FRAGMENT_KEY, encoded)] := by
  refine ⟨List.cons_ne_nil _ _, ?_, ?_⟩
  · intro v hv
    obtain hkey | rfl | hrest := by simpa [toFragment] using hv
    · exact .of_kept (key_kept.2 v hkey)
    · exact ⟨by decide, by decide⟩
    · exact .of_kept (h v hrest)
  · exact (searchParams_kept (by decide)).trans (formParts_one key_kept.2 h)

theorem joiner_leads (hparse : parse.Reparses) {base encoded : JsString} {b : SignalingBundleV1}
    (hbase : Located parse base) (hkept : Kept encoded) (hne : encoded ≠ [])
    (hdecode : decodeSignalingBundle P encoded = .ok b) :
    Leads parse P (base ++ 0x23 :: toFragment encoded) b none := by
  obtain ⟨u, hu, hbase'⟩ := hbase.parsed
  obtain ⟨hne', hplain, hparams⟩ := toFragment_kept hkept
  have hhref : (u.setHash (toFragment encoded)).href = base ++ 0x23 :: toFragment encoded := by
    rw [Url.setHash_plain u hne' hplain, ← hbase']
    rfl
  have hparsed := hparse base u hu _ hne' hplain
  rw [hhref] at hparsed
  refine ⟨?_, fun me hme => ?_, encoded, hne, hdecode, fun reason =>
    extractBundleFromUrl_ok hparsed ?_ reason⟩
  · rw [looksLikeInvite, Option.isSome_none, Bool.and_eq_false_iff]
    refine .inr (decide_eq_false fun h => ?_)
    obtain h | h := infix_append_cons (by decide) (by decide) h
    · exact of_decide_eq_false hbase.plain h
    · -- the `=` after the key `s` is the only one
      have hno : (0x3D : UInt16) ∉ encoded := hkept.not_mem (by decide)
      obtain hprefix | h := List.infix_cons_iff.mp h
      · exact absurd (List.cons_prefix_cons.mp hprefix).1 (by decide)
      · obtain hprefix | h := List.infix_cons_iff.mp h
        · exact absurd (List.cons_prefix_cons.mp hprefix).1 (by decide)
        · exact hno (h.subset (.tail _ (.head _)))
  · cases hme
  · rw [fragmentParams_setHash u hne' hplain, hparams]
    rfl

/-! ## The invite in a link -/

/-- The bundle of the first hop is read as what was decoded. -/
theorem spells_toData {b b' : SignalingBundleV1} (h : Spells b.toData b') (hb : b.Valid)
    (hb' : b'.Valid) : b' = b :=
  Except.ok.inj ((validate_of_spells h hb').symm.trans hb.accepted)

theorem toData_tidy (b : SignalingBundleV1) : Tidy b.toData := by
  refine ⟨bundleFields_nodup _ _ _, fun xs rest h x hx => ?_⟩
  obtain ⟨rfl, -⟩ := Data.arr.inj (show Data.arr (b.messages.map fun m => .obj m.fields) [] = _ from h)
  obtain ⟨m, -, rfl⟩ := List.mem_map.mp hx
  exact m.fields_nodup

theorem invite_document {page : Page} {roomId : JsString} {p : InvitePayload}
    (h : ∃ ms, page.invite roomId = .obj ms ∧ InviteDocument ms p) :
    p.roomId = roomId ∧ p.from_ = page.me := by
  obtain ⟨ms, hms, hdocument⟩ := h
  obtain rfl := Data.obj.inj hms
  exact ⟨(Data.str.inj hdocument.roomId).symm, (Data.str.inj hdocument.from_).symm⟩

/-- What is built has the key `i` first in its fragment. -/
theorem buildInviteBundleUrl_form (hP : Deflates P) {base result : JsString} {invite bundle : Data}
    (h : buildInviteBundleUrl parse P base invite bundle = .ok result) :
    looksLikeInvite result = true := by
  unfold buildInviteBundleUrl at h
  obtain ⟨_, -, h⟩ := bind_ok h
  obtain ⟨_, -, h⟩ := bind_ok h
  obtain ⟨_, -, h⟩ := bind_ok h
  obtain ⟨_, -, h⟩ := bind_ok h
  obtain ⟨u, -, h⟩ := bind_ok h
  obtain ⟨_, -, h⟩ := bind_ok h
  obtain ⟨inviteEncoded, hinvite, h⟩ := bind_ok h
  obtain ⟨bundleEncoded, hbundle, hlength⟩ := bind_ok h
  obtain ⟨hkept, -, -⟩ := encodeInvite_kept hP (mapError_ok.mp hinvite)
  obtain ⟨hkept', -⟩ := encodeSignalingBundle_kept hP (mapError_ok.mp hbundle)
  obtain ⟨rfl, -⟩ := checkLength_ok.mp hlength
  rw [show INVITE_FRAGMENT_KEY ++ 0x3D :: inviteEncoded ++ 0x26 ::
      (SIGNALING_BUNDLE_FRAGMENT_KEY ++ 0x3D :: bundleEncoded) =
        bothText inviteEncoded bundleEncoded from rfl,
    Url.setHash_plain u (bothText_ne_nil _ _) (bothText_plain hkept hkept')]
  refine Bool.and_eq_true_iff.mpr ⟨includes_append_left includes_cons _, ?_⟩
  refine includes_append_left (decide_eq_true ?_) _
  exact ⟨[0x23], inviteEncoded ++ 0x26 :: (SIGNALING_BUNDLE_FRAGMENT_KEY ++ 0x3D :: bundleEncoded),
    by simp [bothText, inviteText, INVITE_FRAGMENT_KEY, js]⟩

theorem inviter_leads (hparse : parse.Reparses) (hP : Deflates P) {page : Page}
    {url encoded : JsString} {b : SignalingBundleV1} (hhop : page.isFirstHop = true)
    (hdecode : decodeSignalingBundle P encoded = .ok b) (hjson : ∀ m ∈ b.messages, m.InJson)
    (h : exportUrl parse P page b.roomId encoded = .ok url) :
    Leads parse P url b (some page.me) := by
  unfold exportUrl at h
  rw [if_pos hhop, mapError_ok.mpr hdecode, ok_bind] at h
  have hform := buildInviteBundleUrl_form hP (mapError_ok.mp h)
  have hb := decodeSignalingBundle_valid hdecode
  have hvalid : validateSignalingBundle b.toData = .ok b := hb.accepted
  obtain ⟨⟨u, u', fragment, -, hparsed, rfl, rfl, -, -⟩, p, b', hdocument, hspells, hlink⟩ :=
    buildInviteBundleUrl_parsed hparse hP (toData_tidy b)
      (fun b' hb' => by rwa [← Except.ok.inj (hvalid.symm.trans hb')]) (mapError_ok.mp h)
  obtain ⟨url, hurl, hkeys, hinvite, hbundle⟩ := parseInviteBundleUrl_ok.mp hlink
  obtain ⟨heq, -⟩ | ⟨b'', encoded', heq, hget, hne, hdecode', -⟩ := bundleParam_ok.mp hbundle
  · cases heq
  obtain rfl := Option.some.inj heq
  obtain rfl := spells_toData hspells hb (decodeSignalingBundle_valid hdecode')
  obtain ⟨hroom, hfrom⟩ := invite_document hdocument
  exact ⟨hform, fun me hme => ⟨p, hlink, hroom, Option.some.inj hme ▸ hfrom⟩, encoded', hne,
    hdecode', extractBundleFromUrl_ok hurl hget⟩

end Senn.Web
