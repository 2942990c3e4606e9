import Senn.Lib.Selection
import Senn.Registry.Readers
import Senn.Scripts.Licenses

/-! # Meta indexes

The list of publishers a gallery opens: what the validator of the publishing scripts accepts, and
what the gallery makes of a list that it takes for one. -/

namespace Senn.Gallery
open Senn.Js Senn.Lib Senn.Schema
open Senn.Scripts (isBlank trim)

structure PublisherEntryV1 where
  url : JsString
  name : Option JsString
  featured : Option Bool
  endorsedBy : Option (List JsString)
  endorsementUrl : Option JsString
deriving DecidableEq

structure PublisherMetaIndexV1 where
  publishers : List PublisherEntryV1
deriving DecidableEq

/-- `parsed.protocol === "https:" || parsed.protocol === "http:"` -/
def isWeb (u : Url) : Bool := u.protocol = js "https:" || u.protocol = js "http:"

section
variable (parse : UrlParser)

/-! ## The gallery -/

/-- The loop over the labels, which ends with the eighth. -/
def endorsedLabels : List JsString → List Json → List JsString
  | out, [] => out
  | out, .str v :: vs =>
    let t := trim v
    if t.length = 0 || 80 < t.length then endorsedLabels out vs
    else if 8 ≤ (out ++ [t]).length then out ++ [t]
    else endorsedLabels (out ++ [t]) vs
  | out, _ :: vs => endorsedLabels out vs

def normalizeEndorsedBy (value : Option Json) : Option (List JsString) :=
  match value with
  | some (.arr vs) => if endorsedLabels [] vs = [] then none else some (endorsedLabels [] vs)
  | _ => none

def normalizeEndorsementUrl (value : Option Json) : Option JsString :=
  match value with
  | some (.str s) => ((parse s none).filter isWeb).map Url.href
  | _ => none

/-- `p.name` where it is a string of 1 to 80 units. -/
def nameOf (p : Json) : Option JsString := (stringIfAny (p.get? (js "name"))).filter (sized 80)

/-- `p.featured` where it is a boolean. -/
def featuredOf (p : Json) : Option Bool :=
  match p.get? (js "featured") with
  | some (.bool b) => some b
  | _ => none

/-- The entry that is pushed for a publisher; an empty text is not kept. -/
def publisherEntry (p : Json) : PublisherEntryV1 where
  url := textOf p (js "url")
  name := nameOf p
  featured := featuredOf p
  endorsedBy := normalizeEndorsedBy (p.get? (js "endorsedBy"))
  endorsementUrl := (normalizeEndorsementUrl parse (p.get? (js "endorsementUrl"))).filter (· ≠ [])

/-- The loop over the publishers. -/
def selectPublishers : List JsString → List Json → List PublisherEntryV1
  | _, [] => []
  | seen, p :: ps =>
    let url := textOf p (js "url")
    if url ∈ seen then selectPublishers seen ps
    else
      match parse url none with
      | some parsed =>
        if isWeb parsed then publisherEntry parse p :: selectPublishers (url :: seen) ps
        else selectPublishers seen ps
      | none => selectPublishers seen ps

def publishersOf (value : Json) : List Json := (elements (value.get? (js "publishers"))).getD []

/-- `featured ?? false` -/
def PublisherEntryV1.isFeatured (e : PublisherEntryV1) : Bool := e.featured.getD false

def normalizeMetaIndex (value : Json) : PublisherMetaIndexV1 :=
  ⟨flaggedFirst PublisherEntryV1.isFeatured (selectPublishers parse [] (publishersOf value))⟩

/-! ## The validator -/

def validateLabels (place : JsString) (value : Json) : Except JsString (List JsString) := do
  let labels ← stringArray (some value)
    (place ++ js ".endorsedBy: must be a string array when present")
  ensure (1 ≤ labels.length && labels.length ≤ 8)
    (place ++ js ".endorsedBy: must have 1..8 entries when present")
  ensure (labels.all (sized 80)) (place ++ js ".endorsedBy: each label must be 1..80 chars")
  return labels

def validateEndorsementUrl (place : JsString) (value : Json) : Except JsString JsString := do
  let url ← stringValue (fun _ => true)
    (place ++ js ".endorsementUrl: must be a string when present") (some value)
  ensure (parse url none).isSome (place ++ js ".endorsementUrl: must be a valid URL")
  return url

def validatePublisherUrl (seen : List JsString) (place url : JsString) : Except JsString Unit :=
  match parse url none with
  | none => .error (place ++ js ".url: " ++ quoted url ++ js " is not an absolute URL")
  | some parsed => do
    ensure (isWeb parsed) (place ++ js ".url: must use http(s), got " ++ parsed.protocol)
    ensure (url ∉ seen) (place ++ js ".url: duplicate " ++ quoted url)

def booleanValue (message : JsString) : Json → Except JsString Bool
  | .bool b => .ok b
  | _ => .error message

def validatePublisher (seen : List JsString) (place : JsString) (raw : Json) :
    Except JsString PublisherEntryV1 := do
  let p ← looseMembers (some raw) (place ++ js ": not an object")
  let url ← stringMember p (js "url") (fun _ => true) (place ++ js ".url: must be a string")
  validatePublisherUrl parse seen place url
  let name ← optionalMember p (js "name") fun value =>
    stringValue (sized 80) (place ++ js ".name: must be 1..80 char string when present")
      (some value)
  let featured ← optionalMember p (js "featured")
    (booleanValue (place ++ js ".featured: must be boolean when present"))
  let endorsedBy ← optionalMember p (js "endorsedBy") (validateLabels place)
  let endorsementUrl ← optionalMember p (js "endorsementUrl") (validateEndorsementUrl parse place)
  return ⟨url, name, featured, endorsedBy, endorsementUrl⟩

def validatePublishers : List JsString → Nat → List Json → Except JsString (List PublisherEntryV1)
  | _, _, [] => .ok []
  | seen, i, raw :: raws => do
    let e ← validatePublisher parse seen (indexed (js "meta.publishers") i) raw
    let es ← validatePublishers (e.url :: seen) (i + 1) raws
    return e :: es

def validateMetaIndex (input : Json) : Except JsString PublisherMetaIndexV1 := do
  let o ← looseMembers (some input) (js "meta: not an object")
  ensure (isNumber 1 (member o (js "v"))) (js "meta: v must be 1")
  ensure (isText META_KIND (member o (js "kind")))
    (js "meta: kind must be \"senn-publisher-meta\"")
  let raws ← arrayValue (member o (js "publishers")) (js "meta: publishers must be an array")
  ensure (raws ≠ []) (js "meta: publishers must be non-empty")
  let publishers ← validatePublishers parse [] 0 raws
  return ⟨publishers⟩

end

/-! ## Documents and their entries -/

def PublisherEntryV1.fields (e : PublisherEntryV1) : List (JsString × Option Json) :=
  [(js "url", some (.str e.url)), (js "name", e.name.map .str),
    (js "featured", e.featured.map .bool), (js "endorsedBy", e.endorsedBy.map stringsJson),
    (js "endorsementUrl", e.endorsementUrl.map .str)]

def PublisherEntryV1.toJson (e : PublisherEntryV1) : Json := .obj (present e.fields)

def PublisherMetaIndexV1.toJson (index : PublisherMetaIndexV1) : Json :=
  .obj [(js "v", .num (.ofNat 1)), (js "kind", .str META_KIND),
    (js "publishers", .arr (index.publishers.map PublisherEntryV1.toJson))]

def urlOf (p : Json) : JsString := textOf p (js "url")

/-- `p.featured` is `true`. -/
def isFeatured (p : Json) : Bool := (featuredOf p).getD false

/-- A publisher's url, its name and whether it is featured. -/
def PublisherEntryV1.summary (e : PublisherEntryV1) : JsString × Option JsString × Option Bool :=
  (e.url, e.name, e.featured)

/-- The same of a publisher in a document. -/
def summaryOf (p : Json) : JsString × Option JsString × Option Bool :=
  (urlOf p, stringIfAny (p.get? (js "name")), featuredOf p)

section
variable (parse : UrlParser)

/-- The text of an http or https URL. -/
def opensWeb (s : JsString) : Bool := (parse s none).any isWeb

/-- The publisher's url can be opened. -/
def isOpenable (p : Json) : Bool := opensWeb parse (urlOf p)

/-- An http or https URL is what its own text is parsed as. -/
def ReadsBack : Prop := ∀ input u, parse input none = some u → isWeb u = true → parse.Settles u

/-- The first of the publishers with each url that can be opened, in their order. -/
structure Kept (ps kept : List Json) : Prop where
  sublist : kept.Sublist ps
  opens : ∀ p ∈ kept, isOpenable parse p = true
  distinct : (kept.map urlOf).Nodup
  first : ∀ p ∈ kept, ps.find? (fun q => urlOf q = urlOf p) = some p
  complete : ∀ p ∈ ps, isOpenable parse p = true → urlOf p ∈ kept.map urlOf

/-- A label as it is kept. -/
def IsLabel (s : JsString) : Prop := trim s = s ∧ sized 80 s = true

structure PublisherEntryV1.Valid (e : PublisherEntryV1) : Prop where
  url : opensWeb parse e.url = true
  name : ∀ s ∈ e.name, sized 80 s = true
  endorsedBy : ∀ ls ∈ e.endorsedBy, ls ≠ [] ∧ ls.length ≤ 8 ∧ ∀ l ∈ ls, IsLabel l
  endorsementUrl : ∀ s ∈ e.endorsementUrl,
    ∃ u, parse s none = some u ∧ isWeb u = true ∧ u.href = s

end

/-! ## Labels -/

theorem trim_idem (s : JsString) : trim (trim s) = trim s := by
  have hdrop : (trim s).dropWhile isBlank = trim s := by
    show ((s.dropWhile isBlank).rdropWhile isBlank).dropWhile isBlank = _
    cases ht : s.dropWhile isBlank with
    | nil => rw [trim, trimmed, ht]; rfl
    | cons a r =>
      have ha : isBlank a = false := by
        have := List.head?_dropWhile_not isBlank s
        rw [ht] at this
        simpa using this
      have hprefix := List.rdropWhile_prefix isBlank (l := a :: r)
      rw [trim, trimmed, ht]
      cases hr : (a :: r).rdropWhile isBlank with
      | nil => rfl
      | cons b t =>
        rw [hr] at hprefix
        obtain rfl : b = a := (List.cons_prefix_cons.mp hprefix).1
        rw [List.dropWhile_cons_of_neg (by simp [ha])]
  rw [trim, trimmed, hdrop, trim, trimmed, List.rdropWhile_idempotent]

/-- What a label is kept as, if it is. -/
def keptLabel : Json → Option JsString
  | .str v => (some (trim v)).filter (sized 80)
  | _ => none

theorem endorsedLabels_eq (vs : List Json) : ∀ out : List JsString, out.length < 8 →
    endorsedLabels out vs = out ++ (vs.filterMap keptLabel).take (8 - out.length) := by
  induction vs with
  | nil => simp [endorsedLabels]
  | cons v vs ih =>
    intro out hout
    cases v with
    | str v =>
      have hsized : sized 80 (trim v) = true ↔
          ¬((trim v).length = 0 || decide (80 < (trim v).length)) = true := by
        simp only [sized, Bool.and_eq_true, Bool.or_eq_true, decide_eq_true_eq]
        omega
      unfold endorsedLabels
      by_cases hv : sized 80 (trim v) = true
      · have hkept : keptLabel (.str v) = some (trim v) := by simp [keptLabel, hv]
        have htake : 8 - out.length = 7 - out.length + 1 := by omega
        dsimp only
        rw [if_neg (hsized.mp hv), List.filterMap_cons_some hkept, htake, List.take_succ_cons]
        split
        · next hfull =>
          have hlast : 7 - out.length = 0 := by
            simp only [List.length_append, List.length_singleton] at hfull
            omega
          rw [hlast, List.take_zero]
        · next hmore =>
          have hlength : (out ++ [trim v]).length = out.length + 1 := List.length_append
          rw [ih _ (Nat.lt_of_not_le hmore), hlength, Nat.add_comm, Nat.sub_add_eq,
            List.append_assoc]
          rfl
      · have hkept : keptLabel (.str v) = none := by simp [keptLabel, hv]
        dsimp only
        rw [if_pos (by_contra fun h => hv (hsized.mpr h)), List.filterMap_cons_none hkept]
        exact ih out hout
    | _ => exact ih out hout

theorem keptLabel_isLabel {v : Json} {l : JsString} (h : keptLabel v = some l) : IsLabel l := by
  cases v with
  | str v =>
    rw [keptLabel] at h
    obtain ⟨hl, hsized⟩ := Option.filter_eq_some_iff.mp h
    obtain rfl := Option.some.inj hl
    exact ⟨trim_idem v, hsized⟩
  | _ => cases h

theorem normalizeEndorsedBy_valid {value : Option Json} {ls : List JsString}
    (h : normalizeEndorsedBy value = some ls) :
    ls ≠ [] ∧ ls.length ≤ 8 ∧ ∀ l ∈ ls, IsLabel l := by
  unfold normalizeEndorsedBy at h
  split at h
  · next vs =>
    rw [endorsedLabels_eq vs [] (by decide), List.nil_append] at h
    split at h
    · cases h
    · next hne =>
      obtain rfl := Option.some.inj h
      refine ⟨hne, List.length_take_le _ _, fun l hl => ?_⟩
      obtain ⟨v, -, hv⟩ := List.mem_filterMap.mp (List.mem_of_mem_take hl)
      exact keptLabel_isLabel hv
  · cases h

/-- Labels in their form are kept as they are. -/
theorem normalizeEndorsedBy_labels {ls : List JsString} (hne : ls ≠ []) (hlength : ls.length ≤ 8)
    (h : ∀ l ∈ ls, IsLabel l) : normalizeEndorsedBy (some (stringsJson ls)) = some ls := by
  have hkept : (ls.map Json.str).filterMap keptLabel = ls := by
    rw [List.filterMap_map]
    conv_rhs => rw [← List.filterMap_some (l := ls)]
    refine List.filterMap_congr fun l hl => ?_
    obtain ⟨htrim, hsized⟩ := h l hl
    simp [keptLabel, htrim, hsized]
  have hlabels : endorsedLabels [] (ls.map Json.str) = ls := by
    rw [endorsedLabels_eq _ [] (by decide), hkept]
    exact List.take_of_length_le hlength
  show (if endorsedLabels [] (ls.map Json.str) = [] then none
    else some (endorsedLabels [] (ls.map Json.str))) = some ls
  rw [hlabels, if_neg hne]

/-! ## Entries -/

section
variable {parse : UrlParser}

theorem href_ne_nil (u : Url) : u.href ≠ [] := by
  unfold Url.href Url.withoutFragment
  split <;> simp

theorem publisherEntry_valid (hparse : ReadsBack parse) {p : Json}
    (h : isOpenable parse p = true) : (publisherEntry parse p).Valid parse where
  url := h
  name := fun _ hs => (Option.filter_eq_some_iff.mp hs).2
  endorsedBy := fun _ hls => normalizeEndorsedBy_valid hls
  endorsementUrl := by
    intro s hs
    obtain ⟨hs, -⟩ := Option.filter_eq_some_iff.mp hs
    unfold normalizeEndorsementUrl at hs
    split at hs
    · obtain ⟨u, hu, rfl⟩ := Option.map_eq_some_iff.mp hs
      obtain ⟨hu, hweb⟩ := Option.filter_eq_some_iff.mp hu
      exact ⟨u, hparse _ u hu hweb, hweb, rfl⟩
    · cases hs

theorem get?_toJson (e : PublisherEntryV1) (k : JsString) :
    e.toJson.get? k = (e.fields.find? fun f => decide (f.1 = k)).bind Prod.snd := by
  refine member_present ?_ k
  show [js "url", js "name", js "featured", js "endorsedBy", js "endorsementUrl"].Nodup
  decide

theorem featuredOf_toJson (e : PublisherEntryV1) : featuredOf e.toJson = e.featured := by
  have hget : e.toJson.get? (js "featured") = e.featured.map .bool := get?_toJson e _
  rw [featuredOf, hget]
  cases e.featured <;> rfl

theorem nameOf_toJson {e : PublisherEntryV1} (h : ∀ s ∈ e.name, sized 80 s = true) :
    nameOf e.toJson = e.name := by
  have hget : e.toJson.get? (js "name") = e.name.map .str := get?_toJson e _
  rw [nameOf, hget]
  cases hname : e.name with
  | none => rfl
  | some s =>
    show (some s).filter (sized 80) = some s
    rw [Option.filter_some, if_pos (h s hname)]

theorem endorsedBy_toJson {e : PublisherEntryV1} (h : e.Valid parse) :
    normalizeEndorsedBy (e.toJson.get? (js "endorsedBy")) = e.endorsedBy := by
  have hget : e.toJson.get? (js "endorsedBy") = e.endorsedBy.map stringsJson := get?_toJson e _
  rw [hget]
  cases hlabels : e.endorsedBy with
  | none => rfl
  | some ls =>
    obtain ⟨hne, hlength, hall⟩ := h.endorsedBy ls hlabels
    exact normalizeEndorsedBy_labels hne hlength hall

theorem endorsementUrl_toJson {e : PublisherEntryV1} (h : e.Valid parse) :
    (normalizeEndorsementUrl parse (e.toJson.get? (js "endorsementUrl"))).filter (· ≠ []) =
      e.endorsementUrl := by
  have hget : e.toJson.get? (js "endorsementUrl") = e.endorsementUrl.map .str := get?_toJson e _
  rw [hget]
  cases hurl : e.endorsementUrl with
  | none => rfl
  | some s =>
    obtain ⟨u, hu, hweb, rfl⟩ := h.endorsementUrl s hurl
    show (((parse u.href none).filter isWeb).map Url.href).filter (· ≠ []) = _
    simp [hu, hweb, href_ne_nil]

/-- A valid entry is kept as it is. -/
theorem publisherEntry_toJson {e : PublisherEntryV1} (h : e.Valid parse) :
    publisherEntry parse e.toJson = e := by
  rw [publisherEntry, nameOf_toJson h.name, featuredOf_toJson, endorsedBy_toJson h,
    endorsementUrl_toJson h]
  rfl

/-! ## What is selected -/

theorem selectPublishers_cons (seen : List JsString) (p : Json) (ps : List Json) :
    selectPublishers parse seen (p :: ps) =
      if isOpenable parse p = true then
        if urlOf p ∈ seen then selectPublishers parse seen ps
        else publisherEntry parse p :: selectPublishers parse (urlOf p :: seen) ps
      else selectPublishers parse seen ps := by
  rw [selectPublishers, isOpenable, opensWeb]
  show (if urlOf p ∈ seen then _ else match parse (urlOf p) none with | some _ => _ | none => _) = _
  cases parse (urlOf p) none with
  | none => exact ite_self _
  | some u =>
    rw [Option.any_some]
    show (if urlOf p ∈ seen then _ else if isWeb u = true then _ else _) = _
    cases isWeb u with
    | true => rfl
    | false => exact ite_self _

/-- The loop keeps the first entry of each url that can be opened. -/
theorem selectPublishers_eq (ps : List Json) : ∀ seen, selectPublishers parse seen ps =
    (firsts urlOf seen (ps.filter (isOpenable parse))).map (publisherEntry parse) := by
  induction ps with
  | nil => exact fun _ => rfl
  | cons p ps ih =>
    intro seen
    rw [selectPublishers_cons]
    by_cases hopens : isOpenable parse p = true
    · rw [if_pos hopens, List.filter_cons_of_pos hopens, firsts]
      split
      · exact ih seen
      · rw [ih, List.map_cons]
    · rw [if_neg hopens, List.filter_cons_of_neg hopens, ih]

theorem kept_firsts (ps : List Json) :
    Kept parse ps (firsts urlOf [] (ps.filter (isOpenable parse))) where
  sublist := (firsts_sublist _ _ _).trans List.filter_sublist
  opens := fun p hp => (List.mem_filter.mp ((firsts_sublist _ _ _).subset hp)).2
  distinct := firsts_nodup _ _ _
  first := by
    intro p hp
    have hopens := (List.mem_filter.mp ((firsts_sublist _ _ _).subset hp)).2
    have hfirst := find?_of_firsts _ p hp
    -- publishers of one url can all be opened, or none
    have hsame : (fun q => decide (isOpenable parse q = true ∧ decide (urlOf q = urlOf p) = true)) =
        fun q => decide (urlOf q = urlOf p) := by
      funext q
      by_cases hq : urlOf q = urlOf p
      · have hq' : isOpenable parse q = true := by rw [isOpenable, hq]; exact hopens
        simp [hq, hq']
      · simp [hq]
    rwa [List.find?_filter, hsame] at hfirst
  complete := fun p hp hopens =>
    key_mem_firsts urlOf p (List.mem_filter.mpr ⟨hp, hopens⟩) List.not_mem_nil

/-- Featured publishers first, and each group in the order of the document. -/
theorem normalizeMetaIndex_eq (value : Json) : ∃ kept, Kept parse (publishersOf value) kept ∧
    (normalizeMetaIndex parse value).publishers =
      (kept.filter isFeatured ++ kept.filter fun p => !isFeatured p).map
        (publisherEntry parse) := by
  refine ⟨_, kept_firsts _, ?_⟩
  rw [normalizeMetaIndex, selectPublishers_eq, flaggedFirst_eq, List.filter_map, List.filter_map,
    List.map_append]
  rfl

theorem selected_valid (hparse : ReadsBack parse) (value : Json) :
    ∀ e ∈ selectPublishers parse [] (publishersOf value), e.Valid parse := by
  intro e he
  rw [selectPublishers_eq] at he
  obtain ⟨p, hp, rfl⟩ := List.mem_map.mp he
  exact publisherEntry_valid hparse ((kept_firsts _).opens p hp)

theorem selected_distinct (ps : List Json) :
    ((selectPublishers parse [] ps).map PublisherEntryV1.url).Nodup := by
  rw [selectPublishers_eq, List.map_map]
  exact (kept_firsts ps).distinct

/-- Valid entries with distinct urls are all kept, as they are. -/
theorem selectPublishers_toJson {es : List PublisherEntryV1} (h : ∀ e ∈ es, e.Valid parse)
    (hdistinct : (es.map PublisherEntryV1.url).Nodup) :
    selectPublishers parse [] (es.map PublisherEntryV1.toJson) = es := by
  have hopens : (es.map PublisherEntryV1.toJson).filter (isOpenable parse) =
      es.map PublisherEntryV1.toJson := by
    refine List.filter_eq_self.mpr fun p hp => ?_
    obtain ⟨e, he, rfl⟩ := List.mem_map.mp hp
    exact (h e he).url
  have hurls : (es.map PublisherEntryV1.toJson).map urlOf = es.map PublisherEntryV1.url := by
    rw [List.map_map]
    rfl
  rw [selectPublishers_eq, hopens, firsts_of_nodup _ (hurls ▸ hdistinct)
    (fun _ _ => List.not_mem_nil), List.map_map]
  conv_rhs => rw [← List.map_id es]
  exact List.map_congr_left fun e he => publisherEntry_toJson (h e he)

theorem normalizeMetaIndex_idem (hparse : ReadsBack parse) (value : Json) :
    normalizeMetaIndex parse (normalizeMetaIndex parse value).toJson =
      normalizeMetaIndex parse value := by
  have hperm := flaggedFirst_perm PublisherEntryV1.isFeatured
    (selectPublishers parse [] (publishersOf value))
  have hvalid : ∀ e ∈ flaggedFirst PublisherEntryV1.isFeatured
      (selectPublishers parse [] (publishersOf value)), e.Valid parse :=
    fun e he => selected_valid hparse value e (hperm.mem_iff.mp he)
  have hselected := selectPublishers_toJson hvalid
    ((hperm.map _).nodup_iff.mpr (selected_distinct _))
  show PublisherMetaIndexV1.mk (flaggedFirst _ (selectPublishers parse [] (List.map _ _))) = _
  rw [normalizeMetaIndex, hselected, flaggedFirst_idem]

/-! ## What the validator accepts -/

/-- What is known of a publisher and the entry that is made of it. -/
structure Publishes (parse : UrlParser) (raw : Json) (e : PublisherEntryV1) : Prop where
  object : isObject (some raw) = true
  url : raw.get? (js "url") = some (.str e.url)
  opens : opensWeb parse e.url = true
  name : nameOf raw = e.name
  text : stringIfAny (raw.get? (js "name")) = e.name
  featured : featuredOf raw = e.featured

theorem optionalMember_cases {α : Type} {ms : Members} {k : JsString}
    {f : Json → Except JsString α} {x : Option α} (h : optionalMember ms k f = .ok x) :
    member ms k = none ∧ x = none ∨
      ∃ value y, member ms k = some value ∧ x = some y ∧ f value = .ok y := by
  unfold optionalMember at h
  split at h
  · next hnone => exact .inl ⟨hnone, (Except.ok.inj h).symm⟩
  · next value hvalue =>
    cases hf : f value with
    | error e =>
      rw [hf] at h
      cases h
    | ok y =>
      rw [hf] at h
      exact .inr ⟨value, y, hvalue, (Except.ok.inj h).symm, hf⟩

theorem validatePublisherUrl_ok {seen : List JsString} {place url : JsString}
    (h : validatePublisherUrl parse seen place url = .ok ()) :
    opensWeb parse url = true ∧ url ∉ seen := by
  unfold validatePublisherUrl at h
  split at h
  · cases h
  · next u hu =>
    obtain ⟨_, hweb, hnew⟩ := bind_ok h
    rw [opensWeb, hu]
    exact ⟨ensure_ok hweb, of_decide_eq_true (ensure_ok hnew)⟩

theorem validatePublisher_ok {seen : List JsString} {place : JsString} {raw : Json}
    {e : PublisherEntryV1} (h : validatePublisher parse seen place raw = .ok e) :
    Publishes parse raw e ∧ e.url ∉ seen := by
  obtain ⟨p, hp, h⟩ := bind_ok h
  obtain ⟨url, hurl, h⟩ := bind_ok h
  obtain ⟨_, hopens, h⟩ := bind_ok h
  obtain ⟨name, hname, h⟩ := bind_ok h
  obtain ⟨featured, hfeatured, h⟩ := bind_ok h
  obtain ⟨endorsedBy, -, h⟩ := bind_ok h
  obtain ⟨endorsementUrl, -, h⟩ := bind_ok h
  obtain rfl := Except.ok.inj h
  obtain ⟨hopens, hnew⟩ := validatePublisherUrl_ok hopens
  have hread := looseMembers_get hp
  refine ⟨⟨looseMembers_isObject hp, ?_, hopens, ?_, ?_, ?_⟩, hnew⟩
  · rw [hread, stringMember_some hurl]
  · rw [nameOf, hread]
    obtain ⟨hnone, rfl⟩ | ⟨value, s, hvalue, rfl, hs⟩ := optionalMember_cases hname
    · rw [hnone]
      rfl
    · obtain ⟨heq, hsized⟩ := stringValue_ok hs
      rw [hvalue, heq, stringIfAny, Option.filter_some, if_pos hsized]
  · rw [hread]
    obtain ⟨hnone, rfl⟩ | ⟨value, s, hvalue, rfl, hs⟩ := optionalMember_cases hname
    · rw [hnone]
      rfl
    · rw [hvalue, (stringValue_ok hs).1]
      rfl
  · rw [featuredOf, hread]
    obtain ⟨hnone, rfl⟩ | ⟨value, b, hvalue, rfl, hb⟩ := optionalMember_cases hfeatured
    · rw [hnone]
    · rw [hvalue]
      cases value with
      | bool b' => exact congrArg some (Except.ok.inj hb)
      | _ => cases hb

theorem validatePublishers_ok {raws : List Json} : ∀ {seen i es},
    validatePublishers parse seen i raws = .ok es →
      List.Forall₂ (Publishes parse) raws es ∧ (es.map PublisherEntryV1.url).Nodup ∧
        ∀ e ∈ es, e.url ∉ seen := by
  induction raws with
  | nil =>
    intro seen i es h
    obtain rfl := Except.ok.inj h
    exact ⟨.nil, .nil, fun _ h => by cases h⟩
  | cons raw raws ih =>
    intro seen i es h
    obtain ⟨e, he, h⟩ := bind_ok h
    obtain ⟨es, hes, h⟩ := bind_ok h
    obtain rfl := Except.ok.inj h
    obtain ⟨hraw, hnew⟩ := validatePublisher_ok he
    obtain ⟨hraws, hnodup, hrest⟩ := ih hes
    refine ⟨.cons hraw hraws, List.nodup_cons.mpr ⟨fun hmem => ?_, hnodup⟩, fun e' he' => ?_⟩
    · obtain ⟨e', he', heq⟩ := List.mem_map.mp hmem
      exact hrest e' he' (heq ▸ .head _)
    · obtain rfl | he' := List.mem_cons.mp he'
      · exact hnew
      · exact fun hmem => hrest e' he' (.tail _ hmem)

theorem Publishes.urlOf {raw : Json} {e : PublisherEntryV1} (h : Publishes parse raw e) :
    Gallery.urlOf raw = e.url := textOf_some h.url

theorem Publishes.summary {raw : Json} {e : PublisherEntryV1} (h : Publishes parse raw e) :
    (publisherEntry parse raw).summary = e.summary := by
  show (Gallery.urlOf raw, nameOf raw, featuredOf raw) = _
  rw [h.urlOf, h.name, h.featured]
  rfl

theorem Publishes.summaryOf {raw : Json} {e : PublisherEntryV1} (h : Publishes parse raw e) :
    Gallery.summaryOf raw = e.summary := by
  rw [Gallery.summaryOf, h.urlOf, h.text, h.featured]
  rfl

theorem map_of_forall₂ {α β γ : Type} {R : α → β → Prop} {f : α → γ} {g : β → γ}
    (hfg : ∀ a b, R a b → f a = g b) {as : List α} {bs : List β} (h : List.Forall₂ R as bs) :
    as.map f = bs.map g := by
  rw [← List.forall₂_eq_eq_eq, List.forall₂_map_left_iff, List.forall₂_map_right_iff]
  exact h.imp hfg

theorem Publishes.accepted {raws : List Json} {es : List PublisherEntryV1}
    (h : List.Forall₂ (Publishes parse) raws es) {raw : Json} (hraw : raw ∈ raws) :
    ∃ e, Publishes parse raw e := by
  obtain ⟨i, hi, rfl⟩ := List.mem_iff_getElem.mp hraw
  exact ⟨_, h.get hi (h.length_eq ▸ hi)⟩

theorem validateMetaIndex_ok {value : Json} {index : PublisherMetaIndexV1}
    (h : validateMetaIndex parse value = .ok index) :
    isMetaIndex value = true ∧
      List.Forall₂ (Publishes parse) (publishersOf value) index.publishers ∧
      (index.publishers.map PublisherEntryV1.url).Nodup := by
  obtain ⟨o, ho, h⟩ := bind_ok h
  obtain ⟨_, hv, h⟩ := bind_ok h
  obtain ⟨_, hkind, h⟩ := bind_ok h
  obtain ⟨raws, hraws, h⟩ := bind_ok h
  obtain ⟨_, hne, h⟩ := bind_ok h
  obtain ⟨publishers, hpublishers, h⟩ := bind_ok h
  obtain rfl := Except.ok.inj h
  have hread := looseMembers_get ho
  have hlist : value.get? (js "publishers") = some (.arr raws) := by
    rw [hread, arrayValue_some hraws]
  obtain ⟨hall, hnodup, -⟩ := validatePublishers_ok hpublishers
  refine ⟨?_, ?_, hnodup⟩
  · rw [isMetaIndex, isKind, looseMembers_isObject ho, hread, hread, ensure_ok hv, ensure_ok hkind,
      hlist]
    show (decide (raws ≠ []) && raws.all _) = true
    rw [ensure_ok hne, Bool.true_and, List.all_eq_true]
    intro raw hraw
    obtain ⟨e, he⟩ := Publishes.accepted hall hraw
    rw [he.object, he.url]
    rfl
  · rw [publishersOf, hlist]
    exact hall

/-- No publisher of an accepted document is left out. -/
theorem selectPublishers_accepted {value : Json} {index : PublisherMetaIndexV1}
    (h : validateMetaIndex parse value = .ok index) :
    selectPublishers parse [] (publishersOf value) =
      (publishersOf value).map (publisherEntry parse) := by
  obtain ⟨-, hall, hnodup⟩ := validateMetaIndex_ok h
  have hopens : (publishersOf value).filter (isOpenable parse) = publishersOf value := by
    refine List.filter_eq_self.mpr fun raw hraw => ?_
    obtain ⟨e, he⟩ := Publishes.accepted hall hraw
    rw [isOpenable, he.urlOf]
    exact he.opens
  rw [← map_of_forall₂ (fun _ _ hraw => hraw.urlOf) hall] at hnodup
  rw [selectPublishers_eq, hopens, firsts_of_nodup _ hnodup fun _ _ => List.not_mem_nil]

theorem normalize_accepted {value : Json} {index : PublisherMetaIndexV1}
    (h : validateMetaIndex parse value = .ok index) :
    ((normalizeMetaIndex parse value).publishers.map PublisherEntryV1.summary).Perm
      (index.publishers.map PublisherEntryV1.summary) := by
  obtain ⟨-, hall, -⟩ := validateMetaIndex_ok h
  have hperm := flaggedFirst_perm PublisherEntryV1.isFeatured
    (selectPublishers parse [] (publishersOf value))
  have hsummaries : (selectPublishers parse [] (publishersOf value)).map
      PublisherEntryV1.summary = index.publishers.map PublisherEntryV1.summary := by
    rw [selectPublishers_accepted h, List.map_map]
    exact map_of_forall₂ (fun _ _ hraw => hraw.summary) hall
  rw [← hsummaries]
  exact hperm.map _

/-- What the gallery makes of a meta index: the first entry of each url it can open, featured
ones first, their fields in valid form; once more, the same; and of a document that the validator
accepts, all publishers. -/
theorem meta_index_normalised (hparse : ReadsBack parse) :
    (∀ value, isMetaIndex value = true →
      (∃ kept, Kept parse (publishersOf value) kept ∧
        (normalizeMetaIndex parse value).publishers =
          (kept.filter isFeatured ++ kept.filter fun p => !isFeatured p).map
            (publisherEntry parse)) ∧
      (∀ e ∈ (normalizeMetaIndex parse value).publishers, e.Valid parse) ∧
      normalizeMetaIndex parse (normalizeMetaIndex parse value).toJson =
        normalizeMetaIndex parse value) ∧
    ∀ value index, validateMetaIndex parse value = .ok index →
      isMetaIndex value = true ∧
      index.publishers.map PublisherEntryV1.summary = (publishersOf value).map summaryOf ∧
      ((normalizeMetaIndex parse value).publishers.map PublisherEntryV1.summary).Perm
        ((publishersOf value).map summaryOf) := by
  refine ⟨fun value _ => ⟨normalizeMetaIndex_eq value, fun e he => ?_,
    normalizeMetaIndex_idem hparse value⟩, fun value index h => ?_⟩
  · exact selected_valid hparse value e ((flaggedFirst_perm _ _).mem_iff.mp he)
  · obtain ⟨haccepted, hall, -⟩ := validateMetaIndex_ok h
    have hdocument := map_of_forall₂ (fun _ _ hraw => hraw.summaryOf) hall
    exact ⟨haccepted, hdocument.symm, hdocument ▸ normalize_accepted h⟩

end

/-! ## A document with three entries -/

def siteUrl (path : List JsString) : Url :=
  ⟨js "https", [], [], some (js "senn.example"), none, .segments path, none, none⟩

/-- A parser that knows two addresses of a site, and the second also without its slash. -/
def siteParser : UrlParser := fun input _ =>
  if input = js "https://senn.example/a.json" then some (siteUrl [js "a.json"])
  else if input = js "https://senn.example/" ∨ input = js "https://senn.example" then
    some (siteUrl [[]])
  else none

theorem siteParser_readsBack : ReadsBack siteParser := by
  intro input u hu _
  unfold UrlParser.Settles
  unfold siteParser at hu
  split at hu
  · obtain rfl := Option.some.inj hu
    decide +kernel
  split at hu
  · obtain rfl := Option.some.inj hu
    decide +kernel
  · cases hu

def entryJson (url : JsString) (featured : Bool) : Json :=
  .obj [(js "url", .str url), (js "featured", .bool featured),
    (js "endorsedBy", .arr [.str (js " Senn "), .num (.ofNat 1)]),
    (js "endorsementUrl", .str (js "https://senn.example"))]

def threeEntries : Json :=
  .obj [(js "v", .num (.ofNat 1)), (js "kind", .str META_KIND),
    (js "publishers", .arr [entryJson (js "https://senn.example/") false,
      entryJson (js "https://senn.example/a.json") true,
      entryJson (js "https://senn.example/") true])]

theorem three_entries_normalised :
    isMetaIndex threeEntries = true ∧
      normalizeMetaIndex siteParser (normalizeMetaIndex siteParser threeEntries).toJson =
        normalizeMetaIndex siteParser threeEntries ∧
      (normalizeMetaIndex siteParser threeEntries).publishers =
        [⟨js "https://senn.example/a.json", none, some true, some [js "Senn"],
            some (js "https://senn.example/")⟩,
          ⟨js "https://senn.example/", none, some false, some [js "Senn"],
            some (js "https://senn.example/")⟩] := by
  have haccepted : isMetaIndex threeEntries = true := by decide +kernel
  refine ⟨haccepted,
    ((meta_index_normalised siteParser_readsBack).1 threeEntries haccepted).2.2, ?_⟩
  rw [normalizeMetaIndex, flaggedFirst_eq]
  decide +kernel

end Senn.Gallery
