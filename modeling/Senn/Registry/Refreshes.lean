import Senn.Js.Json
import Senn.Lib.InsMap
import Senn.Lib.Machine
import Senn.Lib.Selection
import Senn.Scripts.Licenses

/-! # Refreshes of the gallery

The gallery's page as a machine: the registries it is set up with, what their loads have brought,
and the refreshes that wait for a load. A refresh goes over the list of registries one load after
the other; nothing keeps a second one from starting meanwhile. -/

namespace Senn.Gallery.Refresh
open Senn.Js Senn.Lib Senn.Scripts

/-! ## The list of registries -/

/-- `item.url` of an object that has one, if it is a string. -/
def entryUrl (item : Json) : Option JsString :=
  match item.get? (js "url") with
  | some (.str url) => some url
  | _ => none

/-- The registries in the page's storage, each once; without any it is the default one. -/
def readRegistries (raw : Option JsString) (defaultRegistryUrl : JsString) : List JsString :=
  match raw.bind Json.parse with
  | some (.arr items) =>
    let out := firsts id [] (items.filterMap entryUrl)
    if out = [] then [defaultRegistryUrl] else out
  | _ => [defaultRegistryUrl]

theorem readRegistries_nodup (raw : Option JsString) (defaultRegistryUrl : JsString) :
    (readRegistries raw defaultRegistryUrl).Nodup := by
  unfold readRegistries
  split
  · next items _ =>
    dsimp only
    split
    · exact List.nodup_singleton _
    · have h := firsts_nodup id (items.filterMap entryUrl) []
      rwa [List.map_id] at h
  · exact List.nodup_singleton _

/-! ## The page -/

inductive RequestCache where
  | default
  | reload
deriving DecidableEq

variable {Row Doc : Type}

/-- What the load of a URL brings; rows and documents are passed on unread. -/
structure LoadResult (Row Doc : Type) where
  registries : List (JsString × Doc)
  addons : List Row
  metaSummary : Option Doc          -- `meta`
  metaPublishers : Option Doc
  submissions : Option Doc

/-- A refresh that waits for the load at its index. It goes over `state.registries`, or over the
array that was there before a removal. -/
structure Run where
  array : Option (List JsString)
  index : Nat
  previousCache : RequestCache
deriving DecidableEq

/-- The page's state and its refreshes. `lastLoad` is how the last load of a URL ended; no code
reads it. -/
structure State (Row Doc : Type) where
  registries : List JsString
  rows : List Row
  registriesByUrl : InsMap JsString Doc
  loadErrors : InsMap JsString JsString
  metaByUrl : InsMap JsString Doc
  metaPublishersByUrl : InsMap JsString Doc
  submissionsByUrl : InsMap JsString Doc
  currentCacheMode : RequestCache
  runs : List Run
  lastLoad : InsMap JsString (Except JsString (LoadResult Row Doc))

/-- A load that is started, with the cache mode of its first fetch. -/
structure Fetch where
  url : JsString
  cache : RequestCache

/-- Calls and events; `stored` says that the page's storage takes the new list. -/
inductive Event (Row Doc : Type) where
  | refreshAll (bypassCache : Bool)
  | add (value : JsString) (stored : Bool)
  | remove (url : JsString) (stored : Bool)
  | loaded (i : Nat) (result : Except JsString (LoadResult Row Doc))

namespace State

/-- The state the page's script creates. -/
def created (registries : List JsString) : State Row Doc where
  registries := registries
  rows := []
  registriesByUrl := .empty
  loadErrors := .empty
  metaByUrl := .empty
  metaPublishersByUrl := .empty
  submissionsByUrl := .empty
  currentCacheMode := .default
  runs := []
  lastLoad := .empty

/-- `renderRegistryList` returns; `encodeURIComponent` throws for a lone surrogate. -/
def renders (s : State Row Doc) : Bool := s.registries.all wellFormed

/-- The array that a refresh goes over. -/
def arrayOf (s : State Row Doc) (run : Run) : List JsString := run.array.getD s.registries

/-- A refresh at its index: the next load starts, or the refresh ends. -/
def next (s : State Row Doc) (run : Run) : State Row Doc × List Fetch :=
  match (s.arrayOf run)[run.index]? with
  | some url => ({ s with runs := s.runs ++ [run] }, [⟨url, s.currentCacheMode⟩])
  | none => ({ s with currentCacheMode := run.previousCache }, [])

def refreshAll (s : State Row Doc) (bypassCache : Bool) : State Row Doc × List Fetch :=
  let previousCache := s.currentCacheMode
  let s := { s with
    currentCacheMode := if bypassCache then .reload else .default
    rows := []
    registriesByUrl := .empty
    loadErrors := .empty
    metaByUrl := .empty
    metaPublishersByUrl := .empty
    submissionsByUrl := .empty }
  if s.renders then s.next ⟨none, 0, previousCache⟩
  else ({ s with currentCacheMode := previousCache }, [])

/-- What the page takes over of a load. -/
def settle (s : State Row Doc) (url : JsString) (result : Except JsString (LoadResult Row Doc)) :
    State Row Doc :=
  let s := { s with lastLoad := s.lastLoad.set url result }
  match result with
  | .ok load =>
    { s with
      registriesByUrl := load.registries.foldl (fun m r => m.set r.1 r.2) s.registriesByUrl
      rows := s.rows ++ load.addons
      metaByUrl := load.metaSummary.elim s.metaByUrl (s.metaByUrl.set url)
      metaPublishersByUrl := load.metaPublishers.elim s.metaPublishersByUrl
        (s.metaPublishersByUrl.set url)
      submissionsByUrl := load.submissions.elim s.submissionsByUrl (s.submissionsByUrl.set url) }
  | .error message => { s with loadErrors := s.loadErrors.set url message }

/-- The load that a refresh waits for has ended. -/
def loaded (s : State Row Doc) (i : Nat) (result : Except JsString (LoadResult Row Doc)) :
    State Row Doc × List Fetch :=
  match s.runs[i]? with
  | none => (s, [])
  | some run =>
    match (s.arrayOf run)[run.index]? with
    | none => (s, [])
    | some url =>
      ({ s with runs := s.runs.eraseIdx i }.settle url result).next
        { run with index := run.index + 1 }

/-- The button that adds a registry. -/
def add (s : State Row Doc) (value : JsString) (stored : Bool) : State Row Doc × List Fetch :=
  let url := trim value
  if url = [] then (s, [])
  else if url ∈ s.registries then (s, [])
  else
    let s := { s with registries := s.registries ++ [url] }
    if stored then s.refreshAll false else (s, [])

/-- The button that removes one: the list is a new array, and a refresh keeps the old one. -/
def remove (s : State Row Doc) (url : JsString) (stored : Bool) : State Row Doc × List Fetch :=
  let s := { s with
    registries := s.registries.filter (· ≠ url)
    runs := s.runs.map fun run => { run with array := some (s.arrayOf run) } }
  if stored then s.refreshAll false else (s, [])

def step (s : State Row Doc) : Event Row Doc → State Row Doc × List Fetch
  | .refreshAll bypassCache => s.refreshAll bypassCache
  | .add value stored => s.add value stored
  | .remove url stored => s.remove url stored
  | .loaded i result => s.loaded i result

/-! ## One refresh at a time -/

/-- A refresh that starts is the only one, the list is stored, and its URLs can be shown. -/
def Alone (s : State Row Doc) : Event Row Doc → Prop
  | .refreshAll _ => s.runs = [] ∧ s.renders = true
  | .add value stored => trim value = [] ∨ trim value ∈ s.registries ∨
      s.runs = [] ∧ stored = true ∧ s.renders = true ∧ wellFormed (trim value) = true
  | .remove url stored => s.runs = [] ∧ stored = true ∧
      (s.registries.filter (· ≠ url)).all wellFormed = true
  | .loaded _ _ => True

/-- The rows that the last load of a URL brought. -/
def rowsOf (s : State Row Doc) (url : JsString) : List Row :=
  match s.lastLoad.get url with
  | some (.ok load) => load.addons
  | _ => []

/-- The page shows the last loads of the registries `done`, each once. -/
structure Shows (s : State Row Doc) (done : List JsString) : Prop where
  rows : s.rows = done.flatMap s.rowsOf
  loaded : ∀ url ∈ done, s.lastLoad.get url ≠ none
  errors : ∀ url message, s.loadErrors.get url = some message ↔
    url ∈ done ∧ s.lastLoad.get url = some (.error message)

/-- What one refresh leaves: every registry is shown, and the cache mode is the default. -/
structure Agrees (s : State Row Doc) : Prop where
  shows : s.Shows s.registries
  cache : s.currentCacheMode = .default

/-- The only refresh there is, with the loads it has done. -/
structure Loading (s : State Row Doc) (run : Run) : Prop where
  runs : s.runs = [run]
  array : run.array = none
  cache : run.previousCache = .default
  index : run.index < s.registries.length
  shows : s.Shows (s.registries.take run.index)

structure Sound (s : State Row Doc) : Prop where
  nodup : s.registries.Nodup
  phase : s.runs = [] ∧ s.Agrees ∨ ∃ run, s.Loading run

variable {s : State Row Doc}

/-- The loop at an index: what is before it has been loaded. -/
theorem next_sound (hnodup : s.registries.Nodup) (hruns : s.runs = []) {run : Run}
    (harray : run.array = none) (hcache : run.previousCache = .default)
    (hshows : s.Shows (s.registries.take run.index)) : (s.next run).1.Sound := by
  have hlist : s.arrayOf run = s.registries := by rw [arrayOf, harray]; rfl
  unfold next
  rw [hlist]
  split
  · next url hurl =>
    obtain ⟨hindex, -⟩ := List.getElem?_eq_some_iff.mp hurl
    exact ⟨hnodup, .inr ⟨run, by simp [hruns], harray, hcache, hindex,
      hshows.rows, hshows.loaded, hshows.errors⟩⟩
  · next hend =>
    rw [List.take_of_length_le (List.getElem?_eq_none_iff.mp hend)] at hshows
    exact ⟨hnodup, .inl ⟨hruns, ⟨hshows.rows, hshows.loaded, hshows.errors⟩, hcache⟩⟩

theorem refreshAll_sound (hnodup : s.registries.Nodup) (hruns : s.runs = [])
    (hcache : s.currentCacheMode = .default) (hrenders : s.renders = true) (bypassCache : Bool) :
    (s.refreshAll bypassCache).1.Sound := by
  unfold refreshAll
  dsimp only
  rw [if_pos (by exact hrenders)]
  refine next_sound ?_ ?_ rfl ?_ ⟨?_, ?_, ?_⟩
  · exact hnodup
  · exact hruns
  · exact hcache
  · rfl
  · simp
  · simp

theorem settle_registries (s : State Row Doc) (url : JsString)
    (result : Except JsString (LoadResult Row Doc)) :
    (s.settle url result).registries = s.registries := by
  cases result <;> rfl

theorem settle_runs (s : State Row Doc) (url : JsString)
    (result : Except JsString (LoadResult Row Doc)) : (s.settle url result).runs = s.runs := by
  cases result <;> rfl

/-- A load that ends is the last one of its URL, and those before it keep theirs. -/
theorem Shows.settle {done : List JsString} (h : s.Shows done) {url : JsString} (hurl : url ∉ done)
    (result : Except JsString (LoadResult Row Doc)) :
    (s.settle url result).Shows (done ++ [url]) := by
  have hlast : ∀ u, (s.settle url result).lastLoad.get u =
      if u = url then some result else s.lastLoad.get u := by
    intro u
    unfold State.settle
    cases result <;> exact InsMap.get_set _ _ _ _
  have hrest : done.flatMap (s.settle url result).rowsOf = done.flatMap s.rowsOf := by
    refine List.flatMap_congr fun u hu => ?_
    have hne : u ≠ url := fun heq => hurl (heq ▸ hu)
    rw [rowsOf, hlast, if_neg hne, rowsOf]
  refine ⟨?_, ?_, ?_⟩
  · rw [List.flatMap_append, hrest, ← h.rows, List.flatMap_singleton, rowsOf, hlast, if_pos rfl]
    cases result with
    | ok load => rfl
    | error message => exact (List.append_nil _).symm
  · intro u hu
    rw [hlast]
    split
    · simp
    · next hne =>
      obtain hu | hu := List.mem_append.mp hu
      · exact h.loaded u hu
      · exact absurd (List.mem_singleton.mp hu) hne
  · intro u message
    rw [hlast]
    cases result with
    | ok load =>
      have herrors : (s.settle url (.ok load)).loadErrors = s.loadErrors := rfl
      rw [herrors, h.errors]
      by_cases heq : u = url
      · simp [heq, hurl]
      · simp [heq]
    | error m =>
      have herrors : (s.settle url (.error m)).loadErrors = s.loadErrors.set url m := rfl
      rw [herrors, InsMap.get_set]
      by_cases heq : u = url
      · simp [heq]
      · simp [heq, h.errors]

/-- The load that the refresh waits for ends, and the refresh goes on. -/
theorem Loading.loaded (hnodup : s.registries.Nodup) {run : Run} (h : s.Loading run) (i : Nat)
    (result : Except JsString (LoadResult Row Doc)) : (s.loaded i result).1.Sound := by
  have hlist : s.arrayOf run = s.registries := by rw [arrayOf, h.array]; rfl
  unfold State.loaded
  rw [h.runs]
  cases i with
  | succ i => exact ⟨hnodup, .inr ⟨run, h⟩⟩
  | zero =>
    obtain ⟨url, hurl⟩ : ∃ url, s.registries[run.index]? = some url :=
      ⟨_, List.getElem?_eq_getElem h.index⟩
    have htake : s.registries.take (run.index + 1) = s.registries.take run.index ++ [url] := by
      rw [List.take_add_one, hurl]
      rfl
    have hnew : url ∉ s.registries.take run.index := by
      have hboth := (List.take_sublist (run.index + 1) s.registries).nodup hnodup
      rw [htake, List.nodup_append] at hboth
      exact fun hmem => hboth.2.2 _ hmem _ (.head _) rfl
    have hidle : ({ s with runs := [] } : State Row Doc).Shows (s.registries.take run.index) :=
      ⟨h.shows.rows, h.shows.loaded, h.shows.errors⟩
    have hshows := hidle.settle hnew result
    rw [← htake] at hshows
    dsimp only [List.getElem?_cons_zero]
    rw [hlist, hurl]
    apply next_sound
    · rw [settle_registries]
      exact hnodup
    · rw [settle_runs]
      rfl
    · exact h.array
    · exact h.cache
    · rw [settle_registries]
      exact hshows

theorem step_sound (h : s.Sound) (ev : Event Row Doc) (halone : s.Alone ev) :
    (s.step ev).1.Sound := by
  have hidle : s.runs = [] → s.currentCacheMode = .default := by
    intro hruns
    obtain ⟨-, hagrees⟩ | ⟨run, hloading⟩ := h.phase
    · exact hagrees.cache
    · have hone := hloading.runs
      rw [hruns] at hone
      cases hone
  cases ev with
  | refreshAll bypassCache =>
    obtain ⟨hruns, hrenders⟩ := halone
    exact refreshAll_sound h.nodup hruns (hidle hruns) hrenders bypassCache
  | add value stored =>
    dsimp only [step]
    unfold add
    dsimp only
    split
    · exact h
    split
    · exact h
    · next hne hnew =>
      obtain hempty | hmem | ⟨hruns, rfl, hrenders, hwell⟩ := halone
      · exact absurd hempty hne
      · exact absurd hmem hnew
      · rw [if_pos rfl]
        have hnodup : (s.registries ++ [trim value]).Nodup := by
          refine List.nodup_append.mpr ⟨h.nodup, List.nodup_singleton _, ?_⟩
          intro a ha b hb heq
          exact hnew (List.mem_singleton.mp hb ▸ heq ▸ ha)
        have hall : (s.registries ++ [trim value]).all wellFormed = true := by
          rw [List.all_append, Bool.and_eq_true]
          exact ⟨hrenders, by simp [hwell]⟩
        apply refreshAll_sound
        · exact hnodup
        · exact hruns
        · exact hidle hruns
        · exact hall
  | remove url stored =>
    obtain ⟨hruns, rfl, hwell⟩ := halone
    dsimp only [step]
    unfold remove
    dsimp only
    rw [if_pos rfl]
    apply refreshAll_sound
    · exact h.nodup.filter _
    · rw [hruns]
      rfl
    · exact hidle hruns
    · exact hwell
  | loaded i result =>
    obtain ⟨hruns, hagrees⟩ | ⟨run, hloading⟩ := h.phase
    · dsimp only [step]
      unfold loaded
      rw [hruns]
      exact h
    · exact hloading.loaded h.nodup i result

/-! ## Runs -/

/-- A page from its script on; the script ends with a refresh. -/
def page (raw : Option JsString) (defaultRegistryUrl : JsString) : State Row Doc :=
  created (readRegistries raw defaultRegistryUrl)

/-- Where each refresh is alone, the page shows each registry's last load once when none is
waiting, and the cache mode is the default again. -/
theorem refreshes_agree (raw : Option JsString) (defaultRegistryUrl : JsString)
    (events : List (Event Row Doc)) (halone : Machine.Guarded step Alone
      (page raw defaultRegistryUrl) (.refreshAll false :: events)) :
    let s := Machine.after step (page raw defaultRegistryUrl) (.refreshAll false :: events)
    s.runs = [] → s.Agrees := by
  intro s hruns
  have hstart : ((page raw defaultRegistryUrl : State Row Doc).step (.refreshAll false)).1.Sound :=
    refreshAll_sound (readRegistries_nodup raw defaultRegistryUrl) rfl rfl halone.1.2 false
  have hkeeps : ∀ (t : State Row Doc) ev, t.Sound → t.Alone ev → (t.step ev).1.Sound :=
    fun _ ev ht => step_sound ht ev
  have hsound : s.Sound := Machine.guarded_inv hkeeps hstart halone.2
  obtain ⟨-, hagrees⟩ | ⟨run, hloading⟩ := hsound.phase
  · exact hagrees
  · have hone := hloading.runs
    rw [hruns] at hone
    cases hone

/-- One load brings a row. -/
def oneRow : Except JsString (LoadResult Nat Unit) := .ok ⟨[], [7], none, none, none⟩

/-- A registry is added once the refresh past the cache has ended. -/
def apart : List (Event Nat Unit) :=
  [.loaded 0 oneRow, .refreshAll true, .loaded 0 oneRow, .add (js "v") true, .loaded 0 oneRow,
    .loaded 0 (.error (js "HTTP 404 v"))]

theorem apart_agrees :
    (Machine.after step (page none (js "u")) (.refreshAll false :: apart)).Agrees := by
  refine refreshes_agree none (js "u") apart ?_ rfl
  exact ⟨⟨rfl, rfl⟩, trivial, ⟨rfl, rfl⟩, trivial, .inr (.inr ⟨rfl, rfl, rfl, rfl⟩), trivial,
    trivial, trivial⟩

/-- A registry is added while a refresh past the cache waits. -/
def overlapping : List (Event Nat Unit) :=
  [.refreshAll false, .loaded 0 oneRow, .refreshAll true, .add (js "v") true, .loaded 0 oneRow,
    .loaded 1 oneRow, .loaded 0 oneRow, .loaded 0 oneRow]

/-- Then each registry's row is there twice, and the cache mode stays at `reload`. -/
theorem overlap_disagrees :
    let s := Machine.after step (page none (js "u")) overlapping
    s.runs = [] ∧ s.registries = [js "u", js "v"] ∧ s.rows = [7, 7, 7, 7] ∧
      s.currentCacheMode = .reload ∧ ¬s.Agrees := by
  refine ⟨rfl, by decide, rfl, rfl, fun h => ?_⟩
  have hcache : RequestCache.reload = .default := h.cache
  cases hcache

end State

end Senn.Gallery.Refresh
