import Senn.HttpPoll.Subscriptions
import Senn.Nostr.Subscriptions
import Senn.UrlFragment.Subscriptions

/-! # `Unsubscribe`

The functions that `subscribe` returns, of all signaling adapters. Each looks up the room and
deletes the handler it was made for, so it also undoes the other subscriptions of that
handler, and goes on to do so when it is called again. -/

namespace Senn.Signaling
open Senn.Js Senn.Lib Senn.Lib.Machine Senn.Lib.Subscriptions Senn.Protocol
open Senn.HttpPoll (HttpPollSignaling)
open Senn.Nostr (NostrSignaling)
open Senn.UrlFragment (UrlFragmentSignaling)

/-- An adapter hands the messages of a room to the handlers with an outstanding subscription,
and to no others, exactly in the runs in which whoever unsubscribes finds no other outstanding
subscription of the handler to the room; of URL fragments, moreover, the room must not get new
handlers while an import goes on for the ones it has given up. -/
theorem unsubscribes_iff (P : Platform) (L : Nostr.Libraries) (relays : List JsString)
    (v2Enabled : Bool) :
    (∀ evs : List UrlFragment.Event, (∀ ev ∈ evs, ev ≠ .close) →
      ((UrlFragmentSignaling.client P).Faithful .create evs ↔ ∀ pre ev, pre ++ [ev] <+: evs →
        Alone ((UrlFragmentSignaling.client P).ledger .create pre)
            ((after (UrlFragmentSignaling.step P) .create pre).op ev) ∧
          (after (UrlFragmentSignaling.step P) .create pre).Undisturbed ev)) ∧
    (∀ evs : List HttpPoll.Event, (∀ ev ∈ evs, ev ≠ .close) →
      (HttpPollSignaling.client.Faithful .create evs ↔ ∀ pre ev, pre ++ [ev] <+: evs →
        Alone (HttpPollSignaling.client.ledger .create pre)
          ((after HttpPollSignaling.step .create pre).op ev))) ∧
    (∀ evs : List Nostr.Event, (∀ ev ∈ evs, ev ≠ .close) →
      ((NostrSignaling.client L).Faithful (.new relays v2Enabled) evs ↔
        ∀ pre ev, pre ++ [ev] <+: evs →
          Alone ((NostrSignaling.client L).ledger (.new relays v2Enabled) pre)
            ((after (NostrSignaling.step L) (.new relays v2Enabled) pre).op ev))) :=
  ⟨fun _ hopen => UrlFragmentSignaling.faithful_iff P hopen,
    fun _ hopen => HttpPollSignaling.faithful_iff hopen,
    fun _ hopen => NostrSignaling.faithful_iff L relays v2Enabled hopen⟩

theorem forall_take {ι : Type} {C : List ι → ι → Prop} {is : List ι}
    (h : ∀ n i, is[n]? = some i → C (is.take n) i) : ∀ pre i, pre ++ [i] <+: is → C pre i := by
  rintro pre i ⟨post, rfl⟩
  have hlast := h pre.length i (by simp)
  simpa using hlast

def room : JsString := js "r"

/-- Two handlers subscribe; the function that the first one got is called twice. -/
def urlRun : List UrlFragment.Event :=
  [.subscribe room 1, .subscribe room 2, .unsubscribe 0, .unsubscribe 0]

def httpRun : List HttpPoll.Event :=
  [.subscribe room 1, .subscribe room 2, .unsubscribe 0, .unsubscribe 0]

def nostrRun : List Nostr.Event :=
  [.subscribe room 1 true, .subscribe room 2 true, .unsubscribe 0, .unsubscribe 0]

theorem unsubscribes_twice :
    (UrlFragmentSignaling.client UrlFragment.plainPlatform).Faithful .create urlRun ∧
    HttpPollSignaling.client.Faithful .create httpRun ∧
    (NostrSignaling.client Nostr.oneId).Faithful (.new [js "a"] false) nostrRun := by
  obtain ⟨hurl, hhttp, hnostr⟩ :=
    unsubscribes_iff UrlFragment.plainPlatform Nostr.oneId [js "a"] false
  refine ⟨(hurl urlRun ?_).mpr (forall_take ?_), (hhttp httpRun ?_).mpr (forall_take ?_),
    (hnostr nostrRun ?_).mpr (forall_take ?_)⟩
  · simp [urlRun]
  · intro n ev hn
    refine ⟨?_, ?_⟩
    · rcases n with _ | _ | _ | _ | n <;> cases hn <;> decide +kernel
    · rcases n with _ | _ | _ | _ | n <;> cases hn <;> exact fun _ _ _ _ _ _ _ h => by cases h
  · simp [httpRun]
  · intro n ev hn
    rcases n with _ | _ | _ | _ | n <;> cases hn <;> decide +kernel
  · simp [nostrRun]
  · intro n ev hn
    rcases n with _ | _ | _ | _ | n <;> cases hn <;> decide +kernel

/-- A handler subscribes twice, and unsubscribes once. -/
def urlDoubleRun : List UrlFragment.Event :=
  [.subscribe room 1, .subscribe room 1, .unsubscribe 0]

def httpDoubleRun : List HttpPoll.Event :=
  [.subscribe room 1, .subscribe room 1, .unsubscribe 0]

def nostrDoubleRun : List Nostr.Event :=
  [.subscribe room 1 true, .subscribe room 1 true, .unsubscribe 0]

/-- Its other subscription is gone as well. -/
theorem double_runs_unfaithful :
    ¬(UrlFragmentSignaling.client UrlFragment.plainPlatform).Faithful .create urlDoubleRun ∧
    ¬HttpPollSignaling.client.Faithful .create httpDoubleRun ∧
    ¬(NostrSignaling.client Nostr.oneId).Faithful (.new [js "a"] false) nostrDoubleRun := by
  refine ⟨fun h => ?_, fun h => ?_, fun h => ?_⟩
  · exact absurd (h.exact_ _ List.prefix_rfl room 1) (by decide +kernel)
  · exact absurd (h.exact_ _ List.prefix_rfl room 1) (by decide +kernel)
  · exact absurd (h.exact_ _ List.prefix_rfl room 1) (by decide +kernel)

/-- A bundle of the same message twice. -/
def pairBundle : JsString :=
  match encodeSignalingBundle UrlFragment.plainPlatform
      (UrlFragmentSignaling.bundleOf UrlFragment.farewellRoom
        [.ofJson UrlFragment.farewell, .ofJson UrlFragment.farewell]) with
  | .ok encoded => encoded
  | .error _ => []

/-- On the first message of an import the only handler makes way for another one. -/
def importRun : List UrlFragment.Event :=
  [.subscribe UrlFragment.farewellRoom 1, .importBundle pairBundle, .decoded 0, .turn 0 false,
    .turn 0 false, .unsubscribe 0, .subscribe UrlFragment.farewellRoom 2, .turn 0 false,
    .turn 0 false]

/-- Nobody gets the second message. -/
theorem importRun_unfaithful :
    ¬(UrlFragmentSignaling.client UrlFragment.plainPlatform).Faithful .create importRun := by
  intro h
  have hone := h.handed (importRun.take 8) (.turn 0 false) [] 0 ⟨UrlFragment.farewellRoom, 0, []⟩ 2
    List.prefix_rfl (by decide +kernel) (by decide +kernel) trivial
    (fun p hp => by
      rw [List.prefix_nil.mp hp]
      decide +kernel)
    (fun p j hp => by simp at hp)
  exact absurd hone (by decide +kernel)

end Senn.Signaling
