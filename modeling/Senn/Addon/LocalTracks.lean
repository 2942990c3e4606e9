import Senn.Addon.Host
import Senn.Lib.Machine

/-! # The tracks a host captures

`Books` is what a host keeps of the tracks it obtained, and `step_books` lists
all a step can do to it. A track that was obtained is on its way to a sender,
registered, on its way out, or stopped; a track that is registered at the wrong
moment is the one that is never stopped again. -/

namespace Senn.Addon
open Senn.Js Senn.Lib

structure Books where
  obtained : List (MediaKind × Nat)
  stopped : List Nat
  adding : List (MediaKind × Nat)
  senders : InsMap MediaKind LocalSender
  removing : List (MediaKind × LocalSender)
  closing : Option (Nat × LocalSender)
  closed : Bool
  listening : Bool
  wants : MediaKind → Bool

namespace Books

def setWants (b : Books) (kind : MediaKind) (on : Bool) : Books :=
  { b with wants := Function.update b.wants kind on }

def closeFrom (b : Books) (n : Nat) : Books :=
  match b.senders.entries[n]? with
  | some (_, sender) => { b with closing := some (n, sender) }
  | none => { b with closing := none, senders := .empty }

end Books

namespace AddonHost

def books (s : AddonHost) : Books where
  obtained := s.obtained
  stopped := s.stopped
  adding := s.adding
  senders := s.mediaSendSenders
  removing := s.removing
  closing := s.closing
  closed := s.currentState = .closed
  listening := s.listening
  wants := s.wants

end AddonHost

/-- What a step can do to the books. -/
inductive BookChange (b : Books) : Event → Books → Prop
  | same {ev : Event} : BookChange b ev b
  | start {ev : Event} {kind : MediaKind} : BookChange b ev (b.setWants kind true)
  | stopNothing {ev : Event} {kind : MediaKind} : b.senders.get kind = none →
      BookChange b ev (b.setWants kind false)
  | stop {ev : Event} {kind : MediaKind} {sender : LocalSender} : b.listening = true →
      b.senders.get kind = some sender →
      BookChange b ev { b.setWants kind false with
        senders := b.senders.delete kind
        removing := b.removing ++ [(kind, sender)] }
  | obtained {ev : Event} {kind : MediaKind} {track : Nat} :
      BookChange b ev { b with
        adding := b.adding ++ [(kind, track)]
        obtained := b.obtained ++ [(kind, track)] }
  | registered {i senderId : Nat} {kind : MediaKind} {track : Nat} :
      b.adding[i]? = some (kind, track) →
      BookChange b (.trackAdded i (.ok senderId)) { b with
        adding := b.adding.eraseIdx i
        senders := b.senders.set kind ⟨senderId, track⟩ }
  | refused {ev : Event} {i : Nat} {kind : MediaKind} {track : Nat} :
      b.adding[i]? = some (kind, track) →
      BookChange b ev { b with adding := b.adding.eraseIdx i, stopped := track :: b.stopped }
  | removed {ev : Event} {i : Nat} {kind : MediaKind} {sender : LocalSender} :
      b.removing[i]? = some (kind, sender) →
      BookChange b ev { b with
        removing := b.removing.eraseIdx i
        stopped := sender.track :: b.stopped }
  | close {ev : Event} : b.closed = false →
      BookChange b ev ({ b with closed := true, listening := false }.closeFrom 0)
  | closeNext {ev : Event} {n : Nat} {sender : LocalSender} : b.closing = some (n, sender) →
      BookChange b ev ({ b with stopped := sender.track :: b.stopped }.closeFrom (n + 1))

namespace AddonHost

/-! ## What each handler does -/

theorem setState_books {s : AddonHost} {next : AddonHostState} (hs : s.currentState ≠ .closed)
    (hnext : next ≠ .closed) : (s.setState next).1.books = s.books := by
  unfold setState
  split
  · rfl
  · simp only [books, hs, hnext, decide_false]
    rfl

theorem onIframeLoad_books (s : AddonHost) : s.onIframeLoad.1.books = s.books := by
  unfold onIframeLoad
  split
  · rfl
  · next h => exact setState_books (by rw [not_not.mp h]; simp) (by simp)

theorem handleReady_books (s : AddonHost) : s.handleReady.1.books = s.books := by
  have hinit : s.ensureInitPosted.1.books = s.books := by
    unfold ensureInitPosted
    split
    · next h => exact setState_books (by rw [h]; simp) (by simp)
    · rfl
  unfold handleReady
  dsimp only
  split
  · next h => rw [← hinit]; exact setState_books (by rw [h]; simp) (by simp)
  · exact hinit

theorem handleSend_books (s : AddonHost) (payload : Data) (now : Nat) :
    (s.handleSend payload now).1.books = s.books := by
  unfold handleSend
  split
  · rfl
  · split
    · rfl
    · dsimp only
      split <;> rfl

theorem handleSendBin_books (s : AddonHost) (mime bytes : Data) :
    (s.handleSendBin mime bytes).1.books = s.books := by
  unfold handleSendBin
  split
  · rfl
  · split
    · split
      · rfl
      · split <;> rfl
    · rfl

theorem handleMediaSendStart_books (s : AddonHost) (kind : MediaKind) (source : Option Data) :
    (s.handleMediaSendStart kind source).1.books = s.books := by
  unfold handleMediaSendStart
  split
  · rfl
  · split
    · rfl
    · split
      · rfl
      · split
        · rfl
        · split <;> rfl

theorem setReceive_books (s : AddonHost) (kind : MediaKind) (on : Bool) :
    (s.setReceive kind on).books = s.books := by
  cases kind <;> rfl

theorem handleStorage_books (s : AddonHost) (rid op key value : Data) :
    (s.handleStorage rid op key value).1.books = s.books := by
  unfold handleStorage
  split
  · rfl
  · dsimp only
    repeat' split
    all_goals rfl

theorem setWants_books (s : AddonHost) (kind : MediaKind) (on : Bool) :
    (s.setWants kind on).books = s.books.setWants kind on := by
  have hwants : (s.setWants kind on).wants = Function.update s.wants kind on := by
    funext k
    cases kind <;> cases k <;> rfl
  rw [books, hwants]
  cases kind <;> rfl

theorem handleOp_books (s : AddonHost) (hlistening : s.listening = true) (msg : Data) (now : Nat)
    (op : BridgeOp) (ev : Event) : BookChange s.books ev (s.handleOp msg now op).1.books := by
  cases op with
  | ready => rw [handleOp, handleReady_books]; exact .same
  | send => rw [handleOp, handleSend_books]; exact .same
  | sendBin => rw [handleOp, handleSendBin_books]; exact .same
  | audioLevelSubscribe =>
    unfold handleOp handleAudioLevelSubscribe
    dsimp only
    split <;> exact .same
  | audioLevelUnsubscribe => exact .same
  | mediaSendStart kind =>
    rw [handleOp, handleMediaSendStart_books, setWants_books]
    exact .start
  | mediaSendStop kind =>
    have hsenders : (s.setWants kind false).mediaSendSenders = s.mediaSendSenders := by
      cases kind <;> rfl
    unfold handleOp handleMediaSendStop
    dsimp only
    rw [hsenders]
    split
    · next hnone =>
      rw [setWants_books]
      exact .stopNothing hnone
    · next sender hsome =>
      have hstop : BookChange s.books ev _ := .stop hlistening hsome
      rw [← setWants_books] at hstop
      cases kind <;> exact hstop
  | mediaReceiveSubscribe kind =>
    unfold handleOp handleMediaReceiveSubscribe
    dsimp only
    split
    · exact .same
    · split
      · exact .same
      · rw [setReceive_books]; exact .same
  | mediaReceiveUnsubscribe kind =>
    have hoff := setReceive_books s kind false
    unfold handleOp handleMediaReceiveUnsubscribe
    dsimp only
    split
    · rw [hoff]; exact .same
    · rw [← hoff]; exact .same
  | error =>
    unfold handleOp
    dsimp only
    split <;> exact .same
  | storage => rw [handleOp, handleStorage_books]; exact .same

theorem trackEnded_books (s : AddonHost) (track : Nat) :
    (s.trackEnded track).1.books = s.books := by
  unfold trackEnded
  exact List.foldlRecOn (motive := fun (r : AddonHost × List Out) => r.1.books = s.books) _ _ rfl
    fun r hr _ _ => hr

theorem closeFrom_books (s : AddonHost) (n : Nat) :
    (s.closeFrom n).1.books = s.books.closeFrom n := by
  unfold closeFrom Books.closeFrom
  split
  · next k sender h =>
    have h' : s.books.senders.entries[n]? = some (k, sender) := h
    rw [h']
    rfl
  · next h =>
    have h' : s.books.senders.entries[n]? = none := h
    rw [h']
    rfl

/-- A step on the books. -/
theorem step_books (s : AddonHost) (ev : Event) : BookChange s.books ev (s.step ev).1.books := by
  cases ev with
  | iframeLoad => rw [step, onIframeLoad_books]; exact .same
  | contentWindow window => exact .same
  | message source data now =>
    unfold step
    dsimp only
    split
    · next hlistening =>
      unfold handleWindowMessage
      split
      · exact .same
      · split
        · exact .same
        · exact handleOp_books s hlistening ..
    · exact .same
  | sessionText json => exact .same
  | sessionBinary addon mime bytes => exact .same
  | remoteTrack kind track attached =>
    unfold step
    dsimp only
    split
    · unfold handleRemoteTrack
      split
      · exact .same
      · cases attached <;> exact .same
    · exact .same
  | trackEnded track => rw [step, trackEnded_books]; exact .same
  | deliver payload from_ => exact .same
  | deliverBinary mime bytes from_ => exact .same
  | publishAudioLevel level => exact .same
  | close =>
    unfold step close
    dsimp only
    split
    · exact .same
    · next hopen =>
      rw [closeFrom_books]
      have hclose : BookChange s.books .close _ := .close (by simpa [books] using hopen)
      rw [setState, if_neg hopen]
      exact hclose
  | captured i result =>
    unfold step captured
    dsimp only
    split
    · exact .same
    · cases result with
      | track track => exact .obtained
      | nothing => exact .same
      | rejected message => exact .same
  | trackAdded i result =>
    unfold step trackAdded
    dsimp only
    split
    · exact .same
    · next kind track hadding =>
      cases result with
      | ok senderId => exact .registered hadding
      | error message => exact .refused hadding
  | senderRemoved i error =>
    unfold step senderRemoved
    dsimp only
    split
    · exact .same
    · next kind sender hremoving => exact .removed hremoving
  | closeSenderRemoved =>
    unfold step closeSenderRemoved
    dsimp only
    split
    · exact .same
    · next n sender hclosing =>
      rw [closeFrom_books]
      exact .closeNext (b := s.books) hclosing
  | storageSettled i outcome =>
    unfold step storageSettled
    dsimp only
    split
    · exact .same
    · cases outcome <;> exact .same
  | sendTextRejected message =>
    unfold step
    dsimp only
    split <;> exact .same
  | sendBinaryRejected message =>
    unfold step
    dsimp only
    split <;> exact .same

end AddonHost

/-! ## Where a track can be -/

namespace Books

/-- Where an obtained track of a kind is. -/
inductive Held (b : Books) (kind : MediaKind) (track : Nat) : Prop
  | stopped : track ∈ b.stopped → b.Held kind track
  | adding : (kind, track) ∈ b.adding → b.Held kind track
  | registered {sender : LocalSender} : b.senders.get kind = some sender →
      sender.track = track → b.Held kind track
  | removing {sender : LocalSender} : (kind, sender) ∈ b.removing →
      sender.track = track → b.Held kind track

/-- What is kept of a host whose senders are registered in order. -/
structure Kept (b : Books) : Prop where
  held : ∀ kind track, (kind, track) ∈ b.obtained → b.Held kind track
  unwanted : b.closed = false → ∀ kind, b.wants kind = false → b.senders.get kind = none
  deaf : b.closed = true → b.listening = false
  closing : ∀ n sender, b.closing = some (n, sender) →
    b.closed = true ∧ ∃ kind, b.senders.entries[n]? = some (kind, sender)
  swept : ∀ n sender, b.closing = some (n, sender) →
    ∀ e ∈ b.senders.entries.take n, e.2.track ∈ b.stopped
  cleared : b.closed = true → b.closing = none → b.senders = .empty

/-- A sender is registered for a kind that has none and is wanted, or that the
loop of `close` has still to come to. -/
def mayRegister (b : Books) (kind : MediaKind) : Prop :=
  b.senders.get kind = none ∧ (b.closing ≠ none ∨ b.wants kind = true ∧ b.closed = false)

instance (b : Books) (kind : MediaKind) : Decidable (b.mayRegister kind) :=
  inferInstanceAs (Decidable (_ ∧ (_ ∨ _ ∧ _)))

theorem mem_eraseIdx_of_ne {α : Type*} {l : List α} {i : Nat} {a x : α} (ha : l[i]? = some a)
    (hx : x ∈ l) (hne : x ≠ a) : x ∈ l.eraseIdx i := by
  obtain ⟨j, hj⟩ := List.mem_iff_getElem?.mp hx
  refine List.mem_eraseIdx_iff_getElem?.mpr ⟨j, ?_, hj⟩
  rintro rfl
  exact hne (Option.some.inj (hj.symm.trans ha))

variable {b : Books}

theorem Held.mono {b' : Books} {kind : MediaKind} {track : Nat} (h : b.Held kind track)
    (hstopped : b.stopped ⊆ b'.stopped) (hadding : b.adding ⊆ b'.adding)
    (hsenders : ∀ sender, b.senders.get kind = some sender → b'.senders.get kind = some sender)
    (hremoving : b.removing ⊆ b'.removing) : b'.Held kind track := by
  cases h with
  | stopped hs => exact .stopped (hstopped hs)
  | adding ha => exact .adding (hadding ha)
  | registered hr ht => exact .registered (hsenders _ hr) ht
  | removing hr ht => exact .removing (hremoving hr) ht

theorem Kept.start (h : b.Kept) (kind : MediaKind) : (b.setWants kind true).Kept := by
  refine ⟨fun k t hmem => ?_, fun hopen k hwants => ?_, h.deaf, h.closing, h.swept, h.cleared⟩
  · exact (h.held k t hmem).mono (List.Subset.refl _) (List.Subset.refl _) (fun _ hs => hs)
      (List.Subset.refl _)
  · refine h.unwanted hopen k ?_
    by_cases hk : k = kind
    · simp [setWants, hk] at hwants
    · simpa [setWants, hk] using hwants

/-- A host that still listens is neither closed nor closing. -/
theorem Kept.open_of_listening (h : b.Kept) (hlistening : b.listening = true) :
    b.closed = false ∧ b.closing = none := by
  have hopen : b.closed = false := by
    by_contra hclosed
    have := h.deaf (by simpa using hclosed)
    simp [hlistening] at this
  refine ⟨hopen, ?_⟩
  by_contra hclosing
  obtain ⟨⟨n, sender⟩, hsome⟩ := Option.ne_none_iff_exists'.mp hclosing
  have := (h.closing n sender hsome).1
  simp [hopen] at this

theorem Kept.stopNothing (h : b.Kept) {kind : MediaKind}
    (hnone : b.senders.get kind = none) : (b.setWants kind false).Kept := by
  refine ⟨fun k t hmem => ?_, fun hopen k hwants => ?_, h.deaf, h.closing, h.swept, h.cleared⟩
  · exact (h.held k t hmem).mono (List.Subset.refl _) (List.Subset.refl _) (fun _ hs => hs)
      (List.Subset.refl _)
  · by_cases hk : k = kind
    · exact hk ▸ hnone
    · exact h.unwanted hopen k (by simpa [setWants, hk] using hwants)

theorem Kept.stop (h : b.Kept) {kind : MediaKind} {sender : LocalSender}
    (hlistening : b.listening = true) (hsome : b.senders.get kind = some sender) :
    Kept { b.setWants kind false with
      senders := b.senders.delete kind
      removing := b.removing ++ [(kind, sender)] } := by
  obtain ⟨hopen, hclosing⟩ := h.open_of_listening hlistening
  refine ⟨fun k t hmem => ?_, fun _ k hwants => ?_, h.deaf, ?_, ?_, ?_⟩
  · cases h.held k t hmem with
    | stopped hs => exact .stopped hs
    | adding ha => exact .adding ha
    | @registered sender' hr ht =>
      by_cases hk : k = kind
      · subst hk
        obtain rfl : sender = sender' := Option.some.inj (hsome.symm.trans hr)
        exact .removing (List.mem_append_right _ (List.mem_singleton.mpr rfl)) ht
      · exact .registered (by rw [← hr]; exact InsMap.get_delete_of_ne _ hk) ht
    | removing hr ht => exact .removing (List.mem_append_left _ hr) ht
  · by_cases hk : k = kind
    · exact hk ▸ InsMap.get_delete_self _ _
    · have hwants' : b.wants k = false := by simpa [setWants, hk] using hwants
      exact (InsMap.get_delete_of_ne _ hk).trans (h.unwanted hopen k hwants')
  · intro n s hs
    exact absurd (hclosing.symm.trans hs) (by simp)
  · intro n s hs
    exact absurd (hclosing.symm.trans hs) (by simp)
  · intro hclosed
    exact absurd (hopen.symm.trans hclosed) (by simp)

theorem Kept.obtained (h : b.Kept) (kind : MediaKind) (track : Nat) :
    Kept { b with
      adding := b.adding ++ [(kind, track)]
      obtained := b.obtained ++ [(kind, track)] } := by
  refine ⟨fun k t hmem => ?_, h.unwanted, h.deaf, h.closing, h.swept, h.cleared⟩
  rcases List.mem_append.mp hmem with hold | hnew
  · exact (h.held k t hold).mono (List.Subset.refl _) (List.subset_append_left _ _)
      (fun _ hs => hs) (List.Subset.refl _)
  · exact .adding (List.mem_append_right _ hnew)

theorem Kept.refused (h : b.Kept) {i : Nat} {kind : MediaKind} {track : Nat}
    (hi : b.adding[i]? = some (kind, track)) :
    Kept { b with adding := b.adding.eraseIdx i, stopped := track :: b.stopped } := by
  refine ⟨fun k t hmem => ?_, h.unwanted, h.deaf, h.closing,
    fun n s hs e he => List.mem_cons_of_mem _ (h.swept n s hs e he), h.cleared⟩
  cases h.held k t hmem with
  | stopped hs => exact .stopped (List.mem_cons_of_mem _ hs)
  | adding ha =>
    by_cases hk : (k, t) = (kind, track)
    · cases hk
      exact .stopped List.mem_cons_self
    · exact .adding (mem_eraseIdx_of_ne hi ha hk)
  | registered hr ht => exact .registered hr ht
  | removing hr ht => exact .removing hr ht

theorem Kept.removed (h : b.Kept) {i : Nat} {kind : MediaKind} {sender : LocalSender}
    (hi : b.removing[i]? = some (kind, sender)) :
    Kept { b with removing := b.removing.eraseIdx i, stopped := sender.track :: b.stopped } := by
  refine ⟨fun k t hmem => ?_, h.unwanted, h.deaf, h.closing,
    fun n s hs e he => List.mem_cons_of_mem _ (h.swept n s hs e he), h.cleared⟩
  cases h.held k t hmem with
  | stopped hs => exact .stopped (List.mem_cons_of_mem _ hs)
  | adding ha => exact .adding ha
  | registered hr ht => exact .registered hr ht
  | @removing sender' hr ht =>
    by_cases hk : (k, sender') = (kind, sender)
    · cases hk
      exact .stopped (ht ▸ List.mem_cons_self)
    · exact .removing (mem_eraseIdx_of_ne hi hr hk) ht

/-- Registering where it may be done keeps the books: what `close` has been
through already is not touched, and it comes to the new entry. -/
theorem Kept.registered (h : b.Kept) {i senderId : Nat} {kind : MediaKind} {track : Nat}
    (hi : b.adding[i]? = some (kind, track)) (hmay : b.mayRegister kind) :
    Kept { b with
      adding := b.adding.eraseIdx i
      senders := b.senders.set kind ⟨senderId, track⟩ } := by
  obtain ⟨hnone, hlater⟩ := hmay
  have hentries : (b.senders.set kind ⟨senderId, track⟩).entries =
      b.senders.entries ++ [(kind, ⟨senderId, track⟩)] := by
    rw [InsMap.set, dif_neg (InsMap.get_eq_none_iff.mp hnone)]
  refine ⟨fun k t hmem => ?_, fun hopen k hwants => ?_, h.deaf, fun n s hs => ?_,
    fun n s hs e he => ?_, fun hclosed hend => ?_⟩
  · cases h.held k t hmem with
    | stopped hs => exact .stopped hs
    | adding ha =>
      by_cases hk : (k, t) = (kind, track)
      · cases hk
        exact .registered (InsMap.get_set_self _ _ _) rfl
      · exact .adding (mem_eraseIdx_of_ne hi ha hk)
    | registered hr ht =>
      have hk : k ≠ kind := by
        rintro rfl
        exact absurd (hnone.symm.trans hr) (by simp)
      exact .registered ((InsMap.get_set_of_ne _ _ hk).trans hr) ht
    | removing hr ht => exact .removing hr ht
  · have hk : k ≠ kind := by
      rintro rfl
      rcases hlater with hclosing | ⟨hwanted, _⟩
      · obtain ⟨⟨n, s⟩, hsome⟩ := Option.ne_none_iff_exists'.mp hclosing
        exact absurd (hopen.symm.trans (h.closing n s hsome).1) (by simp)
      · exact absurd (hwanted.symm.trans hwants) (by simp)
    exact (InsMap.get_set_of_ne _ _ hk).trans (h.unwanted hopen k hwants)
  · obtain ⟨hclosed, k, hk⟩ := h.closing n s hs
    refine ⟨hclosed, k, ?_⟩
    have hlt := (List.getElem?_eq_some_iff.mp hk).1
    simpa [hentries, List.getElem?_append_left hlt] using hk
  · obtain ⟨_, k, hk⟩ := h.closing n s hs
    have hle : n ≤ b.senders.entries.length := (List.getElem?_eq_some_iff.mp hk).1.le
    simp only [hentries, List.take_append_of_le_length hle] at he
    exact h.swept n s hs e he
  · rcases hlater with hclosing | ⟨_, hopen⟩
    · exact absurd hend hclosing
    · exact absurd (hopen.symm.trans hclosed) (by simp)

/-- `close` goes on: what it has been through is stopped. -/
theorem kept_closeFrom (hheld : ∀ kind track, (kind, track) ∈ b.obtained → b.Held kind track)
    (hclosed : b.closed = true) (hdeaf : b.listening = false) {n : Nat}
    (hswept : ∀ e ∈ b.senders.entries.take n, e.2.track ∈ b.stopped) : (b.closeFrom n).Kept := by
  unfold closeFrom
  split
  · next k sender hn =>
    refine ⟨fun k t hmem => ?_, fun hopen => ?_, fun _ => hdeaf, fun m s hs => ?_,
      fun m s hs => ?_, fun _ hend => ?_⟩
    · cases hheld k t hmem with
      | stopped hs => exact .stopped hs
      | adding ha => exact .adding ha
      | registered hr ht => exact .registered hr ht
      | removing hr ht => exact .removing hr ht
    · exact absurd (hclosed.symm.trans hopen) (by simp)
    · cases hs
      exact ⟨hclosed, k, hn⟩
    · cases hs
      exact hswept
    · cases hend
  · next hn =>
    have hall : b.senders.entries.take n = b.senders.entries :=
      List.take_of_length_le (List.getElem?_eq_none_iff.mp hn)
    rw [hall] at hswept
    refine ⟨fun k t hmem => ?_, fun hopen => ?_, fun _ => hdeaf, fun m s hs => ?_,
      fun m s hs => ?_, fun _ _ => rfl⟩
    · cases hheld k t hmem with
      | stopped hs => exact .stopped hs
      | adding ha => exact .adding ha
      | registered hr ht => exact .stopped (ht ▸ hswept _ (InsMap.get_eq_some_iff.mp hr))
      | removing hr ht => exact .removing hr ht
    · exact absurd (hclosed.symm.trans hopen) (by simp)
    · cases hs
    · cases hs

theorem Kept.close (h : b.Kept) :
    Kept ({ b with closed := true, listening := false }.closeFrom 0) := by
  refine kept_closeFrom (fun k t hmem => ?_) rfl rfl (by simp)
  exact (h.held k t hmem).mono (List.Subset.refl _) (List.Subset.refl _) (fun _ hs => hs)
    (List.Subset.refl _)

theorem Kept.closeNext (h : b.Kept) {n : Nat} {sender : LocalSender}
    (hclosing : b.closing = some (n, sender)) :
    Kept ({ b with stopped := sender.track :: b.stopped }.closeFrom (n + 1)) := by
  obtain ⟨hclosed, k, hk⟩ := h.closing n sender hclosing
  refine kept_closeFrom (b := { b with stopped := sender.track :: b.stopped })
    (fun k t hmem => ?_) hclosed (h.deaf hclosed) fun e he => ?_
  · exact (h.held k t hmem).mono (List.subset_cons_self _ _) (List.Subset.refl _) (fun _ hs => hs)
      (List.Subset.refl _)
  · simp only [List.take_add_one, hk, Option.toList_some, List.mem_append,
      List.mem_singleton] at he
    rcases he with he | rfl
    · exact List.mem_cons_of_mem _ (h.swept n sender hclosing e he)
    · exact List.mem_cons_self

theorem Kept.change {b' : Books} {ev : Event} (h : b.Kept) (hchange : BookChange b ev b')
    (hmay : ∀ i senderId a, ev = .trackAdded i (.ok senderId) → b.adding[i]? = some a →
      b.mayRegister a.1) : b'.Kept := by
  cases hchange with
  | same => exact h
  | start => exact h.start _
  | stopNothing hnone => exact h.stopNothing hnone
  | stop hlistening hsome => exact h.stop hlistening hsome
  | obtained => exact h.obtained _ _
  | registered hi => exact h.registered hi (hmay _ _ _ rfl hi)
  | refused hi => exact h.refused hi
  | removed hi => exact h.removed hi
  | close => exact h.close
  | closeNext hclosing => exact h.closeNext hclosing

end Books

namespace AddonHost

/-! ## Runs -/

/-- No sender is registered where none may be. -/
def orderly (s : AddonHost) : Event → Bool
  | .trackAdded i (.ok _) => (s.adding[i]?).all fun a => s.books.mayRegister a.1
  | _ => true

/-- No request for a track and no removal of a sender is under way. -/
structure Quiescent (s : AddonHost) : Prop where
  capturing : s.capturing = []
  adding : s.adding = []
  removing : s.removing = []
  closing : s.closing = none

/-- A track of a kind that was obtained and not stopped. -/
def Live (s : AddonHost) (kind : MediaKind) (track : Nat) : Prop :=
  (kind, track) ∈ s.obtained ∧ track ∉ s.stopped

/-- Every live track is the registered sender of its kind, and there is none of a
kind that is not wanted, nor one of a closed host. -/
structure Contained (s : AddonHost) : Prop where
  registered : ∀ kind track, s.Live kind track →
    (s.mediaSendSenders.get kind).map (·.track) = some track
  wanted : ∀ kind track, s.Live kind track → s.wants kind = true
  opened : ∀ kind track, s.Live kind track → s.currentState ≠ .closed

theorem Quiescent.contained {s : AddonHost} (hquiet : s.Quiescent) (h : s.books.Kept) :
    s.Contained := by
  have hregistered : ∀ kind track, s.Live kind track →
      ∃ sender, s.mediaSendSenders.get kind = some sender ∧ sender.track = track := by
    rintro kind track ⟨hobtained, hlive⟩
    cases h.held kind track hobtained with
    | stopped hs => exact absurd hs hlive
    | adding ha =>
      have : (kind, track) ∈ s.adding := ha
      simp [hquiet.adding] at this
    | registered hr ht => exact ⟨_, hr, ht⟩
    | @removing sender hr ht =>
      have : (kind, sender) ∈ s.removing := hr
      simp [hquiet.removing] at this
  have hopened : ∀ kind track, s.Live kind track → s.currentState ≠ .closed := by
    intro kind track hlive hclosed
    obtain ⟨sender, hsender, _⟩ := hregistered kind track hlive
    have hempty : s.mediaSendSenders = .empty := h.cleared (decide_eq_true hclosed) hquiet.closing
    simp [hempty] at hsender
  refine ⟨fun kind track hlive => ?_, fun kind track hlive => ?_, hopened⟩
  · obtain ⟨sender, hsender, rfl⟩ := hregistered kind track hlive
    rw [hsender, Option.map_some]
  · obtain ⟨sender, hsender, _⟩ := hregistered kind track hlive
    by_contra hunwanted
    have hnone : s.mediaSendSenders.get kind = none :=
      h.unwanted (decide_eq_false (hopened kind track hlive)) kind
        (Bool.eq_false_iff.mpr hunwanted)
    exact absurd (hnone.symm.trans hsender) (by simp)

theorem loaded_kept (manifest : AddonManifest) (options : AddonHostOptions) (sessionId : JsString)
    (window : Option Window) : (loaded manifest options sessionId window).books.Kept := by
  have hbooks : (loaded manifest options sessionId window).books =
      ⟨[], [], [], .empty, [], none, false, true, fun _ => false⟩ := by
    have hwants : (loaded manifest options sessionId window).wants = fun _ => false := by
      funext kind
      unfold loaded
      cases kind <;> dsimp only <;> split <;> rfl
    rw [books, hwants]
    unfold loaded
    dsimp only
    split <;> rfl
  rw [hbooks]
  refine ⟨?_, ?_, ?_, ?_, ?_, ?_⟩ <;> simp

theorem step_kept {s : AddonHost} (ev : Event) (h : s.books.Kept) (horderly : s.orderly ev = true) :
    (s.step ev).1.books.Kept := by
  refine h.change (s.step_books ev) fun i senderId a hev ha => ?_
  subst hev
  have hadding : s.adding[i]? = some a := ha
  simpa [orderly, hadding] using horderly

/-- As long as no sender is registered over another one, for a kind that has been
stopped since, or behind the back of `close`, a host that is at rest has no live
track but the registered sender of each kind that is wanted, and none once it is
closed. -/
theorem tracks_contained (manifest : AddonManifest) (options : AddonHostOptions)
    (sessionId : JsString) (window : Option Window) (evs : List Event)
    (horderly : Machine.Guarded step (fun s ev => s.orderly ev = true)
      (loaded manifest options sessionId window) evs) :
    Machine.Always step (fun s => s.Quiescent → s.Contained)
      (loaded manifest options sessionId window) evs := by
  rintro pre ⟨post, rfl⟩ hquiet
  have hkept := Machine.guarded_inv (P := fun s => s.books.Kept)
    (fun _ ev h hC => step_kept ev h hC) (loaded_kept manifest options sessionId window) (Machine.guarded_append.mp horderly).1
  exact hquiet.contained hkept

/-! ## A microphone -/

/-- A manifest that asks for the microphone. -/
def micManifest : AddonManifest where
  id := js "org.senn.mic"
  name := js "Mic"
  version := js "1.0.0"
  entry := js "index.html"
  license := js "MIT"
  permissions := [ MEDIA_SEND_AUDIO]
  capabilities := [.str (js "mic")]

def micHost : AddonHost :=
  loaded micManifest ⟨some ⟨true⟩, false, some ⟨true, false⟩, none⟩ (js "s") (some 0)

def micMessage (op : BridgeOp) : Event :=
  .message (some 0) (.obj [(js "kind", .str ADDON_BRIDGE_KIND), (js "op", .str op.text)]) 0

/-- Start, stop, start again, and close. -/
def micRun : List Event :=
  [micMessage (.mediaSendStart .audio), .captured 0 (.track 1), .trackAdded 0 (.ok 10),
    micMessage (.mediaSendStop .audio), .senderRemoved 0 none,
    micMessage (.mediaSendStart .audio), .captured 0 (.track 2), .trackAdded 0 (.ok 11),
    .close, .closeSenderRemoved]

/-- Two starts before the first capture has settled. -/
def doubleStart : List Event :=
  [micMessage (.mediaSendStart .audio), micMessage (.mediaSendStart .audio),
    .captured 0 (.track 1), .captured 0 (.track 2), .trackAdded 0 (.ok 10), .trackAdded 0 (.ok 11)]

theorem tracks_contained_micRun :
    Machine.Always step (fun s => s.Quiescent → s.Contained) micHost micRun :=
  tracks_contained _ _ _ _ _ (by decide +kernel)

theorem doubleStart_leaks : ¬ ∀ manifest : AddonManifest, manifest.Valid →
    ∀ options sessionId window evs, Machine.Always step (fun s => s.Quiescent → s.Contained)
      (loaded manifest options sessionId window) evs := by
  intro h
  have hvalid : micManifest.Valid := ⟨by decide +kernel, by decide +kernel, by decide +kernel⟩
  have hquiet : (Machine.after step micHost doubleStart).Quiescent :=
    ⟨by decide +kernel, by decide +kernel, by decide +kernel, by decide +kernel⟩
  have hend := h micManifest hvalid ⟨some ⟨true⟩, false, some ⟨true, false⟩, none⟩ (js "s") (some 0)
    doubleStart doubleStart (List.prefix_refl _) hquiet
  have hlive : (Machine.after step micHost doubleStart).Live .audio 1 := by
    unfold Live
    decide +kernel
  have hother : ((Machine.after step micHost doubleStart).mediaSendSenders.get .audio).map
      (·.track) = some 2 := by decide +kernel
  have := hother.symm.trans (hend.registered .audio 1 hlive)
  simp at this

end AddonHost

end Senn.Addon
