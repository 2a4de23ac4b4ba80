/- GID: Sqe/Coordinator/TxnAccounts
   generality: G
   digest: Which calls keep the registry's books: each end recorded once, each closure run. -/

import Sqe.Coordinator.TxnRegistry

set_option autoImplicit false

namespace Sqe.Coordinator.TxnRegistry

open Sqe.Library.Transition List

variable {ι ω : Type} [DecidableEq ι]

def heldOf (held : List (Held ι ω)) (x : ι) : List Open :=
  (held.filter fun h => h.id = x).map Held.txn

/-- The transactions of the id that are open or held by a caller of `end`. -/
def State.live (s : State ι ω) (x : ι) : List Open :=
  (s.opened x).toList.map Entry.txn ++ heldOf s.held x

/-- No id is open and ended. A transaction is recorded once if it is neither open nor held and never
otherwise, and its closures ran when it was recorded. -/
def Accounted (s : State ι ω) : Prop :=
  ∀ x, ((s.opened x).isSome = true → s.ended x = none) ∧
    (∀ n < (s.ledger x).count, ((s.ledger x).recorded n).length =
      if n ∈ (s.live x).map Open.nth then 0 else 1) ∧
    ∀ f n, (s.ledger x).accepted[f]? = some n → n < (s.ledger x).count ∧
      (s.ledger x).ran f = ((s.ledger x).recorded n).map Outcome.unpublished

/-- The books of an id agree with its live transactions, and each of these has its closures. -/
structure Books (live : List Open) (l : Ledger) : Prop where
  distinct : (live.map Open.nth).Nodup
  opened : ∀ o ∈ live, o.nth < l.count
  recorded : ∀ n, (l.recorded n).length = if n < l.count ∧ n ∉ live.map Open.nth then 1 else 0
  accepted : ∀ n ∈ l.accepted, n < l.count
  closures : ∀ o ∈ live, ∀ f, o.atEnd.count f = if l.accepted[f]? = some o.nth then 1 else 0
  ran : ∀ f, l.ran f = l.accepted[f]?.elim [] fun n => (l.recorded n).map Outcome.unpublished

namespace Books

variable {o : Open} {live live' : List Open} {l : Ledger}

theorem perm (books : Books live l) (same : live.Perm live') : Books live' l := by
  have numbers : ∀ n, n ∈ live'.map Open.nth ↔ n ∈ live.map Open.nth :=
    fun n => (same.map Open.nth).mem_iff.symm
  refine ⟨(same.map _).nodup_iff.mp books.distinct, fun o member => books.opened o
    (same.mem_iff.mpr member), fun n => ?_, books.accepted, fun o member => books.closures o
    (same.mem_iff.mpr member), books.ran⟩
  simp only [books.recorded, numbers]

theorem unrecorded (books : Books (o :: live) l) : l.recorded o.nth = [] := by
  have length := books.recorded o.nth
  rw [if_neg fun gone => gone.2 mem_cons_self] at length
  exact length_eq_zero_iff.mp length

theorem start (books : Books live l) (opened : Nat) :
    Books (⟨l.count, opened, []⟩ :: live) { l with count := l.count + 1 } := by
  have fresh : l.count ∉ live.map Open.nth := by
    intro member
    obtain ⟨o, listed, same⟩ := mem_map.mp member
    exact Nat.lt_irrefl _ (same ▸ books.opened o listed)
  have earlier : ∀ {n}, n < l.count → n < l.count + 1 := Nat.lt_succ_of_lt
  refine ⟨nodup_cons.mpr ⟨fresh, books.distinct⟩, ?_, fun n => ?_,
    fun n member => earlier (books.accepted n member), ?_, books.ran⟩
  · simpa using fun o member => earlier (books.opened o member)
  · rw [books.recorded]
    refine if_congr ?_ rfl rfl
    simp only [map_cons, mem_cons, not_or]
    constructor
    · exact fun ⟨before, gone⟩ => ⟨earlier before, Nat.ne_of_lt before, gone⟩
    · exact fun ⟨before, apart, gone⟩ => ⟨by omega, gone⟩
  · refine forall_mem_cons.mpr ⟨fun f => ?_, books.closures⟩
    refine (if_neg fun accepted => ?_).symm
    exact Nat.lt_irrefl _ (books.accepted _ (mem_of_getElem? accepted))

theorem close (books : Books (o :: live) l) (outcome : Outcome) :
    Books live (l.recordEnd o outcome) := by
  obtain ⟨alone, distinct⟩ := nodup_cons.mp books.distinct
  have opened := books.opened o mem_cons_self
  refine ⟨distinct, fun p member => books.opened p (mem_cons_of_mem _ member), fun n => ?_,
    books.accepted, fun p member => books.closures p (mem_cons_of_mem _ member), fun f => ?_⟩
  · by_cases same : n = o.nth
    · subst same
      simp [Ledger.recordEnd, books.unrecorded, opened, alone]
    · have before := books.recorded n
      simpa [Ledger.recordEnd, Function.update_of_ne same, same] using before
  · have before := books.ran f
    have count := books.closures o mem_cons_self f
    cases taken : l.accepted[f]? with
    | none => simp_all [Ledger.recordEnd]
    | some n =>
      by_cases same : n = o.nth
      · subst same
        simp_all [Ledger.recordEnd, books.unrecorded]
      · simp_all [Ledger.recordEnd]

theorem accept (books : Books (o :: live) l) :
    Books ({ o with atEnd := o.atEnd ++ [l.accepted.length] } :: live)
      { l with accepted := l.accepted ++ [o.nth] } := by
  obtain ⟨alone, distinct⟩ := nodup_cons.mp books.distinct
  have opened := books.opened o mem_cons_self
  have old : ∀ f, f ≠ l.accepted.length →
      (l.accepted ++ [o.nth])[f]? = l.accepted[f]? := by
    intro f apart
    rcases Nat.lt_or_gt_of_ne apart with before | after
    · exact getElem?_append_left before
    · rw [getElem?_eq_none (Nat.le_of_lt after), getElem?_eq_none (by simp; omega)]
  refine ⟨books.distinct, by simpa using forall_mem_cons.mp books.opened, books.recorded,
    forall_mem_append.mpr ⟨books.accepted, forall_mem_singleton.mpr opened⟩,
    ?_, fun f => ?_⟩
  · refine forall_mem_cons.mpr ⟨fun f => ?_, fun p member f => ?_⟩
    · have before := books.closures o mem_cons_self f
      by_cases last : f = l.accepted.length
      · subst last
        simp_all
      · simp_all [Ne.symm last]
    · have before := books.closures p (mem_cons_of_mem _ member) f
      have apart : o.nth ≠ p.nth := fun same => alone (same ▸ mem_map_of_mem member)
      by_cases last : f = l.accepted.length
      · subst last
        simp_all
      · simp_all
  · have before := books.ran f
    by_cases last : f = l.accepted.length
    · subst last
      simp_all [books.unrecorded]
    · simp_all

end Books

def SoundAt (s : State ι ω) (x : ι) : Prop :=
  ((s.opened x).isSome = true → s.ended x = none) ∧ Books (s.live x) (s.ledger x)

variable {s s' : State ι ω} {x : ι}

theorem heldOf_erase [DecidableEq ω] {held : List (Held ι ω)} {h : Held ι ω} (member : h ∈ held)
    (x : ι) : (heldOf held x).Perm (heldOf (h :: held.erase h) x) :=
  ((perm_cons_erase member).filter _).map _

theorem accounted_of_sound (sound : ∀ x, SoundAt s x) : Accounted s := by
  intro x
  obtain ⟨apart, books⟩ := sound x
  refine ⟨apart, fun n before => ?_, fun f n taken => ?_⟩
  · rw [books.recorded]
    by_cases member : n ∈ (s.live x).map Open.nth <;> simp [member, before]
  · exact ⟨books.accepted n (mem_of_getElem? taken), by rw [books.ran, taken]; rfl⟩

theorem SoundAt.rollBack (sound : SoundAt s x) (ends : ι → Entry ω → Option Outcome) :
    SoundAt (s.rollBack ends) x := by
  cases found : s.opened x with
  | none => simpa [SoundAt, State.rollBack, State.live, found] using sound.2
  | some entry =>
    have books : Books (entry.txn :: heldOf s.held x) (s.ledger x) := by
      simpa [State.live, found] using sound.2
    cases given : ends x entry with
    | none =>
      simp_all [SoundAt, State.rollBack, State.live, Option.filter_some]
    | some outcome =>
      simpa [SoundAt, State.rollBack, State.live, found, given, Option.filter_some]
        using books.close outcome

theorem SoundAt.sweep (sound : SoundAt s x) : SoundAt s.sweep x := by
  have forgot : SoundAt s.forget x := by
    refine ⟨fun opened => ?_, sound.2⟩
    simp [State.forget, sound.1 opened]
  exact forgot.rollBack _

theorem sound_at (id : ι) (sound : ∀ x, SoundAt s x) (here : SoundAt s' id)
    (elsewhere : ∀ x ≠ id, s'.opened x = s.opened x ∧ s'.ended x = s.ended x ∧
      s'.ledger x = s.ledger x ∧ (heldOf s.held x).Perm (heldOf s'.held x)) (x : ι) :
    SoundAt s' x := by
  by_cases same : x = id
  · exact same ▸ here
  · obtain ⟨opened, ended, ledger, held⟩ := elsewhere x same
    obtain ⟨apart, books⟩ := sound x
    refine ⟨by rwa [opened, ended], ?_⟩
    rw [ledger, State.live, opened]
    exact books.perm (held.append_left _)

theorem sound_atEnd (sound : ∀ x, SoundAt s x) (id : ι) (x : ι) : SoundAt (s.atEnd id) x := by
  unfold State.atEnd
  split
  next entry found =>
    refine sound_at id sound ?_ (fun x apart => by simp [State.setOpen, apart]) x
    have books : Books (entry.txn :: heldOf s.held id) (s.ledger id) := by
      simpa [State.live, found] using (sound id).2
    have accepted := books.accept
    simp_all [SoundAt, State.live, State.setOpen]
  next => exact sound x

variable [DecidableEq ω]

def Unopened (s : State ι ω) (e : Event ι ω) : Prop :=
  ∀ h, e = .reopen h → s.opened h.id = none

theorem sound_scope (swept : ∀ x, SoundAt s.sweep x) (id : ι) (owner : ω) (x : ι) :
    SoundAt (s.scope id owner).1 x := by
  unfold State.scope
  dsimp only
  split
  · exact swept x
  next fresh =>
    split
    next entry found =>
      split
      · exact swept x
      · refine sound_at id swept ?_ (fun x apart => by simp [State.setOpen, apart]) x
        have here := swept id
        simp_all [SoundAt, State.live, State.setOpen]
    next found =>
      refine sound_at id swept ?_ (fun x apart => by simp [State.setOpen, apart]) x
      have books := (swept id).2.start s.sweep.clock
      simp_all [SoundAt, State.live, State.setOpen]

theorem sound_endTransaction (swept : ∀ x, SoundAt s.sweep x) (id : ι) (owner : ω) (commit : Bool)
    (x : ι) : SoundAt (s.endTransaction id owner commit) x := by
  have books := (swept id).2
  unfold State.endTransaction
  dsimp only
  split
  next entry found =>
    split
    · exact swept x
    · refine sound_at id swept ?_ (fun x apart => ?_) x
      · simp_all [SoundAt, State.live, State.setOpen, State.setEnded, heldOf]
      · simp [heldOf, apart, Ne.symm apart, State.setOpen, State.setEnded]
  next found =>
    split
    · exact swept x
    · refine sound_at id swept ?_ (fun x apart => by simp [State.setEnded, apart]) x
      simp_all [SoundAt, State.live, State.setEnded]

theorem sound_step {e : Event ι ω} (sound : ∀ x, SoundAt s x) (unopened : Unopened s e)
    (taken : step s e = some s') (x : ι) : SoundAt s' x := by
  have swept : ∀ x, SoundAt s.sweep x := fun x => (sound x).sweep
  have taking : ∀ {h}, h ∈ s.held → Books ((s.opened h.id).toList.map Entry.txn ++ h.txn ::
      heldOf (s.held.erase h) h.id) (s.ledger h.id) := fun {h} member => by
    simpa [heldOf] using (sound h.id).2.perm ((heldOf_erase member h.id).append_left _)
  revert taken
  -- the steps that are taken, in the order of `step`
  fun_cases step s e <;> rintro ⟨⟩
  · exact sound x
  · exact sound_scope swept _ _ x
  · exact sound_endTransaction swept _ _ _ x
  · exact sound_atEnd sound _ x
  next h holds =>
    refine ⟨(sound x).1, (sound x).2.perm ((heldOf_erase holds.1 x).trans ?_ |>.append_left _)⟩
    by_cases same : h.id = x <;> simp [heldOf, same]
  next h outcome member =>
    refine sound_at h.id sound ?_ (fun x apart => ?_) x
    · have books := ((taking member).perm perm_middle).close outcome
      exact ⟨(sound h.id).1, by simpa [State.live, State.finish] using books⟩
    · simpa [heldOf, apart, Ne.symm apart, State.finish] using heldOf_erase member x
  next h member =>
    refine sound_at h.id sound ?_ (fun x apart => ?_) x
    · have books := taking member
      have closed := unopened h rfl
      simp_all [SoundAt, State.live, State.reopen]
    · simpa [heldOf, apart, Ne.symm apart, State.reopen] using heldOf_erase member x
  · exact (sound x).rollBack _
  · exact (sound x).rollBack _

theorem unopened_of_accounted {h : Held ι ω} (sound : ∀ x, SoundAt s x)
    (accounted : Accounted (s.reopen h)) (member : h ∈ s.held) : s.opened h.id = none := by
  cases found : s.opened h.id with
  | none => rfl
  | some entry =>
    have books : Books (entry.txn :: heldOf s.held h.id) (s.ledger h.id) := by
      simpa [State.live, found] using (sound h.id).2
    obtain ⟨alone, -⟩ := nodup_cons.mp books.distinct
    have recorded := (accounted h.id).2.1 entry.txn.nth (books.opened _ mem_cons_self)
    have lost : entry.txn.nth ∉ ((s.reopen h).live h.id).map Open.nth := by
      rw [((heldOf_erase member h.id).map _).mem_iff] at alone
      simpa [State.live, State.reopen, heldOf] using alone
    rw [if_neg lost] at recorded
    simp [State.reopen, books.unrecorded] at recorded

def State.empty (clock : Nat) : State ι ω :=
  ⟨clock, fun _ => none, fun _ => none, [], fun _ => ⟨0, fun _ => [], [], fun _ => []⟩⟩

/-- The books are right in every state of a run that reopens no transaction over another one, and
the call that does so first is the one that breaks them. -/
theorem accounting_kept_iff
    (reached : Reachable (fun s : State ι ω => ∃ clock, s = .empty clock) step Unopened s) :
    Accounted s ∧ ∀ e s', step s e = some s' → (Accounted s' ↔ Unopened s e) := by
  have sound : ∀ x, SoundAt s x := by
    refine Reachable.invariant ?_ (fun _ _ _ => sound_step) reached
    rintro _ ⟨clock, rfl⟩ x
    refine ⟨by rintro ⟨⟩, ?_⟩
    constructor <;> simp [State.live, State.empty, heldOf]
  refine ⟨accounted_of_sound sound, fun e s' taken => ⟨?_, fun unopened => ?_⟩⟩
  · rintro accounted h rfl
    simp only [step] at taken
    split at taken <;> cases taken
    next member => exact unopened_of_accounted sound accounted member
  · exact accounted_of_sound (sound_step sound unopened taken)

/-- A committed transaction is recorded once, and its closure is told so. -/
theorem committed_accounted : ∃ s : State Unit Unit, (s.ledger ()).recorded 0 = [.committed] ∧
    (s.ledger ()).ran 0 = [none] ∧ Accounted s := by
  refine ⟨_, ?_, ?_, (accounting_kept_iff ((Reachable.start ⟨0, rfl⟩).follow_free
    [.scope () (), .atEnd (), .endTransaction () () true,
      .finish ⟨(), (), ⟨0, 0, [0]⟩, .commit⟩ .committed] ?_ rfl)).1⟩
  · rfl
  · rfl
  · simp [Unopened]

/-- A COMMIT takes a day. Its id is forgotten and opened again, and then COMMIT fails and puts its
own transaction back: the second one is lost with its closure. -/
theorem reopened_over_second : ∃ s : State Unit Unit, follow step (fun _ _ => True) (.empty 0)
    [.scope () (), .endTransaction () () true, .publish ⟨(), (), ⟨0, 0, []⟩, .commit⟩,
      .tick 86400, .scope () (), .atEnd (), .reopen ⟨(), (), ⟨0, 0, []⟩, .publishing⟩] = some s ∧
    ¬ Accounted s :=
  ⟨_, rfl, fun accounted => by cases (accounted ()).2.1 1 (by decide)⟩

end Sqe.Coordinator.TxnRegistry
