import Mathlib.Logic.Relation
import SimpleChubby.Client.ChubbyClient

/-!
# `event_bkup_`

What `chubby_client` keeps of the files it has open, and what happens to it: a call
that returns changes it, and `connect_server_and_recover` opens it again at a new
leader, file by file, while nobody changes it. A `Caller` is that much of a client;
the client with all its threads is one in every run.
-/

namespace SimpleChubby

/-- A client: its `event_bkup_`, whether it is connected, what its recovery has
    still to open again, and the call under way that the leader has handled, with
    the reply unless that is lost. -/
structure Caller where
  eventBkup : List (FileHandler × Mode)
  connected : Bool
  reopening : List (FileHandler × Mode)
  handled : Option (Request × Option Reply)
  deriving DecidableEq, Repr

/-- A client before it connects for the first time. -/
def Caller.fresh : Caller where
  eventBkup := []
  connected := false
  reopening := []
  handled := none

/-- A client whose session has started: all its files are to be opened again. -/
def Caller.started (c : Caller) : Caller where
  eventBkup := c.eventBkup
  connected := true
  reopening := c.eventBkup
  handled := c.handled

/-- A client whose call returns: `store_bkup_after_call` has noted it. -/
def Caller.returned (c : Caller) (request : Request) (r : Reply) : Caller where
  eventBkup := Client.State.eventBkupAfterCall request r c.eventBkup
  connected := c.connected
  reopening := c.reopening
  handled := none

/-- A client that has lost its connection. -/
def Caller.disconnected (c : Caller) (arrived : Bool) : Caller where
  eventBkup := c.eventBkup
  connected := false
  reopening := []
  handled := if arrived then c.handled else c.handled.map fun call => (call.1, none)

/-! ## What a client has open -/

/-- The files of `event_bkup_` that are open at this leader. -/
def Caller.reopened (c : Caller) : List (FileHandler × Mode) :=
  c.eventBkup.take (c.eventBkup.length - c.reopening.length)

/-- What the client has open at its leader, the call that is handled included. -/
def Caller.opened (c : Caller) : List (FileHandler × Mode) :=
  match c.handled with
  | some (request, some r) => Client.State.eventBkupAfterCall request r c.reopened
  | _ => c.reopened

/-- What is still to be opened again is the end of `event_bkup_`, a close under way
    does not concern it, and a client that is not connected has no call under way. -/
structure Caller.Ok (c : Caller) : Prop where
  suffix : c.reopening <:+ c.eventBkup
  closing : ∀ fd r, c.handled = some (.fileClose fd, some r) →
    ∀ p ∈ c.reopening, p.1.fileName ≠ fd.fileName
  offline : c.connected = false → c.handled = none

section Callers

variable {c : Caller} {request : Request} {r : Reply} {l rest : List (FileHandler × Mode)}
  {p : FileHandler × Mode}

open Client.State (eventBkupAfterCall locksAfterCall)

/-- A file that is opened again while a call is under way might have been opened before it. -/
theorem eventBkupAfterCall_append
    (h : ∀ fd, request = .fileClose fd → p.1.fileName ≠ fd.fileName) :
    (eventBkupAfterCall request r (l ++ [p])).Perm (eventBkupAfterCall request r l ++ [p]) := by
  unfold eventBkupAfterCall
  split
  · rename_i fd
    have hkept : [p].filter (fun q => decide (q.1.fileName ≠ fd.fileName)) = [p] :=
      List.filter_eq_self.mpr fun q hq => by
        rw [List.mem_singleton.mp hq]
        exact decide_eq_true (h fd rfl)
    rw [List.filter_append, hkept]
  · rw [List.append_assoc, List.append_assoc]
    exact List.perm_append_comm.append_left l
  · exact .refl _

/-- What takes no lock changes nothing. -/
theorem eventBkupAfterCall_eq (h : locksAfterCall request r = false) :
    eventBkupAfterCall request r l = l := by
  unfold eventBkupAfterCall
  split
  · cases h
  · cases h
  · rfl

theorem Caller.reopened_of_nil (h : c.reopening = []) : c.reopened = c.eventBkup := by
  unfold Caller.reopened
  rw [h, List.length_nil, Nat.sub_zero, List.take_length]

theorem Caller.opened_of_none (h : c.handled = none) : c.opened = c.reopened := by
  unfold Caller.opened
  rw [h]

theorem Caller.opened_of_some (h : c.handled = some (request, some r)) :
    c.opened = eventBkupAfterCall request r c.reopened := by
  unfold Caller.opened
  rw [h]

/-- The next file is opened again. -/
theorem Caller.reopened_next (h : c.reopening <:+ c.eventBkup) (hnext : c.reopening = p :: rest) :
    ({ c with reopening := rest } : Caller).reopened = c.reopened ++ [p] := by
  obtain ⟨done, hdone⟩ := h
  unfold Caller.reopened
  rw [hnext] at hdone ⊢
  rw [← hdone, List.length_append, List.length_cons, Nat.add_sub_cancel,
    show done.length + (rest.length + 1) - rest.length = done.length + 1 by omega,
    List.take_left, List.take_append]
  simp

/-- The opened files grow by the file that is opened again. -/
theorem Caller.Ok.opened_next (h : c.Ok) (hnext : c.reopening = p :: rest) :
    ({ c with reopening := rest } : Caller).opened.Perm (c.opened ++ [p]) := by
  have hreopened := Caller.reopened_next h.suffix hnext
  unfold Caller.opened
  rw [hreopened]
  rcases hhandled : c.handled with _ | ⟨request, _ | r⟩
  · exact .refl _
  · exact .refl _
  · refine eventBkupAfterCall_append fun fd hclose => ?_
    have hmem : p ∈ c.reopening := by
      rw [hnext]
      exact List.mem_cons_self
    rw [hclose] at hhandled
    exact h.closing fd r hhandled p hmem

theorem Caller.Ok.next (h : c.Ok) (hnext : c.reopening = p :: rest) :
    ({ c with reopening := rest } : Caller).Ok := by
  have hrest : rest <:+ c.reopening := by
    rw [hnext]
    exact List.suffix_cons _ _
  refine ⟨hrest.trans h.suffix, fun fd r hhandled q hq => ?_, h.offline⟩
  exact h.closing fd r hhandled q (hrest.subset hq)

theorem Caller.returned_eq (h : locksAfterCall request r = false) :
    c.returned request r = { c with handled := none } := by
  unfold Caller.returned
  rw [eventBkupAfterCall_eq h]

/-- A call that returns does to `event_bkup_` what its handling has done to the files
    that are open. -/
theorem Caller.opened_returned (hhandled : c.handled = some (request, some r))
    (hlock : ¬ (locksAfterCall request r = true ∧ c.reopening ≠ [])) :
    (c.returned request r).opened = c.opened := by
  rw [Caller.opened_of_some hhandled, Caller.opened_of_none rfl]
  by_cases hnil : c.reopening = []
  · rw [Caller.reopened_of_nil hnil]
    exact Caller.reopened_of_nil hnil
  · have hfree : locksAfterCall request r = false :=
      eq_false_of_ne_true fun hcon => hlock ⟨hcon, hnil⟩
    rw [Caller.returned_eq hfree, eventBkupAfterCall_eq hfree]
    rfl

theorem Caller.Ok.returned (h : c.Ok)
    (hlock : ¬ (locksAfterCall request r = true ∧ c.reopening ≠ [])) :
    (c.returned request r).Ok := by
  refine ⟨?_, (fun fd r hcon => by cases hcon), fun _ => rfl⟩
  by_cases hnil : c.reopening = []
  · rw [show (c.returned request r).reopening = [] from hnil]
    exact List.nil_suffix
  · have hfree : locksAfterCall request r = false :=
      eq_false_of_ne_true fun hcon => hlock ⟨hcon, hnil⟩
    rw [Caller.returned_eq hfree]
    exact h.suffix

end Callers

/-! ## The client with its threads -/

open Client.State (locksAfterCall)

/-- What happens to a client. -/
inductive Caller.Moves (c : Caller) : Caller → Prop
  | stays : Moves c c
  | started : c.connected = false → Moves c c.started
  | next {p : FileHandler × Mode} {rest : List (FileHandler × Mode)} :
      c.reopening = p :: rest → Moves c { c with reopening := rest }
  | handled {request : Request} {r : Option Reply} : c.handled = none →
      Moves c { c with handled := some (request, r) }
  | returned {request : Request} {r : Reply} : c.handled = some (request, some r) →
      ¬ (locksAfterCall request r = true ∧ c.reopening ≠ []) → Moves c (c.returned request r)
  | disconnected {arrived : Bool} : Moves c (c.disconnected arrived)

/-- What the recovery of a client has still to open again: nothing, unless it holds
    `bkup_lk_`. -/
def Client.Poll.toReopen : Client.Poll → List (FileHandler × Mode)
  | .reopening rest => rest
  | .opening call rest =>
    match call.request with
    | .fileReopen fd mode => (fd, mode) :: rest
    | _ => rest
  | _ => []

/-- Whether the connection of a client is in use, or about to be. -/
def Client.Poll.attached : Client.Poll → Bool
  | .polling => true
  | .reopening _ => true
  | .opening _ _ => true
  | _ => false

/-- The call of a thread whose reply has been accepted. -/
def Client.Phase.handled : Client.Phase → Option (Request × Option Reply)
  | .unpacked call _ r => some (call.request, some r)
  | _ => none

/-- The call of the thread that holds `rpclk_`, once its reply has been accepted. -/
def Client.State.handled (s : Client.State) : Option (Request × Option Reply) :=
  s.rpclk.bind fun holder => holder.2.handled

/-- A client without its threads. -/
def Client.State.caller (s : Client.State) : Caller where
  eventBkup := s.eventBkup
  connected := s.poll.attached
  reopening := s.poll.toReopen
  handled := s.handled

namespace Client

variable {s s' : State} {l : Label}

/-- The recovery opens files by `fileReopen`. -/
def State.Reopens (s : State) : Prop :=
  ∀ call rest, s.poll = .opening call rest → ∃ fd mode, call.request = .fileReopen fd mode

theorem State.handled_eq {t : Nat} {p : Phase} (h : s.rpclk = some (t, p)) :
    s.handled = p.handled := by
  unfold State.handled
  rw [h]
  rfl

/-- Steps that are no business of `event_bkup_`. -/
theorem caller_stays (hbkup : s'.eventBkup = s.eventBkup)
    (hattached : s'.poll.attached = s.poll.attached) (hreopen : s'.poll.toReopen = s.poll.toReopen)
    (hhandled : s'.handled = s.handled) : s.caller.Moves s'.caller := by
  unfold State.caller
  rw [hbkup, hattached, hreopen, hhandled]
  exact .stays

/-- The connection is lost, or the process ends. -/
theorem caller_disconnected (hbkup : s'.eventBkup = s.eventBkup)
    (hattached : s'.poll.attached = false) (hreopen : s'.poll.toReopen = [])
    (hhandled : s'.handled = s.handled) : s.caller.Moves s'.caller := by
  have hlost : s'.caller = s.caller.disconnected true := by
    unfold State.caller Caller.disconnected
    rw [hbkup, hattached, hreopen, hhandled]
    rfl
  rw [hlost]
  exact .disconnected

/-- A recovery with files to open again holds `bkup_lk_`. -/
theorem locks_of_toReopen {poll : Poll} (h : poll.toReopen ≠ []) : poll.locks = true := by
  cases poll with
  | reopening rest => rfl
  | opening call rest => rfl
  | _ => exact absurd rfl h

/-! ### Steps of `invoke` -/

theorem prepare_caller {t : Nat} {r : Request} (hreopens : s.Reopens)
    (h : s.prepare t r = some s') :
    s.caller.Moves s'.caller ∧ s'.Reopens := by
  unfold State.prepare at h
  split_ifs at h with hlock
  cases h
  refine ⟨caller_stays rfl rfl rfl ?_, hreopens⟩
  unfold State.handled
  rw [Option.not_isSome_iff_eq_none.mp hlock]
  rfl

theorem storeBkupBeforeCall_caller (hreopens : s.Reopens) (h : s.storeBkupBeforeCall = some s') :
    s.caller.Moves s'.caller ∧ s'.Reopens := by
  unfold State.storeBkupBeforeCall at h
  split at h
  · next t call hlock =>
    split at h
    · split_ifs at h
      cases h
      exact ⟨caller_stays rfl rfl rfl (State.handled_eq hlock).symm, hreopens⟩
    · cases h
      exact ⟨caller_stays rfl rfl rfl (State.handled_eq hlock).symm, hreopens⟩
  · cases h

theorem write_caller {ok : Bool} (hreopens : s.Reopens) (h : s.write ok = some s') :
    s.caller.Moves s'.caller ∧ s'.Reopens := by
  unfold State.write at h
  split at h
  · next t call hlock =>
    split_ifs at h
    · cases h
      exact ⟨caller_stays rfl rfl rfl (State.handled_eq hlock).symm, hreopens⟩
    · cases h
      exact ⟨caller_stays rfl rfl rfl (State.handled_eq hlock).symm, hreopens⟩
  · cases h

theorem receive_caller (hreopens : s.Reopens) (h : s.receive = some s') :
    s.caller.Moves s'.caller ∧ s'.Reopens := by
  unfold State.receive at h
  split at h
  · next t call a rest hlock hqueue =>
    cases h
    exact ⟨caller_stays rfl rfl rfl (State.handled_eq hlock).symm, hreopens⟩
  · cases h

theorem unpack_caller (hreopens : s.Reopens) (h : s.unpack = some s') :
    s.caller.Moves s'.caller ∧ s'.Reopens := by
  unfold State.unpack at h
  split at h
  · next t call a hlock =>
    have hnone : s.handled = none := State.handled_eq hlock
    split_ifs at h
    · cases h
      exact ⟨caller_stays rfl rfl rfl hnone.symm, hreopens⟩
    · split at h
      · cases h
        exact ⟨caller_stays rfl rfl rfl hnone.symm, hreopens⟩
      · cases h
        exact ⟨.handled hnone, hreopens⟩
    · cases h
      exact ⟨caller_stays rfl rfl rfl hnone.symm, hreopens⟩
  · cases h

theorem storeBkupAfterCall_caller (hreopens : s.Reopens) (h : s.storeBkupAfterCall = some s') :
    s.caller.Moves s'.caller ∧ s'.Reopens := by
  unfold State.storeBkupAfterCall at h
  split at h
  · next t call a r hlock =>
    split_ifs at h with hlocks
    cases h
    refine ⟨.returned (State.handled_eq hlock) ?_, hreopens⟩
    rintro ⟨hafter, hreopening⟩
    rw [hafter, Bool.true_and] at hlocks
    exact hlocks (locks_of_toReopen hreopening)
  · cases h

/-! ### Steps of the poll thread -/

theorem pollRecvCb_caller (hreopens : s.Reopens) (h : s.pollRecvCb = some s') :
    s.caller.Moves s'.caller ∧ s'.Reopens := by
  unfold State.pollRecvCb at h
  by_cases hnot : s.poll ≠ .polling
  · rw [if_pos hnot] at h
    cases h
  rw [if_neg hnot] at h
  split at h
  · cases h
    exact ⟨caller_stays rfl rfl rfl rfl, hreopens⟩
  · cases h
    exact ⟨caller_stays rfl rfl rfl rfl, hreopens⟩
  · split_ifs at h
    cases h
    exact ⟨caller_disconnected rfl rfl rfl rfl, fun _ _ hcon => by cases hcon⟩

theorem connect_caller (h : s.connect = some s') : s.caller.Moves s'.caller ∧ s'.Reopens := by
  unfold State.connect at h
  split_ifs at h with hpoll
  cases h
  exact ⟨caller_stays rfl (by rw [hpoll]; rfl) (by rw [hpoll]; rfl) rfl,
    fun _ _ hcon => by cases hcon⟩

theorem startSession_caller {ok : Bool} (h : s.startSession ok = some s') :
    s.caller.Moves s'.caller ∧ s'.Reopens := by
  unfold State.startSession at h
  split_ifs at h with hpoll
  · cases h
    rw [not_not] at hpoll
    exact ⟨caller_stays rfl (by rw [hpoll]; rfl) (by rw [hpoll]; rfl) rfl,
      fun _ _ hcon => by cases hcon⟩
  · cases h
    exact ⟨caller_disconnected rfl rfl rfl rfl, fun _ _ hcon => by cases hcon⟩

theorem sessionStarted_caller (h : s.sessionStarted = some s') :
    s.caller.Moves s'.caller ∧ s'.Reopens := by
  unfold State.sessionStarted at h
  split at h
  · next call hpoll =>
    split at h
    · split at h
      · cases h
        exact ⟨caller_stays rfl (by rw [hpoll]; rfl) (by rw [hpoll]; rfl) rfl,
          fun _ _ hcon => by cases hcon⟩
      · cases h
        exact ⟨caller_disconnected rfl rfl rfl rfl, fun _ _ hcon => by cases hcon⟩
    · split_ifs at h
      cases h
      exact ⟨caller_disconnected rfl rfl rfl rfl, fun _ _ hcon => by cases hcon⟩
  · cases h

/-- All files are to be opened again once `bkup_lk_` is taken. -/
theorem lockBkup_caller (h : s.lockBkup = some s') : s.caller.Moves s'.caller ∧ s'.Reopens := by
  unfold State.lockBkup at h
  split_ifs at h with hpoll
  cases h
  have hoff : s.caller.connected = false := by
    unfold State.caller
    rw [hpoll]
    rfl
  exact ⟨.started hoff, fun _ _ hcon => by cases hcon⟩

theorem fileReopen_caller {ok : Bool} (h : s.fileReopen ok = some s') :
    s.caller.Moves s'.caller ∧ s'.Reopens := by
  unfold State.fileReopen at h
  split at h
  · next fd mode rest hpoll =>
    split_ifs at h
    · cases h
      refine ⟨caller_stays rfl (by rw [hpoll]; rfl) (by rw [hpoll]; rfl) rfl, ?_⟩
      intro call rest hcall
      cases hcall
      exact ⟨fd, mode, rfl⟩
    · cases h
      exact ⟨caller_disconnected rfl rfl rfl rfl, fun _ _ hcon => by cases hcon⟩
  · cases h

theorem fileReopened_caller (hreopens : s.Reopens) (h : s.fileReopened = some s') :
    s.caller.Moves s'.caller ∧ s'.Reopens := by
  unfold State.fileReopened at h
  split at h
  · next call rest hpoll =>
    split at h
    · next m tail _ =>
      split at h
      · cases h
        obtain ⟨fd, mode, hrequest⟩ := hreopens call rest hpoll
        have hnext : s.caller.reopening = (fd, mode) :: rest := by
          unfold State.caller Poll.toReopen
          rw [hpoll]
          dsimp only
          rw [hrequest]
        have hopened : State.caller { s with incoming := tail, poll := .reopening rest } =
            { s.caller with reopening := rest } := by
          unfold State.caller
          rw [hpoll]
          rfl
        rw [hopened]
        exact ⟨.next hnext, fun _ _ hcon => by cases hcon⟩
      · cases h
        exact ⟨caller_disconnected rfl rfl rfl rfl, fun _ _ hcon => by cases hcon⟩
    · split_ifs at h
      cases h
      exact ⟨caller_disconnected rfl rfl rfl rfl, fun _ _ hcon => by cases hcon⟩
  · cases h

theorem writeBkup_caller {ok : Bool} (h : s.writeBkup ok = some s') :
    s.caller.Moves s'.caller ∧ s'.Reopens := by
  unfold State.writeBkup at h
  split at h
  · next hpoll =>
    split at h
    · cases h
      exact ⟨caller_stays rfl (by rw [hpoll]; rfl) (by rw [hpoll]; rfl) rfl,
        fun _ _ hcon => by cases hcon⟩
    · split_ifs at h
      · cases h
        exact ⟨caller_stays rfl (by rw [hpoll]; rfl) (by rw [hpoll]; rfl) rfl,
          fun _ _ hcon => by cases hcon⟩
      · cases h
        exact ⟨caller_disconnected rfl rfl rfl rfl, fun _ _ hcon => by cases hcon⟩
  · cases h

/-! ### Runs -/

theorem takeEvent_caller (hreopens : s.Reopens) (h : s.takeEvent = some s') :
    s.caller.Moves s'.caller ∧ s'.Reopens := by
  unfold State.takeEvent at h
  split at h
  · split_ifs at h
    · cases h
      exact ⟨caller_stays rfl rfl rfl rfl, hreopens⟩
    · cases h
      exact ⟨caller_stays rfl rfl rfl rfl, hreopens⟩
  · cases h

theorem callbackReturns_caller (hreopens : s.Reopens) (h : s.callbackReturns = some s') :
    s.caller.Moves s'.caller ∧ s'.Reopens := by
  unfold State.callbackReturns at h
  split at h
  · cases h
  · cases h
    exact ⟨caller_stays rfl rfl rfl rfl, hreopens⟩
  · cases h

/-- A client moves as its thread with `rpclk_` or its poll thread does. -/
theorem caller_moves (hreopens : s.Reopens) (h : step l s = some s') :
    s.caller.Moves s'.caller ∧ s'.Reopens := by
  unfold step at h
  by_cases hended : s.poll = .ended
  · rw [if_pos hended] at h
    cases h
  rw [if_neg hended] at h
  cases l with
  | prepare thread request => exact prepare_caller hreopens h
  | storeBefore => exact storeBkupBeforeCall_caller hreopens h
  | write ok => exact write_caller hreopens h
  | receive => exact receive_caller hreopens h
  | unpack => exact unpack_caller hreopens h
  | storeAfter => exact storeBkupAfterCall_caller hreopens h
  | pollRecvCb => exact pollRecvCb_caller hreopens h
  | connect => exact connect_caller h
  | startSession ok => exact startSession_caller h
  | sessionStarted => exact sessionStarted_caller h
  | lockBkup => exact lockBkup_caller h
  | fileReopen ok => exact fileReopen_caller h
  | fileReopened => exact fileReopened_caller hreopens h
  | writeBkup ok => exact writeBkup_caller h
  | takeEvent => exact takeEvent_caller hreopens h
  | callbackReturns => exact callbackReturns_caller hreopens h
  | registerCallback event present =>
    cases h
    exact ⟨caller_stays rfl rfl rfl rfl, hreopens⟩
  | answer i accepted result =>
    obtain ⟨call, _, rfl⟩ := Option.map_eq_some_iff.mp h
    exact ⟨caller_stays rfl rfl rfl rfl, hreopens⟩
  | sendEvent e =>
    obtain ⟨_, hsent⟩ := Option.ite_none_right_eq_some.mp h
    cases hsent
    exact ⟨caller_stays rfl rfl rfl rfl, hreopens⟩
  | lose =>
    cases h
    exact ⟨caller_stays rfl rfl rfl rfl, hreopens⟩

/-- In every run of `chubby_client`, what it keeps of its files moves as a `Caller`. -/
theorem caller_reachable (h : chubbyClient.Reach (fun _ _ => True) s) :
    Relation.ReflTransGen Caller.Moves ⟨[], true, [], none⟩ s.caller := by
  have hboth : Relation.ReflTransGen Caller.Moves ⟨[], true, [], none⟩ s.caller ∧ s.Reopens := by
    refine h.invariant (I := fun s => Relation.ReflTransGen Caller.Moves ⟨[], true, [], none⟩
      s.caller ∧ s.Reopens) ?_ ?_
    · rintro s ⟨id, xidCounter, rfl⟩
      exact ⟨.refl, fun _ _ hcon => by cases hcon⟩
    · intro s s' l _ hs _ hstep
      obtain ⟨hmoves, hreopens⟩ := caller_moves hs.2 hstep
      exact ⟨hs.1.tail hmoves, hreopens⟩
  exact hboth.1

end Client

end SimpleChubby
