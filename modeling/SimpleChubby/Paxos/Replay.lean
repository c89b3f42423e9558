import Mathlib.Data.List.Sort
import SimpleChubby.Paxos.Agreement

/-!
# Replaying the commands of the leader

A backup that cannot be reached misses a command, and nobody sends it again. With
one leader that takes up its commands one at a time, the commands a replica does
run come in the order in which they were issued: the client of a backup is in
use from the moment a call is sent until its answer is there, and stays in use
when the call throws, so no call overtakes another.
-/

namespace SimpleChubby

namespace Paxos

section Statement

variable (cfg : Config) (mutating : Str → Bool)

/-- The record of the commands issued: what a leader has taken up of the
    commands that change the back stores. -/
def issue (s : Cluster) (l : Label) (_ : Cluster) (issued : List Command) : List Command :=
  match l with
  | .execute rank request =>
    if s.isLeader rank && mutating request then issued ++ [⟨s.nextNumber, request⟩] else issued
  | _ => issued

/-- The runs of the replicas, with the commands issued. -/
def issuing : Lts (Cluster × List Command) Label :=
  (cluster cfg mutating).watch [] (issue mutating)

/-- No replica but `r` is a leader, and its process starts again only when no
    command of the process before it waits to be taken. -/
def OneLeader (r : Nat) (s : Cluster) (l : Label) : Prop :=
  (∀ i < cfg.getMaxNumClient, s.isLeader i = true → i = r) ∧
    (l = .start r → ∀ call ∈ s.calls, call.status = .sent → call.body.mutates mutating = false)

instance (r : Nat) (s : Cluster) (l : Label) : Decidable (OneLeader cfg mutating r s l) :=
  inferInstanceAs (Decidable (_ ∧ _))

/-- Commands are issued under growing numbers, and what a replica has run is a
    part of what was issued, in that order. -/
structure ReplaysInOrder (w : Cluster × List Command) : Prop where
  issued : w.2.Pairwise fun c c' => c.number < c'.number
  replays : ∀ i, (w.1.history i).Sublist w.2

end Statement

/-! ## Which clients are in use -/

/-- The call a thread waits for, and its callee; `none` stands for the call of
    `init_view` in `NotifyNewLeader`. -/
def Process.waits (p : Process) : Option Thread → Option (Nat × Nat)
  | some t => (p.loops t).bind fun l => l.call.map fun xid => (l.rank, xid)
  | none => p.notifying.bind fun n => n.2.map fun xid => (n.1, xid)

/-- A thread that waits for a replica has its client, and no other thread has. -/
structure Process.Locking (p : Process) : Prop where
  locked : ∀ w i xid, p.waits w = some (i, xid) → i ∈ p.locked
  apart : ∀ w w' i xid xid', p.waits w = some (i, xid) → p.waits w' = some (i, xid') → w = w'

/-- The client of the callee is in use, and only for this call. -/
def Process.Holds (p : Process) (call : Call) : Prop :=
  call.dst ∈ p.locked ∧ ∀ w xid, p.waits w = some (call.dst, xid) → call.xid = xid

/-- What a step may do to the clients of a process; `left` is the call whose
    answer it takes from the network. -/
inductive Channels (p p' : Process) : Option Nat → Prop
  | rest : (∀ w, p'.waits w = p.waits w ∨ p'.waits w = none) → p'.locked = p.locked →
      Channels p p' none
  | begins {w : Option Thread} {i x : Nat} : i ∉ p.locked →
      (∀ w', p'.waits w' = if w' = w then some (i, x) else p.waits w') →
      p'.locked = i :: p.locked → Channels p p' none
  | returns {w : Option Thread} {i x : Nat} : p.waits w = some (i, x) →
      (∀ w', p'.waits w' = if w' = w then none else p.waits w') →
      p'.locked = p.locked.erase i → Channels p p' (some x)

section Clients

variable {p p' : Process} {left : Option Nat} {call : Call}

theorem Process.waits_setLoop (t : Thread) (l : Option Loop) (w : Option Thread) :
    (p.setLoop t l).waits w =
      if w = some t then l.bind fun l => l.call.map fun xid => (l.rank, xid) else p.waits w := by
  cases w with
  | none => rfl
  | some t' =>
    show ((p.setLoop t l).loops t').bind _ = _
    rw [Process.loops_setLoop]
    by_cases ht : t' = t
    · simp [ht]
    · simp [ht, Process.waits]

theorem Process.locking_fresh : Process.fresh.Locking where
  locked w i xid h := by cases w <;> cases h
  apart w w' i xid xid' h := by cases w <;> cases h

theorem Process.Locking.changes (h : p.Locking) (hc : Channels p p' left) : p'.Locking := by
  cases hc with
  | rest hw hl =>
    have hold : ∀ w i xid, p'.waits w = some (i, xid) → p.waits w = some (i, xid) := by
      intro w i xid hwait
      rcases hw w with hsame | hnone
      · rw [← hsame, hwait]
      · rw [hnone] at hwait
        cases hwait
    refine ⟨fun w i xid hwait => ?_, fun w w' i xid xid' hwait hwait' => ?_⟩
    · rw [hl]
      exact h.locked w i xid (hold w i xid hwait)
    · exact h.apart w w' i xid xid' (hold w i xid hwait) (hold w' i xid' hwait')
  | @begins w₀ i₀ xid₀ hfree hw hl =>
    have hold : ∀ w i xid, p'.waits w = some (i, xid) →
        (w = w₀ ∧ i = i₀) ∨ (w ≠ w₀ ∧ i ≠ i₀ ∧ p.waits w = some (i, xid)) := by
      intro w i xid hwait
      rw [hw] at hwait
      split_ifs at hwait with hw₀
      · cases hwait
        exact Or.inl ⟨hw₀, rfl⟩
      · refine Or.inr ⟨hw₀, ?_, hwait⟩
        rintro rfl
        exact hfree (h.locked w i xid hwait)
    refine ⟨fun w i xid hwait => ?_, fun w w' i xid xid' hwait hwait' => ?_⟩
    · rw [hl]
      rcases hold w i xid hwait with ⟨_, rfl⟩ | ⟨_, _, hwait⟩
      · exact List.mem_cons_self
      · exact List.mem_cons_of_mem _ (h.locked w i xid hwait)
    · rcases hold w i xid hwait with ⟨rfl, rfl⟩ | ⟨_, hne, hwait⟩
      · rcases hold w' i xid' hwait' with ⟨rfl, _⟩ | ⟨_, hne, _⟩
        · rfl
        · exact absurd rfl hne
      · rcases hold w' i xid' hwait' with ⟨_, heq⟩ | ⟨_, _, hwait'⟩
        · exact absurd heq hne
        · exact h.apart w w' i xid xid' hwait hwait'
  | @returns w₀ i₀ xid₀ hwait₀ hw hl =>
    have hold : ∀ w i xid, p'.waits w = some (i, xid) → i ≠ i₀ ∧ p.waits w = some (i, xid) := by
      intro w i xid hwait
      rw [hw] at hwait
      split_ifs at hwait with hw₀
      refine ⟨?_, hwait⟩
      rintro rfl
      exact hw₀ (h.apart w w₀ i xid xid₀ hwait hwait₀)
    refine ⟨fun w i xid hwait => ?_, fun w w' i xid xid' hwait hwait' => ?_⟩
    · obtain ⟨hne, hwait⟩ := hold w i xid hwait
      rw [hl]
      exact (List.mem_erase_of_ne hne).mpr (h.locked w i xid hwait)
    · exact h.apart w w' i xid xid' (hold w i xid hwait).2 (hold w' i xid' hwait').2

theorem Process.Holds.changes (h : p.Holds call) (hc : Channels p p' left)
    (hleft : ∀ xid ∈ left, call.xid ≠ xid) : p'.Holds call := by
  obtain ⟨hlocked, hown⟩ := h
  cases hc with
  | rest hw hl =>
    refine ⟨hl ▸ hlocked, fun w xid hwait => ?_⟩
    rcases hw w with hsame | hnone
    · exact hown w xid (hsame ▸ hwait)
    · rw [hnone] at hwait
      cases hwait
  | begins hfree hw hl =>
    refine ⟨hl ▸ List.mem_cons_of_mem _ hlocked, fun w xid hwait => ?_⟩
    rw [hw] at hwait
    split_ifs at hwait
    · cases hwait
      exact absurd hlocked hfree
    · exact hown w xid hwait
  | @returns w₀ i₀ xid₀ hwait₀ hw hl =>
    have hne : call.dst ≠ i₀ := by
      rintro rfl
      exact hleft xid₀ rfl (hown w₀ xid₀ hwait₀)
    refine ⟨hl ▸ (List.mem_erase_of_ne hne).mpr hlocked, fun w xid hwait => ?_⟩
    rw [hw] at hwait
    split_ifs at hwait
    exact hown w xid hwait

/-- A process that has just taken the client of the callee for the call. -/
theorem Process.Locking.holds (h : p.Locking) {w : Option Thread}
    (hw : p.waits w = some (call.dst, call.xid)) : p.Holds call := by
  refine ⟨h.locked w _ _ hw, fun w' xid hw' => ?_⟩
  have hsame := h.apart w w' _ _ _ hw hw'
  rw [← hsame, hw] at hw'
  cases hw'
  rfl

end Clients

/-! ## The clients along a step -/

section Steps

variable {cfg : Config} {mutating : Str → Bool} {s s' : Cluster}

/-- A thread gets a client that is not in use. -/
theorem free_of_replicateCommand {rank i : Nat} {t : Thread} {body : Body} {p : Process}
    (hp : s.process rank = some p) (hloop : p.loops t = some ⟨body, i, none⟩) (hi : i ≠ rank)
    (h : step cfg mutating (.replicateCommand rank t true) s = some s') : i ∉ p.locked := by
  intro hmem
  obtain ⟨q, hq, h⟩ := Option.bind_eq_some_iff.mp h
  obtain rfl := Option.some.inj (hp.symm.trans hq)
  unfold replicateCommand at h
  rw [hloop] at h
  simp only [hi, hmem, if_false, if_true] at h
  split_ifs at h

/-- Taking up a command ends no process. -/
theorem running_of_execute {rank r : Nat} {request : Str}
    (h : step cfg mutating (.execute rank request) s = some s') (hr : s.process r ≠ none) :
    s'.process r ≠ none := by
  obtain ⟨p, hp, h⟩ := Option.bind_eq_some_iff.mp h
  unfold execute at h
  split_ifs at h with hbusy hleader
  · cases h
    show (s.setProcess rank _).process r ≠ none
    rw [Cluster.process_setProcess]
    split_ifs
    · exact Option.some_ne_none _
    · exact hr
  · cases h
    exact hr

theorem free_of_notify {rank chosen : Nat} {p : Process} (hp : s.process rank = some p)
    (hnotifying : p.notifying = some (chosen, none))
    (h : step cfg mutating (.notify rank true) s = some s') : chosen ∉ p.locked := by
  intro hmem
  obtain ⟨q, hq, h⟩ := Option.bind_eq_some_iff.mp h
  obtain rfl := Option.some.inj (hp.symm.trans hq)
  unfold notify at h
  rw [hnotifying] at h
  simp only [hmem, if_true] at h
  cases h

theorem Channels.refl (p : Process) : Channels p p none := .rest (fun _ => Or.inl rfl) rfl

/-- The step of one replica leaves the processes of the others as they are. -/
theorem channels_of_own {rank r : Nat} {p p₁ q q' : Process} {left : Option Nat}
    (hp : s.process rank = some p) (hq : s.process r = some q)
    (hq' : (s.setProcess rank p₁).process r = some q') (h : Channels p p₁ left) :
    Channels q q' none ∨ Channels q q' left := by
  rw [Cluster.process_setProcess] at hq'
  split_ifs at hq' with hr
  · subst hr
    obtain rfl := Option.some.inj (hp.symm.trans hq)
    obtain rfl := Option.some.inj hq'
    exact Or.inr h
  · obtain rfl := Option.some.inj (hq.symm.trans hq')
    exact Or.inl (.refl q)

/-- What the loop of a thread does to the clients, when it neither sends nor resumes. -/
theorem Channels.idle {p p' : Process} {t : Thread} {l : Option Loop}
    (hl : ∀ m, l = some m → m.call = none)
    (hwaits : ∀ w, p'.waits w = (p.setLoop t l).waits w) (hlocked : p'.locked = p.locked) :
    Channels p p' none := by
  refine .rest (fun w => ?_) hlocked
  rw [hwaits, Process.waits_setLoop]
  split_ifs
  · cases l with
    | none => exact Or.inr rfl
    | some m =>
      refine Or.inr ?_
      simp [hl m rfl]
  · exact Or.inl rfl

/-- A step changes the clients of a process that goes on as `Channels` says, and
    what has been answered has left the network. -/
theorem step_channels {l : Label} {r : Nat} {q q' : Process}
    (h : step cfg mutating l s = some s') (hq : s.process r = some q)
    (hq' : s'.process r = some q') :
    ∃ left, Channels q q' left ∧ ∀ xid ∈ left, ∀ call ∈ s'.calls, call.xid ≠ xid := by
  have hrest : Channels q q' none →
      ∃ left, Channels q q' left ∧ ∀ xid ∈ left, ∀ call ∈ s'.calls, call.xid ≠ xid :=
    fun hc => ⟨none, hc, fun xid hxid => by cases hxid⟩
  have hown : ∀ {t : Cluster} {rank : Nat} {p p₁ : Process}, t.process = s.process →
      s.process rank = some p → (t.setProcess rank p₁).process r = some q' →
      Channels p p₁ none → Channels q q' none := by
    intro t rank p p₁ ht hp hset hc
    have hp' : t.process rank = some p := by rw [ht, hp]
    have hq₀ : t.process r = some q := by rw [ht, hq]
    rcases channels_of_own hp' hq₀ hset hc with hc | hc <;> exact hc
  have hsame : s'.process = s.process → Channels q q' none := by
    intro hprocess
    obtain rfl := Option.some.inj (hq.symm.trans (hprocess ▸ hq'))
    exact .refl q
  cases step_moves h with
  | @start rank _ hnone =>
    rw [Cluster.process_setProcess] at hq'
    split_ifs at hq' with hr
    · rw [hr, hnone] at hq
      cases hq
    · obtain rfl := Option.some.inj (hq.symm.trans hq')
      exact hrest (.refl q)
  | crash _ =>
    rw [Cluster.process_crash] at hq'
    split_ifs at hq'
    obtain rfl := Option.some.inj (hq.symm.trans hq')
    exact hrest (.refl q)
  | waits hp _ => exact hrest (hown rfl hp hq' (.rest (fun w => Or.inl (by cases w <;> rfl)) rfl))
  | @leads rank reachable up p hp _ _ _ =>
    exact hrest (hown rfl hp hq' (.idle (t := .manager)
      (l := some ⟨.newView (p.state.view.ledBy cfg rank), 0, none⟩) (fun m hm => by cases hm; rfl)
      (fun w => by cases w <;> rfl) rfl))
  | chooses hp =>
    refine hrest (hown rfl hp hq' (.rest (fun w => ?_) rfl))
    cases w with
    | none => exact Or.inr rfl
    | some t => exact Or.inl rfl
  | @notifies rank chosen p hp hnotifying =>
    have hfree := free_of_notify hp hnotifying h
    have hc : Channels p { p with
        notifying := some (chosen, some s.nextXid), locked := chosen :: p.locked } none := by
      refine .begins (w := none) (i := chosen) (x := s.nextXid) hfree (fun w' => ?_) rfl
      cases w' <;> rfl
    exact hrest (hown (t := s.send chosen .initView) rfl hp hq' hc)
  | @notified rank chosen xid val p hp hnotifying _ =>
    have hc : Channels p { p with
        state := p.state.notified cfg chosen val
        notifying := none
        locked := p.locked.erase chosen } (some xid) := by
      refine .returns (w := none) ?_ (fun w' => ?_) rfl
      · show p.notifying.bind _ = _
        rw [hnotifying]
        rfl
      · cases w' <;> rfl
    rcases channels_of_own (s := s.lose xid) hp hq hq' hc with hc | hc
    · exact hrest hc
    · refine ⟨_, hc, fun x hx call hcall => ?_⟩
      obtain rfl := Option.some.inj hx
      exact (Cluster.mem_lose.mp hcall).2
  | passes hp _ _ _ =>
    exact hrest (hown rfl hp hq' (.idle (fun m hm => by cases hm; rfl) (fun w => rfl) rfl))
  | @sends rank i t body p hp hloop _ hne =>
    have hfree := free_of_replicateCommand hp hloop hne h
    have hc : Channels p ({ p with locked := i :: p.locked }.setLoop t
        (some ⟨body, i, some s.nextXid⟩)) none := by
      refine .begins (w := some t) (i := i) (x := s.nextXid) hfree (fun w' => ?_) rfl
      rw [Process.waits_setLoop]
      cases w' <;> rfl
    exact hrest (hown (t := s.send i body) rfl hp hq' hc)
  | @resumes rank i xid t body a p hp hloop _ =>
    have hc : Channels p
        ({ p with locked := p.locked.erase i }.setLoop t (some ⟨body, i + 1, none⟩))
        (some xid) := by
      refine .returns (w := some t) ?_ (fun w' => ?_) rfl
      · show (p.loops t).bind _ = _
        rw [hloop]
        rfl
      · rw [Process.waits_setLoop]
        cases w' <;> rfl
    rcases channels_of_own (s := s.lose xid) hp hq hq' hc with hc | hc
    · exact hrest hc
    · refine ⟨_, hc, fun x hx call hcall => ?_⟩
      obtain rfl := Option.some.inj hx
      exact (Cluster.mem_lose.mp hcall).2
  | @abandons rank xid p hp _ =>
    exact hrest (hown (t := s.setStatus xid (.answered .garbage)) rfl hp hq'
      (.idle (t := .listener) (l := none) (fun m hm => by cases hm)
        (fun w => by cases w <;> rfl) rfl))
  | throws hp =>
    exact hrest (hown rfl hp hq' (.idle (t := .client) (l := none) (fun m hm => by cases hm)
      (fun w => rfl) rfl))
  | initializes hp _ _ =>
    exact hrest (hown rfl hp hq' (.idle (t := .manager) (l := none) (fun m hm => by cases hm)
      (fun w => by cases w <;> rfl) rfl))
  | @promoted rank i xid body p hp _ _ _ =>
    exact hrest (hown (t := s.setStatus xid (.answered (.succeed true))) rfl hp hq'
      (.idle (t := .listener) (l := none) (fun m hm => by cases hm)
        (fun w => by cases w <;> rfl) rfl))
  | @commits rank i c p hp _ _ =>
    exact hrest (hown (t := s.backUp rank mutating c) (s.process_backUp rank) hp hq'
      (.idle (t := .client) (l := none) (fun m hm => by cases hm) (fun w => rfl) rfl))
  | @follows c view p _ _ hp _ =>
    exact hrest (hown (t := s.setStatus c.xid (.answered .replicated)) rfl hp hq'
      (.rest (fun w => Or.inl (by cases w <;> rfl)) rfl))
  | backsUp _ _ _ _ => exact hrest (hsame (Cluster.process_backUp _ _))
  | refuses _ _ _ _ _ _ => exact hrest (hsame rfl)
  | @accepts c p _ _ hp _ _ _ =>
    exact hrest (hown (t := s.setStatus c.xid .served) rfl hp hq'
      (.idle (t := .listener) (l := some ⟨.newView (p.state.view.ledBy cfg c.dst), 0, none⟩)
        (fun m hm => by cases hm; rfl) (fun w => by cases w <;> rfl) rfl))
  | loses => exact hrest (hsame rfl)
  | declines _ _ => exact hrest (hsame rfl)
  | @executes rank request p hp _ _ =>
    exact hrest (hown rfl hp hq' (.idle (fun m hm => by cases hm; rfl) (fun w => rfl) rfl))

/-- Only a start makes a process. -/
theorem fresh_of_step {l : Label} {r : Nat} {q' : Process}
    (h : step cfg mutating l s = some s') (hq : s.process r = none)
    (hq' : s'.process r = some q') : q' = .fresh ∧ l = .start r := by
  have hset : ∀ {t : Cluster} {rank : Nat} {p p₁ : Process}, t.process = s.process →
      s.process rank = some p → (t.setProcess rank p₁).process r ≠ some q' := by
    intro t rank p p₁ ht hp hset
    rw [Cluster.process_setProcess, ht, hq] at hset
    split_ifs at hset with hr
    rw [← hr, hq] at hp
    cases hp
  have hsame : s'.process ≠ s.process := by
    intro hprocess
    rw [hprocess, hq] at hq'
    cases hq'
  cases step_moves h with
  | start _ _ =>
    rw [Cluster.process_setProcess] at hq'
    split_ifs at hq' with hr
    · exact ⟨(Option.some.inj hq').symm, hr ▸ rfl⟩
    · rw [hq] at hq'
      cases hq'
  | crash _ =>
    rw [Cluster.process_crash, hq] at hq'
    split_ifs at hq'
  | commits hp _ _ => exact absurd hq' (hset (Cluster.process_backUp _ _) hp)
  | backsUp _ _ _ _ => exact absurd (Cluster.process_backUp _ _) hsame
  | refuses _ _ _ _ _ _ => exact absurd rfl hsame
  | loses => exact absurd rfl hsame
  | declines _ _ => exact absurd rfl hsame
  | waits hp _ => exact absurd hq' (hset rfl hp)
  | leads hp _ _ _ => exact absurd hq' (hset rfl hp)
  | chooses hp => exact absurd hq' (hset rfl hp)
  | notifies hp _ => exact absurd hq' (hset rfl hp)
  | notified hp _ _ => exact absurd hq' (hset rfl hp)
  | passes hp _ _ _ => exact absurd hq' (hset rfl hp)
  | sends hp _ _ _ => exact absurd hq' (hset rfl hp)
  | resumes hp _ _ => exact absurd hq' (hset rfl hp)
  | abandons hp _ => exact absurd hq' (hset rfl hp)
  | throws hp => exact absurd hq' (hset rfl hp)
  | initializes hp _ _ => exact absurd hq' (hset rfl hp)
  | promoted hp _ _ _ => exact absurd hq' (hset rfl hp)
  | follows _ _ hp _ => exact absurd hq' (hset rfl hp)
  | accepts _ _ hp _ _ _ => exact absurd hq' (hset rfl hp)
  | executes hp _ _ => exact absurd hq' (hset rfl hp)

/-- Every process keeps its clients apart. -/
theorem locking_step {l : Label} (h : step cfg mutating l s = some s')
    (hs : ∀ r p, s.process r = some p → p.Locking) :
    ∀ r p, s'.process r = some p → p.Locking := by
  intro r p' hp'
  cases hp : s.process r with
  | none =>
    rw [(fresh_of_step h hp hp').1]
    exact Process.locking_fresh
  | some p =>
    obtain ⟨left, hc, _⟩ := step_channels h hp hp'
    exact (hs r p hp).changes hc

end Steps

/-! ## The invariant -/

/-- The call waits to be taken, and makes the callee run a command that counts. -/
def Cluster.Pending (mutating : Str → Bool) (s : Cluster) (call : Call) : Prop :=
  call ∈ s.calls ∧ call.status = .sent ∧ call.body.mutates mutating = true

/-- What the replica has run was issued before the command. -/
def Cluster.Before (s : Cluster) (j : Nat) (c : Command) : Prop :=
  ∀ k ∈ s.history j, k.number < c.number

/-- The invariant of the runs with the one leader `r`. -/
structure Replaying (mutating : Str → Bool) (r : Nat) (s : Cluster) (issued : List Command) :
    Prop where
  numbered : issued.Pairwise fun c c' => c.number < c'.number
  below : ∀ c ∈ issued, c.number < s.nextNumber
  ordered : ∀ j, (s.history j).Pairwise fun c c' => c.number < c'.number
  run : ∀ j, s.history j ⊆ issued
  /-- The command in the leader's loop comes after all others. -/
  current : ∀ i l, s.loop i .client = some l → l.body.mutates mutating = true → i = r ∧
    ∃ c ∈ issued, l.body = .command c ∧ (∀ j, j = r ∨ l.Unvisited j → s.Before j c) ∧
      ∀ call k, s.Pending mutating call → call.body = .command k → l.Unvisited call.dst →
        k.number < c.number
  /-- A call that waits comes after what its callee has run, and has the client to itself. -/
  pending : ∀ call, s.Pending mutating call → call.dst ≠ r ∧
    (∃ c ∈ issued, call.body = .command c ∧ s.Before call.dst c) ∧
      ∀ p, s.process r = some p → p.Holds call
  single : ∀ call call', s.Pending mutating call → s.Pending mutating call' →
    call.dst = call'.dst → call.xid = call'.xid

section Invariant

variable {cfg : Config} {mutating : Str → Bool} {s s' : Cluster} {r : Nat} {issued : List Command}

/-- A call that goes on waiting keeps the client of its callee. -/
theorem Replaying.holds (h : Replaying mutating r s issued) {l : Label}
    (hone : OneLeader cfg mutating r s l) (hstep : step cfg mutating l s = some s') {call : Call}
    (hcall : s.Pending mutating call) (hcall' : call ∈ s'.calls) :
    ∀ p', s'.process r = some p' → p'.Holds call := by
  intro p' hp'
  cases hp : s.process r with
  | none =>
    have hnot := hone.2 (fresh_of_step hstep hp hp').2 call hcall.1 hcall.2.1
    rw [hcall.2.2] at hnot
    cases hnot
  | some p =>
    obtain ⟨left, hc, hleft⟩ := step_channels hstep hp hp'
    exact ((h.pending call hcall).2.2 p hp).changes hc fun xid hxid => hleft xid hxid call hcall'

/-- What is enough for a step in which no command is taken up, sent or run. -/
theorem Replaying.keep (h : Replaying mutating r s issued) {l : Label}
    (hone : OneLeader cfg mutating r s l) (hstep : step cfg mutating l s = some s')
    (hnext : s.nextNumber ≤ s'.nextNumber) (hhistory : s'.history = s.history)
    (hloops : ∀ i l', s'.loop i .client = some l' → l'.body.mutates mutating = true →
      ∃ l, s.loop i .client = some l ∧ l.body = l'.body ∧ ∀ j, l'.Unvisited j → l.Unvisited j)
    (hcalls : ∀ call ∈ s'.calls, call.status = .sent → call.body.mutates mutating = true →
      call ∈ s.calls) : Replaying mutating r s' issued := by
  have hpending : ∀ call, s'.Pending mutating call → s.Pending mutating call :=
    fun call hcall => ⟨hcalls call hcall.1 hcall.2.1 hcall.2.2, hcall.2⟩
  have hbefore : ∀ j c, s.Before j c → s'.Before j c := by
    intro j c hc
    unfold Cluster.Before
    rw [hhistory]
    exact hc
  refine ⟨h.numbered, fun c hc => Nat.lt_of_lt_of_le (h.below c hc) hnext, hhistory ▸ h.ordered,
    hhistory ▸ h.run, fun i l' hl' hm => ?_, fun call hcall => ?_, fun call call' hcall hcall' =>
      h.single call call' (hpending call hcall) (hpending call' hcall')⟩
  · obtain ⟨l, hl, hbody, hunvisited⟩ := hloops i l' hl' hm
    obtain ⟨hi, c, hc, hcommand, hto, hsent⟩ := h.current i l hl (hbody ▸ hm)
    refine ⟨hi, c, hc, hbody.symm.trans hcommand, fun j hj => hbefore j c (hto j ?_),
      fun call k hcall hk hu => hsent call k (hpending call hcall) hk (hunvisited _ hu)⟩
    rcases hj with hj | hj
    · exact Or.inl hj
    · exact Or.inr (hunvisited j hj)
  · obtain ⟨hdst, ⟨c, hc, hbody, hto⟩, _⟩ := h.pending call (hpending call hcall)
    exact ⟨hdst, ⟨c, hc, hbody, hbefore _ c hto⟩,
      h.holds hone hstep (hpending call hcall) hcall.1⟩

theorem Replaying.calmer (h : Replaying mutating r s issued) {l : Label}
    (hone : OneLeader cfg mutating r s l) (hstep : step cfg mutating l s = some s')
    (hnext : s'.nextNumber = s.nextNumber) (hs : Calmer mutating s s') :
    Replaying mutating r s' issued :=
  h.keep hone hstep (Nat.le_of_eq hnext.symm) hs.history hs.loops hs.calls

/-- The leader sends its command to a replica. -/
theorem Replaying.sends (h : Replaying mutating r s issued) {rank i : Nat} {body : Body}
    {p p₁ : Process} (hone : OneLeader cfg mutating r s (.replicateCommand rank .client true))
    (hp : s.process rank = some p) (hlocking : p.Locking)
    (hloop : p.loops .client = some ⟨body, i, none⟩) (hm : body.mutates mutating = true)
    (hi : i ≠ rank)
    (hs' : s' = (s.send i body).setProcess rank p₁)
    (hloops : p₁.loops = (p.setLoop .client (some ⟨body, i, some s.nextXid⟩)).loops)
    (hstep : step cfg mutating (.replicateCommand rank .client true) s = some s') :
    Replaying mutating r s' issued := by
  have hfree : i ∉ p.locked := free_of_replicateCommand hp hloop hi hstep
  have hunvisited : Loop.Unvisited ⟨body, i, none⟩ i := Nat.le_refl i
  obtain ⟨rfl, c, hc, hcommand, hto, hsent⟩ :=
    h.current rank _ ((s.loop_eq rank .client hp).trans hloop) hm
  have hcommand' : body = .command c := hcommand
  have hpending : ∀ call, s'.Pending mutating call → s.Pending mutating call ∨
      call = ⟨s.nextXid, i, body, .sent⟩ := by
    rintro call ⟨hcall, hs, hm⟩
    rw [hs'] at hcall
    rcases Cluster.mem_send hcall with hcall | ⟨_, rfl⟩
    · exact Or.inl ⟨hcall, hs, hm⟩
    · exact Or.inr rfl
  -- no call waits at a replica whose client is free
  have hother : ∀ call, s.Pending mutating call → call.dst ≠ i := by
    rintro call hcall rfl
    exact hfree ((h.pending call hcall).2.2 p hp).1
  have hbefore : ∀ j k, s'.Before j k ↔ s.Before j k := by
    intro j k
    rw [hs']
    exact Iff.rfl
  refine ⟨h.numbered, hs' ▸ h.below, hs' ▸ h.ordered, hs' ▸ h.run, fun i' l' hl' hm' => ?_,
    fun call hcall => ?_, fun call call' hcall hcall' hdst => ?_⟩
  · rw [hs', (s.send i body).loop_setLoop rank i' .client hp hloops] at hl'
    split_ifs at hl' with hi'
    · cases hl'
      refine ⟨hi'.1, c, hc, hcommand', fun j hj => (hbefore j c).mpr (hto j ?_),
        fun call k hcall hk hu => ?_⟩
      · rcases hj with hj | hj
        · exact Or.inl hj
        · exact Or.inr (Nat.le_of_lt hj)
      · rcases hpending call hcall with hcall | rfl
        · exact hsent call k hcall hk (Nat.le_of_lt hu)
        · exact absurd hu (Nat.lt_irrefl i)
    · have hi'' : i' = rank := (h.current i' l' hl' hm').1
      exact absurd ⟨hi'', rfl⟩ hi'
  · rcases hpending call hcall with hold | rfl
    · obtain ⟨hdst, ⟨k, hk, hbody, hto'⟩, _⟩ := h.pending call hold
      exact ⟨hdst, ⟨k, hk, hbody, (hbefore _ k).mpr hto'⟩, h.holds hone hstep hold hcall.1⟩
    · refine ⟨hi, ⟨c, hc, hcommand', (hbefore i c).mpr (hto i (Or.inr hunvisited))⟩,
        fun p' hp' => ?_⟩
      have hlocking' : p'.Locking := by
        obtain ⟨left, hchannels, _⟩ := step_channels hstep hp hp'
        exact hlocking.changes hchannels
      rw [hs', Cluster.process_setProcess, if_pos rfl] at hp'
      obtain rfl := Option.some.inj hp'
      refine hlocking'.holds (w := some .client) ?_
      show (p₁.loops .client).bind _ = _
      rw [hloops, Process.loops_setLoop, if_pos rfl]
      rfl
  · rcases hpending call hcall with hold | rfl
    · rcases hpending call' hcall' with hold' | rfl
      · exact h.single call call' hold hold' hdst
      · exact absurd hdst (hother call hold)
    · rcases hpending call' hcall' with hold' | rfl
      · exact absurd hdst.symm (hother call' hold')
      · rfl

/-- A history that grows by a command which comes after it. -/
theorem ordered_append {l : List Command} {c : Command}
    (h : l.Pairwise fun c c' => c.number < c'.number) (hc : ∀ k ∈ l, k.number < c.number) :
    (l ++ [c]).Pairwise fun c c' => c.number < c'.number := by
  refine List.pairwise_append.mpr ⟨h, List.pairwise_singleton _ _, fun k hk c' hc' => ?_⟩
  rw [List.mem_singleton.mp hc']
  exact hc k hk

/-- A replica takes the command it was sent. -/
theorem Replaying.backsUp (h : Replaying mutating r s issued) {call : Call} {command : Command}
    (hone : OneLeader cfg mutating r s (.serve call.xid)) (hcall : call ∈ s.calls)
    (hsent : call.status = .sent) (hbody : call.body = .command command)
    (hm : mutating command.request = true)
    (hs' : s' = (s.setStatus call.xid (.answered .replicated)).backUp call.dst mutating command)
    (hstep : step cfg mutating (.serve call.xid) s = some s') :
    Replaying mutating r s' issued := by
  have htaken : s.Pending mutating call := ⟨hcall, hsent, by rw [hbody]; exact hm⟩
  obtain ⟨hdst, ⟨c, hc, hcommand, hbefore⟩, _⟩ := h.pending call htaken
  obtain rfl : command = c := by
    rw [hbody] at hcommand
    injection hcommand
  have hhistory : ∀ j, s'.history j =
      if j = call.dst then s.history call.dst ++ [command] else s.history j := by
    intro j
    rw [hs', Cluster.history_backUp _ _ _ hm]
    rfl
  have hpending : ∀ call', s'.Pending mutating call' →
      s.Pending mutating call' ∧ call'.xid ≠ call.xid := by
    rintro call' ⟨hcall', hsent', hm'⟩
    rw [hs', Cluster.calls_backUp] at hcall'
    obtain ⟨hmem, hne⟩ := Cluster.mem_of_setStatus (by simp) hcall' hsent'
    exact ⟨⟨hmem, hsent', hm'⟩, hne⟩
  have hold : ∀ j k, j ≠ call.dst → s.Before j k → s'.Before j k := by
    intro j k hj hk
    unfold Cluster.Before
    rw [hhistory, if_neg hj]
    exact hk
  refine ⟨h.numbered, fun k hk => ?_, fun j => ?_, fun j => ?_, fun i l hl hm' => ?_,
    fun call' hcall' => ?_, fun c₁ c₂ h₁ h₂ => h.single c₁ c₂ (hpending c₁ h₁).1 (hpending c₂ h₂).1⟩
  · rw [hs', Cluster.nextNumber_backUp]
    exact h.below k hk
  · rw [hhistory]
    split_ifs with hj
    · exact ordered_append (h.ordered _) hbefore
    · exact h.ordered j
  · rw [hhistory]
    split_ifs with hj
    · exact List.append_subset.mpr ⟨h.run _, fun k hk => List.mem_singleton.mp hk ▸ hc⟩
    · exact h.run j
  · have hl' : s.loop i .client = some l := by
      unfold Cluster.loop at hl ⊢
      rw [hs', Cluster.process_backUp] at hl
      exact hl
    obtain ⟨hi, c', hc', hcommand', hto, hwaiting⟩ := h.current i l hl' hm'
    refine ⟨hi, c', hc', hcommand', fun j hj => ?_,
      fun call' k hcall' => hwaiting call' k (hpending call' hcall').1⟩
    by_cases hjd : j = call.dst
    · -- the loop has not come to the callee: the command it takes is an older one
      subst hjd
      have hu : l.Unvisited call.dst := hj.resolve_left hdst
      intro k hk
      rw [hhistory, if_pos rfl] at hk
      rcases List.mem_append.mp hk with hk | hk
      · exact hto _ (Or.inr hu) k hk
      · rw [List.mem_singleton.mp hk]
        exact hwaiting call command htaken hbody hu
    · exact hold j c' hjd (hto j hj)
  · obtain ⟨hwait, hne⟩ := hpending call' hcall'
    obtain ⟨hdst', ⟨k, hk, hbody', hbefore'⟩, _⟩ := h.pending call' hwait
    refine ⟨hdst', ⟨k, hk, hbody', hold _ k (fun hcon => ?_) hbefore'⟩,
      h.holds hone hstep hwait hcall'.1⟩
    exact hne (h.single call' call hwait htaken hcon)

/-- The leader runs its command. -/
theorem Replaying.commits (h : Replaying mutating r s issued) {rank i : Nat} {c : Command}
    {p : Process} (hone : OneLeader cfg mutating r s (.finish rank .client))
    (hp : s.process rank = some p) (hloop : p.loops .client = some ⟨.command c, i, none⟩)
    (hm : mutating c.request = true)
    (hs' : s' = { (s.backUp rank mutating c).setProcess rank (p.setLoop .client none) with
      acked := s.acked ++ [c] })
    (hstep : step cfg mutating (.finish rank .client) s = some s') :
    Replaying mutating r s' issued := by
  obtain ⟨rfl, c', hc, hcommand, hto, _⟩ :=
    h.current rank _ ((s.loop_eq rank .client hp).trans hloop) hm
  obtain rfl : c = c' := by injection hcommand
  have hbefore := hto rank (Or.inl rfl)
  have hhistory : ∀ j, s'.history j =
      if j = rank then s.history rank ++ [c] else s.history j := by
    intro j
    rw [hs']
    exact Cluster.history_backUp _ _ _ hm
  have hcalls : s'.calls = s.calls := by
    rw [hs']
    exact Cluster.calls_backUp _ _
  have hpending : ∀ call, s'.Pending mutating call → s.Pending mutating call :=
    fun call hcall => ⟨hcalls ▸ hcall.1, hcall.2⟩
  refine ⟨h.numbered, fun k hk => ?_, fun j => ?_, fun j => ?_, fun i' l hl hm' => ?_,
    fun call hcall => ?_, fun c₁ c₂ h₁ h₂ => h.single c₁ c₂ (hpending c₁ h₁) (hpending c₂ h₂)⟩
  · have hnext : s'.nextNumber = s.nextNumber := by
      rw [hs']
      exact Cluster.nextNumber_backUp _ _
    rw [hnext]
    exact h.below k hk
  · rw [hhistory]
    split_ifs
    · exact ordered_append (h.ordered _) hbefore
    · exact h.ordered j
  · rw [hhistory]
    split_ifs
    · exact List.append_subset.mpr ⟨h.run _, fun k hk => List.mem_singleton.mp hk ▸ hc⟩
    · exact h.run j
  · have hl' : ((s.backUp rank mutating c).setProcess rank (p.setLoop .client none)).loop i'
        .client = some l := by
      rw [hs'] at hl
      exact hl
    rw [Cluster.loop_setProcess] at hl'
    split_ifs at hl' with hi'
    · rw [Process.loops_setLoop, if_pos rfl] at hl'
      cases hl'
    · unfold Cluster.loop at hl'
      rw [Cluster.process_backUp] at hl'
      exact absurd (h.current i' l hl' hm').1 hi'
  · obtain ⟨hdst, ⟨k, hk, hbody, hbefore'⟩, _⟩ := h.pending call (hpending call hcall)
    refine ⟨hdst, ⟨k, hk, hbody, ?_⟩, h.holds hone hstep (hpending call hcall) hcall.1⟩
    unfold Cluster.Before
    rw [hhistory, if_neg hdst]
    exact hbefore'

/-- The leader takes up a command. -/
theorem Replaying.executes (h : Replaying mutating r s issued) {rank : Nat} {request : Str}
    {p : Process} (hone : OneLeader cfg mutating r s (.execute rank request))
    (hp : s.process rank = some p) (hrank : rank < cfg.getMaxNumClient)
    (hleader : s.isLeader rank = true)
    (hs' : s' = { s.setProcess rank
        (p.setLoop .client (some ⟨.command ⟨s.nextNumber, request⟩, 0, none⟩)) with
      nextNumber := s.nextNumber + 1 })
    (hstep : step cfg mutating (.execute rank request) s = some s') :
    Replaying mutating r s' (issued ++ [⟨s.nextNumber, request⟩]) := by
  obtain rfl : rank = r := hone.1 rank hrank hleader
  have hpending : ∀ call, s'.Pending mutating call ↔ s.Pending mutating call := by
    intro call
    rw [hs']
    exact Iff.rfl
  have hbefore : ∀ j c, s'.Before j c ↔ s.Before j c := by
    intro j c
    rw [hs']
    exact Iff.rfl
  have hlast : ∀ k ∈ issued, k.number < s.nextNumber := h.below
  refine ⟨ordered_append h.numbered hlast, fun k hk => ?_, hs' ▸ h.ordered,
    fun j => List.Subset.trans (hs' ▸ h.run j) (List.subset_append_left _ _), fun i l hl hm' => ?_,
    fun call hcall => ?_, fun c₁ c₂ h₁ h₂ =>
      h.single c₁ c₂ ((hpending c₁).mp h₁) ((hpending c₂).mp h₂)⟩
  · have hnext : s'.nextNumber = s.nextNumber + 1 := by rw [hs']
    rcases List.mem_append.mp hk with hk | hk
    · have hlt := hlast k hk
      omega
    · rw [List.mem_singleton.mp hk]
      dsimp only
      omega
  · have hl' : (s.setProcess rank
        (p.setLoop .client (some ⟨.command ⟨s.nextNumber, request⟩, 0, none⟩))).loop i .client =
          some l := by
      rw [hs'] at hl
      exact hl
    rw [s.loop_setLoop rank i .client hp rfl] at hl'
    split_ifs at hl' with hi
    · cases hl'
      refine ⟨hi.1, ⟨s.nextNumber, request⟩, List.mem_append_right _ (List.mem_singleton_self _),
        rfl, fun j _ k hk => ?_, fun call k hcall hk _ => ?_⟩
      · rw [hs'] at hk
        exact hlast k (h.run j hk)
      · obtain ⟨_, ⟨k', hk', hbody, _⟩, _⟩ := h.pending call ((hpending call).mp hcall)
        obtain rfl : k = k' := by
          rw [hk] at hbody
          injection hbody
        exact hlast k hk'
    · exact absurd ⟨(h.current i l hl' hm').1, rfl⟩ hi
  · have hold := (hpending call).mp hcall
    obtain ⟨hdst, ⟨k, hk, hbody, hto⟩, _⟩ := h.pending call hold
    exact ⟨hdst, ⟨k, List.mem_append_left _ hk, hbody, (hbefore _ k).mpr hto⟩,
      h.holds hone hstep hold hcall.1⟩

/-- Every step keeps the invariant. -/
theorem Replaying.step (h : Replaying mutating r s issued) (hw : Wired cfg s)
    (hlocking : ∀ i p, s.process i = some p → p.Locking) {l : Label}
    (hone : OneLeader cfg mutating r s l) (hstep : step cfg mutating l s = some s') :
    Replaying mutating r s' (issue mutating s l s' issued) := by
  cases step_moves hstep with
  | @start rank _ hnone =>
    refine h.keep hone hstep (Nat.le_refl _) rfl (fun i l hl _ => ⟨l, ?_, rfl, fun _ hj => hj⟩)
      fun call hcall _ _ => hcall
    rw [Cluster.loop_setProcess] at hl
    split_ifs at hl
    · cases hl
    · exact hl
  | @crash _ rank p hp =>
    have hkept : Replaying mutating r (s.crash rank) issued := h.calmer hone hstep rfl (.crash _)
    cases l with
    | execute rank' request =>
      have hgone : (s.crash rank).process rank = none := by rw [Cluster.process_crash, if_pos rfl]
      exact absurd hgone (running_of_execute hstep (hp ▸ Option.some_ne_none p))
    | _ => exact hkept
  | waits hp _ => exact h.calmer hone hstep rfl (.idle hp rfl)
  | leads hp _ _ _ => exact h.calmer hone hstep rfl (.idle hp rfl)
  | chooses hp => exact h.calmer hone hstep rfl (.idle hp rfl)
  | notifies hp _ => exact h.calmer hone hstep rfl (Calmer.trans (.send rfl) (.idle hp rfl))
  | notified hp _ _ => exact h.calmer hone hstep rfl (Calmer.trans (.lose _) (.idle hp rfl))
  | passes hp hloop _ _ => exact h.calmer hone hstep rfl (.advance hp hloop rfl)
  | @sends rank i t body p hp hloop _ hne =>
    have hold := (s.loop_eq rank t hp).trans hloop
    cases hm : body.mutates mutating with
    | false =>
      refine h.calmer hone hstep rfl (Calmer.trans (.send hm) (.own hp fun l' hl' hm' => ?_))
      rcases Process.loops_of_setLoop hl' with hl' | ⟨_, hnew⟩
      · exact ⟨l', hl', rfl, fun _ hj => hj⟩
      · cases hnew
        rw [hm] at hm'
        cases hm'
    | true =>
      have ht : t = .client := by
        by_contra hcon
        have hnot : body.mutates mutating = false := (hw.bodies rank t _ hold).mutates hcon
        rw [hm] at hnot
        cases hnot
      subst ht
      exact h.sends hone hp (hlocking rank p hp) hloop hm hne rfl rfl hstep
  | resumes hp hloop _ =>
    exact h.calmer hone hstep rfl (Calmer.trans (.lose _) (.advance hp hloop rfl))
  | abandons hp _ =>
    exact h.calmer hone hstep rfl (Calmer.trans (.setStatus (by simp)) (.idle hp rfl))
  | throws hp => exact h.calmer hone hstep rfl (.ends hp rfl)
  | initializes hp _ _ => exact h.calmer hone hstep rfl (.idle hp rfl)
  | promoted hp _ _ _ =>
    exact h.calmer hone hstep rfl (Calmer.trans (.setStatus (by simp)) (.idle hp rfl))
  | @commits rank i c p hp hloop _ =>
    cases hm : mutating c.request with
    | false =>
      have hback : s.backUp rank mutating c = s := if_neg (by simp [hm])
      have hends : Calmer mutating s (s.setProcess rank (p.setLoop .client none)) := .ends hp rfl
      refine h.calmer hone hstep ?_ (hends.trans (.ofCalls ?_ ?_ fun call hc _ _ => ?_))
      · exact Cluster.nextNumber_backUp s rank
      · rw [hback]
      · rw [hback]
      · rw [hback] at hc
        exact hc
    | true => exact h.commits hone hp hloop hm rfl hstep
  | follows _ _ hp _ =>
    exact h.calmer hone hstep rfl (Calmer.trans (.setStatus (by simp)) (.idle hp rfl))
  | @backsUp call command p hc hsent hp hbody =>
    cases hm : mutating command.request with
    | false =>
      have hback : (s.setStatus call.xid (.answered .replicated)).backUp call.dst mutating
          command = s.setStatus call.xid (.answered .replicated) := if_neg (by simp [hm])
      rw [hback] at hstep ⊢
      exact h.calmer hone hstep rfl (.setStatus (by simp))
    | true => exact h.backsUp hone hc hsent hbody hm rfl hstep
  | refuses _ _ _ _ _ _ => exact h.calmer hone hstep rfl (.setStatus (by simp))
  | accepts _ _ hp _ _ _ =>
    exact h.calmer hone hstep rfl (Calmer.trans (.setStatus (by simp)) (.idle hp rfl))
  | loses => exact h.calmer hone hstep rfl (.lose _)
  | @declines rank request p hp hleader =>
    have hnone : issue mutating s (.execute rank request) s issued = issued := by
      simp [issue, s.isLeader_eq rank hp, hleader]
    rw [hnone]
    exact h
  | @executes rank request p hp _ hleader =>
    have hlead : s.isLeader rank = true := (s.isLeader_eq rank hp).trans hleader
    have hrank : rank < cfg.getMaxNumClient := hw.ranks rank (by rw [hp]; simp)
    cases hm : mutating request with
    | false =>
      have hnone : ∀ t, issue mutating s (.execute rank request) t issued = issued := by
        intro t
        simp [issue, hm]
      rw [hnone]
      refine h.keep hone hstep (Nat.le_succ _) rfl (fun i l hl hm' => ?_) fun call hcall _ _ =>
        hcall
      have hl' : (s.setProcess rank (p.setLoop .client
          (some ⟨.command ⟨s.nextNumber, request⟩, 0, none⟩))).loop i .client = some l := hl
      rw [s.loop_setLoop rank i .client hp rfl] at hl'
      split_ifs at hl'
      · cases hl'
        rw [show Body.mutates mutating (.command ⟨s.nextNumber, request⟩) = mutating request from
          rfl, hm] at hm'
        cases hm'
      · exact ⟨l, hl', rfl, fun _ hj => hj⟩
    | true =>
      have hnew : ∀ t, issue mutating s (.execute rank request) t issued =
          issued ++ [⟨s.nextNumber, request⟩] := by
        intro t
        simp [issue, hlead, hm]
      rw [hnew]
      exact h.executes hone hp hrank hlead rfl hstep

theorem replaying_initial : Replaying mutating r .initial [] where
  numbered := .nil
  below c hc := absurd hc List.not_mem_nil
  ordered j := .nil
  run j := List.nil_subset _
  current i l hl := by cases hl
  pending call h := absurd h.1 List.not_mem_nil
  single call call' h := absurd h.1 List.not_mem_nil

theorem Replaying.replaysInOrder (h : Replaying mutating r s issued) :
    ReplaysInOrder (s, issued) where
  issued := h.numbered
  replays j := by
    have hanti : Std.Antisymm fun c c' : Command => c.number < c'.number :=
      ⟨fun _ _ hlt hlt' => absurd hlt (Nat.lt_asymm hlt')⟩
    have hnodup : (s.history j).Nodup :=
      (h.ordered j).imp fun hlt heq => Nat.ne_of_lt hlt (congrArg Command.number heq)
    have hpart := List.subperm_of_subset hnodup (h.run j)
    exact List.sublist_of_subperm_of_pairwise hpart (h.ordered j) h.numbered

end Invariant

/-- In every run with one leader, what each replica has run is a part of what the
    leader was given, in that order. -/
theorem replaysInOrder_reachable (cfg : Config) (mutating : Str → Bool) (r : Nat)
    (w : Cluster × List Command)
    (h : (issuing cfg mutating).Reach (fun w l => OneLeader cfg mutating r w.1 l) w) :
    ReplaysInOrder w := by
  have hok : Wired cfg w.1 ∧ (∀ i p, w.1.process i = some p → p.Locking) ∧
      Replaying mutating r w.1 w.2 := by
    refine h.invariant (I := fun w => Wired cfg w.1 ∧
      (∀ i p, w.1.process i = some p → p.Locking) ∧ Replaying mutating r w.1 w.2) ?_ ?_
    · rintro ⟨s, issued⟩ ⟨rfl, rfl⟩
      refine ⟨wired_initial, fun i p hp => ?_, replaying_initial⟩
      cases hp
    · rintro w w' l _ ⟨hwired, hlocking, hreplaying⟩ hone hstep
      obtain ⟨hstep, hissued⟩ := Lts.watch_step hstep
      refine ⟨(step_moves hstep).wired hwired, locking_step hstep hlocking, ?_⟩
      rw [hissued]
      exact hreplaying.step hwired hlocking hone hstep
  exact hok.2.2.replaysInOrder

/-- A backup that was not there for the first command runs the second one. -/
theorem replaysInOrder_passedOver :
    ∃ w, (issuing twoReplicas fun _ => true).exec
        (fun w l => OneLeader twoReplicas (fun _ => true) 0 w.1 l) passOver (.initial, []) =
          some w ∧
      w.1.history 1 = [⟨1, ['q']⟩] ∧ w.2 = [⟨0, ['p']⟩, ⟨1, ['q']⟩] ∧ ReplaysInOrder w := by
  have hrun : ∃ w, (issuing twoReplicas fun _ => true).exec
      (fun w l => OneLeader twoReplicas (fun _ => true) 0 w.1 l) passOver (.initial, []) =
        some w ∧
      w.1.history 1 = [⟨1, ['q']⟩] ∧ w.2 = [⟨0, ['p']⟩, ⟨1, ['q']⟩] := ⟨_, rfl, rfl, rfl⟩
  obtain ⟨w, hw, hhistory, hissued⟩ := hrun
  have hstart : (issuing twoReplicas fun _ => true).init (.initial, []) := ⟨rfl, rfl⟩
  exact ⟨w, hw, hhistory, hissued, replaysInOrder_reachable twoReplicas (fun _ => true) 0 w
    (Lts.Reach.exec (.init hstart) hw)⟩

end Paxos

end SimpleChubby
