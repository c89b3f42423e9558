import SimpleChubby.Session.Stream

/-!
# When a connection stalls

`output` registers itself with the `pollset` when it has written a part of the queue,
but not when the first write of all meets `EAGAIN`: then it returns at once. `putmsg`
calls it only for an empty queue. So a reply whose first write finds the descriptor full
stays in the queue, with all replies after it, while events still go out.
-/

namespace SimpleChubby

/-- Replies wait in the queue, and nobody waits for the descriptor. -/
def MsgSock.Stalled (s : MsgSock) : Prop := s.wsize ≠ 0 ∧ s.callback = false

instance (s : MsgSock) : Decidable s.Stalled := inferInstanceAs (Decidable (_ ∧ _))

/-- The first reply for an empty queue finds the descriptor full. -/
def Connection.Blocked (c : Connection) (l : Sending) : Prop :=
  ∃ xid m, l = .reply xid m .again ∧ xid ≠ internalXid ∧ c.sock.wqueue = [] ∧
    c.sock.wfail = false

namespace MsgSock

variable {s s' : MsgSock} {w : Written} {m : Message} {bytes : List UInt8}

/-- The counters agree with the queue, and nobody waits for the descriptor when there is
    nothing to write. -/
structure Tidy (s : MsgSock) : Prop where
  counts : s.Counts
  givenUp : s.wfail = true → s.wqueue = []
  waiting : s.wfail = false → s.wqueue = [] → s.callback = false

theorem tidy_fresh : fresh.Tidy where
  counts := counts_fresh
  givenUp _ := rfl
  waiting _ _ := rfl

theorem Counts.wsize_eq_zero (h : s.Counts) : s.wsize = 0 ↔ s.wqueue = [] := by
  have hsize := h.size
  constructor
  · intro hzero
    cases hqueue : s.wqueue with
    | nil => rfl
    | cons m rest =>
      have hstart := h.start m rest hqueue
      rw [hqueue, rawBytes_cons, List.length_append] at hsize
      omega
  · intro hqueue
    have hidle := h.idle hqueue
    rw [hqueue, rawBytes_nil, List.length_nil] at hsize
    omega

theorem counts_giveUp (s : MsgSock) : s.giveUp.Counts where
  start m rest hq := by cases hq
  idle _ := rfl
  size := rfl

theorem tidy_giveUp (s : MsgSock) : s.giveUp.Tidy where
  counts := counts_giveUp s
  givenUp _ := rfl
  waiting h := by cases h

theorem not_stalled_giveUp (s : MsgSock) : ¬ s.giveUp.Stalled := fun h => h.1 rfl

theorem callback_popWbytes (n : Nat) (s : MsgSock) : (s.popWbytes n).callback = s.callback := by
  unfold popWbytes
  split_ifs
  · rfl
  · cases s.wqueue with
    | nil => rfl
    | cons m rest =>
      dsimp only
      split_ifs <;> rfl

/-- `output` waits for the descriptor when something is left, unless it has met `EAGAIN`
    and nobody had waited before. -/
theorem output_tidy (h : s.Tidy) (hqueue : s.wqueue ≠ [])
    (ho : s.output s.callback w = some (s', bytes)) :
    s'.Tidy ∧ (s'.Stalled ↔ w = .again ∧ s.callback = false) := by
  cases w with
  | again =>
    cases ho
    refine ⟨h, ?_⟩
    have hsize : s.wsize ≠ 0 := fun hzero => hqueue (h.counts.wsize_eq_zero.mp hzero)
    simp [Stalled, hsize]
  | failed =>
    cases ho
    refine ⟨tidy_giveUp s, ?_⟩
    simp [not_stalled_giveUp]
  | bytes n =>
    have hcounts := output_spec h.counts ho
    unfold output at ho
    dsimp only at ho
    by_cases hn : n = 0
    · rw [if_pos hn] at ho
      cases ho
      refine ⟨tidy_giveUp s, ?_⟩
      simp [not_stalled_giveUp]
    · rw [if_neg hn] at ho
      by_cases hlong : s.iov.length < n
      · rw [if_pos hlong] at ho
        cases ho
      · rw [if_neg hlong, callback_popWbytes] at ho
        cases ho
        rcases hcounts with ⟨_, _, hnone⟩ | ⟨hsame, hcounts, _⟩
        · -- something has been written
          rw [List.take_eq_nil_iff] at hnone
          rcases hnone with hnone | hnone
          · exact absurd hnone hn
          · rw [hnone] at hlong
            exact absurd (Nat.pos_of_ne_zero hn) hlong
        · have hzero := hcounts.wsize_eq_zero
          dsimp only at hzero
          refine ⟨⟨hcounts, ?_, ?_⟩, ?_⟩
          · intro hfail
            exact absurd (h.givenUp (hsame.symm.trans hfail)) hqueue
          · intro _ hempty
            rw [← hzero] at hempty
            dsimp only
            cases hcallback : s.callback <;> simp [hempty]
          · unfold Stalled
            cases hcallback : s.callback <;> simp

theorem putmsg_tidy (h : s.Tidy) (ho : s.putmsg m w = some (s', bytes)) :
    s'.Tidy ∧ (s'.Stalled ↔ s.Stalled ∨ w = .again ∧ s.wqueue = [] ∧ s.wfail = false) := by
  unfold putmsg at ho
  by_cases hfail : s.wfail = true
  · rw [if_pos hfail] at ho
    cases ho
    refine ⟨h, ?_⟩
    simp [hfail]
  · rw [if_neg hfail] at ho
    have hrun : s.wfail = false := by simpa using hfail
    have hpushed : Tidy
        { s with wqueue := s.wqueue ++ [m], wsize := s.wsize + m.raw.length } :=
      ⟨h.counts.push m, fun hcon => absurd hcon hfail, fun _ hnil => by simp at hnil⟩
    dsimp only at ho
    by_cases hempty : s.wsize = 0
    · have hqueue := h.counts.wsize_eq_zero.mp hempty
      have hcallback := h.waiting hrun hqueue
      rw [if_pos hempty, ← hcallback] at ho
      obtain ⟨htidy, hstalled⟩ := output_tidy hpushed (by simp) ho
      refine ⟨htidy, hstalled.trans ?_⟩
      simp [Stalled, hempty, hqueue, hrun, hcallback]
    · have hqueue : s.wqueue ≠ [] := fun hnil => hempty (h.counts.wsize_eq_zero.mpr hnil)
      rw [if_neg hempty] at ho
      cases ho
      refine ⟨hpushed, ?_⟩
      simp [Stalled, hempty, hqueue]

theorem ready_tidy (h : s.Tidy) (hcallback : s.callback = true)
    (ho : s.output true w = some (s', bytes)) : s'.Tidy ∧ ¬ s'.Stalled := by
  by_cases hqueue : s.wqueue = []
  · -- nothing is offered
    obtain ⟨_, hempty, _⟩ := output_given_up hqueue ho
    cases w with
    | again =>
      cases ho
      exact ⟨h, fun hstalled => hstalled.1 (h.counts.wsize_eq_zero.mpr hqueue)⟩
    | failed =>
      cases ho
      exact ⟨tidy_giveUp s, not_stalled_giveUp s⟩
    | bytes n =>
      have hiov : s.iov = [] := by simp [iov, hqueue]
      unfold output at ho
      dsimp only at ho
      by_cases hn : n = 0
      · rw [if_pos hn] at ho
        cases ho
        exact ⟨tidy_giveUp s, not_stalled_giveUp s⟩
      · rw [if_neg hn, hiov, if_pos (by simpa using Nat.pos_of_ne_zero hn)] at ho
        cases ho
  · rw [← hcallback] at ho
    obtain ⟨htidy, hstalled⟩ := output_tidy h hqueue ho
    refine ⟨htidy, fun hcon => ?_⟩
    have := (hstalled.mp hcon).2
    rw [hcallback] at this
    cases this

end MsgSock

/-! ## Runs -/

section Runs

variable {c c' : Connection} {l : Sending}

/-- A connection stalls with the first reply that finds the descriptor full, and only
    then; it never recovers. -/
theorem stalled_step (h : c.sock.Tidy) (hstep : connection.step l c = some c') :
    c'.sock.Tidy ∧ (c'.sock.Stalled ↔ c.sock.Stalled ∨ c.Blocked l) := by
  have hother : (∀ xid m, l ≠ .reply xid m .again) → ¬ c.Blocked l := by
    rintro hl ⟨xid, m, rfl, _⟩
    exact hl xid m rfl
  change c.step l = some c' at hstep
  unfold Connection.step at hstep
  split_ifs at hstep
  cases l with
  | reply xid m w =>
    change c.reply xid m w = some c' at hstep
    unfold Connection.reply at hstep
    split_ifs at hstep with hxid
    · cases hstep
      refine ⟨h, ?_⟩
      have hnot : ¬ c.Blocked (.reply xid m w) := by
        rintro ⟨xid', m', heq, hne, _⟩
        cases heq
        exact hne hxid
      simp [hnot]
    · obtain ⟨⟨sock, bytes⟩, hput, rfl⟩ := Option.map_eq_some_iff.mp hstep
      obtain ⟨htidy, hstalled⟩ := MsgSock.putmsg_tidy h hput
      refine ⟨htidy, hstalled.trans (or_congr_right ?_)⟩
      constructor
      · rintro ⟨rfl, hqueue, hfail⟩
        exact ⟨xid, m, rfl, hxid, hqueue, hfail⟩
      · rintro ⟨xid', m', heq, _, hqueue, hfail⟩
        cases heq
        exact ⟨rfl, hqueue, hfail⟩
  | send m w =>
    change c.send m w = some c' at hstep
    have hsock : c'.sock = c.sock := by
      unfold Connection.send at hstep
      cases w with
      | bytes n =>
        dsimp only at hstep
        split_ifs at hstep
        cases hstep
        rfl
      | again => cases hstep; rfl
      | failed => cases hstep; rfl
    rw [hsock]
    refine ⟨h, ?_⟩
    simp [hother (by intro xid m heq; cases heq)]
  | ready w =>
    change c.ready w = some c' at hstep
    unfold Connection.ready at hstep
    split_ifs at hstep with hcallback
    obtain ⟨⟨sock, bytes⟩, ho, rfl⟩ := Option.map_eq_some_iff.mp hstep
    obtain ⟨htidy, hnot⟩ := MsgSock.ready_tidy h hcallback ho
    refine ⟨htidy, ?_⟩
    have hnot' : ¬ c.sock.Stalled := by
      rintro ⟨_, hcon⟩
      rw [hcallback] at hcon
      cases hcon
    simp [hother (by intro xid m heq; cases heq), hnot', Connection.wrote, hnot]

theorem stalled_exec {ls : List Sending} (h : c.sock.Tidy)
    (hrun : connection.exec (fun _ _ => True) ls c = some c') :
    c'.sock.Stalled ↔ c.sock.Stalled ∨ ∃ before l after mid, ls = before ++ l :: after ∧
      connection.exec (fun _ _ => True) before c = some mid ∧ mid.Blocked l := by
  induction ls generalizing c with
  | nil =>
    obtain rfl := Option.some.inj hrun
    simp
  | cons l rest ih =>
    obtain ⟨_, c₁, hstep, hrest⟩ := Lts.exec_cons hrun
    obtain ⟨htidy, hstalled⟩ := stalled_step h hstep
    have hexec : ∀ before, connection.exec (fun _ _ => True) (l :: before) c =
        connection.exec (fun _ _ => True) before c₁ := by
      intro before
      unfold Lts.exec
      rw [if_pos trivial, hstep, Option.bind_some]
      cases before <;> rfl
    rw [ih htidy hrest, hstalled, or_assoc]
    apply or_congr_right
    constructor
    · rintro (hblocked | ⟨before, l', after, mid, rfl, hbefore, hblocked⟩)
      · exact ⟨[], l, rest, c, rfl, rfl, hblocked⟩
      · exact ⟨l :: before, l', after, mid, rfl, (hexec before).trans hbefore, hblocked⟩
    · rintro ⟨before, l', after, mid, heq, hbefore, hblocked⟩
      cases before with
      | nil =>
        cases heq
        obtain rfl := Option.some.inj hbefore
        exact Or.inl hblocked
      | cons l₀ before =>
        cases heq
        exact Or.inr ⟨before, l', after, mid, rfl, (hexec before).symm.trans hbefore, hblocked⟩

theorem tidy_reachable (h : connection.Reach (fun _ _ => True) c) : c.sock.Tidy := by
  apply h.invariant (I := fun c => c.sock.Tidy)
  · intro c hc
    rw [show c = .fresh from hc]
    exact MsgSock.tidy_fresh
  · intro c c' l _ htidy _ hstep
    exact (stalled_step htidy hstep).1

/-- A connection has stalled exactly when at some point of its run the first reply for an
    empty queue has found the descriptor full. -/
theorem stalled_runs (ls : List Sending)
    (h : connection.exec (fun _ _ => True) ls .fresh = some c) :
    c.sock.Stalled ↔ ∃ before l after mid, ls = before ++ l :: after ∧
      connection.exec (fun _ _ => True) before .fresh = some mid ∧ mid.Blocked l := by
  have hfresh : ¬ Connection.fresh.sock.Stalled := fun hstalled => hstalled.1 rfl
  have hrun := stalled_exec MsgSock.tidy_fresh h
  rwa [or_iff_right hfresh] at hrun

theorem stalled_quote :
    ∃ c, connection.exec (fun _ _ => True) [.reply 1 aReply (.bytes 6), .reply 2 aReply .again,
        .reply 3 aReply (.bytes 6), .send anEvent (.bytes 5)] .fresh = some c ∧
      (c.sock.Stalled ↔ ∃ before l after mid,
        [.reply 1 aReply (.bytes 6), .reply 2 aReply .again, .reply 3 aReply (.bytes 6),
          .send anEvent (.bytes 5)] = before ++ l :: after ∧
        connection.exec (fun _ _ => True) before .fresh = some mid ∧ mid.Blocked l) :=
  ⟨_, rfl, stalled_runs _ rfl⟩

/-- From `c` to `c'` no part of a reply has been written, only events. -/
structure Silent (c c' : Connection) : Prop where
  queue : c.sock.wqueue <+: c'.sock.wqueue
  written : ∃ events bytes, c'.events = c.events ++ events ∧ c'.received = c.received ++ bytes ∧
    bytes <+: rawBytes events ∧ (c'.ended = false → bytes = rawBytes events)

theorem silent_of_eq (hqueue : c.sock.wqueue <+: c'.sock.wqueue) (hevents : c'.events = c.events)
    (hreceived : c'.received = c.received) : Silent c c' where
  queue := hqueue
  written := ⟨[], [], by simp [hevents], by simp [hreceived], List.nil_prefix, fun _ => rfl⟩

theorem ended_of_step (hstep : connection.step l c = some c') : c.ended = false := by
  change c.step l = some c' at hstep
  unfold Connection.step at hstep
  split_ifs at hstep with hended
  simpa using hended

theorem silent_step (hstalled : c.sock.Stalled) (hstep : connection.step l c = some c') :
    Silent c c' := by
  change c.step l = some c' at hstep
  unfold Connection.step at hstep
  split_ifs at hstep
  cases l with
  | reply xid m w =>
    change c.reply xid m w = some c' at hstep
    unfold Connection.reply at hstep
    split_ifs at hstep with hxid
    · cases hstep
      exact silent_of_eq List.prefix_rfl rfl rfl
    · obtain ⟨⟨sock, bytes⟩, hput, rfl⟩ := Option.map_eq_some_iff.mp hstep
      unfold MsgSock.putmsg at hput
      dsimp only at hput
      rw [if_neg hstalled.1] at hput
      split_ifs at hput
      · cases hput
        exact silent_of_eq List.prefix_rfl rfl (List.append_nil _)
      · cases hput
        exact silent_of_eq (List.prefix_append _ _) rfl (List.append_nil _)
  | send m w =>
    have hraw : rawBytes [m] = m.raw := by simp [rawBytes]
    change c.send m w = some c' at hstep
    unfold Connection.send at hstep
    cases w with
    | bytes n =>
      dsimp only at hstep
      split_ifs at hstep
      cases hstep
      refine ⟨List.prefix_rfl, [m], m.raw.take n, rfl, rfl, ?_, fun hended => ?_⟩
      · rw [hraw]
        exact List.take_prefix _ _
      · have hall : n = m.raw.length := by simpa using hended
        rw [hraw, hall, List.take_length]
    | again =>
      cases hstep
      exact ⟨List.prefix_rfl, [m], [], rfl, (List.append_nil _).symm, List.nil_prefix,
        fun hended => by cases hended⟩
    | failed =>
      cases hstep
      exact ⟨List.prefix_rfl, [m], [], rfl, (List.append_nil _).symm, List.nil_prefix,
        fun hended => by cases hended⟩
  | ready w =>
    change c.ready w = some c' at hstep
    unfold Connection.ready at hstep
    rw [if_neg (by simp [hstalled.2])] at hstep
    cases hstep

theorem Silent.trans {c'' : Connection} (h : Silent c c') (hrunning : c'.ended = false)
    (h' : Silent c' c'') : Silent c c'' := by
  obtain ⟨events, bytes, hevents, hreceived, _, hall⟩ := h.written
  obtain ⟨events', bytes', hevents', hreceived', hprefix', hall'⟩ := h'.written
  refine ⟨h.queue.trans h'.queue, events ++ events', bytes ++ bytes', ?_, ?_, ?_, fun hended => ?_⟩
  · rw [hevents', hevents, List.append_assoc]
  · rw [hreceived', hreceived, List.append_assoc]
  · rw [rawBytes_append, hall hrunning]
    exact (List.prefix_append_right_inj _).mpr hprefix'
  · rw [rawBytes_append, hall hrunning, hall' hended]

/-- A connection that has stalled stays so: its queue only grows, and all that the client
    receives from then on is events. -/
theorem stalled_silent (ls : List Sending) (h : connection.Reach (fun _ _ => True) c)
    (hstalled : c.sock.Stalled) (hrun : connection.exec (fun _ _ => True) ls c = some c') :
    c'.sock.Stalled ∧ Silent c c' := by
  induction ls generalizing c with
  | nil =>
    obtain rfl := Option.some.inj hrun
    exact ⟨hstalled, silent_of_eq List.prefix_rfl rfl rfl⟩
  | cons l rest ih =>
    obtain ⟨_, c₁, hstep, hrest⟩ := Lts.exec_cons hrun
    have hstalled₁ := (stalled_step (tidy_reachable h) hstep).2.mpr (Or.inl hstalled)
    have hsilent := silent_step hstalled hstep
    obtain ⟨hstalled', hsilent'⟩ := ih (h.step trivial hstep) hstalled₁ hrest
    refine ⟨hstalled', ?_⟩
    cases rest with
    | nil =>
      obtain rfl := Option.some.inj hrest
      exact hsilent
    | cons l' rest' =>
      obtain ⟨_, c₂, hstep', _⟩ := Lts.exec_cons hrest
      exact hsilent.trans (ended_of_step hstep') hsilent'

end Runs

/-- A connection whose second reply has found the descriptor full. -/
def fullDescriptor : Connection :=
  (connection.exec (fun _ _ => True) [.reply 1 aReply (.bytes 6), .reply 2 aReply .again]
    .fresh).get (by decide)

/-- Another reply and an event later. -/
def stillFull : Connection :=
  (connection.exec (fun _ _ => True) [.reply 3 aReply (.bytes 6), .send anEvent (.bytes 5)]
    fullDescriptor).get (by decide)

theorem silent_stillFull : stillFull.sock.Stalled ∧ Silent fullDescriptor stillFull :=
  stalled_silent _ ((Lts.Reach.init rfl).exec (Option.some_get _).symm) (by decide)
    (Option.some_get _).symm

end SimpleChubby
