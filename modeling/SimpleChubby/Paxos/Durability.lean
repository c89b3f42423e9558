import SimpleChubby.Paxos.Agreement

/-!
# Durability of acknowledged commands

`execute` answers ok whoever was reached, and the next leader is chosen by rank
alone. In the runs in which no command that changes the back stores passes over
a replica, an acknowledged command has been run by every replica.
-/

namespace SimpleChubby

namespace Paxos

section Statement

variable (cfg : Config) (mutating : Str → Bool)

/-- The replicas that have run a command. -/
def ranBy (s : Cluster) (c : Command) : List Nat :=
  (List.range cfg.getMaxNumClient).filter fun r => decide (c ∈ s.history r)

/-- What a step owes to the commands that change the back stores: when `execute`
    returns ok, a quorum has run the command, and a replica that becomes a leader
    has run every command for which it had returned ok. -/
structure Durable (s s' : Cluster) : Prop where
  quorum : ∀ c, s'.acked = s.acked ++ [c] → mutating c.request = true →
    cfg.getConsensusQuota ≤ (ranBy cfg s' c).length
  promoted : ∀ r, s.isLeader r = false → s'.isLeader r = true →
    ∀ c ∈ s.acked, mutating c.request = true → c ∈ s'.history r

/-- The loop of `execute` passes over no replica but its own, unless the command
    changes nothing. -/
def Reaching (s : Cluster) : Label → Prop
  | .replicateCommand r .client false =>
    ∀ l ∈ s.loop r .client, l.body.mutates mutating = true → l.rank = r
  | _ => True

instance (s : Cluster) (l : Label) : Decidable (Reaching mutating s l) := by
  unfold Reaching
  split <;> infer_instance

end Statement

/-! ## The invariant -/

/-- The invariant of the runs that pass over nobody. -/
structure DurableOk (cfg : Config) (mutating : Str → Bool) (s : Cluster) : Prop where
  wired : Wired cfg s
  acked : ∀ c ∈ s.acked, mutating c.request = true →
    ∀ j < cfg.getMaxNumClient, c ∈ s.history j
  loops : ∀ r l c, s.loop r .client = some l → l.body = .command c →
    mutating c.request = true → ∀ j < l.rank, j ≠ r → c ∈ s.history j
  answered : ∀ call ∈ s.calls, call.status.open = false → ∀ c, call.body = .command c →
    mutating c.request = true → c ∈ s.history call.dst

/-- What a step may change that acknowledges no command and answers for none. -/
structure Milder (s s' : Cluster) : Prop where
  history : ∀ j, s.history j ⊆ s'.history j
  acked : s'.acked = s.acked
  loops : ∀ r l', s'.loop r .client = some l' → l'.rank = 0 ∨
    ∃ l, s.loop r .client = some l ∧ l.body = l'.body ∧ l'.rank = l.rank
  calls : ∀ call ∈ s'.calls, call.status.open = false → ∀ c, call.body = .command c →
    call ∈ s.calls

section Invariant

variable {cfg : Config} {mutating : Str → Bool} {s s' : Cluster}

theorem DurableOk.milder (h : DurableOk cfg mutating s) (hw : Wired cfg s') (hs : Milder s s') :
    DurableOk cfg mutating s' where
  wired := hw
  acked c hc hm j hj := by
    rw [hs.acked] at hc
    exact hs.history j (h.acked c hc hm j hj)
  loops r l' c hl' hbody hm j hj hne := by
    rcases hs.loops r l' hl' with hzero | ⟨l, hl, hsame, hrank⟩
    · omega
    · exact hs.history j (h.loops r l c hl (hsame.trans hbody) hm j (hrank ▸ hj) hne)
  answered call hc hstatus c hbody hm :=
    hs.history _ (h.answered call (hs.calls call hc hstatus c hbody) hstatus c hbody hm)

theorem Milder.trans {s₁ : Cluster} (h : Milder s s₁) (h' : Milder s₁ s') : Milder s s' where
  history j := List.Subset.trans (h.history j) (h'.history j)
  acked := h'.acked.trans h.acked
  loops r l' hl' := by
    rcases h'.loops r l' hl' with hzero | ⟨l₁, hl₁, hbody₁, hrank₁⟩
    · exact Or.inl hzero
    · rcases h.loops r l₁ hl₁ with hzero | ⟨l, hl, hbody, hrank⟩
      · exact Or.inl (hrank₁.trans hzero)
      · exact Or.inr ⟨l, hl, hbody.trans hbody₁, hrank₁.trans hrank⟩
  calls call hc hs c hbody := h.calls call (h'.calls call hc hs c hbody) hs c hbody

theorem Milder.ofCalls (hprocess : s'.process = s.process) (hhistory : s'.history = s.history)
    (hacked : s'.acked = s.acked)
    (hcalls : ∀ call ∈ s'.calls, call.status.open = false → ∀ c, call.body = .command c →
      call ∈ s.calls) : Milder s s' where
  history j := by rw [hhistory]; exact List.Subset.refl _
  acked := hacked
  loops r l' hl' := by
    unfold Cluster.loop at hl' ⊢
    rw [hprocess] at hl'
    exact Or.inr ⟨l', hl', rfl, rfl⟩
  calls := hcalls

theorem Milder.own {rank : Nat} {p p' : Process} (hp : s.process rank = some p)
    (hloop : ∀ l', p'.loops .client = some l' → l'.rank = 0 ∨
      ∃ l, p.loops .client = some l ∧ l.body = l'.body ∧ l'.rank = l.rank) :
    Milder s (s.setProcess rank p') where
  history j := List.Subset.refl _
  acked := rfl
  loops r l' hl' := by
    rw [Cluster.loop_setProcess] at hl'
    split_ifs at hl' with hr
    · rw [hr, s.loop_eq rank .client hp]
      exact hloop l' hl'
    · exact Or.inr ⟨l', hl', rfl, rfl⟩
  calls _ hc _ _ _ := hc

theorem Milder.idle {rank : Nat} {p p' : Process} (hp : s.process rank = some p)
    (hloop : p'.loops .client = p.loops .client) : Milder s (s.setProcess rank p') :=
  .own hp fun l' hl' => Or.inr ⟨l', hloop ▸ hl', rfl, rfl⟩

theorem Milder.crash (rank : Nat) : Milder s (s.crash rank) where
  history j := List.Subset.refl _
  acked := rfl
  loops r l' hl' := by
    rw [Cluster.loop_crash] at hl'
    split_ifs at hl'
    exact Or.inr ⟨l', hl', rfl, rfl⟩
  calls _ hc _ _ _ := (Cluster.mem_crash.mp hc).1

theorem Milder.lose (xid : Nat) : Milder s (s.lose xid) :=
  .ofCalls rfl rfl rfl fun _ hc _ _ _ => (Cluster.mem_lose.mp hc).1

theorem Milder.send {dst : Nat} {body : Body} : Milder s (s.send dst body) := by
  refine .ofCalls rfl rfl rfl fun call hc hs _ _ => ?_
  rcases Cluster.mem_send hc with hc | ⟨_, rfl⟩
  · exact hc
  · cases hs

/-- A call that is not a command is answered, or served. -/
theorem Milder.setStatus {xid : Nat} {status : Status}
    (hbody : ∀ call ∈ s.calls, call.xid = xid → ∀ c, call.body ≠ .command c) :
    Milder s (s.setStatus xid status) := by
  refine .ofCalls rfl rfl rfl fun call hc _ c hcommand => ?_
  obtain ⟨c₀, hc₀, rfl⟩ := Cluster.mem_setStatus.mp hc
  split_ifs at hcommand ⊢ with hxid
  · exact absurd hcommand (hbody c₀ hc₀ hxid c)
  · exact hc₀

theorem Cluster.Awaits.notCommand {xid dst : Nat} {body : Body} (h : s.Awaits xid dst body)
    (hbody : ∀ c, body ≠ .command c) : ∀ call ∈ s.calls, call.xid = xid →
      ∀ c, call.body ≠ .command c := by
  intro call hc hxid c hcommand
  exact hbody c ((h.2 call hc hxid).2.symm.trans hcommand)

/-- Running a command forgets none. -/
theorem Cluster.subset_backUp (s : Cluster) (rank j : Nat) {c : Command} :
    s.history j ⊆ (s.backUp rank mutating c).history j := by
  intro c' hc'
  unfold Cluster.backUp
  split_ifs
  · show c' ∈ Function.update s.history rank (s.history rank ++ [c]) j
    rw [Function.update_apply]
    split_ifs with hj
    · exact List.mem_append_left _ (hj ▸ hc')
    · exact hc'
  · exact hc'

/-- The client thread moves on: it leaves a replica that has run the command. -/
theorem DurableOk.advance {rank i : Nat} {t : Thread} {body : Body} {call : Option Nat}
    {p p' : Process} (h : DurableOk cfg mutating s) (hp : s.process rank = some p)
    (hloop : p.loops t = some ⟨body, i, call⟩)
    (hloops : p'.loops = (p.setLoop t (some ⟨body, i + 1, none⟩)).loops)
    (hw : Wired cfg (s.setProcess rank p'))
    (hran : ∀ c, t = .client → body = .command c → mutating c.request = true → i ≠ rank →
      c ∈ s.history i) : DurableOk cfg mutating (s.setProcess rank p') where
  wired := hw
  acked := h.acked
  loops r l' c hl' hbody hm j hj hne := by
    rw [Cluster.loop_setProcess] at hl'
    split_ifs at hl' with hr
    · subst hr
      rw [hloops] at hl'
      rcases Process.loops_of_setLoop hl' with hl' | ⟨rfl, hnew⟩
      · exact h.loops r l' c ((s.loop_eq r .client hp).trans hl') hbody hm j hj hne
      · cases hnew
        have hold := (s.loop_eq r .client hp).trans hloop
        rcases Nat.lt_succ_iff_lt_or_eq.mp hj with hj | rfl
        · exact h.loops r _ c hold hbody hm j hj hne
        · exact hran c rfl hbody hm hne
    · exact h.loops r l' c hl' hbody hm j hj hne
  answered := h.answered

/-- A backup runs the command it was sent, and its answer says so. -/
theorem DurableOk.backsUp {call : Call} {command : Command} (h : DurableOk cfg mutating s)
    (hcall : call ∈ s.calls) (hbody : call.body = .command command)
    (hw : Wired cfg ((s.setStatus call.xid (.answered .replicated)).backUp call.dst mutating
      command)) :
    DurableOk cfg mutating
      ((s.setStatus call.xid (.answered .replicated)).backUp call.dst mutating command) := by
  have hgrow : ∀ j, s.history j ⊆ ((s.setStatus call.xid (.answered .replicated)).backUp
      call.dst mutating command).history j :=
    fun j => (s.setStatus call.xid (.answered .replicated)).subset_backUp call.dst j
  refine ⟨hw, fun c hc hm j hj => ?_, fun r l c hl hb hm j hj hne => ?_,
    fun c' hc' hs c hb hm => ?_⟩
  · rw [Cluster.acked_backUp] at hc
    exact hgrow j (h.acked c hc hm j hj)
  · unfold Cluster.loop at hl
    rw [Cluster.process_backUp] at hl
    exact hgrow j (h.loops r l c hl hb hm j hj hne)
  · rw [Cluster.calls_backUp] at hc'
    obtain ⟨c₀, hc₀, rfl⟩ := Cluster.mem_setStatus.mp hc'
    split_ifs at hs hb ⊢ with hxid
    · obtain ⟨hdst, hsame⟩ := h.wired.distinct c₀ hc₀ call hcall hxid
      have hb₀ : c₀.body = .command c := hb
      rw [hsame, hbody] at hb₀
      cases hb₀
      show command ∈ _
      rw [hdst, Cluster.history_backUp _ _ _ hm, if_pos rfl]
      exact List.mem_append_right _ (List.mem_singleton_self command)
    · exact hgrow _ (h.answered c₀ hc₀ hs c hb hm)

/-- The client thread of a leader has called every other replica, and runs the command. -/
theorem DurableOk.commits {rank i : Nat} {c : Command} {p : Process}
    (h : DurableOk cfg mutating s) (hp : s.process rank = some p)
    (hloop : p.loops .client = some ⟨.command c, i, none⟩) (hi : cfg.getMaxNumClient ≤ i)
    (hw : Wired cfg { (s.backUp rank mutating c).setProcess rank (p.setLoop .client none) with
      acked := s.acked ++ [c] }) :
    DurableOk cfg mutating
      { (s.backUp rank mutating c).setProcess rank (p.setLoop .client none) with
        acked := s.acked ++ [c] } := by
  have hold := (s.loop_eq rank .client hp).trans hloop
  refine ⟨hw, fun c' hc' hm j hj => ?_, fun r l c' hl hb hm j hj hne => ?_,
    fun call hcall hs c' hb hm => ?_⟩
  · rcases List.mem_append.mp hc' with hc' | hc'
    · exact s.subset_backUp rank j (h.acked c' hc' hm j hj)
    · obtain rfl := List.mem_singleton.mp hc'
      show c' ∈ (s.backUp rank mutating c').history j
      rw [Cluster.history_backUp _ _ _ hm]
      split_ifs with hjr
      · exact List.mem_append_right _ (List.mem_singleton_self c')
      · exact h.loops rank _ c' hold rfl hm j (by show j < i; omega) hjr
  · have hl' : ((s.backUp rank mutating c).setProcess rank
        (p.setLoop .client none)).loop r .client = some l := hl
    rw [Cluster.loop_setProcess] at hl'
    split_ifs at hl' with hr
    · rw [Process.loops_setLoop, if_pos rfl] at hl'
      cases hl'
    · unfold Cluster.loop at hl'
      rw [Cluster.process_backUp] at hl'
      exact s.subset_backUp rank j (h.loops r l c' hl' hb hm j hj hne)
  · have hcall' : call ∈ (s.backUp rank mutating c).calls := hcall
    rw [Cluster.calls_backUp] at hcall'
    exact s.subset_backUp rank _ (h.answered call hcall' hs c' hb hm)

/-- A step that passes over nobody keeps the invariant. -/
theorem Moves.durableOk {l : Label} (h : Moves cfg mutating s l s')
    (hok : DurableOk cfg mutating s) (hreach : Reaching mutating s l) :
    DurableOk cfg mutating s' := by
  have hw := h.wired hok.wired
  cases h with
  | start _ _ =>
    refine hok.milder hw ⟨fun j => List.Subset.refl _, rfl, fun r l hl => ?_,
      fun _ hc _ _ _ => hc⟩
    rw [Cluster.loop_setProcess] at hl
    split_ifs at hl
    · cases hl
    · exact Or.inr ⟨l, hl, rfl, rfl⟩
  | crash _ => exact hok.milder hw (.crash _)
  | waits hp _ => exact hok.milder hw (.idle hp rfl)
  | leads hp _ _ _ => exact hok.milder hw (.idle hp rfl)
  | chooses hp => exact hok.milder hw (.idle hp rfl)
  | notifies hp _ => exact hok.milder hw (Milder.send.trans (.idle hp rfl))
  | notified hp _ _ => exact hok.milder hw (Milder.trans (.lose _) (.idle hp rfl))
  | @passes rank i t up body p hp hloop _ hself =>
    refine hok.advance hp hloop rfl hw fun c ht hbody hm hne => ?_
    subst ht hbody
    rcases hself with hself | rfl
    · exact absurd hself hne
    · -- the condition: the loop is at the replica itself
      exact absurd (hreach _ ((s.loop_eq rank .client hp).trans hloop) hm) hne
  | @sends rank i t body p hp hloop _ _ =>
    refine hok.milder hw (Milder.send.trans (.own hp fun l' hl' => ?_))
    rcases Process.loops_of_setLoop hl' with hl' | ⟨rfl, hnew⟩
    · exact Or.inr ⟨l', hl', rfl, rfl⟩
    · cases hnew
      exact Or.inr ⟨_, hloop, rfl, rfl⟩
  | @resumes rank i xid t body a p hp hloop hanswer =>
    have hlost : DurableOk cfg mutating (s.lose xid) :=
      hok.milder (hok.wired.calls Cluster.callsFrom_lose rfl rfl) (.lose xid)
    refine hlost.advance hp hloop rfl hw fun c ht hbody hm _ => ?_
    subst ht hbody
    -- the answer in the network is the one of the replica the loop is at
    obtain ⟨call, hc, hxid, hstatus⟩ := Cluster.mem_of_answer hanswer
    have hawaits := hok.wired.waits rank .client _ xid
      ((s.loop_eq rank .client hp).trans hloop) rfl
    obtain ⟨hdst, hsame⟩ := hawaits.2 call hc hxid
    have hran := hok.answered call hc (by rw [hstatus]; rfl) c hsame hm
    rw [hdst] at hran
    exact hran
  | @abandons rank xid p hp hserving =>
    have hawaits := hok.wired.serves rank xid ((s.serving_eq rank hp).trans hserving)
    exact hok.milder hw (Milder.trans (.setStatus (hawaits.notCommand (by simp)))
      (.idle hp rfl))
  | @throws rank p hp =>
    refine hok.milder hw (.own hp fun l' hl' => ?_)
    rcases Process.loops_of_setLoop hl' with hl' | ⟨_, hnew⟩
    · exact Or.inr ⟨l', hl', rfl, rfl⟩
    · cases hnew
  | initializes hp _ _ => exact hok.milder hw (.idle hp rfl)
  | @promoted rank i xid body p hp hserving _ _ =>
    have hawaits := hok.wired.serves rank xid ((s.serving_eq rank hp).trans hserving)
    exact hok.milder hw (Milder.trans (.setStatus (hawaits.notCommand (by simp)))
      (.idle hp rfl))
  | commits hp hloop hi => exact hok.commits hp hloop hi hw
  | follows hc _ hp hbody =>
    have hawaits := hok.wired.awaits hc
    exact hok.milder hw (Milder.trans (.setStatus (hawaits.notCommand (by simp [hbody])))
      (.idle hp rfl))
  | backsUp hc _ _ hbody => exact hok.backsUp hc hbody hw
  | refuses hc _ _ _ hbody _ =>
    have hawaits := hok.wired.awaits hc
    exact hok.milder hw (.setStatus (hawaits.notCommand (by simp [hbody])))
  | accepts hc _ hp _ hbody _ =>
    have hawaits := hok.wired.awaits hc
    exact hok.milder hw (Milder.trans (.setStatus (hawaits.notCommand (by simp [hbody])))
      (.idle hp rfl))
  | loses => exact hok.milder hw (.lose _)
  | declines _ _ => exact hok
  | @executes rank request p hp _ _ =>
    refine hok.milder hw (Milder.trans (.own hp fun l' hl' => ?_) (.ofCalls rfl rfl rfl
      fun call hc _ _ _ => hc))
    rcases Process.loops_of_setLoop hl' with hl' | ⟨_, hnew⟩
    · exact Or.inr ⟨l', hl', rfl, rfl⟩
    · cases hnew
      exact Or.inl rfl

theorem durableOk_initial (cfg : Config) (mutating : Str → Bool) :
    DurableOk cfg mutating .initial where
  wired := wired_initial
  acked c hc := by cases hc
  loops r l c hl := by cases hl
  answered c hc := by cases hc

/-- A command that every replica has run has been run by a quorum. -/
theorem ranBy_length (s : Cluster) {c : Command} (h : ∀ j < cfg.getMaxNumClient, c ∈ s.history j) :
    (ranBy cfg s c).length = cfg.getMaxNumClient := by
  have hall : ranBy cfg s c = List.range cfg.getMaxNumClient := by
    refine List.filter_eq_self.mpr fun j hj => ?_
    exact decide_eq_true (h j (List.mem_range.mp hj))
  rw [hall, List.length_range]

/-- A step takes no acknowledgement back. -/
theorem Moves.acked {l : Label} (h : Moves cfg mutating s l s') : s.acked ⊆ s'.acked := by
  cases h with
  | commits _ _ _ => exact List.subset_append_left _ _
  | backsUp _ _ _ _ =>
    rw [Cluster.acked_backUp]
    exact List.Subset.refl _
  | _ => exact List.Subset.refl _

/-- A step that leads to a state with the invariant owes nothing. -/
theorem Moves.durable {l : Label} (h : Moves cfg mutating s l s')
    (hquota : cfg.getConsensusQuota ≤ cfg.getMaxNumClient) (hok : DurableOk cfg mutating s') :
    Durable cfg mutating s s' where
  quorum c hc hm := by
    have hmem : c ∈ s'.acked := by
      rw [hc]
      exact List.mem_append_right _ (List.mem_singleton_self c)
    rw [ranBy_length s' (hok.acked c hmem hm)]
    exact hquota
  promoted r _ hleader c hc hm := by
    refine hok.acked c (h.acked hc) hm r (hok.wired.ranks r fun hnone => ?_)
    unfold Cluster.isLeader at hleader
    rw [hnone] at hleader
    cases hleader

end Invariant

/-! ## The runs that pass over nobody -/

/-- In the runs in which no command passes over a replica, every step is durable. -/
theorem durable_reachable (cfg : Config) (mutating : Str → Bool) (s s' : Cluster) (l : Label)
    (hquota : cfg.getConsensusQuota ≤ cfg.getMaxNumClient)
    (h : (cluster cfg mutating).Reach (Reaching mutating) s) (hl : Reaching mutating s l)
    (hstep : step cfg mutating l s = some s') : Durable cfg mutating s s' := by
  have hok : DurableOk cfg mutating s := by
    refine h.invariant ?_ ?_
    · rintro s rfl
      exact durableOk_initial cfg mutating
    · intro s s' l _ hok hreach hstep
      exact (step_moves hstep).durableOk hok hreach
  have hmoves := step_moves hstep
  exact hmoves.durable hquota (hmoves.durableOk hok hl)

/-- The leader replicates a command and is about to run it itself. -/
def replicates : List Label :=
  firstLeads ++ [.execute 0 ['p'], .replicateCommand 0 .client true,
    .replicateCommand 0 .client true, .serve 1, .resume 0 .client]

theorem durable_replicated :
    ∃ s s', (cluster twoReplicas fun _ => true).exec (Reaching fun _ => true) replicates
      .initial = some s ∧ step twoReplicas (fun _ => true) (.finish 0 .client) s = some s' ∧
        s'.acked = s.acked ++ [⟨0, ['p']⟩] ∧ Durable twoReplicas (fun _ => true) s s' := by
  have hrun : ∃ s s', (cluster twoReplicas fun _ => true).exec (Reaching fun _ => true)
      replicates .initial = some s ∧
        step twoReplicas (fun _ => true) (.finish 0 .client) s = some s' ∧
          s'.acked = s.acked ++ [⟨0, ['p']⟩] := ⟨_, _, rfl, rfl, rfl⟩
  obtain ⟨s, s', hs, hstep, hacked⟩ := hrun
  exact ⟨s, s', hs, hstep, hacked, durable_reachable twoReplicas (fun _ => true) s s'
    (.finish 0 .client) (by decide) (Lts.Reach.exec (.init rfl) hs) trivial hstep⟩

/-- The only leader executes a command while the other replica is down, and goes
    down; the other one starts. -/
def forgets : List Label :=
  [.start 0, .manage 0 false [], .replicateCommand 0 .manager false,
    .replicateCommand 0 .manager false, .finish 0 .manager, .execute 0 ['p'],
    .replicateCommand 0 .client false, .replicateCommand 0 .client false, .finish 0 .client,
    .crash 0, .start 1]

/-- A replica becomes the leader without a command that was acknowledged. -/
theorem not_durable :
    ¬ ∀ s s' l, (cluster twoReplicas fun _ => true).Reach (fun _ _ => True) s →
      step twoReplicas (fun _ => true) l s = some s' →
        Durable twoReplicas (fun _ => true) s s' := by
  intro hall
  have hrun : ∃ s s', (cluster twoReplicas fun _ => true).exec (fun _ _ => True) forgets
      .initial = some s ∧ step twoReplicas (fun _ => true) (.manage 1 false []) s = some s' ∧
        s.isLeader 1 = false ∧ s'.isLeader 1 = true ∧ s.acked = [⟨0, ['p']⟩] ∧
          s'.history 1 = [] := ⟨_, _, rfl, rfl, rfl, rfl, rfl, rfl⟩
  obtain ⟨s, s', hs, hstep, hbefore, hafter, hacked, hhistory⟩ := hrun
  have hdurable := hall s s' (.manage 1 false []) (Lts.Reach.exec (.init rfl) hs) hstep
  have hran : (⟨0, ['p']⟩ : Command) ∈ s'.history 1 :=
    hdurable.promoted 1 hbefore hafter ⟨0, ['p']⟩ (by simp [hacked]) rfl
  rw [hhistory] at hran
  cases hran


end Paxos

end SimpleChubby
