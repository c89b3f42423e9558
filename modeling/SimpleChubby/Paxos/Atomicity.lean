import SimpleChubby.Paxos.Durability

/-!
# Commands that fail

`replicateCommand` calls the other replicas one by one, and each of them runs
the command at once; the leader runs it last. A call that throws ends the loop
and takes nothing back. Beside the replicas a record is kept of the calls that
have been taken and of those that have returned: it tells when a command that
fails has been run by nobody.
-/

namespace SimpleChubby

namespace Paxos

section Statement

variable (cfg : Config) (mutating : Str → Bool)

/-- What has come of the calls that carry a command. -/
structure Attempts where
  /-- The ranks whose call for the command has returned. -/
  returned : Command → List Nat
  /-- The calls that a listener has taken. -/
  served : List Nat

/-- The record after a step. -/
def Attempts.record (s : Cluster) (l : Label) (_ : Cluster) (a : Attempts) : Attempts :=
  match l with
  | .resume rank .client =>
    match s.loop rank .client with
    | some ⟨.command c, i, _⟩ => ⟨Function.update a.returned c (i :: a.returned c), a.served⟩
    | _ => a
  | .serve xid => ⟨a.returned, xid :: a.served⟩
  | _ => a

/-- The replicas, with the record beside them. -/
abbrev Watched : Type := Cluster × Attempts

namespace Watched

/-- The replicas. -/
abbrev cluster (w : Watched) : Cluster := w.1

/-- The replicas whose replies to a command have come back. -/
abbrev returned (w : Watched) : Command → List Nat := w.2.returned

/-- The transaction ids served. -/
abbrev served (w : Watched) : List Nat := w.2.served

/-- Nothing has happened yet. -/
def initial : Watched := (.initial, ⟨fun _ => [], []⟩)

/-- What is watched after a step to `s`. -/
abbrev record (w : Watched) (s : Cluster) (l : Label) : Watched :=
  (s, Attempts.record w.cluster l s w.2)

end Watched

/-- The runs of the replicas, with the record beside them. -/
def watched : Lts Watched Label :=
  (cluster cfg mutating).watch ⟨fun _ => [], []⟩ Attempts.record

theorem watched_initial : (watched cfg mutating).init .initial := ⟨rfl, rfl⟩

/-- No replica has run the command. -/
def NoEffect (s : Cluster) (c : Command) : Prop := ∀ j, c ∉ s.history j

end Statement

/-! ## The record only watches -/

section Record

variable {cfg : Config} {mutating : Str → Bool}

theorem Watched.record_resume (w : Watched) {s : Cluster} {rank i : Nat} {c : Command}
    {call : Option Nat} (h : w.cluster.loop rank .client = some ⟨.command c, i, call⟩) :
    w.record s (.resume rank .client) =
      ⟨s, Function.update w.returned c (i :: w.returned c), w.served⟩ := by
  simp only [Watched.record, Attempts.record, h]

/-- The runs with the record are the runs of the replicas. -/
theorem reach_watched (s : Cluster) :
    (cluster cfg mutating).Reach (fun _ _ => True) s ↔
      ∃ a, (watched cfg mutating).Reach (fun _ _ => True) (s, a) :=
  Lts.reach_watch ⟨fun _ => [], []⟩ Attempts.record

theorem Cluster.setProcess_up {s : Cluster} {rank r : Nat} {p : Process}
    (hr : s.process r ≠ none) : (s.setProcess rank p).process r ≠ none := by
  rw [Cluster.process_setProcess]
  split_ifs
  · exact Option.some_ne_none p
  · exact hr

/-- A process survives the return of a call. -/
theorem resume_up {s s' : Cluster} {rank r : Nat} {t : Thread}
    (h : step cfg mutating (.resume rank t) s = some s') (hr : s.process r ≠ none) :
    s'.process r ≠ none := by
  obtain ⟨p, hp, h⟩ := Option.bind_eq_some_iff.mp h
  unfold resume at h
  split at h
  · split_ifs at h
    cases h
    exact Cluster.setProcess_up hr
  · cases h

/-- A process survives the service of a call. -/
theorem serve_up {s s' : Cluster} {xid r : Nat}
    (h : step cfg mutating (.serve xid) s = some s') (hr : s.process r ≠ none) :
    s'.process r ≠ none := by
  obtain ⟨c, hfind, hserve⟩ := Option.bind_eq_some_iff.mp h
  obtain ⟨p, hp, hserve⟩ := Option.bind_eq_some_iff.mp hserve
  unfold serve at hserve
  split at hserve
  · cases hserve
  · split at hserve
    · cases hserve
      exact Cluster.setProcess_up hr
    · cases hserve
      rw [Cluster.process_backUp]
      exact hr
    · split at hserve
      · cases hserve
        exact hr
      · cases hserve
        exact Cluster.setProcess_up hr

/-- Nothing is recorded of a process that ends. -/
theorem Watched.record_crash {w : Watched} {l : Label} {rank : Nat} {p : Process}
    (hp : w.cluster.process rank = some p)
    (h : step cfg mutating l w.cluster = some (w.cluster.crash rank)) :
    w.record (w.cluster.crash rank) l = ⟨w.cluster.crash rank, w.returned, w.served⟩ := by
  have hup : w.cluster.process rank ≠ none := by
    rw [hp]
    exact Option.some_ne_none p
  have hdown : (w.cluster.crash rank).process rank = none := by simp
  cases l with
  | resume r t => exact absurd hdown (resume_up h hup)
  | serve xid => exact absurd hdown (serve_up h hup)
  | _ => rfl

end Record

/-! ## The commands under way -/

/-- A loop or a call carries the command, or a replica has run it. -/
def Cluster.Knows (s : Cluster) (c : Command) : Prop :=
  (∃ r l, s.loop r .client = some l ∧ l.body = .command c) ∨
    (∃ call ∈ s.calls, call.body = .command c) ∨ ∃ j, c ∈ s.history j

/-- A command has its number to itself, and at most one loop replicates it. -/
structure Numbered (s : Cluster) : Prop where
  issued : ∀ c, s.Knows c → c.number < s.nextNumber
  single : ∀ r r' l l' c, s.loop r .client = some l → s.loop r' .client = some l' →
    l.body = .command c → l'.body = .command c → r = r'

/-- What is enough for a step that issues no command. -/
theorem Numbered.keep {s s' : Cluster} (h : Numbered s) (hnext : s'.nextNumber = s.nextNumber)
    (hloops : ∀ r l', s'.loop r .client = some l' →
      ∃ l, s.loop r .client = some l ∧ l.body = l'.body)
    (hcalls : ∀ call ∈ s'.calls, ∀ c, call.body = .command c → s.Knows c)
    (hran : ∀ j, ∀ c ∈ s'.history j, s.Knows c) : Numbered s' where
  issued c hc := by
    rw [hnext]
    apply h.issued
    rcases hc with ⟨r, l', hl', hb⟩ | ⟨call, hcall, hb⟩ | ⟨j, hj⟩
    · obtain ⟨l, hl, hsame⟩ := hloops r l' hl'
      exact Or.inl ⟨r, l, hl, hsame.trans hb⟩
    · exact hcalls call hcall c hb
    · exact hran j c hj
  single r r' l l' c hl hl' hb hb' := by
    obtain ⟨l₁, hl₁, hsame⟩ := hloops r l hl
    obtain ⟨l₁', hl₁', hsame'⟩ := hloops r' l' hl'
    exact h.single r r' l₁ l₁' c hl₁ hl₁' (hsame.trans hb) (hsame'.trans hb')

/-- The loops of the clients after a step of one of them. -/
theorem Cluster.client_cases {s : Cluster} {rank r : Nat} {p p' : Process} {l₀ : Option Loop}
    {l : Loop} (hp : s.process rank = some p)
    (hloops : p'.loops = (p.setLoop .client l₀).loops)
    (hl : (s.setProcess rank p').loop r .client = some l) :
    r = rank ∧ l₀ = some l ∨ r ≠ rank ∧ s.loop r .client = some l := by
  rw [Cluster.loop_setLoop s rank r .client hp hloops] at hl
  split_ifs at hl with hr
  · exact Or.inl ⟨hr.1, hl⟩
  · exact Or.inr ⟨fun hcon => hr ⟨hcon, rfl⟩, hl⟩

/-! ## The invariant -/

/-- What the calls of a command have come to. While the command is replicated
    every call that carries it is the one its loop waits for, and a replica that
    has run it is one whose call has returned, or the one whose call is taken. -/
structure AttemptOk (cfg : Config) (w : Watched) : Prop where
  wired : Wired cfg w.cluster
  numbered : Numbered w.cluster
  served : ∀ xid ∈ w.served, xid < w.cluster.nextXid
  answered : ∀ call ∈ w.cluster.calls, ∀ c, call.body = .command c →
    call.status.open = false → call.xid ∈ w.served
  own : ∀ r l c, w.cluster.loop r .client = some l → l.body = .command c →
    ∀ call ∈ w.cluster.calls, call.body = .command c → l.call = some call.xid
  ran : ∀ r l c, w.cluster.loop r .client = some l → l.body = .command c →
    ∀ j, c ∈ w.cluster.history j →
      j ∈ w.returned c ∨ j = l.rank ∧ ∃ xid ∈ w.served, l.call = some xid
  returned : ∀ c, ∀ j ∈ w.returned c, c ∈ w.cluster.history j
  delivered : ∀ r l c xid, w.cluster.loop r .client = some l → l.body = .command c →
    l.call = some xid → xid ∈ w.served → c ∈ w.cluster.history l.rank

/-- What a step may change that has nothing to do with a command, except that a
    loop may end. -/
structure Aside (s s' : Cluster) : Prop where
  history : s'.history = s.history
  nextNumber : s'.nextNumber = s.nextNumber
  nextXid : s.nextXid ≤ s'.nextXid
  loops : ∀ r l, s'.loop r .client = some l → s.loop r .client = some l
  calls : ∀ call ∈ s'.calls, ∀ c, call.body = .command c → call ∈ s.calls

section Invariant

variable {cfg : Config} {mutating : Str → Bool} {s s' : Cluster}

theorem AttemptOk.aside {w : Watched} (h : AttemptOk cfg w) (hw : Wired cfg s')
    (hs : Aside w.cluster s') {served : List Nat}
    (hgrow : w.served ⊆ served)
    (hserved : ∀ xid ∈ served, xid ∈ w.served ∨
      ∃ call ∈ w.cluster.calls, call.xid = xid ∧ ∀ c, call.body ≠ .command c) :
    AttemptOk cfg ⟨s', w.returned, served⟩ where
  wired := hw
  numbered := by
    refine h.numbered.keep hs.nextNumber (fun r l hl => ⟨l, hs.loops r l hl, rfl⟩)
      (fun call hcall c hb => ?_) fun j c hc => ?_
    · exact Or.inr (Or.inl ⟨call, hs.calls call hcall c hb, hb⟩)
    · rw [hs.history] at hc
      exact Or.inr (Or.inr ⟨j, hc⟩)
  served xid hxid := by
    refine Nat.lt_of_lt_of_le ?_ hs.nextXid
    rcases hserved xid hxid with hxid | ⟨call, hcall, rfl, _⟩
    · exact h.served xid hxid
    · exact h.wired.fresh call hcall
  answered call hcall c hb hstatus :=
    hgrow (h.answered call (hs.calls call hcall c hb) c hb hstatus)
  own r l c hl hb call hcall hb' :=
    h.own r l c (hs.loops r l hl) hb call (hs.calls call hcall c hb') hb'
  ran r l c hl hb j hj := by
    have hj' : c ∈ s'.history j := hj
    rw [hs.history] at hj'
    rcases h.ran r l c (hs.loops r l hl) hb j hj' with hret | ⟨hrank, xid, hxid, hcall⟩
    · exact Or.inl hret
    · exact Or.inr ⟨hrank, xid, hgrow hxid, hcall⟩
  returned c j hj := by
    show c ∈ s'.history j
    rw [hs.history]
    exact h.returned c j hj
  delivered r l c xid hl hb hcall hxid := by
    show c ∈ s'.history l.rank
    rw [hs.history]
    have hl' := hs.loops r l hl
    rcases hserved xid hxid with hxid | ⟨call, hmem, rfl, hnot⟩
    · exact h.delivered r l c xid hl' hb hcall hxid
    · -- the loop of a command waits for a call that carries it
      have hbody := (h.wired.waits r .client l call.xid hl' hcall).2 call hmem rfl
      exact absurd (hbody.2.trans hb) (hnot c)

theorem Aside.trans {s₁ : Cluster} (h : Aside s s₁) (h' : Aside s₁ s') : Aside s s' where
  history := h'.history.trans h.history
  nextNumber := h'.nextNumber.trans h.nextNumber
  nextXid := Nat.le_trans h.nextXid h'.nextXid
  loops r l hl := h.loops r l (h'.loops r l hl)
  calls call hcall c hb := h.calls call (h'.calls call hcall c hb) c hb

theorem Aside.own {rank : Nat} {p p' : Process} (hp : s.process rank = some p)
    (hloop : ∀ l, p'.loops .client = some l → p.loops .client = some l) :
    Aside s (s.setProcess rank p') where
  history := rfl
  nextNumber := rfl
  nextXid := Nat.le_refl _
  loops r l hl := by
    rw [Cluster.loop_setProcess] at hl
    split_ifs at hl with hr
    · rw [hr, s.loop_eq rank .client hp]
      exact hloop l hl
    · exact hl
  calls _ hcall _ _ := hcall

/-- A thread that carries no command moves on, or ends. -/
theorem Aside.setLoop {rank : Nat} {t : Thread} {l : Option Loop} {p p' : Process}
    (hp : s.process rank = some p) (ht : t ≠ .client ∨ l = none)
    (hloops : p'.loops = (p.setLoop t l).loops) : Aside s (s.setProcess rank p') := by
  refine .own hp fun l' hl' => ?_
  rw [hloops] at hl'
  rcases Process.loops_of_setLoop hl' with hl' | ⟨hclient, hnew⟩
  · exact hl'
  · rcases ht with ht | rfl
    · exact absurd hclient.symm ht
    · cases hnew

theorem Aside.crash (rank : Nat) : Aside s (s.crash rank) where
  history := rfl
  nextNumber := rfl
  nextXid := Nat.le_refl _
  loops r l hl := by
    rw [Cluster.loop_crash] at hl
    split_ifs at hl
    exact hl
  calls _ hcall _ _ := (Cluster.mem_crash.mp hcall).1

theorem Aside.lose (xid : Nat) : Aside s (s.lose xid) where
  history := rfl
  nextNumber := rfl
  nextXid := Nat.le_refl _
  loops _ _ hl := hl
  calls _ hcall _ _ := (Cluster.mem_lose.mp hcall).1

theorem Aside.send {dst : Nat} {body : Body} (hbody : ∀ c, body ≠ .command c) :
    Aside s (s.send dst body) where
  history := rfl
  nextNumber := rfl
  nextXid := Nat.le_succ _
  loops _ _ hl := hl
  calls call hcall c hb := by
    rcases Cluster.mem_send hcall with hcall | ⟨_, rfl⟩
    · exact hcall
    · exact absurd hb (hbody c)

theorem Aside.setStatus {xid : Nat} {status : Status}
    (hbody : ∀ call ∈ s.calls, call.xid = xid → ∀ c, call.body ≠ .command c) :
    Aside s (s.setStatus xid status) where
  history := rfl
  nextNumber := rfl
  nextXid := Nat.le_refl _
  loops _ _ hl := hl
  calls call hcall c hb := by
    obtain ⟨c₀, hc₀, rfl⟩ := Cluster.mem_setStatus.mp hcall
    split_ifs at hb ⊢ with hxid
    · exact absurd hb (hbody c₀ hc₀ hxid c)
    · exact hc₀

theorem OwnBody.notCommand {t : Thread} {body : Body} (h : OwnBody t body) (ht : t ≠ .client)
    (c : Command) : body ≠ .command c := by
  rintro rfl
  cases t with
  | client => exact ht rfl
  | _ => exact h

/-- A step aside, of which nothing is recorded. -/
theorem AttemptOk.unrecorded {w : Watched} (h : AttemptOk cfg w) (hw : Wired cfg s')
    (hs : Aside w.cluster s') : AttemptOk cfg ⟨s', w.returned, w.served⟩ :=
  h.aside hw hs (List.Subset.refl _) fun _ hxid => Or.inl hxid

/-- A replica takes a call that carries no command. -/
theorem AttemptOk.takes {w : Watched} (h : AttemptOk cfg w) (hw : Wired cfg s')
    (hs : Aside w.cluster s') {call : Call} (hcall : call ∈ w.cluster.calls)
    (hbody : ∀ c, call.body ≠ .command c) :
    AttemptOk cfg ⟨s', w.returned, call.xid :: w.served⟩ := by
  refine h.aside hw hs (List.subset_cons_self _ _) fun xid hxid => ?_
  rcases List.mem_cons.mp hxid with rfl | hxid
  · exact Or.inr ⟨call, hcall, rfl, hbody⟩
  · exact Or.inl hxid

/-- The loop of a client goes past a replica it has not called. -/
theorem AttemptOk.passes {w : Watched} {rank i : Nat} {c : Command} {p : Process}
    (h : AttemptOk cfg w) (hp : w.cluster.process rank = some p)
    (hloop : p.loops .client = some ⟨.command c, i, none⟩)
    (hw : Wired cfg (w.cluster.setProcess rank
      (p.setLoop .client (some ⟨.command c, i + 1, none⟩)))) :
    AttemptOk cfg ⟨w.cluster.setProcess rank
      (p.setLoop .client (some ⟨.command c, i + 1, none⟩)), w.returned, w.served⟩ := by
  have hold := (w.cluster.loop_eq rank .client hp).trans hloop
  refine ⟨hw, h.numbered.keep rfl (fun r l hl => ?_)
    (fun call hcall c' hb => Or.inr (Or.inl ⟨call, hcall, hb⟩))
    (fun j c' hc' => Or.inr (Or.inr ⟨j, hc'⟩)), h.served, h.answered,
    fun r l c' hl hb call hcall hb' => ?_, fun r l c' hl hb j hj => ?_, h.returned,
    fun r l c' xid hl hb hcall hxid => ?_⟩
  · rcases Cluster.client_cases hp rfl hl with ⟨rfl, hnew⟩ | ⟨_, hl⟩
    · cases hnew
      exact ⟨_, hold, rfl⟩
    · exact ⟨l, hl, rfl⟩
  · rcases Cluster.client_cases hp rfl hl with ⟨rfl, hnew⟩ | ⟨_, hl⟩
    · cases hnew
      exact absurd (h.own r _ c' hold hb call hcall hb') (by simp)
    · exact h.own r l c' hl hb call hcall hb'
  · rcases Cluster.client_cases hp rfl hl with ⟨rfl, hnew⟩ | ⟨_, hl⟩
    · cases hnew
      rcases h.ran r _ c' hold hb j hj with hret | ⟨_, xid, _, hcall⟩
      · exact Or.inl hret
      · cases hcall
    · exact h.ran r l c' hl hb j hj
  · rcases Cluster.client_cases hp rfl hl with ⟨rfl, hnew⟩ | ⟨_, hl⟩
    · cases hnew
      cases hcall
    · exact h.delivered r l c' xid hl hb hcall hxid

/-- The loop of a client calls a replica. -/
theorem AttemptOk.sends {w : Watched} {rank i : Nat} {c : Command} {p p' : Process}
    (h : AttemptOk cfg w) (hp : w.cluster.process rank = some p)
    (hloop : p.loops .client = some ⟨.command c, i, none⟩)
    (hloops : p'.loops =
      (p.setLoop .client (some ⟨.command c, i, some w.cluster.nextXid⟩)).loops)
    (hw : Wired cfg ((w.cluster.send i (.command c)).setProcess rank p')) :
    AttemptOk cfg ⟨(w.cluster.send i (.command c)).setProcess rank p', w.returned,
      w.served⟩ := by
  have hold := (w.cluster.loop_eq rank .client hp).trans hloop
  have hp₁ : (w.cluster.send i (.command c)).process rank = some p := hp
  refine ⟨hw, h.numbered.keep rfl (fun r l hl => ?_) (fun call hcall c' hb => ?_)
    (fun j c' hc' => Or.inr (Or.inr ⟨j, hc'⟩)),
    fun xid hxid => Nat.lt_succ_of_lt (h.served xid hxid),
    fun call hcall c' hb hstatus => ?_, fun r l c' hl hb call hcall hb' => ?_,
    fun r l c' hl hb j hj => ?_, h.returned, fun r l c' xid hl hb hcall hxid => ?_⟩
  · rcases Cluster.client_cases hp₁ hloops hl with ⟨rfl, hnew⟩ | ⟨_, hl⟩
    · cases hnew
      exact ⟨_, hold, rfl⟩
    · exact ⟨l, hl, rfl⟩
  · rcases Cluster.mem_send hcall with hcall | ⟨_, rfl⟩
    · exact Or.inr (Or.inl ⟨call, hcall, hb⟩)
    · exact Or.inl ⟨rank, _, hold, hb⟩
  · rcases Cluster.mem_send hcall with hcall | ⟨_, rfl⟩
    · exact h.answered call hcall c' hb hstatus
    · cases hstatus
  · rcases Cluster.client_cases hp₁ hloops hl with ⟨rfl, hnew⟩ | ⟨hr, hl⟩
    · cases hnew
      rcases Cluster.mem_send hcall with hcall | ⟨_, rfl⟩
      · exact absurd (h.own r _ c' hold hb call hcall hb') (by simp)
      · rfl
    · rcases Cluster.mem_send hcall with hcall | ⟨_, rfl⟩
      · exact h.own r l c' hl hb call hcall hb'
      · exact absurd (h.numbered.single r rank l _ c' hl hold hb hb') hr
  · rcases Cluster.client_cases hp₁ hloops hl with ⟨rfl, hnew⟩ | ⟨_, hl⟩
    · cases hnew
      rcases h.ran r _ c' hold hb j hj with hret | ⟨_, xid, _, hcall⟩
      · exact Or.inl hret
      · cases hcall
    · exact h.ran r l c' hl hb j hj
  · rcases Cluster.client_cases hp₁ hloops hl with ⟨rfl, hnew⟩ | ⟨_, hl⟩
    · cases hnew
      cases hcall
      -- the number of a new call has not been used
      exact absurd (h.served _ hxid) (Nat.lt_irrefl _)
    · exact h.delivered r l c' xid hl hb hcall hxid

/-- The call of a command returns: the replica has run the command. -/
theorem AttemptOk.resumes {w : Watched} {rank i xid : Nat} {c : Command} {a : Answer}
    {p p' : Process} (h : AttemptOk cfg w) (hp : w.cluster.process rank = some p)
    (hloop : p.loops .client = some ⟨.command c, i, some xid⟩)
    (hanswer : w.cluster.answer xid = some a)
    (hloops : p'.loops = (p.setLoop .client (some ⟨.command c, i + 1, none⟩)).loops)
    (hw : Wired cfg ((w.cluster.lose xid).setProcess rank p')) :
    AttemptOk cfg ⟨(w.cluster.lose xid).setProcess rank p',
      Function.update w.returned c (i :: w.returned c), w.served⟩ := by
  have hold := (w.cluster.loop_eq rank .client hp).trans hloop
  have hp₁ : (w.cluster.lose xid).process rank = some p := hp
  have hgrow : ∀ c' j, j ∈ w.returned c' →
      j ∈ Function.update w.returned c (i :: w.returned c) c' := by
    intro c' j hj
    rw [Function.update_apply]
    split_ifs with hc
    · exact List.mem_cons_of_mem i (hc ▸ hj)
    · exact hj
  have hself : i ∈ Function.update w.returned c (i :: w.returned c) c := by
    rw [Function.update_self]
    exact List.mem_cons_self
  have hdelivered : c ∈ w.cluster.history i := by
    obtain ⟨call, hcall, hxid, hstatus⟩ := Cluster.mem_of_answer hanswer
    obtain ⟨_, hbody⟩ := (h.wired.waits rank .client _ xid hold rfl).2 call hcall hxid
    have hserved := h.answered call hcall c hbody (by rw [hstatus]; rfl)
    rw [hxid] at hserved
    exact h.delivered rank _ c xid hold rfl rfl hserved
  refine ⟨hw, h.numbered.keep rfl (fun r l hl => ?_)
    (fun call hcall c' hb => Or.inr (Or.inl ⟨call, (Cluster.mem_lose.mp hcall).1, hb⟩))
    (fun j c' hc' => Or.inr (Or.inr ⟨j, hc'⟩)), h.served,
    fun call hcall => h.answered call (Cluster.mem_lose.mp hcall).1,
    fun r l c' hl hb call hcall hb' => ?_, fun r l c' hl hb j hj => ?_, fun c' j hj => ?_,
    fun r l c' x hl hb hcall hx => ?_⟩
  · rcases Cluster.client_cases hp₁ hloops hl with ⟨rfl, hnew⟩ | ⟨_, hl⟩
    · cases hnew
      exact ⟨_, hold, rfl⟩
    · exact ⟨l, hl, rfl⟩
  · obtain ⟨hkept, hne⟩ := Cluster.mem_lose.mp hcall
    rcases Cluster.client_cases hp₁ hloops hl with ⟨rfl, hnew⟩ | ⟨_, hl⟩
    · cases hnew
      -- the only call that carried the command has left the network
      exact absurd (Option.some.inj (h.own r _ c' hold hb call hkept hb')).symm hne
    · exact h.own r l c' hl hb call hkept hb'
  · rcases Cluster.client_cases hp₁ hloops hl with ⟨rfl, hnew⟩ | ⟨_, hl⟩
    · cases hnew
      cases hb
      rcases h.ran r _ c hold rfl j hj with hret | ⟨rfl, _⟩
      · exact Or.inl (hgrow c j hret)
      · exact Or.inl hself
    · rcases h.ran r l c' hl hb j hj with hret | hright
      · exact Or.inl (hgrow c' j hret)
      · exact Or.inr hright
  · replace hj : j ∈ Function.update w.returned c (i :: w.returned c) c' := hj
    by_cases hc : c' = c
    · subst hc
      have hj' : j ∈ i :: w.returned c' := by
        simpa only [Function.update_self] using hj
      rcases List.mem_cons.mp hj' with rfl | hj'
      · exact hdelivered
      · exact h.returned c' j hj'
    · have hj' : j ∈ w.returned c' := by
        simpa only [Function.update_of_ne hc] using hj
      exact h.returned c' j hj'
  · rcases Cluster.client_cases hp₁ hloops hl with ⟨rfl, hnew⟩ | ⟨_, hl⟩
    · cases hnew
      cases hcall
    · exact h.delivered r l c' x hl hb hcall hx

/-- The leader runs the command and its loop ends. -/
theorem AttemptOk.commits {w : Watched} {rank i : Nat} {c : Command} {p : Process}
    (h : AttemptOk cfg w) (hp : w.cluster.process rank = some p)
    (hloop : p.loops .client = some ⟨.command c, i, none⟩)
    (hw : Wired cfg { (w.cluster.backUp rank mutating c).setProcess rank
      (p.setLoop .client none) with acked := w.cluster.acked ++ [c] })
    (hm : mutating c.request = true) :
    AttemptOk cfg ⟨{ (w.cluster.backUp rank mutating c).setProcess rank
      (p.setLoop .client none) with acked := w.cluster.acked ++ [c] },
        w.returned, w.served⟩ := by
  have hold := (w.cluster.loop_eq rank .client hp).trans hloop
  have hp₁ : (w.cluster.backUp rank mutating c).process rank = some p := by
    rw [Cluster.process_backUp]
    exact hp
  have hgrow : ∀ j, w.cluster.history j ⊆ (w.cluster.backUp rank mutating c).history j :=
    fun j => w.cluster.subset_backUp rank j
  have hother : ∀ r l, ((w.cluster.backUp rank mutating c).setProcess rank
      (p.setLoop .client none)).loop r .client = some l →
        r ≠ rank ∧ w.cluster.loop r .client = some l := by
    intro r l hl
    rcases Cluster.client_cases hp₁ rfl hl with ⟨_, hnew⟩ | ⟨hr, hl⟩
    · cases hnew
    · unfold Cluster.loop at hl
      rw [Cluster.process_backUp] at hl
      exact ⟨hr, hl⟩
  have hran : ∀ j c', c' ∈ (w.cluster.backUp rank mutating c).history j →
      c' ∈ w.cluster.history j ∨ c' = c := by
    intro j c' hc'
    rw [Cluster.history_backUp _ _ _ hm] at hc'
    split_ifs at hc' with hj
    · rcases List.mem_append.mp hc' with hc' | hc'
      · exact Or.inl (hj ▸ hc')
      · exact Or.inr (List.mem_singleton.mp hc')
    · exact Or.inl hc'
  have hcalls : ∀ call, call ∈ (w.cluster.backUp rank mutating c).calls →
      call ∈ w.cluster.calls := by
    intro call hcall
    rwa [Cluster.calls_backUp] at hcall
  refine ⟨hw, h.numbered.keep ?_ (fun r l hl => ⟨l, (hother r l hl).2, rfl⟩)
    (fun call hcall c' hb => Or.inr (Or.inl ⟨call, hcalls call hcall, hb⟩))
    (fun j c' hc' => ?_), fun xid hxid => ?_, fun call hcall => h.answered call (hcalls call hcall),
    fun r l c' hl hb call hcall => h.own r l c' (hother r l hl).2 hb call (hcalls call hcall),
    fun r l c' hl hb j hj => ?_, fun c' j hj => hgrow j (h.returned c' j hj),
    fun r l c' xid hl hb hcall hxid =>
      hgrow _ (h.delivered r l c' xid (hother r l hl).2 hb hcall hxid)⟩
  · exact w.cluster.nextNumber_backUp rank
  · rcases hran j c' hc' with hc' | rfl
    · exact Or.inr (Or.inr ⟨j, hc'⟩)
    · exact Or.inl ⟨rank, _, hold, rfl⟩
  · show xid < (w.cluster.backUp rank mutating c).nextXid
    rw [Cluster.nextXid_backUp]
    exact h.served xid hxid
  · obtain ⟨hr, hkept⟩ := hother r l hl
    rcases hran j c' hj with hj | rfl
    · exact h.ran r l c' hkept hb j hj
    · -- no other loop replicates the command
      exact absurd (h.numbered.single r rank l _ c' hkept hold hb rfl) hr

/-- A replica takes a call and runs the command it carries. -/
theorem AttemptOk.backsUp {w : Watched} {call : Call} {command : Command}
    (h : AttemptOk cfg w) (hmem : call ∈ w.cluster.calls) (hbody : call.body = .command command)
    (hw : Wired cfg ((w.cluster.setStatus call.xid (.answered .replicated)).backUp call.dst
      mutating command)) (hm : mutating command.request = true) :
    AttemptOk cfg ⟨(w.cluster.setStatus call.xid (.answered .replicated)).backUp call.dst
      mutating command, w.returned, call.xid :: w.served⟩ := by
  have hloops : ∀ r l, ((w.cluster.setStatus call.xid (.answered .replicated)).backUp call.dst
      mutating command).loop r .client = some l → w.cluster.loop r .client = some l := by
    intro r l hl
    unfold Cluster.loop at hl
    rw [Cluster.process_backUp] at hl
    exact hl
  have hgrow : ∀ j, w.cluster.history j ⊆ ((w.cluster.setStatus call.xid
      (.answered .replicated)).backUp call.dst mutating command).history j :=
    fun j => (w.cluster.setStatus call.xid (.answered .replicated)).subset_backUp call.dst j
  have hran : ∀ j c', c' ∈ ((w.cluster.setStatus call.xid (.answered .replicated)).backUp
      call.dst mutating command).history j →
        c' ∈ w.cluster.history j ∨ j = call.dst ∧ c' = command := by
    intro j c' hc'
    rw [Cluster.history_backUp _ _ _ hm] at hc'
    split_ifs at hc' with hj
    · rcases List.mem_append.mp hc' with hc' | hc'
      · exact Or.inl (hj ▸ hc')
      · exact Or.inr ⟨hj, List.mem_singleton.mp hc'⟩
    · exact Or.inl hc'
  have hcalls : ∀ call', call' ∈ ((w.cluster.setStatus call.xid (.answered .replicated)).backUp
      call.dst mutating command).calls → ∃ c₀ ∈ w.cluster.calls, c₀.xid = call'.xid ∧
        c₀.body = call'.body ∧ (c₀.xid = call.xid ∨ call' = c₀) := by
    intro call' hcall'
    rw [Cluster.calls_backUp] at hcall'
    obtain ⟨c₀, hc₀, rfl⟩ := Cluster.mem_setStatus.mp hcall'
    refine ⟨c₀, hc₀, ?_⟩
    split_ifs with hxid
    · exact ⟨rfl, rfl, Or.inl hxid⟩
    · exact ⟨rfl, rfl, Or.inr rfl⟩
  refine ⟨hw, h.numbered.keep ?_ (fun r l hl => ⟨l, hloops r l hl, rfl⟩)
    (fun call' hcall' c' hb => ?_) (fun j c' hc' => ?_), fun xid hxid => ?_,
    fun call' hcall' c' hb hstatus => ?_, fun r l c' hl hb call' hcall' hb' => ?_,
    fun r l c' hl hb j hj => ?_, fun c' j hj => hgrow j (h.returned c' j hj),
    fun r l c' xid hl hb hcall hxid => ?_⟩
  · exact Cluster.nextNumber_backUp _ call.dst
  · obtain ⟨c₀, hc₀, _, hsame, _⟩ := hcalls call' hcall'
    exact Or.inr (Or.inl ⟨c₀, hc₀, hsame.trans hb⟩)
  · rcases hran j c' hc' with hc' | ⟨_, rfl⟩
    · exact Or.inr (Or.inr ⟨j, hc'⟩)
    · exact Or.inr (Or.inl ⟨call, hmem, hbody⟩)
  · show xid < (Cluster.backUp _ call.dst mutating command).nextXid
    rw [Cluster.nextXid_backUp]
    rcases List.mem_cons.mp hxid with rfl | hxid
    · exact h.wired.fresh call hmem
    · exact h.served xid hxid
  · obtain ⟨c₀, hc₀, hsame, _, hxid | rfl⟩ := hcalls call' hcall'
    · rw [← hsame, hxid]
      exact List.mem_cons_self
    · exact List.mem_cons_of_mem _ (h.answered call' hc₀ c' hb hstatus)
  · obtain ⟨c₀, hc₀, hsame, hsame', _⟩ := hcalls call' hcall'
    rw [← hsame]
    exact h.own r l c' (hloops r l hl) hb c₀ hc₀ (hsame'.trans hb')
  · rcases hran j c' hj with hj | ⟨rfl, rfl⟩
    · rcases h.ran r l c' (hloops r l hl) hb j hj with hret | ⟨hrank, xid, hxid, hcall⟩
      · exact Or.inl hret
      · exact Or.inr ⟨hrank, xid, List.mem_cons_of_mem _ hxid, hcall⟩
    · -- the call is the one the loop waits for
      have hown := h.own r l c' (hloops r l hl) hb call hmem hbody
      have hawaits := h.wired.waits r .client l call.xid (hloops r l hl) hown
      exact Or.inr ⟨(hawaits.2 call hmem rfl).1, call.xid, List.mem_cons_self, hown⟩
  · rcases List.mem_cons.mp hxid with rfl | hxid
    · have hawaits := h.wired.waits r .client l call.xid (hloops r l hl) hcall
      obtain ⟨hdst, hsame⟩ := hawaits.2 call hmem rfl
      obtain rfl : command = c' := by
        have hcommand := hbody.symm.trans (hsame.trans hb)
        cases hcommand
        rfl
      show command ∈ Cluster.history (Cluster.backUp _ call.dst mutating command) l.rank
      rw [Cluster.history_backUp _ _ _ hm, if_pos hdst.symm]
      exact List.mem_append_right _ (List.mem_singleton_self command)
    · exact hgrow _ (h.delivered r l c' xid (hloops r l hl) hb hcall hxid)

/-- A client issues a command: nobody knows it yet. -/
theorem AttemptOk.executes {w : Watched} {rank : Nat} {request : Str} {p : Process}
    (h : AttemptOk cfg w) (hp : w.cluster.process rank = some p)
    (hw : Wired cfg { w.cluster.setProcess rank
        (p.setLoop .client (some ⟨.command ⟨w.cluster.nextNumber, request⟩, 0, none⟩)) with
      nextNumber := w.cluster.nextNumber + 1 }) :
    AttemptOk cfg ⟨{ w.cluster.setProcess rank
        (p.setLoop .client (some ⟨.command ⟨w.cluster.nextNumber, request⟩, 0, none⟩)) with
      nextNumber := w.cluster.nextNumber + 1 }, w.returned, w.served⟩ := by
  have hnew : ¬ w.cluster.Knows ⟨w.cluster.nextNumber, request⟩ :=
    fun hknows => Nat.lt_irrefl _ (h.numbered.issued _ hknows)
  have hcases : ∀ r l, (w.cluster.setProcess rank (p.setLoop .client
      (some ⟨.command ⟨w.cluster.nextNumber, request⟩, 0, none⟩))).loop r .client = some l →
        (r = rank ∧ l = ⟨.command ⟨w.cluster.nextNumber, request⟩, 0, none⟩) ∨
          w.cluster.loop r .client = some l := by
    intro r l hl
    rcases Cluster.client_cases hp rfl hl with ⟨hr, hl⟩ | ⟨_, hl⟩
    · exact Or.inl ⟨hr, (Option.some.inj hl).symm⟩
    · exact Or.inr hl
  refine ⟨hw, ⟨fun c hc => ?_, fun r r' l l' c hl hl' hb hb' => ?_⟩, h.served, h.answered,
    fun r l c hl hb call hcall hb' => ?_, fun r l c hl hb j hj => ?_, h.returned,
    fun r l c xid hl hb hcall hxid => ?_⟩
  · rcases hc with ⟨r, l, hl, hb⟩ | hc
    · rcases hcases r l hl with ⟨_, rfl⟩ | hl
      · cases hb
        exact Nat.lt_succ_self _
      · exact Nat.lt_succ_of_lt (h.numbered.issued c (Or.inl ⟨r, l, hl, hb⟩))
    · exact Nat.lt_succ_of_lt (h.numbered.issued c (Or.inr hc))
  · rcases hcases r l hl with ⟨rfl, rfl⟩ | hkept
    · rcases hcases r' l' hl' with ⟨rfl, rfl⟩ | hkept'
      · rfl
      · cases hb
        exact absurd (Or.inl ⟨r', l', hkept', hb'⟩) hnew
    · rcases hcases r' l' hl' with ⟨rfl, rfl⟩ | hkept'
      · cases hb'
        exact absurd (Or.inl ⟨r, l, hkept, hb⟩) hnew
      · exact h.numbered.single r r' l l' c hkept hkept' hb hb'
  · rcases hcases r l hl with ⟨rfl, rfl⟩ | hl
    · cases hb
      exact absurd (Or.inr (Or.inl ⟨call, hcall, hb'⟩)) hnew
    · exact h.own r l c hl hb call hcall hb'
  · rcases hcases r l hl with ⟨rfl, rfl⟩ | hl
    · cases hb
      exact absurd (Or.inr (Or.inr ⟨j, hj⟩)) hnew
    · exact h.ran r l c hl hb j hj
  · rcases hcases r l hl with ⟨rfl, rfl⟩ | hl
    · cases hcall
    · exact h.delivered r l c xid hl hb hcall hxid

/-- A step of the replicas keeps the invariant, with what is recorded of it. -/
theorem Moves.attemptOk {w : Watched} {l : Label} (h : Moves cfg mutating w.cluster l s')
    (hstep : step cfg mutating l w.cluster = some s') (hok : AttemptOk cfg w)
    (hm : ∀ request, mutating request = true) : AttemptOk cfg (w.record s' l) := by
  have hw := h.wired hok.wired
  cases h with
  | start _ _ =>
    refine hok.unrecorded hw ⟨rfl, rfl, Nat.le_refl _, fun r l hl => ?_, fun _ hc _ _ => hc⟩
    rw [Cluster.loop_setProcess] at hl
    split_ifs at hl
    · cases hl
    · exact hl
  | crash hp =>
    rw [Watched.record_crash hp hstep]
    exact hok.unrecorded hw (.crash _)
  | waits hp _ => exact hok.unrecorded hw (.own hp fun _ hl => hl)
  | leads hp _ _ _ => exact hok.unrecorded hw (.setLoop hp (Or.inl (by simp)) rfl)
  | chooses hp => exact hok.unrecorded hw (.own hp fun _ hl => hl)
  | notifies hp _ =>
    exact hok.unrecorded hw (Aside.trans (.send (by simp)) (.own hp fun _ hl => hl))
  | notified hp _ _ =>
    exact hok.unrecorded hw (Aside.trans (.lose _) (.own hp fun _ hl => hl))
  | @passes rank i t up body p hp hloop _ _ =>
    cases t with
    | client =>
      have hbody := hok.wired.bodies rank .client _ ((w.cluster.loop_eq rank .client hp).trans
        hloop)
      cases body with
      | command c => exact hok.passes hp hloop hw
      | initView => cases hbody
      | newView view => cases hbody
    | _ => exact hok.unrecorded hw (.setLoop hp (Or.inl (by simp)) rfl)
  | @sends rank i t body p hp hloop _ _ =>
    have hbody := hok.wired.bodies rank t _ ((w.cluster.loop_eq rank t hp).trans hloop)
    cases t with
    | client =>
      cases body with
      | command c => exact hok.sends hp hloop rfl hw
      | initView => cases hbody
      | newView view => cases hbody
    | _ =>
      have hsend : Aside w.cluster (w.cluster.send i body) :=
        .send (hbody.notCommand (by simp))
      exact hok.unrecorded hw (hsend.trans (.setLoop hp (Or.inl (by simp)) rfl))
  | @resumes rank i xid t body a p hp hloop hanswer =>
    have hold := (w.cluster.loop_eq rank t hp).trans hloop
    have hbody := hok.wired.bodies rank t _ hold
    cases t with
    | client =>
      cases body with
      | command c =>
        rw [w.record_resume hold]
        exact hok.resumes hp hloop hanswer rfl hw
      | initView => cases hbody
      | newView view => cases hbody
    | _ => exact hok.unrecorded hw (Aside.trans (.lose _) (.setLoop hp (Or.inl (by simp)) rfl))
  | @abandons rank xid p hp hserving =>
    have hawaits := hok.wired.serves rank xid ((w.cluster.serving_eq rank hp).trans hserving)
    exact hok.unrecorded hw (Aside.trans (.setStatus (hawaits.notCommand (by simp)))
      (.setLoop hp (Or.inr rfl) rfl))
  | throws hp => exact hok.unrecorded hw (.setLoop hp (Or.inr rfl) rfl)
  | initializes hp _ _ =>
    exact hok.unrecorded hw (.setLoop hp (Or.inr rfl) rfl)
  | @promoted rank i xid body p hp hserving _ _ =>
    have hawaits := hok.wired.serves rank xid ((w.cluster.serving_eq rank hp).trans hserving)
    exact hok.unrecorded hw (Aside.trans (.setStatus (hawaits.notCommand (by simp)))
      (.setLoop hp (Or.inr rfl) rfl))
  | commits hp hloop _ => exact hok.commits hp hloop hw (hm _)
  | follows hc _ hp hbody =>
    have hnot := (hok.wired.awaits hc).notCommand (by simp [hbody])
    exact hok.takes hw (Aside.trans (.setStatus hnot) (.own hp fun _ hl => hl)) hc
      (by simp [hbody])
  | backsUp hc _ _ hbody => exact hok.backsUp hc hbody hw (hm _)
  | refuses hc _ _ _ hbody _ =>
    have hnot := (hok.wired.awaits hc).notCommand (by simp [hbody])
    exact hok.takes hw (.setStatus hnot) hc (by simp [hbody])
  | @accepts c p hc _ hp _ hbody _ =>
    have hnot := (hok.wired.awaits hc).notCommand (by simp [hbody])
    exact hok.takes hw (Aside.trans (.setStatus hnot)
      (.setLoop hp (Or.inl (by simp)) rfl)) hc (by simp [hbody])
  | loses => exact hok.unrecorded hw (.lose _)
  | declines _ _ => exact hok.unrecorded hw ⟨rfl, rfl, Nat.le_refl _, fun _ _ hl => hl,
      fun _ hc _ _ => hc⟩
  | executes hp _ _ => exact hok.executes hp hw

theorem attemptOk_initial (cfg : Config) : AttemptOk cfg .initial where
  wired := wired_initial
  numbered := by
    refine ⟨fun c hc => ?_, fun r r' l l' c hl => by cases hl⟩
    rcases hc with ⟨r, l, hl, _⟩ | ⟨call, hcall, _⟩ | ⟨j, hj⟩
    · cases hl
    · cases hcall
    · cases hj
  served xid hxid := by cases hxid
  answered call hcall := by cases hcall
  own r l c hl := by cases hl
  ran r l c hl := by cases hl
  returned c j hj := by cases hj
  delivered r l c xid hl := by cases hl

theorem attemptOk_reachable {w : Watched}
    (h : (watched cfg fun _ => true).Reach (fun _ _ => True) w) : AttemptOk cfg w := by
  refine h.invariant ?_ ?_
  · rintro ⟨s, a⟩ ⟨hs, ha⟩
    obtain rfl := hs
    obtain rfl := ha
    exact attemptOk_initial cfg
  · intro w w' l _ hok _ hstep
    obtain ⟨s', hs', rfl⟩ := Option.map_eq_some_iff.mp hstep
    exact (step_moves hs').attemptOk hs' hok fun _ => rfl

/-- What is left when a call of a client's loop throws. -/
theorem fail_history {r : Nat} (h : step cfg mutating (.fail r .client) s = some s') :
    s'.history = s.history := by
  obtain ⟨p, hp, h⟩ := Option.bind_eq_some_iff.mp h
  simp only [fail] at h
  split at h
  · cases h
    rfl
  · cases h

end Invariant

/-! ## When a command fails -/

/-- A command that fails has been run by nobody exactly when none of its calls
    has returned and the call that throws has not been taken. -/
theorem noEffect_reachable (cfg : Config) (w : Watched) (s' : Cluster) (r i xid : Nat)
    (c : Command) (h : (watched cfg fun _ => true).Reach (fun _ _ => True) w)
    (hloop : w.cluster.loop r .client = some ⟨.command c, i, some xid⟩)
    (hfail : step cfg (fun _ => true) (.fail r .client) w.cluster = some s') :
    NoEffect s' c ↔ w.returned c = [] ∧ xid ∉ w.served := by
  have hok := attemptOk_reachable h
  unfold NoEffect
  rw [fail_history hfail]
  constructor
  · intro hnone
    refine ⟨List.eq_nil_iff_forall_not_mem.mpr fun j hj => ?_, fun hserved => ?_⟩
    · exact hnone j (hok.returned c j hj)
    · exact hnone i (hok.delivered r _ c xid hloop rfl rfl hserved)
  · rintro ⟨hreturned, hserved⟩ j hj
    rcases hok.ran r _ c hloop rfl j hj with hj | ⟨_, x, hx, hcall⟩
    · rw [hreturned] at hj
      cases hj
    · cases hcall
      exact hserved hx

/-- The leader calls the other replica for its first command. -/
def callsOut : List Label :=
  firstLeads ++ [.execute 0 ['p'], .replicateCommand 0 .client true,
    .replicateCommand 0 .client true]

theorem noEffect_untaken :
    ∃ w s', (watched twoReplicas fun _ => true).exec (fun _ _ => True) callsOut .initial =
      some w ∧ step twoReplicas (fun _ => true) (.fail 0 .client) w.cluster = some s' ∧
        NoEffect s' ⟨0, ['p']⟩ := by
  have hrun : ∃ w s', (watched twoReplicas fun _ => true).exec (fun _ _ => True) callsOut
      .initial = some w ∧ step twoReplicas (fun _ => true) (.fail 0 .client) w.cluster = some s' ∧
        w.cluster.loop 0 .client = some ⟨.command ⟨0, ['p']⟩, 1, some 1⟩ ∧
          w.returned ⟨0, ['p']⟩ = [] ∧ w.served = [0] := ⟨_, _, rfl, rfl, rfl, rfl, rfl⟩
  obtain ⟨w, s', hw, hfail, hloop, hreturned, hserved⟩ := hrun
  refine ⟨w, s', hw, hfail, (noEffect_reachable twoReplicas w s' 0 1 1 ⟨0, ['p']⟩
    (Lts.Reach.exec (.init (watched_initial _ _)) hw) hloop hfail).mpr ⟨hreturned, ?_⟩⟩
  rw [hserved]
  decide

/-- The other replica has run the command when the call to it throws. -/
theorem not_noEffect :
    ¬ ∀ s s' r i xid c, (cluster twoReplicas fun _ => true).Reach (fun _ _ => True) s →
      s.loop r .client = some ⟨.command c, i, some xid⟩ →
        step twoReplicas (fun _ => true) (.fail r .client) s = some s' → NoEffect s' c := by
  intro hall
  have hrun : ∃ s s', (cluster twoReplicas fun _ => true).exec (fun _ _ => True)
      (callsOut ++ [.serve 1]) .initial = some s ∧
        step twoReplicas (fun _ => true) (.fail 0 .client) s = some s' ∧
          s.loop 0 .client = some ⟨.command ⟨0, ['p']⟩, 1, some 1⟩ ∧
            s'.history 1 = [⟨0, ['p']⟩] := ⟨_, _, rfl, rfl, rfl, rfl⟩
  obtain ⟨s, s', hs, hfail, hloop, hran⟩ := hrun
  have hnone := hall s s' 0 1 1 ⟨0, ['p']⟩ (Lts.Reach.exec (.init rfl) hs) hloop hfail 1
  rw [hran] at hnone
  exact hnone (List.mem_singleton_self _)

end Paxos

end SimpleChubby
