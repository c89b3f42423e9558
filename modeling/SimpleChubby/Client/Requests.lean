import Mathlib.Data.Multiset.AddSub
import Mathlib.Data.Multiset.ZeroCons
import Mathlib.Data.Multiset.UnionInter
import SimpleChubby.Client.ChubbyClient

/-!
# Requests and their replies

What the threads of a client do to its requests, without the rest: which call
has the lock, which replies are still to come, and what has been written on
which connection. The bookkeeping of the requests is kept by every step the
client can take, as long as recovery writes again the request that is owed to
the new connection, and no other.
-/

namespace SimpleChubby

namespace Client

/-! ## The requests of a client -/

/-- What concerns the requests. `ahead` are the numbers of the replies the current
    connection will bring, and `ready` says that no recovery is under way. -/
structure Core where
  holder : Option Phase
  sync : Option Call
  ready : Bool
  conn : Nat
  ahead : Multiset (Nat × Xid)
  queue : List Answer
  serial : Nat
  written : List (Nat × Call)
  delivered : List (Nat × Answer)
  done : List Done

/-- The request that is owed to the current connection: it has been written, but
    not here, and has no reply. -/
def Core.owed (k : Core) : Option Call :=
  match k.holder with
  | some (.waiting c) =>
    if (k.conn, c) ∈ k.written ∨ ∃ a ∈ k.queue, a.serial = c.serial then none else some c
  | _ => none

/-- A request that is known: it has been written, or its call holds the lock. -/
def Core.Known (k : Core) (c : Call) : Prop :=
  (∃ n, (n, c) ∈ k.written) ∨ ∃ p, k.holder = some p ∧ p.call = c

/-- Whether the call is still to be written. -/
def Phase.unwritten : Phase → Bool
  | .prepared _ => true
  | .stored _ => true
  | _ => false

/-- The reply the call has been given. -/
def Phase.answer : Phase → Option Answer
  | .received _ a => some a
  | .unpacked _ a _ => some a
  | _ => none

/-- An `invoke` that returns has its own reply, and none throws on a foreign one. -/
def Done.Proper : Done → Prop
  | .returned c a => a.ids = c.ids
  | .unexpectedXid _ _ => False
  | .threw _ => True

/-- The serial numbers of the replies that are still to be taken. -/
def Core.open (k : Core) : Multiset Nat :=
  k.ahead.map Prod.fst + Multiset.ofList (k.queue.map Answer.serial)

/-- A request put on the connection will have its reply, if the connection stands. -/
def Sends (ahead ahead' : Multiset (Nat × Xid)) (c : Call) : Prop :=
  ahead' = ahead ∨ ahead' = c.ids ::ₘ ahead

/-- What a step does to the requests. -/
inductive Core.Step (k : Core) : Core → Prop
  | still : Core.Step k k
  | prepares {c : Call} : k.holder = none → c.serial = k.serial →
      (∀ q, k.sync = some q → c.xid ≠ q.xid) →
      Core.Step k { k with holder := some (.prepared c), serial := k.serial + 1 }
  | stores {c : Call} : k.holder = some (.prepared c) →
      Core.Step k { k with holder := some (.stored c) }
  | writes {c : Call} {ahead : Multiset (Nat × Xid)} : k.holder = some (.stored c) →
      Sends k.ahead ahead c →
      Core.Step k { k with
        holder := some (.waiting c)
        ahead := ahead
        written := k.written ++ [(k.conn, c)] }
  | receives {c : Call} {a : Answer} {rest : List Answer} : k.holder = some (.waiting c) →
      k.queue = a :: rest → Core.Step k { k with holder := some (.received c a), queue := rest }
  | unpacks {c : Call} {a : Answer} {r : Reply} : k.holder = some (.received c a) →
      Core.Step k { k with holder := some (.unpacked c a r) }
  | leaves {p : Phase} {d : Done} : k.holder = some p → (∀ c, p ≠ .waiting c) → d.Proper →
      Core.Step k { k with holder := none, done := k.done ++ [d] }
  | delivers {a : Answer} {ahead : Multiset (Nat × Xid)} : k.sync = none →
      k.ahead = a.ids ::ₘ ahead →
      Core.Step k { k with
        ahead := ahead
        queue := k.queue ++ [a]
        delivered := k.delivered ++ [(k.conn, a)] }
  /-- What the connection was to bring is lost, and perhaps the call of the poll thread. -/
  | clears {sync : Option Call} {ready : Bool} {n : Nat} : sync = k.sync ∨ sync = none →
      (ready = true → k.ready = true) → k.serial ≤ n →
      Core.Step k { k with sync := sync, ready := ready, ahead := 0, serial := n }
  | slows : Core.Step k { k with ready := false }
  | connects : Core.Step k { k with sync := none, ready := false, conn := k.conn + 1, ahead := 0 }
  | calls {q : Call} {ahead : Multiset (Nat × Xid)} : k.sync = none → k.ready = false →
      q.serial = k.serial → (∀ p, k.holder = some p → p.call.xid ≠ q.xid) →
      Sends k.ahead ahead q →
      Core.Step k { k with
        sync := some q
        ahead := ahead
        serial := k.serial + 1
        written := k.written ++ [(k.conn, q)] }
  | hears {q : Call} {x : Nat × Xid} {ahead : Multiset (Nat × Xid)} : k.sync = some q →
      k.ahead = x ::ₘ ahead → x.2 = q.xid →
      Core.Step k { k with sync := none, ahead := ahead }
  | resumes : k.owed = none → Core.Step k { k with ready := true }
  | resends {c : Call} {ahead : Multiset (Nat × Xid)} : k.owed = some c →
      Sends k.ahead ahead c →
      Core.Step k { k with
        ready := true
        ahead := ahead
        written := k.written ++ [(k.conn, c)] }

/-! ## The invariant -/

/-- The bookkeeping of the requests. -/
structure Core.Ok (k : Core) : Prop where
  below : ∀ c, k.Known c → c.serial < k.serial
  same : ∀ c c', k.Known c → k.Known c' → c.serial = c'.serial → c = c'
  conns : ∀ w ∈ k.written, w.1 ≤ k.conn
  calls : ∀ q, k.sync = some q → (k.conn, q) ∈ k.written
  apart : ∀ p q, k.holder = some p → k.sync = some q →
    p.call.serial ≠ q.serial ∧ p.call.xid ≠ q.xid
  nodup : k.open.Nodup
  whose : ∀ x ∈ k.ahead, (∃ q, k.sync = some q ∧ x = q.ids) ∨
    ∃ c, k.holder = some (.waiting c) ∧ x = c.ids
  shown : ∀ x ∈ k.ahead, ∃ c, (k.conn, c) ∈ k.written ∧ x = c.ids
  queued : ∀ a ∈ k.queue, ∃ c, k.holder = some (.waiting c) ∧ a.ids = c.ids
  unwritten : ∀ p, k.holder = some p → p.unwritten = true → ∀ n, (n, p.call) ∉ k.written
  once : ∀ c, k.holder = some (.waiting c) → k.written.count (k.conn, c) ≤ 1
  ready : k.ready = true → ∀ c, k.holder = some (.waiting c) →
    (∀ a ∈ k.queue, a.serial ≠ c.serial) → (k.conn, c) ∈ k.written
  received : ∀ p a, k.holder = some p → p.answer = some a → a.ids = p.call.ids
  origin : ∀ d ∈ k.delivered, ∃ n c, (n, c) ∈ k.written ∧ d.2.ids = c.ids
  last : ∀ d ∈ k.delivered, ∀ w ∈ k.written, w.2.serial = d.2.serial → w.1 ≤ d.1
  arrived : ∀ d ∈ k.delivered, ∀ c, k.holder = some (.waiting c) → d.2.serial = c.serial →
    d.2 ∈ k.queue
  ended : ∀ d ∈ k.done, d.Proper

section Invariant

variable {k k' : Core} {c : Call} {ahead : Multiset (Nat × Xid)}

theorem Sends.mem (h : Sends k.ahead ahead c) {x : Nat × Xid} (hx : x ∈ ahead) :
    x ∈ k.ahead ∨ x = c.ids := by
  rcases h with rfl | rfl
  · exact Or.inl hx
  · exact (Multiset.mem_cons.mp hx).symm

theorem Sends.nodup (h : Sends k.ahead ahead c) (hk : k.open.Nodup) (hc : c.serial ∉ k.open) :
    (ahead.map Prod.fst + Multiset.ofList (k.queue.map Answer.serial)).Nodup := by
  rcases h with rfl | rfl
  · exact hk
  · rw [Multiset.map_cons, Multiset.cons_add]
    exact Multiset.nodup_cons.mpr ⟨hc, hk⟩

theorem Core.mem_open {n : Nat} :
    n ∈ k.open ↔ (∃ x ∈ k.ahead, x.1 = n) ∨ ∃ a ∈ k.queue, a.serial = n := by
  simp only [Core.open, Multiset.mem_add, Multiset.mem_map, Multiset.mem_coe, List.mem_map]

theorem Core.owed_eq_some (howed : k.owed = some c) : k.holder = some (.waiting c) ∧
    (k.conn, c) ∉ k.written ∧ ∀ a ∈ k.queue, a.serial ≠ c.serial := by
  unfold Core.owed at howed
  split at howed
  · next c' hholder =>
    split_ifs at howed with hno
    obtain rfl := Option.some.inj howed
    rw [not_or, not_exists] at hno
    exact ⟨hholder, hno.1, fun a ha hserial => hno.2 a ⟨ha, hserial⟩⟩
  · cases howed

namespace Core.Ok

theorem known_holder {p : Phase} (hp : k.holder = some p) : k.Known p.call :=
  Or.inr ⟨p, hp, rfl⟩

/-- While no call waits, the replies to come are those of the poll thread. -/
theorem whose_sync (h : k.Ok) (hp : ∀ c, k.holder ≠ some (.waiting c)) {x : Nat × Xid}
    (hx : x ∈ k.ahead) : ∃ q, k.sync = some q ∧ x = q.ids := by
  rcases h.whose x hx with hq | ⟨c, hc, _⟩
  · exact hq
  · exact absurd hc (hp c)

theorem queue_nil (h : k.Ok) (hp : ∀ c, k.holder ≠ some (.waiting c)) : k.queue = [] := by
  refine List.eq_nil_iff_forall_not_mem.mpr fun a ha => ?_
  obtain ⟨c, hc, _⟩ := h.queued a ha
  exact hp c hc

/-- The number of a reply that is still to be taken is that of a known request. -/
theorem known_of_open (h : k.Ok) {n : Nat} (hn : n ∈ k.open) : ∃ c, k.Known c ∧ c.serial = n := by
  rcases Core.mem_open.mp hn with ⟨x, hx, rfl⟩ | ⟨a, ha, rfl⟩
  · obtain ⟨c, hc, rfl⟩ := h.shown x hx
    exact ⟨c, Or.inl ⟨_, hc⟩, rfl⟩
  · obtain ⟨c, hc, hids⟩ := h.queued a ha
    exact ⟨c, known_holder hc, (congrArg Prod.fst hids).symm⟩

/-- A reply that has been delivered is that of a known request. -/
theorem known_of_delivered (h : k.Ok) {d : Nat × Answer} (hd : d ∈ k.delivered) :
    ∃ n c, (n, c) ∈ k.written ∧ c.serial = d.2.serial := by
  obtain ⟨n, c, hc, hids⟩ := h.origin d hd
  exact ⟨n, c, hc, (congrArg Prod.fst hids).symm⟩

/-- A call that is still to be written has no reply. -/
theorem new_undelivered (h : k.Ok) {p : Phase} (hp : k.holder = some p) (hnew : p.unwritten = true)
    {d : Nat × Answer} (hd : d ∈ k.delivered) : p.call.serial ≠ d.2.serial := by
  intro heq
  obtain ⟨n, c, hc, hserial⟩ := h.known_of_delivered hd
  have hsame := h.same c p.call (Or.inl ⟨n, hc⟩) (known_holder hp) (hserial.trans heq.symm)
  exact h.unwritten p hp hnew n (hsame ▸ hc)

/-- The holder of the lock goes on with its call, neither waiting before nor after. -/
theorem moves (h : k.Ok) {p p' : Phase} (hp : k.holder = some p) (hcall : p'.call = p.call)
    (hw : ∀ c, p ≠ .waiting c) (hw' : ∀ c, p' ≠ .waiting c)
    (hnew : p'.unwritten = true → p.unwritten = true) (hanswer : p'.answer = p.answer) :
    Core.Ok { k with holder := some p' } := by
  have hnone : ∀ c, k.holder ≠ some (.waiting c) := by
    intro c hc
    rw [hp] at hc
    exact hw c (Option.some.inj hc)
  have hknown : ∀ c, Core.Known { k with holder := some p' } c → k.Known c := by
    rintro c (hc | ⟨p₁, hp₁, rfl⟩)
    · exact Or.inl hc
    · obtain rfl := Option.some.inj hp₁
      exact Or.inr ⟨p, hp, hcall.symm⟩
  exact {
    below := fun c hc => h.below c (hknown c hc)
    same := fun c c' hc hc' => h.same c c' (hknown c hc) (hknown c' hc')
    conns := h.conns
    calls := h.calls
    apart := by
      intro p₁ q hp₁ hq
      obtain rfl := Option.some.inj hp₁
      rw [hcall]
      exact h.apart p q hp hq
    nodup := h.nodup
    whose := fun x hx => Or.inl (h.whose_sync hnone hx)
    shown := h.shown
    queued := by
      intro a ha
      rw [show k.queue = [] from h.queue_nil hnone] at ha
      cases ha
    unwritten := by
      intro p₁ hp₁ hnew₁ n
      obtain rfl := Option.some.inj hp₁
      rw [hcall]
      exact h.unwritten p hp (hnew hnew₁) n
    once := fun c hc => absurd (Option.some.inj hc) (hw' c)
    ready := fun _ c hc => absurd (Option.some.inj hc) (hw' c)
    received := by
      intro p₁ a hp₁ ha
      obtain rfl := Option.some.inj hp₁
      rw [hcall]
      exact h.received p a hp (hanswer ▸ ha)
    origin := h.origin
    last := h.last
    arrived := fun _ _ c hc => absurd (Option.some.inj hc) (hw' c)
    ended := h.ended }

theorem prepares (h : k.Ok) (hp : k.holder = none) (hc : c.serial = k.serial)
    (hxid : ∀ q, k.sync = some q → c.xid ≠ q.xid) :
    Core.Ok { k with holder := some (.prepared c), serial := k.serial + 1 } := by
  have hnone : ∀ c, k.holder ≠ some (.waiting c) := by
    intro c hc
    rw [hp] at hc
    cases hc
  have hknown :
      ∀ c', Core.Known { k with holder := some (.prepared c), serial := k.serial + 1 } c' →
      k.Known c' ∨ c' = c := by
    rintro c' (hc' | ⟨p₁, hp₁, rfl⟩)
    · exact Or.inl (Or.inl hc')
    · obtain rfl := Option.some.inj hp₁
      exact Or.inr rfl
  exact {
    below := by
      intro c' hc'
      rcases hknown c' hc' with hc' | rfl
      · exact Nat.lt_succ_of_lt (h.below c' hc')
      · exact hc ▸ Nat.lt_succ_self _
    same := by
      intro c₁ c₂ h₁ h₂ heq
      rcases hknown c₁ h₁ with hk₁ | hnew₁
      · rcases hknown c₂ h₂ with hk₂ | rfl
        · exact h.same c₁ c₂ hk₁ hk₂ heq
        · exact absurd (heq.trans hc) (Nat.ne_of_lt (h.below c₁ hk₁))
      · rcases hknown c₂ h₂ with hk₂ | hnew₂
        · rw [hnew₁] at heq
          exact absurd (heq.symm.trans hc) (Nat.ne_of_lt (h.below c₂ hk₂))
        · rw [hnew₁, hnew₂]
    conns := h.conns
    calls := h.calls
    apart := by
      intro p q hp₁ hq
      obtain rfl := Option.some.inj hp₁
      have hlt := h.below q (Or.inl ⟨_, h.calls q hq⟩)
      exact ⟨fun heq => Nat.ne_of_lt hlt (heq.symm.trans hc), hxid q hq⟩
    nodup := h.nodup
    whose := fun x hx => Or.inl (h.whose_sync hnone hx)
    shown := h.shown
    queued := by
      intro a ha
      rw [show k.queue = [] from h.queue_nil hnone] at ha
      cases ha
    unwritten := by
      intro p hp₁ _ n hn
      obtain rfl := Option.some.inj hp₁
      exact Nat.ne_of_lt (h.below c (Or.inl ⟨n, hn⟩)) hc
    once := by
      intro c' hc'
      cases hc'
    ready := by
      intro _ c' hc'
      cases hc'
    received := by
      intro p a hp₁ ha
      obtain rfl := Option.some.inj hp₁
      cases ha
    origin := h.origin
    last := h.last
    arrived := by
      intro _ _ c' hc'
      cases hc'
    ended := h.ended }

theorem conns_write (h : k.Ok) : ∀ w ∈ k.written ++ [(k.conn, c)], w.1 ≤ k.conn := by
  intro w hw
  rcases List.mem_append.mp hw with hw | hw
  · exact h.conns w hw
  · rw [List.mem_singleton.mp hw]

theorem shown_write (h : k.Ok) (hsends : Sends k.ahead ahead c) :
    ∀ x ∈ ahead, ∃ c', (k.conn, c') ∈ k.written ++ [(k.conn, c)] ∧ x = c'.ids := by
  intro x hx
  rcases hsends.mem hx with hx | rfl
  · obtain ⟨c', hc', rfl⟩ := h.shown x hx
    exact ⟨c', List.mem_append_left _ hc', rfl⟩
  · exact ⟨c, List.mem_append_right _ (List.mem_singleton_self _), rfl⟩

theorem origin_write (h : k.Ok) :
    ∀ d ∈ k.delivered, ∃ n c', (n, c') ∈ k.written ++ [(k.conn, c)] ∧ d.2.ids = c'.ids := by
  intro d hd
  obtain ⟨n, c', hc', hids⟩ := h.origin d hd
  exact ⟨n, c', List.mem_append_left _ hc', hids⟩

/-- No reply has come to the request that is written. -/
theorem last_write (h : k.Ok) (hnew : ∀ d ∈ k.delivered, c.serial ≠ d.2.serial) :
    ∀ d ∈ k.delivered, ∀ w ∈ k.written ++ [(k.conn, c)], w.2.serial = d.2.serial → w.1 ≤ d.1 := by
  intro d hd w hw hserial
  rcases List.mem_append.mp hw with hw | hw
  · exact h.last d hd w hw hserial
  · rw [List.mem_singleton.mp hw] at hserial
    exact absurd hserial (hnew d hd)

/-- The call is written for the first time. -/
theorem writes (h : k.Ok) (hp : k.holder = some (.stored c)) (hsends : Sends k.ahead ahead c) :
    Core.Ok { k with
      holder := some (.waiting c)
      ahead := ahead
      written := k.written ++ [(k.conn, c)] } := by
  have hnone : ∀ c, k.holder ≠ some (.waiting c) := by
    intro c hc
    rw [hp] at hc
    cases hc
  have hfirst : ∀ n, (n, c) ∉ k.written := h.unwritten _ hp rfl
  have hopen : c.serial ∉ k.open := by
    intro hmem
    rcases Core.mem_open.mp hmem with ⟨x, hx, hserial⟩ | ⟨a, ha, _⟩
    · obtain ⟨q, hq, rfl⟩ := h.whose_sync hnone hx
      exact (h.apart _ q hp hq).1 hserial.symm
    · rw [h.queue_nil hnone] at ha
      cases ha
  have hknown : ∀ c', Core.Known { k with
      holder := some (.waiting c)
      ahead := ahead
      written := k.written ++ [(k.conn, c)] } c' → k.Known c' := by
    rintro c' (⟨n, hn⟩ | ⟨p₁, hp₁, rfl⟩)
    · rcases List.mem_append.mp hn with hn | hn
      · exact Or.inl ⟨n, hn⟩
      · cases List.mem_singleton.mp hn
        exact Or.inr ⟨_, hp, rfl⟩
    · obtain rfl := Option.some.inj hp₁
      exact Or.inr ⟨_, hp, rfl⟩
  exact {
    below := fun c' hc' => h.below c' (hknown c' hc')
    same := fun c₁ c₂ h₁ h₂ => h.same c₁ c₂ (hknown c₁ h₁) (hknown c₂ h₂)
    conns := h.conns_write
    calls := fun q hq => List.mem_append_left _ (h.calls q hq)
    apart := by
      intro p q hp₁ hq
      obtain rfl := Option.some.inj hp₁
      exact h.apart (.stored c) q hp hq
    nodup := hsends.nodup h.nodup hopen
    whose := by
      intro x hx
      rcases hsends.mem hx with hx | rfl
      · exact Or.inl (h.whose_sync hnone hx)
      · exact Or.inr ⟨c, rfl, rfl⟩
    shown := h.shown_write hsends
    queued := by
      intro a ha
      rw [show k.queue = [] from h.queue_nil hnone] at ha
      cases ha
    unwritten := by
      intro p hp₁ hnew
      obtain rfl := Option.some.inj hp₁
      cases hnew
    once := by
      intro c' hc'
      cases Option.some.inj hc'
      rw [List.count_append, List.count_eq_zero_of_not_mem (hfirst k.conn)]
      simp
    ready := by
      intro _ c' hc' _
      cases Option.some.inj hc'
      exact List.mem_append_right _ (List.mem_singleton_self _)
    received := by
      intro p a hp₁ ha
      obtain rfl := Option.some.inj hp₁
      cases ha
    origin := h.origin_write
    last := h.last_write fun d hd => h.new_undelivered hp rfl hd
    arrived := by
      intro d hd c' hc' hserial
      cases Option.some.inj hc'
      exact absurd hserial.symm (h.new_undelivered hp rfl hd)
    ended := h.ended }

/-- A reply that is still to come or to be taken is there once. -/
theorem ahead_not_queued (h : k.Ok) {x : Nat × Xid} (hx : x ∈ k.ahead) {a : Answer}
    (ha : a ∈ k.queue) : x.1 ≠ a.serial := by
  intro heq
  have hdisjoint := (Multiset.nodup_add.mp h.nodup).2.2
  refine Multiset.disjoint_left.mp hdisjoint (Multiset.mem_map_of_mem _ hx) ?_
  rw [heq, Multiset.mem_coe]
  exact List.mem_map_of_mem ha

/-- The reply that is taken is that of the call. -/
theorem receives (h : k.Ok) {a : Answer} {rest : List Answer} (hp : k.holder = some (.waiting c))
    (hqueue : k.queue = a :: rest) :
    Core.Ok { k with holder := some (.received c a), queue := rest } := by
  have hmem : a ∈ k.queue := hqueue ▸ List.mem_cons_self
  have hids : ∀ b ∈ k.queue, b.ids = c.ids := by
    intro b hb
    obtain ⟨c', hc', hids⟩ := h.queued b hb
    rw [hp] at hc'
    cases hc'
    exact hids
  have hrest : rest = [] := by
    have hnodup : (k.queue.map Answer.serial).Nodup :=
      Multiset.coe_nodup.mp (Multiset.nodup_add.mp h.nodup).2.1
    rw [hqueue, List.map_cons, List.nodup_cons] at hnodup
    refine List.eq_nil_iff_forall_not_mem.mpr fun b hb => hnodup.1 ?_
    have hsame : b.ids = a.ids :=
      (hids b (hqueue ▸ List.mem_cons_of_mem _ hb)).trans (hids a hmem).symm
    have hserial : b.serial = a.serial := congrArg Prod.fst hsame
    rw [← hserial]
    exact List.mem_map_of_mem hb
  have hknown : ∀ c', Core.Known { k with holder := some (.received c a), queue := rest } c' →
      k.Known c' := by
    rintro c' (hc' | ⟨p₁, hp₁, rfl⟩)
    · exact Or.inl hc'
    · obtain rfl := Option.some.inj hp₁
      exact Or.inr ⟨_, hp, rfl⟩
  subst hrest
  exact {
    below := fun c' hc' => h.below c' (hknown c' hc')
    same := fun c₁ c₂ h₁ h₂ => h.same c₁ c₂ (hknown c₁ h₁) (hknown c₂ h₂)
    conns := h.conns
    calls := h.calls
    apart := by
      intro p q hp₁ hq
      obtain rfl := Option.some.inj hp₁
      exact h.apart (.waiting c) q hp hq
    nodup := by
      refine Multiset.nodup_of_le ?_ h.nodup
      exact Multiset.add_le_add_left (Multiset.coe_le.mpr (List.nil_subperm))
    whose := by
      intro x hx
      rcases h.whose x hx with hq | ⟨c', hc', hx'⟩
      · exact Or.inl hq
      · have hserial : x.1 = a.serial := by
          rw [hp] at hc'
          cases hc'
          rw [hx']
          exact (congrArg Prod.fst (hids a hmem)).symm
        exact absurd hserial (h.ahead_not_queued hx hmem)
    shown := h.shown
    queued := by
      intro b hb
      cases hb
    unwritten := by
      intro p hp₁ hnew
      obtain rfl := Option.some.inj hp₁
      cases hnew
    once := by
      intro c' hc'
      cases hc'
    ready := by
      intro _ c' hc'
      cases hc'
    received := by
      intro p b hp₁ hb
      obtain rfl := Option.some.inj hp₁
      cases hb
      exact hids a hmem
    origin := h.origin
    last := h.last
    arrived := by
      intro _ _ c' hc'
      cases hc'
    ended := h.ended }

/-- The lock is given back. -/
theorem leaves (h : k.Ok) {p : Phase} {d : Done} (hp : k.holder = some p)
    (hw : ∀ c, p ≠ .waiting c) (hd : d.Proper) :
    Core.Ok { k with holder := none, done := k.done ++ [d] } := by
  have hnone : ∀ c, k.holder ≠ some (.waiting c) := by
    intro c hc
    rw [hp] at hc
    exact hw c (Option.some.inj hc)
  have hknown : ∀ c', Core.Known { k with holder := none, done := k.done ++ [d] } c' →
      k.Known c' := by
    rintro c' (hc' | ⟨p₁, hp₁, _⟩)
    · exact Or.inl hc'
    · cases hp₁
  exact {
    below := fun c' hc' => h.below c' (hknown c' hc')
    same := fun c₁ c₂ h₁ h₂ => h.same c₁ c₂ (hknown c₁ h₁) (hknown c₂ h₂)
    conns := h.conns
    calls := h.calls
    apart := by
      intro p₁ q hp₁
      cases hp₁
    nodup := h.nodup
    whose := fun x hx => Or.inl (h.whose_sync hnone hx)
    shown := h.shown
    queued := by
      intro a ha
      rw [show k.queue = [] from h.queue_nil hnone] at ha
      cases ha
    unwritten := by
      intro p₁ hp₁
      cases hp₁
    once := by
      intro c' hc'
      cases hc'
    ready := by
      intro _ c' hc'
      cases hc'
    received := by
      intro p₁ a hp₁
      cases hp₁
    origin := h.origin
    last := h.last
    arrived := by
      intro _ _ c' hc'
      cases hc'
    ended := by
      intro d' hd'
      rcases List.mem_append.mp hd' with hd' | hd'
      · exact h.ended d' hd'
      · rw [List.mem_singleton.mp hd']
        exact hd }

/-- A reply comes in while the poll thread has no call of its own: it is that of
    the call that waits. -/
theorem delivers (h : k.Ok) {a : Answer} (hsync : k.sync = none)
    (hahead : k.ahead = a.ids ::ₘ ahead) :
    Core.Ok { k with
      ahead := ahead
      queue := k.queue ++ [a]
      delivered := k.delivered ++ [(k.conn, a)] } := by
  have hmem : a.ids ∈ k.ahead := hahead ▸ Multiset.mem_cons_self _ _
  have hfewer : ∀ x ∈ ahead, x ∈ k.ahead := by
    intro x hx
    rw [hahead]
    exact Multiset.mem_cons_of_mem hx
  obtain ⟨c, hc, hids⟩ : ∃ c, k.holder = some (.waiting c) ∧ a.ids = c.ids := by
    rcases h.whose _ hmem with ⟨q, hq, _⟩ | hc
    · rw [hsync] at hq
      cases hq
    · exact hc
  exact {
    below := h.below
    same := h.same
    conns := h.conns
    calls := h.calls
    apart := h.apart
    nodup := by
      have hnodup := h.nodup
      unfold Core.open at hnodup ⊢
      rw [hahead, Multiset.map_cons, Multiset.cons_add] at hnodup
      have hperm : Multiset.map Prod.fst ahead +
          Multiset.ofList ((k.queue ++ [a]).map Answer.serial) =
            a.serial ::ₘ (Multiset.map Prod.fst ahead +
              Multiset.ofList (k.queue.map Answer.serial)) := by
        rw [List.map_append, ← Multiset.coe_add, ← Multiset.add_assoc,
          Multiset.add_comm _ (Multiset.ofList ([a].map Answer.serial))]
        exact Multiset.singleton_add _ _
      dsimp only
      rw [hperm]
      exact hnodup
    whose := fun x hx => h.whose x (hfewer x hx)
    shown := fun x hx => h.shown x (hfewer x hx)
    queued := by
      intro b hb
      rcases List.mem_append.mp hb with hb | hb
      · exact h.queued b hb
      · rw [List.mem_singleton.mp hb]
        exact ⟨c, hc, hids⟩
    unwritten := h.unwritten
    once := h.once
    ready := fun hready c' hc' hno =>
      h.ready hready c' hc' fun b hb => hno b (List.mem_append_left _ hb)
    received := h.received
    origin := by
      intro d hd
      rcases List.mem_append.mp hd with hd | hd
      · exact h.origin d hd
      · obtain ⟨c', hc', hids'⟩ := h.shown _ hmem
        rw [List.mem_singleton.mp hd]
        exact ⟨_, c', hc', hids'⟩
    last := by
      intro d hd w hw hserial
      rcases List.mem_append.mp hd with hd | hd
      · exact h.last d hd w hw hserial
      · rw [List.mem_singleton.mp hd]
        exact h.conns w hw
    arrived := by
      intro d hd c' hc' hserial
      rcases List.mem_append.mp hd with hd | hd
      · exact List.mem_append_left _ (h.arrived d hd c' hc' hserial)
      · rw [List.mem_singleton.mp hd]
        exact List.mem_append_right _ (List.mem_singleton_self _)
    ended := h.ended }

/-- Fewer replies to come. -/
theorem nodup_of_le (h : k.Ok) (hle : ahead ≤ k.ahead) :
    (ahead.map Prod.fst + Multiset.ofList (k.queue.map Answer.serial)).Nodup :=
  Multiset.nodup_of_le (Multiset.add_le_add_right (Multiset.map_le_map hle)) h.nodup

theorem clears (h : k.Ok) {sync : Option Call} {ready : Bool} {n : Nat}
    (hsync : sync = k.sync ∨ sync = none) (hready : ready = true → k.ready = true)
    (hn : k.serial ≤ n) :
    Core.Ok { k with sync := sync, ready := ready, ahead := 0, serial := n } := by
  have hcall : ∀ q, sync = some q → k.sync = some q := by
    intro q hq
    rcases hsync with rfl | rfl
    · exact hq
    · cases hq
  exact {
    below := fun c hc => Nat.lt_of_lt_of_le (h.below c hc) hn
    same := h.same
    conns := h.conns
    calls := fun q hq => h.calls q (hcall q hq)
    apart := fun p q hp hq => h.apart p q hp (hcall q hq)
    nodup := h.nodup_of_le (Multiset.zero_le _)
    whose := fun x hx => absurd hx (Multiset.notMem_zero x)
    shown := fun x hx => absurd hx (Multiset.notMem_zero x)
    queued := h.queued
    unwritten := h.unwritten
    once := h.once
    ready := fun hr => h.ready (hready hr)
    received := h.received
    origin := h.origin
    last := h.last
    arrived := h.arrived
    ended := h.ended }

theorem slows (h : k.Ok) : Core.Ok { k with ready := false } :=
  { h with ready := fun hr => by cases hr }

/-- Nothing has been written yet on a new connection. -/
theorem connects (h : k.Ok) :
    Core.Ok { k with sync := none, ready := false, conn := k.conn + 1, ahead := 0 } where
  below := h.below
  same := h.same
  conns w hw := Nat.le_succ_of_le (h.conns w hw)
  calls q hq := by cases hq
  apart p q _ hq := by cases hq
  nodup := h.nodup_of_le (Multiset.zero_le _)
  whose x hx := absurd hx (Multiset.notMem_zero x)
  shown x hx := absurd hx (Multiset.notMem_zero x)
  queued := h.queued
  unwritten := h.unwritten
  once c _ := by
    have hnew : (k.conn + 1, c) ∉ k.written := fun hc => Nat.not_succ_le_self _ (h.conns _ hc)
    rw [List.count_eq_zero_of_not_mem hnew]
    exact Nat.zero_le 1
  ready hr := by cases hr
  received := h.received
  origin := h.origin
  last := h.last
  arrived := h.arrived
  ended := h.ended

/-- The poll thread calls on the new connection. -/
theorem calls_sync (h : k.Ok) {q : Call} (hsync : k.sync = none) (hready : k.ready = false)
    (hq : q.serial = k.serial) (hxid : ∀ p, k.holder = some p → p.call.xid ≠ q.xid)
    (hsends : Sends k.ahead ahead q) :
    Core.Ok { k with
      sync := some q
      ahead := ahead
      serial := k.serial + 1
      written := k.written ++ [(k.conn, q)] } := by
  have hnew : ∀ c, k.Known c → c.serial ≠ q.serial :=
    fun c hc heq => Nat.ne_of_lt (h.below c hc) (heq.trans hq)
  have hknown : ∀ c', Core.Known { k with
      sync := some q
      ahead := ahead
      serial := k.serial + 1
      written := k.written ++ [(k.conn, q)] } c' → k.Known c' ∨ c' = q := by
    rintro c' (⟨n, hn⟩ | hp)
    · rcases List.mem_append.mp hn with hn | hn
      · exact Or.inl (Or.inl ⟨n, hn⟩)
      · cases List.mem_singleton.mp hn
        exact Or.inr rfl
    · exact Or.inl (Or.inr hp)
  have hopen : q.serial ∉ k.open := by
    intro hmem
    obtain ⟨c, hc, hserial⟩ := h.known_of_open hmem
    exact hnew c hc hserial
  exact {
    below := by
      intro c' hc'
      rcases hknown c' hc' with hc' | rfl
      · exact Nat.lt_succ_of_lt (h.below c' hc')
      · exact hq ▸ Nat.lt_succ_self _
    same := by
      intro c₁ c₂ h₁ h₂ heq
      rcases hknown c₁ h₁ with hk₁ | hnew₁
      · rcases hknown c₂ h₂ with hk₂ | rfl
        · exact h.same c₁ c₂ hk₁ hk₂ heq
        · exact absurd heq (hnew c₁ hk₁)
      · rcases hknown c₂ h₂ with hk₂ | hnew₂
        · rw [hnew₁] at heq
          exact absurd heq.symm (hnew c₂ hk₂)
        · rw [hnew₁, hnew₂]
    conns := h.conns_write
    calls := by
      intro q' hq'
      cases Option.some.inj hq'
      exact List.mem_append_right _ (List.mem_singleton_self _)
    apart := by
      intro p q' hp hq'
      cases Option.some.inj hq'
      exact ⟨hnew _ (known_holder hp), hxid p hp⟩
    nodup := hsends.nodup h.nodup hopen
    whose := by
      intro x hx
      rcases hsends.mem hx with hx | rfl
      · rcases h.whose x hx with ⟨q', hq', _⟩ | hc
        · rw [hsync] at hq'
          cases hq'
        · exact Or.inr hc
      · exact Or.inl ⟨q, rfl, rfl⟩
    shown := h.shown_write hsends
    queued := h.queued
    unwritten := by
      intro p hp hnew' n hn
      rcases List.mem_append.mp hn with hn | hn
      · exact h.unwritten p hp hnew' n hn
      · have hsame : p.call = q := congrArg Prod.snd (List.mem_singleton.mp hn)
        exact hnew p.call (known_holder hp) (congrArg Call.serial hsame)
    once := by
      intro c hc
      have hne : (k.conn, c) ∉ [(k.conn, q)] := by
        intro hmem
        have hsame : c = q := congrArg Prod.snd (List.mem_singleton.mp hmem)
        exact hnew c (Or.inr ⟨_, hc, rfl⟩) (congrArg Call.serial hsame)
      rw [List.count_append, List.count_eq_zero_of_not_mem hne]
      exact h.once c hc
    ready := by
      intro hr
      rw [show k.ready = false from hready] at hr
      cases hr
    received := h.received
    origin := h.origin_write
    last := by
      refine h.last_write fun d hd hserial => ?_
      obtain ⟨n, c, hc, hd'⟩ := h.known_of_delivered hd
      exact hnew c (Or.inl ⟨n, hc⟩) (hd'.trans hserial.symm)
    arrived := h.arrived
    ended := h.ended }

/-- The poll thread hears the reply to its own call: no other has its transaction id. -/
theorem hears (h : k.Ok) {q : Call} {x : Nat × Xid} (hsync : k.sync = some q)
    (hahead : k.ahead = x ::ₘ ahead) (hxid : x.2 = q.xid) :
    Core.Ok { k with sync := none, ahead := ahead } := by
  have hmem : x ∈ k.ahead := hahead ▸ Multiset.mem_cons_self _ _
  have hfewer : ∀ y ∈ ahead, y ∈ k.ahead := by
    intro y hy
    rw [hahead]
    exact Multiset.mem_cons_of_mem hy
  have hx : x = q.ids := by
    rcases h.whose x hmem with ⟨q', hq', rfl⟩ | ⟨c, hc, rfl⟩
    · rw [hsync] at hq'
      cases hq'
      rfl
    · exact absurd hxid (h.apart _ q hc hsync).2
  have honce : q.serial ∉ ahead.map Prod.fst := by
    have hnodup := (Multiset.nodup_add.mp h.nodup).1
    rw [hahead, Multiset.map_cons, hx] at hnodup
    exact (Multiset.nodup_cons.mp hnodup).1
  exact {
    below := h.below
    same := h.same
    conns := h.conns
    calls := by
      intro q' hq'
      cases hq'
    apart := by
      intro p q' _ hq'
      cases hq'
    nodup := h.nodup_of_le (hahead ▸ Multiset.le_cons_self _ _)
    whose := by
      intro y hy
      rcases h.whose y (hfewer y hy) with ⟨q', hq', rfl⟩ | hc
      · rw [hsync] at hq'
        cases hq'
        exact absurd (Multiset.mem_map_of_mem Prod.fst hy) honce
      · exact Or.inr hc
    shown := fun y hy => h.shown y (hfewer y hy)
    queued := h.queued
    unwritten := h.unwritten
    once := h.once
    ready := h.ready
    received := h.received
    origin := h.origin
    last := h.last
    arrived := h.arrived
    ended := h.ended }

/-- Recovery is over, and no request is owed. -/
theorem resumes (h : k.Ok) (howed : k.owed = none) : Core.Ok { k with ready := true } := by
  refine { h with ready := fun _ c hc hno => ?_ }
  simp only [Core.owed, show k.holder = some (.waiting c) from hc, ite_eq_left_iff] at howed
  by_contra hnot
  refine absurd (howed ?_) (Option.some_ne_none c)
  rintro (hw | ⟨a, ha, hserial⟩)
  · exact hnot hw
  · exact hno a ha hserial

/-- Recovery writes the request that is owed. -/
theorem resends (h : k.Ok) (howed : k.owed = some c) (hsends : Sends k.ahead ahead c) :
    Core.Ok { k with
      ready := true
      ahead := ahead
      written := k.written ++ [(k.conn, c)] } := by
  obtain ⟨hp, hnot, hno⟩ := Core.owed_eq_some howed
  have hopen : c.serial ∉ k.open := by
    intro hmem
    rcases Core.mem_open.mp hmem with ⟨x, hx, hserial⟩ | ⟨a, ha, hserial⟩
    · obtain ⟨c', hc', rfl⟩ := h.shown x hx
      have hsame := h.same c' c (Or.inl ⟨_, hc'⟩) (known_holder hp) hserial
      exact hnot (hsame ▸ hc')
    · exact hno a ha hserial
  have hknown : ∀ c', Core.Known { k with
      ready := true
      ahead := ahead
      written := k.written ++ [(k.conn, c)] } c' → k.Known c' := by
    rintro c' (⟨n, hn⟩ | hp')
    · rcases List.mem_append.mp hn with hn | hn
      · exact Or.inl ⟨n, hn⟩
      · cases List.mem_singleton.mp hn
        exact Or.inr ⟨_, hp, rfl⟩
    · exact Or.inr hp'
  have hholder : ∀ {p : Phase}, k.holder = some p → p = .waiting c :=
    fun hp' => Option.some.inj (hp'.symm.trans hp)
  exact {
    below := fun c' hc' => h.below c' (hknown c' hc')
    same := fun c₁ c₂ h₁ h₂ => h.same c₁ c₂ (hknown c₁ h₁) (hknown c₂ h₂)
    conns := h.conns_write
    calls := fun q hq => List.mem_append_left _ (h.calls q hq)
    apart := h.apart
    nodup := hsends.nodup h.nodup hopen
    whose := by
      intro x hx
      rcases hsends.mem hx with hx | rfl
      · exact h.whose x hx
      · exact Or.inr ⟨c, hp, rfl⟩
    shown := h.shown_write hsends
    queued := h.queued
    unwritten := by
      intro p hp' hnew
      rw [hholder hp'] at hnew
      cases hnew
    once := by
      intro c' hc'
      cases hholder hc'
      rw [List.count_append, List.count_eq_zero_of_not_mem hnot]
      simp
    ready := by
      intro _ c' hc' _
      cases hholder hc'
      exact List.mem_append_right _ (List.mem_singleton_self _)
    received := h.received
    origin := h.origin_write
    last := by
      refine h.last_write fun d hd hserial => ?_
      exact hno _ (h.arrived d hd c hp hserial.symm) hserial.symm
    arrived := h.arrived
    ended := h.ended }

/-- Every step keeps the bookkeeping. -/
theorem step (h : k.Ok) (hstep : Core.Step k k') : k'.Ok := by
  cases hstep with
  | still => exact h
  | prepares hp hc hxid => exact h.prepares hp hc hxid
  | stores hp =>
    exact h.moves hp rfl (fun _ => by simp) (fun _ => by simp) (fun _ => rfl) rfl
  | writes hp hsends => exact h.writes hp hsends
  | receives hp hqueue => exact h.receives hp hqueue
  | unpacks hp =>
    exact h.moves hp rfl (fun _ => by simp) (fun _ => by simp) (fun hnew => by cases hnew) rfl
  | leaves hp hw hd => exact h.leaves hp hw hd
  | delivers hsync hahead => exact h.delivers hsync hahead
  | clears hsync hready hn => exact h.clears hsync hready hn
  | slows => exact h.slows
  | connects => exact h.connects
  | calls hsync hready hq hxid hsends => exact h.calls_sync hsync hready hq hxid hsends
  | hears hsync hahead hxid => exact h.hears hsync hahead hxid
  | resumes howed => exact h.resumes howed
  | resends howed hsends => exact h.resends howed hsends

end Core.Ok

end Invariant

/-! ## The steps of the client -/

/-- What concerns the requests. -/
def State.core (s : State) : Core where
  holder := s.rpclk.map Prod.snd
  sync := s.poll.call
  ready := decide (s.poll = .polling)
  conn := s.conn
  ahead := Multiset.ofList (s.pending.map Call.ids) +
    Multiset.ofList (s.incoming.filterMap Incoming.ids)
  queue := s.replyQueue
  serial := s.serial
  written := s.written
  delivered := s.delivered
  done := s.done

/-- The request that is owed to the current connection. -/
def State.owed (s : State) : Option Call :=
  match s.rpclk with
  | some (_, .waiting c) =>
    if (s.conn, c) ∈ s.written ∨ ∃ a ∈ s.replyQueue, a.serial = c.serial then none else some c
  | _ => none

/-- The calls that are under way. -/
def State.underWay (s : State) : List Call :=
  (s.rpclk.map fun h => h.2.call).toList ++ s.poll.call.toList

/-- The backup is that of the request that is owed when recovery looks at it, and a
    transaction id is not taken again while a call with it is under way. -/
def Backed (s : State) : Label → Prop
  | .writeBkup _ => s.lkAcqFdBkup = s.owed
  | .prepare _ _ => ∀ c ∈ s.underWay, c.xid ≠ s.nextXid
  | .startSession _ => ∀ c ∈ s.underWay, c.xid ≠ s.nextXid
  | .fileReopen _ => ∀ c ∈ s.underWay, c.xid ≠ s.nextXid
  | _ => True

instance (s : State) (l : Label) : Decidable (Backed s l) := by
  unfold Backed
  split <;> infer_instance

section Steps

variable {s s' : State}

theorem State.core_owed (s : State) : s.core.owed = s.owed := by
  unfold Core.owed State.owed State.core
  rcases s.rpclk with _ | ⟨t, p⟩
  · rfl
  · cases p <;> rfl

theorem State.mem_underWay_holder {t : Nat} {p : Phase} (h : s.rpclk = some (t, p)) :
    p.call ∈ s.underWay := by
  simp [State.underWay, h]

theorem State.mem_underWay_sync {q : Call} (h : s.poll.call = some q) : q ∈ s.underWay := by
  simp [State.underWay, h]

/-- What is ahead of the client after a message is put on its connection. -/
theorem State.sends_put (s : State) (c : Call) : Sends s.core.ahead (s.put c).core.ahead c := by
  unfold State.put State.core
  dsimp only
  split_ifs
  · refine Or.inr ?_
    rw [List.map_append, ← Multiset.coe_add, Multiset.add_comm (Multiset.ofList _)
      (Multiset.ofList ([c].map Call.ids)), Multiset.add_assoc]
    exact Multiset.singleton_add _ _
  · exact Or.inl rfl

/-- The next message is the reply to the poll thread's own call. -/
theorem syncReply_eq_some {call : Call} {m : Incoming} {r : Reply}
    (h : State.syncReply call m = some r) : ∃ a, m = .reply a ∧ a.xid = call.xid := by
  cases m with
  | reply a =>
    simp only [State.syncReply] at h
    split_ifs at h with hok
    exact ⟨a, rfl, hok.2⟩
  | call e => cases h

theorem State.ahead_reply {a : Answer} {rest : List Incoming}
    (h : s.incoming = .reply a :: rest) :
    s.core.ahead = a.ids ::ₘ (Multiset.ofList (s.pending.map Call.ids) +
      Multiset.ofList (rest.filterMap Incoming.ids)) := by
  unfold State.core
  dsimp only
  have hcons : (Incoming.reply a :: rest).filterMap Incoming.ids =
      a.ids :: rest.filterMap Incoming.ids := rfl
  rw [h, hcons, ← Multiset.cons_coe, Multiset.add_cons]

theorem State.holder_eq {t : Nat} {p : Phase} (h : s.rpclk = some (t, p)) :
    s.core.holder = some p := by
  simp [State.core, h]

theorem prepare_core {t : Nat} {r : Request} (hb : Backed s (.prepare t r))
    (h : s.prepare t r = some s') : Core.Step s.core s'.core := by
  unfold State.prepare at h
  split_ifs at h with hlock hcallback
  cases h
  have hnone : s.core.holder = none := by
    simpa [State.core] using hlock
  refine .prepares (c := s.numbered r) hnone rfl fun q hq heq => ?_
  exact hb q (State.mem_underWay_sync hq) heq.symm

theorem storeBkupBeforeCall_core (h : s.storeBkupBeforeCall = some s') :
    Core.Step s.core s'.core := by
  unfold State.storeBkupBeforeCall at h
  split at h
  · next t call hlock =>
    split at h
    · split_ifs at h
      cases h
      exact .stores (State.holder_eq hlock)
    · cases h
      exact .stores (State.holder_eq hlock)
  · cases h

theorem write_core {ok : Bool} (h : s.write ok = some s') : Core.Step s.core s'.core := by
  unfold State.write at h
  split at h
  · next t call hlock =>
    split_ifs at h
    · cases h
      exact .writes (State.holder_eq hlock) (s.sends_put call)
    · cases h
      exact .leaves (State.holder_eq hlock) (fun _ => by simp) trivial
  · cases h

theorem receive_core (h : s.receive = some s') : Core.Step s.core s'.core := by
  unfold State.receive at h
  split at h
  · next t call a rest hlock hqueue =>
    cases h
    exact .receives (State.holder_eq hlock) hqueue
  · cases h

/-- The reply that is unpacked has the transaction id of its call. -/
theorem unpack_core (hok : s.core.Ok) (h : s.unpack = some s') : Core.Step s.core s'.core := by
  unfold State.unpack at h
  split at h
  · next t call a hlock =>
    have hholder := State.holder_eq hlock
    have hids := hok.received _ a hholder rfl
    have hxid : ¬ a.xid ≠ call.xid := not_not.mpr (congrArg Prod.snd hids)
    rw [if_neg hxid] at h
    split_ifs at h
    · split at h
      · cases h
        exact .leaves hholder (fun _ => by simp) trivial
      · cases h
        exact .unpacks hholder
    · cases h
      exact .leaves hholder (fun _ => by simp) trivial
  · cases h

theorem storeBkupAfterCall_core (hok : s.core.Ok) (h : s.storeBkupAfterCall = some s') :
    Core.Step s.core s'.core := by
  unfold State.storeBkupAfterCall at h
  split at h
  · next t call a r hlock =>
    split_ifs at h
    cases h
    have hids := hok.received _ a (State.holder_eq hlock) rfl
    exact .leaves (State.holder_eq hlock) (fun _ => by simp) hids
  · cases h

theorem pollRecvCb_core (h : s.pollRecvCb = some s') : Core.Step s.core s'.core := by
  unfold State.pollRecvCb at h
  by_cases hnot : s.poll ≠ .polling
  · rw [if_pos hnot] at h
    cases h
  rw [if_neg hnot] at h
  have hpoll : s.poll = .polling := not_not.mp hnot
  split at h
  · next a rest hincoming =>
    cases h
    have hsync : s.core.sync = none := by simp [State.core, hpoll, Poll.call]
    exact .delivers hsync (State.ahead_reply hincoming)
  · next e rest hincoming =>
    cases h
    have hsame : State.core { s with incoming := rest, eventQueue := s.eventQueue ++ [e] } =
        s.core := by
      unfold State.core
      rw [hincoming]
      rfl
    rw [hsame]
    exact .still
  · split_ifs at h
    cases h
    have hslow : State.core { s with fd := none, poll := .connecting } =
        { s.core with ready := false } := by
      unfold State.core
      rw [hpoll]
      rfl
    rw [hslow]
    exact .slows

theorem connect_core (h : s.connect = some s') : Core.Step s.core s'.core := by
  unfold State.connect at h
  split_ifs at h
  cases h
  exact .connects

theorem abandon_core (s : State) {n : Nat} {x : Xid} (hn : s.serial ≤ n) :
    Core.Step s.core (State.abandon { s with xidCounter := x, serial := n }).core :=
  .clears (Or.inr rfl) (fun hr => by cases hr) hn

theorem ends_core (s : State) {n : Nat} {x : Xid} (hn : s.serial ≤ n) :
    Core.Step s.core (State.ends { s with xidCounter := x, serial := n }).core :=
  .clears (Or.inr rfl) (fun hr => by cases hr) hn

/-- A call of the poll thread. -/
theorem sync_core {r : Request} {poll : Poll} (hnone : s.poll.call = none)
    (hpoll : s.poll ≠ .polling) (hxid : ∀ c ∈ s.underWay, c.xid ≠ s.nextXid)
    (hcall : poll.call = some (s.numbered r)) (hnot : poll ≠ .polling) :
    Core.Step s.core
      (State.core { State.put { s with xidCounter := s.nextXid, serial := s.serial + 1 }
      (s.numbered r) with poll := poll }) := by
  have hready : s.core.ready = false := decide_eq_false hpoll
  have hsends : Sends s.core.ahead (s.put (s.numbered r)).core.ahead (s.numbered r) :=
    s.sends_put _
  have hstep := Core.Step.calls (k := s.core) (q := s.numbered r) hnone hready rfl
    (fun p hp => ?_) hsends
  · have hcore : State.core { State.put { s with xidCounter := s.nextXid, serial := s.serial + 1 }
        (s.numbered r) with poll := poll } =
        { s.core with
          sync := some (s.numbered r)
          ahead := (s.put (s.numbered r)).core.ahead
          serial := s.core.serial + 1
          written := s.core.written ++ [(s.core.conn, s.numbered r)] } := by
      unfold State.core
      simp only [hcall, hnot, hpoll, decide_false]
      rfl
    rw [hcore]
    exact hstep
  · obtain ⟨⟨t, p'⟩, hlock, rfl⟩ := Option.map_eq_some_iff.mp hp
    exact hxid _ (State.mem_underWay_holder hlock)

theorem startSession_core {ok : Bool} (hb : Backed s (.startSession ok))
    (h : s.startSession ok = some s') : Core.Step s.core s'.core := by
  unfold State.startSession at h
  split_ifs at h with hpoll hok
  · cases h
    rw [not_not] at hpoll
    exact sync_core (by rw [hpoll]; rfl) (by rw [hpoll]; simp) hb rfl (by simp)
  · cases h
    exact abandon_core s (Nat.le_succ _)

theorem hears_core {q : Call} {m : Incoming} {rest : List Incoming} {r : Reply} {poll : Poll}
    (hcall : s.poll.call = some q) (hincoming : s.incoming = m :: rest)
    (hreply : State.syncReply q m = some r) (hnone : poll.call = none)
    (hnot : poll ≠ .polling) (hpoll : s.poll ≠ .polling) :
    Core.Step s.core (State.core { s with incoming := rest, poll := poll }) := by
  obtain ⟨a, rfl, hxid⟩ := syncReply_eq_some hreply
  have hstep := Core.Step.hears (k := s.core) hcall (State.ahead_reply hincoming) hxid
  have hcore : State.core { s with incoming := rest, poll := poll } =
      { s.core with
        sync := none
        ahead := Multiset.ofList (s.pending.map Call.ids) +
          Multiset.ofList (rest.filterMap Incoming.ids) } := by
    unfold State.core
    simp only [hnone, hnot, hpoll, decide_false]
  rw [hcore]
  exact hstep

theorem sessionStarted_core (h : s.sessionStarted = some s') : Core.Step s.core s'.core := by
  unfold State.sessionStarted at h
  split at h
  · next call hpoll =>
    split at h
    · next m rest hincoming =>
      split at h
      · next hreply =>
        cases h
        exact hears_core (by rw [hpoll]; rfl) hincoming hreply rfl (by simp) (by rw [hpoll]; simp)
      · cases h
        exact abandon_core s (Nat.le_refl _)
    · split_ifs at h
      cases h
      exact abandon_core s (Nat.le_refl _)
  · cases h

theorem lockBkup_core (h : s.lockBkup = some s') : Core.Step s.core s'.core := by
  unfold State.lockBkup at h
  split_ifs at h with hpoll
  cases h
  have hsame : State.core { s with poll := .reopening s.eventBkup } = s.core := by
    unfold State.core
    rw [hpoll]
    rfl
  rw [hsame]
  exact .still

theorem fileReopen_core {ok : Bool} (hb : Backed s (.fileReopen ok))
    (h : s.fileReopen ok = some s') : Core.Step s.core s'.core := by
  unfold State.fileReopen at h
  split at h
  · next fd mode rest hpoll =>
    split_ifs at h
    · cases h
      exact sync_core (by rw [hpoll]; rfl) (by rw [hpoll]; simp) hb rfl (by simp)
    · cases h
      exact ends_core s (Nat.le_succ _)
  · cases h

theorem fileReopened_core (h : s.fileReopened = some s') : Core.Step s.core s'.core := by
  unfold State.fileReopened at h
  split at h
  · next call tail hpoll =>
    split at h
    · next m rest hincoming =>
      split at h
      · next hreply =>
        cases h
        exact hears_core (by rw [hpoll]; rfl) hincoming hreply rfl (by simp) (by rw [hpoll]; simp)
      · cases h
        exact ends_core s (Nat.le_refl _)
    · split_ifs at h
      cases h
      exact ends_core s (Nat.le_refl _)
  · cases h

/-- Recovery writes the request that is owed. -/
theorem writeBkup_core {ok : Bool} (hb : Backed s (.writeBkup ok)) (h : s.writeBkup ok = some s') :
    Core.Step s.core s'.core := by
  have howed : s.core.owed = s.lkAcqFdBkup := s.core_owed.trans hb.symm
  unfold State.writeBkup at h
  split at h
  · next hpoll =>
    split at h
    · next hbkup =>
      cases h
      have hcore : State.core { s with poll := .polling } = { s.core with ready := true } := by
        unfold State.core
        rw [hpoll]
        rfl
      rw [hcore]
      exact .resumes (howed.trans hbkup)
    · next call hbkup =>
      split_ifs at h
      · cases h
        have hcore : State.core { s.put call with poll := .polling } =
            { s.core with
              ready := true
              ahead := (s.put call).core.ahead
              written := s.core.written ++ [(s.core.conn, call)] } := by
          unfold State.core
          rw [hpoll]
          rfl
        rw [hcore]
        exact .resends (howed.trans hbkup) (s.sends_put call)
      · cases h
        exact ends_core s (Nat.le_refl _)
  · cases h

/-- A request that is answered makes way for its reply. -/
theorem answer_core {i : Nat} {accepted : Bool} {result : Option Reply}
    (h : s.answer i accepted result = some s') : s'.core = s.core := by
  obtain ⟨call, hcall, rfl⟩ := Option.map_eq_some_iff.mp h
  obtain ⟨hi, rfl⟩ := List.getElem?_eq_some_iff.mp hcall
  have hpending : Multiset.ofList (s.pending.map Call.ids) =
      s.pending[i].ids ::ₘ Multiset.ofList ((s.pending.eraseIdx i).map Call.ids) := by
    rw [Multiset.cons_coe, ← List.map_cons]
    exact Multiset.coe_eq_coe.mpr (.map _ (List.getElem_cons_eraseIdx_perm hi).symm)
  have hincoming : ∀ a : Answer,
      Multiset.ofList ((s.incoming ++ [Incoming.reply a]).filterMap Incoming.ids) =
        a.ids ::ₘ Multiset.ofList (s.incoming.filterMap Incoming.ids) := by
    intro a
    rw [List.filterMap_append, ← Multiset.coe_add, Multiset.add_comm]
    exact Multiset.singleton_add _ _
  unfold State.core
  dsimp only
  rw [hincoming, hpending, Multiset.add_cons, Multiset.cons_add]
  rfl

/-- Every step the client takes in its runs is one on its requests. -/
theorem step_core {l : Label} (hok : s.core.Ok) (hb : Backed s l) (h : step l s = some s') :
    Core.Step s.core s'.core := by
  unfold step at h
  split_ifs at h
  cases l with
  | prepare t r => exact prepare_core hb h
  | storeBefore => exact storeBkupBeforeCall_core h
  | write ok => exact write_core h
  | receive => exact receive_core h
  | unpack => exact unpack_core hok h
  | storeAfter => exact storeBkupAfterCall_core hok h
  | pollRecvCb => exact pollRecvCb_core h
  | connect => exact connect_core h
  | startSession ok => exact startSession_core hb h
  | sessionStarted => exact sessionStarted_core h
  | lockBkup => exact lockBkup_core h
  | fileReopen ok => exact fileReopen_core hb h
  | fileReopened => exact fileReopened_core h
  | writeBkup ok => exact writeBkup_core hb h
  | takeEvent =>
    have hsame : s'.core = s.core := by
      simp only [State.takeEvent] at h
      split at h
      · split_ifs at h
        all_goals
          cases h
          rfl
      · cases h
    rw [hsame]
    exact .still
  | callbackReturns =>
    have hsame : s'.core = s.core := by
      simp only [State.callbackReturns] at h
      split at h
      · cases h
      · cases h
        rfl
      · cases h
    rw [hsame]
    exact .still
  | registerCallback e present =>
    cases h
    exact .still
  | answer i accepted result =>
    rw [answer_core h]
    exact .still
  | sendEvent e =>
    have hsame : s'.core = s.core := by
      simp only [State.sendEvent] at h
      split_ifs at h
      cases h
      have hids : (s.incoming ++ [Incoming.call e]).filterMap Incoming.ids =
          s.incoming.filterMap Incoming.ids := by
        rw [List.filterMap_append]
        exact List.append_nil _
      unfold State.core
      dsimp only
      rw [hids]
    rw [hsame]
    exact .still
  | lose =>
    cases h
    exact .clears (Or.inl rfl) (fun hr => hr) (Nat.le_refl _)

/-- Every step keeps the bookkeeping of the requests. -/
theorem step_ok {l : Label} (hok : s.core.Ok) (hb : Backed s l) (h : step l s = some s') :
    s'.core.Ok :=
  hok.step (step_core hok hb h)

theorem fresh_ok (id : Str) (xidCounter : Xid) : (State.fresh id xidCounter).core.Ok where
  below := by
    rintro c (⟨n, hn⟩ | ⟨p, hp, _⟩)
    · cases hn
    · cases hp
  same := by
    rintro c c' (⟨n, hn⟩ | ⟨p, hp, _⟩)
    · cases hn
    · cases hp
  conns _ hw := by cases hw
  calls _ hq := by cases hq
  apart _ _ hp := by cases hp
  nodup := Multiset.nodup_zero
  whose _ hx := absurd hx (Multiset.notMem_zero _)
  shown _ hx := absurd hx (Multiset.notMem_zero _)
  queued _ ha := by cases ha
  unwritten _ hp := by cases hp
  once _ hc := by cases hc
  ready _ _ hc := by cases hc
  received _ _ hp := by cases hp
  origin _ hd := by cases hd
  last _ hd := by cases hd
  arrived _ hd := by cases hd
  ended _ hd := by cases hd

end Steps

end Client

end SimpleChubby
