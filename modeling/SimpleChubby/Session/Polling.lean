import SimpleChubby.Session.Pollset

/-!
# The runs of a `pollset`

Callbacks are registered and removed between two calls of `poll` and by the callbacks
themselves. In every run `poll` gets through, and whoever looks at the callbacks only
sees a map: the row, the places, `r` and `consolidate` make no difference but for the
order in which the descriptors are visited.
-/

namespace SimpleChubby

variable {κ : Type} {effects : List (PollCall κ) → List (PollCmd κ)} {revents : Int → Revents}

/-! ## A call of `poll` -/

/-- `poll` visits the descriptors in the order of the row. -/
theorem PollRun.poll_spec (heffects : ∀ called, ∀ cmd ∈ effects called, cmd.Legal)
    {s : PollRun κ} (h : s.pollset.Ok)
    (hnval : ∀ fd ∈ s.pollset.keys, (revents fd).pollnval = false) :
    ∃ s', poll effects (some revents) s = some s' ∧ s'.pollset.Ok ∧ s'.pollset.Exact ∧
      s'.watching =
        s.pollset.keys.foldl (Watching.visit effects revents) s.watching := by
  have hrow : ∀ j fd, s.pollset.keys[j]? = some fd →
      (observe revents s.pollset).row[0 + j]? = some (fd, revents fd) := by
    intro j fd hj
    rw [row_observe, Nat.zero_add, List.getElem?_map, hj]
    rfl
  obtain ⟨s₁, hloop, hkept⟩ := loop_spec (s := { s with pollset := observe revents s.pollset })
    heffects s.pollset.keys (ok_observe h) hrow hnval
  obtain ⟨ps', hconsolidate, hok, hinterests, hexact⟩ := Pollset.consolidate_spec hkept.ok
  refine ⟨{ s₁ with pollset := ps' }, ?_, hok, hexact, ?_⟩
  · have hlen : (observe revents s.pollset).slots.length = s.pollset.keys.length := by
      simp [observe, SlotTable.keys]
    unfold poll
    dsimp only
    rw [ready_observe, hlen, hloop, Option.bind_some, hconsolidate]
    rfl
  · have hwatching : PollRun.watching { s₁ with pollset := ps' } = s₁.watching := by
      unfold watching
      rw [hinterests]
    have hobserve : PollRun.watching { s with pollset := observe revents s.pollset } =
        s.watching := by
      unfold watching
      rw [interests_observe h]
    rw [hwatching, hkept.watching, hobserve]

/-! ## Runs -/

/-- A call of `fd_cb`, or of `poll` with what the system reports; a signal can
    interrupt the wait instead. -/
inductive PollLabel (κ : Type) where
  | cmd (c : PollCmd κ)
  | poll (reported : Option (Int → Revents))

/-- Whether it is a call of `poll` that is not interrupted. -/
def PollLabel.polls : PollLabel κ → Bool
  | .poll (some _) => true
  | _ => false

/-- The runs of a `pollset` whose callbacks do what `effects` tells. -/
def polling (effects : List (PollCall κ) → List (PollCmd κ)) :
    Lts (PollRun κ) (PollLabel κ) where
  init s := s = ⟨.fresh, []⟩
  step l s :=
    match l with
    | .cmd c => s.apply c
    | .poll reported => PollRun.poll effects reported s

/-- What is asked of a `pollset` is legal, and no descriptor in the row has been closed. -/
def Polled (s : PollRun κ) : PollLabel κ → Prop
  | .cmd c => c.Legal
  | .poll (some revents) => ∀ fd ∈ s.pollset.keys, (revents fd).pollnval = false
  | .poll none => True

instance (s : PollRun κ) : ∀ l : PollLabel κ, Decidable (Polled s l)
  | .cmd c => inferInstanceAs (Decidable c.Legal)
  | .poll (some revents) =>
    inferInstanceAs (Decidable (∀ fd ∈ s.pollset.keys, (revents fd).pollnval = false))
  | .poll none => inferInstanceAs (Decidable True)

/-- A listener on 3 that accepts 4 and 5, and a reader that closes 4. -/
def accepting (called : List (PollCall Nat)) : List (PollCmd Nat) :=
  match called.getLast? with
  | some (3, _) => [.add 4 .read (some 1), .add 5 .read (some 1), .add 5 .writeOnce (some 2)]
  | some (4, _) => [.remove 4 .readWrite]
  | _ => []

theorem accepting_legal : ∀ called, ∀ cmd ∈ accepting called, cmd.Legal := by
  intro called cmd hcmd
  unfold accepting at hcmd
  split at hcmd
  · simp only [List.mem_cons, List.not_mem_nil, or_false] at hcmd
    rcases hcmd with rfl | rfl | rfl <;> decide
  · obtain rfl := List.mem_singleton.mp hcmd
    trivial
  · cases hcmd

/-- The system reports something to read for some descriptors, and 5 can be written. -/
def readable (fds : List Int) (fd : Int) : Revents :=
  ⟨fds.contains fd, fd == 5, false, false, false⟩

/-- The listener is registered, a signal comes, and then two connections. -/
def acceptance : List (PollLabel Nat) :=
  [.cmd (.add 3 .read (some 0)), .poll none, .poll (some (readable [3]))]

/-- The listener has accepted two connections. -/
def accepted : PollRun Nat :=
  ((polling accepting).exec Polled acceptance ⟨.fresh, []⟩).get (by decide)

theorem accepted_reachable : (polling accepting).Reach Polled accepted :=
  (Lts.Reach.init rfl).exec (Option.some_get _).symm

theorem ok_reachable (heffects : ∀ called, ∀ cmd ∈ effects called, cmd.Legal) {s : PollRun κ}
    (h : (polling effects).Reach Polled s) : s.pollset.Ok := by
  apply h.invariant (I := fun s => s.pollset.Ok)
  · intro s hs
    rw [show s = ⟨.fresh, []⟩ from hs]
    exact Pollset.ok_fresh
  · intro s s' l _ hok hl hstep
    match l, hl, hstep with
    | .cmd c, hl, hstep =>
      obtain ⟨s₁, happly, hkept⟩ := PollRun.apply_spec hok hl
      obtain rfl := Option.some.inj (happly.symm.trans hstep)
      exact hkept.ok
    | .poll (some revents), hl, hstep =>
      obtain ⟨s₁, hpoll, hok', _⟩ := PollRun.poll_spec heffects hok hl
      obtain rfl := Option.some.inj (hpoll.symm.trans hstep)
      exact hok'
    | .poll none, _, hstep =>
      obtain rfl := Option.some.inj hstep
      exact hok

/-- In every run, whatever the callbacks register and remove while they are called, no
    `at` of `pollset` throws and no assertion fails. After each `poll` that is not
    interrupted the row has the descriptors with a callback, each once, and the next
    one waits for exactly what is registered; one that is interrupted changes nothing. -/
theorem polling_proceeds (heffects : ∀ called, ∀ cmd ∈ effects called, cmd.Legal)
    (s : PollRun κ) (h : (polling effects).Reach Polled s) (l : PollLabel κ) (hl : Polled s l) :
    ∃ s', (polling effects).step l s = some s' ∧
      (l.polls = true → s'.pollset.Exact ∧
        (s'.pollset.numCbs = 0 ↔ ∀ fd side, s'.pollset.interests fd side = none)) ∧
      (l = .poll none → s' = s) := by
  have hok := ok_reachable heffects h
  match l, hl with
  | .cmd c, hl =>
    obtain ⟨s', happly, _⟩ := PollRun.apply_spec hok hl
    exact ⟨s', happly, fun hpolls => (by cases hpolls), fun heq => by cases heq⟩
  | .poll none, _ => exact ⟨s, rfl, fun hpolls => (by cases hpolls), fun _ => rfl⟩
  | .poll (some revents), hl =>
    obtain ⟨s', hpoll, _, hexact, _⟩ := PollRun.poll_spec heffects hok hl
    refine ⟨s', hpoll, fun _ => ⟨hexact, ?_⟩, fun heq => by cases heq⟩
    have hempty : s'.pollset.numCbs = 0 ↔ s'.pollset.keys = [] := by
      simp [Pollset.numCbs, SlotTable.keys]
    rw [hempty, List.eq_nil_iff_forall_not_mem]
    constructor
    · intro hnone fd side
      cases hside : s'.pollset.interests fd side with
      | none => rfl
      | some v => exact absurd ((hexact.present fd).mpr ⟨side, by rw [hside]; rfl⟩) (hnone fd)
    · intro hnone fd hfd
      obtain ⟨side, hside⟩ := (hexact.present fd).mp hfd
      rw [hnone fd side] at hside
      cases hside

/-- The connection on 4 ends; the place that it leaves is taken by that on 5. -/
theorem polling_closed :
    ∃ s', (polling accepting).step (.poll (some (readable [4, 5]))) accepted = some s' ∧
      ((PollLabel.poll (some (readable [4, 5])) : PollLabel Nat).polls = true →
        s'.pollset.Exact ∧
          (s'.pollset.numCbs = 0 ↔ ∀ fd side, s'.pollset.interests fd side = none)) ∧
      ((PollLabel.poll (some (readable [4, 5])) : PollLabel Nat) = .poll none → s' = accepted) :=
  polling_proceeds accepting_legal accepted accepted_reachable _ (by decide)

/-! ## The map of callbacks -/

/-- A call of `fd_cb`, or of `poll` with the order in which it visits descriptors and
    what is reported for them. -/
inductive DispatchLabel (κ : Type) where
  | cmd (c : PollCmd κ)
  | poll (order : List Int) (revents : Int → Revents)
  | interrupted

/-- The call of which a map sees the order of the visits. -/
def DispatchLabel.call : DispatchLabel κ → PollLabel κ
  | .cmd c => .cmd c
  | .poll _ revents => .poll (some revents)
  | .interrupted => .poll none

/-- A map of callbacks: what a `pollset` is for. -/
def dispatching (effects : List (PollCall κ) → List (PollCmd κ)) :
    Lts (Watching κ) (DispatchLabel κ) where
  init w := w = .fresh
  step l w :=
    match l with
    | .cmd c => some (w.apply c)
    | .poll order revents => some (order.foldl (Watching.visit effects revents) w)
    | .interrupted => some w

/-- `poll` visits every descriptor with a callback, and none twice. -/
def Dispatched (w : Watching κ) : DispatchLabel κ → Prop
  | .cmd c => c.Legal
  | .poll order _ => order.Nodup ∧ ∀ fd side, (w.interests fd side).isSome → fd ∈ order
  | .interrupted => True

theorem mem_keys_of_interests {ps : Pollset κ} (h : ps.Ok) {fd : Int} {side : Side}
    (hside : (ps.interests fd side).isSome) : fd ∈ ps.keys := by
  rw [h.linked.mem_keys]
  unfold Pollset.interests at hside
  cases hentry : ps.entry fd with
  | none => rw [hentry] at hside; cases hside
  | some e => rfl

/-- For whoever registers callbacks, every run of a `pollset` is a run of the map of
    callbacks with the same calls of `fd_cb` and `poll` and the same reports. -/
theorem polling_refines (heffects : ∀ called, ∀ cmd ∈ effects called, cmd.Legal)
    (labels : List (PollLabel κ)) (s : PollRun κ) (h : (polling effects).Run Polled labels s) :
    ∃ labels' : List (DispatchLabel κ), labels'.map DispatchLabel.call = labels ∧
      (dispatching effects).Run Dispatched labels' s.watching := by
  induction h with
  | init h =>
    rw [show _ = (⟨.fresh, []⟩ : PollRun κ) from h]
    exact ⟨[], rfl, .init rfl⟩
  | @step labels s s' l hs hl hstep ih =>
    have hok := ok_reachable heffects hs.reach
    obtain ⟨labels', rfl, hrun⟩ := ih
    have hnext : ∀ l' : DispatchLabel κ, l'.call = l → Dispatched s.watching l' →
        (dispatching effects).step l' s.watching = some s'.watching →
        ∃ labels'' : List (DispatchLabel κ),
          labels''.map DispatchLabel.call = labels'.map DispatchLabel.call ++ [l] ∧
            (dispatching effects).Run Dispatched labels'' s'.watching := by
      intro l' hcall hallowed hnext
      refine ⟨labels' ++ [l'], ?_, hrun.step hallowed hnext⟩
      rw [List.map_append, List.map_singleton, hcall]
    match l, hl, hstep with
    | .cmd c, hl, hstep =>
      obtain ⟨s₁, happly, hkept⟩ := PollRun.apply_spec hok hl
      obtain rfl := Option.some.inj (happly.symm.trans hstep)
      exact hnext (.cmd c) rfl hl (congrArg some hkept.watching.symm)
    | .poll (some revents), hl, hstep =>
      obtain ⟨s₁, hpoll, _, _, hwatching⟩ := PollRun.poll_spec heffects hok hl
      obtain rfl := Option.some.inj (hpoll.symm.trans hstep)
      refine hnext (.poll s.pollset.keys revents) rfl ⟨hok.linked.keys_nodup, ?_⟩
        (congrArg some hwatching.symm)
      intro fd side hside
      exact mem_keys_of_interests hok hside
    | .poll none, _, hstep =>
      obtain rfl := Option.some.inj hstep
      exact hnext .interrupted rfl trivial rfl

theorem polling_accepted :
    ∃ s, (polling accepting).exec Polled acceptance ⟨.fresh, []⟩ = some s ∧
      s.called = [(3, .read, 0)] ∧
      ∃ labels' : List (DispatchLabel Nat), labels'.map DispatchLabel.call = acceptance ∧
        (dispatching accepting).Run Dispatched labels' s.watching := by
  have hrun : ∃ s, (polling accepting).exec Polled acceptance ⟨.fresh, []⟩ = some s ∧
      s.called = [(3, .read, 0)] := ⟨_, rfl, rfl⟩
  obtain ⟨s, hs, hcalled⟩ := hrun
  exact ⟨s, hs, hcalled, polling_refines accepting_legal acceptance s (Lts.Run.exec (.init rfl) hs)⟩

/-! ## What a `poll` calls -/

/-- The descriptor and the side of a callback that has been called. -/
def PollCall.slot (c : PollCall κ) : Int × Side := (c.1, c.2.1)

namespace Watching

variable {w : Watching κ} {fd : Int} {side : Side}

theorem called_apply (w : Watching κ) (cmd : PollCmd κ) : (w.apply cmd).called = w.called := by
  cases cmd <;> rfl

theorem called_call (c : κ) (w : Watching κ) :
    (w.call effects fd side c).called = w.called ++ [(fd, side, c)] := by
  unfold call
  apply List.foldlRecOn (motive := fun w' : Watching κ => w'.called = w.called ++ [(fd, side, c)])
  · rfl
  · intro w' hw' cmd _
    rw [called_apply, hw']

/-- What the visits of some places have called: for each at most one callback, in the
    order of the visits, and only where there was a reason to. -/
structure Calls (revents : Int → Revents) (places : List (Int × Side)) (w w' : Watching κ) :
    Prop where
  calls : ∃ new, w'.called = w.called ++ new ∧ (new.map PollCall.slot).Sublist places ∧
    ∀ c ∈ new, (revents c.1).wakes c.2.1 = true

theorem Calls.append {w' w'' : Watching κ} {places places' : List (Int × Side)}
    (h : Calls revents places w w') (h' : Calls revents places' w' w'') :
    Calls revents (places ++ places') w w'' := by
  obtain ⟨new, hcalled, hplaces, hwakes⟩ := h.calls
  obtain ⟨new', hcalled', hplaces', hwakes'⟩ := h'.calls
  refine ⟨new ++ new', ?_, ?_, ?_⟩
  · rw [hcalled', hcalled, List.append_assoc]
  · rw [List.map_append]
    exact hplaces.append hplaces'
  · intro c hc
    rcases List.mem_append.mp hc with hc | hc
    · exact hwakes c hc
    · exact hwakes' c hc

variable (effects revents) in
theorem calls_serve (side : Side) (fd : Int) (w : Watching κ) :
    Calls revents [(fd, side)] w (w.serve effects revents side fd) := by
  have hcall : ∀ (c : κ) (w' : Watching κ), w'.called = w.called →
      (revents fd).wakes side = true →
      Calls revents [(fd, side)] w (w'.call effects fd side c) := by
    intro c w' hw' hwakes
    refine ⟨[(fd, side, c)], by rw [called_call, hw'], List.Sublist.refl _, ?_⟩
    simpa using hwakes
  unfold serve
  by_cases hwakes : (revents fd).wakes side = true
  · rw [if_pos hwakes]
    match w.interests fd side with
    | none => exact ⟨[], by simp, by simp, by simp⟩
    | some (c, true) => exact hcall c _ rfl hwakes
    | some (c, false) => exact hcall c _ rfl hwakes
  · rw [if_neg hwakes]
    exact ⟨[], by simp, by simp, by simp⟩

variable (effects revents) in
theorem calls_visits (order : List Int) (w : Watching κ) :
    Calls revents (order.flatMap fun fd => [(fd, .read), (fd, .write)]) w
      (order.foldl (visit effects revents) w) := by
  induction order generalizing w with
  | nil => exact ⟨[], by simp, by simp, by simp⟩
  | cons fd rest ih =>
    have hvisit := (calls_serve effects revents .read fd w).append
      (calls_serve effects revents .write fd (w.serve effects revents .read fd))
    exact hvisit.append (ih (w.visit effects revents fd))

/-! A callback that no other one changes is called when it is due. -/

/-- The calls that others than the callback of `side` of `fd` have made of `fd_cb`, from
    the `n`th callback of `called` on, leave it alone. -/
def Spared (effects : List (PollCall κ) → List (PollCmd κ)) (called : List (PollCall κ)) (n : Nat)
    (fd : Int) (side : Side) : Prop :=
  ∀ k c, n ≤ k → called[k]? = some c → c.slot ≠ (fd, side) →
    ∀ cmd ∈ effects (called.take (k + 1)), ¬ cmd.Touches fd side

theorem interests_apply {cmd : PollCmd κ} (h : ¬ cmd.Touches fd side) :
    (w.apply cmd).interests fd side = w.interests fd side := by
  cases cmd with
  | add fd' op c => exact if_neg fun hfd => h ⟨hfd.1.symm, hfd.2⟩
  | remove fd' op => exact if_neg fun hfd => h ⟨hfd.1.symm, hfd.2⟩

theorem interests_call {fd' : Int} {side' : Side} {c : κ}
    (h : ∀ cmd ∈ effects (w.called ++ [(fd', side', c)]), ¬ cmd.Touches fd side) :
    (w.call effects fd' side' c).interests fd side = w.interests fd side := by
  unfold call
  apply List.foldlRecOn
    (motive := fun w' : Watching κ => w'.interests fd side = w.interests fd side)
  · rfl
  · intro w' hw' cmd hcmd
    rw [interests_apply (h cmd hcmd), hw']

variable {all : List (PollCall κ)} {n : Nat}

/-- What is called next is a callback of `all`. -/
theorem Spared.next (h : Spared effects all n fd side) (hn : n ≤ w.called.length) {fd' : Int}
    {side' : Side} {c : κ} (hne : (fd', side') ≠ (fd, side))
    (hall : (w.call effects fd' side' c).called <+: all) :
    ∀ cmd ∈ effects (w.called ++ [(fd', side', c)]), ¬ cmd.Touches fd side := by
  rw [called_call] at hall
  obtain ⟨rest, rfl⟩ := hall
  have hspared := h w.called.length (fd', side', c) hn
    (by rw [List.append_assoc, List.getElem?_append_right (Nat.le_refl _), Nat.sub_self]; rfl) hne
  rwa [List.take_left' (by rw [List.length_append, List.length_singleton])] at hspared

theorem interests_serve (hspared : Spared effects all n fd side) (hn : n ≤ w.called.length)
    {fd' : Int} {side' : Side} (hne : (fd', side') ≠ (fd, side))
    (hall : (w.serve effects revents side' fd').called <+: all) :
    (w.serve effects revents side' fd').interests fd side = w.interests fd side := by
  unfold serve at hall ⊢
  split_ifs at hall ⊢
  · match hinterest : w.interests fd' side' with
    | none => rfl
    | some (c, true) =>
      rw [hinterest] at hall
      have hclear : (w.clear fd' side').interests fd side = w.interests fd side :=
        if_neg fun hsame => hne (by rw [hsame.1, hsame.2])
      exact (interests_call (hspared.next (w := w.clear fd' side') hn hne hall)).trans hclear
    | some (c, false) =>
      rw [hinterest] at hall
      exact interests_call (hspared.next hn hne hall)
  · rfl

theorem called_serve {c : κ} {once : Bool} (hn : n ≤ w.called.length)
    (hside : w.interests fd side = some (c, once)) (hwakes : (revents fd).wakes side = true) :
    (fd, side, c) ∈ (w.serve effects revents side fd).called.drop n := by
  have hcall : ∀ w' : Watching κ, w'.called = w.called →
      (fd, side, c) ∈ (w'.call effects fd side c).called.drop n := by
    intro w' hw'
    rw [called_call, hw', List.drop_append_of_le_length hn]
    simp
  unfold serve
  rw [if_pos hwakes, hside]
  cases once with
  | true => exact hcall _ rfl
  | false => exact hcall _ rfl

theorem Calls.front {places : List (Int × Side)} {w' : Watching κ}
    (h : Calls revents places w w') : w.called <+: w'.called := by
  obtain ⟨new, hcalled, _⟩ := h.calls
  exact ⟨new, hcalled.symm⟩

theorem mem_drop_of_front {α : Type} {l l' : List α} {n : Nat} {a : α} (h : l <+: l')
    (hn : n ≤ l.length) (ha : a ∈ l.drop n) : a ∈ l'.drop n := by
  obtain ⟨rest, rfl⟩ := h
  rw [List.drop_append_of_le_length hn]
  exact List.mem_append_left _ ha

/-- The induction is on the visits: until the descriptor is visited what is registered
    for it stays, and afterwards its call stays in the list. -/
theorem called_visits {c : κ} {once : Bool} (order : List Int) (hmem : fd ∈ order)
    (hspared : Spared effects all n fd side) (hn : n ≤ w.called.length)
    (hall : (order.foldl (visit effects revents) w).called <+: all)
    (hside : w.interests fd side = some (c, once))
    (hwakes : (revents fd).wakes side = true) : (fd, side, c) ∈ all.drop n := by
  induction order generalizing w with
  | nil => cases hmem
  | cons fd' rest ih =>
    have hread := (calls_serve effects revents .read fd' w).front
    have hwrite :=
      (calls_serve effects revents .write fd' (w.serve effects revents .read fd')).front
    have hrest := (calls_visits effects revents rest (w.visit effects revents fd')).front
    rw [List.foldl_cons] at hall
    have hvisited : (w.visit effects revents fd').called <+: all := hrest.trans hall
    have hreads : (w.serve effects revents .read fd').called <+: all := hwrite.trans hvisited
    have hn' : n ≤ (w.serve effects revents .read fd').called.length :=
      Nat.le_trans hn hread.length_le
    have hn'' : n ≤ (w.visit effects revents fd').called.length :=
      Nat.le_trans hn' hwrite.length_le
    by_cases hfd : fd' = fd
    · subst hfd
      cases side with
      | read => exact mem_drop_of_front hreads hn' (called_serve hn hside hwakes)
      | write =>
        have hkept : (w.serve effects revents .read fd').interests fd' .write = some (c, once) := by
          rw [interests_serve hspared hn (by simp) hreads, hside]
        exact mem_drop_of_front hvisited hn'' (called_serve hn' hkept hwakes)
    · apply ih ((List.mem_cons.mp hmem).resolve_left (Ne.symm hfd)) hn'' hall
      have hne : ∀ side', (fd', side') ≠ (fd, side) := fun _ heq => hfd (congrArg Prod.fst heq)
      rw [visit, interests_serve hspared hn' (hne _) hvisited,
        interests_serve hspared hn (hne _) hreads]
      exact hside

end Watching

/-- A `poll` calls each callback once at most, and only where the system has reported a
    reason to; a callback for which there is one is called unless another one that it
    calls changes what is registered there. -/
theorem polling_calls (heffects : ∀ called, ∀ cmd ∈ effects called, cmd.Legal) (s s' : PollRun κ)
    (h : (polling effects).Reach Polled s) (hl : Polled s (.poll (some revents)))
    (hstep : (polling effects).step (.poll (some revents)) s = some s') :
    ∃ new, s'.called = s.called ++ new ∧ (new.map PollCall.slot).Nodup ∧
      (∀ c ∈ new, (revents c.1).wakes c.2.1 = true) ∧
      ∀ fd side c once, s.pollset.interests fd side = some (c, once) →
        (revents fd).wakes side = true →
        (∀ k c', new[k]? = some c' → c'.slot ≠ (fd, side) →
          ∀ cmd ∈ effects (s.called ++ new.take (k + 1)), ¬ cmd.Touches fd side) →
        (fd, side, c) ∈ new := by
  have hok := ok_reachable heffects h
  obtain ⟨s₁, hpoll, _, _, hwatching⟩ := PollRun.poll_spec heffects hok hl
  obtain rfl := Option.some.inj (hpoll.symm.trans hstep)
  have hcalled : s₁.called = (s.pollset.keys.foldl (Watching.visit effects revents)
      s.watching).called := congrArg Watching.called hwatching
  obtain ⟨new, hnew, hsub, hwakes⟩ :=
    (Watching.calls_visits effects revents s.pollset.keys s.watching).calls
  refine ⟨new, hcalled.trans hnew, hsub.nodup ?_, hwakes, ?_⟩
  · rw [List.nodup_flatMap]
    refine ⟨fun fd _ => by simp, ?_⟩
    apply hok.linked.keys_nodup.imp
    intro fd fd' hne p hp hp'
    simp only [List.mem_cons, List.not_mem_nil, or_false] at hp hp'
    rcases hp with rfl | rfl <;> rcases hp' with hp' | hp' <;> cases hp' <;> exact hne rfl
  · intro fd side c once hside hdue huntouched
    have hspared : Watching.Spared effects (s.called ++ new) s.called.length fd side := by
      intro k c' hk hc' hne
      rw [List.getElem?_append_right hk] at hc'
      have htake : (s.called ++ new).take (k + 1) =
          s.called ++ new.take (k - s.called.length + 1) := by
        rw [List.take_append, List.take_of_length_le (by omega)]
        congr 2
        omega
      rw [htake]
      exact huntouched _ c' hc' hne
    have hmem := Watching.called_visits (w := s.watching) s.pollset.keys
      (mem_keys_of_interests hok (by rw [hside]; rfl)) hspared (Nat.le_refl _)
      (by rw [hnew]; exact List.prefix_rfl) hside hdue
    rwa [List.drop_left] at hmem

/-- What has been accepted is read: 4, and 5, which can be written too. -/
def closed : PollRun Nat :=
  ((polling accepting).step (.poll (some (readable [4, 5]))) accepted).get (by decide)

/-- The reader of 4 removes callbacks, but none of 5. -/
theorem polling_reads :
    ∃ new, closed.called = accepted.called ++ new ∧ (new.map PollCall.slot).Nodup ∧
      (∀ c ∈ new, (readable [4, 5] c.1).wakes c.2.1 = true) ∧ (5, .read, 1) ∈ new ∧
        (5, .write, 2) ∈ new := by
  have hstep : (polling accepting).step (.poll (some (readable [4, 5]))) accepted = some closed :=
    (Option.some_get _).symm
  obtain ⟨new, hnew, hnodup, hwakes, hcalls⟩ :=
    polling_calls accepting_legal accepted closed accepted_reachable (by decide) hstep
  obtain rfl : new = [(4, .read, 1), (5, .read, 1), (5, .write, 2)] := by
    have hclosed : closed.called =
        accepted.called ++ [(4, .read, 1), (5, .read, 1), (5, .write, 2)] := by decide
    exact List.append_cancel_left (hnew.symm.trans hclosed)
  refine ⟨_, hnew, hnodup, hwakes, hcalls 5 .read 1 false (by decide) (by decide) ?_,
    hcalls 5 .write 2 true (by decide) (by decide) ?_⟩
  · intro k c' hc' hne
    match k, hc' with
    | 0, _ => decide
    | 1, _ => decide
    | 2, _ => decide
  · intro k c' hc' hne
    match k, hc' with
    | 0, _ => decide
    | 1, _ => decide
    | 2, _ => decide

end SimpleChubby
