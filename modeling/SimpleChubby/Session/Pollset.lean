import SimpleChubby.Lib.Lts
import SimpleChubby.Lib.SlotTable

/-!
# `pollset`

The event loop under all sockets (`xdrpp/pollset.h`, `xdrpp/pollset.cc`): a row of
`pollfd`s for `poll`, and a map from descriptors to their callbacks and to their places
in the row. A callback that is taken away leaves its place behind until `consolidate`,
at the end of `poll`, moves the last ones into the gaps.

For those who register callbacks, it is a map from a descriptor and a direction to a
callback. The row plays no part but for the order in which callbacks are called.
-/

namespace SimpleChubby

/-! ## The functions of `pollset` -/

/-- The two conditions for which a callback can wait. -/
inductive Side where
  | read
  | write
  deriving DecidableEq, Repr

/-- The flags of an `op_t`. -/
structure PollOp where
  kReadFlag : Bool
  kWriteFlag : Bool
  kOnceFlag : Bool
  deriving DecidableEq, Repr

/-- `Read`. -/
def PollOp.read : PollOp := ⟨true, false, false⟩

/-- `Write`. -/
def PollOp.write : PollOp := ⟨false, true, false⟩

/-- `ReadWrite`, for removing callbacks. -/
def PollOp.readWrite : PollOp := ⟨true, true, false⟩

/-- `ReadOnce`. -/
def PollOp.readOnce : PollOp := ⟨true, false, true⟩

/-- `WriteOnce`. -/
def PollOp.writeOnce : PollOp := ⟨false, true, true⟩

/-- Whether an `op_t` names a side. -/
def PollOp.names (op : PollOp) : Side → Bool
  | .read => op.kReadFlag
  | .write => op.kWriteFlag

/-- An `op_t` with which a callback may be added. -/
def PollOp.Single (op : PollOp) : Prop := op.kReadFlag = !op.kWriteFlag

instance (op : PollOp) : Decidable op.Single := inferInstanceAs (Decidable (_ = _))

/-- The `revents` of a `pollfd`. -/
structure Revents where
  pollin : Bool
  pollout : Bool
  pollhup : Bool
  pollerr : Bool
  pollnval : Bool
  deriving DecidableEq, Repr

/-- `revents` is 0. -/
def Revents.none : Revents := ⟨false, false, false, false, false⟩

/-- Whether there is a reason to call the callback of a side. -/
def Revents.wakes (r : Revents) : Side → Bool
  | .read => r.pollin || r.pollhup || r.pollerr
  | .write => r.pollout || r.pollhup || r.pollerr

/-- A `pollfd`, without its descriptor; `pollin` and `pollout` are the bits of `events`. -/
structure Pollfd where
  pollin : Bool
  pollout : Bool
  revents : Revents
  deriving DecidableEq, Repr

namespace Pollfd

/-- A `pollfd` that `resize` has made. -/
def zero : Pollfd := ⟨false, false, .none⟩

/-- `events` is not 0. -/
def events (p : Pollfd) : Bool := p.pollin || p.pollout

/-- The bit of a side in `events`. -/
def bit (p : Pollfd) : Side → Bool
  | .read => p.pollin
  | .write => p.pollout

/-- Set or clear the bit of a side. -/
def setBit (side : Side) (v : Bool) (p : Pollfd) : Pollfd :=
  match side with
  | .read => { p with pollin := v }
  | .write => { p with pollout := v }

end Pollfd

/-- `fd_state`, without `idx`. The callbacks are names from `κ`. -/
structure FdState (κ : Type) where
  rcb : Option κ
  wcb : Option κ
  roneshot : Bool
  woneshot : Bool
  deriving DecidableEq, Repr

namespace FdState

variable {κ : Type}

/-- A `fd_state` that `state_` has made. -/
def zero : FdState κ := ⟨none, none, false, false⟩

/-- The callback of a side, and whether it is for one call. -/
def cb (fs : FdState κ) : Side → Option (κ × Bool)
  | .read => fs.rcb.map fun c => (c, fs.roneshot)
  | .write => fs.wcb.map fun c => (c, fs.woneshot)

/-- Assign the callback of a side. -/
def setCb (side : Side) (c : Option κ) (fs : FdState κ) : FdState κ :=
  match side with
  | .read => { fs with rcb := c }
  | .write => { fs with wcb := c }

/-- Assign the flag of a side. -/
def setOnce (side : Side) (once : Bool) (fs : FdState κ) : FdState κ :=
  match side with
  | .read => { fs with roneshot := once }
  | .write => { fs with woneshot := once }

/-- The assertion of `~fd_state`. -/
def idle (fs : FdState κ) : Bool := fs.rcb.isNone && fs.wcb.isNone

end FdState

/-- `pollfds_` and `state_`, whose values are an `idx` and the callbacks. A `fd_state`
    gets its `idx` as soon as it is made. -/
def Pollset (κ : Type) : Type := SlotTable Int Pollfd (FdState κ)

namespace Pollset

variable {κ : Type}

/-- A `pollset` without callbacks. -/
def fresh : Pollset κ := SlotTable.empty

/-- `pollset::num_cbs`; no timeouts are set. -/
def numCbs (ps : Pollset κ) : Nat := ps.slots.length

/-- The place of a descriptor in the row, with its `pollfd` and `fd_state`; it gets one if
    it has none. `none` when `at` throws or the assertion on the descriptor fails. -/
def slotOf (fd : Int) (ps : Pollset κ) : Option (Pollset κ × Nat × Pollfd × FdState κ) :=
  match ps.places.find fd with
  | none => some (ps.push fd .zero .zero, ps.slots.length, .zero, .zero)
  | some (i, fs) =>
    match ps.slots[i]? with
    | none => none
    | some (fd', pfd) => if fd' = fd then some (ps, i, pfd, fs) else none

/-- `fd_cb_helper` for one side, and the assignment to the reference it returns. -/
def assign (fd : Int) (side : Side) (once : Bool) (c : Option κ) (ps : Pollset κ) :
    Option (Pollset κ) :=
  match ps.slotOf fd with
  | none => none
  | some (ps', i, pfd, fs) =>
    some (ps'.store fd i (pfd.setBit side true) ((fs.setOnce side once).setCb side c))

/-- `fd_cb_helper`, with the callback that the caller assigns; `none` also for
    `std::terminate`. -/
def fdCbHelper (fd : Int) (op : PollOp) (c : Option κ) (ps : Pollset κ) : Option (Pollset κ) :=
  if op.kReadFlag then
    if op.kWriteFlag then none else ps.assign fd .read op.kOnceFlag c
  else if op.kWriteFlag then ps.assign fd .write op.kOnceFlag c
  else none

/-- Take away what an `op_t` names of a `pollfd`. -/
def clearBits (op : PollOp) (pfd : Pollfd) : Pollfd :=
  let pfd := if op.kReadFlag then pfd.setBit .read false else pfd
  if op.kWriteFlag then pfd.setBit .write false else pfd

/-- Take away what an `op_t` names of a `fd_state`. -/
def clearCbs (op : PollOp) (fs : FdState κ) : FdState κ :=
  let fs := if op.kReadFlag then fs.setCb .read none else fs
  if op.kWriteFlag then fs.setCb .write none else fs

/-- `fd_cb` without a callback. -/
def fdCbNull (fd : Int) (op : PollOp) (ps : Pollset κ) : Option (Pollset κ) :=
  match ps.places.find fd with
  | none => some ps
  | some (i, fs) =>
    match ps.slots[i]? with
    | none => none
    | some (fd', pfd) =>
      some ⟨ps.slots.set i (fd', clearBits op pfd), ps.places.set fd (i, clearCbs op fs)⟩

/-- `fd_cb` with a callback, which may be an empty `std::function`. -/
def fdCb (fd : Int) (op : PollOp) (c : Option κ) (ps : Pollset κ) : Option (Pollset κ) :=
  (ps.fdCbHelper fd op c).bind fun ps' => if c.isNone then ps'.fdCbNull fd op else some ps'

/-- `pollset::consolidate`, which destroys the `fd_state`s that it erases. -/
def consolidate (ps : Pollset κ) : Option (Pollset κ) :=
  SlotTable.compact Pollfd.events FdState.idle ps

end Pollset

/-- What is done to a `pollset`: `fd_cb` with a callback, or without. -/
inductive PollCmd (κ : Type) where
  | add (fd : Int) (op : PollOp) (c : Option κ)
  | remove (fd : Int) (op : PollOp)
  deriving DecidableEq, Repr

/-- It changes what is registered for a side of a descriptor. -/
def PollCmd.Touches {κ : Type} (fd : Int) (side : Side) : PollCmd κ → Prop
  | .add fd' op _ => fd' = fd ∧ op.names side = true
  | .remove fd' op => fd' = fd ∧ op.names side = true

instance {κ : Type} (fd : Int) (side : Side) (cmd : PollCmd κ) :
    Decidable (cmd.Touches fd side) := by
  cases cmd <;> unfold PollCmd.Touches <;> infer_instance

/-- A callback that has been called, with its descriptor and side. -/
abbrev PollCall (κ : Type) : Type := Int × Side × κ

/-- A `pollset` and the callbacks that it has called. -/
structure PollRun (κ : Type) where
  pollset : Pollset κ
  called : List (PollCall κ)

namespace PollRun

variable {κ : Type}

/-- Carry out a call of `fd_cb`. -/
def apply (s : PollRun κ) : PollCmd κ → Option (PollRun κ)
  | .add fd op c => (s.pollset.fdCb fd op c).map fun ps => { s with pollset := ps }
  | .remove fd op => (s.pollset.fdCbNull fd op).map fun ps => { s with pollset := ps }

/-- Carry out calls of `fd_cb` in turn. -/
def applyAll : List (PollCmd κ) → PollRun κ → Option (PollRun κ)
  | [], s => some s
  | cmd :: rest, s => (s.apply cmd).bind (applyAll rest)

section Poll

variable (effects : List (PollCall κ) → List (PollCmd κ))

/-- Call a callback; `effects` tells what it does to the `pollset`, from all that has been
    called, itself included. -/
def call (fd : Int) (side : Side) (c : κ) (s : PollRun κ) : Option (PollRun κ) :=
  let called := s.called ++ [(fd, side, c)]
  applyAll (effects called) { s with called := called }

/-- The half of the body of the loop that is for one side. The `fd_state` is that of
    `fd`, the `pollfd` is read anew. -/
def serve (side : Side) (i : Nat) (fd : Int) (s : PollRun κ) : Option (PollRun κ) :=
  match s.pollset.slots[i]?, s.pollset.places.find fd with
  | some (fd', pfd), some (idx, fs) =>
    if pfd.revents.wakes side then
      match fs.cb side with
      | none => some s
      | some (c, true) =>
        call effects fd side c { s with
          pollset := ⟨s.pollset.slots.set i (fd', pfd.setBit side false),
            s.pollset.places.set fd (idx, fs.setCb side none)⟩ }
      | some (c, false) => call effects fd side c s
    else some s
  | _, _ => none

/-- The body of the loop of `poll`, and whether it counts down `r`. -/
def visit (i : Nat) (s : PollRun κ) : Option (PollRun κ × Bool) :=
  match s.pollset.slots[i]? with
  | none => none
  | some (fd, pfd) =>
    if pfd.revents.pollnval then none
    else
      (serve effects .read i fd s).bind fun s' =>
        (serve effects .write i fd s').map fun s'' => (s'', decide (pfd.revents ≠ .none))

/-- The loop of `poll` over `n` places from `i` on. -/
def loop : Nat → Nat → Nat → PollRun κ → Option (PollRun κ)
  | 0, _, _, s => some s
  | n + 1, i, r, s =>
    if r = 0 then some s
    else
      (visit effects i s).bind fun (s', woken) => loop n (i + 1) (if woken then r - 1 else r) s'

/-- What the system call `poll` writes into the row. -/
def observe (revents : Int → Revents) (ps : Pollset κ) : Pollset κ :=
  { ps with slots := ps.slots.map fun (fd, pfd) => (fd, { pfd with revents := revents fd }) }

/-- What the system call returns: for how many descriptors there is an event. -/
def ready (ps : Pollset κ) : Nat := ps.slots.countP fun (_, pfd) => decide (pfd.revents ≠ .none)

/-- `pollset::poll`; `reported` is what the system call writes, and `none` if it ends
    with `EINTR`, in which case `poll` returns at once. Nobody sets timeouts. -/
def poll (reported : Option (Int → Revents)) (s : PollRun κ) : Option (PollRun κ) :=
  match reported with
  | none => some s
  | some revents =>
    let ps := observe revents s.pollset
    (loop effects ps.slots.length 0 (ready ps) { s with pollset := ps }).bind fun s' =>
      s'.pollset.consolidate.map fun ps' => { s' with pollset := ps' }

end Poll

end PollRun

/-! ## What is registered -/

/-- The callbacks that are registered, with whether they are for one call. -/
abbrev Interests (κ : Type) : Type := Int → Side → Option (κ × Bool)

/-- What those who register callbacks know of a `pollset`: what is registered, and what
    has been called. -/
structure Watching (κ : Type) where
  interests : Interests κ
  called : List (PollCall κ)

namespace Watching

variable {κ : Type}

/-- Nothing is registered. -/
def fresh : Watching κ := ⟨fun _ _ => none, []⟩

/-- Change what is registered for the sides of `fd` that `op` names. -/
def set (fd : Int) (op : PollOp) (v : Option (κ × Bool)) (w : Watching κ) : Watching κ where
  interests fd' side := if fd' = fd ∧ op.names side = true then v else w.interests fd' side
  called := w.called

/-- Register a callback, or take callbacks away. -/
def apply (w : Watching κ) : PollCmd κ → Watching κ
  | .add fd op c => w.set fd op (c.map fun c => (c, op.kOnceFlag))
  | .remove fd op => w.set fd op none

/-- Take away the callback of one side. -/
def clear (fd : Int) (side : Side) (w : Watching κ) : Watching κ where
  interests fd' side' := if fd' = fd ∧ side' = side then none else w.interests fd' side'
  called := w.called

section Poll

variable (effects : List (PollCall κ) → List (PollCmd κ))

/-- Call a callback. -/
def call (fd : Int) (side : Side) (c : κ) (w : Watching κ) : Watching κ :=
  let called := w.called ++ [(fd, side, c)]
  (effects called).foldl apply { w with called := called }

/-- Call what is registered for a side of `fd` if there is a reason to. -/
def serve (revents : Int → Revents) (side : Side) (fd : Int) (w : Watching κ) : Watching κ :=
  if (revents fd).wakes side then
    match w.interests fd side with
    | none => w
    | some (c, true) => call effects fd side c (w.clear fd side)
    | some (c, false) => call effects fd side c w
  else w

/-- Call what is registered for `fd`, for reading first. -/
def visit (revents : Int → Revents) (w : Watching κ) (fd : Int) : Watching κ :=
  serve effects revents .write fd (serve effects revents .read fd w)

end Poll

end Watching

/-! ## The row and the map -/

namespace Pollset

variable {κ : Type} {ps ps' : Pollset κ} {fd : Int} {side : Side} {op : PollOp}

/-- The descriptors in the order of the row, with what has been reported for them. -/
def row (ps : Pollset κ) : List (Int × Revents) := ps.slots.map fun s => (s.1, s.2.revents)

/-- What is registered. -/
def interests (ps : Pollset κ) : Interests κ := fun fd side =>
  (ps.entry fd).bind fun e => e.2.cb side

/-- The `pollfd` and the `fd_state` of a descriptor, which are made when they are needed. -/
def current (fd : Int) (ps : Pollset κ) : Pollfd × FdState κ := (ps.entry fd).getD (.zero, .zero)

/-- The row and the map belong together, and `poll` is asked for what is registered. -/
structure Ok (ps : Pollset κ) : Prop where
  linked : ps.Linked
  bits : ∀ {fd pfd fs}, ps.entry fd = some (pfd, fs) →
    ∀ side, pfd.bit side = (fs.cb side).isSome

theorem ok_fresh : (fresh : Pollset κ).Ok where
  linked := SlotTable.linked_empty
  bits h := by cases h

/-- `ps'` is `ps` with `e` stored under `fd`, at its place or at the end. -/
structure Changed (fd : Int) (e : Pollfd × FdState κ) (ps ps' : Pollset κ) : Prop where
  linked : ps'.Linked
  row : ps.row <+: ps'.row
  entries : ∀ fd', ps'.entry fd' = if fd' = fd then some e else ps.entry fd'

theorem row_push (fd : Int) (pfd : Pollfd) (fs : FdState κ) (ps : Pollset κ) :
    row (ps.push fd pfd fs) = ps.row ++ [(fd, pfd.revents)] := by
  simp [row, SlotTable.push]

/-- What has been reported stays when a `pollfd` is changed. -/
theorem row_set {i : Nat} {pfd pfd' : Pollfd} (hslot : ps.slots[i]? = some (fd, pfd))
    (h : pfd'.revents = pfd.revents) :
    (ps.slots.set i (fd, pfd')).map (fun s => (s.1, s.2.revents)) = ps.row := by
  obtain ⟨hi, hget⟩ := List.getElem?_eq_some_iff.mp hslot
  rw [List.map_set]
  apply List.ext_getElem?
  intro n
  by_cases hn : n = i
  · subst hn
    rw [List.getElem?_set_self (by simpa using hi)]
    simp [row, hslot, h]
  · rw [List.getElem?_set_ne (Ne.symm hn)]
    rfl

/-- A stored change. -/
theorem changed_store {i : Nat} {pfd pfd' : Pollfd} {fs fs' : FdState κ} (h : ps.Linked)
    (hplace : ps.places.find fd = some (i, fs)) (hslot : ps.slots[i]? = some (fd, pfd))
    (hrevents : pfd'.revents = pfd.revents) :
    Changed fd (pfd', fs') ps (ps.store fd i pfd' fs') where
  linked := h.store (SlotTable.placeOf_of_place hplace)
  row := by
    have hrow : row (ps.store fd i pfd' fs') = ps.row := row_set hslot hrevents
    exact ⟨[], by rw [hrow, List.append_nil]⟩
  entries := h.entry_store (SlotTable.placeOf_of_place hplace)

theorem Changed.trans {e e' : Pollfd × FdState κ} {ps'' : Pollset κ} (h : Changed fd e ps ps')
    (h' : Changed fd e' ps' ps'') : Changed fd e' ps ps'' where
  linked := h'.linked
  row := h.row.trans h'.row
  entries := by
    intro fd'
    rw [h'.entries fd']
    split_ifs with hfd
    · rfl
    · rw [h.entries fd', if_neg hfd]

@[simp] theorem revents_setBit (pfd : Pollfd) (v : Bool) :
    (pfd.setBit side v).revents = pfd.revents := by
  cases side <;> rfl

@[simp] theorem revents_clearBits (pfd : Pollfd) : (clearBits op pfd).revents = pfd.revents := by
  unfold clearBits
  split_ifs <;> simp

theorem slotOf_spec (h : ps.Linked) (fd : Int) :
    ∃ ps₁ i, ps.slotOf fd = some (ps₁, i, ps.current fd) ∧ Changed fd (ps.current fd) ps ps₁ ∧
      ps₁.places.find fd = some (i, (ps.current fd).2) ∧
      ps₁.slots[i]? = some (fd, (ps.current fd).1) := by
  unfold slotOf
  cases hplace : ps.places.find fd with
  | none =>
    have hcurrent : ps.current fd = (.zero, .zero) := by
      unfold current
      rw [h.entry_eq_none.mpr hplace]
      rfl
    have habsent : ps.placeOf fd = none := by
      unfold SlotTable.placeOf
      rw [hplace]
      rfl
    rw [hcurrent]
    refine ⟨_, _, rfl, ⟨h.push habsent, ?_, h.entry_push⟩, ?_, ?_⟩
    · rw [row_push]
      exact List.prefix_append _ _
    · simp [SlotTable.push]
    · exact List.getElem?_concat_length
  | some p =>
    obtain ⟨i, fs⟩ := p
    obtain ⟨pfd, hslot⟩ := h.filled hplace
    have hentry := SlotTable.entry_of_places hplace hslot
    have hcurrent : ps.current fd = (pfd, fs) := by
      unfold current
      rw [hentry]
      rfl
    refine ⟨ps, i, ?_, ⟨h, List.prefix_rfl, ?_⟩, ?_, ?_⟩
    · simp [hslot, hcurrent]
    · intro fd'
      split_ifs with hfd
      · rw [hfd, hentry, hcurrent]
      · rfl
    · rw [hplace, hcurrent]
    · rw [hslot, hcurrent]

theorem assign_spec (h : ps.Linked) (fd : Int) (side : Side) (once : Bool) (c : Option κ) :
    ∃ ps', ps.assign fd side once c = some ps' ∧
      Changed fd ((ps.current fd).1.setBit side true,
        ((ps.current fd).2.setOnce side once).setCb side c) ps ps' := by
  obtain ⟨ps₁, i, hslotOf, hchanged, hplace, hslot⟩ := slotOf_spec h fd
  refine ⟨_, ?_, hchanged.trans (changed_store hchanged.linked hplace hslot (by simp))⟩
  unfold assign
  rw [hslotOf]

theorem fdCbNull_absent (op : PollOp) (h : ps.Linked) (habsent : ps.entry fd = none) :
    ps.fdCbNull fd op = some ps := by
  unfold fdCbNull
  rw [h.entry_eq_none.mp habsent]

theorem fdCbNull_present (op : PollOp) {pfd : Pollfd} {fs : FdState κ} (h : ps.Linked)
    (hentry : ps.entry fd = some (pfd, fs)) :
    ∃ ps', ps.fdCbNull fd op = some ps' ∧ Changed fd (clearBits op pfd, clearCbs op fs) ps ps' := by
  obtain ⟨i, hplace, hslot⟩ := h.entry_eq_some.mp hentry
  refine ⟨_, ?_, changed_store h hplace hslot (revents_clearBits pfd)⟩
  unfold fdCbNull
  rw [hplace]
  dsimp only
  rw [hslot]
  rfl

/-! ## Registering and removing -/

@[simp] theorem bit_setBit (pfd : Pollfd) (v : Bool) (side side' : Side) :
    (pfd.setBit side v).bit side' = if side' = side then v else pfd.bit side' := by
  cases side <;> cases side' <;> rfl

@[simp] theorem cb_setCb_none (fs : FdState κ) (side side' : Side) :
    (fs.setCb side none).cb side' = if side' = side then none else fs.cb side' := by
  cases side <;> cases side' <;> rfl

@[simp] theorem cb_assigned (fs : FdState κ) (side side' : Side) (once : Bool) (c : Option κ) :
    ((fs.setOnce side once).setCb side c).cb side' =
      if side' = side then c.map (fun c => (c, once)) else fs.cb side' := by
  cases side <;> cases side' <;> rfl

@[simp] theorem bit_clearBits (pfd : Pollfd) (op : PollOp) (side : Side) :
    (clearBits op pfd).bit side = if op.names side = true then false else pfd.bit side := by
  obtain ⟨r, w, o⟩ := op
  cases side <;> cases r <;> cases w <;> rfl

@[simp] theorem cb_clearCbs (fs : FdState κ) (op : PollOp) (side : Side) :
    (clearCbs op fs).cb side = if op.names side = true then none else fs.cb side := by
  obtain ⟨r, w, o⟩ := op
  cases side <;> cases r <;> cases w <;> rfl

/-- What is known of a descriptor that has been changed: the sides in `op` have `v`, the
    other sides what they had. -/
structure Registered (fd : Int) (op : PollOp) (v : Option (κ × Bool)) (ps ps' : Pollset κ) :
    Prop where
  ok : ps'.Ok
  row : ps.row <+: ps'.row
  interests : ∀ fd' side, ps'.interests fd' side =
    if fd' = fd ∧ op.names side = true then v else ps.interests fd' side

theorem current_cb (ps : Pollset κ) (fd : Int) (side : Side) :
    (ps.current fd).2.cb side = ps.interests fd side := by
  unfold current interests
  cases ps.entry fd with
  | none => cases side <;> rfl
  | some e => rfl

theorem Ok.current_bit (h : ps.Ok) (fd : Int) (side : Side) :
    (ps.current fd).1.bit side = (ps.interests fd side).isSome := by
  rw [← current_cb]
  unfold current
  cases hentry : ps.entry fd with
  | none => cases side <;> rfl
  | some e => exact h.bits hentry side

theorem Changed.registered {e : Pollfd × FdState κ} {v : Option (κ × Bool)} (h : ps.Ok)
    (hchanged : Changed fd e ps ps')
    (hcb : ∀ side, e.2.cb side = if op.names side = true then v else ps.interests fd side)
    (hbit : ∀ side, e.1.bit side = (e.2.cb side).isSome) : Registered fd op v ps ps' where
  ok := by
    refine ⟨hchanged.linked, fun {fd' pfd fs} hentry side => ?_⟩
    rw [hchanged.entries fd'] at hentry
    split_ifs at hentry with hfd
    · cases hentry
      exact hbit side
    · exact h.bits hentry side
  row := hchanged.row
  interests := by
    intro fd' side
    unfold interests
    rw [hchanged.entries fd']
    by_cases hfd : fd' = fd
    · subst hfd
      rw [if_pos rfl, Option.bind_some, hcb side]
      by_cases hop : op.names side = true
      · rw [if_pos hop, if_pos ⟨rfl, hop⟩]
      · rw [if_neg hop, if_neg fun h => hop h.2]
        rfl
    · rw [if_neg hfd, if_neg fun h => hfd h.1]

theorem fdCbNull_spec (h : ps.Ok) (fd : Int) (op : PollOp) :
    ∃ ps', ps.fdCbNull fd op = some ps' ∧ Registered fd op none ps ps' := by
  cases hentry : ps.entry fd with
  | none =>
    refine ⟨ps, fdCbNull_absent op h.linked hentry, h, List.prefix_rfl, fun fd' side => ?_⟩
    split_ifs with hfd
    · unfold interests
      rw [hfd.1, hentry]
      rfl
    · rfl
  | some e =>
    obtain ⟨ps', hnull, hchanged⟩ := fdCbNull_present op h.linked hentry
    have hinterests : ∀ side, e.2.cb side = ps.interests fd side := by
      intro side
      unfold interests
      rw [hentry]
      rfl
    refine ⟨ps', hnull, hchanged.registered h (fun side => ?_) (fun side => ?_)⟩
    · simp [hinterests]
    · simp only [bit_clearBits, cb_clearCbs]
      split_ifs
      · rfl
      · exact h.bits hentry side

/-- `fd_cb_helper` looks at one side. -/
theorem fdCbHelper_eq (hop : op.Single) (fd : Int) (c : Option κ) (ps : Pollset κ) :
    ∃ side, (∀ side', op.names side' = true ↔ side' = side) ∧
      ps.fdCbHelper fd op c = ps.assign fd side op.kOnceFlag c := by
  match op, hop with
  | ⟨true, false, once⟩, _ =>
    exact ⟨.read, fun side' => by cases side' <;> simp [PollOp.names], rfl⟩
  | ⟨false, true, once⟩, _ =>
    exact ⟨.write, fun side' => by cases side' <;> simp [PollOp.names], rfl⟩

theorem fdCb_spec (h : ps.Ok) (fd : Int) (hop : op.Single) (c : Option κ) :
    ∃ ps', ps.fdCb fd op c = some ps' ∧
      Registered fd op (c.map fun c => (c, op.kOnceFlag)) ps ps' := by
  obtain ⟨side, hside, hhelper⟩ := fdCbHelper_eq hop fd c ps
  obtain ⟨ps₁, hassign, hchanged⟩ := assign_spec h.linked fd side op.kOnceFlag c
  cases c with
  | some c =>
    refine ⟨ps₁, ?_, hchanged.registered h (fun side' => ?_) (fun side' => ?_)⟩
    · unfold fdCb
      rw [hhelper, hassign]
      rfl
    · simp only [cb_assigned, hside, current_cb]
    · simp only [cb_assigned, bit_setBit, current_cb]
      split_ifs
      · rfl
      · exact h.current_bit fd side'
  | none =>
    -- the empty callback is taken away again
    have hentry : ps₁.entry fd = some ((ps.current fd).1.setBit side true,
        ((ps.current fd).2.setOnce side op.kOnceFlag).setCb side none) := by
      rw [hchanged.entries, if_pos rfl]
    obtain ⟨ps', hnull, hchanged'⟩ := fdCbNull_present op hchanged.linked hentry
    refine ⟨ps', ?_, (hchanged.trans hchanged').registered h (fun side' => ?_)
      (fun side' => ?_)⟩
    · unfold fdCb
      rw [hhelper, hassign]
      exact hnull
    · simp only [cb_clearCbs, cb_assigned, hside, current_cb, Option.map_none]
      split_ifs <;> rfl
    · simp only [bit_clearBits, bit_setBit, cb_clearCbs, cb_assigned, hside, current_cb,
        Option.map_none]
      split_ifs
      · rfl
      · exact h.current_bit fd side'

end Pollset

/-! ## Polling -/

/-- What may be asked of a `pollset`: `ReadWrite` is for removing only. -/
def PollCmd.Legal {κ : Type} : PollCmd κ → Prop
  | .add _ op _ => op.Single
  | .remove _ _ => True

instance {κ : Type} (cmd : PollCmd κ) : Decidable cmd.Legal := by
  cases cmd <;> unfold PollCmd.Legal <;> infer_instance

namespace PollRun

variable {κ : Type} {s s' : PollRun κ} {w : Watching κ}

/-- What is registered and what has been called. -/
def watching (s : PollRun κ) : Watching κ := ⟨s.pollset.interests, s.called⟩

/-- `s'` has come from `s` without `consolidate`, and is `w` for those who register. -/
structure Kept (s s' : PollRun κ) (w : Watching κ) : Prop where
  ok : s'.pollset.Ok
  row : s.pollset.row <+: s'.pollset.row
  watching : s'.watching = w

theorem kept_self (h : s.pollset.Ok) : Kept s s s.watching := ⟨h, List.prefix_rfl, rfl⟩

theorem Kept.trans {s'' : PollRun κ} {w' : Watching κ} (h : Kept s s' w) (h' : Kept s' s'' w') :
    Kept s s'' w' := ⟨h'.ok, h.row.trans h'.row, h'.watching⟩

theorem registered_kept {fd : Int} {op : PollOp} {v : Option (κ × Bool)} {ps' : Pollset κ}
    (h : Pollset.Registered fd op v s.pollset ps') :
    Kept s { s with pollset := ps' } (s.watching.set fd op v) where
  ok := h.ok
  row := h.row
  watching := by
    unfold watching Watching.set
    congr 1
    funext fd' side
    exact h.interests fd' side

theorem apply_spec (h : s.pollset.Ok) {cmd : PollCmd κ} (hcmd : cmd.Legal) :
    ∃ s', s.apply cmd = some s' ∧ Kept s s' (s.watching.apply cmd) := by
  cases cmd with
  | add fd op c =>
    obtain ⟨ps', hfdCb, hregistered⟩ := Pollset.fdCb_spec h fd hcmd c
    exact ⟨_, congrArg (Option.map _) hfdCb, registered_kept hregistered⟩
  | remove fd op =>
    obtain ⟨ps', hnull, hregistered⟩ := Pollset.fdCbNull_spec h fd op
    exact ⟨_, congrArg (Option.map _) hnull, registered_kept hregistered⟩

theorem applyAll_spec (cmds : List (PollCmd κ)) (h : s.pollset.Ok)
    (hcmds : ∀ cmd ∈ cmds, cmd.Legal) :
    ∃ s', applyAll cmds s = some s' ∧ Kept s s' (cmds.foldl Watching.apply s.watching) := by
  induction cmds generalizing s with
  | nil => exact ⟨s, rfl, kept_self h⟩
  | cons cmd rest ih =>
    obtain ⟨s₁, hcmd, hkept⟩ := apply_spec h (hcmds cmd List.mem_cons_self)
    obtain ⟨s₂, hrest, hkept'⟩ := ih hkept.ok fun c hc => hcmds c (List.mem_cons_of_mem _ hc)
    rw [hkept.watching] at hkept'
    exact ⟨s₂, by unfold applyAll; rw [hcmd]; exact hrest, hkept.trans hkept'⟩

section Poll

variable {effects : List (PollCall κ) → List (PollCmd κ)} {revents : Int → Revents} {fd : Int}
  {i : Nat}

theorem call_spec (heffects : ∀ called, ∀ cmd ∈ effects called, cmd.Legal) (fd : Int)
    (side : Side) (c : κ) (h : s.pollset.Ok) :
    ∃ s', call effects fd side c s = some s' ∧ Kept s s' (s.watching.call effects fd side c) := by
  obtain ⟨s', happly, hkept⟩ := applyAll_spec
    (s := { s with called := s.called ++ [(fd, side, c)] })
    _ h (heffects (s.called ++ [(fd, side, c)]))
  exact ⟨s', happly, hkept.ok, hkept.row, hkept.watching⟩

theorem row_getElem? {ps : Pollset κ} {r : Revents} (h : ps.row[i]? = some (fd, r)) :
    ∃ pfd, ps.slots[i]? = some (fd, pfd) ∧ pfd.revents = r := by
  unfold Pollset.row at h
  rw [List.getElem?_map] at h
  obtain ⟨⟨fd', pfd⟩, hslot, heq⟩ := Option.map_eq_some_iff.mp h
  cases heq
  exact ⟨pfd, hslot, rfl⟩

/-- A callback for one call is taken away before it is called. -/
theorem once_kept (side : Side) {pfd : Pollfd} {fs : FdState κ} (h : s.pollset.Ok)
    (hplace : s.pollset.places.find fd = some (i, fs))
    (hslot : s.pollset.slots[i]? = some (fd, pfd)) :
    Kept s { s with
      pollset := s.pollset.store fd i (pfd.setBit side false) (fs.setCb side none) }
      (s.watching.clear fd side) := by
  have hentry := SlotTable.entry_of_places hplace hslot
  have hcb : ∀ side, fs.cb side = s.pollset.interests fd side := by
    intro side
    unfold Pollset.interests
    rw [hentry]
    rfl
  have hchanged : Pollset.Changed fd (pfd.setBit side false, fs.setCb side none) s.pollset
      (s.pollset.store fd i (pfd.setBit side false) (fs.setCb side none)) :=
    Pollset.changed_store h.linked hplace hslot (by simp)
  have hregistered : Pollset.Registered fd ⟨side == .read, side == .write, false⟩ none s.pollset
      (s.pollset.store fd i (pfd.setBit side false) (fs.setCb side none)) := by
    apply hchanged.registered h
    · intro side'
      rw [Pollset.cb_setCb_none, hcb]
      cases side <;> cases side' <;> rfl
    · intro side'
      rw [Pollset.bit_setBit, Pollset.cb_setCb_none]
      split_ifs
      · rfl
      · exact h.bits hentry side'
  have hkept := registered_kept hregistered
  refine ⟨hkept.ok, hkept.row, hkept.watching.trans ?_⟩
  unfold Watching.set Watching.clear
  congr 1
  funext fd' side'
  cases side <;> cases side' <;> simp [PollOp.names]

theorem serve_spec (heffects : ∀ called, ∀ cmd ∈ effects called, cmd.Legal) (side : Side)
    (h : s.pollset.Ok) (hrow : s.pollset.row[i]? = some (fd, revents fd)) :
    ∃ s', serve effects side i fd s = some s' ∧
      Kept s s' (s.watching.serve effects revents side fd) := by
  obtain ⟨pfd, hslot, hrevents⟩ := row_getElem? hrow
  obtain ⟨fs, hplace, hentry⟩ := h.linked.entry_of_slot hslot
  have hcb : fs.cb side = s.watching.interests fd side := by
    show _ = s.pollset.interests fd side
    unfold Pollset.interests
    rw [hentry]
    rfl
  unfold serve Watching.serve
  rw [hslot, hplace, ← hrevents, ← hcb]
  dsimp only
  by_cases hwakes : pfd.revents.wakes side = true
  · rw [if_pos hwakes, if_pos hwakes]
    match fs.cb side with
    | none => exact ⟨s, rfl, kept_self h⟩
    | some (c, true) =>
      have hkept := once_kept side h hplace hslot
      obtain ⟨s', hcall, hkept'⟩ := call_spec heffects fd side c hkept.ok
      rw [hkept.watching] at hkept'
      exact ⟨s', hcall, hkept.trans hkept'⟩
    | some (c, false) => exact call_spec heffects fd side c h
  · rw [if_neg hwakes, if_neg hwakes]
    exact ⟨s, rfl, kept_self h⟩

theorem getElem?_of_front {α : Type} {l l' : List α} {a : α} (h : l <+: l')
    (hi : l[i]? = some a) : l'[i]? = some a := by
  obtain ⟨rest, rfl⟩ := h
  rw [List.getElem?_append_left (List.getElem?_eq_some_iff.mp hi).1, hi]

theorem visit_spec (heffects : ∀ called, ∀ cmd ∈ effects called, cmd.Legal)
    (h : s.pollset.Ok) (hrow : s.pollset.row[i]? = some (fd, revents fd))
    (hnval : (revents fd).pollnval = false) :
    ∃ s', visit effects i s = some (s', decide (revents fd ≠ .none)) ∧
      Kept s s' (s.watching.visit effects revents fd) := by
  obtain ⟨s₁, hread, hkept⟩ := serve_spec heffects .read h hrow
  obtain ⟨s₂, hwrite, hkept'⟩ :=
    serve_spec heffects .write hkept.ok (getElem?_of_front hkept.row hrow)
  rw [hkept.watching] at hkept'
  refine ⟨s₂, ?_, hkept.trans hkept'⟩
  obtain ⟨pfd, hslot, hrevents⟩ := row_getElem? hrow
  unfold visit
  rw [hslot]
  simp [hrevents, hnval, hread, hwrite]

/-- A descriptor for which nothing is reported is left alone. -/
theorem visit_none (h : revents fd = .none) (w : Watching κ) :
    w.visit effects revents fd = w := by
  unfold Watching.visit Watching.serve
  rw [h]
  rfl

theorem loop_zero (n : Nat) : loop effects n i 0 s = some s := by
  cases n <;> rfl

theorem loop_succ {n r : Nat} (hr : r ≠ 0) :
    loop effects (n + 1) i r s = (visit effects i s).bind fun (s', woken) =>
      loop effects n (i + 1) (if woken then r - 1 else r) s' := by
  rw [loop, if_neg hr]

/-- The loop may end when `r` is 0: `r` counts the descriptors that are still to be
    visited and have an event. -/
theorem loop_spec (heffects : ∀ called, ∀ cmd ∈ effects called, cmd.Legal) (order : List Int)
    (h : s.pollset.Ok)
    (hrow : ∀ j fd, order[j]? = some fd → s.pollset.row[i + j]? = some (fd, revents fd))
    (hnval : ∀ fd ∈ order, (revents fd).pollnval = false) :
    ∃ s', loop effects order.length i
        (order.countP fun fd => decide (revents fd ≠ .none)) s = some s' ∧
      Kept s s' (order.foldl (Watching.visit effects revents) s.watching) := by
  induction order generalizing i s with
  | nil => exact ⟨s, rfl, kept_self h⟩
  | cons fd rest ih =>
    by_cases hzero : (fd :: rest).countP (fun fd => decide (revents fd ≠ .none)) = 0
    · -- nothing is reported for the others
      rw [hzero, loop_zero]
      rw [List.countP_eq_zero] at hzero
      have hskip : (fd :: rest).foldl (Watching.visit effects revents) s.watching =
          s.watching := by
        apply List.foldlRecOn (motive := fun w => w = s.watching) _ _ rfl
        rintro w rfl fd' hfd'
        exact visit_none (by simpa using hzero fd' hfd') _
      rw [hskip]
      exact ⟨s, rfl, kept_self h⟩
    · obtain ⟨s₁, hvisit, hkept⟩ := visit_spec heffects h (hrow 0 fd rfl)
        (hnval fd List.mem_cons_self)
      obtain ⟨s₂, hloop, hkept'⟩ := ih (i := i + 1) hkept.ok
        (fun j fd' hj => getElem?_of_front hkept.row (by
          have := hrow (j + 1) fd' hj
          rwa [Nat.add_comm j 1, ← Nat.add_assoc] at this))
        (fun fd' hfd' => hnval fd' (List.mem_cons_of_mem _ hfd'))
      rw [hkept.watching] at hkept'
      refine ⟨s₂, ?_, hkept.trans hkept'⟩
      rw [List.length_cons, loop_succ hzero]
      rw [Nat.add_zero] at hvisit
      rw [hvisit, Option.bind_some, List.countP_cons]
      by_cases hfd : revents fd = .none
      · simpa [hfd] using hloop
      · simpa [hfd] using hloop

theorem row_observe (ps : Pollset κ) :
    (observe revents ps).row = ps.keys.map fun fd => (fd, revents fd) := by
  simp [observe, Pollset.row, SlotTable.keys]

theorem ready_observe (ps : Pollset κ) :
    ready (observe revents ps) = ps.keys.countP fun fd => decide (revents fd ≠ .none) := by
  unfold ready observe SlotTable.keys
  rw [List.countP_map, List.countP_map]
  rfl

/-- The system call changes nothing but `revents`. -/
theorem linked_observe {ps : Pollset κ} (h : ps.Linked) : (observe revents ps).Linked := by
  intro fd i
  have hkey : (observe revents ps).keyAt i = ps.keyAt i := by
    simp only [observe, SlotTable.keyAt, List.getElem?_map, Option.map_map]
    rfl
  rw [hkey]
  exact h fd i

theorem entry_observe {ps : Pollset κ} (h : ps.Linked) (fd : Int) :
    (observe revents ps).entry fd =
      (ps.entry fd).map fun e => (⟨e.1.pollin, e.1.pollout, revents fd⟩, e.2) := by
  unfold SlotTable.entry observe
  cases hplace : ps.places.find fd with
  | none => rfl
  | some p =>
    obtain ⟨pfd, hslot⟩ := h.filled hplace
    simp [hslot]

theorem ok_observe {ps : Pollset κ} (h : ps.Ok) : (observe revents ps).Ok where
  linked := linked_observe h.linked
  bits := by
    intro fd pfd fs hentry side
    rw [entry_observe h.linked] at hentry
    obtain ⟨e, he, heq⟩ := Option.map_eq_some_iff.mp hentry
    cases heq
    rw [← h.bits he side]
    cases side <;> rfl

theorem interests_observe {ps : Pollset κ} (h : ps.Ok) :
    (observe revents ps).interests = ps.interests := by
  funext fd side
  unfold Pollset.interests
  rw [entry_observe h.linked]
  cases ps.entry fd <;> rfl

end Poll

end PollRun

namespace Pollset

variable {κ : Type} {ps : Pollset κ}

/-- The row has the descriptors that have a callback, each once, and `poll` is asked for
    what the callbacks wait for. -/
structure Exact (ps : Pollset κ) : Prop where
  nodup : ps.keys.Nodup
  present : ∀ fd, fd ∈ ps.keys ↔ ∃ side, (ps.interests fd side).isSome
  asked : ∀ s ∈ ps.slots, ∀ side, s.2.bit side = (ps.interests s.1 side).isSome

theorem events_eq_true {pfd : Pollfd} : pfd.events = true ↔ ∃ side, pfd.bit side = true := by
  unfold Pollfd.events
  constructor
  · intro h
    rcases Bool.or_eq_true_iff.mp h with h | h
    · exact ⟨.read, h⟩
    · exact ⟨.write, h⟩
  · rintro ⟨side, h⟩
    cases side
    · exact Bool.or_eq_true_iff.mpr (Or.inl h)
    · exact Bool.or_eq_true_iff.mpr (Or.inr h)

theorem Ok.interests_of_entry (h : ps.Ok) {fd : Int} {e : Pollfd × FdState κ}
    (hentry : ps.entry fd = some e) (side : Side) :
    (ps.interests fd side).isSome = e.1.bit side := by
  unfold interests
  rw [hentry]
  exact (h.bits hentry side).symm

theorem cb_isSome (fs : FdState κ) :
    fs.idle = true ↔ ∀ side, (fs.cb side).isSome = false := by
  unfold FdState.idle FdState.cb
  constructor
  · intro h side
    obtain ⟨hr, hw⟩ := Bool.and_eq_true_iff.mp h
    cases side <;> simp_all
  · intro h
    have hr := h .read
    have hw := h .write
    simp_all

/-- `consolidate` throws nothing and destroys no callback; nothing that is registered
    changes. -/
theorem consolidate_spec (h : ps.Ok) :
    ∃ ps', ps.consolidate = some ps' ∧ ps'.Ok ∧ ps'.interests = ps.interests ∧ ps'.Exact := by
  have hdrop : SlotTable.Disposable Pollfd.events FdState.idle ps := by
    intro fd pfd fs hentry hevents
    rw [cb_isSome]
    intro side
    rw [← h.bits hentry side]
    by_contra hbit
    rw [Bool.not_eq_false] at hbit
    rw [events_eq_true.mpr ⟨side, hbit⟩] at hevents
    cases hevents
  obtain ⟨ps', hcompact, hlinked, hentries, hall⟩ : ∃ ps' : Pollset κ,
      ps.consolidate = some ps' ∧ ps'.Linked ∧
        (∀ fd, ps'.entry fd = (ps.entry fd).filter fun e => e.1.events) ∧
        ∀ s ∈ ps'.slots, s.2.events = true := SlotTable.compact_spec h.linked hdrop
  have hok : ps'.Ok := by
    refine ⟨hlinked, fun {fd pfd fs} hentry side => ?_⟩
    rw [hentries fd] at hentry
    exact h.bits (Option.filter_eq_some_iff.mp hentry).1 side
  have hinterests : ps'.interests = ps.interests := by
    funext fd side
    unfold interests
    rw [hentries fd]
    cases hentry : ps.entry fd with
    | none => rfl
    | some e =>
      by_cases hevents : e.1.events = true
      · rw [Option.filter_some_pos (p := fun e : Pollfd × FdState κ => e.1.events) hevents]
      · have hidle := hdrop fd e.1 e.2 hentry (by simpa using hevents)
        rw [Option.filter_some_neg (p := fun e : Pollfd × FdState κ => e.1.events)
          (by simpa using hevents)]
        have := (cb_isSome e.2).mp hidle side
        rw [Option.isSome_eq_false_iff, Option.isNone_iff_eq_none] at this
        exact this.symm
  refine ⟨ps', hcompact, hok, hinterests, hlinked.keys_nodup, fun fd => ?_, fun s hs side => ?_⟩
  · rw [hlinked.mem_keys, Option.isSome_iff_exists]
    constructor
    · rintro ⟨e, hentry⟩
      obtain ⟨i, _, hslot⟩ := hlinked.entry_eq_some.mp hentry
      obtain ⟨side, hbit⟩ := events_eq_true.mp (hall _ (List.mem_of_getElem? hslot))
      exact ⟨side, by rw [hok.interests_of_entry hentry]; exact hbit⟩
    · rintro ⟨side, hside⟩
      unfold interests at hside
      cases hentry : ps'.entry fd with
      | none => rw [hentry] at hside; cases hside
      | some e => exact ⟨e, rfl⟩
  · obtain ⟨fd, pfd⟩ := s
    obtain ⟨i, hslot⟩ := List.mem_iff_getElem?.mp hs
    obtain ⟨fs, _, hentry⟩ := hlinked.entry_of_slot hslot
    exact (hok.interests_of_entry hentry side).symm

end Pollset

end SimpleChubby
