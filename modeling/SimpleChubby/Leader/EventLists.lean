import SimpleChubby.Leader.Disconnect

/-!
# Subscriptions and open handles

A session is entered in the event lists of a file once for every open that asks
for the event, but one close takes it off altogether. The lists agree with the
open handles as long as no session asks twice for an event of a file, and
closes only handles beside which it has none on the file that asked for one.
-/

namespace SimpleChubby

variable {δ : Type}

/-! ## What asks for an event -/

/-- The flag that asks for an event. -/
def ChubbyEvent.flag : ChubbyEvent → Mode
  | .lockChanged => ModeFlag.evLockChanged
  | .contentModified => ModeFlag.evContentModified

instance {p : ChubbyEvent → Prop} [DecidablePred p] : Decidable (∀ e, p e) :=
  decidable_of_iff (p .lockChanged ∧ p .contentModified)
    ⟨fun h e => by cases e with
      | lockChanged => exact h.1
      | contentModified => exact h.2, fun h => ⟨h _, h _⟩⟩

/-- The sessions to be told of an event, by file. -/
def Leader.listeners (st : Leader δ) : ChubbyEvent → UMap Str (List SessionId)
  | .lockChanged => st.file2lockChangeMap
  | .contentModified => st.file2contentChangeMap

/-- The mode that an input opens or re-opens a file with. -/
def Input.mode : Input → Mode
  | .rpc _ _ (.fileOpen _ mode) => mode
  | .rpc _ _ (.fileReopen _ mode) => mode
  | _ => 0

/-- The modes that the records were opened with, by allocation. A look-up that
    allocates a record opens it with none. -/
def noteMode (st : Leader δ) (input : Input) (_ : Leader δ) (modes : Nat → Mode) : Nat → Mode :=
  fun address => if address < st.nextAddress then modes address else input.mode

/-- The session has a handle on the file open that was opened or re-opened for
    the event. -/
def Leader.Follows (st : Leader δ) (modes : Nat → Mode) (e : ChubbyEvent) (session : SessionId)
    (fileName : Str) : Prop :=
  ∃ p ∈ st.fds session, p.value.fileName = fileName ∧ (modes p.address).has e.flag = true

/-- The event list of a file says rightly whether the session follows it. -/
def Leader.Agrees (st : Leader δ) (modes : Nat → Mode) (e : ChubbyEvent) (session : SessionId)
    (fileName : Str) : Prop :=
  session ∈ (st.listeners e).get fileName ↔ st.Follows modes e session fileName

/-- The event lists name the sessions that follow each file, each of them once. -/
structure Leader.EventLists (st : Leader δ) (modes : Nat → Mode) : Prop where
  agree : ∀ e s f, st.Agrees modes e s f
  once : ∀ e f, ((st.listeners e).get f).Nodup

/-! ## The condition -/

/-- The database opens the node for a `fileOpen` of it. -/
def opensNode (E : Service δ) (db : δ) (fileName : Str) (mode : Mode) : Bool :=
  checkName fileName &&
    !(mode.has ModeFlag.createDirectory && mode.has ModeFlag.createFile) &&
      match openCall E fileName mode db with
      | .ret (some _) _ => true
      | _ => false

theorem opensNode_iff {E : Service δ} {db : δ} {fileName : Str} {mode : Mode} :
    opensNode E db fileName mode = true ↔ checkName fileName = true ∧
      (mode.has ModeFlag.createDirectory && mode.has ModeFlag.createFile) = false ∧
        ∃ n db', openCall E fileName mode db = .ret (some n) db' := by
  unfold opensNode
  rw [Bool.and_eq_true, Bool.and_eq_true, Bool.not_eq_true', and_assoc]
  refine and_congr_right fun _ => and_congr_right fun _ => ?_
  generalize openCall E fileName mode db = o
  cases o with
  | stop e db' => simp
  | ret r db' => cases r <;> simp

/-- The session is in no event list of the file that the mode asks for. -/
def Leader.Unlisted (st : Leader δ) (session : SessionId) (fileName : Str) (mode : Mode) : Prop :=
  ∀ e : ChubbyEvent, mode.has e.flag = true → session ∉ (st.listeners e).get fileName

/-- No handle of the session asked for an event of the file, the closed one apart. -/
def Leader.ClosesLast (st : Leader δ) (modes : Nat → Mode) (session : SessionId)
    (fd : FileHandler) : Prop :=
  ∀ e : ChubbyEvent, ∀ p ∈ st.fds session, p.value.fileName = fd.fileName →
    (modes p.address).has e.flag = true → p.address = (st.findFd session fd).address

/-- An event of a file is asked for once, and the handle that asked for it is the
    last to be closed; the close of an ephemeral file closes all handles or none. -/
def AsksOnce (E : Service δ) (w : Leader δ × (Nat → Mode)) : Input → Prop
  | .rpc s _ (.fileOpen fileName mode) =>
    opensNode E w.1.db fileName mode = true → w.1.Unlisted s fileName mode
  | .rpc s _ (.fileReopen fd mode) => w.1.Unlisted s fd.fileName mode
  | .rpc s _ (.fileClose fd) =>
    fd.fileName ∉ w.1.ephemeral (w.1.client s) → w.1.ClosesLast w.2 s fd
  | _ => True

instance (st : Leader δ) (session : SessionId) (fileName : Str) (mode : Mode) :
    Decidable (st.Unlisted session fileName mode) :=
  inferInstanceAs (Decidable (∀ e : ChubbyEvent,
    mode.has e.flag = true → session ∉ (st.listeners e).get fileName))

instance (st : Leader δ) (modes : Nat → Mode) (session : SessionId) (fd : FileHandler) :
    Decidable (st.ClosesLast modes session fd) :=
  inferInstanceAs (Decidable (∀ e : ChubbyEvent, ∀ p ∈ st.fds session,
    p.value.fileName = fd.fileName → (modes p.address).has e.flag = true →
      p.address = (st.findFd session fd).address))

instance (E : Service δ) (w : Leader δ × (Nat → Mode)) (input : Input) :
    Decidable (AsksOnce E w input) := by
  unfold AsksOnce
  split <;> infer_instance

/-! ## The updates of the maps -/

section Updates

variable {st st' : Leader δ} {modes : Nat → Mode} {e : ChubbyEvent} {session s : SessionId}
  {fileName f : Str} {fd : FileHandler}

/-- The allocations to come were opened with no mode. -/
def Leader.Blank (st : Leader δ) (modes : Nat → Mode) : Prop :=
  ∀ address, st.nextAddress ≤ address → modes address = 0

theorem not_has_zero : ¬ (0 : Mode).has e.flag = true := by
  cases e <;> decide

theorem Leader.follows_congr (h : st'.fds s = st.fds s) :
    st'.Follows modes e s f ↔ st.Follows modes e s f := by
  unfold Leader.Follows
  rw [h]

theorem Leader.follows_openFd : (st.openFd session fd).Follows modes e s f ↔
    st.Follows modes e s f ∨
      s = session ∧ f = fd.fileName ∧ (modes st.nextAddress).has e.flag = true := by
  constructor
  · rintro ⟨p, hp, hname, hflag⟩
    rcases Leader.mem_openFd.mp hp with hp | ⟨hs, rfl⟩
    · exact Or.inl ⟨p, hp, hname, hflag⟩
    · exact Or.inr ⟨hs, hname.symm, hflag⟩
  · rintro (⟨p, hp, hrest⟩ | ⟨hs, hname, hflag⟩)
    · exact ⟨p, Leader.mem_openFd.mpr (Or.inl hp), hrest⟩
    · exact ⟨_, Leader.mem_openFd.mpr (Or.inr ⟨hs, rfl⟩), hname.symm, hflag⟩

/-- A look-up changes nothing: what it allocates has asked for no event. -/
theorem Leader.follows_foundFd (hblank : st.Blank modes) :
    (st.foundFd session fd).Follows modes e s f ↔ st.Follows modes e s f := by
  constructor
  · rintro ⟨p, hp, hrest⟩
    rcases Leader.new_of_foundFd hp with hp | ⟨_, rfl⟩
    · exact ⟨p, hp, hrest⟩
    · rw [hblank _ (Nat.le_refl _)] at hrest
      exact absurd hrest.2 not_has_zero
  · rintro ⟨p, hp, hrest⟩
    exact ⟨p, st.mem_foundFd session fd hp, hrest⟩

theorem Leader.follows_dropRecords (hi : st.Indexed) :
    (st.dropRecords fileName).Follows modes e s f ↔ st.Follows modes e s f ∧ f ≠ fileName := by
  constructor
  · rintro ⟨p, hp, rfl, hflag⟩
    obtain ⟨hp, hne⟩ := (Leader.mem_dropRecords hi).mp hp
    exact ⟨⟨p, hp, rfl, hflag⟩, hne⟩
  · rintro ⟨⟨p, hp, rfl, hflag⟩, hne⟩
    exact ⟨p, (Leader.mem_dropRecords hi).mpr ⟨hp, hne⟩, rfl, hflag⟩

/-- Removing a record says nothing about other sessions and other files. -/
theorem Leader.follows_removeFd_other (hi : st.Indexed) {p : FdRecord} (hp : p ∈ st.fds session)
    (hother : ¬ (s = session ∧ f = p.value.fileName)) :
    (st.removeFd session p).Follows modes e s f ↔ st.Follows modes e s f := by
  constructor
  · rintro ⟨q, hq, hrest⟩
    exact ⟨q, (Leader.mem_removeFd.mp hq).1, hrest⟩
  · rintro ⟨q, hq, hname, hflag⟩
    refine ⟨q, Leader.mem_removeFd.mpr ⟨hq, ?_⟩, hname, hflag⟩
    rintro rfl haddress
    obtain ⟨_, rfl⟩ := hi.owned s s q p hq hp haddress
    exact hother ⟨rfl, hname.symm⟩

theorem Leader.get_listeners_subscribed {mode : Mode} :
    ((st.subscribed session fileName mode).listeners e).get f =
      if f = fileName ∧ mode.has e.flag = true then (st.listeners e).get f ++ [session]
      else (st.listeners e).get f := by
  have halter : ∀ (m : UMap Str (List SessionId)) (b : Bool),
      (if b = true then m.alter fileName (· ++ [session]) else m).get f =
        if f = fileName ∧ b = true then m.get f ++ [session] else m.get f := by
    intro m b
    cases b with
    | false => simp
    | true =>
      simp only [if_true, and_true]
      rw [UMap.get_alter]
      split_ifs with hf
      · rw [hf]
      · rfl
  cases e with
  | lockChanged => exact halter st.file2lockChangeMap _
  | contentModified => exact halter st.file2contentChangeMap _

theorem Leader.get_listeners_dropEvents :
    ((st.dropEvents fileName).listeners e).get f =
      if f = fileName then [] else (st.listeners e).get f := by
  cases e with
  | lockChanged => exact UMap.get_erase _ _ _
  | contentModified => exact UMap.get_erase _ _ _

theorem Leader.get_listeners_unsubscribed :
    ((st.unsubscribed session fileName).listeners e).get f =
      if f = fileName then ((st.listeners e).get f).filter (· != session)
      else (st.listeners e).get f := by
  cases e with
  | lockChanged => exact get_unsubscribe
  | contentModified => exact get_unsubscribe

end Updates

/-! ## What a close does -/

section Closes

variable {E : Service δ} {session : SessionId} {xid : Xid} {fd : FileHandler} {st st' : Leader δ}
  {modes : Nat → Mode}

/-- What a delete does to the event lists and to who follows which file: nothing,
    or it ends both for the file. -/
inductive Drops (modes : Nat → Mode) (fileName : Str) (st st' : Leader δ) : Prop
  | kept : (∀ e, st'.listeners e = st.listeners e) →
      (∀ e s f, st'.Follows modes e s f ↔ st.Follows modes e s f) → Drops modes fileName st st'
  | dropped : (∀ e f, (st'.listeners e).get f =
        if f = fileName then [] else (st.listeners e).get f) →
      (∀ e s f, st'.Follows modes e s f ↔ st.Follows modes e s f ∧ f ≠ fileName) →
      Drops modes fileName st st'

/-- What the close of a handle on a file that is not ephemeral for its client does:
    the session is on no event list of the file any more, whatever handles on it
    are left. -/
structure Unlists (modes : Nat → Mode) (session : SessionId) (fd : FileHandler)
    (st st' : Leader δ) : Prop where
  unmarked : fd.fileName ∉ st.ephemeral (st.client session)
  lists : ∀ e f, (st'.listeners e).get f =
    if f = fd.fileName then ((st.listeners e).get f).filter (· != session)
    else (st.listeners e).get f
  others : ∀ e s f, ¬ (s = session ∧ f = fd.fileName) →
    (st'.Follows modes e s f ↔ st.Follows modes e s f)
  left : ∀ p ∈ st'.fds session,
    p ∈ st.fds session ∧ p.address ≠ (st.findFd session fd).address ∨ modes p.address = 0

theorem ReleaseEnds.listeners_eq (h : ReleaseEnds E session xid fd st (.ret () st'))
    (e : ChubbyEvent) : st'.listeners e = st.listeners e := by
  cases e with
  | lockChanged => exact h.events.1
  | contentModified => exact h.events.2

theorem ReclaimEnds.listeners_eq {clientId : Str}
    (h : ReclaimEnds E session fd clientId st (.ret () st')) (e : ChubbyEvent) :
    st'.listeners e = st.listeners e := by
  cases h with
  | notHeld _ => rfl
  | held _ hr => exact hr.listeners_eq e

theorem ClearsQueue.listeners_eq {fileName : Str}
    (h : ClearsQueue session fileName st (some st')) (e : ChubbyEvent) :
    st'.listeners e = st.listeners e := by
  cases h with
  | noQueue _ => rfl
  | kept _ _ _ => rfl
  | dropped _ _ => cases e <;> rfl

theorem ReclaimEnds.listeners_entered {clientId : Str}
    (h : ReclaimEnds E session fd clientId (st.entered session fd) (.ret () st'))
    (e : ChubbyEvent) : st'.listeners e = st.listeners e := by
  rw [h.listeners_eq]
  cases e <;> rfl

/-- The event lists after a close that has deleted nothing. -/
theorem ReclaimEnds.get_listeners_closed {clientId : Str} {st₁ st₂ : Leader δ} {p : FdRecord}
    (h : ReclaimEnds E session fd clientId (st.entered session fd) (.ret () st₁))
    (hclear : ClearsQueue session fd.fileName
      ((st₁.touchEphemeral clientId).removeFd session p) (some st₂)) (e : ChubbyEvent) (f : Str) :
    ((st₂.unsubscribed session fd.fileName).listeners e).get f =
      if f = fd.fileName then ((st.listeners e).get f).filter (· != session)
      else (st.listeners e).get f := by
  have hsame : st₂.listeners e = st.listeners e := by
    rw [hclear.listeners_eq, ← h.listeners_entered]
    cases e <;> rfl
  rw [Leader.get_listeners_unsubscribed, hsame]

/-- A record is allocated by a look-up only. -/
theorem ReclaimEnds.next {clientId : Str}
    (h : ReclaimEnds E session fd clientId (st.entered session fd) (.ret () st')) :
    st'.nextAddress = (st.foundFd session fd).nextAddress := by
  cases h with
  | notHeld _ => rfl
  | held _ hr =>
    have hfound : (((st.entered session fd).fds session).find? (sameFd fd)).isSome = true := by
      rw [List.find?_isSome]
      exact ⟨_, (st.touchClient session).findFd_mem session fd,
        sameFd_iff.mpr (Leader.findFd_value _ _ _)⟩
    rw [hr.fds.2.2, Leader.foundFd_nextAddress, if_pos hfound]
    rfl

theorem Leader.Blank.foundFd (h : st.Blank modes) : (st.foundFd session fd).Blank modes := by
  intro address haddress
  apply h address
  rw [Leader.foundFd_nextAddress] at haddress
  split_ifs at haddress
  · exact haddress
  · exact Nat.le_of_succ_le haddress

theorem DeleteEnds.drops {r : Except Unit Unit} (h : DeleteEnds E session xid fd st (.ret r st'))
    (hi : st.Indexed) (hblank : st.Blank modes) : Drops modes fd.fileName st st' := by
  have hentered : (st.touchClient session).Blank modes := hblank
  have hfound : ∀ e s f, (st.entered session fd).Follows modes e s f ↔ st.Follows modes e s f :=
    fun _ _ _ => Leader.follows_foundFd hentered
  have hindexed : (st.entered session fd).Indexed := hi.foundFd session fd
  cases h with
  | threw _ _ => exact .kept (fun e => by cases e <;> rfl) hfound
  | refused _ _ => exact .kept (fun e => by cases e <;> rfl) hfound
  | deleted _ _ =>
    refine .dropped (fun e f => ?_) fun e s f => ?_
    · rw [Leader.get_listeners_dropEvents]
      cases e <;> rfl
    · have hdropped : ((st.entered session fd).dropRecords fd.fileName).Follows modes e s f ↔
          (st.entered session fd).Follows modes e s f ∧ f ≠ fd.fileName :=
        Leader.follows_dropRecords hindexed
      rw [← hfound]
      exact hdropped

theorem CloseEnds.settles (h : CloseEnds E session xid fd st (.ret () st')) (hi : st.Indexed)
    (hblank : st.Blank modes) :
    Drops modes fd.fileName st st' ∨ Unlists modes session fd st st' := by
  have hindexed : (st.entered session fd).Indexed := hi.foundFd session fd
  -- the state in which the lock has been reclaimed
  have hfollows : ∀ st₁ : Leader δ,
      ReclaimEnds E session fd (st.client session) (st.entered session fd) (.ret () st₁) →
      ∀ e s f, st₁.Follows modes e s f ↔ st.Follows modes e s f := by
    intro st₁ hreclaim e s f
    exact (Leader.follows_congr (hreclaim.fds s)).trans (Leader.follows_foundFd hblank)
  cases h with
  | @deletes st₁ st₂ _ hreclaim _ hdelete =>
    have hnext : (st₁.touchEphemeral (st.client session)).Blank modes := by
      unfold Leader.Blank
      rw [Leader.touchEphemeral_nextAddress, hreclaim.next]
      exact hblank.foundFd
    have hi₁ : (st₁.touchEphemeral (st.client session)).Indexed := hreclaim.indexed hindexed
    left
    cases hdelete.drops hi₁ hnext with
    | kept hlists hfollow =>
      refine .kept (fun e => ?_) fun e s f => (hfollow e s f).trans (hfollows st₁ hreclaim e s f)
      rw [← hreclaim.listeners_entered]
      have hsame := hlists e
      cases e <;> exact hsame
    | dropped hlists hfollow =>
      refine .dropped (fun e f => ?_) fun e s f => ?_
      · rw [← hreclaim.listeners_entered]
        have hsame := hlists e f
        cases e <;> exact hsame
      · rw [← hfollows st₁ hreclaim]
        exact hfollow e s f
  | @closes st₁ st₂ _ hreclaim hmem hclear =>
    have hp : (st.touchClient session).findFd session fd ∈ st₁.fds session := by
      rw [hreclaim.fds session]
      exact st.findFd_mem session fd
    have hi₁ : st₁.Indexed := hreclaim.indexed hindexed
    have hfds : ∀ s, st₂.fds s =
        (st₁.removeFd session ((st.touchClient session).findFd session fd)).fds s :=
      hclear.fds_eq
    right
    refine ⟨?_, fun e f => ?_, fun e s f hother => ?_, fun p hp' => ?_⟩
    · exact fun hcon => hmem (hreclaim.mem_ephemeral.mpr hcon)
    · have hlists := hreclaim.get_listeners_closed hclear e f
      cases e <;> exact hlists
    · rw [← hfollows st₁ hreclaim, ← Leader.follows_removeFd_other hi₁ hp]
      · exact Leader.follows_congr (hfds s)
      · rw [Leader.findFd_value]
        exact hother
    · have hp₂ : p ∈ st₂.fds session := hp'
      rw [hfds] at hp₂
      obtain ⟨hmem₁, haddress⟩ := Leader.mem_removeFd.mp hp₂
      rw [hreclaim.fds session] at hmem₁
      rcases Leader.new_of_foundFd hmem₁ with hmem₁ | ⟨_, rfl⟩
      · exact Or.inl ⟨hmem₁, haddress rfl⟩
      · exact Or.inr (hblank _ (Nat.le_refl _))

theorem Drops.agrees {fileName : Str} (h : Drops modes fileName st st') {e : ChubbyEvent}
    {s : SessionId} {f : Str} (ha : st.Agrees modes e s f) : st'.Agrees modes e s f := by
  unfold Leader.Agrees at ha ⊢
  cases h with
  | kept hlists hfollow => rw [hlists, hfollow, ha]
  | dropped hlists hfollow =>
    rw [hlists, hfollow]
    split_ifs with hf
    · exact iff_of_false List.not_mem_nil fun hcon => hcon.2 hf
    · rw [ha]
      exact (and_iff_left hf).symm

theorem Unlists.agrees_other (h : Unlists modes session fd st st') {e : ChubbyEvent}
    {s : SessionId} {f : Str} (hother : ¬ (s = session ∧ f = fd.fileName))
    (ha : st.Agrees modes e s f) : st'.Agrees modes e s f := by
  unfold Leader.Agrees at ha ⊢
  rw [h.lists, h.others e s f hother, ← ha]
  split_ifs with hf
  · have hs : s ≠ session := fun heq => hother ⟨heq, hf⟩
    rw [List.mem_filter, bne_iff_ne]
    exact and_iff_left hs
  · exact Iff.rfl

theorem Unlists.not_mem (h : Unlists modes session fd st st') (e : ChubbyEvent) :
    session ∉ (st'.listeners e).get fd.fileName := by
  rw [h.lists, if_pos rfl, List.mem_filter]
  simp

/-- The session follows the file no more if the handle was its last that asked for an event. -/
theorem Unlists.agrees_last (h : Unlists modes session fd st st')
    (hlast : st.ClosesLast modes session fd) (e : ChubbyEvent) :
    st'.Agrees modes e session fd.fileName := by
  refine iff_of_false (h.not_mem e) ?_
  rintro ⟨p, hp, hname, hflag⟩
  rcases h.left p hp with ⟨hmem, hne⟩ | hzero
  · exact hne (hlast e p hmem hname hflag)
  · rw [hzero] at hflag
    exact not_has_zero hflag

/-- No list grows. -/
theorem CloseEnds.sublist (h : CloseEnds E session xid fd st (.ret () st')) (hi : st.Indexed)
    (e : ChubbyEvent) (f : Str) : ((st'.listeners e).get f).Sublist ((st.listeners e).get f) := by
  have hblank : st.Blank fun _ => 0 := fun _ _ => rfl
  rcases h.settles hi hblank with hdrops | hunlists
  · cases hdrops with
    | kept hlists _ => rw [hlists]
    | dropped hlists _ =>
      rw [hlists]
      split_ifs
      · exact List.nil_sublist _
      · exact List.Sublist.refl _
  · rw [hunlists.lists]
    split_ifs
    · exact List.filter_sublist
    · exact List.Sublist.refl _

/-- A close takes no allocation back. -/
theorem CloseEnds.blank (h : CloseEnds E session xid fd st (.ret () st'))
    (hblank : st.Blank modes) : st'.Blank modes := by
  have hstart : ∀ st₁ : Leader δ,
      ReclaimEnds E session fd (st.client session) (st.entered session fd) (.ret () st₁) →
      st₁.Blank modes := by
    intro st₁ hreclaim
    unfold Leader.Blank
    rw [hreclaim.next]
    exact hblank.foundFd
  cases h with
  | @deletes st₁ st₂ _ hreclaim _ hdelete =>
    have hfound : ((st₁.touchEphemeral (st.client session)).entered session fd).Blank modes :=
      (hstart st₁ hreclaim).foundFd
    cases hdelete with
    | threw _ _ => exact hfound
    | refused _ _ => exact hfound
    | deleted _ _ => exact hfound
  | @closes st₁ st₂ _ hreclaim _ hclear =>
    have hnext : st₂.nextAddress = st₁.nextAddress := hclear.fds.2.2
    intro address haddress
    apply hstart st₁ hreclaim address
    rw [← hnext]
    exact haddress

/-- A close marks no file as ephemeral. -/
theorem CloseEnds.marks (h : CloseEnds E session xid fd st (.ret () st')) {c g : Str}
    (hg : g ∈ st'.ephemeral c) : g ∈ st.ephemeral c := by
  cases h with
  | @deletes st₁ st₂ _ hreclaim _ hdelete =>
    rw [← hreclaim.ephemeral_touched]
    cases hdelete with
    | threw _ _ => exact hg
    | refused _ _ => exact hg
    | deleted _ _ =>
      rw [Leader.ephemeral, Leader.logged_client2ephemeralMap] at hg
      exact ((Leader.mem_ephemeral_deleted rfl).mp hg).1
  | @closes st₁ st₂ _ hreclaim _ hclear =>
    have hkept : g ∈ st₂.ephemeral c := hg
    rwa [hreclaim.ephemeral_closed hclear] at hkept

/-- In the loop of `disconnect` a file whose event lists the session has left may
    have handles of it open; they are among those still to be closed. -/
theorem CloseAllEnds.agrees {l : List FdRecord} {o : Outcome Stop (Leader δ) Unit}
    (h : CloseAllEnds E session l st o) (ho : o = .ret () st') (hi : st.Indexed)
    (hblank : st.Blank modes) (hacc : Accounted session l st)
    (hothers : ∀ e s f, s ≠ session → st.Agrees modes e s f)
    (hown : ∀ f, (∀ e, st.Agrees modes e session f) ∨
      f ∉ st.ephemeral (st.client session) ∧ ∀ e, session ∉ (st.listeners e).get f) :
    ∀ e s f, st'.Agrees modes e s f := by
  induction h with
  | stopped _ => cases ho
  | @done st =>
    cases ho
    intro e s f
    by_cases hs : s = session
    · subst hs
      rcases hown f with hexact | ⟨hunmarked, hnot⟩
      · exact hexact e
      · refine iff_of_false (hnot e) ?_
        rintro ⟨p, hp, rfl, _⟩
        have hpos := Leader.copies_pos.mpr ⟨p, hp, rfl⟩
        have hnone := hacc p.value hunmarked
        exact absurd (Nat.lt_of_lt_of_le hpos hnone) (Nat.lt_irrefl 0)
    · exact hothers e s f hs
  | @next p rest st st₁ o hclose _ ih =>
    have hclient : st₁.client session = st.client session := by
      unfold Leader.client
      rw [hclose.sessions]
    have hunmarked : ∀ {f}, f ∉ st.ephemeral (st.client session) →
        f ∉ st₁.ephemeral (st₁.client session) := by
      intro f hf hmem
      rw [hclient] at hmem
      exact hf (hclose.marks hmem)
    refine ih ho (hclose.indexed hi) (hclose.blank hblank)
      ((hclose.leaves hi).accounted hclient hacc) ?_ ?_
    · intro e s f hs
      rcases hclose.settles hi hblank with hdrops | hunlists
      · exact hdrops.agrees (hothers e s f hs)
      · exact hunlists.agrees_other (fun hcon => hs hcon.1) (hothers e s f hs)
    · intro f
      rcases hclose.settles hi hblank with hdrops | hunlists
      · rcases hown f with hexact | ⟨hf, hnot⟩
        · exact Or.inl fun e => hdrops.agrees (hexact e)
        · refine Or.inr ⟨hunmarked hf, fun e hmem => hnot e ?_⟩
          exact (hclose.sublist hi e f).mem hmem
      · by_cases hf : f = p.value.fileName
        · subst hf
          exact Or.inr ⟨hunmarked hunlists.unmarked, hunlists.not_mem⟩
        · rcases hown f with hexact | ⟨hf', hnot⟩
          · exact Or.inl fun e => hunlists.agrees_other (fun hcon => hf hcon.2) (hexact e)
          · refine Or.inr ⟨hunmarked hf', fun e hmem => hnot e ?_⟩
            exact (hclose.sublist hi e f).mem hmem

end Closes

/-! ## Every step -/

section Steps

variable {E : Service δ} {session : SessionId} {xid : Xid} {fd : FileHandler} {st st' : Leader δ}
  {modes : Nat → Mode}

theorem Leader.EventLists.congr (hl : st.EventLists modes) (hfds : ∀ s, st'.fds s = st.fds s)
    (hlock : st'.file2lockChangeMap = st.file2lockChangeMap)
    (hcontent : st'.file2contentChangeMap = st.file2contentChangeMap) : st'.EventLists modes := by
  have hlists : ∀ e, st'.listeners e = st.listeners e := by
    intro e
    cases e with
    | lockChanged => exact hlock
    | contentModified => exact hcontent
  constructor
  · intro e s f
    unfold Leader.Agrees
    rw [hlists, Leader.follows_congr (hfds s)]
    exact hl.agree e s f
  · intro e f
    rw [hlists]
    exact hl.once e f

theorem Leader.EventLists.fresh (db : δ) (masterSequenceNumber : UInt64) :
    (Leader.fresh db masterSequenceNumber).EventLists modes where
  agree e s f := by
    refine iff_of_false ?_ ?_
    · cases e <;> exact List.not_mem_nil
    · rintro ⟨p, hp, _⟩
      cases hp
  once e f := by
    cases e <;> exact List.nodup_nil

theorem Leader.EventLists.foundFd (hl : st.EventLists modes) (hblank : st.Blank modes)
    (session : SessionId) (fd : FileHandler) : (st.foundFd session fd).EventLists modes where
  agree e s f := by
    unfold Leader.Agrees
    rw [Leader.follows_foundFd hblank]
    have hagree := hl.agree e s f
    cases e <;> exact hagree
  once e f := by
    have honce := hl.once e f
    cases e <;> exact honce

/-- A handle that is opened with a mode, its session being on no list that the
    mode asks for. -/
theorem Leader.EventLists.opened {mode : Mode} (hl : st.EventLists modes) (session : SessionId)
    (fd : FileHandler) (hmode : modes st.nextAddress = mode)
    (hnot : st.Unlisted session fd.fileName mode) :
    ((st.openFd session fd).subscribed session fd.fileName mode).EventLists modes := by
  have hlists : ∀ e f,
      (((st.openFd session fd).subscribed session fd.fileName mode).listeners e).get f =
        if f = fd.fileName ∧ mode.has e.flag = true then (st.listeners e).get f ++ [session]
        else (st.listeners e).get f := by
    intro e f
    rw [Leader.get_listeners_subscribed]
    cases e <;> rfl
  constructor
  · intro e s f
    have hfollow :
        ((st.openFd session fd).subscribed session fd.fileName mode).Follows modes e s f ↔
        st.Follows modes e s f ∨ s = session ∧ f = fd.fileName ∧ mode.has e.flag = true := by
      rw [← hmode]
      exact Leader.follows_openFd
    have hagree : s ∈ (st.listeners e).get f ↔ st.Follows modes e s f := hl.agree e s f
    unfold Leader.Agrees
    rw [hfollow, hlists, ← hagree]
    split_ifs with hasked
    · rw [List.mem_append, List.mem_singleton, and_iff_left hasked]
    · refine (or_iff_left ?_).symm
      rintro ⟨_, hcon⟩
      exact hasked hcon
  · intro e f
    rw [hlists]
    split_ifs with hasked
    · obtain ⟨rfl, hflag⟩ := hasked
      refine List.nodup_append'.mpr ⟨hl.once e _, List.nodup_singleton _, ?_⟩
      rw [List.disjoint_singleton]
      exact hnot e hflag
    · exact hl.once e f

theorem AcquireEnds.eventLists {busy : Leader δ → Leader δ}
    (h : AcquireEnds E session xid fd busy st (.ret () st'))
    (hbusy : ∀ st₁ : Leader δ, st₁.EventLists modes → (busy st₁).EventLists modes)
    (hblank : st.Blank modes) (hl : st.EventLists modes) : st'.EventLists modes := by
  have hfound := hl.foundFd hblank session fd
  cases h with
  | threw _ _ => exact hfound.congr (fun _ => rfl) rfl rfl
  | taken _ _ _ => exact hfound.congr (fun _ => rfl) rfl rfl
  | busy _ _ => exact hbusy _ (hfound.congr (fun _ => rfl) rfl rfl)

theorem ReleaseEnds.eventLists (h : ReleaseEnds E session xid fd st (.ret () st'))
    (hblank : st.Blank modes) (hl : st.EventLists modes) : st'.EventLists modes := by
  refine (hl.foundFd hblank session fd).congr (fun s => ?_) h.events.1 h.events.2
  unfold Leader.fds
  rw [h.fds.2.1]

theorem Drops.eventLists {fileName : Str} (h : Drops modes fileName st st')
    (hl : st.EventLists modes) : st'.EventLists modes where
  agree e s f := h.agrees (hl.agree e s f)
  once e f := by
    cases h with
    | kept hlists _ =>
      rw [hlists]
      exact hl.once e f
    | dropped hlists _ =>
      rw [hlists]
      split_ifs
      · exact List.nodup_nil
      · exact hl.once e f

theorem CloseEnds.eventLists (h : CloseEnds E session xid fd st (.ret () st')) (hi : st.Indexed)
    (hblank : st.Blank modes)
    (hlast : fd.fileName ∉ st.ephemeral (st.client session) → st.ClosesLast modes session fd)
    (hl : st.EventLists modes) : st'.EventLists modes where
  agree e s f := by
    rcases h.settles hi hblank with hdrops | hunlists
    · exact hdrops.agrees (hl.agree e s f)
    · by_cases hmine : s = session ∧ f = fd.fileName
      · obtain ⟨rfl, rfl⟩ := hmine
        exact hunlists.agrees_last (hlast hunlists.unmarked) e
      · exact hunlists.agrees_other hmine (hl.agree e s f)
  once e f := (hl.once e f).sublist (h.sublist hi e f)

theorem CloseAllEnds.sublist {l : List FdRecord} {o : Outcome Stop (Leader δ) Unit}
    (h : CloseAllEnds E session l st o) (ho : o = .ret () st') (hi : st.Indexed)
    (e : ChubbyEvent) (f : Str) : ((st'.listeners e).get f).Sublist ((st.listeners e).get f) := by
  induction h with
  | done =>
    cases ho
    exact List.Sublist.refl _
  | stopped _ => cases ho
  | next hclose _ ih => exact (ih ho (hclose.indexed hi)).trans (hclose.sublist hi e f)

theorem DisconnectEnds.eventLists (h : DisconnectEnds E session st (.ret () st'))
    (hi : st.Indexed) (hblank : st.Blank modes) (hl : st.EventLists modes) :
    st'.EventLists modes := by
  cases h with
  | @left st₁ hall =>
    have hread : ∀ s, (st.touchFds session).fds s = st.fds s := fun s => UMap.get_touch _ _ _
    have hi₀ : (st.touchFds session).Indexed := hi.of_get fun s => UMap.get_touch _ _ _
    have hl₀ : (st.touchFds session).EventLists modes :=
      hl.congr hread rfl rfl
    have hacc : Accounted session (st.fds session) (st.touchFds session) := by
      rw [← hread session]
      exact accounted_fds
    have hleft : st₁.EventLists modes := by
      constructor
      · exact hall.agrees rfl hi₀ hblank hacc (fun e s f _ => hl₀.agree e s f)
          fun f => Or.inl fun e => hl₀.agree e session f
      · intro e f
        exact (hl₀.once e f).sublist (hall.sublist rfl hi₀ e f)
    exact hleft.congr (fun _ => rfl) rfl rfl

/-- The record of the modes says the same about the handles that are there. -/
theorem Leader.EventLists.noted (hl : st.EventLists modes) (hi : st.Indexed) (input : Input)
    (st' : Leader δ) : st.EventLists (noteMode st input st' modes) where
  agree e s f := by
    refine (hl.agree e s f).trans (exists_congr fun p => and_congr_right fun hp => ?_)
    unfold noteMode
    rw [if_pos (hi.allocated s p hp)]
  once := hl.once

theorem Leader.ClosesLast.noted (h : st.ClosesLast modes session fd) (hi : st.Indexed)
    (input : Input) (st' : Leader δ) : st.ClosesLast (noteMode st input st' modes) session fd := by
  intro e p hp hname hflag
  unfold noteMode at hflag
  rw [if_pos (hi.allocated session p hp)] at hflag
  exact h e p hp hname hflag

theorem blank_noteMode {input : Input} (hmode : input.mode = 0) :
    st.Blank (noteMode st input st' modes) := by
  intro address haddress
  unfold noteMode
  rw [if_neg (Nat.not_lt.mpr haddress), hmode]

theorem noteMode_next {input : Input} : noteMode st input st' modes st.nextAddress =
    input.mode := by
  unfold noteMode
  rw [if_neg (Nat.lt_irrefl _)]

/-- A mode with both flags for creating is refused. -/
theorem fileOpen_both {fileName : Str} {mode : Mode}
    (hboth : (mode.has ModeFlag.createDirectory && mode.has ModeFlag.createFile) = true)
    (h : fileOpen E fileName mode session xid st = .ret () st') :
    st' = (st.touchClient session).logged (Leader.replyOf session xid (.error .badArg)) := by
  have hrefused : Prog.wp (fileOpen E fileName mode session xid)
      (fun _ st' => st' = (st.touchClient session).logged
        (Leader.replyOf session xid (.error .badArg))) (fun _ _ => True) st := by
    refine wp_client (fun _ _ => trivial) (fun _ => ?_)
    simp only [hboth, if_true]
    split_ifs <;> exact wp_reply.mpr rfl
  unfold Prog.wp at hrefused
  rw [h] at hrefused
  exact hrefused

theorem step_both {s : SessionId} {x : Xid} {fileName : Str} {mode : Mode}
    (hboth : (mode.has ModeFlag.createDirectory && mode.has ModeFlag.createFile) = true)
    (h : Leader.step E (.rpc s x (.fileOpen fileName mode)) st = some st') :
    st' = ((st.logged [.call s x (.fileOpen fileName mode)]).touchClient s).logged
      (Leader.replyOf s x (.error .badArg)) :=
  fileOpen_both hboth (dispatch_of_step h)

theorem Handles.eventLists {input : Input} (h : Handles E st input (.ret () st')) (hi : st.Indexed)
    (hcreate : ∀ s x name mode, input = .rpc s x (.fileOpen name mode) →
      (mode.has ModeFlag.createDirectory && mode.has ModeFlag.createFile) = false)
    (hok : AsksOnce E (st, modes) input) (hl : st.EventLists modes) :
    st'.EventLists (noteMode st input st' modes) := by
  have hnoted := hl.noted hi input st'
  have hlogged : ∀ {l}, (st.logged l).EventLists (noteMode st input st' modes) :=
    hnoted.congr (fun _ => rfl) rfl rfl
  have hblank : ∀ {l}, input.mode = 0 → (st.logged l).Blank (noteMode st input st' modes) := by
    intro l hmode
    have hstart : st.Blank (noteMode st input st' modes) := blank_noteMode hmode
    exact hstart
  cases h with
  | @fileOpen s x name mode _ ho =>
    cases ho with
    | badArg _ _ => exact hnoted.congr (fun _ => rfl) rfl rfl
    | failed _ _ _ => exact hnoted.congr (fun _ => rfl) rfl rfl
    | @opened n db _ hname hcall =>
      have hopens : opensNode E st.db name mode = true :=
        opensNode_iff.mpr ⟨hname, hcreate s x name mode rfl, n, db, hcall⟩
      have hopened := hnoted.opened s (signFd E name mode n st.masterSequenceNumber)
        noteMode_next (hok hopens)
      exact hopened.congr (fun _ => rfl) rfl rfl
  | @fileClose s x fd _ ho =>
    refine ho.eventLists hi (hblank rfl) (fun hmem => ?_) hlogged
    have hlast : st.ClosesLast modes s fd := hok hmem
    exact hlast.noted hi _ _
  | fileDelete ho => exact (ho.drops hi (hblank rfl)).eventLists hlogged
  | getContentsAndStat ho =>
    cases ho with
    | answered _ _ _ => exact (hlogged.foundFd (hblank rfl) _ _).congr (fun _ => rfl) rfl rfl
  | setContents ho =>
    cases ho with
    | failed _ => exact (hlogged.foundFd (hblank rfl) _ _).congr (fun _ => rfl) rfl rfl
    | written _ => exact (hlogged.foundFd (hblank rfl) _ _).congr (fun _ => rfl) rfl rfl
  | acquire ho =>
    exact ho.eventLists (fun _ h₁ => h₁.congr (fun _ => rfl) rfl rfl) (hblank rfl) hlogged
  | tryAcquire ho =>
    exact ho.eventLists (fun _ h₁ => h₁.congr (fun _ => rfl) rfl rfl) (hblank rfl) hlogged
  | release ho => exact ho.eventLists (hblank rfl) hlogged
  | startSession ho =>
    cases ho with
    | refused _ => exact hnoted.congr (fun _ => rfl) rfl rfl
    | started _ => exact hnoted.congr (fun _ => rfl) rfl rfl
  | @fileReopen s x fd mode =>
    have hopened := hnoted.opened s fd noteMode_next hok
    exact hopened.congr (fun _ => rfl) rfl rfl
  | disconnect ho => exact ho.eventLists hi (hblank rfl) hlogged
  | initializeLeader ho =>
    cases ho with
    | @initialized files db _ =>
      obtain ⟨hlock, hcontent⟩ := Leader.recovered_events files
        ((st.logged [.initialized]).cleared.setDb db)
      obtain ⟨_, hfds, _⟩ := Leader.recovered_fds files
        ((st.logged [.initialized]).cleared.setDb db)
      refine (Leader.EventLists.fresh db 0).congr (fun s => ?_) hlock hcontent
      unfold Leader.fds
      rw [hfds]
      rfl

/-- Every input keeps the event lists right, if an event is asked for once. -/
theorem step_eventLists {input : Input} (h : Leader.step E input st = some st') (hi : st.Indexed)
    (hok : AsksOnce E (st, modes) input) (hl : st.EventLists modes) :
    st'.EventLists (noteMode st input st' modes) := by
  by_cases hcreate : ∀ s x name mode, input = .rpc s x (.fileOpen name mode) →
      (mode.has ModeFlag.createDirectory && mode.has ModeFlag.createFile) = false
  · exact (step_ends E h).eventLists hi hcreate hok hl
  · push Not at hcreate
    obtain ⟨s, x, name, mode, rfl, hboth⟩ := hcreate
    rw [ne_eq, Bool.not_eq_false] at hboth
    rw [step_both hboth h]
    exact (hl.noted hi _ _).congr (fun _ => rfl) rfl rfl

end Steps

/-! ## Every run -/

/-- In every run in which an event of a file is asked for once by a session, and
    the handle that asked for it closed last, the event lists name the sessions
    that have such a handle open, each of them once. -/
theorem eventLists_reachable (E : Service δ) (db : δ) (masterSequenceNumber : UInt64)
    (w : Leader δ × (Nat → Mode))
    (h : ((E.leader db masterSequenceNumber).watch (fun _ => 0) noteMode).Reach (AsksOnce E) w) :
    w.1.EventLists w.2 := by
  have hok : w.1.Indexed ∧ w.1.EventLists w.2 := by
    refine h.invariant (I := fun w => w.1.Indexed ∧ w.1.EventLists w.2) ?_ ?_
    · rintro ⟨st, modes⟩ ⟨rfl, rfl⟩
      exact ⟨HandleIndex.empty, .fresh db masterSequenceNumber⟩
    · rintro ⟨st, modes⟩ ⟨st', modes'⟩ input _ ⟨hi, hl⟩ hok hstep
      obtain ⟨hst, hmodes⟩ := Lts.watch_step hstep
      rw [show modes' = noteMode st input st' modes from hmodes]
      exact ⟨(step_ends E hst).indexed hi, step_eventLists hst hi hok hl⟩
  exact hok.2

/-- Two sessions follow a file; one of them has a second handle on it, the other
    closes its only one. -/
def follows : List Input :=
  let both := ModeFlag.evLockChanged ||| ModeFlag.evContentModified
  [.rpc 1 1 (.startSession ['1']), .rpc 2 1 (.startSession ['2']),
    .rpc 1 2 (.fileOpen ['/', 'f'] (ModeFlag.createFile ||| both)),
    .rpc 1 3 (.fileOpen ['/', 'f'] 0), .rpc 2 2 (.fileOpen ['/', 'f'] both),
    .rpc 2 3 (.fileClose ⟨0, 0, ['/', 'f'], 1, false⟩)]

theorem eventLists_follows :
    ∃ w, (((Service.paxos .refusing (fun _ => 0) inlineNamed).leader .empty 0).watch
      (fun _ => 0) noteMode).exec
      (AsksOnce (Service.paxos .refusing (fun _ => 0) inlineNamed)) follows
        (.fresh .empty 0, fun _ => 0) =
        some w ∧ w.1.EventLists w.2 := by
  have hrun :
      ((((Service.paxos .refusing (fun _ => 0) inlineNamed).leader .empty 0).watch (fun _ => 0)
      noteMode).exec (AsksOnce (Service.paxos .refusing (fun _ => 0) inlineNamed)) follows
        (.fresh .empty 0, fun _ => 0)).isSome = true := by decide +kernel
  obtain ⟨w, hw⟩ := Option.isSome_iff_exists.mp hrun
  have hinit :
      (((Service.paxos .refusing (fun _ => 0) inlineNamed).leader .empty 0).watch (fun _ => 0)
      noteMode).init (.fresh .empty 0, fun _ => 0) := ⟨rfl, rfl⟩
  exact ⟨w, hw, eventLists_reachable _ _ _ w (Lts.Reach.exec (.init hinit) hw)⟩

/-- A session opens a file twice for its content events and closes one handle. -/
def closesOne : List Input :=
  [.rpc 1 1 (.startSession ['1']),
    .rpc 1 2 (.fileOpen ['/', 'f'] (ModeFlag.createFile ||| ModeFlag.evContentModified)),
    .rpc 1 3 (.fileOpen ['/', 'f'] ModeFlag.evContentModified),
    .rpc 1 4 (.fileClose ⟨0, 0, ['/', 'f'], 1, false⟩)]

/-- The handle that is left is told of no event. -/
theorem not_eventLists :
    ¬ ∀ w, (((Service.paxos .refusing (fun _ => 0) inlineNamed).leader .empty 0).watch (fun _ => 0)
      noteMode).Reach (fun _ _ => True) w → w.1.EventLists w.2 := by
  intro hall
  have hrun :
      ((((Service.paxos .refusing (fun _ => 0) inlineNamed).leader .empty 0).watch (fun _ => 0)
      noteMode).exec (fun _ _ => True) closesOne (.fresh .empty 0, fun _ => 0)).map (fun w =>
        (w.1.file2contentChangeMap.get ['/', 'f'],
          (w.1.fds 1).map fun p => (p.value.fileName, w.2 p.address))) =
      some ([], [(['/', 'f'], ModeFlag.evContentModified)]) := by decide +kernel
  obtain ⟨w, hw, hread⟩ := Option.map_eq_some_iff.mp hrun
  obtain ⟨hlist, hfds⟩ := Prod.mk.inj hread
  have hinit :
      (((Service.paxos .refusing (fun _ => 0) inlineNamed).leader .empty 0).watch (fun _ => 0)
      noteMode).init (.fresh .empty 0, fun _ => 0) := ⟨rfl, rfl⟩
  have hagree := (hall w (Lts.Reach.exec (.init hinit) hw)).agree .contentModified 1 ['/', 'f']
  obtain ⟨p, hp, hpair⟩ := List.mem_map.mp (hfds ▸ List.mem_cons_self)
  obtain ⟨hname, hmode⟩ := Prod.mk.inj hpair
  have hmem : (1 : SessionId) ∈ w.1.file2contentChangeMap.get ['/', 'f'] := by
    refine hagree.mpr ⟨p, hp, hname, ?_⟩
    rw [hmode]
    rfl
  rw [hlist] at hmem
  cases hmem

end SimpleChubby
