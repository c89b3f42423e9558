import Mathlib.Tactic.Simps.Basic
import SimpleChubby.Leader.State

/-!
# The sessions of `chubby_server`

The four maps a session is kept in (`server/chubby_server.h:128-168`):
`registerSession`, the map part of `deregisterSession`, and the look-ups of
`reply` and `send`, whose subscripts store a default where there is no session.
-/

namespace SimpleChubby

/-- The maps of `chubby_server`. A `msg_sock *` is the descriptor of its socket,
    or `none` for the null pointer. -/
structure Registry where
  fdToSessionidMap : UMap Nat SessionId
  sessionidToFdMap : UMap SessionId Nat
  sessionidToMsgsockMap : UMap SessionId (Option Nat)
  sessionidToClientidMap : UMap SessionId Str
  sessionIdAllocator : SessionId

namespace Registry

/-- The maps of a new server. -/
@[simps] def empty : Registry where
  fdToSessionidMap := .empty
  sessionidToFdMap := .empty
  sessionidToMsgsockMap := .empty
  sessionidToClientidMap := .empty
  sessionIdAllocator := 0

/-- `registerSession`. -/
@[simps] def registerSession (fd : Nat) (clientId : Str) (r : Registry) : Registry :=
  let sessionId := r.sessionIdAllocator + 1
  { fdToSessionidMap := r.fdToSessionidMap.set fd sessionId
    sessionidToFdMap := r.sessionidToFdMap.set sessionId fd
    sessionidToMsgsockMap := r.sessionidToMsgsockMap.set sessionId (some fd)
    sessionidToClientidMap := r.sessionidToClientidMap.set sessionId clientId
    sessionIdAllocator := sessionId }

/-- `deregisterSession`, up to its call of `disconnect`. -/
@[simps] def deregisterSession (sessionId : SessionId) (r : Registry) : Registry :=
  { r with
    fdToSessionidMap := r.fdToSessionidMap.erase (r.sessionidToFdMap.get sessionId)
    sessionidToFdMap := r.sessionidToFdMap.erase sessionId
    sessionidToMsgsockMap := r.sessionidToMsgsockMap.erase sessionId
    sessionidToClientidMap := r.sessionidToClientidMap.erase sessionId }

/-- `reply` has looked the session up. -/
@[simps] def touchMsgsock (sessionId : SessionId) (r : Registry) : Registry :=
  { r with sessionidToMsgsockMap := r.sessionidToMsgsockMap.touch sessionId }

/-- `send` has looked the session up. -/
@[simps] def touchFd (sessionId : SessionId) (r : Registry) : Registry :=
  { r with sessionidToFdMap := r.sessionidToFdMap.touch sessionId }

/-- The session is registered: `getClientId` finds it. -/
def registered (r : Registry) (sessionId : SessionId) : Bool :=
  r.sessionidToClientidMap.has sessionId

/-- The two maps between descriptors and sessions are inverse to each other,
    and the maps by session have the same keys. -/
structure Consistent (r : Registry) : Prop where
  inverse : ∀ fd s, r.fdToSessionidMap.find fd = some s ↔ r.sessionidToFdMap.find s = some fd
  msgsockKeys : ∀ s, r.sessionidToMsgsockMap.has s = r.sessionidToFdMap.has s
  clientidKeys : ∀ s, r.sessionidToClientidMap.has s = r.sessionidToFdMap.has s

section Maps

variable {r : Registry} {fd : Nat} {clientId : Str} {s w : SessionId}

theorem consistent_empty : empty.Consistent where
  inverse fd s := by simp
  msgsockKeys s := rfl
  clientidKeys s := rfl

theorem registered_registerSession :
    (r.registerSession fd clientId).registered w =
      (decide (w = r.sessionIdAllocator + 1) || r.registered w) := by
  unfold registered UMap.has
  rw [registerSession_sessionidToClientidMap, UMap.find_set]
  split_ifs with hw
  · simp [hw]
  · simp [hw]

theorem registered_deregisterSession :
    (r.deregisterSession s).registered w = (!decide (w = s) && r.registered w) := by
  unfold registered UMap.has
  rw [deregisterSession_sessionidToClientidMap, UMap.find_erase]
  split_ifs with hw
  · simp [hw]
  · simp [hw]

/-- A descriptor that is not in use and a session that is not registered. -/
theorem Consistent.registerSession (h : r.Consistent) (hfd : r.fdToSessionidMap.has fd = false)
    (hs : r.registered (r.sessionIdAllocator + 1) = false) :
    (r.registerSession fd clientId).Consistent := by
  have hnone : r.sessionidToFdMap.find (r.sessionIdAllocator + 1) = none := by
    rw [← UMap.has_eq_false, ← h.clientidKeys]
    exact hs
  have hfree : r.fdToSessionidMap.find fd = none := UMap.has_eq_false.mp hfd
  constructor
  · intro fd' s
    rw [registerSession_fdToSessionidMap, registerSession_sessionidToFdMap, UMap.find_set,
      UMap.find_set]
    split_ifs with hf hs hs
    · rw [hf, hs]
      simp
    · rw [← h.inverse, hf, hfree]
      simp [Ne.symm hs]
    · rw [h.inverse, hs, hnone]
      simp [Ne.symm hf]
    · exact h.inverse fd' s
  · intro s
    unfold UMap.has
    rw [registerSession_sessionidToMsgsockMap, registerSession_sessionidToFdMap, UMap.find_set,
      UMap.find_set]
    split_ifs
    · rfl
    · exact h.msgsockKeys s
  · intro s
    unfold UMap.has
    rw [registerSession_sessionidToClientidMap, registerSession_sessionidToFdMap, UMap.find_set,
      UMap.find_set]
    split_ifs
    · rfl
    · exact h.clientidKeys s

theorem Consistent.deregisterSession (h : r.Consistent) (hs : r.registered s = true) :
    (r.deregisterSession s).Consistent := by
  obtain ⟨fd, hfd⟩ : ∃ fd, r.sessionidToFdMap.find s = some fd := by
    rw [← UMap.has_eq_true, ← h.clientidKeys]
    exact hs
  have hget : r.sessionidToFdMap.get s = fd := UMap.get_of_find_some hfd
  have hback := (h.inverse fd s).mpr hfd
  constructor
  · intro fd' w
    rw [deregisterSession_fdToSessionidMap, deregisterSession_sessionidToFdMap, hget,
      UMap.find_erase, UMap.find_erase]
    split_ifs with hf hw hw
    · simp
    · rw [← h.inverse, hf, hback]
      simp [Ne.symm hw]
    · rw [h.inverse, hw, hfd]
      simp [Ne.symm hf]
    · exact h.inverse fd' w
  · intro w
    unfold UMap.has
    rw [deregisterSession_sessionidToMsgsockMap, deregisterSession_sessionidToFdMap,
      UMap.find_erase, UMap.find_erase]
    split_ifs
    · rfl
    · exact h.msgsockKeys w
  · intro w
    unfold UMap.has
    rw [deregisterSession_sessionidToClientidMap, deregisterSession_sessionidToFdMap,
      UMap.find_erase, UMap.find_erase]
    split_ifs
    · rfl
    · exact h.clientidKeys w

/-- A reply to a session that is registered changes no map. -/
theorem Consistent.touchMsgsock (h : r.Consistent) (hs : r.registered s = true) :
    r.touchMsgsock s = r := by
  have hhas : r.sessionidToMsgsockMap.has s = true := by
    rw [h.msgsockKeys, ← h.clientidKeys]
    exact hs
  unfold Registry.touchMsgsock
  rw [UMap.touch_of_has _ _ hhas]

/-- An event to a session that is registered changes no map. -/
theorem Consistent.touchFd (h : r.Consistent) (hs : r.registered s = true) : r.touchFd s = r := by
  have hhas : r.sessionidToFdMap.has s = true := by
    rw [← h.clientidKeys]
    exact hs
  unfold Registry.touchFd
  rw [UMap.touch_of_has _ _ hhas]

end Maps

end Registry

end SimpleChubby
