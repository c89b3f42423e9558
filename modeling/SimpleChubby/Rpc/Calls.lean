import SimpleChubby.Rpc.WireServer
import SimpleChubby.Session.Input

/-!
# From the client's calls to the server's handlers

A client writes the messages of its requests to its socket; `msg_sock::input` of the
server cuts the bytes into messages again, and `asynchronized_dispatch` finds the
procedure and its arguments.
-/

namespace SimpleChubby

open Xdr

namespace Rpc

/-- The message `m` is written for the call. -/
def Calls (host : ByteOrder) (call : Xid × Request) (m : Message) : Prop :=
  IsBytes call.2 ∧ callMessage host call.1 call.2 = .ok m

/-- What `dispatch` makes of the message of a call. -/
def handlerOf (call : Xid × Request) : Except XdrFault (Xid × Handled Serve) :=
  .ok (call.1, .runs fun s x => .rpc s x call.2)

theorem dispatch_calls (host' : ByteOrder) {host : ByteOrder} {calls : List (Xid × Request)}
    {ms : List Message} (h : List.Forall₂ (Calls host) calls ms) :
    ms.map (dispatch host' chubbyServers) = calls.map handlerOf := by
  induction h with
  | nil => rfl
  | cons hcall _ ih =>
    rw [List.map_cons, List.map_cons, ih, dispatch_callMessage host' hcall.1 hcall.2]
    rfl

/-- The requests that a client writes, none longer than the server's socket takes, reach
    their handlers with their arguments, in their order and each once, on a server of any
    byte order and whatever bytes its reads bring; and when all has been read and the
    socket lives, all have. -/
theorem calls_arrive (host host' : ByteOrder) (maxmsglen : Nat)
    (deletes : List (Option Message) → Bool) (calls : List (Xid × Request)) (sent : List Message)
    (s : MsgInput) (hcalls : List.Forall₂ (Calls host) calls sent)
    (hsent : ∀ m ∈ sent, m.data.length ≤ maxmsglen)
    (h : (msgInput host' maxmsglen deletes (rawBytes sent)).Reach Unbroken s) :
    ∃ n, s.delivered.map (Option.map (dispatch host' chubbyServers)) =
        (calls.take n).map (fun call => some (handlerOf call)) ∧
      (s.stream = [] → s.destroyed = false → calls.length ≤ n) := by
  obtain ⟨left, hleft, hunfailed, hall⟩ := (MsgInput.InputOk.unbroken hsent h).sent hsent
  have hdelivered : s.delivered = s.messages.map some := hunfailed
  refine ⟨s.messages.length, ?_, fun hstream hlive => ?_⟩
  · have hfirst : s.messages = sent.take s.messages.length := by
      rw [hleft, List.take_left']
      rfl
    have htake := dispatch_calls host' (List.forall₂_take s.messages.length hcalls)
    rw [← hfirst] at htake
    rw [hdelivered, List.map_map]
    have hmap := congrArg (List.map some) htake
    rw [List.map_map, List.map_map] at hmap
    exact hmap
  · rw [hcalls.length_eq, hleft, hall hstream hlive, List.append_nil]

theorem calls_startSession :
    ∃ s, (msgInput .big 0x100000 (fun _ => false)
          (rawBytes [sentBy (callMessage .little 1 (.startSession ['1']))])).exec Unbroken
        [[.bytes 4, .bytes 20], [.bytes 28]]
        (.fresh (rawBytes [sentBy (callMessage .little 1 (.startSession ['1']))])) = some s ∧
      ∃ n, s.delivered.map (Option.map (dispatch .big chubbyServers)) =
          ([(1, Request.startSession ['1'])].take n).map (fun call => some (handlerOf call)) ∧
        (s.stream = [] → s.destroyed = false → 1 ≤ n) := by
  have hbytes : IsBytes (.startSession ['1']) := by
    show XdrFormat.IsBytes ['1']
    simp
  have hmsg : callMessage .little 1 (.startSession ['1']) =
      .ok (sentBy (callMessage .little 1 (.startSession ['1']))) := rfl
  have hrun : ∃ s, (msgInput .big 0x100000 (fun _ => false)
      (rawBytes [sentBy (callMessage .little 1 (.startSession ['1']))])).exec Unbroken
      [[.bytes 4, .bytes 20], [.bytes 28]]
      (.fresh (rawBytes [sentBy (callMessage .little 1 (.startSession ['1']))])) = some s :=
    Option.isSome_iff_exists.mp (by decide)
  obtain ⟨s, hs⟩ := hrun
  exact ⟨s, hs, calls_arrive .little .big 0x100000 (fun _ => false) [(1, .startSession ['1'])] _ s
    (.cons ⟨hbytes, hmsg⟩ .nil) (by decide) (Lts.Reach.exec (.init rfl) hs)⟩

end Rpc

end SimpleChubby
