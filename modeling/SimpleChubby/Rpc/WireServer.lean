import SimpleChubby.Rpc.Messages

/-!
# The server on its sockets

`chubby_server` with the messages that its sockets deliver: `receive_cb` and
`asynchronized_dispatch` with `api_v1_server` registered. Whatever bytes the
clients send, the server below takes the steps of `Service.server`: a message is
a call of a procedure, is refused without any other effect, or costs its sender
the session. What holds in every run of the service holds in every run on the wire.
-/

namespace SimpleChubby

open Xdr

namespace Rpc

/-- The server, and the calls it has refused: the session, the call, and the
    message put on its socket. -/
structure WireServer (δ : Type) where
  server : ChubbyServer δ
  refused : List (SessionId × Message × Message)

/-- What can happen to the server. A socket delivers a message or has failed. -/
inductive WireInput where
  | accept (fd : Nat) (clientId : Str)
  | receive (session : SessionId) (mp : Option Message)
  | close
  | left
  | initializeLeader
  deriving DecidableEq, Repr

namespace WireServer

variable {δ : Type}

/-- A step of the server below. -/
def below (w : WireServer δ) (step : ChubbyServer δ → Option (ChubbyServer δ)) :
    Option (WireServer δ) :=
  (step w.server).map fun σ => { w with server := σ }

/-- `ms->putmsg(xdr_to_msg(…))` with the header of a refusal. -/
def refuse (host : ByteOrder) (session : SessionId) (call : Message) (xid : Xid) (r : Refusal)
    (w : WireServer δ) : WireServer δ :=
  match xdrToMsg host rpcMsg (r.header xid) with
  | .ok m => { w with refused := w.refused ++ [(session, call, m)] }
  | .error _ => { w with server := { w.server with ended := true } }

variable (E : Service δ) (host : ByteOrder)

/-- What is done for a message, after `dispatch`: `deregisterSession` for an
    `xdr_runtime_error`; any other exception ends the process. -/
def handled (session : SessionId) (m : Message) (w : WireServer δ) :
    Except XdrFault (Xid × Handled Serve) → Option (WireServer δ)
  | .error e =>
    if e.IsRuntimeError then w.below (·.failure session)
    else some { w with server := { w.server with ended := true } }
  | .ok (xid, .refused r) => some (w.refuse host session m xid r)
  | .ok (xid, .runs serve) => w.below (·.proceed E (serve session xid))
  | .ok (_, .ignored) => some w

/-- `receive_cb` with a message: `asynchronized_dispatch`. -/
def receive (session : SessionId) (m : Message) (w : WireServer δ) : Option (WireServer δ) :=
  if w.server.idle && w.server.registry.registered session then
    w.handled E host session m (dispatch host chubbyServers m)
  else none

/-- The process takes a step. -/
def proceed (w : WireServer δ) : WireInput → Option (WireServer δ)
  | .accept fd clientId => w.below (·.accept fd clientId)
  | .receive session none => w.below (·.failure session)
  | .receive session (some m) => w.receive E host session m
  | .close => w.below (·.close E)
  | .left => w.below (·.left)
  | .initializeLeader => w.below (·.proceed E .initializeLeader)

/-- One step of the server; there is none after the process has ended. -/
def step (input : WireInput) (w : WireServer δ) : Option (WireServer δ) :=
  if w.server.ended then none else w.proceed E host input

end WireServer

variable {δ : Type} (E : Service δ) (host : ByteOrder)

/-- The server on its sockets, over a fresh start on the database `db`. -/
def wire (db : δ) (masterSequenceNumber : UInt64) : Lts (WireServer δ) WireInput where
  init w := w = ⟨.fresh db masterSequenceNumber, []⟩
  step := WireServer.step E host

/-- What a message is to the server below, after `dispatch`. -/
def called (session : SessionId) : Except XdrFault (Xid × Handled Serve) → Option ServerInput
  | .error _ => some (.failure session)
  | .ok (xid, .runs serve) => some (serve session xid)
  | .ok (_, _) => none

/-- What an input is to the server below, if it is something. -/
def meaning : WireInput → Option ServerInput
  | .accept fd clientId => some (.accept fd clientId)
  | .receive session none => some (.failure session)
  | .receive session (some m) => called session (dispatch host chubbyServers m)
  | .close => some .close
  | .left => some .left
  | .initializeLeader => some .initializeLeader

/-- A condition on the steps of the server below. -/
def Lifted (ok : ChubbyServer δ → ServerInput → Prop) (w : WireServer δ) (input : WireInput) :
    Prop :=
  ∀ input', meaning host input = some input' → ok w.server input'

instance (ok : ChubbyServer δ → ServerInput → Prop) [∀ σ input, Decidable (ok σ input)]
    (w : WireServer δ) (input : WireInput) : Decidable (Lifted host ok w input) :=
  match h : meaning host input with
  | none => isTrue fun input' hmeaning => by
    rw [h] at hmeaning
    cases hmeaning
  | some input' => decidable_of_iff (ok w.server input') (by simp [Lifted, h])

/-- The message by which a call is refused, if its header or its arguments say that it
    must be: it has the transaction id of the call and the reason. -/
def refusal (call : Message) : Option Message :=
  match readHeader host rpcMsg.fresh call with
  | .error _ => none
  | .ok (hdr, rest) =>
    hdr.cbody.bind fun cb =>
      match outcome host chubbyServers cb rest with
      | .refused r => (xdrToMsg host rpcMsg (r.header hdr.xid)).toOption
      | _ => none

/-- What is refused of an input. -/
def refusals : WireInput → List (SessionId × Message × Message)
  | .receive session (some call) => (refusal host call).toList.map fun m => (session, call, m)
  | _ => []

variable {E host}

theorem WireServer.below_eq_some {w w' : WireServer δ}
    {step : ChubbyServer δ → Option (ChubbyServer δ)} (h : w.below step = some w') :
    step w.server = some w'.server ∧ w'.refused = w.refused := by
  obtain ⟨σ, hσ, rfl⟩ := Option.map_eq_some_iff.mp h
  exact ⟨hσ, rfl⟩

/-- A message is a step of the server below, or a call that must be refused and is. -/
theorem WireServer.receive_cases {w w' : WireServer δ} {session : SessionId} {call : Message}
    (h : w.receive E host session call = some w') :
    (refusal host call = none ∧
      ∃ input, meaning host (.receive session (some call)) = some input ∧
        w.server.proceed E input = some w'.server ∧ w'.refused = w.refused) ∨
    meaning host (.receive session (some call)) = none ∧ w'.server = w.server ∧
      ∃ m, refusal host call = some m ∧ w'.refused = w.refused ++ [(session, call, m)] := by
  unfold receive at h
  split_ifs at h
  show (_ ∧ ∃ input, called session (dispatch host chubbyServers call) = some input ∧ _) ∨
    called session (dispatch host chubbyServers call) = none ∧ _
  unfold refusal
  rcases dispatch_cases host chubbyServers call with
    ⟨e, hthrow, he, hnone⟩ | ⟨hdr, cb, rest, hread, hcb, hcall⟩
  · rw [hthrow] at h ⊢
    have hfailure : w.below (·.failure session) = some w' := by
      rwa [handled, if_pos he] at h
    refine Or.inl ⟨?_, _, rfl, WireServer.below_eq_some hfailure⟩
    cases hread : readHeader host rpcMsg.fresh call with
    | error _ => rfl
    | ok p =>
      dsimp only
      rw [hnone p.1 p.2 hread, Option.bind_none]
  · rw [hcall] at h ⊢
    rw [hread]
    dsimp only
    rw [hcb, Option.bind_some]
    cases hout : outcome host chubbyServers cb rest with
    | ignored => exact absurd hout (outcome_ne_ignored _ _ _ _)
    | runs serve =>
      rw [hout] at h
      have hserve : w.below (·.proceed E (serve session hdr.xid)) = some w' := h
      exact Or.inl ⟨rfl, _, rfl, WireServer.below_eq_some hserve⟩
    | refused r =>
      rw [hout] at h
      obtain ⟨m, hm⟩ := refusal_message host hdr.xid r
      have hrefuse : w.refuse host session call hdr.xid r = w' := Option.some.inj h
      unfold refuse at hrefuse
      rw [hm] at hrefuse
      subst hrefuse
      refine Or.inr ⟨rfl, rfl, m, ?_, rfl⟩
      dsimp only
      rw [hm]
      rfl

/-- An input is the step of the server below that it means, if it means one, and what
    must be refused of it is refused. -/
theorem WireServer.step_cases {w w' : WireServer δ} {input : WireInput}
    (h : w.step E host input = some w') :
    (match meaning host input with
      | none => w'.server = w.server
      | some input' => w.server.step E input' = some w'.server) ∧
    w'.refused = w.refused ++ refusals host input := by
  unfold step at h
  cases hended : w.server.ended with
  | true =>
    rw [hended] at h
    cases h
  | false =>
    rw [hended] at h
    have hbelow : ∀ input', w.below (·.proceed E input') = some w' →
        w.server.step E input' = some w'.server ∧ w'.refused = w.refused ++ [] := by
      intro input' hstep
      obtain ⟨hproceed, hrefused⟩ := WireServer.below_eq_some hstep
      rw [List.append_nil]
      exact ⟨ChubbyServer.step_eq_some.mpr ⟨hended, hproceed⟩, hrefused⟩
    cases input with
    | accept fd clientId => exact hbelow (.accept fd clientId) h
    | close => exact hbelow .close h
    | left => exact hbelow .left h
    | initializeLeader => exact hbelow .initializeLeader h
    | receive session mp =>
      cases mp with
      | none => exact hbelow (.failure session) h
      | some call =>
        have hrefusals : refusals host (.receive session (some call)) =
            (refusal host call).toList.map fun m => (session, call, m) := rfl
        rw [hrefusals]
        rcases WireServer.receive_cases h with
          ⟨hnone, input', hmeaning, hstep, hsame⟩ | ⟨hmeaning, hserver, m, hm, hadds⟩
        · rw [hmeaning, hnone, Option.toList_none, List.map_nil, List.append_nil]
          exact ⟨ChubbyServer.step_eq_some.mpr ⟨hended, hstep⟩, hsame⟩
        · rw [hmeaning, hm]
          exact ⟨hserver, hadds⟩

/-! ## Every run -/

/-- Every run on the wire is the run of the service that its inputs mean, and it has
    refused, in their order, the calls whose headers or arguments must be refused. -/
theorem wire_refines {db : δ} {masterSequenceNumber : UInt64}
    {ok : ChubbyServer δ → ServerInput → Prop} {inputs : List WireInput} {w : WireServer δ}
    (h : (wire E host db masterSequenceNumber).Run (Lifted host ok) inputs w) :
    (E.server db masterSequenceNumber).Run ok (inputs.filterMap (meaning host)) w.server ∧
      w.refused = inputs.flatMap (refusals host) := by
  constructor
  · refine h.refines WireServer.server (meaning host) ?_ ?_ ?_
    · rintro w rfl
      rfl
    · intro w w' input _ hstep hmeaning
      have hcases := (WireServer.step_cases hstep).1
      rwa [hmeaning] at hcases
    · intro w w' input input' hok hstep hmeaning
      have hcases := (WireServer.step_cases hstep).1
      rw [hmeaning] at hcases
      exact ⟨hok input' hmeaning, hcases⟩
  · induction h with
    | init h =>
      obtain rfl := h
      rfl
    | step _ _ hstep ih =>
      rw [List.flatMap_append, List.flatMap_singleton, ← ih]
      exact (WireServer.step_cases hstep).2

/-- The message that has been made, or an empty one. -/
def sentBy (m : Except XdrFault Message) : Message := m.toOption.getD ⟨[], Nat.two_pow_pos 31⟩

/-- A session is started, a procedure called that the service does not have, and
    the session lost with an empty message. -/
def strangeClient : List WireInput :=
  [.accept 5 ['1'], .receive 1 (some (sentBy (callMessage .little 1 (.startSession ['1'])))),
    .receive 1 (some (sentBy (marshalCall .little 2 99 xstring []))),
    .receive 1 (some ⟨[], Nat.two_pow_pos 31⟩), .left]

theorem wire_strangeClient :
    let E := Service.paxos .refusing (fun _ => 0) inlineNamed
    ∃ w, (wire E .big .empty 0).Run (Lifted .big fun _ _ => True) strangeClient w ∧
      w.refused ≠ [] ∧
      (E.server .empty 0).Run (fun _ _ => True) (strangeClient.filterMap (meaning .big)) w.server ∧
      w.refused = strangeClient.flatMap (refusals .big) := by
  intro E
  have hrun : ((wire E .big .empty 0).exec (Lifted .big fun _ _ => True) strangeClient
      ⟨.fresh .empty 0, []⟩).map (·.refused.length) = some 1 := by
    decide
  obtain ⟨w, hw, hrefused⟩ := Option.map_eq_some_iff.mp hrun
  have hinputs : (wire E .big .empty 0).Run (Lifted .big fun _ _ => True) strangeClient w :=
    Lts.Run.exec (.init rfl) hw
  have hne : w.refused ≠ [] := by
    intro hnil
    rw [hnil] at hrefused
    cases hrefused
  exact ⟨w, hinputs, hne, wire_refines hinputs⟩

/-- The message of a request is a call of its handler with its arguments. -/
theorem receive_callMessage {w : WireServer δ} {session : SessionId} {host' : ByteOrder} {xid : Xid}
    {request : Request} {m : Message} (hbytes : IsBytes request)
    (h : callMessage host' xid request = .ok m) :
    w.step E host (.receive session (some m)) =
      (w.server.step E (.rpc session xid request)).map fun σ => { w with server := σ } := by
  have hdispatch := dispatch_callMessage host hbytes h
  have hproceed : w.proceed E host (.receive session (some m)) =
      w.below (·.proceed E (.rpc session xid request)) := by
    show w.receive E host session m = _
    unfold WireServer.receive
    rw [hdispatch]
    split_ifs with hguard
    · rfl
    · unfold WireServer.below
      show none = Option.map _ (w.server.rpc E session xid request)
      rw [ChubbyServer.rpc, if_neg hguard]
      rfl
  unfold WireServer.step ChubbyServer.step
  cases w.server.ended with
  | true => rfl
  | false => exact hproceed

theorem receive_startSession :
    let σ : ChubbyServer Store :=
      { ChubbyServer.fresh .empty 0 with registry := Registry.empty.registerSession 5 ['1'] }
    let E := Service.paxos .refusing (fun _ => 0) inlineNamed
    (σ.step E (.rpc 1 1 (.startSession ['1']))).isSome ∧
      WireServer.step E .big
          (.receive 1 (some (sentBy (callMessage .little 1 (.startSession ['1']))))) ⟨σ, []⟩ =
        (σ.step E (.rpc 1 1 (.startSession ['1']))).map fun σ => ⟨σ, []⟩ := by
  have hbytes : IsBytes (.startSession ['1']) := by
    intro c hc
    rw [List.mem_singleton] at hc
    subst hc
    decide
  have hmsg : callMessage .little 1 (.startSession ['1']) =
      .ok (sentBy (callMessage .little 1 (.startSession ['1']))) := rfl
  exact ⟨by decide, receive_callMessage hbytes hmsg⟩

end Rpc

end SimpleChubby
