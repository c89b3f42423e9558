import SimpleChubby.Rpc.Dispatch

/-!
# Synchronous calls

The server that answers each call before it takes the next: `synchronous_server`
and `rpc_server_base::dispatch` (`xdrpp/server.h`, `xdrpp/server.cc`), with
procedures that change a state and may throw. A caller in
`synchronous_client_base::invoke` that gets the server's message has made the call
itself: what it gets is what the procedure has returned, and where the procedure
has not been run, the state is as it was.
-/

namespace SimpleChubby

open Xdr

namespace Rpc

/-- Why a server stops: an exception of the XDR library, or another one. -/
inductive Thrown where
  | xdr (e : XdrFault)
  | other
  deriving DecidableEq, Repr

/-- Whether a `catch (const xdr_runtime_error &)` takes it. -/
def Thrown.IsRuntimeError : Thrown → Prop
  | .xdr e => e.IsRuntimeError
  | .other => False

instance : DecidablePred Thrown.IsRuntimeError := fun e => by
  cases e <;> unfold Thrown.IsRuntimeError <;> infer_instance

/-- A procedure of a service with the state `σ`. -/
structure Method (σ : Type) where
  Arg : Type
  Res : Type
  arg : XdrTraits Arg
  res : XdrTraits Res
  argFormat : XdrFormat arg
  resFormat : XdrFormat res
  run : Arg → Prog Thrown σ Res

section Serve

variable {σ : Type}

/-- `xdr_to_msg`, in the server. -/
def marshaled {T : Type} (host : ByteOrder) (t : XdrTraits T) (v : T) : Prog Thrown σ Message :=
  orThrow Thrown.xdr (xdrToMsg host t v)

/-- The end of `dispatch<P>`: the procedure, and the marshaling of its result. -/
def Method.answer (host : ByteOrder) (p : Method σ) (a : p.Arg) (xid : UInt32) :
    Prog Thrown σ Message := do
  let res ← p.run a
  marshaled host (argpack rpcMsg p.res) (replyHeader xid, res)

/-- The procedure in the table of `call_dispatch`. -/
def Method.procedure (host : ByteOrder) (p : Method σ) :
    Procedure (UInt32 → Prog Thrown σ Message) where
  Arg := p.Arg
  arg := p.arg
  format := p.argFormat
  run := p.answer host

/-- `synchronous_server` for an interface. -/
def synchronousServer (host : ByteOrder) (prog vers : UInt32)
    (procedures : UInt32 → Option (Method σ)) : Interface (UInt32 → Prog Thrown σ Message) where
  prog := prog
  vers := vers
  procedures n := (procedures n).map (Method.procedure host)

/-- `rpc_server_base::dispatch`: the message that it returns; `none` is the null
    pointer of a `process` that finds another header. -/
def serve (host : ByteOrder) (servers : List (Interface (UInt32 → Prog Thrown σ Message)))
    (m : Message) : Prog Thrown σ (Option Message) :=
  match dispatch host servers m with
  | .error e => Prog.halt (.xdr e)
  | .ok (xid, .refused r) => do
    let m ← marshaled host rpcMsg (r.header xid)
    return some m
  | .ok (_, .ignored) => pure none
  | .ok (xid, .runs answer) => fun st =>
    match answer xid st with
    | .ret m st' => .ret (some m) st'
    | .stop e st' =>
      if e.IsRuntimeError then
        (do
          let m ← marshaled host rpcMsg (Refusal.garbageArgs.header xid)
          return some m) st'
      else .stop e st'

/-! ## The remote call is the call -/

variable {p : Method σ} {host host' : ByteOrder} {xid prog vers proc : UInt32}
  {servers : List (Interface (UInt32 → Prog Thrown σ Message))}
  {s : Interface (UInt32 → Prog Thrown σ Message)} {m : Message} {a : p.Arg} {st st' : σ}

theorem marshaled_ok {T : Type} {t : XdrTraits T} {v : T} (h : xdrToMsg host t v = .ok m) :
    (marshaled host t v : Prog Thrown σ Message) st = .ret m st := by
  unfold marshaled
  rw [h]
  rfl

/-- What the server does with the message of a call of `p`. -/
theorem serve_call
    (hfind : find servers ⟨2, prog, vers, proc, noAuth, noAuth⟩ = .ok s)
    (hproc : s.procedures proc = some (p.procedure host')) (hfits : p.argFormat.Fits a)
    (h : xdrToMsg host (argpack rpcMsg p.arg) (callHeader xid prog vers proc, a) = .ok m) :
    serve host' servers m st =
      match p.answer host' a xid st with
      | .ret m' st' => .ret (some m') st'
      | .stop e st' =>
        if e.IsRuntimeError then
          (do
            let m' ← marshaled host' rpcMsg (Refusal.garbageArgs.header xid)
            return some m') st'
        else .stop e st' := by
  have hdispatch := dispatch_call (p := p.procedure host') host' hfind hproc hfits h
  unfold serve
  rw [hdispatch]
  rfl

/-- A caller of a procedure that returns gets what it has returned. -/
theorem invoke_of_ret {res : p.Res}
    (hfind : find servers ⟨2, prog, vers, proc, noAuth, noAuth⟩ = .ok s)
    (hproc : s.procedures proc = some (p.procedure host')) (hfits : p.argFormat.Fits a)
    (h : xdrToMsg host (argpack rpcMsg p.arg) (callHeader xid prog vers proc, a) = .ok m)
    (hrun : p.run a st = .ret res st') (hres : p.resFormat.Fits res)
    (hshort : ((rpcMsgFormat.argpack p.resFormat).encode (replyHeader xid, res)).length <
      0x80000000) (who : String) :
    ∃ m', serve host' servers m st = .ret (some m') st' ∧
      invokeResult who host (callHeader xid prog vers proc) p.res m' = .ok res := by
  have hmsg : xdrToMsg host' (argpack rpcMsg p.res) (replyHeader xid, res) = .ok ⟨_, hshort⟩ :=
    (xdrToMsg_eq (rpcMsgFormat.argpack p.resFormat) host' _).trans (dif_pos hshort)
  refine ⟨⟨_, hshort⟩, ?_, invokeResult_reply p.resFormat who hres hmsg⟩
  have hanswer : p.answer host' a xid st = .ret ⟨_, hshort⟩ st' := by
    unfold Method.answer
    rw [Prog.bind_of_ret hrun]
    exact marshaled_ok hmsg
  rw [serve_call hfind hproc hfits h, hanswer]

/-- The caller of a procedure that throws an `xdr_runtime_error` is told that its
    arguments are wrong. -/
theorem invoke_of_throw {e : Thrown}
    (hfind : find servers ⟨2, prog, vers, proc, noAuth, noAuth⟩ = .ok s)
    (hproc : s.procedures proc = some (p.procedure host')) (hfits : p.argFormat.Fits a)
    (h : xdrToMsg host (argpack rpcMsg p.arg) (callHeader xid prog vers proc, a) = .ok m)
    (hrun : p.run a st = .stop e st') (he : e.IsRuntimeError) (who : String) :
    ∃ m', serve host' servers m st = .ret (some m') st' ∧
      invokeResult who host (callHeader xid prog vers proc) p.res m' =
        .error (.runtimeError Refusal.garbageArgs.what) := by
  obtain ⟨m', hm'⟩ := refusal_message host' xid .garbageArgs
  refine ⟨m', ?_, invokeResult_refused who host hm'⟩
  have hanswer : p.answer host' a xid st = .stop e st' := by
    unfold Method.answer
    exact Prog.bind_of_stop hrun
  rw [serve_call hfind hproc hfits h, hanswer]
  dsimp only
  rw [if_pos he]
  exact Prog.bind_of_ret (marshaled_ok hm')

/-- The call of `invoke`, from the marshaling of its argument to its result. -/
def invoke {A R : Type} (who : String) (host host' : ByteOrder)
    (servers : List (Interface (UInt32 → Prog Thrown σ Message))) (xid prog vers proc : UInt32)
    (arg : XdrTraits A) (res : XdrTraits R) (a : A) : Prog Thrown σ (Except XdrFault R) :=
  match xdrToMsg host (argpack rpcMsg arg) (callHeader xid prog vers proc, a) with
  | .error e => pure (.error e)
  | .ok m => do
    match ← serve host' servers m with
    | none => Prog.halt .other
    | some m' => return invokeResult who host (callHeader xid prog vers proc) res m'

/-- The bytes of a value behind a header, in a message. -/
abbrev Short {T : Type} {t : XdrTraits T} (fmt : XdrFormat t) (hdr : RpcMsg) (v : T) : Prop :=
  ((rpcMsgFormat.argpack fmt).encode (hdr, v)).length < 0x80000000

/-- A remote call does to the state what the procedure does on the argument, and
    gets what it returns, between machines of any byte orders. -/
theorem invoke_eq (p : Method σ) (who : String) (host host' : ByteOrder)
    (servers : List (Interface (UInt32 → Prog Thrown σ Message)))
    (s : Interface (UInt32 → Prog Thrown σ Message)) (xid prog vers proc : UInt32) (a : p.Arg)
    (st : σ) (hfind : find servers ⟨2, prog, vers, proc, noAuth, noAuth⟩ = .ok s)
    (hproc : s.procedures proc = some (p.procedure host')) (hfits : p.argFormat.Fits a)
    (hshort : Short p.argFormat (callHeader xid prog vers proc) a)
    (hres : ∀ res st', p.run a st = .ret res st' →
      p.resFormat.Fits res ∧ Short p.resFormat (replyHeader xid) res) :
    invoke who host host' servers xid prog vers proc p.arg p.res a st =
      match p.run a st with
      | .ret res st' => .ret (.ok res) st'
      | .stop e st' =>
        if e.IsRuntimeError then .ret (.error (.runtimeError Refusal.garbageArgs.what)) st'
        else .stop e st' := by
  have hmsg : xdrToMsg host (argpack rpcMsg p.arg) (callHeader xid prog vers proc, a) =
      .ok ⟨_, hshort⟩ :=
    (xdrToMsg_eq (rpcMsgFormat.argpack p.argFormat) host _).trans (dif_pos hshort)
  unfold invoke
  rw [hmsg]
  cases hrun : p.run a st with
  | ret res st' =>
    obtain ⟨hresfits, hresshort⟩ := hres res st' hrun
    obtain ⟨m', hserve, hinvoke⟩ :=
      invoke_of_ret hfind hproc hfits hmsg hrun hresfits hresshort who
    dsimp only
    rw [Prog.bind_of_ret hserve, ← hinvoke]
    rfl
  | stop e st' =>
    dsimp only
    split_ifs with he
    · obtain ⟨m', hserve, hinvoke⟩ := invoke_of_throw hfind hproc hfits hmsg hrun he who
      rw [Prog.bind_of_ret hserve, ← hinvoke]
      rfl
    · have hanswer : p.answer host' a xid st = .stop e st' := Prog.bind_of_stop hrun
      have hserve : serve host' servers ⟨_, hshort⟩ st = .stop e st' := by
        rw [serve_call hfind hproc hfits hmsg, hanswer]
        exact if_neg he
      exact Prog.bind_of_stop hserve

/-- A call that is refused does nothing, and its caller is told why. -/
theorem invoke_refused {A R : Type} {arg : XdrTraits A} (fmt : XdrFormat arg) (res : XdrTraits R)
    (who : String) (host host' : ByteOrder)
    (servers : List (Interface (UInt32 → Prog Thrown σ Message))) (xid prog vers proc : UInt32)
    (a : A) (st : σ) (r : Refusal)
    (hout : outcome host' servers ⟨2, prog, vers, proc, noAuth, noAuth⟩ (fmt.encode a) = .refused r)
    (hshort : Short fmt (callHeader xid prog vers proc) a) :
    invoke who host host' servers xid prog vers proc arg res a st =
      .ret (.error (.runtimeError r.what)) st := by
  have hmsg : xdrToMsg host (argpack rpcMsg arg) (callHeader xid prog vers proc, a) =
      .ok ⟨_, hshort⟩ :=
    (xdrToMsg_eq (rpcMsgFormat.argpack fmt) host _).trans (dif_pos hshort)
  have hread := readHeader_call fmt host' hmsg
  have hdispatch : dispatch host' servers ⟨_, hshort⟩ = .ok (xid, .refused r) := by
    unfold dispatch
    rw [hread]
    show (dispatchCall host' servers ⟨2, prog, vers, proc, noAuth, noAuth⟩ (fmt.encode a)).map
      ((xid, ·)) = _
    rw [dispatchCall_eq host' servers _ (fmt.aligned a), hout]
    rfl
  obtain ⟨m', hm'⟩ := refusal_message host' xid r
  have hserve : serve host' servers ⟨_, hshort⟩ st = .ret (some m') st := by
    unfold serve
    rw [hdispatch]
    exact Prog.bind_of_ret (marshaled_ok hm')
  unfold invoke
  rw [hmsg]
  dsimp only
  rw [Prog.bind_of_ret hserve, ← invokeResult_refused who host hm']
  rfl

theorem invoke_noProgram :
    invoke "synchronous_client" .little .big
      ([] : List (Interface (UInt32 → Prog Thrown Nat Message)))
        1 0x30037075 1 2 uint32 uint32 5 0 =
      .ret (.error (.runtimeError "remote hasn't exported program")) 0 :=
  invoke_refused .uint32 uint32 "synchronous_client" .little .big [] 1 0x30037075 1 2 5 0
    .progUnavail rfl (by decide)

/-! ## Whatever is received -/

variable {T : σ → σ → Prop}

theorem marshaled_guards {A : Type} (hr : ∀ st, T st st) (t : XdrTraits A) (v : A) :
    Prog.Guards (fun _ => True) T (marshaled host t v : Prog Thrown σ Message) := by
  unfold marshaled
  cases xdrToMsg host t v with
  | ok m => exact Prog.Guards.pure hr m
  | error e => exact Prog.Guards.halt hr _

/-- A refusal is marshaled. -/
theorem refusal_ret (host : ByteOrder) (xid : UInt32) (r : Refusal) (st : σ) :
    ∃ m, (do
      let m ← marshaled host rpcMsg (r.header xid)
      return some m : Prog Thrown σ (Option Message)) st = .ret (some m) st := by
  obtain ⟨m, hm⟩ := refusal_message host xid r
  exact ⟨m, Prog.bind_of_ret (marshaled_ok hm)⟩

/-- A message does to the state what the procedures do on arguments of their types. -/
theorem serve_guards (hr : ∀ st, T st st)
    (hservers : ∀ s ∈ servers, ∀ proc q, s.procedures proc = some q → ∀ a, q.format.Fits a →
      ∀ xid, Prog.Guards (fun _ => True) T (q.run a xid)) (m : Message) :
    Prog.Guards (fun _ => True) T (serve host servers m) := by
  intro st _
  unfold serve
  rcases dispatch_cases host servers m with ⟨e, hthrow, _⟩ | ⟨hdr, cb, rest, hread, _, hcall⟩
  · rw [hthrow]
    exact hr st
  · have hrest := readHeader_safe host rpcMsg.fresh m
    rw [hread] at hrest
    rw [hcall]
    unfold Prog.wp
    cases hout : outcome host servers cb rest with
    | ignored => exact absurd hout (outcome_ne_ignored _ _ _ _)
    | refused r =>
      obtain ⟨m', hm'⟩ := refusal_ret host hdr.xid r st
      dsimp only
      rw [hm']
      exact ⟨trivial, hr st⟩
    | runs answer =>
      obtain ⟨s, hs, q, a, hq, hfits, rfl⟩ := outcome_eq_runs hrest.2 hout
      have hanswer := hservers s hs cb.proc q hq a hfits hdr.xid st trivial
      unfold Prog.wp at hanswer
      dsimp only
      cases hrun : q.run a hdr.xid st with
      | ret m' st' =>
        rw [hrun] at hanswer
        exact hanswer
      | stop e st' =>
        rw [hrun] at hanswer
        obtain ⟨m', hm'⟩ := refusal_ret host hdr.xid .garbageArgs st'
        dsimp only
        split_ifs
        · rw [hm']
          exact ⟨trivial, hanswer⟩
        · exact hanswer

/-- A service for one interface does to its state what its methods do. -/
theorem serve_synchronous (hr : ∀ st, T st st) (htrans : ∀ a b c, T a b → T b c → T a c)
    {methods : UInt32 → Option (Method σ)}
    (hmethods : ∀ proc p, methods proc = some p → ∀ a, p.argFormat.Fits a →
      Prog.Guards (fun _ => True) T (p.run a)) (m : Message) :
    Prog.Guards (fun _ => True) T
      (serve host (register (synchronousServer host prog vers methods) []) m) := by
  refine serve_guards hr ?_ m
  intro s hs proc q hq a hfits xid
  obtain rfl : s = synchronousServer host prog vers methods := by simpa [register] using hs
  obtain ⟨p, hp, rfl⟩ := Option.map_eq_some_iff.mp hq
  exact Prog.Guards.bind htrans (hmethods proc p hp a hfits) fun res =>
    marshaled_guards hr _ (replyHeader xid, res)

end Serve

end Rpc

end SimpleChubby
