import SimpleChubby.Rpc.Headers

/-!
# Dispatching a call, and reading its reply

`rpc_server_base::dispatch` and `chubby_server::asynchronized_dispatch` look at
the header of a message in the same way; they differ in what they do with a
procedure that they find, which is a parameter here. On the other side,
`synchronous_client_base::invoke` and `chubby_client::invoke` read the reply in
the same way, and differ in the name in front of their texts.
-/

namespace SimpleChubby

open Xdr

namespace Rpc

/-! ## Interfaces -/

/-- A procedure for `call_dispatch`: the type of its argument, and what is run on it. -/
structure Procedure (ρ : Type) where
  Arg : Type
  arg : XdrTraits Arg
  format : XdrFormat arg
  run : Arg → ρ

/-- A service with the interface it is registered for. -/
structure Interface (ρ : Type) where
  prog : UInt32
  vers : UInt32
  procedures : UInt32 → Option (Procedure ρ)

variable {ρ : Type}

/-- `servers_[s->prog_][s->vers_].reset(s)`, where the map of maps is a list. -/
def register (s : Interface ρ) (servers : List (Interface ρ)) : List (Interface ρ) :=
  s :: servers.filter fun s' => !(s'.prog == s.prog && s'.vers == s.vers)

/-- The lowest version of a program. -/
def lowest (found : List (Interface ρ)) : UInt32 := (found.map (·.vers)).min?.getD 0

/-- The highest version of a program. -/
def highest (found : List (Interface ρ)) : UInt32 := (found.map (·.vers)).max?.getD 0

/-- Find the program in `servers_`, and the version in its map. -/
def find (servers : List (Interface ρ)) (cb : CallBody) : Except Refusal (Interface ρ) :=
  match servers.filter (·.prog == cb.prog) with
  | [] => .error .progUnavail
  | s :: rest =>
    match (s :: rest).find? (·.vers == cb.vers) with
    | some s => .ok s
    | none => .error (.progMismatch (lowest (s :: rest)) (highest (s :: rest)))

/-! ## `dispatch` -/

/-- What comes of a call. -/
inductive Handled (ρ : Type) where
  | refused (r : Refusal)
  | runs (r : ρ)
  /-- The second look at the header in `process` and `asynchronized_process`. -/
  | ignored
  deriving DecidableEq

/-- `dispatch<P>`: unmarshal the argument, which is all that is left. -/
def runProcedure (host : ByteOrder) (p : Procedure ρ) (rest : List UInt8) : Except XdrFault ρ :=
  (loadAll host p.arg p.arg.fresh "synchronous_server did not consume whole message" rest).map
    p.run

/-- `process` and `asynchronized_process`. -/
def process (host : ByteOrder) (s : Interface ρ) (cb : CallBody) (rest : List UInt8) :
    Except XdrFault (Handled ρ) :=
  if cb.rpcvers ≠ 2 ∨ cb.prog ≠ s.prog ∨ cb.vers ≠ s.vers then .ok .ignored
  else
    match s.procedures cb.proc with
    | none => .ok (.refused .procUnavail)
    | some p => (runProcedure host p rest).map .runs

/-- The end of the dispatch of a call, when its header has been read. -/
def dispatchCall (host : ByteOrder) (servers : List (Interface ρ)) (cb : CallBody)
    (rest : List UInt8) : Except XdrFault (Handled ρ) :=
  if cb.rpcvers ≠ 2 then .ok (.refused .rpcMismatch)
  else
    match find servers cb with
    | .error r => .ok (.refused r)
    | .ok s =>
      match process host s cb rest with
      | .ok h => .ok h
      | .error e => if e.IsRuntimeError then .ok (.refused .garbageArgs) else .error e

/-- Read the header of a message into `old`; the rest is what is behind it. -/
def readHeader (host : ByteOrder) (old : RpcMsg) (m : Message) :
    Except XdrFault (RpcMsg × List UInt8) := do
  let bytes ← startGet m
  match rpcMsg.load host old bytes with
  | .stop e _ => .error e
  | .ret hdr rest => .ok (hdr, rest)

/-- What follows in `dispatch` when the header has been read. -/
def dispatchHeader (host : ByteOrder) (servers : List (Interface ρ)) (hdr : RpcMsg)
    (rest : List UInt8) : Except XdrFault (UInt32 × Handled ρ) :=
  match hdr.cbody with
  | none => .error (.runtimeError "rpc_server received non-CALL message")
  | some cb => (dispatchCall host servers cb rest).map ((hdr.xid, ·))

/-- `rpc_server_base::dispatch` and `asynchronized_dispatch`, with the transaction
    id of the call; an exception leaves them. -/
def dispatch (host : ByteOrder) (servers : List (Interface ρ)) (m : Message) :
    Except XdrFault (UInt32 × Handled ρ) := do
  let (hdr, rest) ← readHeader host rpcMsg.fresh m
  dispatchHeader host servers hdr rest

/-! ## `invoke` -/

/-- What follows in `invoke` when the header of the reply to `xid` has been read. -/
def checkedResult {T : Type} (who : String) (host : ByteOrder) (xid : UInt32) (t : XdrTraits T)
    (hdr : RpcMsg) (rest : List UInt8) : Except XdrFault T :=
  match checkCallHdr hdr with
  | some what => .error (.runtimeError what)
  | none =>
    if hdr.xid ≠ xid then .error (.runtimeError (who ++ ": unexpected xid"))
    else loadAll host t t.fresh (who ++ ": did not consume whole message") rest

/-- The end of `invoke`, with the header `hdr` of its call and the message `m`
    that it takes for the reply. -/
def invokeResult {T : Type} (who : String) (host : ByteOrder) (hdr : RpcMsg) (t : XdrTraits T)
    (m : Message) : Except XdrFault T := do
  let (hdr', rest) ← readHeader host hdr m
  checkedResult who host hdr.xid t hdr' rest

/-! ## Safety -/

/-- From any message a header within its bounds is read, and words are left. -/
theorem readHeader_safe (host : ByteOrder) (old : RpcMsg) (m : Message) :
    match readHeader host old m with
    | .ok (hdr, rest) => rpcMsgFormat.Fits hdr ∧ 4 ∣ rest.length
    | .error e => e.IsRuntimeError := by
  unfold readHeader
  cases hstart : startGet m with
  | error e => exact startGet_error hstart
  | ok bytes =>
    obtain ⟨_, hbytes⟩ := startGet_eq_ok hstart
    have hsafe := rpcMsgFormat.parses host old bytes hbytes (Nat.zero_le _)
    unfold Prog.wp at hsafe
    show match (match rpcMsg.load host old bytes with
      | .stop e _ => Except.error e
      | .ret hdr rest => Except.ok (hdr, rest)) with
      | .ok (hdr, rest) => rpcMsgFormat.Fits hdr ∧ 4 ∣ rest.length
      | .error e => e.IsRuntimeError
    cases hload : rpcMsg.load host old bytes with
    | stop e s =>
      rw [hload] at hsafe
      exact hsafe
    | ret hdr rest =>
      rw [hload] at hsafe
      obtain ⟨l, rfl, hunit, hfits, _⟩ := hsafe
      rw [List.length_append] at hbytes
      exact ⟨hfits, (Nat.dvd_add_right hunit).mp hbytes⟩

/-- A service that is found is one of its program and version. -/
theorem find_eq_ok {servers : List (Interface ρ)} {cb : CallBody} {s : Interface ρ}
    (h : find servers cb = .ok s) : s ∈ servers ∧ s.prog = cb.prog ∧ s.vers = cb.vers := by
  unfold find at h
  cases hfilter : servers.filter (·.prog == cb.prog) with
  | nil =>
    rw [hfilter] at h
    cases h
  | cons s₀ rest =>
    rw [hfilter] at h
    dsimp only at h
    cases hfind : (s₀ :: rest).find? (·.vers == cb.vers) with
    | none =>
      rw [hfind] at h
      cases h
    | some s' =>
      rw [hfind] at h
      injection h with hs
      subst hs
      have hmem := List.mem_of_find?_eq_some hfind
      have hvers := List.find?_some hfind
      rw [← hfilter, List.mem_filter] at hmem
      exact ⟨hmem.1, by simpa using hmem.2, by simpa using hvers⟩

/-- The second look at the header finds nothing new. -/
theorem process_not_ignored {host : ByteOrder} {servers : List (Interface ρ)} {cb : CallBody}
    {s : Interface ρ} (hvers : cb.rpcvers = 2) (h : find servers cb = .ok s) (rest : List UInt8) :
    process host s cb rest =
      match s.procedures cb.proc with
      | none => .ok (.refused .procUnavail)
      | some p => (runProcedure host p rest).map .runs := by
  obtain ⟨_, hprog, hvers'⟩ := find_eq_ok h
  unfold process
  rw [if_neg]
  simp [hvers, hprog, hvers']

/-- Unmarshaling the argument of a procedure. -/
theorem runProcedure_safe (host : ByteOrder) (p : Procedure ρ) {rest : List UInt8}
    (hrest : 4 ∣ rest.length) {e : XdrFault} (h : runProcedure host p rest = .error e) :
    e.IsRuntimeError := by
  have hsafe := loadAll_safe p.format host p.arg.fresh
    "synchronous_server did not consume whole message" hrest
  unfold runProcedure at h
  cases hload : loadAll host p.arg p.arg.fresh
      "synchronous_server did not consume whole message" rest with
  | ok a =>
    rw [hload] at h
    cases h
  | error e' =>
    rw [hload] at h hsafe
    injection h with he
    rw [← he]
    exact hsafe

/-- What comes of a call with the argument bytes `rest`. -/
def outcome (host : ByteOrder) (servers : List (Interface ρ)) (cb : CallBody)
    (rest : List UInt8) : Handled ρ :=
  if cb.rpcvers ≠ 2 then .refused .rpcMismatch
  else
    match find servers cb with
    | .error r => .refused r
    | .ok s =>
      match s.procedures cb.proc with
      | none => .refused .procUnavail
      | some p =>
        match runProcedure host p rest with
        | .ok r => .runs r
        | .error _ => .refused .garbageArgs

/-- The call is refused or run. -/
theorem outcome_ne_ignored (host : ByteOrder) (servers : List (Interface ρ)) (cb : CallBody)
    (rest : List UInt8) : outcome host servers cb rest ≠ .ignored := by
  unfold outcome
  split_ifs
  · simp
  · cases find servers cb with
    | error r => simp
    | ok s =>
      dsimp only
      cases s.procedures cb.proc with
      | none => simp
      | some p =>
        dsimp only
        cases runProcedure host p rest <;> simp

/-- What is run is a procedure of one of the services, on an argument of its type. -/
theorem outcome_eq_runs {host : ByteOrder} {servers : List (Interface ρ)} {cb : CallBody}
    {rest : List UInt8} {r : ρ} (hrest : 4 ∣ rest.length)
    (h : outcome host servers cb rest = .runs r) :
    ∃ s ∈ servers, ∃ p a, s.procedures cb.proc = some p ∧ p.format.Fits a ∧ r = p.run a := by
  unfold outcome at h
  split_ifs at h
  cases hfind : find servers cb with
  | error refusal =>
    rw [hfind] at h
    cases h
  | ok s =>
    rw [hfind] at h
    dsimp only at h
    cases hproc : s.procedures cb.proc with
    | none =>
      rw [hproc] at h
      cases h
    | some p =>
      rw [hproc] at h
      dsimp only at h
      have hsafe := loadAll_safe p.format host p.arg.fresh
        "synchronous_server did not consume whole message" hrest
      unfold runProcedure at h
      cases hload : loadAll host p.arg p.arg.fresh
          "synchronous_server did not consume whole message" rest with
      | error e =>
        rw [hload] at h
        cases h
      | ok a =>
        rw [hload] at h hsafe
        cases h
        exact ⟨s, (find_eq_ok hfind).1, p, a, hproc, hsafe.1, rfl⟩

theorem dispatchCall_eq (host : ByteOrder) (servers : List (Interface ρ)) (cb : CallBody)
    {rest : List UInt8} (hrest : 4 ∣ rest.length) :
    dispatchCall host servers cb rest = .ok (outcome host servers cb rest) := by
  unfold dispatchCall outcome
  by_cases hvers : cb.rpcvers = 2
  · rw [if_neg (not_not.mpr hvers), if_neg (not_not.mpr hvers)]
    cases hfind : find servers cb with
    | error r => rfl
    | ok s =>
      dsimp only
      rw [process_not_ignored hvers hfind]
      cases s.procedures cb.proc with
      | none => rfl
      | some p =>
        dsimp only
        cases hrun : runProcedure host p rest with
        | ok r => rfl
        | error e => exact if_pos (runProcedure_safe host p hrest hrun)
  · rw [if_pos hvers, if_pos hvers]

/-- A message is a call, which is refused or run, or it is none and an
    `xdr_runtime_error` is thrown, which the receiver catches. -/
theorem dispatch_cases (host : ByteOrder) (servers : List (Interface ρ)) (m : Message) :
    (∃ e, dispatch host servers m = .error e ∧ e.IsRuntimeError ∧
      ∀ hdr rest, readHeader host rpcMsg.fresh m = .ok (hdr, rest) → hdr.cbody = none) ∨
      ∃ hdr cb rest, readHeader host rpcMsg.fresh m = .ok (hdr, rest) ∧ hdr.cbody = some cb ∧
        dispatch host servers m = .ok (hdr.xid, outcome host servers cb rest) := by
  have hsafe := readHeader_safe host rpcMsg.fresh m
  unfold dispatch
  cases hread : readHeader host rpcMsg.fresh m with
  | error e =>
    rw [hread] at hsafe
    exact Or.inl ⟨e, rfl, hsafe, fun _ _ hok => by cases hok⟩
  | ok p =>
    obtain ⟨hdr, rest⟩ := p
    rw [hread] at hsafe
    cases hcb : hdr.cbody with
    | none =>
      refine Or.inl ⟨.runtimeError "rpc_server received non-CALL message", ?_, trivial, ?_⟩
      · show dispatchHeader host servers hdr rest = _
        rw [dispatchHeader, hcb]
      · intro hdr' rest' hok
        cases hok
        exact hcb
    | some cb =>
      refine Or.inr ⟨hdr, cb, rest, rfl, hcb, ?_⟩
      show dispatchHeader host servers hdr rest = _
      rw [dispatchHeader, hcb]
      dsimp only
      rw [dispatchCall_eq host servers cb hsafe.2]
      rfl

/-! ## A call and its reply -/

/-- The header of a message is read as it was written, and the rest is left. -/
theorem readHeader_of_reads {host : ByteOrder} {old hdr : RpcMsg} {m : Message}
    {bytes rest : List UInt8} (hstart : startGet m = .ok (bytes ++ rest))
    (hread : bytes.length < 2 ^ 32 → Prog.Reads (rpcMsg.load host old) bytes hdr) :
    readHeader host old m = .ok (hdr, rest) := by
  have hlen := length_of_startGet hstart
  rw [List.length_append] at hlen
  have hread := hread (by omega)
  unfold readHeader
  rw [hstart]
  show (match rpcMsg.load host old (bytes ++ rest) with
    | .stop e _ => Except.error e
    | .ret hdr rest => Except.ok (hdr, rest)) = _
  rw [hread rest]

section Call

variable {T : Type} {t : XdrTraits T} (fmt : XdrFormat t)

/-- The message of a header and a value behind it. -/
theorem startGet_of_argpack {host : ByteOrder} {hdr : RpcMsg} {v : T} {m : Message}
    (h : xdrToMsg host (argpack rpcMsg t) (hdr, v) = .ok m) :
    startGet m = .ok (rpcMsgFormat.encode hdr ++ fmt.encode v) := by
  have hstart := startGet_of_xdrToMsg (rpcMsgFormat.argpack fmt) h
  rwa [XdrFormat.argpack_encode] at hstart

/-- The message of a call is read as that call, whichever machines write and read it. -/
theorem readHeader_call (host' : ByteOrder) {host : ByteOrder} {xid prog vers proc : UInt32} {v : T}
    {m : Message}
    (h : xdrToMsg host (argpack rpcMsg t) (callHeader xid prog vers proc, v) = .ok m) :
    readHeader host' rpcMsg.fresh m = .ok (callHeader xid prog vers proc, fmt.encode v) :=
  readHeader_of_reads (startGet_of_argpack fmt h)
    (rpcMsgFormat.reads host' _ (fits_callHeader xid prog vers proc))

/-- A procedure that is found runs on the argument of its call. -/
theorem dispatch_call (host' : ByteOrder) {host : ByteOrder} {servers : List (Interface ρ)}
    {s : Interface ρ}
    {p : Procedure ρ} {xid prog vers proc : UInt32} {a : p.Arg} {m : Message}
    (hfind : find servers ⟨2, prog, vers, proc, noAuth, noAuth⟩ = .ok s)
    (hproc : s.procedures proc = some p) (hfits : p.format.Fits a)
    (h : xdrToMsg host (argpack rpcMsg p.arg) (callHeader xid prog vers proc, a) = .ok m) :
    dispatch host' servers m = .ok (xid, .runs (p.run a)) := by
  have hread := readHeader_call p.format host' h
  have hlen := length_of_startGet (startGet_of_argpack p.format h)
  rw [List.length_append] at hlen
  have hrun : runProcedure host' p (p.format.encode a) = .ok (p.run a) := by
    unfold runProcedure
    rw [loadAll_encode p.format host' hfits (by omega)]
    rfl
  have hcall : dispatchCall host' servers ⟨2, prog, vers, proc, noAuth, noAuth⟩
      (p.format.encode a) = .ok (.runs (p.run a)) := by
    rw [dispatchCall_eq host' servers _ (p.format.aligned a)]
    unfold outcome
    rw [if_neg (by simp), hfind]
    dsimp only
    rw [hproc]
    dsimp only
    rw [hrun]
  unfold dispatch
  rw [hread]
  show (dispatchCall host' servers ⟨2, prog, vers, proc, noAuth, noAuth⟩ (p.format.encode a)).map
    ((xid, ·)) = _
  rw [hcall]
  rfl

/-- The caller that waits for the transaction `xid` gets the value of a reply to it. -/
theorem invokeResult_of_startGet (who : String) {host : ByteOrder} {xid prog vers proc : UInt32}
    {v : T} {m : Message} (hfits : fmt.Fits v)
    (h : startGet m = .ok (rpcMsgFormat.encode (replyHeader xid) ++ fmt.encode v)) :
    invokeResult who host (callHeader xid prog vers proc) t m = .ok v := by
  have hread := readHeader_of_reads h
    (reads_reply host (callHeader xid prog vers proc) (replyHeader xid) rfl rfl
      (fits_replyHeader xid))
  have hlen := length_of_startGet h
  rw [List.length_append] at hlen
  unfold invokeResult
  rw [hread]
  show checkedResult who host xid t (replyHeader xid) (fmt.encode v) = _
  rw [checkedResult, checkCallHdr_reply]
  exact (if_neg (not_not.mpr rfl)).trans (loadAll_encode fmt host hfits (by omega) _)

theorem invokeResult_reply (who : String) {host host' : ByteOrder}
    {xid prog vers proc : UInt32} {v : T} {m : Message} (hfits : fmt.Fits v)
    (h : xdrToMsg host' (argpack rpcMsg t) (replyHeader xid, v) = .ok m) :
    invokeResult who host (callHeader xid prog vers proc) t m = .ok v :=
  invokeResult_of_startGet fmt who hfits (startGet_of_argpack fmt h)

/-- The caller of a refused call gets an exception with the text for the reason. -/
theorem invokeResult_refused (who : String) (host : ByteOrder) {host' : ByteOrder}
    {xid prog vers proc : UInt32} {r : Refusal} {m : Message}
    (h : xdrToMsg host' rpcMsg (r.header xid) = .ok m) :
    invokeResult who host (callHeader xid prog vers proc) t m = .error (.runtimeError r.what) := by
  have hnew : (r.header xid).cbody = none := by
    cases r <;> rfl
  have hstart := startGet_of_xdrToMsg rpcMsgFormat h
  rw [← List.append_nil (rpcMsgFormat.encode (r.header xid))] at hstart
  have hread := readHeader_of_reads hstart
    (reads_reply host (callHeader xid prog vers proc) (r.header xid) rfl hnew (fits_header xid r))
  unfold invokeResult
  rw [hread]
  show checkedResult who host xid t (r.header xid) [] = _
  rw [checkedResult, checkCallHdr_header]

end Call

end Rpc

end SimpleChubby
