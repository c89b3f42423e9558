import SimpleChubby.Lib.Lts
import SimpleChubby.Session.MsgSock
import SimpleChubby.Xdr.Endian

/-!
# The reading half of `msg_sock`

`msg_sock::input` (`xdrpp/msgsock.cc`) reads the length of a message, and then the
message together with the length of the next one. The descriptor gives any number
of the bytes that it is asked for. However the bytes of the peer are cut, the
callback gets the messages that were framed, in their order and each once; it gets
the null pointer only when a read fails or a length is refused. What the callback
does to the socket is a parameter; those of the repository destroy it on the null
pointer.
-/

namespace SimpleChubby

open Xdr

/-! ## `input` -/

/-- What comes of a `read` or `readv`: -1 with `EAGAIN`, a number of bytes (0 at the end
    of the stream), or -1 with another error. -/
inductive Fetched where
  | again
  | bytes (n : Nat)
  | failed
  deriving DecidableEq, Repr

/-- The reading half of a `msg_sock`. `got` are the `rdpos_` bytes that have been read
    of `rdmsg_`, or of `nextlen_` while there is no message; `stream` is what the peer
    has written and nobody has read. `delivered` are the arguments of `rcb_`. -/
structure MsgInput where
  rdmsg : Option { size : Nat // size < 0x80000000 }
  got : List UInt8
  callback : Bool
  destroyed : Bool
  delivered : List (Option Message)
  stream : List UInt8
  deriving DecidableEq

namespace MsgInput

/-- A new `msg_sock` with its callback set, for what the peer is going to write. -/
def fresh (stream : List UInt8) : MsgInput := ⟨none, [], true, false, [], stream⟩

/-- How many bytes the descriptor is asked for. -/
def offered (s : MsgInput) : Nat :=
  match s.rdmsg with
  | some size => size.val - s.got.length + 4
  | none => 4 - s.got.length

section Input

variable (host : ByteOrder) (maxmsglen : Nat) (deletes : List (Option Message) → Bool)

/-- `rcb_`; `deletes` tells whether the callback destroys the socket, from all that it
    has been called with. -/
def rcb (mp : Option Message) (s : MsgInput) : MsgInput :=
  { s with
    delivered := s.delivered ++ [mp]
    destroyed := deletes (s.delivered ++ [mp]) }

/-- `rcb_(nullptr)`. -/
def failure (s : MsgInput) : MsgInput := rcb deletes none s

/-- `rcb_` on a message. -/
def deliver (m : Message) (s : MsgInput) : MsgInput := rcb deletes (some m) s

/-- The read has brought `n` bytes. -/
def fetched (n : Nat) (s : MsgInput) : MsgInput :=
  { s with got := s.got ++ s.stream.take n, stream := s.stream.drop n }

/-- A message that is complete is delivered; what is behind it is in `nextlen_`. -/
def complete (s : MsgInput) : MsgInput :=
  match s.rdmsg with
  | none => s
  | some size =>
    if size.val ≤ s.got.length then
      deliver deletes ⟨s.got.take size.val, by rw [List.length_take]; omega⟩
        { s with rdmsg := none, got := s.got.drop size.val }
    else s

/-- The end of the body of the loop, when `nextlen_` has been read; whether the loop
    goes on. -/
def nextlen (s : MsgInput) : MsgInput × Bool :=
  let field := get32 host s.got
  if field &&& 0x80000000 = 0 then (failure deletes s, false)
  else
    let len := field &&& 0x7fffffff
    if len = 0 then (deliver deletes ⟨[], by decide⟩ { s with got := [] }, true)
    else if h : len.toNat < 0x80000000 ∧ len.toNat ≤ maxmsglen then
      ({ s with rdmsg := some ⟨len.toNat, h.1⟩, got := [] }, true)
    else (failure deletes { s with callback := false }, true)

/-- A turn of the loop; `none` when the descriptor is said to give more than it has or
    is asked for. -/
def turn (r : Fetched) (s : MsgInput) : Option (MsgInput × Bool) :=
  match r with
  | .again => some (s, false)
  | .failed => some (failure deletes s, false)
  | .bytes n =>
    if n = 0 then some (failure deletes s, false)
    else if s.offered < n ∨ s.stream.length < n then none
    else
      let s' := complete deletes (s.fetched n)
      if s'.destroyed ∨ s'.rdmsg.isSome ∨ s'.got.length < 4 then some (s', false)
      else some (nextlen host maxmsglen deletes s')

/-- The loop of `input`, with what comes of its reads. -/
def input : Nat → List Fetched → MsgInput → Option MsgInput
  | 0, _, s => some s
  | i + 1, reads, s =>
    if s.destroyed then some s
    else if s.rdmsg.isNone ∧ 4 ≤ s.got.length then
      match nextlen host maxmsglen deletes s with
      | (s', true) => input i reads s'
      | (s', false) => some s'
    else
      match reads with
      | [] => none
      | r :: rest =>
        match turn host maxmsglen deletes r s with
        | none => none
        | some (s', true) => input i rest s'
        | some (s', false) => some s'

end Input

end MsgInput

/-- The runs of a `msg_sock` that reads `bytes`: `input` is called while its callback is
    registered, and makes at most three reads. -/
def msgInput (host : ByteOrder) (maxmsglen : Nat) (deletes : List (Option Message) → Bool)
    (bytes : List UInt8) : Lts MsgInput (List Fetched) where
  init s := s = .fresh bytes
  step reads s :=
    if s.destroyed ∨ s.callback = false then none
    else MsgInput.input host maxmsglen deletes 3 reads s

/-! ## The length field -/

/-- Four bytes that are the length of no message that is taken. -/
def RefusedLength (maxmsglen : Nat) (bytes : List UInt8) : Prop :=
  bytes.length = 4 ∧ ∀ m : Message, m.data.length ≤ maxmsglen → lengthField m.data.length ≠ bytes

theorem high_lengthField (n : Nat) : (UInt32.ofNat n ||| 0x80000000) &&& 0x80000000 ≠ 0 := by
  intro h
  have hbit := congrArg (fun v : UInt32 => v.toBitVec.getLsbD 31) h
  simp at hbit

theorem size_lengthField {n : Nat} (h : n < 0x80000000) :
    ((UInt32.ofNat n ||| 0x80000000) &&& 0x7fffffff).toNat = n := by
  have hsmall : n % 2 ^ 32 = n := Nat.mod_eq_of_lt (by omega)
  have hor := Nat.two_pow_add_eq_or_of_lt (show n < 2 ^ 31 from h) 1
  rw [Nat.mul_one] at hor
  rw [UInt32.toNat_and, UInt32.toNat_or, UInt32.toNat_ofNat', hsmall]
  show (n ||| 2 ^ 31) &&& (2 ^ 31 - 1) = n
  rw [Nat.and_two_pow_sub_one_eq_mod, Nat.or_comm, ← hor]
  omega

/-- A field with the high bit is the length field of the rest of it. -/
theorem lengthField_size {field : UInt32} (h : field &&& 0x80000000 ≠ 0) :
    lengthField (field &&& 0x7fffffff).toNat = be32 field := by
  have hfield : field &&& 0x7fffffff ||| 0x80000000 = field := by
    apply UInt32.toBitVec_inj.mp
    ext i hi
    interval_cases i
    all_goals simp
    -- only the high bit is left
    by_contra hbit
    apply h
    apply UInt32.toBitVec_inj.mp
    ext j hj
    interval_cases j <;> simp_all
  show be32 (UInt32.ofNat (field &&& 0x7fffffff).toNat ||| 0x80000000) = be32 field
  rw [UInt32.ofNat_toNat, hfield]

theorem get32_lengthField (host : ByteOrder) (n : Nat) :
    get32 host (lengthField n) = UInt32.ofNat n ||| 0x80000000 := get32_be32 host _

theorem lengthField_injective {n n' : Nat} (hn : n < 0x80000000) (hn' : n' < 0x80000000)
    (h : lengthField n = lengthField n') : n = n' := by
  have hfield := congrArg (get32 .big) h
  rw [get32_lengthField, get32_lengthField] at hfield
  rw [← size_lengthField hn, hfield, size_lengthField hn']

/-- Without the high bit, the bytes are no length. -/
theorem refused_of_low {host : ByteOrder} {bytes : List UInt8} (maxmsglen : Nat)
    (hlen : bytes.length = 4) (h : get32 host bytes &&& 0x80000000 = 0) :
    RefusedLength maxmsglen bytes := by
  refine ⟨hlen, fun m _ hm => ?_⟩
  rw [← hm, get32_lengthField] at h
  exact high_lengthField _ h

/-- With the high bit, they are that of a size below 2^31. -/
theorem lengthField_of_high {host : ByteOrder} {bytes : List UInt8} (hlen : bytes.length = 4)
    (h : get32 host bytes &&& 0x80000000 ≠ 0) :
    (get32 host bytes &&& 0x7fffffff).toNat < 0x80000000 ∧
      lengthField (get32 host bytes &&& 0x7fffffff).toNat = bytes := by
  constructor
  · rw [UInt32.toNat_and]
    exact Nat.lt_of_le_of_lt Nat.and_le_right (by decide)
  · rw [lengthField_size h, be32_get32 host hlen]

theorem refused_of_long {n maxmsglen : Nat} (hn : n < 0x80000000) (h : maxmsglen < n) :
    RefusedLength maxmsglen (lengthField n) := by
  refine ⟨rfl, fun m hm hfield => ?_⟩
  have := lengthField_injective m.short hn hfield
  omega

/-! ## What has been read -/

namespace MsgInput

variable {host : ByteOrder} {maxmsglen : Nat} {deletes : List (Option Message) → Bool}
  {s s' : MsgInput}

/-- The messages that have been delivered. -/
def messages (s : MsgInput) : List Message := s.delivered.filterMap id

/-- What has been read of the next message. -/
def pending (s : MsgInput) : List UInt8 :=
  match s.rdmsg with
  | some size => lengthField size.val ++ s.got
  | none => s.got

theorem messages_deliver (m : Message) (s : MsgInput) :
    (deliver deletes m s).messages = s.messages ++ [m] := by
  simp [messages, deliver, rcb]

variable (deletes) in
theorem messages_failure (s : MsgInput) : (failure deletes s).messages = s.messages := by
  simp [messages, failure, rcb]

/-- The messages delivered, the bytes that wait and those that have not been read are
    the bytes of the peer. -/
structure Framed (maxmsglen : Nat) (bytes : List UInt8) (s : MsgInput) : Prop where
  content : rawBytes s.messages ++ (s.pending ++ s.stream) = bytes
  bounded : ∀ m ∈ s.messages, m.data.length ≤ maxmsglen
  size : ∀ size, s.rdmsg = some size → size.val ≤ maxmsglen

namespace Framed

variable {bytes : List UInt8}

variable (deletes) in
theorem failure (h : Framed maxmsglen bytes s) :
    Framed maxmsglen bytes (MsgInput.failure deletes s) where
  content := by
    rw [messages_failure]
    exact h.content
  bounded := by
    rw [messages_failure]
    exact h.bounded
  size := h.size

theorem fetched (h : Framed maxmsglen bytes s) (n : Nat) :
    Framed maxmsglen bytes (s.fetched n) where
  content := by
    have hpending : (s.fetched n).pending = s.pending ++ s.stream.take n := by
      unfold pending MsgInput.fetched
      cases s.rdmsg with
      | none => rfl
      | some size => simp
    have hmessages : (s.fetched n).messages = s.messages := rfl
    have hstream : (s.fetched n).stream = s.stream.drop n := rfl
    rw [hmessages, hpending, hstream, List.append_assoc, List.take_append_drop]
    exact h.content
  bounded := h.bounded
  size := h.size

variable (deletes) in
/-- A message of the right size is taken off what waits. -/
theorem deliver (rest : List UInt8) (m : Message)
    (h : Framed maxmsglen bytes s) (hpending : s.pending = m.raw ++ rest)
    (hm : m.data.length ≤ maxmsglen) :
    Framed maxmsglen bytes (MsgInput.deliver deletes m { s with rdmsg := none, got := rest }) where
  content := by
    rw [messages_deliver, rawBytes_append, ← h.content, hpending]
    simp [MsgInput.deliver, rcb, pending, messages]
  bounded := by
    rw [messages_deliver]
    intro m' hm'
    rcases List.mem_append.mp hm' with hm' | hm'
    · exact h.bounded m' hm'
    · rwa [List.mem_singleton.mp hm']
  size := by
    intro size hsize
    cases hsize

variable (deletes) in
theorem complete (h : Framed maxmsglen bytes s) :
    Framed maxmsglen bytes (complete deletes s) := by
  unfold MsgInput.complete
  cases hsize : s.rdmsg with
  | none => exact h
  | some size =>
    dsimp only
    split_ifs with hle
    · refine h.deliver deletes _ _ ?_ ?_
      · have hlen : (s.got.take size.val).length = size.val := List.length_take_of_le hle
        unfold pending Message.raw
        rw [hsize, hlen, List.append_assoc, List.take_append_drop]
      · exact (List.length_take_le _ _).trans (h.size size hsize)
    · exact h

variable (host deletes) in
theorem nextlen (h : Framed maxmsglen bytes s) (hrdmsg : s.rdmsg = none)
    (hgot : s.got.length = 4) :
    Framed maxmsglen bytes (nextlen host maxmsglen deletes s).1 := by
  have hpending : s.pending = s.got := by
    unfold pending
    rw [hrdmsg]
  unfold MsgInput.nextlen
  dsimp only
  split_ifs with hhigh hzero hlen
  · exact h.failure deletes
  · -- the message of no bytes
    obtain ⟨_, hfield⟩ := lengthField_of_high hgot hhigh
    rw [hzero] at hfield
    have hempty := h.deliver deletes [] ⟨[], by decide⟩
      (by rw [hpending, ← hfield]; rfl) (Nat.zero_le _)
    rwa [← hrdmsg] at hempty
  · obtain ⟨_, hfield⟩ := lengthField_of_high hgot hhigh
    refine ⟨?_, h.bounded, ?_⟩
    · show rawBytes s.messages ++
        (lengthField (get32 host s.got &&& 0x7fffffff).toNat ++ [] ++ s.stream) = bytes
      rw [List.append_nil, hfield, ← hpending]
      exact h.content
    · intro size hsize
      cases hsize
      exact hlen.2
  · exact Framed.failure deletes (s := { s with callback := false }) ⟨h.content, h.bounded, h.size⟩

end Framed

/-- The callback has not been called with the null pointer. -/
def Unfailed (s : MsgInput) : Prop := s.delivered = s.messages.map some

variable (deletes) in
theorem Unfailed.deliver (h : s.Unfailed) (m : Message) (rest : List UInt8) :
    (MsgInput.deliver deletes m { s with rdmsg := none, got := rest }).Unfailed := by
  show s.delivered ++ [some m] = (MsgInput.deliver deletes m _).messages.map some
  rw [messages_deliver, List.map_append]
  exact congrArg (· ++ [some m]) h

/-- The callback destroys the socket on the null pointer. -/
def Closes (deletes : List (Option Message) → Bool) : Prop :=
  ∀ delivered, deletes (delivered ++ [none]) = true

/-- Behind no messages at the beginning of the bytes is there a length that is refused. -/
def Clean (maxmsglen : Nat) (bytes : List UInt8) : Prop :=
  ∀ ms refused rest, RefusedLength maxmsglen refused → rawBytes ms ++ (refused ++ rest) ≠ bytes

/-- What is known between two reads, of which some may fail if `cut`. The null pointer
    is the last thing the callback gets, after a read that has failed or the length of no
    message; while the socket lives, no message that is complete waits. -/
structure InputOk (cut : Prop) (maxmsglen : Nat) (bytes : List UInt8) (s : MsgInput) : Prop
    extends Framed maxmsglen bytes s where
  waiting : s.destroyed = false →
    s.Unfailed ∧ s.got.length < s.rdmsg.elim 4 Subtype.val
  last : s.Unfailed ∨ s.destroyed = true ∧ s.delivered = s.messages.map some ++ [none] ∧
    (cut ∨ RefusedLength maxmsglen s.pending)

variable {cut : Prop} {bytes : List UInt8}

theorem Framed.failed (h : Framed maxmsglen bytes s) (hs : s.Unfailed) (hcloses : Closes deletes)
    (hwhy : cut ∨ RefusedLength maxmsglen s.pending) :
    InputOk cut maxmsglen bytes (MsgInput.failure deletes s) where
  toFramed := h.failure deletes
  waiting hlive := by cases (hcloses s.delivered).symm.trans hlive
  last := by
    refine Or.inr ⟨hcloses s.delivered, ?_, hwhy⟩
    rw [messages_failure]
    show s.delivered ++ [none] = _
    rw [show s.delivered = _ from hs]

variable (deletes) in
/-- When the message that was awaited is complete, at most a length is left. -/
theorem complete_cases (hs : s.Unfailed)
    (hgot : s.got.length ≤ s.rdmsg.elim 0 Subtype.val + 4) :
    (complete deletes s).Unfailed ∧
      ((complete deletes s).rdmsg = none ∧ (complete deletes s).got.length ≤ 4 ∨
        ∃ size, (complete deletes s).rdmsg = some size ∧
          (complete deletes s).got.length < size.val) := by
  unfold complete
  cases hsize : s.rdmsg with
  | none =>
    rw [hsize] at hgot
    exact ⟨hs, Or.inl ⟨hsize, by simpa using hgot⟩⟩
  | some size =>
    rw [hsize] at hgot
    dsimp only
    split_ifs with hle
    · refine ⟨hs.deliver deletes _ _, Or.inl ⟨rfl, ?_⟩⟩
      show (s.got.drop size.val).length ≤ 4
      rw [List.length_drop]
      simp only [Option.elim_some] at hgot
      omega
    · exact ⟨hs, Or.inr ⟨size, hsize, by omega⟩⟩

variable (host) in
/-- The end of the body of the loop, where the length of no message may come or cannot. -/
theorem InputOk.nextlen (h : Framed maxmsglen bytes s) (hs : s.Unfailed)
    (hrdmsg : s.rdmsg = none) (hgot : s.got.length = 4)
    (hcloses : Closes deletes ∨ Clean maxmsglen bytes) :
    InputOk cut maxmsglen bytes (nextlen host maxmsglen deletes s).1 := by
  have hframed := h.nextlen host deletes hrdmsg hgot
  have hpending : s.pending = s.got := by
    unfold pending
    rw [hrdmsg]
  have hrefused : RefusedLength maxmsglen s.got → Closes deletes := fun hrefused =>
    hcloses.resolve_right fun hclean => hclean s.messages s.got s.stream hrefused (by
      rw [← hpending]
      exact h.content)
  unfold MsgInput.nextlen at hframed ⊢
  dsimp only at hframed ⊢
  split_ifs at hframed ⊢ with hhigh hzero hlen
  · have hlow := refused_of_low maxmsglen hgot hhigh
    exact h.failed hs (hrefused hlow) (Or.inr (by rwa [hpending]))
  · have hdeliver := hs.deliver deletes ⟨[], by decide⟩ []
    rw [← hrdmsg] at hdeliver
    refine ⟨hframed, fun _ => ⟨hdeliver, ?_⟩, Or.inl hdeliver⟩
    show 0 < s.rdmsg.elim 4 Subtype.val
    rw [hrdmsg]
    decide
  · refine ⟨hframed, fun _ => ⟨hs, ?_⟩, Or.inl hs⟩
    show 0 < (get32 host s.got &&& 0x7fffffff).toNat
    exact Nat.pos_of_ne_zero fun h => hzero (UInt32.toNat_inj.mp h)
  · obtain ⟨hsize, hfield⟩ := lengthField_of_high hgot hhigh
    have hlong : RefusedLength maxmsglen s.got := by
      rw [← hfield]
      exact refused_of_long hsize (by omega)
    exact Framed.failed (s := { s with callback := false }) ⟨h.content, h.bounded, h.size⟩ hs
      (hrefused hlong) (Or.inr (by rwa [← hpending] at hlong))

/-- A read goes no further than the length behind the message that is awaited. -/
theorem fetched_le {n : Nat} (hgot : s.got.length < s.rdmsg.elim 4 Subtype.val)
    (hn : n ≤ s.offered) : (s.fetched n).got.length ≤ s.rdmsg.elim 0 Subtype.val + 4 := by
  have htake := List.length_take_le n s.stream
  show (s.got ++ s.stream.take n).length ≤ _
  rw [List.length_append]
  unfold offered at hn
  cases hsize : s.rdmsg with
  | none =>
    rw [hsize] at hn hgot
    simp only [Option.elim_none] at hn hgot ⊢
    omega
  | some size =>
    rw [hsize] at hn hgot
    simp only [Option.elim_some] at hn hgot ⊢
    omega

/-- The read brings some bytes, or none yet. -/
def Fetches (r : Fetched) : Prop := r ≠ .failed ∧ r ≠ .bytes 0

/-- A turn of the loop keeps what is known. -/
theorem InputOk.turn {r : Fetched} {go : Bool} (h : InputOk cut maxmsglen bytes s)
    (hdestroyed : s.destroyed = false) (hcloses : Closes deletes ∨ ¬ cut ∧ Clean maxmsglen bytes)
    (hr : cut ∨ Fetches r)
    (hturn : turn host maxmsglen deletes r s = some (s', go)) :
    InputOk cut maxmsglen bytes s' := by
  obtain ⟨hs, hgot⟩ := h.waiting hdestroyed
  have hfail : ¬ Fetches r → InputOk cut maxmsglen bytes (MsgInput.failure deletes s) := by
    intro hnot
    have hcut := hr.resolve_right hnot
    exact h.toFramed.failed hs (hcloses.resolve_right fun hclean => hclean.1 hcut) (Or.inl hcut)
  unfold MsgInput.turn at hturn
  cases r with
  | again =>
    cases hturn
    exact h
  | failed =>
    cases hturn
    exact hfail fun hfetch => hfetch.1 rfl
  | bytes n =>
    dsimp only at hturn
    split_ifs at hturn with hzero hmany hwait
    · cases hturn
      exact hfail fun hfetch => hfetch.2 (by rw [hzero])
    all_goals
      have hoffered := fetched_le (n := n) hgot (by omega)
      obtain ⟨hs', hcases⟩ := complete_cases deletes (s := s.fetched n) hs hoffered
      have hframed := (h.toFramed.fetched n).complete deletes
    · cases hturn
      refine ⟨hframed, fun hlive => ⟨hs', ?_⟩, Or.inl hs'⟩
      rcases hcases with ⟨hnone, _⟩ | ⟨size, hsome, hlt⟩
      · simp only [hlive, hnone, Bool.false_eq_true, Option.isSome_none, false_or] at hwait
        rwa [hnone]
      · rwa [hsome]
    · injection hturn with hturn
      have hnext :
          (MsgInput.nextlen host maxmsglen deletes (complete deletes (s.fetched n))).1 = s' := by
        rw [hturn]
      rw [← hnext]
      rcases hcases with ⟨hnone, hle⟩ | ⟨size, hsome, _⟩
      · exact InputOk.nextlen host hframed hs' hnone (by omega) (hcloses.imp id And.right)
      · exact absurd (Or.inr (Or.inl (by rw [hsome]; rfl))) hwait

/-- So does a call of `input`. -/
theorem InputOk.input {i : Nat} {reads : List Fetched} (h : InputOk cut maxmsglen bytes s)
    (hcloses : Closes deletes ∨ ¬ cut ∧ Clean maxmsglen bytes)
    (hreads : ∀ r ∈ reads, cut ∨ Fetches r)
    (hinput : input host maxmsglen deletes i reads s = some s') :
    InputOk cut maxmsglen bytes s' := by
  induction i generalizing s reads with
  | zero =>
    cases hinput
    exact h
  | succ i ih =>
    unfold MsgInput.input at hinput
    split_ifs at hinput with hdestroyed hskip
    · cases hinput
      exact h
    · -- `nextlen_` is never full between two reads
      obtain ⟨hnone, hfull⟩ := hskip
      have hwait := (h.waiting (by simpa using hdestroyed)).2
      rw [Option.isNone_iff_eq_none.mp hnone] at hwait
      simp only [Option.elim_none] at hwait
      omega
    · cases reads with
      | nil => cases hinput
      | cons r rest =>
        dsimp only at hinput
        cases hturn : MsgInput.turn host maxmsglen deletes r s with
        | none =>
          rw [hturn] at hinput
          cases hinput
        | some next =>
          obtain ⟨t, go⟩ := next
          have ht := h.turn (by simpa using hdestroyed) hcloses (hreads r (List.mem_cons_self ..))
            hturn
          rw [hturn] at hinput
          cases go with
          | false =>
            cases hinput
            exact ht
          | true => exact ih ht (fun r' hr' => hreads r' (List.mem_cons_of_mem _ hr')) hinput

theorem inputOk_fresh (bytes : List UInt8) : InputOk cut maxmsglen bytes (fresh bytes) where
  content := rfl
  bounded := by
    intro m hm
    cases hm
  size := by
    intro size hsize
    cases hsize
  waiting _ := ⟨rfl, (by decide : 0 < 4)⟩
  last := Or.inl rfl

variable (cut) in
/-- A run keeps what is known, with a callback that destroys the socket on the null
    pointer or never gets it. -/
theorem InputOk.reach {ok : MsgInput → List Fetched → Prop}
    (hcloses : Closes deletes ∨ ¬ cut ∧ Clean maxmsglen bytes)
    (hok : ∀ s reads, ok s reads → ∀ r ∈ reads, cut ∨ Fetches r)
    (h : (msgInput host maxmsglen deletes bytes).Reach ok s) : InputOk cut maxmsglen bytes s := by
  refine h.invariant ?_ ?_
  · rintro s rfl
    exact inputOk_fresh bytes
  · intro s s' reads _ hs hl hstep
    unfold msgInput at hstep
    dsimp only at hstep
    split_ifs at hstep
    exact hs.input hcloses (hok s reads hl) hstep

end MsgInput

/-! ## Every run -/

theorem raw_append {m m' : Message} {rest rest' : List UInt8}
    (h : m.raw ++ rest = m'.raw ++ rest') : m = m' ∧ rest = rest' := by
  unfold Message.raw at h
  rw [List.append_assoc, List.append_assoc] at h
  obtain ⟨hfield, hdata⟩ := List.append_inj h rfl
  have hlen := lengthField_injective m.short m'.short hfield
  obtain ⟨hdata, hrest⟩ := List.append_inj hdata hlen
  cases m
  cases m'
  cases hdata
  exact ⟨rfl, hrest⟩

/-- Messages at the beginning of others are the first of them. -/
theorem rawBytes_append_eq {ms sent : List Message} {rest : List UInt8}
    (h : rawBytes ms ++ rest = rawBytes sent) :
    ∃ left, sent = ms ++ left ∧ rest = rawBytes left := by
  induction ms generalizing sent with
  | nil => exact ⟨sent, rfl, h⟩
  | cons m ms ih =>
    rw [rawBytes_cons, List.append_assoc] at h
    cases sent with
    | nil =>
      have hlen := congrArg List.length h
      have hpos := m.raw_pos
      rw [rawBytes_nil, List.length_append, List.length_nil] at hlen
      omega
    | cons m' sent =>
      rw [rawBytes_cons] at h
      obtain ⟨rfl, htail⟩ := raw_append h
      obtain ⟨left, rfl, hleft⟩ := ih htail
      exact ⟨left, rfl, hleft⟩

/-- What is refused is not the beginning of messages that are short enough. -/
theorem RefusedLength.ne {maxmsglen : Nat} {bytes rest : List UInt8} {left : List Message}
    (h : RefusedLength maxmsglen bytes) (hleft : ∀ m ∈ left, m.data.length ≤ maxmsglen) :
    bytes ++ rest ≠ rawBytes left := by
  obtain ⟨hlen, hrefused⟩ := h
  intro heq
  cases left with
  | nil =>
    have hcount := congrArg List.length heq
    rw [rawBytes_nil, List.length_append, List.length_nil] at hcount
    omega
  | cons m left =>
    rw [rawBytes_cons, Message.raw, List.append_assoc] at heq
    obtain ⟨hfield, _⟩ := List.append_inj heq hlen
    exact hrefused m (hleft m (List.mem_cons_self ..)) hfield.symm

/-- What waits for more does not begin with a whole message. -/
theorem MsgInput.pending_ne {s : MsgInput} (hgot : s.got.length < s.rdmsg.elim 4 Subtype.val)
    (m : Message) (rest : List UInt8) : s.pending ≠ m.raw ++ rest := by
  intro h
  unfold pending at h
  have hfour : (lengthField m.data.length).length = 4 := rfl
  cases hsize : s.rdmsg with
  | none =>
    rw [hsize] at h hgot
    have hcount := congrArg List.length h
    simp only [Message.raw, List.length_append, Option.elim_none] at hcount hgot
    omega
  | some size =>
    rw [hsize] at h hgot
    dsimp only at h hgot
    rw [Message.raw, List.append_assoc] at h
    obtain ⟨hfield, hdata⟩ := List.append_inj h rfl
    have hlen := lengthField_injective size.property m.short hfield
    have hcount := congrArg List.length hdata
    simp only [List.length_append, Option.elim_some] at hcount hgot
    omega

/-- The messages of a peer that are short enough. -/
theorem MsgInput.clean_rawBytes {maxmsglen : Nat} {sent : List Message}
    (hsent : ∀ m ∈ sent, m.data.length ≤ maxmsglen) : Clean maxmsglen (rawBytes sent) := by
  intro ms refused rest hrefused h
  obtain ⟨left, hleft, hrest⟩ := rawBytes_append_eq h
  exact hrefused.ne (fun m hm => hsent m (by rw [hleft]; exact List.mem_append_right _ hm)) hrest

/-- Some read of these calls of `input` fails or finds the end of the stream. -/
def Fails (calls : List (List Fetched)) : Prop :=
  ∃ reads ∈ calls, ∃ r ∈ reads, ¬ MsgInput.Fetches r

/-- What the callback has got after these calls of `input`: messages, and at the end
    perhaps the null pointer. What was read or can be read are those messages and what
    is behind them; while the socket lives, no message that has been read is kept back. -/
structure MsgInput.Cut (maxmsglen : Nat) (bytes : List UInt8) (calls : List (List Fetched))
    (s : MsgInput) (messages : List Message) : Prop where
  delivered : s.delivered = messages.map some ∨
    s.destroyed = true ∧ s.delivered = messages.map some ++ [none] ∧
      (Fails calls ∨ RefusedLength maxmsglen s.pending)
  content : rawBytes messages ++ (s.pending ++ s.stream) = bytes
  bounded : ∀ m ∈ messages, m.data.length ≤ maxmsglen
  waiting : s.destroyed = false → ∀ (m : Message) (rest : List UInt8), s.pending ≠ m.raw ++ rest

/-- Whatever a peer writes and however its bytes arrive, the callback gets the messages
    that are framed at their beginning, each once and when it has been read, and none
    that is too long. -/
theorem framed_reachable (host : ByteOrder) (maxmsglen : Nat)
    (deletes : List (Option Message) → Bool) (bytes : List UInt8) (calls : List (List Fetched))
    (s : MsgInput) (hcloses : MsgInput.Closes deletes)
    (h : (msgInput host maxmsglen deletes bytes).Run (fun _ _ => True) calls s) :
    ∃ messages, s.Cut maxmsglen bytes calls messages := by
  have hs := MsgInput.InputOk.reach (Fails calls) (Or.inl hcloses) (by
    intro s reads hreads r hr
    by_cases hfetches : MsgInput.Fetches r
    · exact Or.inr hfetches
    · exact Or.inl ⟨reads, hreads.2, r, hr, hfetches⟩) h.reach_mem
  exact ⟨s.messages, hs.last, hs.content, hs.bounded, fun hlive =>
    MsgInput.pending_ne (hs.waiting hlive).2⟩

/-- The callback of a listener whose services do not throw. -/
def closesOnNull (delivered : List (Option Message)) : Bool :=
  match delivered.getLast? with
  | some none => true
  | _ => false

theorem closes_closesOnNull : MsgInput.Closes closesOnNull := by
  intro delivered
  simp [closesOnNull]

theorem framed_fragment :
    ∃ s, (msgInput .little 0x100000 closesOnNull [128, 0, 0, 1, 7, 0, 0, 0, 1]).exec
        (fun _ _ => True) [[.bytes 4, .bytes 5]] (.fresh [128, 0, 0, 1, 7, 0, 0, 0, 1]) = some s ∧
      s.delivered = [some ⟨[7], by decide⟩, none] ∧
      ∃ messages, s.Cut 0x100000 [128, 0, 0, 1, 7, 0, 0, 0, 1] [[.bytes 4, .bytes 5]]
        messages := by
  have hrun : ∃ s, (msgInput .little 0x100000 closesOnNull [128, 0, 0, 1, 7, 0, 0, 0, 1]).exec
      (fun _ _ => True) [[.bytes 4, .bytes 5]] (.fresh [128, 0, 0, 1, 7, 0, 0, 0, 1]) = some s ∧
      s.delivered = [some ⟨[7], by decide⟩, none] := ⟨_, rfl, rfl⟩
  obtain ⟨s, hs, hdelivered⟩ := hrun
  exact ⟨s, hs, hdelivered, framed_reachable .little 0x100000 closesOnNull _ _ s
    closes_closesOnNull (Lts.Run.exec (.init rfl) hs)⟩

/-- No read fails. -/
def Unbroken (_ : MsgInput) (reads : List Fetched) : Prop := ∀ r ∈ reads, MsgInput.Fetches r

instance (r : Fetched) : Decidable (MsgInput.Fetches r) := inferInstanceAs (Decidable (_ ∧ _))

instance (s : MsgInput) (reads : List Fetched) : Decidable (Unbroken s reads) :=
  inferInstanceAs (Decidable (∀ r ∈ reads, MsgInput.Fetches r))

/-- While a peer frames messages and no read fails, the callback has got the first of
    them; when all has been read, all. -/
theorem MsgInput.InputOk.sent {maxmsglen : Nat} {sent : List Message} {s : MsgInput}
    (hsent : ∀ m ∈ sent, m.data.length ≤ maxmsglen)
    (h : InputOk False maxmsglen (rawBytes sent) s) :
    ∃ left, sent = s.messages ++ left ∧ s.Unfailed ∧
      (s.stream = [] → s.destroyed = false → left = []) := by
  obtain ⟨left, hleft, hrest⟩ := rawBytes_append_eq h.content
  refine ⟨left, hleft, ?_, fun hstream hlive => ?_⟩
  · refine h.last.resolve_right fun hfailed => ?_
    exact clean_rawBytes hsent _ _ _ (hfailed.2.2.resolve_left id) h.content
  · rw [hstream, List.append_nil] at hrest
    cases left with
    | nil => rfl
    | cons m left => exact absurd hrest (pending_ne (h.waiting hlive).2 m (rawBytes left))

/-- What is known of a run in which no read fails. -/
theorem MsgInput.InputOk.unbroken {host : ByteOrder} {maxmsglen : Nat}
    {deletes : List (Option Message) → Bool} {sent : List Message} {s : MsgInput}
    (hsent : ∀ m ∈ sent, m.data.length ≤ maxmsglen)
    (h : (msgInput host maxmsglen deletes (rawBytes sent)).Reach Unbroken s) :
    InputOk False maxmsglen (rawBytes sent) s :=
  InputOk.reach False (Or.inr ⟨id, clean_rawBytes hsent⟩)
    (fun _ _ hreads r hr => Or.inr (hreads r hr)) h

/-- A peer that frames messages none of which is too long gets them to the callback as
    they are, in their order, whatever bytes each read brings; and when all has been read
    and the socket lives, all are there. -/
theorem delivered_reachable (host : ByteOrder) (maxmsglen : Nat)
    (deletes : List (Option Message) → Bool) (sent : List Message) (s : MsgInput)
    (hsent : ∀ m ∈ sent, m.data.length ≤ maxmsglen)
    (h : (msgInput host maxmsglen deletes (rawBytes sent)).Reach Unbroken s) :
    s.delivered <+: sent.map some ∧
      (s.stream = [] → s.destroyed = false → s.delivered = sent.map some) := by
  obtain ⟨left, hleft, hunfailed, hall⟩ := (MsgInput.InputOk.unbroken hsent h).sent hsent
  have hdelivered : s.delivered = s.messages.map some := hunfailed
  refine ⟨?_, fun hstream hlive => ?_⟩
  · rw [hdelivered, hleft, List.map_append]
    exact List.prefix_append _ _
  · rw [hdelivered, hleft, hall hstream hlive, List.append_nil]

/-- A message of two bytes, and one of a byte. -/
def shortMessages : List Message := [⟨[4, 5], by decide⟩, ⟨[6], by decide⟩]

theorem delivered_chopped :
    ∃ s, (msgInput .little 0x100000 (fun _ => false) (rawBytes shortMessages)).exec Unbroken
        [[.bytes 3], [.bytes 1, .bytes 4], [.bytes 2, .bytes 1]]
        (.fresh (rawBytes shortMessages)) = some s ∧
      s.delivered <+: shortMessages.map some ∧
      (s.stream = [] → s.destroyed = false → s.delivered = shortMessages.map some) := by
  have hrun :
      ∃ s, (msgInput .little 0x100000 (fun _ => false) (rawBytes shortMessages)).exec Unbroken
      [[.bytes 3], [.bytes 1, .bytes 4], [.bytes 2, .bytes 1]]
      (.fresh (rawBytes shortMessages)) = some s := ⟨_, rfl⟩
  obtain ⟨s, hs⟩ := hrun
  exact ⟨s, hs, delivered_reachable .little 0x100000 (fun _ => false) shortMessages s (by decide)
    (Lts.Reach.exec (.init rfl) hs)⟩

end SimpleChubby
