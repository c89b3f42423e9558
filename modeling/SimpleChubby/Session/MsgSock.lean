import SimpleChubby.Leader.State
import SimpleChubby.Lib.Chunks

/-!
# `msg_sock` and the socket of a session

`xdrpp/message.h` and the writing half of `xdrpp/msgsock.cc`: a queue of framed
messages, written to a non-blocking descriptor by `output`, at once or when the
descriptor is ready again. The descriptor is a stream of bytes that takes any
prefix of what it is offered.
-/

namespace SimpleChubby

/-! ## Messages -/

/-- `message_t`. `alloc` asserts the bound on the size. -/
structure Message where
  data : List UInt8
  short : data.length < 0x80000000
  deriving DecidableEq, Repr

/-- `swap32le(size | 0x80000000)`, the length in network byte order. -/
def lengthField (size : Nat) : List UInt8 :=
  let field : UInt32 := UInt32.ofNat size ||| 0x80000000
  [(field >>> 24).toUInt8, (field >>> 16).toUInt8, (field >>> 8).toUInt8, field.toUInt8]

/-- `raw_data`: the length, and the data. -/
def Message.raw (m : Message) : List UInt8 := lengthField m.data.length ++ m.data

theorem Message.raw_injective : Function.Injective Message.raw := by
  intro m m' h
  obtain ⟨_, hdata⟩ := List.append_inj h rfl
  cases m
  cases m'
  cases hdata
  rfl

theorem Message.raw_pos (m : Message) : 0 < m.raw.length := by
  simp [Message.raw, lengthField]

/-! ## The queue -/

/-- What comes of a `write`: -1 with `EAGAIN`, a number of bytes, or -1 with
    another error. -/
inductive Written where
  | again
  | bytes (n : Nat)
  | failed
  deriving DecidableEq, Repr

/-- The writing half of a `msg_sock`; `callback` tells whether `output(true)` is
    registered for when the descriptor can be written. -/
structure MsgSock where
  wqueue : List Message
  wsize : Nat
  wstart : Nat
  wfail : Bool
  callback : Bool
  deriving DecidableEq, Repr

namespace MsgSock

/-- A new `msg_sock`. -/
def fresh : MsgSock := ⟨[], 0, 0, false, false⟩

/-- The loop of `pop_wbytes` over the messages after the first. -/
def popMessages : Nat → List Message → List Message × Nat
  | n, [] => ([], n)
  | n, m :: rest =>
    if 0 < n ∧ m.raw.length ≤ n then popMessages (n - m.raw.length) rest else (m :: rest, n)

/-- `msg_sock::pop_wbytes`. -/
def popWbytes (n : Nat) (s : MsgSock) : MsgSock :=
  if n = 0 then s
  else
    match s.wqueue with
    | [] => s
    | m :: rest =>
      let frontbytes := m.raw.length - s.wstart
      if n < frontbytes then { s with wsize := s.wsize - n, wstart := s.wstart + n }
      else
        let (wqueue, wstart) := popMessages (n - frontbytes) rest
        { s with wqueue := wqueue, wsize := s.wsize - n, wstart := wstart }

/-- The `iovec`s of `output`: at most eight messages, the first from `wstart_` on. -/
def iov (s : MsgSock) : List UInt8 :=
  match s.wqueue.take 8 with
  | [] => []
  | m :: rest => m.raw.drop s.wstart ++ (rest.map Message.raw).flatten

/-- `wfail_` is set and the queue is dropped. -/
def giveUp (s : MsgSock) : MsgSock :=
  { s with wqueue := [], wsize := 0, wstart := 0, wfail := true }

/-- `msg_sock::output`, with what the descriptor takes; `none` when it is said to
    take more than it is offered. -/
def output (cbset : Bool) (w : Written) (s : MsgSock) : Option (MsgSock × List UInt8) :=
  match w with
  | .again => some (s, [])
  | .failed => some (s.giveUp, [])
  | .bytes n =>
    if n = 0 then some (s.giveUp, [])
    else if s.iov.length < n then none
    else
      let s' := s.popWbytes n
      let callback := if s'.wsize ≠ 0 ∧ cbset = false then true
        else if s'.wsize = 0 ∧ cbset = true then false
        else s'.callback
      some ({ s' with callback := callback }, s.iov.take n)

/-- `msg_sock::putmsg`. -/
def putmsg (m : Message) (w : Written) (s : MsgSock) : Option (MsgSock × List UInt8) :=
  if s.wfail then some (s, [])
  else
    let s' := { s with wqueue := s.wqueue ++ [m], wsize := s.wsize + m.raw.length }
    if s.wsize = 0 then s'.output false w else some (s', [])

end MsgSock

/-! ## What has been written, and what is left -/

/-- The bytes of messages one after the other. -/
def rawBytes (messages : List Message) : List UInt8 := (messages.map Message.raw).flatten

@[simp] theorem rawBytes_nil : rawBytes [] = [] := rfl

@[simp] theorem rawBytes_cons (m : Message) (l : List Message) :
    rawBytes (m :: l) = m.raw ++ rawBytes l := by
  simp [rawBytes]

@[simp] theorem rawBytes_append (l l' : List Message) :
    rawBytes (l ++ l') = rawBytes l ++ rawBytes l' := by
  simp [rawBytes]

namespace MsgSock

/-- The counters of a `msg_sock` agree with its queue: `wstart_` bytes of the
    first message have been written, and `wsize_` bytes are left. -/
structure Counts (s : MsgSock) : Prop where
  start : ∀ m rest, s.wqueue = m :: rest → s.wstart < m.raw.length
  idle : s.wqueue = [] → s.wstart = 0
  size : s.wsize + s.wstart = (rawBytes s.wqueue).length

theorem popMessages_eq (n : Nat) (l : List Message) :
    ((popMessages n l).1.map Message.raw, (popMessages n l).2) =
      Chunks.consume (l.map Message.raw) n := by
  induction l generalizing n with
  | nil => rfl
  | cons m rest ih =>
    have hpos := m.raw_pos
    by_cases hle : m.raw.length ≤ n
    · have hn : 0 < n := by omega
      rw [popMessages, if_pos ⟨hn, hle⟩, List.map_cons, Chunks.consume, if_pos hle]
      exact ih _
    · rw [popMessages, if_neg fun hcon => hle hcon.2, List.map_cons, Chunks.consume, if_neg hle]

/-- `pop_wbytes` takes `n` bytes more off the queue. -/
theorem popWbytes_eq {s : MsgSock} (h : s.Counts) {n : Nat} (hn : 0 < n)
    (hle : n ≤ s.wsize) :
    ((s.popWbytes n).wqueue.map Message.raw, (s.popWbytes n).wstart) =
        Chunks.consume (s.wqueue.map Message.raw) (s.wstart + n) ∧
      (s.popWbytes n).wsize = s.wsize - n ∧ (s.popWbytes n).wfail = s.wfail := by
  unfold popWbytes
  rw [if_neg (by omega)]
  cases hq : s.wqueue with
  | nil =>
    have hsize := h.size
    rw [hq] at hsize
    simp at hsize
    omega
  | cons m rest =>
    have hstart := h.start m rest hq
    dsimp only
    by_cases hfront : n < m.raw.length - s.wstart
    · rw [if_pos hfront, List.map_cons, Chunks.consume, if_neg (by omega)]
      exact ⟨rfl, rfl, rfl⟩
    · rw [if_neg hfront, List.map_cons, Chunks.consume, if_pos (by omega)]
      have hsame : n - (m.raw.length - s.wstart) = s.wstart + n - m.raw.length := by omega
      rw [hsame]
      exact ⟨popMessages_eq _ _, rfl, rfl⟩

/-- What `output` offers is the beginning of what is left to write. -/
theorem iov_prefix {s : MsgSock} (h : s.Counts) :
    s.iov <+: (rawBytes s.wqueue).drop s.wstart := by
  unfold iov
  cases hq : s.wqueue with
  | nil => simp
  | cons m rest =>
    have hstart := h.start m rest hq
    rw [List.take_succ_cons, rawBytes_cons, List.drop_append_of_le_length (by omega)]
    refine (List.prefix_append_right_inj _).mpr ?_
    rw [← List.take_append_drop 7 rest, rawBytes_append]
    have htake : (rest.take 7 ++ rest.drop 7).take 7 = rest.take 7 := by
      rw [List.take_append_drop]
    rw [htake]
    exact List.prefix_append _ _

/-- What `pop_wbytes` leaves: some messages have been written as a whole. -/
theorem popWbytes_spec {s : MsgSock} (h : s.Counts) {n : Nat} (hn : 0 < n) (hle : n ≤ s.wsize) :
    (s.popWbytes n).Counts ∧ ∃ gone, s.wqueue = gone ++ (s.popWbytes n).wqueue ∧
      (rawBytes s.wqueue).take (s.wstart + n) =
        rawBytes gone ++ (rawBytes (s.popWbytes n).wqueue).take (s.popWbytes n).wstart := by
  obtain ⟨hconsume, hwsize, _⟩ := popWbytes_eq h hn hle
  have hqueue := congrArg Prod.fst hconsume
  have hstart := congrArg Prod.snd hconsume
  dsimp only at hqueue hstart
  have hsize := h.size
  obtain ⟨gone, hsplit, htake⟩ := Chunks.take_flatten (s.wqueue.map Message.raw) (s.wstart + n)
  obtain ⟨gone', hsplit', hlength⟩ :=
    Chunks.consume_split (s.wqueue.map Message.raw) (s.wstart + n)
  have htotal := congrArg (fun l => (List.flatten l).length) hsplit'
  rw [← hqueue] at hsplit htake hsplit' htotal
  rw [← hstart] at htake hlength
  simp only [List.flatten_append, List.length_append] at htotal
  obtain ⟨l₁, l₂, hl, rfl, hl₂⟩ := List.map_eq_append_iff.mp hsplit
  obtain rfl := List.map_injective_iff.mpr Message.raw_injective hl₂
  refine ⟨⟨fun m rest hq => ?_, fun hq => ?_, ?_⟩, l₁, hl, htake⟩
  · have hfirst : (Chunks.consume (s.wqueue.map Message.raw) (s.wstart + n)).1 =
        m.raw :: rest.map Message.raw := by
      rw [← hqueue, hq, List.map_cons]
    rw [hstart]
    exact Chunks.consume_lt hfirst
  · rw [hstart]
    refine Chunks.consume_nil ?_ ?_
    · rw [← hqueue, hq, List.map_nil]
    · unfold rawBytes at hsize
      omega
  · unfold rawBytes at hsize ⊢
    omega

/-- What `output` writes continues the stream, or the socket is given up. -/
theorem output_spec {s s' : MsgSock} (h : s.Counts) {cbset : Bool} {w : Written}
    {bytes : List UInt8} (ho : s.output cbset w = some (s', bytes)) :
    (s'.wfail = true ∧ s'.wqueue = [] ∧ bytes = []) ∨
      (s'.wfail = s.wfail ∧ s'.Counts ∧ ∃ gone, s.wqueue = gone ++ s'.wqueue ∧
        (rawBytes s.wqueue).take s.wstart ++ bytes =
          rawBytes gone ++ (rawBytes s'.wqueue).take s'.wstart) := by
  cases w with
  | again =>
    cases ho
    exact Or.inr ⟨rfl, h, [], rfl, by simp⟩
  | failed =>
    cases ho
    exact Or.inl ⟨rfl, rfl, rfl⟩
  | bytes n =>
    unfold output at ho
    dsimp only at ho
    by_cases hn : n = 0
    · rw [if_pos hn] at ho
      cases ho
      exact Or.inl ⟨rfl, rfl, rfl⟩
    · rw [if_neg hn] at ho
      by_cases hlong : s.iov.length < n
      · rw [if_pos hlong] at ho
        cases ho
      · rw [if_neg hlong] at ho
        cases ho
        have hprefix := iov_prefix h
        have hle : n ≤ s.wsize := by
          have hlen := hprefix.length_le
          rw [List.length_drop] at hlen
          have hsize := h.size
          omega
        obtain ⟨hcounts, gone, hgone, htake⟩ := popWbytes_spec h (by omega) hle
        refine Or.inr ⟨(popWbytes_eq h (by omega) hle).2.2,
          ⟨hcounts.start, hcounts.idle, hcounts.size⟩, gone, hgone, ?_⟩
        have hbytes : s.iov.take n = ((rawBytes s.wqueue).drop s.wstart).take n := by
          obtain ⟨tail, htail⟩ := hprefix
          rw [← htail, List.take_append_of_le_length (by omega)]
        rw [hbytes, ← List.take_add, htake]

/-- A message is put behind the others. -/
theorem Counts.push {s : MsgSock} (h : s.Counts) (m : Message) :
    Counts { s with wqueue := s.wqueue ++ [m], wsize := s.wsize + m.raw.length } where
  start m' rest hq := by
    cases hold : s.wqueue with
    | nil =>
      have hzero := h.idle hold
      have hpos := m'.raw_pos
      show s.wstart < _
      omega
    | cons m₀ rest₀ =>
      have hq' : s.wqueue ++ [m] = m' :: rest := hq
      rw [hold, List.cons_append] at hq'
      obtain ⟨rfl, _⟩ := List.cons_eq_cons.mp hq'
      exact h.start m₀ rest₀ hold
  idle hq := by simp at hq
  size := by
    have hsize := h.size
    show s.wsize + m.raw.length + s.wstart = (rawBytes (s.wqueue ++ [m])).length
    rw [rawBytes_append, List.length_append, ← hsize, rawBytes_cons, rawBytes_nil, List.append_nil]
    omega

theorem counts_fresh : fresh.Counts where
  start m rest hq := by cases hq
  idle _ := rfl
  size := rfl

end MsgSock

end SimpleChubby
