import Mathlib.Tactic.IntervalCases

/-!
# Words in memory and on the wire

`xdrpp/endian.h.in` and the classes `marshal_noswap` and `marshal_swap` of
`xdrpp/marshal.h`. The byte order of the machine is a parameter: a machine of
either order puts the same bytes on the wire, and reads back what it has put.
-/

namespace SimpleChubby

namespace Xdr

/-- `WORDS_BIGENDIAN`. -/
inductive ByteOrder where
  | little
  | big
  deriving DecidableEq, Repr

/-- `swap32`. -/
def swap32 (v : UInt32) : UInt32 :=
  v <<< 24 ||| (v &&& (0xff00 : UInt32)) <<< 8 ||| (v >>> 8 &&& (0xff00 : UInt32)) ||| v >>> 24

/-- The bytes of a word, the most significant one first. -/
def be32 (v : UInt32) : List UInt8 :=
  [(v >>> 24).toUInt8, (v >>> 16).toUInt8, (v >>> 8).toUInt8, v.toUInt8]

/-- The word of four bytes, the most significant one first. -/
def word (a b c d : UInt8) : UInt32 :=
  a.toUInt32 <<< 24 ||| b.toUInt32 <<< 16 ||| c.toUInt32 <<< 8 ||| d.toUInt32

/-- The bytes of a double word, the most significant one first. -/
def be64 (u : UInt64) : List UInt8 := be32 (u >>> 32).toUInt32 ++ be32 u.toUInt32

@[simp] theorem be32_length (v : UInt32) : (be32 v).length = 4 := rfl

@[simp] theorem be64_length (u : UInt64) : (be64 u).length = 8 := rfl

/-! ## Memory -/

/-- The bytes `*p = v` leaves. -/
def store : ByteOrder → UInt32 → List UInt8
  | .big, v => be32 v
  | .little, v => (be32 v).reverse

/-- The value of `*p` over four bytes. -/
def fetch : ByteOrder → List UInt8 → UInt32
  | .big, [a, b, c, d] => word a b c d
  | .little, [a, b, c, d] => word d c b a
  | _, _ => 0

/-- The `u32` of a `u64conv`, from its `u64`. -/
def halves : ByteOrder → UInt64 → UInt32 × UInt32
  | .big, u => ((u >>> 32).toUInt32, u.toUInt32)
  | .little, u => (u.toUInt32, (u >>> 32).toUInt32)

/-- The `u64` of a `u64conv`, from its `u32`. -/
def joined : ByteOrder → UInt32 × UInt32 → UInt64
  | .big, (first, second) => first.toUInt64 <<< 32 ||| second.toUInt64
  | .little, (first, second) => second.toUInt64 <<< 32 ||| first.toUInt64

/-! ## `marshal_noswap` on a big-endian machine, `marshal_swap` on a little-endian one -/

/-- `put32`. -/
def put32 : ByteOrder → UInt32 → List UInt8
  | .big, v => store .big v
  | .little, v => store .little (swap32 v)

/-- `get32`. -/
def get32 : ByteOrder → List UInt8 → UInt32
  | .big, bytes => fetch .big bytes
  | .little, bytes => swap32 (fetch .little bytes)

/-- `put64`. -/
def put64 : ByteOrder → UInt64 → List UInt8
  | .big, u => store .big (halves .big u).1 ++ store .big (halves .big u).2
  | .little, u =>
    store .little (swap32 (halves .little u).2) ++ store .little (swap32 (halves .little u).1)

/-- `get64`. -/
def get64 : ByteOrder → List UInt8 → UInt64
  | .big, bytes => joined .big (fetch .big (bytes.take 4), fetch .big (bytes.drop 4))
  | .little, bytes =>
    joined .little (swap32 (fetch .little (bytes.drop 4)), swap32 (fetch .little (bytes.take 4)))

/-! ## The bytes of a word -/

theorem swap32_swap32 (v : UInt32) : swap32 (swap32 v) = v := by
  apply UInt32.toBitVec_inj.mp
  ext i hi
  simp [swap32]
  interval_cases i <;> simp

/-- The swapped word has the bytes in the other order. -/
theorem be32_swap32 (v : UInt32) : be32 (swap32 v) = (be32 v).reverse := by
  have h₀ : (swap32 v).toUInt8 = (v >>> 24).toUInt8 := by
    apply UInt8.toBitVec_inj.mp
    ext i hi
    simp [swap32]
  have h₁ : (swap32 v >>> 8).toUInt8 = (v >>> 16).toUInt8 := by
    apply UInt8.toBitVec_inj.mp
    ext i hi
    simp [swap32]
    interval_cases i <;> simp
  have h₂ : (swap32 v >>> 16).toUInt8 = (v >>> 8).toUInt8 := by
    apply UInt8.toBitVec_inj.mp
    ext i hi
    simp [swap32]
    interval_cases i <;> simp
  have h₃ : (swap32 v >>> 24).toUInt8 = v.toUInt8 := by
    apply UInt8.toBitVec_inj.mp
    ext i hi
    simp [swap32]
    interval_cases i <;> simp
  simp [be32, h₀, h₁, h₂, h₃]

/-- A word is made up of its bytes. -/
theorem word_of_bytes (v : UInt32) :
    word (v >>> 24).toUInt8 (v >>> 16).toUInt8 (v >>> 8).toUInt8 v.toUInt8 = v := by
  have h₈ : UInt32.toBitVec 8 % 32 = 8#32 := rfl
  have h₁₆ : UInt32.toBitVec 16 % 32 = 16#32 := rfl
  have h₂₄ : UInt32.toBitVec 24 % 32 = 24#32 := rfl
  apply UInt32.toBitVec_inj.mp
  ext i hi
  simp only [word, UInt32.toBitVec_or, UInt32.toBitVec_shiftLeft, UInt8.toBitVec_toUInt32,
    UInt32.toBitVec_toUInt8, UInt32.toBitVec_shiftRight, BitVec.getElem_or,
    BitVec.getElem_setWidth, h₈, h₁₆, h₂₄, BitVec.shiftLeft_eq', BitVec.ushiftRight_eq',
    BitVec.toNat_ofNat, Nat.reduceMod, Nat.reducePow, BitVec.getElem_shiftLeft,
    BitVec.getLsbD_setWidth, BitVec.getLsbD_ushiftRight]
  interval_cases i <;> simp

/-- Any four bytes are those of a word. -/
theorem be32_word (a b c d : UInt8) : be32 (word a b c d) = [a, b, c, d] := by
  have h₈ : UInt32.toBitVec 8 % 32 = 8#32 := rfl
  have h₁₆ : UInt32.toBitVec 16 % 32 = 16#32 := rfl
  have h₂₄ : UInt32.toBitVec 24 % 32 = 24#32 := rfl
  have hbyte : ∀ v w : UInt8, v.toBitVec = w.toBitVec → v = w := fun v w h =>
    UInt8.toBitVec_inj.mp h
  unfold be32
  refine congrArg₂ _ (hbyte _ _ ?_) (congrArg₂ _ (hbyte _ _ ?_) (congrArg₂ _ (hbyte _ _ ?_)
    (congrArg₂ _ (hbyte _ _ ?_) rfl)))
  all_goals
    ext i hi
    simp only [word, UInt32.toBitVec_or, UInt32.toBitVec_shiftLeft, UInt8.toBitVec_toUInt32,
      UInt32.toBitVec_toUInt8, UInt32.toBitVec_shiftRight, BitVec.getElem_setWidth, h₈, h₁₆, h₂₄,
      BitVec.shiftLeft_eq', BitVec.ushiftRight_eq', BitVec.toNat_ofNat, Nat.reduceMod,
      Nat.reducePow, BitVec.getLsbD_ushiftRight]
    interval_cases i <;> simp

theorem fetch_be32 (v : UInt32) : fetch .big (be32 v) = v := word_of_bytes v

theorem fetch_reverse (v : UInt32) : fetch .little (be32 v).reverse = v := word_of_bytes v

/-- A double word is made up of its halves. -/
theorem joined_halves (u : UInt64) :
    (u >>> 32).toUInt32.toUInt64 <<< 32 ||| u.toUInt32.toUInt64 = u := by
  have h₃₂ : UInt64.toBitVec 32 % 64 = 32#64 := rfl
  apply UInt64.toBitVec_inj.mp
  ext i hi
  simp only [UInt64.toBitVec_or, UInt64.toBitVec_shiftLeft, UInt32.toBitVec_toUInt64,
    UInt64.toBitVec_toUInt32, UInt64.toBitVec_shiftRight, BitVec.getElem_or,
    BitVec.getElem_setWidth, h₃₂, BitVec.shiftLeft_eq', BitVec.ushiftRight_eq',
    BitVec.toNat_ofNat, Nat.reduceMod, Nat.reducePow, BitVec.getElem_shiftLeft,
    BitVec.getLsbD_setWidth, BitVec.getLsbD_ushiftRight]
  interval_cases i <;> simp

/-! ## The wire -/

/-- A machine of either order puts the most significant byte first. -/
@[simp] theorem put32_eq (host : ByteOrder) (v : UInt32) : put32 host v = be32 v := by
  cases host with
  | little => simp [put32, store, be32_swap32]
  | big => rfl

@[simp] theorem put64_eq (host : ByteOrder) (u : UInt64) : put64 host u = be64 u := by
  cases host with
  | little => simp [put64, store, halves, be64, be32_swap32]
  | big => rfl

@[simp] theorem get32_be32 (host : ByteOrder) (v : UInt32) : get32 host (be32 v) = v := by
  cases host with
  | little =>
    have hfetch := fetch_reverse (swap32 v)
    rw [be32_swap32, List.reverse_reverse] at hfetch
    rw [get32, hfetch, swap32_swap32]
  | big => exact fetch_be32 v

/-- What is read of four bytes has them. -/
theorem be32_get32 (host : ByteOrder) {bytes : List UInt8} (h : bytes.length = 4) :
    be32 (get32 host bytes) = bytes := by
  match bytes, h with
  | [a, b, c, d], _ =>
    cases host with
    | little =>
      show be32 (swap32 (word d c b a)) = _
      rw [be32_swap32, be32_word]
      rfl
    | big => exact be32_word a b c d

@[simp] theorem get64_be64 (host : ByteOrder) (u : UInt64) : get64 host (be64 u) = u := by
  have htake : (be64 u).take 4 = be32 (u >>> 32).toUInt32 := rfl
  have hdrop : (be64 u).drop 4 = be32 u.toUInt32 := rfl
  cases host with
  | little =>
    have hswap : ∀ v, swap32 (fetch .little (be32 v)) = v := get32_be32 .little
    rw [get64, htake, hdrop, hswap, hswap]
    exact joined_halves u
  | big =>
    rw [get64, htake, hdrop, fetch_be32, fetch_be32]
    exact joined_halves u

end Xdr

end SimpleChubby
