import Mathlib.Data.Nat.Basic
import Mathlib.Algebra.Order.Ring.Nat

/-! # Binary input

Words are stored with their least significant byte first. A read from a stream fills a
buffer. When the stream ends before the buffer does, what there is has been stored, the
rest of the buffer keeps its bytes, and no later read stores anything.
-/

namespace LittleEndian

/-- The bytes of a word. -/
def toBytes : Nat → Nat → List UInt8
  | 0, _ => []
  | width + 1, value => UInt8.ofNat (value % 256) :: toBytes width (value / 256)

def ofBytes : List UInt8 → Nat
  | [] => 0
  | byte :: rest => byte.toNat + 256 * ofBytes rest

@[simp] theorem length_toBytes (width value : Nat) : (toBytes width value).length = width := by
  induction width generalizing value with
  | zero => rfl
  | succ width ih => rw [toBytes, List.length_cons, ih]

theorem ofBytes_toBytes {width value : Nat} (hvalue : value < 256 ^ width) :
    ofBytes (toBytes width value) = value := by
  induction width generalizing value with
  | zero =>
      rw [Nat.pow_zero, Nat.lt_one_iff] at hvalue
      rw [hvalue]
      rfl
  | succ width ih =>
      have hrest : value / 256 < 256 ^ width := by
        rw [Nat.pow_succ] at hvalue
        exact Nat.div_lt_of_lt_mul (by omega)
      rw [toBytes, ofBytes, ih hrest, UInt8.toNat_ofNat']
      omega

end LittleEndian

/-- A stream: the bytes that are left, and whether every read so far was complete. -/
structure InputStream where
  rest : List UInt8
  good : Bool

namespace InputStream

/-- A read into a buffer: the buffer afterwards, and the stream. -/
def read (stream : InputStream) (buffer : List UInt8) : List UInt8 × InputStream :=
  if stream.good then
    if buffer.length ≤ stream.rest.length then
      (stream.rest.take buffer.length, ⟨stream.rest.drop buffer.length, true⟩)
    else (stream.rest ++ buffer.drop stream.rest.length, ⟨[], false⟩)
  else (buffer, stream)

/-- A read of bytes that are there. -/
theorem read_append {bytes buffer : List UInt8} (hlength : buffer.length = bytes.length)
    (behind : List UInt8) :
    read ⟨bytes ++ behind, true⟩ buffer = (bytes, ⟨behind, true⟩) := by
  simp [read, hlength]

/-- A stream that is good after a read had the bytes for it. -/
theorem good_of_read {stream : InputStream} {buffer : List UInt8}
    (hgood : (stream.read buffer).2.good = true) :
    stream.good = true ∧ buffer.length ≤ stream.rest.length ∧
      stream.read buffer =
        (stream.rest.take buffer.length, ⟨stream.rest.drop buffer.length, true⟩) := by
  unfold read at hgood ⊢
  by_cases hstream : stream.good = true
  · rw [if_pos hstream] at hgood ⊢
    by_cases hlength : buffer.length ≤ stream.rest.length
    · exact ⟨hstream, hlength, if_pos hlength⟩
    · rw [if_neg hlength] at hgood
      exact absurd hgood Bool.false_ne_true
  · rw [if_neg hstream] at hgood
    exact absurd hgood hstream

end InputStream
