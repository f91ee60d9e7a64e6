import Mathlib.Algebra.Order.Ring.Nat
import Mathlib.Data.List.Basic

/-! # Formatted output to a buffer

`snprintf` with strings only: the pieces of the format and its arguments are written one
after another until the buffer is full, and what does not fit is counted. A string is the
list of its bytes, and lengths pass through an `int`.
-/

namespace Printf

/-- The bytes of a text in the ASCII range. -/
def ascii (text : String) : List UInt8 := text.toList.map fun char => char.toNat.toUInt8

/-- What was written, the bytes that are left in the buffer, and the bytes that were dropped. -/
structure PrintfTarget where
  text : List UInt8
  room : Nat
  nchars : Int32

/-- Nothing is written for a length that is not positive. -/
def dostr (target : PrintfTarget) (str : List UInt8) (slen : Int32) : PrintfTarget :=
  let count := slen.toInt.toNat
  { text := target.text ++ (str.take count).take target.room
    room := target.room - count
    nchars := target.nchars + Int32.ofNat (count - target.room) }

def dopr (target : PrintfTarget) (pieces : List (List UInt8)) : PrintfTarget :=
  pieces.foldl (fun target piece => dostr target piece (Int32.ofNat piece.length)) target

/-- The text in a buffer of `count` bytes, of which one ends the text, and the number returned. -/
def snprintf (count : Nat) (pieces : List (List UInt8)) : List UInt8 × Int32 :=
  let target := dopr ⟨[], count - 1, 0⟩ pieces
  (target.text, Int32.ofNat target.text.length + target.nchars)

theorem dopr_length_le (target : PrintfTarget) (pieces : List (List UInt8)) :
    (dopr target pieces).text.length ≤ target.text.length + target.room := by
  induction pieces generalizing target with
  | nil => exact Nat.le_add_right _ _
  | cons piece rest ih =>
      rw [dopr, List.foldl_cons, ← dopr]
      apply Nat.le_trans (ih _)
      simp only [dostr, List.length_append, List.length_take]
      omega

/-- Pieces whose lengths are positive as an `int` are written as far as there is room. -/
theorem dopr_text (target : PrintfTarget) {pieces : List (List UInt8)}
    (hpieces : ∀ piece ∈ pieces, piece.length < 2 ^ 31) :
    (dopr target pieces).text = target.text ++ pieces.flatten.take target.room := by
  induction pieces generalizing target with
  | nil => simp [dopr]
  | cons piece rest ih =>
      have hcount : (Int32.ofNat piece.length).toInt.toNat = piece.length := by
        rw [Int32.toInt_ofNat_of_lt (hpieces piece List.mem_cons_self), Int.toNat_natCast]
      have hrest := ih (dostr target piece (Int32.ofNat piece.length))
        fun piece hmem => hpieces piece (List.mem_cons_of_mem _ hmem)
      rw [dopr, List.foldl_cons, ← dopr, hrest]
      simp only [dostr, hcount, List.take_length, List.flatten_cons]
      rw [List.take_append, List.append_assoc]

theorem snprintf_length_le (count : Nat) (pieces : List (List UInt8)) :
    (snprintf count pieces).1.length ≤ count - 1 := by
  have hle := dopr_length_le ⟨[], count - 1, 0⟩ pieces
  simpa [snprintf] using hle

theorem snprintf_text (count : Nat) {pieces : List (List UInt8)}
    (hpieces : ∀ piece ∈ pieces, piece.length < 2 ^ 31) :
    (snprintf count pieces).1 = pieces.flatten.take (count - 1) := by
  simp [snprintf, dopr_text _ hpieces]

/-- A text that fits is written whole. -/
theorem snprintf_of_fits {count : Nat} (hcount : count ≤ 2 ^ 31) {pieces : List (List UInt8)}
    (hfits : pieces.flatten.length < count) : (snprintf count pieces).1 = pieces.flatten := by
  have hpieces : ∀ piece ∈ pieces, piece.length < 2 ^ 31 := by
    intro piece hmem
    have hle := (List.sublist_flatten_of_mem hmem).length_le
    omega
  rw [snprintf_text count hpieces, List.take_of_length_le (Nat.le_sub_one_of_lt hfits)]

/-- The text in the buffer is the whole text exactly when that is shorter than the buffer. -/
theorem snprintf_eq_iff {count : Nat} (hpos : 0 < count) (hcount : count ≤ 2 ^ 31)
    (pieces : List (List UInt8)) :
    (snprintf count pieces).1 = pieces.flatten ↔ pieces.flatten.length < count := by
  constructor
  · intro hwhole
    have hle := snprintf_length_le count pieces
    rw [hwhole] at hle
    omega
  · exact snprintf_of_fits hcount

end Printf
