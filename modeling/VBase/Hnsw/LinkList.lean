import Mathlib.Data.UInt
import Mathlib.Data.List.Basic
import Mathlib.Logic.Function.Basic

/-! # Link lists in memory

A link list is a word and the ids behind it. The word is shared by the number of links
and, on the base layer, by the deletion mark of the element. Neither disturbs the other.
-/

namespace VBase.Hnsw

/-- A link list in memory: a word and the ids behind it. The lower half of the word is the
count, and on level 0 its third byte has the deletion mark of the element. -/
structure LinkList where
  header : UInt32
  slots : Nat → Nat

namespace LinkList

def getListCount (list : LinkList) : UInt16 := list.header.toUInt16

def setListCount (list : LinkList) (size : UInt16) : LinkList :=
  { list with header := list.header &&& 0xFFFF0000 ||| size.toUInt32 }

/-- The ids that are counted. -/
def links (list : LinkList) : List Nat :=
  (List.range list.getListCount.toNat).map list.slots

/-- `data[idx] = id`. -/
def store (list : LinkList) (idx id : Nat) : LinkList :=
  { list with slots := Function.update list.slots idx id }

/-- A loop that stores ids from the front, with their number as the count. -/
def write (list : LinkList) (ids : List Nat) : LinkList where
  header := (list.setListCount (UInt16.ofNat ids.length)).header
  slots := fun idx => ids.getD idx (list.slots idx)

/-- What `memset` leaves. -/
def blank : LinkList := ⟨0, fun _ => 0⟩

/-- `DELETE_MARK` in the third byte of the word. -/
def deleteMark : UInt32 := (0x01 : UInt32) <<< 16

def isMarked (list : LinkList) : Bool := list.header &&& deleteMark != 0

def mark (list : LinkList) : LinkList := { list with header := list.header ||| deleteMark }

def unmark (list : LinkList) : LinkList := { list with header := list.header &&& ~~~deleteMark }

/-! ## The two parts of the word -/

@[simp] theorem getListCount_setListCount (list : LinkList) (size : UInt16) :
    (list.setListCount size).getListCount = size := by
  apply UInt16.toBitVec_inj.mp
  ext bit hbit
  simp [setListCount, getListCount]

@[simp] theorem isMarked_setListCount (list : LinkList) (size : UInt16) :
    (list.setListCount size).isMarked = list.isMarked := by
  have hmark : ∀ bit (_ : bit < 32), bit ≠ 16 → deleteMark.toBitVec[bit] = false := by decide
  have hword : (list.setListCount size).header &&& deleteMark = list.header &&& deleteMark := by
    apply UInt32.toBitVec_inj.mp
    ext bit hbit
    by_cases hsixteen : bit = 16
    · subst hsixteen
      simp [setListCount]
    · simp [setListCount, hmark bit hbit hsixteen]
  rw [isMarked, isMarked, hword]

@[simp] theorem getListCount_mark (list : LinkList) : list.mark.getListCount = list.getListCount := by
  apply UInt16.toBitVec_inj.mp
  ext bit hbit
  simp [mark, getListCount, deleteMark]

@[simp] theorem getListCount_unmark (list : LinkList) :
    list.unmark.getListCount = list.getListCount := by
  have hones : ∀ bit (_ : bit < 16), (65535#16)[bit] = true := by decide
  apply UInt16.toBitVec_inj.mp
  ext bit hbit
  simp [unmark, getListCount, deleteMark, hones bit hbit]

@[simp] theorem isMarked_mark (list : LinkList) : list.mark.isMarked = true := by
  have hword : (list.header ||| deleteMark) &&& deleteMark = deleteMark := by
    apply UInt32.toBitVec_inj.mp
    ext bit hbit
    simpa using fun hmark => Or.inr hmark
  rw [isMarked, mark, hword]
  rfl

@[simp] theorem isMarked_unmark (list : LinkList) : list.unmark.isMarked = false := by
  have hword : (list.header &&& ~~~deleteMark) &&& deleteMark = 0 := by
    rw [UInt32.and_assoc, show ~~~deleteMark &&& deleteMark = 0 by decide, UInt32.and_zero]
  rw [isMarked, unmark, hword]
  rfl

@[simp] theorem isMarked_blank : blank.isMarked = false := by decide

/-! ## The ids -/

@[simp] theorem length_links (list : LinkList) : list.links.length = list.getListCount.toNat := by
  simp [links]

@[simp] theorem links_blank : blank.links = [] := by decide

@[simp] theorem links_mark (list : LinkList) : list.mark.links = list.links := by
  rw [links, links, getListCount_mark]
  rfl

@[simp] theorem links_unmark (list : LinkList) : list.unmark.links = list.links := by
  rw [links, links, getListCount_unmark]
  rfl

/-- Ids that stand in the first slots, under their number. -/
theorem links_eq {list : LinkList} {ids : List Nat} (hlength : ids.length < 65536)
    (hcount : list.getListCount = UInt16.ofNat ids.length)
    (hslots : ∀ idx (hidx : idx < ids.length), list.slots idx = ids[idx]) : list.links = ids := by
  rw [links, hcount, UInt16.toNat_ofNat_of_lt' hlength]
  refine List.ext_getElem (by simp) ?_
  intro idx _ hidx
  simpa using hslots idx hidx

theorem links_write (list : LinkList) {ids : List Nat} (hlength : ids.length < 65536) :
    (list.write ids).links = ids := by
  refine links_eq hlength (getListCount_setListCount list _) ?_
  intro idx hidx
  simp [write, hidx]

@[simp] theorem isMarked_write (list : LinkList) (ids : List Nat) :
    (list.write ids).isMarked = list.isMarked :=
  isMarked_setListCount list _

@[simp] theorem isMarked_store (list : LinkList) (idx id : Nat) :
    (list.store idx id).isMarked = list.isMarked := rfl

@[simp] theorem getListCount_store (list : LinkList) (idx id : Nat) :
    (list.store idx id).getListCount = list.getListCount := rfl

@[simp] theorem store_slots_self (list : LinkList) (idx id : Nat) :
    (list.store idx id).slots idx = id := by
  simp [store]

theorem store_slots_of_ne (list : LinkList) {idx other : Nat} (id : Nat) (hne : other ≠ idx) :
    (list.store idx id).slots other = list.slots other := by
  simp [store, hne]

/-- One more id behind those that are counted. -/
theorem links_append (list : LinkList) (id : Nat) (hcount : list.getListCount.toNat + 1 < 65536) :
    ((list.store list.getListCount.toNat id).setListCount
      (UInt16.ofNat (list.getListCount.toNat + 1))).links = list.links ++ [id] := by
  refine links_eq (by simpa using hcount) (by simp) ?_
  intro idx hidx
  rw [List.length_append, length_links, List.length_singleton] at hidx
  change (list.store list.getListCount.toNat id).slots idx = _
  rcases Nat.lt_or_ge idx list.getListCount.toNat with hlt | hge
  · rw [store_slots_of_ne list id hlt.ne, List.getElem_append_left (by simpa using hlt)]
    simp [links]
  · obtain rfl : idx = list.getListCount.toNat := by omega
    simp

end LinkList

end VBase.Hnsw
