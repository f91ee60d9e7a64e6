import Mathlib.Data.List.Basic

/-! # The first element singled out by its history

A search through a list whose test of an element may look at all elements before it.
The length of the run at the end of a history is one thing such a test can look at.
-/

variable {α : Type*}

/-- The index of the first element of a list that satisfies `p` after the elements before it,
or the length of the list. The list is the continuation of `seen`. -/
def firstIndex (p : List α → α → Bool) : List α → List α → Nat
  | _, [] => 0
  | seen, item :: rest => if p seen item then 0 else firstIndex p (seen ++ [item]) rest + 1

section FirstIndex

variable {p : List α → α → Bool} {seen : List α} {item : α}

@[simp] theorem firstIndex_nil : firstIndex p seen [] = 0 := rfl

theorem firstIndex_of_true (hitem : p seen item = true) (rest : List α) :
    firstIndex p seen (item :: rest) = 0 := by
  rw [firstIndex, if_pos hitem]

theorem firstIndex_of_false (hitem : p seen item = false) (rest : List α) :
    firstIndex p seen (item :: rest) = firstIndex p (seen ++ [item]) rest + 1 := by
  rw [firstIndex, hitem, if_neg Bool.false_ne_true]

/-- The element that is found satisfies the test. -/
theorem firstIndex_getElem? {items : List α}
    (hfound : items[firstIndex p seen items]? = some item) :
    p (seen ++ items.take (firstIndex p seen items)) item = true := by
  induction items generalizing seen with
  | nil => simp at hfound
  | cons first rest ih =>
      cases hfirst : p seen first with
      | true =>
          rw [firstIndex_of_true hfirst] at hfound ⊢
          obtain rfl := Option.some.inj hfound
          simpa using hfirst
      | false =>
          rw [firstIndex_of_false hfirst] at hfound ⊢
          simpa using ih hfound

end FirstIndex

/-- The number of elements at the end of a list that satisfy `p`, up to the last that does not. -/
def trailing (p : α → Bool) (items : List α) : Nat := (items.reverse.takeWhile p).length

theorem trailing_concat (p : α → Bool) (items : List α) (item : α) :
    trailing p (items ++ [item]) = if p item then trailing p items + 1 else 0 := by
  cases hitem : p item <;> simp [trailing, hitem]
