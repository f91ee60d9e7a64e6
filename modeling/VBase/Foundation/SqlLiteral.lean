import Mathlib.Data.List.Basic

/-! # String literals of SQL

A literal stands between quotes, and a doubled quote in it stands for one quote. What a
reader takes from a text is exactly what a writer that doubles the quotes would have put
there, up to a quote that is not followed by another one.
-/

namespace SqlLiteral

def quote : UInt8 := 39

/-- The literal whose opening quote was read, and the text behind its closing quote. -/
def readLiteral : List UInt8 → Option (List UInt8 × List UInt8)
  | [] => none
  | [char] => if char = quote then some ([], []) else none
  | char :: next :: rest =>
      if char = quote then
        if next = quote then
          (readLiteral rest).map fun (content, behind) => (quote :: content, behind)
        else some ([], next :: rest)
      else (readLiteral (next :: rest)).map fun (content, behind) => (char :: content, behind)

/-- The characters of a literal, with its quotes doubled. -/
def escape : List UInt8 → List UInt8
  | [] => []
  | char :: rest => if char = quote then quote :: quote :: escape rest else char :: escape rest

theorem escape_of_no_quote {content : List UInt8} (hquote : quote ∉ content) :
    escape content = content := by
  induction content with
  | nil => rfl
  | cons char rest ih =>
      rw [List.mem_cons, not_or] at hquote
      rw [escape, if_neg (Ne.symm hquote.1), ih hquote.2]

theorem length_escape (content : List UInt8) :
    (escape content).length = content.length + content.count quote := by
  induction content with
  | nil => rfl
  | cons char rest ih =>
      rw [escape]
      split
      next heq =>
        subst heq
        simp only [List.length_cons, List.count_cons_self, ih]
        omega
      next hne =>
        simp only [List.length_cons, List.count_cons_of_ne hne, ih]
        omega

/-- The literal ends at the first quote that is not doubled. -/
theorem readLiteral_escape (content behind : List UInt8) (hbehind : behind.head? ≠ some quote) :
    readLiteral (escape content ++ quote :: behind) = some (content, behind) := by
  induction content with
  | nil =>
      cases behind with
      | nil => rfl
      | cons next rest =>
          have hnext : next ≠ quote := by simpa using hbehind
          simp [escape, readLiteral, hnext]
  | cons char rest ih =>
      rw [escape]
      split
      next heq =>
        subst heq
        simp [readLiteral, ih]
      next hne =>
        -- there is at least the closing quote after this character
        obtain ⟨next, others, hrest⟩ : ∃ next others,
            escape rest ++ quote :: behind = next :: others := by
          cases escape rest with
          | nil => exact ⟨_, _, rfl⟩
          | cons next others => exact ⟨_, _, rfl⟩
        rw [hrest] at ih
        rw [List.cons_append, hrest, readLiteral, if_neg hne, ih]
        rfl

theorem readLiteral_eq_some {text content behind : List UInt8}
    (hread : readLiteral text = some (content, behind)) :
    text = escape content ++ quote :: behind ∧ behind.head? ≠ some quote := by
  fun_induction readLiteral text generalizing content behind with
  | case1 => cases hread
  | case2 =>
      obtain ⟨rfl, rfl⟩ := Prod.mk.inj (Option.some.inj hread)
      simp [escape]
  | case3 char hne => cases hread
  | case4 rest ih =>
      obtain ⟨⟨inner, behind⟩, hinner, heq⟩ := Option.map_eq_some_iff.mp hread
      obtain ⟨rfl, rfl⟩ := Prod.mk.inj heq
      obtain ⟨rfl, hbehind⟩ := ih hinner
      exact ⟨by simp [escape], hbehind⟩
  | case5 next rest hne =>
      obtain ⟨rfl, rfl⟩ := Prod.mk.inj (Option.some.inj hread)
      exact ⟨rfl, by simpa using hne⟩
  | case6 char next rest hne ih =>
      obtain ⟨⟨inner, behind⟩, hinner, heq⟩ := Option.map_eq_some_iff.mp hread
      obtain ⟨rfl, rfl⟩ := Prod.mk.inj heq
      obtain ⟨htext, hbehind⟩ := ih hinner
      exact ⟨by rw [htext, escape, if_neg hne]; rfl, hbehind⟩

/-- Reading undoes writing, and nothing else reads as the content. -/
theorem readLiteral_iff {text content behind : List UInt8} :
    readLiteral text = some (content, behind) ↔
      text = escape content ++ quote :: behind ∧ behind.head? ≠ some quote := by
  constructor
  · exact readLiteral_eq_some
  · rintro ⟨rfl, hbehind⟩
    exact readLiteral_escape content behind hbehind

end SqlLiteral
