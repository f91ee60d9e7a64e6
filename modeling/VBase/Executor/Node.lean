import VBase.AccessMethod.ScanDesc
import VBase.Foundation.Source

/-! # Plan nodes

`ExecProcNode` asks a node for its next row. All nodes of a plan share one
execution state, which every call may change, so a node is a source whose state
is its own together with the shared one.
-/

namespace VBase.Executor

open AccessMethod

/-- The part of `EState` that nodes use to talk to each other. -/
structure EState where
  isIndexInorder : Bool
  deriving DecidableEq

/-- A node with private state `S` that returns rows of type `α`. -/
abbrev PlanNode (S α : Type) := Source (S × EState) Failure α

/-- `estate->is_index_inorder`, as it stands after a row was returned. -/
def inorderAfter {S α : Type} (item : α × S × EState) : Bool := item.2.2.isIndexInorder

/-- A row that was fetched for `items` was fetched for one of them. -/
theorem mem_of_fetched {α β : Type} {fetch : β → Option α} {rows : List α} {items : List β}
    (hrows : rows.map some = items.map fetch) {row : α} (hrow : row ∈ rows) :
    ∃ item ∈ items, fetch item = some row := by
  have hfetched : some row ∈ rows.map some := List.mem_map_of_mem hrow
  rw [hrows] at hfetched
  exact List.mem_map.mp hfetched

/-- Rows that were fetched for `items` have the values that the items promise. -/
theorem map_of_fetched {α β γ : Type} {fetch : β → Option α} {key : α → γ} {value : β → γ}
    {rows : List α} {items : List β} (hrows : rows.map some = items.map fetch)
    (hkey : ∀ item ∈ items, ∀ row, fetch item = some row → key row = value item) :
    rows.map key = items.map value := by
  induction items generalizing rows with
  | nil => rw [List.map_eq_nil_iff.mp hrows]; rfl
  | cons item rest ih =>
      obtain ⟨row, others, rfl, hrow, hothers⟩ := List.map_eq_cons_iff.mp hrows
      rw [List.map_cons, List.map_cons, hkey item List.mem_cons_self row hrow.symm,
        ih hothers fun other hother => hkey other (List.mem_cons_of_mem _ hother)]

/-- A node that returns given rows, each with a value for the flag. -/
def replay (α : Type) : PlanNode (List (α × Bool)) α where
  pull := fun (rows, estate) =>
    match rows with
    | [] => Except.ok (none, [], estate)
    | (row, flag) :: rest => Except.ok (some row, rest, ⟨flag⟩)
  remaining := fun (rows, _) => rows.length
  pull_remaining := by
    rintro ⟨rows, estate⟩ item ⟨rest, after⟩ hpull
    cases rows with
    | nil => simp at hpull
    | cons head tail =>
        simp only [Except.ok.injEq, Prod.mk.injEq] at hpull
        obtain ⟨_, rfl, _⟩ := hpull
        exact Nat.lt_succ_self _

/-- A replayed list is delivered as it was given. -/
theorem replay_yields {α : Type} (rows : List (α × Bool)) (estate : EState) :
    ∃ items, (replay α).Yields (rows, estate) items ∧
      items.map (fun item => (item.1, inorderAfter item)) = rows := by
  induction rows generalizing estate with
  | nil => exact ⟨[], Source.Yields.done rfl, rfl⟩
  | cons head rest ih =>
      obtain ⟨row, flag⟩ := head
      obtain ⟨items, hitems, hmap⟩ := ih ⟨flag⟩
      exact ⟨_, Source.Yields.item rfl hitems, by rw [List.map_cons, hmap]; rfl⟩

end VBase.Executor
