import VBase.Hnsw.Similarity

/-! # Iterators side by side

Any number of iterators may be open on one index and share its pool of visited
lists. A call on one of them touches no list that another holds, so an iterator
returns what it would return alone on a fresh index.
-/

namespace VBase.Hnsw

variable {Q : {T K : Type} → [LinearOrder K] → (T → K) → Type} [PriorityQueue Q]
variable {D : Type} [LinearOrder D]

/-! ## One iterator and its pool -/

/-- What a program holds under the name of an iterator. -/
inductive Handle (Q : {T K : Type} → [LinearOrder K] → (T → K) → Type) (D : Type)
    [LinearOrder D]
  | unborn
  | alive (iter : ResultIterator Q D)
  | destroyed

inductive Call (D : Type)
  | construct (target : List D)
  | next
  | close
  | destroy

/-- What a call is seen to do: a result of `Next`, or a list taken from or given to the pool. -/
inductive Outcome (D : Type)
  | result (value : Option (UInt64 × D))
  | acquired (address : Nat)
  | released (address : Nat)
  | nothing

/-- What `Close` and the destructor do to the pool. -/
def ResultIterator.closing (iter : ResultIterator Q D) : Outcome D :=
  match iter.workspace with
  | none => Outcome.nothing
  | some workspace => Outcome.released workspace.vl

namespace Handle

variable (index : HierarchicalNSW D)

/-- One call; `none` is a call that a program may not make there, or a fault. -/
def call : Call D → Handle Q D → VisitedListPool →
    Option (Handle Q D × VisitedListPool × Outcome D)
  | Call.construct target, unborn, lists =>
      let opened := ResultIterator.new target lists
      some (alive opened.1, opened.2, Outcome.acquired lists.getFreeVisitedList.1)
  | Call.next, alive iter, lists =>
      (iter.next index lists).map fun after =>
        (alive after.2.1, after.2.2, Outcome.result after.1)
  | Call.close, alive iter, lists =>
      some (alive (iter.close lists).1, (iter.close lists).2, iter.closing)
  | Call.destroy, alive iter, lists =>
      some (destroyed, (iter.close lists).2, iter.closing)
  | _, _, _ => none

/-- The address of the list that is held. -/
def address : Handle Q D → Option Nat
  | alive iter => iter.workspace.map (·.vl)
  | _ => none

/-- The pool is sound for what this handle and the `others` hold, and none of it is shared. -/
structure Apart (handle : Handle Q D) (lists : VisitedListPool) (others : Set Nat) : Prop where
  sound : lists.Sound (others ∪ {address | handle.address = some address})
  unshared : ∀ address ∈ others, handle.address ≠ some address

omit [PriorityQueue Q] in
/-- Closing gives back exactly what was held. -/
theorem Apart.close {iter : ResultIterator Q D} {lists : VisitedListPool} {others : Set Nat}
    (hapart : (alive iter).Apart lists others) : (iter.close lists).2.Sound others := by
  unfold ResultIterator.close
  cases hworkspace : iter.workspace with
  | none => simpa [address, hworkspace] using hapart.sound
  | some workspace =>
      have haddress : (alive iter).address = some workspace.vl := by simp [address, hworkspace]
      have hmem : workspace.vl ∈ others ∪ {address | (alive iter).address = some address} :=
        Or.inr haddress
      have hreleased := hapart.sound.releaseVisitedList hmem
      have hothers : (others ∪ {address | (alive iter).address = some address}) \
          {workspace.vl} = others := by
        ext other
        rw [haddress]
        simp only [Set.mem_sdiff, Set.mem_union, Set.mem_ofPred_eq, Option.some.injEq,
          Set.mem_singleton_iff]
        constructor
        · rintro ⟨hother | hother, hne⟩
          · exact hother
          · exact absurd hother.symm hne
        · intro hother
          refine ⟨Or.inl hother, ?_⟩
          rintro rfl
          exact hapart.unshared _ hother haddress
      rwa [hothers] at hreleased

omit [PriorityQueue Q] in
theorem close_memory (iter : ResultIterator Q D) (lists : VisitedListPool) :
    (iter.close lists).2.memory = lists.memory := by
  unfold ResultIterator.close
  split <;> rfl

theorem next_address {index : HierarchicalNSW D} {iter after : ResultIterator Q D}
    {lists lists' : VisitedListPool} {value : Option (UInt64 × D)}
    (hnext : iter.next index lists = some (value, after, lists')) :
    (alive after).address = (alive iter).address := by
  obtain ⟨target, workspace, isFirstResult⟩ := iter
  unfold ResultIterator.next at hnext
  cases workspace with
  | none =>
      simp only [Option.ite_none_right_eq_some, Option.some.injEq, Prod.mk.injEq] at hnext
      obtain ⟨-, -, rfl, -⟩ := hnext
      rfl
  | some workspace =>
      simp only [Option.some.injEq, Prod.mk.injEq] at hnext
      obtain ⟨-, rfl, -⟩ := hnext
      rfl

/-- A call of `Next` keeps the list it holds and writes to no other. -/
theorem next_apart {iter after : ResultIterator Q D} {lists lists' : VisitedListPool}
    {others : Set Nat} {value : Option (UInt64 × D)} (hapart : (alive iter).Apart lists others)
    (hnext : iter.next index lists = some (value, after, lists')) :
    (alive after).Apart lists' others ∧
      ∀ address ∈ others, lists'.memory address = lists.memory address := by
  obtain ⟨target, workspace, isFirstResult⟩ := iter
  unfold ResultIterator.next at hnext
  cases workspace with
  | none =>
      simp only [Option.ite_none_right_eq_some, Option.some.injEq, Prod.mk.injEq] at hnext
      obtain ⟨-, -, rfl, rfl⟩ := hnext
      exact ⟨⟨hapart.sound, hapart.unshared⟩, fun _ _ => rfl⟩
  | some workspace =>
      simp only [Option.some.injEq, Prod.mk.injEq] at hnext
      obtain ⟨-, rfl, rfl⟩ := hnext
      refine ⟨⟨?_, hapart.unshared⟩, ?_⟩
      · apply hapart.sound.store
        apply index.searchKnnIterative_current
        exact hapart.sound.current workspace.vl (Or.inr (Or.inr rfl))
      · intro other hother
        refine VisitedListPool.store_memory_of_ne _ _ ?_
        rintro rfl
        exact hapart.unshared _ hother rfl

/-- Everything that a call may do. -/
theorem call_cases {index : HierarchicalNSW D} {handle after : Handle Q D}
    {lists lists' : VisitedListPool} {event : Call D} {outcome : Outcome D}
    (hcall : Handle.call index event handle lists = some (after, lists', outcome)) :
    (∃ target, handle = unborn ∧ after = alive (ResultIterator.new target lists).1 ∧
      lists' = (ResultIterator.new (Q := Q) target lists).2 ∧
      outcome = Outcome.acquired lists.getFreeVisitedList.1) ∨
    (∃ iter value iter', handle = alive iter ∧ after = alive iter' ∧
      ResultIterator.next index iter lists = some (value, iter', lists') ∧
      outcome = Outcome.result value) ∨
    (∃ iter, handle = alive iter ∧
      (after = alive (iter.close lists).1 ∨ after = destroyed) ∧
      lists' = (iter.close lists).2 ∧ outcome = iter.closing) := by
  unfold Handle.call at hcall
  split at hcall
  next target =>
    obtain ⟨rfl, rfl, rfl⟩ : _ ∧ _ ∧ _ := by simpa using hcall
    exact Or.inl ⟨target, rfl, rfl, rfl, rfl⟩
  next iter =>
    obtain ⟨⟨value, iter', _⟩, hnext, heq⟩ := Option.map_eq_some_iff.mp hcall
    obtain ⟨rfl, rfl, rfl⟩ : _ ∧ _ ∧ _ := by simpa using heq
    exact Or.inr (Or.inl ⟨iter, value, iter', rfl, rfl, hnext, rfl⟩)
  next iter =>
    obtain ⟨rfl, rfl, rfl⟩ : _ ∧ _ ∧ _ := by simpa using hcall
    exact Or.inr (Or.inr ⟨iter, rfl, Or.inl rfl, rfl, rfl⟩)
  next iter =>
    obtain ⟨rfl, rfl, rfl⟩ : _ ∧ _ ∧ _ := by simpa using hcall
    exact Or.inr (Or.inr ⟨iter, rfl, Or.inr rfl, rfl, rfl⟩)
  next => simp at hcall

omit [PriorityQueue Q] in
theorem closed_address {iter : ResultIterator Q D} {lists : VisitedListPool}
    {after : Handle Q D} (hafter : after = alive (iter.close lists).1 ∨ after = destroyed) :
    after.address = none := by
  rcases hafter with rfl | rfl
  · cases hworkspace : iter.workspace with
    | none => simp [ResultIterator.close, address, hworkspace]
    | some workspace => simp [ResultIterator.close, address, hworkspace]
  · rfl

/-- No call touches the lists of the others. -/
theorem Apart.call {index : HierarchicalNSW D} {handle after : Handle Q D}
    {lists lists' : VisitedListPool} {others : Set Nat} {event : Call D} {outcome : Outcome D}
    (hapart : handle.Apart lists others)
    (hcall : Handle.call index event handle lists = some (after, lists', outcome)) :
    after.Apart lists' others ∧
      ∀ address ∈ others, lists'.memory address = lists.memory address := by
  obtain ⟨target, rfl, rfl, rfl, -⟩ | ⟨iter, value, iter', rfl, rfl, hnext, -⟩ |
    ⟨iter, rfl, hafter, rfl, -⟩ := call_cases hcall
  · have hsound : lists.Sound others := by simpa [address] using hapart.sound
    obtain ⟨hafter, hnew, -, hmemory⟩ := hsound.getFreeVisitedList
    refine ⟨⟨?_, ?_⟩, hmemory⟩
    · refine cast (congrArg _ ?_) hafter
      ext other
      exact ⟨fun h => h.elim (fun heq => Or.inr (congrArg some heq.symm)) Or.inl,
        fun h => h.elim Or.inr fun heq => Or.inl (Option.some.inj heq).symm⟩
    · rintro other hother heq
      obtain rfl := Option.some.inj heq
      exact hnew hother
  · exact next_apart index hapart hnext
  · rw [close_memory]
    refine ⟨⟨?_, ?_⟩, fun _ _ => rfl⟩
    · simpa [closed_address hafter] using hapart.close
    · simp [closed_address hafter]

/-- Two handles, each with its own pool, from which a program will see the same. -/
inductive Alike : Handle Q D → VisitedListPool → Handle Q D → VisitedListPool → Prop
  | unborn {lists lists' : VisitedListPool} : Alike Handle.unborn lists Handle.unborn lists'
  | alive {iter iter' : ResultIterator Q D} {lists lists' : VisitedListPool}
      (halike : iter.Alike lists iter' lists') :
      Alike (Handle.alive iter) lists (Handle.alive iter') lists'
  | destroyed {lists lists' : VisitedListPool} :
      Alike Handle.destroyed lists Handle.destroyed lists'

end Handle

/-- The result that a call returned, if it was one of `Next`. -/
def Outcome.value : Outcome D → Option (Option (UInt64 × D))
  | result value => some value
  | _ => none

def Outcome.acquiredList : Outcome D → Option Nat
  | acquired address => some address
  | _ => none

def Outcome.releasedList : Outcome D → Option Nat
  | released address => some address
  | _ => none

namespace Handle

omit [PriorityQueue Q] in
theorem closing_value (iter : ResultIterator Q D) : iter.closing.value = none := by
  unfold ResultIterator.closing
  split <;> rfl

/-- Alike handles answer a call alike: both refuse it, or both return the same. -/
theorem Alike.call (index : HierarchicalNSW D) {handle other : Handle Q D}
    {lists lists' : VisitedListPool} {held held' : Set Nat}
    (halike : handle.Alike lists other lists') (hsound : lists.Sound held)
    (hsound' : lists'.Sound held') (event : Call D) :
    Option.Rel (fun left right => left.1.Alike left.2.1 right.1 right.2.1 ∧
        left.2.2.value = right.2.2.value)
      (Handle.call index event handle lists) (Handle.call index event other lists') := by
  cases event with
  | construct target =>
      cases halike with
      | unborn =>
          exact Option.Rel.some ⟨Alike.alive (ResultIterator.new_alike target hsound hsound'), rfl⟩
      | alive _ => exact Option.Rel.none
      | destroyed => exact Option.Rel.none
  | next =>
      cases halike with
      | unborn => exact Option.Rel.none
      | @alive iter iter' _ _ halike =>
          have hboth := halike.next index
          simp only [Handle.call]
          generalize ResultIterator.next index iter lists = left at hboth ⊢
          generalize ResultIterator.next index iter' lists' = right at hboth ⊢
          cases hboth with
          | none => exact Option.Rel.none
          | some hafter => exact Option.Rel.some ⟨Alike.alive hafter.2, congrArg some hafter.1⟩
      | destroyed => exact Option.Rel.none
  | close =>
      cases halike with
      | unborn => exact Option.Rel.none
      | alive halike =>
          refine Option.Rel.some ⟨Alike.alive halike.close, ?_⟩
          rw [closing_value, closing_value]
      | destroyed => exact Option.Rel.none
  | destroy =>
      cases halike with
      | unborn => exact Option.Rel.none
      | alive halike =>
          refine Option.Rel.some ⟨Alike.destroyed, ?_⟩
          rw [closing_value, closing_value]
      | destroyed => exact Option.Rel.none

omit [PriorityQueue Q] in
theorem Alike.frame {handle other : Handle Q D} {lists lists' after : VisitedListPool}
    (halike : handle.Alike lists other lists')
    (hsame : ∀ address ∈ handle.address, after.memory address = lists.memory address) :
    handle.Alike after other lists' := by
  cases halike with
  | unborn => exact Alike.unborn
  | @alive iter _ _ _ halike =>
      refine Alike.alive (halike.frame ?_)
      intro workspace hworkspace
      refine hsame workspace.vl ?_
      simp [address, Option.mem_def.mp hworkspace]
  | destroyed => exact Alike.destroyed

/-- How many lists a handle may still take. -/
def allowance : Handle Q D → Nat
  | unborn => 1
  | _ => 0

/-- A list that a call takes is held, and a list that is no longer held was given back. -/
theorem call_balance {index : HierarchicalNSW D} {handle after : Handle Q D}
    {lists lists' : VisitedListPool} {event : Call D} {outcome : Outcome D}
    (hcall : Handle.call index event handle lists = some (after, lists', outcome)) :
    handle.address.toList ++ outcome.acquiredList.toList =
        outcome.releasedList.toList ++ after.address.toList ∧
      outcome.acquiredList.toList.length + after.allowance ≤ handle.allowance := by
  obtain ⟨target, rfl, rfl, -, rfl⟩ | ⟨iter, value, iter', rfl, rfl, hnext, rfl⟩ |
    ⟨iter, rfl, hafter, -, rfl⟩ := call_cases hcall
  · exact ⟨rfl, le_rfl⟩
  · refine ⟨?_, le_rfl⟩
    rw [next_address hnext]
    simp [Outcome.acquiredList, Outcome.releasedList]
  · have hallowance : after.allowance = 0 := by
      rcases hafter with rfl | rfl <;> rfl
    rw [closed_address hafter, hallowance]
    unfold ResultIterator.closing
    cases hworkspace : iter.workspace with
    | none => simp [address, hworkspace, Outcome.acquiredList, Outcome.releasedList]
    | some workspace => simp [address, hworkspace, Outcome.acquiredList, Outcome.releasedList]

end Handle

/-! ## Many iterators on one index -/

/-- The iterators of a program and the pool they share. -/
structure Iterators (Q : {T K : Type} → [LinearOrder K] → (T → K) → Type) (D : Type)
    [LinearOrder D] where
  handles : Nat → Handle Q D
  lists : VisitedListPool

namespace Iterators

variable (index : HierarchicalNSW D)

/-- A freshly loaded index. -/
def fresh (uninit : Nat → Nat → UInt16) : Iterators Q D :=
  ⟨fun _ => Handle.unborn, VisitedListPool.new uninit⟩

/-- One call on the iterator `name`. -/
def step (world : Iterators Q D) (name : Nat) (event : Call D) :
    Option (Iterators Q D × Outcome D) :=
  (Handle.call index event (world.handles name) world.lists).map fun after =>
    (⟨Function.update world.handles name after.1, after.2.1⟩, after.2.2)

/-- A program, as the calls it makes in order, with everything it is seen to do. -/
def run : List (Nat × Call D) → Iterators Q D →
    Option (Iterators Q D × List (Nat × Outcome D))
  | [], world => some (world, [])
  | (name, event) :: rest, world => do
      let (world, outcome) ← step index world name event
      let (world, outcomes) ← run rest world
      return (world, (name, outcome) :: outcomes)

/-- The list that an iterator holds. -/
def held (world : Iterators Q D) (name : Nat) : Option Nat := (world.handles name).address

/-- The lists that the iterators other than `name` hold. -/
def others (world : Iterators Q D) (name : Nat) : Set Nat :=
  {address | ∃ other, other ≠ name ∧ world.held other = some address}

/-- Every handle stands apart from all the others. -/
def Disciplined (world : Iterators Q D) : Prop :=
  ∀ name, (world.handles name).Apart world.lists (world.others name)

omit [PriorityQueue Q] in
theorem fresh_disciplined (uninit : Nat → Nat → UInt16) :
    (fresh uninit : Iterators Q D).Disciplined := by
  intro name
  refine ⟨?_, ?_⟩
  · refine cast (congrArg _ ?_) (VisitedListPool.new_sound uninit)
    ext address
    simp [others, held, fresh, Handle.address]
  · intro address _ heq
    cases heq

omit [PriorityQueue Q] in
theorem others_union (world : Iterators Q D) (name : Nat) :
    world.others name ∪ {address | (world.handles name).address = some address} =
      {address | ∃ owner, world.held owner = some address} := by
  ext address
  constructor
  · rintro (⟨other, -, hother⟩ | hname)
    · exact ⟨other, hother⟩
    · exact ⟨name, hname⟩
  · rintro ⟨owner, howner⟩
    by_cases heq : owner = name
    · exact Or.inr (heq ▸ howner)
    · exact Or.inl ⟨owner, heq, howner⟩

/-- What one call does to everybody else. -/
structure Frame (world after : Iterators Q D) (name : Nat) : Prop where
  handles : ∀ other, other ≠ name → after.handles other = world.handles other
  memory : ∀ other, other ≠ name → ∀ address ∈ world.held other,
    after.lists.memory address = world.lists.memory address

theorem Disciplined.step {index : HierarchicalNSW D} {world after : Iterators Q D} {name : Nat}
    {event : Call D} {outcome : Outcome D} (hworld : world.Disciplined)
    (hstep : world.step index name event = some (after, outcome)) :
    after.Disciplined ∧ world.Frame after name := by
  obtain ⟨⟨handle, lists, _⟩, hcall, heq⟩ := Option.map_eq_some_iff.mp hstep
  obtain ⟨rfl, rfl⟩ := Prod.mk.inj heq
  obtain ⟨hapart, hmemory⟩ := (hworld name).call hcall
  have hsame : ∀ other, other ≠ name →
      Function.update world.handles name handle other = world.handles other :=
    fun other hne => Function.update_of_ne hne _ _
  refine ⟨?_, hsame, fun other hne address haddress => hmemory address ⟨other, hne, haddress⟩⟩
  have hothers : (⟨Function.update world.handles name handle, lists⟩ : Iterators Q D).others name =
      world.others name := by
    ext address
    simp only [others, held]
    exact exists_congr fun other => and_congr_right fun hne => by rw [hsame other hne]
  have hname : ((⟨Function.update world.handles name handle, lists⟩ : Iterators Q D).handles
      name).Apart lists (world.others name) := by
    simpa using hapart
  intro owner
  refine ⟨?_, ?_⟩
  · rw [others_union, ← others_union _ name, hothers]
    exact hname.sound
  · rintro address ⟨other, hne, hother⟩ howner
    by_cases hown : owner = name
    · subst hown
      exact hname.unshared address (hothers ▸ ⟨other, hne, hother⟩) howner
    · simp only [hsame owner hown] at howner
      by_cases hoth : other = name
      · subst hoth
        exact hname.unshared address ⟨owner, hown, howner⟩ hother
      · simp only [held, hsame other hoth] at hother
        exact (hworld owner).unshared address ⟨other, hne, hother⟩ howner

/-- Each iterator of `world` is alike to the one of its name in a world of its own. -/
def Shadows (world : Iterators Q D) (alone : Nat → Iterators Q D) : Prop :=
  ∀ name, (alone name).Disciplined ∧
    (world.handles name).Alike world.lists ((alone name).handles name) (alone name).lists

/-- A call acts on the shared world as on the world of the iterator alone. -/
theorem Shadows.step {world : Iterators Q D} {alone : Nat → Iterators Q D}
    (hshadows : world.Shadows alone) (hworld : world.Disciplined) (name : Nat) (event : Call D) :
    Option.Rel (fun left right => left.1.Disciplined ∧
        left.1.Shadows (Function.update alone name right.1) ∧ left.2.value = right.2.value)
      (world.step index name event) ((alone name).step index name event) := by
  obtain ⟨halone, halike⟩ := hshadows name
  have hboth := halike.call index (hworld name).sound (halone name).sound event
  generalize hleft : Handle.call index event (world.handles name) world.lists = left at hboth
  generalize hright : Handle.call index event ((alone name).handles name) (alone name).lists =
    right at hboth
  cases hboth with
  | none =>
      simp only [Iterators.step, hleft, hright]
      exact Option.Rel.none
  | @some left right hafter =>
      have hstep : world.step index name event =
          some (⟨Function.update world.handles name left.1, left.2.1⟩, left.2.2) := by
        simp only [Iterators.step, hleft, Option.map_some]
      have hstep' : (alone name).step index name event =
          some (⟨Function.update (alone name).handles name right.1, right.2.1⟩, right.2.2) := by
        simp only [Iterators.step, hright, Option.map_some]
      obtain ⟨hdisciplined, hframe⟩ := hworld.step hstep
      rw [hstep, hstep']
      refine Option.Rel.some ⟨hdisciplined, ?_, hafter.2⟩
      intro other
      by_cases heq : other = name
      · subst heq
        rw [Function.update_self]
        exact ⟨(halone.step hstep').1, by simpa using hafter.1⟩
      · rw [Function.update_of_ne heq, hframe.handles other heq]
        exact ⟨(hshadows other).1, (hshadows other).2.frame (hframe.memory other heq)⟩

/-- The calls on one iterator. -/
def callsOf (name : Nat) (calls : List (Nat × Call D)) : List (Nat × Call D) :=
  calls.filter (fun call => call.1 = name)

/-- What an iterator is seen to do. -/
def seenOf {β : Type} (observe : Outcome D → Option β) (name : Nat)
    (trace : List (Nat × Outcome D)) : List β :=
  trace.filterMap (fun event => if event.1 = name then observe event.2 else none)

/-- The results that an iterator returned. -/
def resultsOf (name : Nat) (trace : List (Nat × Outcome D)) : List (Option (UInt64 × D)) :=
  seenOf Outcome.value name trace

/-- The lists that an iterator took from the pool, and those it gave back. -/
def acquiredBy (name : Nat) (trace : List (Nat × Outcome D)) : List Nat :=
  seenOf Outcome.acquiredList name trace

def releasedBy (name : Nat) (trace : List (Nat × Outcome D)) : List Nat :=
  seenOf Outcome.releasedList name trace

omit [LinearOrder D] in
theorem seenOf_cons {β : Type} (observe : Outcome D → Option β) (name caller : Nat)
    (outcome : Outcome D) (trace : List (Nat × Outcome D)) :
    seenOf observe name ((caller, outcome) :: trace) =
      (if caller = name then (observe outcome).toList else []) ++ seenOf observe name trace := by
  unfold seenOf
  rw [List.filterMap_cons]
  by_cases heq : caller = name
  · cases observe outcome <;> simp [heq]
  · simp [heq]

omit [LinearOrder D] in
theorem callsOf_cons (name caller : Nat) (event : Call D) (rest : List (Nat × Call D)) :
    callsOf name ((caller, event) :: rest) =
      if caller = name then (caller, event) :: callsOf name rest else callsOf name rest := by
  simp [callsOf, List.filter_cons]

theorem run_cons {index : HierarchicalNSW D} {world after : Iterators Q D} {name : Nat}
    {event : Call D} {outcome : Outcome D}
    (hstep : world.step index name event = some (after, outcome)) (rest : List (Nat × Call D)) :
    run index ((name, event) :: rest) world =
      (run index rest after).map (fun ran => (ran.1, (name, outcome) :: ran.2)) := by
  simp only [run, hstep, Option.bind_eq_bind, Option.bind_some]
  cases run index rest after <;> rfl

theorem run_cons_of_none {index : HierarchicalNSW D} {world : Iterators Q D} {name : Nat}
    {event : Call D} (hstep : world.step index name event = none) (rest : List (Nat × Call D)) :
    run index ((name, event) :: rest) world = none := by
  rw [run, hstep]
  rfl

/-- Of the iterators alone in their worlds, a call moves on the one it is made on. -/
theorem run_callsOf_cons {index : HierarchicalNSW D} (alone : Nat → Iterators Q D) {name : Nat}
    {event : Call D} {after : Iterators Q D} {outcome : Outcome D}
    (hstep : (alone name).step index name event = some (after, outcome))
    (rest : List (Nat × Call D)) (other : Nat) :
    run index (callsOf other ((name, event) :: rest)) (alone other) =
      (run index (callsOf other rest) (Function.update alone name after other)).map (fun ran =>
        (ran.1, if name = other then (name, outcome) :: ran.2 else ran.2)) := by
  rw [callsOf_cons]
  by_cases heq : name = other
  · subst heq
    simpa using run_cons hstep (callsOf name rest)
  · simp [heq, Function.update_of_ne (Ne.symm heq)]

/-- The program faults only where one of its iterators would fault alone, and otherwise
each iterator returns what it would return alone. -/
theorem Shadows.run {world : Iterators Q D} {alone : Nat → Iterators Q D}
    (hshadows : world.Shadows alone) (hworld : world.Disciplined) (calls : List (Nat × Call D)) :
    (∀ after trace, run index calls world = some (after, trace) →
      after.Disciplined ∧ ∀ name, (run index (callsOf name calls) (alone name)).map
        (fun ran => resultsOf name ran.2) = some (resultsOf name trace)) ∧
    (run index calls world = none →
      ∃ name, run index (callsOf name calls) (alone name) = none) := by
  induction calls generalizing world alone with
  | nil =>
      refine ⟨?_, by simp [Iterators.run]⟩
      rintro after trace hrun
      obtain ⟨rfl, rfl⟩ : _ ∧ _ := by simpa [Iterators.run] using hrun
      exact ⟨hworld, fun name => rfl⟩
  | cons call rest ih =>
      obtain ⟨name, event⟩ := call
      have hboth := hshadows.step index hworld name event
      generalize hleft : world.step index name event = left at hboth
      generalize hright : (alone name).step index name event = right at hboth
      cases hboth with
      | none =>
          rw [run_cons_of_none hleft]
          refine ⟨by simp, fun _ => ⟨name, ?_⟩⟩
          rw [callsOf_cons, if_pos rfl, run_cons_of_none hright]
      | @some left right hafter =>
          obtain ⟨hdisciplined, hshadows', hvalue⟩ := hafter
          obtain ⟨hran, hfault⟩ := ih hshadows' hdisciplined
          have halone := run_callsOf_cons alone hright rest
          rw [run_cons hleft]
          refine ⟨?_, ?_⟩
          · intro after trace hrun
            obtain ⟨⟨_, trace'⟩, hrest, heq⟩ := Option.map_eq_some_iff.mp hrun
            obtain ⟨rfl, rfl⟩ := Prod.mk.inj heq
            obtain ⟨hafter, hresults⟩ := hran _ _ hrest
            refine ⟨hafter, fun other => ?_⟩
            obtain ⟨ran, hran', hsame⟩ := Option.map_eq_some_iff.mp (hresults other)
            rw [halone, hran', Option.map_some, Option.map_some, Option.some.injEq]
            unfold resultsOf at hsame ⊢
            by_cases heq : name = other
            · simp only [if_pos heq, seenOf_cons, hvalue, hsame]
            · simp only [if_neg heq, seenOf_cons, List.nil_append, hsame]
          · intro hrun
            obtain ⟨other, hnone⟩ := hfault (Option.map_eq_none_iff.mp hrun)
            exact ⟨other, by rw [halone, hnone, Option.map_none]⟩

/-- A list taken is held until it is given back, and is taken at most once. -/
theorem run_balance {world after : Iterators Q D} {calls : List (Nat × Call D)}
    {trace : List (Nat × Outcome D)} (hrun : run index calls world = some (after, trace))
    (name : Nat) :
    (world.held name).toList ++ acquiredBy name trace =
        releasedBy name trace ++ (after.held name).toList ∧
      (acquiredBy name trace).length ≤ (world.handles name).allowance := by
  induction calls generalizing world trace with
  | nil =>
      obtain ⟨rfl, rfl⟩ : _ ∧ _ := by simpa [Iterators.run] using hrun
      exact ⟨by simp [acquiredBy, releasedBy, seenOf], by simp [acquiredBy, seenOf]⟩
  | cons call rest ih =>
      obtain ⟨caller, event⟩ := call
      cases hstep : world.step index caller event with
      | none => simp [run_cons_of_none hstep] at hrun
      | some moved =>
          obtain ⟨middle, outcome⟩ := moved
          rw [run_cons hstep] at hrun
          obtain ⟨⟨_, trace'⟩, hrest, heq⟩ := Option.map_eq_some_iff.mp hrun
          obtain ⟨rfl, rfl⟩ := Prod.mk.inj heq
          obtain ⟨hbalance, hlength⟩ := ih hrest
          obtain ⟨⟨handle, lists, _⟩, hcall, heq⟩ := Option.map_eq_some_iff.mp hstep
          obtain ⟨rfl, rfl⟩ := Prod.mk.inj heq
          unfold acquiredBy releasedBy at *
          simp only [seenOf_cons]
          by_cases hname : caller = name
          · subst hname
            obtain ⟨hcallBalance, hallowance⟩ := Handle.call_balance hcall
            simp only [held, Function.update_self] at hbalance hlength
            simp only [if_pos, List.length_append]
            refine ⟨?_, by omega⟩
            rw [held, ← List.append_assoc, hcallBalance, List.append_assoc, hbalance,
              List.append_assoc, held]
          · simp only [held, Function.update_of_ne (Ne.symm hname)] at hbalance hlength
            simpa [hname, held] using ⟨hbalance, hlength⟩

end Iterators

/-- Open iterators do not interfere. A program faults exactly where one of its iterators
would fault alone on a fresh index, and each iterator returns what it would return
there; no list has two holders or lies in the pool while it is held, and a list
that an iterator took is given back exactly once, or still held. -/
theorem iterators_do_not_interfere (index : HierarchicalNSW D)
    (uninit uninit' : Nat → Nat → UInt16) (calls : List (Nat × Call D)) :
    ((Iterators.run index calls (Iterators.fresh uninit : Iterators Q D)).isSome ↔
      ∀ name, (Iterators.run index (Iterators.callsOf name calls)
        (Iterators.fresh uninit' : Iterators Q D)).isSome) ∧
    ∀ (world : Iterators Q D) trace,
      Iterators.run index calls (Iterators.fresh uninit) = some (world, trace) →
      (∀ name, (Iterators.run index (Iterators.callsOf name calls)
          (Iterators.fresh uninit' : Iterators Q D)).map
            (fun ran => Iterators.resultsOf name ran.2) =
        some (Iterators.resultsOf name trace)) ∧
      (∀ first second address, world.held first = some address →
        world.held second = some address → first = second) ∧
      (∀ name address, world.held name = some address → address ∉ world.lists.pool) ∧
      world.lists.pool.Nodup ∧
      ∀ name, Iterators.acquiredBy name trace =
          Iterators.releasedBy name trace ++ (world.held name).toList ∧
        (Iterators.acquiredBy name trace).length ≤ 1 := by
  have hshadows : (Iterators.fresh uninit : Iterators Q D).Shadows
      (fun _ => Iterators.fresh uninit') :=
    fun name => ⟨Iterators.fresh_disciplined uninit', Handle.Alike.unborn⟩
  obtain ⟨hran, hfault⟩ := hshadows.run index (Iterators.fresh_disciplined uninit) calls
  refine ⟨⟨?_, ?_⟩, ?_⟩
  · intro hsome name
    obtain ⟨⟨world, trace⟩, hrun⟩ := Option.isSome_iff_exists.mp hsome
    obtain ⟨ran, hran', -⟩ := Option.map_eq_some_iff.mp ((hran world trace hrun).2 name)
    rw [hran']
    rfl
  · intro hsome
    rw [Option.isSome_iff_ne_none]
    intro hnone
    obtain ⟨name, hname⟩ := hfault hnone
    have hcontra := hsome name
    rw [hname] at hcontra
    cases hcontra
  · intro world trace hrun
    obtain ⟨hdisciplined, hresults⟩ := hran world trace hrun
    refine ⟨hresults, ?_, ?_, (hdisciplined 0).sound.nodup, ?_⟩
    · intro first second address hfirst hsecond
      by_contra hne
      exact (hdisciplined first).unshared address ⟨second, Ne.symm hne, hsecond⟩ hfirst
    · intro name address hname hpool
      exact (hdisciplined name).sound.not_held address hpool (Or.inr hname)
    · intro name
      exact Iterators.run_balance index hrun name

/-- Two iterators that take turns; the first is closed and then destroyed. -/
def twoIterators : List (Nat × Call Int) :=
  [(0, Call.construct [5]), (1, Call.construct [0]), (0, Call.next), (1, Call.next),
    (0, Call.close), (1, Call.next), (0, Call.destroy)]

theorem twoIterators_apart :
    ∃ (world : Iterators @SortedQueue Int) (trace : List (Nat × Outcome Int)),
      Iterators.run cycleIndex twoIterators (Iterators.fresh fun _ _ => 0) = some (world, trace) ∧
      ∀ name, (Iterators.run cycleIndex (Iterators.callsOf name twoIterators)
          (Iterators.fresh fun _ _ => 7 : Iterators @SortedQueue Int)).map
            (fun ran => Iterators.resultsOf name ran.2) =
        some (Iterators.resultsOf name trace) := by
  have hsome : (Iterators.run cycleIndex twoIterators
      (Iterators.fresh fun _ _ => 0 : Iterators @SortedQueue Int)).isSome := by decide +kernel
  obtain ⟨⟨world, trace⟩, hrun⟩ := Option.isSome_iff_exists.mp hsome
  exact ⟨world, trace, hrun, ((iterators_do_not_interfere cycleIndex (fun _ _ => 0) (fun _ _ => 7)
    twoIterators).2 world trace hrun).1⟩

end VBase.Hnsw
