import VBase.Hnsw.Integrity

/-! # An index is a dictionary

Whatever its links are, an index stores vectors under labels. A deleted label keeps its
place until it is added again. The operations of the index refine those of such a
dictionary over every run, also in the arguments they refuse. The one exception is an
insertion that meets only deleted elements, which has no defined behaviour.
-/

namespace VBase.Hnsw

open PriorityQueue Command

variable {Q : {T K : Type} → [LinearOrder K] → (T → K) → Type} [PriorityQueue Q]
variable {D : Type}

/-- Vectors under labels. The flag of an entry says that it is deleted. -/
@[ext] structure Dictionary (D : Type) where
  dataSize : Nat
  maxElements : Nat
  labels : Finset UInt64
  entries : UInt64 → Option (List D × Bool)
  mem_labels : ∀ label, label ∈ labels ↔ (entries label).isSome = true

/-- The calls that change an index. -/
inductive Operation (D : Type) where
  | addPoint (draws : Draws) (dataPoint : List D) (label : UInt64) (level : Int)
  | markDelete (label : UInt64)
  | unmarkDelete (label : UInt64)
  | resizeIndex (newMaxElements : Capacity) (marks : Nat → Nat → UInt16)

namespace Dictionary

/-- The dictionary before the first call. -/
def new (dataSize maxElements : Nat) : Dictionary D :=
  ⟨dataSize, maxElements, ∅, fun _ => none, by simp⟩

/-- An entry that is new, or takes the place of another. -/
def put (dict : Dictionary D) (label : UInt64) (entry : List D × Bool) : Dictionary D where
  dataSize := dict.dataSize
  maxElements := dict.maxElements
  labels := insert label dict.labels
  entries := Function.update dict.entries label (some entry)
  mem_labels := by
    intro other
    by_cases heq : other = label
    · simp [heq]
    · rw [Finset.mem_insert, Function.update_of_ne heq, dict.mem_labels]
      simp [heq]

def addPoint (dict : Dictionary D) (dataPoint : List D) (label : UInt64) :
    Except String (Dictionary D) :=
  if label ∉ dict.labels ∧ dict.maxElements ≤ dict.labels.card then
    Except.error "The number of elements exceeds the specified limit"
  else Except.ok (dict.put label (dataPoint.take dict.dataSize, false))

def markDelete (dict : Dictionary D) (label : UInt64) : Except String (Dictionary D) :=
  match dict.entries label with
  | none => Except.error "Label not found"
  | some (_, true) => Except.error "The requested to delete element is already deleted"
  | some (data, false) => Except.ok (dict.put label (data, true))

def unmarkDelete (dict : Dictionary D) (label : UInt64) : Except String (Dictionary D) :=
  match dict.entries label with
  | none => Except.error "Label not found"
  | some (_, false) => Except.error "The requested to undelete element is not deleted"
  | some (data, true) => Except.ok (dict.put label (data, false))

def resizeIndex (dict : Dictionary D) (newMaxElements : Nat) : Except String (Dictionary D) :=
  if newMaxElements < dict.labels.card then
    Except.error "Cannot resize, max element is less than the current number of elements"
  else Except.ok { dict with maxElements := newMaxElements }

/-- What is stored under a label, unless it is deleted. -/
def getDataByLabel (dict : Dictionary D) (label : UInt64) : Except String (List D) :=
  match dict.entries label with
  | some (data, false) => Except.ok data
  | _ => Except.error "Label not found"

/-- What an operation means for the dictionary. -/
def apply (dict : Dictionary D) : Operation D → Except String (Dictionary D)
  | .addPoint _ dataPoint label _ => dict.addPoint dataPoint label
  | .markDelete label => dict.markDelete label
  | .unmarkDelete label => dict.unmarkDelete label
  | .resizeIndex newMaxElements _ => dict.resizeIndex newMaxElements.count

/-- A client that goes on after an operation was refused. -/
def applyAll (dict : Dictionary D) (ops : List (Operation D)) : Dictionary D :=
  ops.foldl (fun dict op => (dict.apply op).toOption.getD dict) dict

end Dictionary

namespace Graph

/-! ## The dictionary of an index -/

section

variable {graph after : Graph D} {label : UInt64} {id : Nat}

def labels (graph : Graph D) : Finset UInt64 :=
  (Finset.range graph.curElementCount).image graph.getExternalLabel

def entries (graph : Graph D) (label : UInt64) : Option (List D × Bool) :=
  (graph.labelLookup label).map fun id =>
    (graph.getDataByInternalId id, decide (id ∈ graph.deleted))

theorem Integrity.mem_labels (hintegrity : graph.Integrity) (label : UInt64) :
    label ∈ graph.labels ↔ (graph.entries label).isSome = true := by
  rw [entries, Option.isSome_map, Option.isSome_iff_exists, labels, Finset.mem_image]
  simp only [Finset.mem_range, hintegrity.lookup_iff]

theorem Integrity.card_labels (hintegrity : graph.Integrity) :
    graph.labels.card = graph.curElementCount := by
  rw [labels, Finset.card_image_of_injOn, Finset.card_range]
  intro first hfirst second hsecond heq
  have hlookup := (hintegrity.lookup_iff _ first).mpr ⟨by simpa using hfirst, rfl⟩
  rw [heq, (hintegrity.lookup_iff _ second).mpr ⟨by simpa using hsecond, rfl⟩] at hlookup
  exact (Option.some.inj hlookup).symm

def Integrity.dictionary (hintegrity : graph.Integrity) : Dictionary D :=
  ⟨graph.dataSize, graph.maxElements, graph.labels, graph.entries, hintegrity.mem_labels⟩

theorem Integrity.mem_labels_iff (hintegrity : graph.Integrity) :
    label ∈ graph.labels ↔ ∃ id, graph.labelLookup label = some id := by
  rw [hintegrity.mem_labels, entries, Option.isSome_map, Option.isSome_iff_exists]

theorem mem_deleted_iff (hid : id < graph.curElementCount) :
    id ∈ graph.deleted ↔ graph.isMarkedDeleted id = true := by
  rw [mem_deleted, and_iff_right hid]

/-- Different labels are at different ids. -/
theorem Integrity.lookup_ne (hintegrity : graph.Integrity) {other : UInt64} {slot : Nat}
    (hlabel : graph.labelLookup label = some id) (hother : graph.labelLookup other = some slot)
    (hne : other ≠ label) : slot ≠ id := by
  rintro rfl
  rw [hintegrity.lookup_iff] at hlabel hother
  exact hne (hother.2.symm.trans hlabel.2)

theorem Integrity.entries_eq (hintegrity : graph.Integrity)
    (hlookup : graph.labelLookup label = some id) :
    graph.entries label = some (graph.getDataByInternalId id, graph.isMarkedDeleted id) := by
  have hid := hintegrity.lt_of_lookup hlookup
  rw [entries, hlookup, Option.map_some]
  simp [mem_deleted_iff hid]

/-- Reading a label returns what the dictionary has there, and changes nothing. -/
theorem getDataByLabel_yields (hintegrity : graph.Integrity) (label : UInt64) :
    Yields (getDataByLabel label) graph
      (fun data final => final = graph ∧
        hintegrity.dictionary.getDataByLabel label = Except.ok data)
      (fun failure final => final = graph ∧ ∃ what, failure = .runtimeError what ∧
        hintegrity.dictionary.getDataByLabel label = Except.error what) := by
  have hread : ∀ entry, graph.entries label = entry →
      hintegrity.dictionary.getDataByLabel label = match entry with
        | some (data, false) => Except.ok data
        | _ => Except.error "Label not found" := by
    rintro _ rfl
    rfl
  simp only [getDataByLabel, yields_bind, yields_get]
  cases hlookup : graph.labelLookup label with
  | none => exact ⟨rfl, _, rfl, hread none (by rw [entries, hlookup]; rfl)⟩
  | some id =>
      have hstored := hintegrity.stored id (hintegrity.lt_of_lookup hlookup)
      have hentry := hread _ (hintegrity.entries_eq hlookup)
      cases hmarked : graph.isMarkedDeleted id with
      | true =>
          rw [hmarked] at hentry
          simp only [hmarked, if_true]
          exact ⟨rfl, _, rfl, hentry⟩
      | false =>
          rw [hmarked] at hentry
          simp only [hmarked, Bool.false_eq_true, if_false, List.take_of_length_le hstored]
          exact ⟨rfl, hentry⟩

/-- An entry has changed, of a label that was there. -/
theorem Integrity.dictionary_put (hintegrity : graph.Integrity) (hafter : after.Integrity)
    (hlookup : graph.labelLookup label = some id) {data : Nat → List D}
    (hsame : SameElements { graph with getDataByInternalId := data } after)
    (hdata : ∀ other, other ≠ id → data other = graph.getDataByInternalId other)
    (hdeleted : ∀ other, other ≠ id → (other ∈ after.deleted ↔ other ∈ graph.deleted)) :
    hafter.dictionary = hintegrity.dictionary.put label (data id, decide (id ∈ after.deleted)) := by
  have hlabels : after.labels = graph.labels := by
    rw [labels, hsame.count, hsame.labels, labels]
  ext1
  · exact hsame.dataSize
  · exact hsame.maxElements
  · change after.labels = insert label graph.labels
    rw [hlabels, Finset.insert_eq_of_mem (hintegrity.mem_labels_iff.mpr ⟨id, hlookup⟩)]
  · funext other
    change after.entries other = Function.update graph.entries label _ other
    rw [entries, hsame.lookup, hsame.data]
    by_cases hother : other = label
    · subst hother
      rw [Function.update_self]
      simp [hlookup]
    · rw [Function.update_of_ne hother, entries]
      refine Option.map_congr fun slot hslot => ?_
      have hne := hintegrity.lookup_ne hlookup hslot hother
      simp [hdata slot hne, hdeleted slot hne]

/-- An entry has been added. -/
theorem Integrity.dictionary_place (hintegrity : graph.Integrity) (hafter : after.Integrity)
    {dataPoint : List D} {curlevel : Nat} (hnew : graph.labelLookup label = none)
    (hsame : SameElements (graph.place label dataPoint curlevel) after)
    (hdeleted : after.deleted = graph.deleted) :
    hafter.dictionary =
      hintegrity.dictionary.put label (dataPoint.take graph.dataSize, false) := by
  have hlabelled : after.getExternalLabel =
      Function.update graph.getExternalLabel graph.curElementCount label := hsame.labels
  ext1
  · exact hsame.dataSize
  · exact hsame.maxElements
  · change after.labels = insert label graph.labels
    rw [labels, hsame.count, labels]
    change (Finset.range (graph.curElementCount + 1)).image _ = _
    rw [Finset.range_add_one, Finset.image_insert, hlabelled, Function.update_self]
    congr 1
    refine Finset.image_congr fun slot hslot => Function.update_of_ne ?_ _ _
    have hlt : slot < graph.curElementCount := by simpa using hslot
    exact hlt.ne
  · funext other
    change after.entries other = Function.update graph.entries label _ other
    rw [entries, hsame.lookup, hsame.data, hdeleted]
    change (Function.update graph.labelLookup label (some graph.curElementCount) other).map _ = _
    by_cases hother : other = label
    · subst hother
      rw [Function.update_self, Function.update_self, Option.map_some]
      simp [place, mem_deleted]
    · rw [Function.update_of_ne hother, Function.update_of_ne hother, entries]
      refine Option.map_congr fun slot hslot => ?_
      have hlt := hintegrity.lt_of_lookup hslot
      simp [place, hlt.ne]

end

end Graph

/-! ## The operations -/

variable [LinearOrder D]

variable (Q) in
/-- An operation as a command on the index. -/
def Operation.perform : Operation D → Construction D Unit
  | .addPoint draws dataPoint label level => do
      let _ ← Graph.addPoint Q draws dataPoint label level
  | .markDelete label => Graph.markDelete label
  | .unmarkDelete label => Graph.unmarkDelete label
  | .resizeIndex newMaxElements marks => Graph.resizeIndex newMaxElements marks

/-- The operation adds a label that is not there yet. -/
def Operation.Inserts (graph : Graph D) : Operation D → Prop
  | .addPoint _ _ label _ => graph.labelLookup label = none
  | _ => False

namespace Graph

variable {graph : Graph D}

variable (Q) in
/-- How an operation may end: it does what it means for the dictionary, it refuses its argument
and changes nothing, or it was an insertion among deleted elements. -/
def Refines (hintegrity : graph.Integrity) (op : Operation D) : Prop :=
  Yields (op.perform Q) graph
    (fun _ after => ∃ hafter : after.Integrity,
      hintegrity.dictionary.apply op = Except.ok hafter.dictionary)
    (fun failure final =>
      (∃ what, failure = .runtimeError what ∧ final = graph ∧
        hintegrity.dictionary.apply op = Except.error what) ∨
      (failure = .undefined ∧ graph.HasDeleted ∧ op.Inserts graph))

theorem addPoint_refines (hintegrity : graph.Integrity) (draws : Draws) (dataPoint : List D)
    (label : UInt64) (level : Int) :
    Refines Q hintegrity (.addPoint draws dataPoint label level) := by
  rw [Refines, Operation.perform, yields_bind]
  cases hlookup : graph.labelLookup label with
  | some id =>
      refine (addPoint_existing hintegrity hlookup draws dataPoint level).imp ?_ fun _ _ h => h.elim
      rintro _ after ⟨hafter, hdeleted, hsame⟩
      refine ⟨hafter, ?_⟩
      have hmem := hintegrity.mem_labels_iff.mpr ⟨id, hlookup⟩
      have hmoved : SameElements { graph with
        getDataByInternalId := Function.update graph.getDataByInternalId id
          (dataPoint.take graph.dataSize) } after := hsame
      have hput := hintegrity.dictionary_put hafter hlookup hmoved
        (fun other hne => Function.update_of_ne hne _ _) (fun other hne => by simp [hdeleted, hne])
      rw [Function.update_self, hdeleted] at hput
      rw [hput, Dictionary.apply, Dictionary.addPoint, if_neg fun hfull => hfull.1 hmem]
      simp [Integrity.dictionary]
  | none =>
      have hmem : label ∉ graph.labels := by
        rw [hintegrity.mem_labels_iff]
        simp [hlookup]
      simp only [addPoint, yields_bind, yields_get, hlookup]
      rcases Nat.lt_or_ge graph.curElementCount graph.maxElements with hroom | hfull
      · refine (insertPoint_yields hintegrity hlookup hroom draws dataPoint level).imp ?_ ?_
        · rintro _ after ⟨hafter, hdeleted, hsame⟩
          refine ⟨hafter, ?_⟩
          rw [hintegrity.dictionary_place hafter hlookup hsame hdeleted, Dictionary.apply,
            Dictionary.addPoint, if_neg]
          · rfl
          · rintro ⟨-, hlimit⟩
            change graph.maxElements ≤ graph.labels.card at hlimit
            rw [hintegrity.card_labels] at hlimit
            omega
        · rintro failure final ⟨rfl, hdeleted⟩
          exact Or.inr ⟨rfl, hdeleted, hlookup⟩
      · simp only [insertPoint, yields_bind, yields_get, if_pos hfull]
        refine Or.inl ⟨_, rfl, rfl, ?_⟩
        have hlimit : graph.maxElements ≤ graph.labels.card := hintegrity.card_labels.symm ▸ hfull
        exact if_pos ⟨hmem, hlimit⟩

theorem markDelete_refines (hintegrity : graph.Integrity) (label : UInt64) :
    Refines Q hintegrity (.markDelete label) := by
  rw [Refines, Operation.perform, markDelete]
  simp only [yields_bind, yields_get]
  cases hlookup : graph.labelLookup label with
  | none =>
      refine Or.inl ⟨_, rfl, rfl, ?_⟩
      simp [Dictionary.apply, Dictionary.markDelete, Integrity.dictionary, entries, hlookup]
  | some id =>
      have hid := hintegrity.lt_of_lookup hlookup
      have hentry := hintegrity.entries_eq hlookup
      cases hmarked : graph.isMarkedDeleted id with
      | true =>
          rw [hmarked] at hentry
          simp only [markDeletedInternal, yields_bind, yields_get, hmarked, if_true]
          refine Or.inl ⟨_, rfl, rfl, ?_⟩
          simp [Dictionary.apply, Dictionary.markDelete, Integrity.dictionary, hentry]
      | false =>
          rw [hmarked] at hentry
          refine (markDeletedInternal_yields hintegrity hid hmarked).imp ?_ fun _ _ h => h.elim
          rintro _ after ⟨hafter, hdeleted, hsame⟩
          refine ⟨hafter, ?_⟩
          rw [hintegrity.dictionary_put hafter hlookup hsame (fun _ _ => rfl)
            (fun other hne => by simp [hdeleted, hne]), hdeleted]
          simp [Dictionary.apply, Dictionary.markDelete, Integrity.dictionary, hentry]

theorem unmarkDelete_refines (hintegrity : graph.Integrity) (label : UInt64) :
    Refines Q hintegrity (.unmarkDelete label) := by
  rw [Refines, Operation.perform, unmarkDelete]
  simp only [yields_bind, yields_get]
  cases hlookup : graph.labelLookup label with
  | none =>
      refine Or.inl ⟨_, rfl, rfl, ?_⟩
      simp [Dictionary.apply, Dictionary.unmarkDelete, Integrity.dictionary, entries, hlookup]
  | some id =>
      have hid := hintegrity.lt_of_lookup hlookup
      have hentry := hintegrity.entries_eq hlookup
      cases hmarked : graph.isMarkedDeleted id with
      | false =>
          rw [hmarked] at hentry
          simp only [unmarkDeletedInternal, yields_bind, yields_get, hmarked, Bool.not_false,
            if_true]
          refine Or.inl ⟨_, rfl, rfl, ?_⟩
          simp [Dictionary.apply, Dictionary.unmarkDelete, Integrity.dictionary, hentry]
      | true =>
          rw [hmarked] at hentry
          refine (unmarkDeletedInternal_yields hintegrity hid hmarked).imp ?_ fun _ _ h => h.elim
          rintro _ after ⟨hafter, hdeleted, hsame⟩
          refine ⟨hafter, ?_⟩
          rw [hintegrity.dictionary_put hafter hlookup hsame (fun _ _ => rfl)
            (fun other hne => by simp [hdeleted, hne]), hdeleted]
          simp [Dictionary.apply, Dictionary.unmarkDelete, Integrity.dictionary, hentry]

theorem resizeIndex_refines (hintegrity : graph.Integrity) (newMaxElements : Capacity)
    (marks : Nat → Nat → UInt16) :
    Refines Q hintegrity (.resizeIndex newMaxElements marks) := by
  rw [Refines, Operation.perform, resizeIndex]
  simp only [yields_bind, yields_get]
  have hcard := hintegrity.card_labels
  split
  next hless =>
    refine Or.inl ⟨_, rfl, rfl, ?_⟩
    have hsmall : newMaxElements.count < graph.labels.card := hcard.symm ▸ hless
    exact if_pos hsmall
  next hroom =>
    have hlinked := hintegrity.linked
    have hafter : ({ graph with
        maxElements := newMaxElements.count
        maxElements_lt := newMaxElements.count_lt
        visitedListPool := VisitedListPool.new marks } : Graph D).Integrity :=
      { linked := ⟨hlinked.M_pos, hlinked.ef_pos, hlinked.M_le, hlinked.room_lt,
          fun level id hid =>
            have hlists := hlinked.lists level id hid
            ⟨hlists.length_le, hlists.nodup, hlists.ne_self, hlists.at_level⟩,
          VisitedListPool.new_sound marks⟩
        count_le := not_lt.mp hroom
        entered := ⟨hintegrity.entered.of_none, hintegrity.entered.of_some⟩
        lookup_iff := hintegrity.lookup_iff
        counted := hintegrity.counted
        stored := hintegrity.stored }
    refine ⟨hafter, ?_⟩
    have hlarge : ¬ newMaxElements.count < graph.labels.card := hcard.symm ▸ hroom
    exact if_neg hlarge

theorem perform_refines (hintegrity : graph.Integrity) (op : Operation D) :
    Refines Q hintegrity op := by
  cases op with
  | addPoint draws dataPoint label level =>
      exact addPoint_refines hintegrity draws dataPoint label level
  | markDelete label => exact markDelete_refines hintegrity label
  | unmarkDelete label => exact unmarkDelete_refines hintegrity label
  | resizeIndex newMaxElements marks => exact resizeIndex_refines hintegrity newMaxElements marks

end Graph

/-! ## Runs -/

variable (Q) in
/-- A client that goes on after an exception, as long as the behaviour is defined. -/
def performAll : List (Operation D) → Graph D → Option (Graph D)
  | [], graph => some graph
  | op :: rest, graph =>
      match op.perform Q graph with
      | .ok _ after => performAll rest after
      | .error (.runtimeError _) after => performAll rest after
      | .error .undefined _ => none

/-- A run keeps the index in order, and the dictionary of the index goes along. -/
theorem performAll_refines {graph final : Graph D} (hintegrity : graph.Integrity)
    {ops : List (Operation D)} (hrun : performAll Q ops graph = some final) :
    ∃ hfinal : final.Integrity, hintegrity.dictionary.applyAll ops = hfinal.dictionary := by
  induction ops generalizing graph with
  | nil =>
      obtain rfl := Option.some.inj hrun
      exact ⟨hintegrity, rfl⟩
  | cons op rest ih =>
      have hop := Graph.perform_refines (Q := Q) hintegrity op
      rw [performAll] at hrun
      rw [Dictionary.applyAll, List.foldl_cons]
      split at hrun
      next after hperform =>
        obtain ⟨hafter, happly⟩ := hop.of_ok hperform
        rw [happly]
        exact ih hafter hrun
      next what after hperform =>
        rcases hop.of_error hperform with ⟨_, heq, rfl, happly⟩ | ⟨heq, -⟩
        · rw [happly]
          exact ih hintegrity hrun
        · cases heq
      next => cases hrun

/-! ## Runs without deletions -/

/-- No label is deleted. -/
def Dictionary.Undeleted (dict : Dictionary D) : Prop :=
  ∀ label data, dict.entries label ≠ some (data, true)

omit [LinearOrder D] in
theorem Dictionary.Undeleted.put {dict : Dictionary D} (hundeleted : dict.Undeleted)
    (label : UInt64) (data : List D) : (dict.put label (data, false)).Undeleted := by
  intro other stored
  change Function.update dict.entries label (some (data, false)) other ≠ some (stored, true)
  by_cases heq : other = label
  · rw [heq, Function.update_self]
    simp
  · rw [Function.update_of_ne heq]
    exact hundeleted other stored

omit [LinearOrder D] in
/-- Only `markDelete` leaves a deleted label behind. -/
theorem Dictionary.Undeleted.apply {dict after : Dictionary D} (hundeleted : dict.Undeleted)
    {op : Operation D} (hop : ∀ label, op ≠ .markDelete label)
    (happly : dict.apply op = Except.ok after) : after.Undeleted := by
  cases op with
  | addPoint draws dataPoint label level =>
      simp only [Dictionary.apply, Dictionary.addPoint] at happly
      split at happly
      · cases happly
      · obtain rfl := Except.ok.inj happly
        exact hundeleted.put label _
  | markDelete label => exact absurd rfl (hop label)
  | unmarkDelete label =>
      simp only [Dictionary.apply, Dictionary.unmarkDelete] at happly
      split at happly
      · cases happly
      · cases happly
      · obtain rfl := Except.ok.inj happly
        exact hundeleted.put label _
  | resizeIndex newMaxElements marks =>
      simp only [Dictionary.apply, Dictionary.resizeIndex] at happly
      split at happly
      · cases happly
      · obtain rfl := Except.ok.inj happly
        exact hundeleted

omit [LinearOrder D] in
theorem Graph.Integrity.not_hasDeleted {graph : Graph D} (hintegrity : graph.Integrity)
    (hundeleted : hintegrity.dictionary.Undeleted) : ¬ graph.HasDeleted := by
  rintro ⟨id, hid, hmarked⟩
  have hlookup := (hintegrity.lookup_iff (graph.getExternalLabel id) id).mpr ⟨hid, rfl⟩
  refine hundeleted (graph.getExternalLabel id) (graph.getDataByInternalId id) ?_
  change graph.entries _ = _
  rw [hintegrity.entries_eq hlookup, hmarked]

/-- A run that deletes nothing always has defined behaviour. -/
theorem exists_performAll {graph : Graph D} (hintegrity : graph.Integrity)
    (hundeleted : hintegrity.dictionary.Undeleted) {ops : List (Operation D)}
    (hops : ∀ op ∈ ops, ∀ label, op ≠ .markDelete label) :
    ∃ final, performAll Q ops graph = some final := by
  induction ops generalizing graph with
  | nil => exact ⟨graph, rfl⟩
  | cons op rest ih =>
      have hrest : ∀ op ∈ rest, ∀ label, op ≠ .markDelete label :=
        fun other hother => hops other (List.mem_cons_of_mem _ hother)
      have hop := Graph.perform_refines (Q := Q) hintegrity op
      rw [performAll]
      split
      next after hperform =>
        obtain ⟨hafter, happly⟩ := hop.of_ok hperform
        exact ih hafter (hundeleted.apply (hops op List.mem_cons_self) happly) hrest
      next what after hperform =>
        rcases hop.of_error hperform with ⟨_, -, rfl, -⟩ | ⟨heq, -⟩
        · exact ih hintegrity hundeleted hrest
        · cases heq
      next after hperform =>
        rcases hop.of_error hperform with ⟨_, heq, -⟩ | ⟨-, hdeleted, -⟩
        · cases heq
        · exact absurd hdeleted (hintegrity.not_hasDeleted hundeleted)

/-! ## From the constructor on -/

section

variable {dataSize M efConstruction : Nat} {maxElements : Capacity}
  {fstdistfunc : List D → List D → D} {memory : Memory D} {ops : List (Operation D)}
  {final : Graph D}

/-- The dictionary of a fresh index is empty. -/
theorem dictionary_of_run (hM : 0 < M) (hroom : M * 2 < 65536)
    (hrun : performAll Q ops
      (Graph.new dataSize fstdistfunc maxElements M efConstruction memory) = some final) :
    ∃ hfinal : final.Integrity,
      (Dictionary.new dataSize maxElements.count).applyAll ops = hfinal.dictionary :=
  performAll_refines (Graph.new_integrity dataSize fstdistfunc maxElements hM hroom efConstruction
    memory) hrun

/-- An index that any calls have led to is in order, and reads every label like the dictionary
that the same calls lead to. -/
theorem run_keeps_integrity (hM : 0 < M) (hroom : M * 2 < 65536)
    (hrun : performAll Q ops
      (Graph.new dataSize fstdistfunc maxElements M efConstruction memory) = some final) :
    final.Integrity ∧ ∀ label, Yields (Graph.getDataByLabel label) final
      (fun data after => after = final ∧
        ((Dictionary.new dataSize maxElements.count).applyAll ops).getDataByLabel label =
          Except.ok data)
      (fun failure after => after = final ∧ ∃ what, failure = .runtimeError what ∧
        ((Dictionary.new dataSize maxElements.count).applyAll ops).getDataByLabel label =
          Except.error what) := by
  obtain ⟨hfinal, hdict⟩ := dictionary_of_run hM hroom hrun
  refine ⟨hfinal, fun label => ?_⟩
  rw [hdict]
  exact Graph.getDataByLabel_yields hfinal label

/-- Whatever was called before, a call throws only what the dictionary refuses, and then has
changed nothing. Only inserting while an element is deleted can lead to `back()` of an empty
selection. Levels can be drawn if `M` is at least 2, since `mult_` is `1 / log(M)`. -/
theorem call_throws_only_refusals (hM : 2 ≤ M) (hroom : M * 2 < 65536)
    (hrun : performAll Q ops
      (Graph.new dataSize fstdistfunc maxElements M efConstruction memory) = some final)
    (op : Operation D) :
    Yields (op.perform Q) final
      (fun _ after => after.Integrity ∧ ∃ dict,
        ((Dictionary.new dataSize maxElements.count).applyAll ops).apply op = Except.ok dict)
      (fun failure after =>
        (∃ what, failure = .runtimeError what ∧ after = final ∧
          ((Dictionary.new dataSize maxElements.count).applyAll ops).apply op = Except.error what) ∨
        (failure = .undefined ∧ final.HasDeleted ∧ op.Inserts final)) := by
  obtain ⟨hfinal, hdict⟩ := dictionary_of_run (Nat.zero_lt_of_lt hM) hroom hrun
  rw [hdict]
  exact (Graph.perform_refines hfinal op).imp
    (fun _ _ ⟨hafter, happly⟩ => ⟨hafter, _, happly⟩) fun _ _ h => h

/-- In an index from which nothing is deleted no call reads `back()` of an empty selection. -/
theorem undeleted_run_defined (hM : 2 ≤ M) (hroom : M * 2 < 65536)
    (hops : ∀ op ∈ ops, ∀ label, op ≠ .markDelete label) :
    ∃ final, performAll Q ops
      (Graph.new dataSize fstdistfunc maxElements M efConstruction memory) = some final :=
  exists_performAll (Graph.new_integrity dataSize fstdistfunc maxElements
    (Nat.zero_lt_of_lt hM) hroom efConstruction memory)
    (fun _ _ => by simp [Graph.Integrity.dictionary, Graph.entries, Graph.new]) hops

end

/-! ## An index of points on a line -/

def lineDistance (first second : List Nat) : Nat :=
  (first.headD 0 - second.headD 0) + (second.headD 0 - first.headD 0)

def lineMemory : Memory Nat :=
  ⟨fun _ _ => LinkList.blank, fun _ => [], fun _ => 0, fun _ _ => 0⟩

theorem lineRoom_lt : 4 < 2 ^ 31 := by decide

/-- Room for four points. -/
def lineRoom : Capacity := ⟨4, lineRoom_lt⟩

def lineIndex : Graph Nat := Graph.new 1 lineDistance lineRoom 2 3 lineMemory

/-- Hash sets are traversed from the last insertion to the first here. -/
def drawLevel (level : Nat) : Draws :=
  ⟨level, fun _ _ => false, List.reverse, List.reverse_perm⟩

/-- Three points, of which one is deleted and comes back elsewhere. -/
def lineCalls : List (Operation Nat) :=
  [.addPoint (drawLevel 0) [0] 10 (-1), .addPoint (drawLevel 1) [5] 20 (-1),
    .addPoint (drawLevel 0) [9] 30 (-1), .markDelete 20, .addPoint (drawLevel 0) [4] 20 (-1)]

theorem lineCalls_defined : (performAll @SortedQueue lineCalls lineIndex).isSome = true := by
  decide +kernel

theorem run_keeps_integrity_line :
    ∃ final, performAll @SortedQueue lineCalls lineIndex = some final ∧ final.Integrity := by
  obtain ⟨final, hrun⟩ := Option.isSome_iff_exists.mp lineCalls_defined
  exact ⟨final, hrun, (run_keeps_integrity (by decide) (by decide) hrun).1⟩

theorem call_throws_only_refusals_line :
    ∃ final, performAll @SortedQueue lineCalls lineIndex = some final ∧
      Yields ((Operation.markDelete 40).perform @SortedQueue) final
        (fun _ _ => False) (fun failure after =>
          failure = .runtimeError "Label not found" ∧ after = final) := by
  obtain ⟨final, hrun⟩ := Option.isSome_iff_exists.mp lineCalls_defined
  refine ⟨final, hrun, ?_⟩
  refine (call_throws_only_refusals (by decide) (by decide) hrun (.markDelete 40)).imp ?_ ?_
  · rintro _ after ⟨-, dict, happly⟩
    cases happly
  · rintro failure after (⟨what, rfl, rfl, happly⟩ | ⟨-, -, hinserts⟩)
    · obtain rfl := Except.error.inj happly
      exact ⟨rfl, rfl⟩
    · exact hinserts.elim

theorem undeleted_run_defined_line :
    ∃ final, performAll @SortedQueue (lineCalls.take 3) lineIndex = some final :=
  undeleted_run_defined (by decide) (by decide) (by simp [lineCalls])

end VBase.Hnsw
