import VBase.Hnsw.Exploration
import Mathlib.Data.Prod.Lex
import Mathlib.Order.WithBot

/-! # Search for the nearest elements

`searchKnn` searches the base layer best first like the iterators do, but keeps
the `ef` closest elements it has seen, does not queue what is farther than all of
them, and stops at the first candidate that is. The invariant is that it pops a
best-first order and that what it has left out of its queue is beyond the window
of the closest.
-/

namespace VBase.Hnsw

open BestFirst PriorityQueue

/-- The loop state of `searchBaseLayerST`. Of `top_candidates` the farthest is on top. The
greatest value of `dist_t` is `⊤`. -/
structure KnnSearch (Q : {T K : Type} → [LinearOrder K] → (T → K) → Type) (D : Type)
    [LinearOrder D] where
  vl : VisitedList
  topCandidates : Q (Prod.fst : D × Nat → D)
  candidateSet : CandidateSet Q (WithTop D)
  lowerBound : WithTop D

/-- `std::pair` compares by the distance and then by the label. -/
def resultRank {K : Type} (result : K × UInt64) : K ×ₗ Nat := toLex (result.1, result.2.toNat)

variable {Q : {T K : Type} → [LinearOrder K] → (T → K) → Type} [PriorityQueue Q]
variable {D : Type} [LinearOrder D]

namespace HierarchicalNSW

variable (index : HierarchicalNSW D) (query : List D)

/-- An element and its distance. -/
def neighbor (id : Nat) : D × Nat := (index.dist query id, id)

/-- The pair queued for an element. -/
def knnCandidate (id : Nat) : (WithTop D)ᵒᵈ × Nat :=
  (OrderDual.toDual ↑(index.dist query id), id)

/-- The state before the loop, with the entry seen. -/
def knnStart (vl : VisitedList) (entry : Nat) : KnnSearch Q D :=
  if index.reports entry then
    { vl := vl.mark entry
      topCandidates := push PriorityQueue.empty (index.neighbor query entry)
      candidateSet := push PriorityQueue.empty (index.knnCandidate query entry)
      lowerBound := ↑(index.dist query entry) }
  else
    { vl := vl.mark entry
      topCandidates := PriorityQueue.empty
      candidateSet := push PriorityQueue.empty (OrderDual.toDual ⊤, entry)
      lowerBound := ⊤ }

/-- `top_candidates` with one more element, if it is reported, and at most `ef` in all. -/
def offer (ef : Nat) (topCandidates : Q (Prod.fst : D × Nat → D)) (id : Nat) :
    Q (Prod.fst : D × Nat → D) :=
  let offered :=
    if index.reports id then push topCandidates (index.neighbor query id) else topCandidates
  if ef < size offered then pop offered else offered

/-- One turn of the loop over the links of the current node. -/
def knnVisit (ef : Nat) (search : KnnSearch Q D) (id : Nat) : KnnSearch Q D :=
  if search.vl.Visited id then search
  else if size search.topCandidates < ef ∨ ↑(index.dist query id) < search.lowerBound then
    let topCandidates := index.offer query ef search.topCandidates id
    { vl := search.vl.mark id
      topCandidates := topCandidates
      candidateSet := push search.candidateSet (index.knnCandidate query id)
      lowerBound := ((top topCandidates).map fun farthest => ↑farthest.1).getD search.lowerBound }
  else { search with vl := search.vl.mark id }

/-- The test that ends the loop at the candidate on top. -/
def knnBreaks (ef : Nat) (search : KnnSearch Q D) (current : (WithTop D)ᵒᵈ × Nat) : Prop :=
  search.lowerBound < OrderDual.ofDual current.1 ∧
    (size search.topCandidates = ef ∨ index.numDeleted = 0)

instance (ef : Nat) (search : KnnSearch Q D) (current : (WithTop D)ᵒᵈ × Nat) :
    Decidable (index.knnBreaks ef search current) :=
  inferInstanceAs (Decidable (_ ∧ _))

/-- One turn of the loop of `searchBaseLayerST`. -/
def knnStep (ef : Nat) (search : KnnSearch Q D) : Option (KnnSearch Q D) :=
  match top search.candidateSet with
  | none => none
  | some current =>
      if index.knnBreaks ef search current then none
      else some ((index.getLinklist0 current.2).foldl (index.knnVisit query ef)
        { search with candidateSet := pop search.candidateSet })

/-- Unmarked and queued elements, of which every turn uses one up. -/
def knnPending (search : KnnSearch Q D) : Nat :=
  (index.unvisited search.vl).card + size search.candidateSet

def searchBaseLayerST (entry ef : Nat) (lists : VisitedListPool) :
    Q (Prod.fst : D × Nat → D) × VisitedListPool :=
  let (address, lists) := lists.getFreeVisitedList
  let final := Loop.run index.knnPending (index.knnStep query ef)
    (index.knnStart query (lists.memory address) entry)
  (final.topCandidates, (lists.store address final.vl).releaseVisitedList address)

/-- `while (top_candidates.size() > k) top_candidates.pop();` -/
def dropFarthest (k : Nat) (topCandidates : Q (Prod.fst : D × Nat → D)) :
    Q (Prod.fst : D × Nat → D) :=
  Loop.run size (fun queue => if k < size queue then some (pop queue) else none) topCandidates

/-- What a search returns for an element. -/
def labelled (found : D × Nat) : D × UInt64 := (found.1, index.getExternalLabel found.2)

def searchKnn (k : Nat) (lists : VisitedListPool) :
    Q (resultRank : D × UInt64 → D ×ₗ Nat) × VisitedListPool :=
  if index.curElementCount = 0 then (PriorityQueue.empty, lists)
  else
    let found : Q (Prod.fst : D × Nat → D) × VisitedListPool :=
      index.searchBaseLayerST query (index.baseLayerEntry query) (max ef k) lists
    (pushAll PriorityQueue.empty ((drain (dropFarthest k found.1)).map index.labelled), found.2)

/-! ## Termination -/

theorem knnVisit_pending (ef : Nat) (search : KnnSearch Q D) {id : Nat}
    (hid : id < index.curElementCount) :
    index.knnPending (index.knnVisit query ef search id) ≤ index.knnPending search := by
  unfold knnVisit
  split
  · exact le_rfl
  next hvl =>
    have hlt := index.unvisited_mark_card_lt hid hvl
    split
    · simp only [knnPending, size_push]
      omega
    · simp only [knnPending]
      omega

theorem foldl_knnVisit_pending (ef : Nat) (links : List Nat)
    (hlinks : ∀ link ∈ links, link < index.curElementCount) (search : KnnSearch Q D) :
    index.knnPending (links.foldl (index.knnVisit query ef) search) ≤ index.knnPending search := by
  induction links generalizing search with
  | nil => exact le_rfl
  | cons link rest ih =>
      rw [List.foldl_cons]
      refine (ih (fun other hother => hlinks other (List.mem_cons_of_mem _ hother)) _).trans ?_
      exact index.knnVisit_pending query ef search (hlinks link List.mem_cons_self)

/-- What a turn does, and when there is none. -/
theorem knnStep_some {index : HierarchicalNSW D} {query : List D} {ef : Nat}
    {search after : KnnSearch Q D} (hstep : index.knnStep query ef search = some after) :
    ∃ current, top search.candidateSet = some current ∧ ¬ index.knnBreaks ef search current ∧
      after = (index.getLinklist0 current.2).foldl (index.knnVisit query ef)
        { search with candidateSet := pop search.candidateSet } := by
  unfold knnStep at hstep
  split at hstep
  · simp at hstep
  next current htop =>
    split at hstep
    · simp at hstep
    next hbreaks => exact ⟨current, htop, hbreaks, (Option.some.inj hstep).symm⟩

theorem knnStep_none {index : HierarchicalNSW D} {query : List D} {ef : Nat}
    {search : KnnSearch Q D} (hstep : index.knnStep query ef search = none) :
    ∀ current, top search.candidateSet = some current → index.knnBreaks ef search current := by
  intro current htop
  by_contra hbreaks
  simp [knnStep, htop, hbreaks] at hstep

theorem knnStep_decreases (ef : Nat) :
    Loop.Decreases index.knnPending (index.knnStep query ef : KnnSearch Q D → _) := by
  intro search after hstep
  obtain ⟨current, htop, -, rfl⟩ := knnStep_some hstep
  refine (index.foldl_knnVisit_pending query ef _ (index.linklist0_lt current.2) _).trans_lt ?_
  have hpop := size_pop htop
  simp only [knnPending]
  omega

/-! ## What the search keeps -/

/-- The marks are `region` and `top_candidates` are the `ef` closest of it. Elements of
`queued` are in the queue, except some beyond the window. -/
structure Keeps (ef : Nat) (search : KnnSearch Q D) (region queued : Finset Nat) : Prop where
  visited : ∀ id, search.vl.Visited id ↔ id ∈ region
  closest : SmallestBy Prod.fst ef (region.val.map (index.neighbor query))
    (elems search.topCandidates)
  bound : ∃ farthest, top search.topCandidates = some farthest ∧ search.lowerBound = ↑farthest.1
  queue : ∃ kept ⊆ queued, elems search.candidateSet = kept.val.map (index.knnCandidate query) ∧
    ∀ id ∈ queued, id ∉ kept → Beyond (index.dist query) ef region id

section Keeps

variable {index : HierarchicalNSW D} {query : List D} {ef : Nat} {search : KnnSearch Q D}
  {region queued : Finset Nat}

/-- The loop knows what is beyond the window. -/
theorem Keeps.beyond_iff (hkeeps : index.Keeps query ef search region queued) (id : Nat) :
    Beyond (index.dist query) ef region id ↔
      size search.topCandidates = ef ∧ search.lowerBound < ↑(index.dist query id) := by
  obtain ⟨farthest, htop, hbound⟩ := hkeeps.bound
  have hcard := hkeeps.closest.card_eq
  have hcount : (region.val.map (index.neighbor query)).countP
      (fun found => found.1 < index.dist query id) =
        (region.filter (fun other => index.dist query other < index.dist query id)).card :=
    Multiset.countP_map _ _ _
  have hiff : (ef ≤ (region.val.map (index.neighbor query)).card ∧
      ∀ found ∈ elems search.topCandidates, found.1 < index.dist query id) ↔
        ef ≤ (region.val.map (index.neighbor query)).countP
          (fun found => found.1 < index.dist query id) :=
    hkeeps.closest.forall_iff_countP fun _ _ => lt_of_le_of_lt
  rw [Beyond, ← hcount, ← hiff, hbound, WithTop.coe_lt_coe]
  unfold size
  constructor
  · rintro ⟨hle, hall⟩
    exact ⟨by omega, hall farthest (mem_of_top htop)⟩
  · rintro ⟨hsize, hlt⟩
    refine ⟨by omega, ?_⟩
    intro found hfound
    exact (le_top _ farthest found htop hfound).trans_lt hlt

/-- Only a full window leaves out elements that were seen. -/
theorem Keeps.size_eq (hkeeps : index.Keeps query ef search region queued) {id : Nat}
    (hid : id ∈ region) (hlt : search.lowerBound < ↑(index.dist query id)) :
    size search.topCandidates = ef := by
  obtain ⟨farthest, htop, hbound⟩ := hkeeps.bound
  have hcard := hkeeps.closest.card_eq
  by_contra hne
  have hroom : (elems search.topCandidates).card < ef := by
    unfold size at hne
    omega
  have hmem : index.neighbor query id ∈ elems search.topCandidates := by
    rw [hkeeps.closest.eq_of_room hroom]
    exact Multiset.mem_map_of_mem _ hid
  rw [hbound, WithTop.coe_lt_coe] at hlt
  exact hlt.not_ge (le_top _ farthest _ htop hmem)

/-- An element that was seen ends the loop exactly when it is beyond the window. -/
theorem Keeps.breaks_iff (hkeeps : index.Keeps query ef search region queued) {id : Nat}
    (hid : id ∈ region) :
    index.knnBreaks ef search (index.knnCandidate query id) ↔
      Beyond (index.dist query) ef region id := by
  rw [hkeeps.beyond_iff, and_comm]
  refine and_congr_right fun hlt => ?_
  exact ⟨fun _ => hkeeps.size_eq hid hlt, Or.inl⟩

/-- One more element, if it is not beyond the window already. -/
theorem offer_closest {topCandidates : Q (Prod.fst : D × Nat → D)}
    (hclosest : SmallestBy Prod.fst ef (region.val.map (index.neighbor query))
      (elems topCandidates)) {id : Nat} (hid : id ∉ region) (hreports : index.reports id = true) :
    SmallestBy Prod.fst ef ((insert id region).val.map (index.neighbor query))
      (elems (index.offer query ef topCandidates id)) := by
  rw [Finset.insert_val_of_notMem hid, Multiset.map_cons]
  refine hclosest.cons_trans ?_
  have hcard := hclosest.card_eq
  rw [← elems_push, offer, if_pos hreports]
  generalize hoffered : push topCandidates (index.neighbor query id) = offered
  have hsize : size offered = (elems topCandidates).card + 1 := by
    rw [← hoffered, size_push, size]
  split
  next hover =>
    have hmem : index.neighbor query id ∈ elems offered := by
      rw [← hoffered, elems_push]
      exact Multiset.mem_cons_self _ _
    obtain ⟨farthest, htop⟩ := exists_top_of_mem hmem
    have hpop := size_pop htop
    have hsmall := smallestBy_pop htop
    rwa [show size (pop offered) = ef by omega] at hsmall
  next hover =>
    refine SmallestBy.self ?_
    unfold size at hover
    omega

theorem offer_mem {topCandidates : Q (Prod.fst : D × Nat → D)} (hef : 0 < ef)
    (hclosest : SmallestBy Prod.fst ef (region.val.map (index.neighbor query))
      (elems topCandidates)) {id : Nat} (hid : id ∉ region) (hreports : index.reports id = true) :
    ∃ farthest, top (index.offer query ef topCandidates id) = some farthest := by
  have hcard := (offer_closest hclosest hid hreports).card_eq
  rw [Finset.insert_val_of_notMem hid, Multiset.map_cons, Multiset.card_cons] at hcard
  obtain ⟨found, hfound⟩ := Multiset.card_pos_iff_exists_mem.mp (by omega :
    0 < (elems (index.offer query ef topCandidates id)).card)
  exact exists_top_of_mem hfound

theorem Keeps.knnVisit_old (hkeeps : index.Keeps query ef search region queued) {id : Nat}
    (hid : id ∈ region) : index.knnVisit query ef search id = search := by
  rw [knnVisit, if_pos ((hkeeps.visited id).mpr hid)]

/-- The bound is the distance of an element that was seen. -/
theorem Keeps.bound_mem (hkeeps : index.Keeps query ef search region queued) :
    ∃ other ∈ region, search.lowerBound = ↑(index.dist query other) := by
  obtain ⟨farthest, htop, hbound⟩ := hkeeps.bound
  obtain ⟨other, hother, rfl⟩ :=
    Multiset.mem_map.mp (hkeeps.closest.mem_of_mem (mem_of_top htop))
  exact ⟨other, hother, hbound⟩

/-- A new element is queued, or is beyond the window. -/
theorem Keeps.knnVisit_new (hkeeps : index.Keeps query ef search region queued)
    (hsub : queued ⊆ region) (hef : 0 < ef) {id : Nat} (hid : id ∉ region)
    (hreports : index.reports id = true)
    (hdistinct : ∀ other ∈ region, index.dist query other ≠ index.dist query id) :
    index.Keeps query ef (index.knnVisit query ef search id) (insert id region)
      (insert id queued) := by
  have hvisited : ∀ other, (search.vl.mark id).Visited other ↔ other ∈ insert id region := by
    intro other
    rw [VisitedList.mark_visited, hkeeps.visited, Finset.mem_insert]
  have hmono : ∀ other, Beyond (index.dist query) ef region other →
      Beyond (index.dist query) ef (insert id region) other :=
    fun _ hbeyond => hbeyond.mono (Finset.subset_insert id region)
  obtain ⟨kept, hkept, helems, hleft⟩ := hkeeps.queue
  rw [knnVisit, if_neg fun hvisited => hid ((hkeeps.visited id).mp hvisited)]
  split
  next hnear =>
    -- it is queued and enters the window, from which the farthest may drop
    obtain ⟨farthest, htop⟩ := offer_mem hef hkeeps.closest hid hreports
    refine ⟨hvisited, offer_closest hkeeps.closest hid hreports, ⟨farthest, htop, ?_⟩,
      insert id kept, Finset.insert_subset_insert id hkept, ?_, ?_⟩
    · simp only [htop, Option.map_some, Option.getD_some]
    · rw [elems_push, helems, Finset.insert_val_of_notMem fun hmem => hid (hsub (hkept hmem)),
        Multiset.map_cons]
    · intro other hother hnot
      simp only [Finset.mem_insert, not_or] at hother hnot
      exact hmono other (hleft other (hother.resolve_left hnot.1) hnot.2)
  next hfar =>
    -- it is marked only: the window is full of closer elements
    obtain ⟨hroom, hle⟩ := not_or.mp hfar
    obtain ⟨last, hlast, hbound⟩ := hkeeps.bound_mem
    have hfull : (elems search.topCandidates).card = ef := by
      have hcard := hkeeps.closest.card_eq
      unfold size at hroom
      omega
    have hlt : search.lowerBound < ↑(index.dist query id) := by
      refine lt_of_le_of_ne (not_lt.mp hle) ?_
      rw [hbound, Ne, WithTop.coe_inj]
      exact hdistinct last hlast
    have hbeyond := (hkeeps.beyond_iff id).mpr ⟨hfull, hlt⟩
    refine ⟨hvisited, ?_, hkeeps.bound, kept, hkept.trans (Finset.subset_insert id queued),
      helems, ?_⟩
    · rw [Finset.insert_val_of_notMem hid, Multiset.map_cons]
      refine hkeeps.closest.cons_of_le hfull ?_
      intro found hfound
      obtain ⟨farthest, htop, heq⟩ := hkeeps.bound
      rw [heq, WithTop.coe_lt_coe] at hlt
      exact (le_top _ farthest found htop hfound).trans hlt.le
    · intro other hother hnot
      rcases Finset.mem_insert.mp hother with rfl | hmem
      · exact hmono other hbeyond
      · exact hmono other (hleft other hmem hnot)

/-- The ids of the closest. -/
theorem closest_ids {all : Multiset Nat} {chosen : Multiset (D × Nat)}
    (hclosest : SmallestBy Prod.fst ef (all.map (index.neighbor query)) chosen) :
    ∃ ids, SmallestBy (index.dist query) ef all ids ∧
      chosen = ids.map (index.neighbor query) := by
  have hpairs : ∀ found ∈ all.map (index.neighbor query),
      index.neighbor query found.2 = found := by
    intro found hfound
    obtain ⟨id, _, rfl⟩ := Multiset.mem_map.mp hfound
    rfl
  refine ⟨chosen.map Prod.snd, ?_, ?_⟩
  · have hids : SmallestBy (index.dist query) ef ((all.map (index.neighbor query)).map Prod.snd)
        (chosen.map Prod.snd) :=
      hclosest.map fun found hfound => congrArg Prod.fst (hpairs found hfound)
    rwa [Multiset.map_map, show Prod.snd ∘ index.neighbor query = id from rfl,
      Multiset.map_id] at hids
  · rw [Multiset.map_map]
    conv_lhs => rw [← Multiset.map_id chosen]
    exact Multiset.map_congr rfl fun found hfound =>
      (hpairs found (hclosest.mem_of_mem hfound)).symm

/-- Popping an element takes it off the queue and out of what is left. -/
theorem Keeps.pop (hkeeps : index.Keeps query ef search region queued) {node : Nat}
    (htop : top search.candidateSet = some (index.knnCandidate query node)) :
    index.Keeps query ef { search with candidateSet := PriorityQueue.pop search.candidateSet }
      region (queued.erase node) := by
  obtain ⟨kept, hkept, helems, hleft⟩ := hkeeps.queue
  have hpopped := elems_of_top_some search.candidateSet _ htop
  have hnode : node ∈ kept := by
    obtain ⟨other, hother, heq⟩ := Multiset.mem_map.mp (helems ▸ mem_of_top htop)
    have hsame : other = node := congrArg Prod.snd heq
    exact hsame ▸ hother
  refine ⟨hkeeps.visited, hkeeps.closest, hkeeps.bound, kept.erase node,
    Finset.erase_subset_erase node hkept, ?_, ?_⟩
  · rw [helems, ← Finset.insert_erase hnode,
      Finset.insert_val_of_notMem (Finset.notMem_erase _ _), Multiset.map_cons] at hpopped
    exact ((Multiset.cons_inj_right _).mp hpopped).symm
  · intro other hother hnot
    obtain ⟨hne, hmem⟩ := Finset.mem_erase.mp hother
    exact hleft other hmem fun hkeep => hnot (Finset.mem_erase.mpr ⟨hne, hkeep⟩)

/-- Visiting the links of an element keeps the invariant. -/
theorem Keeps.foldl_knnVisit (hkeeps : index.Keeps query ef search region queued)
    (hsub : queued ⊆ region) (hef : 0 < ef) {known : Set Nat}
    (hdistinct : Set.InjOn (index.dist query) known)
    (hreports : ∀ id ∈ known, index.reports id = true) (hregion : ∀ id ∈ region, id ∈ known)
    (links : List Nat) (hlinks : ∀ link ∈ links, link ∈ known) :
    index.Keeps query ef (links.foldl (index.knnVisit query ef) search)
      (region ∪ links.toFinset) (queued ∪ (links.toFinset \ region)) := by
  refine (foldl_expand (motive := fun search region queued =>
    index.Keeps query ef search region queued ∧ queued ⊆ region ∧ ∀ id ∈ region, id ∈ known)
    links ?_ ?_ ⟨hkeeps, hsub, hregion⟩).1
  · rintro search region queued link _ hold ⟨hkeeps, hsub, hregion⟩
    rw [hkeeps.knnVisit_old hold]
    exact ⟨hkeeps, hsub, hregion⟩
  · rintro search region queued link hlink hnew ⟨hkeeps, hsub, hregion⟩
    have hknown := hlinks link hlink
    refine ⟨hkeeps.knnVisit_new hsub hef hnew (hreports link hknown) ?_,
      Finset.insert_subset_insert link hsub, ?_⟩
    · rintro other hother heq
      exact hnew (hdistinct (hregion other hother) hknown heq ▸ hother)
    · intro id hid
      rcases Finset.mem_insert.mp hid with rfl | hmem
      · exact hknown
      · exact hregion id hmem

end Keeps

/-! ## What the search pops -/

/-- The loop state after `popped`, of which nothing was beyond the window. -/
structure Surveys (entry ef : Nat) (search : KnnSearch Q D) (popped : List Nat) : Prop where
  order : index.BaseOrder query entry popped
  within : Within (index.dist query) ef popped
  keeps : index.Keeps query ef search (seen index.getLinklist0 entry popped)
    (frontier index.getLinklist0 entry popped)

section Surveys

variable {index : HierarchicalNSW D} {query : List D} {entry ef : Nat}
  {search : KnnSearch Q D} {popped : List Nat}

theorem knnStart_surveys (hef : 0 < ef) {vl : VisitedList} (hvl : ∀ id, ¬ vl.Visited id)
    (hreports : index.reports entry = true) :
    index.Surveys query entry ef (index.knnStart query vl entry : KnnSearch Q D) [] := by
  rw [knnStart, if_pos hreports]
  have hpushed : elems (push (PriorityQueue.empty : Q (Prod.fst : D × Nat → D))
      (index.neighbor query entry)) = {index.neighbor query entry} := by
    rw [elems_push, elems_empty]
    rfl
  refine ⟨Order.init, by simp [Within], ?_, ?_, ?_, {entry}, by simp, ?_, ?_⟩
  · intro id
    rw [VisitedList.mark_visited, seen_nil, Finset.mem_singleton]
    simp [hvl]
  · rw [seen_nil, Finset.singleton_val, Multiset.map_singleton, hpushed]
    exact SmallestBy.self (by simpa using Nat.succ_le_of_lt hef)
  · obtain ⟨farthest, htop⟩ := exists_top_of_mem (hpushed ▸ Multiset.mem_singleton_self _)
    obtain rfl := Multiset.mem_singleton.mp (hpushed ▸ mem_of_top htop)
    exact ⟨_, htop, rfl⟩
  · rw [elems_push, elems_empty]
    rfl
  · simp

/-- The candidate on top was seen, and is in the frontier. -/
theorem Surveys.top_eq (hsurveys : index.Surveys query entry ef search popped)
    {current : (WithTop D)ᵒᵈ × Nat} (htop : top search.candidateSet = some current) :
    current.2 ∈ frontier index.getLinklist0 entry popped ∧
      current = index.knnCandidate query current.2 := by
  obtain ⟨kept, hkept, helems, _⟩ := hsurveys.keeps.queue
  obtain ⟨node, hnode, rfl⟩ := Multiset.mem_map.mp (helems ▸ mem_of_top htop)
  exact ⟨hkept hnode, rfl⟩

/-- Within the window nothing in the frontier is closer than the candidate on top. -/
theorem Surveys.top_le (hsurveys : index.Surveys query entry ef search popped)
    {node : Nat} (htop : top search.candidateSet = some (index.knnCandidate query node))
    (hwithin : ¬ Beyond (index.dist query) ef (seen index.getLinklist0 entry popped) node) :
    ∀ other ∈ frontier index.getLinklist0 entry popped,
      index.dist query node ≤ index.dist query other := by
  obtain ⟨kept, _, helems, hleft⟩ := hsurveys.keeps.queue
  intro other hother
  by_cases hmem : other ∈ kept
  · have hle := le_top search.candidateSet _ (index.knnCandidate query other) htop
      (helems ▸ Multiset.mem_map_of_mem _ hmem)
    exact WithTop.coe_le_coe.mp hle
  · by_contra hlt
    exact hwithin ((hleft other hother hmem).of_le (not_le.mp hlt).le)

/-- A loop that ends has left only what is beyond the window. -/
theorem Surveys.windowed (hsurveys : index.Surveys query entry ef search popped)
    (hstep : index.knnStep query ef search = none) :
    Windowed index.getLinklist0 (index.dist query) entry ef popped := by
  refine ⟨hsurveys.order, hsurveys.within, ?_⟩
  obtain ⟨kept, hkept, helems, hleft⟩ := hsurveys.keeps.queue
  intro id hid
  by_cases hmem : id ∈ kept
  · have hqueued : index.knnCandidate query id ∈ elems search.candidateSet :=
      helems ▸ Multiset.mem_map_of_mem _ hmem
    obtain ⟨current, htop⟩ := exists_top_of_mem hqueued
    obtain ⟨hnode, hcurrent⟩ := hsurveys.top_eq htop
    have hbreaks := knnStep_none hstep current htop
    rw [hcurrent, hsurveys.keeps.breaks_iff (mem_frontier.mp hnode).1] at hbreaks
    -- the candidate on top is beyond the window, and this one is no closer
    have hle := le_top search.candidateSet current _ htop hqueued
    rw [hcurrent] at hle
    exact hbreaks.of_le (WithTop.coe_le_coe.mp hle)
  · exact hleft id hid hmem

/-- One turn of the loop is one pop of the order. -/
theorem Surveys.step (hsurveys : index.Surveys query entry ef search popped) (hef : 0 < ef)
    (hdistinct : Distinct index.getLinklist0 (index.dist query) entry)
    (hreports : ∀ id, index.Reachable entry id → index.reports id = true)
    {after : KnnSearch Q D} (hstep : index.knnStep query ef search = some after) :
    ∃ node, index.Surveys query entry ef after (popped ++ [node]) := by
  obtain ⟨current, htop, hbreaks, rfl⟩ := knnStep_some hstep
  obtain ⟨hnode, hcurrent⟩ := hsurveys.top_eq htop
  generalize current.2 = node at hnode hcurrent
  subst hcurrent
  have hseen := (mem_frontier.mp hnode).1
  rw [hsurveys.keeps.breaks_iff hseen] at hbreaks
  have hleast := hsurveys.top_le htop hbreaks
  refine ⟨node, hsurveys.order.pop hnode hleast, ?_, ?_⟩
  · rw [hsurveys.order.beyond_iff hleast] at hbreaks
    exact hsurveys.within.concat hbreaks
  · rw [seen_concat, hsurveys.order.frontier_concat hnode]
    refine (hsurveys.keeps.pop htop).foldl_knnVisit ?_ hef hdistinct hreports
      (fun _ => hsurveys.order.reachable) _ ?_
    · exact fun other hother => (mem_frontier.mp (Finset.mem_of_mem_erase hother)).1
    · exact fun link hlink => (hsurveys.order.reachable hseen).tail hlink

/-- The search returns the `ef` closest of the elements it pops. -/
theorem searchBaseLayerST_spec (hef : 0 < ef)
    (hdistinct : Distinct index.getLinklist0 (index.dist query) entry)
    (hreports : ∀ id, index.Reachable entry id → index.reports id = true)
    {lists : VisitedListPool} {held : Set Nat} (hsound : lists.Sound held) :
    ∃ popped chosen, Windowed index.getLinklist0 (index.dist query) entry ef popped ∧
      SmallestBy (index.dist query) ef ↑popped chosen ∧
      elems (index.searchBaseLayerST query entry ef lists : Q _ × VisitedListPool).1 =
        chosen.map (index.neighbor query) := by
  have hstart : index.Surveys query entry ef (index.knnStart query
      (lists.getFreeVisitedList.2.memory lists.getFreeVisitedList.1) entry : KnnSearch Q D) [] :=
    knnStart_surveys hef hsound.getFreeVisitedList.2.2.1
      (hreports entry Relation.ReflTransGen.refl)
  have hfinal := Loop.run_invariant (index.knnStep_decreases query ef)
    (motive := fun search : KnnSearch Q D => ∃ popped, index.Surveys query entry ef search popped)
    (fun search after ⟨_, hsurveys⟩ hstep =>
      (hsurveys.step hef hdistinct hreports hstep).imp' _ fun _ hafter => hafter)
    _ ⟨[], hstart⟩
  have hdone := Loop.run_done (index.knnStep_decreases query ef) (index.knnStart query
    (lists.getFreeVisitedList.2.memory lists.getFreeVisitedList.1) entry : KnnSearch Q D)
  obtain ⟨popped, hsurveys⟩ := hfinal
  have hwindow := hsurveys.windowed hdone
  obtain ⟨chosen, hchosen, helems⟩ := closest_ids hsurveys.keeps.closest
  exact ⟨popped, chosen, hwindow, hwindow.smallest hchosen, helems⟩

theorem dropFarthest_smallest (k : Nat) (topCandidates : Q (Prod.fst : D × Nat → D)) :
    SmallestBy Prod.fst k (elems topCandidates) (elems (dropFarthest k topCandidates)) := by
  have hstep : ∀ queue after : Q (Prod.fst : D × Nat → D),
      (if k < size queue then some (pop queue) else none) = some after →
        k < size queue ∧ size queue = size after + 1 ∧
          SmallestBy Prod.fst (size after) (elems queue) (elems after) := by
    intro queue after hafter
    simp only [Option.ite_none_right_eq_some, Option.some.injEq] at hafter
    obtain ⟨hlt, rfl⟩ := hafter
    have hpos : 0 < (elems queue).card := Nat.zero_lt_of_lt hlt
    obtain ⟨found, hfound⟩ := Multiset.card_pos_iff_exists_mem.mp hpos
    obtain ⟨farthest, htop⟩ := exists_top_of_mem hfound
    exact ⟨hlt, size_pop htop, smallestBy_pop htop⟩
  have hdecreases : Loop.Decreases size (fun queue : Q (Prod.fst : D × Nat → D) =>
      if k < size queue then some (pop queue) else none) := by
    intro queue after hafter
    have hsize := (hstep queue after hafter).2.1
    omega
  have hdone := Loop.run_done hdecreases topCandidates
  have hfinal := Loop.run_invariant hdecreases
    (motive := fun queue =>
      SmallestBy Prod.fst (max k (size queue)) (elems topCandidates) (elems queue))
    (by
      intro queue after hinv hafter
      obtain ⟨hlt, hsize, hpop⟩ := hstep queue after hafter
      rw [Nat.max_eq_right hlt.le] at hinv
      rw [Nat.max_eq_right (by omega)]
      exact hinv.trans hpop (by omega))
    topCandidates (SmallestBy.self (Nat.le_max_right _ _))
  simp only [ite_eq_right_iff, reduceCtorEq, imp_false, not_lt] at hdone
  rw [Nat.max_eq_left hdone] at hfinal
  exact hfinal

/-- `searchKnn` returns the `k` closest of the elements that a search with its window pops. -/
theorem searchKnn_spec (hcount : 0 < index.curElementCount)
    (hdistinct : Distinct index.getLinklist0 (index.dist query) (index.baseLayerEntry query))
    (hreports : ∀ id, index.Reachable (index.baseLayerEntry query) id → index.reports id = true)
    (k : Nat) {lists : VisitedListPool} {held : Set Nat} (hsound : lists.Sound held) :
    ∃ popped chosen,
      Windowed index.getLinklist0 (index.dist query) (index.baseLayerEntry query)
        (max Hnsw.ef k) popped ∧
      SmallestBy (index.dist query) k ↑popped chosen ∧
      elems (index.searchKnn query k lists : Q _ × VisitedListPool).1 =
        chosen.map fun id => (index.dist query id, index.getExternalLabel id) := by
  have hpos : 0 < max Hnsw.ef k := Nat.lt_of_lt_of_le (by decide) (Nat.le_max_left _ _)
  obtain ⟨popped, chosen, hwindow, hchosen, helems⟩ :=
    searchBaseLayerST_spec (Q := Q) hpos hdistinct hreports hsound
  generalize hfound : (index.searchBaseLayerST query (index.baseLayerEntry query) (max Hnsw.ef k)
    lists : Q (Prod.fst : D × Nat → D) × VisitedListPool) = found at helems
  have hdropped := dropFarthest_smallest k found.1
  rw [helems] at hdropped
  obtain ⟨fewer, hfewer, hids⟩ := closest_ids hdropped
  refine ⟨popped, fewer, hwindow, hchosen.trans hfewer (Nat.le_max_right _ _), ?_⟩
  rw [searchKnn, if_neg (by omega)]
  simp only [hfound, elems_pushAll, elems_empty, zero_add, ← Multiset.map_coe, coe_drain]
  rw [hids, Multiset.map_map]
  rfl

end Surveys

end HierarchicalNSW

end VBase.Hnsw
