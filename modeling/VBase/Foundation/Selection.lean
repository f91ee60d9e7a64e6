import Mathlib.Data.Multiset.Sort
import Mathlib.Algebra.Order.Group.Multiset

/-! # Selecting the smallest elements

Elements are compared by a key in a linear order. `SmallestBy key count all chosen`
says that `chosen` are `count` smallest elements of `all`, or all of them when
there are fewer. Elements with equal keys may be chosen in any way, but the keys
of the chosen elements are determined.
-/

variable {α K : Type*} [LinearOrder K]

/-- `first` may stand before `second` in ascending order. -/
def AscendingBy (key : α → K) (first second : α) : Prop := key first ≤ key second

/-- `first` may stand before `second` in descending order. -/
def DescendingBy (key : α → K) (first second : α) : Prop := key second ≤ key first

instance (key : α → K) : DecidableRel (AscendingBy key) :=
  fun first second => inferInstanceAs (Decidable (key first ≤ key second))

instance (key : α → K) : DecidableRel (DescendingBy key) :=
  fun first second => inferInstanceAs (Decidable (key second ≤ key first))

instance (key : α → K) : IsTrans α (AscendingBy key) :=
  ⟨fun _ _ _ hfirst hsecond => le_trans hfirst hsecond⟩

instance (key : α → K) : IsTrans α (DescendingBy key) :=
  ⟨fun _ _ _ hfirst hsecond => le_trans hsecond hfirst⟩

instance (key : α → K) : Std.Total (AscendingBy key) :=
  ⟨fun first second => le_total (key first) (key second)⟩

instance (key : α → K) : Std.Total (DescendingBy key) :=
  ⟨fun first second => le_total (key second) (key first)⟩

/-- `chosen` are `count` smallest elements of `all` by `key`. -/
def SmallestBy (key : α → K) (count : Nat) (all chosen : Multiset α) : Prop :=
  ∃ rest, all = chosen + rest ∧ chosen.card = min count all.card ∧
    ∀ low ∈ chosen, ∀ high ∈ rest, key low ≤ key high

namespace SmallestBy

variable {key : α → K} {count : Nat} {all chosen : Multiset α}

theorem self (hcard : all.card ≤ count) : SmallestBy key count all all :=
  ⟨0, by simp, by omega, by simp⟩

theorem card_eq (hsmall : SmallestBy key count all chosen) :
    chosen.card = min count all.card := by
  obtain ⟨_, _, hcard, _⟩ := hsmall
  exact hcard

theorem mem_of_mem (hsmall : SmallestBy key count all chosen) {item : α}
    (hitem : item ∈ chosen) : item ∈ all := by
  obtain ⟨rest, rfl, _, _⟩ := hsmall
  exact Multiset.mem_add.mpr (Or.inl hitem)

theorem eq_of_card_le (hsmall : SmallestBy key count all chosen) (hall : all.card ≤ count) :
    chosen = all := by
  obtain ⟨rest, rfl, hcard, _⟩ := hsmall
  rw [Multiset.card_add] at hcard hall
  have hrest : rest.card = 0 := by omega
  rw [Multiset.card_eq_zero.mp hrest, add_zero]

/-- While there is room, everything is kept. -/
theorem eq_of_room (hsmall : SmallestBy key count all chosen) (hroom : chosen.card < count) :
    chosen = all := by
  have hcard := hsmall.card_eq
  exact hsmall.eq_of_card_le (by omega)

theorem cons_of_room (hsmall : SmallestBy key count all chosen) (hroom : chosen.card < count)
    (item : α) : SmallestBy key count (item ::ₘ all) (item ::ₘ chosen) := by
  have heq := hsmall.eq_of_room hroom
  subst heq
  exact self (by rw [Multiset.card_cons]; omega)

/-- New elements that are no smaller than the chosen ones change nothing. -/
theorem add_of_le (hsmall : SmallestBy key count all chosen) (hfull : chosen.card = count)
    {more : Multiset α} (hmore : ∀ low ∈ chosen, ∀ high ∈ more, key low ≤ key high) :
    SmallestBy key count (all + more) chosen := by
  obtain ⟨rest, rfl, hcard, hrest⟩ := hsmall
  refine ⟨rest + more, add_assoc _ _ _, ?_, ?_⟩
  · simp only [Multiset.card_add] at hcard ⊢
    omega
  · intro low hlow high hhigh
    rcases Multiset.mem_add.mp hhigh with hmem | hmem
    · exact hrest low hlow high hmem
    · exact hmore low hlow high hmem

theorem cons_of_le (hsmall : SmallestBy key count all chosen) (hfull : chosen.card = count)
    {item : α} (hitem : ∀ low ∈ chosen, key low ≤ key item) :
    SmallestBy key count (item ::ₘ all) chosen := by
  have hadd : SmallestBy key count (all + {item}) chosen :=
    hsmall.add_of_le hfull (by simpa using hitem)
  rwa [add_comm, Multiset.singleton_add] at hadd

/-- A new element takes the place of the greatest chosen one. -/
theorem cons_replace {greatest item : α}
    (hsmall : SmallestBy key count all (greatest ::ₘ chosen))
    (hfull : chosen.card + 1 = count)
    (hgreatest : ∀ low ∈ chosen, key low ≤ key greatest) (hitem : key item ≤ key greatest) :
    SmallestBy key count (item ::ₘ all) (item ::ₘ chosen) := by
  obtain ⟨rest, rfl, hcard, hrest⟩ := hsmall
  refine ⟨greatest ::ₘ rest, ?_, ?_, ?_⟩
  · simp only [Multiset.cons_add, Multiset.add_cons]
    rw [Multiset.cons_swap]
  · simp only [Multiset.card_cons, Multiset.card_add] at hcard ⊢
    omega
  · intro low hlow high hhigh
    rcases Multiset.mem_cons.mp hlow with rfl | hlow
    · rcases Multiset.mem_cons.mp hhigh with rfl | hhigh
      · exact hitem
      · exact hitem.trans (hrest greatest (Multiset.mem_cons_self _ _) high hhigh)
    · rcases Multiset.mem_cons.mp hhigh with rfl | hhigh
      · exact hgreatest low hlow
      · exact hrest low (Multiset.mem_cons_of_mem hlow) high hhigh

/-- Selecting from a selection. -/
theorem trans {fewer : Nat} {final : Multiset α} (hsmall : SmallestBy key count all chosen)
    (hfinal : SmallestBy key fewer chosen final) (hle : fewer ≤ count) :
    SmallestBy key fewer all final := by
  obtain ⟨rest, rfl, hcard, hrest⟩ := hsmall
  obtain ⟨left, rfl, hcard', hleft⟩ := hfinal
  refine ⟨left + rest, add_assoc _ _ _, ?_, ?_⟩
  · simp only [Multiset.card_add] at hcard hcard' ⊢
    omega
  · intro low hlow high hhigh
    rcases Multiset.mem_add.mp hhigh with hmem | hmem
    · exact hleft low hlow high hmem
    · exact hrest low (Multiset.mem_add.mpr (Or.inl hlow)) high hmem

/-- A prefix of a sorted list is a selection of its smallest elements. -/
theorem take {items : List α} (hsorted : items.Pairwise (AscendingBy key)) (count : Nat) :
    SmallestBy key count ↑items ↑(items.take count) := by
  refine ⟨↑(items.drop count), ?_, ?_, ?_⟩
  · rw [Multiset.coe_add, List.take_append_drop]
  · simp
  · intro low hlow high hhigh
    rw [← List.take_append_drop count items, List.pairwise_append] at hsorted
    exact hsorted.2.2 low hlow high hhigh

/-- The selected keys, in order, are the first of all keys in order. -/
theorem sort_keys (hsmall : SmallestBy key count all chosen) :
    (chosen.map key).sort = ((all.map key).sort).take count := by
  obtain ⟨rest, rfl, hcard, hrest⟩ := hsmall
  have hsplit : ((chosen + rest).map key).sort =
      (chosen.map key).sort ++ (rest.map key).sort := by
    apply List.Perm.eq_of_pairwise' (Multiset.pairwise_sort _ _)
    · refine List.pairwise_append.mpr
        ⟨Multiset.pairwise_sort _ _, Multiset.pairwise_sort _ _, ?_⟩
      intro low hlow high hhigh
      obtain ⟨first, hfirst, rfl⟩ := Multiset.mem_map.mp ((Multiset.mem_sort _).mp hlow)
      obtain ⟨second, hsecond, rfl⟩ := Multiset.mem_map.mp ((Multiset.mem_sort _).mp hhigh)
      exact hrest first hfirst second hsecond
    · rw [← Multiset.coe_eq_coe, ← Multiset.coe_add]
      simp
  rw [hsplit]
  rw [Multiset.card_add] at hcard
  rcases Nat.le_total count chosen.card with hle | hle
  · rw [List.take_append_of_le_length (by simpa using hle), List.take_of_length_le]
    simp only [Multiset.length_sort, Multiset.card_map]
    omega
  · have hempty : rest = 0 ∨ chosen.card = count := by
      rcases Nat.lt_or_ge chosen.card count with hlt | hge
      · exact Or.inl (Multiset.card_eq_zero.mp (by omega))
      · exact Or.inr (le_antisymm hle hge)
    rcases hempty with rfl | heq
    · rw [List.take_of_length_le] <;> simp [hle]
    · rw [List.take_append_of_le_length (by simp [heq]), List.take_of_length_le]
      simp [heq]

/-- Exactly when a selection survives the arrival of more elements. -/
theorem add_iff (hsmall : SmallestBy key count all chosen) {more : Multiset α} :
    SmallestBy key count (all + more) chosen ↔
      more = 0 ∨ (count ≤ all.card ∧ ∀ low ∈ chosen, ∀ high ∈ more, key low ≤ key high) := by
  constructor
  · rintro ⟨rest', hall, hcard', hrest'⟩
    by_cases hmore : more = 0
    · exact Or.inl hmore
    refine Or.inr ⟨?_, ?_⟩
    · have hpos := Multiset.card_pos.mpr hmore
      have hcard := hsmall.card_eq
      rw [Multiset.card_add] at hcard'
      omega
    · obtain ⟨rest, rfl, _, _⟩ := hsmall
      rw [add_assoc] at hall
      have hrest : rest' = rest + more := (add_left_cancel hall).symm
      intro low hlow high hhigh
      exact hrest' low hlow high (hrest ▸ Multiset.mem_add.mpr (Or.inr hhigh))
  · rintro (rfl | ⟨hle, hmore⟩)
    · rwa [add_zero]
    · refine hsmall.add_of_le ?_ hmore
      rw [hsmall.card_eq]
      omega

/-- What is closed downwards holds of all chosen elements when it holds of enough elements. -/
theorem forall_iff_countP (hsmall : SmallestBy key count all chosen) {low : K → Prop}
    [DecidablePred low] (hlow : ∀ first second, first ≤ second → low second → low first) :
    (count ≤ all.card ∧ ∀ item ∈ chosen, low (key item)) ↔
      count ≤ all.countP (fun item => low (key item)) := by
  obtain ⟨rest, rfl, hcard, hrest⟩ := hsmall
  rw [Multiset.card_add] at hcard
  rw [Multiset.countP_add]
  constructor
  · rintro ⟨hle, hall⟩
    rw [Multiset.card_add] at hle
    rw [Multiset.countP_eq_card.mpr hall]
    omega
  · intro hcount
    have hchosen := Multiset.countP_le_card (fun item => low (key item)) chosen
    have hothers := Multiset.countP_le_card (fun item => low (key item)) rest
    rw [Multiset.card_add]
    refine ⟨by omega, ?_⟩
    intro item hitem
    by_contra hhigh
    -- then nothing in the rest is low, and not all of the chosen are
    have hzero : rest.countP (fun item => low (key item)) = 0 := by
      rw [Multiset.countP_eq_zero]
      intro other hother hlt
      exact hhigh (hlow _ _ (hrest item hitem other hother) hlt)
    have hless : chosen.countP (fun item => low (key item)) < chosen.card := by
      refine lt_of_le_of_ne hchosen fun heq => hhigh ?_
      exact Multiset.countP_eq_card.mp heq item hitem
    omega

/-- A selection survives the arrival of more elements when enough of the old elements are
no greater than each of them. -/
theorem add_iff_countP (hsmall : SmallestBy key count all chosen) {more : Multiset α} :
    SmallestBy key count (all + more) chosen ↔
      ∀ high ∈ more, count ≤ all.countP (fun item => key item ≤ key high) := by
  have hiff : ∀ high, (count ≤ all.card ∧ ∀ item ∈ chosen, key item ≤ key high) ↔
      count ≤ all.countP (fun item => key item ≤ key high) :=
    fun _ => hsmall.forall_iff_countP fun _ _ hle => hle.trans
  rw [hsmall.add_iff]
  constructor
  · rintro (rfl | ⟨hle, hlow⟩) high hhigh
    · simp at hhigh
    · exact (hiff high).mp ⟨hle, fun low hmem => hlow low hmem high hhigh⟩
  · intro hcount
    rcases Multiset.empty_or_exists_mem more with hnone | ⟨high, hhigh⟩
    · exact Or.inl hnone
    · refine Or.inr ⟨((hiff high).mpr (hcount high hhigh)).1, ?_⟩
      intro low hlow other hother
      exact ((hiff other).mpr (hcount other hother)).2 low hlow

/-- Selecting from a selection and a new element is selecting from everything. -/
theorem cons_trans {item : α} {final : Multiset α} (hsmall : SmallestBy key count all chosen)
    (hfinal : SmallestBy key count (item ::ₘ chosen) final) :
    SmallestBy key count (item ::ₘ all) final := by
  obtain ⟨rest, rfl, hcard, hrest⟩ := hsmall
  obtain ⟨left, hsplit, hcard', hleft⟩ := hfinal
  have hcards := congrArg Multiset.card hsplit
  simp only [Multiset.card_add, Multiset.card_cons] at hcard hcard' hcards
  refine ⟨left + rest, ?_, ?_, ?_⟩
  · rw [← add_assoc, ← hsplit, Multiset.cons_add]
  · simp only [Multiset.card_add, Multiset.card_cons]
    omega
  · intro low hlow high hhigh
    rcases Multiset.mem_add.mp hhigh with hmem | hmem
    · exact hleft low hlow high hmem
    by_cases hold : low ∈ chosen
    · exact hrest low hold high hmem
    -- a new element that was taken pushed out a chosen one, which is between the two
    have hpos : 0 < rest.card := Multiset.card_pos_iff_exists_mem.mpr ⟨high, hmem⟩
    have hout : 0 < left.card := by omega
    obtain ⟨other, hother⟩ := Multiset.card_pos_iff_exists_mem.mp hout
    obtain rfl : low = item := by
      have hin : low ∈ item ::ₘ chosen := hsplit ▸ Multiset.mem_add.mpr (Or.inl hlow)
      exact (Multiset.mem_cons.mp hin).resolve_right hold
    have hchosen : other ∈ chosen := by
      obtain ⟨final', rfl⟩ := Multiset.exists_cons_of_mem hlow
      rw [Multiset.cons_add, Multiset.cons_inj_right] at hsplit
      exact hsplit ▸ Multiset.mem_add.mpr (Or.inr hother)
    exact (hleft low hlow other hother).trans (hrest other hchosen high hmem)

/-- A selection seen through a map that keeps the keys. -/
theorem map {β : Type*} {key' : β → K} (hsmall : SmallestBy key count all chosen) {f : α → β}
    (hkey : ∀ item ∈ all, key' (f item) = key item) :
    SmallestBy key' count (all.map f) (chosen.map f) := by
  obtain ⟨rest, rfl, hcard, hrest⟩ := hsmall
  refine ⟨rest.map f, Multiset.map_add f chosen rest, ?_, ?_⟩
  · rw [Multiset.card_map, Multiset.card_map, hcard]
  · intro low hlow high hhigh
    obtain ⟨first, hfirst, rfl⟩ := Multiset.mem_map.mp hlow
    obtain ⟨second, hsecond, rfl⟩ := Multiset.mem_map.mp hhigh
    rw [hkey first (Multiset.mem_add.mpr (Or.inl hfirst)),
      hkey second (Multiset.mem_add.mpr (Or.inr hsecond))]
    exact hrest first hfirst second hsecond

end SmallestBy

theorem insertionSort_eq_sort (items : List K) :
    items.insertionSort (· ≤ ·) = (items : Multiset K).sort := by
  rw [Multiset.coe_sort, List.mergeSort_eq_insertionSort]

/-- The smallest elements, listed. -/
theorem SmallestBy.eq_take {count : Nat} {items : List K} {chosen : Multiset K}
    (hsmall : SmallestBy id count ↑items chosen) :
    chosen = ↑((items.insertionSort (· ≤ ·)).take count) := by
  have hsort := hsmall.sort_keys
  rw [Multiset.map_id, Multiset.map_id, ← insertionSort_eq_sort] at hsort
  rw [← hsort, Multiset.sort_eq]

/-- A selection that is listed in ascending order starts the sorted list of all keys. -/
theorem SmallestBy.map_eq_take {key : α → K} {count : Nat} {all chosen : List α}
    (hsmall : SmallestBy key count ↑all ↑chosen) (hsorted : chosen.Pairwise (AscendingBy key)) :
    chosen.map key = ((all.map key).insertionSort (· ≤ ·)).take count := by
  have hkeys : (chosen.map key).Pairwise (· ≤ ·) := List.pairwise_map.mpr hsorted
  calc chosen.map key = (chosen.map key).insertionSort (· ≤ ·) :=
        hkeys.insertionSort_eq.symm
    _ = ((all.map key).insertionSort (· ≤ ·)).take count := by
        rw [insertionSort_eq_sort, insertionSort_eq_sort, ← Multiset.map_coe, ← Multiset.map_coe]
        exact hsmall.sort_keys

theorem smallestBy_insertionSort (count : Nat) (items : List K) :
    SmallestBy id count (↑items : Multiset K) ↑((items.insertionSort (· ≤ ·)).take count) := by
  rw [← Multiset.coe_eq_coe.mpr (List.perm_insertionSort (· ≤ ·) items)]
  exact SmallestBy.take (List.pairwise_insertionSort (· ≤ ·) items) count

/-- Entries that come after enough smaller ones do not change what a sorted list starts with. -/
theorem take_insertionSort_append {count : Nat} {items more : List K}
    (hmore : ∀ high ∈ more, count ≤ items.countP (fun item => item ≤ high)) :
    ((items ++ more).insertionSort (· ≤ ·)).take count =
      (items.insertionSort (· ≤ ·)).take count := by
  have hadd : SmallestBy id count (↑items + ↑more : Multiset K)
      ↑((items.insertionSort (· ≤ ·)).take count) :=
    (smallestBy_insertionSort count items).add_iff_countP.mpr (by simpa using hmore)
  rw [Multiset.coe_add] at hadd
  simpa using (hadd.map_eq_take (List.pairwise_insertionSort (· ≤ ·) items).take).symm

/-- The `count`-th smallest entry of a list, counted from one. -/
def nthSmallest (count : Nat) (items : List K) : Option K :=
  (items.insertionSort (· ≤ ·))[count - 1]?

/-- The greatest of the `count` smallest is the `count`-th smallest. -/
theorem SmallestBy.nthSmallest_eq {count : Nat} {items : List K} {chosen : Multiset K}
    (hsmall : SmallestBy id count ↑items chosen) (hfull : chosen.card = count)
    {greatest : K} (hmem : greatest ∈ chosen) (hgreatest : ∀ low ∈ chosen, low ≤ greatest) :
    nthSmallest count items = some greatest := by
  have hpos : 0 < count := hfull ▸ Multiset.card_pos_iff_exists_mem.mpr ⟨greatest, hmem⟩
  have hsort : chosen.sort = ((items : Multiset K).sort).take count := by
    simpa using hsmall.sort_keys
  have hlength : chosen.sort.length = count := by simp [hfull]
  have hlast : count - 1 < chosen.sort.length := by omega
  have hvalue : chosen.sort[count - 1] = greatest := by
    apply le_antisymm
    · exact hgreatest _ ((Multiset.mem_sort _).mp (List.getElem_mem hlast))
    · obtain ⟨index, hindex, hget⟩ := List.getElem_of_mem ((Multiset.mem_sort (· ≤ ·)).mpr hmem)
      rw [← hget]
      have hsorted := Multiset.pairwise_sort chosen (· ≤ ·)
      rcases Nat.lt_or_ge index (count - 1) with hlt | hge
      · exact List.pairwise_iff_getElem.mp hsorted index (count - 1) hindex hlast hlt
      · have heq : index = count - 1 := by omega
        subst heq
        exact le_rfl
  rw [nthSmallest, insertionSort_eq_sort,
    ← List.getElem?_take_of_lt (show count - 1 < count by omega), ← hsort,
    List.getElem?_eq_getElem hlast, hvalue]

theorem nthSmallest_mem {count : Nat} {items : List K} {bound : K}
    (hbound : nthSmallest count items = some bound) : bound ∈ items :=
  (List.mem_insertionSort (· ≤ ·)).mp (List.mem_of_getElem? hbound)

theorem nthSmallest_eq_none {count : Nat} {items : List K} (hlength : items.length < count) :
    nthSmallest count items = none := by
  rw [nthSmallest, List.getElem?_eq_none_iff, List.length_insertionSort]
  omega

/-- What is closed downwards holds of the `count`-th smallest when it holds of enough entries. -/
theorem nthSmallest_iff_countP {count : Nat} (hcount : 0 < count) {items : List K} {low : K → Prop}
    [DecidablePred low] (hlow : ∀ first second, first ≤ second → low second → low first) :
    (∃ bound, nthSmallest count items = some bound ∧ low bound) ↔
      count ≤ items.countP (fun item => low item) := by
  have hsorted := List.pairwise_insertionSort (· ≤ ·) items
  have hiff := (smallestBy_insertionSort count items).forall_iff_countP hlow
  rw [Multiset.coe_card, Multiset.coe_countP] at hiff
  refine Iff.trans ?_ hiff
  rw [← List.length_insertionSort (r := (· ≤ ·)) items, nthSmallest]
  generalize items.insertionSort (· ≤ ·) = sorted at hsorted
  constructor
  · rintro ⟨bound, hbound, hle⟩
    obtain ⟨hindex, rfl⟩ := List.getElem?_eq_some_iff.mp hbound
    refine ⟨by omega, ?_⟩
    intro item hitem
    obtain ⟨index, hlt, rfl⟩ := List.getElem_of_mem (Multiset.mem_coe.mp hitem)
    rw [List.length_take] at hlt
    rw [List.getElem_take]
    refine hlow _ _ ?_ hle
    rcases Nat.eq_or_lt_of_le (show index ≤ count - 1 by omega) with rfl | hless
    · exact le_rfl
    · exact List.pairwise_iff_getElem.mp hsorted index (count - 1) (by omega) hindex hless
  · rintro ⟨hle, hall⟩
    have hindex : count - 1 < sorted.length := by omega
    refine ⟨sorted[count - 1], List.getElem?_eq_getElem hindex, hall _ ?_⟩
    rw [Multiset.mem_coe, List.mem_take_iff_getElem]
    exact ⟨count - 1, by omega, rfl⟩

/-- More elements have, at every position of their sorted list, an entry that is no greater. -/
theorem take_insertionSort_le {count index : Nat} {few all : List K} (hfew : few.Subperm all)
    {value : K} (hvalue : ((few.insertionSort (· ≤ ·)).take count)[index]? = some value) :
    ∃ smaller, ((all.insertionSort (· ≤ ·)).take count)[index]? = some smaller ∧
      smaller ≤ value := by
  have hindex : index < count := by
    obtain ⟨hlt, -⟩ := List.getElem?_eq_some_iff.mp hvalue
    rw [List.length_take] at hlt
    omega
  rw [List.getElem?_take_of_lt hindex] at hvalue ⊢
  have hiff : ∀ items : List K,
      (∃ bound, nthSmallest (index + 1) items = some bound ∧ bound ≤ value) ↔
        index + 1 ≤ items.countP (fun item => item ≤ value) := fun _ =>
    nthSmallest_iff_countP (Nat.succ_pos index) fun _ _ hle => hle.trans
  exact (hiff all).mpr (Nat.le_trans ((hiff few).mp ⟨value, hvalue, le_rfl⟩)
    (hfew.countP_le _))
