import VBase.Foundation.Loop
import Mathlib.Data.Finset.Card
import Mathlib.Data.Finset.Image
import Mathlib.Data.List.Pairwise

/-! # Ordered maps with a bounded size

An ordered map lists its entries by strictly ascending keys, and an assignment to a key
that it has replaces the value. A map that is cut back to a number of entries after
every assignment ends as the first entries of the map that is never cut.

A list with one element for every key, in ascending order, need not start with the
smallest elements: elements that share their key are represented by one of them.
-/

variable {K V : Type*} [LinearOrder K]

/-- The entries of a map, by strictly ascending keys. -/
structure OrderedMap (K V : Type*) [LinearOrder K] where
  entries : List (K × V)
  sorted : entries.Pairwise fun first second => first.1 < second.1

namespace OrderedMap

def empty : OrderedMap K V := ⟨[], List.Pairwise.nil⟩

def size (map : OrderedMap K V) : Nat := map.entries.length

/-- The assignment to a key in a list of entries. -/
def assign (key : K) (value : V) : List (K × V) → List (K × V)
  | [] => [(key, value)]
  | entry :: rest =>
      if key < entry.1 then (key, value) :: entry :: rest
      else if key = entry.1 then (key, value) :: rest
      else entry :: assign key value rest

theorem mem_of_mem_assign {key : K} {value : V} {entries : List (K × V)} {entry : K × V}
    (hmem : entry ∈ assign key value entries) : entry = (key, value) ∨ entry ∈ entries := by
  induction entries with
  | nil => simpa [assign] using hmem
  | cons head rest ih =>
      rw [assign] at hmem
      split_ifs at hmem with hlt heq
      · exact List.mem_cons.mp hmem
      · rcases List.mem_cons.mp hmem with hnew | hrest
        · exact Or.inl hnew
        · exact Or.inr (List.mem_cons_of_mem _ hrest)
      · rcases List.mem_cons.mp hmem with hhead | hrest
        · exact Or.inr (hhead ▸ List.mem_cons_self)
        · exact (ih hrest).imp_right (List.mem_cons_of_mem _)

theorem mem_keys_assign {key other : K} {value : V} {entries : List (K × V)} :
    other ∈ (assign key value entries).map Prod.fst ↔
      other = key ∨ other ∈ entries.map Prod.fst := by
  induction entries with
  | nil => simp [assign]
  | cons head rest ih =>
      rw [assign]
      split_ifs with hlt heq
      · simp
      · simp [heq]
      · rw [List.map_cons, List.mem_cons, ih, List.map_cons, List.mem_cons]
        exact or_left_comm

theorem pairwise_assign (key : K) (value : V) {entries : List (K × V)}
    (hsorted : entries.Pairwise fun first second => first.1 < second.1) :
    (assign key value entries).Pairwise fun first second => first.1 < second.1 := by
  induction entries with
  | nil => simp [assign]
  | cons head rest ih =>
      obtain ⟨hhead, hrest⟩ := List.pairwise_cons.mp hsorted
      rw [assign]
      split_ifs with hlt heq
      · refine hsorted.cons ?_
        intro entry hentry
        rcases List.mem_cons.mp hentry with hfirst | hlater
        · exact hfirst ▸ hlt
        · exact hlt.trans (hhead entry hlater)
      · refine hrest.cons ?_
        intro entry hentry
        exact heq ▸ hhead entry hentry
      · refine (ih hrest).cons ?_
        intro entry hentry
        rcases mem_of_mem_assign hentry with hnew | hold
        · exact hnew ▸ lt_of_le_of_ne (not_lt.mp hlt) (Ne.symm heq)
        · exact hhead entry hold

/-- The assignment `map[key] = value`. -/
def insert (map : OrderedMap K V) (key : K) (value : V) : OrderedMap K V where
  entries := assign key value map.entries
  sorted := pairwise_assign key value map.sorted

def eraseLast (map : OrderedMap K V) : OrderedMap K V where
  entries := map.entries.dropLast
  sorted := map.sorted.sublist (List.dropLast_sublist _)

/-- One round of the loop that erases the last entry while there are more than `count`. -/
def cutStep (count : Nat) (map : OrderedMap K V) : Option (OrderedMap K V) :=
  if count < map.size then some map.eraseLast else none

def cut (count : Nat) (map : OrderedMap K V) : OrderedMap K V := Loop.run size (cutStep count) map

/-- All assignments of a list, with the map cut back after each. -/
def collect (count : Nat) (items : List (K × V)) : OrderedMap K V :=
  items.foldl (fun map item => (map.insert item.1 item.2).cut count) empty

/-! ## What is collected -/

theorem cutStep_decreases (count : Nat) :
    Loop.Decreases (size (K := K) (V := V)) (cutStep count) := by
  intro map next hstep
  rw [cutStep] at hstep
  split_ifs at hstep with hlt
  obtain rfl := Option.some.inj hstep
  simp only [size, eraseLast, List.length_dropLast] at hlt ⊢
  omega

theorem entries_cut (count : Nat) (map : OrderedMap K V) :
    (map.cut count).entries = map.entries.take count := by
  unfold cut
  refine Loop.run_induction (cutStep_decreases count)
    (motive := fun map =>
      (Loop.run size (cutStep count) map).entries = map.entries.take count) ?_ ?_ map
  · intro map hstop
    rw [Loop.run_of_none hstop, List.take_of_length_le]
    rw [cutStep] at hstop
    split_ifs at hstop with hlt
    exact not_lt.mp hlt
  · intro map next hstep ih
    rw [Loop.run_of_some (cutStep_decreases count) hstep, ih]
    rw [cutStep] at hstep
    split_ifs at hstep with hlt
    obtain rfl := Option.some.inj hstep
    have hlast : map.eraseLast.entries = map.entries.take (map.size - 1) :=
      List.dropLast_eq_take
    rw [hlast, List.take_take, Nat.min_eq_left (Nat.le_sub_one_of_lt hlt)]

/-- What was cut off does not matter to what an assignment leaves. -/
theorem take_assign_take (count : Nat) (key : K) (value : V) (entries : List (K × V)) :
    (assign key value (entries.take count)).take count = (assign key value entries).take count := by
  induction entries generalizing count with
  | nil => rw [List.take_nil]
  | cons entry rest ih =>
      cases count with
      | zero => rfl
      | succ count =>
          rw [List.take_succ_cons, assign, assign]
          split_ifs with hlt heq
          · cases count with
            | zero => rfl
            | succ count => simp [List.take_take]
          · simp [List.take_take]
          · rw [List.take_succ_cons, List.take_succ_cons, ih]

/-- The map that is never cut. -/
def assignAll (items : List (K × V)) : OrderedMap K V :=
  items.foldl (fun map item => map.insert item.1 item.2) empty

theorem entries_collect (count : Nat) (items : List (K × V)) :
    (collect count items).entries = (assignAll items).entries.take count := by
  suffices hgeneral : ∀ bounded whole : OrderedMap K V,
      bounded.entries = whole.entries.take count →
      (items.foldl (fun map item => (map.insert item.1 item.2).cut count) bounded).entries =
        (items.foldl (fun map item => map.insert item.1 item.2) whole).entries.take count from
    hgeneral empty empty List.take_nil.symm
  induction items with
  | nil => exact fun _ _ hsame => hsame
  | cons item rest ih =>
      intro bounded whole hsame
      apply ih
      rw [entries_cut]
      change (assign item.1 item.2 bounded.entries).take count = _
      rw [hsame, take_assign_take]
      rfl

theorem mem_of_mem_assignAll {items : List (K × V)} {entry : K × V}
    (hmem : entry ∈ (assignAll items).entries) : entry ∈ items := by
  induction items using List.reverseRecOn with
  | nil => exact hmem
  | append_singleton items item ih =>
      rw [assignAll, List.foldl_append] at hmem
      rcases mem_of_mem_assign hmem with hnew | hold
      · simp [hnew]
      · exact List.mem_append_left _ (ih hold)

theorem mem_keys_assignAll {items : List (K × V)} {key : K} :
    key ∈ (assignAll items).entries.map Prod.fst ↔ key ∈ items.map Prod.fst := by
  induction items using List.reverseRecOn with
  | nil => rfl
  | append_singleton items item ih =>
      rw [assignAll, List.foldl_append]
      refine mem_keys_assign.trans ?_
      rw [List.map_append, List.mem_append, ← ih, or_comm]
      simp [assignAll]

end OrderedMap

/-! ## One element for every key -/

section OnePerKey

variable {α : Type*}

/-- The list has one element of `all` for every key, by ascending keys. -/
structure OnePerKey (key : α → K) (all : Finset α) (listed : List α) : Prop where
  sorted : listed.Pairwise fun first second => key first < key second
  mem_all : ∀ item ∈ listed, item ∈ all
  exists_key : ∀ item ∈ all, ∃ other ∈ listed, key other = key item

namespace OnePerKey

variable {key : α → K} {all : Finset α} {listed : List α}

theorem image_eq (hone : OnePerKey key all listed) :
    (listed.map key).toFinset = all.image key := by
  ext value
  simp only [List.mem_toFinset, List.mem_map, Finset.mem_image]
  constructor
  · intro ⟨item, hitem, hvalue⟩
    exact ⟨item, hone.mem_all item hitem, hvalue⟩
  · intro ⟨item, hitem, hvalue⟩
    obtain ⟨other, hother, hkey⟩ := hone.exists_key item hitem
    exact ⟨other, hother, hkey.trans hvalue⟩

theorem nodup_keys (hone : OnePerKey key all listed) : (listed.map key).Nodup :=
  (List.pairwise_map.mpr hone.sorted).imp fun hlt => hlt.ne

theorem length_eq (hone : OnePerKey key all listed) : listed.length = (all.image key).card := by
  rw [← hone.image_eq, List.toFinset_card_of_nodup hone.nodup_keys, List.length_map]

/-- The first elements are closed under smaller keys. -/
theorem mem_take_of_lt (hone : OnePerKey key all listed) {count : Nat} {low high : α}
    (hlow : low ∈ listed) (hhigh : high ∈ listed.take count) (hlt : key low < key high) :
    low ∈ listed.take count := by
  have hsorted := hone.sorted
  rw [← List.take_append_drop count listed] at hlow hsorted
  refine (List.mem_append.mp hlow).resolve_right fun hdrop => ?_
  exact hlt.not_gt ((List.pairwise_append.mp hsorted).2.2 high hhigh low hdrop)

/-- The first `count` elements are as many as there can be, and none that is left out has a
smaller key than one of them. -/
def Exact (key : α → K) (count : Nat) (all : Finset α) (chosen : List α) : Prop :=
  chosen.length = min count all.card ∧
    ∀ out ∈ all, out ∉ chosen → ∀ item ∈ chosen, key item ≤ key out

/-- Two elements with one key are not both listed. -/
theorem exists_not_mem (hone : OnePerKey key all listed) {first second : α} (hfirst : first ∈ all)
    (hsecond : second ∈ all) (hne : first ≠ second) (hkey : key first = key second) :
    ∃ out ∈ all, out ∉ listed ∧ key out = key first := by
  by_cases hlisted : first ∈ listed
  · refine ⟨second, hsecond, fun hmem => hne ?_, hkey.symm⟩
    exact List.inj_on_of_nodup_map hone.nodup_keys hlisted hmem hkey
  · exact ⟨first, hfirst, hlisted, rfl⟩

theorem length_take_lt (hone : OnePerKey key all listed) {out : α} (hout : out ∈ all)
    (hlisted : out ∉ listed) (count : Nat) : (listed.take count).length < all.card := by
  classical
  have hnodup : listed.Nodup := List.Nodup.of_map key hone.nodup_keys
  have hlt : listed.toFinset.card < all.card := by
    apply Finset.card_lt_card
    rw [Finset.ssubset_iff_of_subset fun item hitem => hone.mem_all item (by simpa using hitem)]
    exact ⟨out, hout, by simpa using hlisted⟩
  rw [List.toFinset_card_of_nodup hnodup] at hlt
  exact Nat.lt_of_le_of_lt (List.length_take_le' count listed) hlt

/-- The keys that the list starts with. -/
theorem card_keys_take (hone : OnePerKey key all listed) (count : Nat) :
    ((listed.take count).map key).toFinset.card = (listed.take count).length := by
  have hnodup : ((listed.take count).map key).Nodup :=
    hone.nodup_keys.sublist ((List.take_sublist count listed).map key)
  rw [List.toFinset_card_of_nodup hnodup, List.length_map]

theorem exact_shared (hone : OnePerKey key all listed) {count : Nat}
    (hexact : Exact key count all (listed.take count)) {out : α} (hout : out ∈ all)
    (hlisted : out ∉ listed) : count ≤ ((all.image key).filter (· < key out)).card + 1 := by
  obtain ⟨hlength, hleast⟩ := hexact
  have hlt := hone.length_take_lt hout hlisted count
  have hcount : (listed.take count).length = count := by omega
  rw [← hcount, ← hone.card_keys_take]
  refine le_trans (Finset.card_le_card ?_) (Finset.card_insert_le (key out) _)
  intro value hvalue
  obtain ⟨item, hitem, rfl⟩ := List.mem_map.mp (List.mem_toFinset.mp hvalue)
  have hmem : item ∈ listed := List.mem_of_mem_take hitem
  have hle := hleast out hout (fun htake => hlisted (List.mem_of_mem_take htake)) item hitem
  rcases hle.eq_or_lt with heq | hless
  · exact heq ▸ Finset.mem_insert_self _ _
  · apply Finset.mem_insert_of_mem
    exact Finset.mem_filter.mpr
      ⟨Finset.mem_image_of_mem key (hone.mem_all item hmem), hless⟩

theorem length_take_of_shared (hone : OnePerKey key all listed) {count : Nat}
    (hshared : ∀ first ∈ all, ∀ second ∈ all, first ≠ second → key first = key second →
      count ≤ ((all.image key).filter (· < key first)).card + 1) :
    (listed.take count).length = min count all.card := by
  rw [List.length_take, hone.length_eq]
  by_cases hinj : Set.InjOn key all
  · rw [Finset.card_image_of_injOn hinj]
  · -- a shared key comes behind `count - 1` others, so there are keys enough
    simp only [Set.InjOn, Finset.mem_coe, not_forall] at hinj
    obtain ⟨first, hfirst, second, hsecond, hkey, hne⟩ := hinj
    have hcount := hshared first hfirst second hsecond hne hkey
    have hless : ((all.image key).filter (· < key first)).card < (all.image key).card := by
      apply Finset.card_lt_card
      apply Finset.filter_ssubset.mpr
      exact ⟨key first, Finset.mem_image_of_mem key hfirst, lt_irrefl _⟩
    have himage : (all.image key).card ≤ all.card := Finset.card_image_le
    omega

theorem le_of_shared (hone : OnePerKey key all listed) {count : Nat}
    (hshared : ∀ first ∈ all, ∀ second ∈ all, first ≠ second → key first = key second →
      count ≤ ((all.image key).filter (· < key first)).card + 1)
    {out item : α} (hout : out ∈ all) (htake : out ∉ listed.take count)
    (hitem : item ∈ listed.take count) : key item ≤ key out := by
  by_contra hle
  have hlt : key out < key item := not_le.mp hle
  obtain ⟨other, hother, hkey⟩ := hone.exists_key out hout
  have htaken := hone.mem_take_of_lt hother hitem (hkey ▸ hlt)
  have hne : out ≠ other := fun heq => htake (heq ▸ htaken)
  have hcount := hshared out hout other (hone.mem_all other hother) hne hkey.symm
  -- the keys below the shared one, that key and the key of `item` are all among the first
  have hsubset : insert (key item) (insert (key out) ((all.image key).filter (· < key out))) ⊆
      ((listed.take count).map key).toFinset := by
    intro value hvalue
    rw [List.mem_toFinset, List.mem_map]
    rcases Finset.mem_insert.mp hvalue with rfl | hvalue
    · exact ⟨item, hitem, rfl⟩
    rcases Finset.mem_insert.mp hvalue with rfl | hvalue
    · exact ⟨other, htaken, hkey⟩
    obtain ⟨himage, hless⟩ := Finset.mem_filter.mp hvalue
    rw [← hone.image_eq, List.mem_toFinset, List.mem_map] at himage
    obtain ⟨low, hlow, rfl⟩ := himage
    exact ⟨low, hone.mem_take_of_lt hlow hitem (hless.trans hlt), rfl⟩
  have hcard := Finset.card_le_card hsubset
  have hnot : key item ∉ insert (key out) ((all.image key).filter (· < key out)) := by
    simp [hlt.ne', hlt.le]
  rw [hone.card_keys_take, Finset.card_insert_of_notMem hnot,
    Finset.card_insert_of_notMem (by simp)] at hcard
  have hlength := List.length_take_le count listed
  omega

/-- The start of the list is a selection of the smallest elements exactly when a key that two
elements share comes late enough. -/
theorem exact_take_iff (hone : OnePerKey key all listed) (count : Nat) :
    Exact key count all (listed.take count) ↔
      ∀ first ∈ all, ∀ second ∈ all, first ≠ second → key first = key second →
        count ≤ ((all.image key).filter (· < key first)).card + 1 := by
  constructor
  · intro hexact first hfirst second hsecond hne hkey
    obtain ⟨out, hout, hlisted, hsame⟩ := hone.exists_not_mem hfirst hsecond hne hkey
    rw [← hsame]
    exact hone.exact_shared hexact hout hlisted
  · intro hshared
    exact ⟨hone.length_take_of_shared hshared,
      fun out hout htake item hitem => hone.le_of_shared hshared hout htake hitem⟩

end OnePerKey

/-- A bounded map from keys to elements starts a list with one element for every key. -/
theorem OrderedMap.collect_onePerKey [DecidableEq α] (key : α → K) (count : Nat) (items : List α) :
    ∃ listed, OnePerKey key items.toFinset listed ∧
      (collect count (items.map fun item => (key item, item))).entries.map Prod.snd =
        listed.take count := by
  have hentry : ∀ entry ∈ (assignAll (items.map fun item => (key item, item))).entries,
      entry.1 = key entry.2 ∧ entry.2 ∈ items := by
    intro entry hmem
    obtain ⟨item, hitem, rfl⟩ := List.mem_map.mp (mem_of_mem_assignAll hmem)
    exact ⟨rfl, hitem⟩
  refine ⟨(assignAll (items.map fun item => (key item, item))).entries.map Prod.snd, ?_, ?_⟩
  · refine ⟨?_, ?_, ?_⟩
    · apply List.pairwise_map.mpr
      refine (OrderedMap.sorted _).imp_of_mem ?_
      intro first second hfirst hsecond hlt
      rwa [(hentry first hfirst).1, (hentry second hsecond).1] at hlt
    · intro item hitem
      obtain ⟨entry, hmem, rfl⟩ := List.mem_map.mp hitem
      exact List.mem_toFinset.mpr (hentry entry hmem).2
    · intro item hitem
      have hkey : key item ∈ (items.map fun item => (key item, item)).map Prod.fst := by
        rw [List.map_map]
        exact List.mem_map_of_mem (f := Prod.fst ∘ fun item => (key item, item))
          (List.mem_toFinset.mp hitem)
      obtain ⟨entry, hmem, hfst⟩ := List.mem_map.mp (mem_keys_assignAll.mpr hkey)
      refine ⟨entry.2, List.mem_map_of_mem hmem, ?_⟩
      rw [← (hentry entry hmem).1, hfst]
  · rw [entries_collect, List.map_take]

end OnePerKey
