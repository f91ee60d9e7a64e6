import VBase.Foundation.Selection
import Mathlib.Data.Finset.Card
import Mathlib.Logic.Relation

/-! # Best-first search

A best-first search of a directed graph keeps a frontier of seen vertices and
always pops one at the least distance. What it has seen is a function of what
it has popped, so a run is just the list of popped vertices, and every program
that runs such a search is described by the list it pops.
-/

namespace BestFirst

variable {ι D : Type*} [DecidableEq ι] [LinearOrder D]
variable (next : ι → List ι) (dist : ι → D) (start : ι)

/-- The vertices that a search has met: its start and the successors of what it popped. -/
def seen (popped : List ι) : Finset ι := insert start (popped.flatMap next).toFinset

/-- The vertices met and not yet popped. -/
def frontier (popped : List ι) : Finset ι := seen next start popped \ popped.toFinset

/-- `Order popped` says that the search may pop exactly this list. -/
inductive Order : List ι → Prop
  | init : Order []
  | pop {popped : List ι} {vertex : ι} (horder : Order popped)
      (hvertex : vertex ∈ frontier next start popped)
      (hleast : ∀ other ∈ frontier next start popped, dist vertex ≤ dist other) :
      Order (popped ++ [vertex])

variable {next dist start}

theorem mem_seen {popped : List ι} {vertex : ι} :
    vertex ∈ seen next start popped ↔
      vertex = start ∨ ∃ source ∈ popped, vertex ∈ next source := by
  simp [seen]

theorem mem_frontier {popped : List ι} {vertex : ι} :
    vertex ∈ frontier next start popped ↔
      vertex ∈ seen next start popped ∧ vertex ∉ popped := by
  simp [frontier]

@[simp] theorem seen_nil : seen next start [] = {start} := by
  simp [seen]

@[simp] theorem frontier_nil : frontier next start [] = {start} := by
  simp [frontier]

theorem seen_concat (popped : List ι) (vertex : ι) :
    seen next start (popped ++ [vertex]) =
      seen next start popped ∪ (next vertex).toFinset := by
  ext other
  simp [seen]

theorem start_mem_seen (popped : List ι) : start ∈ seen next start popped :=
  mem_seen.mpr (Or.inl rfl)

/-- The last pop of a search, recovered. -/
theorem Order.of_concat {popped : List ι} {vertex : ι}
    (horder : Order next dist start (popped ++ [vertex])) :
    Order next dist start popped ∧ vertex ∈ frontier next start popped ∧
      ∀ other ∈ frontier next start popped, dist vertex ≤ dist other := by
  generalize hlist : popped ++ [vertex] = list at horder
  cases horder with
  | init => simp at hlist
  | pop hprior hvertex hleast =>
      obtain ⟨rfl, hlast⟩ := List.append_inj' hlist rfl
      obtain rfl := List.singleton_inj.mp hlast
      exact ⟨hprior, hvertex, hleast⟩

theorem Order.subset_seen {popped : List ι} (horder : Order next dist start popped) :
    popped.toFinset ⊆ seen next start popped := by
  induction horder with
  | init => simp
  | @pop popped vertex _ hvertex _ ih =>
      intro other hother
      rw [seen_concat]
      apply Finset.mem_union_left
      rcases List.mem_append.mp (List.mem_toFinset.mp hother) with hmem | hmem
      · exact ih (List.mem_toFinset.mpr hmem)
      · rw [List.mem_singleton.mp hmem]
        exact (mem_frontier.mp hvertex).1

theorem Order.nodup {popped : List ι} (horder : Order next dist start popped) :
    popped.Nodup := by
  induction horder with
  | init => exact List.nodup_nil
  | @pop popped vertex _ hvertex _ ih =>
      refine List.nodup_append.mpr ⟨ih, List.nodup_singleton _, ?_⟩
      intro first hfirst second hsecond heq
      rw [List.mem_singleton.mp hsecond] at heq
      exact (mem_frontier.mp hvertex).2 (heq ▸ hfirst)

/-- Popping a vertex trades it for its successors that were not seen before. -/
theorem Order.frontier_concat {popped : List ι} {vertex : ι}
    (horder : Order next dist start popped) (hvertex : vertex ∈ frontier next start popped) :
    frontier next start (popped ++ [vertex]) =
      (frontier next start popped).erase vertex ∪
        ((next vertex).toFinset \ seen next start popped) := by
  have hsub := horder.subset_seen
  have hseen := (mem_frontier.mp hvertex).1
  ext other
  simp only [frontier, seen_concat, Finset.mem_sdiff, Finset.mem_union, List.mem_toFinset,
    List.mem_append, List.mem_singleton, Finset.mem_erase, not_or]
  constructor
  · rintro ⟨hin, hnot, hne⟩
    by_cases hold : other ∈ seen next start popped
    · exact Or.inl ⟨hne, hold, hnot⟩
    · exact Or.inr ⟨hin.resolve_left hold, hold⟩
  · rintro (⟨hne, hin, hnot⟩ | ⟨hlink, hnew⟩)
    · exact ⟨Or.inl hin, hnot, hne⟩
    · refine ⟨Or.inr hlink, fun hmem => hnew (hsub (List.mem_toFinset.mpr hmem)), ?_⟩
      rintro rfl
      exact hnew hseen

/-- A loop over successors that adds the new ones to what was seen and to what is queued. -/
theorem foldl_expand {σ : Type*} {visit : σ → ι → σ} {motive : σ → Finset ι → Finset ι → Prop}
    (links : List ι)
    (hold : ∀ state region queued, ∀ link ∈ links, link ∈ region →
      motive state region queued → motive (visit state link) region queued)
    (hnew : ∀ state region queued, ∀ link ∈ links, link ∉ region →
      motive state region queued →
        motive (visit state link) (insert link region) (insert link queued))
    {state : σ} {region queued : Finset ι} (hstart : motive state region queued) :
    motive (links.foldl visit state) (region ∪ links.toFinset)
      (queued ∪ (links.toFinset \ region)) := by
  induction links generalizing state region queued with
  | nil => simpa using hstart
  | cons link rest ih =>
      have hrest := @ih (fun state region queued other hother =>
          hold state region queued other (List.mem_cons_of_mem _ hother))
        (fun state region queued other hother =>
          hnew state region queued other (List.mem_cons_of_mem _ hother))
      rw [List.foldl_cons, List.toFinset_cons]
      by_cases hmem : link ∈ region
      · have hregion : region ∪ insert link rest.toFinset = region ∪ rest.toFinset := by
          rw [Finset.union_insert, Finset.insert_eq_self.mpr (Finset.mem_union_left _ hmem)]
        rw [hregion, Finset.insert_sdiff_of_mem _ hmem]
        exact hrest (hold state region queued link List.mem_cons_self hmem hstart)
      · have hafter := hrest (hnew state region queued link List.mem_cons_self hmem hstart)
        have hqueued : insert link queued ∪ (rest.toFinset \ insert link region) =
            queued ∪ (insert link rest.toFinset \ region) := by
          ext other
          simp only [Finset.mem_union, Finset.mem_insert, Finset.mem_sdiff, not_or]
          by_cases heq : other = link
          · simp [heq, hmem]
          · simp [heq]
        rw [Finset.insert_union, ← Finset.union_insert, hqueued] at hafter
        exact hafter

/-- Every vertex that a search meets is reachable. -/
theorem Order.reachable {popped : List ι} (horder : Order next dist start popped) {vertex : ι}
    (hvertex : vertex ∈ seen next start popped) :
    Relation.ReflTransGen (fun source target => target ∈ next source) start vertex := by
  induction horder generalizing vertex with
  | init =>
      rw [seen_nil, Finset.mem_singleton] at hvertex
      exact hvertex ▸ Relation.ReflTransGen.refl
  | @pop popped current _ hcurrent _ ih =>
      rw [seen_concat] at hvertex
      rcases Finset.mem_union.mp hvertex with hmem | hmem
      · exact ih hmem
      · exact (ih (mem_frontier.mp hcurrent).1).tail (List.mem_toFinset.mp hmem)

/-- A search that has run out of vertices has popped exactly the reachable ones. -/
theorem Order.mem_iff_reachable {popped : List ι} (horder : Order next dist start popped)
    (hdone : frontier next start popped = ∅) (vertex : ι) :
    vertex ∈ popped ↔
      Relation.ReflTransGen (fun source target => target ∈ next source) start vertex := by
  have hall : ∀ other ∈ seen next start popped, other ∈ popped := by
    intro other hother
    by_contra hnot
    have hmem : other ∈ frontier next start popped := mem_frontier.mpr ⟨hother, hnot⟩
    rw [hdone] at hmem
    exact Finset.notMem_empty _ hmem
  constructor
  · intro hmem
    exact horder.reachable (horder.subset_seen (List.mem_toFinset.mpr hmem))
  · intro hreach
    induction hreach with
    | refl => exact hall start (start_mem_seen popped)
    | tail _ hedge ih => exact hall _ (mem_seen.mpr (Or.inr ⟨_, ih, hedge⟩))

theorem Order.take {popped : List ι} (horder : Order next dist start popped) (count : Nat) :
    Order next dist start (popped.take count) := by
  induction horder with
  | init => simpa using Order.init
  | @pop popped vertex hprior hvertex hleast ih =>
      rcases Nat.lt_or_ge popped.length count with hlt | hge
      · rw [List.take_of_length_le (by simpa using Nat.succ_le_of_lt hlt)]
        exact hprior.pop hvertex hleast
      · rwa [List.take_append_of_le_length hge]

/-- One position of a run: the vertex there was a least one of the frontier before it. -/
theorem Order.at_index {popped : List ι} (horder : Order next dist start popped)
    {index : Nat} (hindex : index < popped.length) :
    popped[index] ∈ frontier next start (popped.take index) ∧
      ∀ other ∈ frontier next start (popped.take index), dist popped[index] ≤ dist other := by
  have htake := horder.take (index + 1)
  rw [List.take_succ_eq_append_getElem hindex] at htake
  exact htake.of_concat.2

variable (next dist start) in
/-- No two reachable vertices are at the same distance. -/
def Distinct : Prop :=
  Set.InjOn dist
    {vertex | Relation.ReflTransGen (fun source target => target ∈ next source) start vertex}

/-- Where reachable vertices have distinct distances, the search has no choice. -/
theorem Order.eq_take {first second : List ι} (hfirst : Order next dist start first)
    (hsecond : Order next dist start second) (hdistinct : Distinct next dist start)
    (hlength : first.length ≤ second.length) : first = second.take first.length := by
  induction hfirst with
  | init => simp
  | @pop popped vertex hprior hvertex hleast ih =>
      rw [List.length_append, List.length_singleton] at hlength ⊢
      have hindex : popped.length < second.length := by omega
      have heq := ih (by omega)
      obtain ⟨hmem, hother⟩ := hsecond.at_index hindex
      rw [← heq] at hmem hother
      have hsame : vertex = second[popped.length] := by
        apply hdistinct
        · exact hprior.reachable (mem_frontier.mp hvertex).1
        · exact hprior.reachable (mem_frontier.mp hmem).1
        · exact le_antisymm (hleast _ hmem) (hother _ hvertex)
      rw [List.take_succ_eq_append_getElem hindex, ← heq, hsame]

/-! ## Vertices beyond a window -/

/-- `vertex` has at least `width` strictly closer vertices in `region`. -/
def Beyond (dist : ι → D) (width : Nat) (region : Finset ι) (vertex : ι) : Prop :=
  width ≤ (region.filter (fun other => dist other < dist vertex)).card

omit [DecidableEq ι] in
theorem Beyond.mono {width : Nat} {region larger : Finset ι} {vertex : ι}
    (hbeyond : Beyond dist width region vertex) (hsub : region ⊆ larger) :
    Beyond dist width larger vertex :=
  hbeyond.trans (Finset.card_le_card (Finset.filter_subset_filter _ hsub))

omit [DecidableEq ι] in
theorem Beyond.of_le {width : Nat} {region : Finset ι} {vertex other : ι}
    (hbeyond : Beyond dist width region vertex) (hle : dist vertex ≤ dist other) :
    Beyond dist width region other := by
  refine hbeyond.trans (Finset.card_le_card ?_)
  exact Finset.monotone_filter_right region fun _ _ hlt => hlt.trans_le hle

/-- At the least vertex of the frontier, everything closer has been popped. -/
theorem Order.beyond_iff {popped : List ι} (horder : Order next dist start popped)
    {vertex : ι} (hleast : ∀ other ∈ frontier next start popped, dist vertex ≤ dist other)
    (width : Nat) :
    Beyond dist width (seen next start popped) vertex ↔
      Beyond dist width popped.toFinset vertex := by
  constructor
  · intro hbeyond
    refine hbeyond.trans (Finset.card_le_card ?_)
    intro other hother
    obtain ⟨hseen, hlt⟩ := Finset.mem_filter.mp hother
    refine Finset.mem_filter.mpr ⟨?_, hlt⟩
    by_contra hnot
    have hmem : other ∈ frontier next start popped :=
      mem_frontier.mpr ⟨hseen, fun h => hnot (List.mem_toFinset.mpr h)⟩
    exact absurd (hleast other hmem) (not_le.mpr hlt)
  · exact fun hbeyond => hbeyond.mono horder.subset_seen

/-- A vertex beyond the window is not among its smallest, since that many others come first. -/
theorem Beyond.notMem_smallest {width : Nat} {region : Finset ι} {chosen : Multiset ι}
    {vertex : ι} (hbeyond : Beyond dist width region vertex)
    (hsmall : SmallestBy dist width region.val chosen) : vertex ∉ chosen := by
  intro hvertex
  obtain ⟨rest, hregion, hcard, hle⟩ := hsmall
  have hnodup : chosen.Nodup :=
    Multiset.nodup_of_le (hregion ▸ Multiset.le_add_right chosen rest) region.nodup
  have hsubset : region.filter (fun other => dist other < dist vertex) ⊆
      (⟨chosen, hnodup⟩ : Finset ι).erase vertex := by
    intro other hother
    obtain ⟨hin, hlt⟩ := Finset.mem_filter.mp hother
    rw [← Finset.mem_val, hregion] at hin
    refine Finset.mem_erase.mpr ⟨fun heq => (heq ▸ hlt).false, ?_⟩
    rcases Multiset.mem_add.mp hin with hleft | hright
    · exact hleft
    · exact absurd (hle vertex hvertex other hright) (not_le.mpr hlt)
  have hcount := Finset.card_le_card hsubset
  rw [Finset.card_erase_of_mem hvertex] at hcount
  have hpos : 0 < chosen.card := Multiset.card_pos_iff_exists_mem.mpr ⟨vertex, hvertex⟩
  have hcard' : (⟨chosen, hnodup⟩ : Finset ι).card = chosen.card := rfl
  unfold Beyond at hbeyond
  omega

/-- Leaving vertices beyond the window out of the region changes no selection. -/
theorem smallestBy_of_beyond {width : Nat} {region kept : Finset ι} {chosen : Multiset ι}
    (hsmall : SmallestBy dist width region.val chosen) (hsub : kept ⊆ region)
    (hbeyond : ∀ vertex ∈ region, vertex ∉ kept → Beyond dist width region vertex) :
    SmallestBy dist width kept.val chosen := by
  have hchosen : ∀ vertex ∈ chosen, vertex ∈ kept := by
    intro vertex hvertex
    by_contra hnot
    exact (hbeyond vertex (hsmall.mem_of_mem hvertex) hnot).notMem_smallest hsmall hvertex
  obtain ⟨rest, hregion, hcard, hle⟩ := hsmall
  have hnodup : (chosen + rest).Nodup := hregion ▸ region.nodup
  refine ⟨rest.filter (· ∈ kept), ?_, ?_, ?_⟩
  · have hfilter : kept.val = region.val.filter (· ∈ kept) := by
      rw [← Finset.filter_val]
      congr 1
      ext vertex
      simp only [Finset.mem_filter]
      exact ⟨fun h => ⟨hsub h, h⟩, fun h => h.2⟩
    rw [hfilter, hregion, Multiset.filter_add, Multiset.filter_eq_self.mpr hchosen]
  · have hkept : chosen.card ≤ kept.val.card := by
      refine Multiset.card_le_card ((Multiset.le_iff_subset ?_).mpr hchosen)
      exact Multiset.nodup_of_le (Multiset.le_add_right chosen rest) hnodup
    have hregionCard : kept.val.card ≤ region.val.card := Finset.card_le_card hsub
    omega
  · intro low hlow high hhigh
    exact hle low hlow high (Multiset.mem_filter.mp hhigh).1

/-! ## Searches with a window -/

variable (dist) in
/-- No vertex was beyond the window of those popped before it. -/
def Within (width : Nat) (popped : List ι) : Prop :=
  ∀ index (hindex : index < popped.length),
    ¬ Beyond dist width (popped.take index).toFinset popped[index]

theorem Within.concat {width : Nat} {popped : List ι} (hwithin : Within dist width popped)
    {vertex : ι} (hvertex : ¬ Beyond dist width popped.toFinset vertex) :
    Within dist width (popped ++ [vertex]) := by
  intro index hindex
  rw [List.length_append, List.length_singleton] at hindex
  rcases Nat.eq_or_lt_of_le (Nat.le_of_lt_succ hindex) with rfl | hlt
  · rwa [List.take_left' rfl, List.getElem_concat_length rfl]
  · rw [List.take_append_of_le_length hlt.le, List.getElem_append_left hlt]
    exact hwithin index hlt

variable (next dist start) in
/-- A search that pops nothing beyond its window and leaves only what is beyond it. -/
structure Windowed (width : Nat) (popped : List ι) : Prop where
  order : Order next dist start popped
  within : Within dist width popped
  left : ∀ vertex ∈ frontier next start popped, Beyond dist width (seen next start popped) vertex

namespace Windowed

variable {width : Nat} {popped : List ι}

/-- The closest of what the search has seen are the closest of what it has popped. -/
theorem smallest (hwindow : Windowed next dist start width popped) {chosen : Multiset ι}
    (hsmall : SmallestBy dist width (seen next start popped).val chosen) :
    SmallestBy dist width ↑popped chosen := by
  have hpopped : popped.toFinset.val = ↑popped := by
    rw [List.toFinset_val, hwindow.order.nodup.dedup]
  rw [← hpopped]
  refine smallestBy_of_beyond hsmall hwindow.order.subset_seen ?_
  intro vertex hseen hnot
  refine hwindow.left vertex (mem_frontier.mpr ⟨hseen, ?_⟩)
  exact fun hmem => hnot (List.mem_toFinset.mpr hmem)

/-- A search with a window is a complete search cut short. -/
theorem eq_take (hwindow : Windowed next dist start width popped) {all : List ι}
    (hall : Order next dist start all) (hdone : frontier next start all = ∅)
    (hdistinct : Distinct next dist start) : popped = all.take popped.length := by
  refine hwindow.order.eq_take hall hdistinct ?_
  refine (hwindow.order.nodup.subperm ?_).length_le
  intro vertex hvertex
  rw [hall.mem_iff_reachable hdone]
  exact hwindow.order.reachable (hwindow.order.subset_seen (List.mem_toFinset.mpr hvertex))

/-- It is cut where a complete search pops the first vertex beyond the window. -/
theorem beyond_of_length (hwindow : Windowed next dist start width popped) {all : List ι}
    (hall : Order next dist start all) (heq : popped = all.take popped.length)
    (hlength : popped.length < all.length) :
    Beyond dist width popped.toFinset all[popped.length] := by
  obtain ⟨hmem, hleast⟩ := hall.at_index hlength
  rw [← heq] at hmem hleast
  exact (hwindow.order.beyond_iff hleast width).mp (hwindow.left _ hmem)

theorem length_le_of_beyond (hwindow : Windowed next dist start width popped) {all : List ι}
    (heq : popped = all.take popped.length) {index : Nat} (hindex : index < all.length)
    (hbeyond : Beyond dist width (all.take index).toFinset all[index]) :
    popped.length ≤ index := by
  by_contra hlt
  have hbefore : index < popped.length := not_le.mp hlt
  refine hwindow.within index hbefore ?_
  have htake : popped.take index = all.take index := by
    rw [heq, List.take_take, Nat.min_eq_left hbefore.le]
  have hget : popped[index] = all[index] :=
    (List.getElem_of_eq heq hbefore).trans List.getElem_take
  rwa [htake, hget]

end Windowed

end BestFirst
