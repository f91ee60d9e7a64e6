import VBase.Topk.Progress

/-! # Streams on which the weighted scheduler stalls

With more than `2 * k` children whose averages are equal, no child has half a pull,
and only the new tuples of the last round earn pulls. When these bring tuples that
were all pulled before, the next round earns nothing, and the loop of
`topk_opt.cpp` goes round for ever.
-/

namespace VBase.Topk.Weighted

open PriorityQueue VBase.AccessMethod

variable {Q : {T K : Type} → [LinearOrder K] → (T → K) → Type} [PriorityQueue Q]
variable {C : Type}

/-! ## Rounds without a new tuple -/

/-- The column after all its pulls of a round, when none of them was new. -/
def spent (column : Column C) : Column C :=
  { column with
    child := ⟨column.child.esQueryCxt, column.child.rows.drop column.nextRound.toNat⟩
    nextRound := 0 }

/-- Pulls that bring nothing new change nothing but the context and the history. -/
theorem pullColumn_repeats (bound termCond : UInt32) (orderbyId count : Nat) (column : Column C)
    (s : Pulling Q C ℚ) (acc : Q localKey) (hnext : column.nextRound = count)
    (hcount : count ≤ column.child.rows.length)
    (hseen : ∀ tuple ∈ column.child.rows, castToUint64 tuple.tid ∈ s.seenSet) :
    ∃ context pulled, pullColumn bound termCond true note orderbyId count column s acc =
      (spent column, { s with currentMemoryContext := context, pulled := pulled }, acc) := by
  induction count generalizing column s with
  | zero =>
      refine ⟨s.currentMemoryContext, s.pulled, ?_⟩
      obtain ⟨child, nextRound, score, count⟩ := column
      obtain rfl : nextRound = 0 := hnext
      rfl
  | succ count ih =>
      cases hrows : column.child.rows with
      | nil => simp [hrows] at hcount
      | cons tuple rows =>
          rw [hrows] at hseen hcount
          have hmem := hseen tuple List.mem_cons_self
          have htake : s.take bound column.child.esQueryCxt tuple =
              { s with
                currentMemoryContext := column.child.esQueryCxt
                pulled := (column.child.esQueryCxt, tuple) :: s.pulled } := if_pos hmem
          rw [pullColumn_seen hrows hmem, htake]
          obtain ⟨context, pulled, hafter⟩ := ih (column.advance rows).countDown
            { s with
              currentMemoryContext := column.child.esQueryCxt
              pulled := (column.child.esQueryCxt, tuple) :: s.pulled }
            (by simp [Column.countDown, Column.advance, hnext])
            (by simpa using hcount)
            (fun other hother => hseen other (List.mem_cons_of_mem _ hother))
          refine ⟨context, pulled, hafter.trans ?_⟩
          have hleft : (column.advance rows).countDown.nextRound.toNat = count := by
            simp [Column.countDown, Column.advance, hnext]
          have hspent : spent (column.advance rows).countDown = spent column := by
            simp only [spent, hleft, hnext, hrows]
            rfl
          rw [hspent]

theorem not_le_of_eq_zero {termCond drops : UInt32} (hterm : 1 ≤ termCond) (hdrops : drops = 0) :
    ¬ termCond ≤ drops := by
  rw [hdrops]
  exact fun hle => absurd (UInt32.le_trans hterm hle) (by decide)

/-- A pass after which nothing was dropped goes on. -/
theorem pass_of_drops_zero {bound termCond : UInt32} (hterm : 1 ≤ termCond)
    {st : Scheduling Q C (Q localKey)} {columns : List (Column C)} {s : Pulling Q C ℚ}
    {acc : Q localKey}
    (hpass : passColumns bound termCond true note 0 st.columns st.pulling st.acc =
      (columns, s, acc)) (hdrops : s.consecutiveDrops = 0) :
    (st.pass bound termCond true note).columns = columns ∧
      (st.pass bound termCond true note).pulling = s ∧
      (st.pass bound termCond true note).acc = acc := by
  have hgoing : s.checkTermination termCond = s := if_neg (not_le_of_eq_zero hterm hdrops)
  refine ⟨congrArg Prod.fst hpass, ?_, congrArg (fun after => after.2.2) hpass⟩
  exact (congrArg (fun after => after.2.1.checkTermination termCond) hpass).trans hgoing

theorem passColumns_repeats (bound : UInt32) {termCond : UInt32} (hterm : 1 ≤ termCond)
    (orderbyId : Nat) (columns : List (Column C)) (s : Pulling Q C ℚ) (acc : Q localKey)
    (hdrops : s.consecutiveDrops = 0)
    (hnext : ∀ column ∈ columns, 0 ≤ column.nextRound ∧
      column.nextRound.toNat ≤ column.child.rows.length)
    (hseen : ∀ column ∈ columns, ∀ tuple ∈ column.child.rows,
      castToUint64 tuple.tid ∈ s.seenSet) :
    ∃ context pulled, passColumns bound termCond true note orderbyId columns s acc =
      (columns.map spent, { s with currentMemoryContext := context, pulled := pulled }, acc) := by
  induction columns generalizing orderbyId s with
  | nil => exact ⟨s.currentMemoryContext, s.pulled, rfl⟩
  | cons column others ih =>
      obtain ⟨hnonneg, hle⟩ := hnext column List.mem_cons_self
      obtain ⟨context, pulled, hcolumn⟩ := pullColumn_repeats bound termCond orderbyId
        column.nextRound.toNat column s acc (Int.toNat_of_nonneg hnonneg).symm hle
        (hseen column List.mem_cons_self)
      obtain ⟨context', pulled', hothers⟩ := ih (orderbyId + 1)
        { s with currentMemoryContext := context, pulled := pulled } hdrops
        (fun other hother => hnext other (List.mem_cons_of_mem _ hother))
        (fun other hother => hseen other (List.mem_cons_of_mem _ hother))
      refine ⟨context', pulled', ?_⟩
      rw [passColumns, hcolumn]
      dsimp only
      rw [if_neg (not_le_of_eq_zero hterm hdrops), hothers]
      rfl

/-! ## Equal averages -/

/-- Equal scores share the pulls equally, one for each tuple. -/
theorem localShare_of_equal {best : List (ℚ × Nat)} (hscores : ∀ item ∈ best, item.1 = 1)
    (orderbyId : Nat) :
    localShare (fun _ => 0) best orderbyId =
      (best.filter fun item => item.2 = orderbyId).length := by
  have hscore : ∀ item ∈ best, localScore (fun _ => 0) item = 1 / (1 / 10 ^ 10 + 1) := by
    intro item hitem
    rw [localScore, quotient_zero, hscores item hitem]
  have htotal : (best.map (localScore fun _ => 0)).sum =
      best.length * (1 / (1 / 10 ^ 10 + 1) : ℚ) := by
    rw [List.map_congr_left hscore, List.map_const', List.sum_replicate, nsmul_eq_mul]
  have hshare : ∀ item ∈ best.filter fun item => item.2 = orderbyId,
      share (fun _ => 0) best.length (localScore (fun _ => 0) item)
        (best.map (localScore fun _ => 0)).sum = 1 := by
    intro item hitem
    have hmem := (List.mem_filter.mp hitem).1
    have hpos : (0 : ℚ) < best.length := Nat.cast_pos.mpr (List.length_pos_of_mem hmem)
    rw [htotal, hscore item hmem, share, quotient_zero, div_self (by positivity)]
    decide +kernel
  rw [localShare, List.map_congr_left hshare, List.map_const', List.sum_replicate, nsmul_eq_mul,
    mul_one]

/-- More than twice `k` children with equal averages have no pull. -/
theorem weightShare_of_equal {k : UInt32} {columns : List (Column C)}
    (hmany : 2 * k.toNat < columns.length)
    (hlevel : ∀ column ∈ columns, column.score = 1 ∧ column.count = 1) {column : Column C}
    (hcolumn : column ∈ columns) : weightShare (fun _ => 0) k columns column = 0 := by
  have hweight : ∀ column ∈ columns, weight (fun _ => 0) column = 1 := by
    intro column hcolumn
    obtain ⟨hscore, hcount⟩ := hlevel column hcolumn
    rw [weight, quotient_zero, hscore, hcount]
    norm_num
  have htotal : (columns.map (weight fun _ => 0)).sum = columns.length := by
    rw [List.map_congr_left hweight, List.map_const', List.sum_replicate, nsmul_eq_mul, mul_one]
  have hlt : (2 * k.toNat : ℚ) < columns.length := by exact_mod_cast hmany
  rw [weightShare, htotal, hweight column hcolumn]
  refine share_eq_zero zero_le_one ?_ (by rwa [mul_one])
  exact lt_of_le_of_lt (by positivity) hlt

/-! ## Stalled loops -/

/-- The averages are equal, there is nothing new left, and what the last round earned is less
than what is left. -/
structure Stalled (k : UInt32) (st : Scheduling Q C (Q localKey)) : Prop where
  first : st.first = false
  finish : st.pulling.finish = false
  drops : st.pulling.consecutiveDrops = 0
  many : 2 * k.toNat < st.columns.length
  level : ∀ column ∈ st.columns, column.nextRound = 0 ∧ column.score = 1 ∧ column.count = 1
  seen : ∀ column ∈ st.columns, ∀ tuple ∈ column.child.rows,
    castToUint64 tuple.tid ∈ st.pulling.seenSet
  scores : ∀ item ∈ elems st.acc, item.1 = 1
  enough : elems st.acc = 0 ∨ ∀ column ∈ st.columns, k.toNat ≤ column.child.rows.length

namespace Stalled

variable {k bound termCond : UInt32} {st : Scheduling Q C (Q localKey)}

/-- A child has no more pulls than tuples. -/
theorem localShare_le (hstalled : Stalled k st) (orderbyId : Nat) {column : Column C}
    (hcolumn : column ∈ st.columns) :
    localShare (fun _ => 0) (localBest k st.acc) orderbyId ≤ column.child.rows.length := by
  have hsubset : ∀ item ∈ localBest k st.acc, item ∈ elems st.acc := by
    intro item hitem
    rw [← coe_drain]
    exact List.mem_of_mem_take hitem
  rw [localShare_of_equal fun item hitem => hstalled.scores item (hsubset item hitem)]
  have hfilter := List.length_filter_le (fun item : ℚ × Nat => item.2 = orderbyId)
    (localBest k st.acc)
  rcases hstalled.enough with hempty | henough
  · have hbest : localBest k st.acc = [] :=
      List.eq_nil_iff_forall_not_mem.mpr fun item hitem => by
        simpa [hempty] using hsubset item hitem
    simp [hbest]
  · have htake : (localBest k st.acc).length ≤ k.toNat := List.length_take_le _ _
    have hrows := henough column hcolumn
    omega

/-- A pass that brings nothing new stalls. -/
theorem of_pass (hterm : 1 ≤ termCond) (hfirst : st.first = false)
    (hfinish : st.pulling.finish = false) (hdrops : st.pulling.consecutiveDrops = 0)
    (hmany : 2 * k.toNat < st.columns.length)
    (hlevel : ∀ column ∈ st.columns, column.score = 1 ∧ column.count = 1)
    (hnext : ∀ column ∈ st.columns, 0 ≤ column.nextRound ∧
      column.nextRound.toNat ≤ column.child.rows.length)
    (hseen : ∀ column ∈ st.columns, ∀ tuple ∈ column.child.rows,
      castToUint64 tuple.tid ∈ st.pulling.seenSet) (hacc : elems st.acc = 0) :
    Stalled k (st.pass bound termCond true note) := by
  obtain ⟨context, pulled, hpass⟩ := passColumns_repeats bound hterm 0 st.columns st.pulling
    st.acc hdrops hnext hseen
  obtain ⟨hcolumns, hpulling, hlast⟩ := pass_of_drops_zero hterm hpass hdrops
  rw [← hlast] at hacc
  constructor
  case first => exact hfirst
  case finish => rw [hpulling]; exact hfinish
  case drops => rw [hpulling]; exact hdrops
  case many => rw [hcolumns, List.length_map]; exact hmany
  case level =>
    intro column hcolumn
    rw [hcolumns] at hcolumn
    obtain ⟨before, hbefore, rfl⟩ := List.mem_map.mp hcolumn
    exact ⟨rfl, hlevel before hbefore⟩
  case seen =>
    intro column hcolumn tuple htuple
    rw [hcolumns] at hcolumn
    obtain ⟨before, hbefore, rfl⟩ := List.mem_map.mp hcolumn
    rw [hpulling]
    exact hseen before hbefore tuple (List.mem_of_mem_drop htuple)
  case scores =>
    intro item hitem
    simp [hacc] at hitem
  case enough => exact Or.inl hacc

/-- A stalled loop stays stalled. -/
theorem round (hstalled : Stalled k st) (hterm : 1 ≤ termCond) :
    Stalled k (Weighted.round (fun _ => 0) k bound termCond st) := by
  have hlocal : ∀ orderbyId, 0 ≤ localShare (fun _ => 0) (localBest k st.acc) orderbyId :=
    localShare_nonneg k fun item hitem => by rw [hstalled.scores item hitem]; exact zero_lt_one
  have hweight : ∀ column ∈ st.columns, weightShare (fun _ => 0) k st.columns column = 0 :=
    fun column hcolumn => weightShare_of_equal hstalled.many
      (fun other hother => (hstalled.level other hother).2) hcolumn
  rw [Weighted.round, if_neg (by simp [hstalled.first])]
  refine of_pass hterm rfl hstalled.finish hstalled.drops ?_ (fun column hcolumn => ?_)
    (fun column hcolumn => ?_) (fun column hcolumn => ?_) elems_empty
  · simpa [Scheduling.setRound] using hstalled.many
  all_goals
    obtain ⟨orderbyId, hlt, rfl⟩ := List.mem_mapIdx.mp hcolumn
    have hmem := List.getElem_mem hlt
  · exact (hstalled.level _ hmem).2
  · dsimp only
    rw [(hstalled.level _ hmem).1, hweight _ hmem, zero_add, add_zero]
    have hle := hstalled.localShare_le orderbyId hmem
    exact ⟨hlocal orderbyId, by omega⟩
  · exact hstalled.seen st.columns[orderbyId] hmem

end Stalled

/-! ## The first round on repeated tuples -/

/-- Children that deliver one tuple each, again and again. -/
def repeating (context : C) (k : UInt32) (tids : List ItemPointer) : List (Child C ℚ) :=
  tids.map fun tid => ⟨context, List.replicate (20 + k.toNat) ⟨tid, 1⟩⟩

/-- A child of `repeating` at the start of the first round. -/
def freshColumn (context : C) (k : UInt32) (tid : ItemPointer) : Column C :=
  ⟨⟨context, List.replicate (20 + k.toNat) ⟨tid, 1⟩⟩, 20, 0, 0⟩

/-- A child of `repeating` after the first round. -/
def repeatingColumn (context : C) (k : UInt32) (tid : ItemPointer) : Column C :=
  ⟨⟨context, List.replicate k.toNat ⟨tid, 1⟩⟩, 0, 1, 1⟩

theorem pullColumn_repeating {bound termCond : UInt32} (hterm : 1 ≤ termCond) (orderbyId : Nat)
    (context : C) (k : UInt32) (tid : ItemPointer) (s : Pulling Q C ℚ) (acc : Q localKey)
    (hnew : castToUint64 tid ∉ s.seenSet) (hroom : size s.procPq < bound.toNat) :
    ∃ s', pullColumn bound termCond true note orderbyId 20
        (freshColumn context k tid) s acc =
        (repeatingColumn context k tid, s', note orderbyId 1 acc) ∧
      s'.finish = s.finish ∧ s'.consecutiveDrops = 0 ∧
      s'.seenSet = insert (castToUint64 tid) s.seenSet ∧
      size s'.procPq = size s.procPq + 1 := by
  have hrows : (freshColumn context k tid).child.rows =
      ⟨tid, 1⟩ :: List.replicate (19 + k.toNat) ⟨tid, 1⟩ := by
    rw [freshColumn, Nat.add_right_comm 19 1 k.toNat, List.replicate_succ]
  have haccepts : accepts bound.toNat s.procPq (⟨tid, 1⟩ : Tuple ℚ) = true :=
    accepts_iff.mpr (Or.inl hroom)
  have htake : s.take bound context ⟨tid, 1⟩ =
      { s with
        procPq := push s.procPq ⟨tid, 1⟩
        consecutiveDrops := 0
        seenSet := insert (castToUint64 tid) s.seenSet
        pulled := (context, ⟨tid, 1⟩) :: s.pulled } := by
    simp [Pulling.take, Pulling.offer, hnew, haccepts, pushBounded, hroom.ne]
  obtain ⟨last, pulled, hrest⟩ := pullColumn_repeats bound termCond orderbyId 19
    ⟨⟨context, List.replicate (19 + k.toNat) ⟨tid, 1⟩⟩, 19, 1, 1⟩ (s.take bound context ⟨tid, 1⟩)
    (note orderbyId 1 acc) rfl (by simp) (by simp [htake])
  have hcolumn : (((freshColumn context k tid).advance
      (List.replicate (19 + k.toNat) ⟨tid, 1⟩)).add 1).countDown =
      ⟨⟨context, List.replicate (19 + k.toNat) ⟨tid, 1⟩⟩, 19, 1, 1⟩ := by
    simp [freshColumn, Column.advance, Column.add, Column.countDown]
  have hspent : spent ⟨⟨context, List.replicate (19 + k.toNat) ⟨tid, 1⟩⟩, 19, 1, 1⟩ =
      repeatingColumn context k tid := by
    simp [spent, repeatingColumn]
  rw [hspent] at hrest
  refine ⟨{ s.take bound context ⟨tid, 1⟩ with currentMemoryContext := last, pulled := pulled },
    ?_, by simp [htake]⟩
  have hcontext : (freshColumn context k tid).child.esQueryCxt = context := rfl
  rw [pullColumn_new hrows hnew, hcontext,
    if_neg (not_le_of_eq_zero hterm (congrArg Pulling.consecutiveDrops htake)), hcolumn]
  exact hrest

theorem note_scores (orderbyId : Nat) {score : ℚ} {acc : Q localKey}
    (hscores : ∀ item ∈ elems acc, item.1 = score) :
    ∀ item ∈ elems (note orderbyId score acc), item.1 = score := by
  intro item hitem
  rw [note, elems_push] at hitem
  rcases Multiset.mem_cons.mp hitem with rfl | hold
  · rfl
  · exact hscores item hold

/-- The first round takes one tuple from each child and passes over its repetitions. -/
theorem passColumns_repeating {bound termCond : UInt32} (hterm : 1 ≤ termCond) (orderbyId : Nat)
    (context : C) (k : UInt32) {tids : List ItemPointer} (hnodup : tids.Nodup)
    (s : Pulling Q C ℚ) (acc : Q localKey) (hdrops : s.consecutiveDrops = 0)
    (hnew : ∀ tid ∈ tids, castToUint64 tid ∉ s.seenSet)
    (hroom : size s.procPq + tids.length ≤ bound.toNat)
    (hscores : ∀ item ∈ elems acc, item.1 = 1) :
    ∃ s' acc', passColumns bound termCond true note orderbyId
        (tids.map (freshColumn context k)) s acc =
        (tids.map (repeatingColumn context k), s', acc') ∧
      s'.finish = s.finish ∧ s'.consecutiveDrops = 0 ∧ s.seenSet ⊆ s'.seenSet ∧
      (∀ tid ∈ tids, castToUint64 tid ∈ s'.seenSet) ∧ ∀ item ∈ elems acc', item.1 = 1 := by
  induction tids generalizing orderbyId s acc with
  | nil => exact ⟨s, acc, rfl, rfl, hdrops, Finset.Subset.refl _, by simp, hscores⟩
  | cons tid others ih =>
      obtain ⟨hother, hnodup⟩ := List.nodup_cons.mp hnodup
      rw [List.length_cons] at hroom
      obtain ⟨s₁, hpull, hfinish, hkept, hseen, hsize⟩ := pullColumn_repeating hterm orderbyId
        context k tid s acc (hnew tid List.mem_cons_self) (Nat.lt_of_lt_of_le (by omega) hroom)
      have hnew' : ∀ other ∈ others, castToUint64 other ∉ s₁.seenSet := by
        intro other hmem
        rw [hseen, Finset.mem_insert, not_or]
        exact ⟨fun heq => hother (castToUint64_injective heq ▸ hmem),
          hnew other (List.mem_cons_of_mem _ hmem)⟩
      obtain ⟨s₂, acc', hpass, hfinish', hkept', hsubset, hall, hlast⟩ := ih (orderbyId + 1) hnodup
        s₁ (note orderbyId 1 acc) hkept hnew' (by omega) (note_scores orderbyId hscores)
      refine ⟨s₂, acc', ?_, hfinish'.trans hfinish, hkept', ?_, ?_, hlast⟩
      · rw [List.map_cons, passColumns]
        have hcount : (freshColumn context k tid).nextRound.toNat = 20 := rfl
        rw [hcount, hpull]
        dsimp only
        rw [if_neg (not_le_of_eq_zero hterm hkept), hpass]
        rfl
      · exact (Finset.subset_insert _ _).trans (hseen ▸ hsubset)
      · refine List.forall_mem_cons.mpr ⟨hsubset ?_, hall⟩
        rw [hseen]
        exact Finset.mem_insert_self _ _

/-- A pass over children that deliver one new tuple each stalls. -/
theorem stalled_of_freshColumns {k bound termCond : UInt32} (hterm : 1 ≤ termCond) (context : C)
    {tids : List ItemPointer} (hnodup : tids.Nodup) {st : Scheduling Q C (Q localKey)}
    (hcolumns : st.columns = tids.map (freshColumn context k)) (hfirst : st.first = false)
    (hfinish : st.pulling.finish = false) (hdrops : st.pulling.consecutiveDrops = 0)
    (hunseen : st.pulling.seenSet = ∅) (hacc : elems st.acc = 0)
    (hroom : size st.pulling.procPq + tids.length ≤ bound.toNat)
    (hmany : 2 * k.toNat < tids.length) : Stalled k (st.pass bound termCond true note) := by
  obtain ⟨s', acc', hpass, hfinish', hdrops', -, hseen, hscores⟩ := passColumns_repeating hterm 0
    context k hnodup st.pulling st.acc hdrops (by simp [hunseen]) hroom (by simp [hacc])
  rw [← hcolumns] at hpass
  obtain ⟨hcolumns', hpulling, hlast⟩ := pass_of_drops_zero hterm hpass hdrops'
  constructor
  case first => exact hfirst
  case finish => rw [hpulling, hfinish', hfinish]
  case drops => rw [hpulling]; exact hdrops'
  case many => rw [hcolumns', List.length_map]; exact hmany
  case scores => rw [hlast]; exact hscores
  all_goals rw [hcolumns']
  case level =>
    intro column hcolumn
    obtain ⟨tid, -, rfl⟩ := List.mem_map.mp hcolumn
    exact ⟨rfl, rfl, rfl⟩
  case seen =>
    intro column hcolumn tuple htuple
    obtain ⟨tid, htid, rfl⟩ := List.mem_map.mp hcolumn
    rw [hpulling, List.eq_of_mem_replicate htuple]
    exact hseen tid htid
  case enough =>
    refine Or.inr fun column hcolumn => ?_
    obtain ⟨tid, -, rfl⟩ := List.mem_map.mp hcolumn
    simp [repeatingColumn]

/-- The first round leaves the loop stalled. -/
theorem stalled_of_repeating {k ef termCond : UInt32} (hterm : 1 ≤ termCond) (context caller : C)
    {tids : List ItemPointer} (hnodup : tids.Nodup) (hroom : tids.length ≤ ef.toNat)
    (hmany : 2 * k.toNat < tids.length) (hchildren : repeating context k tids ≠ []) :
    Stalled k (Weighted.round (fun _ => 0) k ef termCond
      ((initFaginsState (Q := Q) k ef termCond (repeating context k tids) hchildren
        caller).schedule PriorityQueue.empty)) := by
  rw [Weighted.round, if_pos (by rfl)]
  refine stalled_of_freshColumns hterm context hnodup ?_ rfl rfl rfl rfl elems_empty ?_ hmany
  · refine List.ext_getElem ?_ fun index hleft hright => ?_ <;>
      simp [Scheduling.setRound, FaginsState.schedule, initFaginsState, repeating, freshColumn]
  · simpa [Scheduling.setRound, FaginsState.schedule, initFaginsState, FaginsState.enter]
      using hroom

/-- However many rounds are run, the loop has not ended. -/
theorem not_finish_of_repeating {k ef termCond : UInt32} (hterm : 1 ≤ termCond)
    (context caller : C) {tids : List ItemPointer} (hnodup : tids.Nodup)
    (hroom : tids.length ≤ ef.toNat) (hmany : 2 * k.toNat < tids.length)
    (hchildren : repeating context k tids ≠ []) (rounds : Nat) :
    (pullLoop (fun _ => 0) rounds (initFaginsState (Q := Q) k ef termCond
      (repeating context k tids) hchildren caller)).pulling.finish = false := by
  cases rounds with
  | zero => rfl
  | succ rounds =>
      refine (Loop.iterate_invariant (motive := Stalled k) (fun st next hstalled hstep => ?_) rounds
        (stalled_of_repeating (Q := Q) hterm context caller hnodup hroom hmany hchildren)).finish
      unfold step at hstep
      split at hstep
      · simp at hstep
      · obtain rfl := Option.some.inj hstep
        exact hstalled.round hterm

/-! ## When the loop ends -/

theorem healthy_schedule (k ef termCond : UInt32) {children : List (Child C ℚ)}
    (hchildren : children ≠ []) (caller : C)
    (hpositive : ∀ child ∈ children, ∀ tuple ∈ child.rows, 0 < tuple.rankScore) :
    Healthy ((initFaginsState (Q := Q) k ef termCond children hchildren caller).schedule
      PriorityQueue.empty) := by
  refine ⟨fun column hcolumn => ?_, fun item hitem => ?_, fun _ => rfl, fun hfirst => ?_⟩
  · obtain ⟨child, hchild, rfl⟩ := List.mem_map.mp hcolumn
    exact ⟨hpositive child hchild, le_refl _, le_refl _, fun hpos => absurd hpos (by simp)⟩
  · simp [FaginsState.schedule] at hitem
  · exact absurd hfirst (by simp [FaginsState.schedule])

/-- On children with positive scores the loop always ends exactly if there are at most twice
`k` of them. -/
theorem pullLoop_ends_iff (k : UInt32) {count : Nat} (hcount : count < 2 ^ 32) (caller : C) :
    (∀ (ef termCond : UInt32) (children : List (Child C ℚ)) (hchildren : children ≠ []),
      k ≤ ef → 1 ≤ termCond → children.length = count →
      (∀ child ∈ children, ∀ tuple ∈ child.rows, 0 < tuple.rankScore) →
      ∃ rounds, (pullLoop (fun _ => 0) rounds (initFaginsState (Q := Q) k ef termCond children
        hchildren caller)).pulling.finish = true) ↔ count ≤ 2 * k.toNat := by
  constructor
  · intro hends
    by_contra hmany
    have htids : ((List.range count).map tidOf).Nodup := by
      refine (List.nodup_map_iff_inj_on List.nodup_range).mpr fun first hfirst second hsecond => ?_
      rw [List.mem_range] at hfirst hsecond
      exact tidOf_inj (by omega) (by omega)
    have hef : (UInt32.ofNat count).toNat = count := UInt32.toNat_ofNat_of_lt' hcount
    have hlength : (repeating caller k ((List.range count).map tidOf)).length = count := by
      simp [repeating]
    have hchildren : repeating caller k ((List.range count).map tidOf) ≠ [] := by
      rw [← List.length_pos_iff, hlength]
      omega
    obtain ⟨rounds, hfinish⟩ := hends (UInt32.ofNat count) 1 _ hchildren
      (UInt32.le_iff_toNat_le.mpr (by omega)) (UInt32.le_refl 1) hlength (by
        intro child hchild tuple htuple
        obtain ⟨tid, -, rfl⟩ := List.mem_map.mp hchild
        rw [List.eq_of_mem_replicate htuple]
        exact zero_lt_one)
    rw [not_finish_of_repeating (UInt32.le_refl 1) caller caller htids (by simp [hef])
      (by simpa using hmany) hchildren rounds] at hfinish
    exact Bool.false_ne_true hfinish
  · intro hfew ef termCond children hchildren _ _ hlength hpositive
    exact (healthy_schedule k ef termCond hchildren caller hpositive).ends k ef termCond
      (by simpa [FaginsState.schedule, initFaginsState, hlength] using hfew)

/-- Two children are not too many for `k = 1`. -/
theorem pullLoop_ends_of_two_children : 2 < 2 ^ 32 ∧
    ∀ (ef termCond : UInt32) (children : List (Child Unit ℚ)) (hchildren : children ≠ []),
      1 ≤ ef → 1 ≤ termCond → children.length = 2 →
      (∀ child ∈ children, ∀ tuple ∈ child.rows, 0 < tuple.rankScore) →
      ∃ rounds, (pullLoop (fun _ => 0) rounds (initFaginsState (Q := @SortedQueue) 1 ef termCond
        children hchildren ())).pulling.finish = true :=
  ⟨by decide, (pullLoop_ends_iff 1 (by decide) ()).mpr (by decide)⟩

/-- Three children for `k = 1`, which deliver one tuple each twenty-one times. -/
theorem pullLoop_stalls : ¬ ∃ rounds, (pullLoop (fun _ => 0) rounds
    (initFaginsState (Q := @SortedQueue) 1 3 1
      [⟨(), List.replicate 21 ⟨⟨0, 1⟩, 1⟩⟩, ⟨(), List.replicate 21 ⟨⟨0, 2⟩, 1⟩⟩,
        ⟨(), List.replicate 21 ⟨⟨0, 3⟩, 1⟩⟩] (by simp) ())).pulling.finish = true := by
  rintro ⟨rounds, hfinish⟩
  have hnodup : ([⟨0, 1⟩, ⟨0, 2⟩, ⟨0, 3⟩] : List ItemPointer).Nodup := by decide
  have hroom : ([⟨0, 1⟩, ⟨0, 2⟩, ⟨0, 3⟩] : List ItemPointer).length ≤ (3 : UInt32).toNat := by
    decide
  have hrunning := not_finish_of_repeating (Q := @SortedQueue) (k := 1) (UInt32.le_refl 1) () ()
    hnodup hroom (by decide) (by simp [repeating]) rounds
  exact Bool.false_ne_true (hrunning.symm.trans hfinish)

end VBase.Topk.Weighted
