import VBase.Topk.Schedules
import Mathlib.Algebra.BigOperators.Ring.List
import Mathlib.Algebra.Order.BigOperators.Group.List
import Mathlib.Tactic.Linarith
import Mathlib.Tactic.FieldSimp
import Mathlib.Tactic.Positivity

/-! # Progress of the weighted scheduler

After the first round every round pulls as often as its shares say. With positive
scores the child with the greatest weight has at least an equal share of `k`
pulls, which rounds to a pull when there are at most `2 * k` children, so every
round lowers the number of tuples that are left or ends the loop.
-/

namespace VBase.Topk.Weighted

open PriorityQueue VBase.AccessMethod

variable {Q : {T K : Type} → [LinearOrder K] → (T → K) → Type} [PriorityQueue Q]
variable {C : Type}

/-! ## Shares -/

theorem quotient_zero (x y : ℚ) : quotient (fun _ => 0) x y = x / y := by
  unfold quotient
  split
  next hzero => rw [hzero, div_zero]
  · rfl

theorem share_nonneg (count : Nat) {part total : ℚ} (hpart : 0 ≤ part) (htotal : 0 ≤ total) :
    0 ≤ share (fun _ => 0) count part total := by
  have hquotient : (0 : ℚ) ≤ 1 / 2 + count * part / total := by positivity
  rw [share, quotient_zero, truncate, if_pos hquotient]
  exact Int.floor_nonneg.mpr hquotient

/-- At least half a pull is rounded to one. -/
theorem share_pos {count : Nat} {part total : ℚ} (htotal : 0 < total)
    (hhalf : total ≤ 2 * (count * part)) : 1 ≤ share (fun _ => 0) count part total := by
  have hquotient : (1 : ℚ) / 2 ≤ count * part / total := by
    rw [le_div_iff₀ htotal]
    linarith
  have hone : (1 : ℚ) ≤ 1 / 2 + count * part / total := by linarith
  rw [share, quotient_zero, truncate, if_pos (by linarith)]
  exact Int.le_floor.mpr (by exact_mod_cast hone)

/-- Less than half a pull is rounded to none. -/
theorem share_eq_zero {count : Nat} {part total : ℚ} (hpart : 0 ≤ part) (htotal : 0 < total)
    (hhalf : 2 * (count * part) < total) : share (fun _ => 0) count part total = 0 := by
  have hnonneg : (0 : ℚ) ≤ 1 / 2 + count * part / total := by positivity
  have hquotient : count * part / total < 1 / 2 := by
    rw [div_lt_iff₀ htotal]
    linarith
  rw [share, quotient_zero, truncate, if_pos hnonneg, Int.floor_eq_zero_iff]
  exact ⟨hnonneg, by linarith⟩

/-- Some entry of a list is at least its average. -/
theorem exists_average_le {α : Type*} (value : α → ℚ) {items : List α} (hitems : items ≠ []) :
    ∃ item ∈ items, (items.map value).sum ≤ items.length * value item := by
  refine List.exists_le_of_sum_le hitems _ _ (le_of_eq ?_)
  rw [List.map_const', List.sum_replicate, nsmul_eq_mul, List.sum_map_mul_left]

/-! ## One pull -/

section Pull

variable {bound termCond : UInt32} {orderbyId count : Nat} {column : Column C}
  {s : Pulling Q C ℚ} {acc : Q localKey} {tuple : Tuple ℚ} {rows : List (Tuple ℚ)}

theorem pullColumn_exhausted (hrows : column.child.rows = []) :
    pullColumn bound termCond true note orderbyId (count + 1) column s acc =
      (column, { s with finish := true }, acc) := by
  rw [pullColumn, hrows]

theorem pullColumn_seen (hrows : column.child.rows = tuple :: rows)
    (hseen : castToUint64 tuple.tid ∈ s.seenSet) :
    pullColumn bound termCond true note orderbyId (count + 1) column s acc =
      pullColumn bound termCond true note orderbyId count (column.advance rows).countDown
        (s.take bound column.child.esQueryCxt tuple) acc := by
  rw [pullColumn, hrows]
  exact if_pos hseen

theorem pullColumn_new (hrows : column.child.rows = tuple :: rows)
    (hnew : castToUint64 tuple.tid ∉ s.seenSet) :
    pullColumn bound termCond true note orderbyId (count + 1) column s acc =
      if termCond ≤ (s.take bound column.child.esQueryCxt tuple).consecutiveDrops then
        ((column.advance rows).add tuple.rankScore, s.take bound column.child.esQueryCxt tuple,
          note orderbyId tuple.rankScore acc)
      else
        pullColumn bound termCond true note orderbyId count
          ((column.advance rows).add tuple.rankScore).countDown
          (s.take bound column.child.esQueryCxt tuple) (note orderbyId tuple.rankScore acc) := by
  rw [pullColumn, hrows]
  exact if_neg hnew

end Pull

/-! ## Positive scores -/

/-- A column whose averages are those of positive scores. -/
structure Sound (column : Column C) : Prop where
  rows : ∀ tuple ∈ column.child.rows, 0 < tuple.rankScore
  nextRound : 0 ≤ column.nextRound
  score : 0 ≤ column.score
  average : 0 < column.count → 0 < column.score

theorem Sound.advance {column : Column C} (hsound : Sound column) {tuple : Tuple ℚ}
    {rows : List (Tuple ℚ)} (hrows : column.child.rows = tuple :: rows) :
    Sound (column.advance rows) :=
  ⟨fun other hother => hsound.rows other (hrows ▸ List.mem_cons_of_mem _ hother),
    hsound.nextRound, hsound.score, hsound.average⟩

theorem Sound.add {column : Column C} (hsound : Sound column) {rankScore : ℚ}
    (hpos : 0 < rankScore) : Sound (column.add rankScore) :=
  ⟨hsound.rows, hsound.nextRound, add_nonneg hsound.score hpos.le,
    fun _ => add_pos_of_nonneg_of_pos hsound.score hpos⟩

theorem Sound.countDown {column : Column C} (hsound : Sound column)
    (hnext : 1 ≤ column.nextRound) : Sound column.countDown :=
  ⟨hsound.rows, Int.sub_nonneg.mpr hnext, hsound.score, hsound.average⟩

/-- The items of `local_pq` have positive scores. -/
def Positive (localPq : Q localKey) : Prop := ∀ item ∈ elems localPq, 0 < item.1

theorem Positive.note {localPq : Q localKey} (hpositive : Positive localPq) (orderbyId : Nat)
    {rankScore : ℚ} (hpos : 0 < rankScore) : Positive (note orderbyId rankScore localPq) := by
  intro item hitem
  rw [Weighted.note, elems_push] at hitem
  rcases Multiset.mem_cons.mp hitem with rfl | hold
  · exact hpos
  · exact hpositive item hold

/-- The pulls of a column keep it sound. -/
theorem pullColumn_sound (bound termCond : UInt32) (orderbyId count : Nat) (column : Column C)
    (s : Pulling Q C ℚ) (acc : Q localKey) (hcount : (count : Int) ≤ column.nextRound)
    (hsound : Sound column) (hacc : Positive acc) :
    Sound (pullColumn bound termCond true note orderbyId count column s acc).1 ∧
      Positive (pullColumn bound termCond true note orderbyId count column s acc).2.2 ∧
      column.count ≤
        (pullColumn bound termCond true note orderbyId count column s acc).1.count := by
  induction count generalizing column s acc with
  | zero => exact ⟨hsound, hacc, Nat.le_refl _⟩
  | succ count ih =>
      rw [Nat.cast_succ] at hcount
      cases hrows : column.child.rows with
      | nil =>
          rw [pullColumn_exhausted hrows]
          exact ⟨hsound, hacc, Nat.le_refl _⟩
      | cons tuple rows =>
          have hpos : 0 < tuple.rankScore := hsound.rows tuple (hrows ▸ List.mem_cons_self)
          have hadvance := hsound.advance hrows
          have hleft : (count : Int) ≤ column.nextRound - 1 := by omega
          by_cases hseen : castToUint64 tuple.tid ∈ s.seenSet
          · rw [pullColumn_seen hrows hseen]
            exact ih (column.advance rows).countDown _ acc hleft
              (hadvance.countDown (show 1 ≤ column.nextRound by omega)) hacc
          · have hadd := hadvance.add hpos
            have hnote := hacc.note orderbyId hpos
            rw [pullColumn_new hrows hseen]
            split
            · exact ⟨hadd, hnote, Nat.le_succ _⟩
            · obtain ⟨hafter, hpositive, hle⟩ :=
                ih ((column.advance rows).add tuple.rankScore).countDown
                  (s.take bound column.child.esQueryCxt tuple) _ hleft
                  (hadd.countDown (show 1 ≤ column.nextRound by omega)) hnote
              exact ⟨hafter, hpositive, Nat.le_of_succ_le hle⟩

/-- The first tuple of all is new. -/
theorem pullColumn_counts (bound termCond : UInt32) (orderbyId count : Nat) (column : Column C)
    (s : Pulling Q C ℚ) (acc : Q localKey) (hcount : ((count + 1 : Nat) : Int) ≤ column.nextRound)
    (hsound : Sound column) (hacc : Positive acc) (hseen : s.seenSet = ∅) :
    (pullColumn bound termCond true note orderbyId (count + 1) column s acc).2.1.finish = true ∨
      0 < (pullColumn bound termCond true note orderbyId (count + 1) column s acc).1.count := by
  cases hrows : column.child.rows with
  | nil =>
      rw [pullColumn_exhausted hrows]
      exact Or.inl rfl
  | cons tuple rows =>
      have hpos : 0 < tuple.rankScore := hsound.rows tuple (hrows ▸ List.mem_cons_self)
      have hadd := (hsound.advance hrows).add hpos
      refine Or.inr ?_
      rw [pullColumn_new hrows (by simp [hseen])]
      split
      · exact Nat.succ_pos _
      · refine Nat.lt_of_lt_of_le (Nat.succ_pos column.count)
          (pullColumn_sound bound termCond orderbyId count
            ((column.advance rows).add tuple.rankScore).countDown _ _ ?_
            (hadd.countDown (show 1 ≤ column.nextRound by omega)) (hacc.note _ hpos)).2.2
        show (count : Int) ≤ column.nextRound - 1
        omega

/-- A round keeps the columns sound, and a column that has counted a tuple still has. -/
theorem passColumns_sound (bound termCond : UInt32) (orderbyId : Nat) (columns : List (Column C))
    (s : Pulling Q C ℚ) (acc : Q localKey) (hsound : ∀ column ∈ columns, Sound column)
    (hacc : Positive acc) :
    (∀ column ∈ (passColumns bound termCond true note orderbyId columns s acc).1,
        Sound column) ∧
      Positive (passColumns bound termCond true note orderbyId columns s acc).2.2 ∧
      ((∃ column ∈ columns, 0 < column.count) →
        ∃ column ∈ (passColumns bound termCond true note orderbyId columns s acc).1,
          0 < column.count) := by
  induction columns generalizing orderbyId s acc with
  | nil => exact ⟨hsound, hacc, fun hcounted => hcounted⟩
  | cons column others ih =>
      have hcolumn := hsound column List.mem_cons_self
      have hothers := fun other hother => hsound other (List.mem_cons_of_mem _ hother)
      obtain ⟨hpulled, hpositive, hle⟩ := pullColumn_sound bound termCond orderbyId
        column.nextRound.toNat column s acc (by rw [Int.toNat_of_nonneg hcolumn.nextRound])
        hcolumn hacc
      rw [passColumns]
      dsimp only
      generalize pullColumn bound termCond true note orderbyId column.nextRound.toNat column s
        acc = pulled at hpulled hpositive hle
      split
      · refine ⟨List.forall_mem_cons.mpr ⟨hpulled, hothers⟩, hpositive, ?_⟩
        rintro ⟨counted, hmem, hcounted⟩
        rcases List.mem_cons.mp hmem with rfl | hother
        · exact ⟨pulled.1, List.mem_cons_self, Nat.lt_of_lt_of_le hcounted hle⟩
        · exact ⟨counted, List.mem_cons_of_mem _ hother, hcounted⟩
      · obtain ⟨hrest, hpositive, hcounts⟩ := ih (orderbyId + 1) pulled.2.1 pulled.2.2 hothers
          hpositive
        refine ⟨List.forall_mem_cons.mpr ⟨hpulled, hrest⟩, hpositive, ?_⟩
        rintro ⟨counted, hmem, hcounted⟩
        rcases List.mem_cons.mp hmem with rfl | hother
        · exact ⟨pulled.1, List.mem_cons_self, Nat.lt_of_lt_of_le hcounted hle⟩
        · obtain ⟨found, hfound, hpos⟩ := hcounts ⟨counted, hother, hcounted⟩
          exact ⟨found, List.mem_cons_of_mem _ hfound, hpos⟩

/-! ## Rounds with at most twice `k` children -/

theorem localShare_nonneg (k : UInt32) {localPq : Q localKey} (hpositive : Positive localPq)
    (orderbyId : Nat) : 0 ≤ localShare (fun _ => 0) (localBest k localPq) orderbyId := by
  have hscore : ∀ item ∈ localBest k localPq, 0 ≤ localScore (fun _ => 0) item := by
    intro item hitem
    have hmem : item ∈ elems localPq := by
      rw [← coe_drain]
      exact List.mem_of_mem_take hitem
    have hpos := hpositive item hmem
    rw [localScore, quotient_zero]
    positivity
  refine List.sum_nonneg fun part hpart => ?_
  obtain ⟨item, hitem, rfl⟩ := List.mem_map.mp hpart
  refine share_nonneg _ (hscore item (List.mem_filter.mp hitem).1) (List.sum_nonneg ?_)
  intro score hmem
  obtain ⟨other, hother, rfl⟩ := List.mem_map.mp hmem
  exact hscore other hother

theorem Sound.weight_nonneg {column : Column C} (hsound : Sound column) :
    0 ≤ weight (fun _ => 0) column := by
  rw [weight, quotient_zero]
  exact div_nonneg (Nat.cast_nonneg _) hsound.score

theorem weights_nonneg {columns : List (Column C)} (hsound : ∀ column ∈ columns, Sound column) :
    ∀ value ∈ columns.map (weight fun _ => 0), 0 ≤ value := by
  intro value hvalue
  obtain ⟨column, hcolumn, rfl⟩ := List.mem_map.mp hvalue
  exact (hsound column hcolumn).weight_nonneg

theorem weightShare_nonneg (k : UInt32) {columns : List (Column C)}
    (hsound : ∀ column ∈ columns, Sound column) {column : Column C} (hcolumn : column ∈ columns) :
    0 ≤ weightShare (fun _ => 0) k columns column :=
  share_nonneg _ (hsound column hcolumn).weight_nonneg (List.sum_nonneg (weights_nonneg hsound))

/-- With at most twice `k` children, the one with the greatest weight has a pull. -/
theorem exists_weightShare_pos (k : UInt32) {columns : List (Column C)}
    (hsound : ∀ column ∈ columns, Sound column) (hcounted : ∃ column ∈ columns, 0 < column.count)
    (hlength : columns.length ≤ 2 * k.toNat) :
    ∃ column ∈ columns, 1 ≤ weightShare (fun _ => 0) k columns column := by
  obtain ⟨counted, hmem, hcount⟩ := hcounted
  have hweight : 0 < weight (fun _ => 0) counted := by
    rw [weight, quotient_zero]
    exact div_pos (Nat.cast_pos.mpr hcount) ((hsound counted hmem).average hcount)
  have htotal : 0 < (columns.map (weight fun _ => 0)).sum :=
    lt_of_lt_of_le hweight
      (List.single_le_sum (weights_nonneg hsound) _ (List.mem_map_of_mem hmem))
  obtain ⟨column, hcolumn, haverage⟩ := exists_average_le (weight fun _ => 0)
    (List.ne_nil_of_mem hmem)
  refine ⟨column, hcolumn, share_pos htotal (haverage.trans ?_)⟩
  have hle : (columns.length : ℚ) ≤ 2 * k.toNat := by exact_mod_cast hlength
  calc (columns.length : ℚ) * weight (fun _ => 0) column
      ≤ 2 * k.toNat * weight (fun _ => 0) column :=
        mul_le_mul_of_nonneg_right hle (hsound column hcolumn).weight_nonneg
    _ = 2 * (k.toNat * weight (fun _ => 0) column) := mul_assoc _ _ _

/-- What holds of the local variables at the head of the loop. -/
structure Healthy (st : Scheduling Q C (Q localKey)) : Prop where
  sound : ∀ column ∈ st.columns, Sound column
  positive : Positive st.acc
  start : st.first = true → st.pulling.seenSet = ∅
  counted : st.first = false → st.pulling.finish = false → ∃ column ∈ st.columns, 0 < column.count

omit [PriorityQueue Q] in
theorem setRound_sound {A : Type} {st : Scheduling Q C A}
    (hsound : ∀ column ∈ st.columns, Sound column) {next : Nat → Column C → Int}
    (hnext : ∀ orderbyId, ∀ column ∈ st.columns, 0 ≤ next orderbyId column) :
    ∀ column ∈ (st.setRound next).columns, Sound column := by
  intro column hcolumn
  obtain ⟨orderbyId, hlt, rfl⟩ := List.mem_mapIdx.mp hcolumn
  have hold := List.getElem_mem hlt
  exact ⟨(hsound _ hold).rows, hnext orderbyId _ hold, (hsound _ hold).score,
    (hsound _ hold).average⟩

omit [PriorityQueue Q] in
theorem setRound_counted {A : Type} {st : Scheduling Q C A} {next : Nat → Column C → Int}
    (hcounted : ∃ column ∈ st.columns, 0 < column.count) :
    ∃ column ∈ (st.setRound next).columns, 0 < column.count := by
  obtain ⟨column, hmem, hcount⟩ := hcounted
  obtain ⟨orderbyId, hlt, rfl⟩ := List.getElem_of_mem hmem
  exact ⟨_, List.mem_mapIdx.mpr ⟨orderbyId, hlt, rfl⟩, hcount⟩

/-- The first round counts a tuple or finds the first child exhausted. -/
theorem passColumns_counts (bound termCond : UInt32) {columns : List (Column C)}
    (hcolumns : columns ≠ []) (s : Pulling Q C ℚ) (acc : Q localKey)
    (hsound : ∀ column ∈ columns, Sound column) (hacc : Positive acc) (hseen : s.seenSet = ∅)
    (hnext : ∀ column ∈ columns, 1 ≤ column.nextRound) :
    (passColumns bound termCond true note 0 columns s acc).2.1.finish = true ∨
      ∃ column ∈ (passColumns bound termCond true note 0 columns s acc).1, 0 < column.count := by
  obtain ⟨column, others, rfl⟩ := List.exists_cons_of_ne_nil hcolumns
  have hone := hnext column List.mem_cons_self
  obtain ⟨count, hcount⟩ : ∃ count, column.nextRound.toNat = count + 1 :=
    Nat.exists_eq_add_of_le' (by omega)
  have hcounts := pullColumn_counts bound termCond 0 count column s acc (by omega)
    (hsound column List.mem_cons_self) hacc hseen
  rw [passColumns, hcount]
  dsimp only
  generalize pullColumn bound termCond true note 0 (count + 1) column s acc = pulled at hcounts
  split
  · exact hcounts.imp (fun hfinish => hfinish) fun hpos => ⟨pulled.1, List.mem_cons_self, hpos⟩
  · rcases hcounts with hfinish | hpos
    · exact Or.inl (passColumns_finish bound termCond true note _ _ _ _ hfinish)
    · exact Or.inr ⟨pulled.1, List.mem_cons_self, hpos⟩

theorem pass_healthy (bound termCond : UInt32) {st : Scheduling Q C (Q localKey)}
    (hsound : ∀ column ∈ st.columns, Sound column) (hpositive : Positive st.acc)
    (hfirst : st.first = false)
    (hcounted : (∃ column ∈ st.columns, 0 < column.count) ∨
      (st.pulling.seenSet = ∅ ∧ ∀ column ∈ st.columns, 1 ≤ column.nextRound)) :
    Healthy (st.pass bound termCond true note) := by
  obtain ⟨hafter, hacc, hcounts⟩ :=
    passColumns_sound bound termCond 0 st.columns st.pulling st.acc hsound hpositive
  refine ⟨hafter, hacc, fun hstart => ?_, fun _ hrunning => ?_⟩
  · exact absurd (hfirst.symm.trans hstart) (by decide)
  · rcases hcounted with hcounted | ⟨hseen, hnext⟩
    · exact hcounts hcounted
    · have hgoing := (Pulling.checkTermination_finish termCond _).not.mp
        (Bool.not_eq_true _ ▸ hrunning)
      rw [not_or] at hgoing
      exact (passColumns_counts bound termCond st.columns_ne st.pulling st.acc hsound hpositive
        hseen hnext).resolve_left hgoing.1

/-- A round keeps the local variables healthy and lowers the measure. -/
theorem Healthy.round {st : Scheduling Q C (Q localKey)} (hhealthy : Healthy st)
    (k bound termCond : UInt32) (hlength : st.columns.length ≤ 2 * k.toNat)
    (hrunning : st.pulling.finish = false) :
    Healthy (round (fun _ => 0) k bound termCond st) ∧
      (Weighted.round (fun _ => 0) k bound termCond st).measure < st.measure := by
  have hpos := List.length_pos_iff.mpr st.columns_ne
  unfold Weighted.round
  split
  next hfirst =>
    refine ⟨pass_healthy bound termCond (setRound_sound hhealthy.sound fun _ _ _ => by decide)
      hhealthy.positive rfl (Or.inr ⟨hhealthy.start hfirst, fun column hcolumn => ?_⟩), ?_⟩
    · obtain ⟨orderbyId, hlt, rfl⟩ := List.mem_mapIdx.mp hcolumn
      show (1 : Int) ≤ 20
      decide
    · rw [← st.setRound_measure fun _ _ => 20]
      exact Scheduling.pass_measure _ _ _ _ _ hrunning
        (Scheduling.setRound_pulls _ st hpos (by decide))
  next hfirst =>
    have hcounted := hhealthy.counted (by simpa using hfirst) hrunning
    have hnonneg : ∀ orderbyId, ∀ column ∈ st.columns, 0 ≤ column.nextRound +
        localShare (fun _ => 0) (localBest k st.acc) orderbyId +
        weightShare (fun _ => 0) k st.columns column := fun orderbyId column hcolumn =>
      add_nonneg (add_nonneg (hhealthy.sound column hcolumn).nextRound
        (localShare_nonneg k hhealthy.positive orderbyId))
        (weightShare_nonneg k hhealthy.sound hcolumn)
    refine ⟨pass_healthy bound termCond (setRound_sound hhealthy.sound hnonneg)
      (fun item hitem => by simp at hitem) rfl (Or.inl (setRound_counted hcounted)), ?_⟩
    refine lt_of_lt_of_eq (Scheduling.pass_measure _ _ _ _ _ hrunning ?_)
      (st.setRound_measure _)
    -- the column with the greatest weight is pulled
    obtain ⟨column, hcolumn, hshare⟩ := exists_weightShare_pos k hhealthy.sound hcounted hlength
    obtain ⟨orderbyId, hlt, rfl⟩ := List.getElem_of_mem hcolumn
    refine Scheduling.setRound_pulls _ st hlt ?_
    have hnext := (hhealthy.sound _ hcolumn).nextRound
    have hlocal := localShare_nonneg k hhealthy.positive orderbyId
    omega

theorem round_length (byZero : ℚ → ℚ) (k bound termCond : UInt32)
    (st : Scheduling Q C (Q localKey)) :
    (round byZero k bound termCond st).columns.length = st.columns.length := by
  unfold round
  split <;> simp [Scheduling.pass, passColumns_length, Scheduling.setRound]

/-- With at most twice `k` children the loop ends. -/
theorem Healthy.ends {st : Scheduling Q C (Q localKey)} (hhealthy : Healthy st)
    (k bound termCond : UInt32) (hlength : st.columns.length ≤ 2 * k.toNat) :
    ∃ rounds, (Loop.iterate (step (fun _ => 0) k bound termCond) rounds st).pulling.finish =
      true := by
  induction hmeasure : st.measure using Nat.strongRecOn generalizing st with
  | ind count ih =>
      cases hfinish : st.pulling.finish with
      | true => exact ⟨0, hfinish⟩
      | false =>
          obtain ⟨hround, hlower⟩ := hhealthy.round k bound termCond hlength hfinish
          obtain ⟨rounds, hrounds⟩ := ih _ (hmeasure ▸ hlower) hround
            (by rwa [round_length]) rfl
          refine ⟨rounds + 1, ?_⟩
          have hstep : step (fun _ => 0) k bound termCond st =
              some (Weighted.round (fun _ => 0) k bound termCond st) := by
            simp [step, hfinish]
          rw [Loop.iterate, hstep]
          exact hrounds

end VBase.Topk.Weighted
