import VBase.Hnsw.Dictionary
import VBase.Hnsw.IndexRejection

/-! # Saving an index and loading it

A saved index is loaded with the same elements, levels, links and deletion marks, and it
is in order again if it was. Only `num_deleted_` is added to what was in memory before.
-/

namespace VBase.Hnsw

open LittleEndian FileStream Command Blocks

/-! ## Lists in memory -/

namespace LinkList

variable {memory : List UInt8} {list : LinkList} {room pos : Nat}

theorem ofMemory_header (hstands : StandsAt memory (list.bytes room) pos) :
    (ofMemory memory pos).header = list.header := by
  have hword : wordAt 4 memory pos = list.header.toNat % 2 ^ 32 := hstands.left.wordAt
  rw [ofMemory, hword, Nat.mod_eq_of_lt list.header.toNat_lt, UInt32.ofNat_toNat]

theorem ofMemory_slots (hstands : StandsAt memory (list.bytes room) pos) {idx : Nat}
    (hidx : idx < room) : (ofMemory memory pos).slots idx = list.slots idx % 2 ^ 32 := by
  have hslot := hstands.right.nth (fun _ _ => length_toBytes 4 _)
    (show idx < (List.range room).length by simpa using hidx)
  rw [List.getElem_range, length_writeUnsigned, Nat.mul_comm] at hslot
  exact hslot.wordAt

theorem isMarked_ofMemory (hstands : StandsAt memory (list.bytes room) pos) :
    (ofMemory memory pos).isMarked = list.isMarked := by
  rw [isMarked, ofMemory_header hstands]
  rfl

/-- The links are those of the list, if there is room for them and their ids are short. -/
theorem links_ofMemory (hstands : StandsAt memory (list.bytes room) pos)
    (hroom : list.links.length ≤ room) (hids : ∀ id ∈ list.links, id < 2 ^ 32) :
    (ofMemory memory pos).links = list.links := by
  rw [length_links] at hroom
  rw [links, getListCount, ofMemory_header hstands]
  refine List.map_congr_left ?_
  intro idx hidx
  have hcount : idx < list.getListCount.toNat := List.mem_range.mp hidx
  rw [ofMemory_slots hstands (lt_of_lt_of_le hcount hroom), Nat.mod_eq_of_lt]
  exact hids _ (List.mem_map.mpr ⟨idx, hidx, rfl⟩)

end LinkList

namespace Graph

variable {D : Type} {graph : Graph D} {format : ComponentFormat D}

/-! ## The base layer in memory -/

variable {id : Nat}

variable (format) in
theorem standsAt_element (hstorable : graph.Storable) (hid : id < graph.curElementCount) :
    StandsAt (graph.dataLevel0Memory format) (graph.elementBytes format id)
      (id * graph.sizeDataPerElement) := by
  have hblock := (standsAt_self (graph.dataLevel0Memory format)).nth
    (fun other hother => length_elementBytes hstorable (List.mem_range.mp hother))
    (show id < (List.range graph.curElementCount).length by simpa using hid)
  rwa [List.getElem_range, Nat.zero_add] at hblock

theorem standsAt_list0 (hstorable : graph.Storable) (hid : id < graph.curElementCount) :
    StandsAt (graph.dataLevel0Memory format) ((graph.getLinklistAtLevel id 0).bytes graph.maxM0)
      (id * graph.sizeDataPerElement) :=
  (standsAt_element format hstorable hid).left

variable (format) in
theorem standsAt_data (hstorable : graph.Storable) (hid : id < graph.curElementCount) :
    StandsAt (graph.dataLevel0Memory format) ((graph.getDataByInternalId id).flatMap fun component =>
      writeUnsigned (format.toWord component))
      (id * graph.sizeDataPerElement + graph.offsetData) := by
  have hdata := (standsAt_element format hstorable hid).right.left
  rwa [length_bytes] at hdata

theorem standsAt_label (hstorable : graph.Storable) (hid : id < graph.curElementCount) :
    StandsAt (graph.dataLevel0Memory format) (writeSize (graph.getExternalLabel id))
      (id * graph.sizeDataPerElement + graph.labelOffset) := by
  have hlabel := (standsAt_element format hstorable hid).right.right
  rw [length_bytes, Blocks.length_flatMap fun component _ => length_writeUnsigned _,
    hstorable.components id hid, Nat.add_assoc] at hlabel
  exact hlabel

/-! ## The check of a saved index -/

section Reading

variable {file : List UInt8}

theorem reads_checkList (uninit size : UInt32) {lists : List UInt8} (id : Nat)
    (hsize : size.toNat = lists.length) :
    Reads file (checkList file.length uninit ⟨⟩ id) (writeUnsigned size ++ lists) ⟨⟩ := by
  have hbody : Reads file (readUnsigned uninit >>= fun linkListSize =>
      if linkListSize ≠ 0 then skip linkListSize.toNat else pure ⟨⟩)
      (writeUnsigned size ++ lists) ⟨⟩ := by
    refine (reads_readUnsigned uninit size).bind ?_
    split
    · exact reads_skip (by rw [hsize])
    · next hzero =>
        have hnone : lists = [] := by
          rw [← List.length_eq_zero_iff, ← hsize, not_not.mp hzero]
          rfl
        rw [hnone]
        exact reads_pure
  intro before behind hfile
  -- The size itself is still ahead, so the stream is not at the end.
  have hahead : ¬ ((after before (writeUnsigned size ++ lists ++ behind)).tellg < 0 ∨
      (file.length : Int) ≤ (after before (writeUnsigned size ++ lists ++ behind)).tellg) := by
    have hlength : before.length + (4 + lists.length + behind.length) = file.length := by
      rw [← hfile]
      simp only [List.length_append, length_writeUnsigned]
    rw [tellg_after]
    omega
  have hrun := hbody before behind hfile
  change (if _ then _ else _ : Loading PUnit) _ = _
  rw [if_neg hahead]
  exact hrun

theorem reads_checkElement (hstorable : graph.Storable) (uninit : UInt32)
    (hid : id < graph.curElementCount) :
    Reads file (checkList file.length uninit ⟨⟩ id) (graph.listBytes id) ⟨⟩ := by
  rw [listBytes_eq hstorable hid]
  exact reads_checkList uninit _ id (toNat_linkListSize hstorable hid)

theorem reads_checkLists (hstorable : graph.Storable) (uninit : UInt32) {count : Nat}
    (hcount : count ≤ graph.curElementCount) :
    Reads file ((List.range count).foldlM (checkList file.length uninit) ⟨⟩)
      ((List.range count).flatMap graph.listBytes) ⟨⟩ := by
  refine reads_foldlM_unit fun id hid => reads_checkElement hstorable uninit ?_
  exact lt_of_lt_of_le (List.mem_range.mp hid) hcount

/-! ## The lists of a saved index -/

/-- What one turn of the last loop adds. -/
def loadNext (graph : Graph D) (mult : UInt64) (level0 : List UInt8) (loaded : Loaded)
    (id : Nat) : Loaded where
  labelLookup := Function.update loaded.labelLookup ((graph.header mult).labelAt level0 id) (some id)
  elementLevels := Function.update loaded.elementLevels id
    ((graph.linkListSize id).toNat / (graph.header mult).sizeLinksPerElement)
  linkLists := Function.update loaded.linkLists id (graph.linkListBytes id)

theorem reads_loadList (hstorable : graph.Storable) (mult : UInt64) (level0 : List UInt8)
    (uninit : UInt32) (loaded : Loaded) (hid : id < graph.curElementCount) :
    Reads file ((graph.header mult).loadList level0 uninit loaded id) (graph.listBytes id)
      (graph.loadNext mult level0 loaded id) := by
  have hsize := toNat_linkListSize hstorable hid
  rw [listBytes_eq hstorable hid]
  refine (reads_readUnsigned uninit (graph.linkListSize id)).bind ?_
  split
  · next hzero =>
      rw [hzero] at hsize
      have hnone : graph.linkListBytes id = [] := List.length_eq_zero_iff.mp hsize.symm
      rw [loadNext, hnone, hzero]
      simpa using reads_pure
  · exact (reads_readInto (by rw [List.length_replicate, hsize])).map _

/-- The members that the last loop has filled after some turns. -/
def loadedUpTo (graph : Graph D) (mult : UInt64) (level0 : List UInt8) (count : Nat) : Loaded :=
  (List.range count).foldl (graph.loadNext mult level0) ⟨fun _ => none, fun _ => 0, fun _ => []⟩

theorem loadedUpTo_succ (mult : UInt64) (level0 : List UInt8) (count : Nat) :
    graph.loadedUpTo mult level0 (count + 1) =
      graph.loadNext mult level0 (graph.loadedUpTo mult level0 count) count := by
  rw [loadedUpTo, List.range_succ, List.foldl_append]
  rfl

/-- What a turn stores for its element stays. -/
theorem loadedUpTo_at (mult : UInt64) (level0 : List UInt8) {count : Nat} (hid : id < count) :
    (graph.loadedUpTo mult level0 count).linkLists id = graph.linkListBytes id ∧
      (graph.loadedUpTo mult level0 count).elementLevels id =
        (graph.linkListSize id).toNat / (graph.header mult).sizeLinksPerElement := by
  induction count with
  | zero => omega
  | succ count ih =>
      simp only [loadedUpTo_succ, loadNext]
      by_cases heq : id = count
      · rw [heq, Function.update_self, Function.update_self]
        exact ⟨rfl, rfl⟩
      · rw [Function.update_of_ne heq, Function.update_of_ne heq]
        exact ih (by omega)

theorem reads_loadLists (hstorable : graph.Storable) (mult : UInt64) (level0 : List UInt8)
    (uninit : UInt32) {count : Nat} (hcount : count ≤ graph.curElementCount) :
    Reads file
      ((List.range count).foldlM ((graph.header mult).loadList level0 uninit)
        ⟨fun _ => none, fun _ => 0, fun _ => []⟩)
      ((List.range count).flatMap graph.listBytes) (graph.loadedUpTo mult level0 count) := by
  refine reads_foldlM (fun loaded id hid => ?_) _
  exact reads_loadList hstorable mult level0 uninit loaded
    (lt_of_lt_of_le (List.mem_range.mp hid) hcount)

/-- Different elements have different labels, so none replaces another in the table. -/
theorem labelLookup_loadedUpTo (mult : UInt64) (level0 : List UInt8) {count : Nat}
    (hdistinct : ∀ first < count, ∀ second < count,
      (graph.header mult).labelAt level0 first = (graph.header mult).labelAt level0 second →
        first = second)
    (label : UInt64) :
    (graph.loadedUpTo mult level0 count).labelLookup label = some id ↔
      id < count ∧ (graph.header mult).labelAt level0 id = label := by
  induction count with
  | zero => simp [loadedUpTo]
  | succ count ih =>
      have hbelow := ih fun first hfirst second hsecond =>
        hdistinct first (by omega) second (by omega)
      rw [loadedUpTo_succ]
      change Function.update (graph.loadedUpTo mult level0 count).labelLookup
        ((graph.header mult).labelAt level0 count) (some count) label = some id ↔ _
      by_cases hlabel : label = (graph.header mult).labelAt level0 count
      · rw [hlabel, Function.update_self, Option.some.injEq]
        constructor
        · rintro rfl
          exact ⟨Nat.lt_succ_self _, rfl⟩
        · rintro ⟨hid, hsame⟩
          exact (hdistinct id hid count (Nat.lt_succ_self _) hsame).symm
      · rw [Function.update_of_ne hlabel, hbelow]
        refine and_congr_left fun hsame => ⟨fun hid => by omega, fun hid => ?_⟩
        have hne : id ≠ count := by
          rintro rfl
          exact hlabel hsame.symm
        omega

theorem toNat_maxElements (graph : Graph D) (mult : UInt64) :
    (graph.header mult).maxElements.toNat = graph.maxElements :=
  UInt64.toNat_ofNat_of_lt' (lt_trans graph.maxElements_lt (by decide))

theorem room_header_lt (graph : Graph D) (mult : UInt64) (maxElementsI : Capacity) :
    (graph.header mult).room maxElementsI.count < 2 ^ 31 := by
  rw [Header.room, toNat_maxElements]
  split
  · exact graph.maxElements_lt
  · exact maxElementsI.count_lt

/-- The index that is loaded from the file of another. -/
def reloaded (graph : Graph D) (format : ComponentFormat D) (mult : UInt64)
    (maxElementsI : Capacity) (memory : Memory D) (numDeleted : UInt64) : Graph D :=
  (graph.header mult).graph format graph.dataSize graph.fstdistfunc maxElementsI.count
    (graph.room_header_lt mult maxElementsI) memory (graph.dataLevel0Memory format)
    (graph.loadedUpTo mult (graph.dataLevel0Memory format) graph.curElementCount) numDeleted

end Reading

/-- The lists as they stand in the file. -/
def listsBytes (graph : Graph D) : List UInt8 :=
  (List.range graph.curElementCount).flatMap graph.listBytes

variable (format) in
/-- The stream behind the members of a saved index. -/
def behindHeader (graph : Graph D) (mult : UInt64) : FileStream :=
  after (graph.header mult).bytes (graph.dataLevel0Memory format ++ graph.listsBytes)

theorem saveIndex_parts (mult : UInt64) :
    (graph.header mult).bytes ++ (graph.dataLevel0Memory format ++ graph.listsBytes) =
      graph.saveIndex format mult := rfl

theorem readHeader_run (mult : UInt64) (uninit : Header) :
    readHeader uninit ⟨graph.saveIndex format mult, 0, false⟩ =
      .ok (graph.header mult) (graph.behindHeader format mult) :=
  reads_readHeader uninit (graph.header mult) [] _ (saveIndex_parts mult)

theorem checkIndex_run (hstorable : graph.Storable) (mult : UInt64) (uninit : UInt32) :
    checkIndex (graph.header mult) (graph.saveIndex format mult).length uninit
        (graph.behindHeader format mult) =
      .ok ⟨⟩ (after (graph.saveIndex format mult) []) := by
  have hreads : Reads (graph.saveIndex format mult)
      (skip (graph.header mult).level0Size.toInt64.toInt >>= fun _ =>
        (List.range graph.curElementCount).foldlM
          (checkList (graph.saveIndex format mult).length uninit) ⟨⟩)
      (graph.dataLevel0Memory format ++ graph.listsBytes) ⟨⟩ :=
    (reads_skip (toInt_level0Size format hstorable mult)).bind
      (reads_checkLists hstorable uninit le_rfl)
  have hlists := hreads (graph.header mult).bytes []
    (by rw [List.append_nil, saveIndex_parts])
  rw [List.append_nil, saveIndex_parts] at hlists
  rw [checkIndex_eq, toNat_count hstorable]
  refine (bind_of_ok hlists).trans ?_
  have hend : ¬ (after (graph.saveIndex format mult) []).tellg ≠
      (graph.saveIndex format mult).length := not_not.mpr (tellg_after _ _)
  change (if _ then _ else _ : Loading PUnit) _ = _
  rw [if_neg hend]
  rfl

theorem readLevel0_run (hstorable : graph.Storable) (mult : UInt64) :
    readInto (List.replicate (graph.header mult).level0Size.toNat 0)
        { after (graph.saveIndex format mult) [] with
          pos := (graph.behindHeader format mult).pos, failed := false } =
      (.ok (graph.dataLevel0Memory format)
        (after ((graph.header mult).bytes ++ graph.dataLevel0Memory format)
          graph.listsBytes) : EStateM.Result BuildError _ _) := by
  have hsize : (graph.header mult).level0Size.toNat = (graph.dataLevel0Memory format).length := by
    rw [level0Size_header, length_dataLevel0Memory format hstorable]
    exact UInt64.toNat_ofNat_of_lt' (lt_trans hstorable.level0_lt (by decide))
  have hstream : { after (graph.saveIndex format mult) [] with
      pos := (graph.behindHeader format mult).pos, failed := false } =
      graph.behindHeader format mult := by
    rw [after, List.append_nil]
    rfl
  rw [hstream]
  exact reads_readInto (by rw [List.length_replicate, hsize]) _ _ (saveIndex_parts mult)

theorem loadLists_run (hstorable : graph.Storable) (mult : UInt64) (uninit : UInt32) :
    (List.range (graph.header mult).curElementCount.toNat).foldlM
        ((graph.header mult).loadList (graph.dataLevel0Memory format) uninit)
        ⟨fun _ => none, fun _ => 0, fun _ => []⟩
        (after ((graph.header mult).bytes ++ graph.dataLevel0Memory format)
          graph.listsBytes) =
      .ok (graph.loadedUpTo mult (graph.dataLevel0Memory format) graph.curElementCount)
        (after (graph.saveIndex format mult) []) := by
  have hreads : Reads (graph.saveIndex format mult)
      ((List.range graph.curElementCount).foldlM
        ((graph.header mult).loadList (graph.dataLevel0Memory format) uninit)
        ⟨fun _ => none, fun _ => 0, fun _ => []⟩) graph.listsBytes
      (graph.loadedUpTo mult (graph.dataLevel0Memory format) graph.curElementCount) :=
    reads_loadLists hstorable mult _ uninit le_rfl
  have hrun := hreads ((graph.header mult).bytes ++ graph.dataLevel0Memory format) []
    (by rw [List.append_nil, List.append_assoc, saveIndex_parts])
  rw [List.append_nil, List.append_assoc, saveIndex_parts] at hrun
  rw [toNat_count hstorable]
  exact hrun

/-- The number of marks that `loadIndex` finds. -/
def markedCount (graph : Graph D) (format : ComponentFormat D) (mult : UInt64)
    (maxElementsI : Capacity) (memory : Memory D) : Nat :=
  (List.range (graph.header mult).curElementCount.toNat).countP
    (graph.reloaded format mult maxElementsI memory 0).isMarkedDeleted

/-- The whole run of `loadIndex` on a saved index. -/
theorem loadIndex_saveIndex_eq (hstorable : graph.Storable) (mult : UInt64)
    (maxElementsI : Capacity) (uninit : Uninitialised D) :
    loadIndex format graph.dataSize graph.fstdistfunc maxElementsI.count uninit
        (some (graph.saveIndex format mult)) =
      .ok (graph.reloaded format mult maxElementsI uninit.memory (uninit.numDeleted +
        UInt64.ofNat (graph.markedCount format mult maxElementsI uninit.memory))) := by
  have hrun : loadFile format graph.dataSize graph.fstdistfunc maxElementsI.count uninit
      ⟨graph.saveIndex format mult, 0, false⟩ =
      .ok (graph.reloaded format mult maxElementsI uninit.memory (uninit.numDeleted +
        UInt64.ofNat (graph.markedCount format mult maxElementsI uninit.memory)))
        (after (graph.saveIndex format mult) []) := by
    unfold loadFile
    refine (bind_of_ok rfl).trans ?_
    refine (bind_of_ok (readHeader_run mult uninit.header)).trans ?_
    refine (bind_of_ok rfl).trans ?_
    refine (bind_of_ok (checkIndex_run hstorable mult uninit.linkListSize)).trans ?_
    refine (bind_of_ok rfl).trans ?_
    rw [dif_pos (graph.room_header_lt mult maxElementsI)]
    refine (bind_of_ok (readLevel0_run hstorable mult)).trans ?_
    refine (bind_of_ok (loadLists_run hstorable mult uninit.linkListSize)).trans ?_
    rfl
  exact loadIndex_of_run hrun

/-! ## What is loaded -/

/-- `loaded` has the elements of `graph`, with their links and marks. -/
structure Restores (graph loaded : Graph D) : Prop where
  dataSize : loaded.dataSize = graph.dataSize
  fstdistfunc : loaded.fstdistfunc = graph.fstdistfunc
  M : loaded.M = graph.M
  maxM : loaded.maxM = graph.maxM
  maxM0 : loaded.maxM0 = graph.maxM0
  efConstruction : loaded.efConstruction = graph.efConstruction
  count : loaded.curElementCount = graph.curElementCount
  maxlevel : loaded.maxlevel = graph.maxlevel
  enterpointNode : loaded.enterpointNode = graph.enterpointNode
  levels : ∀ id < graph.curElementCount, loaded.elementLevels id = graph.elementLevels id
  links : ∀ level id, graph.At level id → loaded.links id level = graph.links id level
  marks : ∀ id < graph.curElementCount, loaded.isMarkedDeleted id = graph.isMarkedDeleted id
  data : ∀ id < graph.curElementCount,
    loaded.getDataByInternalId id = graph.getDataByInternalId id
  labels : ∀ id < graph.curElementCount, loaded.getExternalLabel id = graph.getExternalLabel id
  lookup : loaded.labelLookup = graph.labelLookup

section Header

variable (hstorable : graph.Storable) (mult : UInt64)
include hstorable

theorem toNat_sizeDataPerElement :
    (graph.header mult).sizeDataPerElement.toNat = graph.sizeDataPerElement :=
  UInt64.toNat_ofNat_of_lt' hstorable.size_lt

theorem toNat_labelOffset : (graph.header mult).labelOffset.toNat = graph.labelOffset :=
  UInt64.toNat_ofNat_of_lt' (lt_of_le_of_lt (Nat.le_add_right _ 8) hstorable.size_lt)

theorem toNat_offsetData : (graph.header mult).offsetData.toNat = graph.offsetData := by
  refine UInt64.toNat_ofNat_of_lt' (lt_of_le_of_lt ?_ hstorable.size_lt)
  rw [offsetData, sizeDataPerElement, Nat.add_assoc]
  exact Nat.le_add_right _ _

theorem labelAt_saved (hid : id < graph.curElementCount) :
    (graph.header mult).labelAt (graph.dataLevel0Memory format) id =
      graph.getExternalLabel id := by
  have hword : wordAt 8 (graph.dataLevel0Memory format)
      (id * graph.sizeDataPerElement + graph.labelOffset) =
        (graph.getExternalLabel id).toNat % 2 ^ 64 := (standsAt_label hstorable hid).wordAt
  rw [Header.labelAt, toNat_sizeDataPerElement hstorable, toNat_labelOffset hstorable, hword,
    Nat.mod_eq_of_lt (graph.getExternalLabel id).toNat_lt, UInt64.ofNat_toNat]

end Header

theorem Linked.maxM_lt (hlinked : graph.Linked) : graph.maxM < 65536 := hlinked.room_lt 1

theorem Linked.maxM0_lt (hlinked : graph.Linked) : graph.maxM0 < 65536 := hlinked.room_lt 0

theorem Linked.M_lt (hlinked : graph.Linked) : graph.M < 65536 :=
  lt_of_le_of_lt (hlinked.M_le 0) (hlinked.room_lt 0)

theorem sizeLinksPerElement_header (hlinked : graph.Linked) (mult : UInt64) :
    (graph.header mult).sizeLinksPerElement = graph.sizeLinksPerElement := by
  have hmaxM := hlinked.maxM_lt
  have hsize : (graph.header mult).maxM * 4 + 4 = UInt64.ofNat (graph.maxM * 4 + 4) := by
    rw [UInt64.ofNat_add, UInt64.ofNat_mul]
    rfl
  rw [Header.sizeLinksPerElement, hsize]
  exact UInt64.toNat_ofNat_of_lt' (by change _ < 2 ^ 64; omega)

/-- The lists of an element above the base layer, in the memory that was read for it. -/
theorem standsAt_list {level : Nat} (hlevel : level < graph.elementLevels id) :
    StandsAt (graph.linkListBytes id) ((graph.getLinklistAtLevel id (level + 1)).bytes graph.maxM)
      (level * graph.sizeLinksPerElement) := by
  have hblock := (standsAt_self (graph.linkListBytes id)).nth (fun _ _ => length_bytes _ _)
    (show level < (List.range (graph.elementLevels id)).length by simpa using hlevel)
  rwa [List.getElem_range, Nat.zero_add] at hblock

section Reloaded

variable (hintegrity : graph.Integrity) (hstorable : graph.Storable) (mult : UInt64)
variable (maxElementsI : Capacity) (memory : Memory D) (numDeleted : UInt64)
include hstorable

theorem reloaded_count :
    (graph.reloaded format mult maxElementsI memory numDeleted).curElementCount =
      graph.curElementCount :=
  toNat_count hstorable mult

theorem reloaded_list0 (hid : id < graph.curElementCount) :
    (graph.reloaded format mult maxElementsI memory numDeleted).getLinklistAtLevel id 0 =
      .ofMemory (graph.dataLevel0Memory format) (id * graph.sizeDataPerElement) := by
  change (if (graph.header mult).curElementCount.toNat ≤ id then _ else _) = _
  rw [toNat_count hstorable, if_neg (Nat.not_le.mpr hid), if_pos rfl,
    toNat_sizeDataPerElement hstorable]
  rfl

theorem reloaded_marks (hid : id < graph.curElementCount) :
    (graph.reloaded format mult maxElementsI memory numDeleted).isMarkedDeleted id =
      graph.isMarkedDeleted id := by
  rw [isMarkedDeleted, reloaded_list0 hstorable mult maxElementsI memory numDeleted hid]
  exact LinkList.isMarked_ofMemory (standsAt_list0 hstorable hid)

theorem reloaded_data (hid : id < graph.curElementCount) :
    (graph.reloaded format mult maxElementsI memory numDeleted).getDataByInternalId id =
      graph.getDataByInternalId id := by
  change (if (graph.header mult).curElementCount.toNat ≤ id then _ else _) = _
  rw [toNat_count hstorable, if_neg (Nat.not_le.mpr hid), toNat_sizeDataPerElement hstorable,
    toNat_offsetData hstorable]
  refine List.ext_getElem (by simp [hstorable.components id hid]) ?_
  intro component _ hcomponent
  have hstands := (standsAt_data format hstorable hid).nth
    (fun _ _ => length_writeUnsigned _) hcomponent
  rw [Nat.mul_comm component] at hstands
  have hword : wordAt 4 (graph.dataLevel0Memory format)
      (id * graph.sizeDataPerElement + graph.offsetData + 4 * component) =
        (format.toWord (graph.getDataByInternalId id)[component]).toNat % 2 ^ 32 := hstands.wordAt
  rw [List.getElem_map, List.getElem_range, hword, Nat.mod_eq_of_lt (UInt32.toNat_lt _),
    UInt32.ofNat_toNat, format.ofWord_toWord]

theorem reloaded_labels (hid : id < graph.curElementCount) :
    (graph.reloaded format mult maxElementsI memory numDeleted).getExternalLabel id =
      graph.getExternalLabel id := by
  change (if (graph.header mult).curElementCount.toNat ≤ id then _ else _) = _
  rw [toNat_count hstorable, if_neg (Nat.not_le.mpr hid)]
  exact labelAt_saved hstorable mult hid

include hintegrity

theorem reloaded_levels (hid : id < graph.curElementCount) :
    (graph.reloaded format mult maxElementsI memory numDeleted).elementLevels id =
      graph.elementLevels id := by
  have hpositive : 0 < graph.sizeLinksPerElement := Nat.succ_pos _
  change (graph.loadedUpTo mult _ graph.curElementCount).elementLevels id = _
  rw [(loadedUpTo_at mult _ hid).2, toNat_linkListSize hstorable hid, length_linkListBytes,
    sizeLinksPerElement_header hintegrity.linked]
  exact Nat.mul_div_cancel_left _ hpositive

theorem reloaded_links {level : Nat} (hat : graph.At level id) :
    (graph.reloaded format mult maxElementsI memory numDeleted).links id level =
      graph.links id level := by
  have hlists := hintegrity.linked.lists level id hat
  have hids : ∀ link ∈ graph.links id level, link < 2 ^ 32 := fun link hlink =>
    lt_trans (hlists.at_level link hlink).1 hstorable.count_lt
  cases level with
  | zero =>
      rw [links, reloaded_list0 hstorable mult maxElementsI memory numDeleted hat.1]
      exact LinkList.links_ofMemory (standsAt_list0 hstorable hat.1) hlists.length_le hids
  | succ level =>
      have hlist : (graph.reloaded format mult maxElementsI memory numDeleted).getLinklistAtLevel
          id (level + 1) =
            .ofMemory (graph.linkListBytes id) (level * graph.sizeLinksPerElement) := by
        change (if (graph.header mult).curElementCount.toNat ≤ id then _ else _) = _
        rw [toNat_count hstorable, if_neg (Nat.not_le.mpr hat.1), if_neg (Nat.succ_ne_zero level),
          (loadedUpTo_at mult _ hat.1).1, sizeLinksPerElement_header hintegrity.linked]
        rfl
      rw [links, hlist]
      exact LinkList.links_ofMemory (standsAt_list hat.2) hlists.length_le hids

theorem reloaded_lookup :
    (graph.reloaded format mult maxElementsI memory numDeleted).labelLookup =
      graph.labelLookup := by
  funext label
  refine Option.ext fun id => ?_
  change (graph.loadedUpTo mult _ graph.curElementCount).labelLookup label = some id ↔ _
  rw [labelLookup_loadedUpTo mult _ ?_ label, hintegrity.lookup_iff]
  · refine and_congr_right fun hid => ?_
    rw [labelAt_saved hstorable mult hid]
  · intro first hfirst second hsecond hsame
    rw [labelAt_saved hstorable mult hfirst, labelAt_saved hstorable mult hsecond] at hsame
    have hfound := (hintegrity.lookup_iff _ first).mpr ⟨hfirst, rfl⟩
    rw [hsame, (hintegrity.lookup_iff _ second).mpr ⟨hsecond, rfl⟩] at hfound
    exact (Option.some.inj hfound).symm

theorem reloaded_maxlevel :
    (graph.reloaded format mult maxElementsI memory numDeleted).maxlevel = graph.maxlevel := by
  have hlow : -2 ^ 31 ≤ graph.maxlevel := by
    cases hentry : graph.enterpointNode with
    | none =>
        rw [(hintegrity.entered.of_none hentry).2]
        decide
    | some entry =>
        obtain ⟨maxLevel, hmaxlevel, _⟩ := hintegrity.entered.of_some entry hentry
        omega
  change (Int32.ofInt graph.maxlevel).toUInt32.toInt32.toInt = _
  rw [Int32.toInt32_toUInt32]
  exact Int32.toInt_ofInt_of_le hlow hstorable.maxlevel_lt

theorem reloaded_enterpointNode :
    (graph.reloaded format mult maxElementsI memory numDeleted).enterpointNode =
      graph.enterpointNode := by
  change (if (graph.header mult).enterpointNode = 0xFFFFFFFF then none
    else some (graph.header mult).enterpointNode.toNat) = _
  rw [header]
  cases hentry : graph.enterpointNode with
  | none => rfl
  | some entry =>
      -- An id is smaller than the number of elements, so it is not the -1 of an empty index.
      obtain ⟨_, _, hat, _⟩ := hintegrity.entered.of_some entry hentry
      have hentry_lt : entry + 1 < 2 ^ 32 := lt_of_le_of_lt hat.1 hstorable.count_lt
      have htoNat : (UInt32.ofNat entry).toNat = entry :=
        UInt32.toNat_ofNat_of_lt' (show entry < 2 ^ 32 by omega)
      have hne : UInt32.ofNat entry ≠ 0xFFFFFFFF := by
        intro heq
        rw [heq] at htoNat
        change 4294967295 = entry at htoNat
        omega
      simp only [if_neg hne, htoNat]

theorem reloaded_restores :
    graph.Restores (graph.reloaded format mult maxElementsI memory numDeleted) where
  dataSize := rfl
  fstdistfunc := rfl
  M := UInt64.toNat_ofNat_of_lt' (lt_trans hintegrity.linked.M_lt (by decide))
  maxM := UInt64.toNat_ofNat_of_lt' (lt_trans hintegrity.linked.maxM_lt (by decide))
  maxM0 := UInt64.toNat_ofNat_of_lt' (lt_trans hintegrity.linked.maxM0_lt (by decide))
  efConstruction := UInt64.toNat_ofNat_of_lt' hstorable.efConstruction_lt
  count := reloaded_count hstorable mult maxElementsI memory numDeleted
  maxlevel := reloaded_maxlevel hintegrity hstorable mult maxElementsI memory numDeleted
  enterpointNode :=
    reloaded_enterpointNode hintegrity hstorable mult maxElementsI memory numDeleted
  levels := fun _ hid =>
    reloaded_levels hintegrity hstorable mult maxElementsI memory numDeleted hid
  links := fun _ _ hat =>
    reloaded_links hintegrity hstorable mult maxElementsI memory numDeleted hat
  marks := fun _ hid => reloaded_marks hstorable mult maxElementsI memory numDeleted hid
  data := fun _ hid => reloaded_data hstorable mult maxElementsI memory numDeleted hid
  labels := fun _ hid => reloaded_labels hstorable mult maxElementsI memory numDeleted hid
  lookup := reloaded_lookup hintegrity hstorable mult maxElementsI memory numDeleted

end Reloaded

variable (format) in
theorem markedCount_eq (hstorable : graph.Storable) (mult : UInt64) (maxElementsI : Capacity)
    (memory : Memory D) :
    graph.markedCount format mult maxElementsI memory = graph.deleted.card := by
  rw [markedCount, toNat_count hstorable, List.countP_congr fun id hid => by
    rw [reloaded_marks hstorable mult maxElementsI memory 0 (List.mem_range.mp hid)]]
  have hmarked : ((List.range graph.curElementCount).filter graph.isMarkedDeleted).toFinset =
      graph.deleted := by
    ext id
    rw [List.mem_toFinset, List.mem_filter, List.mem_range, mem_deleted]
  rw [List.countP_eq_length_filter, ← hmarked,
    List.toFinset_card_of_nodup (List.nodup_range.filter _)]

namespace Restores

variable {loaded : Graph D}

theorem at_iff (hrestores : graph.Restores loaded) (level id : Nat) :
    loaded.At level id ↔ graph.At level id := by
  rw [At, At, hrestores.count]
  refine and_congr_right fun hid => ?_
  rw [hrestores.levels id hid]

theorem Mcurmax_eq (hrestores : graph.Restores loaded) (level : Nat) :
    loaded.Mcurmax level = graph.Mcurmax level := by
  rw [Mcurmax, Mcurmax, hrestores.maxM, hrestores.maxM0]

theorem linked (hrestores : graph.Restores loaded) (hlinked : graph.Linked)
    (hpool : loaded.visitedListPool.Sound ∅) : loaded.Linked where
  M_pos := by rw [hrestores.M]; exact hlinked.M_pos
  ef_pos := by rw [hrestores.efConstruction]; exact hlinked.ef_pos
  M_le := by
    intro level
    rw [hrestores.M, hrestores.Mcurmax_eq]
    exact hlinked.M_le level
  room_lt := by
    intro level
    rw [hrestores.Mcurmax_eq]
    exact hlinked.room_lt level
  lists := by
    intro level id hat
    rw [hrestores.at_iff] at hat
    have hlists := hlinked.lists level id hat
    rw [hrestores.links level id hat]
    refine ⟨?_, hlists.nodup, hlists.ne_self, fun link hlink => ?_⟩
    · rw [hrestores.Mcurmax_eq]
      exact hlists.length_le
    · exact (hrestores.at_iff level link).mpr (hlists.at_level link hlink)
  pool := hpool

theorem deleted_eq (hrestores : graph.Restores loaded) : loaded.deleted = graph.deleted := by
  ext id
  rw [mem_deleted, mem_deleted, hrestores.count]
  refine and_congr_right fun hid => ?_
  rw [hrestores.marks id hid]

theorem entered (hrestores : graph.Restores loaded) (hentered : graph.Entered) :
    loaded.Entered where
  of_none := by
    rw [hrestores.enterpointNode, hrestores.count, hrestores.maxlevel]
    exact hentered.of_none
  of_some := by
    intro entry hentry
    rw [hrestores.enterpointNode] at hentry
    obtain ⟨maxLevel, hmaxlevel, hat, hhighest⟩ := hentered.of_some entry hentry
    refine ⟨maxLevel, hrestores.maxlevel.trans hmaxlevel, (hrestores.at_iff _ _).mpr hat, ?_⟩
    intro id hid
    rw [hrestores.count] at hid
    rw [hrestores.levels id hid]
    exact hhighest id hid

theorem integrity (hrestores : graph.Restores loaded) (hintegrity : graph.Integrity)
    (hpool : loaded.visitedListPool.Sound ∅)
    (hcount : graph.curElementCount ≤ loaded.maxElements)
    (hdeleted : loaded.numDeleted = graph.numDeleted) : loaded.Integrity where
  linked := hrestores.linked hintegrity.linked hpool
  count_le := by rw [hrestores.count]; exact hcount
  entered := hrestores.entered hintegrity.entered
  lookup_iff := by
    intro label id
    rw [hrestores.lookup, hrestores.count, hintegrity.lookup_iff]
    refine and_congr_right fun hid => ?_
    rw [hrestores.labels id hid]
  counted := by rw [hdeleted, hrestores.deleted_eq]; exact hintegrity.counted
  stored := by
    intro id hid
    rw [hrestores.count] at hid
    rw [hrestores.data id hid, hrestores.dataSize]
    exact hintegrity.stored id hid

end Restores

/-- What is needed of the loaded index beside what it restores. -/
theorem loadIndex_ok (hintegrity : graph.Integrity) (hstorable : graph.Storable)
    (format : ComponentFormat D) (mult : UInt64) (maxElementsI : Capacity)
    (uninit : Uninitialised D) :
    ∃ loaded, loadIndex format graph.dataSize graph.fstdistfunc maxElementsI.count uninit
        (some (graph.saveIndex format mult)) = .ok loaded ∧
      graph.Restores loaded ∧ loaded.visitedListPool.Sound ∅ ∧
      loaded.maxElements =
        (if maxElementsI.count < graph.curElementCount then graph.maxElements
          else maxElementsI.count) ∧
      loaded.numDeleted = uninit.numDeleted + graph.numDeleted := by
  refine ⟨_, loadIndex_saveIndex_eq hstorable mult maxElementsI uninit,
    reloaded_restores hintegrity hstorable mult maxElementsI uninit.memory _,
    VisitedListPool.new_sound uninit.memory.marks, ?_, ?_⟩
  · change (graph.header mult).room maxElementsI.count = _
    rw [Header.room, toNat_count hstorable, toNat_maxElements]
  · rw [hintegrity.counted, ← markedCount_eq format hstorable mult maxElementsI
      uninit.memory]
    rfl

/-- The room that is left is enough for the elements. -/
theorem Integrity.count_le_reloaded (hintegrity : graph.Integrity) (maxElementsI : Nat) :
    graph.curElementCount ≤
      if maxElementsI < graph.curElementCount then graph.maxElements else maxElementsI := by
  split
  · exact hintegrity.count_le
  · next hroom => exact Nat.not_lt.mp hroom

/-- A saved index is loaded as it was, and is in order if nothing was in the memory of
`num_deleted_`. Its room is what the caller asks for, unless that is too small. -/
theorem loadIndex_saveIndex (hintegrity : graph.Integrity) (hstorable : graph.Storable)
    (format : ComponentFormat D) (mult : UInt64) (maxElementsI : Capacity)
    (uninit : Uninitialised D) :
    ∃ loaded, loadIndex format graph.dataSize graph.fstdistfunc maxElementsI.count uninit
        (some (graph.saveIndex format mult)) = .ok loaded ∧
      graph.Restores loaded ∧
      loaded.maxElements =
        (if maxElementsI.count < graph.curElementCount then graph.maxElements
          else maxElementsI.count) ∧
      loaded.numDeleted = uninit.numDeleted + graph.numDeleted ∧
      (loaded.Integrity ↔ uninit.numDeleted = 0) := by
  obtain ⟨loaded, hload, hrestores, hpool, hmax, hdeleted⟩ :=
    loadIndex_ok hintegrity hstorable format mult maxElementsI uninit
  refine ⟨loaded, hload, hrestores, hmax, hdeleted, ?_, ?_⟩
  · intro hloaded
    have hcounted := hloaded.counted
    rw [hdeleted, hrestores.deleted_eq, ← hintegrity.counted] at hcounted
    exact add_eq_right.mp hcounted
  · intro huninit
    refine hrestores.integrity hintegrity hpool ?_ (by rw [hdeleted, huninit, UInt64.zero_add])
    rw [hmax]
    exact hintegrity.count_le_reloaded maxElementsI.count

end Graph

/-! ## Runs across a reload -/

/-- A dictionary with the room that `loadIndex` gives it. -/
def Dictionary.reload {D : Type} (dict : Dictionary D) (maxElementsI : Nat) : Dictionary D :=
  { dict with maxElements := if maxElementsI < dict.labels.card then dict.maxElements
                             else maxElementsI }

namespace Graph

variable {D : Type} {graph loaded : Graph D}

theorem Restores.dictionary (hrestores : graph.Restores loaded) (hintegrity : graph.Integrity)
    (hloaded : loaded.Integrity) {maxElementsI : Nat}
    (hmax : loaded.maxElements =
      if maxElementsI < graph.curElementCount then graph.maxElements else maxElementsI) :
    hloaded.dictionary = hintegrity.dictionary.reload maxElementsI := by
  ext1
  · exact hrestores.dataSize
  · change loaded.maxElements = if maxElementsI < graph.labels.card then _ else _
    rw [hintegrity.card_labels, hmax]
    rfl
  · change loaded.labels = graph.labels
    rw [Graph.labels, Graph.labels, hrestores.count]
    refine Finset.image_congr fun id hid => ?_
    exact hrestores.labels id (Finset.mem_range.mp hid)
  · funext label
    change loaded.entries label = graph.entries label
    rw [entries, entries, hrestores.lookup]
    cases hlookup : graph.labelLookup label with
    | none => rfl
    | some id =>
        have hid := hintegrity.lt_of_lookup hlookup
        rw [Option.map_some, Option.map_some, hrestores.data id hid, hrestores.deleted_eq]

end Graph

section

variable {Q : {T K : Type} → [LinearOrder K] → (T → K) → Type} [PriorityQueue Q]
variable {D : Type} [LinearOrder D] {dataSize M efConstruction : Nat} {maxElements : Capacity}
variable {fstdistfunc : List D → List D → D} {memory : Memory D}
variable {ops more : List (Operation D)} {middle loaded final : Graph D}

/-- An index that is saved and loaded between its calls reads every label like a dictionary that
was there all the time. -/
theorem run_across_reload (hM : 0 < M) (hroom : M * 2 < 65536)
    (hrun : performAll Q ops
      (Graph.new dataSize fstdistfunc maxElements M efConstruction memory) = some middle)
    (hstorable : middle.Storable) {format : ComponentFormat D} {mult : UInt64}
    {maxElementsI : Capacity} {uninit : Uninitialised D} (huninit : uninit.numDeleted = 0)
    (hload : loadIndex format middle.dataSize middle.fstdistfunc maxElementsI.count uninit
      (some (middle.saveIndex format mult)) = .ok loaded)
    (hmore : performAll Q more loaded = some final) :
    final.Integrity ∧ ∀ label, Yields (Graph.getDataByLabel label) final
      (fun data after => after = final ∧
        ((((Dictionary.new dataSize maxElements.count).applyAll ops).reload
          maxElementsI.count).applyAll more).getDataByLabel label = Except.ok data)
      (fun failure after => after = final ∧ ∃ what, failure = .runtimeError what ∧
        ((((Dictionary.new dataSize maxElements.count).applyAll ops).reload
          maxElementsI.count).applyAll more).getDataByLabel label = Except.error what) := by
  obtain ⟨hmiddle, hbefore⟩ := dictionary_of_run hM hroom hrun
  obtain ⟨found, hfound, hrestores, hpool, hmax, hdeleted⟩ :=
    Graph.loadIndex_ok hmiddle hstorable format mult maxElementsI uninit
  obtain rfl : found = loaded := Except.ok.inj (hfound.symm.trans hload)
  have hloaded : found.Integrity := by
    refine hrestores.integrity hmiddle hpool ?_ (by rw [hdeleted, huninit, UInt64.zero_add])
    rw [hmax]
    exact hmiddle.count_le_reloaded maxElementsI.count
  obtain ⟨hfinal, hafter⟩ := performAll_refines hloaded hmore
  refine ⟨hfinal, fun label => ?_⟩
  rw [hbefore, ← hrestores.dictionary hmiddle hloaded hmax, hafter]
  exact Graph.getDataByLabel_yields hfinal label

end

/-! ## An index of bytes -/

/-- Two points on different levels, of which one is deleted. -/
def byteCalls : List (Operation (Fin 256)) :=
  [.addPoint (drawLevel 0) [byteOf 3] 10 (-1), .addPoint (drawLevel 1) [byteOf 8] 20 (-1),
    .markDelete 10]

/-- Room for more points than were saved. -/
def byteRoom : Capacity := ⟨9, by decide⟩

/-- What `loadIndex` makes of the file of an index of bytes. -/
def reloadBytes (graph : Graph (Fin 256)) : Except BuildError (Graph (Fin 256)) :=
  loadIndex byteFormat graph.dataSize graph.fstdistfunc byteRoom.count byteUninit
    (some (graph.saveIndex byteFormat 1))

theorem byteCalls_storable :
    ∃ graph, performAll @SortedQueue byteCalls byteIndex = some graph ∧ graph.Integrity ∧
      graph.Storable := by
  have hrun : (performAll @SortedQueue byteCalls byteIndex).any
      (fun graph => decide graph.Storable) = true := by decide +kernel
  cases hgraph : performAll @SortedQueue byteCalls byteIndex with
  | none =>
      rw [hgraph] at hrun
      exact absurd hrun Bool.false_ne_true
  | some graph =>
      rw [hgraph] at hrun
      have hnew : byteIndex.Integrity :=
        Graph.new_integrity 1 byteDistance byteCapacity (by decide) (by decide) 3 byteMemory
      exact ⟨graph, rfl, (performAll_refines hnew hgraph).1, of_decide_eq_true hrun⟩

theorem loadIndex_saveIndex_bytes :
    ∃ graph loaded, performAll @SortedQueue byteCalls byteIndex = some graph ∧
      reloadBytes graph = .ok loaded ∧ graph.Restores loaded ∧ loaded.Integrity := by
  obtain ⟨graph, hrun, hintegrity, hstorable⟩ := byteCalls_storable
  obtain ⟨loaded, hload, hrestores, -, -, hloaded⟩ :=
    Graph.loadIndex_saveIndex hintegrity hstorable byteFormat 1 byteRoom byteUninit
  exact ⟨graph, loaded, hrun, hload, hrestores, hloaded.mpr rfl⟩

/-- The marks were saved, so the deleted point can be restored after the reload. -/
theorem run_across_reload_bytes :
    ∃ graph loaded final, performAll @SortedQueue byteCalls byteIndex = some graph ∧
      reloadBytes graph = .ok loaded ∧
      performAll @SortedQueue [.unmarkDelete 10] loaded = some final ∧ final.Integrity := by
  obtain ⟨graph, hrun, hintegrity, hstorable⟩ := byteCalls_storable
  obtain ⟨loaded, hload, -⟩ :=
    Graph.loadIndex_ok hintegrity hstorable byteFormat 1 byteRoom byteUninit
  have hdefined : ((performAll @SortedQueue byteCalls byteIndex).any fun graph =>
      (reloadBytes graph).toOption.any fun loaded =>
        (performAll @SortedQueue [.unmarkDelete 10] loaded).isSome) = true := by decide +kernel
  rw [hrun, Option.any_some, show reloadBytes graph = .ok loaded from hload] at hdefined
  obtain ⟨final, hfinal⟩ := Option.isSome_iff_exists.mp hdefined
  exact ⟨graph, loaded, final, hrun, hload, hfinal, (run_across_reload (by decide) (by decide) hrun
    hstorable rfl hload hfinal).1⟩

end VBase.Hnsw
