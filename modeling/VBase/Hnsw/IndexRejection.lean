import VBase.Hnsw.IndexFile

/-! # Files that are cut off or too long

The check of `loadIndex` compares where the lists end with where the file ends. A file
that was cut anywhere, and one with more behind it, is refused.
-/

namespace VBase.Hnsw

open LittleEndian FileStream Command

variable {file : List UInt8} {fails : BuildError → FileStream → Prop}

namespace Graph

variable {D : Type} {graph : Graph D} {format : ComponentFormat D}

/-! ## The check -/

variable (format) in
theorem toInt_level0Size (hstorable : graph.Storable) (mult : UInt64) :
    (graph.header mult).level0Size.toInt64.toInt = (graph.dataLevel0Memory format).length := by
  rw [level0Size_header, length_dataLevel0Memory format hstorable, UInt64.toInt64_ofNat']
  exact Int64.toInt_ofNat_of_lt hstorable.level0_lt

/-- The part of a turn behind the comparison with the end of the file. -/
theorem follows_skipList {right : Prop} (uninit size : UInt32) {lists : List UInt8}
    (hsize : right → size.toNat = lists.length) :
    Follows file fails right
      (readUnsigned uninit >>= fun linkListSize =>
        if linkListSize ≠ 0 then skip linkListSize.toNat else pure ⟨⟩)
      (writeUnsigned size ++ lists) ⟨⟩ := by
  refine (follows_readUnsigned right uninit size).bind fun read => ?_
  split
  · refine follows_skip ?_
    rintro ⟨hright, rfl⟩
    rw [hsize hright]
  · next hzero =>
      refine ⟨staysFailed_pure, ?_⟩
      rintro ⟨hright, rfl⟩
      have hnone : lists = [] := by
        rw [← List.length_eq_zero_iff, ← hsize hright, not_not.mp hzero]
        rfl
      rw [hnone]
      exact (follows_pure fun _ => rfl).follows trivial

theorem follows_checkList {right : Prop} (uninit size : UInt32) {lists : List UInt8} (id : Nat)
    (hsize : right → size.toNat = lists.length) :
    Follows file (fun failure _ => failure = corrupted) right
      (checkList file.length uninit ⟨⟩ id) (writeUnsigned size ++ lists) ⟨⟩ := by
  have hbody : Follows file (fun failure _ => failure = corrupted) right _ _ _ :=
    follows_skipList uninit size hsize
  constructor
  · intro stream _ hfailed
    have hends : stream.tellg < 0 ∨ (file.length : Int) ≤ stream.tellg := by
      simp [tellg, hfailed]
    refine yields_bind.mpr (yields_get.mpr ?_)
    rw [if_pos hends]
    exact yields_bind.mpr (yields_throw.mpr rfl)
  · intro hright before behind hfile
    refine yields_bind.mpr (yields_get.mpr ?_)
    split
    · exact yields_bind.mpr (yields_throw.mpr rfl)
    · exact hbody.follows hright before behind hfile

/-- A turn goes through the lists of one element, if the members were read as they are. -/
theorem follows_checkElement (hstorable : graph.Storable) (mult : UInt64) {right : Prop}
    {header : Header} (hheader : right → header = graph.header mult) (uninit : UInt32) (id : Nat) :
    Follows file (fun failure _ => failure = corrupted)
      (right ∧ id ∈ List.range header.curElementCount.toNat)
      (checkList file.length uninit ⟨⟩ id) (graph.listBytes id) ⟨⟩ := by
  by_cases hid : id < graph.curElementCount
  · rw [listBytes_eq hstorable hid]
    exact follows_checkList uninit _ id fun _ => toNat_linkListSize hstorable hid
  · have hanywhere : Follows file (fun failure _ => failure = corrupted) False
        (checkList file.length uninit ⟨⟩ id) (writeUnsigned 0 ++ []) ⟨⟩ :=
      follows_checkList uninit 0 id nofun
    refine ⟨hanywhere.stays, ?_⟩
    rintro ⟨hright, hmem⟩
    rw [List.mem_range, hheader hright, toNat_count hstorable] at hmem
    exact absurd hmem hid

variable (file format) in
theorem follows_checkLists (hstorable : graph.Storable) (mult : UInt64) (header : Header)
    (uninit : UInt32) :
    Follows file (fun failure _ => failure = corrupted) (header = graph.header mult)
      (skip header.level0Size.toInt64.toInt >>= fun _ =>
        (List.range header.curElementCount.toNat).foldlM (checkList file.length uninit) ⟨⟩)
      (graph.dataLevel0Memory format ++
        (List.range header.curElementCount.toNat).flatMap graph.listBytes) ⟨⟩ := by
  refine (follows_skip ?_).bind fun _ => ?_
  · rintro rfl
    exact toInt_level0Size format hstorable mult
  · exact follows_foldlM
      (fun _ id => follows_checkElement hstorable mult And.left uninit id) ⟨⟩

/-- The comparison at the end of the check. -/
def checkEnd (totalFilesize : Nat) : Loading PUnit := do
  let input ← get
  if input.tellg ≠ totalFilesize then throw corrupted

theorem checkIndex_eq (header : Header) (totalFilesize : Nat) (uninit : UInt32) :
    checkIndex header totalFilesize uninit =
      (skip header.level0Size.toInt64.toInt >>= fun _ =>
        (List.range header.curElementCount.toNat).foldlM (checkList totalFilesize uninit) ⟨⟩) >>=
      fun _ => checkEnd totalFilesize := by
  rw [bind_assoc]
  rfl

theorem checkEnd_yields {stream : FileStream} {totalFilesize : Nat}
    (hends : stream.tellg ≠ totalFilesize) :
    Yields (checkEnd totalFilesize) stream (fun _ _ => False)
      (fun failure _ => failure = corrupted) := by
  refine yields_bind.mpr (yields_get.mpr ?_)
  rw [if_pos hends]
  exact yields_throw.mpr rfl

theorem saveIndex_eq (hstorable : graph.Storable) (mult : UInt64) :
    graph.saveIndex format mult = (graph.header mult).bytes ++
      (graph.dataLevel0Memory format ++
        (List.range (graph.header mult).curElementCount.toNat).flatMap graph.listBytes) := by
  rw [toNat_count hstorable]
  rfl

/-- The check throws if the lists end elsewhere than the file. -/
theorem checkIndex_yields (hstorable : graph.Storable) (mult : UInt64)
    {header : Header} {extra : List UInt8} {stream : FileStream} (hbytes : stream.bytes = file)
    (hstream : stream.failed = true ∨ header = graph.header mult ∧
      stream = ⟨file, (graph.header mult).bytes.length, false⟩)
    (hfile : file <+: graph.saveIndex format mult ++ extra)
    (hlength : file.length ≠ (graph.saveIndex format mult).length) (uninit : UInt32) :
    Yields (checkIndex header file.length uninit) stream (fun _ _ => False)
      (fun failure _ => failure = corrupted) := by
  have hlists := fun file => follows_checkLists file format hstorable mult header uninit
  rw [checkIndex_eq]
  rcases hstream with hfailed | ⟨rfl, rfl⟩
  · -- A failed stream has no position.
    refine ((hlists file).stays stream hbytes hfailed).bind fun _ final hfinal => ?_
    refine checkEnd_yields ?_
    rw [tellg, if_pos hfinal.2]
    omega
  · rw [saveIndex_eq hstorable, List.append_assoc] at hfile
    refine ((hlists file).follows rfl _ extra hfile).bind ?_
    rintro _ final ⟨_, hfailed | ⟨_, rfl⟩⟩
    · refine checkEnd_yields ?_
      rw [tellg, if_pos hfailed]
      omega
    · refine checkEnd_yields fun hends => hlength ?_
      rw [saveIndex_eq hstorable]
      exact (Int.ofNat.inj hends).symm

theorem loadFile_yields (hstorable : graph.Storable) (mult : UInt64) {extra : List UInt8}
    (hfile : file <+: graph.saveIndex format mult ++ extra)
    (hlength : file.length ≠ (graph.saveIndex format mult).length) (dataSize : Nat)
    (fstdistfunc : List D → List D → D) (maxElementsI : Nat) (uninit : Uninitialised D) :
    Yields (loadFile format dataSize fstdistfunc maxElementsI uninit) ⟨file, 0, false⟩
      (fun _ _ => False) (fun failure _ => failure = corrupted) := by
  have hmembers : file <+: [] ++ ((graph.header mult).bytes ++
      (graph.dataLevel0Memory format ++
        ((List.range graph.curElementCount).flatMap graph.listBytes ++ extra))) := by
    rw [saveIndex, List.append_assoc, List.append_assoc] at hfile
    exact hfile
  unfold loadFile
  refine yields_bind.mpr (yields_get.mpr ?_)
  refine ((follows_readHeader uninit.header (graph.header mult)).follows trivial [] _
    hmembers).bind ?_
  rintro header stream ⟨hbytes, hstream⟩
  refine yields_bind.mpr (yields_get.mpr ?_)
  exact (checkIndex_yields hstorable mult hbytes hstream hfile hlength _).bind
    fun _ _ hfalse => hfalse.elim

/-- A file that shares its start with a saved index, but was cut off or has more behind it, is
not loaded. -/
theorem loadIndex_of_ne (hstorable : graph.Storable) (mult : UInt64) {file extra : List UInt8}
    (hfile : file <+: graph.saveIndex format mult ++ extra)
    (hne : file ≠ graph.saveIndex format mult) (dataSize : Nat)
    (fstdistfunc : List D → List D → D) (maxElementsI : Nat) (uninit : Uninitialised D) :
    loadIndex format dataSize fstdistfunc maxElementsI uninit (some file) = .error corrupted := by
  have hlength : file.length ≠ (graph.saveIndex format mult).length := by
    intro hlength
    exact hne ((List.prefix_of_prefix_length_le hfile (List.prefix_append _ _)
      hlength.le).eq_of_length hlength)
  obtain ⟨failure, final, hrun, rfl⟩ := (loadFile_yields hstorable mult hfile hlength dataSize
    fstdistfunc maxElementsI uninit).exists_error
  exact loadIndex_of_run hrun

end Graph

/-! ## An index of bytes -/

/-- A byte in a word. -/
def byteFormat : ComponentFormat (Fin 256) where
  toWord := fun component => UInt32.ofNat component
  ofWord := fun word => Fin.ofNat 256 word.toNat
  ofWord_toWord := by decide +kernel

def byteDistance (first second : List (Fin 256)) : Fin 256 :=
  max (first.headD 0) (second.headD 0) - min (first.headD 0) (second.headD 0)

def byteOf (value : Nat) : Fin 256 := Fin.ofNat 256 value

def byteMemory : Memory (Fin 256) :=
  ⟨fun _ _ => LinkList.blank, fun _ => [], fun _ => 0, fun _ _ => 0⟩

theorem byteCapacity_lt : 4 < 2 ^ 31 := by decide

/-- Room for four points. -/
def byteCapacity : Capacity := ⟨4, byteCapacity_lt⟩

def byteIndex : Graph (Fin 256) := Graph.new 1 byteDistance byteCapacity 2 3 byteMemory

/-- Memory that has been used before, but for `num_deleted_`. -/
def byteUninit : Uninitialised (Fin 256) :=
  ⟨⟨7, 7, 7, 7, 7, 7, 7, 7, 7, 7, 7, 7, 7⟩, 0, 7, byteMemory⟩

/-- The index with one point, on two levels. -/
def bytePoint : Graph (Fin 256) := byteIndex.place 10 [byteOf 3] 1

theorem loadIndex_of_ne_bytes :
    loadIndex byteFormat 1 byteDistance 4 byteUninit
        (some (bytePoint.saveIndex byteFormat 1).dropLast) = .error corrupted ∧
      loadIndex byteFormat 1 byteDistance 4 byteUninit
        (some (bytePoint.saveIndex byteFormat 1 ++ [0])) = .error corrupted := by
  have hstorable : bytePoint.Storable := by decide
  have hcut : (bytePoint.saveIndex byteFormat 1).dropLast <+:
      bytePoint.saveIndex byteFormat 1 ++ [] := by
    rw [List.append_nil]
    exact List.dropLast_prefix _
  constructor
  · exact Graph.loadIndex_of_ne hstorable 1 hcut (by decide +kernel) 1 byteDistance 4 byteUninit
  · refine Graph.loadIndex_of_ne hstorable 1 List.prefix_rfl ?_ 1 byteDistance 4 byteUninit
    intro heq
    exact List.cons_ne_nil _ _ (List.append_right_eq_self.mp heq)

end VBase.Hnsw
