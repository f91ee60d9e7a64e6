import VBase.Foundation.FileStream
import VBase.Hnsw.Integrity

/-! # The file of an index

`saveIndex` writes the members of the index, the memory of the base layer as one block
for each element, and for each element the lists of its other levels under their size.
`loadIndex` goes through the file once to see that it ends where the lists do, and then
reads it. A member that cannot be read keeps what was in memory before.
-/

namespace VBase.Hnsw

open LittleEndian FileStream Command

/-- How a component of a vector is stored in four bytes. -/
structure ComponentFormat (D : Type) where
  toWord : D → UInt32
  ofWord : UInt32 → D
  ofWord_toWord : ∀ component, ofWord (toWord component) = component

/-- The members at the start of the file. `maxlevel_` is an `int`, `mult_` a `double`. -/
structure Header where
  offsetLevel0 : UInt64
  maxElements : UInt64
  curElementCount : UInt64
  sizeDataPerElement : UInt64
  labelOffset : UInt64
  offsetData : UInt64
  maxlevel : UInt32
  enterpointNode : UInt32
  maxM : UInt64
  maxM0 : UInt64
  M : UInt64
  mult : UInt64
  efConstruction : UInt64

/-! ## Writing -/

/-- `writeBinaryPOD` of a `size_t` and of an `unsigned int`. -/
def writeSize (value : UInt64) : List UInt8 := toBytes 8 value.toNat

def writeUnsigned (value : UInt32) : List UInt8 := toBytes 4 value.toNat

def Header.bytes (header : Header) : List UInt8 :=
  writeSize header.offsetLevel0 ++ (writeSize header.maxElements ++
  (writeSize header.curElementCount ++ (writeSize header.sizeDataPerElement ++
  (writeSize header.labelOffset ++ (writeSize header.offsetData ++
  (writeUnsigned header.maxlevel ++ (writeUnsigned header.enterpointNode ++
  (writeSize header.maxM ++ (writeSize header.maxM0 ++ (writeSize header.M ++
  (writeSize header.mult ++ writeSize header.efConstruction)))))))))))

/-- The memory of a list with room for some links. -/
def LinkList.bytes (list : LinkList) (room : Nat) : List UInt8 :=
  writeUnsigned list.header ++ (List.range room).flatMap fun idx => toBytes 4 (list.slots idx)

namespace Graph

variable {D : Type} (graph : Graph D) (format : ComponentFormat D)

def sizeLinksLevel0 : Nat := graph.maxM0 * 4 + 4

def sizeLinksPerElement : Nat := graph.maxM * 4 + 4

def offsetData : Nat := graph.sizeLinksLevel0

/-- A component has four bytes. -/
def labelOffset : Nat := graph.sizeLinksLevel0 + graph.dataSize * 4

def sizeDataPerElement : Nat := graph.sizeLinksLevel0 + graph.dataSize * 4 + 8

def header (mult : UInt64) : Header where
  offsetLevel0 := 0
  maxElements := UInt64.ofNat graph.maxElements
  curElementCount := UInt64.ofNat graph.curElementCount
  sizeDataPerElement := UInt64.ofNat graph.sizeDataPerElement
  labelOffset := UInt64.ofNat graph.labelOffset
  offsetData := UInt64.ofNat graph.offsetData
  maxlevel := (Int32.ofInt graph.maxlevel).toUInt32
  enterpointNode := match graph.enterpointNode with
    | none => 0xFFFFFFFF
    | some entry => UInt32.ofNat entry
  maxM := UInt64.ofNat graph.maxM
  maxM0 := UInt64.ofNat graph.maxM0
  M := UInt64.ofNat graph.M
  mult := mult
  efConstruction := UInt64.ofNat graph.efConstruction

/-- The memory of an element on the base layer. -/
def elementBytes (id : Nat) : List UInt8 :=
  (graph.getLinklistAtLevel id 0).bytes graph.maxM0 ++
    ((graph.getDataByInternalId id).flatMap (fun component =>
      writeUnsigned (format.toWord component)) ++
    writeSize (graph.getExternalLabel id))

/-- The `unsigned int` that says how long the lists of an element are. -/
def linkListSize (id : Nat) : UInt32 :=
  if 0 < graph.elementLevels id then
    UInt32.ofNat (graph.sizeLinksPerElement * graph.elementLevels id)
  else 0

/-- The memory of `linkLists_` for an element. -/
def linkListBytes (id : Nat) : List UInt8 :=
  (List.range (graph.elementLevels id)).flatMap fun level =>
    (graph.getLinklistAtLevel id (level + 1)).bytes graph.maxM

def listBytes (id : Nat) : List UInt8 :=
  writeUnsigned (graph.linkListSize id) ++
    if graph.linkListSize id ≠ 0 then (graph.linkListBytes id).take (graph.linkListSize id).toNat
    else []

/-- The part of `data_level0_memory_` that elements use. -/
def dataLevel0Memory : List UInt8 :=
  (List.range graph.curElementCount).flatMap (graph.elementBytes format)

def saveIndex (mult : UInt64) : List UInt8 :=
  (graph.header mult).bytes ++
    (graph.dataLevel0Memory format ++ (List.range graph.curElementCount).flatMap graph.listBytes)

end Graph

/-! ## Reading -/

abbrev Loading := EStateM BuildError FileStream

/-- `readBinaryPOD` into a `size_t` and into an `unsigned int`, from what they were. -/
def readSize (old : UInt64) : Loading UInt64 := do
  let buffer ← readInto (writeSize old)
  return UInt64.ofNat (ofBytes buffer)

def readUnsigned (old : UInt32) : Loading UInt32 := do
  let buffer ← readInto (writeUnsigned old)
  return UInt32.ofNat (ofBytes buffer)

def readHeader (uninit : Header) : Loading Header := do
  let offsetLevel0 ← readSize uninit.offsetLevel0
  let maxElements ← readSize uninit.maxElements
  let curElementCount ← readSize uninit.curElementCount
  let sizeDataPerElement ← readSize uninit.sizeDataPerElement
  let labelOffset ← readSize uninit.labelOffset
  let offsetData ← readSize uninit.offsetData
  let maxlevel ← readUnsigned uninit.maxlevel
  let enterpointNode ← readUnsigned uninit.enterpointNode
  let maxM ← readSize uninit.maxM
  let maxM0 ← readSize uninit.maxM0
  let M ← readSize uninit.M
  let mult ← readSize uninit.mult
  let efConstruction ← readSize uninit.efConstruction
  return { offsetLevel0, maxElements, curElementCount, sizeDataPerElement, labelOffset, offsetData,
           maxlevel, enterpointNode, maxM, maxM0, M, mult, efConstruction }

def corrupted : BuildError := .runtimeError "Index seems to be corrupted or unsupported"

/-- One turn of the loop that checks the lists. -/
def checkList (totalFilesize : Nat) (uninit : UInt32) (_ : PUnit) (_ : Nat) : Loading PUnit := do
  let input ← get
  if input.tellg < 0 ∨ (totalFilesize : Int) ≤ input.tellg then throw corrupted
  let linkListSize ← readUnsigned uninit
  if linkListSize ≠ 0 then skip linkListSize.toNat

/-- The size of the base layer, which wraps around as `size_t` does. -/
def Header.level0Size (header : Header) : UInt64 :=
  header.curElementCount * header.sizeDataPerElement

def checkIndex (header : Header) (totalFilesize : Nat) (uninit : UInt32) : Loading PUnit := do
  skip header.level0Size.toInt64.toInt
  (List.range header.curElementCount.toNat).foldlM (checkList totalFilesize uninit) ⟨⟩
  let input ← get
  if input.tellg ≠ totalFilesize then throw corrupted

/-- The list at a place in memory. -/
def LinkList.ofMemory (memory : List UInt8) (pos : Nat) : LinkList where
  header := UInt32.ofNat (wordAt 4 memory pos)
  slots := fun idx => wordAt 4 memory (pos + 4 + 4 * idx)

/-- The members that the last loop of `loadIndex` fills. -/
structure Loaded where
  labelLookup : UInt64 → Option Nat
  elementLevels : Nat → Nat
  linkLists : Nat → List UInt8

namespace Header

variable (header : Header)

def sizeLinksPerElement : Nat := (header.maxM * 4 + 4).toNat

def labelAt (level0 : List UInt8) (id : Nat) : UInt64 :=
  UInt64.ofNat (wordAt 8 level0 (id * header.sizeDataPerElement.toNat + header.labelOffset.toNat))

/-- One turn of the loop that reads the lists. -/
def loadList (level0 : List UInt8) (uninit : UInt32) (loaded : Loaded) (id : Nat) :
    Loading Loaded := do
  let labelLookup := Function.update loaded.labelLookup (header.labelAt level0 id) (some id)
  let linkListSize ← readUnsigned uninit
  if linkListSize = 0 then
    return {
      labelLookup
      elementLevels := Function.update loaded.elementLevels id 0
      linkLists := Function.update loaded.linkLists id [] }
  else
    -- The bytes are there, so what the new memory held does not matter.
    let lists ← readInto (List.replicate linkListSize.toNat 0)
    return {
      labelLookup
      elementLevels := Function.update loaded.elementLevels id
        (linkListSize.toNat / header.sizeLinksPerElement)
      linkLists := Function.update loaded.linkLists id lists }

/-- The room of a loaded index. -/
def room (maxElementsI : Nat) : Nat :=
  if maxElementsI < header.curElementCount.toNat then header.maxElements.toNat else maxElementsI

/-- The index that the members make up. `memory` is what `malloc` returned where nothing was
read. -/
def graph {D : Type} (format : ComponentFormat D) (dataSize : Nat)
    (fstdistfunc : List D → List D → D) (maxElementsI : Nat)
    (hroom : header.room maxElementsI < 2 ^ 31) (memory : Memory D) (level0 : List UInt8)
    (loaded : Loaded) (numDeleted : UInt64) : Graph D where
  dataSize := dataSize
  fstdistfunc := fstdistfunc
  M := header.M.toNat
  maxM := header.maxM.toNat
  maxM0 := header.maxM0.toNat
  efConstruction := header.efConstruction.toNat
  maxElements := header.room maxElementsI
  maxElements_lt := hroom
  curElementCount := header.curElementCount.toNat
  numDeleted := numDeleted
  maxlevel := header.maxlevel.toInt32.toInt
  enterpointNode :=
    if header.enterpointNode = 0xFFFFFFFF then none else some header.enterpointNode.toNat
  elementLevels := loaded.elementLevels
  getLinklistAtLevel := fun id level =>
    if header.curElementCount.toNat ≤ id then memory.lists id level
    else if level = 0 then
      .ofMemory level0 (id * header.sizeDataPerElement.toNat + header.offsetLevel0.toNat)
    else .ofMemory (loaded.linkLists id) ((level - 1) * header.sizeLinksPerElement)
  getDataByInternalId := fun id =>
    if header.curElementCount.toNat ≤ id then memory.data id
    else (List.range dataSize).map fun component => format.ofWord (UInt32.ofNat
      (wordAt 4 level0
        (id * header.sizeDataPerElement.toNat + header.offsetData.toNat + 4 * component)))
  getExternalLabel := fun id =>
    if header.curElementCount.toNat ≤ id then memory.labels id else header.labelAt level0 id
  labelLookup := loaded.labelLookup
  visitedListPool := VisitedListPool.new memory.marks

end Header

/-- What is in memory before an index is loaded. The loading constructor sets nothing, so
`num_deleted_` is among it. -/
structure Uninitialised (D : Type) where
  header : Header
  numDeleted : UInt64
  linkListSize : UInt32
  memory : Memory D

variable {D : Type}

/-- What `loadIndex` does with a file that it could open. -/
def loadFile (format : ComponentFormat D) (dataSize : Nat) (fstdistfunc : List D → List D → D)
    (maxElementsI : Nat) (uninit : Uninitialised D) : Loading (Graph D) := do
  let totalFilesize := (← get).bytes.length
  let header ← readHeader uninit.header
  let pos := (← get).pos
  checkIndex header totalFilesize uninit.linkListSize
  modify fun input => { input with pos := pos, failed := false }
  if hroom : header.room maxElementsI < 2 ^ 31 then
    let level0 ← readInto (List.replicate header.level0Size.toNat 0)
    let loaded ← (List.range header.curElementCount.toNat).foldlM
      (header.loadList level0 uninit.linkListSize) ⟨fun _ => none, fun _ => 0, fun _ => []⟩
    let loadedWith := header.graph format dataSize fstdistfunc maxElementsI hroom uninit.memory
      level0 loaded
    let marked := (List.range header.curElementCount.toNat).countP (loadedWith 0).isMarkedDeleted
    return loadedWith (uninit.numDeleted + UInt64.ofNat marked)
  else
    -- `malloc` is taken to find no room for elements whose ids are no `int`.
    throw (.runtimeError "Not enough memory: loadIndex failed to allocate level0")

/-- How a call that reads a stream ends for its caller. -/
def outcome {V : Type} : EStateM.Result BuildError FileStream V → Except BuildError V
  | .ok value _ => .ok value
  | .error failure _ => .error failure

def loadIndex (format : ComponentFormat D) (dataSize : Nat) (fstdistfunc : List D → List D → D)
    (maxElementsI : Nat) (uninit : Uninitialised D) (location : Option (List UInt8)) :
    Except BuildError (Graph D) :=
  match location with
  | none => .error (.runtimeError "Cannot open file")
  | some bytes =>
      outcome (loadFile format dataSize fstdistfunc maxElementsI uninit ⟨bytes, 0, false⟩)

/-- A file that can be opened decides through `loadFile`. -/
theorem loadIndex_of_run {format : ComponentFormat D} {dataSize : Nat}
    {fstdistfunc : List D → List D → D} {maxElementsI : Nat} {uninit : Uninitialised D}
    {bytes : List UInt8} {result : EStateM.Result BuildError FileStream (Graph D)}
    (hrun : loadFile format dataSize fstdistfunc maxElementsI uninit ⟨bytes, 0, false⟩ = result) :
    loadIndex format dataSize fstdistfunc maxElementsI uninit (some bytes) = outcome result :=
  congrArg outcome hrun

/-! ## The members -/

section Members

variable {file : List UInt8} {fails : BuildError → FileStream → Prop}

@[simp] theorem length_writeSize (value : UInt64) : (writeSize value).length = 8 :=
  length_toBytes 8 _

@[simp] theorem length_writeUnsigned (value : UInt32) : (writeUnsigned value).length = 4 :=
  length_toBytes 4 _

@[simp] theorem ofNat_writeSize (value : UInt64) :
    UInt64.ofNat (ofBytes (writeSize value)) = value := by
  rw [writeSize, ofBytes_toBytes value.toNat_lt, UInt64.ofNat_toNat]

@[simp] theorem ofNat_writeUnsigned (value : UInt32) :
    UInt32.ofNat (ofBytes (writeUnsigned value)) = value := by
  rw [writeUnsigned, ofBytes_toBytes value.toNat_lt, UInt32.ofNat_toNat]

theorem reads_readSize (old value : UInt64) :
    Reads file (readSize old) (writeSize value) value := by
  have hreads : Reads file (readSize old) (writeSize value)
      (UInt64.ofNat (ofBytes (writeSize value))) :=
    (reads_readInto (by simp)).map fun buffer => UInt64.ofNat (ofBytes buffer)
  rwa [ofNat_writeSize] at hreads

theorem reads_readUnsigned (old value : UInt32) :
    Reads file (readUnsigned old) (writeUnsigned value) value := by
  have hreads : Reads file (readUnsigned old) (writeUnsigned value)
      (UInt32.ofNat (ofBytes (writeUnsigned value))) :=
    (reads_readInto (by simp)).map fun buffer => UInt32.ofNat (ofBytes buffer)
  rwa [ofNat_writeUnsigned] at hreads

theorem follows_readSize (right : Prop) (old value : UInt64) :
    Follows file fails right (readSize old) (writeSize value) value := by
  rw [← List.append_nil (writeSize value)]
  refine (follows_readInto fun _ => by simp).bind fun read => follows_pure ?_
  rintro ⟨_, rfl⟩
  exact ofNat_writeSize value

theorem follows_readUnsigned (right : Prop) (old value : UInt32) :
    Follows file fails right (readUnsigned old) (writeUnsigned value) value := by
  rw [← List.append_nil (writeUnsigned value)]
  refine (follows_readInto fun _ => by simp).bind fun read => follows_pure ?_
  rintro ⟨_, rfl⟩
  exact ofNat_writeUnsigned value

theorem reads_readHeader (uninit header : Header) :
    Reads file (readHeader uninit) header.bytes header := by
  unfold readHeader Header.bytes
  iterate 6 refine (reads_readSize _ _).bind ?_
  iterate 2 refine (reads_readUnsigned _ _).bind ?_
  iterate 4 refine (reads_readSize _ _).bind ?_
  exact (reads_readSize _ header.efConstruction).map _

theorem follows_readHeader (uninit header : Header) :
    Follows file fails True (readHeader uninit) header.bytes header := by
  unfold readHeader Header.bytes
  rw [← List.append_nil (writeSize header.efConstruction)]
  iterate 6 refine (follows_readSize _ _ _).bind fun _ => ?_
  iterate 2 refine (follows_readUnsigned _ _ _).bind fun _ => ?_
  iterate 5 refine (follows_readSize _ _ _).bind fun _ => ?_
  refine follows_pure ?_
  rintro ⟨⟨⟨⟨⟨⟨⟨⟨⟨⟨⟨⟨⟨_, rfl⟩, rfl⟩, rfl⟩, rfl⟩, rfl⟩, rfl⟩, rfl⟩, rfl⟩, rfl⟩, rfl⟩, rfl⟩, rfl⟩, rfl⟩
  rfl

end Members

/-! ## Sizes -/

namespace Graph

variable {graph : Graph D} {format : ComponentFormat D}

/-- What the file can hold of an index: every number fits where it is written, and every element
has all its components. -/
structure Storable (graph : Graph D) : Prop where
  count_lt : graph.curElementCount < 2 ^ 32
  size_lt : graph.sizeDataPerElement < 2 ^ 64
  level0_lt : graph.curElementCount * graph.sizeDataPerElement < 2 ^ 63
  efConstruction_lt : graph.efConstruction < 2 ^ 64
  maxlevel_lt : graph.maxlevel < 2 ^ 31
  lists_lt : ∀ id < graph.curElementCount,
    graph.sizeLinksPerElement * graph.elementLevels id < 2 ^ 32
  components : ∀ id < graph.curElementCount,
    (graph.getDataByInternalId id).length = graph.dataSize

instance : Decidable graph.Storable :=
  decidable_of_iff
    ((graph.curElementCount < 2 ^ 32 ∧
      graph.sizeDataPerElement < 2 ^ 64 ∧
      graph.curElementCount * graph.sizeDataPerElement < 2 ^ 63 ∧
      graph.efConstruction < 2 ^ 64 ∧ graph.maxlevel < 2 ^ 31) ∧
      (∀ id < graph.curElementCount,
        graph.sizeLinksPerElement * graph.elementLevels id < 2 ^ 32) ∧
      ∀ id < graph.curElementCount, (graph.getDataByInternalId id).length = graph.dataSize)
    ⟨fun ⟨⟨hcount, hsize, hlevel0, hef, hmaxlevel⟩, hlists, hcomponents⟩ =>
        ⟨hcount, hsize, hlevel0, hef, hmaxlevel, hlists, hcomponents⟩,
      fun hstorable => ⟨⟨hstorable.count_lt, hstorable.size_lt,
        hstorable.level0_lt, hstorable.efConstruction_lt, hstorable.maxlevel_lt⟩,
        hstorable.lists_lt, hstorable.components⟩⟩

theorem length_bytes (list : LinkList) (room : Nat) : (list.bytes room).length = room * 4 + 4 := by
  rw [LinkList.bytes, List.length_append, length_writeUnsigned,
    Blocks.length_flatMap fun idx _ => length_toBytes 4 _, List.length_range, Nat.add_comm]

theorem length_elementBytes (hstorable : graph.Storable) {id : Nat}
    (hid : id < graph.curElementCount) :
    (graph.elementBytes format id).length = graph.sizeDataPerElement := by
  have hdata : ((graph.getDataByInternalId id).flatMap fun component =>
      writeUnsigned (format.toWord component)).length = graph.dataSize * 4 := by
    rw [Blocks.length_flatMap fun component _ => length_writeUnsigned _,
      hstorable.components id hid]
  rw [elementBytes, List.length_append, List.length_append, length_bytes, hdata,
    length_writeSize, sizeDataPerElement, sizeLinksLevel0]
  omega

theorem length_linkListBytes (id : Nat) :
    (graph.linkListBytes id).length = graph.sizeLinksPerElement * graph.elementLevels id := by
  rw [linkListBytes, Blocks.length_flatMap fun level _ => length_bytes _ _, List.length_range,
    sizeLinksPerElement, Nat.mul_comm]

theorem toNat_linkListSize (hstorable : graph.Storable) {id : Nat}
    (hid : id < graph.curElementCount) :
    (graph.linkListSize id).toNat = (graph.linkListBytes id).length := by
  rw [length_linkListBytes, linkListSize]
  split
  · exact UInt32.toNat_ofNat_of_lt' (hstorable.lists_lt id hid)
  · next hlevel => simp [Nat.eq_zero_of_not_pos hlevel]

/-- An element's lists are written as a whole, under their size. -/
theorem listBytes_eq (hstorable : graph.Storable) {id : Nat} (hid : id < graph.curElementCount) :
    graph.listBytes id = writeUnsigned (graph.linkListSize id) ++ graph.linkListBytes id := by
  have hsize := toNat_linkListSize hstorable hid
  rw [listBytes]
  split
  · rw [hsize, List.take_length]
  · next hzero =>
      have hnone : graph.linkListBytes id = [] := by
        rw [← List.length_eq_zero_iff, ← hsize, not_not.mp hzero]
        rfl
      rw [hnone]

theorem toNat_count (hstorable : graph.Storable) (mult : UInt64) :
    (graph.header mult).curElementCount.toNat = graph.curElementCount :=
  UInt64.toNat_ofNat_of_lt' (lt_trans hstorable.count_lt (by decide))

theorem level0Size_header (mult : UInt64) :
    (graph.header mult).level0Size =
      UInt64.ofNat (graph.curElementCount * graph.sizeDataPerElement) :=
  (UInt64.ofNat_mul _ _).symm

variable (format) in
theorem length_dataLevel0Memory (hstorable : graph.Storable) :
    (graph.dataLevel0Memory format).length =
      graph.curElementCount * graph.sizeDataPerElement := by
  rw [dataLevel0Memory,
    Blocks.length_flatMap fun id hid => length_elementBytes hstorable (List.mem_range.mp hid),
    List.length_range]

end Graph

end VBase.Hnsw
