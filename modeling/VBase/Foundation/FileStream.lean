import VBase.Foundation.BinaryStream
import VBase.Foundation.Command
import Mathlib.Data.List.Range
import Mathlib.Data.List.Basic

/-! # Files that are read at positions

A stream on a file has a position and a flag that it has failed. It may be moved behind
the end of the file, but not before its start, and reads nothing there. A failed stream
has no position and stays as it is.

`Reads` states that a command goes through given bytes of a file. `Follows` states that
it also keeps to their places on a file that ends elsewhere, unless the stream fails or
the command throws. Both are composed along a sequence and a loop.
-/

namespace LittleEndian

theorem ofBytes_toBytes_mod (width value : Nat) :
    ofBytes (toBytes width value) = value % 256 ^ width := by
  induction width generalizing value with
  | zero => rw [Nat.pow_zero, Nat.mod_one]; rfl
  | succ width ih =>
      have hbyte : value % 256 % 2 ^ 8 = value % 256 := Nat.mod_mod value 256
      rw [toBytes, ofBytes, ih, UInt8.toNat_ofNat', hbyte, Nat.pow_succ', Nat.mod_mul]

/-- The word at a position. -/
def wordAt (width : Nat) (bytes : List UInt8) (pos : Nat) : Nat :=
  ofBytes ((bytes.drop pos).take width)

end LittleEndian

/-- A stream on a file. -/
structure FileStream where
  bytes : List UInt8
  pos : Nat
  failed : Bool

namespace FileStream

open LittleEndian

/-- The position, or -1 if the stream has failed. -/
def tellg (stream : FileStream) : Int := if stream.failed then -1 else stream.pos

/-- Move by an offset. -/
def seekg (stream : FileStream) (offset : Int) : FileStream :=
  if stream.failed then stream
  else if stream.pos + offset < 0 then { stream with failed := true }
  else { stream with pos := (stream.pos + offset).toNat }

/-- A read into a buffer. -/
def read (stream : FileStream) (buffer : List UInt8) : List UInt8 × FileStream :=
  if stream.failed then (buffer, stream)
  else
    let ahead := stream.bytes.drop stream.pos
    if buffer.length ≤ ahead.length then
      (ahead.take buffer.length, { stream with pos := stream.pos + buffer.length })
    else
      (ahead ++ buffer.drop ahead.length, { stream with
        pos := stream.bytes.length
        failed := true })

/-- The stream on a file that has come to what is behind `before`. -/
def after (before behind : List UInt8) : FileStream := ⟨before ++ behind, before.length, false⟩

theorem tellg_after (before behind : List UInt8) :
    (after before behind).tellg = before.length := rfl

section

variable {file buffer : List UInt8} {pos : Nat}

theorem read_of_le (hthere : buffer.length ≤ (file.drop pos).length) :
    (⟨file, pos, false⟩ : FileStream).read buffer =
      ((file.drop pos).take buffer.length, ⟨file, pos + buffer.length, false⟩) := by
  rw [read, if_neg Bool.false_ne_true]
  exact if_pos hthere

theorem read_of_lt (hends : (file.drop pos).length < buffer.length) :
    (⟨file, pos, false⟩ : FileStream).read buffer =
      (file.drop pos ++ buffer.drop (file.drop pos).length, ⟨file, file.length, true⟩) := by
  rw [read, if_neg Bool.false_ne_true]
  exact if_neg (Nat.not_le.mpr hends)

end

theorem read_after {before bytes behind buffer : List UInt8}
    (hlength : buffer.length = bytes.length) :
    (after before (bytes ++ behind)).read buffer =
      (bytes, after (before ++ bytes) behind) := by
  rw [after, read_of_le (by simp [hlength]), hlength, List.drop_left, List.take_left]
  simp [after]

theorem seekg_after (before bytes behind : List UInt8) :
    (after before (bytes ++ behind)).seekg bytes.length = after (before ++ bytes) behind := by
  have hforward : ¬ ((before.length : Int) + (bytes.length : Int) < 0) := by omega
  have hpos : ((before.length : Int) + bytes.length).toNat = before.length + bytes.length := by
    omega
  simp [seekg, after, hforward, hpos]

/-! ## Commands on a stream -/

section Commands

open Command

variable {ε V W α : Type}

def readInto (buffer : List UInt8) : EStateM ε FileStream (List UInt8) :=
  modifyGet fun stream => stream.read buffer

def skip (offset : Int) : EStateM ε FileStream PUnit := modify fun stream => stream.seekg offset

/-- Somewhere in the file the command goes through `bytes` and returns `value`. -/
def Reads (file : List UInt8) (command : EStateM ε FileStream V) (bytes : List UInt8)
    (value : V) : Prop :=
  ∀ before behind, before ++ (bytes ++ behind) = file →
    command (after before (bytes ++ behind)) = .ok value (after (before ++ bytes) behind)

section

variable {file bytes rest : List UInt8} {command : EStateM ε FileStream V}
variable {second : V → EStateM ε FileStream W} {value : V} {result : W}

theorem reads_pure : Reads file (pure value : EStateM ε FileStream V) [] value := by
  intro before behind _
  rw [List.append_nil]
  rfl

theorem yields_readInto {stream : FileStream} {buffer : List UInt8}
    {post : List UInt8 → FileStream → Prop} {fails : ε → FileStream → Prop} :
    Yields (readInto buffer) stream post fails ↔
      post (stream.read buffer).1 (stream.read buffer).2 :=
  Iff.rfl

theorem reads_readInto {buffer : List UInt8} (hlength : buffer.length = bytes.length) :
    Reads file (readInto buffer : EStateM ε FileStream _) bytes bytes := by
  intro before behind _
  change EStateM.Result.ok ((after before (bytes ++ behind)).read buffer).1
    ((after before (bytes ++ behind)).read buffer).2 = _
  rw [read_after hlength]

theorem reads_skip {offset : Int} (hlength : offset = bytes.length) :
    Reads file (skip offset : EStateM ε FileStream _) bytes ⟨⟩ := by
  intro before behind _
  change EStateM.Result.ok _ ((after before (bytes ++ behind)).seekg offset) = _
  rw [hlength, seekg_after]

theorem Reads.bind (hfirst : Reads file command bytes value)
    (hsecond : Reads file (second value) rest result) :
    Reads file (command >>= second) (bytes ++ rest) result := by
  intro before behind hfile
  rw [List.append_assoc] at hfile ⊢
  change EStateM.bind command second _ = _
  unfold EStateM.bind
  rw [hfirst before (rest ++ behind) hfile, ← List.append_assoc before bytes rest]
  exact hsecond (before ++ bytes) behind (by rw [List.append_assoc]; exact hfile)

theorem Reads.map (hreads : Reads file command bytes value) (f : V → W) :
    Reads file (command >>= fun read => pure (f read)) bytes (f value) := by
  have hbind : Reads file (command >>= fun read => pure (f read)) (bytes ++ []) (f value) :=
    hreads.bind reads_pure
  rwa [List.append_nil] at hbind

/-- A loop that goes through one block in each turn. -/
theorem reads_foldlM {step : V → α → EStateM ε FileStream V} {next : V → α → V}
    {block : α → List UInt8} {items : List α}
    (hstep : ∀ value, ∀ item ∈ items, Reads file (step value item) (block item) (next value item))
    (value : V) :
    Reads file (items.foldlM step value) (items.flatMap block) (items.foldl next value) := by
  induction items generalizing value with
  | nil => exact reads_pure
  | cons item items ih =>
      rw [List.foldlM_cons, List.flatMap_cons, List.foldl_cons]
      exact (hstep value item List.mem_cons_self).bind
        (ih (fun value other hother => hstep value other (List.mem_cons_of_mem item hother)) _)

/-- A loop that carries nothing along. -/
theorem reads_foldlM_unit {step : PUnit → α → EStateM ε FileStream PUnit}
    {block : α → List UInt8} {items : List α}
    (hstep : ∀ item ∈ items, Reads file (step ⟨⟩ item) (block item) ⟨⟩) :
    Reads file (items.foldlM step ⟨⟩) (items.flatMap block) ⟨⟩ := by
  have hloop : Reads file (items.foldlM step ⟨⟩) (items.flatMap block)
      (items.foldl (fun _ _ => PUnit.unit) ⟨⟩) := reads_foldlM (fun _ => hstep) ⟨⟩
  exact hloop

end

/-- A command that leaves a failed stream failed, or throws. -/
def StaysFailed (file : List UInt8) (fails : ε → FileStream → Prop)
    (command : EStateM ε FileStream V) : Prop :=
  ∀ stream, stream.bytes = file → stream.failed = true →
    Yields command stream (fun _ final => final.bytes = file ∧ final.failed = true) fails

/-- On a file that shares its start with one where `bytes` stand, the command returns `value`
behind them, or leaves the stream failed, or throws. It is asked for only if everything was
right so far; after a failed read it is enough to stay failed. -/
structure Follows (file : List UInt8) (fails : ε → FileStream → Prop) (right : Prop)
    (command : EStateM ε FileStream V) (bytes : List UInt8) (value : V) : Prop where
  stays : StaysFailed file fails command
  follows : right → ∀ before behind, file <+: before ++ (bytes ++ behind) →
    Yields command ⟨file, before.length, false⟩
      (fun read final => final.bytes = file ∧
        (final.failed = true ∨ read = value ∧ final = ⟨file, (before ++ bytes).length, false⟩))
      fails

section

variable {file bytes rest : List UInt8} {fails : ε → FileStream → Prop} {right : Prop}
variable {command : EStateM ε FileStream V} {second : V → EStateM ε FileStream W}
variable {value : V} {result : W}

theorem staysFailed_pure : StaysFailed file fails (pure value : EStateM ε FileStream V) :=
  fun _ hbytes hfailed => yields_pure.mpr ⟨hbytes, hfailed⟩

theorem StaysFailed.bind (hfirst : StaysFailed file fails command)
    (hsecond : ∀ value, StaysFailed file fails (second value)) :
    StaysFailed file fails (command >>= second) := by
  intro stream hbytes hfailed
  refine (hfirst stream hbytes hfailed).bind ?_
  rintro value next ⟨hnext, hfailed⟩
  exact hsecond value next hnext hfailed

theorem staysFailed_readInto (buffer : List UInt8) :
    StaysFailed file fails (readInto buffer) := by
  intro stream hbytes hfailed
  refine yields_readInto.mpr ?_
  simp [read, hfailed, hbytes]

theorem staysFailed_skip (offset : Int) : StaysFailed file fails (skip offset) := by
  intro stream hbytes hfailed
  refine yields_modify.mpr ?_
  simp [seekg, hfailed, hbytes]

theorem follows_pure {read : V} (hread : right → read = value) :
    Follows file fails right (pure read : EStateM ε FileStream V) [] value where
  stays := staysFailed_pure
  follows := by
    intro hright before behind _
    rw [List.append_nil]
    exact yields_pure.mpr ⟨rfl, Or.inr ⟨hread hright, rfl⟩⟩

theorem follows_readInto {buffer : List UInt8} (hlength : right → buffer.length = bytes.length) :
    Follows file fails right (readInto buffer) bytes bytes where
  stays := staysFailed_readInto buffer
  follows := by
    intro hright before behind hfile
    refine yields_readInto.mpr ?_
    rcases Nat.lt_or_ge (file.drop before.length).length buffer.length with hends | hthere
    · rw [read_of_lt hends]
      exact ⟨rfl, Or.inl rfl⟩
    · -- What the file has there is the start of what stands there.
      have hdrop : file.drop before.length <+: bytes ++ behind := by
        obtain ⟨more, hmore⟩ := hfile
        refine ⟨more.drop (before.length - file.length), ?_⟩
        rw [← List.drop_append, hmore, List.drop_left]
      have hbytes : (file.drop before.length).take buffer.length = bytes := by
        rw [List.prefix_iff_eq_take.mp hdrop, List.take_take, min_eq_left hthere,
          hlength hright, List.take_left]
      rw [read_of_le hthere, hbytes]
      exact ⟨rfl, Or.inr ⟨rfl, by rw [hlength hright, List.length_append]⟩⟩

theorem follows_skip {offset : Int} (hlength : right → offset = bytes.length) :
    Follows file fails right (skip offset) bytes ⟨⟩ where
  stays := staysFailed_skip offset
  follows := by
    intro hright before behind _
    refine yields_modify.mpr ?_
    have hoffset := hlength hright
    have hforward : ¬ ((before.length : Int) + offset < 0) := by omega
    have hpos : ((before.length : Int) + offset).toNat = before.length + bytes.length := by
      omega
    simp [seekg, hforward, hpos]

theorem Follows.bind (hfirst : Follows file fails right command bytes value)
    (hsecond : ∀ read, Follows file fails (right ∧ read = value) (second read) rest result) :
    Follows file fails right (command >>= second) (bytes ++ rest) result where
  stays := hfirst.stays.bind fun read => (hsecond read).stays
  follows := by
    intro hright before behind hfile
    rw [List.append_assoc] at hfile
    refine (hfirst.follows hright before (rest ++ behind) hfile).bind ?_
    rintro read next ⟨hbytes, hfailed | ⟨rfl, rfl⟩⟩
    · refine ((hsecond read).stays next hbytes hfailed).imp ?_ fun _ _ hfails => hfails
      exact fun _ _ hfinal => ⟨hfinal.1, Or.inl hfinal.2⟩
    · rw [← List.append_assoc before bytes rest]
      exact (hsecond read).follows ⟨hright, rfl⟩ (before ++ bytes) behind
        (by rw [List.append_assoc]; exact hfile)

/-- A loop that goes through one block in each turn. The items may depend on what was read. -/
theorem follows_foldlM {step : V → α → EStateM ε FileStream V} {next : V → α → V}
    {block : α → List UInt8} {items : List α}
    (hstep : ∀ value item, Follows file fails (right ∧ item ∈ items) (step value item) (block item)
      (next value item))
    (value : V) :
    Follows file fails right (items.foldlM step value) (items.flatMap block)
      (items.foldl next value) := by
  induction items generalizing value with
  | nil => exact follows_pure fun _ => rfl
  | cons item items ih =>
      rw [List.foldlM_cons, List.flatMap_cons, List.foldl_cons]
      have hfirst : Follows file fails right (step value item) (block item) (next value item) :=
        ⟨(hstep value item).stays,
          fun hright => (hstep value item).follows ⟨hright, List.mem_cons_self⟩⟩
      have hrest : ∀ read other, Follows file fails (right ∧ other ∈ items) (step read other)
          (block other) (next read other) := fun read other =>
        ⟨(hstep read other).stays, fun hright =>
          (hstep read other).follows ⟨hright.1, List.mem_cons_of_mem item hright.2⟩⟩
      refine hfirst.bind fun read => ⟨(ih hrest read).stays, ?_⟩
      rintro ⟨hright, rfl⟩
      exact (ih hrest _).follows hright

end

end Commands

end FileStream

namespace Blocks

variable {α β : Type*} {block : β → List α} {length : Nat} {items : List β}

/-- Blocks of one length, one behind the other. -/
theorem length_flatMap (hblock : ∀ item ∈ items, (block item).length = length) :
    (items.flatMap block).length = items.length * length := by
  induction items with
  | nil => simp
  | cons item items ih =>
      rw [List.flatMap_cons, List.length_append, hblock item List.mem_cons_self,
        ih fun other hother => hblock other (List.mem_cons_of_mem item hother), List.length_cons,
        Nat.succ_mul, Nat.add_comm]

/-- Memory that holds given values from a position on. -/
def StandsAt (memory values : List α) (pos : Nat) : Prop :=
  ∃ before behind, memory = before ++ (values ++ behind) ∧ before.length = pos

variable {memory first second : List α} {pos : Nat}

theorem standsAt_self (memory : List α) : StandsAt memory memory 0 :=
  ⟨[], [], by simp, rfl⟩

theorem StandsAt.left (hstands : StandsAt memory (first ++ second) pos) :
    StandsAt memory first pos := by
  obtain ⟨before, behind, hmemory, hpos⟩ := hstands
  exact ⟨before, second ++ behind, by rw [hmemory, List.append_assoc], hpos⟩

theorem StandsAt.right (hstands : StandsAt memory (first ++ second) pos) :
    StandsAt memory second (pos + first.length) := by
  obtain ⟨before, behind, hmemory, hpos⟩ := hstands
  refine ⟨before ++ first, behind, ?_, by rw [List.length_append, hpos]⟩
  rw [hmemory, List.append_assoc, List.append_assoc]

/-- A block stands at a multiple of the length. -/
theorem StandsAt.nth (hstands : StandsAt memory (items.flatMap block) pos)
    (hblock : ∀ item ∈ items, (block item).length = length) {index : Nat}
    (hindex : index < items.length) :
    StandsAt memory (block items[index]) (pos + index * length) := by
  have hsplit : items.flatMap block = (items.take index).flatMap block ++
      (block items[index] ++ (items.drop (index + 1)).flatMap block) := by
    rw [← List.flatMap_cons, ← List.drop_eq_getElem_cons hindex, ← List.flatMap_append,
      List.take_append_drop]
  have hbefore : ((items.take index).flatMap block).length = index * length := by
    rw [length_flatMap fun item hitem => hblock item (List.mem_of_mem_take hitem),
      List.length_take, min_eq_left hindex.le]
  rw [hsplit] at hstands
  rw [← hbefore]
  exact hstands.right.left

theorem StandsAt.wordAt {memory : List UInt8} {width value : Nat}
    (hstands : StandsAt memory (LittleEndian.toBytes width value) pos) :
    LittleEndian.wordAt width memory pos = value % 256 ^ width := by
  obtain ⟨before, behind, hmemory, hpos⟩ := hstands
  rw [LittleEndian.wordAt, hmemory, List.drop_left' hpos,
    List.take_left' (LittleEndian.length_toBytes width value), LittleEndian.ofBytes_toBytes_mod]

end Blocks
