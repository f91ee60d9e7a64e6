import VBase.AccessMethod.ScanDesc
import VBase.Foundation.Printf
import VBase.Foundation.SqlLiteral

/-! # Looking up a name

`getrelid` and `inference` print the name that they were given between quotes into a
buffer of 256 bytes and have the text executed. The name is not escaped, and a text that
does not fit is cut. Texts are lists of bytes, none of which is zero.
-/

namespace VBase.Topk

open VBase.AccessMethod Printf SqlLiteral

/-- What the calls read and write of their session: the setting of the planner, and the texts
that were executed and planned. -/
structure Session where
  enableSeqscan : Bool
  executed : List (List UInt8)
  planned : List (List UInt8)

/-- `SPI_tuptable` after a query for one row: the number of rows and columns, and the first
column of the first row. -/
structure SPITupleTable where
  processed : Nat
  natts : Nat
  value : Option (List UInt8)

/-- What `SPI_exec` comes to: an error, or its return code and the table if there is one. -/
abbrev SPIOutcome := Except Failure (Int × Option SPITupleTable)

/-- A text in an error message. -/
def message (text : List UInt8) : String :=
  String.ofList (text.map fun byte => Char.ofNat byte.toNat)

/-- `snprintf` of a name between quotes, with the part of the query that stands before it. -/
def nameQuery (before name : List UInt8) : List UInt8 × Int32 :=
  snprintf 256 [before ++ [quote], name, [quote] ++ ascii ";"]

def relnameQuery : List UInt8 := ascii "SELECT oid FROM pg_catalog.pg_class WHERE relname = "

def modelQuery : List UInt8 := ascii "SELECT handler FROM model WHERE name = "

def spiExec (spi : List UInt8 → SPIOutcome) (cmd : List UInt8) (session : Session) :
    SPIOutcome × Session :=
  (spi cmd, { session with executed := session.executed ++ [cmd] })

/-- The identifier that `getrelid` reads from the table. -/
def relid (objectId : List UInt8 → UInt32) (relname : List UInt8) :
    Int × Option SPITupleTable → Except Failure UInt32
  | (ret, some table) =>
      let name := message relname
      if 0 < ret then
        if 1 < table.processed then
          Except.error (Failure.elog "only a single relname should be returned")
        else if table.natts ≠ 1 then
          Except.error (Failure.elog "only a single attribute should be returned")
        else if table.processed = 1 then
          match table.value with
          | none => Except.error (Failure.elog "Non-null value should be returned")
          | some value => Except.ok (objectId value)
        else Except.error (Failure.elog s!"getrelid:: cannot find relid for relname ({name})")
      else Except.ok (-1)
  | (_, none) => Except.ok (-1)

def getrelid (spi : List UInt8 → SPIOutcome) (objectId : List UInt8 → UInt32)
    (relname : List UInt8) (session : Session) : Except Failure UInt32 × Session :=
  let (cmd, cmdLen) := nameQuery relnameQuery relname
  let name := message relname
  if cmdLen < 0 then
    (Except.error (Failure.elog s!"getrelid:: relname '{name}' is too long"), session)
  else
    let (outcome, session) := spiExec spi cmd session
    (outcome.bind (relid objectId relname), session)

/-- The name of the handler that `inference` reads from the table, through a buffer of its own. -/
def handlerName : Int × Option SPITupleTable → Except Failure (List UInt8)
  | (ret, some table) =>
      if 0 < ret then
        if 1 < table.processed then
          Except.error (Failure.elog "only a single model handler should be returned")
        else if table.natts ≠ 1 then
          Except.error (Failure.elog "only a single attribute should be returned")
        else if table.processed = 1 then
          Except.ok (snprintf 8192 [table.value.getD (ascii "(null)")]).1
        else Except.ok []
      else Except.ok []
  | (_, none) => Except.ok []

/-- `inference` up to the call of the handler, where `none` is the early return. -/
def inference (spi : List UInt8 → SPIOutcome) (modelName : List UInt8) (session : Session) :
    Except Failure (Option (List UInt8)) × Session :=
  let (cmd, cmdLen) := nameQuery modelQuery modelName
  let name := message modelName
  if cmdLen < 0 then (Except.ok none, session)
  else
    let (outcome, session) := spiExec spi cmd session
    let found := do
      let funcName ← outcome.bind handlerName
      if funcName.length = 0 then
        Except.error (Failure.elog s!"did not find model name ({name}) in model zoo")
      else return some funcName
    (found, session)

/-! ## What the text denotes -/

/-- The text is the one statement that the query is meant to be: behind `before` there stands a
literal for the name, and nothing or a semicolon behind that. -/
def Denotes (before text name : List UInt8) : Prop :=
  ∃ body behind, text = before ++ quote :: body ∧ readLiteral body = some (name, behind) ∧
    (behind = [] ∨ behind = ascii ";")

theorem nameQuery_text {before name : List UInt8} (hbefore : before.length < 2 ^ 30)
    (hname : name.length < 2 ^ 31) :
    (nameQuery before name).1 =
      (before ++ quote :: (name ++ [quote] ++ ascii ";")).take 255 := by
  have hpieces : ∀ piece ∈ [before ++ [quote], name, [quote] ++ ascii ";"],
      piece.length < 2 ^ 31 := by
    simp only [List.mem_cons, List.not_mem_nil, or_false]
    rintro piece (rfl | rfl | rfl)
    · rw [List.length_append, List.length_singleton]
      omega
    · exact hname
    · decide
  rw [nameQuery, snprintf_text 256 hpieces]
  simp

/-- A literal of the name needs the name and the closing quote to fit. -/
theorem length_of_denotes {before name : List UInt8}
    (hdenotes : Denotes before (nameQuery before name).1 name) :
    before.length + name.length + 2 ≤ 255 := by
  obtain ⟨body, behind, htext, hread, -⟩ := hdenotes
  have hlength := snprintf_length_le 256 [before ++ [quote], name, [quote] ++ ascii ";"]
  rw [← nameQuery, htext, (readLiteral_iff.mp hread).1] at hlength
  simp only [List.length_append, List.length_cons, length_escape] at hlength
  omega

/-- When the closing quote fits, at most the semicolon is cut. -/
theorem nameQuery_of_fits {before name : List UInt8}
    (hfits : before.length + name.length + 2 ≤ 255) :
    ∃ behind, (behind = [] ∨ behind = ascii ";") ∧
      (nameQuery before name).1 = before ++ quote :: (name ++ quote :: behind) := by
  have hwhole : before ++ quote :: (name ++ [quote] ++ ascii ";") =
      (before ++ quote :: (name ++ [quote])) ++ ascii ";" := by simp
  have hlength : (before ++ quote :: (name ++ [quote])).length ≤ 255 := by
    simp only [List.length_append, List.length_cons, List.length_nil]
    omega
  refine ⟨(ascii ";").take (255 - (before ++ quote :: (name ++ [quote])).length), ?_, ?_⟩
  · cases 255 - (before ++ quote :: (name ++ [quote])).length with
    | zero => exact Or.inl rfl
    | succ room => exact Or.inr (List.take_of_length_le (Nat.le_add_left _ _))
  · rw [nameQuery_text (by omega) (by omega), hwhole, List.take_append,
      List.take_of_length_le hlength]
    simp

/-- The text is a statement about the name exactly when the name has no quote, and the text up to
the closing quote fits the buffer. -/
theorem nameQuery_denotes_iff (before name : List UInt8) :
    Denotes before (nameQuery before name).1 name ↔
      quote ∉ name ∧ before.length + name.length + 2 ≤ 255 := by
  constructor
  · intro hdenotes
    have hfits := length_of_denotes hdenotes
    refine ⟨?_, hfits⟩
    obtain ⟨body, behind, htext, hread, -⟩ := hdenotes
    obtain ⟨printed, hprinted, hcut⟩ := nameQuery_of_fits hfits
    rw [hcut, (readLiteral_iff.mp hread).1, List.append_cancel_left_eq, List.cons.injEq] at htext
    have hsame := htext.2
    have hlength := congrArg List.length hsame
    simp only [List.length_append, List.length_cons, length_escape] at hlength
    rw [← List.count_eq_zero]
    rcases hprinted with rfl | rfl
    · rw [List.length_nil] at hlength
      omega
    · rw [show (ascii ";").length = 1 from rfl] at hlength
      by_contra hcount
      -- a doubled quote would use up the semicolon, which is no quote
      have hnil : behind = [] := List.length_eq_zero_iff.mp (by omega)
      have hlast := congrArg List.getLast? hsame
      rw [hnil] at hlast
      simp [quote, ascii] at hlast
  · rintro ⟨hquote, hfits⟩
    obtain ⟨printed, hprinted, hcut⟩ := nameQuery_of_fits hfits
    refine ⟨name ++ quote :: printed, printed, hcut, ?_, hprinted⟩
    have hread := readLiteral_escape name printed (by rcases hprinted with rfl | rfl <;> decide)
    rwa [escape_of_no_quote hquote] at hread

/-! ## The two look-ups -/

theorem getrelid_executed (spi : List UInt8 → SPIOutcome) (objectId : List UInt8 → UInt32)
    (relname : List UInt8) (session : Session) :
    (getrelid spi objectId relname session).2 =
      if (nameQuery relnameQuery relname).2 < 0 then session
      else { session with
        executed := session.executed ++ [(nameQuery relnameQuery relname).1] } := by
  cases hquery : nameQuery relnameQuery relname with
  | mk cmd cmdLen =>
      simp only [getrelid, hquery]
      split <;> rfl

theorem inference_executed (spi : List UInt8 → SPIOutcome) (modelName : List UInt8)
    (session : Session) :
    (inference spi modelName session).2 =
      if (nameQuery modelQuery modelName).2 < 0 then session
      else { session with
        executed := session.executed ++ [(nameQuery modelQuery modelName).1] } := by
  cases hquery : nameQuery modelQuery modelName with
  | mk cmd cmdLen =>
      simp only [inference, hquery]
      split <;> rfl

/-- A look-up that is not rejected executes one text. It is a statement about the name exactly
when the name has no quote and at most 201 bytes in `getrelid`, or 214 bytes in `inference`. -/
theorem lookups_denote_iff (spi : List UInt8 → SPIOutcome) (objectId : List UInt8 → UInt32)
    (name : List UInt8) (session : Session) :
    ((getrelid spi objectId name session).2.executed = session.executed ∨
      ∃ cmd, (getrelid spi objectId name session).2.executed = session.executed ++ [cmd] ∧
        (Denotes relnameQuery cmd name ↔ quote ∉ name ∧ name.length ≤ 201)) ∧
    ((inference spi name session).2.executed = session.executed ∨
      ∃ cmd, (inference spi name session).2.executed = session.executed ++ [cmd] ∧
        (Denotes modelQuery cmd name ↔ quote ∉ name ∧ name.length ≤ 214)) := by
  have hrelname : relnameQuery.length = 52 := by decide
  have hmodel : modelQuery.length = 39 := by decide
  constructor
  · rw [getrelid_executed]
    split
    · exact Or.inl rfl
    · refine Or.inr ⟨_, rfl, ?_⟩
      rw [nameQuery_denotes_iff, hrelname]
      exact and_congr_right fun _ => by omega
  · rw [inference_executed]
    split
    · exact Or.inl rfl
    · refine Or.inr ⟨_, rfl, ?_⟩
      rw [nameQuery_denotes_iff, hmodel]
      exact and_congr_right fun _ => by omega

/-- A name with a quote: the literal ends inside of it, and a second statement follows. -/
theorem getrelid_of_quote :
    let name := ascii "x'; DROP TABLE t; --"
    let spi : List UInt8 → SPIOutcome := fun _ => Except.ok (1, some ⟨1, 1, some []⟩)
    let after := (getrelid spi (fun _ => 7) name ⟨true, [], []⟩).2
    after.executed =
      [ascii "SELECT oid FROM pg_catalog.pg_class WHERE relname = 'x'; DROP TABLE t; --';"] ∧
    ∀ cmd ∈ after.executed, ¬ Denotes relnameQuery cmd name := by
  intro name spi after
  have hexecuted : after.executed =
      [ascii "SELECT oid FROM pg_catalog.pg_class WHERE relname = 'x'; DROP TABLE t; --';"] := by
    decide +kernel
  refine ⟨hexecuted, ?_⟩
  rintro cmd hcmd ⟨body, behind, htext, hread, -⟩
  rw [hexecuted, List.mem_singleton] at hcmd
  have hbody : body = ascii "x'; DROP TABLE t; --';" := by
    have hsplit : cmd = relnameQuery ++ quote :: ascii "x'; DROP TABLE t; --';" := by
      rw [hcmd]
      decide +kernel
    rw [hsplit, List.append_cancel_left_eq, List.cons.injEq] at htext
    exact htext.2.symm
  have hshort : readLiteral body = some (ascii "x", ascii "; DROP TABLE t; --';") := by
    rw [hbody]
    decide +kernel
  rw [hshort, Option.some.injEq, Prod.mk.injEq] at hread
  exact absurd hread.1 (by decide)

end VBase.Topk
