import VBase.Topk.CatalogLookup
import VBase.Topk.PlanSearch
import VBase.AccessMethod.ArrayConversion

/-! # The queries of the children

For every order-by expression `topk` prints a query into a buffer of 102400 bytes and has
it planned while sequential scans are disabled. The length of the text is not checked, and
the setting is put back behind the planner, where an error does not come by.
-/

namespace VBase.Topk

open VBase.AccessMethod Printf

/-! ## The texts -/

/-- The texts among the arguments of `topk` and `multicol_topk`. -/
structure TextArguments where
  tablename : List UInt8
  attrExp : List UInt8
  filterExp : List UInt8
  rankExpression : List UInt8
  orderbys : StoredArray (List UInt8)

/-- The loop that adds up the order-by expressions, of which there are `sz`. -/
def rankLoop (sz : Nat) : Nat → List UInt8 → List (List UInt8) → List UInt8
  | _, rankExp, [] => rankExp
  | i, rankExp, orderby :: rest =>
      let rankExp := rankExp ++ (ascii "(" ++ orderby ++ ascii ")")
      let rankExp := if i < sz - 1 then rankExp ++ ascii " + " else rankExp
      rankLoop sz (i + 1) rankExp rest

namespace TextArguments

variable (arguments : TextArguments) (orderbys : List (List UInt8))

def rankExp : List UInt8 :=
  if arguments.rankExpression.length = 0 then rankLoop orderbys.length 0 [] orderbys
  else arguments.rankExpression

/-- The pieces of the format string and its arguments. -/
def sourcePieces (exp : List UInt8) : List (List UInt8) :=
  if orderbys.length = 1 then
    if arguments.filterExp.length = 0 then
      [ascii "select ", arguments.attrExp, ascii " from ", arguments.tablename,
        ascii " order by ", exp]
    else
      [ascii "select ", arguments.attrExp, ascii " from ", arguments.tablename,
        ascii " where ", arguments.filterExp, ascii " order by ", exp]
  else if arguments.filterExp.length = 0 then
    [ascii "select ", arguments.attrExp, ascii ", ", arguments.rankExp orderbys,
      ascii " from ", arguments.tablename, ascii " order by ", exp]
  else
    [ascii "select ", arguments.attrExp, ascii ", ", arguments.rankExp orderbys,
      ascii " from ", arguments.tablename, ascii " where ", arguments.filterExp,
      ascii " order by ", exp]

def sourceText (exp : List UInt8) : List UInt8 :=
  (snprintf 102400 (arguments.sourcePieces orderbys exp)).1

/-- The rank that is meant: the given one, or the sum of the order-by expressions. -/
def intendedRank : List UInt8 :=
  if arguments.rankExpression = [] then
    List.intercalate (ascii " + ") (orderbys.map fun orderby => ascii "(" ++ orderby ++ ascii ")")
  else arguments.rankExpression

/-- The query that is meant. The rank is a column when there are several expressions. -/
def intendedText (exp : List UInt8) : List UInt8 :=
  let rank := if orderbys.length = 1 then [] else ascii ", " ++ arguments.intendedRank orderbys
  let filter := if arguments.filterExp = [] then [] else ascii " where " ++ arguments.filterExp
  ascii "select " ++ arguments.attrExp ++ rank ++ ascii " from " ++ arguments.tablename ++
    filter ++ ascii " order by " ++ exp

end TextArguments

theorem rankLoop_eq {sz i : Nat} {rankExp : List UInt8} {orderbys : List (List UInt8)}
    (hsz : i + orderbys.length = sz) :
    rankLoop sz i rankExp orderbys = rankExp ++ List.intercalate (ascii " + ")
      (orderbys.map fun orderby => ascii "(" ++ orderby ++ ascii ")") := by
  induction orderbys generalizing i rankExp with
  | nil => simp [rankLoop, List.intercalate]
  | cons orderby rest ih =>
      have hrest : i + 1 + rest.length = sz := by
        rw [List.length_cons] at hsz
        omega
      rw [rankLoop, ih hrest]
      cases rest with
      | nil =>
          rw [List.length_nil] at hrest
          rw [if_neg (by omega)]
          simp [List.intercalate]
      | cons next others =>
          rw [List.length_cons] at hrest
          rw [if_pos (by omega)]
          simp [List.intercalate]

namespace TextArguments

variable (arguments : TextArguments) (orderbys : List (List UInt8))

theorem rankExp_eq : arguments.rankExp orderbys = arguments.intendedRank orderbys := by
  unfold rankExp intendedRank
  simp only [List.length_eq_zero_iff, rankLoop_eq (Nat.zero_add orderbys.length),
    List.nil_append]

theorem flatten_sourcePieces (exp : List UInt8) :
    (arguments.sourcePieces orderbys exp).flatten = arguments.intendedText orderbys exp := by
  unfold sourcePieces intendedText
  rw [rankExp_eq]
  simp only [List.length_eq_zero_iff]
  split <;> split <;> simp

/-- The text in the buffer is the one that is meant exactly when that is shorter than the
buffer. -/
theorem sourceText_eq_iff (exp : List UInt8) :
    arguments.sourceText orderbys exp = arguments.intendedText orderbys exp ↔
      (arguments.intendedText orderbys exp).length < 102400 := by
  rw [sourceText, ← flatten_sourcePieces]
  exact snprintf_eq_iff (by decide) (by decide) _

end TextArguments

/-! ## The calls -/

/-- The parts of the server that a call goes through: the catalog, the planner under a setting of
`enable_seqscan`, and the start of the executor. -/
structure Server (E N : Type) where
  spi : List UInt8 → SPIOutcome
  objectId : List UInt8 → UInt32
  planner : Bool → List UInt8 → Except Failure (List (Plan E N))
  executorStart : Plan E N → Except Failure Unit

namespace Server

variable {E N R : Type} (server : Server E N)

/-- `extractIndexScanNode`. An error of `SPI_prepare` or of the planner jumps over the last
assignment. -/
def extractIndexScanNode (query : List UInt8) (session : Session) :
    Except Failure (Option (Plan E N)) × Session :=
  let oldEnableSeqscan := session.enableSeqscan
  let session := { session with enableSeqscan := false, planned := session.planned ++ [query] }
  match server.planner session.enableSeqscan query with
  | Except.error failure => (Except.error failure, session)
  | Except.ok stmtList =>
      (Except.ok (Topk.extractIndexScanNode stmtList),
        { session with enableSeqscan := oldEnableSeqscan })

/-- The loop over the order-by expressions. -/
def prepareChildren (sourceText : List UInt8 → List UInt8) :
    List (List UInt8) → Session → Except Failure (List (Option (IndexScanState E))) × Session
  | [], session => (Except.ok [], session)
  | exp :: others, session =>
      let text := message (sourceText exp)
      match server.extractIndexScanNode (sourceText exp) session with
      | (Except.error failure, session) => (Except.error failure, session)
      | (Except.ok none, session) =>
          (Except.error (Failure.elog s!"cannot find index for order by expr = {text}"), session)
      | (Except.ok (some plan), session) =>
          match server.executorStart plan with
          | Except.error failure => (Except.error failure, session)
          | Except.ok () =>
              let (nodes, session) := prepareChildren sourceText others session
              (nodes.map (findIndexScanState (execInitNode plan) :: ·), session)

/-- A call, which goes on with the table and the scans of the children. -/
def firstCall (arguments : TextArguments)
    (execute : UInt32 → List (Option (IndexScanState E)) → Except Failure R) (session : Session) :
    Except Failure R × Session :=
  match getrelid server.spi server.objectId arguments.tablename session with
  | (Except.error failure, session) => (Except.error failure, session)
  | (Except.ok tableOid, session) =>
      match convertArrayToVectorStr true arguments.orderbys with
      | Except.error failure => (Except.error failure, session)
      | Except.ok orderbys =>
          let (nodes, session) :=
            server.prepareChildren (arguments.sourceText orderbys) orderbys session
          (nodes.bind (execute tableOid), session)

def topk (arguments : TextArguments)
    (execute : UInt32 → List (Option (IndexScanState E)) → Except Failure R) :
    Session → Except Failure R × Session :=
  server.firstCall arguments execute

def multicolTopk (arguments : TextArguments)
    (execute : UInt32 → List (Option (IndexScanState E)) → Except Failure R) :
    Session → Except Failure R × Session :=
  server.firstCall arguments execute

/-! ## What a call does to its session -/

/-- The planner returns for a text while sequential scans are disabled. -/
def Plans (text : List UInt8) : Prop := ∃ stmtList, server.planner false text = Except.ok stmtList

/-- The texts that were planned, and the setting behind them. -/
structure Submitted (texts : List (List UInt8)) (before after : Session) : Prop where
  planned_eq : after.planned = before.planned ++ texts
  setting_eq : (∀ text ∈ texts, server.Plans text) → after.enableSeqscan = before.enableSeqscan
  setting_false : ¬ (∀ text ∈ texts, server.Plans text) → after.enableSeqscan = false

variable {server}

theorem Submitted.one {before after : Session} {text : List UInt8}
    (hplanned : after.planned = before.planned ++ [text]) (hplans : server.Plans text)
    (hsetting : after.enableSeqscan = before.enableSeqscan) :
    server.Submitted [text] before after where
  planned_eq := hplanned
  setting_eq _ := hsetting
  setting_false hnot := absurd (by simpa using hplans) hnot

theorem Submitted.cons {before between after : Session} {text : List UInt8}
    {texts : List (List UInt8)} (hone : server.Submitted [text] before between)
    (hplans : server.Plans text) (hrest : server.Submitted texts between after) :
    server.Submitted (text :: texts) before after where
  planned_eq := by
    rw [hrest.planned_eq, hone.planned_eq, List.append_assoc, List.singleton_append]
  setting_eq hall := by
    rw [hrest.setting_eq fun other hother => hall other (List.mem_cons_of_mem _ hother)]
    exact hone.setting_eq (by simpa using hplans)
  setting_false hnot := by
    apply hrest.setting_false
    intro hall
    exact hnot (List.forall_mem_cons.mpr ⟨hplans, hall⟩)

variable (server)

theorem extractIndexScanNode_of_ok {query : List UInt8} {stmtList : List (Plan E N)}
    (hplanner : server.planner false query = Except.ok stmtList) (session : Session) :
    server.extractIndexScanNode query session =
      (Except.ok (Topk.extractIndexScanNode stmtList),
        { session with planned := session.planned ++ [query] }) := by
  simp only [extractIndexScanNode, hplanner]

theorem extractIndexScanNode_of_error {query : List UInt8} {failure : Failure}
    (hplanner : server.planner false query = Except.error failure) (session : Session) :
    server.extractIndexScanNode query session =
      (Except.error failure,
        { session with enableSeqscan := false, planned := session.planned ++ [query] }) := by
  simp only [extractIndexScanNode, hplanner]

/-- The loop plans the texts of the first expressions, up to the one at which it fails. -/
theorem prepareChildren_submitted (sourceText : List UInt8 → List UInt8)
    (exps : List (List UInt8)) (session : Session) :
    ∃ count ≤ exps.length, server.Submitted ((exps.take count).map sourceText) session
      (server.prepareChildren sourceText exps session).2 := by
  induction exps generalizing session with
  | nil => exact ⟨0, le_rfl, by simp [prepareChildren], fun _ => rfl, by simp⟩
  | cons exp others ih =>
      unfold prepareChildren
      cases hplanner : server.planner false (sourceText exp) with
      | error failure =>
          -- The planner raised, and the setting is not put back.
          have hnot : ¬ server.Plans (sourceText exp) := by
            intro ⟨stmtList, hok⟩
            simp [hplanner] at hok
          rw [server.extractIndexScanNode_of_error hplanner]
          refine ⟨1, by simp, rfl, ?_, fun _ => rfl⟩
          intro hall
          exact absurd (hall (sourceText exp) (by simp)) hnot
      | ok stmtList =>
          have hplans : server.Plans (sourceText exp) := ⟨stmtList, hplanner⟩
          have hone : server.Submitted [sourceText exp] session
              { session with planned := session.planned ++ [sourceText exp] } :=
            Submitted.one rfl hplans rfl
          rw [server.extractIndexScanNode_of_ok hplanner]
          cases Topk.extractIndexScanNode stmtList with
          | none => exact ⟨1, by simp, by simpa using hone⟩
          | some plan =>
              dsimp only
              cases server.executorStart plan with
              | error failure => exact ⟨1, by simp, by simpa using hone⟩
              | ok =>
                  obtain ⟨count, hcount, hrest⟩ :=
                    ih { session with planned := session.planned ++ [sourceText exp] }
                  exact ⟨count + 1, Nat.succ_le_succ hcount, hone.cons hplans hrest⟩

/-- Where neither the planner nor the executor raises, the loop is the search for the scans. -/
theorem prepareChildren_eq_scannodes {server : Server (List UInt8) N}
    {planner : List UInt8 → List (Plan (List UInt8) N)}
    (hplanner : ∀ text, server.planner false text = Except.ok (planner text))
    (hstart : ∀ plan, server.executorStart plan = Except.ok ())
    (sourceText : List UInt8 → List UInt8) (exps : List (List UInt8)) (session : Session) :
    (server.prepareChildren sourceText exps session).1 =
      (scannodes (fun exp => planner (sourceText exp)) (fun exp => message (sourceText exp))
        exps).mapError Failure.elog := by
  induction exps generalizing session with
  | nil => rfl
  | cons exp others ih =>
      unfold prepareChildren scannodes
      rw [server.extractIndexScanNode_of_ok (hplanner _)]
      cases Topk.extractIndexScanNode (planner (sourceText exp)) with
      | none => rfl
      | some plan =>
          dsimp only
          rw [hstart]
          dsimp only
          rw [ih]
          cases scannodes (fun exp => planner (sourceText exp))
            (fun exp => message (sourceText exp)) others <;> rfl

end Server

/-- The order-by expressions of a call. -/
def TextArguments.orderbyExpressions (arguments : TextArguments) : List (List UInt8) :=
  arguments.orderbys.items.reduceOption

theorem getrelid_session (spi : List UInt8 → SPIOutcome) (objectId : List UInt8 → UInt32)
    (relname : List UInt8) (session : Session) :
    ∃ executed,
      (getrelid spi objectId relname session).2 = { session with executed := executed } := by
  rw [getrelid_executed]
  split
  · exact ⟨session.executed, rfl⟩
  · exact ⟨_, rfl⟩

namespace Server

variable {E N R : Type} (server : Server E N) (arguments : TextArguments)
  (execute : UInt32 → List (Option (IndexScanState E)) → Except Failure R) (session : Session)

theorem firstCall_submitted :
    ∃ count ≤ arguments.orderbyExpressions.length,
      server.Submitted ((arguments.orderbyExpressions.take count).map
        (arguments.sourceText arguments.orderbyExpressions)) session
        (server.firstCall arguments execute session).2 := by
  obtain ⟨executed, hsession⟩ :=
    getrelid_session server.spi server.objectId arguments.tablename session
  have hnone : server.Submitted [] session { session with executed := executed } :=
    ⟨by simp, fun _ => rfl, by simp⟩
  unfold firstCall
  cases hrelid : getrelid server.spi server.objectId arguments.tablename session with
  | mk outcome between =>
      rw [hrelid] at hsession
      dsimp only at hsession
      subst hsession
      cases outcome with
      | error failure => exact ⟨0, Nat.zero_le _, hnone⟩
      | ok tableOid =>
          dsimp only
          rcases convertArrayToVectorStr_exact true arguments.orderbys with
            ⟨text, hraised⟩ | ⟨orderbys, hitems, hconverted⟩
          · rw [hraised]
            exact ⟨0, Nat.zero_le _, hnone⟩
          · have horderbys : arguments.orderbyExpressions = orderbys := by
              rw [TextArguments.orderbyExpressions, hitems]
              simp [List.reduceOption]
            rw [hconverted, horderbys]
            obtain ⟨count, hcount, hplanned, heq, hfalse⟩ :=
              server.prepareChildren_submitted (arguments.sourceText orderbys) orderbys
                { session with executed := executed }
            exact ⟨count, hcount, hplanned, heq, hfalse⟩

end Server

/-! ## Whole calls -/

/-- A call with one order-by expression. -/
def oneOrderby (exp : List UInt8) : TextArguments where
  tablename := ascii "t"
  attrExp := ascii "id"
  filterExp := []
  rankExpression := []
  orderbys := ⟨[1], [some exp], false, rfl, by simp⟩

/-- A server that finds the table, with its answer to a text. -/
def answering (planner : List UInt8 → Except Failure (List (Plan (List UInt8) Unit))) :
    Server (List UInt8) Unit where
  spi _ := Except.ok (5, some ⟨1, 1, some (ascii "16384")⟩)
  objectId _ := 16384
  planner _ := planner
  executorStart _ := Except.ok ()

theorem oneOrderby_planned (exp : List UInt8) :
    ((answering fun _ => Except.ok []).firstCall (oneOrderby exp) (fun _ _ => Except.ok ())
      ⟨true, [], []⟩).2.planned = [(oneOrderby exp).sourceText [exp] exp] := by
  have hrelid : ∃ session, session.planned = [] ∧
      getrelid (answering fun _ => Except.ok []).spi (answering fun _ => Except.ok []).objectId
        (oneOrderby exp).tablename ⟨true, [], []⟩ = (Except.ok 16384, session) := by
    have hlength : ¬ (nameQuery relnameQuery (ascii "t")).2 < 0 := by decide +kernel
    cases hquery : nameQuery relnameQuery (ascii "t") with
    | mk cmd cmdLen =>
        rw [hquery] at hlength
        refine ⟨⟨true, [cmd], []⟩, rfl, ?_⟩
        have htable : (oneOrderby exp).tablename = ascii "t" := rfl
        unfold getrelid
        rw [htable, hquery]
        exact if_neg hlength
  have hconverted : convertArrayToVectorStr true (oneOrderby exp).orderbys = Except.ok [exp] := rfl
  obtain ⟨session, hplanned, hrelid⟩ := hrelid
  unfold Server.firstCall
  rw [hrelid]
  dsimp only
  rw [hconverted]
  dsimp only
  generalize (oneOrderby exp).sourceText [exp] = sourceText
  change session.planned ++ [sourceText exp] = [sourceText exp]
  rw [hplanned, List.nil_append]

theorem oneOrderby_intended (exp : List UInt8) :
    (oneOrderby exp).intendedText [exp] exp = ascii "select id from t order by " ++ exp := by
  rfl

variable {E N R : Type} (server : Server E N) (arguments : TextArguments)
  (execute : UInt32 → List (Option (IndexScanState E)) → Except Failure R) (session : Session)

/-- A call leaves `enable_seqscan` as it found it exactly when that was off already, or the
planner returns for every text that it is given. -/
theorem Server.calls_setting_iff :
    ∀ call ∈ [server.topk arguments execute, server.multicolTopk arguments execute],
      ∃ texts, (call session).2.planned = session.planned ++ texts ∧
        ((call session).2.enableSeqscan = session.enableSeqscan ↔
          session.enableSeqscan = false ∨ ∀ text ∈ texts, server.Plans text) := by
  suffices hfirst : ∃ texts,
      (server.firstCall arguments execute session).2.planned = session.planned ++ texts ∧
        ((server.firstCall arguments execute session).2.enableSeqscan = session.enableSeqscan ↔
          session.enableSeqscan = false ∨ ∀ text ∈ texts, server.Plans text) by
    simpa [Server.topk, Server.multicolTopk] using hfirst
  obtain ⟨count, -, hsubmitted⟩ := server.firstCall_submitted arguments execute session
  refine ⟨_, hsubmitted.planned_eq, ?_⟩
  by_cases hall : ∀ text ∈ (arguments.orderbyExpressions.take count).map
      (arguments.sourceText arguments.orderbyExpressions), server.Plans text
  · exact iff_of_true (hsubmitted.setting_eq hall) (Or.inr hall)
  · rw [hsubmitted.setting_false hall, or_iff_left hall]
    exact eq_comm

/-- A query without an index scan: the planner returns for the text of the call, and sequential
scans are on again. -/
theorem calls_setting_unindexed :
    let server := answering fun _ => Except.ok []
    let session : Session := ⟨true, [], []⟩
    let call := server.topk (oneOrderby (ascii "v")) fun _ _ => Except.ok ()
    (call session).2.planned =
        [(oneOrderby (ascii "v")).sourceText [ascii "v"] (ascii "v")] ∧
      (call session).2.enableSeqscan = true := by
  intro server session call
  obtain ⟨texts, -, hsetting⟩ := Server.calls_setting_iff server (oneOrderby (ascii "v"))
    (fun _ _ => Except.ok ()) session call List.mem_cons_self
  refine ⟨oneOrderby_planned (ascii "v"), hsetting.mpr (Or.inr ?_)⟩
  intro text _
  exact ⟨[], rfl⟩

/-- The planner raises for an expression that is not closed, and sequential scans stay off. -/
theorem setting_stays_off :
    let server := answering fun _ => Except.error (Failure.elog "syntax error at end of input")
    let session : Session := ⟨true, [], []⟩
    (server.topk (oneOrderby (ascii "(v")) (fun _ _ => Except.ok ()) session).2.enableSeqscan =
        false ∧
      (server.multicolTopk (oneOrderby (ascii "(v"))
        (fun _ _ => Except.ok ()) session).2.enableSeqscan = false := by
  decide +kernel

/-- The texts that a call has planned are those that are meant exactly when each of these is
shorter than the buffer. -/
theorem Server.calls_submit_intended_iff :
    ∀ call ∈ [server.topk arguments execute, server.multicolTopk arguments execute],
      ∃ texts, (call session).2.planned = session.planned ++ texts ∧
        texts.length ≤ arguments.orderbyExpressions.length ∧
        (texts = (arguments.orderbyExpressions.take texts.length).map
            (arguments.intendedText arguments.orderbyExpressions) ↔
          ∀ exp ∈ arguments.orderbyExpressions.take texts.length,
            (arguments.intendedText arguments.orderbyExpressions exp).length < 102400) := by
  suffices hfirst : ∃ texts,
      (server.firstCall arguments execute session).2.planned = session.planned ++ texts ∧
        texts.length ≤ arguments.orderbyExpressions.length ∧
        (texts = (arguments.orderbyExpressions.take texts.length).map
            (arguments.intendedText arguments.orderbyExpressions) ↔
          ∀ exp ∈ arguments.orderbyExpressions.take texts.length,
            (arguments.intendedText arguments.orderbyExpressions exp).length < 102400) by
    simpa [Server.topk, Server.multicolTopk] using hfirst
  obtain ⟨count, hcount, hsubmitted⟩ := server.firstCall_submitted arguments execute session
  refine ⟨_, hsubmitted.planned_eq, ?_, ?_⟩
  · simp
  · rw [List.length_map, List.length_take, Nat.min_eq_left hcount, List.map_inj_left]
    simp only [TextArguments.sourceText_eq_iff]

/-- A short expression is planned as it is meant. -/
theorem calls_submit_short :
    let server := answering fun _ => Except.ok []
    let session : Session := ⟨true, [], []⟩
    let call := server.multicolTopk (oneOrderby (ascii "v")) fun _ _ => Except.ok ()
    (call session).2.planned = [ascii "select id from t order by " ++ ascii "v"] := by
  intro server session call
  obtain ⟨texts, hplanned, -, hintended⟩ := Server.calls_submit_intended_iff server
    (oneOrderby (ascii "v")) (fun _ _ => Except.ok ()) session call
    (List.mem_cons_of_mem _ List.mem_cons_self)
  have hone : texts.length = 1 := by
    rw [← List.nil_append texts]
    exact congrArg List.length (hplanned.symm.trans (oneOrderby_planned (ascii "v")))
  have hexpressions : (oneOrderby (ascii "v")).orderbyExpressions = [ascii "v"] := rfl
  rw [hone, hexpressions] at hintended
  have htexts := hintended.mpr (by
    intro exp hexp
    rw [List.mem_singleton.mp hexp, oneOrderby_intended]
    decide +kernel)
  rw [hplanned, htexts]
  rfl

/-- An expression as long as the buffer: what is planned is a shorter expression. -/
theorem planned_cut :
    let server := answering fun _ => Except.ok []
    let session : Session := ⟨true, [], []⟩
    let exp : List UInt8 := List.replicate 102400 118
    let intended := (oneOrderby exp).intendedText [exp] exp
    (server.topk (oneOrderby exp) (fun _ _ => Except.ok ()) session).2.planned =
        [intended.take 102399] ∧
      (server.multicolTopk (oneOrderby exp) (fun _ _ => Except.ok ()) session).2.planned =
        [intended.take 102399] ∧
      intended.take 102399 ≠ intended := by
  intro server session exp intended
  have hlength : intended.length = 102426 := by
    have hexp : exp.length = 102400 := List.length_replicate
    rw [show intended = _ from oneOrderby_intended exp, List.length_append, hexp]
    rfl
  have htext : (oneOrderby exp).sourceText [exp] exp = intended.take 102399 := by
    have hpieces : ∀ piece ∈ (oneOrderby exp).sourcePieces [exp] exp, piece.length < 2 ^ 31 := by
      intro piece hpiece
      have hle := (List.sublist_flatten_of_mem hpiece).length_le
      rw [TextArguments.flatten_sourcePieces, hlength] at hle
      omega
    rw [TextArguments.sourceText, snprintf_text _ hpieces, TextArguments.flatten_sourcePieces]
  refine ⟨?_, ?_, ?_⟩
  · rw [Server.topk, oneOrderby_planned, htext]
  · rw [Server.multicolTopk, oneOrderby_planned, htext]
  · intro hwhole
    have hle := List.length_take_le 102399 intended
    rw [hwhole] at hle
    omega

end VBase.Topk
