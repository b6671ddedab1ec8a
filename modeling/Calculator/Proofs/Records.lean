import Calculator.Log
import Calculator.Proofs.Places

/-!
# The records of a text

Work that is logged yields what it yields without a log, and leaves certain records behind
those that are there, of which a threshold keeps some. `Leaves` says both at once, and has one
rule for each way in which work is put together. So every stage is described along its own
recursion: the scanner leaves the records of its tokens, the parser one for each diagnostic of
its reading, the evaluator one for a fault and none besides.

The records of a text are put together from these, and are told by its tokens, its diagnostics
and its outcome.
-/
namespace Calculator.Log

/-- Work has a result and leaves those of some records that a threshold keeps, whatever has been
left before. -/
def Leaves {α : Type} (threshold : Threshold) (work : Logging α) (a : α) (records : List Record) :
    Prop :=
  ∀ log : Array Record, (work.run log).run =
    (a, log ++ records.filter fun record => threshold.keeps record.severity)

namespace Leaves

variable {α β : Type} {threshold : Threshold} {work : Logging α} {a : α} {b : β}
  {records others : List Record}

theorem pure (a : α) : Leaves threshold (Pure.pure a) a [] := by
  intro log
  simp

theorem note (records : List Record) : Leaves threshold (note threshold records) () records := by
  intro log
  rfl

theorem bind {f : α → Logging β} (h : Leaves threshold work a records)
    (hf : Leaves threshold (f a) b others) :
    Leaves threshold (work >>= f) b (records ++ others) := by
  intro log
  rw [StateT.run_bind, Id.run_bind, h log, hf, List.filter_append]
  apply congrArg (Prod.mk b)
  apply Array.toList_inj.1
  simp

/-- What is made of the result at last leaves no record. -/
theorem bind_pure {f : α → Logging β} (h : Leaves threshold work a records)
    (hf : f a = Pure.pure b) : Leaves threshold (work >>= f) b records := by
  have hb := h.bind (hf ▸ pure b)
  rwa [List.append_nil] at hb

section

variable {ε : Type} {work : ExceptT ε Logging α} {f : α → ExceptT ε Logging β}

/-- Work that fails is not gone on with. -/
theorem bind_error {e : ε} (h : Leaves threshold work.run (.error e) records) :
    Leaves threshold (work >>= f).run (.error e) records := by
  rw [ExceptT.run_bind]
  exact h.bind_pure rfl

theorem bind_ok {b : Except ε β} (h : Leaves threshold work.run (.ok a) records)
    (hf : Leaves threshold (f a).run b others) :
    Leaves threshold (work >>= f).run b (records ++ others) := by
  rw [ExceptT.run_bind]
  exact h.bind hf

theorem lift {work : Logging α} (h : Leaves threshold work a records) :
    Leaves threshold (liftM work : ExceptT ε Logging α).run (.ok a) records := by
  change Leaves threshold (Except.ok <$> work) (.ok a) records
  rw [map_eq_pure_bind]
  exact h.bind_pure rfl

end

end Leaves

theorem leaves_steps (threshold : Threshold) (c : Cursor) :
    Leaves threshold (c.stepsWith (attend threshold)) c.steps (c.steps.flatMap ofScanned) := by
  induction c using Cursor.steps_induction with
  | last c h =>
    rw [Cursor.stepsWith, Cursor.steps_of_nil h, List.flatMap_singleton]
    simp only [h, ↓reduceDIte]
    exact (Leaves.note _).bind_pure rfl
  | more c h ih =>
    rw [Cursor.stepsWith, Cursor.steps_of_ne_nil h, List.flatMap_cons]
    simp only [h, ↓reduceDIte]
    exact (Leaves.note _).bind (ih.bind_pure rfl)

/-- Reading leaves one record for each of its diagnostics. -/
theorem leaves_read (threshold : Threshold) :
    (∀ level (r : Reader), Leaves threshold (r.readWith (report threshold) (.phrase level))
      ⟨r.phrase level, r.phrase_reader_le level⟩
      ((r.phrase level).diagnostics.map (ofDiagnostic .parser))) ∧
    ∀ level left (r : Reader), Leaves threshold (r.readWith (report threshold) (.chain level left))
      ⟨r.chain level left, r.chain_reader_le level left⟩
      ((r.chain level left).diagnostics.map (ofDiagnostic .parser)) := by
  apply Reader.phrase_chain_induction
  case joined =>
    intro level operand r ho first rest
    simp only [Reader.phrase_of_operand? ho, List.map_append]
    rw [Reader.readWith]
    -- Which level reads the operand is settled by the level, and the dependent match needs it.
    cases level <;> cases ho
    all_goals exact first.bind (rest.bind_pure rfl)
  case group =>
    intro r hk inner
    simp only [Reader.phrase_primary_of_open hk, List.map_append]
    rw [Reader.readWith]
    simp only [Level.operand?, hk, ↓reduceDIte]
    exact inner.bind ((Leaves.note _).bind_pure rfl)
  case number =>
    intro r hk
    simp only [Reader.phrase_primary_of_not_open hk]
    rw [Reader.readWith]
    simp only [Level.operand?, hk, ↓reduceDIte]
    exact (Leaves.note _).bind_pure rfl
  case link =>
    intro level left r hk right rest
    simp only [Reader.chain_of_joins hk, List.map_append]
    rw [Reader.readWith]
    simp only [hk, ↓reduceDIte]
    exact right.bind (rest.bind_pure rfl)
  case stop =>
    intro level left r hk
    simp only [Reader.chain_of_not_joins hk]
    rw [Reader.readWith]
    simp only [hk]
    exact Leaves.pure _

/-- The record that a fault leaves. -/
def ofValue : Except Fault Int32 → List Record
  | .error f => [ofFault f]
  | .ok _ => []

/-- The record that an outcome leaves; a line with diagnostics is not evaluated. -/
def ofOutcome : Outcome → List Record
  | .error (.fault f) => [ofFault f]
  | _ => []

/-- However deep the operator is that fails, a single record is left. -/
theorem leaves_evaluate (threshold : Threshold) (e : Expr) :
    Leaves threshold (e.evaluateWith (reportFault threshold)).run e.evaluate
      (ofValue e.evaluate) := by
  induction e with
  | number token => exact Leaves.pure _
  | group _ _ _ ih => exact ih
  | binary left operator right ihl ihr =>
    rw [Expr.evaluateWith, Expr.evaluate_binary]
    cases hl : left.evaluate with
    | error f =>
      rw [hl] at ihl
      exact ihl.bind_error
    | ok a =>
      rw [hl] at ihl
      cases hr : right.evaluate with
      | error f =>
        rw [hr] at ihr
        exact ihl.bind_ok ihr.bind_error
      | ok b =>
        rw [hr] at ihr
        refine ihl.bind_ok (ihr.bind_ok ?_)
        change Leaves threshold _ (operator.apply a b) (ofValue (operator.apply a b))
        cases operator.apply a b with
        | error f => exact (Leaves.lift (Leaves.note _)).bind_ok (Leaves.pure _)
        | ok v => exact Leaves.pure _

/-- What is scanned and read of a text is its line. -/
theorem leaves_line (threshold : Threshold) (text : String) :
    Leaves threshold (Line.ofTextWith (attend threshold) (report threshold) text)
      (Line.ofText text) ((Cursor.ofText text).steps.flatMap ofScanned ++
        (Line.ofText text).syntactic.map (ofDiagnostic .parser)) := by
  rw [Line.ofText_eq, List.map_append]
  refine (leaves_steps threshold (Cursor.ofText text)).bind ?_
  refine ((leaves_read threshold).1 .term (Reader.ofText text)).bind ?_
  exact (Leaves.note _).bind_pure rfl

theorem leaves_outcome (threshold : Threshold) (text : String) :
    Leaves threshold (outcome threshold text) (Calculator.evaluate text)
      ((Cursor.ofText text).steps.flatMap ofScanned ++
        (Line.ofText text).syntactic.map (ofDiagnostic .parser) ++
        ofOutcome (Calculator.evaluate text)) := by
  refine (leaves_line threshold text).bind ?_
  rw [Calculator.evaluate, Line.outcome_eq, Line.outcomeWith]
  cases h : (Line.ofText text).isWellFormed with
  | false =>
    exact Leaves.pure _
  | true =>
    have hv := leaves_evaluate threshold (Line.ofText text).root
    cases he : (Line.ofText text).root.evaluate with
    | error f =>
      rw [he] at hv
      exact hv.bind_pure rfl
    | ok v =>
      rw [he] at hv
      exact hv.bind_pure rfl

/-- The records of a run are those of the outcome, less what the threshold drops. -/
theorem runWith_eq (threshold : Threshold) (text : String) : runWith threshold text =
    ⟨Calculator.evaluate text, (((Cursor.ofText text).steps.flatMap ofScanned ++
      (Line.ofText text).syntactic.map (ofDiagnostic .parser) ++
      ofOutcome (Calculator.evaluate text)).filter
        fun record => threshold.keeps record.severity)⟩ := by
  rw [runWith, leaves_outcome threshold text]
  simp

theorem flatMap_ofScanned {text : String} {ss : List Scanned}
    (h : ∀ s ∈ ss, s ∈ (Cursor.ofText text).steps) : ss.flatMap ofScanned =
      ((ss.map Scanned.token).filter (·.kind ≠ .endOfInput)).flatMap fun t =>
        (diagnosticsAt text t.position).map (ofDiagnostic .scanner) ++ [ofToken t] := by
  induction ss with
  | nil => rfl
  | cons s ss ih =>
    rw [List.forall_mem_cons] at h
    obtain ⟨c, hc, rfl⟩ := Cursor.exists_standsIn_of_mem_steps h.1
    rw [List.flatMap_cons, ih h.2, List.map_cons]
    by_cases hend : c.rest = []
    · have hnext := Cursor.next_of_nil hend
      rw [List.filter_cons_of_neg (by simp [hnext, Token.endOfInput]), hnext]
      rfl
    · have hkind := mt (Cursor.next_kind_eq_endOfInput_iff c).1 hend
      rw [List.filter_cons_of_pos (by simpa using hkind), List.flatMap_cons, ofScanned,
        if_neg hkind, Cursor.next_position, hc.diagnosticsAt_eq]
      cases c.next.diagnostic? <;> rfl

/-- A diagnostic of the scanner or of the parser. -/
def Record.isReport (r : Record) : Bool := r.severity = .debug && r.stage ≠ .evaluator

theorem filter_isReport_scanned (ss : List Scanned) :
    (ss.flatMap ofScanned).filter Record.isReport =
      (ss.filterMap Scanned.diagnostic?).map (ofDiagnostic .scanner) := by
  induction ss with
  | nil => rfl
  | cons s ss ih =>
    have htrace : (if s.token.kind = .endOfInput then [] else [ofToken s.token]).filter
        Record.isReport = [] := by
      split <;> rfl
    rw [List.flatMap_cons, List.filter_append, ih, ofScanned, List.filter_append, htrace]
    cases hd : s.diagnostic? with
    | none => rw [List.filterMap_cons_none hd]; rfl
    | some d => rw [List.filterMap_cons_some hd]; rfl

theorem filter_isReport_parsed (ds : List Diagnostic) :
    (ds.map (ofDiagnostic .parser)).filter Record.isReport = ds.map (ofDiagnostic .parser) := by
  rw [List.filter_eq_self, List.forall_mem_map]
  intro d _
  rfl

theorem filter_isReport_ofOutcome (o : Outcome) : (ofOutcome o).filter Record.isReport = [] := by
  cases o with
  | ok _ => rfl
  | error f => cases f <;> rfl

theorem map_message_ofDiagnostic (stage : Stage) (ds : List Diagnostic) :
    (ds.map (ofDiagnostic stage)).map Record.message = ds.map Diagnostic.message := by
  rw [List.map_map]
  rfl

/-- The log of a text. At the lowest threshold every token but the end of input is traced, with
its diagnostic in front if it has one; then each diagnostic of the parser is reported, and then
the fault, once, if the outcome is one. So the reports are the diagnostics of the line. A higher
threshold drops the traces or everything, and the outcome is always the same. -/
theorem records_of_text (text : String) :
    (runWith .trace text).records =
      (((tokens text).filter (·.kind ≠ .endOfInput)).flatMap fun t =>
        (diagnosticsAt text t.position).map (fun d => ⟨.debug, .scanner, d.message⟩) ++
          [⟨.trace, .scanner, "scanned <" ++ t.kind.name ++ "> at " ++ toString t.position ++
            ": " ++ quote? t.text⟩]) ++
      (Line.ofText text).syntactic.map (fun d => ⟨.debug, .parser, d.message⟩) ++
      (match Calculator.evaluate text with
        | .error (.fault f) => [⟨.debug, .evaluator, "evaluation failed: " ++ f.message⟩]
        | _ => []) ∧
    (∀ position, (diagnosticsAt text position).length ≤ 1) ∧
    ((runWith .trace text).records.filter Record.isReport).map Record.message =
      (Line.ofText text).diagnostics.map Diagnostic.message ∧
    (runWith .debug text).records =
      (runWith .trace text).records.filter (fun record => record.severity = .debug) ∧
    (runWith .info text).records = [] ∧ (runWith .off text).records = [] ∧
    ∀ threshold, (runWith threshold text).result = Calculator.evaluate text := by
  have htrace : (runWith .trace text).records =
      (Cursor.ofText text).steps.flatMap ofScanned ++
        (Line.ofText text).syntactic.map (ofDiagnostic .parser) ++
        ofOutcome (Calculator.evaluate text) := by
    rw [runWith_eq]
    exact List.filter_eq_self.2 fun _ _ => rfl
  refine ⟨?_, length_diagnosticsAt_le text, ?_, ?_, ?_, ?_, ?_⟩
  · rw [htrace, flatMap_ofScanned fun _ h => h]
    rfl
  · rw [htrace, List.filter_append, List.filter_append, filter_isReport_scanned,
      filter_isReport_parsed, filter_isReport_ofOutcome, List.append_nil, List.map_append,
      map_message_ofDiagnostic, map_message_ofDiagnostic, ← List.map_append]
    rfl
  · rw [htrace, runWith_eq]
    apply List.filter_congr
    intro record _
    cases record.severity <;> rfl
  · rw [runWith_eq, List.filter_eq_nil_iff]
    intro record _
    cases record.severity <;> decide
  · rw [runWith_eq, List.filter_eq_nil_iff]
    intro record _
    cases record.severity <;> decide
  · intro threshold
    rw [runWith_eq]

end Calculator.Log
