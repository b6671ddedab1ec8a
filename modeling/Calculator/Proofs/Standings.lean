import Calculator.Proofs.Counting

/-!
# Standings

What the front of a line leaves open is whether an operand is due and how many groups are
not closed. A standing is these two facts; kinds of tokens lead from one standing to the
next, or to none if the token does not fit. Unlike a counter, a standing never recovers.

The main statement is that the sentences of the grammar are exactly the lists of kinds that
lead from nothing read to nothing open. One half is an induction on derived trees. The other
half goes through a reader: a counter that meets only fitting tokens reports nothing, so
neither does the reader, whose tree then has these tokens.
-/
namespace Calculator

structure Standing where
  needsOperand : Bool := true
  /-- The number of open groups. -/
  depth : Nat := 0
  deriving DecidableEq, Repr

namespace Standing

/-- Where a token of the kind leads to, if it fits. -/
def step? : Standing → Token.Kind → Option Standing
  | ⟨true, d⟩, .number => some ⟨false, d⟩
  | ⟨true, d⟩, .openParen => some ⟨true, d + 1⟩
  | ⟨false, d⟩, .plus | ⟨false, d⟩, .minus | ⟨false, d⟩, .star | ⟨false, d⟩, .slash =>
      some ⟨true, d⟩
  | ⟨false, d + 1⟩, .closeParen => some ⟨false, d⟩
  | _, _ => none

def run? (s : Standing) (ks : List Token.Kind) : Option Standing := ks.foldlM step? s

def closed : Standing := ⟨false, 0⟩

/-- A token of the kind fits, or is the end of input behind a sentence. -/
def Admits (s : Standing) (k : Token.Kind) : Prop :=
  s.step? k ≠ none ∨ k = .endOfInput ∧ s = closed

theorem run?_cons (s : Standing) (k : Token.Kind) (ks : List Token.Kind) :
    s.run? (k :: ks) = (s.step? k).bind fun t => t.run? ks := rfl

theorem run?_append (s : Standing) (ks ls : List Token.Kind) :
    s.run? (ks ++ ls) = (s.run? ks).bind fun t => t.run? ls :=
  List.foldlM_append

theorem run?_append_of_eq {s t : Standing} {ks : List Token.Kind} (h : s.run? ks = some t)
    (ls : List Token.Kind) : s.run? (ks ++ ls) = t.run? ls := by
  rw [run?_append, h, Option.bind_some]

example : run? {} [.openParen, .number, .plus] = some ⟨true, 1⟩ := rfl

theorem step?_of_joins {level : Level} {k : Token.Kind} (h : level.joins k = true) (d : Nat) :
    step? ⟨false, d⟩ k = some ⟨true, d⟩ := by
  cases level with
  | primary => rcases Level.joins_primary_iff.1 h with rfl | rfl <;> rfl
  | factor => rcases Level.joins_factor_iff.1 h with rfl | rfl <;> rfl
  | term => cases h

theorem step?_endOfInput (s : Standing) : s.step? .endOfInput = none := by
  obtain ⟨needsOperand, depth⟩ := s
  cases needsOperand <;> cases depth <;> rfl

/-- A token that fits is never the end of input. -/
theorem ne_endOfInput_of_run? {s t : Standing} {ks : List Token.Kind} (h : s.run? ks = some t) :
    ∀ k ∈ ks, k ≠ .endOfInput := by
  induction ks generalizing s with
  | nil => simp
  | cons k ks ih =>
    rw [run?_cons, Option.bind_eq_some_iff] at h
    obtain ⟨u, hu, hks⟩ := h
    intro l hl
    rcases List.mem_cons.1 hl with rfl | hl
    · rintro rfl
      rw [step?_endOfInput] at hu
      cases hu
    · exact ih hks l hl

end Standing

/-- Reading a derived tree takes the operand that is due and leaves the groups as they were. -/
theorem Derivation.run?_eq {level : Level} {e : Expr} (h : Derivation level e) (d : Nat) :
    Standing.run? ⟨true, d⟩ (e.tokens.map Token.kind) = some ⟨false, d⟩ := by
  induction h generalizing d with
  | number hk =>
    rw [Expr.tokens, List.map_singleton, hk]
    rfl
  | group ho _ hc ih =>
    rw [Expr.tokens, List.map_cons, List.map_append, List.map_singleton, ho, hc,
      Standing.run?_cons]
    exact Standing.run?_append_of_eq (ih (d + 1)) _
  | primary _ ih => exact ih d
  | @product left right operator _ hk _ ihl ihr =>
    rw [Expr.tokens, List.map_append, List.map_cons, Standing.run?_append_of_eq (ihl d),
      Standing.run?_cons, Standing.step?_of_joins (Level.joins_primary_iff.2 hk)]
    exact ihr d
  | factor _ ih => exact ih d
  | @sum left right operator _ hk _ ihl ihr =>
    rw [Expr.tokens, List.map_append, List.map_cons, Standing.run?_append_of_eq (ihl d),
      Standing.run?_cons, Standing.step?_of_joins (Level.joins_factor_iff.2 hk)]
    exact ihr d

namespace Counter

variable {buffer : List Token} {c : Counter} {t : Token}

/-- What a counter has seen of the grammar. -/
def standing (c : Counter) : Standing := ⟨c.needsOperand, c.depth⟩

/-- The counter behind a number of fitting tokens that lead to a standing. -/
def advance (c : Counter) (s : Standing) (n : Nat) : Counter :=
  { c with needsOperand := s.needsOperand, depth := s.depth, taken := c.taken + n }

theorem move?_of_step? {s : Standing} (h : c.standing.step? t.kind = some s) :
    c.move? t = some (c.advance s 1) := by
  obtain ⟨needsOperand, depth, taken, diagnostics⟩ := c
  cases needsOperand with
  | true =>
    cases hk : t.kind <;> rw [standing, hk] at h <;> cases h
    · simp [move?, hk, advance]
    · simp [move?, hk, advance]
  | false =>
    cases hk : t.kind <;> rw [standing, hk] at h <;> cases depth <;> cases h
    all_goals simp [move?, hk, advance]

theorem move?_of_missing_step (hn : c.needsOperand = true)
    (h : c.standing.step? t.kind = none) :
    c.move? t = some { c.report 1 t .number with needsOperand := false } := by
  rw [standing, hn] at h
  refine move?_of_missing_operand hn (fun hk => ?_) fun hk => ?_
  · rw [hk] at h
    cases h
  · rw [hk] at h
    cases h

theorem move?_eq_none_of_step? (hn : c.needsOperand = false)
    (h : c.standing.step? t.kind = none) : c.move? t = none := by
  rw [standing, hn] at h
  refine move?_eq_none hn ?_ fun hk => ?_
  · revert h
    cases t.kind <;> simp [Operator.ofKind?, Standing.step?]
  · cases hd : c.depth with
    | zero => rfl
    | succ depth =>
      rw [hk, hd] at h
      cases h

theorem run_of_run? {ts us : List Token} {s : Standing} (hb : buffer.drop c.taken = ts ++ us)
    (h : c.standing.run? (ts.map Token.kind) = some s) :
    run buffer c = run buffer (c.advance s ts.length) := by
  induction ts generalizing c with
  | nil =>
    obtain rfl : c.standing = s := Option.some.inj h
    rfl
  | cons t ts ih =>
    rw [List.map_cons, Standing.run?_cons, Option.bind_eq_some_iff] at h
    obtain ⟨u, hu, hts⟩ := h
    have ht : buffer[c.taken]? = some t := by rw [← List.head?_drop, hb]; rfl
    have hb' : buffer.drop (c.advance u 1).taken = ts ++ us := by
      rw [advance, ← List.tail_drop, hb]
      rfl
    rw [run_of_move? ht (move?_of_step? hu), ih hb' hts]
    simp only [advance, List.length_cons, Nat.add_assoc, Nat.add_comm 1]

theorem diagnostics_isPrefix_move? {d : Counter} (h : c.move? t = some d) :
    c.diagnostics <+: d.diagnostics := by
  cases hs : c.standing.step? t.kind with
  | some s =>
    obtain rfl := Option.some.inj ((move?_of_step? hs).symm.trans h)
    exact List.prefix_rfl
  | none =>
    cases hn : c.needsOperand with
    | true =>
      obtain rfl := Option.some.inj ((move?_of_missing_step hn hs).symm.trans h)
      exact List.prefix_append _ _
    | false =>
      rw [move?_eq_none_of_step? hn hs] at h
      cases h

theorem diagnostics_isPrefix_stop (c : Counter) (t : Token) :
    c.diagnostics <+: (c.stop t).diagnostics := by
  unfold stop
  split
  · exact List.prefix_append _ _
  · exact (List.prefix_append _ _).trans (List.prefix_append _ _)

/-- A counter stops with a report unless nothing is open and the end of input stands there. -/
theorem exists_report_stop (h : c.depth ≠ 0 ∨ t.kind ≠ .endOfInput) : ∃ expected,
    c.diagnostics ++ [⟨.unexpectedToken t.kind expected, t.position⟩] <+:
      (c.stop t).diagnostics := by
  obtain ⟨needsOperand, depth, taken, diagnostics⟩ := c
  cases depth with
  | zero =>
    have hk : t.kind ≠ .endOfInput := h.resolve_left (by simp)
    exact ⟨.endOfInput, by simp [stop, report, hk]⟩
  | succ depth =>
    refine ⟨.closeParen, ?_⟩
    unfold stop
    split
    · simp [report, List.replicate_succ]
    · simp [report, List.replicate_succ]

/-- A counter never takes back what it has reported. -/
theorem diagnostics_isPrefix_run (buffer : List Token) (c : Counter) :
    c.diagnostics <+: (run buffer c).2 := by
  fun_induction run buffer c with
  | case1 c h => exact List.prefix_rfl
  | case2 c t ht d hd ih => exact (diagnostics_isPrefix_move? hd).trans ih
  | case3 c t ht hm => exact diagnostics_isPrefix_stop c t

/-- What a counter reports at a token that does not fit comes before all further reports. -/
theorem exists_report_of_not_admits (ht : buffer[c.taken]? = some t)
    (h : ¬ c.standing.Admits t.kind) : ∃ expected,
      c.diagnostics ++ [⟨.unexpectedToken t.kind expected, t.position⟩] <+: (run buffer c).2 := by
  obtain ⟨hstep, hend⟩ := not_or.1 h
  rw [not_not] at hstep
  cases hn : c.needsOperand with
  | true =>
    -- The counter goes on behind this report, which therefore has to be carried to the end.
    rw [run_of_move? ht (move?_of_missing_step hn hstep)]
    have hr := diagnostics_isPrefix_run buffer { c.report 1 t .number with needsOperand := false }
    exact ⟨.number, hr⟩
  | false =>
    -- No operand is due, so the counter stops here, and it does so silently only at the end
    -- of a sentence.
    rw [run_of_stop ht (move?_eq_none_of_step? hn hstep)]
    refine exists_report_stop ?_
    by_contra hd
    rw [not_or, not_not, not_not] at hd
    exact hend ⟨hd.2, by rw [standing, hn, hd.1]; rfl⟩

/-- A counter that has a sentence behind it and the end of input before it stops silently. -/
theorem run_of_closed (ht : buffer[c.taken]? = some t) (hk : t.kind = .endOfInput)
    (hs : c.standing = .closed) : (run buffer c).2 = c.diagnostics := by
  rw [standing, Standing.closed, Standing.mk.injEq] at hs
  rw [run_of_stop ht (move?_eq_none hs.1 (by rw [hk]; rfl) fun _ => hs.2)]
  simp [stop, report, hk, hs.2]

end Counter

/-- The sentences are the lists of kinds that fit one after the other and leave nothing open. -/
theorem sentence_iff_run? {ks : List Token.Kind} :
    Sentence .term ks ↔ Standing.run? {} ks = some .closed := by
  obtain ⟨ts, rfl⟩ := exists_map_kind ks
  constructor
  · intro h
    obtain ⟨e, he, rfl⟩ := h.exists_derivation rfl
    exact he.run?_eq 0
  · -- The tree of the sentence is the one that a reader yields in front of these tokens.
    intro h
    have hended : Reader.IsEnded ⟨ts ++ [Token.endOfInput 0], 0⟩ :=
      ⟨ts, rfl, fun t ht => Standing.ne_endOfInput_of_run? h t.kind (List.mem_map_of_mem ht)⟩
    have hrun : (Counter.run (ts ++ [Token.endOfInput 0]) {}).2 = [] := by
      have hdrop : (ts ++ [Token.endOfInput 0]).drop ({} : Counter).taken =
          ts ++ [Token.endOfInput 0] := rfl
      rw [Counter.run_of_run? hdrop h]
      exact Counter.run_of_closed (t := Token.endOfInput 0) (by simp [Counter.advance]) rfl rfl
    have hsilent := List.append_eq_nil_iff.1 ((Counter.run_ahead hended).symm.trans hrun)
    obtain ⟨hd, hahead, -⟩ := Reader.derivation_of_silent hended hsilent.1 hsilent.2
    rw [List.append_cancel_right hahead]
    exact hd.sentence

end Calculator
