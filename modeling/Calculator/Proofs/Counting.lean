import Calculator.Proofs.Acceptance

/-!
# Counting instead of nesting

The diagnostics of a line depend on two things only: whether an operand is due, and how
many groups are open. `Counter` passes over the tokens of a line once and keeps just these.
It knows nothing of trees or of the precedence of operators.

The main statement is that a counter and a reader report the same and stop at the same
token, which the reader takes besides if it is the end of input. It rests on a simulation:
what a counter does in front of a phrase comes down to what it does behind it, with the
diagnostics of the phrase added and the depth unchanged. The open groups of the reader are
its pending calls; at a token that closes none of them they are given up one after the other,
which the counter does in one go.
-/
namespace Calculator

/-- The state of a pass over the tokens of a line. -/
structure Counter where
  needsOperand : Bool := true
  /-- The number of open groups. -/
  depth : Nat := 0
  /-- The number of tokens taken. -/
  taken : Nat := 0
  diagnostics : List Diagnostic := []
  deriving DecidableEq, Repr

namespace Counter

/-- Reports a number of times that a token stands where another kind has to. -/
def report (c : Counter) (times : Nat) (t : Token) (expected : Token.Kind) : Counter :=
  { c with diagnostics :=
      c.diagnostics ++ List.replicate times ⟨.unexpectedToken t.kind expected, t.position⟩ }

/-- What a token does to a counter, unless the counter stops at it. -/
def move? (c : Counter) (t : Token) : Option Counter :=
  if c.needsOperand then
    match t.kind with
    | .number => some { c with needsOperand := false, taken := c.taken + 1 }
    | .openParen => some { c with depth := c.depth + 1, taken := c.taken + 1 }
    | _ => some { c.report 1 t .number with needsOperand := false }
  else
    match t.kind with
    | .plus | .minus | .star | .slash =>
        some { c with needsOperand := true, taken := c.taken + 1 }
    | .closeParen =>
        if 0 < c.depth then some { c with depth := c.depth - 1, taken := c.taken + 1 } else none
    | _ => none

/-- The last reports: every open group is missed, and so is the end of input. -/
def stop (c : Counter) (t : Token) : Counter :=
  let closed := c.report c.depth t .closeParen
  if t.kind = .endOfInput then closed else closed.report 1 t .endOfInput

theorem stop_taken (c : Counter) (t : Token) : (c.stop t).taken = c.taken := by
  rw [stop]
  split <;> rfl

theorem move?_decreases {c d : Counter} {t : Token} (h : c.move? t = some d) :
    d.taken = c.taken + 1 ∨
      d.taken = c.taken ∧ c.needsOperand = true ∧ d.needsOperand = false := by
  unfold move? at h
  split at h
  · next hn =>
    split at h <;> cases h
    · exact .inl rfl
    · exact .inl rfl
    · exact .inr ⟨rfl, hn, rfl⟩
  · split at h
    · cases h
      exact .inl rfl
    · cases h
      exact .inl rfl
    · cases h
      exact .inl rfl
    · cases h
      exact .inl rfl
    · split at h <;> cases h
      exact .inl rfl
    · cases h

/-- Passes over the tokens of a buffer until the counter stops, and yields the number of
tokens taken and the diagnostics. -/
def run (buffer : List Token) (c : Counter) : Nat × List Diagnostic :=
  match _ht : buffer[c.taken]? with
  | none => (c.taken, c.diagnostics)
  | some t =>
      match _hm : c.move? t with
      | some d => run buffer d
      | none => ((c.stop t).taken, (c.stop t).diagnostics)
termination_by 2 * (buffer.length - c.taken) + c.needsOperand.toNat
decreasing_by
  have hlt := (List.getElem?_eq_some_iff.1 _ht).1
  rcases move?_decreases _hm with h | ⟨h, hc, hd⟩
  · have := d.needsOperand.toNat_le
    omega
  · simp only [h, hc, hd, Bool.toNat_true, Bool.toNat_false]
    omega

variable {buffer : List Token} {c d : Counter} {r : Reader}

/-- The counter has taken the tokens of the buffer that the reader has taken. -/
structure At (buffer : List Token) (c : Counter) (r : Reader) : Prop where
  drop_eq : buffer.drop c.taken = r.ahead
  isEnded : r.IsEnded

theorem At.current (h : At buffer c r) : buffer[c.taken]? = some r.current := by
  obtain ⟨ts, ha, -⟩ := h.isEnded
  rw [← List.head?_drop, h.drop_eq, Reader.current, ha]
  cases ts <;> rfl

/-- A counter never takes the end of input. -/
theorem At.rest (h : At buffer c r) (hm : c.move? r.current = some d)
    (ht : d.taken = c.taken + 1) : At buffer d r.rest := by
  have hk : r.current.kind ≠ .endOfInput := by
    intro he
    simp only [move?, he] at hm
    split at hm
    · cases hm
      simp [report] at ht
    · cases hm
  refine ⟨?_, h.isEnded.rest hk⟩
  rw [ht, ← List.tail_drop, h.drop_eq]
  rfl

theorem run_of_move? {t : Token} (ht : buffer[c.taken]? = some t) (hm : c.move? t = some d) :
    run buffer c = run buffer d := by
  rw [run]
  split
  · next hn => simp [ht] at hn
  · next u hu =>
    obtain rfl : t = u := by simpa [ht] using hu
    split
    · next e he => rw [Option.some.inj (hm.symm.trans he)]
    · next hn => simp [hm] at hn

theorem run_of_stop {t : Token} (ht : buffer[c.taken]? = some t) (hm : c.move? t = none) :
    run buffer c = ((c.stop t).taken, (c.stop t).diagnostics) := by
  rw [run]
  split
  · next hn => simp [ht] at hn
  · next u hu =>
    obtain rfl : t = u := by simpa [ht] using hu
    split
    · next e he => simp [hm] at he
    · rfl

theorem At.run_of_move (h : At buffer c r) (hm : c.move? r.current = some d) :
    run buffer c = run buffer d :=
  run_of_move? h.current hm

theorem At.run_of_stop (h : At buffer c r) (hm : c.move? r.current = none) :
    run buffer c = ((c.stop r.current).taken, (c.stop r.current).diagnostics) :=
  Counter.run_of_stop h.current hm

theorem move?_of_number {t : Token} (hn : c.needsOperand = true) (hk : t.kind = .number) :
    c.move? t = some { c with needsOperand := false, taken := c.taken + 1 } := by
  simp [move?, hn, hk]

theorem move?_of_open {t : Token} (hn : c.needsOperand = true) (hk : t.kind = .openParen) :
    c.move? t = some { c with depth := c.depth + 1, taken := c.taken + 1 } := by
  simp [move?, hn, hk]

theorem move?_of_missing_operand {t : Token} (hn : c.needsOperand = true)
    (hk : t.kind ≠ .number) (ho : t.kind ≠ .openParen) :
    c.move? t = some { c.report 1 t .number with needsOperand := false } := by
  simp only [move?, hn, if_true]

theorem move?_of_joins {level : Level} {t : Token} (hn : c.needsOperand = false)
    (hj : level.joins t.kind = true) :
    c.move? t = some { c with needsOperand := true, taken := c.taken + 1 } := by
  cases level with
  | primary => rcases Level.joins_primary_iff.1 hj with h | h <;> simp [move?, hn, h]
  | factor => rcases Level.joins_factor_iff.1 hj with h | h <;> simp [move?, hn, h]
  | term => cases hj

theorem move?_of_close {t : Token} {n : Nat} (hn : c.needsOperand = false)
    (hk : t.kind = .closeParen) (hd : c.depth = n + 1) :
    c.move? t = some { c with depth := n, taken := c.taken + 1 } := by
  simp [move?, hn, hk, hd]

/-- Where no operand is due and no operator stands, a counter goes on at most over a closing
parenthesis. -/
theorem move?_eq_none {t : Token} (hn : c.needsOperand = false)
    (ho : Operator.ofKind? t.kind = none) (hc : t.kind = .closeParen → c.depth = 0) :
    c.move? t = none := by
  simp only [move?, hn, Bool.false_eq_true, if_false]
  cases hk : t.kind <;> simp_all [Operator.ofKind?]

/-- Gives up the innermost open group at a token that does not close it. -/
def giveUp (c : Counter) (t : Token) : Counter :=
  { c.report 1 t .closeParen with depth := c.depth - 1 }

theorem stop_giveUp {n : Nat} (hd : c.depth = n + 1) (t : Token) :
    ((c.giveUp t).stop t).taken = (c.stop t).taken ∧
      ((c.giveUp t).stop t).diagnostics = (c.stop t).diagnostics := by
  simp only [giveUp, stop, report, hd, Nat.add_comm n 1, List.replicate_add]
  constructor
  · split <;> rfl
  · split <;> simp

/-- A counter that stops anyway may give up an open group before. -/
theorem At.run_giveUp {n : Nat} (h : At buffer c r) (hn : c.needsOperand = false)
    (ho : Operator.ofKind? r.current.kind = none) (hk : r.current.kind ≠ .closeParen)
    (hd : c.depth = n + 1) : run buffer (c.giveUp r.current) = run buffer c := by
  have hg : At buffer (c.giveUp r.current) r := ⟨h.drop_eq, h.isEnded⟩
  rw [h.run_of_stop (move?_eq_none hn ho fun he => absurd he hk),
    hg.run_of_stop (move?_eq_none hn ho fun he => absurd he hk)]
  have hs := stop_giveUp hd r.current
  rw [hs.1, hs.2]

/-- The run of a counter in front of a reading comes down to its run behind it. -/
def Follows (buffer : List Token) (c : Counter) (reading : Reading Expr) : Prop :=
  ∃ d : Counter, d.needsOperand = false ∧ d.depth = c.depth ∧
    d.diagnostics = c.diagnostics ++ reading.diagnostics ∧ At buffer d reading.reader ∧
    run buffer c = run buffer d

theorem follows_phrase_chain (buffer : List Token) :
    (∀ level (r : Reader), ∀ c : Counter, c.needsOperand = true → At buffer c r →
      Follows buffer c (r.phrase level)) ∧
      ∀ level left (r : Reader), ∀ c : Counter, c.needsOperand = false → At buffer c r →
        Follows buffer c (r.chain level left) := by
  apply Reader.phrase_chain_induction
  case joined =>
    intro level operand r h p q c hn hat
    obtain ⟨d, hdn, hdd, hds, hdat, hdrun⟩ := p c hn hat
    obtain ⟨e, hen, hed, hes, heat, herun⟩ := q d hdn hdat
    rw [Reader.phrase_of_operand? h]
    refine ⟨e, hen, hed.trans hdd, ?_, heat, hdrun.trans herun⟩
    rw [hes, hds, List.append_assoc]
  case group =>
    intro r h p c hn hat
    have hopen := move?_of_open hn h
    obtain ⟨d, hdn, hdd, hds, hdat, hdrun⟩ :=
      p { c with depth := c.depth + 1, taken := c.taken + 1 } hn (hat.rest hopen rfl)
    rw [Reader.phrase_primary_of_open h]
    by_cases hk : (r.rest.phrase .term).reader.current.kind = .closeParen
    · have hclose := move?_of_close hdn hk hdd
      simp only [Reader.expect_of_eq hk]
      refine ⟨_, ?_, ?_, ?_, hdat.rest hclose rfl, ?_⟩
      · exact hdn
      · rfl
      · simp [hds]
      · rw [hat.run_of_move hopen, hdrun, hdat.run_of_move hclose]
    · -- The pending call reports the group that it gives up, and so does the counter.
      have ho := Reader.ofKind?_behind_term r.rest
      have hgive := hdat.run_giveUp hdn ho hk hdd
      simp only [Reader.expect_of_ne hk]
      refine ⟨d.giveUp (r.rest.phrase .term).reader.current, hdn, ?_, ?_,
        ⟨hdat.drop_eq, hdat.isEnded⟩, ?_⟩
      · simp [giveUp, hdd]
      · simp [giveUp, report, hds]
      · rw [hat.run_of_move hopen, hdrun, hgive]
  case number =>
    intro r h c hn hat
    rw [Reader.phrase_primary_of_not_open h]
    by_cases hk : r.current.kind = .number
    · have hm := move?_of_number hn hk
      simp only [Reader.expect_of_eq hk]
      refine ⟨_, ?_, ?_, ?_, hat.rest hm rfl, hat.run_of_move hm⟩
      · rfl
      · rfl
      · simp
    · have hm := move?_of_missing_operand hn hk h
      simp only [Reader.expect_of_ne hk]
      exact ⟨{ c.report 1 r.current .number with needsOperand := false }, rfl, rfl, rfl,
        ⟨hat.drop_eq, hat.isEnded⟩, hat.run_of_move hm⟩
  case link =>
    intro level left r h p q c hn hat
    have hm := move?_of_joins hn h
    obtain ⟨d, hdn, hdd, hds, hdat, hdrun⟩ := p _ rfl (hat.rest hm rfl)
    obtain ⟨e, hen, hed, hes, heat, herun⟩ := q d hdn hdat
    rw [Reader.chain_of_joins h]
    refine ⟨e, hen, hed.trans hdd, ?_, heat, ?_⟩
    · rw [hes, hds, List.append_assoc]
    · rw [hat.run_of_move hm, hdrun, herun]
  case stop =>
    intro level left r h c hn hat
    rw [Reader.chain_of_not_joins h]
    exact ⟨c, hn, rfl, by simp, hat, rfl⟩

/-- A counter without open groups reports at its end what expecting the end of input does. -/
theorem diagnostics_stop (hd : c.depth = 0) (r : Reader) : (c.stop r.current).diagnostics =
    c.diagnostics ++ (r.expect .endOfInput).diagnostics := by
  by_cases hk : r.current.kind = .endOfInput
  · rw [Reader.expect_of_eq hk]
    simp [stop, report, hd, hk]
  · rw [Reader.expect_of_ne hk]
    simp [stop, report, hd, hk]

theorem At.ahead_expect (h : At buffer c r) : (r.expect .endOfInput).reader.ahead =
    if r.current.kind = .endOfInput then [] else r.ahead := by
  split
  · next hk =>
    rw [Reader.expect_of_eq hk]
    simp [Reader.rest, h.isEnded.ahead_eq hk]
  · next hk => rw [Reader.expect_of_ne hk]

theorem At.length_of_endOfInput (h : At buffer c r) (hk : r.current.kind = .endOfInput) :
    buffer.length = c.taken + 1 := by
  have hlt := (List.getElem?_eq_some_iff.1 h.current).1
  have hlength := congrArg List.length h.drop_eq
  rw [List.length_drop, h.isEnded.ahead_eq hk, List.length_singleton] at hlength
  omega

/-- Expecting the end of input takes it if it is there, and a counter does not. -/
theorem At.length_sub_expect (h : At buffer c r) :
    buffer.length - (r.expect .endOfInput).reader.ahead.length =
      c.taken + if buffer[c.taken]?.map Token.kind = some .endOfInput then 1 else 0 := by
  have hlt := (List.getElem?_eq_some_iff.1 h.current).1
  rw [h.ahead_expect, h.current, Option.map_some]
  simp only [Option.some.injEq]
  split
  · next hk => rw [h.length_of_endOfInput hk, List.length_nil, Nat.sub_zero]
  · rw [← h.drop_eq, List.length_drop]
    omega

/-- A counter stops in front of the tokens of a reader where the term of the reader ends. -/
theorem exists_at_term (h : r.IsEnded) : ∃ d : Counter, d.depth = 0 ∧
    d.diagnostics = (r.phrase .term).diagnostics ∧ At r.ahead d (r.phrase .term).reader ∧
    run r.ahead {} = (d.taken, (d.stop (r.phrase .term).reader.current).diagnostics) := by
  obtain ⟨d, hdn, hdd, hds, hdat, hdrun⟩ :=
    (follows_phrase_chain r.ahead).1 .term r {} rfl ⟨rfl, h⟩
  have hstop := hdat.run_of_stop (move?_eq_none hdn (Reader.ofKind?_behind_term r) fun _ => hdd)
  rw [stop_taken] at hstop
  exact ⟨d, hdd, hds, hdat, hdrun.trans hstop⟩

/-- A counter reports what a reader of the same tokens reports of a term and its end. -/
theorem run_ahead (h : r.IsEnded) : (run r.ahead {}).2 =
    (r.phrase .term).diagnostics ++ ((r.phrase .term).reader.expect .endOfInput).diagnostics := by
  obtain ⟨d, hdd, hds, -, hrun⟩ := exists_at_term h
  rw [hrun, diagnostics_stop hdd, hds]

end Counter

/-- The number of tokens in front of the end of input that are taken. -/
theorem Reader.IsEnded.countP_take {r : Reader} (h : r.IsEnded) (n : Nat) :
    (r.ahead.take n).countP (fun t => t.kind ≠ .endOfInput) = min n (r.ahead.length - 1) := by
  obtain ⟨ts, ha, hts⟩ := h
  have hfront : (ts.take n).countP (fun t => t.kind ≠ .endOfInput) = (ts.take n).length :=
    List.countP_eq_length.2 fun t ht => decide_eq_true (hts t (List.mem_of_mem_take ht))
  have hend : ([Token.endOfInput r.endPosition].take (n - ts.length)).countP
      (fun t => t.kind ≠ .endOfInput) = 0 := by
    refine List.countP_eq_zero.2 fun t ht => ?_
    rw [List.mem_singleton.1 (List.mem_of_mem_take ht)]
    simp [Token.endOfInput]
  rw [ha, List.take_append, List.countP_append, hfront, hend]
  simp

namespace Line

/-- The number of tokens that are taken when a text is read as a line, the end of input
included. -/
def taken (text : String) : Nat :=
  (Reader.ofText text).ahead.length -
    (((Reader.ofText text).phrase .term).reader.expect .endOfInput).reader.ahead.length

/-- The diagnostics of the order of the tokens are those of a counter that passes over them,
and the term of the line takes the tokens that the counter takes. The end of input is no
token that a counter takes; the line takes it too if the counter stops there. So without the
end of input both take the same number of tokens. -/
theorem syntactic_eq_run_counter (text : String) :
    (ofText text).syntactic = (Counter.run (Reader.ofText text).ahead {}).2 ∧
    (Counter.run (Reader.ofText text).ahead {}).1 < (Reader.ofText text).ahead.length ∧
    ((Reader.ofText text).phrase .term).reader.ahead =
      (Reader.ofText text).ahead.drop (Counter.run (Reader.ofText text).ahead {}).1 ∧
    (((Reader.ofText text).phrase .term).reader.expect .endOfInput).reader.ahead =
      (if ((Reader.ofText text).phrase .term).reader.current.kind = .endOfInput then []
      else ((Reader.ofText text).phrase .term).reader.ahead) ∧
    taken text = (Counter.run (Reader.ofText text).ahead {}).1 +
      (if (Reader.ofText text).ahead[(Counter.run (Reader.ofText text).ahead {}).1]?.map
        Token.kind = some .endOfInput then 1 else 0) ∧
    ((Reader.ofText text).ahead.take (taken text)).countP (fun t => t.kind ≠ .endOfInput) =
      (Counter.run (Reader.ofText text).ahead {}).1 := by
  have hended := Reader.isEnded_ofText text
  obtain ⟨d, -, -, hdat, hrun⟩ := Counter.exists_at_term hended
  have hlt := (List.getElem?_eq_some_iff.1 hdat.current).1
  have htaken : taken text = d.taken +
      if (Reader.ofText text).ahead[d.taken]?.map Token.kind = some .endOfInput then 1 else 0 :=
    hdat.length_sub_expect
  rw [Counter.run_ahead hended, hrun]
  refine ⟨rfl, hlt, hdat.drop_eq.symm, hdat.ahead_expect, htaken, ?_⟩
  rw [hended.countP_take, htaken, hdat.current, Option.map_some]
  simp only [Option.some.injEq]
  split
  · next hk =>
    rw [hdat.length_of_endOfInput hk]
    omega
  · omega

/-- The end of input is a token that a line takes and a counter does not. -/
theorem not_forall_taken_eq_run : ¬ ∀ text,
    (ofText text).syntactic = (Counter.run (Reader.ofText text).ahead {}).2 ∧
      taken text = (Counter.run (Reader.ofText text).ahead {}).1 := by
  intro h
  have htaken : taken "1" = 2 := by decide +kernel
  have hrun : (Counter.run (Reader.ofText "1").ahead {}).1 = 1 := by decide +kernel
  have heq := (h "1").2
  rw [htaken, hrun] at heq
  cases heq

end Line

end Calculator
