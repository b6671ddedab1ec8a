import Calculator.Proofs.Sentences

/-!
# What readings yield

Four facts about the phrases that a reader yields. Three of them are an induction each along
the calls of `Reader.phrase` and `Reader.chain`, so that nothing else needs that induction
again: the tree is always a derivation of its level, whatever the tokens are; the tokens of
the tree are a repair of the tokens that were taken, which stand there unchanged and in their
order, and where one of another kind was due a placeholder has been put in and reported; the
token behind a phrase does not go on with it.

The fourth is a converse, by induction on derived trees. If the tokens of such a tree are a
repair of what is ahead, then the reader yields this tree and reports the repair, or goes on
with the tree if more of its chain follows. Only operands may be missing for that. With a
closing parenthesis missing the repair could have been made elsewhere, and the reader chooses
the last place. In front of the tokens of a derived tree itself nothing is reported.
-/
namespace Calculator

/-- The reading with diagnostics that arose before it. -/
def Reading.after {α : Type} (ds : List Diagnostic) (x : Reading α) : Reading α :=
  { x with diagnostics := ds ++ x.diagnostics }

namespace Reader

theorem expect_of_eq {r : Reader} {k : Token.Kind} (h : r.current.kind = k) :
    r.expect k = ⟨r.current, [], r.rest⟩ := by
  rw [expect, if_pos h, next]

theorem expect_of_ne {r : Reader} {k : Token.Kind} (h : r.current.kind ≠ k) :
    r.expect k = ⟨Token.placeholder k r.current.position,
      [⟨.unexpectedToken r.current.kind k, r.current.position⟩], r⟩ := by
  rw [expect, if_neg h]

theorem expect_result_kind (r : Reader) (k : Token.Kind) : (r.expect k).result.kind = k := by
  by_cases h : r.current.kind = k
  · rw [expect_of_eq h]
    exact h
  · rw [expect_of_ne h]
    rfl

/-- Phrases are derivations of their level, also of tokens that are no sentence. -/
theorem phrase_chain_derivation :
    (∀ level (r : Reader), Derivation level (r.phrase level).result) ∧
      ∀ operand left (r : Reader), ∀ level, Level.operand? level = some operand →
        Derivation level left → Derivation level (r.chain operand left).result := by
  apply phrase_chain_induction
  case joined =>
    intro level operand r h p q
    rw [phrase_of_operand? h]
    exact q level h (p.ofOperand h)
  case group =>
    intro r h p
    rw [phrase_primary_of_open h]
    exact .group h p (expect_result_kind _ _)
  case number =>
    intro r h
    rw [phrase_primary_of_not_open h]
    exact .number (expect_result_kind _ _)
  case link =>
    intro operand left r h p q level hl hleft
    rw [chain_of_joins h]
    exact q level hl (hleft.link hl h p)
  case stop =>
    intro operand left r h level _ hleft
    rw [chain_of_not_joins h]
    exact hleft

theorem phrase_derivation (level : Level) (r : Reader) : Derivation level (r.phrase level).result :=
  phrase_chain_derivation.1 level r

theorem ahead_eq_cons {r : Reader} (h : r.ahead ≠ []) : r.ahead = r.current :: r.rest.ahead := by
  obtain ⟨t, ts, ht⟩ := List.exists_cons_of_ne_nil h
  simp [current, rest, ht]

/-- A token of the kind may be missing. -/
def CanBeMissing (k : Token.Kind) : Prop := k = .number ∨ k = .closeParen

/-- Tokens that a reader yields with diagnostics, and the reader behind them. -/
inductive Repair : Reader → List Token → List Diagnostic → Reader → Prop
  | done (r : Reader) : Repair r [] [] r
  | take {r behind : Reader} {ts : List Token} {ds : List Diagnostic} :
      r.current.kind ≠ .endOfInput → Repair r.rest ts ds behind →
      Repair r (r.current :: ts) ds behind
  | insert {r behind : Reader} {ts : List Token} {ds : List Diagnostic} {k : Token.Kind} :
      CanBeMissing k → r.current.kind ≠ k → Repair r ts ds behind →
      Repair r (Token.placeholder k r.current.position :: ts)
        (⟨.unexpectedToken r.current.kind k, r.current.position⟩ :: ds) behind

namespace Repair

theorem trans {r s u : Reader} {ts us : List Token} {ds es : List Diagnostic}
    (h : Repair r ts ds s) (h' : Repair s us es u) : Repair r (ts ++ us) (ds ++ es) u := by
  induction h with
  | done r => exact h'
  | take hk _ ih => exact .take hk (ih h')
  | insert hk hne _ ih => exact .insert hk hne (ih h')

theorem single {r : Reader} (h : r.current.kind ≠ .endOfInput) :
    Repair r [r.current] [] r.rest :=
  .take h (.done _)

theorem expect (r : Reader) {k : Token.Kind} (hk : CanBeMissing k) :
    Repair r [(r.expect k).result] (r.expect k).diagnostics (r.expect k).reader := by
  by_cases h : r.current.kind = k
  · rw [expect_of_eq h]
    apply single
    rw [h]
    rcases hk with rfl | rfl <;> decide
  · rw [expect_of_ne h]
    exact .insert hk h (.done r)

/-- Without diagnostics the tokens are the ones that were ahead. -/
theorem ahead_eq {r behind : Reader} {ts : List Token} {ds : List Diagnostic}
    (h : Repair r ts ds behind) (hd : ds = []) : r.ahead = ts ++ behind.ahead := by
  induction h with
  | done r => rfl
  | take hk _ ih => rw [ahead_eq_cons (ahead_ne_nil_of_current hk), ih hd, List.cons_append]
  | insert _ _ _ _ => cases hd

end Repair

/-- The end of input is ahead, once and as the last token. -/
def IsEnded (r : Reader) : Prop :=
  ∃ ts, r.ahead = ts ++ [Token.endOfInput r.endPosition] ∧ ∀ t ∈ ts, t.kind ≠ .endOfInput

theorem IsEnded.ahead_ne_nil {r : Reader} (h : r.IsEnded) : r.ahead ≠ [] := by
  obtain ⟨ts, ha, -⟩ := h
  simp [ha]

theorem IsEnded.rest {r : Reader} (h : r.IsEnded) (hk : r.current.kind ≠ .endOfInput) :
    r.rest.IsEnded := by
  obtain ⟨ts, ha, hts⟩ := h
  cases ts with
  | nil => simp [current, ha, Token.endOfInput] at hk
  | cons t ts => exact ⟨ts, by simp [Reader.rest, ha], fun u hu => hts u (by simp [hu])⟩

theorem IsEnded.ahead_eq {r : Reader} (h : r.IsEnded) (hk : r.current.kind = .endOfInput) :
    r.ahead = [Token.endOfInput r.endPosition] := by
  obtain ⟨ts, ha, hts⟩ := h
  cases ts with
  | nil => simpa using ha
  | cons t ts => exact absurd hk (by simpa [current, ha] using hts t (by simp))

theorem Repair.isEnded {r behind : Reader} {ts : List Token} {ds : List Diagnostic}
    (h : Repair r ts ds behind) (hr : r.IsEnded) :
    behind.IsEnded ∧ behind.endPosition = r.endPosition := by
  induction h with
  | done r => exact ⟨hr, rfl⟩
  | take hk _ ih => exact ih (hr.rest hk)
  | insert _ _ _ ih => exact ih hr

theorem phrase_chain_repair :
    (∀ level (r : Reader), Repair r (r.phrase level).result.tokens (r.phrase level).diagnostics
      (r.phrase level).reader) ∧
      ∀ level left (r : Reader), ∃ ts, (r.chain level left).result.tokens = left.tokens ++ ts ∧
        Repair r ts (r.chain level left).diagnostics (r.chain level left).reader := by
  apply phrase_chain_induction
  case joined =>
    intro level operand r h p ⟨ts, hts, q⟩
    rw [phrase_of_operand? h, hts]
    exact p.trans q
  case group =>
    intro r h p
    rw [phrase_primary_of_open h]
    have hc := Repair.expect (r.rest.phrase .term).reader (k := .closeParen) (.inr rfl)
    exact .take (by simp [h]) (p.trans hc)
  case number =>
    intro r h
    rw [phrase_primary_of_not_open h]
    exact Repair.expect r (.inl rfl)
  case link =>
    intro level left r h p ⟨ts, hts, q⟩
    rw [chain_of_joins h]
    have hk : r.current.kind ≠ .endOfInput := fun he => by
      simp [he, Level.joins_endOfInput] at h
    refine ⟨r.current :: ((r.rest.phrase level).result.tokens ++ ts), ?_, .take hk (p.trans q)⟩
    rw [hts]
    simp [Expr.tokens]
  case stop =>
    intro level left r h
    rw [chain_of_not_joins h]
    exact ⟨[], by simp, .done r⟩

/-- The tokens of a phrase are a repair of the tokens that were taken for it. -/
theorem phrase_repair (level : Level) (r : Reader) : Repair r (r.phrase level).result.tokens
    (r.phrase level).diagnostics (r.phrase level).reader :=
  phrase_chain_repair.1 level r

theorem phrase_chain_stop :
    (∀ level (r : Reader), ∀ l : Level, l.rank < level.rank →
      l.joins (r.phrase level).reader.current.kind = false) ∧
      ∀ level left (r : Reader),
        (∀ l : Level, l.rank < level.rank → l.joins r.current.kind = false) →
        ∀ l : Level, l.rank ≤ level.rank →
          l.joins (r.chain level left).reader.current.kind = false := by
  apply phrase_chain_induction
  case joined =>
    intro level operand r h p q l hl
    rw [phrase_of_operand? h]
    rw [Level.rank_of_operand? h] at hl
    exact q p l (Nat.le_of_lt_succ hl)
  case group =>
    intro r _ _ l hl
    exact absurd hl (Nat.not_lt_zero _)
  case number =>
    intro r _ l hl
    exact absurd hl (Nat.not_lt_zero _)
  case link =>
    intro level left r h p q _
    rw [chain_of_joins h]
    exact q p
  case stop =>
    intro level left r h hbelow l hl
    rw [chain_of_not_joins h]
    rcases Nat.lt_or_eq_of_le hl with hlt | heq
    · exact hbelow l hlt
    · obtain rfl : l = level := by cases l <;> cases level <;> simp_all [Level.rank]
      exact h

/-- The token behind a term joins nothing. -/
theorem ofKind?_behind_term (r : Reader) :
    Operator.ofKind? (r.phrase .term).reader.current.kind = none := by
  have hp := phrase_chain_stop.1 .term r .primary (by decide)
  have hf := phrase_chain_stop.1 .term r .factor (by decide)
  revert hp hf
  cases (r.phrase .term).reader.current.kind <;> decide

/-- A missing operand is reported, and no group opens in its place. -/
def IsMissingOperand (d : Diagnostic) : Prop :=
  ∃ k, k ≠ .openParen ∧ d.cause = .unexpectedToken k .number

namespace Repair

variable {r behind : Reader} {ts us : List Token} {ds : List Diagnostic}

theorem exists_of_append (h : Repair r (ts ++ us) ds behind) : ∃ between ds₁ ds₂,
    ds = ds₁ ++ ds₂ ∧ Repair r ts ds₁ between ∧ Repair between us ds₂ behind := by
  induction ts generalizing r ds with
  | nil => exact ⟨r, [], ds, rfl, .done r, h⟩
  | cons t ts ih =>
    cases h with
    | take hk h =>
      obtain ⟨between, ds₁, ds₂, rfl, h₁, h₂⟩ := ih h
      exact ⟨between, ds₁, ds₂, rfl, .take hk h₁, h₂⟩
    | insert hk hne h =>
      obtain ⟨between, ds₁, ds₂, rfl, h₁, h₂⟩ := ih h
      exact ⟨between, _ :: ds₁, ds₂, rfl, .insert hk hne h₁, h₂⟩

/-- If only operands are missing, any other token has been taken. -/
theorem taken {t : Token} (h : Repair r (t :: ts) ds behind) (hd : ∀ d ∈ ds, IsMissingOperand d)
    (ht : t.kind ≠ .number) : t = r.current ∧ Repair r.rest ts ds behind := by
  cases h with
  | take _ h => exact ⟨rfl, h⟩
  | insert =>
    obtain ⟨_, -, hcause⟩ := hd _ List.mem_cons_self
    cases hcause
    exact absurd rfl ht

/-- Tokens that are ahead are taken as they are. -/
theorem ofAhead (h : ∀ t ∈ ts, t.kind ≠ .endOfInput) (us : List Token) (n : Nat) :
    Repair ⟨ts ++ us, n⟩ ts [] ⟨us, n⟩ := by
  induction ts with
  | nil => exact .done _
  | cons t ts ih =>
    rw [List.forall_mem_cons] at h
    exact .take (r := ⟨t :: (ts ++ us), n⟩) h.1 (ih h.2)

end Repair

/-- Reading a phrase of a level comes down to going on behind the tokens of a tree, with
diagnostics that arose on the way. -/
def Resumes (e : Expr) (ds : List Diagnostic) (r behind : Reader) : Level → Prop
  | .primary => r.phrase .primary = ⟨e, ds, behind⟩
  | .factor => r.phrase .factor = (behind.chain .primary e).after ds
  | .term => Level.primary.joins behind.current.kind = false →
      r.phrase .term = (behind.chain .factor e).after ds

/-- A chain goes on over an operator and a phrase. -/
theorem chain_of_phrase_eq {level : Level} {r behind : Reader} {left right : Expr}
    {ds : List Diagnostic} (hj : level.joins r.current.kind = true)
    (hr : r.rest.phrase level = ⟨right, ds, behind⟩) :
    r.chain level left = (behind.chain level (.binary left r.current right)).after ds := by
  rw [chain_of_joins hj, hr]
  rfl

theorem phrase_of_resumes_factor {e : Expr} {ds : List Diagnostic} {r behind : Reader}
    (h : Resumes e ds r behind .factor) (hs : Level.primary.joins behind.current.kind = false) :
    r.phrase .factor = ⟨e, ds, behind⟩ := by
  rw [Resumes, chain_of_not_joins hs] at h
  simpa [Reading.after] using h

theorem phrase_of_resumes_term {e : Expr} {ds : List Diagnostic} {r behind : Reader}
    (h : Resumes e ds r behind .term) (hs : Operator.ofKind? behind.current.kind = none) :
    r.phrase .term = ⟨e, ds, behind⟩ := by
  have hp : Level.primary.joins behind.current.kind = false := by simp [Level.joins, hs]
  have hf : Level.factor.joins behind.current.kind = false := by simp [Level.joins, hs]
  rw [h hp, chain_of_not_joins hf]
  simp [Reading.after]

theorem resumes_of_derivation {level : Level} {e : Expr} (h : Derivation level e)
    {r behind : Reader} {ds : List Diagnostic} (hr : Repair r e.tokens ds behind)
    (hd : ∀ d ∈ ds, IsMissingOperand d) : Resumes e ds r behind level := by
  induction h generalizing r behind ds with
  | @number token hk =>
    cases hr with
    | take _ hr =>
      cases hr
      rw [Resumes, phrase_primary_of_not_open (by simp [hk])]
      simp only [expect_of_eq hk]
    | insert _ hne hr =>
      cases hr
      obtain ⟨k, hopen, hcause⟩ := hd _ List.mem_cons_self
      cases hcause
      rw [Resumes, phrase_primary_of_not_open hopen]
      simp only [expect_of_ne hne]
  | @group opening closing inner ho _ hc ih =>
    obtain ⟨rfl, hinside⟩ := Repair.taken hr hd (by simp [ho])
    obtain ⟨between, ds₁, ds₂, rfl, hi, hclosing⟩ := hinside.exists_of_append
    rw [List.forall_mem_append] at hd
    obtain ⟨rfl, hrest⟩ := hclosing.taken hd.2 (by simp [hc])
    cases hrest
    have hinner := phrase_of_resumes_term (ih hi hd.1) (by rw [hc]; rfl)
    rw [Resumes, phrase_primary_of_open ho, hinner]
    simp only [expect_of_eq hc]
  | primary _ ih =>
    have hp := ih hr hd
    simp only [Resumes] at hp ⊢
    rw [phrase_of_operand? rfl, hp]
    rfl
  | @product left right operator _ hk _ ihl ihr =>
    obtain ⟨between, ds₁, ds₂, rfl, hl, hoperator⟩ := Repair.exists_of_append hr
    rw [List.forall_mem_append] at hd
    obtain ⟨rfl, hright⟩ := hoperator.taken hd.2 (by rcases hk with hk | hk <;> simp [hk])
    have hleft := ihl hl hd.1
    simp only [Resumes] at hleft ⊢
    rw [hleft, chain_of_phrase_eq (Level.joins_primary_iff.2 hk) (ihr hright hd.2)]
    simp [Reading.after]
  | factor _ ih =>
    intro hs
    rw [phrase_of_operand? rfl, phrase_of_resumes_factor (ih hr hd) hs]
    rfl
  | @sum left right operator _ hk _ ihl ihr =>
    intro hs
    obtain ⟨between, ds₁, ds₂, rfl, hl, hoperator⟩ := Repair.exists_of_append hr
    rw [List.forall_mem_append] at hd
    obtain ⟨rfl, hright⟩ := hoperator.taken hd.2 (by rcases hk with hk | hk <;> simp [hk])
    have hn : Level.primary.joins between.current.kind = false := by
      rcases hk with hk | hk <;> rw [hk] <;> rfl
    rw [ihl hl hd.1 hn, chain_of_phrase_eq (Level.joins_factor_iff.2 hk)
      (phrase_of_resumes_factor (ihr hright hd.2) hs)]
    simp [Reading.after]

end Reader

namespace Derivation

theorem kind_ne_endOfInput {level : Level} {e : Expr} (h : Derivation level e) :
    ∀ t ∈ e.tokens, t.kind ≠ .endOfInput := by
  induction h with
  | number hk => simp [Expr.tokens, hk]
  | group ho _ hc ih => simpa [Expr.tokens, ho, hc, or_imp, forall_and] using ih
  | primary _ ih => exact ih
  | product _ hk _ ihl ihr =>
    rcases hk with hk | hk <;> simpa [Expr.tokens, hk, or_imp, forall_and] using ⟨ihl, ihr⟩
  | factor _ ih => exact ih
  | sum _ hk _ ihl ihr =>
    rcases hk with hk | hk <;> simpa [Expr.tokens, hk, or_imp, forall_and] using ⟨ihl, ihr⟩

/-- A derived term whose tokens are a repair by operands is what the reader yields, and the
repair is what it reports. -/
theorem phrase_of_repair {e : Expr} (h : Derivation .term e) {r behind : Reader}
    {ds : List Diagnostic} (hr : Reader.Repair r e.tokens ds behind)
    (hd : ∀ d ∈ ds, Reader.IsMissingOperand d)
    (hs : Operator.ofKind? behind.current.kind = none) : r.phrase .term = ⟨e, ds, behind⟩ :=
  Reader.phrase_of_resumes_term (Reader.resumes_of_derivation h hr hd) hs

/-- In front of the tokens of a derived term the reader yields the term. -/
theorem phrase_eq {e : Expr} (h : Derivation .term e) (n : Nat) (ts : List Token)
    (hs : Operator.ofKind? (Reader.mk ts n).current.kind = none) :
    (Reader.mk (e.tokens ++ ts) n).phrase .term = ⟨e, [], ⟨ts, n⟩⟩ :=
  h.phrase_of_repair (.ofAhead h.kind_ne_endOfInput ts n) (by simp) hs

end Derivation

end Calculator
