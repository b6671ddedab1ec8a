import Calculator.Proofs.Drafts
import Calculator.Proofs.LongestMatch
import Calculator.Proofs.Placeholders

/-!
# The nodes of a tree

What the expressions in the tree of a line look like, one by one. Every operator is one of
the four and comes from the text itself, and so does every opening parenthesis; no operand
is one that would have to stand in parentheses; a placeholder is a number or a closing
parenthesis. That holds of every line, however much of it is missing.

It comes from two sides. Parts of derived trees are derived, which settles the kinds of
tokens and how operators nest. Which tokens are scanned, and what the value of a number is,
follows from the buffer that the tree mends. Since a fault is always the fault of one
operator in the tree, evaluation then never meets an operator without a meaning.
-/
namespace Calculator

namespace Expr

/-- The tree itself and all expressions in it. -/
def parts : Expr → List Expr
  | .number token => [.number token]
  | .binary left operator right =>
      .binary left operator right :: (left.parts ++ right.parts)
  | .group opening inner closing => .group opening inner closing :: inner.parts

theorem self_mem_parts (e : Expr) : e ∈ e.parts := by
  cases e <;> simp [parts]

/-- The tokens at the top of the tree have the kinds that the grammar asks for, and no
operand there would have to stand in parentheses. -/
def IsGrammatical : Expr → Prop
  | .number token => token.kind = .number
  | .binary left operator right =>
      (operator.kind = .plus ∨ operator.kind = .minus) ∧ right.Fits .factor ∨
        (operator.kind = .star ∨ operator.kind = .slash) ∧
          left.Fits .factor ∧ right.Fits .primary
  | .group opening _ closing => opening.kind = .openParen ∧ closing.kind = .closeParen

/-- The tokens of a part are tokens of the tree, in the same order. -/
theorem tokens_sublist_of_mem_parts {e p : Expr} (hp : p ∈ e.parts) :
    p.tokens.Sublist e.tokens := by
  induction e with
  | number token =>
    obtain rfl := List.mem_singleton.1 hp
    exact .refl _
  | binary left operator right ihl ihr =>
    rw [parts, List.mem_cons, List.mem_append] at hp
    rcases hp with rfl | hp | hp
    · exact .refl _
    · exact (ihl hp).trans (List.sublist_append_left _ _)
    · exact ((ihr hp).cons operator).trans (List.sublist_append_right _ _)
  | group opening inner closing ih =>
    rw [parts, List.mem_cons] at hp
    rcases hp with rfl | hp
    · exact .refl _
    · exact ((ih hp).trans (List.sublist_append_left _ _)).cons opening

theorem mem_tokens_of_mem_parts {e p : Expr} (hp : p ∈ e.parts) {t : Token}
    (ht : t ∈ p.tokens) : t ∈ e.tokens :=
  (tokens_sublist_of_mem_parts hp).subset ht

/-- A fault is the fault of one operator in the tree, applied to two values. -/
theorem exists_apply_of_evaluate_eq_error {e : Expr} {f : Fault} (h : e.evaluate = .error f) :
    ∃ left operator right a b,
      binary left operator right ∈ e.parts ∧ operator.apply a b = .error f := by
  induction e with
  | number token => cases h
  | group opening inner closing ih =>
    obtain ⟨left, operator, right, a, b, hm, ha⟩ := ih h
    exact ⟨left, operator, right, a, b, by simp [parts, hm], ha⟩
  | binary left operator right ihl ihr =>
    rw [evaluate_binary] at h
    cases hl : left.evaluate with
    | error g =>
      obtain rfl : g = f := by simpa [hl, bind, Except.bind] using h
      obtain ⟨l, o, r, a, b, hm, ha⟩ := ihl hl
      exact ⟨l, o, r, a, b, by simp [parts, hm], ha⟩
    | ok v =>
      cases hr : right.evaluate with
      | error g =>
        obtain rfl : g = f := by simpa [hl, hr, bind, Except.bind] using h
        obtain ⟨l, o, r, a, b, hm, ha⟩ := ihr hr
        exact ⟨l, o, r, a, b, by simp [parts, hm], ha⟩
      | ok w =>
        refine ⟨left, operator, right, v, w, self_mem_parts _, ?_⟩
        simpa [hl, hr, bind, Except.bind] using h

end Expr

/-- What faults a token with a meaning as an operator can have. -/
theorem Token.apply_eq_error {t : Token} {op : Operator} {a b : Int32} {f : Fault}
    (ht : Operator.ofKind? t.kind = some op) (h : t.apply a b = .error f) :
    (f.cause = .divisionByZero ∧ op = .over ∨ f.cause = .overflow) ∧
      f.position = t.position := by
  rw [apply, ht] at h
  simp only [Operator.apply] at h
  split at h
  · next hz =>
    cases h
    exact ⟨.inl ⟨rfl, hz.1⟩, rfl⟩
  · split at h
    · cases h
    · cases h
      exact ⟨.inr rfl, rfl⟩

namespace Derivation

variable {level : Level} {e : Expr}

theorem of_mem_parts (h : Derivation level e) {p : Expr} (hp : p ∈ e.parts) :
    ∃ l, Derivation l p := by
  induction h with
  | number hk =>
    obtain rfl := List.mem_singleton.1 hp
    exact ⟨_, .number hk⟩
  | group ho hi hc ih =>
    rcases List.mem_cons.1 hp with rfl | hp
    · exact ⟨_, .group ho hi hc⟩
    · exact ih hp
  | primary _ ih => exact ih hp
  | product hl hk hr ihl ihr =>
    rw [Expr.parts, List.mem_cons, List.mem_append] at hp
    rcases hp with rfl | hp | hp
    · exact ⟨_, .product hl hk hr⟩
    · exact ihl hp
    · exact ihr hp
  | factor _ ih => exact ih hp
  | sum hl hk hr ihl ihr =>
    rw [Expr.parts, List.mem_cons, List.mem_append] at hp
    rcases hp with rfl | hp | hp
    · exact ⟨_, .sum hl hk hr⟩
    · exact ihl hp
    · exact ihr hp

theorem fits (h : Derivation level e) : e.Fits level := by
  induction h with
  | number => trivial
  | group => trivial
  | primary _ ih => exact Expr.fits_factor_of_primary ih
  | product _ hk => rcases hk with hk | hk <;> simp [Expr.Fits, hk]
  | factor => trivial
  | sum => trivial

/-- The top of a derived tree is as the grammar has it. -/
theorem isGrammatical (h : Derivation level e) : e.IsGrammatical := by
  induction h with
  | number hk => exact hk
  | group ho _ hc => exact ⟨ho, hc⟩
  | primary _ ih => exact ih
  | product hl hk hr => exact .inr ⟨hk, hl.fits, hr.fits⟩
  | factor _ ih => exact ih
  | sum _ hk hr => exact .inl ⟨hk, hr.fits⟩

/-- The operators in a derived tree have a meaning. -/
theorem ofKind?_ne_none (h : Derivation level e) {left right : Expr} {operator : Token}
    (hm : .binary left operator right ∈ e.parts) : Operator.ofKind? operator.kind ≠ none := by
  obtain ⟨_, hp⟩ := h.of_mem_parts hm
  rcases hp.isGrammatical with ⟨hk | hk, -⟩ | ⟨hk | hk, -⟩ <;> rw [hk] <;> decide

end Derivation

theorem Lexeme.value_nonneg (l : Lexeme) : 0 ≤ l.value.toInt := by
  cases h : l.isTooLarge with
  | false =>
    rw [toInt_value h]
    exact Int.natCast_nonneg _
  | true =>
    rw [value, h, if_pos rfl]
    decide

theorem exists_lexeme_of_mem_buffer {text : String} {t : Token} (ht : t ∈ buffer text) :
    (∃ x ∈ placed 0 (lexemes text.toList), x.2.token x.1 = t) ∨
      t = Token.endOfInput text.utf8ByteSize := by
  have hm := List.mem_of_mem_filter ht
  rwa [tokens_eq, List.mem_append, List.mem_singleton, List.mem_map] at hm

/-- A scanned number has a value, and the value is not negative. -/
theorem exists_value_of_mem_buffer {text : String} {t : Token} (ht : t ∈ buffer text)
    (hk : t.kind = .number) : ∃ v, t.value = some v ∧ 0 ≤ v.toInt := by
  rcases exists_lexeme_of_mem_buffer ht with ⟨⟨q, l⟩, -, rfl⟩ | rfl
  · have hl : l.kind = .number := hk
    exact ⟨l.value, by simp [Lexeme.token, hl], l.value_nonneg⟩
  · cases hk

theorem value_eq_none_of_mem_buffer {text : String} {t : Token} (ht : t ∈ buffer text)
    (hk : t.kind ≠ .number) : t.value = none := by
  rcases exists_lexeme_of_mem_buffer ht with ⟨x, -, rfl⟩ | rfl
  · exact if_neg hk
  · rfl

namespace Line

theorem derivation_root (text : String) : Derivation .term (ofText text).root :=
  Reader.phrase_derivation .term _

/-- A scanned token of the tree is a token of the text. -/
theorem mem_buffer_of_mem_root {text : String} {t : Token} (ht : t ∈ (ofText text).root.tokens)
    (hs : t.isScanned = true) : t ∈ buffer text := by
  have hm := List.mem_filter.2 ⟨ht, hs⟩
  rw [filter_isScanned_root] at hm
  exact List.mem_of_mem_take hm

/-- Only numbers and closing parentheses are missed. -/
theorem isScanned_of_mem_root {text : String} {t : Token} (ht : t ∈ (ofText text).root.tokens)
    (hn : t.kind ≠ .number) (hc : t.kind ≠ .closeParen) : t.isScanned = true := by
  by_contra hs
  rw [Bool.not_eq_true] at hs
  rcases canBeMissing_root text t ht hs with hk | hk
  · exact hn hk
  · exact hc hk

/-- An operator is never missed. -/
theorem isScanned_of_operator {text : String} {t : Token}
    (ht : t ∈ (ofText text).root.tokens) (hop : Operator.ofKind? t.kind ≠ none) :
    t.isScanned = true := by
  refine isScanned_of_mem_root ht ?_ ?_
  · intro hk
    exact hop (by rw [hk]; rfl)
  · intro hk
    exact hop (by rw [hk]; rfl)

theorem isScanned_of_binary {text : String} {left right : Expr} {operator : Token}
    (h : .binary left operator right ∈ (ofText text).root.parts) : operator.isScanned = true :=
  isScanned_of_operator (Expr.mem_tokens_of_mem_parts h (by simp [Expr.tokens]))
    ((derivation_root text).ofKind?_ne_none h)

/-- The fault of a tree that was read is the fault of an operator of its text. -/
theorem exists_operator_of_evaluate_eq_error {text : String} {f : Fault}
    (h : (ofText text).root.evaluate = .error f) :
    ∃ op t, (f.cause = .divisionByZero ∧ op = .over ∨ f.cause = .overflow) ∧
      t ∈ (ofText text).root.tokens ∧ Operator.ofKind? t.kind = some op ∧
      f.position = t.position := by
  obtain ⟨left, operator, right, a, b, hm, ha⟩ := Expr.exists_apply_of_evaluate_eq_error h
  obtain ⟨op, hop⟩ :=
    Option.ne_none_iff_exists'.1 ((derivation_root text).ofKind?_ne_none hm)
  obtain ⟨hc, hp⟩ := Token.apply_eq_error hop ha
  have ht := Expr.mem_tokens_of_mem_parts hm (t := operator) (by simp [Expr.tokens])
  exact ⟨op, operator, hc, ht, hop, hp⟩

theorem evaluate_root_ne_unexpectedOperator (text : String) (k : Token.Kind) (p : Nat) :
    (ofText text).root.evaluate ≠ .error ⟨.unexpectedOperator k, p⟩ := by
  intro h
  obtain ⟨op, t, hc, -⟩ := exists_operator_of_evaluate_eq_error h
  rcases hc with ⟨hc, -⟩ | hc <;> cases hc

/-- The tree of a text, malformed or not: operators and opening parentheses are scanned, an
operator has operands that need no parentheses beside it, numbers have a value in range or
are placeholders, and placeholders are numbers and closing parentheses. So neither the tree
nor the text is ever evaluated to an operator without a meaning. -/
theorem nodes_of_root (text : String) :
    (∀ left operator right, .binary left operator right ∈ (ofText text).root.parts →
      operator.isPlaceholder = false ∧
      ((operator.kind = .plus ∨ operator.kind = .minus) ∧ right.Fits .factor ∨
        (operator.kind = .star ∨ operator.kind = .slash) ∧
          left.Fits .factor ∧ right.Fits .primary)) ∧
    (∀ opening inner closing, .group opening inner closing ∈ (ofText text).root.parts →
      opening.isPlaceholder = false ∧ opening.kind = .openParen ∧
      closing.kind = .closeParen) ∧
    (∀ token, .number token ∈ (ofText text).root.parts → token.kind = .number ∧
      (token.isPlaceholder = true ∨
        ∃ v, token.value = some v ∧ 0 ≤ v.toInt ∧ v.toInt ≤ 2147483647)) ∧
    (∀ t ∈ (ofText text).root.tokens, t.isPlaceholder = true →
      t.kind = .number ∨ t.kind = .closeParen) ∧
    (∀ k p, (ofText text).root.evaluate ≠ .error ⟨.unexpectedOperator k, p⟩) ∧
    ∀ k p, evaluate text ≠ .error (.fault ⟨.unexpectedOperator k, p⟩) := by
  have hnode : ∀ p ∈ (ofText text).root.parts, p.IsGrammatical := fun p hp =>
    ((derivation_root text).of_mem_parts hp).choose_spec.isGrammatical
  refine ⟨fun left operator right h => ?_, fun opening inner closing h => ?_,
    fun token h => ?_, fun t ht hp => ?_, evaluate_root_ne_unexpectedOperator text,
    fun k p h => ?_⟩
  · have hs := isScanned_of_binary h
    rw [Token.isScanned, Bool.not_eq_true'] at hs
    exact ⟨hs, hnode _ h⟩
  · obtain ⟨ho, hc⟩ := hnode _ h
    have ht := Expr.mem_tokens_of_mem_parts h (t := opening) (by simp [Expr.tokens])
    have hs := isScanned_of_mem_root ht (by simp [ho]) (by simp [ho])
    rw [Token.isScanned, Bool.not_eq_true'] at hs
    exact ⟨hs, ho, hc⟩
  · have hk : token.kind = .number := hnode _ h
    have ht := Expr.mem_tokens_of_mem_parts h (t := token) (by simp [Expr.tokens])
    refine ⟨hk, ?_⟩
    cases hp : token.isPlaceholder with
    | true => exact .inl rfl
    | false =>
      have hs : token.isScanned = true := by rw [Token.isScanned, hp, Bool.not_false]
      obtain ⟨v, hv, hnonneg⟩ := exists_value_of_mem_buffer (mem_buffer_of_mem_root ht hs) hk
      have hlt := v.toInt_lt
      exact .inr ⟨v, hv, hnonneg, by omega⟩
  · exact canBeMissing_root text t ht (by rw [Token.isScanned, hp, Bool.not_true])
  · rw [Calculator.evaluate, outcome_eq] at h
    split at h
    · cases he : (ofText text).root.evaluate with
      | ok v => simp [he, Except.mapError] at h
      | error f =>
        obtain rfl : f = ⟨.unexpectedOperator k, p⟩ := by simpa [he, Except.mapError] using h
        exact evaluate_root_ne_unexpectedOperator text k p he
    · cases h

end Line

end Calculator
