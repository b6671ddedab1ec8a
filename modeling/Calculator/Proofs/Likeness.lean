import Mathlib.Data.List.Forall2
import Calculator.Proofs.Nodes

/-!
# Likeness

Reading a line looks at the kinds of its tokens, and evaluating it at kinds and values.
Neither looks at the offsets or the texts of tokens, which only go into trees, placeholders,
diagnostics and faults. So if the tokens of two lines are related one by one, by any relation
that respects kinds and values and passes from tokens to the placeholders beside them, then
both lines are read into trees of the same form with related tokens, report alike, and have
the same value or alike faults.

One step lemma says this of a single expected token; one induction along the calls of the
reader says it of phrases. The lines may be malformed. For trees that are derived already,
`Derivation.alike` says it without a reader.
-/
namespace Calculator

/-- A relation between tokens that are read and evaluated in the same way. -/
structure Token.IsLikeness (T : Token → Token → Prop) : Prop where
  kind_eq : ∀ {t u}, T t u → t.kind = u.kind
  value_eq : ∀ {t u}, T t u → t.value.getD 0 = u.value.getD 0
  /-- A placeholder takes its position from the token at which it is put in. -/
  placeholder : ∀ {t u}, T t u → ∀ {k}, Operator.ofKind? k = none →
    T (Token.placeholder k t.position) (Token.placeholder k u.position)

theorem Token.IsLikeness.map_kind_eq {T : Token → Token → Prop} (hT : IsLikeness T)
    {ts us : List Token} (h : List.Forall₂ T ts us) :
    us.map Token.kind = ts.map Token.kind := by
  rw [← List.forall₂_eq_eq_eq, List.forall₂_map_left_iff, List.forall₂_map_right_iff]
  exact h.flip.imp fun t u htu => (hT.kind_eq htu).symm

inductive Expr.Alike (T : Token → Token → Prop) : Expr → Expr → Prop
  | number {t u : Token} : T t u → Alike T (.number t) (.number u)
  | binary {left right left' right' : Expr} {t u : Token} : Alike T left left' → T t u →
      Alike T right right' → Alike T (.binary left t right) (.binary left' u right')
  | group {inner inner' : Expr} {t u v w : Token} : T t u → Alike T inner inner' → T v w →
      Alike T (.group t inner v) (.group u inner' w)

theorem Expr.Alike.mono {S T : Token → Token → Prop} {e e' : Expr} (h : Alike S e e')
    (hST : ∀ t u, S t u → T t u) : Alike T e e' := by
  induction h with
  | number ht => exact .number (hST _ _ ht)
  | binary _ ht _ ihl ihr => exact .binary ihl (hST _ _ ht) ihr
  | group ht _ hv ih => exact .group (hST _ _ ht) ih (hST _ _ hv)

inductive Diagnostic.Alike (T : Token → Token → Prop) : Diagnostic → Diagnostic → Prop
  | unexpectedToken {t u : Token} (k : Token.Kind) : T t u →
      Alike T ⟨.unexpectedToken t.kind k, t.position⟩ ⟨.unexpectedToken u.kind k, u.position⟩

structure Reader.Alike (T : Token → Token → Prop) (r s : Reader) : Prop where
  ahead : List.Forall₂ T r.ahead s.ahead
  endOfInput : T (Token.endOfInput r.endPosition) (Token.endOfInput s.endPosition)

structure Reading.Alike {α : Type} (T : Token → Token → Prop) (S : α → α → Prop)
    (x y : Reading α) : Prop where
  result : S x.result y.result
  diagnostics : List.Forall₂ (Diagnostic.Alike T) x.diagnostics y.diagnostics
  reader : Reader.Alike T x.reader y.reader

variable {T : Token → Token → Prop}

namespace Reader

variable {r s : Reader}

theorem Alike.current (h : Alike T r s) : T r.current s.current := by
  obtain ⟨ahead, n⟩ := r
  obtain ⟨ahead', n'⟩ := s
  obtain ⟨ha, hend⟩ := h
  cases ha with
  | nil => exact hend
  | cons ht _ => exact ht

theorem Alike.rest (h : Alike T r s) : Alike T r.rest s.rest := by
  obtain ⟨ahead, n⟩ := r
  obtain ⟨ahead', n'⟩ := s
  obtain ⟨ha, hend⟩ := h
  cases ha with
  | nil => exact ⟨.nil, hend⟩
  | cons _ hts => exact ⟨hts, hend⟩

/-- What is expected of related tokens is there in both lines or missed in both. -/
theorem Alike.expect (hT : Token.IsLikeness T) (h : Alike T r s) {k : Token.Kind}
    (hk : Operator.ofKind? k = none) : Reading.Alike T T (r.expect k) (s.expect k) := by
  have hcurrent := h.current
  have hkind := hT.kind_eq hcurrent
  by_cases hr : r.current.kind = k
  · rw [expect_of_eq hr, expect_of_eq (hkind ▸ hr)]
    exact ⟨hcurrent, .nil, h.rest⟩
  · rw [expect_of_ne hr, expect_of_ne (hkind ▸ hr)]
    exact ⟨hT.placeholder hcurrent hk, .cons (.unexpectedToken k hcurrent) .nil, h⟩

theorem phrase_chain_alike (hT : Token.IsLikeness T) :
    (∀ level (r : Reader), ∀ s, Alike T r s →
      Reading.Alike T (Expr.Alike T) (r.phrase level) (s.phrase level)) ∧
      ∀ level left (r : Reader), ∀ left' s, Expr.Alike T left left' → Alike T r s →
        Reading.Alike T (Expr.Alike T) (r.chain level left) (s.chain level left') := by
  apply phrase_chain_induction
  case joined =>
    intro level operand r h p q s hrs
    have hfirst := p s hrs
    have hall := q _ _ hfirst.result hfirst.reader
    rw [phrase_of_operand? h, phrase_of_operand? h]
    exact ⟨hall.result, List.rel_append hfirst.diagnostics hall.diagnostics, hall.reader⟩
  case group =>
    intro r h p s hrs
    have hinner := p _ hrs.rest
    have hclosing := hinner.reader.expect hT (k := .closeParen) rfl
    rw [phrase_primary_of_open h, phrase_primary_of_open (hT.kind_eq hrs.current ▸ h)]
    exact ⟨.group hrs.current hinner.result hclosing.result,
      List.rel_append hinner.diagnostics hclosing.diagnostics, hclosing.reader⟩
  case number =>
    intro r h s hrs
    have hnumber := hrs.expect hT (k := .number) rfl
    rw [phrase_primary_of_not_open h, phrase_primary_of_not_open (hT.kind_eq hrs.current ▸ h)]
    exact ⟨.number hnumber.result, hnumber.diagnostics, hnumber.reader⟩
  case link =>
    intro level left r h p q left' s hleft hrs
    have hright := p _ hrs.rest
    have hall := q _ _ (.binary hleft hrs.current hright.result) hright.reader
    rw [chain_of_joins h, chain_of_joins (hT.kind_eq hrs.current ▸ h)]
    exact ⟨hall.result, List.rel_append hright.diagnostics hall.diagnostics, hall.reader⟩
  case stop =>
    intro level left r h left' s hleft hrs
    rw [chain_of_not_joins h, chain_of_not_joins (hT.kind_eq hrs.current ▸ h)]
    exact ⟨hleft, .nil, hrs⟩

theorem Alike.phrase (hT : Token.IsLikeness T) (h : Alike T r s) (level : Level) :
    Reading.Alike T (Expr.Alike T) (r.phrase level) (s.phrase level) :=
  (phrase_chain_alike hT).1 level r s h

end Reader

theorem Reader.alike_ofText {a b : String} (h : List.Forall₂ T (buffer a) (buffer b)) :
    Reader.Alike T (ofText a) (ofText b) := by
  refine ⟨h, ?_⟩
  rw [← List.forall₂_reverse_iff, buffer_eq_words, buffer_eq_words, List.reverse_concat,
    List.reverse_concat] at h
  cases h with
  | cons hend _ => exact hend

/-- Lines with trees of the same form that end alike, and of whose order of tokens alike things
are reported. -/
structure Line.Alike (T : Token → Token → Prop) (l m : Line) : Prop where
  root : Expr.Alike T l.root m.root
  endToken : T l.endToken m.endToken
  syntactic : List.Forall₂ (Diagnostic.Alike T) l.syntactic m.syntactic

/-- Texts whose buffers are related are read alike, whatever else there is in them. -/
theorem Line.alike_of_buffer (hT : Token.IsLikeness T) {a b : String}
    (h : List.Forall₂ T (buffer a) (buffer b)) : Line.Alike T (ofText a) (ofText b) := by
  have hterm := (Reader.alike_ofText h).phrase hT .term
  have hfinish := hterm.reader.expect hT (k := .endOfInput) rfl
  exact ⟨hterm.result, hfinish.result, List.rel_append hterm.diagnostics hfinish.diagnostics⟩

/-- Derived terms of related tokens have the same form. -/
theorem Derivation.alike (hT : Token.IsLikeness T) {e e' : Expr} (h : Derivation .term e)
    (h' : Derivation .term e') (ht : List.Forall₂ T e.tokens e'.tokens) {n n' : Nat}
    (hend : T (Token.endOfInput n) (Token.endOfInput n')) : Expr.Alike T e e' := by
  have hr : Reader.Alike T ⟨e.tokens ++ [], n⟩ ⟨e'.tokens ++ [], n'⟩ :=
    ⟨List.rel_append ht .nil, hend⟩
  have hp := (hr.phrase hT .term).result
  rwa [h.phrase_eq n [] rfl, h'.phrase_eq n' [] rfl] at hp

/-- Operators of the same kind give the same value, or faults of the same cause. -/
theorem Token.apply_of_kind_eq {t u : Token} (h : t.kind = u.kind) (a b : Int32) :
    (∃ v, t.apply a b = .ok v ∧ u.apply a b = .ok v) ∨
      ∃ cause, t.apply a b = .error ⟨cause, t.position⟩ ∧
        u.apply a b = .error ⟨cause, u.position⟩ := by
  rw [apply, apply, ← h]
  cases Operator.ofKind? t.kind with
  | none => exact .inr ⟨_, rfl, rfl⟩
  | some op =>
    simp only [Operator.apply]
    split
    · exact .inr ⟨_, rfl, rfl⟩
    · cases narrow? (op.exact a.toInt b.toInt) with
      | none => exact .inr ⟨_, rfl, rfl⟩
      | some v => exact .inl ⟨v, rfl, rfl⟩

/-- Trees of the same form have the same value, or faults of the same cause at operators that
correspond to each other. -/
theorem Expr.Alike.evaluate (hT : Token.IsLikeness T) {e e' : Expr} (h : Alike T e e') :
    (∃ v, e.evaluate = .ok v ∧ e'.evaluate = .ok v) ∨
      ∃ cause left operator right operator', .binary left operator right ∈ e.parts ∧
        T operator operator' ∧ e.evaluate = .error ⟨cause, operator.position⟩ ∧
        e'.evaluate = .error ⟨cause, operator'.position⟩ := by
  induction h with
  | number ht => exact .inl ⟨_, rfl, congrArg Except.ok (hT.value_eq ht).symm⟩
  | group _ _ _ ih =>
    rcases ih with hv | ⟨cause, left, operator, right, operator', hm, ho, he, he'⟩
    · exact .inl hv
    · exact .inr ⟨cause, left, operator, right, operator', by simp [parts, hm], ho, he, he'⟩
  | @binary left right left' right' t u _ ht _ ihl ihr =>
    rw [Expr.evaluate_binary, Expr.evaluate_binary]
    rcases ihl with ⟨v, hl, hl'⟩ | ⟨cause, l, o, r, o', hm, ho, hl, hl'⟩
    · rcases ihr with ⟨w, hr, hr'⟩ | ⟨cause, l, o, r, o', hm, ho, hr, hr'⟩
      · rw [hl, hl', hr, hr']
        rcases Token.apply_of_kind_eq (hT.kind_eq ht) v w with ha | ⟨cause, ha, ha'⟩
        · exact .inl ha
        · exact .inr ⟨cause, left, t, right, u, self_mem_parts _, ht, ha, ha'⟩
      · rw [hl, hl', hr, hr']
        exact .inr ⟨cause, l, o, r, o', by simp [parts, hm], ho, rfl, rfl⟩
    · rw [hl, hl']
      exact .inr ⟨cause, l, o, r, o', by simp [parts, hm], ho, rfl, rfl⟩

/-- Tokens that mean the same, with a condition on operators. Nothing more is asked of other
tokens, because placeholders at one offset cannot be told apart. -/
structure Token.Agrees (P : Token → Token → Prop) (t u : Token) : Prop where
  kind_eq : t.kind = u.kind
  value_eq : t.value.getD 0 = u.value.getD 0
  operator : Operator.ofKind? t.kind ≠ none → P t u

theorem Token.isLikeness_agrees (P : Token → Token → Prop) : IsLikeness (Agrees P) where
  kind_eq h := h.kind_eq
  value_eq h := h.value_eq
  placeholder _ _ hk := ⟨rfl, rfl, fun h => absurd hk h⟩

namespace Derivation

variable {P : Token → Token → Prop} {e e' : Expr}

theorem alike_of_agrees (h : Derivation .term e) (h' : Derivation .term e')
    (ht : List.Forall₂ (Token.Agrees P) e.tokens e'.tokens) : Expr.Alike (Token.Agrees P) e e' := by
  have hend : Token.Agrees P (Token.endOfInput 0) (Token.endOfInput 0) :=
    ⟨rfl, rfl, fun hk => absurd rfl hk⟩
  exact h.alike (Token.isLikeness_agrees P) h' ht hend

/-- If a derived tree has a fault, the condition holds of the operator at which it arises. -/
theorem evaluate_of_alike {level : Level} (h : Derivation level e)
    (ha : Expr.Alike (Token.Agrees P) e e') :
    (∃ v, e.evaluate = .ok v ∧ e'.evaluate = .ok v) ∨
      ∃ cause operator operator', operator ∈ e.tokens ∧ Operator.ofKind? operator.kind ≠ none ∧
        P operator operator' ∧ e.evaluate = .error ⟨cause, operator.position⟩ ∧
        e'.evaluate = .error ⟨cause, operator'.position⟩ := by
  rcases ha.evaluate (Token.isLikeness_agrees P) with
    hv | ⟨cause, left, operator, right, operator', hm, ho, he, he'⟩
  · exact .inl hv
  · have hop := h.ofKind?_ne_none hm
    have ht := Expr.mem_tokens_of_mem_parts hm (t := operator) (by simp [Expr.tokens])
    exact .inr ⟨cause, operator, operator', ht, hop, ho.operator hop, he, he'⟩

end Derivation

end Calculator
