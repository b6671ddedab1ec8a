import Mathlib.Data.List.Forall2
import Calculator.Outline
import Calculator.Proofs.Likeness
import Calculator.Proofs.Printing
import Calculator.Proofs.Standings

/-!
# Spelling out a tree

The tree of a line, however malformed the line is, can be written down: numbers as the
numerals of their values, a missing value as zero, and every other token as its sign. What is
written is a line without diagnostics, and reading it gives back the tree, except for where
the tokens stand. So what a line is evaluated to in spite of its diagnostics is the value of a
line that needs none.

That the written tokens are read one by one is an induction on the list of tokens. It is
carried by the standing behind each token, which tells that no two numbers are neighbours.
That the tree comes back is a matter of likeness.
-/
namespace Calculator

theorem toList_numeral {v : Int32} (h : 0 ≤ v.toInt) :
    (numeral v).toList = Nat.toDigits 10 v.toInt.toNat := by
  obtain ⟨n, hn⟩ := Int.eq_ofNat_of_zero_le h
  rw [numeral, hn, Int.toNat_natCast]
  exact Nat.toList_repr

theorem isDigits_numeral {v : Int32} (h : 0 ≤ v.toInt) : IsDigits (numeral v).toList := by
  have hlt := v.toInt_lt
  rw [toList_numeral h]
  refine ⟨Nat.toDigits_ne_nil, fun c hc => Nat.isDigit_of_mem_toDigits (by decide) (by decide) hc, ?_⟩
  rw [Nat.ofDigitChars_ten_toDigits]
  omega

theorem numberAt_numeral_value {v : Int32} (h : 0 ≤ v.toInt) (p : Nat) :
    (numberAt (numeral v).toList p).value = some v := by
  have hlt := v.toInt_lt
  rw [numberAt, toList_numeral h, Nat.ofDigitChars_ten_toDigits, Option.some.injEq,
    ← Int32.toInt_inj, Int32.toInt_ofNat_of_lt (by omega)]
  exact Int.toNat_of_nonneg h

/-- The character that a kind of tokens stands for, if there is only one. -/
def Token.Kind.sign : Token.Kind → String
  | .plus => "+"
  | .minus => "-"
  | .star => "*"
  | .slash => "/"
  | .openParen => "("
  | .closeParen => ")"
  | .number | .whitespace | .bad | .endOfInput => ""

/-- How a token is written: a number as the numeral of its value, which is zero if it has
none, and any other token as its sign. -/
def Token.spelling (t : Token) : String :=
  if t.kind = .number then numeral (t.value.getD 0) else t.kind.sign

def spelled (ts : List Token) : String := String.join (ts.map Token.spelling)

theorem toList_spelled_cons (t : Token) (ts : List Token) :
    (spelled (t :: ts)).toList = t.spelling.toList ++ (spelled ts).toList := by
  simp [spelled]

theorem byteLength_spelled_concat (ts : List Token) (t : Token) :
    byteLength (spelled (ts ++ [t])).toList =
      byteLength (spelled ts).toList + byteLength t.spelling.toList := by
  simp [spelled, byteLength_append]

def Token.respelled (t : Token) (position : Nat) : Token :=
  if t.kind = .number then numberAt (numeral (t.value.getD 0)).toList position
  else signAt t.kind t.kind.sign position

/-- The tokens that are read where tokens are written from an offset on. -/
def respelled (position : Nat) : List Token → List Token
  | [] => []
  | t :: ts =>
      t.respelled position :: respelled (position + byteLength t.spelling.toList) ts

theorem Token.respelled_kind (t : Token) (p : Nat) : (t.respelled p).kind = t.kind := by
  unfold respelled
  split
  · next h => exact h.symm
  · rfl

theorem Token.respelled_position (t : Token) (p : Nat) : (t.respelled p).position = p := by
  unfold respelled
  split <;> rfl

theorem map_kind_respelled (p : Nat) (ts : List Token) :
    (respelled p ts).map Token.kind = ts.map Token.kind := by
  induction ts generalizing p with
  | nil => rfl
  | cons t ts ih => rw [respelled, List.map_cons, List.map_cons, ih, t.respelled_kind]

/-- A token that can be written: a number is not negative, and only numbers have a value. -/
def Token.IsWritable (t : Token) : Prop :=
  if t.kind = .number then 0 ≤ (t.value.getD 0).toInt else t.value.getD 0 = 0

theorem Token.IsWritable.respelled_value {t : Token} (h : t.IsWritable) (p : Nat) :
    (t.respelled p).value.getD 0 = t.value.getD 0 := by
  unfold IsWritable at h
  unfold Token.respelled
  split at h
  · next hk => rw [if_pos hk, numberAt_numeral_value h, Option.getD_some]
  · next hk =>
    rw [if_neg hk, h]
    rfl

namespace Standing

/-- A token that fits is a number where an operand is due, or a sign. -/
theorem number_or_isSign_of_step? {s t : Standing} {k : Token.Kind} (h : s.step? k = some t) :
    (k = .number ∧ s.needsOperand = true ∧ t.needsOperand = false) ∨ IsSign k k.sign := by
  obtain ⟨needsOperand, depth⟩ := s
  cases k
  case number =>
    cases needsOperand with
    | false => cases h
    | true =>
      cases h
      exact .inl ⟨rfl, rfl, rfl⟩
  case plus => exact .inr (isSign_operator .plus)
  case minus => exact .inr (isSign_operator .minus)
  case star => exact .inr (isSign_operator .times)
  case slash => exact .inr (isSign_operator .over)
  case openParen => exact .inr isSign_open
  case closeParen => exact .inr isSign_close
  case whitespace => cases needsOperand <;> cases h
  case bad => cases needsOperand <;> cases h
  case endOfInput => cases needsOperand <;> cases h

theorem isDigit_head?_spelled {s s' : Standing} {ts : List Token} (hs : s.needsOperand = false)
    (h : s.run? (ts.map Token.kind) = some s') {rest : List Char}
    (hr : ∀ c ∈ rest.head?, c.isDigit = false) :
    ∀ c ∈ ((spelled ts).toList ++ rest).head?, c.isDigit = false := by
  cases ts with
  | nil => exact hr
  | cons t ts =>
    rw [List.map_cons, run?_cons, Option.bind_eq_some_iff] at h
    obtain ⟨u, hu, -⟩ := h
    rcases number_or_isSign_of_step? hu with ⟨-, hn, -⟩ | hsign
    · rw [hs] at hn
      cases hn
    · rw [toList_spelled_cons, Token.spelling, if_neg hsign.ne_number, List.append_assoc]
      exact hsign.isDigit_head?_eq_false (List.forall_mem_nil _) _

end Standing

/-- Written tokens that fit one after the other are read one by one. -/
theorem scans_spelled {s s' : Standing} {ts : List Token}
    (h : s.run? (ts.map Token.kind) = some s') (hw : ∀ t ∈ ts, t.IsWritable) (p : Nat)
    (rest : List Char) (hr : ∀ c ∈ rest.head?, c.isDigit = false) :
    Scans p ((spelled ts).toList ++ rest) (respelled p ts)
      (p + byteLength (spelled ts).toList) rest := by
  induction ts generalizing s p with
  | nil => exact ⟨rfl, Iff.rfl⟩
  | cons t ts ih =>
    rw [List.map_cons, Standing.run?_cons, Option.bind_eq_some_iff] at h
    obtain ⟨u, hu, hts⟩ := h
    have htail := ih hts (fun v hv => hw v (by simp [hv])) (p + byteLength t.spelling.toList)
    have hhead : Scans p (t.spelling.toList ++ ((spelled ts).toList ++ rest)) [t.respelled p]
        (p + byteLength t.spelling.toList) ((spelled ts).toList ++ rest) := by
      rcases Standing.number_or_isSign_of_step? hu with ⟨hk, -, hn⟩ | hsign
      · have hdigits := isDigits_numeral (v := t.value.getD 0)
          (by simpa [Token.IsWritable, hk] using hw t (by simp))
        have hscan := hdigits.scans (List.forall_mem_nil _) p
          (Standing.isDigit_head?_spelled hn hts hr)
        simpa [Token.spelling, Token.respelled, hk, byteLength_nil] using hscan
      · have hscan := hsign.scans (List.forall_mem_nil _) p ((spelled ts).toList ++ rest)
        simpa [Token.spelling, Token.respelled, hsign.ne_number, byteLength_nil] using hscan
    have hall := hhead.trans htail
    rw [toList_spelled_cons, List.append_assoc, byteLength_append, ← Nat.add_assoc]
    exact hall

/-- The first token stands among the given ones, and the second where it is written. -/
def WrittenIn (ts : List Token) (t u : Token) : Prop :=
  ∃ front back, ts = front ++ t :: back ∧ u.position = byteLength (spelled front).toList

theorem forall₂_respelled (front back : List Token) (hw : ∀ t ∈ back, t.IsWritable) :
    List.Forall₂ (Token.Agrees (WrittenIn (front ++ back))) back
      (respelled (byteLength (spelled front).toList) back) := by
  induction back generalizing front with
  | nil => exact .nil
  | cons t back ih =>
    have htail := ih (front ++ [t]) fun u hu => hw u (by simp [hu])
    rw [← List.append_cons, byteLength_spelled_concat] at htail
    refine .cons ⟨(t.respelled_kind _).symm, ?_, fun _ => ⟨front, back, rfl, ?_⟩⟩ htail
    · exact ((hw t (by simp)).respelled_value _).symm
    · exact t.respelled_position _

/-- A derived term of writable tokens is written as a line without diagnostics. The tree of
this line has the same form and means the same, token by token. -/
theorem Derivation.root_spelled {e : Expr} (h : Derivation .term e)
    (hw : ∀ t ∈ e.tokens, t.IsWritable) :
    (Line.ofText (spelled e.tokens)).diagnostics = [] ∧
      Expr.Alike (Token.Agrees (WrittenIn e.tokens)) e (Line.ofText (spelled e.tokens)).root := by
  obtain ⟨e', he', htokens⟩ := h.sentence.exists_derivation (map_kind_respelled 0 e.tokens)
  have hscan := scans_spelled (h.run?_eq 0) hw 0 [] (by simp)
  rw [List.append_nil] at hscan
  have hwords : e'.tokens = words 0 (spelled e.tokens).toList := by
    rw [htokens, hscan.words_eq, words_nil, List.append_nil]
  obtain ⟨hd, hroot, -⟩ :=
    Line.evaluate_of_derivation he' hwords (hscan.isClean_iff.2 isClean_nil)
  refine ⟨hd, ?_⟩
  rw [hroot]
  refine h.alike_of_agrees he' ?_
  rw [htokens]
  exact forall₂_respelled [] e.tokens hw

/-- What is no token of the text is a placeholder without a value. -/
theorem Mends.value_eq_none {buffer ts : List Token} {ds : List Diagnostic}
    (h : Mends buffer ts ds) : ∀ t ∈ ts, t.isScanned = false → t.value = none := by
  induction h with
  | nil buffer => simp
  | take ht _ ih => simpa [ht] using ih
  | insert hk _ ih => simpa [Token.placeholder] using ih

namespace Line

theorem isWritable_of_mem_root {text : String} {t : Token}
    (ht : t ∈ (ofText text).root.tokens) : t.IsWritable := by
  unfold Token.IsWritable
  cases hs : t.isScanned with
  | true =>
    have hb := mem_buffer_of_mem_root ht hs
    split
    · next hk =>
      obtain ⟨v, hv, hnonneg⟩ := exists_value_of_mem_buffer hb hk
      rwa [hv, Option.getD_some]
    · next hk => rw [value_eq_none_of_mem_buffer hb hk, Option.getD_none]
  | false =>
    have hv := (mends text).value_eq_none t (List.mem_append_left _ ht) hs
    rw [hv, Option.getD_none]
    split
    · decide
    · rfl

theorem root_pairwise_position (text : String) : (ofText text).root.tokens.Pairwise fun t u =>
    t.isScanned = true → u.isScanned = true → t.position < u.position := by
  rw [← List.pairwise_filter, filter_isScanned_root]
  exact ((tokens_pairwise_position text).filter _).sublist (List.take_sublist _ _)

/-- A scanned token is found in the tree by its offset. -/
theorem front_eq_of_position_eq {text : String} {front front' back back' : List Token}
    {t u : Token} (ht : (ofText text).root.tokens = front ++ t :: back)
    (hu : (ofText text).root.tokens = front' ++ u :: back') (hts : t.isScanned = true)
    (hus : u.isScanned = true) (hp : t.position = u.position) : front = front' := by
  have hpair := root_pairwise_position text
  rcases List.append_eq_append_iff.1 (ht.symm.trans hu) with ⟨between, rfl, hb⟩ | ⟨between, rfl, hb⟩
  · cases between with
    | nil => simp
    | cons v between =>
      rw [List.cons_append, List.cons.injEq] at hb
      obtain ⟨rfl, rfl⟩ := hb
      rw [ht, List.pairwise_append, List.pairwise_cons] at hpair
      have := hpair.2.1.1 u (by simp) hts hus
      omega
  · cases between with
    | nil => simp
    | cons v between =>
      rw [List.cons_append, List.cons.injEq] at hb
      obtain ⟨rfl, rfl⟩ := hb
      rw [hu, List.pairwise_append, List.pairwise_cons] at hpair
      have := hpair.2.1.1 t (by simp) hus hts
      omega

/-- The tree of a text, written down, is a text without diagnostics. Its tree has the same
form, with the same operators and the same values of numbers, and it is evaluated to what the
tree is evaluated to. A fault of the tree is that of the operator at its position, and the
fault of the written text is at the place where this operator is written. -/
theorem spelled_root (text : String) :
    (ofText (spelled (ofText text).root.tokens)).diagnostics = [] ∧
    Expr.Alike (fun t u => t.kind = u.kind ∧ t.value.getD 0 = u.value.getD 0)
      (ofText text).root (ofText (spelled (ofText text).root.tokens)).root ∧
    (∀ v, (ofText text).root.evaluate = .ok v →
      evaluate (spelled (ofText text).root.tokens) = .ok v) ∧
    ∀ f, (ofText text).root.evaluate = .error f →
      (∃ front operator back, (ofText text).root.tokens = front ++ operator :: back ∧
        Operator.ofKind? operator.kind ≠ none ∧ operator.position = f.position) ∧
      ∀ front operator back, (ofText text).root.tokens = front ++ operator :: back →
        Operator.ofKind? operator.kind ≠ none → operator.position = f.position →
        evaluate (spelled (ofText text).root.tokens) =
          .error (.fault ⟨f.cause, (spelled front).utf8ByteSize⟩) := by
  have hderived := derivation_root text
  obtain ⟨hd, halike⟩ := hderived.root_spelled fun t ht => isWritable_of_mem_root ht
  refine ⟨hd, halike.mono fun t u h => ⟨h.kind_eq, h.value_eq⟩, ?_⟩
  rw [evaluate_of_diagnostics_eq_nil hd]
  rcases hderived.evaluate_of_alike halike with
    ⟨v, hv, hv'⟩ | ⟨cause, operator, operator', hm, hop, hwritten, he, he'⟩
  · refine ⟨fun w hw => ?_, fun f hf => ?_⟩
    · obtain rfl : v = w := Except.ok.inj (hv.symm.trans hw)
      rw [hv']
      rfl
    · rw [hv] at hf
      cases hf
  · refine ⟨fun w hw => ?_, fun f hf => ?_⟩
    · rw [he] at hw
      cases hw
    · obtain rfl : ⟨cause, operator.position⟩ = f := Except.error.inj (he.symm.trans hf)
      obtain ⟨front, back, htokens, hposition⟩ := hwritten
      refine ⟨⟨front, operator, back, htokens, hop, rfl⟩, fun front' u back' hu hou hp => ?_⟩
      have hs := isScanned_of_operator hm hop
      have hus := isScanned_of_operator (t := u) (by rw [hu]; simp) hou
      rw [← front_eq_of_position_eq htokens hu hs hus hp.symm, he', hposition,
        byteLength_toList]
      rfl

end Line

end Calculator
