import Calculator.Proofs.Composition
import Calculator.Proofs.Spelling

/-!
# Substitution

A group in a line may be replaced by the numeral of its value, if that is not negative. The
line keeps its value, or its fault, which only moves with the operators behind the group.

A group is a primary, and so is a number. Hence the tree of the line with the group is the
tree of the line with the number, into which the group has been grafted. Both lines have
trees because the standings before and behind the group are those before and behind a
number, so the replacement may be made at any depth. A graft that has the value of the number
leaves the value of the tree alone. What remains is that the digits of the numeral do not run
together with their neighbours: there is never a number right before an opening parenthesis,
or right behind a closing one.
-/
namespace Calculator

namespace Expr

/-- The tree with another tree in the place of every number that has a given token. -/
def graft : Expr → Token → Expr → Expr
  | .number token, n, g => if token = n then g else .number token
  | .binary left operator right, n, g => .binary (left.graft n g) operator (right.graft n g)
  | .group opening inner closing, n, g => .group opening (inner.graft n g) closing

variable {n : Token} {g : Expr}

theorem evaluate_graft (hg : g.evaluate = .ok (n.value.getD 0)) (e : Expr) :
    (e.graft n g).evaluate = e.evaluate := by
  induction e with
  | number token =>
    rw [graft]
    split
    · next h => rw [hg, h, evaluate_number]
    · rfl
  | binary left operator right ihl ihr => rw [graft, evaluate_binary, evaluate_binary, ihl, ihr]
  | group opening inner closing ih => exact ih

end Expr

namespace Derivation

variable {level : Level} {e e' g : Expr} {n : Token} {front back : List Token}

theorem graft (h : Derivation level e) (n : Token) (hg : Derivation .primary g) :
    Derivation level (e.graft n g) := by
  induction h with
  | number hk =>
    rw [Expr.graft]
    split
    · exact hg
    · exact .number hk
  | group ho _ hc ih => exact .group ho ih hc
  | primary _ ih => exact .primary ih
  | product _ hk _ ihl ihr => exact .product ihl hk ihr
  | factor _ ih => exact .factor ih
  | sum _ hk _ ihl ihr => exact .sum ihl hk ihr

theorem tokens_graft (h : Derivation level e) (hn : n.kind = .number) (g : Expr) :
    (e.graft n g).tokens = e.tokens.flatMap fun t => if t = n then g.tokens else [t] := by
  have hne : ∀ t : Token, t.kind ≠ .number → t ≠ n := by
    rintro t hk rfl
    exact hk hn
  induction h with
  | @number token _ =>
    rw [Expr.graft, Expr.tokens, List.flatMap_singleton]
    split <;> rfl
  | group ho _ hc ih =>
    have hopening := hne _ fun hk => by rw [ho] at hk; cases hk
    have hclosing := hne _ fun hk => by rw [hc] at hk; cases hk
    simp [Expr.graft, Expr.tokens, ih, hopening, hclosing]
  | primary _ ih => exact ih
  | product _ hk _ ihl ihr =>
    have hoperator := hne _ fun h => by rw [h] at hk; simp at hk
    simp [Expr.graft, Expr.tokens, ihl, ihr, hoperator]
  | factor _ ih => exact ih
  | sum _ hk _ ihl ihr =>
    have hoperator := hne _ fun h => by rw [h] at hk; simp at hk
    simp [Expr.graft, Expr.tokens, ihl, ihr, hoperator]

theorem eq_of_tokens_eq (h : Derivation .term e) (h' : Derivation .term e')
    (ht : e.tokens = e'.tokens) : e = e' := by
  have hp := h.phrase_eq 0 [] rfl
  rw [ht, h'.phrase_eq 0 [] rfl, Reading.mk.injEq] at hp
  exact hp.1.symm

/-- A term with a primary between its tokens is the term with a number in this place, into
which the primary has been grafted. -/
theorem eq_graft (h : Derivation .term e) (hg : Derivation .primary g)
    (ht : e.tokens = front ++ (g.tokens ++ back)) (h' : Derivation .term e')
    (ht' : e'.tokens = front ++ n :: back) (hn : n.kind = .number) (hf : n ∉ front)
    (hb : n ∉ back) : e = e'.graft n g := by
  have hkeep : ∀ ts : List Token, n ∉ ts →
      (ts.flatMap fun t => if t = n then g.tokens else [t]) = ts := by
    intro ts hts
    calc (ts.flatMap fun t => if t = n then g.tokens else [t])
        = ts.flatMap fun t => [t] :=
          List.flatMap_congr fun t ht => if_neg (ne_of_mem_of_not_mem ht hts)
      _ = ts := by simp
  refine h.eq_of_tokens_eq (h'.graft n hg) ?_
  rw [h'.tokens_graft hn, ht', ht, List.flatMap_append, List.flatMap_cons, hkeep front hf,
    hkeep back hb, if_pos rfl]

theorem needsOperand_of_run? (h : Derivation level g) {s t : Standing} {ks : List Token.Kind}
    (hs : s.run? (g.tokens.map Token.kind ++ ks) = some t) : s.needsOperand = true := by
  induction h generalizing ks with
  | number hk =>
    obtain ⟨needsOperand, depth⟩ := s
    cases needsOperand with
    | true => rfl
    | false =>
      rw [Expr.tokens, List.map_singleton, hk] at hs
      cases hs
  | group ho =>
    obtain ⟨needsOperand, depth⟩ := s
    cases needsOperand with
    | true => rfl
    | false =>
      rw [Expr.tokens, List.map_cons, ho] at hs
      cases hs
  | primary _ ih => exact ih hs
  | product _ _ _ ihl =>
    rw [Expr.tokens, List.map_append, List.append_assoc] at hs
    exact ihl hs
  | factor _ ih => exact ih hs
  | sum _ _ _ ihl =>
    rw [Expr.tokens, List.map_append, List.append_assoc] at hs
    exact ihl hs

/-- What stands before a part of a term leaves an operand due, and what stands behind it goes
on as behind an operand. -/
theorem exists_depth (h : Derivation .term e) (hg : Derivation level g)
    (ht : e.tokens = front ++ (g.tokens ++ back)) : ∃ d,
      Standing.run? {} (front.map Token.kind) = some ⟨true, d⟩ ∧
      Standing.run? ⟨false, d⟩ (back.map Token.kind) = some .closed := by
  have hrun := h.run?_eq 0
  rw [ht, List.map_append, Standing.run?_append, Option.bind_eq_some_iff] at hrun
  obtain ⟨⟨needsOperand, d⟩, hfront, hrest⟩ := hrun
  rw [List.map_append] at hrest
  obtain rfl : needsOperand = true := hg.needsOperand_of_run? hrest
  rw [Standing.run?_append_of_eq (hg.run?_eq d)] at hrest
  exact ⟨d, hfront, hrest⟩

theorem exists_of_depth {ks ls : List Token.Kind} {d : Nat}
    (hf : Standing.run? {} ks = some ⟨true, d⟩) (hb : Standing.run? ⟨false, d⟩ ls = some .closed)
    (ts : List Token) (ht : ts.map Token.kind = ks ++ .number :: ls) :
    ∃ e, Derivation .term e ∧ e.tokens = ts := by
  refine Sentence.exists_derivation (sentence_iff_run?.2 ?_) ht
  rw [Standing.run?_append_of_eq hf, Standing.run?_cons]
  exact hb

/-- If a primary between the tokens of a term is replaced by a number of the same value, and
the tokens around it by tokens that agree with them, the value is the same. -/
theorem exists_replaced {P : Token → Token → Prop} {front' back' : List Token}
    (h : Derivation .term e) (hg : Derivation .primary g)
    (ht : e.tokens = front ++ (g.tokens ++ back)) (hn : n.kind = .number)
    (hv : g.evaluate = .ok (n.value.getD 0)) (hnf : n ∉ front) (hnb : n ∉ back)
    (hf : List.Forall₂ (Token.Agrees P) front front')
    (hb : List.Forall₂ (Token.Agrees P) back back') :
    ∃ e', Derivation .term e' ∧ e'.tokens = front' ++ n :: back' ∧
      ((∃ v, e.evaluate = .ok v ∧ e'.evaluate = .ok v) ∨
        ∃ cause operator operator', P operator operator' ∧
          e.evaluate = .error ⟨cause, operator.position⟩ ∧
          e'.evaluate = .error ⟨cause, operator'.position⟩) := by
  have hkf := (Token.isLikeness_agrees P).map_kind_eq hf
  have hkb := (Token.isLikeness_agrees P).map_kind_eq hb
  obtain ⟨d, hfront, hback⟩ := h.exists_depth hg ht
  obtain ⟨i, hi, hit⟩ := exists_of_depth hfront hback (front ++ n :: back) (by simp [hn])
  obtain ⟨e', he', het⟩ := exists_of_depth hfront hback (front' ++ n :: back')
    (by simp [hn, hkf, hkb])
  refine ⟨e', he', het, ?_⟩
  have hagrees : List.Forall₂ (Token.Agrees P) i.tokens e'.tokens := by
    rw [hit, het]
    refine List.rel_append hf (.cons ⟨rfl, rfl, fun hop => ?_⟩ hb)
    rw [hn] at hop
    exact absurd rfl hop
  have heval : e.evaluate = i.evaluate := by
    rw [h.eq_graft hg ht hi hit hn hnf hnb, Expr.evaluate_graft hv]
  rw [heval]
  rcases hi.evaluate_of_alike (hi.alike_of_agrees he' hagrees) with
    hvalue | ⟨cause, operator, operator', -, -, hp, he, he'⟩
  · exact .inl hvalue
  · exact .inr ⟨cause, operator, operator', hp, he, he'⟩

end Derivation

theorem position_of_mem_words {p : Nat} {cs : List Char} {t : Token} (h : t ∈ words p cs) :
    p ≤ t.position ∧ t.position < p + byteLength cs := by
  obtain ⟨x, hx, rfl⟩ := List.mem_map.1 (List.mem_of_mem_filter h)
  exact (placed_lexemes_increases p cs).2 x hx

theorem numberAt_notMem_words {digits cs : List Char} {p q : Nat}
    (h : q < p ∨ p + byteLength cs ≤ q) : numberAt digits q ∉ words p cs := by
  intro hm
  have hq : p ≤ q ∧ q < p + byteLength cs := position_of_mem_words hm
  omega

theorem map_kind_words (p : Nat) (cs : List Char) : (words p cs).map Token.kind =
    ((lexemes cs).map Lexeme.kind).filter fun k => k ≠ .whitespace ∧ k ≠ .bad := by
  conv_rhs => rw [← map_snd_placed p (lexemes cs), List.map_map, List.filter_map]
  rw [words, List.filter_map, List.map_map]
  simp [Function.comp_def, Token.isMeaningful, Lexeme.token]

theorem isDigit_getLast?_eq_false {s t : Standing} {p : Nat} {cs : List Char}
    (h : s.run? ((words p cs).map Token.kind) = some t) (ht : t.needsOperand = true) :
    ∀ c ∈ cs.getLast?, c.isDigit = false := by
  intro c hc
  by_contra hd
  rw [Bool.not_eq_false, ← Token.Kind.ofChar_eq_number_iff] at hd
  have hlast := (tiles_lexemes cs).getLast?
  rw [Option.mem_def.1 hc, Option.map_some, hd, ← List.getLast?_map, eq_comm,
    List.getLast?_eq_some_iff] at hlast
  obtain ⟨ks, hks⟩ := hlast
  rw [map_kind_words, hks, List.filter_append, Standing.run?_append,
    Option.bind_eq_some_iff] at h
  obtain ⟨⟨needsOperand, d⟩, -, hu⟩ := h
  cases needsOperand with
  | true =>
    cases hu
    cases ht
  | false => cases hu

theorem isDigit_head?_eq_false {s t : Standing} {p : Nat} {cs : List Char}
    (h : s.run? ((words p cs).map Token.kind) = some t) (hs : s.needsOperand = false) :
    ∀ c ∈ cs.head?, c.isDigit = false := by
  intro c hc
  by_contra hd
  rw [Bool.not_eq_false, ← Token.Kind.ofChar_eq_number_iff] at hd
  have hhead := (tiles_lexemes cs).head?
  rw [Option.mem_def.1 hc, Option.map_some, hd, ← List.head?_map, eq_comm,
    List.head?_eq_some_iff] at hhead
  obtain ⟨ks, hks⟩ := hhead
  rw [map_kind_words, hks] at h
  obtain ⟨needsOperand, d⟩ := s
  cases hs
  cases h

theorem IsDigits.isCut {digits cs : List Char} (h : IsDigits digits)
    (hc : ∀ c ∈ cs.getLast?, c.isDigit = false) (rest : List Char) :
    IsCut cs (digits ++ rest) := by
  intro c hlast d hd hk
  obtain ⟨e, es, rfl⟩ := List.exists_cons_of_ne_nil h.ne_nil
  obtain rfl : e = d := by simpa using hd
  rw [Token.Kind.ofChar_eq_number_iff.2 (h.isDigit e (by simp)), eq_comm,
    Token.Kind.ofChar_eq_number_iff, hc c hlast] at hk
  cases hk

theorem IsDigits.words_between {digits cs ds : List Char} (h : IsDigits digits)
    (hc : ∀ c ∈ cs.getLast?, c.isDigit = false) (hd : ∀ c ∈ ds.head?, c.isDigit = false) :
    words 0 (cs ++ (digits ++ ds)) = words 0 cs ++ numberAt digits (byteLength cs) ::
        words (byteLength cs + byteLength digits) ds ∧
      (IsClean (cs ++ (digits ++ ds)) ↔ IsClean cs ∧ IsClean ds) := by
  have hcut := h.isCut hc ds
  have hscan := h.scans (List.forall_mem_nil _) (0 + byteLength cs) hd
  rw [List.nil_append] at hscan
  rw [hcut.words_append, hcut.isClean_append_iff, hscan.words_eq, hscan.isClean_iff,
    byteLength_nil, Nat.add_zero, Nat.zero_add]
  exact ⟨rfl, Iff.rfl⟩

/-- An offset before a place stays, and any other is moved by a number of bytes, which is
negative where the line gets shorter. -/
def IsShifted (place : Nat) (shift : Int) (p q : Nat) : Prop :=
  (q : Int) = if p < place then (p : Int) else p + shift

theorem forall₂_words_behind {place p q : Nat} {shift : Int} (hp : place ≤ p)
    (hq : (q : Int) = p + shift) (cs : List Char) :
    List.Forall₂ (Token.Agrees fun t u => IsShifted place shift t.position u.position)
      (words p cs) (words q cs) := by
  rw [← Nat.zero_add p, ← Nat.zero_add q, words_add, words_add, List.forall₂_map_left_iff,
    List.forall₂_map_right_iff, List.forall₂_same]
  refine fun t _ => ⟨rfl, rfl, fun _ => ?_⟩
  simp only [IsShifted, Token.moved]
  omega

theorem forall₂_words_before {place p : Nat} {cs : List Char} (h : p + byteLength cs = place)
    (shift : Int) :
    List.Forall₂ (Token.Agrees fun t u => IsShifted place shift t.position u.position)
      (words p cs) (words p cs) := by
  rw [List.forall₂_same]
  intro t ht
  have hlt := (position_of_mem_words ht).2
  rw [h] at hlt
  exact ⟨rfl, rfl, fun _ => (if_pos hlt).symm⟩

namespace Line

theorem evaluate_root_of_evaluate_eq_ok {text : String} (h : (ofText text).diagnostics = [])
    {v : Int32} (hv : evaluate text = .ok v) : (ofText text).root.evaluate = .ok v := by
  rw [evaluate_of_diagnostics_eq_nil h] at hv
  cases hr : (ofText text).root.evaluate with
  | ok w =>
    rw [hr] at hv
    cases hv
    rfl
  | error f =>
    rw [hr] at hv
    cases hv

/-- A line without diagnostics that contains another one in parentheses. -/
theorem exists_group_between {x s y : String} (hs : (ofText s).diagnostics = [])
    (hline : (ofText (x ++ "(" ++ s ++ ")" ++ y)).diagnostics = []) :
    ∃ g, Derivation .primary g ∧
      g.evaluate = (ofText s).root.evaluate.mapError (Fault.moved (x.utf8ByteSize + 1)) ∧
      (ofText (x ++ "(" ++ s ++ ")" ++ y)).root.tokens = words 0 x.toList ++
        (g.tokens ++ words (x.utf8ByteSize + (s.utf8ByteSize + 2)) y.toList) ∧
      IsClean x.toList ∧ IsClean y.toList := by
  have hchars : (x ++ "(" ++ s ++ ")" ++ y).toList =
      x.toList ++ parenthesized s.toList y.toList := by
    simp [parenthesized]
  have hcut : IsCut x.toList (parenthesized s.toList y.toList) := .ofSign isSign_open _ _
  have hclean := isClean_of_diagnostics_eq_nil hline
  rw [hchars, hcut.isClean_append_iff, isClean_parenthesized_iff] at hclean
  rw [diagnostics, List.append_eq_nil_iff] at hline
  obtain ⟨g, hg, hgv, hgw⟩ := exists_group hs x.utf8ByteSize
  refine ⟨g, hg, hgv, ?_, hclean.1, hclean.2.2⟩
  rw [(derivation_of_syntactic_eq_nil hline.2).2.1, hchars, hcut.words_append, Nat.zero_add,
    byteLength_toList, hgw]

/-- A group in a line without diagnostics may be replaced by the numeral of its value, if
this is not negative. The value of the line stays the same, or its fault, which moves with
the operators behind the group. -/
theorem evaluate_replace_group (x s y : String) (v : Int32) (hs : (ofText s).diagnostics = [])
    (hline : (ofText (x ++ "(" ++ s ++ ")" ++ y)).diagnostics = [])
    (hv : evaluate s = .ok v) (hnonneg : 0 ≤ v.toInt) :
    (ofText (x ++ numeral v ++ y)).diagnostics = [] ∧
      ((∃ w, evaluate (x ++ "(" ++ s ++ ")" ++ y) = .ok w ∧
          evaluate (x ++ numeral v ++ y) = .ok w) ∨
        ∃ cause p q, evaluate (x ++ "(" ++ s ++ ")" ++ y) = .error (.fault ⟨cause, p⟩) ∧
          evaluate (x ++ numeral v ++ y) = .error (.fault ⟨cause, q⟩) ∧
          IsShifted x.utf8ByteSize ((numeral v).utf8ByteSize - s.utf8ByteSize - 2) p q) := by
  obtain ⟨g, hg, hgv, hroot, hx, hy⟩ := exists_group_between hs hline
  have hderived := derivation_root (x ++ "(" ++ s ++ ")" ++ y)
  -- The digits stand between the same characters as the group.
  obtain ⟨d, hfront, hback⟩ := hderived.exists_depth hg hroot
  obtain ⟨hwords, hclean⟩ := (isDigits_numeral hnonneg).words_between
    (isDigit_getLast?_eq_false hfront rfl) (isDigit_head?_eq_false hback rfl)
  have hchars : (x ++ numeral v ++ y).toList = x.toList ++ ((numeral v).toList ++ y.toList) := by
    simp
  rw [← hchars, byteLength_toList, byteLength_toList] at hwords
  have hbefore : 0 + byteLength x.toList = x.utf8ByteSize := by rw [byteLength_toList, Nat.zero_add]
  have hnumber : g.evaluate = .ok ((numberAt (numeral v).toList x.utf8ByteSize).value.getD 0) := by
    rw [numberAt_numeral_value hnonneg, hgv, evaluate_root_of_evaluate_eq_ok hs hv]
    rfl
  -- Only the tokens behind the group stand at other offsets than in the line with the number.
  have hbehind : ((x.utf8ByteSize + (numeral v).utf8ByteSize : Nat) : Int) =
      (x.utf8ByteSize + (s.utf8ByteSize + 2) : Nat) +
        ((numeral v).utf8ByteSize - s.utf8ByteSize - 2) := by
    omega
  obtain ⟨e, he, htokens, hresult⟩ := hderived.exists_replaced hg hroot rfl hnumber
    (numberAt_notMem_words (.inr hbefore.le)) (numberAt_notMem_words (.inl (by omega)))
    (forall₂_words_before hbefore _) (forall₂_words_behind (Nat.le_add_right _ _) hbehind _)
  obtain ⟨hd, -, heval⟩ := evaluate_of_derivation he (htokens.trans hwords.symm)
    (by rw [hchars, hclean]; exact ⟨hx, hy⟩)
  refine ⟨hd, ?_⟩
  rw [heval, evaluate_of_diagnostics_eq_nil hline]
  rcases hresult with ⟨w, h, h'⟩ | ⟨cause, operator, operator', hp, h, h'⟩
  · exact .inl ⟨w, by rw [h]; rfl, by rw [h']; rfl⟩
  · exact .inr ⟨cause, operator.position, operator'.position, by rw [h]; rfl, by rw [h']; rfl, hp⟩

/-- The division stands behind the group, in which a blank takes three bytes. -/
theorem evaluate_replace_group_fault_behind :
    (ofText "1\u2003+1").diagnostics = [] ∧ (ofText "2+(1\u2003+1)/0").diagnostics = [] ∧
      evaluate "1\u2003+1" = .ok 2 ∧
      evaluate "2+(1\u2003+1)/0" = .error (.fault ⟨.divisionByZero, 10⟩) ∧
      evaluate "2+2/0" = .error (.fault ⟨.divisionByZero, 3⟩) := by
  have hs : (ofText "1\u2003+1").diagnostics = [] := by decide +kernel
  have hline : (ofText "2+(1\u2003+1)/0").diagnostics = [] := by decide +kernel
  have hv : evaluate "1\u2003+1" = .ok 2 := by decide +kernel
  have hf : evaluate "2+(1\u2003+1)/0" = .error (.fault ⟨.divisionByZero, 10⟩) := by
    decide +kernel
  refine ⟨hs, hline, hv, hf, ?_⟩
  rcases (evaluate_replace_group "2+" "1\u2003+1" "/0" 2 hs hline hv (by decide)).2 with
    ⟨w, hw, -⟩ | ⟨cause, p, q, hp, hq, hshift⟩
  · cases hf.symm.trans hw
  · cases hf.symm.trans hp
    have hlength : (6 : Int) = "1\u2003+1".utf8ByteSize ∧
        (1 : Int) = (numeral 2).utf8ByteSize := by decide +kernel
    rw [IsShifted, ← hlength.1, ← hlength.2, if_neg (by decide)] at hshift
    obtain rfl : q = 3 := by omega
    exact hq

end Line

end Calculator
