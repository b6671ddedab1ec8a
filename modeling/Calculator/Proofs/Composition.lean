import Calculator.Proofs.Likeness
import Calculator.Proofs.Printing

/-!
# Composition

What a line without diagnostics means inside of a longer one. A line may be cut wherever the
characters on both sides do not run together, and a parenthesis runs together with nothing.
Between parentheses such a line is therefore read as it is read alone, with all its tokens
moved by the bytes before it, and its faults are moved with its tokens.

Two such groups that an operator joins are the smallest case: the left one is evaluated
first, then the right one, and then the operator is applied to their values.
-/
namespace Calculator

def Token.moved (offset : Nat) (t : Token) : Token :=
  { t with position := t.position + offset }

def Fault.moved (offset : Nat) (f : Fault) : Fault :=
  { f with position := f.position + offset }

theorem placed_add (position offset : Nat) (ls : List Lexeme) :
    placed (position + offset) ls = (placed position ls).map fun x => (x.1 + offset, x.2) := by
  induction ls generalizing position with
  | nil => rfl
  | cons l ls ih => rw [placed, placed, List.map_cons, Nat.add_right_comm, ih]

theorem words_add (position offset : Nat) (cs : List Char) :
    words (position + offset) cs = (words position cs).map (Token.moved offset) := by
  rw [words, words, placed_add, List.map_map, List.filter_map, List.filter_map, List.map_map]
  rfl

/-- The characters on both sides of a cut do not run together. -/
def IsCut (cs ds : List Char) : Prop :=
  ∀ c ∈ cs.getLast?, ∀ d ∈ ds.head?,
    Token.Kind.ofChar d = Token.Kind.ofChar c → (Token.Kind.ofChar c).runs = false

namespace IsCut

variable {cs ds : List Char}

theorem words_append (h : IsCut cs ds) (p : Nat) :
    words p (cs ++ ds) = words p cs ++ words (p + byteLength cs) ds := by
  rw [words, lexemes_append h, placed_append, List.map_append, List.filter_append,
    flatMap_chars_lexemes]
  rfl

theorem isClean_append_iff (h : IsCut cs ds) : IsClean (cs ++ ds) ↔ IsClean cs ∧ IsClean ds := by
  rw [IsClean, lexemes_append h]
  exact List.forall_mem_append

theorem ofSign {kind : Token.Kind} {text : String} (h : IsSign kind text) (cs rest : List Char) :
    IsCut cs (text.toList ++ rest) := by
  intro c _ d hd hk
  obtain ⟨e, he, hek⟩ := h.exists_char
  obtain rfl : e = d := by simpa [he] using hd
  rw [← hk, hek]
  exact h.runs

end IsCut

theorem IsSign.scans_here {kind : Token.Kind} {text : String} (h : IsSign kind text) (p : Nat)
    (rest : List Char) : Scans p (text.toList ++ rest) [signAt kind text p]
      (p + byteLength text.toList) rest :=
  h.scans (List.forall_mem_nil _) p rest

/-- Characters in parentheses, with more of them behind. -/
def parenthesized (cs rest : List Char) : List Char :=
  "(".toList ++ (cs ++ (")".toList ++ rest))

theorem words_parenthesized (p : Nat) (cs rest : List Char) : words p (parenthesized cs rest) =
    signAt .openParen "(" p :: (words (p + 1) cs ++
      signAt .closeParen ")" (p + 1 + byteLength cs) :: words (p + (byteLength cs + 2)) rest) := by
  have hend : p + (byteLength cs + 2) = p + 1 + byteLength cs + 1 := by omega
  rw [parenthesized, (isSign_open.scans_here p _).words_eq,
    (IsCut.ofSign isSign_close cs rest).words_append, (isSign_close.scans_here _ rest).words_eq,
    hend]
  rfl

theorem isClean_parenthesized_iff (cs rest : List Char) :
    IsClean (parenthesized cs rest) ↔ IsClean cs ∧ IsClean rest := by
  rw [parenthesized, (isSign_open.scans_here 0 _).isClean_iff,
    (IsCut.ofSign isSign_close cs rest).isClean_append_iff,
    (isSign_close.scans_here 0 rest).isClean_iff]

theorem Derivation.evaluate_of_moved {e e' : Expr} {offset : Nat}
    (h : Derivation .term e) (h' : Derivation .term e')
    (ht : e'.tokens = e.tokens.map (Token.moved offset)) :
    e'.evaluate = e.evaluate.mapError (Fault.moved offset) := by
  have hagrees : List.Forall₂ (Token.Agrees fun t u => u = t.moved offset) e.tokens e'.tokens := by
    rw [ht, List.forall₂_map_right_iff, List.forall₂_same]
    exact fun t _ => ⟨rfl, rfl, fun _ => rfl⟩
  rcases h.evaluate_of_alike (h.alike_of_agrees h' hagrees) with
    ⟨v, hv, hv'⟩ | ⟨cause, operator, operator', -, -, rfl, he, he'⟩
  · rw [hv, hv']
    rfl
  · rw [he, he']
    rfl

namespace Line

/-- A line without diagnostics, put in parentheses, is a primary wherever it stands. -/
theorem exists_group {text : String} (h : (ofText text).diagnostics = []) (p : Nat) :
    ∃ g, Derivation .primary g ∧
      g.evaluate = (ofText text).root.evaluate.mapError (Fault.moved (p + 1)) ∧
      ∀ rest, words p (parenthesized text.toList rest) =
        g.tokens ++ words (p + (text.utf8ByteSize + 2)) rest := by
  rw [diagnostics, List.append_eq_nil_iff] at h
  obtain ⟨hroot, htokens, -⟩ := derivation_of_syntactic_eq_nil h.2
  have hwords : words (p + 1) text.toList =
      (ofText text).root.tokens.map (Token.moved (p + 1)) := by
    rw [htokens, ← words_add, Nat.zero_add]
  have hkinds : (words (p + 1) text.toList).map Token.kind =
      (ofText text).root.tokens.map Token.kind := by
    rw [hwords, List.map_map]
    rfl
  obtain ⟨inner, hinner, hinnerTokens⟩ := hroot.sentence.exists_derivation hkinds
  refine ⟨.group (signAt .openParen "(" p) inner
    (signAt .closeParen ")" (p + 1 + byteLength text.toList)), .group rfl hinner rfl, ?_, ?_⟩
  · have hmoved := hroot.evaluate_of_moved hinner (hinnerTokens.trans hwords)
    exact hmoved
  · intro rest
    rw [words_parenthesized, Expr.tokens, hinnerTokens, byteLength_toList]
    simp

theorem isClean_of_diagnostics_eq_nil {text : String} (h : (ofText text).diagnostics = []) :
    IsClean text.toList := by
  rw [diagnostics, List.append_eq_nil_iff] at h
  exact (lexicalDiagnostics_eq_nil_iff text).1 h.1

/-- Two lines without diagnostics, put in parentheses and joined by an operator, are
evaluated like an operator with the trees of both lines as its operands. -/
theorem evaluate_joined_eq (a b : String) (op : Operator) (ha : (ofText a).diagnostics = [])
    (hb : (ofText b).diagnostics = []) :
    Calculator.evaluate ("(" ++ a ++ ")" ++ op.symbol ++ "(" ++ b ++ ")") =
      (do
        let v ← (ofText a).root.evaluate.mapError (Fault.moved 1)
        let w ← (ofText b).root.evaluate.mapError (Fault.moved (a.utf8ByteSize + 4))
        (signAt op.kind op.symbol (a.utf8ByteSize + 2)).apply v w).mapError .fault := by
  obtain ⟨g, hg, hgv, hgw⟩ := exists_group ha 0
  obtain ⟨g', hg', hgv', hgw'⟩ := exists_group hb (a.utf8ByteSize + 3)
  have hop := isSign_operator op
  have hlength : byteLength op.symbol.toList = 1 := by cases op <;> rfl
  have hchars : ("(" ++ a ++ ")" ++ op.symbol ++ "(" ++ b ++ ")").toList =
      parenthesized a.toList (op.symbol.toList ++ parenthesized b.toList []) := by
    simp [parenthesized]
  have hclean : IsClean ("(" ++ a ++ ")" ++ op.symbol ++ "(" ++ b ++ ")").toList := by
    rw [hchars, isClean_parenthesized_iff, (hop.scans_here 0 _).isClean_iff,
      isClean_parenthesized_iff]
    exact ⟨isClean_of_diagnostics_eq_nil ha, isClean_of_diagnostics_eq_nil hb, isClean_nil⟩
  have hwords : (Expr.binary g (signAt op.kind op.symbol (a.utf8ByteSize + 2)) g').tokens =
      words 0 ("(" ++ a ++ ")" ++ op.symbol ++ "(" ++ b ++ ")").toList := by
    rw [hchars, hgw, (hop.scans_here _ _).words_eq, hlength, Nat.zero_add, hgw', words_nil,
      Expr.tokens, List.append_nil]
    rfl
  have hderived : Derivation .term
      (.binary g (signAt op.kind op.symbol (a.utf8ByteSize + 2)) g') := by
    cases op
    · exact .sum (.factor (.primary hg)) (.inl rfl) (.primary hg')
    · exact .sum (.factor (.primary hg)) (.inr rfl) (.primary hg')
    · exact .factor (.product (.primary hg) (.inl rfl) hg')
    · exact .factor (.product (.primary hg) (.inr rfl) hg')
  rw [(evaluate_of_derivation hderived hwords hclean).2.2, Expr.evaluate_binary, hgv, hgv']

/-- Two lines without diagnostics, put in parentheses and joined by an operator, are a line
that has the fault of the left one, or else the fault of the right one, or else what the
operator gives for their values. -/
theorem evaluate_joined (a b : String) (op : Operator) (ha : (ofText a).diagnostics = [])
    (hb : (ofText b).diagnostics = []) :
    (∀ f, evaluate a = .error (.fault f) →
      evaluate ("(" ++ a ++ ")" ++ op.symbol ++ "(" ++ b ++ ")") =
        .error (.fault ⟨f.cause, f.position + 1⟩)) ∧
    ∀ v, evaluate a = .ok v →
      (∀ f, evaluate b = .error (.fault f) →
        evaluate ("(" ++ a ++ ")" ++ op.symbol ++ "(" ++ b ++ ")") =
          .error (.fault ⟨f.cause, f.position + (a.utf8ByteSize + 4)⟩)) ∧
      ∀ w, evaluate b = .ok w →
        evaluate ("(" ++ a ++ ")" ++ op.symbol ++ "(" ++ b ++ ")") =
          ((signAt op.kind op.symbol (a.utf8ByteSize + 2)).apply v w).mapError .fault := by
  rw [evaluate_joined_eq a b op ha hb, evaluate_of_diagnostics_eq_nil ha,
    evaluate_of_diagnostics_eq_nil hb]
  cases (ofText a).root.evaluate with
  | error f =>
    refine ⟨fun g hg => ?_, fun v hv => ?_⟩
    · cases hg
      rfl
    · cases hv
  | ok v =>
    refine ⟨fun f hf => ?_, fun u hu => ?_⟩
    · cases hf
    · cases hu
      cases (ofText b).root.evaluate with
      | error f =>
        refine ⟨fun g hg => ?_, fun w hw => ?_⟩
        · cases hg
          rfl
        · cases hw
      | ok w =>
        refine ⟨fun f hf => ?_, fun u hu => ?_⟩
        · cases hf
        · cases hu
          rfl

/-- The blank behind the seven takes three bytes. -/
theorem evaluate_joined_right_fault :
    (ofText "7\u2003").diagnostics = [] ∧ (ofText "1/0").diagnostics = [] ∧
      evaluate "(7\u2003)*(1/0)" = .error (.fault ⟨.divisionByZero, 9⟩) := by
  have ha : (ofText "7\u2003").diagnostics = [] := by decide +kernel
  have hb : (ofText "1/0").diagnostics = [] := by decide +kernel
  have hv : evaluate "7\u2003" = .ok 7 := by decide +kernel
  have hf : evaluate "1/0" = .error (.fault ⟨.divisionByZero, 1⟩) := by decide +kernel
  have h := evaluate_joined "7\u2003" "1/0" .times ha hb
  exact ⟨ha, hb, (h.2 _ hv).1 _ hf⟩

end Line

end Calculator
