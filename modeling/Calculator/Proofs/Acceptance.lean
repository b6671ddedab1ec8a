import Calculator.Line
import Calculator.Proofs.Words
import Calculator.Proofs.Readings

/-!
# Which lines are well-formed

A line is well-formed exactly if it is clean and its words are the tokens of a derived
term; the term is then its root. Neither half looks at how the line is read. With the
characterisations of clean lines and of derived trees this says which texts are accepted
in terms of their characters and of the grammar alone.
-/
namespace Calculator

theorem Token.Kind.ofChar_ne_endOfInput (c : Char) : ofChar c ≠ .endOfInput := by
  unfold ofChar
  split
  · decide
  · split
    · decide
    · split <;> decide

theorem Lexeme.IsWhole.kind_ne_endOfInput {l : Lexeme} (h : l.IsWhole) :
    l.kind ≠ .endOfInput := by
  obtain ⟨c, hc⟩ := List.exists_mem_of_ne_nil _ h.ne_nil
  rw [← h.ofChar_eq c hc]
  exact Token.Kind.ofChar_ne_endOfInput c

/-- The tokens before the end of input come from lexemes. -/
theorem exists_lexeme_of_mem_placed {cs : List Char} {position : Nat} {t : Token}
    (h : t ∈ (placed position (lexemes cs)).map fun x => x.2.token x.1) :
    ∃ l ∈ lexemes cs, l.IsWhole ∧ ∃ q, t = l.token q := by
  obtain ⟨x, hx, rfl⟩ := List.mem_map.1 h
  exact ⟨x.2, mem_of_mem_placed hx, isWhole_of_mem_placed hx, x.1, rfl⟩

theorem Reader.isEnded_ofText (text : String) : (Reader.ofText text).IsEnded := by
  refine ⟨words 0 text.toList, ahead_ofText text, fun t ht => ?_⟩
  obtain ⟨l, -, hw, q, rfl⟩ := exists_lexeme_of_mem_placed (List.mem_of_mem_filter ht)
  exact hw.kind_ne_endOfInput

/-- If neither a term nor the end of input behind it is reported, the term is derived and has
all tokens that are ahead, except for the end of input. -/
theorem Reader.derivation_of_silent {r : Reader} (hr : r.IsEnded)
    (hp : (r.phrase .term).diagnostics = [])
    (he : ((r.phrase .term).reader.expect .endOfInput).diagnostics = []) :
    Derivation .term (r.phrase .term).result ∧
      r.ahead = (r.phrase .term).result.tokens ++ [Token.endOfInput r.endPosition] ∧
      ((r.phrase .term).reader.expect .endOfInput).result = Token.endOfInput r.endPosition := by
  have hrepair := Reader.phrase_repair .term r
  obtain ⟨hended, hsize⟩ := hrepair.isEnded hr
  have hend : (r.phrase .term).reader.current.kind = .endOfInput := by
    by_contra hne
    simp [Reader.expect_of_ne hne] at he
  have hahead := hended.ahead_eq hend
  rw [hsize] at hahead
  refine ⟨Reader.phrase_derivation .term r, ?_, ?_⟩
  · rw [hrepair.ahead_eq hp, hahead]
  · rw [Reader.expect_of_eq hend]
    simp [Reader.current, hahead]

/-- The tokens of a text without blanks and without the end of input. -/
def content (text : String) : List Token :=
  (tokens text).filter fun t => t.kind ≠ .whitespace ∧ t.kind ≠ .endOfInput

theorem content_eq_words {text : String} (h : IsClean text.toList) :
    content text = words 0 text.toList := by
  have hp : ∀ t ∈ (placed 0 (lexemes text.toList)).map (fun x => x.2.token x.1),
      decide (t.kind ≠ .whitespace ∧ t.kind ≠ .endOfInput) = t.isMeaningful := by
    intro t ht
    obtain ⟨l, hl, hw, q, rfl⟩ := exists_lexeme_of_mem_placed ht
    have hend : (l.token q).kind ≠ .endOfInput := hw.kind_ne_endOfInput
    have hbad : (l.token q).kind ≠ .bad := (h l hl).1
    rw [Bool.eq_iff_iff, decide_eq_true_iff, Token.isMeaningful, Bool.and_eq_true,
      decide_eq_true_iff, decide_eq_true_iff]
    simp [hend, hbad]
  rw [content, tokens_eq, List.filter_append, List.filter_congr hp, words]
  simp [Token.endOfInput]

namespace Line

/-- A line whose words are the tokens of a derived term. -/
theorem ofText_of_derivation {text : String} {e : Expr} (h : Derivation .term e)
    (hw : e.tokens = words 0 text.toList) : ofText text =
      ⟨lexicalDiagnostics text, [], e, Token.endOfInput text.utf8ByteSize⟩ := by
  have hr : Reader.ofText text =
      ⟨e.tokens ++ [Token.endOfInput text.utf8ByteSize], text.utf8ByteSize⟩ := by
    rw [hw, ← ahead_ofText]
    rfl
  have hp := h.phrase_eq text.utf8ByteSize [Token.endOfInput text.utf8ByteSize] rfl
  rw [ofText_eq, hr]
  simp only [hp]
  rfl

theorem evaluate_of_diagnostics_eq_nil {text : String} (h : (ofText text).diagnostics = []) :
    Calculator.evaluate text = (ofText text).root.evaluate.mapError .fault := by
  rw [Calculator.evaluate, outcome_eq, isWellFormed, h]
  rfl

/-- A clean text whose words are the tokens of a derived term is evaluated as this term. -/
theorem evaluate_of_derivation {text : String} {e : Expr} (h : Derivation .term e)
    (hw : e.tokens = words 0 text.toList) (hc : IsClean text.toList) :
    (ofText text).diagnostics = [] ∧ (ofText text).root = e ∧
      Calculator.evaluate text = e.evaluate.mapError .fault := by
  have hl := (lexicalDiagnostics_eq_nil_iff text).2 hc
  have hline := ofText_of_derivation h hw
  have hd : (ofText text).diagnostics = [] := by rw [hline, diagnostics, hl]; rfl
  exact ⟨hd, by rw [hline], by rw [evaluate_of_diagnostics_eq_nil hd, hline]⟩

/-- If no token of a line is missing or left over, its root is a derived term of its words. -/
theorem derivation_of_syntactic_eq_nil {text : String} (h : (ofText text).syntactic = []) :
    Derivation .term (ofText text).root ∧ (ofText text).root.tokens = words 0 text.toList ∧
      (ofText text).endToken = Token.endOfInput text.utf8ByteSize := by
  rw [ofText_eq, List.append_eq_nil_iff] at h
  obtain ⟨hd, hahead, hend⟩ :=
    Reader.derivation_of_silent (Reader.isEnded_ofText text) h.1 h.2
  rw [ahead_ofText] at hahead
  exact ⟨hd, (List.append_cancel_right hahead).symm, hend⟩

theorem diagnostics_eq_nil_iff_derivation (text : String) : (ofText text).diagnostics = [] ↔
    IsClean text.toList ∧ ∃ e, Derivation .term e ∧ e.tokens = words 0 text.toList := by
  rw [diagnostics, List.append_eq_nil_iff, ← lexicalDiagnostics_eq_nil_iff]
  constructor
  · rintro ⟨hl, hs⟩
    have hd := derivation_of_syntactic_eq_nil hs
    exact ⟨hl, _, hd.1, hd.2.1⟩
  · rintro ⟨hl, e, he, hw⟩
    rw [ofText_of_derivation he hw]
    exact ⟨hl, rfl⟩

/-- Nothing is reported exactly for the texts of digits, blanks and the six signs in which no
run of digits denotes a number beyond the largest, and whose tokens without the blanks are a
sentence. The root is then a derivation of these tokens, and the end of input ends it. -/
theorem diagnostics_eq_nil_iff_sentence (text : String) :
    ((ofText text).diagnostics = [] ↔
      (∀ c ∈ text.toList,
        c.isDigit = true ∨ isBlank c = true ∨ c ∈ ['+', '-', '*', '/', '(', ')']) ∧
      (∀ run, MaximalRun (fun c => c.isDigit = true) run text.toList →
        Nat.ofDigitChars 10 run 0 ≤ 2147483647) ∧
      Sentence .term ((content text).map Token.kind)) ∧
    ((ofText text).diagnostics = [] →
      Derivation .term (ofText text).root ∧ (ofText text).root.tokens = content text ∧
      (ofText text).endToken = Token.endOfInput text.utf8ByteSize) := by
  have hclean := isClean_iff text.toList
  refine ⟨?_, fun h => ?_⟩
  · rw [diagnostics_eq_nil_iff_derivation, ← and_assoc, ← largestNumber, ← hclean]
    refine and_congr_right fun hc => ?_
    rw [content_eq_words hc]
    constructor
    · rintro ⟨e, he, hw⟩
      rw [← hw]
      exact he.sentence
    · intro hs
      exact hs.exists_derivation rfl
  · rw [diagnostics, List.append_eq_nil_iff] at h
    rw [content_eq_words ((lexicalDiagnostics_eq_nil_iff text).1 h.1)]
    exact derivation_of_syntactic_eq_nil h.2

end Line

end Calculator
