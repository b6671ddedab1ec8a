import Calculator.Proofs.Marks
import Calculator.Proofs.Tokenwise

/-!
# Masking

Lexical errors do not disturb the structure of a line. They are masked by writing spaces over
each bad character and zeros over the digits of each number that is too large, as many as there
were bytes. The masked text has nothing for the lexemes to report, and otherwise it is read as
the text itself: the same tree but for the digits of the masked numbers, the same end, the same
value or fault, and what is reported of the order of the tokens is reported of both.

A mask fits in the place of what it covers. That spaces run together with the blanks around
them does not matter, because neither these nor bad characters are words. So the words of the
masked text are those of the text, masked one by one, and the rest is likeness.
-/
namespace Calculator

/-- Digits, or as many zeros if they denote too large a number. -/
def maskedDigits (digits : List Char) : List Char :=
  if Nat.ofDigitChars 10 digits 0 ≤ largestNumber then digits
  else List.replicate digits.length '0'

theorem ofDigitChars_maskedDigits_le (digits : List Char) :
    Nat.ofDigitChars 10 (maskedDigits digits) 0 ≤ largestNumber := by
  unfold maskedDigits
  split
  · next h => exact h
  · rw [Nat.ofDigitChars_replicate_zero]
    exact Nat.zero_le _

/-- Where a number is too large it counts as zero, as its zeros do. -/
theorem value_maskedDigits (digits : List Char) :
    Lexeme.value ⟨.number, maskedDigits digits⟩ = Lexeme.value ⟨.number, digits⟩ := by
  unfold maskedDigits
  split
  · rfl
  · next h =>
    have hlarge : Lexeme.isTooLarge ⟨.number, digits⟩ = true :=
      decide_eq_true (Nat.lt_of_not_le h)
    rw [Lexeme.value, Lexeme.value, hlarge, if_pos rfl, Lexeme.magnitude,
      Nat.ofDigitChars_replicate_zero]
    exact ite_self _

namespace Lexeme

/-- A lexeme with which nothing is wrong in the place of one. -/
def masked (l : Lexeme) : Lexeme :=
  match l.kind with
  | .bad => l.spaces
  | .number => ⟨.number, maskedDigits l.chars⟩
  | _ => l

variable {l : Lexeme}

theorem isSound_masked (l : Lexeme) : l.masked.IsSound := by
  unfold masked
  split
  · exact ⟨by simp [spaces], by simp [spaces]⟩
  · exact ⟨by simp, fun _ => ofDigitChars_maskedDigits_le l.chars⟩
  · next hb hn => exact ⟨hb, fun hk => absurd hk hn⟩

theorem IsWhole.maskedDigits_overwrites (h : l.IsWhole) (hk : l.kind = .number) :
    Overwrites ⟨.number, maskedDigits l.chars⟩ l := by
  obtain ⟨k, chars⟩ := l
  obtain rfl : k = .number := hk
  unfold maskedDigits
  split
  · exact h.overwrites
  · constructor
    · exact isWhole_replicate (Token.Kind.ofChar_eq_number_iff.2 (by decide)) rfl
        (List.length_pos_iff.2 h.ne_nil)
    · have hdigits : ∀ c ∈ chars, c.isDigit = true := fun c hc =>
        Token.Kind.ofChar_eq_number_iff.1 (h.ofChar_eq c hc)
      rw [byteLength_replicate,
        byteLength_of_utf8Size fun c hc => utf8Size_of_isDigit (hdigits c hc)]
      exact Nat.mul_one _
    · exact .inr rfl

theorem IsWhole.masked_overwrites (h : l.IsWhole) : l.masked.Overwrites l := by
  unfold masked
  split
  · exact h.spaces_overwrites
  · next hk => exact h.maskedDigits_overwrites hk
  · exact h.overwrites

end Lexeme

/-- A number token with its digits masked, and any other token as it is. -/
def Token.masked (t : Token) : Token :=
  if t.kind = .number then
    { t with text := t.text.map fun s => String.ofList (maskedDigits s.toList) }
  else t

namespace Token

theorem masked_of_ne {t : Token} (h : t.kind ≠ .number) : t.masked = t := if_neg h

theorem masked_kind (t : Token) : t.masked.kind = t.kind := by
  unfold masked
  split <;> rfl

theorem masked_position (t : Token) : t.masked.position = t.position := by
  unfold masked
  split <;> rfl

theorem masked_value (t : Token) : t.masked.value = t.value := by
  unfold masked
  split <;> rfl

theorem masked_placeholder (k : Kind) (p : Nat) : (placeholder k p).masked = placeholder k p := by
  unfold masked
  split <;> rfl

theorem isLikeness_masked : IsLikeness fun t u => u = t.masked where
  kind_eq h := by rw [h, masked_kind]
  value_eq h := by rw [h, masked_value]
  placeholder h _ _ := by rw [h, masked_position, masked_placeholder]

end Token

theorem Lexeme.isMeaningful_masked (l : Lexeme) (position : Nat) :
    (l.masked.token position).isMeaningful = (l.token position).isMeaningful := by
  rw [Bool.eq_iff_iff, isMeaningful_token, isMeaningful_token]
  unfold masked
  split <;> simp_all [spaces]

theorem Lexeme.token_masked {l : Lexeme} (h : l.kind ≠ .bad) (position : Nat) :
    l.masked.token position = (l.token position).masked := by
  obtain ⟨k, chars⟩ := l
  by_cases hk : k = .number
  · subst hk
    simp [masked, token, text, Token.masked, value_maskedDigits]
  · rw [masked]
    split
    · next hb => exact absurd hb h
    · next hn => exact absurd hn hk
    · exact (Token.masked_of_ne hk).symm

/-- A text with a mask on each of its lexical errors. -/
def masked (text : String) : String := overwritten (fun x => x.2.masked) text

theorem fitsText_masked (text : String) : FitsText (fun x => x.2.masked) text :=
  fun _ hx => (isWhole_of_mem_placed hx).masked_overwrites

theorem lexicalDiagnostics_masked (text : String) : lexicalDiagnostics (masked text) = [] := by
  rw [lexicalDiagnostics_eq_nil_iff, isClean_iff_marks 0, masked, (fitsText_masked text).marks_eq]
  intro x hx
  obtain ⟨y, -, rfl⟩ := List.mem_map.1 (List.mem_of_mem_filter hx)
  exact y.2.isSound_masked

/-- The words of the masked text are those of the text, masked one by one. -/
theorem words_masked (text : String) :
    words 0 (masked text).toList = (words 0 text.toList).map Token.masked := by
  rw [masked, (fitsText_masked text).words_eq, words, List.filter_map, List.filter_map,
    List.map_map]
  simp only [Function.comp_def, Lexeme.isMeaningful_masked]
  apply List.map_congr_left
  intro x hx
  have hm := (isMeaningful_token x.2 x.1).1 (List.mem_filter.1 hx).2
  exact Lexeme.token_masked hm.2 x.1

theorem buffer_masked (text : String) : buffer (masked text) = (buffer text).map Token.masked := by
  rw [buffer_eq_words, buffer_eq_words, words_masked, List.map_append]
  congr 2
  rw [masked, (fitsText_masked text).utf8ByteSize_eq]
  rfl

namespace Line

theorem alike_masked (text : String) :
    Line.Alike (fun t u => u = t.masked) (ofText text) (ofText (masked text)) := by
  apply alike_of_buffer Token.isLikeness_masked
  rw [buffer_masked, List.forall₂_map_right_iff, List.forall₂_same]
  exact fun _ _ => rfl

/-- What is reported of the order of tokens does not show how they are written. -/
theorem syntactic_masked (text : String) :
    (ofText (masked text)).syntactic = (ofText text).syntactic := by
  have heq := (alike_masked text).syntactic.imp fun d e hde => show d = e by
    cases hde with
    | unexpectedToken k ht => rw [ht, Token.masked_kind, Token.masked_position]
  rw [List.forall₂_eq_eq_eq] at heq
  exact heq.symm

/-- A masked text has no lexical errors. Its tree is that of the text but for how the numbers
that are too large are written, both are read to the same end, and both trees have the same
value or the same fault. What is reported of the text is its lexical errors and then what is
reported of the masked text. -/
theorem ofText_masked (text : String) :
    lexicalDiagnostics (masked text) = [] ∧
    (ofText (masked text)).root = (ofText text).root.mapTokens Token.masked ∧
    (ofText (masked text)).endToken = (ofText text).endToken ∧
    (ofText text).diagnostics = lexicalDiagnostics text ++ (ofText (masked text)).diagnostics ∧
    (ofText (masked text)).root.evaluate = (ofText text).root.evaluate := by
  have halike := alike_masked text
  have hroot : (ofText (masked text)).root = (ofText text).root.mapTokens Token.masked := by
    have h := halike.root.mapTokens_eq (f := Token.masked) (g := id) fun _ _ ht => ht.symm
    rw [h, Expr.mapTokens_id]
  refine ⟨lexicalDiagnostics_masked text, hroot, ?_, ?_, ?_⟩
  · have hkind : (ofText text).endToken.kind = .endOfInput := Reader.expect_result_kind _ _
    rw [halike.endToken, Token.masked_of_ne (by simp [hkind])]
  · rw [diagnostics, diagnostics, syntactic_masked]
    change _ = _ ++ (lexicalDiagnostics (masked text) ++ _)
    rw [lexicalDiagnostics_masked, List.nil_append]
    rfl
  · rw [hroot, Expr.evaluate_mapTokens Token.masked_kind Token.masked_value
      Token.masked_position]

end Line

end Calculator
