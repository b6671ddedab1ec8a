import Calculator.Proofs.Composition
import Calculator.Proofs.Tokenwise

/-!
# Concatenation

Two texts, one written behind the other. At a place where the characters on both sides do
not run together, the tokens of the first text are followed by those of the second, moved by
the bytes before them, and so it is with what is reported of single tokens. Neither text has
an influence on how the other one is cut.

Trees are not put together that simply. If an operator and an operand are written behind a
line, then a sum takes the whole line as its left operand, and a product takes the last factor
of the line. The rest of the tree is kept, because the tree that is described here is derived
from the grammar, and a line has only one such tree. Lines with diagnostics are not considered;
with a number missing at the end of the first one, the operand would take its place.
-/
namespace Calculator

def Diagnostic.moved (offset : Nat) (d : Diagnostic) : Diagnostic :=
  { d with position := d.position + offset }

theorem Token.moved_kind (offset : Nat) (t : Token) : (t.moved offset).kind = t.kind := rfl

theorem Lexeme.diagnostic?_add (l : Lexeme) (position offset : Nat) :
    l.diagnostic? (position + offset) =
      (l.diagnostic? position).map (Diagnostic.moved offset) := by
  unfold diagnostic?
  split
  · rw [Option.map_map]
    rfl
  · split <;> rfl
  · rfl

/-- What is reported of a single token names the offset of the token, between words that do
not depend on it. -/
theorem Lexeme.message_moved {l : Lexeme} {position : Nat} {d : Diagnostic}
    (h : l.diagnostic? position = some d) : ∃ before after, ∀ offset,
      (d.moved offset).message = before ++ toString (d.position + offset) ++ after := by
  unfold diagnostic? at h
  split at h
  · obtain ⟨c, -, rfl⟩ := Option.map_eq_some_iff.1 h
    exact ⟨"Bad character '" ++ c.toString ++ "' at position ", ".", fun _ => rfl⟩
  · split at h
    · cases h
      exact ⟨"The value " ++ l.text ++ " at position ", " is not a valid integer.", fun _ => rfl⟩
    · cases h
  · cases h

theorem isCut_iff {cs ds : List Char} : IsCut cs ds ↔
    ∀ c ∈ cs.getLast?, ∀ d ∈ ds.head?,
      ¬ (c.isDigit = true ∧ d.isDigit = true) ∧ ¬ (isBlank c = true ∧ isBlank d = true) := by
  simp only [← Token.Kind.ofChar_eq_number_iff, ← Token.Kind.ofChar_eq_whitespace_iff]
  refine forall₂_congr fun c _ => forall₂_congr fun d _ => ?_
  rw [← Bool.not_eq_true, Token.Kind.runs_iff]
  constructor
  · intro h
    exact ⟨fun hn => h (hn.2.trans hn.1.symm) (.inl hn.1),
      fun hw => h (hw.2.trans hw.1.symm) (.inr hw.1)⟩
  · rintro ⟨hn, hw⟩ hk (hc | hc)
    · exact hn ⟨hc, hk.trans hc⟩
    · exact hw ⟨hc, hk.trans hc⟩

theorem IsCut.placed_append {a b : String} (h : IsCut a.toList b.toList) :
    placed 0 (lexemes (a ++ b).toList) = placed 0 (lexemes a.toList) ++
      (placed 0 (lexemes b.toList)).map fun x => (x.1 + a.utf8ByteSize, x.2) := by
  rw [String.toList_append, lexemes_append h, Calculator.placed_append, flatMap_chars_lexemes,
    byteLength_toList, placed_add]

/-- If two texts do not run together, the tokens of both written one behind the other are those
of the first without the end of input, and then those of the second, moved by the bytes of the
first. The same holds of the lexical diagnostics, which name the new positions. -/
theorem tokens_append_of_cut (a b : String)
    (h : ∀ c ∈ a.toList.getLast?, ∀ d ∈ b.toList.head?,
      ¬ (c.isDigit = true ∧ d.isDigit = true) ∧ ¬ (isBlank c = true ∧ isBlank d = true)) :
    tokens (a ++ b) = (tokens a).dropLast ++ (tokens b).map (Token.moved a.utf8ByteSize) ∧
    lexicalDiagnostics (a ++ b) =
      lexicalDiagnostics a ++ (lexicalDiagnostics b).map (Diagnostic.moved a.utf8ByteSize) ∧
    ∀ d ∈ lexicalDiagnostics b, ∃ before after,
      d.message = before ++ toString d.position ++ after ∧
      (d.moved a.utf8ByteSize).message =
        before ++ toString (d.position + a.utf8ByteSize) ++ after := by
  have hplaced := (isCut_iff.2 h).placed_append
  refine ⟨?_, ?_, fun d hd => ?_⟩
  · have hend : Token.endOfInput (a ++ b).utf8ByteSize =
        (Token.endOfInput b.utf8ByteSize).moved a.utf8ByteSize := by
      rw [String.utf8ByteSize_append, Nat.add_comm]
      rfl
    rw [tokens_eq, tokens_eq, tokens_eq, hplaced, hend, List.dropLast_concat, List.map_append,
      List.append_assoc, List.map_append, List.map_map, List.map_map]
    rfl
  · rw [lexicalDiagnostics_eq, lexicalDiagnostics_eq, lexicalDiagnostics_eq, hplaced,
      List.filterMap_append, List.filterMap_map, List.map_filterMap]
    simp only [Function.comp_def, Lexeme.diagnostic?_add]
  · rw [lexicalDiagnostics_eq, List.mem_filterMap] at hd
    obtain ⟨x, -, hx⟩ := hd
    obtain ⟨before, after, hm⟩ := Lexeme.message_moved hx
    exact ⟨before, after, hm 0, hm a.utf8ByteSize⟩

/-- The first text ends with a blank of three bytes, and the second starts with a bad character
of two. -/
theorem tokens_append_wide_blank :
    (∀ c ∈ "7\u2003".toList.getLast?, ∀ d ∈ "é 9".toList.head?,
      ¬ (c.isDigit = true ∧ d.isDigit = true) ∧ ¬ (isBlank c = true ∧ isBlank d = true)) ∧
    tokens ("7\u2003" ++ "é 9") =
      (tokens "7\u2003").dropLast ++ (tokens "é 9").map (Token.moved 4) ∧
    lexicalDiagnostics ("7\u2003" ++ "é 9") = [⟨.badCharacter 'é', 4⟩] := by
  have hcut : ∀ c ∈ "7\u2003".toList.getLast?, ∀ d ∈ "é 9".toList.head?,
      ¬ (c.isDigit = true ∧ d.isDigit = true) ∧ ¬ (isBlank c = true ∧ isBlank d = true) := by
    have hlast : "7\u2003".toList.getLast? = some '\u2003' := by decide +kernel
    have hhead : "é 9".toList.head? = some 'é' := by decide +kernel
    rw [hlast, hhead]
    rintro c ⟨⟩ d ⟨⟩
    decide +kernel
  have hfirst : lexicalDiagnostics "7\u2003" = [] := by decide +kernel
  have hsecond : lexicalDiagnostics "é 9" = [⟨.badCharacter 'é', 0⟩] := by decide +kernel
  have h := tokens_append_of_cut "7\u2003" "é 9" hcut
  rw [hfirst, hsecond] at h
  exact ⟨hcut, h.1, h.2.1⟩

theorem Derivation.ofFits {e : Expr} (h : Derivation .term e) {level : Level}
    (hf : e.Fits level) : Derivation level e := by
  cases h with
  | factor hfactor =>
    cases level with
    | term => exact .factor hfactor
    | factor => exact hfactor
    | primary =>
      cases hfactor with
      | primary hprimary => exact hprimary
      | product => exact hf.elim
  | sum hl hk hr =>
    cases level with
    | term => exact .sum hl hk hr
    | factor => exact absurd hk (not_or.2 hf)
    | primary => exact hf.elim

/-- The tree with an operator and an operand behind it. An operator of products takes only the
right operand of a sum, and all others take the whole tree. -/
def Expr.extended (e : Expr) (sign : Token) (operand : Expr) : Expr :=
  match e with
  | .binary left operator right =>
      if (sign.kind = .star ∨ sign.kind = .slash) ∧
          (operator.kind = .plus ∨ operator.kind = .minus) then
        .binary left operator (.binary right sign operand)
      else .binary (.binary left operator right) sign operand
  | e => .binary e sign operand

theorem Expr.tokens_extended (e : Expr) (sign : Token) (operand : Expr) :
    (e.extended sign operand).tokens = e.tokens ++ sign :: operand.tokens := by
  cases e with
  | number token => rfl
  | group opening inner closing => rfl
  | binary left operator right =>
    rw [extended]
    split
    · simp [tokens]
    · rfl

theorem Expr.extended_eq_binary {e : Expr} {sign : Token}
    (h : sign.kind = .star ∨ sign.kind = .slash → e.Fits .factor) (operand : Expr) :
    e.extended sign operand = .binary e sign operand := by
  cases e with
  | number token => rfl
  | group opening inner closing => rfl
  | binary left operator right =>
    rw [extended, if_neg]
    rintro ⟨hs, ho⟩
    exact not_or.2 (h hs) ho

theorem Derivation.extended {e operand : Expr} {sign : Token} (h : Derivation .term e)
    (hs : (sign.kind = .plus ∨ sign.kind = .minus) ∨ sign.kind = .star ∨ sign.kind = .slash)
    (ho : Derivation .primary operand) : Derivation .term (e.extended sign operand) := by
  rcases hs with hs | hs
  · rw [Expr.extended_eq_binary fun hp => by rcases hs with hs | hs <;> simp [hs] at hp]
    exact .sum h hs (.primary ho)
  · cases h with
    | factor hfactor =>
      rw [Expr.extended_eq_binary fun _ => hfactor.fits]
      exact .factor (.product hfactor hs ho)
    | sum hl hk hr =>
      rw [Expr.extended, if_pos ⟨hs, hk⟩]
      exact .sum hl hk (.product hr hs ho)

namespace Line

theorem ofText_append_of_derivation {a b : String} {op : Operator}
    (ha : (ofText a).diagnostics = []) (hb : (ofText b).diagnostics = []) {e : Expr}
    (he : Derivation .term e) (ht : e.tokens = (ofText a).root.tokens ++
      signAt op.kind op.symbol a.utf8ByteSize ::
        (ofText b).root.tokens.map (Token.moved (a.utf8ByteSize + 1))) :
    (ofText (a ++ op.symbol ++ b)).diagnostics = [] ∧
      (ofText (a ++ op.symbol ++ b)).root = e := by
  have hop := isSign_operator op
  have hlength : byteLength op.symbol.toList = 1 := by cases op <;> rfl
  have hcut := IsCut.ofSign hop a.toList b.toList
  have hchars : (a ++ op.symbol ++ b).toList = a.toList ++ (op.symbol.toList ++ b.toList) := by
    simp
  have hclean : IsClean (a ++ op.symbol ++ b).toList := by
    rw [hchars, hcut.isClean_append_iff, (hop.scans_here 0 b.toList).isClean_iff]
    exact ⟨isClean_of_diagnostics_eq_nil ha, isClean_of_diagnostics_eq_nil hb⟩
  rw [diagnostics, List.append_eq_nil_iff] at ha hb
  have hwords : e.tokens = words 0 (a ++ op.symbol ++ b).toList := by
    rw [ht, (derivation_of_syntactic_eq_nil ha.2).2.1, (derivation_of_syntactic_eq_nil hb.2).2.1,
      hchars, hcut.words_append, (hop.scans_here _ _).words_eq, hlength, Nat.zero_add,
      byteLength_toList, ← words_add, Nat.zero_add]
    rfl
  obtain ⟨hd, hroot, -⟩ := evaluate_of_derivation he hwords hclean
  exact ⟨hd, hroot⟩

/-- A line without diagnostics may go on with an operator and a line that is a number or a
group. A sum then takes the whole line as its left operand. A product takes only the right
operand of the line if the line is a sum, and else the whole line too. -/
theorem ofText_append_operand (a b : String) (op : Operator) (ha : (ofText a).diagnostics = [])
    (hb : (ofText b).diagnostics = []) (hprimary : (ofText b).root.Fits .primary) :
    (ofText (a ++ op.symbol ++ b)).diagnostics = [] ∧
      (ofText (a ++ op.symbol ++ b)).root =
        (ofText a).root.extended (signAt op.kind op.symbol a.utf8ByteSize)
          ((ofText b).root.mapTokens (Token.moved (a.utf8ByteSize + 1))) := by
  have hsign : (op.kind = .plus ∨ op.kind = .minus) ∨ op.kind = .star ∨ op.kind = .slash := by
    cases op <;> simp [Operator.kind]
  have hoperand : Derivation .primary
      ((ofText b).root.mapTokens (Token.moved (a.utf8ByteSize + 1))) :=
    ((derivation_root b).ofFits hprimary).mapTokens (Token.moved_kind _)
  refine ofText_append_of_derivation ha hb ((derivation_root a).extended hsign hoperand) ?_
  rw [Expr.tokens_extended, Expr.tokens_mapTokens]

/-- The product is the right operand of a difference, behind a blank that takes three bytes. -/
theorem ofText_append_operand_reopens_product :
    (ofText "1-\u20032*3").diagnostics = [] ∧ (ofText "(4)").diagnostics = [] ∧
      (ofText "(4)").root.Fits .primary ∧
      ∃ left minus right operand, (ofText "1-\u20032*3").root = .binary left minus right ∧
        (ofText ("1-\u20032*3" ++ Operator.over.symbol ++ "(4)")).root =
          .binary left minus (.binary right (signAt .slash "/" 8) operand) := by
  have ha : (ofText "1-\u20032*3").diagnostics = [] := by decide +kernel
  have hb : (ofText "(4)").diagnostics = [] := by decide +kernel
  have hroot : (ofText "1-\u20032*3").root = .binary (.number (numberAt ['1'] 0))
      (signAt .minus "-" 1) (.binary (.number (numberAt ['2'] 5)) (signAt .star "*" 6)
        (.number (numberAt ['3'] 7))) := by decide +kernel
  have hgroup : (ofText "(4)").root = .group (signAt .openParen "(" 0)
      (.number (numberAt ['4'] 1)) (signAt .closeParen ")" 2) := by decide +kernel
  have hprimary : (ofText "(4)").root.Fits .primary := by
    rw [hgroup]
    trivial
  have h := (ofText_append_operand "1-\u20032*3" "(4)" .over ha hb hprimary).2
  rw [hroot] at h ⊢
  exact ⟨ha, hb, hprimary, _, _, _, _, rfl, h⟩

end Line

end Calculator
