import Calculator.Proofs.Insertions

/-!
# How much reading adds

Reading a line may put tokens into its tree that the line does not have, several of them at one
and the same place. There are never many: a placeholder meets a demand that a token of the line
has made, each token makes at most one, and the line itself makes one more. So a tree has at most
one placeholder more than it has tokens of the line, and the whole line at most one diagnostic
more than it has tokens.

If the line does not end behind its tree, this is one diagnostic too. It is made up for by the
token that is left over, which makes no demand on the tree.
-/
namespace Calculator

theorem demand_le_length (ks : List Token.Kind) : demand ks ≤ ks.length := by
  induction ks with
  | nil => exact Int.le_refl 0
  | cons k ks ih =>
    have hk : k.demand ≤ 1 := by cases k <;> decide
    simp only [demand, List.length_cons]
    omega

/-- The number of tokens of a text without blanks, bad characters and the end of input. -/
def tokenCount (text : String) : Nat :=
  (tokens text).countP fun t => t.kind ∉ [.whitespace, .bad, .endOfInput]

theorem length_buffer (text : String) : (buffer text).length = tokenCount text + 1 := by
  obtain ⟨ts, hts, hkind⟩ := Reader.isEnded_ofText text
  change buffer text = _ at hts
  have hcount : tokenCount text = (buffer text).countP fun t => t.kind ≠ .endOfInput := by
    rw [tokenCount, buffer, List.countP_filter]
    refine List.countP_congr fun t _ => ?_
    rw [Token.isMeaningful]
    cases t.kind <;> decide
  rw [hcount, hts, List.countP_append, List.length_append,
    List.countP_eq_length.2 fun t ht => decide_eq_true (hkind t ht)]
  rfl

namespace Line

theorem countP_isPlaceholder_root_le (text : String) :
    (ofText text).root.tokens.countP Token.isPlaceholder ≤
      (ofText text).root.tokens.countP Token.isScanned + 1 := by
  have hderived : Derivation .term (ofText text).root := Reader.phrase_derivation .term _
  have hle := demand_le_length (((ofText text).root.tokens.filter Token.isScanned).map Token.kind)
  rw [demand_filter_isScanned (canBeMissing_root text), hderived.demand_eq, List.length_map,
    ← List.countP_eq_length_filter] at hle
  omega

theorem countP_isScanned_root_le (text : String) :
    (ofText text).root.tokens.countP Token.isScanned +
      [(ofText text).endToken].countP Token.isPlaceholder ≤ tokenCount text := by
  obtain ⟨t, ht, hend⟩ := endToken_eq text
  have hlt := (List.getElem?_eq_some_iff.1 ht).1
  have hlength := length_buffer text
  by_cases hlast : (ofText text).root.tokens.countP Token.isScanned + 1 = (buffer text).length
  · have hscanned := isScanned_of_mem_buffer (List.mem_of_getElem? ht)
    rw [Token.isScanned, Bool.not_eq_true'] at hscanned
    rw [hend, if_pos hlast, List.countP_singleton, hscanned]
    simp only [Bool.false_eq_true, if_false]
    omega
  · rw [hend, if_neg hlast]
    simp only [List.countP_singleton, Token.placeholder, if_true]
    omega

/-- However malformed a text is, there is at most one diagnostic of the order of its tokens more
than there are tokens, and the tree has at most twice as many tokens as the text, and one. -/
theorem length_syntactic_and_tokens_le (text : String) :
    (ofText text).syntactic.length ≤ tokenCount text + 1 ∧
      (ofText text).root.tokens.length ≤ 2 * tokenCount text + 1 := by
  have hplaceholders := countP_isPlaceholder_root_le text
  have hscanned := countP_isScanned_root_le text
  constructor
  · rw [(mends text).length_diagnostics, List.countP_append]
    omega
  · rw [length_filter_isScanned, ← List.countP_eq_length_filter]
    omega

example : (ofText "((").syntactic.length = tokenCount "((" + 1 ∧
    (ofText "((").root.tokens.length = 2 * tokenCount "((" + 1 := by decide +kernel

end Line

end Calculator
