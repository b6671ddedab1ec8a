import Mathlib.Data.Finset.Card
import Calculator.Proofs.Marks

/-!
# Texts with tokens blanked out

Some tokens of a text, replaced by as many spaces as they have bytes. All other words stay as
they are and where they are, the text is as long as before, and no lexical error arises. So a
reader of the new text is a reader of the words that are left, which `Reader.without` says in
terms of the old text alone.
-/
namespace Calculator

/-- The text with spaces in the place of the tokens of a set. -/
def blanked (D : Finset Token) (text : String) : String :=
  overwritten (fun x => if x.2.token x.1 ∈ D then x.2.spaces else x.2) text

/-- The first token behind an offset that is not blanked out, which is the end of input if there
is no other. -/
def tokenBehind (D : Finset Token) (text : String) (p : Nat) : Token :=
  ((content text).filter fun u => u ∉ D ∧ p < u.position).headD
    (Token.endOfInput text.utf8ByteSize)

variable {D : Finset Token}

theorem fitsText_blanked (D : Finset Token) (text : String) :
    FitsText (fun x => if x.2.token x.1 ∈ D then x.2.spaces else x.2) text := by
  intro x hx
  have hw := isWhole_of_mem_placed hx
  dsimp only
  split
  · exact hw.spaces_overwrites
  · exact hw.overwrites

theorem utf8ByteSize_blanked (D : Finset Token) (text : String) :
    (blanked D text).utf8ByteSize = text.utf8ByteSize :=
  (fitsText_blanked D text).utf8ByteSize_eq

/-- The words that are not blanked out stay where they are. -/
theorem words_blanked (D : Finset Token) (text : String) :
    words 0 (blanked D text).toList = (words 0 text.toList).filter (· ∉ D) := by
  rw [blanked, (fitsText_blanked D text).words_eq, words]
  induction placed 0 (lexemes text.toList) with
  | nil => rfl
  | cons x xs ih =>
    by_cases hx : x.2.token x.1 ∈ D
    · have hspaces : ¬ (x.2.spaces.token x.1).isMeaningful = true := by
        simp [isMeaningful_token, Lexeme.spaces]
      rw [List.map_cons, if_pos hx, List.filter_cons_of_neg hspaces, ih, List.map_cons,
        List.filter_cons]
      split
      · rw [List.filter_cons_of_neg (by simpa using hx)]
      · rfl
    · rw [List.map_cons, if_neg hx, List.map_cons, List.filter_cons, List.filter_cons, ih]
      split
      · rw [List.filter_cons_of_pos (by simpa using hx)]
      · rfl

theorem buffer_blanked (D : Finset Token) (text : String) : buffer (blanked D text) =
    (words 0 text.toList).filter (· ∉ D) ++ [Token.endOfInput text.utf8ByteSize] := by
  rw [buffer_eq_words, words_blanked, utf8ByteSize_blanked]

theorem isClean_blanked {text : String} (h : IsClean text.toList) :
    IsClean (blanked D text).toList := by
  rw [isClean_iff_marks 0, blanked, (fitsText_blanked D text).marks_eq]
  intro x hx
  obtain ⟨y, hy, rfl⟩ := List.mem_map.1 (List.mem_of_mem_filter hx)
  dsimp only
  split
  · exact ⟨by simp [Lexeme.spaces], by simp [Lexeme.spaces]⟩
  · exact h y.2 (mem_of_mem_placed hy)

theorem words_pairwise_position (text : String) :
    (words 0 text.toList).Pairwise fun t u => t.position < u.position := by
  have h : (buffer text).Pairwise fun t u => t.position < u.position :=
    (tokens_pairwise_position text).filter _
  rw [buffer_eq_words, List.pairwise_append] at h
  exact h.1

theorem mem_words_of_mem_tokens {text : String} {t : Token} (ht : t ∈ tokens text)
    (hm : t.isMeaningful = true) (hk : t.kind ≠ .endOfInput) : t ∈ words 0 text.toList := by
  have hb : t ∈ buffer text := List.mem_filter.2 ⟨ht, hm⟩
  rw [buffer_eq_words, List.mem_append, List.mem_singleton] at hb
  refine hb.resolve_right ?_
  rintro rfl
  exact hk rfl

/-- The reader of tokens of which those of a set are missing, and of the end of input. -/
def Reader.without (D : Finset Token) (n : Nat) (ts : List Token) : Reader :=
  ⟨ts.filter (· ∉ D) ++ [Token.endOfInput n], n⟩

namespace Reader

variable {n : Nat} {t : Token} {ts : List Token}

theorem without_of_mem (h : t ∈ D) : without D n (t :: ts) = without D n ts := by
  rw [without, List.filter_cons_of_neg (by simpa using h), without]

theorem current_without (h : t ∉ D) : (without D n (t :: ts)).current = t := by
  rw [without, List.filter_cons_of_pos (by simpa using h)]
  rfl

theorem rest_without (h : t ∉ D) : (without D n (t :: ts)).rest = without D n ts := by
  rw [without, List.filter_cons_of_pos (by simpa using h)]
  rfl

theorem ofText_eq_without (D : Finset Token) (text : String) :
    ofText (blanked D text) = without D text.utf8ByteSize (words 0 text.toList) := by
  rw [without, ← buffer_blanked, mk.injEq]
  exact ⟨rfl, utf8ByteSize_blanked D text⟩

end Reader

/-- Behind a word the reader of what is left finds the first token behind its offset. -/
theorem current_without_eq_tokenBehind {text : String} (hc : IsClean text.toList)
    {front back : List Token} {t : Token} (h : words 0 text.toList = front ++ t :: back) :
    (Reader.without D text.utf8ByteSize back).current = tokenBehind D text t.position := by
  have hp := words_pairwise_position text
  rw [h, List.pairwise_append, List.pairwise_cons] at hp
  obtain ⟨-, ⟨hback, -⟩, hfront⟩ := hp
  have hnone : front.filter (fun u => u ∉ D ∧ t.position < u.position) = [] := by
    rw [List.filter_eq_nil_iff]
    intro u hu
    have := hfront u hu t List.mem_cons_self
    simp only [decide_eq_true_eq]
    omega
  have hall : back.filter (fun u => u ∉ D ∧ t.position < u.position) = back.filter (· ∉ D) :=
    List.filter_congr fun u hu => by simp [hback u hu]
  rw [tokenBehind, content_eq_words hc, h, List.filter_append, hnone, List.nil_append,
    List.filter_cons_of_neg (by simp), hall, Reader.current, Reader.without]
  cases back.filter (· ∉ D) <;> rfl

end Calculator
