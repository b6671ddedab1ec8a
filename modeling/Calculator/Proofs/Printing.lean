import Mathlib.Data.List.Nodup
import Calculator.Proofs.Acceptance
import Calculator.Proofs.Drafts

/-!
# Printing and reading

The print of a draft is read without diagnostics, and as the tree of the draft, exactly if
the tree is normal. Every line without diagnostics is such a print, with blanks behind it.
So printing loses nothing, and a line says nothing that its tree and its blanks do not say.

Both directions go through the words of the characters. `Draft.scans` puts the words of a
print together from those of its parts, each with all that follows it present, because
digits would run together with digits. `Expr.IsPrinted` takes the words of a tree apart
again, and finds the print of each part in front of what is left.
-/
namespace Calculator

theorem isDigit_eq_false_of_isBlank {c : Char} (h : isBlank c = true) : c.isDigit = false := by
  by_contra hd
  rw [Bool.not_eq_false] at hd
  rw [isBlank_eq_false_of_isDigit hd] at h
  cases h

/-- Where a kind stands for neither a run nor a bad character, it stands for one character. -/
theorem Token.Kind.ofChar_inj {c d : Char} (hruns : (ofChar c).runs = false)
    (hbad : ofChar c ≠ .bad) (h : ofChar c = ofChar d) : c = d := by
  have hsign : ∀ e, ofChar e = ofChar c → e ∈ ['+', '-', '*', '/', '(', ')'] := by
    intro e he
    have hk : ofChar e ≠ .number ∧ ofChar e ≠ .whitespace := by
      rw [← not_or, ← runs_iff, he, hruns]
      decide
    rcases ofChar_ne_bad_iff.1 (he ▸ hbad) with hd | hb | hm
    · exact absurd (ofChar_eq_number_iff.2 hd) hk.1
    · exact absurd (ofChar_eq_whitespace_iff.2 hb) hk.2
    · exact hm
  have hnodup : (['+', '-', '*', '/', '(', ')'].map ofChar).Nodup := by decide
  exact List.inj_on_of_nodup_map hnodup (hsign c rfl) (hsign d h.symm) h

/-- The text is the single character that the kind stands for. -/
structure IsSign (kind : Token.Kind) (text : String) : Prop where
  exists_char : ∃ c, text.toList = [c] ∧ Token.Kind.ofChar c = kind
  runs : kind.runs = false
  ne_bad : kind ≠ .bad

theorem isSign_open : IsSign .openParen "(" :=
  ⟨⟨'(', by decide, by decide⟩, rfl, by decide⟩

theorem isSign_close : IsSign .closeParen ")" :=
  ⟨⟨')', by decide, by decide⟩, rfl, by decide⟩

theorem isSign_operator (operator : Operator) : IsSign operator.kind operator.symbol := by
  cases operator
  · exact ⟨⟨'+', by decide, by decide⟩, rfl, by decide⟩
  · exact ⟨⟨'-', by decide, by decide⟩, rfl, by decide⟩
  · exact ⟨⟨'*', by decide, by decide⟩, rfl, by decide⟩
  · exact ⟨⟨'/', by decide, by decide⟩, rfl, by decide⟩

namespace IsSign

variable {kind : Token.Kind} {text : String}

theorem ne_whitespace (h : IsSign kind text) : kind ≠ .whitespace := by
  rintro rfl
  cases h.runs

theorem ne_number (h : IsSign kind text) : kind ≠ .number := by
  rintro rfl
  cases h.runs

theorem isWhole (h : IsSign kind text) : Lexeme.IsWhole ⟨kind, text.toList⟩ := by
  obtain ⟨c, hc, hk⟩ := h.exists_char
  exact ⟨by simp [hc], by simp [hc, hk], by simp [hc]⟩

/-- A lexeme of the kind is spelled like the sign. -/
theorem eq_of_kind (h : IsSign kind text) {l : Lexeme} (hl : l.IsWhole) (hk : l.kind = kind) :
    l = ⟨kind, text.toList⟩ := by
  obtain ⟨c, hc, hck⟩ := h.exists_char
  obtain ⟨d, hd⟩ := List.length_eq_one_iff.1 (hl.length_eq_one (hk ▸ h.runs))
  have hdk : Token.Kind.ofChar d = kind := (hl.ofChar_eq d (by simp [hd])).trans hk
  have hcd : c = d := by
    apply Token.Kind.ofChar_inj
    · rw [hck]
      exact h.runs
    · rw [hck]
      exact h.ne_bad
    · rw [hck, hdk]
  obtain ⟨k, chars⟩ := l
  rw [Lexeme.mk.injEq]
  exact ⟨hk, by rw [hc, hcd, ← hd]⟩

/-- Neither blanks nor a sign go on with a run of digits. -/
theorem isDigit_head?_eq_false (h : IsSign kind text) {gap : List Char}
    (hg : ∀ c ∈ gap, isBlank c = true) (rest : List Char) :
    ∀ c ∈ (gap ++ (text.toList ++ rest)).head?, c.isDigit = false := by
  intro c hc
  cases gap with
  | nil =>
    obtain ⟨e, he, hek⟩ := h.exists_char
    obtain rfl : e = c := by simpa [he] using hc
    by_contra hd
    rw [Bool.not_eq_false, ← Token.Kind.ofChar_eq_number_iff, hek] at hd
    exact h.ne_number hd
  | cons b gap =>
    obtain rfl : b = c := by simpa using hc
    exact isDigit_eq_false_of_isBlank (hg b (by simp))

theorem token_eq (h : IsSign kind text) (p : Nat) :
    Lexeme.token ⟨kind, text.toList⟩ p = signAt kind text p := by
  simp [Lexeme.token, Lexeme.text, signAt, h.ne_whitespace, h.ne_number]

/-- Behind blanks, a sign is read as its token whatever comes next. -/
theorem scans (h : IsSign kind text) {gap : List Char} (hg : ∀ c ∈ gap, isBlank c = true)
    (p : Nat) (rest : List Char) :
    Scans p (gap ++ (text.toList ++ rest)) [signAt kind text (p + byteLength gap)]
      (p + byteLength gap + byteLength text.toList) rest := by
  have hl : Scans (p + byteLength gap) (text.toList ++ rest) _ _ rest :=
    Scans.ofLexeme (l := ⟨kind, text.toList⟩) h.isWhole
      ⟨h.ne_bad, fun hk => absurd hk h.ne_number⟩ h.ne_whitespace fun _ _ _ => h.runs
  rw [h.token_eq] at hl
  exact (Scans.ofBlanks hg p _).trans hl

/-- A first word of the kind stands behind blanks, and is spelled like the sign. -/
theorem exists_front (h : IsSign kind text) {cs : List Char} (hc : IsClean cs) {p : Nat}
    {t : Token} {ts : List Token} (hw : words p cs = t :: ts) (hk : t.kind = kind) :
    ∃ gap rest, (∀ c ∈ gap, isBlank c = true) ∧ cs = gap ++ (text.toList ++ rest) ∧
      t = signAt kind text (p + byteLength gap) ∧ IsClean rest ∧
      words (p + byteLength gap + byteLength text.toList) rest = ts := by
  obtain ⟨gap, l, rest, hg, hl, -, -, rfl, rfl, hrest, hws⟩ := exists_front_of_words hc hw
  obtain rfl := h.eq_of_kind hl hk
  exact ⟨gap, rest, hg, rfl, h.token_eq _, hrest, hws⟩

end IsSign

namespace IsDigits

variable {digits : List Char}

theorem isWhole (h : IsDigits digits) : Lexeme.IsWhole ⟨.number, digits⟩ :=
  ⟨h.ne_nil, fun c hc => Token.Kind.ofChar_eq_number_iff.2 (h.isDigit c hc), fun hr => by cases hr⟩

theorem token_eq (h : IsDigits digits) (p : Nat) :
    Lexeme.token ⟨.number, digits⟩ p = numberAt digits p := by
  have hl : Lexeme.isTooLarge ⟨.number, digits⟩ = false := by
    rw [Lexeme.isTooLarge, decide_eq_false_iff_not, Nat.not_lt]
    exact h.le
  simp [Lexeme.token, Lexeme.text, Lexeme.value, hl, Lexeme.magnitude, numberAt]

theorem ofLexeme {l : Lexeme} (hl : l.IsWhole) (hs : l.IsSound) (hk : l.kind = .number) :
    IsDigits l.chars :=
  ⟨hl.ne_nil, fun c hc => Token.Kind.ofChar_eq_number_iff.1 ((hl.ofChar_eq c hc).trans hk),
    hs.2 hk⟩

/-- Behind blanks, digits are read as one token if no further digit comes next. -/
theorem scans (h : IsDigits digits) {gap : List Char} (hg : ∀ c ∈ gap, isBlank c = true)
    (p : Nat) {rest : List Char} (hr : ∀ c ∈ rest.head?, c.isDigit = false) :
    Scans p (gap ++ (digits ++ rest)) [numberAt digits (p + byteLength gap)]
      (p + byteLength gap + byteLength digits) rest := by
  have hl : Scans (p + byteLength gap) (digits ++ rest) _ _ rest :=
    Scans.ofLexeme (l := ⟨.number, digits⟩) h.isWhole ⟨by simp, fun _ => h.le⟩ (by simp) ?_
  · rw [h.token_eq] at hl
    exact (Scans.ofBlanks hg p _).trans hl
  · intro c hc hk
    have hd := Token.Kind.ofChar_eq_number_iff.1 hk
    rw [hr c hc] at hd
    cases hd

/-- A first word that is a number stands behind blanks, and is spelled in digits. -/
theorem exists_front {cs : List Char} (hc : IsClean cs) {p : Nat} {t : Token} {ts : List Token}
    (hw : words p cs = t :: ts) (hk : t.kind = .number) :
    ∃ gap digits rest, (∀ c ∈ gap, isBlank c = true) ∧ IsDigits digits ∧
      cs = gap ++ (digits ++ rest) ∧ t = numberAt digits (p + byteLength gap) ∧ IsClean rest ∧
      words (p + byteLength gap + byteLength digits) rest = ts := by
  obtain ⟨gap, l, rest, hg, hl, hs, -, rfl, rfl, hrest, hws⟩ := exists_front_of_words hc hw
  obtain ⟨k, digits⟩ := l
  obtain rfl : k = .number := hk
  have hd := ofLexeme hl hs rfl
  exact ⟨gap, digits, rest, hg, hd, rfl, hd.token_eq _, hrest, hws⟩

end IsDigits

namespace Draft

/-- The tokens of the tree of a draft are read off its print, whatever comes next. -/
theorem scans {d : Draft} (hs : d.IsSpaced) {p : Nat} (hn : (d.exprAt p).IsNormal)
    {rest : List Char} (hr : ∀ c ∈ rest.head?, c.isDigit = false) :
    Scans p (d.chars ++ rest) (d.exprAt p).tokens (p + byteLength d.chars) rest := by
  induction d generalizing p rest with
  | number gap digits =>
    obtain ⟨digits', hd, ht⟩ := hn
    obtain rfl : digits = digits' := String.ofList_injective (Option.some.inj ht)
    have h := hd.scans hs p hr
    simpa only [chars, exprAt, Expr.tokens, List.append_assoc, byteLength_append,
      Nat.add_assoc] using h
  | binary left gap operator right ihl ihr =>
    obtain ⟨hsl, hg, hsr⟩ := hs
    obtain ⟨hl, hr', -⟩ := hn
    have hop := isSign_operator operator
    have hleft := ihl hsl hl (hop.isDigit_head?_eq_false hg (right.chars ++ rest))
    have hright := ihr hsr hr' hr
    have h := (hleft.trans (hop.scans hg _ _)).trans hright
    simpa only [chars, exprAt, Expr.tokens, List.append_assoc, byteLength_append,
      Nat.add_assoc, List.singleton_append] using h
  | group gap inner behind ih =>
    obtain ⟨hg, hsi, hb⟩ := hs
    have hinner := ih hsi hn (isSign_close.isDigit_head?_eq_false hb rest)
    have h := ((isSign_open.scans hg p _).trans hinner).trans (isSign_close.scans hb _ rest)
    simpa only [chars, exprAt, Expr.tokens, List.append_assoc, byteLength_append,
      Nat.add_assoc, List.singleton_append, List.cons_append, List.nil_append] using h

end Draft

/-- The print of a draft of the tree stands wherever its words do. -/
def Expr.IsPrinted (e : Expr) : Prop :=
  ∀ (cs : List Char) (p : Nat) (ts : List Token), IsClean cs → words p cs = e.tokens ++ ts →
    ∃ (d : Draft) (rest : List Char), d.IsSpaced ∧ d.exprAt p = e ∧ cs = d.chars ++ rest ∧
      IsClean rest ∧ words (p + byteLength d.chars) rest = ts

namespace Expr.IsPrinted

theorem number {token : Token} (hk : token.kind = .number) : (number token).IsPrinted := by
  intro cs p ts hc hw
  obtain ⟨gap, digits, rest, hg, -, rfl, rfl, hrest, hws⟩ := IsDigits.exists_front hc hw hk
  refine ⟨.number gap digits, rest, hg, rfl, ?_, hrest, ?_⟩
  · rw [Draft.chars, List.append_assoc]
  · rw [Draft.chars, byteLength_append, ← Nat.add_assoc]
    exact hws

theorem binary {left right : Expr} {operator : Token} (op : Operator) (hl : left.IsPrinted)
    (hk : operator.kind = op.kind) (hr : right.IsPrinted) :
    (binary left operator right).IsPrinted := by
  intro cs p ts hc hw
  have hop := isSign_operator op
  rw [tokens, List.append_assoc] at hw
  obtain ⟨l, behind, hls, rfl, rfl, hbehind, hw⟩ := hl cs p _ hc hw
  obtain ⟨gap, after, hg, rfl, rfl, hafter, hw⟩ := hop.exists_front hbehind hw hk
  obtain ⟨r, rest, hrs, rfl, rfl, hrest, hw⟩ := hr after _ _ hafter hw
  refine ⟨.binary l gap op r, rest, ⟨hls, hg, hrs⟩, rfl, ?_, hrest, ?_⟩
  · simp only [Draft.chars, List.append_assoc]
  · simpa only [Draft.chars, byteLength_append, Nat.add_assoc] using hw

theorem group {opening closing : Token} {inner : Expr} (ho : opening.kind = .openParen)
    (hi : inner.IsPrinted) (hcl : closing.kind = .closeParen) :
    (group opening inner closing).IsPrinted := by
  intro cs p ts hc hw
  simp only [tokens, List.cons_append, List.append_assoc, List.nil_append] at hw
  obtain ⟨gap, after, hg, rfl, rfl, hafter, hw⟩ := isSign_open.exists_front hc hw ho
  obtain ⟨d, last, hd, rfl, rfl, hlast, hw⟩ := hi after _ _ hafter hw
  obtain ⟨behind, rest, hb, rfl, rfl, hrest, hw⟩ := isSign_close.exists_front hlast hw hcl
  refine ⟨.group gap d behind, rest, ⟨hg, hd, hb⟩, rfl, ?_, hrest, ?_⟩
  · simp only [Draft.chars, List.append_assoc]
  · simpa only [Draft.chars, byteLength_append, Nat.add_assoc] using hw

end Expr.IsPrinted

theorem Derivation.isPrinted {level : Level} {e : Expr} (h : Derivation level e) :
    e.IsPrinted := by
  induction h with
  | number hk => exact Expr.IsPrinted.number hk
  | group ho _ hc ih => exact Expr.IsPrinted.group ho ih hc
  | primary _ ih => exact ih
  | product _ hk _ ihl ihr =>
    rcases hk with hk | hk
    · exact Expr.IsPrinted.binary .times ihl hk ihr
    · exact Expr.IsPrinted.binary .over ihl hk ihr
  | factor _ ih => exact ih
  | sum _ hk _ ihl ihr =>
    rcases hk with hk | hk
    · exact Expr.IsPrinted.binary .plus ihl hk ihr
    · exact Expr.IsPrinted.binary .minus ihl hk ihr

theorem isNumeral_of_mem_words {cs : List Char} (hc : IsClean cs) {p : Nat} {t : Token}
    (ht : t ∈ words p cs) (hk : t.kind = .number) : t.IsNumeral := by
  obtain ⟨l, hl, hw, q, rfl⟩ := exists_lexeme_of_mem_placed (List.mem_of_mem_filter ht)
  have hlk : l.kind = .number := hk
  refine ⟨l.chars, .ofLexeme hw (hc l hl) hlk, ?_⟩
  simp [Lexeme.token, hlk, Lexeme.text]

/-- Printing and reading are inverse. A line has no diagnostics and a given tree as its root
exactly if the tree needs no parentheses and the line is printed by a draft of it, blanks
before every token and behind the last one being free. -/
theorem Line.ofText_eq_iff_printed (text : String) (root : Expr) :
    ((ofText text).diagnostics = [] ∧ (ofText text).root = root) ↔
      root.IsNormal ∧ ∃ (d : Draft) (tail : List Char), d.IsSpaced ∧
        (∀ c ∈ tail, isBlank c = true) ∧ d.exprAt 0 = root ∧
        String.ofList (d.chars ++ tail) = text := by
  constructor
  · rintro ⟨h, rfl⟩
    rw [diagnostics, List.append_eq_nil_iff] at h
    have hc := (lexicalDiagnostics_eq_nil_iff text).1 h.1
    obtain ⟨hd, hw, -⟩ := derivation_of_syntactic_eq_nil h.2
    have hn := hd.isNormal fun t ht hk => isNumeral_of_mem_words hc (hw ▸ ht) hk
    obtain ⟨d, tail, hs, he, hcs, htail, hws⟩ :=
      hd.isPrinted text.toList 0 [] hc (by rw [hw, List.append_nil])
    refine ⟨hn.1, d, tail, hs, isBlank_of_words_eq_nil htail hws, he, ?_⟩
    rw [← hcs, String.ofList_toList]
  · rintro ⟨hn, d, tail, hs, htail, rfl, rfl⟩
    have hdigit : ∀ c ∈ tail.head?, c.isDigit = false := fun c hc =>
      isDigit_eq_false_of_isBlank (htail c (List.mem_of_mem_head? hc))
    have hb := Scans.ofBlanks htail (0 + byteLength d.chars) []
    rw [List.append_nil] at hb
    have h := (Draft.scans hs hn hdigit).trans hb
    have hw : words 0 (d.chars ++ tail) = (d.exprAt 0).tokens := by
      rw [h.words_eq, words_nil, List.append_nil, List.append_nil]
    have hl : lexicalDiagnostics (String.ofList (d.chars ++ tail)) = [] := by
      rw [lexicalDiagnostics_eq_nil_iff, String.toList_ofList]
      exact h.isClean_iff.2 isClean_nil
    rw [ofText_of_derivation (Draft.derivation hn trivial) (by rw [String.toList_ofList, hw])]
    exact ⟨by rw [diagnostics, hl, List.append_nil], rfl⟩

end Calculator
