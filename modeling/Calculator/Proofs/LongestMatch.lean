import Calculator.Proofs.Words

/-!
# Longest match

Which token a stretch of a line becomes is said here by the characters of the stretch and
by its two neighbours, and not by how a line is cut: digits and blanks have to stand
between other characters, a sign is a token wherever it stands, and every character that is
none of these is a bad one. `ReadsAs` is this rule, with the diagnostic that belongs to it.

The main statement compares the tokens of a text with the rule in both directions. The
tokens cover the text from its start to its end without a gap, each of them by the rule;
and wherever the rule finds a token in a text, the text has this token. Since the tokens
stand at increasing offsets, they are determined by this, and so are the diagnostics.
-/
namespace Calculator

/-- A stretch of characters that share a property with the character on neither side. -/
structure IsRun (p : Char → Prop) (before run after : List Char) : Prop where
  ne_nil : run ≠ []
  all : ∀ c ∈ run, p c
  before : ∀ c ∈ before.getLast?, ¬ p c
  after : ∀ c ∈ after.head?, ¬ p c

/-- The characters that are tokens by themselves. -/
def signs : List (Char × Token.Kind) :=
  [('+', .plus), ('-', .minus), ('*', .star), ('/', .slash), ('(', .openParen),
   (')', .closeParen)]

/-- The token that a stretch of characters is, with the characters before and after it, and
what there is to report about it. -/
inductive ReadsAs (before chars after : List Char) : Token → Option Diagnostic → Prop
  | number {v : Int32} : IsRun (fun c => c.isDigit = true) before chars after →
      v.toInt = Nat.ofDigitChars 10 chars 0 →
      ReadsAs before chars after
        ⟨.number, byteLength before, some (String.ofList chars), some v, false⟩ none
  | tooLarge : IsRun (fun c => c.isDigit = true) before chars after →
      2147483647 < Nat.ofDigitChars 10 chars 0 →
      ReadsAs before chars after
        ⟨.number, byteLength before, some (String.ofList chars), some 0, false⟩
        (some ⟨.invalidInteger (String.ofList chars), byteLength before⟩)
  | blanks : IsRun (fun c => isBlank c = true) before chars after →
      ReadsAs before chars after ⟨.whitespace, byteLength before, none, none, false⟩ none
  | sign {c : Char} {k : Token.Kind} : chars = [c] → (c, k) ∈ signs →
      ReadsAs before chars after
        ⟨k, byteLength before, some (String.ofList chars), none, false⟩ none
  | bad {c : Char} : chars = [c] → c.isDigit = false → isBlank c = false →
      (∀ k, (c, k) ∉ signs) →
      ReadsAs before chars after
        ⟨.bad, byteLength before, some (String.ofList chars), none, false⟩
        (some ⟨.badCharacter c, byteLength before⟩)

namespace Token.Kind

/-- A character that neither belongs to a run nor is bad is a sign. -/
theorem mem_signs {c : Char} (hr : (ofChar c).runs = false) (hb : ofChar c ≠ .bad) :
    (c, ofChar c) ∈ signs := by
  rw [← Bool.not_eq_true, runs_iff, ofChar_eq_number_iff, ofChar_eq_whitespace_iff, not_or] at hr
  rcases ofChar_ne_bad_iff.1 hb with h | h | h
  · exact absurd h hr.1
  · exact absurd h hr.2
  · simp only [List.mem_cons, List.not_mem_nil, or_false] at h
    rcases h with rfl | rfl | rfl | rfl | rfl | rfl <;> decide

theorem ofChar_of_mem_signs {c : Char} {k : Token.Kind} (h : (c, k) ∈ signs) : ofChar c = k := by
  simp only [signs, List.mem_cons, List.not_mem_nil, or_false, Prod.mk.injEq] at h
  rcases h with ⟨rfl, rfl⟩ | ⟨rfl, rfl⟩ | ⟨rfl, rfl⟩ | ⟨rfl, rfl⟩ | ⟨rfl, rfl⟩ | ⟨rfl, rfl⟩
  all_goals decide

/-- The kinds of signs are those of neither runs nor bad characters. -/
theorem runs_of_mem_signs {c : Char} {k : Token.Kind} (h : (c, k) ∈ signs) :
    k.runs = false ∧ k ≠ .bad := by
  simp only [signs, List.mem_cons, List.not_mem_nil, or_false, Prod.mk.injEq] at h
  rcases h with ⟨-, rfl⟩ | ⟨-, rfl⟩ | ⟨-, rfl⟩ | ⟨-, rfl⟩ | ⟨-, rfl⟩ | ⟨-, rfl⟩ <;> decide

theorem ofChar_eq_bad_iff {c : Char} : ofChar c = .bad ↔
    c.isDigit = false ∧ isBlank c = false ∧ ∀ k, (c, k) ∉ signs := by
  constructor
  · intro h
    refine ⟨?_, ?_, fun k hk => ?_⟩
    · rw [← Bool.not_eq_true, ← ofChar_eq_number_iff, h]
      decide
    · rw [← Bool.not_eq_true, ← ofChar_eq_whitespace_iff, h]
      decide
    · exact (runs_of_mem_signs hk).2 ((ofChar_of_mem_signs hk).symm.trans h)
  · rintro ⟨hd, hb, hs⟩
    by_contra hbad
    refine hs _ (mem_signs ?_ hbad)
    rw [← Bool.not_eq_true, runs_iff, ofChar_eq_number_iff, ofChar_eq_whitespace_iff, hd, hb]
    decide

end Token.Kind

namespace Lexeme

variable {before after : List Char} {l : Lexeme}

/-- A stretch is a run if and only if it stands between other characters as a lexeme of a
kind that runs. -/
theorem isRun_iff {p : Char → Prop} (hruns : l.kind.runs = true)
    (hp : ∀ c, p c ↔ Token.Kind.ofChar c = l.kind) :
    IsRun p before l.chars after ↔ l.StandsBetween before after := by
  have hstop : ∀ c, l.StopsAt c ↔ ¬ p c := fun c => by
    rw [StopsAt, hruns, hp c]
    simp
  constructor
  · rintro ⟨hne, hall, hb, ha⟩
    refine ⟨⟨hne, fun c hc => (hp c).1 (hall c hc), fun h => by simp [hruns] at h⟩, ?_, ?_⟩
    · exact fun c hc => (hstop c).2 (hb c hc)
    · exact fun c hc => (hstop c).2 (ha c hc)
  · rintro ⟨hw, hb, ha⟩
    refine ⟨hw.ne_nil, fun c hc => (hp c).2 (hw.ofChar_eq c hc), ?_, ?_⟩
    · exact fun c hc => (hstop c).1 (hb c hc)
    · exact fun c hc => (hstop c).1 (ha c hc)

theorem isRun_digits_iff {chars : List Char} :
    IsRun (fun c => c.isDigit = true) before chars after ↔
      StandsBetween ⟨.number, chars⟩ before after :=
  isRun_iff (l := ⟨.number, chars⟩) rfl fun _ => Token.Kind.ofChar_eq_number_iff.symm

theorem isRun_blanks_iff {chars : List Char} :
    IsRun (fun c => isBlank c = true) before chars after ↔
      StandsBetween ⟨.whitespace, chars⟩ before after :=
  isRun_iff (l := ⟨.whitespace, chars⟩) rfl fun _ => Token.Kind.ofChar_eq_whitespace_iff.symm

/-- A character of a kind that does not run is a lexeme wherever it stands. -/
theorem standsBetween_single {c : Char} {k : Token.Kind} (hc : Token.Kind.ofChar c = k)
    (hk : k.runs = false) : StandsBetween ⟨k, [c]⟩ before after :=
  ⟨⟨by simp, by simpa using hc, by simp⟩, fun _ _ _ => hk, fun _ _ _ => hk⟩

theorem IsWhole.exists_single (h : l.IsWhole) (hruns : l.kind.runs = false) :
    ∃ c, l = ⟨Token.Kind.ofChar c, [c]⟩ := by
  obtain ⟨k, chars⟩ := l
  obtain ⟨c, rfl⟩ := List.length_eq_one_iff.1 (h.length_eq_one hruns)
  exact ⟨c, by rw [h.ofChar_eq c (by simp)]⟩

/-- The value of digits that do not denote too large a number. -/
theorem toInt_value (h : l.isTooLarge = false) : l.value.toInt = l.magnitude := by
  have hle : l.magnitude ≤ 2147483647 := Nat.le_of_not_lt (of_decide_eq_false h)
  rw [value, h, if_neg Bool.false_ne_true]
  exact Int32.toInt_ofNat_of_lt (by omega)

theorem isTooLarge_eq_false_of_toInt {v : Int32} (h : v.toInt = l.magnitude) :
    l.isTooLarge = false := by
  have hlt := v.toInt_lt
  rw [isTooLarge, largestNumber, decide_eq_false_iff_not]
  omega

theorem token_of_runs_eq_false (h : l.kind.runs = false) (position : Nat) :
    l.token position = ⟨l.kind, position, some l.text, none, false⟩ := by
  have hw : l.kind ≠ .whitespace := fun hk => by simp [hk, Token.Kind.runs] at h
  have hn : l.kind ≠ .number := fun hk => by simp [hk, Token.Kind.runs] at h
  simp [token, hw, hn]

theorem diagnostic?_of_sign (h : l.kind.runs = false) (hb : l.kind ≠ .bad) (position : Nat) :
    l.diagnostic? position = none := by
  cases hk : l.kind <;> simp_all [diagnostic?, Token.Kind.runs]

/-- A lexeme that stands between other characters is read as its token. -/
theorem StandsBetween.readsAs (h : l.StandsBetween before after) : ReadsAs before l.chars after
    (l.token (byteLength before)) (l.diagnostic? (byteLength before)) := by
  obtain ⟨k, chars⟩ := l
  by_cases hruns : k.runs = true
  · rcases Token.Kind.runs_iff.1 hruns with rfl | rfl
    · have hrun := isRun_digits_iff.2 h
      cases hl : isTooLarge ⟨.number, chars⟩ with
      | false => simpa [token, diagnostic?, text, hl] using ReadsAs.number hrun (toInt_value hl)
      | true =>
        have hr := ReadsAs.tooLarge hrun (of_decide_eq_true hl)
        simpa [token, diagnostic?, text, value, hl] using hr
    · exact .blanks (isRun_blanks_iff.2 h)
  · rw [Bool.not_eq_true] at hruns
    obtain ⟨c, hc⟩ := h.isWhole.exists_single hruns
    obtain ⟨rfl, rfl⟩ := Lexeme.mk.inj hc
    rw [token_of_runs_eq_false hruns]
    by_cases hk : Token.Kind.ofChar c = .bad
    · obtain ⟨hd, hbl, hs⟩ := Token.Kind.ofChar_eq_bad_iff.1 hk
      simpa [diagnostic?, text, hk] using ReadsAs.bad rfl hd hbl hs
    · rw [diagnostic?_of_sign hruns hk]
      exact .sign rfl (Token.Kind.mem_signs hruns hk)

/-- What is read as a token is a lexeme that stands between other characters. -/
theorem exists_of_readsAs {chars : List Char} {t : Token} {d? : Option Diagnostic}
    (h : ReadsAs before chars after t d?) : ∃ l : Lexeme, l.chars = chars ∧
      l.StandsBetween before after ∧ l.token (byteLength before) = t ∧
      l.diagnostic? (byteLength before) = d? := by
  cases h with
  | @number v hrun hv =>
    have hl := isTooLarge_eq_false_of_toInt (l := ⟨.number, chars⟩) hv
    have hval : Lexeme.value ⟨.number, chars⟩ = v :=
      Int32.toInt_inj.1 ((toInt_value hl).trans hv.symm)
    exact ⟨⟨.number, chars⟩, rfl, isRun_digits_iff.1 hrun, by simp [token, text, hval],
      by simp [diagnostic?, hl]⟩
  | tooLarge hrun hv =>
    have hl : isTooLarge ⟨.number, chars⟩ = true := decide_eq_true hv
    exact ⟨⟨.number, chars⟩, rfl, isRun_digits_iff.1 hrun, by simp [token, text, value, hl],
      by simp [diagnostic?, text, hl]⟩
  | blanks hrun => exact ⟨⟨.whitespace, chars⟩, rfl, isRun_blanks_iff.1 hrun, rfl, rfl⟩
  | @sign c k hc hs =>
    subst hc
    obtain ⟨hruns, hbad⟩ := Token.Kind.runs_of_mem_signs hs
    exact ⟨⟨k, [c]⟩, rfl, standsBetween_single (Token.Kind.ofChar_of_mem_signs hs) hruns,
      token_of_runs_eq_false hruns _, diagnostic?_of_sign hruns hbad _⟩
  | @bad c hc hd hb hs =>
    subst hc
    exact ⟨⟨.bad, [c]⟩, rfl,
      standsBetween_single (Token.Kind.ofChar_eq_bad_iff.2 ⟨hd, hb, hs⟩) rfl, rfl, rfl⟩

theorem diagnostic?_position {position : Nat} {d : Diagnostic}
    (h : l.diagnostic? position = some d) : d.position = position := by
  unfold diagnostic? at h
  split at h
  · obtain ⟨c, -, rfl⟩ := Option.map_eq_some_iff.1 h
    rfl
  · split at h <;> cases h
    rfl
  · cases h

end Lexeme

/-- Placed lexemes do not overlap, and none goes beyond their end. -/
theorem placed_separated (position : Nat) (ls : List Lexeme) :
    (placed position ls).Pairwise (fun x y => x.1 + byteLength x.2.chars ≤ y.1) ∧
      ∀ x ∈ placed position ls, position ≤ x.1 ∧
        x.1 + byteLength x.2.chars ≤ position + byteLength (ls.flatMap Lexeme.chars) := by
  induction ls generalizing position with
  | nil => simp [placed]
  | cons l ls ih =>
    obtain ⟨hp, hb⟩ := ih (position + byteLength l.chars)
    simp only [placed, List.pairwise_cons, List.flatMap_cons, byteLength_append, List.mem_cons]
    refine ⟨⟨fun x hx => (hb x hx).1, hp⟩, ?_⟩
    rintro x (rfl | hx)
    · simp only
      omega
    · have := hb x hx
      omega

/-- A placed lexeme stands behind the lexemes that are placed before it. -/
theorem eq_of_placed_eq {position : Nat} {ls : List Lexeme} {xs ys : List (Nat × Lexeme)}
    {x : Nat × Lexeme} (h : placed position ls = xs ++ x :: ys) :
    ls = xs.map Prod.snd ++ x.2 :: ys.map Prod.snd ∧
      x.1 = position + byteLength ((xs.map Prod.snd).flatMap Lexeme.chars) := by
  induction xs generalizing position ls with
  | nil =>
    cases ls with
    | nil => cases h
    | cons l ls =>
      rw [placed, List.nil_append, List.cons.injEq] at h
      obtain ⟨rfl, rfl⟩ := h
      simp [map_snd_placed, byteLength_nil]
  | cons y xs ih =>
    cases ls with
    | nil => cases h
    | cons l ls =>
      rw [placed, List.cons_append, List.cons.injEq] at h
      obtain ⟨rfl, h⟩ := h
      obtain ⟨hls, hx⟩ := ih h
      refine ⟨by simp [← hls], ?_⟩
      rw [hx, List.map_cons, List.flatMap_cons, byteLength_append, Nat.add_assoc]

/-- A stretch of a text, with the token and the diagnostic that come from it. -/
structure Piece where
  chars : List Char
  token : Token
  diagnostic? : Option Diagnostic

def pieces (text : String) : List Piece :=
  (placed 0 (lexemes text.toList)).map fun x =>
    ⟨x.2.chars, x.2.token x.1, x.2.diagnostic? x.1⟩

theorem flatMap_chars_pieces (text : String) :
    (pieces text).flatMap Piece.chars = text.toList := by
  have h := List.flatMap_map Prod.snd Lexeme.chars (placed 0 (lexemes text.toList))
  rw [map_snd_placed, flatMap_chars_lexemes] at h
  rw [pieces, List.flatMap_map]
  exact h.symm

theorem tokens_eq_pieces (text : String) : tokens text =
    (pieces text).map Piece.token ++ [Token.endOfInput text.utf8ByteSize] := by
  rw [tokens_eq, pieces, List.map_map]
  rfl

theorem lexicalDiagnostics_eq_pieces (text : String) :
    lexicalDiagnostics text = (pieces text).filterMap Piece.diagnostic? := by
  rw [lexicalDiagnostics_eq, pieces, List.filterMap_map]
  rfl

/-- Every piece of a text is read by the characters around it. -/
theorem readsAs_of_pieces_eq {text : String} {front back : List Piece} {p : Piece}
    (h : pieces text = front ++ p :: back) : ReadsAs (front.flatMap Piece.chars) p.chars
      (back.flatMap Piece.chars) p.token p.diagnostic? := by
  rw [pieces, List.map_eq_append_iff] at h
  obtain ⟨xs, ys, hxy, rfl, hys⟩ := h
  obtain ⟨x, zs, rfl, rfl, rfl⟩ := List.map_eq_cons_iff.1 hys
  obtain ⟨hls, hx⟩ := eq_of_placed_eq hxy
  rw [Nat.zero_add] at hx
  have hbetween := standsBetween_of_lexemes_eq hls
  simp only [List.flatMap_map, hx] at hbetween ⊢
  exact hbetween.readsAs

/-- What is read in a text by the characters around it is a piece of the text. -/
theorem mem_pieces_of_readsAs {text : String} {before chars after : List Char} {t : Token}
    {d? : Option Diagnostic} (htext : before ++ (chars ++ after) = text.toList)
    (h : ReadsAs before chars after t d?) : ⟨chars, t, d?⟩ ∈ pieces text := by
  obtain ⟨l, rfl, hl, rfl, rfl⟩ := Lexeme.exists_of_readsAs h
  rw [pieces, ← htext, hl.lexemes_eq, placed_append, placed, flatMap_chars_lexemes,
    Nat.zero_add]
  simp

/-- Lexemes are not empty, so that they stand at increasing offsets, all before their end. -/
theorem placed_lexemes_increases (position : Nat) (cs : List Char) :
    (placed position (lexemes cs)).Pairwise (fun x y => x.1 < y.1) ∧
      ∀ x ∈ placed position (lexemes cs), position ≤ x.1 ∧ x.1 < position + byteLength cs := by
  have hpos : ∀ x ∈ placed position (lexemes cs), 0 < byteLength x.2.chars := fun x hx =>
    byteLength_pos (isWhole_of_mem_placed hx).ne_nil
  obtain ⟨hp, hb⟩ := placed_separated position (lexemes cs)
  rw [flatMap_chars_lexemes] at hb
  constructor
  · refine hp.imp_of_mem fun {x y} hx _ hxy => ?_
    have := hpos x hx
    omega
  · intro x hx
    have := hpos x hx
    have := hb x hx
    omega

/-- A relation holds of the tokens of a text, in their order, if it holds of a token and
whatever stands behind the end of its lexeme. -/
theorem tokens_pairwise {R : Token → Token → Prop}
    (h : ∀ (l : Lexeme) (q : Nat) (u : Token), l.IsWhole →
      q + byteLength l.chars ≤ u.position → R (l.token q) u) (text : String) :
    (tokens text).Pairwise R := by
  obtain ⟨hp, hb⟩ := placed_separated 0 (lexemes text.toList)
  rw [flatMap_chars_lexemes, byteLength_toList, Nat.zero_add] at hb
  rw [tokens_eq, List.pairwise_append, List.pairwise_map]
  refine ⟨?_, List.pairwise_singleton _ _, fun t ht u hu => ?_⟩
  · exact hp.imp_of_mem fun {x y} hx _ hxy => h x.2 x.1 _ (isWhole_of_mem_placed hx) hxy
  · obtain ⟨x, hx, rfl⟩ := List.mem_map.1 ht
    rw [List.mem_singleton.1 hu]
    exact h x.2 x.1 _ (isWhole_of_mem_placed hx) (hb x hx).2

theorem tokens_pairwise_position (text : String) :
    (tokens text).Pairwise fun t u => t.position < u.position := by
  refine tokens_pairwise (fun l q u hl hq => ?_) text
  have hpos := byteLength_pos hl.ne_nil
  have hp : (l.token q).position = q := rfl
  omega

theorem lexicalDiagnostics_pairwise_position (text : String) :
    (lexicalDiagnostics text).Pairwise fun d e => d.position < e.position := by
  rw [lexicalDiagnostics_eq, List.pairwise_filterMap]
  refine (placed_lexemes_increases 0 text.toList).1.imp fun {x y} hxy d hd e he => ?_
  rw [Lexeme.diagnostic?_position hd, Lexeme.diagnostic?_position he]
  exact hxy

/-- The tokens of a text cover it without a gap, and each of them is the longest stretch of
its kind; wherever a stretch is the longest of its kind, it is a token. The end of input is
the last token, all tokens stand at increasing offsets, and the diagnostics are those of the
bad characters and of the numbers that are too large, in the order of their offsets. -/
theorem tokens_longest_match (text : String) :
    (∃ ps : List Piece, ps.flatMap Piece.chars = text.toList ∧
      tokens text = ps.map Piece.token ++ [Token.endOfInput text.utf8ByteSize] ∧
      lexicalDiagnostics text = ps.filterMap Piece.diagnostic? ∧
      ∀ front p back, ps = front ++ p :: back → ReadsAs (front.flatMap Piece.chars) p.chars
        (back.flatMap Piece.chars) p.token p.diagnostic?) ∧
    (∀ before chars after t d?, before ++ (chars ++ after) = text.toList →
      ReadsAs before chars after t d? →
      t ∈ tokens text ∧ ∀ d, d? = some d → d ∈ lexicalDiagnostics text) ∧
    (tokens text).Pairwise (fun t u => t.position < u.position) ∧
    (lexicalDiagnostics text).Pairwise (fun d e => d.position < e.position) := by
  refine ⟨⟨pieces text, flatMap_chars_pieces text, tokens_eq_pieces text,
    lexicalDiagnostics_eq_pieces text, fun front p back h => readsAs_of_pieces_eq h⟩, ?_,
    tokens_pairwise_position text, lexicalDiagnostics_pairwise_position text⟩
  intro before chars after t d? htext h
  have hm := mem_pieces_of_readsAs htext h
  rw [tokens_eq_pieces, lexicalDiagnostics_eq_pieces]
  refine ⟨List.mem_append_left _ (List.mem_map_of_mem hm), fun d hd => ?_⟩
  exact List.mem_filterMap.2 ⟨_, hm, hd⟩

end Calculator
