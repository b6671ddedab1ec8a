import Calculator.Proofs.Lexemes

/-!
# The words of a line

The tokens of a text are those of its lexemes, each placed at the sum of the byte lengths
before it, with the end of input behind them. The words are the tokens that the grammar
looks at. Blanks in front of a word move it and do nothing else, however they are cut; the
marks of a line are what is left of its lexemes without the blanks.

`Scans` is a judgment about the front of a list of characters with the rest present, so
that fragments can be put together without splitting a run; `exists_front_of_words` is
its converse for the first word. A list of characters is clean if no token of it is
diagnosed, which `isClean_iff` says without mentioning lexemes.
-/
namespace Calculator

/-- Lexemes with the offsets at which they start, the first one at a given offset. -/
def placed (position : Nat) : List Lexeme → List (Nat × Lexeme)
  | [] => []
  | l :: ls => (position, l) :: placed (position + byteLength l.chars) ls

theorem map_snd_placed (position : Nat) (ls : List Lexeme) :
    (placed position ls).map Prod.snd = ls := by
  induction ls generalizing position with
  | nil => rfl
  | cons l ls ih => simp only [placed, List.map_cons, ih]

theorem mem_of_mem_placed {position : Nat} {ls : List Lexeme} {x : Nat × Lexeme}
    (h : x ∈ placed position ls) : x.2 ∈ ls :=
  map_snd_placed position ls ▸ List.mem_map_of_mem h

theorem isWhole_of_mem_placed {position : Nat} {cs : List Char} {x : Nat × Lexeme}
    (h : x ∈ placed position (lexemes cs)) : x.2.IsWhole :=
  (tiles_lexemes cs).isWhole x.2 (mem_of_mem_placed h)

theorem placed_append (position : Nat) (ls ms : List Lexeme) : placed position (ls ++ ms) =
    placed position ls ++ placed (position + byteLength (ls.flatMap Lexeme.chars)) ms := by
  induction ls generalizing position with
  | nil => rfl
  | cons l ls ih =>
    simp only [List.cons_append, placed, ih, List.flatMap_cons, byteLength_append, Nat.add_assoc]

/-- The steps of a cursor read one lexeme each, and the end of input at last. -/
theorem map_steps (cs : List Char) (position : Nat) :
    (Cursor.steps ⟨cs, position⟩).map (fun s => (s.token, s.diagnostic?)) =
      (placed position (lexemes cs)).map
          (fun x => (x.2.token x.1, x.2.diagnostic? x.1)) ++
        [(Token.endOfInput (position + byteLength cs), none)] := by
  induction cs using lexeme_induction generalizing position with
  | nil =>
    rw [Cursor.steps_of_nil rfl, Cursor.next_of_nil rfl, lexemes_nil]
    rfl
  | step l rest hl hr ih =>
    have hs := Lexeme.split?_append hl hr
    have hne : l.chars ++ rest ≠ [] := by simp [hl.ne_nil]
    rw [Cursor.steps_of_ne_nil hne, Cursor.next_of_split? hs, lexemes_of_split? hs,
      List.map_cons, ih, byteLength_append, Nat.add_assoc]
    rfl

theorem tokens_eq (text : String) : tokens text =
    (placed 0 (lexemes text.toList)).map (fun x => x.2.token x.1) ++
      [Token.endOfInput text.utf8ByteSize] := by
  have h := congrArg (List.map Prod.fst) (map_steps text.toList 0)
  rw [tokens, Cursor.ofText]
  simpa only [List.map_map, List.map_append, List.map_cons, List.map_nil, Function.comp_def,
    Nat.zero_add, byteLength_toList] using h

theorem lexicalDiagnostics_eq (text : String) : lexicalDiagnostics text =
    (placed 0 (lexemes text.toList)).filterMap fun x => x.2.diagnostic? x.1 := by
  have h := congrArg (List.filterMap Prod.snd) (map_steps text.toList 0)
  rw [lexicalDiagnostics, Cursor.ofText]
  simpa only [List.filterMap_map, List.filterMap_append, List.filterMap_cons,
    List.filterMap_nil, List.append_nil, Function.comp_def] using h

/-- Nothing is wrong with the lexeme. -/
def Lexeme.IsSound (l : Lexeme) : Prop :=
  l.kind ≠ .bad ∧ (l.kind = .number → l.magnitude ≤ largestNumber)

theorem Lexeme.diagnostic?_eq_none_iff {l : Lexeme} (h : l.IsWhole) (position : Nat) :
    l.diagnostic? position = none ↔ l.IsSound := by
  unfold diagnostic? IsSound
  split
  · next hk => simp [hk, h.ne_nil]
  · next hk => simp [hk, isTooLarge]
  · simp_all

/-- No token of the characters is diagnosed. -/
def IsClean (cs : List Char) : Prop := ∀ l ∈ lexemes cs, l.IsSound

theorem lexicalDiagnostics_eq_nil_iff (text : String) :
    lexicalDiagnostics text = [] ↔ IsClean text.toList := by
  rw [lexicalDiagnostics_eq, List.filterMap_eq_nil_iff, IsClean]
  constructor
  · intro h l hl
    rw [← map_snd_placed 0 (lexemes text.toList), List.mem_map] at hl
    obtain ⟨x, hx, rfl⟩ := hl
    exact (Lexeme.diagnostic?_eq_none_iff (isWhole_of_mem_placed hx) x.1).1 (h x hx)
  · intro h x hx
    exact (Lexeme.diagnostic?_eq_none_iff (isWhole_of_mem_placed hx) x.1).2
      (h x.2 (mem_of_mem_placed hx))

/-- A line is clean if it consists of digits, blanks and the six signs, and if no run of
digits denotes too large a number. -/
theorem isClean_iff (cs : List Char) : IsClean cs ↔
    (∀ c ∈ cs, c.isDigit = true ∨ isBlank c = true ∨ c ∈ ['+', '-', '*', '/', '(', ')']) ∧
      ∀ run, MaximalRun (fun c => c.isDigit = true) run cs →
        Nat.ofDigitChars 10 run 0 ≤ largestNumber := by
  have hgood : (∀ c ∈ cs, c.isDigit = true ∨ isBlank c = true ∨
      c ∈ ['+', '-', '*', '/', '(', ')']) ↔ ∀ c ∈ cs, Token.Kind.ofChar c ≠ .bad := by
    simp only [Token.Kind.ofChar_ne_bad_iff]
  rw [hgood]
  simp only [← Token.Kind.ofChar_eq_number_iff]
  have ht := tiles_lexemes cs
  constructor
  · intro h
    refine ⟨fun c hc hbad => ?_, fun run hrun => ?_⟩
    · rw [← ht.flatMap_chars, List.mem_flatMap] at hc
      obtain ⟨l, hl, hcl⟩ := hc
      exact (h l hl).1 (((ht.isWhole l hl).ofChar_eq c hcl).symm.trans hbad)
    · exact (h _ (mem_lexemes_of_maximalRun rfl hrun)).2 rfl
  · rintro ⟨hchars, hruns⟩ l hl
    refine ⟨fun hbad => ?_, fun hnum => ?_⟩
    · obtain ⟨c, hc⟩ := List.exists_mem_of_ne_nil _ (ht.isWhole l hl).ne_nil
      refine hchars c ?_ (((ht.isWhole l hl).ofChar_eq c hc).trans hbad)
      rw [← ht.flatMap_chars, List.mem_flatMap]
      exact ⟨l, hl, hc⟩
    · have hm := maximalRun_of_mem_lexemes hl (by rw [hnum]; rfl)
      rw [hnum] at hm
      exact hruns l.chars hm

theorem isClean_nil : IsClean [] := by
  simp [IsClean, lexemes_nil]

theorem isClean_append_iff {l : Lexeme} (h : l.IsWhole) {rest : List Char}
    (hr : ∀ c ∈ rest.head?, l.StopsAt c) : IsClean (l.chars ++ rest) ↔ l.IsSound ∧ IsClean rest := by
  simp [IsClean, lexemes_append_of_isWhole h hr]

/-- The meaningful tokens of characters that start at an offset. -/
def words (position : Nat) (cs : List Char) : List Token :=
  ((placed position (lexemes cs)).map fun x => x.2.token x.1).filter Token.isMeaningful

theorem ahead_ofText (text : String) : (Reader.ofText text).ahead =
    words 0 text.toList ++ [Token.endOfInput text.utf8ByteSize] := by
  rw [Reader.ofText, tokens_eq, List.filter_append]
  rfl

theorem words_nil (position : Nat) : words position [] = [] := by
  rw [words, lexemes_nil]
  rfl

theorem words_append {l : Lexeme} (h : l.IsWhole) {rest : List Char}
    (hr : ∀ c ∈ rest.head?, l.StopsAt c) (position : Nat) : words position (l.chars ++ rest) =
      [l.token position].filter Token.isMeaningful ++
        words (position + byteLength l.chars) rest := by
  rw [words, lexemes_append_of_isWhole h hr, placed, List.map_cons, ← List.singleton_append,
    List.filter_append, words]

theorem isMeaningful_token (l : Lexeme) (position : Nat) :
    (l.token position).isMeaningful = true ↔ l.kind ≠ .whitespace ∧ l.kind ≠ .bad := by
  rw [Token.isMeaningful, Bool.and_eq_true, decide_eq_true_iff, decide_eq_true_iff]
  rfl

/-- The lexemes of characters that are not blank, with the offsets at which they start. -/
def marks (position : Nat) (cs : List Char) : List (Nat × Lexeme) :=
  (placed position (lexemes cs)).filter fun x => x.2.kind ≠ .whitespace

theorem marks_append {l : Lexeme} (h : l.IsWhole) {rest : List Char}
    (hr : ∀ c ∈ rest.head?, l.StopsAt c) (position : Nat) : marks position (l.chars ++ rest) =
      [(position, l)].filter (fun x => x.2.kind ≠ .whitespace) ++
        marks (position + byteLength l.chars) rest := by
  rw [marks, lexemes_append_of_isWhole h hr, placed, ← List.singleton_append,
    List.filter_append, marks]

/-- A run of blanks only moves the marks behind it. -/
theorem marks_takeWhile_isBlank (position : Nat) (cs : List Char) : marks position cs =
    marks (position + byteLength (cs.takeWhile isBlank)) (cs.dropWhile isBlank) := by
  by_cases hne : cs.takeWhile isBlank = []
  · have hcs := List.takeWhile_append_dropWhile (p := isBlank) (l := cs)
    rw [hne, List.nil_append] at hcs
    rw [hne, hcs, byteLength_nil, Nat.add_zero]
  · have h : Lexeme.IsWhole ⟨.whitespace, cs.takeWhile isBlank⟩ := by
      refine ⟨hne, fun c hc => ?_, by simp [Token.Kind.runs]⟩
      exact Token.Kind.ofChar_eq_whitespace_iff.2 (List.all_eq_true.1 List.all_takeWhile c hc)
    have hstop : ∀ c ∈ (cs.dropWhile isBlank).head?,
        Lexeme.StopsAt ⟨.whitespace, cs.takeWhile isBlank⟩ c := by
      intro c hc hk
      have hn := List.head?_dropWhile_not isBlank cs
      rw [Option.mem_def.1 hc] at hn
      simp [Token.Kind.ofChar_eq_whitespace_iff.1 hk] at hn
    have hm := marks_append h hstop position
    rwa [List.takeWhile_append_dropWhile] at hm

/-- Blanks move the marks behind them, also where a run of blanks is cut. -/
theorem marks_blanks {gap : List Char} (hg : ∀ c ∈ gap, isBlank c = true) (position : Nat)
    (rest : List Char) :
    marks position (gap ++ rest) = marks (position + byteLength gap) rest := by
  rw [marks_takeWhile_isBlank position, marks_takeWhile_isBlank (position + byteLength gap),
    List.takeWhile_append_of_pos hg, List.dropWhile_append_of_pos hg, byteLength_append,
    Nat.add_assoc]

/-- No word comes from blanks. -/
theorem filter_isMeaningful_map_token (xs : List (Nat × Lexeme)) :
    ((xs.filter fun x => x.2.kind ≠ .whitespace).map fun x => x.2.token x.1).filter
      Token.isMeaningful = (xs.map fun x => x.2.token x.1).filter Token.isMeaningful := by
  rw [List.filter_map, List.filter_map, List.filter_filter]
  congr 1
  apply List.filter_congr
  intro x _
  have hm := isMeaningful_token x.2 x.1
  by_cases hk : x.2.kind = .whitespace <;> simp_all

theorem words_eq_marks (position : Nat) (cs : List Char) : words position cs =
    ((marks position cs).map fun x => x.2.token x.1).filter Token.isMeaningful := by
  rw [words, marks, filter_isMeaningful_map_token]

theorem lexicalDiagnostics_eq_marks (text : String) : lexicalDiagnostics text =
    (marks 0 text.toList).filterMap fun x => x.2.diagnostic? x.1 := by
  rw [lexicalDiagnostics_eq, marks, List.filterMap_filter]
  apply List.filterMap_congr
  intro x _
  by_cases hk : x.2.kind = .whitespace <;> simp [hk, Lexeme.diagnostic?]

/-- Blanks are always sound. -/
theorem isClean_iff_marks (position : Nat) {cs : List Char} :
    IsClean cs ↔ ∀ x ∈ marks position cs, x.2.IsSound := by
  rw [IsClean, ← map_snd_placed position (lexemes cs), List.forall_mem_map]
  simp only [marks, List.mem_filter, and_imp]
  refine forall₂_congr fun x _ => ⟨fun h _ => h, fun h => ?_⟩
  by_cases hk : x.2.kind = .whitespace
  · exact ⟨by simp [hk], by simp [hk]⟩
  · exact h (decide_eq_true hk)

/-- The front of the characters yields words and no diagnostic, and leaves a rest behind. -/
structure Scans (position : Nat) (cs : List Char) (ws : List Token) (behind : Nat)
    (rest : List Char) : Prop where
  words_eq : words position cs = ws ++ words behind rest
  isClean_iff : IsClean cs ↔ IsClean rest

namespace Scans

variable {p q r : Nat} {cs ds es : List Char} {ts us : List Token}

theorem trans (h : Scans p cs ts q ds) (h' : Scans q ds us r es) :
    Scans p cs (ts ++ us) r es := by
  refine ⟨?_, h.isClean_iff.trans h'.isClean_iff⟩
  rw [h.words_eq, h'.words_eq, List.append_assoc]

theorem ofLexeme {l : Lexeme} (h : l.IsWhole) (hs : l.IsSound) (hk : l.kind ≠ .whitespace)
    {rest : List Char} (hr : ∀ c ∈ rest.head?, l.StopsAt c) :
    Scans p (l.chars ++ rest) [l.token p] (p + byteLength l.chars) rest := by
  refine ⟨?_, ?_⟩
  · rw [words_append h hr, List.filter_cons_of_pos ((isMeaningful_token l p).2 ⟨hk, hs.1⟩)]
    rfl
  · rw [isClean_append_iff h hr, and_iff_right hs]

/-- Blanks may be cut anywhere, because no word comes from them. -/
theorem ofBlanks {gap : List Char} (hg : ∀ c ∈ gap, isBlank c = true) (p : Nat)
    (rest : List Char) : Scans p (gap ++ rest) [] (p + byteLength gap) rest := by
  constructor
  · rw [words_eq_marks, words_eq_marks, marks_blanks hg, List.nil_append]
  · rw [isClean_iff_marks p, isClean_iff_marks (p + byteLength gap), marks_blanks hg]

end Scans

/-- The first word of clean characters stands behind blanks. -/
theorem exists_front_of_words {cs : List Char} (hc : IsClean cs) {p : Nat} {t : Token}
    {ts : List Token} (h : words p cs = t :: ts) :
    ∃ (gap : List Char) (l : Lexeme) (rest : List Char),
      (∀ c ∈ gap, isBlank c = true) ∧ l.IsWhole ∧ l.IsSound ∧ l.kind ≠ .whitespace ∧
      cs = gap ++ (l.chars ++ rest) ∧ t = l.token (p + byteLength gap) ∧
      IsClean rest ∧ words (p + byteLength gap + byteLength l.chars) rest = ts := by
  induction cs using lexeme_induction generalizing p with
  | nil => simp [words_nil] at h
  | step l rest hl hr ih =>
    obtain ⟨hsound, hrest⟩ := (isClean_append_iff hl hr).1 hc
    rw [words_append hl hr] at h
    by_cases hk : l.kind = .whitespace
    · have hm : ¬ (l.token p).isMeaningful = true := by simp [isMeaningful_token, hk]
      rw [List.filter_cons_of_neg hm] at h
      obtain ⟨gap, m, rest', hgap, hm, hms, hmk, rfl, rfl, hrest', hws⟩ := ih hrest h
      refine ⟨l.chars ++ gap, m, rest', ?_, hm, hms, hmk, ?_, ?_, hrest', ?_⟩
      · intro c hc
        rcases List.mem_append.1 hc with hc | hc
        · exact Token.Kind.ofChar_eq_whitespace_iff.1 ((hl.ofChar_eq c hc).trans hk)
        · exact hgap c hc
      · rw [List.append_assoc]
      · rw [byteLength_append, ← Nat.add_assoc]
      · rw [byteLength_append, ← Nat.add_assoc, hws]
    · have hm : (l.token p).isMeaningful = true := (isMeaningful_token l p).2 ⟨hk, hsound.1⟩
      rw [List.filter_cons_of_pos hm, List.filter_nil, List.singleton_append,
        List.cons.injEq] at h
      exact ⟨[], l, rest, by simp, hl, hsound, hk, rfl, h.1.symm, hrest, h.2⟩

theorem isBlank_of_words_eq_nil {cs : List Char} (hc : IsClean cs) {p : Nat}
    (h : words p cs = []) : ∀ c ∈ cs, isBlank c = true := by
  induction cs using lexeme_induction generalizing p with
  | nil => simp
  | step l rest hl hr ih =>
    obtain ⟨hsound, hrest⟩ := (isClean_append_iff hl hr).1 hc
    rw [words_append hl hr, List.append_eq_nil_iff] at h
    have hk : l.kind = .whitespace := by
      by_contra hk
      have hm := (isMeaningful_token l p).2 ⟨hk, hsound.1⟩
      simp [hm] at h
    intro c hc
    rcases List.mem_append.1 hc with hc | hc
    · exact Token.Kind.ofChar_eq_whitespace_iff.1 ((hl.ofChar_eq c hc).trans hk)
    · exact ih hrest h.2 c hc

end Calculator
