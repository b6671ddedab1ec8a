import Calculator.Proofs.Marks
import Calculator.Proofs.Messages
import Calculator.Proofs.Nodes

/-!
# Restoring a text

How much of a text is kept by reading it. Which blanks a text has is forgotten: with spaces
in their place, as many as they have bytes, it is read alike in every field. Nothing else is
forgotten if the text is read to its end. Every lexeme that is not blank is then kept, either
as a token of the tree or as a bad character that is reported, together with its offset; and
`drawn` draws the text with spaces again from these and from its number of bytes.

Diagnostics are compared by their messages and positions. It does not matter how many of them
there are, or whether the text has a value. Where tokens are left over, the text behind the
first of them is lost, apart from what is reported of it.
-/
namespace Calculator

/-- A blank as spaces, and any other character as it is. -/
def spaced (c : Char) : List Char :=
  if isBlank c then List.replicate c.utf8Size ' ' else [c]

/-- A text with as many spaces in the place of each blank as the blank has bytes. -/
def withSpaces (text : String) : String :=
  String.ofList (text.toList.flatMap spaced)

theorem flatMap_spaced_of_isBlank {cs : List Char} (h : ∀ c ∈ cs, isBlank c = true) :
    cs.flatMap spaced = List.replicate (byteLength cs) ' ' := by
  induction cs with
  | nil => rfl
  | cons c cs ih =>
    rw [List.forall_mem_cons] at h
    rw [List.flatMap_cons, ih h.2, spaced, if_pos h.1, List.replicate_append_replicate,
      byteLength_cons]

theorem flatMap_spaced_of_not_isBlank {cs : List Char} (h : ∀ c ∈ cs, ¬ isBlank c = true) :
    cs.flatMap spaced = cs := by
  induction cs with
  | nil => rfl
  | cons c cs ih =>
    rw [List.forall_mem_cons] at h
    rw [List.flatMap_cons, ih h.2, spaced, if_neg h.1, List.singleton_append]

namespace Lexeme

/-- A lexeme with spaces for blanks. -/
def respaced (l : Lexeme) : Lexeme := if l.kind = .whitespace then l.spaces else l

variable {l : Lexeme}

theorem respaced_of_ne (h : l.kind ≠ .whitespace) : l.respaced = l := if_neg h

theorem respaced_kind (l : Lexeme) : l.respaced.kind = l.kind := by
  unfold respaced
  split
  · next h => exact h.symm
  · rfl

theorem IsWhole.respaced_overwrites (h : l.IsWhole) : l.respaced.Overwrites l := by
  unfold respaced
  split
  · exact h.spaces_overwrites
  · exact h.overwrites

theorem IsWhole.isBlank_iff (h : l.IsWhole) {c : Char} (hc : c ∈ l.chars) :
    isBlank c = true ↔ l.kind = .whitespace := by
  rw [← Token.Kind.ofChar_eq_whitespace_iff, h.ofChar_eq c hc]

theorem IsWhole.flatMap_spaced (h : l.IsWhole) : l.chars.flatMap spaced = l.respaced.chars := by
  unfold respaced
  split
  · next hk => exact flatMap_spaced_of_isBlank fun c hc => (h.isBlank_iff hc).2 hk
  · next hk => exact flatMap_spaced_of_not_isBlank fun c hc => mt (h.isBlank_iff hc).1 hk

end Lexeme

theorem withSpaces_eq_overwritten (text : String) :
    withSpaces text = overwritten (fun x => x.2.respaced) text := by
  have hchars : text.toList = (placed 0 (lexemes text.toList)).flatMap fun x => x.2.chars := by
    rw [← List.flatMap_map Prod.snd Lexeme.chars, map_snd_placed, flatMap_chars_lexemes]
  rw [withSpaces, overwritten]
  conv_lhs => rw [hchars, List.flatMap_assoc]
  congr 1
  exact List.flatMap_congr fun x hx => (isWhole_of_mem_placed hx).flatMap_spaced

theorem fitsText_respaced (text : String) : FitsText (fun x => x.2.respaced) text :=
  fun _ hx => (isWhole_of_mem_placed hx).respaced_overwrites

theorem marks_withSpaces (text : String) :
    marks 0 (withSpaces text).toList = marks 0 text.toList := by
  rw [withSpaces_eq_overwritten, (fitsText_respaced text).marks_eq, List.filter_map, marks]
  simp only [Function.comp_def, Lexeme.respaced_kind]
  refine (List.map_congr_left fun x hx => ?_).trans (List.map_id _)
  rw [List.mem_filter, decide_eq_true_iff] at hx
  rw [Lexeme.respaced_of_ne hx.2]
  rfl

/-- Reading a text forgets which blanks it has. -/
theorem Line.ofText_withSpaces (text : String) : ofText (withSpaces text) = ofText text := by
  apply ofText_eq_of_marks_eq (marks_withSpaces text)
  rw [withSpaces_eq_overwritten, (fitsText_respaced text).utf8ByteSize_eq]

/-- The characters of a line with the given marks, up to a given end, where all the rest of it
is spaces. -/
def drawn (position : Nat) : List (Nat × Lexeme) → Nat → List Char
  | [], stop => List.replicate (stop - position) ' '
  | (q, l) :: xs, stop =>
      List.replicate (q - position) ' ' ++ (l.chars ++ drawn (q + byteLength l.chars) xs stop)

theorem drawn_add {position n stop : Nat} {xs : List (Nat × Lexeme)}
    (hx : ∀ x ∈ xs.head?, position + n ≤ x.1) (hs : position + n ≤ stop) :
    drawn position xs stop = List.replicate n ' ' ++ drawn (position + n) xs stop := by
  cases xs with
  | nil =>
    rw [drawn, drawn, List.replicate_append_replicate]
    congr 1
    omega
  | cons x xs =>
    have hle := hx x rfl
    rw [drawn, drawn, ← List.append_assoc (List.replicate n ' '), List.replicate_append_replicate]
    congr 2
    omega

theorem le_of_mem_marks {position : Nat} {cs : List Char} {x : Nat × Lexeme}
    (h : x ∈ marks position cs) : position ≤ x.1 :=
  ((placed_lexemes_increases position cs).2 x (mem_marks_iff.1 h).1).1

/-- A line with spaces for blanks is drawn from its marks and from where it ends. -/
theorem flatMap_spaced_eq_drawn (cs : List Char) (position : Nat) : cs.flatMap spaced =
    drawn position (marks position cs) (position + byteLength cs) := by
  induction cs using lexeme_induction generalizing position with
  | nil => simp [marks, lexemes_nil, placed, drawn, byteLength_nil]
  | step l rest hl hr ih =>
    rw [List.flatMap_append, ih (position + byteLength l.chars), hl.flatMap_spaced,
      marks_append hl hr, byteLength_append, ← Nat.add_assoc]
    by_cases hk : l.kind = .whitespace
    · have hhead : ∀ x ∈ (marks (position + byteLength l.chars) rest).head?,
          position + byteLength l.chars ≤ x.1 := fun x hx =>
        le_of_mem_marks (List.mem_of_mem_head? hx)
      rw [List.filter_cons_of_neg (by simp [hk]), List.filter_nil, List.nil_append,
        drawn_add hhead (Nat.le_add_right _ _), Lexeme.respaced, if_pos hk]
      rfl
    · rw [List.filter_cons_of_pos (by simp [hk]), List.filter_nil, List.singleton_append,
        drawn, Nat.sub_self, Lexeme.respaced_of_ne hk]
      rfl

theorem withSpaces_eq_of_marks_eq {a b : String} (hm : marks 0 a.toList = marks 0 b.toList)
    (hs : a.utf8ByteSize = b.utf8ByteSize) : withSpaces a = withSpaces b := by
  rw [withSpaces, withSpaces, flatMap_spaced_eq_drawn _ 0, flatMap_spaced_eq_drawn _ 0, hm,
    byteLength_toList, byteLength_toList, hs]

namespace Lexeme

/-- A token that is not blank tells its lexeme and where it stands. -/
theorem eq_of_token_eq {l m : Lexeme} {p q : Nat} (hk : l.kind ≠ .whitespace)
    (h : l.token p = m.token q) : p = q ∧ l = m := by
  obtain ⟨k, cs⟩ := l
  obtain ⟨k', ds⟩ := m
  rw [token, token, Token.mk.injEq] at h
  obtain ⟨rfl, hp, htext, -⟩ := h
  rw [if_neg hk, if_neg hk, Option.some.injEq, text, text, String.ofList_inj] at htext
  exact ⟨hp, congrArg (Lexeme.mk _) htext⟩

theorem IsWhole.diagnostic?_eq_badCharacter_iff {l : Lexeme} (h : l.IsWhole) {c : Char}
    {p q : Nat} : l.diagnostic? p = some ⟨.badCharacter c, q⟩ ↔ (p, l) = (q, ⟨.bad, [c]⟩) := by
  obtain ⟨k, cs⟩ := l
  constructor
  · intro hd
    have hp := diagnostic?_position hd
    unfold diagnostic? at hd
    split at hd
    · next hk =>
      have hlength := h.length_eq_one (by rw [hk]; rfl)
      obtain ⟨d, hcs⟩ := List.length_eq_one_iff.1 hlength
      simp_all
    · split at hd <;> cases hd
    · cases hd
  · rintro ⟨-⟩
    rfl

end Lexeme

theorem token_mem_words_iff {l : Lexeme} (hk : l.kind ≠ .whitespace) (hb : l.kind ≠ .bad)
    {p q : Nat} {cs : List Char} : l.token q ∈ words p cs ↔ (q, l) ∈ marks p cs := by
  rw [words_eq_marks, List.mem_filter, and_iff_left ((isMeaningful_token l q).2 ⟨hk, hb⟩),
    List.mem_map]
  constructor
  · rintro ⟨x, hx, ht⟩
    obtain ⟨hq, hl⟩ := Lexeme.eq_of_token_eq hk ht.symm
    rwa [hq, hl]
  · intro h
    exact ⟨(q, l), h, rfl⟩

theorem badCharacter_mem_lexicalDiagnostics_iff {text : String} {c : Char} {q : Nat} :
    ⟨.badCharacter c, q⟩ ∈ lexicalDiagnostics text ↔ (q, ⟨.bad, [c]⟩) ∈ marks 0 text.toList := by
  rw [lexicalDiagnostics_eq_marks, List.mem_filterMap]
  constructor
  · rintro ⟨x, hx, hd⟩
    have hw := isWhole_of_mem_placed (mem_marks_iff.1 hx).1
    rwa [← hw.diagnostic?_eq_badCharacter_iff.1 hd]
  · intro h
    exact ⟨_, h, rfl⟩

/-- What a diagnostic shows. -/
def Diagnostic.report (d : Diagnostic) : String × Nat := (d.message, d.position)

namespace Line

/-- Two lines with the same tree and the same end, of which the same is reported. -/
structure LooksLike (l m : Line) : Prop where
  root : l.root = m.root
  endToken : l.endToken = m.endToken
  reports : l.diagnostics.map Diagnostic.report = m.diagnostics.map Diagnostic.report

theorem mem_diagnostics_iff {l : Line} {d : Diagnostic} :
    d ∈ l.diagnostics ↔ d ∈ l.lexical ∨ d ∈ l.syntactic :=
  List.mem_append

theorem isWorded_of_mem_diagnostics {text : String} {d : Diagnostic}
    (h : d ∈ (ofText text).diagnostics) : d.IsWorded := by
  rcases mem_diagnostics_iff.1 h with h | h
  · change d ∈ lexicalDiagnostics text at h
    rw [lexicalDiagnostics_eq, List.mem_filterMap] at h
    obtain ⟨x, -, hd⟩ := h
    exact Lexeme.isWorded_of_diagnostic? hd
  · obtain ⟨actual, expected, hd⟩ := (mends text).exists_unexpectedToken d h
    intro message hm
    rw [hd] at hm
    cases hm

/-- A bad character is reported by the lexemes and never by their order. -/
theorem badCharacter_mem_diagnostics_iff {text : String} {c : Char} {q : Nat} :
    ⟨.badCharacter c, q⟩ ∈ (ofText text).diagnostics ↔
      (q, ⟨.bad, [c]⟩) ∈ marks 0 text.toList := by
  rw [← badCharacter_mem_lexicalDiagnostics_iff, mem_diagnostics_iff]
  refine or_iff_left fun h => ?_
  obtain ⟨actual, expected, hd⟩ := (mends text).exists_unexpectedToken _ h
  cases hd

/-- Where a text is read to its end, its tree has all the words. -/
theorem mem_words_iff_mem_root {text : String} (h : (ofText text).endToken.isPlaceholder = false)
    {t : Token} : t ∈ words 0 text.toList ↔
      t ∈ (ofText text).root.tokens ∧ t.isScanned = true := by
  have hroot := filter_isScanned_eq_dropLast h
  rw [buffer_eq_words, List.dropLast_concat] at hroot
  rw [← hroot, List.mem_filter]

namespace LooksLike

variable {a b : String}

theorem symm {l m : Line} (h : LooksLike l m) : LooksLike m l :=
  ⟨h.root.symm, h.endToken.symm, h.reports.symm⟩

theorem mem_diagnostics (h : LooksLike (ofText a) (ofText b)) {d : Diagnostic}
    (hd : d ∈ (ofText a).diagnostics) : d ∈ (ofText b).diagnostics := by
  have hm := List.mem_map_of_mem (f := Diagnostic.report) hd
  rw [h.reports, List.mem_map] at hm
  obtain ⟨e, he, hde⟩ := hm
  rw [Diagnostic.report, Diagnostic.report, Prod.mk.injEq] at hde
  rwa [← Diagnostic.eq_of_message_eq (isWorded_of_mem_diagnostics he)
    (isWorded_of_mem_diagnostics hd) hde.1 hde.2]

/-- What stands in a text that is read to its end stands in all texts that look like it. -/
theorem mem_marks (h : LooksLike (ofText a) (ofText b))
    (hend : (ofText a).endToken.isPlaceholder = false) {x : Nat × Lexeme}
    (hx : x ∈ marks 0 a.toList) : x ∈ marks 0 b.toList := by
  obtain ⟨q, l⟩ := x
  have hk : l.kind ≠ .whitespace := (mem_marks_iff.1 hx).2
  by_cases hb : l.kind = .bad
  · have hw : l.IsWhole := isWhole_of_mem_placed (mem_marks_iff.1 hx).1
    obtain ⟨c, rfl⟩ := hw.exists_single (by rw [hb]; rfl)
    have hc : Token.Kind.ofChar c = .bad := hb
    rw [hc] at hx ⊢
    rw [← badCharacter_mem_diagnostics_iff] at hx ⊢
    exact h.mem_diagnostics hx
  · rw [← token_mem_words_iff hk hb] at hx ⊢
    rw [mem_words_iff_mem_root hend] at hx
    rw [mem_words_iff_mem_root (h.endToken ▸ hend), ← h.root]
    exact hx

theorem marks_eq (h : LooksLike (ofText a) (ofText b))
    (hend : (ofText a).endToken.isPlaceholder = false) :
    marks 0 a.toList = marks 0 b.toList :=
  marks_eq_of_mem_iff fun _ => ⟨h.mem_marks hend, h.symm.mem_marks (h.endToken ▸ hend)⟩

theorem utf8ByteSize_eq (h : LooksLike (ofText a) (ofText b))
    (hend : (ofText a).endToken.isPlaceholder = false) : a.utf8ByteSize = b.utf8ByteSize := by
  have ha := endToken_eq_endOfInput hend
  have hb := endToken_eq_endOfInput (h.endToken ▸ hend)
  exact congrArg Token.position (ha.symm.trans (h.endToken.trans hb))

end LooksLike

/-- Which blanks a text has makes no difference to its line. If a text is read to its end, then
another text looks like it, and if only in its tree, its end and what is reported of it,
exactly if the two are equal with spaces for blanks. -/
theorem looksLike_iff_withSpaces_eq :
    (∀ text, ofText (withSpaces text) = ofText text) ∧
    ∀ a b, (ofText a).endToken.isPlaceholder = false →
      ((ofText a).LooksLike (ofText b) ↔ withSpaces a = withSpaces b) := by
  refine ⟨ofText_withSpaces, fun a b hend => ⟨fun h => ?_, fun h => ?_⟩⟩
  · exact withSpaces_eq_of_marks_eq (h.marks_eq hend) (h.utf8ByteSize_eq hend)
  · rw [← ofText_withSpaces a, h, ofText_withSpaces b]
    exact ⟨rfl, rfl, rfl⟩

/-- The text has a bad character, a number that is too large, and a group that is not closed. -/
theorem looksLike_wide_blank :
    (ofText "(é\u20039999999999").endToken.isPlaceholder = false ∧
      (ofText "(é\u20039999999999").LooksLike (ofText "(é   9999999999") := by
  have hend : (ofText "(é\u20039999999999").endToken.isPlaceholder = false := by decide +kernel
  have hspaces : withSpaces "(é\u20039999999999" = withSpaces "(é   9999999999" := by
    decide +kernel
  exact ⟨hend, (looksLike_iff_withSpaces_eq.2 _ _ hend).2 hspaces⟩

end Line

end Calculator
