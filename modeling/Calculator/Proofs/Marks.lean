import Mathlib.Data.List.Sort
import Calculator.Proofs.LongestMatch
import Calculator.Proofs.Placeholders

/-!
# Marks

The marks of a line, with its number of bytes, are all that reading it depends on: two lines
with the same marks and as many bytes are read alike in every field. The marks stand at
increasing offsets, so that they are known once it is known which lexeme stands where.

A line may be changed by writing other characters over some of its lexemes, as long as they
take as many bytes. Blanks can be written over everything. Then the marks change exactly
where something was written, although blanks run together with the blanks around them. What
is written over may be no sign or digit for one that runs on into a neighbour; that the new
lexeme has the kind of the old one or is blank is all that has to be known about it.
-/
namespace Calculator

/-- A lexeme that can be written over another one: it takes as many bytes, and it is of the
same kind or blank. -/
structure Lexeme.Overwrites (new old : Lexeme) : Prop where
  isWhole : new.IsWhole
  byteLength_eq : byteLength new.chars = byteLength old.chars
  kind : new.kind = .whitespace ∨ new.kind = old.kind

theorem Lexeme.IsWhole.overwrites {l : Lexeme} (h : l.IsWhole) : l.Overwrites l :=
  ⟨h, rfl, .inr rfl⟩

/-- As many spaces as a lexeme has bytes. -/
def Lexeme.spaces (l : Lexeme) : Lexeme :=
  ⟨.whitespace, List.replicate (byteLength l.chars) ' '⟩

theorem byteLength_replicate (n : Nat) (c : Char) :
    byteLength (List.replicate n c) = n * c.utf8Size := by
  induction n with
  | zero => simp [byteLength_nil]
  | succ n ih => rw [List.replicate_succ, byteLength_cons, ih, Nat.add_one_mul, Nat.add_comm]

theorem byteLength_of_utf8Size {cs : List Char} (h : ∀ c ∈ cs, c.utf8Size = 1) :
    byteLength cs = cs.length := by
  induction cs with
  | nil => rfl
  | cons c cs ih =>
    rw [List.forall_mem_cons] at h
    rw [byteLength_cons, ih h.2, h.1, List.length_cons, Nat.add_comm]

theorem utf8Size_of_isDigit {c : Char} (h : c.isDigit = true) : c.utf8Size = 1 := by
  have hc := Char.isDigit_iff_toNat.1 h
  rw [Char.utf8Size_eq_one_iff, UInt32.le_iff_toNat_le]
  exact Nat.le_trans hc.2 (by decide)

/-- A run of one character. -/
theorem Lexeme.isWhole_replicate {k : Token.Kind} {c : Char} {n : Nat}
    (hc : Token.Kind.ofChar c = k) (hk : k.runs = true) (hn : 0 < n) :
    IsWhole ⟨k, List.replicate n c⟩ := by
  constructor
  · rw [List.ne_nil_iff_length_pos, List.length_replicate]
    exact hn
  · intro d hd
    rw [List.eq_of_mem_replicate hd]
    exact hc
  · intro hr
    rw [hk] at hr
    cases hr

theorem Lexeme.IsWhole.spaces_overwrites {l : Lexeme} (h : l.IsWhole) : l.spaces.Overwrites l where
  isWhole := isWhole_replicate (Token.Kind.ofChar_eq_whitespace_iff.2 (by decide)) rfl
    (byteLength_pos h.ne_nil)
  byteLength_eq := by
    rw [spaces, byteLength_replicate]
    exact Nat.mul_one _
  kind := .inl rfl

/-- A lexeme that is not blank stays apart from what is written behind it: that is blank, or
of the kind that stood there before. -/
theorem Lexeme.Overwrites.stopsAt {new old : Lexeme} (h : new.Overwrites old)
    (hk : new.kind ≠ .whitespace) {f : Nat × Lexeme → Lexeme} {position : Nat}
    {ls : List Lexeme} (ha : ∀ l ∈ ls.head?, old.Apart l)
    (hf : ∀ x ∈ placed position ls, (f x).Overwrites x.2) :
    ∀ c ∈ ((placed position ls).flatMap fun x => (f x).chars).head?, new.StopsAt c := by
  intro c hc hck
  have hkind := h.kind.resolve_left hk
  have hw : ∀ m ∈ (placed position ls).map f, m.IsWhole :=
    List.forall_mem_map.2 fun x hx => (hf x hx).isWhole
  have hhead := head?_flatMap_chars hw
  rw [List.flatMap_map, Option.mem_def.1 hc, List.head?_map, Option.map_map, Option.map_some,
    eq_comm, Option.map_eq_some_iff] at hhead
  obtain ⟨x, hx, hxc⟩ := hhead
  have hxk : (f x).kind = new.kind := hxc.trans hck
  have hxl : x.2.kind = old.kind := by
    rcases (hf x (List.mem_of_mem_head? hx)).kind with hw | hs
    · exact absurd (hxk.symm.trans hw) hk
    · exact hs.symm.trans (hxk.trans hkind)
  have hnext : ls.head? = some x.2 := by
    rw [← map_snd_placed position ls, List.head?_map, hx, Option.map_some]
  rw [hkind]
  exact ha x.2 hnext hxl

/-- Writing over lexemes leaves a line with the new lexemes as its marks, where they are not
blank. -/
theorem marks_overwritten (f : Nat × Lexeme → Lexeme) {ls : List Lexeme}
    (ha : ls.IsChain Lexeme.Apart) (position : Nat)
    (hf : ∀ x ∈ placed position ls, (f x).Overwrites x.2) :
    marks position ((placed position ls).flatMap fun x => (f x).chars) =
      ((placed position ls).map fun x => (x.1, f x)).filter
        fun x => x.2.kind ≠ .whitespace := by
  induction ls generalizing position with
  | nil =>
    rw [placed, List.flatMap_nil, marks, lexemes_nil]
    rfl
  | cons l ls ih =>
    rw [List.isChain_cons] at ha
    rw [placed, List.forall_mem_cons] at hf
    obtain ⟨hnew, hf⟩ := hf
    rw [placed, List.flatMap_cons, List.map_cons, ← List.singleton_append, List.filter_append,
      ← ih ha.2 (position + byteLength l.chars) hf]
    -- New blanks may run together with those behind them, and anything else stays apart.
    by_cases hk : (f (position, l)).kind = .whitespace
    · have hblank : ∀ c ∈ (f (position, l)).chars, isBlank c = true := fun c hc =>
        Token.Kind.ofChar_eq_whitespace_iff.1 ((hnew.isWhole.ofChar_eq c hc).trans hk)
      rw [marks_blanks hblank, hnew.byteLength_eq, List.filter_cons_of_neg (by simp [hk])]
      rfl
    · rw [marks_append hnew.isWhole (hnew.stopsAt hk ha.1 hf), hnew.byteLength_eq]

theorem byteLength_overwritten (f : Nat × Lexeme → Lexeme) {ls : List Lexeme} (position : Nat)
    (hf : ∀ x ∈ placed position ls, (f x).Overwrites x.2) :
    byteLength ((placed position ls).flatMap fun x => (f x).chars) =
      byteLength (ls.flatMap Lexeme.chars) := by
  induction ls generalizing position with
  | nil => rfl
  | cons l ls ih =>
    rw [placed, List.forall_mem_cons] at hf
    rw [placed, List.flatMap_cons, List.flatMap_cons, byteLength_append, byteLength_append,
      hf.1.byteLength_eq, ih _ hf.2]

/-- A text with other lexemes written over its own. -/
def overwritten (f : Nat × Lexeme → Lexeme) (text : String) : String :=
  String.ofList ((placed 0 (lexemes text.toList)).flatMap fun x => (f x).chars)

/-- What is written over each lexeme of a text fits in its place. -/
def FitsText (f : Nat × Lexeme → Lexeme) (text : String) : Prop :=
  ∀ x ∈ placed 0 (lexemes text.toList), (f x).Overwrites x.2

namespace FitsText

variable {f : Nat × Lexeme → Lexeme} {text : String}

theorem marks_eq (h : FitsText f text) : marks 0 (overwritten f text).toList =
    ((placed 0 (lexemes text.toList)).map fun x => (x.1, f x)).filter
      fun x => x.2.kind ≠ .whitespace := by
  rw [overwritten, String.toList_ofList]
  exact marks_overwritten f (tiles_lexemes text.toList).apart 0 h

theorem words_eq (h : FitsText f text) : words 0 (overwritten f text).toList =
    ((placed 0 (lexemes text.toList)).map fun x => (f x).token x.1).filter
      Token.isMeaningful := by
  rw [words_eq_marks, h.marks_eq, filter_isMeaningful_map_token, List.map_map]
  rfl

theorem utf8ByteSize_eq (h : FitsText f text) :
    (overwritten f text).utf8ByteSize = text.utf8ByteSize := by
  rw [overwritten, utf8ByteSize_ofList, byteLength_overwritten f 0 h, flatMap_chars_lexemes,
    byteLength_toList]

end FitsText

theorem mem_marks_iff {position : Nat} {cs : List Char} {x : Nat × Lexeme} :
    x ∈ marks position cs ↔ x ∈ placed position (lexemes cs) ∧ x.2.kind ≠ .whitespace := by
  rw [marks, List.mem_filter, decide_eq_true_iff]

theorem marks_pairwise (text : String) :
    (marks 0 text.toList).Pairwise fun x y => x.1 < y.1 :=
  (placed_lexemes_increases 0 text.toList).1.filter _

/-- The marks of a text are determined by which lexeme stands where. -/
theorem marks_eq_of_mem_iff {a b : String}
    (h : ∀ x, x ∈ marks 0 a.toList ↔ x ∈ marks 0 b.toList) :
    marks 0 a.toList = marks 0 b.toList := by
  have hirrefl : Std.Irrefl fun x y : Nat × Lexeme => x.1 < y.1 :=
    ⟨fun x => Nat.lt_irrefl x.1⟩
  have hantisymm : Std.Antisymm fun x y : Nat × Lexeme => x.1 < y.1 :=
    ⟨fun _ _ hxy hyx => absurd hyx (Nat.lt_asymm hxy)⟩
  exact (marks_pairwise a).eq_of_mem_iff (marks_pairwise b) h

/-- Reading a text depends on its marks and on its number of bytes only. -/
theorem Line.ofText_eq_of_marks_eq {a b : String} (hm : marks 0 a.toList = marks 0 b.toList)
    (hs : a.utf8ByteSize = b.utf8ByteSize) : Line.ofText a = Line.ofText b := by
  have hahead : (Reader.ofText a).ahead = (Reader.ofText b).ahead := by
    rw [ahead_ofText, ahead_ofText, words_eq_marks, words_eq_marks, hm, hs]
  have hreader : Reader.ofText a = Reader.ofText b := by
    rw [Reader.mk.injEq]
    exact ⟨hahead, hs⟩
  rw [Line.ofText_eq, Line.ofText_eq, hreader, lexicalDiagnostics_eq_marks,
    lexicalDiagnostics_eq_marks, hm]

end Calculator
