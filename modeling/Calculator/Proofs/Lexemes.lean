import Mathlib.Data.List.Chain
import Mathlib.Data.List.TakeWhile
import Calculator.Reader

/-!
# The lexemes of a line

`lexemes` cuts a list of characters into lexemes until nothing is left. The cut is
determined by three facts that do not mention how it is made: the characters of the
lexemes are the given ones in their order, every lexeme is whole, and no two neighbours
run together. So a line may be cut at any place where the characters on both sides do not
run together, and a run of digits is a number exactly if it cannot be made longer.

Where a lexeme stands and which token it becomes is not said here.
-/
namespace Calculator

namespace Token.Kind

theorem ofChar_eq_number_iff {c : Char} : ofChar c = .number ↔ c.isDigit = true := by
  unfold ofChar
  split
  · simp_all
  · split
    · simp_all
    · split <;> simp_all

theorem ofChar_eq_whitespace_iff {c : Char} : ofChar c = .whitespace ↔ isBlank c = true := by
  unfold ofChar
  split
  · next h => simp [isBlank_eq_false_of_isDigit h]
  · split
    · simp_all
    · split <;> simp_all

theorem ofChar_ne_bad_iff {c : Char} : ofChar c ≠ .bad ↔
    c.isDigit = true ∨ isBlank c = true ∨ c ∈ ['+', '-', '*', '/', '(', ')'] := by
  unfold ofChar
  split
  · simp_all
  · split
    · simp_all
    · split <;> simp_all

theorem runs_iff {k : Token.Kind} : k.runs = true ↔ k = .number ∨ k = .whitespace := by
  cases k <;> simp [runs]

end Token.Kind

namespace Lexeme

/-- A lexeme as it can stand in a line. -/
structure IsWhole (l : Lexeme) : Prop where
  ne_nil : l.chars ≠ []
  ofChar_eq : ∀ c ∈ l.chars, Token.Kind.ofChar c = l.kind
  length_eq_one : l.kind.runs = false → l.chars.length = 1

/-- A character behind a lexeme does not go on with it. -/
def StopsAt (l : Lexeme) (c : Char) : Prop :=
  Token.Kind.ofChar c = l.kind → l.kind.runs = false

/-- Two neighbours that are not parts of one run. -/
def Apart (l m : Lexeme) : Prop := m.kind = l.kind → l.kind.runs = false

theorem continues_eq_false_of_stopsAt {l : Lexeme} {first c : Char}
    (hf : Token.Kind.ofChar first = l.kind) (h : l.StopsAt c) : continues first c = false := by
  by_contra hc
  simp only [Bool.not_eq_false, continues, hf, Bool.and_eq_true, beq_iff_eq] at hc
  simp [h hc.2] at hc

theorem isWhole_of_split? {cs rest : List Char} {l : Lexeme} (h : split? cs = some (l, rest)) :
    l.IsWhole := by
  refine ⟨chars_ne_nil_of_split? h, fun c hc => ofChar_of_split? h hc, fun hr => ?_⟩
  cases cs with
  | nil => simp [split?] at h
  | cons c cs =>
    simp only [split?, Option.some.injEq, Prod.mk.injEq] at h
    obtain ⟨rfl, -⟩ := h
    have hc : continues c = fun _ => false := by
      funext d
      simp only [continues, hr, Bool.false_and]
    simp [hc]

theorem stopsAt_of_split? {cs rest : List Char} {l : Lexeme} (h : split? cs = some (l, rest)) :
    ∀ c ∈ rest.head?, l.StopsAt c := by
  intro d hd
  cases cs with
  | nil => simp [split?] at h
  | cons c cs =>
    simp only [split?, Option.some.injEq, Prod.mk.injEq] at h
    obtain ⟨rfl, rfl⟩ := h
    have hn := List.head?_dropWhile_not (continues c) cs
    rw [Option.mem_def.1 hd] at hn
    intro hk
    by_contra hr
    simp_all [continues]

/-- A whole lexeme is taken off as it is if the rest does not go on with it. -/
theorem split?_append {l : Lexeme} (h : l.IsWhole) {rest : List Char}
    (hr : ∀ c ∈ rest.head?, l.StopsAt c) : split? (l.chars ++ rest) = some (l, rest) := by
  obtain ⟨k, chars⟩ := l
  cases chars with
  | nil => exact absurd rfl h.ne_nil
  | cons c cs =>
    have hk : Token.Kind.ofChar c = k := h.ofChar_eq c (by simp)
    have hcs : ∀ d ∈ cs, continues c d = true := by
      intro d hd
      have hd' : Token.Kind.ofChar d = k := h.ofChar_eq d (by simp [hd])
      cases hruns : k.runs with
      | false =>
        have hl : cs.length = 0 := by simpa using h.length_eq_one hruns
        simp [List.eq_nil_of_length_eq_zero hl] at hd
      | true => simp [continues, hk, hd', hruns]
    have hstop : ∀ d ∈ rest.head?, continues c d = false := fun d hd =>
      continues_eq_false_of_stopsAt hk (hr d hd)
    have ht : rest.takeWhile (continues c) = [] := by
      cases rest with
      | nil => rfl
      | cons d ds => simp [hstop d rfl]
    have hd : rest.dropWhile (continues c) = rest := by
      cases rest with
      | nil => rfl
      | cons d ds => simp [hstop d rfl]
    simp only [List.cons_append, split?, List.takeWhile_append_of_pos hcs,
      List.dropWhile_append_of_pos hcs, ht, hd, hk, List.append_nil]

end Lexeme

/-- The lexemes of a list of characters. -/
def lexemes (cs : List Char) : List Lexeme :=
  match _h : Lexeme.split? cs with
  | none => []
  | some (l, rest) => l :: lexemes rest
termination_by cs.length
decreasing_by exact Lexeme.length_lt_of_split? _h

theorem lexemes_nil : lexemes [] = [] := by
  rw [lexemes]
  rfl

theorem lexemes_of_split? {cs rest : List Char} {l : Lexeme}
    (h : Lexeme.split? cs = some (l, rest)) : lexemes cs = l :: lexemes rest := by
  rw [lexemes]
  split
  · next hn => simp [h] at hn
  · next hs =>
    rw [h, Option.some.injEq, Prod.mk.injEq] at hs
    rw [hs.1, hs.2]

theorem lexemes_append_of_isWhole {l : Lexeme} (h : l.IsWhole) {rest : List Char}
    (hr : ∀ c ∈ rest.head?, l.StopsAt c) : lexemes (l.chars ++ rest) = l :: lexemes rest :=
  lexemes_of_split? (Lexeme.split?_append h hr)

/-- What holds of no characters, and of a first lexeme with the rest given that it holds of
the rest, holds of all lists of characters. -/
theorem lexeme_induction {P : List Char → Prop} (nil : P [])
    (step : ∀ (l : Lexeme) rest, l.IsWhole → (∀ c ∈ rest.head?, l.StopsAt c) → P rest →
      P (l.chars ++ rest)) (cs : List Char) : P cs := by
  fun_induction lexemes cs with
  | case1 cs h => rwa [Lexeme.split?_eq_none_iff.1 h]
  | case2 cs l rest h ih =>
    rw [← Lexeme.append_of_split? h]
    exact step l rest (Lexeme.isWhole_of_split? h) (Lexeme.stopsAt_of_split? h) ih

/-- Lexemes that are the cut of a list of characters. -/
structure Tiles (ls : List Lexeme) (cs : List Char) : Prop where
  flatMap_chars : ls.flatMap Lexeme.chars = cs
  isWhole : ∀ l ∈ ls, l.IsWhole
  apart : ls.IsChain Lexeme.Apart

theorem head?_flatMap_chars {ls : List Lexeme} (hw : ∀ l ∈ ls, l.IsWhole) :
    (ls.flatMap Lexeme.chars).head?.map Token.Kind.ofChar = ls.head?.map Lexeme.kind := by
  cases ls with
  | nil => rfl
  | cons l ls =>
    have hl := hw l (by simp)
    cases hc : l.chars with
    | nil => exact absurd hc hl.ne_nil
    | cons c cs => simp [hc, hl.ofChar_eq c (by simp [hc])]

theorem Tiles.head? {ls : List Lexeme} {cs : List Char} (h : Tiles ls cs) :
    cs.head?.map Token.Kind.ofChar = ls.head?.map Lexeme.kind := by
  rw [← h.flatMap_chars, head?_flatMap_chars h.isWhole]

theorem Tiles.getLast? {ls : List Lexeme} {cs : List Char} (h : Tiles ls cs) :
    cs.getLast?.map Token.Kind.ofChar = ls.getLast?.map Lexeme.kind := by
  obtain ⟨rfl, hw, -⟩ := h
  rcases List.eq_nil_or_concat ls with rfl | ⟨front, l, rfl⟩
  · rfl
  · have hl := hw l (by simp)
    rcases List.eq_nil_or_concat l.chars with hc | ⟨cs, c, hc⟩
    · exact absurd hc hl.ne_nil
    · simp [hc, hl.ofChar_eq c (by simp [hc])]

theorem tiles_lexemes (cs : List Char) : Tiles (lexemes cs) cs := by
  induction cs using lexeme_induction with
  | nil =>
    rw [lexemes_nil]
    exact ⟨rfl, by simp, .nil⟩
  | step l rest hl hr ih =>
    rw [lexemes_append_of_isWhole hl hr]
    refine ⟨by simp [ih.flatMap_chars], ?_, ?_⟩
    · intro m hm
      rcases List.mem_cons.1 hm with rfl | hm
      · exact hl
      · exact ih.isWhole m hm
    · rw [List.isChain_cons]
      refine ⟨fun m hm hk => ?_, ih.apart⟩
      have hh := ih.head?
      rw [Option.mem_def.1 hm, Option.map_some, Option.map_eq_some_iff] at hh
      obtain ⟨c, hc, hcm⟩ := hh
      exact hr c hc (hcm.trans hk)

/-- The cut is determined by the three facts about it. -/
theorem Tiles.lexemes_eq {ls : List Lexeme} {cs : List Char} (h : Tiles ls cs) :
    lexemes cs = ls := by
  obtain ⟨rfl, hw, ha⟩ := h
  induction ls with
  | nil => exact lexemes_nil
  | cons l ls ih =>
    have hw' : ∀ m ∈ ls, m.IsWhole := fun m hm => hw m (by simp [hm])
    rw [List.isChain_cons] at ha
    have hstop : ∀ c ∈ (ls.flatMap Lexeme.chars).head?, l.StopsAt c := by
      intro c hc hk
      have hh := Tiles.head? ⟨rfl, hw', ha.2⟩
      rw [Option.mem_def.1 hc, Option.map_some, eq_comm, Option.map_eq_some_iff] at hh
      obtain ⟨m, hm, hmk⟩ := hh
      exact ha.1 m hm (hmk.trans hk)
    rw [List.flatMap_cons, lexemes_append_of_isWhole (hw l (by simp)) hstop, ih hw' ha.2]

theorem flatMap_chars_lexemes (cs : List Char) : (lexemes cs).flatMap Lexeme.chars = cs :=
  (tiles_lexemes cs).flatMap_chars

/-- A line may be cut where the characters on both sides do not run together. -/
theorem lexemes_append {cs ds : List Char}
    (h : ∀ c ∈ cs.getLast?, ∀ d ∈ ds.head?,
      Token.Kind.ofChar d = Token.Kind.ofChar c → (Token.Kind.ofChar c).runs = false) :
    lexemes (cs ++ ds) = lexemes cs ++ lexemes ds := by
  apply Tiles.lexemes_eq
  refine ⟨by simp [flatMap_chars_lexemes], ?_, ?_⟩
  · intro l hl
    rcases List.mem_append.1 hl with hl | hl
    · exact (tiles_lexemes cs).isWhole l hl
    · exact (tiles_lexemes ds).isWhole l hl
  · refine (tiles_lexemes cs).apart.append (tiles_lexemes ds).apart fun l hl m hm hk => ?_
    have hlast := (tiles_lexemes cs).getLast?
    have hhead := (tiles_lexemes ds).head?
    rw [Option.mem_def.1 hl, Option.map_some, Option.map_eq_some_iff] at hlast
    rw [Option.mem_def.1 hm, Option.map_some, Option.map_eq_some_iff] at hhead
    obtain ⟨c, hc, hcl⟩ := hlast
    obtain ⟨d, hd, hdm⟩ := hhead
    rw [← hcl]
    exact h c hc d hd (by rw [hdm, hcl, hk])

/-- A whole lexeme that stops at the characters on both sides of it. -/
structure Lexeme.StandsBetween (l : Lexeme) (before after : List Char) : Prop where
  isWhole : l.IsWhole
  stopsBefore : ∀ c ∈ before.getLast?, l.StopsAt c
  stopsAfter : ∀ c ∈ after.head?, l.StopsAt c

/-- A lexeme of a line stands between the characters of the lexemes around it. -/
theorem standsBetween_of_lexemes_eq {cs : List Char} {front back : List Lexeme} {l : Lexeme}
    (h : lexemes cs = front ++ l :: back) :
    l.StandsBetween (front.flatMap Lexeme.chars) (back.flatMap Lexeme.chars) := by
  have ht := tiles_lexemes cs
  rw [h] at ht
  have ha := List.isChain_append.1 ht.apart
  have hf : Tiles front (front.flatMap Lexeme.chars) :=
    ⟨rfl, fun m hm => ht.isWhole m (by simp [hm]), ha.1⟩
  have hb : Tiles back (back.flatMap Lexeme.chars) :=
    ⟨rfl, fun m hm => ht.isWhole m (by simp [hm]), (List.isChain_cons.1 ha.2.1).2⟩
  refine ⟨ht.isWhole l (by simp), ?_, ?_⟩
  · intro c hc hk
    have hlast := hf.getLast?
    rw [Option.mem_def.1 hc, Option.map_some, eq_comm, Option.map_eq_some_iff] at hlast
    obtain ⟨m, hm, hmc⟩ := hlast
    have hkm := hmc.trans hk
    exact hkm ▸ ha.2.2 m hm l rfl hkm.symm
  · intro c hc hk
    have hhead := hb.head?
    rw [Option.mem_def.1 hc, Option.map_some, eq_comm, Option.map_eq_some_iff] at hhead
    obtain ⟨m, hm, hmc⟩ := hhead
    exact (List.isChain_cons.1 ha.2.1).1 m hm (hmc.trans hk)

/-- What stands between other characters is a lexeme of the line. -/
theorem Lexeme.StandsBetween.lexemes_eq {l : Lexeme} {before after : List Char}
    (h : l.StandsBetween before after) :
    lexemes (before ++ (l.chars ++ after)) = lexemes before ++ l :: lexemes after := by
  rw [lexemes_append, lexemes_append_of_isWhole h.isWhole h.stopsAfter]
  intro c hc d hd hk
  have hdk : Token.Kind.ofChar d = l.kind := by
    obtain ⟨e, es, he⟩ := List.exists_cons_of_ne_nil h.isWhole.ne_nil
    obtain rfl : e = d := by simpa [he] using hd
    exact h.isWhole.ofChar_eq e (by simp [he])
  have hck := hk.symm.trans hdk
  rw [hck]
  exact h.stopsBefore c hc hck

/-- A stretch of characters that share a property with neither neighbour. -/
def MaximalRun (p : Char → Prop) (run cs : List Char) : Prop :=
  ∃ before after, cs = before ++ run ++ after ∧ run ≠ [] ∧ (∀ c ∈ run, p c) ∧
    (∀ c ∈ before.getLast?, ¬ p c) ∧ ∀ c ∈ after.head?, ¬ p c

theorem maximalRun_of_mem_lexemes {l : Lexeme} {cs : List Char} (hl : l ∈ lexemes cs)
    (hruns : l.kind.runs = true) :
    MaximalRun (fun c => Token.Kind.ofChar c = l.kind) l.chars cs := by
  obtain ⟨front, back, hls⟩ := List.append_of_mem hl
  obtain ⟨hw, hbefore, hafter⟩ := standsBetween_of_lexemes_eq hls
  refine ⟨front.flatMap Lexeme.chars, back.flatMap Lexeme.chars, ?_, hw.ne_nil, hw.ofChar_eq,
    ?_, ?_⟩
  · rw [← flatMap_chars_lexemes cs, hls]
    simp
  · intro c hc hk
    simp [hbefore c hc hk] at hruns
  · intro c hc hk
    simp [hafter c hc hk] at hruns

theorem mem_lexemes_of_maximalRun {k : Token.Kind} {run cs : List Char} (hruns : k.runs = true)
    (h : MaximalRun (fun c => Token.Kind.ofChar c = k) run cs) : ⟨k, run⟩ ∈ lexemes cs := by
  obtain ⟨before, after, rfl, hne, hrun, hbefore, hafter⟩ := h
  have hl : Lexeme.IsWhole ⟨k, run⟩ := ⟨hne, hrun, fun hr => by simp [hruns] at hr⟩
  have hbetween : Lexeme.StandsBetween ⟨k, run⟩ before after :=
    ⟨hl, fun c hc hk => absurd hk (hbefore c hc), fun c hc hk => absurd hk (hafter c hc)⟩
  rw [List.append_assoc, hbetween.lexemes_eq]
  simp

end Calculator
