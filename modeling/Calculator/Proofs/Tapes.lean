import Calculator.Tape
import Calculator.Proofs.Placeholders

/-!
# Work on the tape of a text

The tape of a text is never damaged, whatever is asked of it and in whatever order. The tokens
on it stay as they are, the position never goes back and never beyond their number, and
diagnostics are only added behind those that are there. Since the end of input is the last
token, there is a current token in every state, and every phrase that is asked for is finished.

All this rests on one relation. A tape shows a reader if the reader has ahead of it what the
tape has from its position on. Whatever is then asked of both, the tape yields what the reader
yields, adds its diagnostics, and shows the reader behind it. That nothing else can become of
the tape is said by `Reads.unique`, without any reader.
-/
namespace Calculator

variable {α β : Type}

def Reading.map (f : α → β) (x : Reading α) : Reading β :=
  ⟨f x.result, x.diagnostics, x.reader⟩

/-- What a reader yields for a call. -/
def Reader.answer (r : Reader) : Tape.Call → Reading Node
  | .current => ⟨.token r.current, [], r⟩
  | .next => r.next.map .token
  | .expect kind => (r.expect kind).map .token
  | .phrase level => (r.phrase level).map .expr

theorem Reader.answer_reader_le (r : Reader) (call : Tape.Call) :
    (r.answer call).reader.ahead.length ≤ r.ahead.length := by
  cases call with
  | current => exact Nat.le_refl _
  | next => exact r.rest_ahead_length_le
  | expect kind => exact r.expect_reader_le kind
  | phrase level => exact r.phrase_reader_le level

/-- A placeholder for a number that is not there. -/
def Reader.missingNumber (r : Reader) : Reading Expr where
  result := .number (Token.placeholder .number r.current.position)
  diagnostics := [⟨.unexpectedToken r.current.kind .number, r.current.position⟩]
  reader := r

/-- At the end of input a phrase of any level is a missing number, and no chain goes on. -/
theorem Reader.phrase_of_endOfInput {r : Reader} (h : r.current.kind = .endOfInput)
    (level : Level) : r.phrase level = r.missingNumber := by
  have hprimary : r.phrase .primary = r.missingNumber := by
    rw [phrase_primary_of_not_open (by simp [h])]
    simp only [expect_of_ne (show r.current.kind ≠ .number by simp [h]), missingNumber]
  have hjoined {level operand : Level} (ho : level.operand? = some operand)
      (hp : r.phrase operand = r.missingNumber) : r.phrase level = r.missingNumber := by
    have hstop : operand.joins r.current.kind = false := by
      rw [h, Level.joins_endOfInput]
    rw [phrase_of_operand? ho, hp]
    simp only [missingNumber, chain_of_not_joins hstop, List.append_nil]
  have hfactor : r.phrase .factor = r.missingNumber := hjoined rfl hprimary
  cases level with
  | primary => exact hprimary
  | factor => exact hfactor
  | term => exact hjoined rfl hfactor

namespace Tape

/-- The tape behind what has been read. -/
def behind (s : Tape) (x : Reading α) : Tape where
  buffer := s.buffer
  position := s.buffer.length - x.reader.ahead.length
  recorded := s.recorded ++ x.diagnostics

theorem behind_behind (s : Tape) (x : Reading α) (y : Reading β) :
    (s.behind x).behind y = s.behind (y.after x.diagnostics) := by
  simp only [behind, Reading.after, List.append_assoc]

/-- The tape further on: its tokens are the same, and what was recorded is still recorded. -/
structure Extends (s u : Tape) : Prop where
  buffer_eq : u.buffer = s.buffer
  position_le : s.position ≤ u.position
  recorded : s.recorded <+: u.recorded

namespace Extends

theorem refl (s : Tape) : s.Extends s := ⟨rfl, Nat.le_refl _, List.prefix_rfl⟩

theorem trans {s u v : Tape} (h : s.Extends u) (h' : u.Extends v) : s.Extends v :=
  ⟨h'.buffer_eq.trans h.buffer_eq, Nat.le_trans h.position_le h'.position_le,
    h.recorded.trans h'.recorded⟩

end Extends

/-- The reader has ahead of it what the tape has from its position on, and the tape ends where
the reader says. -/
structure Shows (s : Tape) (r : Reader) : Prop where
  position_le : s.position ≤ s.buffer.length
  ahead_eq : r.ahead = s.buffer.drop s.position
  getLast? : s.buffer.getLast? = some (Token.endOfInput r.endPosition)

section

variable {s : Tape} {r : Reader}

namespace Shows

theorem length_ahead (h : s.Shows r) : r.ahead.length = s.buffer.length - s.position := by
  rw [h.ahead_eq, List.length_drop]

theorem length_pos (h : s.Shows r) : 0 < s.buffer.length := by
  apply List.length_pos_iff.2
  intro hb
  have hlast := h.getLast?
  rw [hb] at hlast
  cases hlast

/-- If nothing is taken, the tape only gets the diagnostics. -/
theorem behind_eq {x : Reading α} (h : s.Shows x.reader) :
    s.behind x = { s with recorded := s.recorded ++ x.diagnostics } := by
  rw [behind, h.length_ahead, Nat.sub_sub_self h.position_le]

theorem behind_eq_self {x : Reading α} (h : s.Shows x.reader) (hd : x.diagnostics = []) :
    s.behind x = s := by
  rw [h.behind_eq, hd, List.append_nil]

theorem current? (h : s.Shows r) : s.current? = some r.current := by
  rw [Tape.current?, peek?, Nat.add_zero, Reader.current, h.ahead_eq, List.headD_eq_head?_getD,
    List.head?_drop]
  rcases Nat.lt_or_eq_of_le h.position_le with hlt | heq
  · rw [Nat.min_eq_left (Nat.le_sub_one_of_lt hlt), List.getElem?_eq_getElem hlt,
      Option.getD_some]
  · -- Where nothing is ahead, a reader makes up the end of input, which the tape still has.
    rw [heq, Nat.min_eq_right (Nat.sub_le _ _), ← List.getLast?_eq_getElem?, h.getLast?,
      List.getElem?_eq_none (Nat.le_refl _), Option.getD_none]

theorem advanced (h : s.Shows r) : s.advanced.Shows r.rest := by
  rw [Tape.advanced]
  split
  · next hlt =>
    refine ⟨hlt, ?_, h.getLast?⟩
    rw [Reader.rest, h.ahead_eq, List.tail_drop]
  · next hge =>
    refine ⟨h.position_le, ?_, h.getLast?⟩
    rw [Reader.rest, h.ahead_eq, List.drop_eq_nil_of_le (Nat.not_lt.1 hge), List.tail_nil]

theorem advanced_eq (h : s.Shows r) : s.advanced = s.behind r.next := by
  have hb : s.advanced.behind r.next = s.advanced := behind_eq_self h.advanced rfl
  rw [← hb, Tape.advanced]
  split <;> rfl

theorem next (h : s.Shows r) :
    s.next? = some (r.current, s.behind r.next) ∧ (s.behind r.next).Shows r.rest := by
  rw [next?_eq h.current?, ← h.advanced_eq]
  exact ⟨rfl, h.advanced⟩

theorem expect (h : s.Shows r) (kind : Token.Kind) :
    s.expect? kind = some ((r.expect kind).result, s.behind (r.expect kind)) ∧
      (s.behind (r.expect kind)).Shows (r.expect kind).reader := by
  by_cases hk : r.current.kind = kind
  · rw [expect?_of_eq h.current? hk, Reader.expect_of_eq hk, h.advanced_eq]
    exact ⟨rfl, h.next.2⟩
  · rw [expect?_of_ne h.current? hk, Reader.expect_of_ne hk, behind_eq h, record]
    exact ⟨rfl, h.position_le, h.ahead_eq, h.getLast?⟩

end Shows

/-- On the tape reading ends as a reading does, and the tape behind it shows the reader of the
reading. -/
structure Yields (s : Tape) (goal : Goal) (x : Reading Expr) : Prop where
  reads : Reads goal s x.result (s.behind x)
  shows : (s.behind x).Shows x.reader

theorem yields_phrase_chain :
    (∀ level (r : Reader), ∀ s : Tape, s.Shows r → s.Yields (.phrase level) (r.phrase level)) ∧
      ∀ level left (r : Reader), ∀ s : Tape, s.Shows r →
        s.Yields (.chain level left) (r.chain level left) := by
  apply Reader.phrase_chain_induction
  case joined =>
    intro level operand r ho p q s h
    obtain ⟨first, hu⟩ := p s h
    obtain ⟨all, hv⟩ := q _ hu
    rw [behind_behind] at all hv
    rw [Reader.phrase_of_operand? ho]
    exact ⟨.joined ho first all, hv⟩
  case group =>
    intro r hk p s h
    obtain ⟨hnext, hu⟩ := h.next
    obtain ⟨inner, hv⟩ := p _ hu
    obtain ⟨hclose, hw⟩ := hv.expect .closeParen
    simp only [behind_behind] at inner hclose hw
    rw [Reader.phrase_primary_of_open hk]
    exact ⟨.group h.current? hk hnext inner hclose, hw⟩
  case number =>
    intro r hk s h
    obtain ⟨hnumber, hu⟩ := h.expect .number
    rw [Reader.phrase_primary_of_not_open hk]
    exact ⟨.number h.current? hk hnumber, hu⟩
  case link =>
    intro level left r hk p q s h
    obtain ⟨hnext, hu⟩ := h.next
    obtain ⟨right, hv⟩ := p _ hu
    obtain ⟨all, hw⟩ := q _ hv
    simp only [behind_behind] at right all hw
    rw [Reader.chain_of_joins hk]
    exact ⟨.link h.current? hk hnext right all, hw⟩
  case stop =>
    intro level left r hk s h
    rw [Reader.chain_of_not_joins hk]
    have hb : s.behind ⟨left, [], r⟩ = s := Shows.behind_eq_self (x := ⟨left, [], r⟩) h rfl
    constructor
    · rw [hb]
      exact .stop h.current? hk
    · rw [hb]
      exact h

/-- Whatever is asked of the tape, it answers as the reader does and shows the reader behind it. -/
theorem Shows.answers (h : s.Shows r) (call : Call) :
    s.Answers call (r.answer call).result (s.behind (r.answer call)) ∧
      (s.behind (r.answer call)).Shows (r.answer call).reader := by
  cases call with
  | current =>
    have hb : s.behind (r.answer .current) = s :=
      Shows.behind_eq_self (x := r.answer .current) h rfl
    rw [hb]
    exact ⟨.current h.current?, h⟩
  | next =>
    obtain ⟨hnext, hu⟩ := h.next
    exact ⟨.next hnext, hu⟩
  | expect kind =>
    obtain ⟨hexpect, hu⟩ := h.expect kind
    exact ⟨.expect hexpect, hu⟩
  | phrase level =>
    obtain ⟨hreads, hu⟩ := yields_phrase_chain.1 level r s h
    exact ⟨.phrase hreads, hu⟩

theorem Shows.extends_behind (h : s.Shows r) (call : Call) :
    s.Extends (s.behind (r.answer call)) := by
  refine ⟨rfl, ?_, List.prefix_append _ _⟩
  have hle := r.answer_reader_le call
  have hlength := h.length_ahead
  have hposition := h.position_le
  simp only [behind]
  omega

end

/-- Reading has one outcome at most, for at every token only one step is open. -/
theorem Reads.unique {goal : Goal} {s u : Tape} {e : Expr} (h : Reads goal s e u) :
    ∀ {f : Expr} {v : Tape}, Reads goal s f v → f = e ∧ v = u := by
  induction h with
  | joined ho _ _ ihf iha =>
    intro f v h'
    cases h' with
    | joined ho' hf ha =>
      obtain rfl := Option.some.inj (ho.symm.trans ho')
      obtain ⟨rfl, rfl⟩ := ihf hf
      exact iha ha
    | group => cases ho
    | number => cases ho
  | group ht hk hn _ hc ih =>
    intro f v h'
    cases h' with
    | joined ho' => cases ho'
    | group ht' hk' hn' hi' hc' =>
      obtain ⟨rfl, rfl⟩ := Prod.mk.inj (Option.some.inj (hn.symm.trans hn'))
      obtain ⟨rfl, rfl⟩ := ih hi'
      obtain ⟨rfl, rfl⟩ := Prod.mk.inj (Option.some.inj (hc.symm.trans hc'))
      exact ⟨rfl, rfl⟩
    | number ht' hk' _ =>
      obtain rfl := Option.some.inj (ht.symm.trans ht')
      exact absurd hk hk'
  | number ht hk hn =>
    intro f v h'
    cases h' with
    | joined ho' => cases ho'
    | group ht' hk' _ _ _ =>
      obtain rfl := Option.some.inj (ht.symm.trans ht')
      exact absurd hk' hk
    | number ht' hk' hn' =>
      obtain ⟨rfl, rfl⟩ := Prod.mk.inj (Option.some.inj (hn.symm.trans hn'))
      exact ⟨rfl, rfl⟩
  | link ht hj hn _ _ ihr iha =>
    intro f v h'
    cases h' with
    | link ht' hj' hn' hr' ha' =>
      obtain ⟨rfl, rfl⟩ := Prod.mk.inj (Option.some.inj (hn.symm.trans hn'))
      obtain ⟨rfl, rfl⟩ := ihr hr'
      exact iha ha'
    | stop ht' hj' =>
      obtain rfl := Option.some.inj (ht.symm.trans ht')
      simp [hj] at hj'
  | stop ht hj =>
    intro f v h'
    cases h' with
    | link ht' hj' _ _ _ =>
      obtain rfl := Option.some.inj (ht.symm.trans ht')
      simp [hj] at hj'
    | stop => exact ⟨rfl, rfl⟩

theorem Answers.unique {s u v : Tape} {call : Call} {node node' : Node}
    (h : s.Answers call node u) (h' : s.Answers call node' v) : node' = node ∧ v = u := by
  cases h with
  | current ht =>
    cases h' with
    | current ht' => exact ⟨congrArg Node.token (Option.some.inj (ht'.symm.trans ht)), rfl⟩
  | next ht =>
    cases h' with
    | next ht' =>
      obtain ⟨rfl, rfl⟩ := Prod.mk.inj (Option.some.inj (ht'.symm.trans ht))
      exact ⟨rfl, rfl⟩
  | expect ht =>
    cases h' with
    | expect ht' =>
      obtain ⟨rfl, rfl⟩ := Prod.mk.inj (Option.some.inj (ht'.symm.trans ht))
      exact ⟨rfl, rfl⟩
  | phrase hr =>
    cases h' with
    | phrase hr' =>
      obtain ⟨rfl, rfl⟩ := hr.unique hr'
      exact ⟨rfl, rfl⟩

theorem Shows.answers_iff {s u : Tape} {r : Reader} (h : s.Shows r) {call : Call} {node : Node} :
    s.Answers call node u ↔ node = (r.answer call).result ∧ u = s.behind (r.answer call) := by
  constructor
  · intro ha
    exact (h.answers call).1.unique ha
  · rintro ⟨rfl, rfl⟩
    exact (h.answers call).1

/-- The reader of what is ahead on the tape of a text. -/
def reader (s : Tape) (text : String) : Reader where
  ahead := s.buffer.drop s.position
  endPosition := text.utf8ByteSize

/-- The tape is that of the text, whatever has been taken from it. -/
structure IsOf (s : Tape) (text : String) : Prop where
  buffer_eq : s.buffer = Calculator.buffer text
  position_le : s.position ≤ s.buffer.length

theorem isOf_ofText (text : String) : (ofText text).IsOf text := ⟨rfl, Nat.zero_le _⟩

/-- What expecting a kind yields and leaves, by the current token. -/
inductive Expects (s : Tape) (kind : Token.Kind) (t : Token) : Node → Tape → Prop
  | taken : t.kind = kind → s.position < s.buffer.length →
      Expects s kind t (.token t) { s with position := s.position + 1 }
  /-- All tokens are taken, and the end of input stays where it is. -/
  | again : t.kind = kind → kind = .endOfInput → s.position = s.buffer.length →
      Expects s kind t (.token t) s
  | missing : t.kind ≠ kind → Expects s kind t (.token (Token.placeholder kind t.position))
      (s.record ⟨.unexpectedToken t.kind kind, t.position⟩)

/-- The end of input is the current token, and a phrase of any level is a missing number there,
for which nothing is taken. -/
structure IsAtEnd (s : Tape) (endPosition : Nat) : Prop where
  current? : s.current? = some (Token.endOfInput endPosition)
  answers_phrase : ∀ level node u, s.Answers (.phrase level) node u ↔
    node = .expr (.number (Token.placeholder .number endPosition)) ∧
      u = s.record ⟨.unexpectedToken .endOfInput .number, endPosition⟩

namespace IsOf

variable {s u : Tape} {text : String} {call : Call} {node : Node}

theorem shows (h : s.IsOf text) : s.Shows (s.reader text) := by
  refine ⟨h.position_le, rfl, ?_⟩
  rw [h.buffer_eq, buffer_eq_words, List.getLast?_concat]
  rfl

theorem extends_of_answers (h : s.IsOf text) (ha : s.Answers call node u) :
    s.Extends u ∧ u.IsOf text := by
  obtain ⟨-, rfl⟩ := h.shows.answers_iff.1 ha
  exact ⟨h.shows.extends_behind call, h.buffer_eq, Nat.sub_le _ _⟩

theorem extends_of_runs (h : s.IsOf text) {calls : List Call} {nodes : List Node}
    (hr : s.Runs calls nodes u) : s.Extends u ∧ u.IsOf text := by
  induction hr with
  | nil s => exact ⟨.refl s, h⟩
  | cons ha _ ih =>
    obtain ⟨hext, hof⟩ := h.extends_of_answers ha
    obtain ⟨hext', hof'⟩ := ih hof
    exact ⟨hext.trans hext', hof'⟩

theorem exists_runs (h : s.IsOf text) (calls : List Call) : ∃ nodes u, s.Runs calls nodes u := by
  induction calls generalizing s with
  | nil => exact ⟨[], s, .nil s⟩
  | cons call calls ih =>
    have ha := (h.shows.answers call).1
    obtain ⟨nodes, u, hr⟩ := ih (h.extends_of_answers ha).2
    exact ⟨_, u, .cons ha hr⟩

/-- The last token is the current one when it is all that is left, and also when it is taken. -/
theorem reader_current (h : s.IsOf text) (he : s.buffer.length ≤ s.position + 1) :
    (s.reader text).current = Token.endOfInput text.utf8ByteSize := by
  have hpos := h.shows.length_pos
  have hcurrent := h.shows.current?
  rw [current?, peek?, Nat.add_zero, Nat.min_eq_right (by omega), ← List.getLast?_eq_getElem?,
    h.shows.getLast?] at hcurrent
  exact (Option.some.inj hcurrent).symm

theorem expects (h : s.IsOf text) {kind : Token.Kind} (ha : s.Answers (.expect kind) node u) :
    ∃ t, s.current? = some t ∧ s.Expects kind t node u := by
  have ht := h.shows.current?
  refine ⟨_, ht, ?_⟩
  cases ha with
  | expect he =>
    by_cases hk : (s.reader text).current.kind = kind
    · rw [expect?_of_eq ht hk] at he
      obtain ⟨rfl, rfl⟩ := Prod.mk.inj (Option.some.inj he)
      rcases Nat.lt_or_eq_of_le h.position_le with hlt | heq
      · rw [advanced, if_pos hlt]
        exact .taken hk hlt
      · have hend := h.reader_current (by omega)
        rw [hend] at hk
        rw [advanced, if_neg (by omega), hend]
        exact .again hk hk.symm heq
    · rw [expect?_of_ne ht hk] at he
      obtain ⟨rfl, rfl⟩ := Prod.mk.inj (Option.some.inj he)
      exact .missing hk

theorem isAtEnd (h : s.IsOf text) (he : s.buffer.length ≤ s.position + 1) :
    s.IsAtEnd text.utf8ByteSize := by
  have hend := h.reader_current he
  have hkind : (s.reader text).current.kind = .endOfInput := by rw [hend, Token.endOfInput]
  refine ⟨h.shows.current?.trans (congrArg some hend), fun level node u => ?_⟩
  rw [h.shows.answers_iff, Reader.answer, Reader.phrase_of_endOfInput hkind,
    Shows.behind_eq h.shows, Reader.missingNumber, hend]
  rfl

end IsOf

/-- A line is read by asking its tape for a term and expecting the end of input behind it. -/
theorem runs_line (text : String) : ∃ s, (ofText text).Runs [.phrase .term, .expect .endOfInput]
    [.expr (Line.ofText text).root, .token (Line.ofText text).endToken] s ∧
    s.recorded = (Line.ofText text).syntactic := by
  obtain ⟨hroot, hs⟩ := (isOf_ofText text).shows.answers (.phrase .term)
  obtain ⟨hend, -⟩ := hs.answers (.expect .endOfInput)
  exact ⟨_, .cons hroot (.cons hend (.nil _)), rfl⟩

/-- Whatever is asked of the tape of a text, every call ends, and as the reader of what is ahead
says; the line of the text is what the calls for a term and for the end of input behind it
yield. The tokens of the text stay on the tape, with the end of input as the last and no blanks or
bad characters among them. The position never goes back or beyond the number of tokens, so that
there is always a current token, and what was recorded stays in front of what is recorded later.
Expecting a kind either yields the current token and records nothing, or leaves the position and
records one diagnostic. A token that is yielded moves the position by one, unless all are taken; it
is the end of input then, which stays. Once only the end of input is left it is the current token,
also when it has been taken, and no phrase takes anything. -/
theorem runs_of_text (text : String) :
    (∃ ts, Calculator.buffer text = ts ++ [Token.endOfInput text.utf8ByteSize] ∧
      ∀ t ∈ ts, t.kind ≠ .whitespace ∧ t.kind ≠ .bad ∧ t.kind ≠ .endOfInput) ∧
    (∃ s, (ofText text).Runs [.phrase .term, .expect .endOfInput]
      [.expr (Line.ofText text).root, .token (Line.ofText text).endToken] s ∧
      s.recorded = (Line.ofText text).syntactic) ∧
    (∀ calls, ∃ nodes s, (ofText text).Runs calls nodes s) ∧
    ∀ front nodes s, (ofText text).Runs front nodes s →
      s.buffer = Calculator.buffer text ∧ s.position ≤ s.buffer.length ∧
      (∃ h : min s.position (s.buffer.length - 1) < s.buffer.length,
        s.current? = some s.buffer[min s.position (s.buffer.length - 1)]) ∧
      (∀ call node u, s.Answers call node u ↔
        node = ((s.reader text).answer call).result ∧
          u = s.behind ((s.reader text).answer call)) ∧
      (∀ kind node u, s.Answers (.expect kind) node u →
        ∃ t, s.current? = some t ∧ s.Expects kind t node u) ∧
      ∀ back nodes' u, s.Runs back nodes' u → s.Extends u ∧
        (s.buffer.length ≤ s.position + 1 → u.IsAtEnd text.utf8ByteSize) := by
  obtain ⟨ts, hbuffer, hends⟩ := Reader.isEnded_ofText text
  refine ⟨⟨ts, hbuffer, fun t ht => ?_⟩, runs_line text, (isOf_ofText text).exists_runs,
    fun front nodes s hr => ?_⟩
  · have hmem : t ∈ (Reader.ofText text).ahead := by
      rw [hbuffer]
      exact List.mem_append_left _ ht
    obtain ⟨hblank, hbad⟩ : t.kind ≠ .whitespace ∧ t.kind ≠ .bad := by
      simpa [Token.isMeaningful] using List.of_mem_filter hmem
    exact ⟨hblank, hbad, hends t ht⟩
  · obtain ⟨-, h⟩ := (isOf_ofText text).extends_of_runs hr
    have hpos := h.shows.length_pos
    refine ⟨h.buffer_eq, h.position_le, ⟨by omega, ?_⟩, fun call node u => h.shows.answers_iff,
      fun kind node u => h.expects, fun back nodes' u hback => ?_⟩
    · rw [current?, peek?, Nat.add_zero, List.getElem?_eq_getElem]
    · obtain ⟨hext, hof⟩ := h.extends_of_runs hback
      refine ⟨hext, fun he => hof.isAtEnd ?_⟩
      have := hext.position_le
      rw [hext.buffer_eq]
      omega

/-- The end of input that has been taken may be expected again, which neither moves the position nor
records anything. -/
theorem not_forall_expect_moves_or_records : ¬ ∀ text calls nodes s,
    (ofText text).Runs calls nodes s → ∀ kind node u, s.Answers (.expect kind) node u →
      (∃ t, s.current? = some t ∧ t.kind = kind ∧ node = .token t ∧
        u.position = s.position + 1 ∧ u.recorded = s.recorded) ∨
      (u.position = s.position ∧ ∃ d, u.recorded = s.recorded ++ [d]) := by
  intro h
  let s : Tape := ⟨[Token.endOfInput 0], 1, []⟩
  have htaken : (ofText "").Answers (.expect .endOfInput) (.token (Token.endOfInput 0)) s :=
    .expect (by decide +kernel)
  have hagain : s.Answers (.expect .endOfInput) (.token (Token.endOfInput 0)) s := .expect rfl
  rcases h "" _ _ s (.cons htaken (.nil s)) _ _ s hagain with ⟨-, -, -, -, hmoved, -⟩ | ⟨-, d, hd⟩
  · cases hmoved
  · cases hd

end Tape

end Calculator
