import Calculator.Proofs.Acceptance

/-!
# Placeholders

A line is read from a buffer of tokens, of which its tree takes some from the front. Where
the tree has a placeholder instead, the buffer had another token at its front, and exactly
one diagnostic names the two kinds. `Mends` is this relation between a buffer, the tokens
of a tree and the diagnostics; it knows of no reader, so that every count about them is an
induction on a list. Which kinds a placeholder may have, and when one is put in, is a matter
of the grammar and not said here.
-/
namespace Calculator

/-- The tokens of a text that its grammar looks at, with the end of input as the last. -/
def buffer (text : String) : List Token :=
  (tokens text).filter Token.isMeaningful

theorem buffer_eq_words (text : String) :
    buffer text = words 0 text.toList ++ [Token.endOfInput text.utf8ByteSize] :=
  ahead_ofText text

/-- The token comes from the text itself. -/
def Token.isScanned (t : Token) : Bool := !t.isPlaceholder

theorem isScanned_of_mem_buffer {text : String} {t : Token} (h : t ∈ buffer text) :
    t.isScanned = true := by
  have ht := List.mem_of_mem_filter h
  rw [tokens_eq, List.mem_append, List.mem_singleton] at ht
  rcases ht with ht | rfl
  · obtain ⟨x, -, rfl⟩ := List.mem_map.1 ht
    rfl
  · rfl

/-- Tokens that stand for the front of a buffer, with a diagnostic for each one that is not
there. -/
inductive Mends : List Token → List Token → List Diagnostic → Prop
  | nil (buffer : List Token) : Mends buffer [] []
  | take {t : Token} {buffer ts : List Token} {ds : List Diagnostic} : t.isScanned = true →
      Mends buffer ts ds → Mends (t :: buffer) (t :: ts) ds
  | insert {t : Token} {buffer ts : List Token} {ds : List Diagnostic} {k : Token.Kind} :
      t.kind ≠ k → Mends (t :: buffer) ts ds →
      Mends (t :: buffer) (Token.placeholder k t.position :: ts)
        (⟨.unexpectedToken t.kind k, t.position⟩ :: ds)

namespace Mends

variable {buffer ts : List Token} {ds : List Diagnostic}

/-- The tokens that are there are the front of the buffer, each of them once. -/
theorem filter_isScanned (h : Mends buffer ts ds) :
    ts.filter Token.isScanned = buffer.take (ts.countP Token.isScanned) := by
  induction h with
  | nil buffer => simp
  | take ht _ ih => simp [ht, ih]
  | insert hk _ ih => simpa [Token.isScanned, Token.placeholder] using ih

theorem length_diagnostics (h : Mends buffer ts ds) :
    ds.length = ts.countP Token.isPlaceholder := by
  induction h with
  | nil buffer => rfl
  | take ht _ ih =>
    rw [Token.isScanned, Bool.not_eq_true'] at ht
    simp [ht, ih]
  | insert hk _ ih => simp [Token.placeholder, ih]

theorem exists_unexpectedToken (h : Mends buffer ts ds) :
    ∀ d ∈ ds, ∃ actual expected, d.cause = .unexpectedToken actual expected := by
  induction h with
  | nil buffer => simp
  | take _ _ ih => exact ih
  | insert _ _ ih => exact List.forall_mem_cons.2 ⟨⟨_, _, rfl⟩, ih⟩

/-- The diagnostic of a placeholder is the one with as many before it as there are
placeholders before, and it names the first token that is not taken before. -/
theorem reported (h : Mends buffer ts ds) {front back : List Token} {p : Token}
    (hts : ts = front ++ p :: back) (hp : p.isPlaceholder = true) :
    ∃ t, buffer[front.countP Token.isScanned]? = some t ∧
      ds[front.countP Token.isPlaceholder]? =
        some ⟨.unexpectedToken t.kind p.kind, p.position⟩ ∧
      t.kind ≠ p.kind ∧ p.position = t.position := by
  induction h generalizing front with
  | nil buffer => simp at hts
  | @take t buffer ts ds ht _ ih =>
    rw [Token.isScanned, Bool.not_eq_true'] at ht
    cases front with
    | nil =>
      -- A token that is taken is no placeholder.
      rw [List.nil_append, List.cons.injEq] at hts
      rw [← hts.1, ht] at hp
      cases hp
    | cons u front =>
      rw [List.cons_append, List.cons.injEq] at hts
      obtain ⟨rfl, hts⟩ := hts
      simpa [Token.isScanned, ht] using ih hts
  | @insert t buffer ts ds k hk _ ih =>
    cases front with
    | nil =>
      rw [List.nil_append, List.cons.injEq] at hts
      obtain ⟨rfl, rfl⟩ := hts
      exact ⟨t, rfl, rfl, hk, rfl⟩
    | cons u front =>
      rw [List.cons_append, List.cons.injEq] at hts
      obtain ⟨rfl, hts⟩ := hts
      simpa [Token.isScanned, Token.placeholder] using ih hts

end Mends

namespace Reader

namespace Repair

variable {r behind : Reader} {ts : List Token} {ds : List Diagnostic}

/-- Repairs mend what is ahead of a reader, and so do they with more behind them. -/
theorem mends (h : Repair r ts ds behind) (hr : r.IsEnded)
    (hs : ∀ t ∈ r.ahead, t.isScanned = true) {us : List Token} {es : List Diagnostic}
    (hm : Mends behind.ahead us es) : Mends r.ahead (ts ++ us) (ds ++ es) := by
  induction h with
  | done r => exact hm
  | @take r behind ts ds hk _ ih =>
    have ha := ahead_eq_cons hr.ahead_ne_nil
    rw [ha] at hs ⊢
    exact .take (hs _ (by simp)) (ih (hr.rest hk) (fun t ht => hs t (by simp [ht])) hm)
  | @insert r behind ts ds k _ hk _ ih =>
    have h := ih hr hs hm
    rw [ahead_eq_cons hr.ahead_ne_nil] at h ⊢
    exact .insert hk h

/-- What is left behind a repair is what it has not taken. -/
theorem ahead_behind (h : Repair r ts ds behind) (hs : ∀ t ∈ r.ahead, t.isScanned = true) :
    behind.ahead = r.ahead.drop (ts.countP Token.isScanned) := by
  induction h with
  | done r => rfl
  | @take r behind ts ds hk _ ih =>
    have ha := ahead_eq_cons (ahead_ne_nil_of_current hk)
    rw [ha] at hs ⊢
    rw [ih fun t ht => hs t (by simp [ht]), List.countP_cons_of_pos (hs _ (by simp)),
      List.drop_succ_cons]
  | insert _ _ _ ih => simpa [Token.isScanned, Token.placeholder] using ih hs

theorem kind_ne_endOfInput (h : Repair r ts ds behind) : ∀ t ∈ ts, t.kind ≠ .endOfInput := by
  induction h with
  | done r => simp
  | take hk _ ih => simpa [hk] using ih
  | insert hk _ _ ih =>
    intro t ht
    rcases List.mem_cons.1 ht with rfl | ht
    · rcases hk with rfl | rfl <;> simp [Token.placeholder]
    · exact ih t ht

/-- Placeholders stand for numbers and closing parentheses only. -/
theorem canBeMissing (h : Repair r ts ds behind) (hs : ∀ t ∈ r.ahead, t.isScanned = true) :
    ∀ t ∈ ts, t.isScanned = false → CanBeMissing t.kind := by
  induction h with
  | done r => simp
  | @take r behind ts ds hk _ ih =>
    have ha := ahead_eq_cons (ahead_ne_nil_of_current hk)
    rw [ha] at hs
    have hc : r.current.isScanned = true := hs _ (by simp)
    simpa [hc] using ih fun t ht => hs t (by simp [ht])
  | insert hk _ _ ih =>
    intro t ht
    rcases List.mem_cons.1 ht with rfl | ht
    · exact fun _ => hk
    · exact ih hs t ht

end Repair

theorem mends_expect {r : Reader} (h : r.ahead ≠ []) (hs : ∀ t ∈ r.ahead, t.isScanned = true)
    (k : Token.Kind) : Mends r.ahead [(r.expect k).result] (r.expect k).diagnostics := by
  have ha := ahead_eq_cons h
  by_cases hk : r.current.kind = k
  · rw [expect_of_eq hk, ha]
    exact .take (hs _ (by rw [ha]; simp)) (.nil _)
  · rw [expect_of_ne hk, ha]
    exact .insert hk (.nil _)

/-- The reader behind the term of a text. -/
def behindTerm (text : String) : Reader := ((ofText text).phrase .term).reader

theorem isEnded_behindTerm (text : String) : (behindTerm text).IsEnded :=
  ((phrase_repair .term (ofText text)).isEnded (isEnded_ofText text)).1

theorem ahead_behindTerm (text : String) : (behindTerm text).ahead =
    (buffer text).drop ((Line.ofText text).root.tokens.countP Token.isScanned) :=
  (phrase_repair .term (ofText text)).ahead_behind fun _ ht => isScanned_of_mem_buffer ht

theorem mends_behindTerm (text : String) : Mends (behindTerm text).ahead
    [((behindTerm text).expect .endOfInput).result]
    ((behindTerm text).expect .endOfInput).diagnostics := by
  refine mends_expect (isEnded_behindTerm text).ahead_ne_nil (fun t ht => ?_) .endOfInput
  rw [ahead_behindTerm] at ht
  exact isScanned_of_mem_buffer (List.mem_of_mem_drop ht)

end Reader

namespace Line

/-- The tokens of the tree mend the buffer, with whatever mends the rest behind them. -/
theorem mends_root (text : String) {us : List Token} {es : List Diagnostic}
    (h : Mends (Reader.behindTerm text).ahead us es) :
    Mends (buffer text) ((ofText text).root.tokens ++ us)
      (((Reader.ofText text).phrase .term).diagnostics ++ es) :=
  (Reader.phrase_repair .term (Reader.ofText text)).mends (Reader.isEnded_ofText text)
    (fun _ ht => isScanned_of_mem_buffer ht) h

/-- The tokens of the tree and the token that ends the line mend the buffer. -/
theorem mends (text : String) : Mends (buffer text)
    ((ofText text).root.tokens ++ [(ofText text).endToken]) (ofText text).syntactic :=
  mends_root text (Reader.mends_behindTerm text)

/-- The scanned tokens of the tree are the front of the buffer. -/
theorem filter_isScanned_root (text : String) :
    (ofText text).root.tokens.filter Token.isScanned =
      (buffer text).take ((ofText text).root.tokens.countP Token.isScanned) := by
  have h := mends_root text (.nil _)
  rw [List.append_nil] at h
  exact h.filter_isScanned

theorem root_kind_ne_endOfInput (text : String) :
    ∀ t ∈ (ofText text).root.tokens, t.kind ≠ .endOfInput :=
  (Reader.phrase_repair .term (Reader.ofText text)).kind_ne_endOfInput

theorem canBeMissing_root (text : String) :
    ∀ t ∈ (ofText text).root.tokens, t.isScanned = false → Reader.CanBeMissing t.kind :=
  (Reader.phrase_repair .term (Reader.ofText text)).canBeMissing fun _ ht =>
    isScanned_of_mem_buffer ht

/-- The token that ends a line is the last one of the buffer if the tree has taken all others,
and else stands in for it at the first token that is left over. -/
theorem endToken_eq (text : String) :
    ∃ t, (buffer text)[(ofText text).root.tokens.countP Token.isScanned]? = some t ∧
      (ofText text).endToken =
        if (ofText text).root.tokens.countP Token.isScanned + 1 = (buffer text).length then t
        else Token.placeholder .endOfInput t.position := by
  have hended := Reader.isEnded_behindTerm text
  have hcons := Reader.ahead_eq_cons hended.ahead_ne_nil
  have hahead := Reader.ahead_behindTerm text
  refine ⟨(Reader.behindTerm text).current, ?_, ?_⟩
  · rw [← List.head?_drop, ← hahead, hcons]
    rfl
  · have hlength := congrArg List.length hahead
    rw [List.length_drop] at hlength
    change ((Reader.behindTerm text).expect .endOfInput).result = _
    by_cases hk : (Reader.behindTerm text).current.kind = .endOfInput
    · rw [hended.ahead_eq hk, List.length_singleton] at hlength
      rw [Reader.expect_of_eq hk, if_pos (by omega)]
    · have hrest := List.length_pos_iff.2 (hended.rest hk).ahead_ne_nil
      rw [hcons, List.length_cons] at hlength
      rw [Reader.expect_of_ne hk, if_neg (by omega)]

/-- A line whose end is there has been taken to its end. -/
theorem length_buffer_of_endToken {text : String}
    (h : (ofText text).endToken.isPlaceholder = false) :
    (ofText text).root.tokens.countP Token.isScanned + 1 = (buffer text).length := by
  obtain ⟨t, -, hend⟩ := endToken_eq text
  by_contra hne
  rw [hend, if_neg hne] at h
  cases h

/-- If a line is taken to its end, its tree has all tokens but the end of input. -/
theorem filter_isScanned_eq_dropLast {text : String}
    (h : (ofText text).endToken.isPlaceholder = false) :
    (ofText text).root.tokens.filter Token.isScanned = (buffer text).dropLast := by
  rw [filter_isScanned_root, List.dropLast_eq_take, ← length_buffer_of_endToken h,
    Nat.add_sub_cancel]

theorem endToken_eq_endOfInput {text : String}
    (h : (ofText text).endToken.isPlaceholder = false) :
    (ofText text).endToken = Token.endOfInput text.utf8ByteSize := by
  obtain ⟨t, ht, hend⟩ := endToken_eq text
  have hlength := length_buffer_of_endToken h
  have hlast : (buffer text).getLast? = some t := by
    rw [List.getLast?_eq_getElem?, ← hlength, Nat.add_sub_cancel, ht]
  rw [buffer_eq_words, List.getLast?_concat, Option.some.injEq] at hlast
  rw [hend, if_pos hlength, hlast]

/-- The tree of a text takes tokens from the front of the buffer, as they are and in their
order, and never the end of input. Each placeholder, the one that may end the line included,
goes with one diagnostic, in the same order: it names the kind of the first token that is not
taken yet and the kind of the placeholder, which differ, at the position of both. So nothing
is reported exactly if there is no placeholder. -/
theorem placeholders_reported (text : String) :
    (∃ j t, (buffer text)[j]? = some t ∧
      (ofText text).root.tokens.filter Token.isScanned = (buffer text).take j ∧
      (∀ u ∈ (buffer text).take j, u.kind ≠ .endOfInput) ∧
      (ofText text).endToken = if j + 1 = (buffer text).length then t
        else Token.placeholder .endOfInput t.position) ∧
    (ofText text).syntactic.length =
      ((ofText text).root.tokens ++ [(ofText text).endToken]).countP Token.isPlaceholder ∧
    (∀ front p back,
      (ofText text).root.tokens ++ [(ofText text).endToken] = front ++ p :: back →
      p.isPlaceholder = true →
      ∃ u, (buffer text)[front.countP Token.isScanned]? = some u ∧
        (ofText text).syntactic[front.countP Token.isPlaceholder]? =
          some ⟨.unexpectedToken u.kind p.kind, p.position⟩ ∧
        u.kind ≠ p.kind ∧ p.position = u.position) ∧
    ((∀ u ∈ (ofText text).root.tokens ++ [(ofText text).endToken], u.isPlaceholder = false) ↔
      (ofText text).syntactic = []) := by
  have hm := mends text
  have hlength := hm.length_diagnostics
  refine ⟨?_, hlength, fun front p back h hp => hm.reported h hp, ?_⟩
  · obtain ⟨t, ht, hend⟩ := endToken_eq text
    refine ⟨_, t, ht, filter_isScanned_root text, fun u hu => ?_, hend⟩
    rw [← filter_isScanned_root] at hu
    exact root_kind_ne_endOfInput text u (List.mem_of_mem_filter hu)
  · rw [← List.length_eq_zero_iff, hlength, List.countP_eq_zero]
    simp only [Bool.not_eq_true]

end Line

end Calculator
