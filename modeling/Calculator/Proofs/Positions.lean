import Calculator.Proofs.Nodes
import Calculator.Proofs.Printing

/-!
# Positions

What the positions in a read line say of its text. A token that was scanned is found in the
bytes of the text at its position, and a placeholder has the position of a scanned token; so
all positions are boundaries of characters. From left to right the positions of tokens never
decrease, and what is found at one of them ends before the next.

The order comes from the buffer, whose tokens stand where their lexemes are placed. A tree
mends its buffer, and by induction on this the order passes to the tokens of the tree. The
position of an expression is that of its first token, which is in front of all its others. A
fault has the position of an operator, and hence its sign is found there.
-/
namespace Calculator

/-- The bytes of a piece are found in a text, from an offset on. -/
def Shows (text : String) (position : Nat) (piece : String) : Prop :=
  text.toByteArray.extract position (position + piece.utf8ByteSize) = piece.toByteArray

theorem shows_append (before piece after : String) :
    Shows (before ++ (piece ++ after)) before.utf8ByteSize piece := by
  have hsize : ∀ s : String, s.toByteArray.size = s.utf8ByteSize := fun _ =>
    String.size_toByteArray
  rw [Shows, String.toByteArray_append, String.toByteArray_append]
  calc (before.toByteArray ++ (piece.toByteArray ++ after.toByteArray)).extract
        before.utf8ByteSize (before.utf8ByteSize + piece.utf8ByteSize)
      = (before.toByteArray ++ (piece.toByteArray ++ after.toByteArray)).extract
          (before.toByteArray.size + 0) (before.toByteArray.size + piece.utf8ByteSize) := by
        rw [hsize, Nat.add_zero]
    _ = (piece.toByteArray ++ after.toByteArray).extract 0 piece.utf8ByteSize :=
        ByteArray.extract_append_size_add
    _ = piece.toByteArray := ByteArray.extract_append_eq_left (hsize piece).symm

/-- An offset between two characters of a text, or at one of its ends. -/
def IsBoundary (text : String) (position : Nat) : Prop :=
  (String.Pos.Raw.mk position).IsValid text

theorem isBoundary_append (before after : String) :
    IsBoundary (before ++ after) before.utf8ByteSize :=
  String.Pos.Raw.isValid_iff_exists_append.2 ⟨before, after, rfl, rfl⟩

theorem IsBoundary.le {text : String} {position : Nat} (h : IsBoundary text position) :
    position ≤ text.utf8ByteSize := by
  obtain ⟨before, after, rfl, hp⟩ := String.Pos.Raw.isValid_iff_exists_append.1 h
  have hsize : position = before.utf8ByteSize := congrArg String.Pos.Raw.byteIdx hp
  rw [String.utf8ByteSize_append]
  omega

/-- A lexeme is found in its text where it is placed. -/
theorem exists_append_of_mem_placed {text : String} {x : Nat × Lexeme}
    (h : x ∈ placed 0 (lexemes text.toList)) :
    ∃ before after, before ++ (x.2.text ++ after) = text ∧ before.utf8ByteSize = x.1 := by
  obtain ⟨xs, ys, hxy⟩ := List.append_of_mem h
  obtain ⟨hls, hx⟩ := eq_of_placed_eq hxy
  refine ⟨String.ofList ((xs.map Prod.snd).flatMap Lexeme.chars),
    String.ofList ((ys.map Prod.snd).flatMap Lexeme.chars), ?_, ?_⟩
  · have htext := flatMap_chars_lexemes text.toList
    rw [hls, List.flatMap_append, List.flatMap_cons] at htext
    rw [Lexeme.text, ← String.ofList_append, ← String.ofList_append, htext, String.ofList_toList]
  · rw [utf8ByteSize_ofList, hx, Nat.zero_add]

section Buffer

variable {text : String} {t : Token}

theorem isBoundary_of_mem_buffer (ht : t ∈ buffer text) : IsBoundary text t.position := by
  rcases exists_lexeme_of_mem_buffer ht with ⟨x, hx, rfl⟩ | rfl
  · obtain ⟨before, after, htext, hsize⟩ := exists_append_of_mem_placed hx
    have h := isBoundary_append before (x.2.text ++ after)
    rwa [htext, hsize] at h
  · have h := isBoundary_append text ""
    rwa [String.append_empty] at h

/-- All words have a text, and it is found at their positions. -/
theorem exists_text_of_mem_buffer (ht : t ∈ buffer text) (hk : t.kind ≠ .endOfInput) :
    ∃ s, t.text = some s ∧ Shows text t.position s := by
  rcases exists_lexeme_of_mem_buffer ht with ⟨x, hx, rfl⟩ | rfl
  · obtain ⟨before, after, htext, hsize⟩ := exists_append_of_mem_placed hx
    have h := shows_append before x.2.text after
    rw [htext, hsize] at h
    have hm := (isMeaningful_token x.2 x.1).1 (List.mem_filter.1 ht).2
    exact ⟨x.2.text, if_neg hm.1, h⟩
  · exact absurd rfl hk

theorem text_eq_symbol_of_mem_buffer (ht : t ∈ buffer text) {op : Operator}
    (hop : Operator.ofKind? t.kind = some op) : t.text = some op.symbol := by
  have hk : t.kind = op.kind := Operator.ofKind?_eq_some_iff.1 hop
  rcases exists_lexeme_of_mem_buffer ht with ⟨x, hx, rfl⟩ | rfl
  · have hsign := isSign_operator op
    have hl : x.2 = ⟨op.kind, op.symbol.toList⟩ :=
      hsign.eq_of_kind (isWhole_of_mem_placed hx) hk
    rw [hl, hsign.token_eq]
    rfl
  · cases hop

end Buffer

/-- One token stands in front of another: not behind it, nor at the same place if both come from
the text, and its own text has ended there. -/
structure Token.Precedes (t u : Token) : Prop where
  le : t.position ≤ u.position
  lt : t.isScanned = true → u.isScanned = true → t.position < u.position
  ends : ∀ s, t.text = some s → t.position + s.utf8ByteSize ≤ u.position

theorem Lexeme.IsWhole.precedes {l : Lexeme} (h : l.IsWhole) {q : Nat} {u : Token}
    (hq : q + byteLength l.chars ≤ u.position) : (l.token q).Precedes u := by
  have hpos := byteLength_pos h.ne_nil
  have hp : (l.token q).position = q := rfl
  constructor
  · omega
  · intros
    omega
  · intro s hs
    have hsize : s.utf8ByteSize = byteLength l.chars := by
      simp only [token, Option.ite_none_left_eq_some, Option.some.injEq] at hs
      rw [← hs.2, text, utf8ByteSize_ofList]
    omega

theorem buffer_pairwise_precedes (text : String) : (buffer text).Pairwise Token.Precedes :=
  (tokens_pairwise (fun _ _ _ hl hq => hl.precedes hq) text).filter _

namespace Mends

variable {buffer ts : List Token} {ds : List Diagnostic}

/-- Every token has the position of one in the buffer, and is that one if it is scanned. -/
theorem exists_mem_buffer (h : Mends buffer ts ds) :
    ∀ u ∈ ts, ∃ t ∈ buffer, u.position = t.position ∧ (u.isScanned = true → u = t) := by
  induction h with
  | nil buffer => simp
  | take ht _ ih =>
    rw [List.forall_mem_cons]
    refine ⟨⟨_, by simp, rfl, fun _ => rfl⟩, fun u hu => ?_⟩
    obtain ⟨v, hv, h⟩ := ih u hu
    exact ⟨v, by simp [hv], h⟩
  | @insert t buffer ts ds k _ _ ih =>
    rw [List.forall_mem_cons]
    exact ⟨⟨t, by simp, rfl, fun hs => by cases hs⟩, ih⟩

/-- The order of a buffer passes to what mends it. A placeholder stands in front of the token
whose position it has, since nothing of it is in the text. -/
theorem pairwise_precedes (h : Mends buffer ts ds) (hs : ∀ t ∈ buffer, t.isScanned = true)
    (hb : buffer.Pairwise Token.Precedes) : ts.Pairwise Token.Precedes := by
  induction h with
  | nil buffer => exact .nil
  | take ht hm ih =>
    rw [List.pairwise_cons] at hb ⊢
    rw [List.forall_mem_cons] at hs
    refine ⟨fun u hu => ?_, ih hs.2 hb.2⟩
    obtain ⟨v, hv, hp, -⟩ := hm.exists_mem_buffer u hu
    have hprec := hb.1 v hv
    constructor
    · rw [hp]
      exact hprec.le
    · intro _ _
      rw [hp]
      exact hprec.lt ht (hs.2 v hv)
    · rw [hp]
      exact hprec.ends
  | @insert t buffer ts ds k hk hm ih =>
    rw [List.pairwise_cons]
    refine ⟨fun u hu => ?_, ih hs hb⟩
    obtain ⟨v, hv, hp, -⟩ := hm.exists_mem_buffer u hu
    constructor
    · -- The token is still to be taken, so that its position may come again.
      rw [hp]
      rcases List.mem_cons.1 hv with rfl | hv
      · exact Nat.le_refl _
      · exact ((List.pairwise_cons.1 hb).1 v hv).le
    · intro hscanned
      cases hscanned
    · intro s htext
      cases htext

end Mends

/-- Where the tokens of a tree stand one in front of the other, its position is at its front. -/
theorem Expr.position_le {e : Expr} (h : e.tokens.Pairwise Token.Precedes) :
    ∀ t ∈ e.tokens, e.position ≤ t.position := by
  have hhead := e.head?_tokens
  cases htokens : e.tokens with
  | nil => simp
  | cons u us =>
    rw [htokens, List.head?_cons, Option.map_some, Option.some.injEq] at hhead
    rw [htokens, List.pairwise_cons] at h
    rw [List.forall_mem_cons, ← hhead]
    exact ⟨Nat.le_refl _, fun t ht => (h.1 t ht).le⟩

namespace Line

/-- The tokens of the tree and the token that ends the line. -/
def leaves (l : Line) : List Token := l.root.tokens ++ [l.endToken]

theorem leaves_pairwise_precedes (text : String) : (ofText text).leaves.Pairwise Token.Precedes :=
  (mends text).pairwise_precedes (fun _ ht => isScanned_of_mem_buffer ht)
    (buffer_pairwise_precedes text)

/-- A fault is found at the position of its operator. -/
theorem shows_of_evaluate_eq_error {text : String} {f : Fault}
    (h : (ofText text).root.evaluate = .error f) :
    ∃ op : Operator, (f.cause = .divisionByZero ∧ op = .over ∨ f.cause = .overflow) ∧
      Shows text f.position op.symbol := by
  obtain ⟨op, t, hc, ht, hop, hp⟩ := exists_operator_of_evaluate_eq_error h
  have hsome : Operator.ofKind? t.kind ≠ none := by simp [hop]
  have hm := mem_buffer_of_mem_root ht (isScanned_of_operator ht hsome)
  have hk := root_kind_ne_endOfInput text t ht
  obtain ⟨s, hs, hshows⟩ := exists_text_of_mem_buffer hm hk
  rw [text_eq_symbol_of_mem_buffer hm hop, Option.some.injEq] at hs
  rw [← hs, ← hp] at hshows
  exact ⟨op, hc, hshows⟩

/-- Positions in a line are faithful to its text, malformed or not. They are boundaries of
characters; what is scanned is found there and has ended where the next token stands. An
expression has the least of the positions of its tokens, and the first. Where the tree has a
fault, the sign of an operator is found in the text, and that of a division if it is by zero. -/
theorem positions_faithful (text : String) :
    (∀ t ∈ (ofText text).leaves, IsBoundary text t.position ∧
      t.position ≤ text.utf8ByteSize ∧
      (t.isScanned = true → t.kind ≠ .endOfInput →
        ∃ s, t.text = some s ∧ Shows text t.position s)) ∧
    (ofText text).leaves.Pairwise Token.Precedes ∧
    (∀ e ∈ (ofText text).root.parts, e.tokens.head?.map Token.position = some e.position ∧
      ∀ t ∈ e.tokens, e.position ≤ t.position) ∧
    ∀ f, (ofText text).root.evaluate = .error f →
      f.cause = .divisionByZero ∧ Shows text f.position "/" ∨
        f.cause = .overflow ∧ ∃ op : Operator, Shows text f.position op.symbol := by
  have hpairwise := leaves_pairwise_precedes text
  refine ⟨fun t ht => ?_, hpairwise, fun e he => ⟨e.head?_tokens, ?_⟩, fun f hf => ?_⟩
  · obtain ⟨u, hu, hp, hscanned⟩ := (mends text).exists_mem_buffer t ht
    have hboundary : IsBoundary text t.position := hp ▸ isBoundary_of_mem_buffer hu
    refine ⟨hboundary, hboundary.le, fun hs hk => ?_⟩
    rw [hscanned hs] at hk ⊢
    exact exists_text_of_mem_buffer hu hk
  · apply Expr.position_le
    have hroot := (List.pairwise_append.1 hpairwise).1
    exact hroot.sublist (Expr.tokens_sublist_of_mem_parts he)
  · obtain ⟨op, ⟨hc, rfl⟩ | hc, hshows⟩ := shows_of_evaluate_eq_error hf
    · exact .inl ⟨hc, hshows⟩
    · exact .inr ⟨hc, op, hshows⟩

end Line

end Calculator
