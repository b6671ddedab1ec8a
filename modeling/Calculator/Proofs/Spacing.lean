import Calculator.Proofs.Tokenwise

/-!
# Spacing

Two texts of the same wording have the same words one after the other, at offsets that may
differ. They are read alike, and that holds of malformed texts too: their trees differ in the
positions of tokens only, the same problems are reported at the same words, and both have the
same value, or the same fault at the same word.

A position of one line corresponds to one of the other if words of the same index stand there.
Placeholders and diagnostics take their positions from the words at which they arise, which is
all that has to be said about them; the rest is likeness. What the texts have in between their
words, blanks or bad characters, is not compared, and neither is what is reported of it.
-/
namespace Calculator

def Token.wording (t : Token) : Token.Kind × Option String := (t.kind, t.text)

/-- Positions at which tokens of the same index stand in two lists. -/
def Correspond (ts us : List Token) (p q : Nat) : Prop :=
  ∃ (i : Nat) (t u : Token), ts[i]? = some t ∧ us[i]? = some u ∧ t.position = p ∧ u.position = q

/-- Tokens that differ at most in their positions, and these correspond. -/
structure Token.Counterpart (ts us : List Token) (t u : Token) : Prop where
  kind_eq : t.kind = u.kind
  text_eq : t.text = u.text
  value_eq : t.value = u.value
  isPlaceholder_eq : t.isPlaceholder = u.isPlaceholder
  position : Correspond ts us t.position u.position

theorem Token.isLikeness_counterpart (ts us : List Token) : IsLikeness (Counterpart ts us) where
  kind_eq h := h.kind_eq
  value_eq h := by rw [h.value_eq]
  placeholder h _ _ := ⟨rfl, rfl, rfl, rfl, h.position⟩

/-- The value of a word is determined by how it is written. -/
theorem value_of_mem_buffer {text : String} {t : Token} (ht : t ∈ buffer text) : t.value =
    if t.kind = .number then t.text.map fun s => Lexeme.value ⟨.number, s.toList⟩ else none := by
  split
  · next hk =>
    rcases exists_lexeme_of_mem_buffer ht with ⟨⟨q, k, cs⟩, -, rfl⟩ | rfl
    · obtain rfl : k = .number := hk
      simp [Lexeme.token, Lexeme.text]
    · cases hk
  · next hk => exact value_eq_none_of_mem_buffer ht hk

variable {a b : String}

theorem forall₂_counterpart
    (h : (buffer a).map Token.wording = (buffer b).map Token.wording) :
    List.Forall₂ (Token.Counterpart (buffer a) (buffer b)) (buffer a) (buffer b) := by
  have hlength : (buffer a).length = (buffer b).length := by
    simpa only [List.length_map] using congrArg List.length h
  rw [List.forall₂_iff_get]
  refine ⟨hlength, fun i ha hb => ?_⟩
  have hi := congrArg (fun ts => ts[i]?) h
  simp only [List.getElem?_map, List.getElem?_eq_getElem ha, List.getElem?_eq_getElem hb,
    Option.map_some, Option.some.injEq, Token.wording, Prod.mk.injEq] at hi
  have hta := List.getElem_mem ha
  have htb := List.getElem_mem hb
  have hsa := isScanned_of_mem_buffer hta
  have hsb := isScanned_of_mem_buffer htb
  rw [Token.isScanned, Bool.not_eq_true'] at hsa hsb
  constructor
  · exact hi.1
  · exact hi.2
  · rw [List.get_eq_getElem, List.get_eq_getElem, value_of_mem_buffer hta,
      value_of_mem_buffer htb, hi.1, hi.2]
  · exact hsa.trans hsb.symm
  · exact ⟨i, _, _, List.getElem?_eq_getElem ha, List.getElem?_eq_getElem hb, rfl, rfl⟩

def Token.unplaced (t : Token) : Token := { t with position := 0 }

theorem Token.Counterpart.unplaced_eq {ts us : List Token} {t u : Token}
    (h : Counterpart ts us t u) : t.unplaced = u.unplaced := by
  rw [unplaced, unplaced, h.kind_eq, h.text_eq, h.value_eq, h.isPlaceholder_eq]

namespace Line

theorem alike_of_wording_eq (h : (buffer a).map Token.wording = (buffer b).map Token.wording) :
    Line.Alike (Token.Counterpart (buffer a) (buffer b)) (ofText a) (ofText b) :=
  alike_of_buffer (Token.isLikeness_counterpart _ _) (forall₂_counterpart h)

/-- Texts of the same wording have trees that differ in the positions of tokens only, and so the
same outline. Both are read to their ends or neither is. The same is reported about the order
of their tokens, at positions that correspond, and both trees have the same value, or faults
of the same cause at positions that correspond. -/
theorem read_alike_of_wording_eq {a b : String}
    (h : (buffer a).map Token.wording = (buffer b).map Token.wording) :
    (ofText a).root.mapTokens Token.unplaced = (ofText b).root.mapTokens Token.unplaced ∧
    (ofText a).root.render = (ofText b).root.render ∧
    (ofText a).endToken.isPlaceholder = (ofText b).endToken.isPlaceholder ∧
    List.Forall₂ (fun d e => ∃ actual expected p q, Correspond (buffer a) (buffer b) p q ∧
      d = ⟨.unexpectedToken actual expected, p⟩ ∧ e = ⟨.unexpectedToken actual expected, q⟩)
      (ofText a).syntactic (ofText b).syntactic ∧
    ((∃ v, (ofText a).root.evaluate = .ok v ∧ (ofText b).root.evaluate = .ok v) ∨
      ∃ cause p q, Correspond (buffer a) (buffer b) p q ∧
        (ofText a).root.evaluate = .error ⟨cause, p⟩ ∧
        (ofText b).root.evaluate = .error ⟨cause, q⟩) := by
  obtain ⟨hroot, hend, hsyntactic⟩ := alike_of_wording_eq h
  have hunplaced := hroot.mapTokens_eq fun _ _ ht => ht.unplaced_eq
  refine ⟨hunplaced, ?_, hend.isPlaceholder_eq, ?_, ?_⟩
  · have hrender := congrArg Expr.render hunplaced
    have hshown : ∀ e : Expr, (e.mapTokens Token.unplaced).render = e.render :=
      Expr.render_mapTokens (fun _ => rfl) fun _ => rfl
    rwa [hshown, hshown] at hrender
  · refine hsyntactic.imp fun d e hde => ?_
    cases hde with
    | unexpectedToken k ht => exact ⟨_, k, _, _, ht.position, rfl, by rw [ht.kind_eq]⟩
  · rcases hroot.evaluate (Token.isLikeness_counterpart _ _) with
      hv | ⟨cause, left, operator, right, operator', -, ht, he, he'⟩
    · exact .inl hv
    · exact .inr ⟨cause, _, _, ht.position, he, he'⟩

/-- The second words are those of the first, after blanks of three bytes and a bad character. -/
theorem read_alike_moved_fault :
    (buffer "8/(1-1 2").map Token.wording = (buffer "\u20038/ é(1-1 2").map Token.wording ∧
    ((∃ v, (ofText "8/(1-1 2").root.evaluate = .ok v ∧
        (ofText "\u20038/ é(1-1 2").root.evaluate = .ok v) ∨
      ∃ cause p q, Correspond (buffer "8/(1-1 2") (buffer "\u20038/ é(1-1 2") p q ∧
        (ofText "8/(1-1 2").root.evaluate = .error ⟨cause, p⟩ ∧
        (ofText "\u20038/ é(1-1 2").root.evaluate = .error ⟨cause, q⟩) := by
  have h : (buffer "8/(1-1 2").map Token.wording =
      (buffer "\u20038/ é(1-1 2").map Token.wording := by decide +kernel
  exact ⟨h, (read_alike_of_wording_eq h).2.2.2.2⟩

end Line

end Calculator
