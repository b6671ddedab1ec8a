import Calculator.Outline
import Calculator.Proofs.Likeness

/-!
# Trees changed token by token

`Expr.mapTokens` changes every token of a tree and leaves its form as it is. The value of a
tree depends on the kinds, the values and the positions of its tokens, its outline on their
kinds and values only, and whether it is derived on their kinds alone, so that a change of
anything else is not seen in them.

Likeness is where such changes come from. If a relation of tokens says how one is changed into
the other, then trees that are alike are changed into each other as a whole.
-/
namespace Calculator

namespace Expr

/-- The tree with each of its tokens changed. -/
def mapTokens (f : Token → Token) : Expr → Expr
  | .number token => .number (f token)
  | .binary left operator right =>
      .binary (left.mapTokens f) (f operator) (right.mapTokens f)
  | .group opening inner closing => .group (f opening) (inner.mapTokens f) (f closing)

theorem mapTokens_id (e : Expr) : e.mapTokens id = e := by
  induction e with
  | number token => rfl
  | binary left operator right ihl ihr => simp only [mapTokens, ihl, ihr, id_eq]
  | group opening inner closing ih => simp only [mapTokens, ih, id_eq]

theorem tokens_mapTokens (f : Token → Token) (e : Expr) :
    (e.mapTokens f).tokens = e.tokens.map f := by
  induction e with
  | number token => rfl
  | binary left operator right ihl ihr =>
    simp only [mapTokens, tokens, ihl, ihr, List.map_append, List.map_cons]
  | group opening inner closing ih =>
    simp only [mapTokens, tokens, ih, List.map_append, List.map_cons, List.map_nil]

theorem Alike.mapTokens_eq {T : Token → Token → Prop} {f g : Token → Token}
    (hT : ∀ t u, T t u → f t = g u) {e e' : Expr} (h : Alike T e e') :
    e.mapTokens f = e'.mapTokens g := by
  induction h with
  | number ht => simp only [mapTokens, hT _ _ ht]
  | binary _ ht _ ihl ihr => simp only [mapTokens, hT _ _ ht, ihl, ihr]
  | group ht _ hv ih => simp only [mapTokens, hT _ _ ht, hT _ _ hv, ih]

variable {f : Token → Token}

theorem evaluate_mapTokens (hk : ∀ t, (f t).kind = t.kind) (hv : ∀ t, (f t).value = t.value)
    (hp : ∀ t, (f t).position = t.position) (e : Expr) :
    (e.mapTokens f).evaluate = e.evaluate := by
  have ha : ∀ (t : Token) (a b : Int32), (f t).apply a b = t.apply a b := by
    intro t a b
    unfold Token.apply
    rw [hk, hp]
  induction e with
  | number token => simp only [mapTokens, evaluate_number, hv]
  | binary left operator right ihl ihr => simp only [mapTokens, evaluate_binary, ihl, ihr, ha]
  | group opening inner closing ih => simp only [mapTokens, evaluate_group, ih]

/-- An outline shows the kinds and values of tokens and nothing else of them. -/
theorem map_line_items_mapTokens (hk : ∀ t, (f t).kind = t.kind)
    (hv : ∀ t, (f t).value = t.value) (above : List Bool) (isLast : Bool) (e : Expr) :
    (Outline.items above isLast (e.mapTokens f)).map Outline.Item.line =
      (Outline.items above isLast e).map Outline.Item.line := by
  have hlabel : ∀ t, (Node.token (f t)).label = (Node.token t).label := by
    intro t
    simp only [Node.label, hk, hv]
  induction e generalizing above isLast with
  | number token =>
    simp only [mapTokens, Outline.items, List.map_cons, Outline.Item.line, hlabel]
    rfl
  | binary left operator right ihl ihr =>
    simp only [mapTokens, Outline.items, List.map_cons, List.map_append, ihl, ihr,
      Outline.Item.line, hlabel]
    rfl
  | group opening inner closing ih =>
    simp only [mapTokens, Outline.items, List.map_cons, List.map_append, ih,
      Outline.Item.line, hlabel]
    rfl

theorem render_mapTokens (hk : ∀ t, (f t).kind = t.kind) (hv : ∀ t, (f t).value = t.value)
    (e : Expr) : (e.mapTokens f).render = e.render := by
  rw [render, render, outline, outline, map_line_items_mapTokens hk hv]

end Expr

/-- The grammar looks at the kinds of tokens only. -/
theorem Derivation.mapTokens {f : Token → Token} (hk : ∀ t, (f t).kind = t.kind) {level : Level}
    {e : Expr} (h : Derivation level e) : Derivation level (e.mapTokens f) := by
  induction h with
  | number h => exact .number ((hk _).trans h)
  | group ho _ hc ih => exact .group ((hk _).trans ho) ih ((hk _).trans hc)
  | primary _ ih => exact .primary ih
  | product _ h _ ihl ihr => exact .product ihl (by rwa [hk]) ihr
  | factor _ ih => exact .factor ih
  | sum _ h _ ihl ihr => exact .sum ihl (by rwa [hk]) ihr

end Calculator
