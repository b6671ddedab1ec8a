import Mathlib.Data.List.Basic
import Calculator.Proofs.Messages
import Calculator.Proofs.Tokenwise

/-!
# What an outline shows

An outline shows the form of a tree, and the kind and the value of each of its tokens. All of
this can be told from its text, and nothing else can.

The lines of the text are told apart because there is no newline inside of a line. The label of
a line starts at its first capital letter, because guides and markers hold no letters. The
labels from top to bottom are never the front of the labels of another tree: what is read off
them, node by node, is the tree itself. So the guides are redundant, and nothing is said here
about what they show. How the tokens of a tree are placed, spelled or made up is not shown.
-/
namespace Calculator

theorem toList_numeral_eq_ite (v : Int32) : (numeral v).toList =
    if v.toInt < 0 then '-' :: Nat.toDigits 10 v.toInt.natAbs
    else Nat.toDigits 10 v.toInt.natAbs := by
  have hrepr : ∀ n : Int, n.repr.toList =
      if n < 0 then '-' :: Nat.toDigits 10 n.natAbs else Nat.toDigits 10 n.natAbs := by
    intro n
    cases n with
    | ofNat n => exact Nat.toList_repr
    | negSucc n =>
      rw [if_pos (Int.negSucc_lt_zero n), Int.repr, String.toList_append, Nat.toList_repr]
      rfl
  exact hrepr v.toInt

/-- A numeral tells the value. -/
theorem numeral_inj {v w : Int32} : numeral v = numeral w ↔ v = w := by
  refine ⟨fun h => ?_, congrArg numeral⟩
  have hchars := congrArg String.toList h
  -- A minus sign is no digit, so that both values have the same sign.
  have hminus : ∀ n, ∀ cs, '-' :: cs ≠ Nat.toDigits 10 n := by
    intro n cs hn
    have hd := Nat.isDigit_of_mem_toDigits (n := n) (b := 10) (by decide) (by decide)
      (hn ▸ List.mem_cons_self)
    exact absurd hd (by decide)
  have hdigits : ∀ m n, Nat.toDigits 10 m = Nat.toDigits 10 n → m = n := by
    intro m n hmn
    rw [← Nat.ofDigitChars_ten_toDigits (n := m), hmn, Nat.ofDigitChars_ten_toDigits]
  rw [toList_numeral_eq_ite, toList_numeral_eq_ite] at hchars
  rw [← Int32.toInt_inj]
  split at hchars <;> split at hchars
  · have := hdigits _ _ (List.cons.inj hchars).2
    omega
  · exact absurd hchars (hminus _ _)
  · exact absurd hchars.symm (hminus _ _)
  · have := hdigits _ _ hchars
    omega

theorem newline_notMem_numeral (v : Int32) : '\n' ∉ (numeral v).toList := by
  intro h
  have hdigits := newline_notMem_toDigits v.toInt.natAbs
  rw [toList_numeral_eq_ite] at h
  split at h
  · exact hdigits (List.mem_of_ne_of_mem (by decide) h)
  · exact hdigits h

/-- The tokens look the same in an outline. -/
def Token.ShowsAs (t u : Token) : Prop := t.kind = u.kind ∧ t.value = u.value

/-- The token without all that an outline does not show. -/
def Token.shown (t : Token) : Token where
  kind := t.kind
  position := 0
  value := t.value

theorem Token.ShowsAs.shown_eq {t u : Token} (h : t.ShowsAs u) : t.shown = u.shown := by
  rw [shown, shown, h.1, h.2]

namespace Node

/-- The label of a token tells its kind and its value. -/
theorem label_token_eq_iff {t u : Token} :
    (Node.token t).label = (Node.token u).label ↔ t.ShowsAs u := by
  constructor
  · intro h
    have hchars := congrArg String.toList h
    simp only [label, String.toList_append, List.append_assoc] at hchars
    have hk : t.kind = u.kind := Token.Kind.eq_of_name_append (.inr rfl) hchars
    rw [hk, List.append_cancel_left_eq, List.append_cancel_left_eq] at hchars
    refine ⟨hk, ?_⟩
    cases ht : t.value with
    | none =>
      cases hu : u.value with
      | none => rfl
      | some w => simp [ht, hu] at hchars
    | some v =>
      cases hu : u.value with
      | none => simp [ht, hu] at hchars
      | some w =>
        have hnumeral : numeral v = numeral w := by
          simpa [ht, hu, String.toList_inj] using hchars
        rw [numeral_inj.1 hnumeral]
  · rintro ⟨hk, hv⟩
    rw [label, label, hk, hv]

theorem newline_notMem_label (n : Node) : '\n' ∉ n.label.toList := by
  cases n with
  | expr e => cases e <;> simp [label, Expr.kindName]
  | token t =>
    have hname := t.kind.newline_notMem_name
    cases hv : t.value with
    | none => simp [label, hv, hname]
    | some v => simp [label, hv, hname, newline_notMem_numeral]

/-- A label starts with a capital letter. -/
theorem exists_label_eq_cons (n : Node) :
    ∃ c cs, n.label.toList = c :: cs ∧ c.isUpper = true := by
  cases n with
  | expr e => cases e <;> simp [label, Expr.kindName]
  | token t =>
    rw [label, String.toList_append, String.toList_append]
    cases t.kind <;> (refine ⟨_, _, rfl, ?_⟩; decide)

end Node

namespace Outline

theorem toList_line (i : Item) : i.line.toList =
    (i.above.reverse.flatMap fun b => (guide b).toList) ++
      ((marker i.isLast).toList ++ i.node.label.toList) := by
  rw [Item.line, String.toList_append, String.toList_append, String.toList_join,
    List.flatMap_map, List.append_assoc]

/-- The label of a line starts at the first capital letter. -/
theorem dropWhile_line (i : Item) :
    (i.line.toList.dropWhile fun c => !c.isUpper) = i.node.label.toList := by
  have hguide : ∀ b, (guide b).toList.all (!·.isUpper) = true := by decide
  have hmarker : ∀ b, (marker b).toList.all (!·.isUpper) = true := by decide
  obtain ⟨c, cs, hlabel, hc⟩ := i.node.exists_label_eq_cons
  rw [toList_line, List.dropWhile_append_of_pos,
    List.dropWhile_append_of_pos (List.all_eq_true.1 (hmarker _)), hlabel,
    List.dropWhile_cons_of_neg (by simp [hc])]
  intro d hd
  obtain ⟨b, -, hb⟩ := List.mem_flatMap.1 hd
  exact List.all_eq_true.1 (hguide b) d hb

theorem newline_notMem_line (i : Item) : '\n' ∉ i.line.toList := by
  have hguide : ∀ b, '\n' ∉ (guide b).toList := by decide
  have hmarker : ∀ b, '\n' ∉ (marker b).toList := by decide
  simp [toList_line, hguide, hmarker, i.node.newline_notMem_label]

end Outline

namespace Expr

theorem outline_ne_nil (e : Expr) : e.outline ≠ [] := by
  cases e <;> simp [outline, Outline.items]

/-- The text of an outline, split at the newlines, is the list of its lines. -/
theorem splitOn_render (e : Expr) :
    e.render.toList.splitOn '\n' = e.outline.map fun i => i.line.toList := by
  rw [render, String.toList_intercalate, List.map_map]
  refine List.splitOn_intercalate '\n' (fun l hl => ?_) (by simp [outline_ne_nil])
  obtain ⟨i, -, rfl⟩ := List.mem_map.1 hl
  exact Outline.newline_notMem_line i

/-- The labels of a tree from the top to the bottom of its outline. -/
def labels : Expr → List String
  | .number token => [kindName (.number token), (Node.token token).label]
  | .binary left operator right => kindName (.binary left operator right) ::
      (left.labels ++ (Node.token operator).label :: right.labels)
  | .group opening inner closing => kindName (.group opening inner closing) ::
      (Node.token opening).label :: (inner.labels ++ [(Node.token closing).label])

theorem map_label_items (above : List Bool) (isLast : Bool) (e : Expr) :
    (Outline.items above isLast e).map (fun i => i.node.label) = e.labels := by
  induction e generalizing above isLast with
  | number token => rfl
  | binary left operator right ihl ihr =>
    simp only [Outline.items, labels, List.map_cons, List.map_append, ihl, ihr]
    rfl
  | group opening inner closing ih =>
    simp only [Outline.items, labels, List.map_cons, List.map_append, List.map_nil, ih]
    rfl

theorem labels_eq_of_render_eq {e e' : Expr} (h : e.render = e'.render) :
    e.labels = e'.labels := by
  have hlabels : ∀ e : Expr, (e.render.toList.splitOn '\n').map (List.dropWhile fun c => !c.isUpper)
      = e.labels.map String.toList := by
    intro e
    rw [splitOn_render, List.map_map, ← map_label_items [] true, List.map_map]
    exact List.map_congr_left fun i _ => Outline.dropWhile_line i
  refine (List.map_inj_right fun _ _ => String.toList_injective).1 ?_
  rw [← hlabels, ← hlabels, h]

/-- The labels of a tree can be told from whatever labels come behind them, and so can the tree,
as far as it is shown. -/
theorem alike_of_labels_append {e e' : Expr} {ls ms : List String}
    (h : e.labels ++ ls = e'.labels ++ ms) : Alike Token.ShowsAs e e' ∧ ls = ms := by
  induction e generalizing e' ls ms with
  | number token =>
    cases e' with
    | number token' =>
      simp only [labels, List.cons_append, List.nil_append, List.cons.injEq] at h
      exact ⟨.number (Node.label_token_eq_iff.1 h.2.1), h.2.2⟩
    | binary => simp [labels, kindName] at h
    | group => simp [labels, kindName] at h
  | binary left operator right ihl ihr =>
    cases e' with
    | number => simp [labels, kindName] at h
    | group => simp [labels, kindName] at h
    | binary left' operator' right' =>
      simp only [labels, List.cons_append, List.append_assoc, List.cons.injEq] at h
      obtain ⟨hleft, hrest⟩ := ihl h.2
      rw [List.cons.injEq] at hrest
      obtain ⟨hright, hls⟩ := ihr hrest.2
      exact ⟨.binary hleft (Node.label_token_eq_iff.1 hrest.1) hright, hls⟩
  | group opening inner closing ih =>
    cases e' with
    | number => simp [labels, kindName] at h
    | binary => simp [labels, kindName] at h
    | group opening' inner' closing' =>
      simp only [labels, List.cons_append, List.append_assoc, List.nil_append, List.cons.injEq] at h
      obtain ⟨hinner, hrest⟩ := ih h.2.2
      rw [List.cons.injEq] at hrest
      exact ⟨.group (Node.label_token_eq_iff.1 h.2.1) hinner (Node.label_token_eq_iff.1 hrest.1),
        hrest.2⟩

/-- Two trees have the same outline exactly if they have the same form and corresponding tokens
have the same kind and the same value, if any. -/
theorem render_eq_iff_alike (e e' : Expr) :
    e.render = e'.render ↔ Alike (fun t u => t.kind = u.kind ∧ t.value = u.value) e e' := by
  constructor
  · intro h
    have hlabels := congrArg (· ++ []) (labels_eq_of_render_eq h)
    exact (alike_of_labels_append hlabels).1
  · intro h
    have hshown := congrArg render (h.mapTokens_eq fun _ _ htu => Token.ShowsAs.shown_eq htu)
    have hrender : ∀ e : Expr, (e.mapTokens Token.shown).render = e.render :=
      render_mapTokens (fun _ => rfl) fun _ => rfl
    rwa [hrender, hrender] at hshown

end Expr

end Calculator
