import Mathlib.Order.Bounds.Defs
import Calculator.Outline
import Calculator.Proofs.Nesting

/-!
# How deep a tree goes

The grammar nests only inside of parentheses, but a tree nests at every operator: in a chain of
operators, all that comes before an operator is its left operand. So the height of a tree is not
bounded by how deep the parentheses of the line are nested, whatever factor is allowed for. A sum
of ones has no parentheses at all, and its tree is as high as there are ones.

What the nesting bounds is the depth at which chains stand in each other, where a step to a left
operand does not count: three for every group that is open, and three outside of them all. With
the steps to left operands, the height is bounded by the nesting and the number of operators
together. Both are said of all lines. In a line that is malformed, no more groups contain each
other than its parentheses say, because only an opening parenthesis starts a group, and no opening
parenthesis is ever put in.
-/
namespace Calculator

namespace Expr

/-- The length of the longest chain of expressions that contain each other. -/
def height : Expr → Nat
  | .number _ => 1
  | .binary left _ right => max left.height right.height + 1
  | .group _ inner _ => inner.height + 1

/-- The height without the steps to left operands. -/
def chainDepth : Expr → Nat
  | .number _ => 1
  | .binary left _ right => max left.chainDepth (right.chainDepth + 1)
  | .group _ inner _ => inner.chainDepth + 1

/-- The largest number of groups that contain each other. -/
def groupDepth : Expr → Nat
  | .number _ => 0
  | .binary left _ right => max left.groupDepth right.groupDepth
  | .group _ inner _ => inner.groupDepth + 1

theorem depth_le_of_mem_items {e : Expr} {above : List Bool} {isLast : Bool} {i : Outline.Item}
    (h : i ∈ Outline.items above isLast e) : i.depth ≤ above.length + e.height := by
  induction e generalizing above isLast with
  | number token =>
    simp only [Outline.items, List.mem_cons, List.not_mem_nil, or_false] at h
    rcases h with rfl | rfl <;> simp [Outline.Item.depth, height]
  | binary left operator right ihl ihr =>
    simp only [Outline.items, List.mem_cons, List.mem_append] at h
    simp only [height]
    rcases h with rfl | h | rfl | h
    · simp [Outline.Item.depth]
    · have := ihl h
      simp only [List.length_cons] at this
      omega
    · simp only [Outline.Item.depth, List.length_cons]
      omega
    · have := ihr h
      simp only [List.length_cons] at this
      omega
  | group opening inner closing ih =>
    simp only [Outline.items, List.mem_cons, List.mem_append, List.not_mem_nil, or_false] at h
    simp only [height]
    rcases h with rfl | rfl | h | rfl
    · simp [Outline.Item.depth]
    · simp only [Outline.Item.depth, List.length_cons]
      omega
    · have := ih h
      simp only [List.length_cons] at this
      omega
    · simp only [Outline.Item.depth, List.length_cons]
      omega

theorem exists_mem_items_depth_eq (above : List Bool) (isLast : Bool) (e : Expr) :
    ∃ i ∈ Outline.items above isLast e, i.depth = above.length + e.height := by
  induction e generalizing above isLast with
  | number token => exact ⟨⟨isLast :: above, true, .token token⟩, by simp [Outline.items], rfl⟩
  | binary left operator right ihl ihr =>
    obtain ⟨i, hi, hil⟩ := ihl (isLast :: above) false
    obtain ⟨j, hj, hjr⟩ := ihr (isLast :: above) true
    simp only [List.length_cons] at hil hjr
    simp only [height]
    rcases Nat.le_total right.height left.height with hle | hle
    · refine ⟨i, by simp [Outline.items, hi], ?_⟩
      omega
    · refine ⟨j, by simp [Outline.items, hj], ?_⟩
      omega
  | group opening inner closing ih =>
    obtain ⟨i, hi, hinner⟩ := ih (isLast :: above) false
    refine ⟨i, by simp [Outline.items, hi], ?_⟩
    simp only [List.length_cons] at hinner
    simp only [height]
    omega

/-- The lines of an outline go as far in as the tree is high. -/
theorem isGreatest_depth_outline (e : Expr) :
    IsGreatest {d | ∃ i ∈ e.outline, i.depth = d} e.height := by
  constructor
  · obtain ⟨i, hi, hd⟩ := exists_mem_items_depth_eq [] true e
    exact ⟨i, hi, hd.trans (Nat.zero_add _)⟩
  · rintro d ⟨i, hi, rfl⟩
    exact (depth_le_of_mem_items hi).trans (Nat.zero_add _).le

end Expr

/-- Whether the character joins two operands. -/
def isOperatorChar (c : Char) : Bool := c ∈ ['+', '-', '*', '/']

theorem ne_of_isOperatorChar {c : Char} (h : isOperatorChar c = true) : c ≠ '(' ∧ c ≠ ')' := by
  constructor <;> rintro rfl <;> exact absurd h (by decide)

theorem Operator.exists_sign :
    ∀ op : Operator, ∃ c, isOperatorChar c = true ∧ op.kind.sign.toList = [c]
  | .plus => ⟨'+', by decide, rfl⟩
  | .minus => ⟨'-', by decide, rfl⟩
  | .times => ⟨'*', by decide, rfl⟩
  | .over => ⟨'/', by decide, rfl⟩

namespace Expr

theorem signsOf_binary {left right : Expr} {operator : Token}
    (h : Operator.ofKind? operator.kind ≠ none) :
    ∃ c, isOperatorChar c = true ∧ signsOf (Expr.binary left operator right).tokens =
      signsOf left.tokens ++ c :: signsOf right.tokens := by
  obtain ⟨op, hop⟩ := Option.ne_none_iff_exists'.1 h
  obtain ⟨c, hc, hsign⟩ := op.exists_sign
  refine ⟨c, hc, ?_⟩
  rw [tokens, signsOf_append, signsOf_cons, Operator.ofKind?_eq_some_iff.1 hop, hsign]
  rfl

theorem signsOf_group {opening closing : Token} {inner : Expr} (ho : opening.kind = .openParen)
    (hc : closing.kind = .closeParen) : signsOf (Expr.group opening inner closing).tokens =
      '(' :: (signsOf inner.tokens ++ [')']) := by
  rw [tokens, signsOf_cons, signsOf_append, signsOf_cons, ho, hc]
  rfl

end Expr

namespace Derivation

variable {level : Level} {e : Expr}

/-- Between two groups that contain each other, there is room for one step to a product and one
to its last operand. -/
theorem chainDepth_le (h : Derivation level e) :
    e.chainDepth ≤ 3 * e.groupDepth + (level.rank + 1) := by
  induction h with
  | number hk => exact Nat.le_refl 1
  | group _ _ _ ih =>
    simp only [Level.rank] at ih
    simp only [Expr.chainDepth, Expr.groupDepth, Level.rank]
    omega
  | primary _ ih =>
    simp only [Level.rank] at ih ⊢
    omega
  | product _ _ _ ihl ihr =>
    simp only [Level.rank] at ihl ihr
    simp only [Expr.chainDepth, Expr.groupDepth, Level.rank]
    omega
  | factor _ ih =>
    simp only [Level.rank] at ih ⊢
    omega
  | sum _ _ _ ihl ihr =>
    simp only [Level.rank] at ihl ihr
    simp only [Expr.chainDepth, Expr.groupDepth, Level.rank]
    omega

/-- What is the same on every level is proved from the three forms of a tree. -/
@[elab_as_elim]
theorem forms_induction {P : Expr → Prop} (h : Derivation level e)
    (number : ∀ token, token.kind = .number → P (.number token))
    (binary : ∀ left operator right, Operator.ofKind? operator.kind ≠ none → P left → P right →
      P (.binary left operator right))
    (group : ∀ opening inner closing, opening.kind = .openParen → closing.kind = .closeParen →
      P inner → P (.group opening inner closing)) : P e := by
  induction h with
  | number hk => exact number _ hk
  | group ho _ hc ih => exact group _ _ _ ho hc ih
  | primary _ ih => exact ih
  | product _ hk _ ihl ihr =>
    refine binary _ _ _ ?_ ihl ihr
    rcases hk with hk | hk <;> rw [hk] <;> decide
  | factor _ ih => exact ih
  | sum _ hk _ ihl ihr =>
    refine binary _ _ _ ?_ ihl ihr
    rcases hk with hk | hk <;> rw [hk] <;> decide

/-- Every operator adds one to the height at most, and so does every group that is inside of the
others. -/
theorem height_le (h : Derivation level e) :
    e.height ≤ e.groupDepth + (signsOf e.tokens).countP isOperatorChar + 1 := by
  refine h.forms_induction ?number ?binary ?group
  case number => exact fun token _ => Nat.le_add_left _ _
  case binary =>
    intro left operator right hoperator hl hr
    obtain ⟨c, hc, hsigns⟩ := Expr.signsOf_binary hoperator
    rw [hsigns, List.countP_append, List.countP_cons_of_pos hc]
    simp only [Expr.height, Expr.groupDepth]
    omega
  case group =>
    intro opening inner closing ho hc hinner
    rw [Expr.signsOf_group ho hc, List.countP_cons, List.countP_append]
    simp only [Expr.height, Expr.groupDepth]
    omega

/-- Behind a tree as many groups are open as in front of it. -/
theorem nestingFrom_signsOf (h : Derivation level e) : ∀ d cs,
    nestingFrom d (signsOf e.tokens ++ cs) = max (d + e.groupDepth) (nestingFrom d cs) := by
  refine h.forms_induction ?number ?binary ?group
  case number =>
    intro token hk d cs
    rw [Expr.tokens, signsOf_cons, hk]
    exact (Nat.max_eq_right (le_nestingFrom d cs)).symm
  case binary =>
    intro left operator right hoperator hl hr d cs
    obtain ⟨c, hc, hsigns⟩ := Expr.signsOf_binary hoperator
    obtain ⟨hopen, hclose⟩ := ne_of_isOperatorChar hc
    rw [hsigns, List.append_assoc, hl, List.cons_append, nestingFrom_cons_of_ne hopen hclose, hr]
    simp only [Expr.groupDepth]
    omega
  case group =>
    intro opening inner closing ho hc hinner d cs
    have hopen : depthBehind d '(' = d + 1 := rfl
    have hclose : depthBehind (d + 1) ')' = d := rfl
    rw [Expr.signsOf_group ho hc, List.cons_append, List.append_assoc, nestingFrom, hopen, hinner,
      List.singleton_append, nestingFrom, hclose]
    simp only [Expr.groupDepth]
    omega

end Derivation

/-- No placeholder joins operands. -/
theorem countP_signsOf_filter {ts : List Token}
    (h : ∀ t ∈ ts, t.isScanned = false → Reader.CanBeMissing t.kind) :
    (signsOf (ts.filter Token.isScanned)).countP isOperatorChar =
      (signsOf ts).countP isOperatorChar := by
  induction ts with
  | nil => rfl
  | cons t ts ih =>
    have hts := ih fun u hu => h u (by simp [hu])
    cases hs : t.isScanned with
    | true =>
      rw [List.filter_cons_of_pos hs, signsOf_cons, List.countP_append, hts, signsOf_cons,
        List.countP_append]
    | false =>
      rw [List.filter_cons_of_neg (by simp [hs]), hts, signsOf_cons, List.countP_append]
      rcases h t (by simp) hs with hk | hk <;> rw [hk] <;> exact (Nat.zero_add _).symm

namespace Line

theorem groupDepth_root_le (text : String) : (ofText text).root.groupDepth ≤ nesting text := by
  obtain ⟨behind, hbehind⟩ := exists_signs_behind text
  have hroot := (derivation_root text).nestingFrom_signsOf 0 []
  rw [List.append_nil, Nat.zero_add] at hroot
  calc (ofText text).root.groupDepth
      ≤ nestingFrom 0 (signsOf (ofText text).root.tokens) := by
        rw [hroot]
        exact Nat.le_max_left _ _
    _ ≤ nestingFrom 0 (signsOf ((ofText text).root.tokens.filter Token.isScanned)) :=
        nestingFrom_signsOf_le (canBeMissing_root text) 0
    _ ≤ nestingFrom 0 (text.toList.filter isSignChar) := by
        rw [hbehind]
        exact nestingFrom_append_le 0 _ behind
    _ = nesting text := nestingFrom_filter (by decide) (by decide) 0 text.toList

theorem countP_signsOf_root_le (text : String) :
    (signsOf (ofText text).root.tokens).countP isOperatorChar ≤
      text.toList.countP isOperatorChar := by
  obtain ⟨behind, hbehind⟩ := exists_signs_behind text
  calc (signsOf (ofText text).root.tokens).countP isOperatorChar
      = (signsOf ((ofText text).root.tokens.filter Token.isScanned)).countP isOperatorChar :=
        (countP_signsOf_filter (canBeMissing_root text)).symm
    _ ≤ (text.toList.filter isSignChar).countP isOperatorChar := by
        rw [hbehind, List.countP_append]
        exact Nat.le_add_right _ _
    _ ≤ text.toList.countP isOperatorChar := List.filter_sublist.countP_le

/-- Steps to left operands apart, the tree of a text is nested at most three deep for every
parenthesis that is open at once, and three deep outside of all parentheses. With these steps it
has the nesting and the number of operators as a bound, and its outline goes in as far as it is
high. -/
theorem height_root_le (text : String) :
    (ofText text).root.chainDepth ≤ 3 * (1 + nesting text) ∧
      (ofText text).root.height ≤ 1 + nesting text + text.toList.countP isOperatorChar ∧
      IsGreatest {d | ∃ i ∈ (ofText text).root.outline, i.depth = d}
        (ofText text).root.height := by
  have hderived := derivation_root text
  have hgroups := groupDepth_root_le text
  refine ⟨?_, ?_, (ofText text).root.isGreatest_depth_outline⟩
  · have hchain := hderived.chainDepth_le
    simp only [Level.rank] at hchain
    omega
  · have hheight := hderived.height_le
    have hoperators := countP_signsOf_root_le text
    omega

example : (ofText "1 - 2 * (3 + 4 / 5)").root.chainDepth =
    3 * (1 + nesting "1 - 2 * (3 + 4 / 5)") := by decide +kernel

/-- If nothing is missing from a line or left over, its groups are all of its parentheses. -/
theorem nesting_eq_groupDepth {text : String} (h : (ofText text).syntactic = []) :
    nesting text = (ofText text).root.groupDepth := by
  obtain ⟨hderived, htokens, -⟩ := derivation_of_syntactic_eq_nil h
  have hsigns : text.toList.filter isSignChar = signsOf (ofText text).root.tokens := by
    rw [htokens, filter_isSignChar 0]
  have hroot := hderived.nestingFrom_signsOf 0 []
  rw [List.append_nil, Nat.zero_add] at hroot
  rw [nesting, ← nestingFrom_filter (p := isSignChar) (by decide) (by decide), hsigns,
    hroot]
  exact Nat.max_eq_left (Nat.zero_le _)

end Line

namespace Expr

theorem Alike.height_eq {T : Token → Token → Prop} {e e' : Expr} (h : Alike T e e') :
    e.height = e'.height := by
  induction h with
  | number _ => rfl
  | binary _ _ _ ihl ihr => simp only [height, ihl, ihr]
  | group _ _ _ ih => simp only [height, ih]

theorem Alike.groupDepth_eq {T : Token → Token → Prop} {e e' : Expr} (h : Alike T e e') :
    e.groupDepth = e'.groupDepth := by
  induction h with
  | number _ => rfl
  | binary _ _ _ ihl ihr => simp only [groupDepth, ihl, ihr]
  | group _ _ _ ih => simp only [groupDepth, ih]

/-- A sum of ones with the given number of plus signs. -/
def sumOfOnes : Nat → Expr
  | 0 => .number { kind := .number, position := 0, value := some 1 }
  | n + 1 => .binary (sumOfOnes n) { kind := .plus, position := 0 }
      (.number { kind := .number, position := 0, value := some 1 })

theorem height_sumOfOnes (n : Nat) : (sumOfOnes n).height = n + 1 := by
  induction n with
  | zero => rfl
  | succ n ih =>
    simp only [sumOfOnes, height, ih]
    omega

theorem groupDepth_sumOfOnes (n : Nat) : (sumOfOnes n).groupDepth = 0 := by
  induction n with
  | zero => rfl
  | succ n ih =>
    simp only [sumOfOnes, groupDepth, ih]
    rfl

theorem derivation_sumOfOnes (n : Nat) : Derivation .term (sumOfOnes n) := by
  induction n with
  | zero => exact .factor (.primary (.number rfl))
  | succ n ih => exact .sum ih (.inl rfl) (.primary (.number rfl))

theorem isWritable_sumOfOnes (n : Nat) : ∀ t ∈ (sumOfOnes n).tokens, t.IsWritable := by
  induction n with
  | zero => simp [sumOfOnes, tokens, Token.IsWritable]
  | succ n ih =>
    intro t ht
    simp only [sumOfOnes, tokens, List.mem_append, List.mem_cons, List.not_mem_nil, or_false] at ht
    rcases ht with ht | rfl | rfl
    · exact ih t ht
    · simp [Token.IsWritable]
    · simp [Token.IsWritable]

end Expr

namespace Line

/-- No multiple of the nesting bounds the height. -/
theorem not_exists_height_le :
    ¬ ∃ factor, ∀ text, (ofText text).root.height ≤ factor * (1 + nesting text) := by
  rintro ⟨factor, hle⟩
  obtain ⟨hd, halike⟩ := (Expr.derivation_sumOfOnes factor).root_spelled
    (Expr.isWritable_sumOfOnes factor)
  have hsum := hle (spelled (Expr.sumOfOnes factor).tokens)
  rw [diagnostics, List.append_eq_nil_iff] at hd
  rw [nesting_eq_groupDepth hd.2, ← halike.groupDepth_eq, ← halike.height_eq,
    Expr.height_sumOfOnes, Expr.groupDepth_sumOfOnes] at hsum
  omega

end Line

end Calculator
