import Mathlib.Data.List.Forall2
import Calculator.Proofs.Outlines

/-!
# How an outline is drawn

An outline has one line for every expression and every token of a tree. A node has an address:
the numbers of the parts to go down to, one for each node on the way. An address is smaller than
those that go on from it, and it goes on with a smaller number into an earlier part; so a tree is
listed in its own order, each node before its parts, if its addresses increase.

What a line looks like is a matter of its address alone. `Outline.Leads` follows an address down
from the root and keeps, for every node that it passes, whether the node is the last part of the
one above. A line has one group of four characters for each of these nodes, then its marker, then
what is to be said of the node itself. The main statement cuts the text of an outline at its
newlines and compares what comes out with this rule. What can be told from an outline about its
tree is said elsewhere.
-/
namespace Calculator

/-- What a line says of its node. -/
inductive Node.Caption : Node → List Char → Prop
  | expr (e : Expr) : Caption (.expr e) e.kindName.toList
  | plain {t : Token} : t.value = none →
      Caption (.token t) (t.kind.name.toList ++ "Token".toList)
  | valued {t : Token} {v : Int32} : t.value = some v →
      Caption (.token t) (t.kind.name.toList ++ ("Token".toList ++ (" -> ".toList ++
        if v.toInt < 0 then '-' :: Nat.toDigits 10 v.toInt.natAbs
        else Nat.toDigits 10 v.toInt.natAbs)))

theorem Node.caption_label (n : Node) : n.Caption n.label.toList := by
  cases n with
  | expr e => exact .expr e
  | token t =>
    cases hv : t.value with
    | none => simpa [label, hv] using Caption.plain hv
    | some v => simpa [label, hv, toList_numeral_eq_ite] using Caption.valued hv

namespace Outline

/-- The item of a part of a node, which is the one with the given number. -/
def Item.part (i : Item) (k : Nat) (child : Node) : Item where
  above := i.isLast :: i.above
  isLast := k + 1 = i.node.children.length
  node := child

/-- Going down from an item to the part with the first number of an address, from there to the
part with the next number, and so on, leads to another item. -/
inductive Leads : Item → List Nat → Item → Prop
  | here (i : Item) : Leads i [] i
  | down {i j : Item} {k : Nat} {child : Node} {address : List Nat} :
      i.node.children[k]? = some child → Leads (i.part k child) address j →
      Leads i (k :: address) j

namespace Leads

variable {i j : Item} {address : List Nat}

theorem depth_eq (h : Leads i address j) : j.depth = i.depth + address.length := by
  induction h with
  | here i => rfl
  | down _ _ ih =>
    rw [ih]
    simp only [Item.depth, Item.part, List.length_cons]
    omega

theorem eq_nil_of_token {t : Token} (h : Leads i address j) (hi : i.node = .token t) :
    address = [] := by
  cases h with
  | here i => rfl
  | down hk _ =>
    rw [hi] at hk
    cases hk

end Leads

end Outline

namespace Expr

/-- The addresses of the nodes of a tree, in the order of its outline. -/
def addresses : Expr → List (List Nat)
  | .number _ => [[], [0]]
  | .binary left _ right =>
      [] :: (left.addresses.map (0 :: ·) ++ [1] :: right.addresses.map (2 :: ·))
  | .group _ inner _ => [] :: [0] :: (inner.addresses.map (1 :: ·) ++ [[2]])

theorem leads_items (above : List Bool) (isLast : Bool) (e : Expr) :
    List.Forall₂ (Outline.Leads ⟨above, isLast, .expr e⟩) e.addresses
      (Outline.items above isLast e) := by
  induction e generalizing above isLast with
  | number token => exact .cons (.here _) (.cons (.down rfl (.here _)) .nil)
  | binary left operator right ihl ihr =>
    refine .cons (.here _) (List.rel_append ?_ (.cons (.down rfl (.here _)) ?_))
    · exact List.forall₂_map_left_iff.2 ((ihl _ _).imp fun _ _ h => .down rfl h)
    · exact List.forall₂_map_left_iff.2 ((ihr _ _).imp fun _ _ h => .down rfl h)
  | group opening inner closing ih =>
    refine .cons (.here _) (.cons (.down rfl (.here _)) (List.rel_append ?_ ?_))
    · exact List.forall₂_map_left_iff.2 ((ih _ _).imp fun _ _ h => .down rfl h)
    · exact .cons (.down rfl (.here _)) .nil

theorem mem_addresses_of_leads {e : Expr} {above : List Bool} {isLast : Bool}
    {address : List Nat} {j : Outline.Item}
    (h : Outline.Leads ⟨above, isLast, .expr e⟩ address j) : address ∈ e.addresses := by
  induction e generalizing above isLast address with
  | number token =>
    cases h with
    | here i => simp [addresses]
    | @down _ _ k child address hk h =>
      rcases k with _ | k
      · cases hk
        simp [addresses, h.eq_nil_of_token rfl]
      · cases hk
  | binary left operator right ihl ihr =>
    cases h with
    | here i => simp [addresses]
    | @down _ _ k child address hk h =>
      rcases k with _ | _ | _ | k
      · cases hk
        simp [addresses, ihl h]
      · cases hk
        simp [addresses, h.eq_nil_of_token rfl]
      · cases hk
        simp [addresses, ihr h]
      · cases hk
  | group opening inner closing ih =>
    cases h with
    | here i => simp [addresses]
    | @down _ _ k child address hk h =>
      rcases k with _ | _ | _ | k
      · cases hk
        simp [addresses, h.eq_nil_of_token rfl]
      · cases hk
        simp [addresses, ih h]
      · cases hk
        simp [addresses, h.eq_nil_of_token rfl]
      · cases hk

theorem mem_addresses_iff {e : Expr} {above : List Bool} {isLast : Bool} {address : List Nat} :
    address ∈ e.addresses ↔ ∃ j, Outline.Leads ⟨above, isLast, .expr e⟩ address j := by
  constructor
  · intro h
    have hitems := (leads_items above isLast e).imp fun a j hj => And.intro (Exists.intro j hj) hj
    exact ((List.forall₂_and_left _ _).1 hitems).1 address h
  · rintro ⟨j, hj⟩
    exact mem_addresses_of_leads hj

theorem pairwise_lt_map_cons (k : Nat) {addresses : List (List Nat)}
    (h : addresses.Pairwise (· < ·)) : (addresses.map (k :: ·)).Pairwise (· < ·) :=
  List.pairwise_map.2 (h.imp fun hlt => List.cons_lt_cons_iff.2 (.inr ⟨rfl, hlt⟩))

/-- The addresses increase: each comes before those below it, and those of a part before those of
the next part. -/
theorem addresses_pairwise_lt (e : Expr) : e.addresses.Pairwise (· < ·) := by
  induction e with
  | number token => simp [addresses]
  | binary left operator right ihl ihr =>
    simp [addresses, List.pairwise_append, pairwise_lt_map_cons, ihl, ihr,
      List.cons_lt_cons_iff, or_imp, forall_and]
  | group opening inner closing ih =>
    simp [addresses, List.pairwise_append, pairwise_lt_map_cons, ih,
      List.cons_lt_cons_iff, or_imp, forall_and]

theorem nil_mem_splitOn {cs : List Char} {sep : Char} (h : cs.getLast? = some sep) :
    [] ∈ cs.splitOn sep := by
  obtain ⟨front, rfl⟩ := List.getLast?_eq_some_iff.1 h
  have hcut := List.splitOnP_append_cons (p := fun c => c == sep) front [] (beq_self_eq_true sep)
  rw [List.splitOn_eq_splitOnP, hcut]
  simp

/-- The text of an outline, cut at its newlines, has one line for every node of the tree, each
node before those below it and the parts of a node from left to right, and it does not end in a
newline. The line of a node has a group of four characters for each node above, from the root
down: blanks under a last part or the root, and a guide otherwise. Then comes the marker, which
tells a last part from others, and then what there is to say of the node. -/
theorem lines_of_render (e : Expr) : ∃ addresses : List (List Nat),
    addresses.Pairwise (· < ·) ∧
    (∀ address, address ∈ addresses ↔ ∃ i, Outline.Leads ⟨[], true, .expr e⟩ address i) ∧
    List.Forall₂ (fun address line => ∃ i caption,
        Outline.Leads ⟨[], true, .expr e⟩ address i ∧ i.depth = address.length ∧
        i.node.Caption caption ∧
        line = (i.above.reverse.flatMap fun isLast => (if isLast then "    " else "│   ").toList) ++
          ((if i.isLast then "└──" else "├──").toList ++ caption))
      addresses (e.render.toList.splitOn '\n') ∧
    e.render.toList.getLast? ≠ some '\n' := by
  have hlines : List.Forall₂ (fun address line => ∃ i : Outline.Item,
      Outline.Leads ⟨[], true, .expr e⟩ address i ∧ line = i.line.toList)
      e.addresses (e.render.toList.splitOn '\n') := by
    rw [splitOn_render]
    exact List.forall₂_map_right_iff.2 ((leads_items [] true e).imp fun _ i h => ⟨i, h, rfl⟩)
  refine ⟨e.addresses, e.addresses_pairwise_lt, fun _ => mem_addresses_iff, ?_, fun hlast => ?_⟩
  · refine hlines.imp fun address line hline => ?_
    obtain ⟨i, hi, rfl⟩ := hline
    refine ⟨i, i.node.label.toList, hi, ?_, i.node.caption_label, Outline.toList_line i⟩
    rw [hi.depth_eq]
    exact Nat.zero_add _
  · have hnil := nil_mem_splitOn hlast
    rw [splitOn_render, List.mem_map] at hnil
    obtain ⟨i, -, hi⟩ := hnil
    have hmarker : (Outline.marker i.isLast).toList ≠ [] := by
      cases i.isLast <;> decide
    rw [Outline.toList_line] at hi
    simp [hmarker] at hi

end Expr

end Calculator
