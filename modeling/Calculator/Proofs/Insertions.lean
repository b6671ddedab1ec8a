import Mathlib.Order.Bounds.Defs
import Calculator.Proofs.Placeholders

/-!
# Insertions

How many tokens a line lacks can be read off its kinds without reading it: an operator and
an opening parenthesis each demand one more token than they are, and a number and a closing
parenthesis each meet one demand. A sentence meets all demands, so that inserting tokens
into a line makes a sentence of it only if there are as many as the line still demands.

A line that is taken to its end is mended by tokens that each meet a demand, and so no
sentence can be had for less. Lines with tokens left over are not considered here; these
are not mended by insertions alone.
-/
namespace Calculator

def Token.Kind.demand : Token.Kind → Int
  | .plus | .minus | .star | .slash | .openParen => 1
  | .number | .closeParen => -1
  | .whitespace | .bad | .endOfInput => 0

theorem Token.Kind.neg_one_le_demand (k : Token.Kind) : -1 ≤ k.demand := by
  cases k <;> decide

/-- The demands that are left open by tokens of the kinds. -/
def demand : List Token.Kind → Int
  | [] => 0
  | k :: ks => k.demand + demand ks

theorem demand_append (ks ls : List Token.Kind) : demand (ks ++ ls) = demand ks + demand ls := by
  induction ks with
  | nil => simp [demand]
  | cons k ks ih =>
    simp only [List.cons_append, demand, ih]
    omega

theorem demand_le_of_sublist {ks s : List Token.Kind} (h : ks.Sublist s) :
    demand ks + ks.length ≤ demand s + s.length := by
  induction h with
  | slnil => simp
  | cons k _ ih =>
    have := k.neg_one_le_demand
    simp only [demand, List.length_cons]
    omega
  | cons_cons k _ ih =>
    simp only [demand, List.length_cons]
    omega

/-- A derived tree meets all demands inside it, and one more. -/
theorem Derivation.demand_eq {level : Level} {e : Expr} (h : Derivation level e) :
    demand (e.tokens.map Token.kind) = -1 := by
  induction h with
  | number hk => simp [Expr.tokens, demand, hk, Token.Kind.demand]
  | group ho _ hc ih => simp [Expr.tokens, demand, demand_append, ho, hc, ih, Token.Kind.demand]
  | primary _ ih => exact ih
  | @product left right operator _ hk _ ihl ihr =>
    have ho : operator.kind.demand = 1 := by rcases hk with hk | hk <;> rw [hk] <;> rfl
    simp [Expr.tokens, demand, demand_append, ho, ihl, ihr]
  | factor _ ih => exact ih
  | @sum left right operator _ hk _ ihl ihr =>
    have ho : operator.kind.demand = 1 := by rcases hk with hk | hk <;> rw [hk] <;> rfl
    simp [Expr.tokens, demand, demand_append, ho, ihl, ihr]

theorem Sentence.demand_eq {level : Level} {ks : List Token.Kind} (h : Sentence level ks) :
    demand ks = -1 := by
  obtain ⟨ts, hts⟩ := exists_map_kind ks
  obtain ⟨e, he, rfl⟩ := h.exists_derivation hts
  rw [← hts]
  exact he.demand_eq

/-- The numbers of kinds that may be inserted into a list of kinds, each of them anywhere, to
make a sentence of it. -/
def insertions (ks : List Token.Kind) : Set Nat :=
  {m | ∃ s, Sentence .term s ∧ ks.Sublist s ∧ s.length = ks.length + m}

/-- At least as many kinds have to be inserted as there are demands, and one more. -/
theorem demand_lt_of_mem_insertions {ks : List Token.Kind} {m : Nat} (h : m ∈ insertions ks) :
    demand ks < m := by
  obtain ⟨s, hs, hsub, hlength⟩ := h
  have hle := demand_le_of_sublist hsub
  rw [hs.demand_eq, hlength] at hle
  push_cast at hle
  omega

/-- Each placeholder meets one of the demands of the scanned tokens. -/
theorem demand_filter_isScanned {ts : List Token}
    (h : ∀ t ∈ ts, t.isScanned = false → Reader.CanBeMissing t.kind) :
    demand ((ts.filter Token.isScanned).map Token.kind) =
      demand (ts.map Token.kind) + ts.countP Token.isPlaceholder := by
  induction ts with
  | nil => rfl
  | cons t ts ih =>
    have iht := ih fun u hu => h u (by simp [hu])
    cases hp : t.isPlaceholder with
    | false =>
      have hs : t.isScanned = true := by rw [Token.isScanned, hp, Bool.not_false]
      rw [List.filter_cons_of_pos hs, List.countP_cons_of_neg (by simp [hp]), List.map_cons,
        List.map_cons, demand, demand, iht]
      omega
    | true =>
      have hs : t.isScanned = false := by rw [Token.isScanned, hp, Bool.not_true]
      have hk : t.kind.demand = -1 := by
        rcases h t (by simp) hs with hk | hk <;> rw [hk] <;> rfl
      rw [List.filter_cons_of_neg (by simp [hs]), List.countP_cons_of_pos hp, List.map_cons,
        demand, hk, iht]
      omega

theorem length_filter_isScanned (ts : List Token) :
    ts.length = (ts.filter Token.isScanned).length + ts.countP Token.isPlaceholder := by
  rw [List.length_eq_countP_add_countP Token.isScanned, List.countP_eq_length_filter]
  congr 2
  funext t
  simp [Token.isScanned]

namespace Line

/-- On a line that is taken to its end as many diagnostics arise from the order of its tokens
as tokens have to be inserted into it at least to make a sentence of it. -/
theorem syntactic_length_isLeast (text : String)
    (h : (ofText text).endToken.isPlaceholder = false) :
    IsLeast (insertions ((buffer text).dropLast.map Token.kind))
      (ofText text).syntactic.length := by
  have hroot := filter_isScanned_eq_dropLast h
  have hderived : Derivation .term (ofText text).root := Reader.phrase_derivation .term _
  have hcount : (ofText text).syntactic.length =
      (ofText text).root.tokens.countP Token.isPlaceholder := by
    rw [(mends text).length_diagnostics, List.countP_append]
    simp [h]
  rw [hcount, ← hroot]
  constructor
  · refine ⟨(ofText text).root.tokens.map Token.kind, hderived.sentence,
      List.filter_sublist.map _, ?_⟩
    rw [List.length_map, List.length_map]
    exact length_filter_isScanned _
  · intro m hm
    have hlt := demand_lt_of_mem_insertions hm
    rw [demand_filter_isScanned (canBeMissing_root text), hderived.demand_eq] at hlt
    omega

theorem syntactic_length_isLeast_open_group :
    (ofText "(1+").endToken.isPlaceholder = false ∧
      IsLeast (insertions [.openParen, .number, .plus]) 2 := by
  have hend : (ofText "(1+").endToken.isPlaceholder = false := by decide +kernel
  have hkinds : (buffer "(1+").dropLast.map Token.kind = [.openParen, .number, .plus] := by
    decide +kernel
  have hlength : (ofText "(1+").syntactic.length = 2 := by decide +kernel
  have h := syntactic_length_isLeast "(1+" hend
  rw [hkinds, hlength] at h
  exact ⟨hend, h⟩

end Line

end Calculator
