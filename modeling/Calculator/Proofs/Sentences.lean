import Calculator.Grammar

/-!
# Sentences and derivations

The grammar of a line without any reader: which kinds of tokens may follow each other, and
which trees belong to them.

    term    := factor (('+' | '-') factor)*
    factor  := primary (('*' | '/') primary)*
    primary := '(' term ')' | NUMBER

`Sentence` is this grammar word for word, a repetition being a list of links. `Derivation`
is the same grammar on trees, where a repetition is taken from the left one link at a
time, as chains group. A tree is derived exactly if its tokens read from left to right are
a sentence, and every sentence has such a tree. That there is only one is a matter of
reading and not said here.
-/
namespace Calculator

/-- The kinds of tokens that make up a phrase of a level. -/
inductive Sentence : Level → List Token.Kind → Prop
  | number : Sentence .primary [.number]
  | group {ks : List Token.Kind} :
      Sentence .term ks → Sentence .primary (.openParen :: (ks ++ [.closeParen]))
  | factor {ks : List Token.Kind} {links : List (Token.Kind × List Token.Kind)} :
      Sentence .primary ks → (∀ link ∈ links, link.1 = .star ∨ link.1 = .slash) →
      (∀ link ∈ links, Sentence .primary link.2) →
      Sentence .factor (ks ++ links.flatMap fun link => link.1 :: link.2)
  | term {ks : List Token.Kind} {links : List (Token.Kind × List Token.Kind)} :
      Sentence .factor ks → (∀ link ∈ links, link.1 = .plus ∨ link.1 = .minus) →
      (∀ link ∈ links, Sentence .factor link.2) →
      Sentence .term (ks ++ links.flatMap fun link => link.1 :: link.2)

/-- The trees of phrases of a level. Only the kinds of the tokens matter. -/
inductive Derivation : Level → Expr → Prop
  | number {token : Token} : token.kind = .number → Derivation .primary (.number token)
  | group {opening closing : Token} {inner : Expr} : opening.kind = .openParen →
      Derivation .term inner → closing.kind = .closeParen →
      Derivation .primary (.group opening inner closing)
  | primary {e : Expr} : Derivation .primary e → Derivation .factor e
  | product {left right : Expr} {operator : Token} : Derivation .factor left →
      operator.kind = .star ∨ operator.kind = .slash → Derivation .primary right →
      Derivation .factor (.binary left operator right)
  | factor {e : Expr} : Derivation .factor e → Derivation .term e
  | sum {left right : Expr} {operator : Token} : Derivation .term left →
      operator.kind = .plus ∨ operator.kind = .minus → Derivation .factor right →
      Derivation .term (.binary left operator right)

namespace Level

theorem joins_primary_iff {k : Token.Kind} : primary.joins k = true ↔ k = .star ∨ k = .slash := by
  cases k <;> decide

theorem joins_factor_iff {k : Token.Kind} : factor.joins k = true ↔ k = .plus ∨ k = .minus := by
  cases k <;> decide

end Level

namespace Derivation

variable {level operand : Level}

theorem ofOperand (h : level.operand? = some operand) {e : Expr} (he : Derivation operand e) :
    Derivation level e := by
  cases level <;> cases h
  · exact .primary he
  · exact .factor he

theorem link (h : level.operand? = some operand) {left right : Expr} {operator : Token}
    (hl : Derivation level left) (hj : operand.joins operator.kind = true)
    (hr : Derivation operand right) : Derivation level (.binary left operator right) := by
  cases level <;> cases h
  · exact .product hl (Level.joins_primary_iff.1 hj) hr
  · exact .sum hl (Level.joins_factor_iff.1 hj) hr

end Derivation

namespace Sentence

theorem product {ks ls : List Token.Kind} {k : Token.Kind} (h : Sentence .factor ks)
    (hk : k = .star ∨ k = .slash) (hr : Sentence .primary ls) :
    Sentence .factor (ks ++ k :: ls) := by
  cases h with
  | @factor ks links hf hj hs =>
    have hall := @Sentence.factor ks (links ++ [(k, ls)]) hf
      (List.forall_mem_append.2 ⟨hj, by simpa using hk⟩)
      (List.forall_mem_append.2 ⟨hs, by simpa using hr⟩)
    simpa using hall

theorem sum {ks ls : List Token.Kind} {k : Token.Kind} (h : Sentence .term ks)
    (hk : k = .plus ∨ k = .minus) (hr : Sentence .factor ls) :
    Sentence .term (ks ++ k :: ls) := by
  cases h with
  | @term ks links hf hj hs =>
    have hall := @Sentence.term ks (links ++ [(k, ls)]) hf
      (List.forall_mem_append.2 ⟨hj, by simpa using hk⟩)
      (List.forall_mem_append.2 ⟨hs, by simpa using hr⟩)
    simpa using hall

end Sentence

/-- The tokens of a derived tree are a sentence. -/
theorem Derivation.sentence {level : Level} {e : Expr} (h : Derivation level e) :
    Sentence level (e.tokens.map Token.kind) := by
  induction h with
  | number hk => simpa [Expr.tokens, hk] using Sentence.number
  | group ho _ hc ih => simpa [Expr.tokens, ho, hc] using Sentence.group ih
  | primary _ ih => simpa using @Sentence.factor _ [] ih (by simp) (by simp)
  | product _ hk _ ihl ihr => simpa [Expr.tokens] using ihl.product hk ihr
  | factor _ ih => simpa using @Sentence.term _ [] ih (by simp) (by simp)
  | sum _ hk _ ihl ihr => simpa [Expr.tokens] using ihl.sum hk ihr

/-- Links go on with a derived tree from the left. -/
theorem Derivation.exists_links {level operand : Level} (h : level.operand? = some operand)
    (links : List (Token.Kind × List Token.Kind)) {left : Expr} (hl : Derivation level left)
    (hj : ∀ link ∈ links, operand.joins link.1 = true)
    (hs : ∀ link ∈ links, ∀ ts : List Token, ts.map Token.kind = link.2 →
      ∃ e, Derivation operand e ∧ e.tokens = ts)
    {ts : List Token} (hts : ts.map Token.kind = links.flatMap fun link => link.1 :: link.2) :
    ∃ e, Derivation level e ∧ e.tokens = left.tokens ++ ts := by
  induction links generalizing left ts with
  | nil =>
    obtain rfl : ts = [] := by simpa using hts
    exact ⟨left, hl, by simp⟩
  | cons first links ih =>
    rw [List.flatMap_cons, List.cons_append, List.map_eq_cons_iff] at hts
    obtain ⟨operator, us, rfl, hk, hus⟩ := hts
    rw [List.map_eq_append_iff] at hus
    obtain ⟨vs, ws, rfl, hvs, hws⟩ := hus
    obtain ⟨right, hr, rfl⟩ := hs first (by simp) vs hvs
    have hop : operand.joins operator.kind = true := by rw [hk]; exact hj first (by simp)
    obtain ⟨e, he, hts⟩ := ih (hl.link h hop hr) (fun link hm => hj link (by simp [hm]))
      (fun link hm => hs link (by simp [hm])) hws
    exact ⟨e, he, by rw [hts]; simp [Expr.tokens]⟩

theorem exists_map_kind (ks : List Token.Kind) : ∃ ts : List Token, ts.map Token.kind = ks :=
  ⟨ks.map fun k => ⟨k, 0, none, none, false⟩, by simp [Function.comp_def]⟩

/-- Tokens whose kinds are a sentence are the tokens of a derived tree. -/
theorem Sentence.exists_derivation {level : Level} {ks : List Token.Kind}
    (h : Sentence level ks) {ts : List Token} (hts : ts.map Token.kind = ks) :
    ∃ e, Derivation level e ∧ e.tokens = ts := by
  induction h generalizing ts with
  | number =>
    rw [List.map_eq_singleton_iff] at hts
    obtain ⟨token, rfl, hk⟩ := hts
    exact ⟨.number token, .number hk, rfl⟩
  | group _ ih =>
    rw [List.map_eq_cons_iff] at hts
    obtain ⟨opening, us, rfl, ho, hus⟩ := hts
    rw [List.map_eq_append_iff] at hus
    obtain ⟨vs, ws, rfl, hvs, hws⟩ := hus
    obtain ⟨closing, rfl, hc⟩ := List.map_eq_singleton_iff.1 hws
    obtain ⟨inner, hi, rfl⟩ := ih hvs
    exact ⟨.group opening inner closing, .group ho hi hc, rfl⟩
  | factor _ hj _ ihf ihs =>
    rw [List.map_eq_append_iff] at hts
    obtain ⟨us, vs, rfl, hus, hvs⟩ := hts
    obtain ⟨first, hf, rfl⟩ := ihf hus
    exact Derivation.exists_links rfl _ (.primary hf)
      (fun link hm => Level.joins_primary_iff.2 (hj link hm)) (fun link hm _ => ihs link hm) hvs
  | term _ hj _ ihf ihs =>
    rw [List.map_eq_append_iff] at hts
    obtain ⟨us, vs, rfl, hus, hvs⟩ := hts
    obtain ⟨first, hf, rfl⟩ := ihf hus
    exact Derivation.exists_links rfl _ (.factor hf)
      (fun link hm => Level.joins_factor_iff.2 (hj link hm)) (fun link hm _ => ihs link hm) hvs

end Calculator
