import Mathlib.Data.Nat.Find
import Calculator.Proofs.Placeholders
import Calculator.Proofs.Standings

/-!
# Viable fronts

A list of kinds is viable if it can go on to a whole line, that is, to a sentence with the
end of input behind it. Viability is a matter of standings: every standing that is reached
can be closed again, by one operand if it is due and by a closing parenthesis for each open
group, and no sentence goes on over a token that does not fit.

The main statement is that the first report about the order of the tokens is made at the
first token with which the line ceases to be viable. What is reported after it depends on
how the line is mended and is not the subject here.
-/
namespace Calculator

/-- The kinds are the front of a sentence, or a sentence and the end of input. -/
def IsViable (ks : List Token.Kind) : Prop :=
  ∃ s, Sentence .term s ∧ ks <+: s ++ [.endOfInput]

namespace Standing

/-- The kinds that close everything that is open. -/
def completion (s : Standing) : List Token.Kind :=
  (if s.needsOperand then [.number] else []) ++ List.replicate s.depth .closeParen

theorem run?_replicate (d : Nat) :
    run? ⟨false, d⟩ (List.replicate d .closeParen) = some closed := by
  induction d with
  | zero => rfl
  | succ d ih => rwa [List.replicate_succ, run?_cons]

theorem run?_completion (s : Standing) : s.run? s.completion = some closed := by
  obtain ⟨needsOperand, depth⟩ := s
  cases needsOperand with
  | true => exact run?_replicate depth
  | false => exact run?_replicate depth

end Standing

theorem isViable_of_run? {ks : List Token.Kind} {s : Standing}
    (h : Standing.run? {} ks = some s) : IsViable ks := by
  refine ⟨ks ++ s.completion, ?_, ?_⟩
  · rw [sentence_iff_run?, Standing.run?_append_of_eq h, Standing.run?_completion]
  · rw [List.append_assoc]
    exact List.prefix_append _ _

theorem exists_run?_of_isPrefix {ks s : List Token.Kind} (hs : Sentence .term s)
    (h : ks <+: s) : ∃ t, Standing.run? {} ks = some t := by
  obtain ⟨ls, rfl⟩ := h
  rw [sentence_iff_run?, Standing.run?_append, Option.bind_eq_some_iff] at hs
  obtain ⟨t, ht, -⟩ := hs
  exact ⟨t, ht⟩

theorem IsViable.exists_run? {ks : List Token.Kind} (h : IsViable ks)
    (hk : ∀ k ∈ ks, k ≠ .endOfInput) : ∃ t, Standing.run? {} ks = some t := by
  obtain ⟨s, hs, hpre⟩ := h
  rcases List.prefix_concat_iff.1 hpre with rfl | hpre
  · exact absurd rfl (hk .endOfInput (by simp))
  · exact exists_run?_of_isPrefix hs hpre

/-- A front stays viable with a token exactly if the token fits where the front leads to. -/
theorem isViable_concat_iff {ks : List Token.Kind} {k : Token.Kind} : IsViable (ks ++ [k]) ↔
    ∃ s, Standing.run? {} ks = some s ∧ s.Admits k := by
  constructor
  · rintro ⟨s, hs, hpre⟩
    rcases List.prefix_concat_iff.1 hpre with heq | hpre
    · obtain ⟨rfl, hk⟩ := List.append_inj' heq rfl
      exact ⟨.closed, sentence_iff_run?.1 hs, .inr ⟨List.singleton_inj.1 hk, rfl⟩⟩
    · obtain ⟨u, hu⟩ := exists_run?_of_isPrefix hs hpre
      rw [Standing.run?_append, Option.bind_eq_some_iff] at hu
      obtain ⟨t, ht, hu⟩ := hu
      refine ⟨t, ht, .inl fun hn => ?_⟩
      rw [Standing.run?_cons, hn] at hu
      cases hu
  · rintro ⟨s, hs, hstep | ⟨rfl, rfl⟩⟩
    · obtain ⟨t, ht⟩ := Option.ne_none_iff_exists'.1 hstep
      refine isViable_of_run? (s := t) ?_
      rw [Standing.run?_append_of_eq hs, Standing.run?_cons, ht]
      rfl
    · exact ⟨ks, sentence_iff_run?.2 hs, List.prefix_rfl⟩

theorem exists_buffer_eq (text : String) : ∃ ts : List Token,
    buffer text = ts ++ [Token.endOfInput text.utf8ByteSize] ∧ ∀ t ∈ ts, t.kind ≠ .endOfInput :=
  Reader.isEnded_ofText text

namespace Line

theorem syntactic_eq_run {text : String} {ts us : List Token} {s : Standing}
    (hb : buffer text = ts ++ us) (h : Standing.run? {} (ts.map Token.kind) = some s) :
    (ofText text).syntactic =
      (Counter.run (buffer text) (({} : Counter).advance s ts.length)).2 := by
  have hrun : Counter.run (buffer text) {} =
      Counter.run (buffer text) (({} : Counter).advance s ts.length) := Counter.run_of_run? hb h
  rw [← hrun]
  exact (Counter.run_ahead (Reader.isEnded_ofText text)).symm

/-- Where a line leads to a standing, the next token is the first one to be reported if it
does not fit. -/
theorem head?_syntactic {text : String} {k : Nat} {t : Token} {s : Standing}
    (ht : (buffer text)[k]? = some t)
    (h : Standing.run? {} (((buffer text).take k).map Token.kind) = some s)
    (hs : ¬ s.Admits t.kind) : ∃ expected,
      (ofText text).syntactic.head? = some ⟨.unexpectedToken t.kind expected, t.position⟩ := by
  have hlength : ((buffer text).take k).length = k :=
    List.length_take_of_le (Nat.le_of_lt (List.getElem?_eq_some_iff.1 ht).1)
  rw [syntactic_eq_run (List.take_append_drop k _).symm h, hlength]
  have hc : (buffer text)[(({} : Counter).advance s k).taken]? = some t := by
    rw [Counter.advance, Nat.zero_add, ht]
  obtain ⟨expected, ds, hds⟩ := Counter.exists_report_of_not_admits hc hs
  exact ⟨expected, by rw [← hds]; rfl⟩

theorem syntactic_eq_nil_of_isViable {text : String}
    (h : IsViable ((buffer text).map Token.kind)) : (ofText text).syntactic = [] := by
  obtain ⟨ts, hb, -⟩ := exists_buffer_eq text
  rw [hb, List.map_append, List.map_singleton, isViable_concat_iff] at h
  obtain ⟨s, hs, hstep | ⟨-, rfl⟩⟩ := h
  · exact absurd (Standing.step?_endOfInput s) hstep
  · have hc : (buffer text)[(({} : Counter).advance .closed ts.length).taken]? =
        some (Token.endOfInput text.utf8ByteSize) := by
      rw [Counter.advance, Nat.zero_add, hb]
      simp
    rw [syntactic_eq_run hb hs]
    exact Counter.run_of_closed hc rfl rfl

theorem ne_endOfInput_of_mem_take {text : String} {k : Nat} (hk : k < (buffer text).length) :
    ∀ l ∈ ((buffer text).take k).map Token.kind, l ≠ .endOfInput := by
  obtain ⟨ts, hb, hts⟩ := exists_buffer_eq text
  rw [hb, List.length_append, List.length_singleton] at hk
  rw [hb, List.take_append_of_le_length (by omega)]
  intro l hl
  obtain ⟨t, ht, rfl⟩ := List.mem_map.1 hl
  exact hts t (List.mem_of_mem_take ht)

/-- The first token with which a line ceases to be viable is the first one to be reported. -/
theorem head?_syntactic_of_not_isViable {text : String} {k : Nat} {t : Token}
    (ht : (buffer text)[k]? = some t)
    (hnot : ¬ IsViable (((buffer text).take (k + 1)).map Token.kind))
    (hviable : ∀ i < k, IsViable (((buffer text).take (i + 1)).map Token.kind)) :
    ∃ expected, (ofText text).syntactic.head? =
      some ⟨.unexpectedToken t.kind expected, t.position⟩ := by
  have hk := ne_endOfInput_of_mem_take (List.getElem?_eq_some_iff.1 ht).1
  obtain ⟨s, hs⟩ : ∃ s, Standing.run? {} (((buffer text).take k).map Token.kind) = some s := by
    cases k with
    | zero => exact ⟨{}, rfl⟩
    | succ i => exact (hviable i (Nat.lt_succ_self i)).exists_run? hk
  refine head?_syntactic ht hs fun hadmits => hnot ?_
  rw [List.take_add_one, ht, List.map_append]
  exact isViable_concat_iff.2 ⟨s, hs, hadmits⟩

/-- Something is reported about the order of the tokens of a line exactly if the line ceases
to be viable at some token, and then the first report is made at the first such token and
names its kind. -/
theorem syntactic_ne_nil_iff_not_isViable (text : String) :
    ((ofText text).syntactic ≠ [] ↔ ∃ k < (buffer text).length,
      ¬ IsViable (((buffer text).take (k + 1)).map Token.kind)) ∧
    ∀ k t, (buffer text)[k]? = some t →
      ¬ IsViable (((buffer text).take (k + 1)).map Token.kind) →
      (∀ i < k, IsViable (((buffer text).take (i + 1)).map Token.kind)) →
      ∃ expected, (ofText text).syntactic.head? =
        some ⟨.unexpectedToken t.kind expected, t.position⟩ := by
  refine ⟨⟨fun hne => ?_, fun hex => ?_⟩, fun k t ht => head?_syntactic_of_not_isViable ht⟩
  · by_contra hall
    obtain ⟨ts, hb, -⟩ := exists_buffer_eq text
    refine hne (syntactic_eq_nil_of_isViable ?_)
    by_contra hnot
    refine hall ⟨ts.length, by simp [hb], ?_⟩
    rwa [List.take_of_length_le (by simp [hb])]
  · classical
    have hleast := Nat.find_spec hex
    obtain ⟨expected, hhead⟩ := head?_syntactic_of_not_isViable
      (List.getElem?_eq_getElem hleast.1) hleast.2 fun i hi => by
        by_contra hnot
        exact Nat.find_min hex hi ⟨hi.trans hleast.1, hnot⟩
    intro hnil
    rw [hnil] at hhead
    cases hhead

end Line

end Calculator
