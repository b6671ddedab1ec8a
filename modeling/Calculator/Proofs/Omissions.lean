import Calculator.Proofs.Blanking
import Calculator.Proofs.Composition
import Calculator.Proofs.Standings
import Calculator.Proofs.Tokenwise

/-!
# Omissions

A line without diagnostics, with some of its numbers and closing parentheses blanked out. One
diagnostic arises for each token that is missing and it names the kind of this token, however
many of them are missing and however deep they stood. No token is left over, so that the rest
of the line is always read to its end.

A counter that passes over the line falls behind the standings of the complete line in one
way only: every closing parenthesis that is missing leaves a group open, which is reported at
the end of the line. A number is missed at once, because what comes next in a complete line
does not start an operand. So if only numbers are missing the tree keeps its form, with a
placeholder in the place of each of them. With a closing parenthesis missing it need not, and
nothing is said about the tree then.
-/
namespace Calculator

def Diagnostic.expected? (d : Diagnostic) : Option Token.Kind :=
  match d.cause with
  | .unexpectedToken _ expected => some expected
  | _ => none

theorem Diagnostic.expected?_eq_some_iff {d : Diagnostic} {k : Token.Kind} :
    d.expected? = some k ↔ ∃ actual, d.cause = .unexpectedToken actual k := by
  obtain ⟨cause, position⟩ := d
  cases cause <;> simp [expected?]

variable {D : Finset Token}

theorem Reader.current_without_of_run? {n d : Nat} {ts : List Token}
    (hs : Standing.run? ⟨false, d⟩ (ts.map Token.kind) = some .closed)
    (hD : ∀ t ∈ ts, t ∈ D → CanBeMissing t.kind) :
    (without D n ts).current.kind ≠ .number ∧ (without D n ts).current.kind ≠ .openParen := by
  induction ts generalizing d with
  | nil => simp [without, current, Token.endOfInput]
  | cons t ts ih =>
    rw [List.forall_mem_cons] at hD
    rw [List.map_cons, Standing.run?_cons, Option.bind_eq_some_iff] at hs
    obtain ⟨s, hstep, hs⟩ := hs
    by_cases ht : t ∈ D
    · rw [without_of_mem ht]
      rcases hD.1 ht with hk | hk
      · rw [hk] at hstep
        cases hstep
      · rw [hk] at hstep
        cases d with
        | zero => cases hstep
        | succ d =>
          cases hstep
          exact ih hs hD.2
    · rw [current_without ht]
      constructor <;> intro hk <;> rw [hk] at hstep <;> cases hstep

def Standing.deepened (s : Standing) (m : Nat) : Standing := { s with depth := s.depth + m }

theorem Standing.step?_deepened {s t : Standing} {k : Token.Kind} (h : s.step? k = some t)
    (m : Nat) : (s.deepened m).step? k = some (t.deepened m) := by
  obtain ⟨needsOperand, depth⟩ := s
  cases needsOperand with
  | true => cases k <;> cases h <;> simp [deepened, step?, Nat.add_right_comm]
  | false => cases depth <;> cases k <;> cases h <;> simp [deepened, step?, Nat.add_right_comm]

namespace Counter

/-- A counter in front of what is left of a line has as many groups more open than the complete
line as closing parentheses are missing so far. -/
structure Lags (buffer : List Token) (D : Finset Token) (n missing : Nat) (c : Counter)
    (s : Standing) (ts : List Token) : Prop where
  standing_eq : c.standing = s.deepened missing
  isAt : At buffer c (.without D n ts)

namespace Lags

variable {buffer : List Token} {n m : Nat} {c : Counter} {s s' : Standing} {t : Token}
  {ts : List Token}

theorem keep (h : Lags buffer D n m c s (t :: ts)) (ht : t ∉ D)
    (hs : s.step? t.kind = some s') : ∃ d, Lags buffer D n m d s' ts ∧
      d.diagnostics = c.diagnostics ∧ run buffer c = run buffer d := by
  have hstep : c.standing.step? (Reader.without D n (t :: ts)).current.kind =
      some (s'.deepened m) := by
    rw [h.standing_eq, Reader.current_without ht]
    exact Standing.step?_deepened hs m
  have hmove := move?_of_step? hstep
  have hrest := h.isAt.rest hmove rfl
  rw [Reader.rest_without ht] at hrest
  exact ⟨_, ⟨rfl, hrest⟩, rfl, h.isAt.run_of_move hmove⟩

/-- A number that is missing is reported at what comes next. -/
theorem missNumber (h : Lags buffer D n m c s (t :: ts)) (ht : t ∈ D) (hk : t.kind = .number)
    (hs : s.step? t.kind = some s') (hts : s'.run? (ts.map Token.kind) = some .closed)
    (hD : ∀ t ∈ ts, t ∈ D → Reader.CanBeMissing t.kind) :
    ∃ d report, Lags buffer D n m d s' ts ∧ d.diagnostics = c.diagnostics ++ [report] ∧
      report.expected? = some .number ∧ run buffer c = run buffer d := by
  obtain ⟨needsOperand, depth⟩ := s
  rw [hk] at hs
  cases needsOperand with
  | false => cases hs
  | true =>
    cases hs
    obtain ⟨hstanding, hat⟩ := h
    rw [Reader.without_of_mem ht] at hat
    obtain ⟨hnumber, hopen⟩ := Reader.current_without_of_run? (n := n) hts hD
    rw [standing, Standing.deepened, Standing.mk.injEq] at hstanding
    have hmove := move?_of_missing_operand hstanding.1 hnumber hopen
    have hlags : Lags buffer D n m
        { c.report 1 (Reader.without D n ts).current .number with needsOperand := false }
        ⟨false, depth⟩ ts := by
      refine ⟨?_, hat.drop_eq, hat.isEnded⟩
      rw [standing, Standing.deepened, Standing.mk.injEq]
      exact ⟨rfl, hstanding.2⟩
    exact ⟨_, _, hlags, rfl, rfl, hat.run_of_move hmove⟩

/-- A closing parenthesis that is missing leaves its group open. -/
theorem missClosing (h : Lags buffer D n m c s (t :: ts)) (ht : t ∈ D)
    (hk : t.kind = .closeParen) (hs : s.step? t.kind = some s') :
    Lags buffer D n (m + 1) c s' ts := by
  obtain ⟨needsOperand, depth⟩ := s
  obtain ⟨hstanding, hat⟩ := h
  rw [Reader.without_of_mem ht] at hat
  refine ⟨?_, hat⟩
  rw [hk] at hs
  cases needsOperand <;> cases depth <;> cases hs
  rw [hstanding, Standing.deepened, Standing.deepened, Standing.mk.injEq]
  exact ⟨rfl, by simp only; omega⟩

theorem finish (h : Lags buffer D n m c .closed []) : (run buffer c).2 =
    c.diagnostics ++ List.replicate m ⟨.unexpectedToken .endOfInput .closeParen, n⟩ := by
  have hcurrent : (Reader.without D n []).current = Token.endOfInput n := rfl
  obtain ⟨hstanding, hat⟩ := h
  rw [standing, Standing.deepened, Standing.closed, Standing.mk.injEq] at hstanding
  have hnone : c.move? (Reader.without D n []).current = none :=
    move?_eq_none hstanding.1 rfl fun hk => by cases hk
  rw [hat.run_of_stop hnone, hcurrent]
  simp [stop, report, Token.endOfInput, hstanding.2]

/-- What a counter reports from there on: one token of the kind for each that is missing, and
for each group that has been left open. -/
theorem exists_reports (h : Lags buffer D n m c s ts)
    (hs : s.run? (ts.map Token.kind) = some .closed)
    (hD : ∀ t ∈ ts, t ∈ D → Reader.CanBeMissing t.kind) :
    ∃ ds, (run buffer c).2 = c.diagnostics ++ ds ∧
      (ds.map Diagnostic.expected?).Perm ((ts.filter (· ∈ D)).map (fun t => some t.kind) ++
        List.replicate m (some .closeParen)) := by
  induction ts generalizing s c m with
  | nil =>
    obtain rfl : s = .closed := Option.some.inj hs
    exact ⟨_, h.finish, by simp [Diagnostic.expected?]⟩
  | cons t ts ih =>
    rw [List.forall_mem_cons] at hD
    rw [List.map_cons, Standing.run?_cons, Option.bind_eq_some_iff] at hs
    obtain ⟨s', hstep, hts⟩ := hs
    by_cases ht : t ∈ D
    · rw [List.filter_cons_of_pos (by simpa using ht), List.map_cons, List.cons_append]
      rcases hD.1 ht with hk | hk
      · obtain ⟨d, report, hd, hdiagnostics, hexpected, hrun⟩ :=
          h.missNumber ht hk hstep hts hD.2
        obtain ⟨ds, hds, hperm⟩ := ih hd hts hD.2
        refine ⟨report :: ds, by rw [hrun, hds, hdiagnostics, List.append_assoc]; rfl, ?_⟩
        rw [List.map_cons, hexpected, hk]
        exact hperm.cons _
      · obtain ⟨ds, hds, hperm⟩ := ih (h.missClosing ht hk hstep) hts hD.2
        refine ⟨ds, hds, hperm.trans ?_⟩
        rw [hk, List.replicate_succ]
        exact List.perm_middle
    · obtain ⟨d, hd, hdiagnostics, hrun⟩ := h.keep ht hstep
      obtain ⟨ds, hds, hperm⟩ := ih hd hts hD.2
      refine ⟨ds, by rw [hrun, hds, hdiagnostics], ?_⟩
      rwa [List.filter_cons_of_neg (by simpa using ht)]

end Lags

end Counter

/-- Tokens of which only operands are missing, with placeholders in their places, are a repair
of those that are left. -/
theorem Reader.exists_repair_without {n : Nat} {ts : List Token} {s : Standing}
    {f : Token → Token} (hs : s.run? (ts.map Token.kind) = some .closed)
    (hD : ∀ t ∈ ts, t ∈ D → t.kind = .number) (hkeep : ∀ t ∈ ts, t ∉ D → f t = t)
    (hmiss : ∀ front t back, ts = front ++ t :: back → t ∈ D →
      f t = Token.placeholder .number (without D n back).current.position) :
    ∃ ds, Repair (without D n ts) (ts.map f) ds ⟨[Token.endOfInput n], n⟩ ∧
      ∀ d ∈ ds, IsMissingOperand d := by
  induction ts generalizing s with
  | nil => exact ⟨[], .done _, by simp⟩
  | cons t ts ih =>
    rw [List.forall_mem_cons] at hD hkeep
    have hkind := Standing.ne_endOfInput_of_run? hs
    rw [List.map_cons, Standing.run?_cons, Option.bind_eq_some_iff] at hs
    obtain ⟨s', hstep, hts⟩ := hs
    obtain ⟨ds, hrepair, hds⟩ := ih hts hD.2 hkeep.2 fun front u back hu =>
      hmiss (t :: front) u back (by rw [hu, List.cons_append])
    by_cases ht : t ∈ D
    · have hk := hD.1 ht
      rw [hk] at hstep
      obtain ⟨needsOperand, depth⟩ := s
      cases needsOperand <;> cases hstep
      obtain ⟨hnumber, hopen⟩ := current_without_of_run? (n := n) hts
        fun u hu huD => .inl (hD.2 u hu huD)
      rw [List.map_cons, without_of_mem ht, hmiss [] t ts rfl ht]
      refine ⟨_, .insert (.inl rfl) hnumber hrepair, List.forall_mem_cons.2 ⟨?_, hds⟩⟩
      exact ⟨_, hopen, rfl⟩
    · have hcurrent : (without D n (t :: ts)).current = t := current_without ht
      have hrest : (without D n (t :: ts)).rest = without D n ts := rest_without ht
      have htaken : (without D n (t :: ts)).current.kind ≠ .endOfInput := by
        rw [hcurrent]
        exact hkind _ List.mem_cons_self
      have htake := Repair.take htaken (hrest ▸ hrepair)
      rw [hcurrent] at htake
      exact ⟨ds, by rwa [List.map_cons, hkeep.1 ht], hds⟩

theorem countP_filter_mem {ts : List Token} (hts : ts.Nodup) (hD : ∀ t ∈ D, t ∈ ts)
    (p : Token → Prop) [DecidablePred p] :
    (ts.filter (· ∈ D)).countP p = (D.filter p).card := by
  have hset : ((ts.filter (· ∈ D)).filter p).toFinset = D.filter p := by
    ext t
    simp only [List.mem_toFinset, List.mem_filter, Finset.mem_filter, decide_eq_true_eq]
    exact ⟨fun h => ⟨h.1.2, h.2⟩, fun h => ⟨⟨hD t h.1, h.1⟩, h.2⟩⟩
  rw [List.countP_eq_length_filter, ← hset,
    List.toFinset_card_of_nodup ((hts.filter _).filter _)]

namespace Line

variable {text : String}

theorem run?_words (h : (ofText text).diagnostics = []) :
    Standing.run? {} ((words 0 text.toList).map Token.kind) = some .closed := by
  obtain ⟨hd, hw, -⟩ := derivation_of_syntactic_eq_nil (List.append_eq_nil_iff.1 h).2
  rw [← hw]
  exact hd.run?_eq 0

theorem expected_blanked (h : (ofText text).diagnostics = [])
    (hD : ∀ t ∈ D, t ∈ tokens text ∧ (t.kind = .number ∨ t.kind = .closeParen)) :
    ((ofText (blanked D text)).diagnostics.map Diagnostic.expected?).Perm
      (((words 0 text.toList).filter (· ∈ D)).map fun t => some t.kind) := by
  have hlexical : lexicalDiagnostics (blanked D text) = [] :=
    (lexicalDiagnostics_eq_nil_iff _).2 (isClean_blanked (isClean_of_diagnostics_eq_nil h))
  have hended := Reader.isEnded_ofText (blanked D text)
  have hsyntactic : (ofText (blanked D text)).syntactic =
      (Counter.run (Reader.ofText (blanked D text)).ahead {}).2 :=
    (Counter.run_ahead hended).symm
  have hlags : Counter.Lags (Reader.ofText (blanked D text)).ahead D text.utf8ByteSize 0 {} {}
      (words 0 text.toList) := by
    rw [Reader.ofText_eq_without] at hended ⊢
    exact ⟨rfl, rfl, hended⟩
  obtain ⟨ds, hds, hperm⟩ := hlags.exists_reports (run?_words h) fun t _ ht => (hD t ht).2
  rw [diagnostics, hsyntactic, hds]
  change ((lexicalDiagnostics (blanked D text) ++ _).map Diagnostic.expected?).Perm _
  simpa [hlexical] using hperm

theorem endToken_blanked (h : (ofText text).diagnostics = [])
    (hD : ∀ t ∈ D, t ∈ tokens text ∧ (t.kind = .number ∨ t.kind = .closeParen)) :
    (ofText (blanked D text)).endToken.isPlaceholder = false := by
  by_contra hp
  rw [Bool.not_eq_false] at hp
  obtain ⟨u, -, hreport, -, -⟩ := (mends (blanked D text)).reported rfl hp
  have hkind : (ofText (blanked D text)).endToken.kind = .endOfInput :=
    Reader.expect_result_kind _ _
  have hmem : some Token.Kind.endOfInput ∈
      (ofText (blanked D text)).diagnostics.map Diagnostic.expected? := by
    rw [← hkind]
    exact List.mem_map_of_mem (List.mem_append_right _ (List.mem_of_getElem? hreport))
  rw [(expected_blanked h hD).mem_iff, List.mem_map] at hmem
  obtain ⟨t, ht, hk⟩ := hmem
  have htD : t ∈ D := of_decide_eq_true (List.mem_filter.1 ht).2
  rw [Option.some.injEq] at hk
  rcases (hD t htD).2 with hn | hn <;> rw [hn] at hk <;> cases hk

theorem root_blanked (h : (ofText text).diagnostics = []) (hD : ∀ t ∈ D, t.kind = .number) :
    (ofText (blanked D text)).root = (ofText text).root.mapTokens fun t =>
      if t ∈ D then Token.placeholder .number (tokenBehind D text t.position).position else t := by
  have hc := isClean_of_diagnostics_eq_nil h
  obtain ⟨hd, hw, -⟩ := derivation_of_syntactic_eq_nil (List.append_eq_nil_iff.1 h).2
  generalize hf : (fun t => if t ∈ D then Token.placeholder .number
    (tokenBehind D text t.position).position else t) = f
  have hkeep : ∀ t, t ∉ D → f t = t := by
    intro t ht
    rw [← hf]
    exact if_neg ht
  have hmiss : ∀ t, t ∈ D →
      f t = Token.placeholder .number (tokenBehind D text t.position).position := by
    intro t ht
    rw [← hf]
    exact if_pos ht
  have hkind : ∀ t, (f t).kind = t.kind := by
    intro t
    by_cases ht : t ∈ D
    · rw [hmiss t ht, hD t ht, Token.placeholder]
    · rw [hkeep t ht]
  have hplaces : ∀ front t back, words 0 text.toList = front ++ t :: back → t ∈ D → f t =
      Token.placeholder .number (Reader.without D text.utf8ByteSize back).current.position := by
    intro front t back hwords ht
    rw [hmiss t ht, current_without_eq_tokenBehind hc hwords]
  obtain ⟨ds, hrepair, hds⟩ := Reader.exists_repair_without (run?_words h) (fun t _ => hD t)
    (fun t _ => hkeep t) hplaces
  rw [← hw, ← Expr.tokens_mapTokens] at hrepair
  have hphrase := (hd.mapTokens hkind).phrase_of_repair hrepair hds rfl
  rw [hw, ← Reader.ofText_eq_without] at hphrase
  rw [ofText_eq]
  simp only [hphrase]

/-- A line without diagnostics in which some numbers and closing parentheses are blanked out:
each one that is missing is reported once, as what is expected, and nothing else is. The line
is read to its end, with every token that is left in the tree. If only numbers are missing,
the tree is the old one with placeholders for them, each at the next token that is left. -/
theorem omissions_reported (h : (ofText text).diagnostics = [])
    (hD : ∀ t ∈ D, t ∈ tokens text ∧ (t.kind = .number ∨ t.kind = .closeParen)) :
    (ofText (blanked D text)).diagnostics.length = D.card ∧
    (∀ d ∈ (ofText (blanked D text)).diagnostics, ∃ actual expected,
      d.cause = .unexpectedToken actual expected ∧
        (expected = .number ∨ expected = .closeParen)) ∧
    (∀ k, (ofText (blanked D text)).diagnostics.countP (fun d => d.expected? = some k) =
      (D.filter fun t => t.kind = k).card) ∧
    (ofText (blanked D text)).endToken = Token.endOfInput (blanked D text).utf8ByteSize ∧
    (ofText (blanked D text)).root.tokens.filter Token.isScanned =
      (content text).filter (· ∉ D) ∧
    ((∀ t ∈ D, t.kind = .number) →
      (ofText (blanked D text)).root = (ofText text).root.mapTokens fun t =>
        if t ∈ D then Token.placeholder .number (tokenBehind D text t.position).position
        else t) := by
  have hperm := expected_blanked h hD
  have hend := endToken_blanked h hD
  have hnodup : (words 0 text.toList).Nodup :=
    (words_pairwise_position text).imp fun hlt heq => by simp [heq] at hlt
  have hwords : ∀ t ∈ D, t ∈ words 0 text.toList := by
    intro t ht
    obtain ⟨htokens, hk | hk⟩ := hD t ht
    · exact mem_words_of_mem_tokens htokens (by simp [Token.isMeaningful, hk]) (by simp [hk])
    · exact mem_words_of_mem_tokens htokens (by simp [Token.isMeaningful, hk]) (by simp [hk])
  refine ⟨?_, fun d hd => ?_, fun k => ?_, endToken_eq_endOfInput hend, ?_,
    fun hnumbers => root_blanked h hnumbers⟩
  · have hlength := hperm.length_eq
    rw [List.length_map, List.length_map] at hlength
    rw [hlength]
    simpa using countP_filter_mem hnodup hwords fun _ => True
  · obtain ⟨t, ht, hk⟩ := List.mem_map.1 (hperm.mem_iff.1 (List.mem_map_of_mem hd))
    obtain ⟨actual, hcause⟩ := Diagnostic.expected?_eq_some_iff.1 hk.symm
    exact ⟨actual, t.kind, hcause, (hD t (of_decide_eq_true (List.mem_filter.1 ht).2)).2⟩
  · have hk := hperm.countP_eq (· = some k)
    rw [List.countP_map, List.countP_map] at hk
    rw [← countP_filter_mem hnodup hwords]
    simpa [Function.comp_def] using hk
  · rw [filter_isScanned_eq_dropLast hend, buffer_blanked, List.dropLast_concat,
      content_eq_words (isClean_of_diagnostics_eq_nil h)]

/-- The second operand is missing together with the parenthesis behind it, and then alone. -/
theorem omissions_reported_in_group :
    (ofText "(1 + 2) * 3").diagnostics = [] ∧
      blanked {numberAt ['2'] 5, signAt .closeParen ")" 6} "(1 + 2) * 3" = "(1 +    * 3" ∧
      (ofText "(1 +    * 3").diagnostics.length = 2 ∧
      blanked {numberAt ['2'] 5} "(1 + 2) * 3" = "(1 +  ) * 3" ∧
      (ofText "(1 +  ) * 3").root.tokens[3]? = some (Token.placeholder .number 6) := by
  have h : (ofText "(1 + 2) * 3").diagnostics = [] := by decide +kernel
  have hboth : blanked {numberAt ['2'] 5, signAt .closeParen ")" 6} "(1 + 2) * 3" =
      "(1 +    * 3" := by decide +kernel
  have hnumber : blanked {numberAt ['2'] 5} "(1 + 2) * 3" = "(1 +  ) * 3" := by decide +kernel
  have hlength := (omissions_reported (D := {numberAt ['2'] 5, signAt .closeParen ")" 6}) h
    (by decide +kernel)).1
  have hroot := (omissions_reported (D := {numberAt ['2'] 5}) h (by decide +kernel)).2.2.2.2.2
    (by decide)
  rw [hboth] at hlength
  rw [hnumber] at hroot
  refine ⟨h, hboth, hlength, hnumber, ?_⟩
  rw [hroot]
  decide +kernel

end Line

end Calculator
