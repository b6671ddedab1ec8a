import Calculator.Proofs.Spelling

/-!
# The nesting of parentheses

How deep the parentheses of a text are nested is a matter of its characters and needs no grammar:
one passes over them with the number of groups that are open. Only parentheses count, and dropping
closing ones never makes the nesting less.

The signs of a text are the signs of its words, in their order, since a sign is a token wherever it
stands. So what is counted on the signs of a tree can be compared with the text that the tree was
read from: the scanned tokens of the tree have the first signs of the text, and the placeholders
add nothing but closing parentheses.
-/
namespace Calculator

/-- The number of open groups behind a character. A closing parenthesis closes a group if there is
one. -/
def depthBehind (depth : Nat) (c : Char) : Nat :=
  if c = '(' then depth + 1 else if c = ')' then depth - 1 else depth

/-- The largest number of groups that are open at once, with some open in front of the
characters. -/
def nestingFrom (depth : Nat) : List Char → Nat
  | [] => depth
  | c :: cs => max depth (nestingFrom (depthBehind depth c) cs)

def nesting (text : String) : Nat := nestingFrom 0 text.toList

theorem le_nestingFrom (d : Nat) (cs : List Char) : d ≤ nestingFrom d cs := by
  cases cs with
  | nil => exact Nat.le_refl d
  | cons c cs => exact Nat.le_max_left _ _

/-- Only parentheses count. -/
theorem nestingFrom_cons_of_ne {c : Char} (ho : c ≠ '(') (hc : c ≠ ')') (d : Nat)
    (cs : List Char) : nestingFrom d (c :: cs) = nestingFrom d cs := by
  have hle := le_nestingFrom d cs
  rw [nestingFrom, depthBehind, if_neg ho, if_neg hc]
  omega

theorem nestingFrom_filter {p : Char → Bool} (ho : p '(' = true) (hc : p ')' = true) (d : Nat)
    (cs : List Char) : nestingFrom d (cs.filter p) = nestingFrom d cs := by
  induction cs generalizing d with
  | nil => rfl
  | cons c cs ih =>
    cases hp : p c with
    | true => rw [List.filter_cons_of_pos hp, nestingFrom, nestingFrom, ih]
    | false =>
      have hne : ∀ b, p b = true → c ≠ b := fun b hb he => by simp [← he, hp] at hb
      rw [List.filter_cons_of_neg (by simp [hp]), ih,
        nestingFrom_cons_of_ne (hne _ ho) (hne _ hc)]

theorem nestingFrom_mono {d d' : Nat} (h : d ≤ d') (cs : List Char) :
    nestingFrom d cs ≤ nestingFrom d' cs := by
  induction cs generalizing d d' with
  | nil => exact h
  | cons c cs ih =>
    have hbehind : depthBehind d c ≤ depthBehind d' c := by
      unfold depthBehind
      split
      · omega
      · split <;> omega
    have hcs := ih hbehind
    simp only [nestingFrom]
    omega

theorem nestingFrom_append_le (d : Nat) (cs ds : List Char) :
    nestingFrom d cs ≤ nestingFrom d (cs ++ ds) := by
  induction cs generalizing d with
  | nil => exact le_nestingFrom d ds
  | cons c cs ih =>
    have hcs := ih (depthBehind d c)
    simp only [List.cons_append, nestingFrom]
    omega

/-- A closing parenthesis less is no smaller nesting. -/
theorem nestingFrom_close_le (d : Nat) (cs : List Char) :
    nestingFrom d (')' :: cs) ≤ nestingFrom d cs := by
  have hle := le_nestingFrom d cs
  have hmono := nestingFrom_mono (Nat.sub_le d 1) cs
  have hclose : depthBehind d ')' = d - 1 := rfl
  rw [nestingFrom, hclose]
  omega

/-- What stands in front makes no difference to which of two nestings is the larger. -/
theorem nestingFrom_append_mono {ds es : List Char}
    (h : ∀ d, nestingFrom d ds ≤ nestingFrom d es) (cs : List Char) (d : Nat) :
    nestingFrom d (cs ++ ds) ≤ nestingFrom d (cs ++ es) := by
  induction cs generalizing d with
  | nil => exact h d
  | cons c cs ih =>
    have hcs := ih (depthBehind d c)
    simp only [List.cons_append, nestingFrom]
    omega

/-- Whether the character is a token by itself. -/
def isSignChar (c : Char) : Bool := (c, Token.Kind.ofChar c) ∈ signs

theorem Token.Kind.sign_of_mem_signs {c : Char} {k : Token.Kind} (h : (c, k) ∈ signs) :
    k.sign.toList = [c] := by
  simp only [signs, List.mem_cons, List.not_mem_nil, or_false, Prod.mk.injEq] at h
  rcases h with ⟨rfl, rfl⟩ | ⟨rfl, rfl⟩ | ⟨rfl, rfl⟩ | ⟨rfl, rfl⟩ | ⟨rfl, rfl⟩ | ⟨rfl, rfl⟩
  all_goals rfl

/-- The signs that tokens are written with. -/
def signsOf (ts : List Token) : List Char := ts.flatMap fun t => t.kind.sign.toList

theorem signsOf_cons (t : Token) (ts : List Token) :
    signsOf (t :: ts) = t.kind.sign.toList ++ signsOf ts := rfl

theorem signsOf_append (ts us : List Token) : signsOf (ts ++ us) = signsOf ts ++ signsOf us :=
  List.flatMap_append

/-- Only tokens without a sign are skipped. -/
theorem signsOf_filter_isMeaningful (ts : List Token) :
    signsOf (ts.filter Token.isMeaningful) = signsOf ts := by
  induction ts with
  | nil => rfl
  | cons t ts ih =>
    cases hm : t.isMeaningful with
    | true => rw [List.filter_cons_of_pos hm, signsOf_cons, ih, signsOf_cons]
    | false =>
      have hsign : t.kind.sign = "" := by
        simp only [Token.isMeaningful, Bool.and_eq_false_iff, decide_eq_false_iff_not,
          not_not] at hm
        rcases hm with hk | hk <;> rw [hk] <;> rfl
      rw [List.filter_cons_of_neg (by simp [hm]), ih, signsOf_cons, hsign]
      rfl

theorem Lexeme.IsWhole.filter_isSignChar {l : Lexeme} (h : l.IsWhole) :
    l.chars.filter isSignChar = l.kind.sign.toList := by
  by_cases hk : l.kind.runs = false ∧ l.kind ≠ .bad
  · obtain ⟨c, rfl⟩ := h.exists_single hk.1
    have hc : (c, Token.Kind.ofChar c) ∈ signs := Token.Kind.mem_signs hk.1 hk.2
    have hsign : isSignChar c = true := decide_eq_true hc
    rw [Token.Kind.sign_of_mem_signs hc, List.filter_cons_of_pos hsign, List.filter_nil]
  · have hno : ∀ c ∈ l.chars, ¬ isSignChar c = true := fun c hc hs => by
      refine hk ?_
      rw [← h.ofChar_eq c hc]
      exact Token.Kind.runs_of_mem_signs (of_decide_eq_true hs)
    rw [List.filter_eq_nil_iff.2 hno]
    cases hl : l.kind <;> simp_all [Token.Kind.runs, Token.Kind.sign]

/-- The signs of characters are those of their words. -/
theorem filter_isSignChar (p : Nat) (cs : List Char) :
    cs.filter isSignChar = signsOf (words p cs) := by
  induction cs using lexeme_induction generalizing p with
  | nil =>
    rw [words_nil]
    rfl
  | step l rest hl hr ih =>
    have hsigns : signsOf ([l.token p].filter Token.isMeaningful) = l.kind.sign.toList :=
      (signsOf_filter_isMeaningful _).trans (List.append_nil _)
    rw [words_append hl hr, signsOf_append, List.filter_append, ih, hl.filter_isSignChar, hsigns]

/-- Without the placeholders of a tree the nesting is no smaller. -/
theorem nestingFrom_signsOf_le {ts : List Token}
    (h : ∀ t ∈ ts, t.isScanned = false → Reader.CanBeMissing t.kind) (d : Nat) :
    nestingFrom d (signsOf ts) ≤ nestingFrom d (signsOf (ts.filter Token.isScanned)) := by
  induction ts generalizing d with
  | nil => exact Nat.le_refl _
  | cons t ts ih =>
    have hts := ih fun u hu => h u (by simp [hu])
    cases hs : t.isScanned with
    | true =>
      rw [List.filter_cons_of_pos hs]
      exact nestingFrom_append_mono hts _ d
    | false =>
      rw [List.filter_cons_of_neg (by simp [hs])]
      refine Nat.le_trans ?_ (hts d)
      rcases h t (by simp) hs with hk | hk
      · simp [signsOf, hk, Token.Kind.sign]
      · simpa [signsOf, hk, Token.Kind.sign] using nestingFrom_close_le d (signsOf ts)

namespace Line

/-- The scanned tokens of a tree have the first signs of the text. -/
theorem exists_signs_behind (text : String) : ∃ behind, text.toList.filter isSignChar =
    signsOf ((ofText text).root.tokens.filter Token.isScanned) ++ behind := by
  have hbuffer : signsOf (buffer text) = text.toList.filter isSignChar := by
    rw [buffer_eq_words, signsOf_append, filter_isSignChar 0]
    exact List.append_nil _
  rw [filter_isScanned_root, ← hbuffer]
  refine ⟨signsOf ((buffer text).drop ((ofText text).root.tokens.countP Token.isScanned)), ?_⟩
  rw [← signsOf_append, List.take_append_drop]

end Line

end Calculator
