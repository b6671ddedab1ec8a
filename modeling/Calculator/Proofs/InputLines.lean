import Mathlib.Data.List.Basic
import Mathlib.Data.List.Induction
import Calculator.Conversation

/-!
# The lines of an input

`HasLines` says what the lines of a list of characters, or of bytes, are: every newline ends
one, a carriage return just before it belongs to the end, and what is behind the last newline
is one more line unless it is empty. Every list has exactly one list of lines.

In UTF-8 a byte below 128 stands for the character of that code and is part of no other. So the
lines of a text, taken letter by letter, are the lines of its bytes, and each of them is text.
-/
namespace Calculator

/-- What a list consists of, cut up at newlines. -/
inductive HasLines {α : Type} (newline carriageReturn : α) : List α → List (List α) → Prop
  | nil : HasLines newline carriageReturn [] []
  | unended {line : List α} : line ≠ [] → newline ∉ line →
      HasLines newline carriageReturn line [line]
  | ended {line rest : List α} {lines : List (List α)} : newline ∉ line →
      line.getLast? ≠ some carriageReturn → HasLines newline carriageReturn rest lines →
      HasLines newline carriageReturn (line ++ newline :: rest) (line :: lines)
  | returned {line rest : List α} {lines : List (List α)} : newline ∉ line →
      HasLines newline carriageReturn rest lines →
      HasLines newline carriageReturn (line ++ carriageReturn :: newline :: rest) (line :: lines)

theorem dropReturn_of_getLast?_ne {line : List UInt8}
    (h : line.getLast? ≠ some carriageReturn) : dropReturn line = line := by
  rw [dropReturn, if_neg h]

theorem dropReturn_concat (line : List UInt8) : dropReturn (line ++ [carriageReturn]) = line := by
  rw [dropReturn, if_pos List.getLast?_concat, List.dropLast_concat]

namespace HasLines

section

variable {α : Type} {newline carriageReturn : α}

theorem of_newline {line rest : List α} {lines : List (List α)} (h : newline ∉ line)
    (hrest : HasLines newline carriageReturn rest lines) :
    ∃ first, HasLines newline carriageReturn (line ++ newline :: rest) (first :: lines) := by
  -- What ends the line is one character or two.
  by_cases hr : line.getLast? = some carriageReturn
  · obtain ⟨first, rfl⟩ := List.getLast?_eq_some_iff.1 hr
    rw [List.append_assoc]
    exact ⟨first, .returned (fun hm => h (List.mem_append_left _ hm)) hrest⟩
  · exact ⟨line, .ended h hr hrest⟩

theorem total [DecidableEq α] (newline carriageReturn : α) (input : List α) :
    ∃ lines, HasLines newline carriageReturn input lines := by
  by_cases hm : newline ∈ input
  · obtain ⟨line, rest, hinput, h⟩ := List.eq_append_cons_of_mem hm
    obtain ⟨lines, hrest⟩ := total newline carriageReturn rest
    obtain ⟨first, hfirst⟩ := of_newline h hrest
    rw [hinput]
    exact ⟨first :: lines, hfirst⟩
  · cases input with
    | nil => exact ⟨[], .nil⟩
    | cons a input => exact ⟨[a :: input], .unended (List.cons_ne_nil _ _) hm⟩
termination_by input.length
decreasing_by
  rw [hinput, List.length_append, List.length_cons]
  omega

end

theorem inputLines_eq {input : List UInt8} {lines : List (List UInt8)}
    (h : HasLines newline carriageReturn input lines) : inputLines input = lines := by
  induction h with
  | nil => exact inputLines_nil
  | unended hne hm => exact inputLines_of_not_mem hne hm
  | ended hm hr _ ih => rw [inputLines_append_newline hm, dropReturn_of_getLast?_ne hr, ih]
  | @returned line rest lines hm _ ih =>
    -- The carriage return is first taken as part of the line and then dropped.
    have hmr : newline ∉ line ++ [carriageReturn] := by
      rw [List.mem_append, List.mem_singleton, not_or]
      exact ⟨hm, by decide⟩
    rw [List.append_cons, inputLines_append_newline hmr, dropReturn_concat, ih]

end HasLines

/-- The lines that are read are the lines of the input, whatever the input. -/
theorem inputLines_eq_iff {input : List UInt8} {lines : List (List UInt8)} :
    inputLines input = lines ↔ HasLines newline carriageReturn input lines := by
  refine ⟨?_, HasLines.inputLines_eq⟩
  rintro rfl
  obtain ⟨lines, h⟩ := HasLines.total newline carriageReturn input
  rw [h.inputLines_eq]
  exact h

/-- The UTF-8 form of a text. -/
def utf8Bytes (text : String) : List UInt8 :=
  text.toUTF8.data.toList

theorem textOfBytes?_eq_some_iff {bytes : List UInt8} {text : String} :
    textOfBytes? bytes = some text ↔ utf8Bytes text = bytes := by
  refine ⟨fun h => ?_, ?_⟩
  · rw [textOfBytes?, String.fromUTF8?, Option.dite_none_right_eq_some] at h
    obtain ⟨hv, h⟩ := h
    rw [Option.some.injEq] at h
    rw [← h]
    rfl
  · rintro rfl
    exact textOfBytes?_toUTF8 text

theorem textOfBytes?_eq_none_iff {bytes : List UInt8} :
    textOfBytes? bytes = none ↔ ∀ text, utf8Bytes text ≠ bytes := by
  simp only [Option.eq_none_iff_forall_ne_some, ne_eq, textOfBytes?_eq_some_iff]

theorem map_textOfBytes?_utf8Bytes (texts : List String) :
    (texts.map utf8Bytes).map textOfBytes? = texts.map some := by
  rw [List.map_map]
  exact List.map_congr_left fun text _ => textOfBytes?_toUTF8 text

/-- Lines that are not all text have a first that is none. -/
theorem exists_first_broken_line {lines : List (List UInt8)}
    (h : ∃ line ∈ lines, ∀ text, utf8Bytes text ≠ line) :
    ∃ (texts : List String) (bad : List UInt8) (others : List (List UInt8)),
      lines = texts.map utf8Bytes ++ bad :: others ∧ ∀ text, utf8Bytes text ≠ bad := by
  induction lines with
  | nil =>
    obtain ⟨line, hm, _⟩ := h
    exact absurd hm List.not_mem_nil
  | cons line lines ih =>
    by_cases hline : ∃ text, utf8Bytes text = line
    · obtain ⟨text, rfl⟩ := hline
      obtain ⟨bad, hm, hbad⟩ := h
      have hm : bad ∈ lines := (List.mem_cons.1 hm).resolve_left fun he => hbad text he.symm
      obtain ⟨texts, bad, others, rfl, hbad⟩ := ih ⟨bad, hm, hbad⟩
      exact ⟨text :: texts, bad, others, rfl, hbad⟩
    · exact ⟨[], line, lines, rfl, fun text he => hline ⟨text, he⟩⟩

theorem utf8Bytes_eq (text : String) :
    utf8Bytes text = text.toList.flatMap String.utf8EncodeChar := by
  conv => lhs; rw [← String.ofList_toList (s := text)]
  exact List.toList_data_toByteArray

theorem utf8Bytes_injective : Function.Injective utf8Bytes := by
  intro s t h
  rw [← Option.some_inj, ← textOfBytes?_eq_some_iff.2 h, textOfBytes?_eq_some_iff.2 rfl]

theorem utf8EncodeChar_of_lt {c : Char} (h : c.toNat < 128) :
    String.utf8EncodeChar c = [UInt8.ofNat c.toNat] := by
  rw [String.utf8EncodeChar.eq_1]
  exact if_pos (Nat.le_of_lt_succ h)

theorem le_of_mem_utf8EncodeChar {c : Char} (h : 128 ≤ c.toNat) :
    ∀ b ∈ String.utf8EncodeChar c, 128 ≤ b.toNat := by
  have hv : ¬c.val.toNat ≤ 127 := Nat.not_le_of_lt h
  rw [String.utf8EncodeChar.eq_1, if_neg hv]
  split_ifs
  all_goals
    simp only [List.forall_mem_cons, List.not_mem_nil, IsEmpty.forall_iff, implies_true, and_true,
      UInt8.toNat_ofNat']
    omega

theorem toNat_ofNat_toNat {c : Char} (h : c.toNat < 128) :
    (UInt8.ofNat c.toNat).toNat = c.toNat :=
  UInt8.toNat_ofNat_of_lt (Nat.lt_trans h (by decide))

/-- A byte below 128 is in the form of the one character of that code. -/
theorem mem_utf8EncodeChar_iff {a c : Char} (ha : a.toNat < 128) :
    UInt8.ofNat a.toNat ∈ String.utf8EncodeChar c ↔ a = c := by
  by_cases hc : c.toNat < 128
  · rw [utf8EncodeChar_of_lt hc, List.mem_singleton, ← UInt8.toNat_inj, toNat_ofNat_toNat ha,
      toNat_ofNat_toNat hc, Char.toNat_inj]
  · refine ⟨fun h => ?_, ?_⟩
    · have hle := le_of_mem_utf8EncodeChar (Nat.le_of_not_lt hc) _ h
      rw [toNat_ofNat_toNat ha] at hle
      omega
    · rintro rfl
      exact absurd ha hc

theorem mem_flatMap_utf8EncodeChar_iff {a : Char} (ha : a.toNat < 128) {cs : List Char} :
    UInt8.ofNat a.toNat ∈ cs.flatMap String.utf8EncodeChar ↔ a ∈ cs := by
  simp only [List.mem_flatMap, mem_utf8EncodeChar_iff ha, exists_eq_right']

theorem getLast?_utf8EncodeChar_iff {a c : Char} (ha : a.toNat < 128) :
    (String.utf8EncodeChar c).getLast? = some (UInt8.ofNat a.toNat) ↔ a = c := by
  refine ⟨fun h => (mem_utf8EncodeChar_iff ha).1 (List.mem_of_getLast? h), ?_⟩
  rintro rfl
  rw [utf8EncodeChar_of_lt ha, List.getLast?_singleton]

theorem getLast?_flatMap_utf8EncodeChar_iff {a : Char} (ha : a.toNat < 128) {cs : List Char} :
    (cs.flatMap String.utf8EncodeChar).getLast? = some (UInt8.ofNat a.toNat) ↔
      cs.getLast? = some a := by
  cases cs using List.reverseRecOn with
  | nil => simp
  | append_singleton cs c =>
    rw [List.flatMap_append, List.flatMap_singleton, List.getLast?_concat, Option.some_inj,
      List.getLast?_append_of_ne_nil _ String.utf8EncodeChar_ne_nil,
      getLast?_utf8EncodeChar_iff ha, eq_comm]

theorem newline_notMem_flatMap {line : List Char} (h : '\n' ∉ line) :
    newline ∉ line.flatMap String.utf8EncodeChar :=
  mt (mem_flatMap_utf8EncodeChar_iff (a := '\n') (by decide)).1 h

/-- The lines of a text, letter by letter, are those of its UTF-8 form. -/
theorem HasLines.flatMap_utf8EncodeChar {cs : List Char} {lines : List (List Char)}
    (h : HasLines '\n' '\r' cs lines) :
    HasLines newline carriageReturn (cs.flatMap String.utf8EncodeChar)
      (lines.map (·.flatMap String.utf8EncodeChar)) := by
  induction h with
  | nil => exact .nil
  | @unended line hne hm =>
    obtain ⟨c, hc⟩ := List.exists_mem_of_ne_nil line hne
    obtain ⟨b, hb⟩ := List.exists_mem_of_ne_nil _ (String.utf8EncodeChar_ne_nil (c := c))
    exact .unended (List.ne_nil_of_mem (List.mem_flatMap.2 ⟨c, hc, hb⟩)) (newline_notMem_flatMap hm)
  | ended hm hr _ ih =>
    rw [List.flatMap_append, List.flatMap_cons]
    exact .ended (newline_notMem_flatMap hm)
      (mt (getLast?_flatMap_utf8EncodeChar_iff (a := '\r') (by decide)).1 hr) ih
  | returned hm _ ih =>
    rw [List.flatMap_append, List.flatMap_cons, List.flatMap_cons]
    exact .returned (newline_notMem_flatMap hm) ih

/-- The lines of a text, as texts. -/
def HasTextLines (text : String) (lines : List String) : Prop :=
  HasLines '\n' '\r' text.toList (lines.map String.toList)

namespace HasTextLines

/-- Cutting up commutes with UTF-8. -/
theorem inputLines_utf8Bytes {text : String} {lines : List String} (h : HasTextLines text lines) :
    inputLines (utf8Bytes text) = lines.map utf8Bytes := by
  have hbytes := HasLines.flatMap_utf8EncodeChar h
  rw [← utf8Bytes_eq, List.map_map] at hbytes
  rw [hbytes.inputLines_eq]
  exact List.map_congr_left fun line _ => (utf8Bytes_eq line).symm

theorem existsUnique (text : String) : ∃! lines, HasTextLines text lines := by
  obtain ⟨lines, h⟩ := HasLines.total '\n' '\r' text.toList
  have hlines : HasTextLines text (lines.map String.ofList) := by
    rw [HasTextLines, List.map_map, String.toList_comp_ofList, List.map_id]
    exact h
  refine ⟨_, hlines, fun others hothers => utf8Bytes_injective.list_map ?_⟩
  rw [← hothers.inputLines_utf8Bytes, hlines.inputLines_utf8Bytes]

end HasTextLines

end Calculator
