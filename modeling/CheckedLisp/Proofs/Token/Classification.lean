import Mathlib.Data.List.TakeDrop
import CheckedLisp.Proofs.Token.Grammar

/-! A run of characters without delimiters is classified as the atom that it spells in the lexical
grammar, and as nothing else. -/
namespace CheckedLisp

theorem isDelimiter_of_isDigit {c : Char} (digit : c.isDigit) : isDelimiter c = false := by
  have bounds := Char.isDigit_iff_toNat.1 digit
  have low : 48 ≤ c.toNat := bounds.1
  have high : c.toNat ≤ 57 := bounds.2
  have blank : Text.isBlank c = false := by
    simp [Text.isBlank, Text.within, Text.blankRanges]
    omega
  have other (d : Char) (none : d.isDigit = false) : (c == d) = false := by
    refine beq_eq_false_iff_ne.2 ?_
    rintro rfl
    rw [digit] at none
    cases none
  simp only [isDelimiter, blank, other '(' rfl, other ')' rfl, other '\'' rfl, other '"' rfl,
    other ';' rfl, Bool.or_false]

namespace Atom

theorem mem_unsigned {cs : List Char} {c : Char} (inside : c ∈ cs) : c = '-' ∨ c ∈ unsigned cs := by
  unfold unsigned
  split
  · exact List.mem_cons.1 inside
  · exact .inr inside

/-- What makes up a number: after an optional sign a digit, and then digits and points. -/
structure Numeric (cs : List Char) : Prop where
  leads : (unsigned cs).head?.any Char.isDigit
  parts : ∀ c ∈ unsigned cs, c.isDigit ∨ c = '.'

namespace Numeric

variable {cs : List Char} (numeric : Numeric cs)

include numeric

theorem all_plain : cs.all fun c => !isDelimiter c := by
  refine List.all_eq_true.2 ?_
  intro c inside
  rcases mem_unsigned inside with rfl | inside
  · rfl
  · rcases numeric.parts c inside with digit | rfl
    · simp [isDelimiter_of_isDigit digit]
    · rfl

theorem plain : ∀ c ∈ cs, isDelimiter c = false := by
  intro c inside
  have all := List.all_eq_true.1 numeric.all_plain c inside
  simpa using all

theorem ne_nil : cs ≠ [] := by
  rintro rfl
  cases numeric.leads

theorem head?_ne : cs.head? ≠ some '#' := by
  intro marked
  rcases mem_unsigned (List.mem_of_head? marked) with wrong | inside
  · cases wrong
  · rcases numeric.parts _ inside with wrong | wrong <;> cases wrong

end Numeric

theorem head?_any_of_isDigits {cs : List Char} (rest : List Char) (digits : Text.isDigits cs) :
    (cs ++ rest).head?.any Char.isDigit := by
  cases cs with
  | nil => cases digits
  | cons c cs =>
    simp only [Text.isDigits, List.all_cons, Bool.and_eq_true] at digits
    exact digits.2.1

theorem isDigit_of_isDigits {cs : List Char} (digits : Text.isDigits cs) : ∀ c ∈ cs, c.isDigit := by
  simp only [Text.isDigits, Bool.and_eq_true, List.all_eq_true] at digits
  exact digits.2

/-- Digits end at the first point. -/
theorem span_of_isDigits {whole : List Char} (digits : Text.isDigits whole) (rest : List Char)
    (point : ∀ c ∈ rest.head?, c = '.') : (whole ++ rest).span (· ≠ '.') = (whole, rest) := by
  have digit : ∀ c ∈ whole, (decide (c ≠ '.')) = true := by
    intro c inside
    have isDigit := isDigit_of_isDigits digits c inside
    refine decide_eq_true ?_
    rintro rfl
    cases isDigit
  rw [List.span_eq_takeWhile_dropWhile, List.takeWhile_append_of_pos digit, List.dropWhile_append_of_pos digit]
  cases rest with
  | nil => simp
  | cons c rest => simp [point c rfl]

end Atom

namespace Lexical

open Atom

theorem exists_cons_of_leads {digits : List Char} (leads : digits.head?.any Char.isDigit) :
    ∃ digit rest, digit.isDigit ∧ digits = digit :: rest := by
  cases digits with
  | nil => cases leads
  | cons digit rest => exact ⟨digit, rest, leads, rfl⟩

theorem unsigned_append {sign digits : List Char} (signed : IsSign sign)
    (leads : digits.head?.any Char.isDigit) : unsigned (sign ++ digits) = digits := by
  rcases signed with rfl | rfl
  · obtain ⟨digit, rest, isDigit, rfl⟩ := exists_cons_of_leads leads
    rw [List.nil_append]
    unfold unsigned
    split
    · next same =>
      cases same
      cases isDigit
    · rfl
  · rfl

theorem exists_sign (cs : List Char) : ∃ sign, IsSign sign ∧ cs = sign ++ unsigned cs := by
  unfold unsigned
  split
  · exact ⟨['-'], .inr rfl, rfl⟩
  · exact ⟨[], .inl rfl, rfl⟩

theorem startsNumber_iff {cs : List Char} : StartsNumber cs ↔ (unsigned cs).head?.any Char.isDigit := by
  constructor
  · rintro ⟨sign, digit, rest, signed, isDigit, rfl⟩
    have leads : (digit :: rest).head?.any Char.isDigit := isDigit
    rwa [unsigned_append signed leads]
  · intro leads
    obtain ⟨sign, signed, spelled⟩ := exists_sign cs
    obtain ⟨digit, rest, isDigit, same⟩ := exists_cons_of_leads leads
    exact ⟨sign, digit, rest, signed, isDigit, same ▸ spelled⟩

/-- Digits behind an optional sign, and perhaps a point and more digits. -/
theorem numeric_append {sign whole : List Char} (signed : IsSign sign) (digits : Text.isDigits whole)
    (rest : List Char) (parts : ∀ c ∈ rest, c.isDigit ∨ c = '.') :
    Numeric (sign ++ (whole ++ rest)) ∧ unsigned (sign ++ (whole ++ rest)) = whole ++ rest := by
  have leads := head?_any_of_isDigits rest digits
  have same := unsigned_append signed leads
  refine ⟨⟨by rwa [same], ?_⟩, same⟩
  rw [same]
  intro c inside
  rcases List.mem_append.1 inside with inside | inside
  · exact .inl (isDigit_of_isDigits digits c inside)
  · exact parts c inside

theorem numeric_int {sign digits : List Char} (signed : IsSign sign) (whole : Text.isDigits digits) :
    Numeric (sign ++ digits) ∧ unsigned (sign ++ digits) = digits := by
  simpa using numeric_append signed whole [] (by simp)

theorem numeric_float {sign whole fraction : List Char} (signed : IsSign sign)
    (before : Text.isDigits whole) (behind : Text.isDigits fraction) :
    Numeric (sign ++ (whole ++ '.' :: fraction)) ∧
      unsigned (sign ++ (whole ++ '.' :: fraction)) = whole ++ '.' :: fraction := by
  refine numeric_append signed before _ ?_
  intro c inside
  rcases List.mem_cons.1 inside with rfl | inside
  · exact .inr rfl
  · exact .inl (isDigit_of_isDigits behind c inside)

theorem Spells.ne_nil {cs : List Char} {atom : Atom} (spelled : Spells cs atom) : cs ≠ [] := by
  cases spelled with
  | yes => rintro ⟨⟩
  | no => rintro ⟨⟩
  | int signed whole => exact (numeric_int signed whole).1.ne_nil
  | float signed before behind => exact (numeric_float signed before behind).1.ne_nil
  | symbol nonempty => exact nonempty

theorem Spells.plain {cs : List Char} {atom : Atom} (spelled : Spells cs atom) :
    ∀ c ∈ cs, isDelimiter c = false := by
  cases spelled with
  | yes | no =>
    intro c member
    simp only [List.mem_cons, List.not_mem_nil, or_false] at member
    rcases member with rfl | rfl
    · rfl
    · rfl
  | int signed whole => exact (numeric_int signed whole).1.plain
  | float signed before behind => exact (numeric_float signed before behind).1.plain
  | symbol _ plain => exact plain

theorem classify_of_spells {cs : List Char} {atom : Atom} (spelled : Spells cs atom) :
    classify cs = .ok atom := by
  cases spelled with
  | yes => rfl
  | no => rfl
  | int signed whole =>
    obtain ⟨numeric, same⟩ := numeric_int signed whole
    have split := span_of_isDigits whole [] (by rintro c ⟨⟩)
    rw [List.append_nil] at split
    have leads := numeric.leads
    rw [same] at leads
    simp only [classify, numeric.head?_ne, same, leads, split, whole, if_true, if_false]
  | @float sign whole fraction signed before behind =>
    obtain ⟨numeric, same⟩ := numeric_float signed before behind
    have split := span_of_isDigits before ('.' :: fraction) (by rintro c ⟨⟩; rfl)
    have leads := numeric.leads
    rw [same] at leads
    simp only [classify, numeric.head?_ne, same, leads, split, before, behind, Bool.and_self, if_true,
      if_false]
  | symbol _ _ unmarked other =>
    rw [startsNumber_iff] at other
    simp [classify, unmarked, other]

/-- What stands before the first point, and the rest from there on. -/
theorem eq_append_of_span {cs whole rest : List Char} (split : cs.span (· ≠ '.') = (whole, rest)) :
    cs = whole ++ rest ∧ ∀ c ∈ rest.head?, c = '.' := by
  rw [List.span_eq_takeWhile_dropWhile, Prod.mk.injEq] at split
  obtain ⟨rfl, rfl⟩ := split
  refine ⟨List.takeWhile_append_dropWhile.symm, ?_⟩
  intro c first
  have stopped := List.head?_dropWhile_not (fun c => decide (c ≠ '.')) cs
  rw [Option.mem_def.1 first] at stopped
  simpa using stopped

theorem spells_of_classify {cs : List Char} {atom : Atom} (nonempty : cs ≠ [])
    (plain : ∀ c ∈ cs, isDelimiter c = false) (classified : classify cs = .ok atom) : Spells cs atom := by
  unfold classify at classified
  dsimp only at classified
  split at classified
  · split at classified
    · next same =>
      cases classified
      exact same ▸ .yes
    · split at classified
      · next same =>
        cases classified
        exact same ▸ .no
      · cases classified
  · next unmarked =>
    split at classified
    · obtain ⟨sign, signed, spelled⟩ := exists_sign cs
      split at classified
      · next whole split =>
        obtain ⟨same, -⟩ := eq_append_of_span split
        rw [List.append_nil] at same
        rw [same] at spelled
        split at classified
        · next digits =>
          cases classified
          rw [spelled]
          exact .int signed digits
        · cases classified
      · next whole point fraction split =>
        obtain ⟨same, isPoint⟩ := eq_append_of_span split
        obtain rfl : point = '.' := isPoint point rfl
        rw [same] at spelled
        split at classified
        · next digits =>
          cases classified
          rw [Bool.and_eq_true] at digits
          rw [spelled]
          exact .float signed digits.1 digits.2
        · cases classified
    · next other =>
      cases classified
      rw [← startsNumber_iff] at other
      exact .symbol nonempty plain unmarked other

end Lexical

end CheckedLisp
