import RobotSoccer.Proofs.Json.Extent
import RobotSoccer.Proofs.Json.Forms
import RobotSoccer.Proofs.Json.NumberText
import RobotSoccer.Proofs.Text.Characters

/-!
# What is read as a number is written as one

Each part that the reader of numbers takes follows the grammar of that part, and so what it takes as
a whole is the form of a number. A whole number of 64 bits has one spelling only: that of its own
text, with no point, no power of ten and no needless zero.
-/

namespace RobotSoccer

namespace Reader

variable {atEnd : Fault} {bytes rest : Bytes}

/-- What is read as digits stands in front of the rest, and is digits. -/
theorem eq_append_of_digits {found : Bytes} (h : digits atEnd bytes = .ok (found, rest)) :
    bytes = found ++ rest ∧ NumberParts.Digits found := by
  have hall : ∀ b ∈ bytes.takeWhile Ascii.isDigit, Ascii.isDigit b = true :=
    fun _ hb => List.mem_takeWhile_imp hb
  have hsplit := (List.takeWhile_append_dropWhile (p := Ascii.isDigit) (l := bytes)).symm
  unfold digits at h
  dsimp only at h
  generalize bytes.takeWhile Ascii.isDigit = taken at h hall hsplit
  generalize bytes.dropWhile Ascii.isDigit = left at h hsplit
  cases taken with
  | nil => cases left <;> cases h
  | cons d taken =>
    cases h
    exact ⟨hsplit, List.cons_ne_nil _ _, hall⟩

/-- What is read before the point is digits with no needless zero. -/
theorem eq_append_of_wholeDigits {found : Bytes} (h : wholeDigits atEnd bytes = .ok (found, rest)) :
    bytes = found ++ rest ∧ NumberParts.Digits found ∧
      ¬(found.head? = some Ascii.zero ∧ found.length ≠ 1) := by
  unfold wholeDigits at h
  cases hdigits : digits atEnd bytes with
  | error fault => rw [hdigits] at h; cases h
  | ok got =>
    rw [hdigits] at h
    dsimp only at h
    by_cases hlead : got.1.head? = some Ascii.zero ∧ got.1.length ≠ 1
    · rw [if_pos hlead] at h
      cases h
    · rw [if_neg hlead] at h
      cases h
      obtain ⟨hbytes, hfound⟩ := eq_append_of_digits hdigits
      exact ⟨hbytes, hfound, hlead⟩

/-- What is read behind the point is digits with the point in front of them, or nothing. -/
theorem eq_append_of_fraction {part? : Option Bytes}
    (h : fraction atEnd bytes = .ok (part?, rest)) :
    bytes = NumberParts.partBytes part? ++ rest ∧ ∀ part ∈ part?, NumberParts.Digits part := by
  cases bytes with
  | nil =>
    cases h
    exact ⟨rfl, fun part hpart => nomatch hpart⟩
  | cons b more =>
    unfold fraction at h
    dsimp only at h
    by_cases hpoint : b = Ascii.point
    · rw [if_pos hpoint] at h
      cases hdigits : digits atEnd more with
      | error fault => rw [hdigits] at h; cases h
      | ok got =>
        obtain ⟨hmore, hfound⟩ := eq_append_of_digits hdigits
        rw [hdigits] at h
        cases h
        refine ⟨?_, fun part hpart => Option.some.inj hpart ▸ hfound⟩
        rw [hpoint, hmore]
        rfl
    · rw [if_neg hpoint] at h
      cases h
      exact ⟨rfl, fun part hpart => nomatch hpart⟩

/-- What is read as a sign is written as one, or nothing is. -/
theorem exists_signForm (bytes : Bytes) :
    ∃ taken, bytes = taken ++ (sign bytes).2 ∧ NumberParts.SignForm taken (sign bytes).1 := by
  cases bytes with
  | nil => exact ⟨[], rfl, .none⟩
  | cons b more =>
    unfold sign
    dsimp only
    by_cases hminus : b = Ascii.minus
    · rw [if_pos hminus, hminus]
      exact ⟨_, rfl, .minus⟩
    · rw [if_neg hminus]
      by_cases hplus : b = Ascii.plus
      · rw [if_pos hplus, hplus]
        exact ⟨_, rfl, .plus⟩
      · rw [if_neg hplus]
        exact ⟨[], rfl, .none⟩

/-- What is read as a power of ten is written as one, with digits in it, or nothing is. -/
theorem exists_powerForm {power? : Option Int} (h : power atEnd bytes = .ok (power?, rest)) :
    ∃ taken written?, bytes = taken ++ rest ∧ NumberParts.PowerForm taken written? ∧
      power? = written?.map (fun written => NumberParts.powerValue (some written)) ∧
        ∀ written ∈ written?, NumberParts.Digits written.2 := by
  cases bytes with
  | nil =>
    cases h
    exact ⟨[], none, rfl, .none, rfl, fun written hwritten => nomatch hwritten⟩
  | cons b more =>
    unfold power at h
    dsimp only at h
    by_cases hletter : b = Ascii.lowerE ∨ b = Ascii.upperE
    · rw [if_pos hletter] at h
      obtain ⟨signed, hmore, hsigned⟩ := exists_signForm more
      cases hdigits : digits atEnd (sign more).2 with
      | error fault => rw [hdigits] at h; cases h
      | ok got =>
        obtain ⟨hsign, hfound⟩ := eq_append_of_digits hdigits
        rw [hdigits] at h
        cases h
        refine ⟨b :: (signed ++ got.1), some ((sign more).1, got.1), ?_, .some hletter hsigned, rfl,
          fun written hwritten => Option.some.inj hwritten ▸ hfound⟩
        rw [List.cons_append, List.append_assoc, ← hsign, ← hmore]
    · rw [if_neg hletter] at h
      cases h
      exact ⟨[], none, rfl, .none, rfl, fun written hwritten => nomatch hwritten⟩

/-- What is read as a number without its sign is parts that follow the grammar. -/
theorem exists_parts_of_unsigned {negative : Bool} {said : Numeral}
    (h : unsigned atEnd negative bytes = .ok (said, rest)) :
    ∃ (parts : NumberParts) (power : Bytes), parts.WellFormed ∧
      NumberParts.PowerForm power parts.power? ∧
        bytes = parts.whole ++ (NumberParts.partBytes parts.part? ++ power) ++ rest ∧
          said = NumberParts.said negative parts := by
  unfold unsigned at h
  cases hwhole : wholeDigits atEnd bytes with
  | error fault => rw [hwhole] at h; cases h
  | ok whole =>
    rw [hwhole] at h
    dsimp only at h
    cases hpart : fraction atEnd whole.2 with
    | error fault => rw [hpart] at h; cases h
    | ok part =>
      rw [hpart] at h
      dsimp only at h
      cases hpower : power atEnd part.2 with
      | error fault => rw [hpower] at h; cases h
      | ok powered =>
        rw [hpower] at h
        cases h
        obtain ⟨hbytes, hdigits, hlead⟩ := eq_append_of_wholeDigits hwhole
        obtain ⟨hbehind, hparts⟩ := eq_append_of_fraction hpart
        obtain ⟨taken, written?, hafter, hform, hvalue, hpowers⟩ := exists_powerForm hpower
        refine ⟨⟨whole.1, part.1, written?⟩, taken, ⟨hdigits, hlead, hparts, hpowers⟩, hform, ?_, ?_⟩
        · rw [hbytes, hbehind, hafter, List.append_assoc, List.append_assoc]
        · rw [hvalue]
          rfl

/-- What is read as a number is the form of what it says. -/
theorem exists_numberForm_of_numeral {said : Numeral}
    (h : numeral atEnd bytes = .ok (said, rest)) :
    ∃ taken, bytes = taken ++ rest ∧ NumberForm taken said := by
  cases bytes with
  | nil => cases h
  | cons b more =>
    unfold numeral at h
    dsimp only at h
    by_cases hminus : b = Ascii.minus
    · rw [if_pos hminus] at h
      obtain ⟨parts, power, hparts, hpower, hmore, rfl⟩ := exists_parts_of_unsigned h
      refine ⟨_, ?_, .parts true hparts hpower⟩
      rw [hminus, hmore]
      rfl
    · rw [if_neg hminus] at h
      obtain ⟨parts, power, hparts, hpower, hmore, rfl⟩ := exists_parts_of_unsigned h
      exact ⟨_, hmore, .parts false hparts hpower⟩

/-- What is read as a number that has a meaning is a form of that meaning. -/
theorem exists_form_of_number {value : NumberValue} (h : number bytes = .ok (value, rest)) :
    ∃ taken, bytes = taken ++ rest ∧ Form.number value taken := by
  unfold number at h
  cases hnumeral : numeral .endOfInput bytes with
  | error fault => rw [hnumeral] at h; cases h
  | ok got =>
    obtain ⟨taken, hbytes, hform⟩ := exists_numberForm_of_numeral hnumeral
    rw [hnumeral] at h
    dsimp only at h
    cases hvalue : got.1.value? with
    | none => rw [hvalue] at h; cases h
    | some meant =>
      rw [hvalue] at h
      cases h
      exact ⟨taken, hbytes, .spelled hform hvalue⟩

end Reader

namespace NumberParts

/-- Bytes that are digits are those of digits. -/
theorem exists_digitChars {found : Bytes} (h : ∀ b ∈ found, Ascii.isDigit b = true) :
    ∃ cs, Number.DigitChars cs ∧ found = Utf8.encodeChars cs := by
  induction found with
  | nil => exact ⟨[], fun c hc => absurd hc List.not_mem_nil, rfl⟩
  | cons b found ih =>
    obtain ⟨cs, hcs, rfl⟩ := ih fun c hc => h c (List.mem_cons_of_mem _ hc)
    have hb := h b List.mem_cons_self
    simp only [Ascii.isDigit, Bool.and_eq_true, decide_eq_true_eq, UInt8.le_iff_toNat_le] at hb
    have hvalue : (Char.ofNat b.toNat).toNat = b.toNat :=
      Utf8.toNat_ofNat (.inl (Nat.lt_trans b.toNat_lt (by decide)))
    have hdigit : (Char.ofNat b.toNat).isDigit = true := by
      simp only [Char.isDigit, Bool.and_eq_true, decide_eq_true_eq, UInt32.le_iff_toNat_le]
      change 48 ≤ (Char.ofNat b.toNat).toNat ∧ (Char.ofNat b.toNat).toNat ≤ 57
      rw [hvalue]
      exact hb
    refine ⟨Char.ofNat b.toNat :: cs, ?_, ?_⟩
    · intro c hc
      rcases List.mem_cons.1 hc with rfl | hc
      · exact hdigit
      · exact hcs c hc
    · rw [Utf8.encodeChars_cons, (Utf8.encodeChar_of_isDigit hdigit).1, hvalue, UInt8.ofNat_toNat]
      rfl

/-- Digits with no needless zero are the text of the number that they spell. -/
theorem eq_naturalText {found : Bytes} (h : Digits found)
    (hlead : ¬(found.head? = some Ascii.zero ∧ found.length ≠ 1)) :
    found = Utf8.encodeChars (Number.naturalText (Ascii.digitsValue found)) := by
  obtain ⟨hne, hall⟩ := h
  obtain ⟨cs, hcs, rfl⟩ := exists_digitChars hall
  have hsome : cs ≠ [] := by
    rintro rfl
    exact hne rfl
  have hzero : cs.head? = some '0' → cs.length = 1 := by
    intro hhead
    by_contra hlength
    refine hlead ⟨?_, ?_⟩
    · obtain ⟨c, more, rfl⟩ := List.exists_cons_of_ne_nil hsome
      cases hhead
      rfl
    · rw [(Utf8.encodeChars_digits hcs).2]
      exact hlength
  rw [Utf8.digitsValue_encodeChars hcs, Number.naturalText_ofDigitChars hcs hsome hzero]

end NumberParts

/-- What says a whole number of 64 bits has no point and no power of ten, and its sign and its digits
are those of the text of the number. -/
theorem Numeral.integerText_of_value? {said : Numeral} {n : Int}
    (h : said.value? = some (.int n)) :
    said.integral = true ∧ Number.integerText n =
      (if said.negative then ['-'] else []) ++ Number.naturalText (gather 0 said.whole).1 ∧
        (gather 0 said.whole).2 = 0 := by
  unfold value? at h
  dsimp only at h
  by_cases hplain : said.integral = true ∧ (gather 0 said.whole).2 = 0
  · rw [if_pos hplain] at h
    refine ⟨hplain.1, ?_, hplain.2⟩
    generalize (gather 0 said.whole).1 = digits at h
    by_cases hnegative : said.negative = true
    · rw [if_pos hnegative] at h ⊢
      by_cases hfits : digits ≠ 0 ∧ digits ≤ 0x8000000000000000
      · rw [if_pos hfits] at h
        cases h
        have hsign : -(digits : Int) < 0 := by omega
        have hback : (-(digits : Int)).natAbs = digits := by omega
        rw [Number.integerText, if_pos hsign, hback]
        rfl
      · rw [if_neg hfits] at h
        cases h
    · rw [if_neg hnegative] at h ⊢
      cases h
      have hsign : ¬(digits : Int) < 0 := by omega
      have hback : (digits : Int).natAbs = digits := by omega
      rw [Number.integerText, if_neg hsign, hback]
      rfl
  · rw [if_neg hplain] at h
    obtain ⟨found, -, heq⟩ := Option.map_eq_some_iff.1 h
    cases heq

/-- A whole number of 64 bits is spelled in one way. -/
theorem Form.eq_integerText {n : Int} {bytes : Bytes} (h : number (.int n) bytes) :
    bytes = Utf8.encodeChars (Number.integerText n) := by
  cases h with
  | spelled hform hvalue =>
    cases hform with
    | @parts parts power negative hparts hpower =>
      obtain ⟨whole, part?, power?⟩ := parts
      obtain ⟨hplain, htext, hleft⟩ := Numeral.integerText_of_value? hvalue
      simp only [Numeral.integral, NumberParts.said, Bool.and_eq_true, Option.isNone_iff_eq_none,
        Option.map_eq_none_iff] at hplain
      obtain ⟨rfl, rfl⟩ := hplain
      cases hpower
      have hwhole := NumberParts.eq_naturalText hparts.whole hparts.lead
      have hsign : Utf8.encodeChars (if negative then ['-'] else []) =
          if negative then [Ascii.minus] else [] := by
        cases negative <;> rfl
      rw [NumberParts.said] at htext hleft
      dsimp only at htext hleft hwhole
      rw [htext, Utf8.encodeChars_append, hsign, Numeral.gather_eq_of_left hleft, Nat.zero_mul,
        Nat.zero_add, ← hwhole]
      simp only [NumberParts.partBytes, List.append_nil]

end RobotSoccer
