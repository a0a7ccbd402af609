import RobotSoccer.Number.Layout
import RobotSoccer.Proofs.Json.NumberParts
import RobotSoccer.Text.Utf8

/-!
# The bytes of decimal digits

Digits without a needless zero in front are the digits of the number that they spell. Each digit is
written as one byte. The bytes of some digits spell the number that the digits do, and those of a
whole number have no zero in front.
-/

namespace RobotSoccer

namespace Number

/-- Characters that are decimal digits. -/
def DigitChars (cs : List Char) : Prop := ∀ c ∈ cs, c.isDigit = true

/-- The digits of a whole number are digits. -/
theorem digitChars_naturalText (n : Nat) : DigitChars (naturalText n) := fun _ hc =>
  Nat.isDigit_of_mem_toDigits (by decide) (by decide) hc

/-- Zeros are digits. -/
theorem digitChars_zeros (n : Nat) : DigitChars (List.replicate n '0') := by
  intro c hc
  rw [List.eq_of_mem_replicate hc]
  decide

/-- Digits beside digits are digits. -/
theorem DigitChars.append {cs ds : List Char} (hc : DigitChars cs) (hd : DigitChars ds) :
    DigitChars (cs ++ ds) := fun c h => (List.mem_append.1 h).elim (hc c) (hd c)

/-- The digits of a positive number do not start with a zero. -/
theorem head?_naturalText {n : Nat} (h : 0 < n) : (naturalText n).head? ≠ some '0' := by
  rw [naturalText]
  induction n using Nat.base_induction 10 (by decide) with
  | single m hm =>
    rw [Nat.toDigits_of_lt_base hm]
    have hall : ∀ d, d < 10 → 0 < d → [Nat.digitChar d].head? ≠ some '0' := by decide
    exact hall m hm h
  | digit m k hk hm ih =>
    have hrest := ih hm
    rw [← Nat.toDigits_append_toDigits (by decide) hm hk]
    cases hdigits : Nat.toDigits 10 m with
    | nil => exact absurd hdigits Nat.toDigits_ne_nil
    | cons c cs =>
      rw [hdigits] at hrest
      exact hrest

/-- A digit is written for its value, which is under ten. -/
theorem digitChar_of_isDigit {c : Char} (h : c.isDigit = true) :
    c.toNat - '0'.toNat < 10 ∧ Nat.digitChar (c.toNat - '0'.toNat) = c := by
  have hc : 48 ≤ c.toNat ∧ c.toNat ≤ 57 := by
    simpa [Char.isDigit, UInt32.le_iff_toNat_le] using h
  have hzero : '0'.toNat = 48 := rfl
  have hlt : c.toNat - '0'.toNat < 10 := by omega
  refine ⟨hlt, Char.toNat_inj.1 ?_⟩
  rw [Nat.toNat_digitChar_of_lt_ten hlt]
  omega

/-- Digits behind those of a positive number are, with them, those of a greater one. -/
theorem naturalText_append {n : Nat} (hn : 0 < n) {digits : List Char} (h : DigitChars digits) :
    naturalText n ++ digits = naturalText (Nat.ofDigitChars 10 digits n) := by
  induction digits generalizing n with
  | nil => rw [List.append_nil, Nat.ofDigitChars_nil]
  | cons c digits ih =>
    obtain ⟨hlt, hchar⟩ := digitChar_of_isDigit (h c List.mem_cons_self)
    have hnext : naturalText n ++ [c] = naturalText (10 * n + (c.toNat - '0'.toNat)) := by
      have happend := Nat.toDigits_append_toDigits (by decide : 1 < 10) hn hlt
      rw [Nat.toDigits_of_lt_base hlt, hchar] at happend
      exact happend
    have hpos : 0 < 10 * n + (c.toNat - '0'.toNat) := by omega
    have hmore := ih hpos fun d hd => h d (List.mem_cons_of_mem _ hd)
    rw [← hnext] at hmore
    rw [Nat.ofDigitChars_cons, ← hmore, List.append_assoc, List.singleton_append]

/-- Digits without a needless zero in front are the digits of the number that they spell. -/
theorem naturalText_ofDigitChars {digits : List Char} (h : DigitChars digits)
    (hne : digits ≠ []) (hlead : digits.head? = some '0' → digits.length = 1) :
    naturalText (Nat.ofDigitChars 10 digits 0) = digits := by
  cases digits with
  | nil => exact absurd rfl hne
  | cons c digits =>
    obtain ⟨hlt, hchar⟩ := digitChar_of_isDigit (h c List.mem_cons_self)
    have hsingle : naturalText (c.toNat - '0'.toNat) = [c] := by
      rw [naturalText, Nat.toDigits_of_lt_base hlt, hchar]
    rw [Nat.ofDigitChars_cons, Nat.mul_zero, Nat.zero_add]
    by_cases hzero : c = '0'
    · have hlength := hlead (congrArg some hzero)
      have hnil : digits = [] := by simpa using hlength
      rw [hnil, Nat.ofDigitChars_nil]
      exact hsingle
    · have hpos : 0 < c.toNat - '0'.toNat := by
        have hvalue : c.toNat - '0'.toNat ≠ 0 := by
          intro hnone
          rw [hnone] at hchar
          exact hzero hchar.symm
        omega
      rw [← naturalText_append hpos fun d hd => h d (List.mem_cons_of_mem _ hd), hsingle]
      rfl

end Number

namespace Utf8

/-- A digit is written as one byte, which is a digit of the same value. -/
theorem encodeChar_of_isDigit {c : Char} (h : c.isDigit = true) :
    encodeChar c = [UInt8.ofNat c.toNat] ∧ Ascii.isDigit (UInt8.ofNat c.toNat) = true ∧
      (UInt8.ofNat c.toNat).toNat = c.toNat := by
  have hc : 48 ≤ c.toNat ∧ c.toNat ≤ 57 := by
    simpa [Char.isDigit, UInt32.le_iff_toNat_le] using h
  have hb : (UInt8.ofNat c.toNat).toNat = c.toNat := toNat_ofNat_of_lt (by omega)
  refine ⟨?_, ?_, hb⟩
  · unfold encodeChar
    dsimp only
    rw [if_pos (by omega)]
  · simp only [Ascii.isDigit, Bool.and_eq_true, decide_eq_true_eq, UInt8.le_iff_toNat_le, hb]
    exact hc

/-- Digits are written one byte each, and the bytes are digits. -/
theorem encodeChars_digits {cs : List Char} (h : Number.DigitChars cs) :
    (∀ b ∈ encodeChars cs, Ascii.isDigit b = true) ∧ (encodeChars cs).length = cs.length := by
  induction cs with
  | nil => exact ⟨fun b hb => absurd hb List.not_mem_nil, rfl⟩
  | cons c cs ih =>
    obtain ⟨hone, hdigit, -⟩ := encodeChar_of_isDigit (h c List.mem_cons_self)
    obtain ⟨hall, hlength⟩ := ih fun d hd => h d (List.mem_cons_of_mem _ hd)
    rw [encodeChars_cons, hone]
    constructor
    · intro b hb
      rcases List.mem_cons.1 hb with rfl | hb
      · exact hdigit
      · exact hall b hb
    · rw [List.singleton_append, List.length_cons, List.length_cons, hlength]

/-- The bytes of digits spell the number that the digits do. -/
theorem digitsValue_encodeChars {cs : List Char} (h : Number.DigitChars cs) :
    Ascii.digitsValue (encodeChars cs) = Nat.ofDigitChars 10 cs 0 := by
  have hfold (n : Nat) : (encodeChars cs).foldl (fun n d => 10 * n + Ascii.digitValue d) n =
      Nat.ofDigitChars 10 cs n := by
    induction cs generalizing n with
    | nil => rw [encodeChars_nil, List.foldl_nil, Nat.ofDigitChars_nil]
    | cons c cs ih =>
      obtain ⟨hone, -, hvalue⟩ := encodeChar_of_isDigit (h c List.mem_cons_self)
      rw [encodeChars_cons, hone, List.singleton_append, List.foldl_cons,
        ih fun d hd => h d (List.mem_cons_of_mem _ hd), Nat.ofDigitChars_cons]
      rw [Ascii.digitValue, hvalue]
      rfl
  exact hfold 0

/-- Digits that do not start with a zero are written as bytes that do not. -/
theorem head?_encodeChars_digits {cs : List Char} (h : Number.DigitChars cs)
    (hlead : cs.head? ≠ some '0') : (encodeChars cs).head? ≠ some Ascii.zero := by
  cases cs with
  | nil => exact fun hnil => nomatch hnil
  | cons c cs =>
    obtain ⟨hone, -, hvalue⟩ := encodeChar_of_isDigit (h c List.mem_cons_self)
    intro hzero
    rw [encodeChars_cons, hone, List.singleton_append, List.head?_cons, Option.some.injEq]
      at hzero
    rw [hzero] at hvalue
    apply hlead
    rw [List.head?_cons, ← Char.ofNat_toNat c, ← hvalue]
    rfl

end Utf8

namespace NumberParts

/-- The bytes of some digits are digits. -/
theorem digits_encodeChars {cs : List Char} (h : Number.DigitChars cs) (hne : cs ≠ []) :
    Digits (Utf8.encodeChars cs) := by
  obtain ⟨hall, hlength⟩ := Utf8.encodeChars_digits h
  refine ⟨fun hnil => hne ?_, hall⟩
  rw [hnil] at hlength
  exact List.eq_nil_of_length_eq_zero hlength.symm

end NumberParts

end RobotSoccer
