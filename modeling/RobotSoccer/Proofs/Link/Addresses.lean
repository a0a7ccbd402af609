import Mathlib.Data.List.Basic
import Mathlib.Data.List.TakeWhile
import RobotSoccer.Proofs.Json.DigitText
import RobotSoccer.Session.Config

/-!
# Each address has one text

A byte is spelled by one list of digits and by no other, and an address by its four bytes with
points between them. So the texts that spell an address are exactly those that addresses are written
as, and the name of an end of a connection says its host and its port. Settings take the host from
such a text and from no other.
-/

namespace RobotSoccer

namespace Address

open Number

/-- A decimal digit of an address is a decimal digit. -/
theorem isDigit_eq (c : Char) : isDigit c = c.isDigit := rfl

/-- The digits of a byte are digits. -/
theorem isDigit_of_mem_partChars {part : UInt8} {c : Char} (h : c ∈ partChars part) :
    isDigit c = true := by
  rw [isDigit_eq]
  exact digitChars_naturalText _ c h

/-- The digits of a byte are no point and no colon, nor anything else that is no digit. -/
theorem not_mem_partChars {part : UInt8} {c : Char} (h : isDigit c = false) :
    c ∉ partChars part := by
  intro hmem
  have hdigit := isDigit_of_mem_partChars hmem
  rw [h] at hdigit
  cases hdigit

/-- Digits spell a byte when they are the digits that it is written with. -/
theorem part?_eq_some_iff {digits : List Char} (hdigits : DigitChars digits) {part : UInt8} :
    part? digits = some part ↔ digits = partChars part := by
  have hvalue : digitsValue digits = Nat.ofDigitChars 10 digits 0 := rfl
  constructor
  · intro h
    unfold part? at h
    split_ifs at h with hlength hlead hlt
    have hne : digits ≠ [] := by
      rintro rfl
      exact hlength rfl
    have hzero : digits.head? = some '0' → digits.length = 1 := by
      intro hhead
      by_contra hlong
      exact hlead (by simp [hhead, hlong])
    have hspelled := naturalText_ofDigitChars hdigits hne hzero
    have hbyte : (UInt8.ofNat (digitsValue digits)).toNat = digitsValue digits :=
      Utf8.toNat_ofNat_of_lt hlt
    rw [← Option.some.inj h, partChars, hbyte, hvalue, hspelled]
  · rintro rfl
    have hlt : part.toNat < 256 := part.toNat_lt
    have hback : digitsValue (partChars part) = part.toNat := ofDigitChars_naturalText part.toNat
    have hshort : (partChars part).length ≤ 3 := by
      have hthree : part.toNat < 10 ^ 3 := by omega
      exact (Nat.length_toDigits_le_iff (by decide) (by decide)).2 hthree
    have hne : partChars part ≠ [] := Nat.toDigits_ne_nil
    have hlead : (partChars part).head? = some '0' → (partChars part).length = 1 := by
      intro hhead
      by_cases hzero : part.toNat = 0
      · rw [partChars, hzero]
        rfl
      · exact absurd hhead (head?_naturalText (Nat.pos_of_ne_zero hzero))
    unfold part?
    rw [if_neg (by simp [hne]; omega), if_neg (by simpa using hlead), if_pos (by omega), hback,
      UInt8.ofNat_toNat]

variable {cs rest : List Char} {part : UInt8}

/-- A byte is taken from in front of what does not go on with its digits. -/
theorem leadingPart?_append (h : ∀ c ∈ rest.head?, isDigit c = false) :
    leadingPart? (partChars part ++ rest) = some (part, rest) := by
  have hall : ∀ c ∈ partChars part, isDigit c = true := fun _ hc => isDigit_of_mem_partChars hc
  have hsplit : rest.takeWhile isDigit = [] ∧ rest.dropWhile isDigit = rest := by
    cases rest with
    | nil => exact ⟨rfl, rfl⟩
    | cons c rest =>
      have hc := h c rfl
      constructor
      · exact List.takeWhile_cons_of_neg (by simp [hc])
      · exact List.dropWhile_cons_of_neg (by simp [hc])
  have hpart : part? (partChars part) = some part :=
    (part?_eq_some_iff (digitChars_naturalText _)).2 rfl
  rw [leadingPart?, List.takeWhile_append_of_pos hall, List.dropWhile_append_of_pos hall, hsplit.1,
    hsplit.2, List.append_nil, hpart]
  rfl

/-- What a byte is taken from begins with its digits. -/
theorem eq_append_of_leadingPart? (h : leadingPart? cs = some (part, rest)) :
    cs = partChars part ++ rest := by
  have hdigits : DigitChars (cs.takeWhile isDigit) := by
    intro c hc
    rw [← isDigit_eq]
    exact List.mem_takeWhile_imp hc
  obtain ⟨found, hfound, heq⟩ := Option.map_eq_some_iff.1 h
  obtain ⟨rfl, rfl⟩ := Prod.mk.inj heq
  rw [← (part?_eq_some_iff hdigits).1 hfound]
  exact List.takeWhile_append_dropWhile.symm

/-- What a further byte is taken from begins with a point and its digits. -/
theorem eq_append_of_nextPart? (h : nextPart? cs = some (part, rest)) :
    cs = '.' :: (partChars part ++ rest) := by
  unfold nextPart? at h
  split at h
  · rw [← eq_append_of_leadingPart? h]
  · cases h

/-- A point does not go on with digits. -/
theorem not_digit_of_point {c : Char} (h : c ∈ ('.' :: rest).head?) : isDigit c = false := by
  cases h
  rfl

/-- A text spells an address exactly when it is the text of that address. -/
theorem ofText?_eq_some_iff {s : String} {address : Address} :
    ofText? s = some address ↔ s = address.text := by
  constructor
  · intro h
    unfold ofText? at h
    simp only [bind, Option.bind_eq_some_iff] at h
    obtain ⟨⟨first, rest⟩, hfirst, ⟨second, rest'⟩, hsecond, ⟨third, rest''⟩, hthird,
      ⟨fourth, last⟩, hfourth, hend⟩ := h
    dsimp only at hsecond hthird hfourth hend
    have hnothing : last = [] := by
      by_contra hmore
      rw [if_neg (by simpa using hmore)] at hend
      cases hend
    rw [hnothing] at hend hfourth
    have haddress : (⟨first, second, third, fourth⟩ : Address) = address := Option.some.inj hend
    have hchars : s.toList = address.chars := by
      rw [eq_append_of_leadingPart? hfirst, eq_append_of_nextPart? hsecond,
        eq_append_of_nextPart? hthird, eq_append_of_nextPart? hfourth, List.append_nil, ← haddress]
      rfl
    rw [text, ← hchars, String.ofList_toList]
  · rintro rfl
    have hchars : address.text.toList = address.chars := String.toList_ofList
    have hfourth : leadingPart? (partChars address.fourth ++ []) = some (address.fourth, []) :=
      leadingPart?_append nofun
    rw [List.append_nil] at hfourth
    unfold ofText?
    rw [hchars, chars, leadingPart?_append fun _ => not_digit_of_point]
    simp only [bind, Option.bind_some, nextPart?]
    rw [leadingPart?_append fun _ => not_digit_of_point]
    simp only [Option.bind_some]
    rw [leadingPart?_append fun _ => not_digit_of_point]
    simp only [Option.bind_some]
    rw [hfourth]
    rfl

/-- Different addresses have different texts. -/
theorem text_injective {left right : Address} (h : left.text = right.text) : left = right := by
  have hleft := ofText?_eq_some_iff.2 (rfl : left.text = left.text)
  have hright := ofText?_eq_some_iff.2 h
  exact Option.some.inj (hleft.symm.trans hright)

/-- The text of an address has points and digits only. -/
theorem not_mem_chars {address : Address} {c : Char} (hpoint : c ≠ '.') (hdigit : isDigit c = false) :
    c ∉ address.chars := by
  simp only [chars, List.mem_append, List.mem_cons, hpoint, not_mem_partChars hdigit, or_self,
    not_false_eq_true]

end Address

/-- The name of an end says its host and its port. -/
theorem endpoint_injective {left right : Address} {port other : UInt16}
    (h : endpoint left port = endpoint right other) : left = right ∧ port = other := by
  have hhosted : ':' ∉ left.chars := Address.not_mem_chars (by decide) (by decide)
  have hdigits : ':' ∉ Number.naturalText port.toNat := by
    intro hmem
    have hdigit := Number.digitChars_naturalText _ _ hmem
    cases hdigit
  have hchars := congrArg String.toList h
  simp only [endpoint, String.toList_append, Address.text, String.toList_ofList, List.append_assoc]
    at hchars
  have hrest : left.chars ++ ':' :: Number.naturalText port.toNat =
      right.chars ++ ':' :: Number.naturalText other.toNat := List.append_cancel_left hchars
  obtain ⟨hhost, -, hport⟩ :=
    (List.append_cons_inj_of_notMem hhosted hdigits).1 hrest
  constructor
  · exact Address.text_injective (congrArg String.ofList hhost)
  · exact UInt16.toNat_inj.1 (Number.naturalText_injective hport)

namespace Config

/-- The settings take their key as it is, whatever the host is, and none when there is none. A host
text that is the text of an address gives this address, whose ends are named by that very text; any
other leaves the own host. Each address is spelled by its text alone, and different ends have
different names. -/
theorem variables_law (lookup : String → Option String) :
    (ofVariables lookup).key = (lookup "RSK_KEY").getD "" ∧
      (∀ (s : String) (address : Address), lookup "RSK_HOST" = some s → s = address.text →
        (ofVariables lookup).host = address ∧
          ∀ port : UInt16, endpoint (ofVariables lookup).host port =
            "tcp://" ++ s ++ ":" ++ String.ofList (Number.naturalText port.toNat)) ∧
      ((∀ address : Address, lookup "RSK_HOST" ≠ some address.text) →
        (ofVariables lookup).host = standard.host) ∧
      (∀ (s : String) (address : Address), Address.ofText? s = some address ↔ s = address.text) ∧
      ∀ (host other : Address) (port otherPort : UInt16),
        endpoint host port = endpoint other otherPort ↔ host = other ∧ port = otherPort := by
  have hhost : (ofVariables lookup).host =
      ((lookup "RSK_HOST").bind Address.ofText?).getD standard.host := rfl
  refine ⟨rfl, fun s address hs htext => ?_, fun hother => ?_,
    fun s address => Address.ofText?_eq_some_iff, fun host other port otherPort => ?_⟩
  · have hfound : Address.ofText? s = some address := Address.ofText?_eq_some_iff.2 htext
    have hgiven : (ofVariables lookup).host = address := by
      rw [hhost, hs, Option.bind_some, hfound, Option.getD_some]
    refine ⟨hgiven, fun port => ?_⟩
    rw [hgiven, htext]
    rfl
  · have hnone : (lookup "RSK_HOST").bind Address.ofText? = none := by
      refine Option.eq_none_iff_forall_ne_some.2 fun address hspelled => ?_
      obtain ⟨s, hs, hfound⟩ := Option.bind_eq_some_iff.1 hspelled
      rw [Address.ofText?_eq_some_iff.1 hfound] at hs
      exact hother address hs
    rw [hhost, hnone, Option.getD_none]
  · constructor
    · exact endpoint_injective
    · rintro ⟨rfl, rfl⟩
      rfl

end Config

end RobotSoccer
