import Mathlib.Tactic.SplitIfs
import RobotSoccer.Text.Utf8

/-!
# Where characters begin and end

No byte that begins a character goes on with another one, so the bytes of characters can be taken
apart in one way only. Bytes without damage are the bytes of the characters that they are read as,
and so they are the bytes of their text.
-/

namespace RobotSoccer.Utf8

/-- Whether a byte goes on with a character that has begun. -/
def continues (byte : UInt8) : Bool := 0x80 ≤ byte.toNat && byte.toNat ≤ 0xBF

/-- The first byte of a character begins it, and all others go on with it. -/
theorem exists_encodeChar_eq_cons (c : Char) :
    ∃ first more, encodeChar c = first :: more ∧ continues first = false ∧
      ∀ byte ∈ more, continues byte = true := by
  have hbounds := char_bounds c
  have hfirst {n : Nat} (hn : n < 256) (hrange : n < 0x80 ∨ 0xBF < n) :
      continues (UInt8.ofNat n) = false := by
    have hvalue := toNat_ofNat_of_lt hn
    simp only [continues, hvalue, Bool.and_eq_false_iff, decide_eq_false_iff_not]
    omega
  have hmore (n : Nat) : continues (UInt8.ofNat (0x80 + n % 0x40)) = true := by
    have hvalue := toNat_ofNat_of_lt (n := 0x80 + n % 0x40) (by omega)
    simp only [continues, hvalue, Bool.and_eq_true, decide_eq_true_eq]
    omega
  unfold encodeChar
  dsimp only
  generalize c.toNat = n at hbounds
  split_ifs with h1 h2 h3
  · exact ⟨_, [], rfl, hfirst (by omega) (by omega), nofun⟩
  · refine ⟨_, _, rfl, hfirst (by omega) (by omega), ?_⟩
    simp only [List.forall_mem_cons, hmore, List.not_mem_nil, false_implies, implies_true, and_self]
  · refine ⟨_, _, rfl, hfirst (by omega) (by omega), ?_⟩
    simp only [List.forall_mem_cons, hmore, List.not_mem_nil, false_implies, implies_true, and_self]
  · refine ⟨_, _, rfl, hfirst (by omega) (by omega), ?_⟩
    simp only [List.forall_mem_cons, hmore, List.not_mem_nil, false_implies, implies_true, and_self]

/-- Two characters with something behind each are the same bytes only when they are the same. -/
theorem encodeChar_append_inj {c d : Char} {left right : List UInt8}
    (h : encodeChar c ++ left = encodeChar d ++ right) : c = d ∧ left = right := by
  have hscan := congrArg (scanFrom none) h
  rw [scanFrom_encodeChar, scanFrom_encodeChar] at hscan
  have hsame : c = d := Option.some.inj (List.cons.inj hscan).1
  rw [hsame] at h
  exact ⟨hsame, List.append_cancel_left h⟩

/-- A number that is no surrogate and not past the last code point is that of a character. -/
theorem toNat_ofNat {n : Nat} (h : n < 0xD800 ∨ 0xDFFF < n ∧ n < 0x110000) :
    (Char.ofNat n).toNat = n := by
  have hvalid : n.isValidChar := h
  rw [Char.ofNat, dif_pos hvalid]
  rfl

/-- Two bytes in their ranges are those of the character that they are read as. -/
theorem encodeChar_two {a b : UInt8} (ha : 0xC2 ≤ a.toNat ∧ a.toNat ≤ 0xDF)
    (hb : 0x80 ≤ b.toNat ∧ b.toNat ≤ 0xBF) :
    encodeChar (Char.ofNat ((a.toNat - 0xC0) * 0x40 + b.toNat % 0x40)) = [a, b] := by
  generalize hn : (a.toNat - 0xC0) * 0x40 + b.toNat % 0x40 = n
  have hvalue : (Char.ofNat n).toNat = n := toNat_ofNat (by omega)
  have hfirst : 0xC0 + n / 0x40 = a.toNat := by omega
  have hsecond : 0x80 + n % 0x40 = b.toNat := by omega
  simp only [encodeChar, hvalue]
  rw [if_neg (by omega), if_pos (by omega), hfirst, hsecond, UInt8.ofNat_toNat, UInt8.ofNat_toNat]

/-- Three bytes in their ranges are those of the character that they are read as, when a shorter
spelling would not do and it is no surrogate. -/
theorem encodeChar_three {a b c : UInt8} (ha : 0xE0 ≤ a.toNat ∧ a.toNat ≤ 0xEF)
    (hb : 0x80 ≤ b.toNat ∧ b.toNat ≤ 0xBF) (hc : 0x80 ≤ c.toNat ∧ c.toNat ≤ 0xBF)
    (hlong : a.toNat = 0xE0 → 0xA0 ≤ b.toNat) (hvalid : a.toNat = 0xED → b.toNat ≤ 0x9F) :
    encodeChar (Char.ofNat (((a.toNat - 0xE0) * 0x40 + b.toNat % 0x40) * 0x40 + c.toNat % 0x40)) =
      [a, b, c] := by
  generalize hn : ((a.toNat - 0xE0) * 0x40 + b.toNat % 0x40) * 0x40 + c.toNat % 0x40 = n
  have hvalue : (Char.ofNat n).toNat = n := toNat_ofNat (by omega)
  have hfirst : 0xE0 + n / 0x1000 = a.toNat := by omega
  have hsecond : 0x80 + n / 0x40 % 0x40 = b.toNat := by omega
  have hthird : 0x80 + n % 0x40 = c.toNat := by omega
  simp only [encodeChar, hvalue]
  rw [if_neg (by omega), if_neg (by omega), if_pos (by omega), hfirst, hsecond, hthird]
  simp only [UInt8.ofNat_toNat]

/-- Four bytes in their ranges are those of the character that they are read as, when a shorter
spelling would not do and it is not past the last code point. -/
theorem encodeChar_four {a b c d : UInt8} (ha : 0xF0 ≤ a.toNat ∧ a.toNat ≤ 0xF4)
    (hb : 0x80 ≤ b.toNat ∧ b.toNat ≤ 0xBF) (hc : 0x80 ≤ c.toNat ∧ c.toNat ≤ 0xBF)
    (hd : 0x80 ≤ d.toNat ∧ d.toNat ≤ 0xBF) (hlong : a.toNat = 0xF0 → 0x90 ≤ b.toNat)
    (hvalid : a.toNat = 0xF4 → b.toNat ≤ 0x8F) :
    encodeChar (Char.ofNat ((((a.toNat - 0xF0) * 0x40 + b.toNat % 0x40) * 0x40 +
      c.toNat % 0x40) * 0x40 + d.toNat % 0x40)) = [a, b, c, d] := by
  generalize hn : (((a.toNat - 0xF0) * 0x40 + b.toNat % 0x40) * 0x40 + c.toNat % 0x40) * 0x40 +
    d.toNat % 0x40 = n
  have hvalue : (Char.ofNat n).toNat = n := toNat_ofNat (by omega)
  have hfirst : 0xF0 + n / 0x40000 = a.toNat := by omega
  have hsecond : 0x80 + n / 0x1000 % 0x40 = b.toNat := by omega
  have hthird : 0x80 + n / 0x40 % 0x40 = c.toNat := by omega
  have hfourth : 0x80 + n % 0x40 = d.toNat := by omega
  simp only [encodeChar, hvalue]
  rw [if_neg (by omega), if_neg (by omega), if_neg (by omega), hfirst, hsecond, hthird, hfourth]
  simp only [UInt8.ofNat_toNat]

/-- Bytes without damage go on with the character that is open by a byte in its range. -/
theorem exists_of_undamaged_open {p : Pending} {bytes : List UInt8} {cs : List Char}
    (h : undamaged (scanFrom (some p) bytes) = some cs) :
    ∃ b rest, bytes = b :: rest ∧ p.low.toNat ≤ b.toNat ∧ b.toNat ≤ p.high.toNat ∧
      match p.owed with
      | 0 => ∃ more, cs = Char.ofNat (p.code * 0x40 + b.toNat % 0x40) :: more ∧
          undamaged (scanFrom none rest) = some more
      | owed + 1 =>
        undamaged (scanFrom (some ⟨p.code * 0x40 + b.toNat % 0x40, owed, 0x80, 0xBF⟩) rest) =
          some cs := by
  cases bytes with
  | nil => cases h
  | cons b rest =>
    by_cases hrange : p.low ≤ b ∧ b ≤ p.high
    · refine ⟨b, rest, rfl, hrange.1, hrange.2, ?_⟩
      simp only [scanFrom, step, if_pos hrange] at h
      cases howed : p.owed with
      | zero =>
        simp only [howed, List.cons_append, List.nil_append, undamaged] at h
        obtain ⟨more, hmore, heq⟩ := Option.map_eq_some_iff.1 h
        exact ⟨more, heq.symm, hmore⟩
      | succ owed =>
        simp only [howed, List.nil_append] at h
        exact h
    · simp only [scanFrom, step, if_neg hrange, List.cons_append, undamaged] at h
      cases h

/-- Bytes begin with those of the first of some characters, and what is behind them is read as the
others. -/
def Begins (bytes : List UInt8) (cs : List Char) : Prop :=
  ∃ c more rest, cs = c :: more ∧ bytes = encodeChar c ++ rest ∧
    undamaged (scanFrom none rest) = some more

/-- Bytes without damage behind the first byte of three begin with the character of the three. -/
theorem begins_three {b low high : UInt8} {bytes : List UInt8} {cs : List Char}
    (hb : 0xE0 ≤ b.toNat ∧ b.toNat ≤ 0xEF)
    (hlow : 0x80 ≤ low.toNat ∧ (b.toNat = 0xE0 → 0xA0 ≤ low.toNat))
    (hhigh : high.toNat ≤ 0xBF ∧ (b.toNat = 0xED → high.toNat ≤ 0x9F))
    (h : undamaged (scanFrom (some ⟨b.toNat - 0xE0, 1, low, high⟩) bytes) = some cs) :
    Begins (b :: bytes) cs := by
  obtain ⟨second, rest, rfl, hlow2, hhigh2, hopen⟩ := exists_of_undamaged_open h
  obtain ⟨third, rest, rfl, hlow3, hhigh3, more, rfl, hmore⟩ := exists_of_undamaged_open hopen
  dsimp only at hlow2 hhigh2
  refine ⟨_, more, rest, rfl, ?_, hmore⟩
  rw [encodeChar_three hb ⟨by omega, by omega⟩ ⟨hlow3, hhigh3⟩ (by omega) (by omega)]
  rfl

/-- Bytes without damage behind the first byte of four begin with the character of the four. -/
theorem begins_four {b low high : UInt8} {bytes : List UInt8} {cs : List Char}
    (hb : 0xF0 ≤ b.toNat ∧ b.toNat ≤ 0xF4)
    (hlow : 0x80 ≤ low.toNat ∧ (b.toNat = 0xF0 → 0x90 ≤ low.toNat))
    (hhigh : high.toNat ≤ 0xBF ∧ (b.toNat = 0xF4 → high.toNat ≤ 0x8F))
    (h : undamaged (scanFrom (some ⟨b.toNat - 0xF0, 2, low, high⟩) bytes) = some cs) :
    Begins (b :: bytes) cs := by
  obtain ⟨second, rest, rfl, hlow2, hhigh2, hopen⟩ := exists_of_undamaged_open h
  obtain ⟨third, rest, rfl, hlow3, hhigh3, hopen⟩ := exists_of_undamaged_open hopen
  obtain ⟨fourth, rest, rfl, hlow4, hhigh4, more, rfl, hmore⟩ := exists_of_undamaged_open hopen
  dsimp only at hlow2 hhigh2
  refine ⟨_, more, rest, rfl, ?_, hmore⟩
  rw [encodeChar_four hb ⟨by omega, by omega⟩ ⟨hlow3, hhigh3⟩ ⟨hlow4, hhigh4⟩ (by omega)
    (by omega)]
  rfl

/-- Bytes without damage begin with those of the first character that they are read as. -/
theorem begins_of_undamaged {b : UInt8} {bytes : List UInt8} {cs : List Char}
    (h : undamaged (scanFrom none (b :: bytes)) = some cs) : Begins (b :: bytes) cs := by
  -- one case for each way in which a first byte opens a character or stands alone
  simp only [scanFrom, step, begin] at h
  split_ifs at h with h1 h2 h3 h4 h5 h6 h7 h8
  · simp only [List.cons_append, List.nil_append, undamaged] at h
    obtain ⟨more, hmore, rfl⟩ := Option.map_eq_some_iff.1 h
    refine ⟨_, more, bytes, rfl, ?_, hmore⟩
    have hvalue : (Char.ofNat b.toNat).toNat = b.toNat := toNat_ofNat (by omega)
    simp only [encodeChar, hvalue]
    rw [if_pos h1, UInt8.ofNat_toNat]
    rfl
  · obtain ⟨second, rest, rfl, hlow, hhigh, more, rfl, hmore⟩ := exists_of_undamaged_open h
    refine ⟨_, more, rest, rfl, ?_, hmore⟩
    rw [encodeChar_two h2 ⟨hlow, hhigh⟩]
    rfl
  · rw [show (0 : Nat) = b.toNat - 0xE0 by omega] at h
    exact begins_three (by omega) ⟨by decide, fun _ => by decide⟩ ⟨by decide, by omega⟩ h
  · rw [show (0xD : Nat) = b.toNat - 0xE0 by omega] at h
    exact begins_three (by omega) ⟨by decide, by omega⟩ ⟨by decide, fun _ => by decide⟩ h
  · exact begins_three (by omega) ⟨by decide, by omega⟩ ⟨by decide, by omega⟩ h
  · rw [show (0 : Nat) = b.toNat - 0xF0 by omega] at h
    exact begins_four (by omega) ⟨by decide, fun _ => by decide⟩ ⟨by decide, by omega⟩ h
  · exact begins_four (by omega) ⟨by decide, by omega⟩ ⟨by decide, by omega⟩ h
  · rw [show (4 : Nat) = b.toNat - 0xF0 by omega] at h
    exact begins_four (by omega) ⟨by decide, by omega⟩ ⟨by decide, fun _ => by decide⟩ h
  · cases h

/-- Bytes without damage are the bytes of the characters that they are read as. -/
theorem eq_encodeChars_of_undamaged {cs : List Char} {bytes : List UInt8}
    (h : undamaged (scanFrom none bytes) = some cs) : bytes = encodeChars cs := by
  induction cs generalizing bytes with
  | nil =>
    cases bytes with
    | nil => rfl
    | cons b bytes =>
      obtain ⟨c, more, rest, hcs, -, -⟩ := begins_of_undamaged h
      cases hcs
  | cons c cs ih =>
    cases bytes with
    | nil => cases h
    | cons b bytes =>
      obtain ⟨c', more, rest, hcs, hbytes, hmore⟩ := begins_of_undamaged h
      obtain ⟨rfl, rfl⟩ := List.cons.inj hcs
      rw [hbytes, encodeChars_cons, ← ih hmore]

/-- Bytes that are UTF-8 throughout are the bytes of their text. -/
theorem eq_encode_of_decode? {bytes : List UInt8} {s : String} (h : decode? bytes = some s) :
    bytes = encode s := by
  obtain ⟨cs, hcs, rfl⟩ := Option.map_eq_some_iff.1 h
  rw [encode, String.toList_ofList]
  exact eq_encodeChars_of_undamaged hcs

end RobotSoccer.Utf8
