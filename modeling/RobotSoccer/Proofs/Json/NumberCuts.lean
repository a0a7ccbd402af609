import RobotSoccer.Proofs.Json.Cuts

/-!
# Numbers that are cut short

What is left of a number text when its end is cut off is no number that has ended, or the text of
one whose parts begin those of the first. A number text that is written of a finite double or of a
whole number keeps a meaning however much of it is cut off.
-/

namespace RobotSoccer

namespace NumberParts

open Reader

/-- The parts of a number text that begin those of another one. -/
inductive Begins : NumberParts → NumberParts → Prop
  /-- Some of the digits before the point. -/
  | whole {digits more : Bytes} {part? : Option Bytes} {power? : Option (Bool × Bytes)} :
    Begins ⟨digits, none, none⟩ ⟨digits ++ more, part?, power?⟩
  /-- All of these, and some of those behind it. -/
  | part {whole digits more : Bytes} {power? : Option (Bool × Bytes)} :
    Begins ⟨whole, some digits, none⟩ ⟨whole, some (digits ++ more), power?⟩
  /-- All of both, and some digits of the power but not all. -/
  | power {whole digits more : Bytes} {part? : Option Bytes} {negative : Bool} (hmore : more ≠ []) :
    Begins ⟨whole, part?, some (negative, digits)⟩ ⟨whole, part?, some (negative, digits ++ more)⟩

variable {parts : NumberParts} {cut more : Bytes} {atEnd : Fault} {negative : Bool}

/-- Some of the digits that follow the grammar are digits. -/
theorem Digits.of_append {digits more : Bytes} (h : Digits (digits ++ more)) (hne : digits ≠ []) :
    Digits digits := ⟨hne, fun b hb => h.2 b (List.mem_append_left more hb)⟩

/-- What begins the bytes of a power has no digits yet, or has some but not all. -/
theorem power_cut {power? : Option (Bool × Bytes)} (hcut : cut ++ more = powerBytes power?)
    (hne : cut ≠ []) :
    (Reader.power atEnd cut = .error atEnd ∧ cut.head? = some Ascii.lowerE) ∨
      ∃ negative digits, digits ≠ [] ∧ power? = some (negative, digits ++ more) ∧
        cut = powerBytes (some (negative, digits)) := by
  cases power? with
  | none => exact absurd (List.append_eq_nil_iff.1 hcut).1 hne
  | some power =>
    obtain ⟨negative, found⟩ := power
    cases cut with
    | nil => exact absurd rfl hne
    | cons letter cut =>
      obtain ⟨rfl, hbehind⟩ := List.cons.inj hcut
      cases cut with
      | nil => exact .inl ⟨rfl, rfl⟩
      | cons sign digits =>
        obtain ⟨rfl, rfl⟩ := List.cons.inj hbehind
        by_cases hdigits : digits = []
        · left
          subst hdigits
          cases negative <;> exact ⟨rfl, rfl⟩
        · exact .inr ⟨negative, digits, hdigits, rfl, rfl⟩

/-- The bytes of parts have some of their digits before the point in front. -/
theorem WellFormed.begins_whole {digits left : Bytes} (h : parts.WellFormed)
    (hsplit : parts.whole = digits ++ left) (hne : digits ≠ []) :
    Begins ⟨digits, none, none⟩ parts ∧ WellFormed ⟨digits, none, none⟩ := by
  obtain ⟨whole, part?, power?⟩ := parts
  obtain rfl : whole = digits ++ left := hsplit
  refine ⟨.whole, h.whole.of_append hne, fun hlead => ?_, fun _ hpart => (nomatch hpart),
    fun _ hpower => (nomatch hpower)⟩
  cases digits with
  | nil => exact hne rfl
  | cons d digits =>
    refine h.lead ⟨hlead.1, ?_⟩
    have hlength := hlead.2
    simp only [List.cons_append, List.length_cons, List.length_append] at hlength ⊢
    omega

/-- The bytes of parts have all of their digits before the point and some of those behind it in
front. -/
theorem WellFormed.begins_part {digits left : Bytes} (h : parts.WellFormed)
    (hsplit : parts.part? = some (digits ++ left)) (hne : digits ≠ []) :
    Begins ⟨parts.whole, some digits, none⟩ parts ∧
      WellFormed ⟨parts.whole, some digits, none⟩ := by
  obtain ⟨whole, part?, power?⟩ := parts
  obtain rfl : part? = some (digits ++ left) := hsplit
  refine ⟨.part, h.whole, h.lead, fun part hpart => ?_, fun _ hpower => (nomatch hpower)⟩
  cases hpart
  exact (h.part _ rfl).of_append hne

/-- The bytes of parts have all of their digits but some of those of the power in front. -/
theorem WellFormed.begins_power {digits left : Bytes} {negative : Bool} (h : parts.WellFormed)
    (hsplit : parts.power? = some (negative, digits ++ left)) (hne : digits ≠ [])
    (hleft : left ≠ []) :
    Begins ⟨parts.whole, parts.part?, some (negative, digits)⟩ parts ∧
      WellFormed ⟨parts.whole, parts.part?, some (negative, digits)⟩ := by
  obtain ⟨whole, part?, power?⟩ := parts
  obtain rfl : power? = some (negative, digits ++ left) := hsplit
  refine ⟨.power hleft, h.whole, h.lead, h.part, fun power hpower => ?_⟩
  cases hpower
  exact (h.power _ rfl).of_append hne

/-- Nothing but a point behind the digits before it is no number that has ended. -/
theorem WellFormed.unsigned_point (h : parts.WellFormed) :
    unsigned atEnd negative (parts.whole ++ [Ascii.point]) = .error atEnd := by
  have hstop : ∀ b ∈ [Ascii.point].head?, Ascii.isDigit b = false := by
    intro b hb
    cases hb
    decide
  rw [unsigned, h.wholeDigits_append atEnd hstop]
  rfl

/-- A power without digits is no end of a number. -/
theorem WellFormed.unsigned_power (h : parts.WellFormed) {power : Bytes}
    (hpower : Reader.power atEnd power = .error atEnd)
    (hletter : power.head? = some Ascii.lowerE) :
    unsigned atEnd negative (parts.whole ++ (partBytes parts.part? ++ power)) = .error atEnd := by
  have hafter : ∀ b ∈ power.head?, Ascii.isDigit b = false ∧ b ≠ Ascii.point := by
    intro b hb
    rw [hletter] at hb
    cases hb
    decide
  have hbehind : ∀ b ∈ (partBytes parts.part? ++ power).head?, Ascii.isDigit b = false := by
    intro b hb
    cases hpart : parts.part? with
    | none =>
      rw [hpart] at hb
      exact (hafter b hb).1
    | some part =>
      rw [hpart] at hb
      cases hb
      decide
  rw [unsigned, h.wholeDigits_append atEnd hbehind]
  dsimp only
  rw [h.fraction_append atEnd hafter]
  dsimp only
  rw [hpower]

/-- What begins the bytes of a number without its sign is no number that has ended, or has parts
that begin those of the number. -/
theorem WellFormed.unsigned_cut (h : parts.WellFormed) (hcut : cut ++ more = parts.bytes)
    (hmore : more ≠ []) :
    unsigned atEnd negative cut = .error atEnd ∨
      ∃ begun, Begins begun parts ∧ begun.WellFormed ∧ cut = begun.bytes := by
  have hwhole {digits left : Bytes} (hsplit : parts.whole = digits ++ left) (hne : digits ≠ []) :
      ∃ begun, Begins begun parts ∧ begun.WellFormed ∧ digits = begun.bytes := by
    obtain ⟨hbegins, hwell⟩ := h.begins_whole hsplit hne
    exact ⟨_, hbegins, hwell, by simp [NumberParts.bytes, partBytes, powerBytes]⟩
  rw [NumberParts.bytes] at hcut
  rcases List.append_eq_append_iff.1 hcut with ⟨left, hsplit, -⟩ | ⟨behind, rfl, htail⟩
  · by_cases hne : cut = []
    · exact .inl (hne ▸ rfl)
    · exact .inr (hwhole hsplit hne)
  by_cases hbehind : behind = []
  · subst hbehind
    rw [List.append_nil]
    exact .inr (hwhole (List.append_nil _).symm h.whole.1)
  rcases List.append_eq_append_iff.1 htail with ⟨power, rfl, hpower⟩ | ⟨left, hpart, -⟩
  · by_cases hne : power = []
    · subst hne
      rw [List.append_nil] at hbehind ⊢
      obtain ⟨part, hpart⟩ : ∃ part, parts.part? = some part := by
        cases hnone : parts.part? with
        | none => rw [hnone] at hbehind; exact absurd rfl hbehind
        | some part => exact ⟨part, rfl⟩
      obtain ⟨hbegins, hwell⟩ :=
        h.begins_part (hpart.trans (congrArg some (List.append_nil part).symm)) (h.part _ hpart).1
      refine .inr ⟨_, hbegins, hwell, ?_⟩
      simp [NumberParts.bytes, hpart, powerBytes]
    · rcases power_cut hpower.symm hne with ⟨hfault, hletter⟩ | ⟨negative, digits, hdigits, hsome,
        rfl⟩
      · exact .inl (h.unsigned_power hfault hletter)
      · obtain ⟨hbegins, hwell⟩ := h.begins_power hsome hdigits hmore
        exact .inr ⟨_, hbegins, hwell, rfl⟩
  · cases hsome : parts.part? with
    | none =>
      rw [hsome] at hpart
      exact absurd (List.append_eq_nil_iff.1 hpart.symm).1 hbehind
    | some part =>
      rw [hsome] at hpart
      cases behind with
      | nil => exact absurd rfl hbehind
      | cons b digits =>
        obtain ⟨rfl, hdigits⟩ := List.cons.inj hpart
        by_cases hne : digits = []
        · exact .inl (hne ▸ h.unsigned_point)
        · obtain ⟨hbegins, hwell⟩ := h.begins_part (hsome.trans (congrArg some hdigits)) hne
          refine .inr ⟨_, hbegins, hwell, ?_⟩
          simp [NumberParts.bytes, partBytes, powerBytes]

/-- Parts that follow the grammar are read as what they say. -/
theorem WellFormed.numeral_signedBytes (h : parts.WellFormed) (atEnd : Fault) (negative : Bool) :
    numeral atEnd (signedBytes negative parts) = .ok (said negative parts, []) := by
  have hread := (NumberForm.parts negative h (powerForm_powerBytes parts.power?)).numeral_append
    atEnd apart_nil
  rw [List.append_nil] at hread
  exact hread

/-- A number text that is cut short is no number that has ended, or says what parts do that begin
its own. -/
theorem WellFormed.numeral_cut (h : parts.WellFormed) (hcut : cut ++ more = signedBytes negative parts)
    (hmore : more ≠ []) :
    numeral atEnd cut = .error atEnd ∨ ∃ begun, Begins begun parts ∧ begun.WellFormed ∧
      numeral atEnd cut = .ok (said negative begun, []) := by
  have hbegun {cut : Bytes} (hcut : cut ++ more = parts.bytes)
      (hread : numeral atEnd ((if negative then [Ascii.minus] else []) ++ cut) =
        unsigned atEnd negative cut) :
      numeral atEnd ((if negative then [Ascii.minus] else []) ++ cut) = .error atEnd ∨
        ∃ begun, Begins begun parts ∧ begun.WellFormed ∧
          numeral atEnd ((if negative then [Ascii.minus] else []) ++ cut) =
            .ok (said negative begun, []) := by
    rcases h.unsigned_cut hcut hmore with hfault | ⟨begun, hbegins, hwell, rfl⟩
    · exact .inl (hread.trans hfault)
    · exact .inr ⟨begun, hbegins, hwell, hwell.numeral_signedBytes atEnd negative⟩
  cases cut with
  | nil => exact .inl rfl
  | cons b cut =>
    cases negative with
    | true =>
      obtain ⟨rfl, hbehind⟩ := List.cons.inj hcut
      exact hbegun hbehind rfl
    | false =>
      refine hbegun hcut ?_
      obtain ⟨d, text, hcons, hdigit⟩ :=
        h.exists_digit_cons (partBytes parts.part? ++ powerBytes parts.power?)
      obtain ⟨rfl, -⟩ := List.cons.inj ((hcut : _ = parts.bytes).trans hcons)
      exact if_neg fun heq => absurd (heq ▸ hdigit) (by decide)

end NumberParts

namespace NumberChars

open NumberParts

/-- The characters of a decimal that is near to a finite double still have a meaning when they are cut
short. -/
theorem Modest.exists_value? {number : NumberChars} {d : Decimal} {begun : NumberParts}
    (h : number.Modest d) (hfinite : d.nearestBits < Binary64.infinityBits)
    (hnumber : number.WellFormed) (hbegins : Begins begun number.parts) (hwell : begun.WellFormed)
    (negative : Bool) : ∃ value, (said negative begun).value? = some value := by
  have hwhole : number.parts.whole.length ≤ 16 :=
    (Utf8.encodeChars_digits hnumber.whole).2.le.trans h.whole
  have hpowers : ∀ found, number.parts.power? = some (false, found) →
      Ascii.digitsValue found ≤ PowerOfTen.greatest := by
    intro found hsome
    obtain ⟨power, hpower, heq⟩ := Option.map_eq_some_iff.1 hsome
    obtain ⟨hsign, rfl⟩ := Prod.mk.inj heq
    have hle := h.power_le hfinite hpower
    have hpos := of_decide_eq_false hsign
    rw [Utf8.digitsValue_encodeChars (Number.digitChars_naturalText _),
      Number.ofDigitChars_naturalText]
    omega
  have hsmall : begun.whole.length ≤ 16 ∧ powerValue begun.power? ≤ 30 := by
    generalize number.parts = parts at hbegins hwhole hpowers
    cases hbegins with
    | @whole digits more _ _ =>
      rw [List.length_append] at hwhole
      exact ⟨(Nat.le_add_right _ _).trans hwhole, by simp [powerValue]⟩
    | part => exact ⟨hwhole, by simp [powerValue]⟩
    | @power whole digits more _ negative hmore =>
      have hten : 10 * Ascii.digitsValue digits ≤ Ascii.digitsValue (digits ++ more) :=
        Ascii.digitsValue_cut hmore
      refine ⟨hwhole, ?_⟩
      cases negative with
      | true =>
        simp only [powerValue, if_true]
        omega
      | false =>
        have hle := hpowers (digits ++ more) rfl
        rw [PowerOfTen.greatest] at hle
        simp only [powerValue, Bool.false_eq_true, if_false]
        omega
  have hvalue : begun.decimal.value < PowerOfTen.limit := calc
    begun.decimal.value < 10 ^ ((begun.whole.length : ℤ) + powerValue begun.power?) := hwell.value_lt
    _ ≤ 10 ^ ((46 : ℕ) : ℤ) := zpow_le_zpow_right₀ (by norm_num) (by omega)
    _ = ((10 ^ 46 : ℕ) : ℚ) := by rw [zpow_natCast, Nat.cast_pow, Nat.cast_ofNat]
    _ ≤ PowerOfTen.limit := Nat.cast_le.2 (by decide +kernel)
  exact hwell.exists_value? hsmall.1 (by rw [Numeral.powerLimit]; omega) hvalue negative

end NumberChars

namespace Reader

open NumberParts

/-- A number text that is cut short is an end of the input, or the number that parts mean that begin
its own, if all such parts have a meaning. -/
theorem anyNumber_cut {parts : NumberParts} {negative : Bool} (h : parts.WellFormed)
    (hvalue : ∀ begun, Begins begun parts → begun.WellFormed →
      ∃ value, (said negative begun).value? = some value)
    {cut more : Bytes} (hcut : cut ++ more = signedBytes negative parts) (hmore : more ≠ []) :
    anyNumber cut = .error .endOfInput ∨ ∃ begun value, Begins begun parts ∧ begun.WellFormed ∧
      (said negative begun).value? = some value ∧ anyNumber cut = .ok (value, []) := by
  cases cut with
  | nil => exact .inl rfl
  | cons b cut =>
    have hnumber : anyNumber (b :: cut) = number (b :: cut) := by
      obtain ⟨c, text, hcons, hstart⟩ :=
        (NumberForm.parts negative h (powerForm_powerBytes parts.power?)).exists_cons
      obtain ⟨rfl, -⟩ := List.cons.inj ((hcut : _ = signedBytes negative parts).trans hcons)
      rw [anyNumber, skipBlank_cons _ (not_blank_of_startsNumber hstart).1]
      exact if_pos hstart
    rw [hnumber, number]
    rcases h.numeral_cut hcut hmore with hfault | ⟨begun, hbegins, hwell, hread⟩
    · exact .inl (by rw [hfault])
    · obtain ⟨value, hmeans⟩ := hvalue begun hbegins hwell
      refine .inr ⟨begun, value, hbegins, hwell, hmeans, ?_⟩
      rw [hread]
      dsimp only
      rw [hmeans]

/-- A finite double that is cut short is an end of the input or another double. -/
theorem tears_double {x : Float} (h : x.isFinite = true) :
    Tears double (Json.toBytes (.float x)) (Number.reread x) where
  toReads := reads_double h
  breaks := by
    obtain ⟨negative, m, q, hshape, hlimit, hlow, hhigh⟩ := Binary64.shape_of_isFinite h
    obtain ⟨text, hchars, hspell, hmodest⟩ :=
      NumberChars.exists_spell_decimalText (Decimal.shortest m q)
    have hfinite : (Decimal.shortest m q).nearestBits < Binary64.infinityBits := by
      rw [Decimal.nearestBits_shortest hlimit hlow hhigh]
      exact Binary64.nearestBits_lt_infinityBits hshape
    have hbytes : Json.toBytes (.float x) = signedBytes negative text.parts := by
      have hfloat : Json.chars (.float x) = Number.numberText x := if_pos h
      rw [Json.toBytes, hfloat, Number.numberText_eq hshape hchars]
    refine Breaks.map (fun cut more hcut hmore => ?_) NumberValue.toFloat
    rw [hbytes] at hcut
    have hmeaning (begun : NumberParts) (hbegins : Begins begun text.parts)
        (hwell : begun.WellFormed) : ∃ value, (said negative begun).value? = some value :=
      hmodest.exists_value? hfinite hspell.wellFormed hbegins hwell negative
    refine (anyNumber_cut hspell.wellFormed.parts hmeaning hcut hmore).imp_right fun hread => ?_
    obtain ⟨begun, value, -, -, -, hread⟩ := hread
    exact ⟨value, hread⟩

/-- A whole number under a bound that is cut short is an end of the input or another one under this
bound. -/
theorem tears_natural {n bound : Nat} (h : n < bound) (hbound : bound ≤ 0x10000000000000000) :
    Tears (natural bound) (Json.toBytes (.int n)) n where
  toReads := reads_natural h hbound
  breaks := by
    intro cut more hcut hmore
    have hwell : NumberChars.WellFormed ⟨Number.naturalText n, none, none⟩ := by
      refine ⟨Number.digitChars_naturalText n, Nat.toDigits_ne_nil, fun hzero => ?_,
        fun part hpart => ?_⟩
      · by_cases hn : n = 0
        · rw [hn]
          rfl
        · exact absurd hzero (Number.head?_naturalText (Nat.pos_of_ne_zero hn))
      · cases hpart
    have hbytes : Json.toBytes (.int n) =
        signedBytes false (NumberChars.parts ⟨Number.naturalText n, none, none⟩) := by
      have hchars : Json.chars (.int n) = Number.naturalText n := by
        rw [Json.chars, Number.integerText]
        exact if_neg (by omega)
      rw [signedBytes, ← NumberChars.encodeChars_chars, Json.toBytes, hchars]
      simp [NumberChars.chars]
    have hmeans : ∀ begun, Begins begun (NumberChars.parts ⟨Number.naturalText n, none, none⟩) →
        ∃ value : Nat, value < bound ∧ (said false begun).value? = some (.int value) := by
      intro begun hbegins
      generalize hparts : NumberChars.parts ⟨Number.naturalText n, none, none⟩ = parts at hbegins
      cases hbegins with
      | @whole digits more part? power? =>
        have hwhole : Utf8.encodeChars (Number.naturalText n) = digits ++ more :=
          congrArg NumberParts.whole hparts
        have hle : Ascii.digitsValue digits ≤ n := by
          have hvalue := Utf8.digitsValue_encodeChars (Number.digitChars_naturalText n)
          rw [hwhole, Number.ofDigitChars_naturalText, Ascii.digitsValue_append] at hvalue
          have hten := Nat.le_mul_of_pos_right (Ascii.digitsValue digits)
            (Nat.pow_pos (show 0 < 10 by decide) : 0 < 10 ^ more.length)
          omega
        refine ⟨Ascii.digitsValue digits, by omega, ?_⟩
        have hgather : Numeral.gather 0 digits = (Ascii.digitsValue digits, 0) :=
          Numeral.gather_zero_of_lt (by omega)
        unfold Numeral.value? said
        dsimp only
        rw [hgather, if_pos ⟨rfl, rfl⟩]
        rfl
      | part => cases hparts
      | power => cases hparts
    rw [hbytes] at hcut
    rw [natural]
    have hmeaning (begun : NumberParts)
        (hbegins : Begins begun (NumberChars.parts ⟨Number.naturalText n, none, none⟩))
        (_ : begun.WellFormed) : ∃ value, (said false begun).value? = some value := by
      obtain ⟨value, -, hvalue⟩ := hmeans begun hbegins
      exact ⟨_, hvalue⟩
    rcases anyNumber_cut hwell.parts hmeaning hcut hmore with
      hfault | ⟨begun, value, hbegins, -, hvalue, hread⟩
    · exact .inl (by rw [hfault])
    · obtain ⟨number, hlt, hnumber⟩ := hmeans begun hbegins
      obtain rfl : NumberValue.int number = value := Option.some.inj (hnumber.symm.trans hvalue)
      refine .inr ⟨number, ?_⟩
      rw [hread]
      dsimp only
      rw [if_pos ⟨Int.natCast_nonneg number, Int.ofNat_lt.2 hlt⟩]
      rfl

end Reader

end RobotSoccer
