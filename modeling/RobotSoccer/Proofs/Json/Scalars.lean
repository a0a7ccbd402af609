import RobotSoccer.Json.Codec
import RobotSoccer.Proofs.Json.NumberText
import RobotSoccer.Proofs.Json.QuotedText

/-!
# What readers take for a value

`Reads` says that a reader takes exactly some bytes for a value, whatever stands apart behind
them. Here are the bytes of texts, numbers, truth values and null, for the readers that ask for
one type and for the reader of any value.
-/

namespace RobotSoccer.Reader

variable {α β : Type}

/-- Whether bytes start with something that can be the first byte of a value. -/
def Opens (bytes : Bytes) : Prop :=
  ∃ b rest, bytes = b :: rest ∧ Ascii.isBlank b = false ∧ b ≠ Ascii.closeBracket

/-- A reader takes exactly these bytes for a value, whatever stands apart behind them. -/
structure Reads (read : Reader α) (bytes : Bytes) (value : α) : Prop where
  /-- The bytes start with no blank and no end of an array. -/
  opens : Opens bytes
  /-- The reader gives the value and what is behind the bytes. -/
  reads : ∀ rest, Apart rest → read (bytes ++ rest) = .ok (value, rest)

/-- A value that is read may be turned into another one. -/
theorem Reads.map {read : Reader α} {bytes : Bytes} {value : α} (f : α → β)
    (h : Reads read bytes value) :
    Reads (fun bytes => (read bytes).map fun found => (f found.1, found.2)) bytes (f value) where
  opens := h.opens
  reads := by
    intro rest hrest
    rw [h.reads rest hrest]
    rfl

/-- Bytes that are read as a value spell that value when nothing is behind them. -/
theorem Reads.whole {read : Reader α} {bytes : Bytes} {value : α} (h : Reads read bytes value) :
    Reader.whole read bytes = .ok value := by
  have hread := h.reads [] apart_nil
  rw [List.append_nil] at hread
  rw [Reader.whole, hread]
  rfl

/-- A byte that is no blank is not skipped. -/
theorem skipBlank_cons {b : UInt8} (rest : Bytes) (h : Ascii.isBlank b = false) :
    skipBlank (b :: rest) = b :: rest :=
  List.dropWhile_cons_of_neg (by simp [h])

/-- The bytes of a text open a value. -/
theorem opens_quotedChars (s : String) : Opens (Utf8.encodeChars (Json.quotedChars s)) := by
  rw [encodeChars_quotedChars]
  exact ⟨Ascii.quote, _, rfl, rfl, by decide⟩

/-- A byte that starts a number is no blank and starts nothing else. -/
theorem not_blank_of_startsNumber {b : UInt8} (h : startsNumber b = true) :
    Ascii.isBlank b = false ∧ b ≠ Ascii.closeBracket ∧ b ≠ Ascii.openBracket ∧
      b ≠ Ascii.openBrace ∧ b ≠ Ascii.quote ∧ b ≠ Ascii.lowerN ∧ b ≠ Ascii.lowerT ∧
      b ≠ Ascii.lowerF := by
  have hother {c : UInt8} (hc : startsNumber c = false) : b ≠ c := by
    rintro rfl
    rw [h] at hc
    cases hc
  refine ⟨?_, hother rfl, hother rfl, hother rfl, hother rfl, hother rfl, hother rfl, hother rfl⟩
  simp only [Ascii.isBlank, Bool.or_eq_false_iff, beq_eq_false_iff_ne]
  exact ⟨⟨⟨hother rfl, hother rfl⟩, hother rfl⟩, hother rfl⟩

/-- What is read as a number starts as one. -/
theorem exists_cons_of_number {bytes rest : Bytes} {value : NumberValue}
    (h : number bytes = .ok (value, rest)) :
    ∃ b more, bytes = b :: more ∧ startsNumber b = true := by
  cases bytes with
  | nil => cases h
  | cons b more =>
    refine ⟨b, more, rfl, ?_⟩
    by_cases hminus : b = Ascii.minus
    · subst hminus
      rfl
    · cases hdigit : Ascii.isDigit b with
      | true => rw [startsNumber, hdigit, Bool.or_true]
      | false =>
        have htake : (b :: more).takeWhile Ascii.isDigit = [] :=
          List.takeWhile_cons_of_neg (by simp [hdigit])
        have hdrop : (b :: more).dropWhile Ascii.isDigit = b :: more :=
          List.dropWhile_cons_of_neg (by simp [hdigit])
        simp only [number, numeral, if_neg hminus, unsigned, wholeDigits, digits, htake, hdrop]
          at h
        cases h

/-- Reading a number of any form takes the bytes that a number is read from. -/
theorem reads_anyNumber {bytes : Bytes} {value : NumberValue}
    (h : ∀ rest, Apart rest → number (bytes ++ rest) = .ok (value, rest)) :
    Reads anyNumber bytes value := by
  have hstart := h [] apart_nil
  rw [List.append_nil] at hstart
  obtain ⟨b, more, rfl, hb⟩ := exists_cons_of_number hstart
  obtain ⟨hblank, hclose, -⟩ := not_blank_of_startsNumber hb
  constructor
  · exact ⟨b, more, rfl, hblank, hclose⟩
  · intro rest hrest
    have hread := h rest hrest
    rw [List.cons_append] at hread ⊢
    rw [anyNumber, skipBlank_cons _ hblank]
    dsimp only
    rw [if_pos hb, hread]

/-- A finite double is read as its text is. -/
theorem reads_double {x : Float} (h : x.isFinite = true) :
    Reads double (Utf8.encodeChars (Json.floatChars x)) (Number.reread x) := by
  rw [Json.floatChars, if_pos h]
  have hread := reads_anyNumber fun _ hrest => number_numberText h hrest
  exact ⟨hread.opens, (hread.map NumberValue.toFloat).reads⟩

/-- A whole number under a bound of at most 64 bits is read as it was written. -/
theorem reads_natural {n bound : Nat} (h : n < bound) (hbound : bound ≤ 0x10000000000000000) :
    Reads (natural bound) (Utf8.encodeChars (Number.integerText n)) n := by
  have hread := reads_anyNumber fun _ hrest =>
    number_integerText (n := n) (by omega) (by omega) hrest
  constructor
  · exact hread.opens
  · intro rest hrest
    rw [natural, hread.reads rest hrest]
    dsimp only
    rw [if_pos ⟨Int.natCast_nonneg n, Int.ofNat_lt.2 h⟩]
    rfl

/-- A byte is read as it was written. -/
theorem reads_byte (n : UInt8) : Reads Codec.byte.read (Codec.byte.write n).toBytes n := by
  have hlt : n.toNat < 0x100 := n.toNat_lt
  have hread := (reads_natural hlt (by decide)).map UInt8.ofNat
  rw [UInt8.ofNat_toNat] at hread
  exact hread

/-- A text is read as it was written. -/
theorem reads_text (s : String) : Reads text (Utf8.encodeChars (Json.quotedChars s)) s := by
  constructor
  · exact opens_quotedChars s
  · intro rest _
    rw [encodeChars_quotedChars, text]
    rw [List.cons_append, skipBlank_cons _ rfl]
    dsimp only
    rw [if_pos rfl, List.append_assoc]
    exact quotation_quotedChars s rest

/-- A fixed word is taken from in front of what follows it. -/
theorem word_append (letters rest : Bytes) : word letters (letters ++ rest) = .ok rest := by
  induction letters with
  | nil => rfl
  | cons b letters ih =>
    rw [List.cons_append]
    unfold word expect
    dsimp only
    rw [if_pos rfl]
    exact ih

/-- A truth value is read as it was written. -/
theorem reads_boolean (b : Bool) : Reads boolean (Json.toBytes (.bool b)) b := by
  cases b with
  | true =>
    constructor
    · exact ⟨Ascii.lowerT, afterT, rfl, rfl, by decide⟩
    · intro rest _
      change (word afterT (afterT ++ rest)).map (true, ·) = _
      rw [word_append]
      rfl
  | false =>
    constructor
    · exact ⟨Ascii.lowerF, afterF, rfl, rfl, by decide⟩
    · intro rest _
      change (word afterF (afterF ++ rest)).map (false, ·) = _
      rw [word_append]
      rfl

/-- Null is read as nothing where a value may be missing. -/
theorem reads_nullable_none (read : Reader α) :
    Reads (nullable read) (Json.toBytes .null) none := by
  constructor
  · exact ⟨Ascii.lowerN, afterN, rfl, rfl, by decide⟩
  · intro rest _
    change (word afterN (afterN ++ rest)).map (none, ·) = _
    rw [word_append]
    rfl

/-- A value that does not start as null is read where it may be missing. -/
theorem Reads.nullable_some {read : Reader α} {bytes : Bytes} {value : α}
    (h : Reads read bytes value) (hnull : bytes.head? ≠ some Ascii.lowerN) :
    Reads (nullable read) bytes (some value) := by
  constructor
  · exact h.opens
  · intro rest hrest
    have hread := h.reads rest hrest
    obtain ⟨b, more, rfl, hblank, -⟩ := h.opens
    have hb : b ≠ Ascii.lowerN := fun heq => hnull (heq ▸ rfl)
    rw [List.cons_append] at hread ⊢
    rw [nullable, skipBlank_cons _ hblank]
    dsimp only
    rw [if_neg hb, hread]
    rfl

end RobotSoccer.Reader
