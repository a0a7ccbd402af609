import RobotSoccer.Proofs.Json.Scalars

/-!
# Scalars are read back where any value may stand

The reader of any value sees by the first byte what is written and gives it back. A double comes back
as its text is read; one that is not finite was written as null and comes back as null.
-/

namespace RobotSoccer

/-- A double, or null in place of one that is not finite. -/
def Json.ofFloat (x : Float) : Json := if x.isFinite then .float x else .null

namespace Reader

/-- A scalar is taken by its first byte, at any depth. -/
theorem value_scalar {b : UInt8} (depth : Nat) (rest : Bytes) (hblank : Ascii.isBlank b = false)
    (harray : b ≠ Ascii.openBracket) (hobject : b ≠ Ascii.openBrace) :
    value depth (b :: rest) = scalar b rest := by
  rw [value.eq_def]
  dsimp only
  rw [skipBlank_cons _ hblank]
  dsimp only
  rw [if_neg harray, if_neg hobject]

/-- A text is read as that text. -/
theorem reads_value_str (depth : Nat) (s : String) :
    Reads (value depth) (Json.toBytes (.str s)) (.str s) := by
  have hwritten := encodeChars_quotedChars s
  constructor
  · exact opens_quotedChars s
  · intro rest _
    change value depth (Utf8.encodeChars (Json.quotedChars s) ++ rest) = _
    rw [hwritten, List.cons_append, value_scalar depth _ rfl (by decide) (by decide)]
    rw [scalar]
    rw [if_neg (by decide), if_neg (by decide), if_neg (by decide), if_pos rfl, List.append_assoc]
    change (quotation (_ ++ Ascii.quote :: rest)).map _ = _
    rw [quotation_quotedChars]
    rfl

/-- Null is read as null. -/
theorem reads_value_null (depth : Nat) : Reads (value depth) (Json.toBytes .null) .null := by
  constructor
  · exact ⟨Ascii.lowerN, afterN, rfl, rfl, by decide⟩
  · intro rest _
    change value depth (Ascii.lowerN :: (afterN ++ rest)) = _
    rw [value_scalar depth _ rfl (by decide) (by decide)]
    rw [scalar, if_pos rfl, word_append]
    rfl

/-- A truth value is read as that truth value. -/
theorem reads_value_bool (depth : Nat) (b : Bool) :
    Reads (value depth) (Json.toBytes (.bool b)) (.bool b) := by
  cases b with
  | true =>
    constructor
    · exact ⟨Ascii.lowerT, afterT, rfl, rfl, by decide⟩
    · intro rest _
      change value depth (Ascii.lowerT :: (afterT ++ rest)) = _
      rw [value_scalar depth _ rfl (by decide) (by decide)]
      rw [scalar, if_neg (by decide), if_pos rfl, word_append]
      rfl
  | false =>
    constructor
    · exact ⟨Ascii.lowerF, afterF, rfl, rfl, by decide⟩
    · intro rest _
      change value depth (Ascii.lowerF :: (afterF ++ rest)) = _
      rw [value_scalar depth _ rfl (by decide) (by decide)]
      rw [scalar, if_neg (by decide), if_neg (by decide), if_pos rfl, word_append]
      rfl

/-- A number as a value: whole or not. -/
def numberJson : NumberValue → Json
  | .int n => .int n
  | .float x => .float x

/-- The bytes that a number is read from are read as the value that is this number. -/
theorem reads_value_number {bytes : Bytes} {found : NumberValue} (depth : Nat)
    (h : ∀ rest, Apart rest → number (bytes ++ rest) = .ok (found, rest)) :
    Reads (value depth) bytes (numberJson found) := by
  have hstart := h [] apart_nil
  rw [List.append_nil] at hstart
  obtain ⟨b, more, rfl, hb⟩ := exists_cons_of_number hstart
  obtain ⟨hblank, hclose, harray, hobject, hquote, hnull, htrue, hfalse⟩ :=
    not_blank_of_startsNumber hb
  constructor
  · exact ⟨b, more, rfl, hblank, hclose⟩
  · intro rest hrest
    have hread := h rest hrest
    rw [List.cons_append] at hread ⊢
    rw [value_scalar depth _ hblank harray hobject, scalar]
    rw [if_neg hnull, if_neg htrue, if_neg hfalse, if_neg hquote, if_pos hb, hread]
    cases found <;> rfl

/-- A double is read as its text is when it is finite and as null when it is not. -/
theorem reads_value_float (depth : Nat) (x : Float) :
    Reads (value depth) (Json.toBytes (.float x)) (Json.ofFloat (Number.reread x)) := by
  have hchars : Json.toBytes (.float x) = Utf8.encodeChars (Json.floatChars x) := rfl
  rw [Json.ofFloat]
  cases hfinite : x.isFinite with
  | true =>
    rw [hchars, Json.floatChars, hfinite, Number.isFinite_reread hfinite]
    exact reads_value_number depth fun rest hrest => number_numberText hfinite hrest
  | false =>
    rw [hchars, Json.floatChars, Number.reread_of_not_finite hfinite, hfinite]
    exact reads_value_null depth

/-- A whole number that fits 64 bits is read as that number. -/
theorem reads_value_int (depth : Nat) {n : Int} (hlow : -0x8000000000000000 ≤ n)
    (hhigh : n < 0x10000000000000000) :
    Reads (value depth) (Json.toBytes (.int n)) (.int n) := by
  have hread := reads_value_number depth fun _ hrest => number_integerText hlow hhigh hrest
  exact hread

end Reader

end RobotSoccer
