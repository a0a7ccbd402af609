import RobotSoccer.Proofs.Json.Recognized
import RobotSoccer.Proofs.Json.Values

/-!
# Which bytes are a value of any shape

A value is a scalar, an array of values or an object of values, down to a limit of nesting. Its form
is put together, one level around another, from the forms of scalars, lists and maps, and the reader
of any value understands and recognizes it, by induction on the limit. A truth value and a whole
number can be written in one way only.
-/

namespace RobotSoccer

namespace Form

open Reader

/-- Scalars are null, truth values, numbers and texts. -/
inductive scalar : Form Json
  /-- The word for nothing. -/
  | null : scalar .null (Ascii.lowerN :: afterN)
  /-- A truth value. -/
  | boolean {value : Bool} {bytes : Bytes} (h : boolean value bytes) : scalar (.bool value) bytes
  /-- A number that has a meaning. -/
  | number {value : NumberValue} {bytes : Bytes} (h : number value bytes) :
    scalar (numberJson value) bytes
  /-- A text. -/
  | text {s : String} {bytes : Bytes} (h : text s bytes) : scalar (.str s) bytes

/-- A value is a scalar, or an array or an object of values of some form. -/
inductive level (inner : Form Json) : Form Json
  /-- A scalar. -/
  | scalar {value : Json} {bytes : Bytes} (h : scalar value bytes) : level inner value bytes
  /-- An array of values. -/
  | arr {values : List Json} {bytes : Bytes} (h : list inner values bytes) :
    level inner (.arr values) bytes
  /-- An object of values; of those with one name the last counts. -/
  | obj {found : Dict Json} {bytes : Bytes} (h : dict inner found bytes) :
    level inner (.obj found.entries) bytes

/-- Values with at most so many levels of arrays and objects. -/
def json : Nat → Form Json
  | 0 => scalar
  | depth + 1 => level (json depth)

/-- A scalar is a value at any limit. -/
theorem scalar.json {value : Json} {bytes : Bytes} (h : scalar value bytes) (depth : Nat) :
    Form.json depth value bytes := by
  cases depth with
  | zero => exact h
  | succ depth => exact .scalar h

/-- A value that is no array and no object is a scalar at any limit. -/
theorem scalar_of_json {depth : Nat} {value : Json} {bytes : Bytes} (h : json depth value bytes)
    (harr : ∀ items, value ≠ .arr items) (hobj : ∀ members, value ≠ .obj members) :
    scalar value bytes := by
  cases depth with
  | zero => exact h
  | succ depth =>
    cases h with
    | scalar h => exact h
    | arr _ => exact absurd rfl (harr _)
    | obj _ => exact absurd rfl (hobj _)

/-- The bytes of the word for what is the case and of the word for what is not. -/
def boolWord : Bool → Bytes
  | true => [0x74, 0x72, 0x75, 0x65]
  | false => [0x66, 0x61, 0x6C, 0x73, 0x65]

/-- A value that is a truth value is written as its word. -/
theorem json_bool_iff {depth : Nat} {value : Bool} {bytes : Bytes} :
    json depth (.bool value) bytes ↔ bytes = boolWord value := by
  constructor
  · intro h
    have hscalar := scalar_of_json h nofun nofun
    generalize hfound : Json.bool value = found at hscalar
    cases hscalar with
    | null => cases hfound
    | boolean h =>
      cases hfound
      cases h <;> rfl
    | @number number _ _ => cases number <;> cases hfound
    | text _ => cases hfound
  · rintro rfl
    cases value with
    | true => exact (scalar.boolean .true).json depth
    | false => exact (scalar.boolean .false).json depth

/-- A value that is a whole number of 64 bits is written as its text. -/
theorem json_int_iff {depth : Nat} {n : Int} {bytes : Bytes} (hlow : -0x8000000000000000 ≤ n)
    (hhigh : n < 0x10000000000000000) :
    json depth (.int n) bytes ↔ bytes = Utf8.encodeChars (Number.integerText n) := by
  constructor
  · intro h
    have hscalar := scalar_of_json h nofun nofun
    generalize hfound : Json.int n = found at hscalar
    cases hscalar with
    | null => cases hfound
    | boolean _ => cases hfound
    | @number number _ h =>
      cases number with
      | int m =>
        cases hfound
        exact eq_integerText h
      | float x => cases hfound
    | text _ => cases hfound
  · rintro rfl
    obtain ⟨said, hform, hvalue⟩ := numberForm_integerText hlow hhigh
    exact (scalar.number (.spelled hform hvalue)).json depth

end Form

namespace Reader

variable {α κ σ τ : Type} {bytes rest : Bytes}

open Json

/-- Members that are taken in alike are gathered alike. -/
theorem membersFrom_map {name : Reader κ} {entry : σ → κ → Reader σ} {other : τ → κ → Reader τ}
    (f : σ → τ) (h : ∀ gathered found bytes, other (f gathered) found bytes =
      (entry gathered found bytes).map fun read => (f read.1, read.2))
    (count : Nat) (first : Bool) (gathered : σ) (bytes : Bytes) :
    membersFrom name other count first (f gathered) bytes =
      (membersFrom name entry count first gathered bytes).map fun read => (f read.1, read.2) := by
  induction count generalizing first gathered bytes with
  | zero => rfl
  | succ count ih =>
    unfold membersFrom
    cases skipBlank bytes with
    | nil => rfl
    | cons b more =>
      dsimp only
      by_cases hclose : b = Ascii.closeBrace
      · rw [if_pos hclose, if_pos hclose]
        rfl
      · rw [if_neg hclose, if_neg hclose]
        generalize (if first then key name (b :: more)
          else if b = Ascii.comma then key name more else .error .malformed) = named
        cases named with
        | error fault => rfl
        | ok named =>
          dsimp only
          rw [h]
          cases entry gathered named.1 named.2 with
          | error fault => rfl
          | ok taken => exact ih false taken.1 taken.2

/-- The members of an object are gathered as the entries of a map are. -/
theorem members_memberInto (read : Reader α) (bytes : Bytes) :
    members quotation (memberInto read) [] bytes =
      (members quotation (entryInto read) Dict.empty bytes).map fun found =>
        (found.1.entries, found.2) := by
  refine membersFrom_map Dict.entries (fun gathered key bytes => ?_) _ true Dict.empty bytes
  unfold memberInto entryInto
  cases valueOf read bytes <;> rfl

/-- An array is read item by item, one level deeper. -/
theorem value_array (depth : Nat) (bytes : Bytes) :
    value (depth + 1) (Ascii.openBracket :: bytes) =
      (items (value depth) bytes).map fun found => (.arr found.1, found.2) := by
  rw [value.eq_def]
  rfl

/-- An object is read member by member, one level deeper. -/
theorem value_object (depth : Nat) (bytes : Bytes) :
    value (depth + 1) (Ascii.openBrace :: bytes) =
      (members quotation (entryInto (value depth)) Dict.empty bytes).map fun found =>
        (.obj found.1.entries, found.2) := by
  rw [value.eq_def]
  change (members quotation (memberInto (value depth)) [] bytes).map _ = _
  rw [members_memberInto]
  cases members quotation (entryInto (value depth)) Dict.empty bytes <;> rfl

/-- A text is read where any value may stand, however it is spelled. -/
theorem reads_value_spelled (depth : Nat) {s : String} (h : TextForm s bytes) :
    Reads (value depth) bytes (.str s) := by
  obtain ⟨content, rfl, hread⟩ := names_textForm h
  refine ⟨⟨Ascii.quote, content, rfl, rfl, by decide⟩, fun rest _ => ?_⟩
  rw [List.cons_append, value_scalar depth _ rfl (by decide) (by decide), scalar]
  rw [if_neg (by decide), if_neg (by decide), if_neg (by decide), if_pos rfl, hread]
  rfl

/-- Scalars are read where any value may stand. -/
theorem reads_value_of_scalar (depth : Nat) {found : Json} (h : Form.scalar found bytes) :
    Reads (value depth) bytes found := by
  cases h with
  | null => exact reads_value_null depth
  | boolean h =>
    cases h with
    | true => exact reads_value_bool depth true
    | false => exact reads_value_bool depth false
  | number h =>
    cases h with
    | spelled h hvalue =>
      exact reads_value_number depth fun rest hrest => h.number_append hvalue hrest
  | text h => exact reads_value_spelled depth h

/-- An array is read where any value may stand, as the list of its items is. -/
theorem Reads.value_arr {depth : Nat} {values : List Json}
    (h : Reads (list (value depth)) (Ascii.openBracket :: bytes) values) :
    Reads (value (depth + 1)) (Ascii.openBracket :: bytes) (.arr values) := by
  refine ⟨h.opens, fun rest hrest => ?_⟩
  have hread := h.reads rest hrest
  rw [List.cons_append, list, opening_cons _ rfl] at hread
  rw [List.cons_append, value_array]
  exact congrArg (Except.map fun found => (Json.arr found.1, found.2)) hread

/-- An object is read where any value may stand, as the map of its members is. -/
theorem Reads.value_obj {depth : Nat} {found : Dict Json}
    (h : Reads (dict (value depth)) (Ascii.openBrace :: bytes) found) :
    Reads (value (depth + 1)) (Ascii.openBrace :: bytes) (.obj found.entries) := by
  refine ⟨h.opens, fun rest hrest => ?_⟩
  have hread := h.reads rest hrest
  rw [List.cons_append, dict, opening_cons _ rfl] at hread
  rw [List.cons_append, value_object]
  exact congrArg (Except.map fun found => (Json.obj found.1.entries, found.2)) hread

/-- Values are understood, down to the limit of nesting. -/
theorem understands_value (depth : Nat) : Understands (value depth) (.json depth) := by
  refine ⟨passesBlanks_value depth, ?_⟩
  induction depth with
  | zero => exact fun h => reads_value_of_scalar 0 h
  | succ depth ih =>
    have hinner : Understands (value depth) (.json depth) := ⟨passesBlanks_value depth, ih⟩
    intro found bytes h
    cases h with
    | scalar h => exact reads_value_of_scalar _ h
    | arr h =>
      have hread := hinner.list.reads h
      cases h with
      | array _ harray =>
        cases harray with
        | empty _ => exact hread.value_arr
        | items _ _ => exact hread.value_arr
    | obj h =>
      have hread := hinner.dict.reads h
      cases h with
      | object _ hobject =>
        cases hobject with
        | empty _ => exact hread.value_obj
        | members _ _ _ _ => exact hread.value_obj

/-- A value that a fixed word stands for is read where the word stands. -/
theorem eq_of_word_map {letters : List UInt8} {value found : α}
    (h : (word letters bytes).map (value, ·) = .ok (found, rest)) :
    found = value ∧ bytes = letters ++ rest := by
  obtain ⟨after, hword, heq⟩ := exists_ok_of_map h
  obtain ⟨rfl, rfl⟩ := Prod.mk.inj heq
  exact ⟨rfl, word_eq_ok_iff.1 hword⟩

/-- What is read by its first byte as a scalar is, with this byte, a form of the scalar. -/
theorem exists_form_of_scalar {b : UInt8} {found : Json} (h : scalar b bytes = .ok (found, rest)) :
    ∃ taken, b :: bytes = taken ++ rest ∧ Form.scalar found taken := by
  unfold scalar at h
  by_cases hnull : b = Ascii.lowerN
  · subst hnull
    rw [if_pos rfl] at h
    obtain ⟨rfl, rfl⟩ := eq_of_word_map h
    exact ⟨_, rfl, .null⟩
  rw [if_neg hnull] at h
  by_cases htrue : b = Ascii.lowerT
  · subst htrue
    rw [if_pos rfl] at h
    obtain ⟨rfl, rfl⟩ := eq_of_word_map h
    exact ⟨_, rfl, .boolean .true⟩
  rw [if_neg htrue] at h
  by_cases hfalse : b = Ascii.lowerF
  · subst hfalse
    rw [if_pos rfl] at h
    obtain ⟨rfl, rfl⟩ := eq_of_word_map h
    exact ⟨_, rfl, .boolean .false⟩
  rw [if_neg hfalse] at h
  by_cases hquote : b = Ascii.quote
  · subst hquote
    rw [if_pos rfl] at h
    obtain ⟨got, htext, heq⟩ := exists_ok_of_map h
    obtain ⟨rfl, rfl⟩ := Prod.mk.inj heq
    obtain ⟨taken, hbytes, hform⟩ := exists_textForm_of_quotation htext
    exact ⟨taken, hbytes, .text hform⟩
  rw [if_neg hquote] at h
  by_cases hstart : startsNumber b = true
  · rw [if_pos hstart] at h
    obtain ⟨⟨number, after⟩, hnumber, heq⟩ := exists_ok_of_map h
    obtain ⟨taken, hbytes, hform⟩ := exists_form_of_number hnumber
    have hvalue := Form.scalar.number hform
    cases number with
    | int n => cases heq; exact ⟨taken, hbytes, hvalue⟩
    | float x => cases heq; exact ⟨taken, hbytes, hvalue⟩
  · rw [if_neg hstart] at h
    cases h

/-- No value is nothing. -/
theorem value_nil_ne_ok (depth : Nat) (found : Json × Bytes) : value depth [] ≠ .ok found := by
  intro h
  rw [value.eq_def] at h
  cases h

/-- Values are recognized, down to the limit of nesting. -/
theorem recognizes_value (depth : Nat) : Recognizes (value depth) (.json depth) := by
  induction depth with
  | zero =>
    refine .of_skipped (passesBlanks_value 0) (value_nil_ne_ok 0) ?_
    intro b more found rest hblank h
    rw [value.eq_def] at h
    dsimp only at h
    rw [skipBlank_cons _ hblank] at h
    dsimp only at h
    by_cases harray : b = Ascii.openBracket
    · rw [if_pos harray] at h
      cases h
    · rw [if_neg harray] at h
      by_cases hobject : b = Ascii.openBrace
      · rw [if_pos hobject] at h
        cases h
      · rw [if_neg hobject] at h
        exact exists_form_of_scalar h
  | succ depth ih =>
    refine .of_skipped (passesBlanks_value _) (value_nil_ne_ok _) ?_
    intro b more found rest hblank h
    by_cases harray : b = Ascii.openBracket
    · rw [harray, value_array] at h
      obtain ⟨got, hitems, heq⟩ := exists_ok_of_map h
      obtain ⟨rfl, rfl⟩ := Prod.mk.inj heq
      obtain ⟨taken, hbytes, hlist⟩ := ih.items hitems
      exact ⟨taken, harray ▸ hbytes, .arr hlist⟩
    by_cases hobject : b = Ascii.openBrace
    · rw [hobject, value_object] at h
      obtain ⟨got, hmembers, heq⟩ := exists_ok_of_map h
      obtain ⟨rfl, rfl⟩ := Prod.mk.inj heq
      obtain ⟨taken, hbytes, hdict⟩ := ih.members hmembers
      exact ⟨taken, hobject ▸ hbytes, .obj hdict⟩
    rw [value_scalar _ _ hblank harray hobject] at h
    obtain ⟨taken, hbytes, hscalar⟩ := exists_form_of_scalar h
    exact ⟨taken, hbytes, .scalar hscalar⟩

end Reader

/-- A value is what all bytes spell exactly when they are a form of it with blanks around it, within
the limit of nesting. -/
theorem Json.ofBytes_eq_ok_iff {bytes : Bytes} {found : Json} :
    ofBytes bytes = .ok found ↔ ∃ before taken behind, Reader.Gap before ∧ Reader.Gap behind ∧
      Form.json Reader.nestingLimit found taken ∧ bytes = before ++ (taken ++ behind) :=
  Reader.whole_eq_ok_iff (Reader.understands_value _) (Reader.recognizes_value _)

end RobotSoccer
