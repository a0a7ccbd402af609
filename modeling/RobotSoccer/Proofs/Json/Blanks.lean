import RobotSoccer.Json.Record
import RobotSoccer.Proofs.Json.NumberParts

/-!
# Blanks in front of a value

Every reader looks for the first byte that is no blank, so blanks in front of what it reads make
no difference. This goes for the readers of plain values and of marks, and for every reader that
is put together from others.
-/

namespace RobotSoccer

namespace Reader

variable {α β γ κ σ : Type}

/-- Blanks and nothing else. -/
def Gap (bytes : Bytes) : Prop := ∀ b ∈ bytes, Ascii.isBlank b = true

/-- No bytes are no other bytes than blanks. -/
theorem gap_nil : Gap [] := fun _ hb => absurd hb List.not_mem_nil

variable {gap rest : Bytes}

/-- Leading blanks are skipped whether they come with more of them or not. -/
theorem Gap.skipBlank_append (h : Gap gap) (bytes : Bytes) :
    skipBlank (gap ++ bytes) = skipBlank bytes := List.dropWhile_append_of_pos h

/-- A blank does not go on with a number. -/
theorem Gap.apart_append (h : Gap gap) (hrest : Apart rest) : Apart (gap ++ rest) := by
  cases gap with
  | nil => exact hrest
  | cons b gap =>
    refine apart_cons _ ?_
    have hb := h b List.mem_cons_self
    simp only [Ascii.isBlank, Bool.or_eq_true, beq_iff_eq] at hb
    rcases hb with ((rfl | rfl) | rfl) | rfl <;> rfl

/-- Blanks in front make no difference to a reader. -/
def PassesBlanks (read : Bytes → Except Fault β) : Prop :=
  ∀ gap bytes, Gap gap → read (gap ++ bytes) = read bytes

/-- A reader that changes what another one gives passes over blanks when that one does. -/
theorem PassesBlanks.map {read : Bytes → Except Fault β} (h : PassesBlanks read) (f : β → γ) :
    PassesBlanks fun bytes => (read bytes).map f :=
  fun gap bytes hgap => congrArg (Except.map f) (h gap bytes hgap)

/-- Reading may go on after a reader that passes over blanks. -/
theorem PassesBlanks.bind {read : Bytes → Except Fault β} (h : PassesBlanks read)
    (next : β → Except Fault γ) : PassesBlanks fun bytes => read bytes >>= next :=
  fun gap bytes hgap => congrArg (· >>= next) (h gap bytes hgap)

/-- A mark is found behind blanks. -/
theorem passesBlanks_mark (byte : UInt8) : PassesBlanks (mark byte) := by
  intro gap bytes hgap
  unfold mark
  rw [hgap.skipBlank_append]

/-- The end of the bytes is found behind blanks. -/
theorem passesBlanks_finish : PassesBlanks finish := by
  intro gap bytes hgap
  unfold finish
  rw [hgap.skipBlank_append]

/-- An opening is found behind blanks. -/
theorem passesBlanks_opening (byte : UInt8) : PassesBlanks (opening byte) := by
  intro gap bytes hgap
  unfold opening
  rw [hgap.skipBlank_append]

/-- A truth value is found behind blanks. -/
theorem passesBlanks_boolean : PassesBlanks boolean := by
  intro gap bytes hgap
  unfold boolean
  rw [hgap.skipBlank_append]

/-- A number is found behind blanks. -/
theorem passesBlanks_anyNumber : PassesBlanks anyNumber := by
  intro gap bytes hgap
  unfold anyNumber
  rw [hgap.skipBlank_append]

/-- A double is found behind blanks. -/
theorem passesBlanks_double : PassesBlanks double := passesBlanks_anyNumber.map _

/-- A whole number is found behind blanks. -/
theorem passesBlanks_natural (bound : Nat) : PassesBlanks (natural bound) := by
  intro gap bytes hgap
  unfold natural
  rw [passesBlanks_anyNumber gap bytes hgap]

/-- A text is found behind blanks. -/
theorem passesBlanks_text : PassesBlanks text := by
  intro gap bytes hgap
  unfold text
  rw [hgap.skipBlank_append]

/-- A value that may be missing is found behind blanks. -/
theorem passesBlanks_nullable (read : Reader α) : PassesBlanks (nullable read) := by
  intro gap bytes hgap
  unfold nullable
  rw [hgap.skipBlank_append]

/-- A place in an array is found behind blanks. -/
theorem passesBlanks_slot (first : Bool) (item : Reader α) : PassesBlanks (slot first item) := by
  intro gap bytes hgap
  unfold slot
  rw [hgap.skipBlank_append]

/-- An array of two items is found behind blanks. -/
theorem passesBlanks_two (first : Reader α) (second : Reader β) :
    PassesBlanks (two first second) := (passesBlanks_opening _).bind _

/-- An array of three items is found behind blanks. -/
theorem passesBlanks_three (first : Reader α) (second : Reader β) (third : Reader γ) :
    PassesBlanks (three first second third) := (passesBlanks_opening _).bind _

/-- An array is found behind blanks. -/
theorem passesBlanks_list (item : Reader α) : PassesBlanks (list item) :=
  (passesBlanks_opening _).bind _

/-- A map is found behind blanks. -/
theorem passesBlanks_dict (value : Reader α) : PassesBlanks (dict value) :=
  (passesBlanks_opening _).bind _

/-- The members of an object are found behind blanks. -/
theorem passesBlanks_membersFrom (name : Reader κ) (entry : σ → κ → Reader σ) (count : Nat)
    (first : Bool) (gathered : σ) :
    PassesBlanks (membersFrom name entry count first gathered) := by
  intro gap bytes hgap
  cases count with
  | zero => rfl
  | succ count =>
    unfold membersFrom
    rw [hgap.skipBlank_append]

/-- A value of any shape is found behind blanks. -/
theorem passesBlanks_value (depth : Nat) : PassesBlanks (value depth) := by
  intro gap bytes hgap
  rw [value.eq_def, value.eq_def depth bytes]
  dsimp only
  rw [hgap.skipBlank_append]

/-- A value that nobody asks for is found behind blanks. -/
theorem passesBlanks_skipFrom (depth : Nat) : PassesBlanks (skipFrom depth) := by
  intro gap bytes hgap
  rw [skipFrom.eq_def, skipFrom.eq_def depth bytes]
  dsimp only
  rw [hgap.skipBlank_append]

end Reader

/-- A record is found behind blanks. -/
theorem Record.passesBlanks_read {σ : Type} (record : Record σ) :
    Reader.PassesBlanks record.read := by
  intro gap bytes hgap
  unfold read
  rw [hgap.skipBlank_append]

end RobotSoccer
