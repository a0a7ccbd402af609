import Mathlib.Data.List.TakeWhile
import RobotSoccer.Proofs.Json.Given
import RobotSoccer.Proofs.Json.Skipped

/-!
# How far readers look

A reader takes what it reads from the front of the bytes and looks at what is behind it no further
than at the first byte: a number ends there, and anything else ends of itself. So whatever else
stands behind a value that was read, the same value is read again. Here are the readers of plain
values.
-/

namespace RobotSoccer

namespace Reader

variable {α β : Type} {bytes rest behind : Bytes}

open Json

/-- What a reader takes from the front of some bytes, another one takes too when other bytes are
behind it, as long as these start alike. -/
def Continues (read other : Reader α) : Prop :=
  ∀ bytes value rest, read bytes = .ok (value, rest) → ∃ taken, bytes = taken ++ rest ∧
    ∀ behind : Bytes, behind.head? = rest.head? → other (taken ++ behind) = .ok (value, behind)

/-- What a reader takes from the front of some bytes ends with one certain byte, and another one
takes it too whatever bytes are behind it. -/
def Closes (last : UInt8) (read other : Reader α) : Prop :=
  ∀ bytes value rest, read bytes = .ok (value, rest) → ∃ body, bytes = body ++ last :: rest ∧
    ∀ behind, other (body ++ last :: behind) = .ok (value, behind)

/-- The same for what is taken from so many bytes at most. -/
def ContinuesWithin (limit : Nat) (read other : Reader α) : Prop :=
  ∀ bytes value rest, read bytes = .ok (value, rest) → ∃ taken, bytes = taken ++ rest ∧
    (taken.length ≤ limit → ∀ behind : Bytes, behind.head? = rest.head? →
      other (taken ++ behind) = .ok (value, behind))

/-- What is taken from any count of bytes is taken from so many at most. -/
theorem Continues.within {read other : Reader α} (h : Continues read other) (limit : Nat) :
    ContinuesWithin limit read other := by
  intro bytes value rest hread
  obtain ⟨taken, hbytes, htaken⟩ := h bytes value rest hread
  exact ⟨taken, hbytes, fun _ => htaken⟩

/-- What is taken from so many bytes at most, for each count of them, is taken from any. -/
theorem Continues.of_within {read other : Reader α}
    (h : ∀ limit, ContinuesWithin limit read other) : Continues read other := by
  intro bytes value rest hread
  obtain ⟨taken, hbytes, htaken⟩ := h bytes.length bytes value rest hread
  refine ⟨taken, hbytes, htaken ?_⟩
  rw [hbytes, List.length_append]
  exact Nat.le_add_right _ _

/-- A reader that needs no look at what is behind a value may look at it. -/
theorem Closes.continues {last : UInt8} {read other : Reader α} (h : Closes last read other) :
    Continues read other := by
  intro bytes value rest hread
  obtain ⟨body, hbytes, hbody⟩ := h bytes value rest hread
  refine ⟨body ++ [last], ?_, fun behind _ => ?_⟩
  · rw [hbytes, List.append_assoc]
    rfl
  · rw [List.append_assoc]
    exact hbody behind

/-- Bytes that start alike start alike behind others. -/
theorem head?_append_of_eq (taken : Bytes) (h : behind.head? = rest.head?) :
    (taken ++ behind).head? = (taken ++ rest).head? := by
  rw [List.head?_append, List.head?_append, h]

/-- Bytes that start with some byte still do when what is behind them starts alike. -/
theorem exists_cons_append {b : UInt8} {more taken : Bytes} (hbytes : b :: more = taken ++ rest)
    (h : behind.head? = rest.head?) : ∃ text, taken ++ behind = b :: text := by
  have hhead := head?_append_of_eq taken h
  rw [← hbytes, List.head?_cons] at hhead
  exact List.head?_eq_some_iff.1 hhead

/-- A value that is turned into another one is taken from the same bytes. -/
theorem Continues.map {read other : Reader α} (h : Continues read other) (f : α → β) :
    Continues (fun bytes => (read bytes).map fun found => (f found.1, found.2))
      fun bytes => (other bytes).map fun found => (f found.1, found.2) := by
  intro bytes value rest hread
  obtain ⟨found, hfound, heq⟩ := exists_ok_of_map hread
  obtain ⟨rfl, rfl⟩ := Prod.mk.inj heq
  obtain ⟨taken, hbytes, htaken⟩ := h bytes found.1 found.2 hfound
  refine ⟨taken, hbytes, fun behind hbehind => ?_⟩
  dsimp only
  rw [htaken behind hbehind]
  rfl

/-- A value that is turned into another one closes where it closed. -/
theorem Closes.map {last : UInt8} {read other : Reader α} (h : Closes last read other)
    (f : α → β) :
    Closes last (fun bytes => (read bytes).map fun found => (f found.1, found.2))
      fun bytes => (other bytes).map fun found => (f found.1, found.2) := by
  intro bytes value rest hread
  obtain ⟨found, hfound, heq⟩ := exists_ok_of_map hread
  obtain ⟨rfl, rfl⟩ := Prod.mk.inj heq
  obtain ⟨body, hbytes, hbody⟩ := h bytes found.1 found.2 hfound
  refine ⟨body, hbytes, fun behind => ?_⟩
  dsimp only
  rw [hbody behind]
  rfl

/-- What is behind the leading blanks starts with no blank. -/
theorem not_blank_of_skipBlank {b : UInt8} {more : Bytes} (h : skipBlank bytes = b :: more) :
    Ascii.isBlank b = false := by
  have hhead := List.head?_dropWhile_not Ascii.isBlank bytes
  rw [show bytes.dropWhile Ascii.isBlank = b :: more from h] at hhead
  exact hhead

/-- Bytes are the blanks in front of them and what is behind these. -/
theorem exists_gap (bytes : Bytes) : ∃ gap, Gap gap ∧ bytes = gap ++ skipBlank bytes :=
  ⟨bytes.takeWhile Ascii.isBlank, fun _ hb => List.mem_takeWhile_imp hb,
    List.takeWhile_append_dropWhile.symm⟩

/-- Bytes in which nothing is left are blanks. -/
theorem gap_of_finish {bytes : Bytes} (h : finish bytes = .ok ()) : Gap bytes := by
  unfold finish at h
  cases hskipped : skipBlank bytes with
  | nil =>
    obtain ⟨gap, hgap, hbytes⟩ := exists_gap bytes
    rw [hskipped, List.append_nil] at hbytes
    exact hbytes ▸ hgap
  | cons b more => rw [hskipped] at h; cases h

/-- To see how far a reader looks that passes over blanks it is enough to see what it does at a
byte that is none. -/
theorem ContinuesWithin.of_skipped {limit : Nat} {read other : Reader α}
    (hread : PassesBlanks read) (hother : PassesBlanks other) (hnil : ∀ found, read [] ≠ .ok found)
    (h : ∀ b more value rest, Ascii.isBlank b = false → read (b :: more) = .ok (value, rest) →
      ∃ taken, b :: more = taken ++ rest ∧ (taken.length ≤ limit → ∀ behind : Bytes,
        behind.head? = rest.head? → other (taken ++ behind) = .ok (value, behind))) :
    ContinuesWithin limit read other := by
  intro bytes value rest hvalue
  obtain ⟨gap, hgap, hbytes⟩ := exists_gap bytes
  cases hskipped : skipBlank bytes with
  | nil =>
    rw [hbytes, hskipped, hread gap _ hgap] at hvalue
    exact absurd hvalue (hnil _)
  | cons b more =>
    rw [hskipped] at hbytes
    rw [hbytes, hread gap _ hgap] at hvalue
    obtain ⟨taken, htakes, htaken⟩ :=
      h b more value rest (not_blank_of_skipBlank hskipped) hvalue
    refine ⟨gap ++ taken, ?_, fun hlimit behind hbehind => ?_⟩
    · rw [hbytes, htakes, List.append_assoc]
    · rw [List.length_append] at hlimit
      rw [List.append_assoc, hother gap _ hgap]
      exact htaken (by omega) behind hbehind

/-- The same without a limit. -/
theorem Continues.of_skipped {read other : Reader α} (hread : PassesBlanks read)
    (hother : PassesBlanks other) (hnil : ∀ found, read [] ≠ .ok found)
    (h : ∀ b more value rest, Ascii.isBlank b = false → read (b :: more) = .ok (value, rest) →
      ∃ taken, b :: more = taken ++ rest ∧
        ∀ behind : Bytes, behind.head? = rest.head? → other (taken ++ behind) = .ok (value, behind)) :
    Continues read other := by
  refine .of_within fun limit => .of_skipped hread hother hnil ?_
  intro b more value rest hblank hvalue
  obtain ⟨taken, htakes, htaken⟩ := h b more value rest hblank hvalue
  exact ⟨taken, htakes, fun _ => htaken⟩

/-- To see where a reader closes that passes over blanks it is enough to see what it does at a byte
that is none. -/
theorem Closes.of_skipped {last : UInt8} {read other : Reader α} (hread : PassesBlanks read)
    (hother : PassesBlanks other) (hnil : ∀ found, read [] ≠ .ok found)
    (h : ∀ b more value rest, Ascii.isBlank b = false → read (b :: more) = .ok (value, rest) →
      ∃ body, b :: more = body ++ last :: rest ∧
        ∀ behind, other (body ++ last :: behind) = .ok (value, behind)) :
    Closes last read other := by
  intro bytes value rest hvalue
  obtain ⟨gap, hgap, hbytes⟩ := exists_gap bytes
  cases hskipped : skipBlank bytes with
  | nil =>
    rw [hbytes, hskipped, hread gap _ hgap] at hvalue
    exact absurd hvalue (hnil _)
  | cons b more =>
    rw [hskipped] at hbytes
    rw [hbytes, hread gap _ hgap] at hvalue
    obtain ⟨body, htakes, hbody⟩ :=
      h b more value rest (not_blank_of_skipBlank hskipped) hvalue
    refine ⟨gap ++ body, ?_, fun behind => ?_⟩
    · rw [hbytes, htakes, List.append_assoc]
    · rw [List.append_assoc, hother gap _ hgap]
      exact hbody behind

/-- One certain byte is taken exactly from in front of the rest. -/
theorem expect_eq_ok_iff {byte : UInt8} : expect byte bytes = .ok rest ↔ bytes = byte :: rest := by
  cases bytes with
  | nil => exact iff_of_false (fun h => nomatch h) (fun h => nomatch h)
  | cons b more =>
    unfold expect
    dsimp only
    by_cases hb : b = byte
    · rw [if_pos hb, hb, Except.ok.injEq, List.cons.injEq, and_iff_right rfl]
    · rw [if_neg hb]
      exact iff_of_false (fun h => nomatch h) fun h => hb (List.cons.inj h).1

/-- A fixed word is taken exactly from in front of the rest. -/
theorem word_eq_ok_iff {letters : List UInt8} :
    word letters bytes = .ok rest ↔ bytes = letters ++ rest := by
  refine ⟨fun h => ?_, fun h => h ▸ word_append letters rest⟩
  induction letters generalizing bytes with
  | nil => exact Except.ok.inj h
  | cons c letters ih =>
    rw [word] at h
    cases hexpect : expect c bytes with
    | error fault => rw [hexpect] at h; cases h
    | ok after =>
      rw [hexpect] at h
      rw [expect_eq_ok_iff.1 hexpect, ih h, List.cons_append]

/-- A mark is taken from behind blanks. -/
theorem exists_gap_of_mark {byte : UInt8} (h : mark byte bytes = .ok rest) :
    ∃ gap, Gap gap ∧ bytes = gap ++ byte :: rest := by
  obtain ⟨gap, hgap, hbytes⟩ := exists_gap bytes
  rw [mark, expect_eq_ok_iff] at h
  exact ⟨gap, hgap, h ▸ hbytes⟩

/-- A mark is found behind blanks whatever follows it. -/
theorem mark_gap {gap : Bytes} (hgap : Gap gap) {byte : UInt8}
    (hbyte : Ascii.isBlank byte = false) (behind : Bytes) :
    mark byte (gap ++ byte :: behind) = .ok behind := by
  rw [passesBlanks_mark byte gap _ hgap, mark, skipBlank_cons _ hbyte]
  exact expect_eq_ok_iff.2 rfl

/-- Digits are taken up to the first byte that is none. -/
theorem continues_digits (atEnd : Fault) : Continues (digits atEnd) (digits atEnd) := by
  intro bytes found rest h
  have hstop := List.head?_dropWhile_not Ascii.isDigit bytes
  have hall : ∀ b ∈ bytes.takeWhile Ascii.isDigit, Ascii.isDigit b = true :=
    fun _ hb => List.mem_takeWhile_imp hb
  have hsplit := (List.takeWhile_append_dropWhile (p := Ascii.isDigit) (l := bytes)).symm
  unfold digits at h
  dsimp only at h
  generalize bytes.takeWhile Ascii.isDigit = taken at h hall hsplit
  generalize bytes.dropWhile Ascii.isDigit = left at h hstop hsplit
  cases taken with
  | nil => cases left <;> cases h
  | cons d taken =>
    cases h
    refine ⟨d :: taken, hsplit, fun behind hbehind => ?_⟩
    refine digits_append atEnd (List.cons_ne_nil _ _) hall fun b hb => ?_
    rw [← hbehind, hb] at hstop
    exact hstop

/-- The digits before the point are taken up to the first byte that is none. -/
theorem continues_wholeDigits (atEnd : Fault) :
    Continues (wholeDigits atEnd) (wholeDigits atEnd) := by
  intro bytes found rest h
  unfold wholeDigits at h
  cases hdigits : digits atEnd bytes with
  | error fault => rw [hdigits] at h; cases h
  | ok got =>
    obtain ⟨taken, hbytes, htaken⟩ := continues_digits atEnd bytes got.1 got.2 hdigits
    rw [hdigits] at h
    dsimp only at h
    by_cases hlead : got.1.head? = some Ascii.zero ∧ got.1.length ≠ 1
    · rw [if_pos hlead] at h
      cases h
    · rw [if_neg hlead] at h
      cases h
      refine ⟨taken, hbytes, fun behind hbehind => ?_⟩
      rw [wholeDigits, htaken behind hbehind]
      exact if_neg hlead

/-- Whether a point comes is seen at the first byte, and its digits end before the first byte that
is none. -/
theorem continues_fraction (atEnd : Fault) : Continues (fraction atEnd) (fraction atEnd) := by
  intro bytes found rest h
  cases bytes with
  | nil =>
    cases h
    refine ⟨[], rfl, fun behind hbehind => ?_⟩
    rw [List.head?_eq_none_iff.1 hbehind]
    rfl
  | cons b more =>
    unfold fraction at h
    dsimp only at h
    by_cases hpoint : b = Ascii.point
    · rw [if_pos hpoint] at h
      cases hdigits : digits atEnd more with
      | error fault => rw [hdigits] at h; cases h
      | ok got =>
        obtain ⟨taken, hmore, htaken⟩ := continues_digits atEnd more got.1 got.2 hdigits
        rw [hdigits] at h
        cases h
        refine ⟨b :: taken, congrArg _ hmore, fun behind hbehind => ?_⟩
        rw [List.cons_append, fraction]
        rw [if_pos hpoint, htaken behind hbehind]
    · rw [if_neg hpoint] at h
      cases h
      refine ⟨[], rfl, fun behind hbehind => ?_⟩
      cases behind with
      | nil => cases hbehind
      | cons c behind =>
        cases Option.some.inj hbehind
        exact if_neg hpoint

/-- A sign is taken from in front of what follows it, or none is. -/
theorem exists_sign (bytes : Bytes) : ∃ taken, bytes = taken ++ (sign bytes).2 ∧
    ∀ behind : Bytes, behind.head? = (sign bytes).2.head? →
      sign (taken ++ behind) = ((sign bytes).1, behind) := by
  cases bytes with
  | nil =>
    refine ⟨[], rfl, fun behind hbehind => ?_⟩
    rw [List.head?_eq_none_iff.1 hbehind]
    rfl
  | cons b more =>
    unfold sign
    dsimp only
    by_cases hminus : b = Ascii.minus
    · rw [if_pos hminus]
      refine ⟨[b], rfl, fun behind _ => ?_⟩
      exact if_pos hminus
    · rw [if_neg hminus]
      by_cases hplus : b = Ascii.plus
      · rw [if_pos hplus]
        refine ⟨[b], rfl, fun behind _ => ?_⟩
        exact (if_neg hminus).trans (if_pos hplus)
      · rw [if_neg hplus]
        refine ⟨[], rfl, fun behind hbehind => ?_⟩
        cases behind with
        | nil => cases hbehind
        | cons c behind =>
          cases Option.some.inj hbehind
          exact (if_neg hminus).trans (if_neg hplus)

/-- Whether a power comes is seen at the first byte, and its digits end before the first byte that
is none. -/
theorem continues_power (atEnd : Fault) : Continues (power atEnd) (power atEnd) := by
  intro bytes found rest h
  cases bytes with
  | nil =>
    cases h
    refine ⟨[], rfl, fun behind hbehind => ?_⟩
    rw [List.head?_eq_none_iff.1 hbehind]
    rfl
  | cons b more =>
    unfold power at h
    dsimp only at h
    by_cases hletter : b = Ascii.lowerE ∨ b = Ascii.upperE
    · rw [if_pos hletter] at h
      obtain ⟨signed, hmore, hsigned⟩ := exists_sign more
      cases hdigits : digits atEnd (sign more).2 with
      | error fault => rw [hdigits] at h; cases h
      | ok got =>
        obtain ⟨taken, hsign, htaken⟩ := continues_digits atEnd _ got.1 got.2 hdigits
        rw [hdigits] at h
        cases h
        refine ⟨b :: (signed ++ taken), ?_, fun behind hbehind => ?_⟩
        · rw [List.cons_append, List.append_assoc, ← hsign, ← hmore]
        · have hhead : (taken ++ behind).head? = (sign more).2.head? := by
            rw [hsign]
            exact head?_append_of_eq taken hbehind
          rw [List.cons_append, List.append_assoc, power]
          dsimp only
          rw [if_pos hletter, hsigned _ hhead]
          dsimp only
          rw [htaken behind hbehind]
    · rw [if_neg hletter] at h
      cases h
      refine ⟨[], rfl, fun behind hbehind => ?_⟩
      cases behind with
      | nil => cases hbehind
      | cons c behind =>
        cases Option.some.inj hbehind
        exact if_neg hletter

/-- A number without its sign ends before the first byte that does not go on with it. -/
theorem continues_unsigned (atEnd : Fault) (negative : Bool) :
    Continues (unsigned atEnd negative) (unsigned atEnd negative) := by
  intro bytes found rest h
  unfold unsigned at h
  cases hwhole : wholeDigits atEnd bytes with
  | error fault => rw [hwhole] at h; cases h
  | ok whole =>
    rw [hwhole] at h
    dsimp only at h
    cases hpart : fraction atEnd whole.2 with
    | error fault => rw [hpart] at h; cases h
    | ok part =>
      rw [hpart] at h
      dsimp only at h
      cases hpower : power atEnd part.2 with
      | error fault => rw [hpower] at h; cases h
      | ok powered =>
        rw [hpower] at h
        cases h
        obtain ⟨a, hbytes, ha⟩ := continues_wholeDigits atEnd _ _ _ hwhole
        obtain ⟨b, hafterA, hb⟩ := continues_fraction atEnd _ _ _ hpart
        obtain ⟨c, hafterB, hc⟩ := continues_power atEnd _ _ _ hpower
        refine ⟨a ++ (b ++ c), ?_, fun behind hbehind => ?_⟩
        · rw [hbytes, hafterA, hafterB, List.append_assoc, List.append_assoc]
        · have hheadC := head?_append_of_eq c hbehind
          rw [← hafterB] at hheadC
          have hheadB := head?_append_of_eq b hheadC
          rw [← hafterA] at hheadB
          rw [List.append_assoc, List.append_assoc, unsigned, ha _ hheadB]
          dsimp only
          rw [hb _ hheadC]
          dsimp only
          rw [hc _ hbehind]

/-- A number ends before the first byte that does not go on with it. -/
theorem continues_numeral (atEnd : Fault) : Continues (numeral atEnd) (numeral atEnd) := by
  intro bytes found rest h
  cases bytes with
  | nil => cases h
  | cons b more =>
    unfold numeral at h
    dsimp only at h
    by_cases hminus : b = Ascii.minus
    · rw [if_pos hminus] at h
      obtain ⟨taken, hmore, htaken⟩ := continues_unsigned atEnd true _ _ _ h
      refine ⟨b :: taken, congrArg _ hmore, fun behind hbehind => ?_⟩
      rw [List.cons_append, numeral]
      rw [if_pos hminus]
      exact htaken behind hbehind
    · rw [if_neg hminus] at h
      obtain ⟨taken, hmore, htaken⟩ := continues_unsigned atEnd false _ _ _ h
      refine ⟨taken, hmore, fun behind hbehind => ?_⟩
      have hread := htaken behind hbehind
      obtain ⟨text, htext⟩ := exists_cons_append hmore hbehind
      rw [htext] at hread ⊢
      rw [numeral, if_neg hminus]
      exact hread

/-- A number that has a meaning ends before the first byte that does not go on with it. -/
theorem continues_number : Continues number number := by
  intro bytes value rest h
  unfold number at h
  cases hnumeral : numeral .endOfInput bytes with
  | error fault => rw [hnumeral] at h; cases h
  | ok got =>
    obtain ⟨taken, hbytes, htaken⟩ := continues_numeral _ bytes got.1 got.2 hnumeral
    rw [hnumeral] at h
    dsimp only at h
    cases hvalue : got.1.value? with
    | none => rw [hvalue] at h; cases h
    | some meant =>
      rw [hvalue] at h
      cases h
      refine ⟨taken, hbytes, fun behind hbehind => ?_⟩
      rw [number, htaken behind hbehind]
      dsimp only
      rw [hvalue]

/-- Bytes put before what is read are put before what was read. -/
theorem exists_of_before {front found : Bytes} {read : Reading Bytes}
    (h : before front read = .ok (found, rest)) :
    ∃ more, read = .ok (more, rest) ∧ found = front ++ more := by
  cases read with
  | error fault => cases h
  | ok got =>
    obtain ⟨rfl, rfl⟩ := Prod.mk.inj (Except.ok.inj h)
    exact ⟨got.1, rfl, rfl⟩

/-- What is read of a text closes with its quote if what is behind a piece of it does. -/
theorem closes_piece (piece : Bytes) {front more found : Bytes}
    (hpiece : ∀ more, quotedBytes (piece ++ more) = before front (quotedBytes more))
    (hmore : ∀ found rest, quotedBytes more = .ok (found, rest) → ∃ body,
      more = body ++ Ascii.quote :: rest ∧
        ∀ behind, quotedBytes (body ++ Ascii.quote :: behind) = .ok (found, behind))
    (h : before front (quotedBytes more) = .ok (found, rest)) :
    ∃ body, piece ++ more = body ++ Ascii.quote :: rest ∧
      ∀ behind, quotedBytes (body ++ Ascii.quote :: behind) = .ok (found, behind) := by
  obtain ⟨got, hgot, rfl⟩ := exists_of_before h
  obtain ⟨body, hbytes, hbody⟩ := hmore got rest hgot
  refine ⟨piece ++ body, ?_, fun behind => ?_⟩
  · rw [hbytes, List.append_assoc]
  · rw [List.append_assoc, hpiece, hbody behind]
    rfl

/-- The bytes of a text end at its closing quote. -/
theorem closes_quotedBytes : Closes Ascii.quote quotedBytes quotedBytes := by
  intro bytes
  fun_induction quotedBytes bytes
  case case2 more =>
    intro found rest h
    cases h
    exact ⟨[], rfl, fun behind => by rw [List.nil_append, quotedBytes.eq_def]; exact if_pos rfl⟩
  case case10 a b c d n hn _ hlead e f g h more m hm htrail _ _ ih =>
    intro found rest hread
    exact closes_piece [_, _, a, b, c, d, _, _, e, f, g, h]
      (quotedBytes_pair hn hm hlead htrail) ih hread
  case case15 a b c d more n hn htrail hlead _ _ ih =>
    intro found rest hread
    exact closes_piece [_, _, a, b, c, d]
      (quotedBytes_codePoint hn (eq_false_of_ne_true hlead)
        (eq_false_of_ne_true htrail)) ih hread
  case case18 kind more hkind escaped hescape _ _ ih =>
    intro found rest hread
    exact closes_piece [_, kind] (quotedBytes_shortEscape hescape hkind) ih hread
  case case19 byte more hquote hcontrol hslash ih =>
    intro found rest hread
    have hstands : standsForItself byte = true := by
      simp only [standsForItself, Bool.and_eq_true, bne_iff_ne, ne_eq, Bool.not_eq_true',
        decide_eq_false_iff_not]
      exact ⟨⟨hquote, hslash⟩, hcontrol⟩
    exact closes_piece [byte]
      (quotedBytes_append fun b hb => List.mem_singleton.1 hb ▸ hstands) ih hread
  all_goals
    intro found rest h
    cases h

/-- A text ends at its closing quote. -/
theorem closes_quotation : Closes Ascii.quote quotation quotation := by
  intro bytes value rest h
  unfold quotation at h
  cases hquoted : quotedBytes bytes with
  | error fault => rw [hquoted] at h; cases h
  | ok got =>
    obtain ⟨body, hbytes, hbody⟩ := closes_quotedBytes bytes got.1 got.2 hquoted
    rw [hquoted] at h
    dsimp only at h
    cases hdecode : Utf8.decode? got.1 with
    | none => rw [hdecode] at h; cases h
    | some s =>
      rw [hdecode] at h
      cases h
      refine ⟨body, hbytes, fun behind => ?_⟩
      rw [quotation, hbody behind]
      dsimp only
      rw [hdecode]

/-- What is passed over as a text has well-formed escapes and a closing quote. -/
theorem exists_content_of_skipQuotation {bytes rest : Bytes} (h : skipQuotation bytes = .ok rest) :
    ∃ content, bytes = content ++ Ascii.quote :: rest ∧ ContentForm content := by
  revert h
  fun_induction skipQuotation bytes
  case case2 more => exact fun h => ⟨[], congrArg _ (Except.ok.inj h), .nil⟩
  case case6 a b c d more n hn _ _ ih =>
    intro h
    obtain ⟨content, rfl, hcontent⟩ := ih h
    exact ⟨_, rfl, .code hn hcontent⟩
  case case9 kind more _ escaped hescape _ _ ih =>
    intro h
    obtain ⟨content, rfl, hcontent⟩ := ih h
    exact ⟨_, rfl, .short hescape hcontent⟩
  case case10 byte more hquote hcontrol hslash ih =>
    intro h
    obtain ⟨content, rfl, hcontent⟩ := ih h
    have hstands : standsForItself byte = true := by
      simp only [standsForItself, Bool.and_eq_true, bne_iff_ne, ne_eq, Bool.not_eq_true',
        decide_eq_false_iff_not]
      exact ⟨⟨hquote, hslash⟩, hcontrol⟩
    exact ⟨_, rfl, .plain hstands hcontent⟩
  all_goals
    intro h
    cases h

/-- A text that nobody asks for ends at its closing quote. -/
theorem closes_skipQuotation :
    Closes Ascii.quote (fun bytes => (skipQuotation bytes).map ((), ·))
      fun bytes => (skipQuotation bytes).map ((), ·) := by
  intro bytes value rest h
  obtain ⟨after, hskip, heq⟩ := exists_ok_of_map h
  obtain ⟨-, rfl⟩ := Prod.mk.inj heq
  obtain ⟨content, hbytes, hcontent⟩ := exists_content_of_skipQuotation hskip
  refine ⟨content, hbytes, fun behind => ?_⟩
  dsimp only
  rw [skipQuotation_quote hcontent]
  rfl

/-- A word ends with its last letter. -/
theorem closes_word (letters : List UInt8) {last : UInt8} {value : α} :
    Closes last (fun bytes => (word (letters ++ [last]) bytes).map (value, ·))
      fun bytes => (word (letters ++ [last]) bytes).map (value, ·) := by
  intro bytes found rest h
  obtain ⟨after, hword, heq⟩ := exists_ok_of_map h
  obtain ⟨rfl, rfl⟩ := Prod.mk.inj heq
  refine ⟨letters, ?_, fun behind => ?_⟩
  · rw [word_eq_ok_iff.1 hword, List.append_assoc]
    rfl
  · have hbytes : letters ++ last :: behind = letters ++ [last] ++ behind := by
      rw [List.append_assoc]
      rfl
    dsimp only
    rw [hbytes, word_append]
    rfl

/-- A truth value ends with the last letter of its word. -/
theorem closes_boolean : Closes Ascii.lowerE boolean boolean := by
  refine .of_skipped passesBlanks_boolean passesBlanks_boolean (fun _ h => nomatch h) ?_
  intro b more value rest hblank h
  unfold boolean at h
  rw [skipBlank_cons _ hblank] at h
  dsimp only at h
  by_cases htrue : b = Ascii.lowerT
  · subst htrue
    rw [if_pos rfl] at h
    obtain ⟨body, rfl, hbody⟩ := closes_word [0x72, 0x75] more value rest h
    exact ⟨_ :: body, rfl, hbody⟩
  · rw [if_neg htrue] at h
    by_cases hfalse : b = Ascii.lowerF
    · subst hfalse
      rw [if_pos rfl] at h
      obtain ⟨body, rfl, hbody⟩ := closes_word [0x61, 0x6C, 0x73] more value rest h
      exact ⟨_ :: body, rfl, hbody⟩
    · rw [if_neg hfalse] at h
      cases h

/-- A text ends with its closing quote. -/
theorem closes_text : Closes Ascii.quote text text := by
  refine .of_skipped passesBlanks_text passesBlanks_text (fun _ h => nomatch h) ?_
  intro b more value rest hblank h
  unfold text at h
  rw [skipBlank_cons _ hblank] at h
  dsimp only at h
  by_cases hquote : b = Ascii.quote
  · subst hquote
    rw [if_pos rfl] at h
    obtain ⟨body, rfl, hbody⟩ := closes_quotation more value rest h
    exact ⟨_ :: body, rfl, hbody⟩
  · rw [if_neg hquote] at h
    cases h

/-- A number of any form ends before the first byte that does not go on with it. -/
theorem continues_anyNumber : Continues anyNumber anyNumber := by
  refine .of_skipped passesBlanks_anyNumber passesBlanks_anyNumber (fun _ h => nomatch h) ?_
  intro b more value rest hblank h
  unfold anyNumber at h
  rw [skipBlank_cons _ hblank] at h
  dsimp only at h
  by_cases hstart : startsNumber b = true
  · rw [if_pos hstart] at h
    obtain ⟨taken, hbytes, htaken⟩ := continues_number _ _ _ h
    refine ⟨taken, hbytes, fun behind hbehind => ?_⟩
    have hread := htaken behind hbehind
    obtain ⟨text, htext⟩ := exists_cons_append hbytes hbehind
    rw [htext] at hread ⊢
    rw [anyNumber, skipBlank_cons _ hblank]
    dsimp only
    rw [if_pos hstart]
    exact hread
  · rw [if_neg hstart] at h
    cases h

/-- A double ends before the first byte that does not go on with it. -/
theorem continues_double : Continues double double := continues_anyNumber.map _

/-- A whole number ends before the first byte that does not go on with it. -/
theorem continues_natural (bound : Nat) : Continues (natural bound) (natural bound) := by
  intro bytes value rest h
  unfold natural at h
  cases hnumber : anyNumber bytes with
  | error fault => rw [hnumber] at h; cases h
  | ok got =>
    obtain ⟨taken, hbytes, htaken⟩ := continues_anyNumber bytes got.1 got.2 hnumber
    obtain ⟨number, after⟩ := got
    rw [hnumber] at h
    cases number with
    | float x => cases h
    | int n =>
      dsimp only at h
      by_cases hbound : 0 ≤ n ∧ n < bound
      · rw [if_pos hbound] at h
        cases h
        refine ⟨taken, hbytes, fun behind hbehind => ?_⟩
        rw [natural, htaken behind hbehind]
        exact if_pos hbound
      · rw [if_neg hbound] at h
        cases h

/-- A value that may be missing ends where it does when it is there. -/
theorem Continues.nullable {read other : Reader α} (h : Continues read other) :
    Continues (nullable read) (nullable other) := by
  refine .of_skipped (passesBlanks_nullable _) (passesBlanks_nullable _) (fun _ h => nomatch h) ?_
  intro b more value rest hblank hread
  unfold Reader.nullable at hread
  rw [skipBlank_cons _ hblank] at hread
  dsimp only at hread
  by_cases hnull : b = Ascii.lowerN
  · subst hnull
    rw [if_pos rfl] at hread
    obtain ⟨after, hword, heq⟩ := exists_ok_of_map hread
    obtain ⟨rfl, rfl⟩ := Prod.mk.inj heq
    refine ⟨Ascii.lowerN :: afterN, congrArg _ (word_eq_ok_iff.1 hword), fun behind _ => ?_⟩
    change (word afterN (afterN ++ behind)).map (none, ·) = _
    rw [word_append]
    rfl
  · rw [if_neg hnull] at hread
    obtain ⟨got, hgot, heq⟩ := exists_ok_of_map hread
    obtain ⟨rfl, rfl⟩ := Prod.mk.inj heq
    obtain ⟨taken, hbytes, htaken⟩ := h _ got.1 got.2 hgot
    refine ⟨taken, hbytes, fun behind hbehind => ?_⟩
    have hother := htaken behind hbehind
    obtain ⟨text, htext⟩ := exists_cons_append hbytes hbehind
    rw [htext] at hother ⊢
    rw [Reader.nullable, skipBlank_cons _ hblank]
    dsimp only
    rw [if_neg hnull, hother]
    rfl

end Reader

end RobotSoccer
