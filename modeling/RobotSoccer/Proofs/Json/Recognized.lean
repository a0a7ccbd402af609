import RobotSoccer.Proofs.Json.Enclosed
import RobotSoccer.Proofs.Json.Numerals
import RobotSoccer.Proofs.Json.Resolved

/-!
# What is read is written in one of its forms

A reader that understands a form reads all bytes of that form. Here is the other half: the bytes
that a reader takes for a value are blanks and a form of that value. Both together say exactly which
bytes are read as which values. What is read behind the opening of an array or of an object is a form
of it when the reader of what is in it recognizes its own form.
-/

namespace RobotSoccer

namespace Reader

variable {α β : Type} {read item : Reader α} {form : Form α} {bytes rest : Bytes}

open Json

/-- What a reader takes for a value is blanks and then a form of that value. -/
def Recognizes (read : Reader α) (form : Form α) : Prop :=
  ∀ bytes value rest, read bytes = .ok (value, rest) →
    ∃ gap taken, Gap gap ∧ bytes = gap ++ (taken ++ rest) ∧ form value taken

/-- A reader that passes over blanks recognizes a form when it does at a byte that is none. -/
theorem Recognizes.of_skipped (hread : PassesBlanks read) (hnil : ∀ found, read [] ≠ .ok found)
    (h : ∀ b more value rest, Ascii.isBlank b = false → read (b :: more) = .ok (value, rest) →
      ∃ taken, b :: more = taken ++ rest ∧ form value taken) : Recognizes read form := by
  intro bytes value rest hvalue
  obtain ⟨gap, hgap, hbytes⟩ := exists_gap bytes
  cases hskipped : skipBlank bytes with
  | nil =>
    rw [hbytes, hskipped, hread gap _ hgap] at hvalue
    exact absurd hvalue (hnil _)
  | cons b more =>
    rw [hskipped] at hbytes
    rw [hbytes, hread gap _ hgap] at hvalue
    obtain ⟨taken, htakes, hform⟩ := h b more value rest (not_blank_of_skipBlank hskipped) hvalue
    exact ⟨gap, taken, hgap, htakes ▸ hbytes, hform⟩

/-- All bytes are read as a value exactly when they are a form of that value with blanks around
it. -/
theorem whole_eq_ok_iff (hread : Understands read form) (hform : Recognizes read form)
    {value : α} : whole read bytes = .ok value ↔ ∃ before taken behind, Gap before ∧ Gap behind ∧
      form value taken ∧ bytes = before ++ (taken ++ behind) := by
  constructor
  · intro h
    obtain ⟨rest, hvalue, hfinish⟩ := exists_finish_of_whole h
    obtain ⟨gap, taken, hgap, hbytes, htaken⟩ := hform bytes value rest hvalue
    exact ⟨gap, taken, rest, hgap, gap_of_finish hfinish, htaken, hbytes⟩
  · rintro ⟨before, taken, behind, hbefore, hbehind, htaken, rfl⟩
    exact (hread.reads htaken).whole_gap hread.blanks hbefore hbehind

/-- Texts are recognized. -/
theorem recognizes_text : Recognizes text .text := by
  refine .of_skipped passesBlanks_text (fun _ h => nomatch h) ?_
  intro b more value rest hblank h
  unfold text at h
  rw [skipBlank_cons _ hblank] at h
  dsimp only at h
  by_cases hquote : b = Ascii.quote
  · subst hquote
    rw [if_pos rfl] at h
    exact exists_textForm_of_quotation h
  · rw [if_neg hquote] at h
    cases h

/-- An opening is taken from behind blanks. -/
theorem exists_gap_of_opening {byte : UInt8} (h : opening byte bytes = .ok rest) :
    ∃ gap, Gap gap ∧ bytes = gap ++ byte :: rest := by
  obtain ⟨gap, hgap, hbytes⟩ := exists_gap bytes
  unfold opening at h
  cases hskipped : skipBlank bytes with
  | nil => rw [hskipped] at h; cases h
  | cons b more =>
    rw [hskipped] at h hbytes
    dsimp only at h
    by_cases hb : b = byte
    · rw [if_pos hb] at h
      cases h
      exact ⟨gap, hgap, hb ▸ hbytes⟩
    · rw [if_neg hb] at h
      cases h

/-- Blanks behind blanks are blanks. -/
theorem Gap.append {before behind : Bytes} (hbefore : Gap before) (hbehind : Gap behind) :
    Gap (before ++ behind) := fun b hb => (List.mem_append.1 hb).elim (hbefore b) (hbehind b)

/-- What stands at the first place of an array is its end or an item behind blanks. -/
theorem Recognizes.slot_first (h : Recognizes item form) {found : Option α}
    (hslot : slot true item bytes = .ok (found, rest)) :
    (∃ gap more, Gap gap ∧ found = none ∧ bytes = gap ++ Ascii.closeBracket :: more ∧
        rest = Ascii.closeBracket :: more) ∨
      ∃ gap value taken, Gap gap ∧ found = some value ∧ bytes = gap ++ (taken ++ rest) ∧
        form value taken := by
  obtain ⟨gap, hgap, ⟨more, rfl, hbytes, hrest⟩ | ⟨value, b, more, -, rfl, hbytes, hblank,
    -, hitem⟩ | ⟨value, more, hfirst, -⟩⟩ := slot_cases hslot
  · exact .inl ⟨gap, more, hgap, rfl, hbytes, hrest⟩
  · obtain ⟨inner, taken, hinner, hmore, hform⟩ := h _ value rest hitem
    refine .inr ⟨gap ++ inner, value, taken, hgap.append hinner, rfl, ?_, hform⟩
    rw [hbytes, hmore, List.append_assoc]
  · cases hfirst

/-- What stands at a further place of an array is its end, or an item behind a comma. -/
theorem Recognizes.slot_next (h : Recognizes item form) {found : Option α}
    (hslot : slot false item bytes = .ok (found, rest)) :
    (∃ gap more, Gap gap ∧ found = none ∧ bytes = gap ++ Ascii.closeBracket :: more ∧
        rest = Ascii.closeBracket :: more) ∨
      ∃ behind before value taken, Gap behind ∧ Gap before ∧ found = some value ∧
        bytes = behind ++ Ascii.comma :: (before ++ (taken ++ rest)) ∧ form value taken := by
  obtain ⟨gap, hgap, ⟨more, rfl, hbytes, hrest⟩ | ⟨value, b, more, hfirst, -⟩ |
    ⟨value, more, -, rfl, hbytes, hitem⟩⟩ := slot_cases hslot
  · exact .inl ⟨gap, more, hgap, rfl, hbytes, hrest⟩
  · cases hfirst
  · obtain ⟨before, taken, hbefore, hmore, hform⟩ := h _ value rest hitem
    exact .inr ⟨gap, before, value, taken, hgap, hbefore, rfl, hmore ▸ hbytes, hform⟩

/-- The items from some place on are none, and the array ends there, or the item that stands there
and those behind it. -/
theorem itemsFrom_cases {count : Nat} {first : Bool} {values : List α}
    (h : itemsFrom item (count + 1) first bytes = .ok (values, rest)) :
    (values = [] ∧ ∃ after, slot first item bytes = .ok (none, after) ∧
        closeArray after = .ok rest) ∨
      ∃ value others after, values = value :: others ∧
        slot first item bytes = .ok (some value, after) ∧
          itemsFrom item count false after = .ok (others, rest) := by
  unfold itemsFrom at h
  cases hslot : slot first item bytes with
  | error fault => rw [hslot] at h; cases h
  | ok got =>
    obtain ⟨found, after⟩ := got
    rw [hslot] at h
    cases found with
    | none =>
      dsimp only at h
      cases hclose : closeArray after with
      | error fault => rw [hclose] at h; cases h
      | ok left =>
        rw [hclose] at h
        cases h
        exact .inl ⟨rfl, after, rfl, hclose⟩
    | some value =>
      dsimp only at h
      cases hmore : itemsFrom item count false after with
      | error fault => rw [hmore] at h; cases h
      | ok others =>
        rw [hmore] at h
        cases h
        exact .inr ⟨value, others.1, after, rfl, rfl, hmore⟩

/-- The end of an array is closed where it stands. -/
theorem eq_of_closeArray {more : Bytes}
    (h : closeArray (Ascii.closeBracket :: more) = .ok rest) : more = rest :=
  Except.ok.inj ((closeArray_gap gap_nil more).symm.trans h)

/-- The items that are read behind an item stand behind it in their forms. -/
theorem Recognizes.itemsFrom (h : Recognizes item form) (count : Nat) :
    ∀ bytes values rest, itemsFrom item count false bytes = .ok (values, rest) →
      ∃ texts taken, bytes = taken ++ rest ∧ ItemsForm texts taken ∧
        List.Forall₂ form values texts := by
  induction count with
  | zero => exact fun bytes values rest hread => nomatch hread
  | succ count ih =>
    intro bytes values rest hread
    obtain ⟨rfl, after, hslot, hclose⟩ | ⟨value, others, after, rfl, hslot, hmore⟩ :=
      itemsFrom_cases hread
    · obtain ⟨gap, more, hgap, -, rfl, rfl⟩ | ⟨_, _, _, _, _, _, hnone, -⟩ := h.slot_next hslot
      · cases eq_of_closeArray hclose
        refine ⟨[], gap ++ [Ascii.closeBracket], ?_, .done hgap, .nil⟩
        rw [List.append_assoc]
        rfl
      · cases hnone
    · obtain ⟨_, _, _, hsome, -⟩ | ⟨behind, before, found, text, hbehind, hbefore, hfound, rfl,
        hform⟩ := h.slot_next hslot
      · cases hsome
      · cases hfound
        obtain ⟨texts, taken, rfl, hitems, hforms⟩ := ih after others rest hmore
        refine ⟨text :: texts, _, ?_, .next hbehind hbefore hitems, .cons hform hforms⟩
        simp only [List.append_assoc, List.cons_append]

/-- What is read behind the opening of an array is, with it, an array of the items. -/
theorem Recognizes.items (h : Recognizes item form) {values : List α}
    (hread : items item bytes = .ok (values, rest)) :
    ∃ taken, Ascii.openBracket :: bytes = taken ++ rest ∧ form.list values taken := by
  obtain ⟨rfl, after, hslot, hclose⟩ | ⟨value, others, after, rfl, hslot, hmore⟩ :=
    itemsFrom_cases hread
  · obtain ⟨gap, more, hgap, -, rfl, rfl⟩ | ⟨_, _, _, _, hnone, -⟩ := h.slot_first hslot
    · cases eq_of_closeArray hclose
      refine ⟨_, ?_, .array .nil (.empty hgap)⟩
      rw [List.cons_append, List.append_assoc]
      rfl
    · cases hnone
  · obtain ⟨_, _, _, hsome, -⟩ | ⟨before, found, text, hbefore, hfound, rfl, hform⟩ :=
      h.slot_first hslot
    · cases hsome
    · cases hfound
      obtain ⟨texts, taken, rfl, hitems, hforms⟩ := h.itemsFrom _ after others rest hmore
      refine ⟨_, ?_, .array (.cons hform hforms) (.items hbefore hitems)⟩
      simp only [List.append_assoc, List.cons_append]

/-- At a place that must hold an item one is found. -/
theorem slot_of_place {first : Bool} {value : α}
    (h : place first item bytes = .ok (value, rest)) :
    slot first item bytes = .ok (some value, rest) := by
  unfold place at h
  cases hslot : slot first item bytes with
  | error fault => rw [hslot] at h; cases h
  | ok got =>
    obtain ⟨found, after⟩ := got
    rw [hslot] at h
    cases found with
    | none => cases h
    | some found => cases h; rfl

/-- An item that must stand at the first place stands there behind blanks. -/
theorem Recognizes.place_first (h : Recognizes item form) {value : α}
    (hplace : place true item bytes = .ok (value, rest)) :
    ∃ gap taken, Gap gap ∧ bytes = gap ++ (taken ++ rest) ∧ form value taken := by
  obtain ⟨_, _, _, hsome, -⟩ | ⟨gap, found, taken, hgap, hfound, hbytes, hform⟩ :=
    h.slot_first (slot_of_place hplace)
  · cases hsome
  · cases hfound
    exact ⟨gap, taken, hgap, hbytes, hform⟩

/-- An item that must stand at a further place stands there behind a comma. -/
theorem Recognizes.place_next (h : Recognizes item form) {value : α}
    (hplace : place false item bytes = .ok (value, rest)) :
    ∃ behind before taken, Gap behind ∧ Gap before ∧
      bytes = behind ++ Ascii.comma :: (before ++ (taken ++ rest)) ∧ form value taken := by
  obtain ⟨_, _, _, hsome, -⟩ | ⟨behind, before, found, taken, hbehind, hbefore, hfound, hbytes,
    hform⟩ := h.slot_next (slot_of_place hplace)
  · cases hsome
  · cases hfound
    exact ⟨behind, before, taken, hbehind, hbefore, hbytes, hform⟩

/-- Pairs are recognized when their items are. -/
theorem Recognizes.two {second : Reader β} {formB : Form β} (ha : Recognizes item form)
    (hb : Recognizes second formB) : Recognizes (two item second) (form.two formB) := by
  intro bytes pair rest hread
  obtain ⟨inner, hopening, hitems⟩ := exists_ok_of_bind hread
  obtain ⟨⟨a, afterA⟩, hplaceA, hfirst⟩ := exists_ok_of_bind hitems
  obtain ⟨⟨b, afterB⟩, hplaceB, hboth⟩ := exists_ok_of_bind hfirst
  obtain ⟨left, hclose, hpair⟩ := exists_ok_of_bind hboth
  cases hpair
  obtain ⟨gap, hgap, rfl⟩ := exists_gap_of_opening hopening
  obtain ⟨before, as, hbefore, rfl, hformA⟩ := ha.place_first hplaceA
  obtain ⟨behind, beforeB, bs, hbehind, hbeforeB, rfl, hformB⟩ := hb.place_next hplaceB
  obtain ⟨last, hlast, rfl⟩ := exists_gap_of_mark hclose
  refine ⟨gap, _, hgap, ?_, .array hformA hformB
    (.items hbefore (.next hbehind hbeforeB (.done hlast)))⟩
  simp only [List.append_assoc, List.cons_append, List.nil_append]

/-- What is taken in as an entry of a map is a value of the type behind a colon. -/
theorem Recognizes.entryInto (h : Recognizes read form) {gathered after : Dict α} {key : String}
    (hentry : entryInto read gathered key bytes = .ok (after, rest)) :
    ∃ found behindName beforeValue taken, Gap behindName ∧ Gap beforeValue ∧
      bytes = behindName ++ Ascii.colon :: (beforeValue ++ (taken ++ rest)) ∧ form found taken ∧
        after = gathered.insert key found := by
  obtain ⟨got, hvalue, heq⟩ := exists_ok_of_map hentry
  obtain ⟨rfl, rfl⟩ := Prod.mk.inj heq
  unfold valueOf at hvalue
  cases hmark : mark Ascii.colon bytes with
  | error fault => rw [hmark] at hvalue; cases hvalue
  | ok inner =>
    rw [hmark] at hvalue
    obtain ⟨behindName, hbehind, rfl⟩ := exists_gap_of_mark hmark
    obtain ⟨beforeValue, taken, hbefore, rfl, hform⟩ := h inner got.1 got.2 hvalue
    exact ⟨got.1, behindName, beforeValue, taken, hbehind, hbefore, rfl, hform, rfl⟩

/-- The entries that are read behind an entry stand behind it in their forms, and each is put over
those before it. -/
theorem Recognizes.membersFrom (h : Recognizes read form) (count : Nat) :
    ∀ (gathered final : Dict α) bytes rest,
      membersFrom quotation (Reader.entryInto read) count false gathered bytes =
          .ok (final, rest) →
        ∃ entries written taken, bytes = taken ++ rest ∧ MembersForm written taken ∧
          List.Forall₂ (Form.Entry form) entries written ∧
            final = entries.foldl (fun dict entry => dict.insert entry.1 entry.2) gathered := by
  induction count with
  | zero => exact fun gathered final bytes rest hread => nomatch hread
  | succ count ih =>
    intro gathered final bytes rest hread
    obtain ⟨gap, hgap, ⟨rfl, rfl⟩ | ⟨lead, more, named, taken, hlead, rfl, hname, hentry,
      hmore⟩⟩ := membersFrom_cases hread
    · refine ⟨[], [], gap ++ [Ascii.closeBrace], ?_, .done hgap, .nil, rfl⟩
      rw [List.append_assoc]
      rfl
    · obtain ⟨name, hnamed, hkey⟩ := exists_textForm_of_quotation hname
      obtain ⟨found, behindName, beforeValue, value, hbehind, hbefore, hinner, hform, hafter⟩ :=
        h.entryInto hentry
      obtain ⟨entries, written, text, hrest, hmembers, hentries, rfl⟩ := ih _ final _ rest hmore
      cases hlead with
      | next hinnerGap =>
        refine ⟨(named.1, found) :: entries, (name, value) :: written, _, ?_,
          .next hgap hinnerGap hbehind hbefore hmembers, .cons ⟨hkey, hform⟩ hentries, ?_⟩
        · simp only [List.append_assoc, List.cons_append, hnamed, hinner, hrest]
        · rw [hafter]
          rfl

/-- What is read behind the opening of an object is, with it, an object of the entries. -/
theorem Recognizes.members (h : Recognizes read form) {final : Dict α}
    (hread : members quotation (Reader.entryInto read) Dict.empty bytes = .ok (final, rest)) :
    ∃ taken, Ascii.openBrace :: bytes = taken ++ rest ∧ form.dict final taken := by
  obtain ⟨behind, hbehind, ⟨rfl, rfl⟩ | ⟨lead, more, named, taken, hlead, rfl, hname, hentry,
    hmore⟩⟩ := membersFrom_cases hread
  · refine ⟨_, ?_, .object .nil (.empty hbehind)⟩
    rw [List.cons_append, List.append_assoc]
    rfl
  · obtain ⟨name, hnamed, hkey⟩ := exists_textForm_of_quotation hname
    obtain ⟨found, behindName, beforeValue, value, hbehindName, hbefore, hinner, hform, hafter⟩ :=
      h.entryInto hentry
    obtain ⟨entries, written, text, hrest, hothers, hentries, rfl⟩ :=
      h.membersFrom _ _ final _ rest hmore
    cases hlead with
    | first =>
      have hfirst : Form.Entry form (named.1, found) (name, value) := ⟨hkey, hform⟩
      have hall := Form.dict.object (.cons hfirst hentries)
        (.members hbehind hbehindName hbefore hothers)
      rw [hafter]
      refine ⟨_, ?_, hall⟩
      simp only [List.append_assoc, List.cons_append, List.nil_append, hnamed, hinner, hrest]

end Reader

end RobotSoccer
