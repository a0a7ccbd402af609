import RobotSoccer.Proofs.Json.Extent
import RobotSoccer.Proofs.Json.Objects
import RobotSoccer.Proofs.Text.Characters

/-!
# What is read as a text spells it

Between quotes stand bytes that mean themselves and escapes that mean a character. The bytes of a
character may come one by one, but none of them that goes on with it can come from an escape. So
whatever is read as a text is a spelling of its characters, one behind the other.
-/

namespace RobotSoccer

namespace Reader

variable {bytes content found rest : Bytes}

/-- The bytes between quotes and what they are resolved to, a byte or an escape at a time. -/
inductive Resolves : Bytes → Bytes → Prop
  /-- There are no bytes. -/
  | nil : Resolves [] []
  /-- A byte means itself. -/
  | plain {b : UInt8} {content found : Bytes} (hb : standsForItself b = true)
    (hmore : Resolves content found) : Resolves (b :: content) (b :: found)
  /-- A piece means the character that it spells. -/
  | piece {c : Char} {piece content found : Bytes} (hpiece : SpellsChar c piece)
    (hmore : Resolves content found) : Resolves (piece ++ content) (Utf8.encodeChar c ++ found)

/-- A piece in front of bytes that are resolved is resolved with them. -/
theorem exists_resolves_of_before {c : Char} {piece more : Bytes} (hpiece : SpellsChar c piece)
    (hmore : ∀ found rest, quotedBytes more = .ok (found, rest) →
      ∃ content, more = content ++ Ascii.quote :: rest ∧ Resolves content found)
    (h : before (Utf8.encodeChar c) (quotedBytes more) = .ok (found, rest)) :
    ∃ content, piece ++ more = content ++ Ascii.quote :: rest ∧ Resolves content found := by
  obtain ⟨got, hgot, rfl⟩ := exists_of_before h
  obtain ⟨content, rfl, hcontent⟩ := hmore got rest hgot
  exact ⟨piece ++ content, (List.append_assoc _ _ _).symm, .piece hpiece hcontent⟩

/-- The bytes that are read up to a closing quote are what those in front of it are resolved to. -/
theorem exists_resolves_of_quotedBytes (bytes : Bytes) :
    ∀ found rest, quotedBytes bytes = .ok (found, rest) →
      ∃ content, bytes = content ++ Ascii.quote :: rest ∧ Resolves content found := by
  fun_induction quotedBytes bytes
  case case2 more =>
    intro found rest h
    cases h
    exact ⟨[], rfl, .nil⟩
  case case10 a b c d n hn _ hlead e f g h more m hm htrail _ _ ih =>
    intro found rest hread
    exact exists_resolves_of_before (.pair hn hm hlead htrail) ih hread
  case case15 a b c d more n hn htrail hlead _ _ ih =>
    intro found rest hread
    exact exists_resolves_of_before
      (.code hn (eq_false_of_ne_true hlead) (eq_false_of_ne_true htrail)) ih hread
  case case18 kind more _ escaped hescape _ _ ih =>
    intro found rest hread
    rw [← (shortEscape?_ascii hescape).2] at hread
    exact exists_resolves_of_before (.short hescape) ih hread
  case case19 byte more hquote hcontrol hslash ih =>
    intro found rest hread
    have hstands : standsForItself byte = true := by
      simp only [standsForItself, Bool.and_eq_true, bne_iff_ne, ne_eq, Bool.not_eq_true',
        decide_eq_false_iff_not]
      exact ⟨⟨hquote, hslash⟩, hcontrol⟩
    obtain ⟨got, hgot, rfl⟩ := exists_of_before hread
    obtain ⟨content, rfl, hcontent⟩ := ih got rest hgot
    exact ⟨byte :: content, rfl, .plain hstands hcontent⟩
  all_goals
    intro found rest h
    cases h

/-- Bytes that go on with a character mean themselves, since what an escape means begins one. -/
theorem Resolves.exists_of_continues {more : Bytes}
    (hmore : ∀ b ∈ more, Utf8.continues b = true) (h : Resolves content (more ++ found)) :
    ∃ after, content = more ++ after ∧ Resolves after found := by
  induction more generalizing content with
  | nil => exact ⟨content, rfl, h⟩
  | cons b more ih =>
    have hb := hmore b List.mem_cons_self
    have hothers := fun c hc => hmore c (List.mem_cons_of_mem _ hc)
    rw [List.cons_append] at h
    generalize hall : b :: (more ++ found) = all at h
    cases h with
    | nil => cases hall
    | plain _ hcontent =>
      obtain ⟨rfl, rfl⟩ := List.cons.inj hall
      obtain ⟨after, rfl, hafter⟩ := ih hothers hcontent
      exact ⟨after, rfl, hafter⟩
    | @piece c _ _ _ _ _ =>
      obtain ⟨first, others, hchar, hbegins, -⟩ := Utf8.exists_encodeChar_eq_cons c
      rw [hchar, List.cons_append] at hall
      rw [(List.cons.inj hall).1, hbegins] at hb
      cases hb

/-- A character whose first byte may mean itself between quotes needs no escape. -/
theorem spellsChar_of_standsForItself {c : Char} {first : UInt8} {more : Bytes}
    (hchar : Utf8.encodeChar c = first :: more) (h : standsForItself first = true) :
    SpellsChar c (Utf8.encodeChar c) := by
  refine .plain ?_ ?_ ?_
  · rintro rfl
    cases hchar
    cases h
  · rintro rfl
    cases hchar
    cases h
  · by_contra hcontrol
    have hlow : c.toNat < 0x20 := Nat.not_le.1 hcontrol
    have hone : Utf8.encodeChar c = [UInt8.ofNat c.toNat] := if_pos (by omega)
    have hfirst : first = UInt8.ofNat c.toNat := (List.cons.inj (hchar.symm.trans hone)).1
    have hvalue := Utf8.toNat_ofNat_of_lt (n := c.toNat) (by omega)
    simp only [hfirst, standsForItself, Bool.and_eq_true, Bool.not_eq_true',
      decide_eq_false_iff_not, UInt8.lt_iff_toNat_lt, hvalue] at h
    exact h.2 hlow

/-- Bytes that are resolved to those of characters spell the characters. -/
theorem Resolves.spells {cs : List Char} (h : Resolves content (Utf8.encodeChars cs)) :
    Spells cs content := by
  induction cs generalizing content with
  | nil =>
    rw [Utf8.encodeChars_nil] at h
    generalize hall : ([] : Bytes) = all at h
    cases h with
    | nil => exact .nil
    | plain _ _ => cases hall
    | @piece c _ _ _ _ _ =>
      obtain ⟨first, others, hchar, -, -⟩ := Utf8.exists_encodeChar_eq_cons c
      rw [hchar] at hall
      cases hall
  | cons c cs ih =>
    rw [Utf8.encodeChars_cons] at h
    generalize hall : Utf8.encodeChar c ++ Utf8.encodeChars cs = all at h
    obtain ⟨first, others, hchar, -, hothers⟩ := Utf8.exists_encodeChar_eq_cons c
    cases h with
    | nil =>
      rw [hchar] at hall
      cases hall
    | plain hstands hcontent =>
      rw [hchar, List.cons_append] at hall
      obtain ⟨rfl, rfl⟩ := List.cons.inj hall
      obtain ⟨after, rfl, hafter⟩ := hcontent.exists_of_continues hothers
      have hspelled := Spells.cons (spellsChar_of_standsForItself hchar hstands) (ih hafter)
      rw [hchar] at hspelled
      exact hspelled
    | piece hpiece hcontent =>
      obtain ⟨rfl, rfl⟩ := Utf8.encodeChar_append_inj hall
      exact .cons hpiece (ih hcontent)

/-- What is read as a text up to a closing quote spells its characters. -/
theorem exists_spells_of_quotation {s : String} (h : quotation bytes = .ok (s, rest)) :
    ∃ content, bytes = content ++ Ascii.quote :: rest ∧ Spells s.toList content := by
  unfold quotation at h
  cases hquoted : quotedBytes bytes with
  | error fault => rw [hquoted] at h; cases h
  | ok got =>
    obtain ⟨content, hbytes, hcontent⟩ :=
      exists_resolves_of_quotedBytes bytes got.1 got.2 hquoted
    rw [hquoted] at h
    dsimp only at h
    cases hdecode : Utf8.decode? got.1 with
    | none => rw [hdecode] at h; cases h
    | some found =>
      rw [hdecode] at h
      cases h
      rw [Utf8.eq_encode_of_decode? hdecode, Utf8.encode] at hcontent
      exact ⟨content, hbytes, hcontent.spells⟩

/-- What is read as a text behind an opening quote is, with the quote, a form of the text. -/
theorem exists_textForm_of_quotation {s : String} (h : quotation bytes = .ok (s, rest)) :
    ∃ taken, Ascii.quote :: bytes = taken ++ rest ∧ Json.TextForm s taken := by
  obtain ⟨content, rfl, hspells⟩ := exists_spells_of_quotation h
  refine ⟨Ascii.quote :: (content ++ [Ascii.quote]), ?_, .quoted hspells⟩
  rw [List.cons_append, List.append_assoc]
  rfl

end Reader

end RobotSoccer
