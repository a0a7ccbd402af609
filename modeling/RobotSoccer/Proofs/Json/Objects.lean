import RobotSoccer.Proofs.Json.Arrays

/-!
# Objects are read back

The members of an object stand with commas between them, each as its name, a colon and its value.
Blanks may stand behind the opening, around commas and colons and in front of the end, and the
names may be spelled with escapes. Reading takes the members one after the other into what has been
gathered before, also where nobody asks for the names.
-/

namespace RobotSoccer

namespace Json

open Reader

/-- The bytes of a text between its quotes. -/
def keyBytes (name : String) : Bytes := Utf8.encodeChars (quotedChars name)

/-- The bytes behind a member: the other members, each behind a comma, and the end of the
object. -/
def membersBytes : List (String × Bytes) → Bytes
  | [] => [Ascii.closeBrace]
  | (name, value) :: rest =>
    Ascii.comma :: (keyBytes name ++ Ascii.colon :: (value ++ membersBytes rest))

/-- The bytes behind the opening of an object. -/
def innerBytes : List (String × Bytes) → Bytes
  | [] => [Ascii.closeBrace]
  | (name, value) :: rest => keyBytes name ++ Ascii.colon :: (value ++ membersBytes rest)

/-- The bytes of an object whose members have these names and bytes. -/
def objectBytes (members : List (String × Bytes)) : Bytes :=
  Ascii.openBrace :: innerBytes members

/-- A member is named by its name, a colon follows, and then comes its value. -/
theorem encodeChars_member (name : String) (value : Json) (rest : List Char) :
    Utf8.encodeChars (quotedChars name ++ ':' :: (value.chars ++ rest)) =
      keyBytes name ++ Ascii.colon :: (value.toBytes ++ Utf8.encodeChars rest) := by
  rw [Utf8.encodeChars_append, Utf8.encodeChars_cons, Utf8.encodeChars_append]
  rfl

/-- The members behind a member are written so. -/
theorem encodeChars_memberChars (members : List (String × Json)) :
    Utf8.encodeChars (memberChars members) =
      membersBytes (members.map fun member => (member.1, member.2.toBytes)) := by
  induction members with
  | nil => rfl
  | cons member members ih =>
    rw [memberChars, Utf8.encodeChars_cons, encodeChars_member, ih]
    rfl

/-- An object is written so. -/
theorem toBytes_obj (members : List (String × Json)) :
    (Json.obj members).toBytes =
      objectBytes (members.map fun member => (member.1, member.2.toBytes)) := by
  cases members with
  | nil => rfl
  | cons member members =>
    rw [toBytes, chars, Utf8.encodeChars_cons, encodeChars_member, encodeChars_memberChars]
    rfl

/-- The bytes behind a member of an object: the other members, each a name and a value with a
colon between them and behind a comma, and the end. -/
inductive MembersForm : List (Bytes × Bytes) → Bytes → Prop
  /-- There are no other members. -/
  | done {gap : Bytes} (hgap : Gap gap) : MembersForm [] (gap ++ [Ascii.closeBrace])
  /-- Another member comes, and then those behind it. -/
  | next {behind before name behindName beforeValue value more : Bytes}
    {members : List (Bytes × Bytes)} (hbehind : Gap behind) (hbefore : Gap before)
    (hbehindName : Gap behindName) (hbeforeValue : Gap beforeValue)
    (hmore : MembersForm members more) :
    MembersForm ((name, value) :: members) (behind ++ Ascii.comma :: (before ++
      (name ++ (behindName ++ Ascii.colon :: (beforeValue ++ (value ++ more))))))

/-- The bytes of an object of members. -/
inductive ObjectForm : List (Bytes × Bytes) → Bytes → Prop
  /-- There are no members. -/
  | empty {gap : Bytes} (hgap : Gap gap) :
    ObjectForm [] (Ascii.openBrace :: (gap ++ [Ascii.closeBrace]))
  /-- A first member comes, and then those behind it. -/
  | members {before name behindName beforeValue value more : Bytes}
    {members : List (Bytes × Bytes)} (hbefore : Gap before) (hbehindName : Gap behindName)
    (hbeforeValue : Gap beforeValue) (hmore : MembersForm members more) :
    ObjectForm ((name, value) :: members) (Ascii.openBrace :: (before ++
      (name ++ (behindName ++ Ascii.colon :: (beforeValue ++ (value ++ more))))))

/-- No object has more members than bytes behind its first one. -/
theorem MembersForm.length_lt {members : List (Bytes × Bytes)} {bytes : Bytes}
    (h : MembersForm members bytes) : members.length < bytes.length := by
  induction h with
  | done hgap => simp only [List.length_nil, List.length_append, List.length_cons]; omega
  | next hbehind hbefore hbehindName hbeforeValue hmore ih =>
    simp only [List.length_cons, List.length_append]
    omega

/-- What is behind the value of a member stands apart from it. -/
theorem MembersForm.apart_append {members : List (Bytes × Bytes)} {bytes : Bytes}
    (h : MembersForm members bytes) (rest : Bytes) : Apart (bytes ++ rest) := by
  cases h with
  | done hgap =>
    rw [List.append_assoc]
    exact hgap.apart_append (apart_cons _ rfl)
  | next hbehind hbefore hbehindName hbeforeValue hmore =>
    rw [List.append_assoc]
    exact hbehind.apart_append (apart_cons _ rfl)

/-- The bytes of an object open a value. -/
theorem ObjectForm.opens {members : List (Bytes × Bytes)} {bytes : Bytes}
    (h : ObjectForm members bytes) : Opens bytes := by
  cases h with
  | empty hgap => exact ⟨Ascii.openBrace, _, rfl, rfl, by decide⟩
  | members hbefore hbehindName hbeforeValue hmore =>
    exact ⟨Ascii.openBrace, _, rfl, rfl, by decide⟩

/-- The bytes of the name and of the value of a member. -/
def memberBytes (member : String × Bytes) : Bytes × Bytes := (keyBytes member.1, member.2)

/-- The compact bytes behind a member are a form of them. -/
theorem membersForm_membersBytes (members : List (String × Bytes)) :
    MembersForm (members.map memberBytes) (membersBytes members) := by
  induction members with
  | nil => exact .done gap_nil
  | cons member members ih => exact .next gap_nil gap_nil gap_nil gap_nil ih

/-- The compact bytes of an object are a form of it. -/
theorem objectForm_objectBytes (members : List (String × Bytes)) :
    ObjectForm (members.map memberBytes) (objectBytes members) := by
  cases members with
  | nil => exact .empty gap_nil
  | cons member members =>
    exact .members gap_nil gap_nil gap_nil (membersForm_membersBytes members)

/-- The bytes of a text between its quotes, in any of its spellings. -/
inductive TextForm : String → Bytes → Prop
  /-- A spelling between quotes. -/
  | quoted {s : String} {bytes : Bytes} (h : Spells s.toList bytes) :
    TextForm s (Ascii.quote :: (bytes ++ [Ascii.quote]))

/-- A text is written in a form of it. -/
theorem textForm_quotedChars (s : String) :
    TextForm s (Utf8.encodeChars (quotedChars s)) := by
  rw [encodeChars_quotedChars]
  exact .quoted (spells_escapes s.toList)

end Json

namespace Reader

variable {α κ σ : Type} {name : Reader κ} {entry : σ → κ → Reader σ}

open Json

/-- The bytes of a name are a quote and what is read as the name behind it. -/
def Names (name : Reader κ) (bytes : Bytes) (found : κ) : Prop :=
  ∃ content, bytes = Ascii.quote :: content ∧
    ∀ rest, name (content ++ rest) = .ok (found, rest)

/-- A text is read as a name however it is spelled. -/
theorem names_textForm {s : String} {bytes : Bytes} (h : TextForm s bytes) :
    Names quotation bytes s := by
  cases h with
  | @quoted content hspells =>
    refine ⟨content ++ [Ascii.quote], rfl, fun rest => ?_⟩
    rw [List.append_assoc]
    exact hspells.quotation_quote rest

/-- A text is read however it is spelled. -/
theorem reads_text_spelled {s : String} {bytes : Bytes} (h : TextForm s bytes) :
    Reads text bytes s := by
  obtain ⟨content, rfl, hread⟩ := names_textForm h
  refine ⟨⟨Ascii.quote, content, rfl, rfl, by decide⟩, fun rest _ => ?_⟩
  rw [List.cons_append, text, skipBlank_cons _ rfl]
  dsimp only
  rw [if_pos rfl, hread]

/-- The value of a member is read behind its colon, with blanks around the colon. -/
theorem Reads.valueOf_gap {value : Reader α} (hblanks : PassesBlanks value) {bytes : Bytes}
    {found : α} (h : Reads value bytes found) {behind before rest : Bytes} (hbehind : Gap behind)
    (hbefore : Gap before) (hrest : Apart rest) :
    valueOf value (behind ++ Ascii.colon :: (before ++ (bytes ++ rest))) = .ok (found, rest) := by
  have hmark : mark Ascii.colon (behind ++ Ascii.colon :: (before ++ (bytes ++ rest))) =
      .ok (before ++ (bytes ++ rest)) := passesBlanks_mark Ascii.colon behind _ hbehind
  rw [valueOf, hmark]
  exact h.gap_append hblanks hbefore hrest

/-- Taking in members one after the other leads from what was gathered before to what is gathered
after them, whatever blanks stand around their colons. -/
inductive Collects (name : Reader κ) (entry : σ → κ → Reader σ) :
    σ → List (Bytes × Bytes) → σ → Prop
  /-- There are no more members. -/
  | nil (gathered : σ) : Collects name entry gathered [] gathered
  /-- A member is taken in, and then the others. -/
  | cons {before between after : σ} {nameBytes bytes : Bytes} {found : κ}
    {members : List (Bytes × Bytes)} (hname : Names name nameBytes found)
    (hfirst : ∀ behindName beforeValue rest, Gap behindName → Gap beforeValue → Apart rest →
      entry before found (behindName ++ Ascii.colon :: (beforeValue ++ (bytes ++ rest))) =
        .ok (between, rest))
    (hmore : Collects name entry between members after) :
    Collects name entry before ((nameBytes, bytes) :: members) after

/-- A name is taken where a key must come. -/
theorem Names.key_gap {bytes : Bytes} {found : κ} (h : Names name bytes found) {gap : Bytes}
    (hgap : Gap gap) (rest : Bytes) : key name (gap ++ (bytes ++ rest)) = .ok (found, rest) := by
  obtain ⟨content, rfl, hread⟩ := h
  rw [key, hgap.skipBlank_append, List.cons_append, skipBlank_cons _ rfl]
  dsimp only
  rw [if_pos rfl, hread]

/-- The end of an object is found behind blanks. -/
theorem membersFrom_end_gap {count : Nat} (hcount : 0 < count) (first : Bool) (gathered : σ)
    {gap : Bytes} (hgap : Gap gap) (rest : Bytes) :
    membersFrom name entry count first gathered (gap ++ [Ascii.closeBrace] ++ rest) =
      .ok (gathered, rest) := by
  rw [List.append_assoc, passesBlanks_membersFrom name entry count first gathered gap _ hgap]
  cases count with
  | zero => exact absurd hcount (Nat.lt_irrefl _)
  | succ count => rfl

/-- The members behind a member are read one after the other. -/
theorem membersFrom_membersForm {before after : σ} {members : List (Bytes × Bytes)}
    (h : Collects name entry before members after) {bytes : Bytes}
    (hform : MembersForm members bytes) {count : Nat} (hcount : members.length < count)
    (rest : Bytes) :
    membersFrom name entry count false before (bytes ++ rest) = .ok (after, rest) := by
  induction h generalizing bytes count with
  | nil gathered =>
    cases hform with
    | done hgap => exact membersFrom_end_gap (Nat.zero_lt_of_lt hcount) false gathered hgap rest
  | cons hname hfirst hmore ih =>
    cases count with
    | zero => exact absurd hcount (Nat.not_lt_zero _)
    | succ count =>
      cases hform with
      | next hbehind hbefore hbehindName hbeforeValue hmoreForm =>
        have hrest := ih hmoreForm (Nat.lt_of_succ_lt_succ hcount)
        simp only [List.append_assoc, List.cons_append]
        rw [passesBlanks_membersFrom name entry _ false _ _ _ hbehind, membersFrom,
          skipBlank_cons _ rfl]
        dsimp only
        rw [if_neg (by decide), if_neg (by decide), if_pos rfl, hname.key_gap hbefore]
        dsimp only
        rw [hfirst _ _ _ hbehindName hbeforeValue (hmoreForm.apart_append rest)]
        exact hrest

/-- All members of an object are read behind its opening. -/
theorem members_objectForm {before after : σ} {written : List (Bytes × Bytes)}
    (h : Collects name entry before written after) {bytes : Bytes}
    (hform : ObjectForm written bytes) (rest : Bytes) :
    ∃ inner, bytes ++ rest = Ascii.openBrace :: inner ∧
      members name entry before inner = .ok (after, rest) := by
  cases h with
  | nil =>
    cases hform with
    | @empty gap hgap =>
      exact ⟨gap ++ [Ascii.closeBrace] ++ rest, rfl,
        membersFrom_end_gap (Nat.succ_pos _) true before hgap rest⟩
  | @cons _ between _ nameBytes value found others hname hfirst hmore =>
    cases hform with
    | @members _ _ behindName beforeValue _ more _ hbefore hbehindName hbeforeValue hmoreForm =>
      refine ⟨_, rfl, ?_⟩
      rw [members]
      generalize hcount : List.length _ = count
      have hlength := hmoreForm.length_lt
      simp only [List.append_eq, List.length_append, List.length_cons] at hcount
      simp only [List.append_eq, List.append_assoc, List.cons_append]
      rw [passesBlanks_membersFrom name entry _ true _ _ _ hbefore]
      have hkey := hname.key_gap gap_nil
        (behindName ++ Ascii.colon :: (beforeValue ++ (value ++ (more ++ rest))))
      obtain ⟨content, rfl, -⟩ := hname
      simp only [List.nil_append, List.cons_append] at hkey ⊢
      rw [membersFrom, skipBlank_cons _ rfl]
      dsimp only
      rw [if_neg (by decide), if_pos rfl, hkey]
      dsimp only
      rw [hfirst _ _ _ hbehindName hbeforeValue (hmoreForm.apart_append rest)]
      exact membersFrom_membersForm hmore hmoreForm (by omega) rest

/-- The bytes of a name start with a quote. -/
theorem keyBytes_append (name : String) (rest : Bytes) :
    ∃ more, keyBytes name ++ rest = Ascii.quote :: more ∧
      quotation more = .ok (name, rest) := by
  refine ⟨_, ?_, quotation_quotedChars name rest⟩
  rw [keyBytes, encodeChars_quotedChars, List.cons_append, List.append_assoc]
  rfl

/-- A name is taken from in front of what follows it. -/
theorem key_quoted (name : String) (rest : Bytes) :
    key quotation (keyBytes name ++ rest) = .ok (name, rest) := by
  obtain ⟨more, hbytes, hread⟩ := keyBytes_append name rest
  rw [hbytes, key, skipBlank_cons _ rfl]
  dsimp only
  rw [if_pos rfl, hread]

end Reader

end RobotSoccer
