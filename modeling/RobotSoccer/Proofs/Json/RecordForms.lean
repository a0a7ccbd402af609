import Mathlib.Data.List.Nodup
import RobotSoccer.Proofs.Json.Forms

/-!
# In how many ways a record can be written

A record is an object of its parts in any order, with members that it does not know between them
and without the parts that are as in the blank, or it is the array of its parts. A reader of
records whose members understand the forms of the parts understands all of these.
-/

namespace RobotSoccer

/-- A part of a kind of records: its name, its value in a whole, and how its values are written. -/
structure Field (σ : Type) where
  /-- Its name. -/
  name : String
  /-- The type of its values. -/
  Value : Type
  /-- Its value in a whole. -/
  get : σ → Value
  /-- How its values are written. -/
  form : Form Value

/-- How a kind of records is laid out. -/
structure Layout (σ : Type) where
  /-- The whole whose parts need not be written. -/
  blank : σ
  /-- The parts, in the order in which an array lists them. -/
  fields : List (Field σ)
  /-- Whether every part must be written. -/
  complete : Bool

namespace Layout

variable {σ : Type}

/-- The bytes stand for a part of a whole. -/
def Shows (whole : σ) (field : Field σ) (bytes : Bytes) : Prop :=
  field.form (field.get whole) bytes

/-- A part of a whole need not be written. -/
structure MayMiss (layout : Layout σ) (whole : σ) (field : Field σ) : Prop where
  /-- Parts may be missing. -/
  optional : layout.complete = false
  /-- The part is the one of the blank. -/
  same : field.get whole = field.get layout.blank

/-- The members of an object that shows a whole, with the parts that they show: each is a part
under its name or a member of any value under a name that no part has. -/
inductive Members (layout : Layout σ) (whole : σ) :
    List (Field σ) → List (Bytes × Bytes) → Prop
  /-- There are no more members. -/
  | nil : Members layout whole [] []
  /-- A part under its name. -/
  | known {field : Field σ} {name bytes : Bytes} {shown : List (Field σ)}
    {members : List (Bytes × Bytes)} (hfield : field ∈ layout.fields)
    (hname : Form.text field.name name) (hvalue : Shows whole field bytes)
    (hmore : Members layout whole shown members) :
    Members layout whole (field :: shown) ((name, bytes) :: members)
  /-- A member that the record does not know. -/
  | unknown {s : String} {name bytes : Bytes} {shown : List (Field σ)}
    {members : List (Bytes × Bytes)} (hunknown : ∀ field ∈ layout.fields, field.name ≠ s)
    (hname : Form.text s name) (hvalue : Json.ValueForm bytes)
    (hmore : Members layout whole shown members) :
    Members layout whole shown ((name, bytes) :: members)

/-- Records are objects or arrays. -/
inductive form (layout : Layout σ) : Form σ
  /-- An object whose members, in any order, show each part at most once; the parts that it does
  not show may miss. -/
  | object {whole : σ} {shown : List (Field σ)} {members : List (Bytes × Bytes)} {bytes : Bytes}
    (hmembers : Members layout whole shown members) (honce : (shown.map (·.name)).Nodup)
    (hmissing : ∀ field ∈ layout.fields, field ∉ shown → layout.MayMiss whole field)
    (h : Json.ObjectForm members bytes) : form layout whole bytes
  /-- An array of the parts in their order; the last ones may miss. -/
  | array {whole : σ} {shown missing : List (Field σ)} {items : List Bytes} {bytes : Bytes}
    (hfields : layout.fields = shown ++ missing)
    (hitems : List.Forall₂ (Shows whole) shown items)
    (hmissing : ∀ field ∈ missing, layout.MayMiss whole field)
    (h : Json.ArrayForm items bytes) : form layout whole bytes

end Layout

/-- A member of a record is read as a part is laid out. -/
structure Member.Follows {σ : Type} (member : Member σ) (field : Field σ) : Prop where
  /-- They have one name. -/
  name : member.name = field.name
  /-- The member is the same in wholes that have the same part. -/
  get : ∀ {whole other}, field.get whole = field.get other → member.get whole = member.get other
  /-- Blanks in front of the member make no difference. -/
  blanks : Reader.PassesBlanks member.codec.read
  /-- What shows the part is read as the member. -/
  reads : ∀ {whole bytes}, Layout.Shows whole field bytes →
    Reader.Reads member.codec.read bytes (member.get whole)

/-- A member whose reader understands the form of a part follows the part. -/
theorem Member.follows {σ α : Type} {name : String} {get : σ → α} {set : σ → α → σ}
    {codec : Codec α} {form : Form α} (h : Reader.Understands codec.read form) :
    Member.Follows ⟨name, α, codec, get, set⟩ ⟨name, α, get, form⟩ where
  name := rfl
  get := fun hsame => hsame
  blanks := h.blanks
  reads := fun hshown => h.reads hshown

namespace Record

variable {σ : Type} {record : Record σ} {layout : Layout σ} {whole : σ}

open Reader Json

/-- The members of a record have names of their own. -/
def Named (record : Record σ) : Prop := (record.members.map (·.name)).Nodup

instance (record : Record σ) : Decidable record.Named :=
  inferInstanceAs (Decidable (record.members.map (·.name)).Nodup)

/-- A member with a name of its own is found by it. -/
theorem find?_of_nodup {members : List (Member σ)} (hnodup : (members.map (·.name)).Nodup)
    {member : Member σ} (hmem : member ∈ members) :
    members.find? (fun found => found.name = member.name) = some member := by
  induction members with
  | nil => cases hmem
  | cons first members ih =>
    obtain ⟨hfirst, hmore⟩ := List.nodup_cons.1 hnodup
    rcases List.mem_cons.1 hmem with rfl | hmem
    · exact List.find?_cons_of_pos (decide_eq_true rfl)
    · have hname : first.name ≠ member.name := by
        intro heq
        exact hfirst (List.mem_map.2 ⟨member, hmem, heq.symm⟩)
      rw [List.find?_cons_of_neg (by simp [hname])]
      exact ih hmore hmem

/-- A whole with the values that its members have in another one. -/
def fill (other : σ) (members : List (Member σ)) (blank : σ) : σ :=
  members.foldl (fun whole member => member.set whole (member.get other)) blank

/-- Setting a member changes that member and no other, and the members make up the whole. -/
structure Lawful (record : Record σ) : Prop where
  /-- The members have names of their own. -/
  named : record.Named
  /-- A member that was set is what it was set to. -/
  get_set : ∀ member ∈ record.members, ∀ whole value, member.get (member.set whole value) = value
  /-- The other members stay as they are. -/
  get_set_of_ne : ∀ member ∈ record.members, ∀ other ∈ record.members,
    other.name ≠ member.name → ∀ whole value, other.get (member.set whole value) = other.get whole
  /-- Wholes with the same members are the same. -/
  ext : ∀ whole other, (∀ member ∈ record.members, member.get whole = member.get other) →
    whole = other

/-- A record is read as it is laid out. -/
structure Follows (record : Record σ) (layout : Layout σ) : Prop where
  /-- They start from the same whole. -/
  blank : record.blank = layout.blank
  /-- They agree on whether all parts must be there. -/
  complete : record.complete = layout.complete
  /-- The members follow the parts. -/
  members : List.Forall₂ Member.Follows record.members layout.fields

/-- A member that was filled in is as in the whole that it was filled in from, and each other one
is as it was. -/
theorem Lawful.get_fill (hlawful : record.Lawful) {taken : List (Member σ)}
    (htaken : ∀ member ∈ taken, member ∈ record.members) {member : Member σ}
    (hmember : member ∈ record.members) (gathered : σ) :
    member.get (fill whole taken gathered) =
      if member.name ∈ taken.map (·.name) then member.get whole else member.get gathered := by
  induction taken generalizing gathered with
  | nil => rfl
  | cons first taken ih =>
    have hfirst := htaken first List.mem_cons_self
    have hrest := ih (fun other hother => htaken other (List.mem_cons_of_mem _ hother))
      (first.set gathered (first.get whole))
    have hfill : fill whole (first :: taken) gathered =
        fill whole taken (first.set gathered (first.get whole)) := rfl
    rw [hfill, hrest, List.map_cons]
    by_cases hlater : member.name ∈ taken.map (·.name)
    · rw [if_pos hlater, if_pos (List.mem_cons_of_mem _ hlater)]
    · rw [if_neg hlater]
      by_cases hname : member.name = first.name
      · have hsame : member = first :=
          List.inj_on_of_nodup_map hlawful.named hmember hfirst hname
        subst hsame
        rw [if_pos List.mem_cons_self, hlawful.get_set member hmember]
      · have hnone : member.name ∉ first.name :: taken.map (·.name) :=
          fun hmem => (List.mem_cons.1 hmem).elim hname hlater
        rw [if_neg hnone, hlawful.get_set_of_ne first hfirst member hmember hname]

/-- A whole is filled in from the blank when each member that is not filled in is as in the
blank. -/
theorem Lawful.fill_blank (hlawful : record.Lawful) {taken : List (Member σ)}
    (htaken : ∀ member ∈ taken, member ∈ record.members)
    (hrest : ∀ member ∈ record.members, member.name ∉ taken.map (·.name) →
      member.get whole = member.get record.blank) :
    fill whole taken record.blank = whole := by
  refine hlawful.ext _ _ fun member hmember => ?_
  rw [hlawful.get_fill htaken hmember]
  by_cases hname : member.name ∈ taken.map (·.name)
  · rw [if_pos hname]
  · rw [if_neg hname]
    exact (hrest member hmember hname).symm

/-- For each part there is a member that follows it. -/
theorem Follows.exists_member (h : record.Follows layout) {field : Field σ}
    (hfield : field ∈ layout.fields) : ∃ member ∈ record.members, member.Follows field := by
  obtain ⟨i, hi, rfl⟩ := List.getElem_of_mem hfield
  obtain ⟨hlength, hget⟩ := List.forall₂_iff_get.1 h.members
  exact ⟨record.members[i], List.getElem_mem _, hget i (hlength ▸ hi) hi⟩

/-- For each member there is a part that it follows. -/
theorem Follows.exists_field (h : record.Follows layout) {member : Member σ}
    (hmember : member ∈ record.members) : ∃ field ∈ layout.fields, member.Follows field := by
  obtain ⟨i, hi, rfl⟩ := List.getElem_of_mem hmember
  obtain ⟨hlength, hget⟩ := List.forall₂_iff_get.1 h.members
  exact ⟨layout.fields[i], List.getElem_mem _, hget i hi (hlength ▸ hi)⟩

/-- A member is missing from the parts that are shown only when it is as in the blank. -/
theorem Follows.get_blank (h : record.Follows layout) {shown : List (Field σ)}
    (hmissing : ∀ field ∈ layout.fields, field ∉ shown → layout.MayMiss whole field)
    {member : Member σ} (hmember : member ∈ record.members)
    (hname : member.name ∉ shown.map (·.name)) :
    record.complete = false ∧ member.get whole = member.get record.blank := by
  obtain ⟨field, hfield, hfollows⟩ := h.exists_field hmember
  have hnot : field ∉ shown := fun hshown =>
    hname (List.mem_map.2 ⟨field, hshown, hfollows.name.symm⟩)
  have hmiss := hmissing field hfield hnot
  rw [h.blank, h.complete]
  exact ⟨hmiss.optional, hfollows.get hmiss.same⟩

/-- The members of an object that shows a whole are taken in one after the other. -/
theorem Follows.collects (h : record.Follows layout) (hlawful : record.Lawful)
    {shown : List (Field σ)} {written : List (Bytes × Bytes)}
    (hmembers : layout.Members whole shown written) (honce : (shown.map (·.name)).Nodup)
    {names : List String} (hnames : ∀ field ∈ shown, field.name ∉ names) (gathered : σ) :
    ∃ taken : List (Member σ), (∀ member ∈ taken, member ∈ record.members) ∧
      taken.map (·.name) = shown.map (·.name) ∧
      Collects quotation record.takeMember (gathered, names) written
        (fill whole taken gathered, (taken.map (·.name)).reverse ++ names) := by
  induction hmembers generalizing gathered names with
  | nil => exact ⟨[], fun _ hmem => absurd hmem List.not_mem_nil, rfl, .nil _⟩
  | @known field name bytes shown members hfield hname hvalue _ ih =>
    obtain ⟨member, hmember, hfollows⟩ := h.exists_member hfield
    obtain ⟨hfirst, hmore⟩ := List.nodup_cons.1 honce
    have hlater : ∀ later ∈ shown, later.name ∉ member.name :: names := by
      intro later hlater hcame
      rcases List.mem_cons.1 hcame with heq | hcame
      · exact hfirst (List.mem_map.2 ⟨later, hlater, heq.trans hfollows.name⟩)
      · exact hnames later (List.mem_cons_of_mem _ hlater) hcame
    obtain ⟨taken, htaken, hsame, hcollects⟩ :=
      ih hmore hlater (member.set gathered (member.get whole))
    refine ⟨member :: taken, List.forall_mem_cons.2 ⟨hmember, htaken⟩, ?_, ?_⟩
    · rw [List.map_cons, List.map_cons, hsame, hfollows.name]
    · rw [List.map_cons, List.reverse_cons, List.append_assoc]
      refine .cons (names_textForm hname) (fun behindName beforeValue rest hbehind hbefore
        hrest => ?_) hcollects
      have hfound : record.member? field.name = some member :=
        hfollows.name ▸ find?_of_nodup hlawful.named hmember
      have hnew : field.name ∉ names := hnames field List.mem_cons_self
      rw [takeMember, hfound]
      dsimp only
      rw [if_neg hnew, (hfollows.reads hvalue).valueOf_gap hfollows.blanks hbehind hbefore hrest,
        hfollows.name]
      rfl
  | @unknown s name bytes shown members hunknown hname hvalue _ ih =>
    obtain ⟨taken, htaken, hsame, hcollects⟩ := ih honce hnames gathered
    refine ⟨taken, htaken, hsame, .cons (names_textForm hname) (fun behindName beforeValue rest
      hbehind hbefore hrest => ?_) hcollects⟩
    have hnone : record.member? s = none := by
      refine List.find?_eq_none.2 fun member hmember heq => ?_
      obtain ⟨field, hfield, hfollows⟩ := h.exists_field hmember
      exact hunknown field hfield (hfollows.name.symm.trans (of_decide_eq_true heq))
    rw [takeMember, hnone]
    dsimp only
    rw [valueOf_skip hvalue hbehind hbefore hrest]
    rfl

/-- An object that shows a whole is read as it. -/
theorem Follows.reads_object (h : record.Follows layout) (hlawful : record.Lawful)
    {shown : List (Field σ)} {written : List (Bytes × Bytes)} {bytes : Bytes}
    (hmembers : layout.Members whole shown written) (honce : (shown.map (·.name)).Nodup)
    (hmissing : ∀ field ∈ layout.fields, field ∉ shown → layout.MayMiss whole field)
    (hform : ObjectForm written bytes) : Reads record.read bytes whole := by
  obtain ⟨taken, htaken, hsame, hcollects⟩ :=
    h.collects hlawful hmembers honce (fun _ _ => List.not_mem_nil) record.blank
  have hblank {member : Member σ} (hmember : member ∈ record.members)
      (hname : member.name ∉ taken.map (·.name)) :=
    h.get_blank hmissing hmember (hsame ▸ hname)
  have hfill := hlawful.fill_blank htaken fun member hmember hname =>
    (hblank hmember hname).2
  refine ⟨hform.opens, fun rest _ => ?_⟩
  obtain ⟨inner, hinner, hread⟩ := members_objectForm hcollects hform rest
  have hcomplete : (record.complete && !(record.members.all fun member : Member σ =>
      ((taken.map Member.name).reverse ++ []).contains member.name)) = false := by
    cases hpartial : record.complete with
    | false => rfl
    | true =>
      rw [Bool.true_and, Bool.not_eq_false', List.all_eq_true]
      intro member hmember
      rw [List.contains_iff_mem, List.append_nil, List.mem_reverse]
      by_contra hname
      exact Bool.noConfusion (hpartial.symm.trans (hblank hmember hname).1)
  rw [hinner, read, skipBlank_cons _ rfl]
  dsimp only
  rw [if_pos rfl, readObject, hread]
  dsimp only
  rw [hcomplete, hfill]
  rfl

/-- At the end of an array the members that are left keep their values. -/
theorem readPlaces_end {complete : Bool} {left : List (Member σ)}
    (hleft : left ≠ [] → complete = false) (first : Bool) (gathered : σ) {gap : Bytes}
    (hgap : Gap gap) (rest : Bytes) :
    readPlaces complete left first gathered (gap ++ [Ascii.closeBracket] ++ rest) =
      .ok (gathered, rest) := by
  induction left generalizing first gap with
  | nil =>
    have hclose := closeArray_gap hgap rest
    rw [readPlaces, List.append_assoc]
    exact congrArg (Except.map (gathered, ·)) hclose
  | cons member left ih =>
    have hpartial := hleft (List.cons_ne_nil _ _)
    rw [readPlaces, slot_end_gap first _ hgap]
    dsimp only
    rw [hpartial, if_neg Bool.false_ne_true]
    exact hpartial ▸ ih (fun _ => hpartial) false gap_nil

/-- The members that an array shows are read one after the other; those behind them keep their
values. -/
theorem readPlaces_itemsForm {complete : Bool} {taken left : List (Member σ)}
    {items : List Bytes}
    (hreads : List.Forall₂ (fun (member : Member σ) item =>
      PassesBlanks member.codec.read ∧ Reads member.codec.read item (member.get whole))
      taken items)
    (hleft : left ≠ [] → complete = false) {bytes : Bytes} (hform : ItemsForm items bytes)
    (gathered : σ) (rest : Bytes) :
    readPlaces complete (taken ++ left) false gathered (bytes ++ rest) =
      .ok (fill whole taken gathered, rest) := by
  induction hreads generalizing bytes gathered with
  | nil =>
    cases hform with
    | done hgap => exact readPlaces_end hleft false gathered hgap rest
  | cons hread _ ih =>
    cases hform with
    | next hbehind hbefore hmore =>
      have hrest := ih hmore
      simp only [List.append_assoc, List.cons_append]
      rw [readPlaces,
        hread.2.slot_next_gap hread.1 hbehind hbefore (hmore.apart_append rest)]
      exact hrest _

/-- Members have the names of the parts that they follow. -/
theorem names_of_follows {taken : List (Member σ)} {shown : List (Field σ)}
    (h : List.Forall₂ Member.Follows taken shown) :
    taken.map (·.name) = shown.map (·.name) := by
  induction h with
  | nil => rfl
  | cons hfollows _ ih => rw [List.map_cons, List.map_cons, hfollows.name, ih]

/-- What shows parts is read as the members that follow them. -/
theorem reads_items {taken : List (Member σ)} {shown : List (Field σ)} {items : List Bytes}
    (hfollows : List.Forall₂ Member.Follows taken shown)
    (hitems : List.Forall₂ (Layout.Shows whole) shown items) :
    List.Forall₂ (fun (member : Member σ) item =>
      PassesBlanks member.codec.read ∧ Reads member.codec.read item (member.get whole))
      taken items := by
  induction hfollows generalizing items with
  | nil =>
    cases hitems
    exact .nil
  | cons hfollows _ ih =>
    cases hitems with
    | cons hitem hmore => exact .cons ⟨hfollows.blanks, hfollows.reads hitem⟩ (ih hmore)

/-- The places of an array that shows the first members of a whole give these members. -/
theorem readPlaces_arrayForm {complete : Bool} {taken left : List (Member σ)}
    {items : List Bytes}
    (hreads : List.Forall₂ (fun (member : Member σ) item =>
      PassesBlanks member.codec.read ∧ Reads member.codec.read item (member.get whole))
      taken items)
    (hleft : left ≠ [] → complete = false) {bytes : Bytes} (hform : ArrayForm items bytes)
    (gathered : σ) (rest : Bytes) :
    ∃ inner, bytes ++ rest = Ascii.openBracket :: inner ∧
      readPlaces complete (taken ++ left) true gathered inner =
        .ok (fill whole taken gathered, rest) := by
  cases hreads with
  | nil =>
    cases hform with
    | @empty gap hgap =>
      exact ⟨gap ++ [Ascii.closeBracket] ++ rest, rfl,
        readPlaces_end hleft true gathered hgap rest⟩
  | @cons member item taken items hread hmoreReads =>
    cases hform with
    | @items before _ more _ hbefore hmore =>
      have hrest := readPlaces_itemsForm hmoreReads hleft hmore
      refine ⟨before ++ (item ++ more) ++ rest, rfl, ?_⟩
      simp only [List.append_assoc, List.cons_append]
      rw [readPlaces, hread.2.slot_first_gap hbefore (hmore.apart_append rest)]
      exact hrest _ _

/-- An array that shows the first members of a whole is read as it when the others are as in the
blank. -/
theorem Follows.reads_array (h : record.Follows layout) (hlawful : record.Lawful)
    {shown missing : List (Field σ)} {items : List Bytes} {bytes : Bytes}
    (hfields : layout.fields = shown ++ missing)
    (hitems : List.Forall₂ (Layout.Shows whole) shown items)
    (hmissing : ∀ field ∈ missing, layout.MayMiss whole field)
    (hform : ArrayForm items bytes) : Reads record.read bytes whole := by
  have hmembers := h.members
  rw [hfields] at hmembers
  have htaken := List.forall₂_take_append _ _ _ hmembers
  have hleft := List.forall₂_drop_append _ _ _ hmembers
  have hsplit := List.take_append_drop shown.length record.members
  generalize record.members.take shown.length = taken at htaken hsplit
  generalize record.members.drop shown.length = left at hleft hsplit
  have hoptional : left ≠ [] → record.complete = false := by
    intro hne
    cases hleft with
    | nil => exact absurd rfl hne
    | cons _ _ => exact h.complete.trans (hmissing _ List.mem_cons_self).optional
  have hnotShown : ∀ field ∈ layout.fields, field ∉ shown → layout.MayMiss whole field := by
    intro field hfield hnot
    rw [hfields] at hfield
    exact hmissing field ((List.mem_append.1 hfield).resolve_left hnot)
  have hfill : fill whole taken record.blank = whole := by
    refine hlawful.fill_blank (fun member hmember => hsplit ▸ List.mem_append_left _ hmember)
      fun member hmember hname => ?_
    rw [names_of_follows htaken] at hname
    exact (h.get_blank hnotShown hmember hname).2
  refine ⟨hform.opens, fun rest _ => ?_⟩
  obtain ⟨inner, hinner, hread⟩ :=
    readPlaces_arrayForm (reads_items htaken hitems) hoptional hform record.blank rest
  rw [hinner, read, skipBlank_cons _ rfl]
  dsimp only
  rw [if_neg (by decide), if_pos rfl, ← hsplit, hread, hfill]

/-- A lawful record that is laid out in some way understands what is written in that way. -/
theorem Follows.understands (h : record.Follows layout) (hlawful : record.Lawful) :
    Understands record.codec.read layout.form where
  blanks := record.passesBlanks_read
  reads := by
    intro whole bytes hform
    cases hform with
    | object hmembers honce hmissing hobject =>
      exact h.reads_object hlawful hmembers honce hmissing hobject
    | array hfields hitems hmissing harray =>
      exact h.reads_array hlawful hfields hitems hmissing harray

end Record

end RobotSoccer
