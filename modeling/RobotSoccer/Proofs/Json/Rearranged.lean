import Mathlib.Data.List.Perm.Basic
import RobotSoccer.Proofs.Dict
import RobotSoccer.Proofs.Json.RecordForms

/-!
# Texts whose objects are in another order

The members of an object may be written in any order, at any depth of a value. The compact text of
a value, its objects in any order, is one of the ways to write what the value stands for.
-/

namespace RobotSoccer

namespace Json

/-- Two members have one name, and their values are related. -/
inductive Alike (related : Json → Json → Prop) : String × Json → String × Json → Prop
  /-- Related values under one name. -/
  | named {name : String} {value other : Json} (h : related value other) :
    Alike related (name, value) (name, other)

/-- A value with the members of its objects in another order, at any depth. -/
inductive Rearranged : Json → Json → Prop
  /-- Nothing is in another order. -/
  | same (value : Json) : Rearranged value value
  /-- Items of an array are rearranged, each in its place. -/
  | arr {items others : List Json} (h : List.Forall₂ Rearranged items others) :
    Rearranged (.arr items) (.arr others)
  /-- Members of an object come in another order, and their values are rearranged. -/
  | obj {members between others : List (String × Json)} (horder : between.Perm members)
    (hvalues : List.Forall₂ (Alike Rearranged) between others) :
    Rearranged (.obj members) (.obj others)

namespace Rearranged

/-- What an array is rearranged to is the array of its rearranged items. -/
theorem exists_arr {items : List Json} {json : Json} (h : Rearranged (.arr items) json) :
    ∃ others, json = .arr others ∧ List.Forall₂ Rearranged items others := by
  cases h with
  | same => exact ⟨items, rfl, List.forall₂_same.2 fun item _ => .same item⟩
  | arr h => exact ⟨_, rfl, h⟩

/-- What an object of listed members is rearranged to is the object of its rearranged members, for
the listed ones in some order. -/
theorem exists_obj {α : Type*} {f : α → String × Json} {listed : List α} {json : Json}
    (h : Rearranged (.obj (listed.map f)) json) :
    ∃ order others, json = .obj others ∧ order.Perm listed ∧
      List.Forall₂ (fun item other => Alike Rearranged (f item) other) order others := by
  cases h with
  | same =>
    refine ⟨listed, listed.map f, rfl, .refl _, ?_⟩
    exact List.forall₂_map_right_iff.2 (List.forall₂_same.2 fun item _ => .named (.same _))
  | @obj _ between others horder hvalues =>
    have hcomp : Relation.Comp (· = List.map f ·) List.Perm between listed :=
      (List.eq_map_comp_perm f).symm ▸ horder
    obtain ⟨order, rfl, hperm⟩ := hcomp
    exact ⟨order, others, rfl, hperm, List.forall₂_map_left_iff.1 hvalues⟩

end Rearranged

end Json

namespace Codec

variable {α : Type} {codec : Codec α} {form : Form α}

open Json

/-- The text of a value, its objects in any order, stands for what comes back of the value. -/
def Writes (codec : Codec α) (form : Form α) (value back : α) : Prop :=
  ∀ json, Rearranged (codec.write value) json → form back json.toBytes

/-- Truth values are written as they are. -/
theorem writes_boolean (b : Bool) : Writes boolean .boolean b b := by
  intro json hjson
  cases hjson with
  | same =>
    cases b with
    | true => exact .true
    | false => exact .false

/-- Finite doubles come back as their texts are read. -/
theorem writes_double {x : Float} (h : x.isFinite = true) :
    Writes double .double x (Number.reread x) := by
  intro json hjson
  cases hjson with
  | same =>
    obtain ⟨said, hform, hvalue⟩ := Reader.numberForm_numberText h
    have hbytes : (Json.float x).toBytes = Utf8.encodeChars (Number.numberText x) :=
      congrArg Utf8.encodeChars (if_pos h)
    rw [double, hbytes]
    exact .number (.spelled hform hvalue)

/-- A whole number of at most 32 bits is written as it is. -/
theorem natural_integerText {n : Nat} (h : n < 0x100000000) :
    Form.natural n (Json.int n).toBytes := by
  obtain ⟨said, hform, hvalue⟩ := Reader.numberForm_integerText (n := n) (by omega) (by omega)
  exact .spelled hform hvalue

/-- Bytes are written as they are. -/
theorem writes_byte (n : UInt8) : Writes byte .byte n n := by
  intro json hjson
  cases hjson with
  | same => exact natural_integerText (Nat.lt_trans n.toNat_lt (by decide))

/-- Numbers of 32 bits are written as they are. -/
theorem writes_count (n : UInt32) : Writes count .count n n := by
  intro json hjson
  cases hjson with
  | same => exact natural_integerText n.toNat_lt

/-- Texts are written as they are. -/
theorem writes_text (s : String) : Writes text .text s s := by
  intro json hjson
  cases hjson with
  | same => exact textForm_quotedChars s

/-- A missing value is written as null. -/
theorem writes_nullable_none (codec : Codec α) (form : Form α) :
    Writes codec.nullable form.nullable none none := by
  intro json hjson
  cases hjson with
  | same => exact .none

/-- A value that is not missing is written as it is. -/
theorem Writes.nullable_some {value back : α} (h : Writes codec form value back) :
    Writes codec.nullable form.nullable (some value) (some back) :=
  fun json hjson => .some (h json hjson)

/-- A value that may be missing is written as it is where it is not missing. -/
theorem writes_nullable {f : α → α} {value : Option α}
    (h : ∀ found ∈ value, Writes codec form found (f found)) :
    Writes codec.nullable form.nullable value (value.map f) := by
  cases value with
  | none => exact writes_nullable_none codec form
  | some found => exact (h found rfl).nullable_some

/-- A value that may be missing is written as it is when every value of its kind is. -/
theorem writes_nullable_same {value : Option α} (h : ∀ found ∈ value, Writes codec form found found) :
    Writes codec.nullable form.nullable value value := by
  have hwrites : Writes codec.nullable form.nullable value (value.map id) := writes_nullable h
  rwa [Option.map_id] at hwrites

/-- A double that may be missing comes back as its text is read when it is finite, and as nothing when
it is not. -/
theorem writes_nullable_double (x : Option Float) :
    Writes double.nullable (.nullable .double) x ((x.filter (·.isFinite)).map Number.reread) := by
  cases x with
  | none => exact writes_nullable_none double .double
  | some x =>
    cases hfinite : x.isFinite with
    | true =>
      rw [Option.filter_some_pos hfinite]
      exact (writes_double hfinite).nullable_some
    | false =>
      rw [Option.filter_some_neg hfinite]
      intro json hjson
      cases hjson with
      | same =>
        have hchars : Json.floatChars x = Json.chars .null := by
          rw [Json.floatChars, hfinite, if_neg Bool.false_ne_true, Json.chars]
        have hbytes : (Json.float x).toBytes = Json.toBytes .null :=
          congrArg Utf8.encodeChars hchars
        exact hbytes ▸ .none

/-- An array of rearranged items is a form of them. -/
theorem arrayForm_toBytes (items : List Json) :
    ArrayForm (items.map Json.toBytes) (Json.arr items).toBytes := by
  rw [toBytes_arr]
  exact arrayForm_arrayBytes _

/-- Lists are written as their items are. -/
theorem writes_list {values backs : List α}
    (h : List.Forall₂ (Writes codec form) values backs) :
    Writes codec.list form.list values backs := by
  intro json hjson
  obtain ⟨others, rfl, hothers⟩ := hjson.exists_arr
  rw [List.forall₂_map_left_iff] at hothers
  refine .array ?_ (arrayForm_toBytes others)
  clear hjson
  induction h generalizing others with
  | nil =>
    cases hothers
    exact .nil
  | cons hvalue _ ih =>
    cases hothers with
    | cons hother hmore => exact .cons (hvalue _ hother) (ih _ hmore)

/-- The bytes of the name and of the value of a member. -/
def writtenMember (member : String × Json) : Bytes × Bytes :=
  memberBytes (member.1, member.2.toBytes)

/-- An object of members is a form of them. -/
theorem objectForm_toBytes (members : List (String × Json)) :
    ObjectForm (members.map writtenMember) (Json.obj members).toBytes := by
  have hform := objectForm_objectBytes (members.map fun member => (member.1, member.2.toBytes))
  rw [List.map_map] at hform
  rw [toBytes_obj]
  exact hform

/-- Maps are written as their values are. -/
theorem writes_dict {f : α → α} {dict : Dict α}
    (h : ∀ entry ∈ dict.entries, Writes codec form entry.2 (f entry.2)) :
    Writes codec.dict form.dict dict (dict.mapValues f) := by
  intro json hjson
  obtain ⟨order, others, rfl, horder, hothers⟩ := hjson.exists_obj
  have hback : Dict.ofList (order.map fun entry => (entry.1, f entry.2)) = dict.mapValues f :=
    Dict.ofList_perm (horder.map _)
  rw [← hback]
  refine .object ?_ (objectForm_toBytes others)
  have hwrites : ∀ entry ∈ order, Writes codec form entry.2 (f entry.2) :=
    fun entry hentry => h entry (horder.mem_iff.1 hentry)
  clear hjson horder hback
  induction hothers with
  | nil => exact .nil
  | cons hother _ ih =>
    have hfirst := hwrites _ List.mem_cons_self
    have hrest := ih fun entry hentry => hwrites entry (List.mem_cons_of_mem _ hentry)
    cases hother with
    | named hother => exact .cons ⟨textForm_quotedChars _, hfirst _ hother⟩ hrest

/-- Maps are written as they are when their values are. -/
theorem writes_dict_same {dict : Dict α}
    (h : ∀ entry ∈ dict.entries, Writes codec form entry.2 entry.2) :
    Writes codec.dict form.dict dict dict := by
  have hwrites : Writes codec.dict form.dict dict (dict.mapValues id) := writes_dict h
  rw [Dict.mapValues_eq_self fun _ _ => rfl] at hwrites
  exact hwrites

end Codec

/-- The text of a member of a whole, its objects in any order, shows a part of what comes back of
the whole. -/
structure Member.Writes {σ : Type} (member : Member σ) (field : Field σ) (whole back : σ) :
    Prop where
  /-- The member has the name of the part. -/
  name : member.name = field.name
  /-- The text stands for the part. -/
  shows : ∀ json, Json.Rearranged (member.codec.write (member.get whole)) json →
    Layout.Shows back field json.toBytes

/-- A member whose text stands for what comes back of it shows that. -/
theorem Member.writes {σ α : Type} {name : String} {get : σ → α} {set : σ → α → σ}
    {codec : Codec α} {form : Form α} {whole back : σ}
    (h : codec.Writes form (get whole) (get back)) :
    Member.Writes ⟨name, α, codec, get, set⟩ ⟨name, α, get, form⟩ whole back where
  name := rfl
  shows := h

namespace Record

variable {σ : Type} {record : Record σ} {layout : Layout σ} {whole back : σ}

open Json

/-- Records are written as their members are. -/
theorem writes (hnamed : (layout.fields.map (·.name)).Nodup)
    (h : List.Forall₂ (fun member field => Member.Writes member field whole back)
      record.members layout.fields) :
    record.codec.Writes layout.form whole back := by
  intro json (hjson : Rearranged (record.write whole) json)
  rw [write] at hjson
  obtain ⟨order, others, rfl, horder, hothers⟩ := hjson.exists_obj
  obtain ⟨shown, hshown, hperm⟩ := List.perm_comp_forall₂ horder h
  have hmembers : layout.Members back shown (others.map Codec.writtenMember) := by
    have hfields : ∀ field ∈ shown, field ∈ layout.fields := fun field => hperm.mem_iff.1
    clear hjson horder hperm
    induction hshown generalizing others with
    | nil =>
      cases hothers
      exact .nil
    | @cons member field order shown hwrites _ ih =>
      cases hothers with
      | cons hother hmore =>
        have hrest := ih _ hmore fun field hfield => hfields field (List.mem_cons_of_mem _ hfield)
        cases hother with
        | named hother =>
          refine .known (hfields field List.mem_cons_self) ?_ (hwrites.shows _ hother) hrest
          exact hwrites.name ▸ textForm_quotedChars member.name
  refine .object hmembers ((hperm.map _).nodup_iff.2 hnamed) ?_ (Codec.objectForm_toBytes others)
  intro field hfield hnot
  exact absurd (hperm.mem_iff.2 hfield) hnot

end Record

end RobotSoccer
