import RobotSoccer.Proofs.Json.Given
import RobotSoccer.Proofs.Json.Rearranged

/-!
# Texts that are refused

A reader may refuse the compact text of a value, as that of a double which is not finite and so is
written as null. Where it does not refuse a text it takes just that text, so an array or an object
is refused when one of its parts is, and whatever its parts need it needs.
-/

namespace RobotSoccer

namespace Reader

variable {α β σ : Type} {read : Reader α} {bytes rest : Bytes} {needed : Prop}

open Json

/-- A reader takes just these bytes or refuses them, and takes them only when something holds. -/
structure Takes (read : Reader α) (bytes : Bytes) (needed : Prop) : Prop where
  /-- The bytes start with no blank and no end of an array. -/
  opens : Opens bytes
  /-- Where the reader gives a value, what is left is what was behind the bytes. -/
  takes : ∀ {rest value after}, Apart rest → read (bytes ++ rest) = .ok (value, after) →
    after = rest ∧ needed

/-- Bytes that are read are taken. -/
theorem Reads.takes {value : α} (h : Reads read bytes value) (hneeded : needed) :
    Takes read bytes needed where
  opens := h.opens
  takes := by
    intro rest found after hrest hread
    have heq : (value, rest) = (found, after) :=
      Except.ok.inj ((h.reads rest hrest).symm.trans hread)
    exact ⟨(Prod.mk.inj heq).2.symm, hneeded⟩

/-- What is needed may be said in another way. -/
theorem Takes.imp {other : Prop} (h : Takes read bytes needed) (himp : needed → other) :
    Takes read bytes other where
  opens := h.opens
  takes := fun hrest hread => (h.takes hrest hread).imp_right himp

/-- A value that is taken may be turned into another one. -/
theorem Takes.map (h : Takes read bytes needed) (f : α → β) :
    Takes (fun bytes => (read bytes).map fun found => (f found.1, found.2)) bytes needed where
  opens := h.opens
  takes := by
    intro rest value after hrest hread
    obtain ⟨found, hfound, heq⟩ := exists_ok_of_map hread
    obtain ⟨-, rfl⟩ := Prod.mk.inj heq
    exact h.takes hrest hfound

/-- The text of a double is taken as a double only when the double is finite. -/
theorem takes_double (x : Float) : Takes double (Json.float x).toBytes (x.isFinite = true) := by
  cases hfinite : x.isFinite with
  | true => exact (reads_double hfinite).takes rfl
  | false =>
    have hchars : Json.floatChars x = Json.chars .null := by
      rw [Json.floatChars, hfinite, if_neg Bool.false_ne_true, Json.chars]
    have hbytes : (Json.float x).toBytes = Ascii.lowerN :: afterN :=
      congrArg Utf8.encodeChars hchars
    rw [hbytes]
    refine ⟨⟨Ascii.lowerN, afterN, rfl, rfl, by decide⟩, ?_⟩
    intro rest value after _ hread
    rw [List.cons_append, double, anyNumber, skipBlank_cons _ rfl] at hread
    dsimp only at hread
    rw [if_neg (by decide)] at hread
    cases hread

/-- Bytes that do not start as null are taken for a value that may be missing only as that
value. -/
theorem Takes.nullable (h : Takes read bytes needed) (hnull : bytes.head? ≠ some Ascii.lowerN) :
    Takes (nullable read) bytes needed where
  opens := h.opens
  takes := by
    intro rest value after hrest hread
    obtain ⟨b, more, rfl, hblank, -⟩ := h.opens
    have hb : b ≠ Ascii.lowerN := fun heq => hnull (heq ▸ rfl)
    rw [List.cons_append, Reader.nullable, skipBlank_cons _ hblank] at hread
    dsimp only at hread
    rw [if_neg hb] at hread
    obtain ⟨found, hfound, heq⟩ := exists_ok_of_map hread
    obtain ⟨-, rfl⟩ := Prod.mk.inj heq
    exact h.takes hrest hfound

/-- An item in the first place of an array is taken for it. -/
theorem Takes.place_first (h : Takes read bytes needed) (hrest : Apart rest) {value : α}
    {after : Bytes} (hread : place true read (bytes ++ rest) = .ok (value, after)) :
    after = rest ∧ needed := by
  obtain ⟨b, more, hbytes, hblank, hclose⟩ := h.opens
  have htakes := @h.takes rest
  rw [hbytes, List.cons_append] at htakes hread
  rw [place, slot, skipBlank_cons _ hblank] at hread
  dsimp only at hread
  rw [if_neg hclose, if_pos rfl] at hread
  cases hfound : read (b :: (more ++ rest)) with
  | error fault => rw [hfound] at hread; cases hread
  | ok found =>
    rw [hfound] at hread
    cases hread
    exact htakes hrest hfound

/-- An item behind a comma is taken for it. -/
theorem Takes.place_next (h : Takes read bytes needed) (hrest : Apart rest) {value : α}
    {after : Bytes}
    (hread : place false read (Ascii.comma :: (bytes ++ rest)) = .ok (value, after)) :
    after = rest ∧ needed := by
  rw [place, slot, skipBlank_cons _ rfl] at hread
  dsimp only at hread
  rw [if_neg (by decide), if_neg (by decide), if_pos rfl] at hread
  cases hfound : read (bytes ++ rest) with
  | error fault => rw [hfound] at hread; cases hread
  | ok found =>
    rw [hfound] at hread
    cases hread
    exact h.takes hrest hfound

/-- An array of two items needs what its items need. -/
theorem takes_two {second : Reader β} {as bs : Bytes} {neededA neededB : Prop}
    (ha : Takes read as neededA) (hb : Takes second bs neededB) :
    Takes (two read second) (arrayBytes [as, bs]) (neededA ∧ neededB) where
  opens := (arrayForm_arrayBytes _).opens
  takes := by
    intro rest value after _ hread
    simp only [arrayBytes, itemsBytes, List.cons_append, List.append_assoc, List.nil_append]
      at hread
    obtain ⟨inner, hopen, hread⟩ := exists_ok_of_bind hread
    rw [opening_cons _ rfl] at hopen
    cases hopen
    obtain ⟨⟨a, afterA⟩, hplaceA, hread⟩ := exists_ok_of_bind hread
    obtain ⟨rfl, hneededA⟩ := ha.place_first (apart_cons _ rfl) hplaceA
    obtain ⟨⟨b, afterB⟩, hplaceB, hread⟩ := exists_ok_of_bind hread
    obtain ⟨rfl, hneededB⟩ := hb.place_next (apart_cons _ rfl) hplaceB
    cases hread
    exact ⟨rfl, hneededA, hneededB⟩

/-- A member with this name and these bytes is taken in or refused, and taken in only when
something holds. -/
def TakesMember (entry : σ → String → Reader σ) (member : String × Bytes) (needed : Prop) : Prop :=
  ∀ {gathered rest taken after}, Apart rest →
    entry gathered member.1 (Ascii.colon :: (member.2 ++ rest)) = .ok (taken, after) →
      after = rest ∧ needed

/-- The value behind a colon is taken for it. -/
theorem Takes.valueOf_colon (h : Takes read bytes needed) (hrest : Apart rest) {value : α}
    {after : Bytes} (hread : valueOf read (Ascii.colon :: (bytes ++ rest)) = .ok (value, after)) :
    after = rest ∧ needed := by
  have hmark : mark Ascii.colon (Ascii.colon :: (bytes ++ rest)) = .ok (bytes ++ rest) := rfl
  rw [valueOf, hmark] at hread
  exact h.takes hrest hread

variable {ι : Type*} {entry : σ → String → Reader σ} {need : ι → Prop} {items : List ι}
  {written : List (String × Bytes)}

/-- The members behind a member are taken in one after the other, and what each of them needs is
needed. -/
theorem membersFrom_takes
    (h : List.Forall₂ (fun item member => TakesMember entry member (need item)) items written)
    {count : Nat} {before result : σ} {after : Bytes}
    (hread : membersFrom quotation entry count false before (membersBytes written ++ rest) =
      .ok (result, after)) : after = rest ∧ ∀ item ∈ items, need item := by
  induction h generalizing count before with
  | nil =>
    cases count with
    | zero => cases hread
    | succ count =>
      cases hread
      exact ⟨rfl, fun item hitem => absurd hitem List.not_mem_nil⟩
  | @cons item member items written hfirst _ ih =>
    cases count with
    | zero => cases hread
    | succ count =>
      simp only [membersBytes, List.cons_append, List.append_assoc] at hread
      rw [membersFrom, skipBlank_cons _ rfl] at hread
      dsimp only at hread
      rw [if_neg (by decide), if_neg (by decide), if_pos rfl, key_quoted] at hread
      dsimp only at hread
      cases htaken : entry before member.1
          (Ascii.colon :: (member.2 ++ (membersBytes written ++ rest))) with
      | error fault => rw [htaken] at hread; cases hread
      | ok taken =>
        rw [htaken] at hread
        dsimp only at hread
        obtain ⟨hafter, hneeded⟩ :=
          hfirst ((membersForm_membersBytes written).apart_append rest) htaken
        rw [hafter] at hread
        obtain ⟨rfl, hmore⟩ := ih hread
        exact ⟨rfl, List.forall_mem_cons.2 ⟨hneeded, hmore⟩⟩

/-- All members of an object are taken in one after the other, and what each of them needs is
needed. -/
theorem members_takes
    (h : List.Forall₂ (fun item member => TakesMember entry member (need item)) items written)
    {before result : σ} {after : Bytes}
    (hread : members quotation entry before (innerBytes written ++ rest) = .ok (result, after)) :
    after = rest ∧ ∀ item ∈ items, need item := by
  cases h with
  | nil =>
    cases hread
    exact ⟨rfl, fun item hitem => absurd hitem List.not_mem_nil⟩
  | @cons item member items written hfirst hmore =>
    rw [members] at hread
    generalize (innerBytes (member :: written) ++ rest).length = count at hread
    obtain ⟨tail, hbytes, -⟩ :=
      keyBytes_append member.1 (Ascii.colon :: (member.2 ++ (membersBytes written ++ rest)))
    have hkey := key_quoted member.1 (Ascii.colon :: (member.2 ++ (membersBytes written ++ rest)))
    simp only [innerBytes, List.cons_append, List.append_assoc] at hread
    rw [hbytes] at hkey hread
    rw [membersFrom, skipBlank_cons _ rfl] at hread
    dsimp only at hread
    rw [if_neg (by decide), if_pos rfl, hkey] at hread
    dsimp only at hread
    cases htaken : entry before member.1
        (Ascii.colon :: (member.2 ++ (membersBytes written ++ rest))) with
    | error fault => rw [htaken] at hread; cases hread
    | ok taken =>
      rw [htaken] at hread
      dsimp only at hread
      obtain ⟨hafter, hneeded⟩ :=
        hfirst ((membersForm_membersBytes written).apart_append rest) htaken
      rw [hafter] at hread
      obtain ⟨rfl, hneeds⟩ := membersFrom_takes hmore hread
      exact ⟨rfl, List.forall_mem_cons.2 ⟨hneeded, hneeds⟩⟩

/-- A map needs what its entries need. -/
theorem takes_dict
    (h : List.Forall₂ (fun item member => Takes read member.2 (need item)) items written) :
    Takes (dict read) (objectBytes written) (∀ item ∈ items, need item) where
  opens := (objectForm_objectBytes written).opens
  takes := by
    intro rest value after _ hread
    obtain ⟨inner, hopen, hread⟩ := exists_ok_of_bind hread
    rw [objectBytes, List.cons_append, opening_cons _ rfl] at hopen
    cases hopen
    refine members_takes (h.imp fun item member htakes => ?_) hread
    intro gathered rest taken after hrest hread
    obtain ⟨found, hfound, heq⟩ := exists_ok_of_map hread
    obtain ⟨-, rfl⟩ := Prod.mk.inj heq
    exact htakes.valueOf_colon hrest hfound

end Reader

namespace Codec

variable {α : Type} {codec : Codec α} {form : Form α} {good : α → Prop}

open Json Reader

/-- The text of a value, its objects in any order, is taken only when the value is good. -/
def Demands (codec : Codec α) (good : α → Prop) : Prop :=
  ∀ value json, Rearranged (codec.write value) json →
    Takes codec.read json.toBytes (good value)

/-- A codec that writes every value in a form that it understands demands nothing. -/
theorem demands_nothing (h : Understands codec.read form) {back : α → α}
    (hwrites : ∀ value, Writes codec form value (back value)) : Demands codec fun _ => True :=
  fun value json hjson => (h.reads (hwrites value json hjson)).takes True.intro

/-- A double must be finite. -/
theorem demands_double : Demands double (·.isFinite = true) := by
  intro x json hjson
  cases hjson with
  | same => exact takes_double x

/-- A value that may be missing must be good where it is not missing, when no value is written as
null. -/
theorem Demands.nullable (h : Demands codec good)
    (hnull : ∀ {value json}, Rearranged (codec.write value) json →
      json.toBytes.head? ≠ some Ascii.lowerN) :
    Demands codec.nullable fun value => ∀ found ∈ value, good found := by
  intro value json hjson
  cases value with
  | none =>
    cases hjson with
    | same => exact (reads_nullable_none codec.read).takes fun found hfound => nomatch hfound
  | some value =>
    refine ((h value json hjson).nullable (hnull hjson)).imp fun hgood found hfound => ?_
    exact Option.some.inj hfound ▸ hgood

/-- All values of a map must be good. -/
theorem Demands.dict (h : Demands codec good) :
    Demands codec.dict fun dict => ∀ entry ∈ dict.entries, good entry.2 := by
  intro dict json hjson
  obtain ⟨order, others, rfl, horder, hothers⟩ := hjson.exists_obj
  have hentries : List.Forall₂ (fun (entry : String × α) member =>
      Takes codec.read member.2 (good entry.2)) order
      (others.map fun member => (member.1, member.2.toBytes)) := by
    refine List.forall₂_map_right_iff.2 (hothers.imp fun entry other hother => ?_)
    cases hother with
    | named hother => exact h _ _ hother
  have htakes := takes_dict hentries
  rw [← toBytes_obj] at htakes
  exact htakes.imp fun hgood entry hentry => hgood entry (horder.mem_iff.2 hentry)

end Codec

/-- The text of a member of a whole, its objects in any order, is taken only when the whole is
good. -/
def Member.Demands {σ : Type} (member : Member σ) (good : σ → Prop) : Prop :=
  ∀ whole json, Json.Rearranged (member.codec.write (member.get whole)) json →
    Reader.Takes member.codec.read json.toBytes (good whole)

/-- A member demands of a whole what its codec demands of its value. -/
theorem Member.demands {σ α : Type} {name : String} {get : σ → α} {set : σ → α → σ}
    {codec : Codec α} {good : α → Prop} (h : codec.Demands good) :
    Member.Demands ⟨name, α, codec, get, set⟩ fun whole => good (get whole) :=
  fun whole => h (get whole)

namespace Record

variable {σ : Type} {record : Record σ}

open Json Reader

/-- A member that is taken in needs what it demands. -/
theorem takesMember {member : Member σ} {good : σ → Prop} (hnamed : record.Named)
    (hmember : member ∈ record.members) (h : member.Demands good) {whole : σ} {json : Json}
    (hjson : Rearranged (member.codec.write (member.get whole)) json) :
    TakesMember record.takeMember (member.name, json.toBytes) (good whole) := by
  intro gathered rest taken after hrest hread
  have hfound : record.member? member.name = some member := find?_of_nodup hnamed hmember
  rw [takeMember, hfound] at hread
  dsimp only at hread
  by_cases hcame : member.name ∈ gathered.2
  · rw [if_pos hcame] at hread
    cases hread
  · rw [if_neg hcame] at hread
    obtain ⟨found, hvalue, heq⟩ := exists_ok_of_map hread
    obtain ⟨-, rfl⟩ := Prod.mk.inj heq
    exact (h whole json hjson).valueOf_colon hrest hvalue

/-- A record must have all that its members demand. -/
theorem demands (hnamed : record.Named) {goods : List (σ → Prop)}
    (h : List.Forall₂ Member.Demands record.members goods) :
    record.codec.Demands fun whole => ∀ good ∈ goods, good whole := by
  intro whole json (hjson : Rearranged (record.write whole) json)
  rw [write] at hjson
  obtain ⟨order, others, rfl, horder, hothers⟩ := hjson.exists_obj
  obtain ⟨demanded, hdemanded, hperm⟩ := List.perm_comp_forall₂ horder h
  have hmembers : List.Forall₂ (fun (good : σ → Prop) member =>
      TakesMember record.takeMember member (good whole)) demanded
      (others.map fun member => (member.1, member.2.toBytes)) := by
    have hknown : ∀ member ∈ order, member ∈ record.members := fun member => horder.mem_iff.1
    clear hjson horder hperm
    induction hdemanded generalizing others with
    | nil =>
      cases hothers
      exact .nil
    | @cons member good order demanded hmember _ ih =>
      cases hothers with
      | cons hother hmore =>
        have hrest := ih _ hmore fun found hfound => hknown found (List.mem_cons_of_mem _ hfound)
        cases hother with
        | named hother =>
          exact .cons (takesMember hnamed (hknown member List.mem_cons_self) hmember hother) hrest
  rw [toBytes_obj]
  refine ⟨(objectForm_objectBytes _).opens, fun {rest value after} _ hread => ?_⟩
  replace hread : record.read (Ascii.openBrace ::
      (innerBytes (others.map fun member => (member.1, member.2.toBytes)) ++ rest)) =
        .ok (value, after) := hread
  rw [read, skipBlank_cons _ rfl] at hread
  dsimp only at hread
  rw [if_pos rfl, readObject] at hread
  cases hgathered : Reader.members quotation record.takeMember (record.blank, [])
      (innerBytes (others.map fun member => (member.1, member.2.toBytes)) ++ rest) with
  | error fault => rw [hgathered] at hread; cases hread
  | ok gathered =>
    obtain ⟨⟨found, names⟩, behind⟩ := gathered
    obtain ⟨rfl, hgoods⟩ := members_takes hmembers hgathered
    rw [hgathered] at hread
    dsimp only at hread
    by_cases hmissing : (record.complete &&
        !(record.members.all fun member => names.contains member.name)) = true
    · rw [if_pos hmissing] at hread
      cases hread
    · rw [if_neg hmissing] at hread
      cases hread
      exact ⟨rfl, fun good hgood => hgoods good (hperm.mem_iff.2 hgood)⟩

end Record

end RobotSoccer
