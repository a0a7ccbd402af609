import RobotSoccer.Proofs.Json.CutContainers
import RobotSoccer.Proofs.Json.NumberCuts
import RobotSoccer.Proofs.Json.Rearranged

/-!
# Written values that are cut short

The text of a value, its objects in any order, is cut short as its parts are: plain values as texts
and numbers, lists, maps and records as arrays and objects.
-/

namespace RobotSoccer

open Json Reader

namespace Codec

variable {α : Type} {codec : Codec α} {form : Form α} {value back : α}

/-- The text of a value, its objects in any order, is read as what comes back of the value, and what
is left of it when it is cut short is not taken for the beginning of anything else. -/
structure Tears (codec : Codec α) (value back : α) : Prop where
  /-- Blanks in front of a value make no difference. -/
  blanks : PassesBlanks codec.read
  /-- The text is cut short as one of what comes back. -/
  tears : ∀ json, Rearranged (codec.write value) json →
    Reader.Tears codec.read json.toBytes back

/-- What is left of the text of a value, its objects in any order, is an end of the input when the
text is cut short. -/
def Severs (codec : Codec α) (value : α) : Prop :=
  ∀ json, Rearranged (codec.write value) json → Reader.Severs codec.read json.toBytes

/-- A text that is understood and ends of itself is cut short as one of what comes back. -/
theorem Severs.tears (h : Severs codec value) (hread : Understands codec.read form)
    (hwrites : Writes codec form value back) : Tears codec value back where
  blanks := hread.blanks
  tears json hjson := ⟨hread.reads (hwrites json hjson), (h json hjson).breaks⟩

/-- Truth values. -/
theorem tears_boolean (b : Bool) : Tears boolean b b where
  blanks := passesBlanks_boolean
  tears json hjson := by
    cases hjson with
    | same => exact Reader.tears_boolean b

/-- Finite doubles. -/
theorem tears_double {x : Float} (h : x.isFinite = true) : Tears double x (Number.reread x) where
  blanks := passesBlanks_double
  tears json hjson := by
    cases hjson with
    | same => exact Reader.tears_double h

/-- Bytes. -/
theorem tears_byte (n : UInt8) : Tears byte n n where
  blanks := (passesBlanks_natural _).map _
  tears json hjson := by
    cases hjson with
    | same =>
      have htears := (tears_natural n.toNat_lt (by decide)).map UInt8.ofNat
      rw [UInt8.ofNat_toNat] at htears
      exact htears

/-- Numbers of 32 bits. -/
theorem tears_count (n : UInt32) : Tears count n n where
  blanks := (passesBlanks_natural _).map _
  tears json hjson := by
    cases hjson with
    | same =>
      have htears := (tears_natural n.toNat_lt (by decide)).map UInt32.ofNat
      rw [UInt32.ofNat_toNat] at htears
      exact htears

/-- Texts. -/
theorem tears_text (s : String) : Tears text s s where
  blanks := passesBlanks_text
  tears json hjson := by
    cases hjson with
    | same => exact Reader.tears_text s

/-- A value that is missing. -/
theorem tears_nullable_none (codec : Codec α) : Tears codec.nullable none none where
  blanks := passesBlanks_nullable _
  tears json hjson := by
    cases hjson with
    | same => exact Reader.tears_nullable_none codec.read

/-- A value that is not missing, when its text does not start as null. -/
theorem Tears.nullable_some (h : Tears codec value back)
    (hnull : ∀ json, Rearranged (codec.write value) json →
      json.toBytes.head? ≠ some Ascii.lowerN) :
    Tears codec.nullable (some value) (some back) where
  blanks := passesBlanks_nullable _
  tears json hjson := (h.tears json hjson).nullable_some (hnull json hjson)

/-- A text that may be missing. -/
theorem tears_nullable_text (s : Option String) : Tears text.nullable s s := by
  cases s with
  | none => exact tears_nullable_none text
  | some s =>
    refine (tears_text s).nullable_some fun json hjson => ?_
    exact head?_text_ne (writes_text s json hjson)

/-- A double that may be missing comes back as its text is read when it is finite, and as nothing when
it is not. -/
theorem tears_nullable_double (x : Option Float) :
    Tears double.nullable x ((x.filter (·.isFinite)).map Number.reread) := by
  cases x with
  | none => exact tears_nullable_none double
  | some x =>
    cases hfinite : x.isFinite with
    | true =>
      rw [Option.filter_some_pos hfinite]
      refine (tears_double hfinite).nullable_some fun json hjson => ?_
      exact head?_double_ne (writes_double hfinite json hjson)
    | false =>
      rw [Option.filter_some_neg hfinite]
      refine ⟨passesBlanks_nullable _, fun json hjson => ?_⟩
      cases hjson with
      | same =>
        have hchars : Json.floatChars x = Json.chars .null := by
          rw [Json.floatChars, hfinite, if_neg Bool.false_ne_true, Json.chars]
        have hbytes : (Json.float x).toBytes = Json.toBytes .null :=
          congrArg Utf8.encodeChars hchars
        exact hbytes ▸ Reader.tears_nullable_none Reader.double

/-- The texts of items are cut short one by one. -/
theorem forall₂_tears {values backs : List α} (h : List.Forall₂ (Tears codec) values backs)
    {others : List Json} (hothers : List.Forall₂ Rearranged (values.map codec.write) others) :
    List.Forall₂ (Reader.Tears codec.read) (others.map Json.toBytes) backs := by
  rw [List.forall₂_map_left_iff] at hothers ⊢
  induction h generalizing others with
  | nil =>
    cases hothers
    exact .nil
  | cons hvalue _ ih =>
    cases hothers with
    | cons hother hmore => exact .cons (hvalue.tears _ hother) (ih hmore)

/-- Lists of texts. -/
theorem tears_list_text (texts : List String) : Tears text.list texts texts := by
  have htexts : List.Forall₂ (Tears text) texts texts :=
    List.forall₂_same.2 fun s _ => tears_text s
  refine Severs.tears (fun json hjson => ?_) understands_text.list
    (writes_list (List.forall₂_same.2 fun s _ => writes_text s))
  obtain ⟨others, rfl, hothers⟩ := hjson.exists_arr
  rw [toBytes_arr]
  exact severs_list passesBlanks_text (forall₂_tears htexts hothers)

/-- Maps are severed when their values are cut short. -/
theorem severs_dict {dict : Dict α}
    (h : ∀ entry ∈ dict.entries, ∃ back, Tears codec entry.2 back) : Severs codec.dict dict := by
  intro json hjson
  obtain ⟨order, others, rfl, horder, hothers⟩ := hjson.exists_obj
  have hentries : ∀ entry ∈ order, ∃ back, Tears codec entry.2 back :=
    fun entry hentry => h entry (horder.mem_iff.1 hentry)
  have hgathers : ∀ gathered : Dict α, ∃ after, Gathers (entryInto codec.read) gathered
      (others.map fun member => (member.1, member.2.toBytes)) after := by
    clear hjson horder h
    induction hothers with
    | nil => exact fun gathered => ⟨gathered, .nil gathered⟩
    | @cons entry other order others hother _ ih =>
      intro gathered
      obtain ⟨back, hback⟩ := hentries entry List.mem_cons_self
      have hmore := ih fun entry hentry => hentries entry (List.mem_cons_of_mem _ hentry)
      cases hother with
      | named hother =>
        have hfirst := ((hback.tears _ hother).valueOf hback.blanks).map (gathered.insert entry.1)
        obtain ⟨after, hafter⟩ := hmore (gathered.insert entry.1 back)
        exact ⟨after, .cons rfl hfirst hafter⟩
  obtain ⟨after, hafter⟩ := hgathers Dict.empty
  rw [toBytes_obj]
  exact Severs.behind_opening rfl hafter.severs_members

end Codec

namespace Record

variable {σ : Type} {record : Record σ}

/-- Records are severed when the values of their members are cut short. -/
theorem severs (hnamed : record.Named) {whole : σ}
    (h : ∀ member ∈ record.members, ∃ back, member.codec.Tears (member.get whole) back) :
    record.codec.Severs whole := by
  intro json (hjson : Rearranged (record.write whole) json)
  rw [write] at hjson
  obtain ⟨order, others, rfl, horder, hothers⟩ := hjson.exists_obj
  have hnames : (order.map (·.name)).Nodup := (horder.map _).nodup_iff.2 hnamed
  have hmembers : ∀ member ∈ order, member ∈ record.members := fun member => horder.mem_iff.1
  have hgathers : ∀ gathered : σ × List String, (∀ member ∈ order, member.name ∉ gathered.2) →
      ∃ after, Gathers record.takeMember gathered
        (others.map fun member => (member.1, member.2.toBytes)) after := by
    clear hjson horder
    induction hothers with
    | nil => exact fun gathered _ => ⟨gathered, .nil gathered⟩
    | @cons member other order others hother _ ih =>
      intro gathered hfresh
      obtain ⟨hfirstName, hmoreNames⟩ := List.nodup_cons.1 hnames
      have hmember := hmembers member List.mem_cons_self
      obtain ⟨back, hback⟩ := h member hmember
      cases hother with
      | named hother =>
        have htake : record.takeMember gathered member.name = fun bytes =>
            (valueOf member.codec.read bytes).map fun read =>
              ((member.set gathered.1 read.1, member.name :: gathered.2), read.2) := by
          have hfound : record.member? member.name = some member := find?_of_nodup hnamed hmember
          funext bytes
          rw [takeMember, hfound]
          exact if_neg (hfresh member List.mem_cons_self)
        have hfirst := ((hback.tears _ hother).valueOf hback.blanks).map fun value =>
          (member.set gathered.1 value, member.name :: gathered.2)
        have hstill : ∀ later ∈ order, later.name ∉ member.name :: gathered.2 := by
          intro later hlater hcame
          rcases List.mem_cons.1 hcame with heq | hcame
          · exact hfirstName (List.mem_map.2 ⟨later, hlater, heq⟩)
          · exact hfresh later (List.mem_cons_of_mem _ hlater) hcame
        obtain ⟨after, hafter⟩ := ih hmoreNames
          (fun later hlater => hmembers later (List.mem_cons_of_mem _ hlater))
          (member.set gathered.1 back, member.name :: gathered.2) hstill
        exact ⟨after, .cons (htake ▸ rfl) (htake ▸ hfirst) hafter⟩
  obtain ⟨after, hafter⟩ := hgathers (record.blank, []) fun _ _ => List.not_mem_nil
  rw [toBytes_obj]
  refine Severs.cons rfl fun cut more hcut hmore => ?_
  change record.read (Ascii.openBrace :: cut) = _
  rw [Record.read, skipBlank_cons _ rfl]
  refine (if_pos rfl).trans ?_
  rw [readObject, hafter.severs_members cut more hcut hmore]

end Record

end RobotSoccer
