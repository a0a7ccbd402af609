import RobotSoccer.Proofs.Json.Skipped

/-!
# In how many ways a value can be written

A form says which bytes stand for which values of a type, without saying how they are read. Here
are the forms of plain values, of arrays and of maps, and that the readers of these types
understand them: each of the bytes is read as the value that it stands for.
-/

namespace RobotSoccer

/-- Which bytes stand for which values of a type. -/
abbrev Form (α : Type) := α → Bytes → Prop

/-- A reader finds a value behind blanks, and takes all bytes that stand for the value. -/
structure Reader.Understands {α : Type} (read : Reader α) (form : Form α) : Prop where
  /-- Blanks in front make no difference. -/
  blanks : Reader.PassesBlanks read
  /-- What stands for a value is read as that value. -/
  reads : ∀ {value bytes}, form value bytes → Reader.Reads read bytes value

namespace Form

variable {α β γ : Type}

/-- Truth values are words. -/
inductive boolean : Form Bool
  /-- The word for what is the case. -/
  | true : boolean Bool.true (Ascii.lowerT :: Reader.afterT)
  /-- The word for what is not. -/
  | false : boolean Bool.false (Ascii.lowerF :: Reader.afterF)

/-- Numbers are written in any way that means them, with leading and trailing zeros of the
fraction, a point or a power of ten as they please. -/
inductive number : Form NumberValue
  /-- Bytes that say something which means the number. -/
  | spelled {value : NumberValue} {bytes : Bytes} {said : Numeral} (h : NumberForm bytes said)
    (hvalue : said.value? = some value) : number value bytes

/-- Doubles are numbers, whole ones too. -/
inductive double : Form Float
  /-- A number with the value of the double. -/
  | number {value : NumberValue} {bytes : Bytes} (h : number value bytes) :
    double value.toFloat bytes

/-- Whole numbers are numbers without a point and a power of ten. -/
def natural : Form Nat := fun n => number (.int n)

/-- Bytes are whole numbers. -/
def byte : Form UInt8 := fun n => natural n.toNat

/-- Numbers of 32 bits are whole numbers. -/
def count : Form UInt32 := fun n => natural n.toNat

/-- Texts stand between quotes, with escapes or without. -/
def text : Form String := Json.TextForm

/-- A value that may be missing is null or the value. -/
inductive nullable (form : Form α) : Form (Option α)
  /-- The value is missing. -/
  | none : nullable form Option.none (Ascii.lowerN :: Reader.afterN)
  /-- The value is there. -/
  | some {value : α} {bytes : Bytes} (h : form value bytes) :
    nullable form (Option.some value) bytes

/-- Lists are arrays of their items. -/
inductive list (form : Form α) : Form (List α)
  /-- Items with blanks between them. -/
  | array {values : List α} {items : List Bytes} {bytes : Bytes}
    (hitems : List.Forall₂ form values items) (h : Json.ArrayForm items bytes) :
    list form values bytes

/-- Pairs are arrays of two items. -/
inductive two (first : Form α) (second : Form β) : Form (α × β)
  /-- Two items with blanks between them. -/
  | array {a : α} {b : β} {as bs bytes : Bytes} (ha : first a as) (hb : second b bs)
    (h : Json.ArrayForm [as, bs] bytes) : two first second (a, b) bytes

/-- Triples are arrays of three items. -/
inductive three (first : Form α) (second : Form β) (third : Form γ) : Form (α × β × γ)
  /-- Three items with blanks between them. -/
  | array {a : α} {b : β} {c : γ} {as bs cs bytes : Bytes} (ha : first a as) (hb : second b bs)
    (hc : third c cs) (h : Json.ArrayForm [as, bs, cs] bytes) :
    three first second third (a, b, c) bytes

/-- An entry of a map is its key, spelled in any way, with its value. -/
structure Entry (form : Form α) (entry : String × α) (member : Bytes × Bytes) : Prop where
  /-- The name of the member spells the key. -/
  key : text entry.1 member.1
  /-- The value of the member stands for the value. -/
  value : form entry.2 member.2

/-- Maps are objects of entries in any order. A key may come more than once: the last entry with
a key counts, and those before it may hold any value of the type. -/
inductive dict (form : Form α) : Form (Dict α)
  /-- Entries with blanks between them. -/
  | object {entries : List (String × α)} {members : List (Bytes × Bytes)} {bytes : Bytes}
    (hentries : List.Forall₂ (Entry form) entries members) (h : Json.ObjectForm members bytes) :
    dict form (Dict.ofList entries) bytes

/-- A value that another one is turned into is written like that one. -/
inductive image (f : α → β) (form : Form α) : Form β
  /-- The bytes of the value that is turned into this one. -/
  | of {value : α} {bytes : Bytes} (h : form value bytes) : image f form (f value) bytes

end Form

namespace Reader

variable {α β γ : Type} {read : Reader α} {form : Form α}

open Json

/-- A reader that turns what another one reads into something else understands what that one
does. -/
theorem Understands.map (h : Understands read form) (f : α → β) :
    Understands (fun bytes => (read bytes).map fun found => (f found.1, found.2))
      (form.image f) where
  blanks := h.blanks.map _
  reads := by
    intro value bytes hvalue
    cases hvalue with
    | of hvalue => exact (h.reads hvalue).map f

/-- Truth values are understood. -/
theorem understands_boolean : Understands boolean .boolean where
  blanks := passesBlanks_boolean
  reads := by
    intro value bytes h
    cases h with
    | true => exact reads_boolean true
    | false => exact reads_boolean false

/-- Numbers are understood. -/
theorem understands_anyNumber : Understands anyNumber .number where
  blanks := passesBlanks_anyNumber
  reads := by
    intro value bytes h
    cases h with
    | spelled h hvalue => exact reads_anyNumber fun rest hrest => h.number_append hvalue hrest

/-- Doubles are understood. -/
theorem understands_double : Understands double .double where
  blanks := passesBlanks_double
  reads := by
    intro x bytes h
    cases h with
    | number h => exact (understands_anyNumber.reads h).map NumberValue.toFloat

/-- Whole numbers under a bound are understood. -/
theorem reads_natural_spelled {n bound : Nat} (hbound : n < bound) {bytes : Bytes}
    (h : Form.natural n bytes) : Reads (natural bound) bytes n := by
  have hread := understands_anyNumber.reads h
  refine ⟨hread.opens, fun rest hrest => ?_⟩
  rw [natural, hread.reads rest hrest]
  dsimp only
  rw [if_pos ⟨Int.natCast_nonneg n, Int.ofNat_lt.2 hbound⟩]
  rfl

/-- Bytes are understood. -/
theorem understands_byte : Understands Codec.byte.read .byte where
  blanks := (passesBlanks_natural _).map _
  reads := by
    intro n bytes h
    have hread := (reads_natural_spelled n.toNat_lt h).map UInt8.ofNat
    rw [UInt8.ofNat_toNat] at hread
    exact hread

/-- Numbers of 32 bits are understood. -/
theorem understands_count : Understands Codec.count.read .count where
  blanks := (passesBlanks_natural _).map _
  reads := by
    intro n bytes h
    have hread := (reads_natural_spelled n.toNat_lt h).map UInt32.ofNat
    rw [UInt32.ofNat_toNat] at hread
    exact hread

/-- Texts are understood. -/
theorem understands_text : Understands text .text where
  blanks := passesBlanks_text
  reads := reads_text_spelled

/-- A double does not start as null. -/
theorem head?_double_ne {x : Float} {bytes : Bytes} (h : Form.double x bytes) :
    bytes.head? ≠ some Ascii.lowerN := by
  cases h with
  | number h =>
    cases h with
    | spelled h _ =>
      obtain ⟨b, more, rfl, hstart⟩ := h.exists_cons
      obtain ⟨-, -, -, -, -, hnull, -⟩ := not_blank_of_startsNumber hstart
      rw [List.head?_cons]
      exact fun heq => hnull (Option.some.inj heq)

/-- A text does not start as null. -/
theorem head?_text_ne {s : String} {bytes : Bytes} (h : Form.text s bytes) :
    bytes.head? ≠ some Ascii.lowerN := by
  cases h with
  | quoted h =>
    rw [List.head?_cons]
    decide

/-- Values that may be missing are understood, when none of them starts as null. -/
theorem Understands.nullable (h : Understands read form)
    (hnull : ∀ {value bytes}, form value bytes → bytes.head? ≠ some Ascii.lowerN) :
    Understands (nullable read) form.nullable where
  blanks := passesBlanks_nullable read
  reads := by
    intro value bytes hvalue
    cases hvalue with
    | none => exact reads_nullable_none read
    | some hvalue => exact (h.reads hvalue).nullable_some (hnull hvalue)

/-- Lists are understood. -/
theorem Understands.list (h : Understands read form) : Understands (list read) form.list where
  blanks := passesBlanks_list read
  reads := by
    intro values bytes hvalues
    cases hvalues with
    | array hitems harray =>
      have hreads := hitems.flip.imp fun _ _ hitem => h.reads hitem
      exact reads_list h.blanks hreads harray

/-- Pairs are understood. -/
theorem Understands.two {second : Reader β} {formB : Form β} (ha : Understands read form)
    (hb : Understands second formB) : Understands (two read second) (form.two formB) where
  blanks := passesBlanks_two read second
  reads := by
    intro pair bytes h
    cases h with
    | array has hbs harray =>
      exact reads_two hb.blanks (ha.reads has) (hb.reads hbs) harray

/-- Triples are understood. -/
theorem Understands.three {second : Reader β} {third : Reader γ} {formB : Form β}
    {formC : Form γ} (ha : Understands read form) (hb : Understands second formB)
    (hc : Understands third formC) :
    Understands (three read second third) (form.three formB formC) where
  blanks := passesBlanks_three read second third
  reads := by
    intro triple bytes h
    cases h with
    | array has hbs hcs harray =>
      exact reads_three hb.blanks hc.blanks (ha.reads has) (hb.reads hbs) (hc.reads hcs)
        harray

/-- The entries of a map are taken in one after the other, each over those before it. -/
theorem Understands.collects_entries (h : Understands read form)
    {entries : List (String × α)} {members : List (Bytes × Bytes)}
    (hentries : List.Forall₂ (Form.Entry form) entries members) (gathered : Dict α) :
    Collects quotation (entryInto read) gathered members
      (entries.foldl (fun dict entry => dict.insert entry.1 entry.2) gathered) := by
  induction hentries generalizing gathered with
  | nil => exact .nil gathered
  | @cons entry member entries members hentry _ ih =>
    refine .cons (names_textForm hentry.key) (fun behindName beforeValue rest hbehind hbefore
      hrest => ?_) (ih (gathered.insert entry.1 entry.2))
    rw [entryInto, (h.reads hentry.value).valueOf_gap h.blanks hbehind hbefore hrest]
    rfl

/-- Maps are understood. -/
theorem Understands.dict (h : Understands read form) : Understands (dict read) form.dict where
  blanks := passesBlanks_dict read
  reads := by
    intro found bytes hfound
    cases hfound with
    | object hentries hobject =>
      refine ⟨hobject.opens, fun rest _ => ?_⟩
      obtain ⟨inner, hinner, hread⟩ :=
        members_objectForm (h.collects_entries hentries Dict.empty) hobject rest
      rw [hinner, Reader.dict, opening_cons _ rfl]
      exact hread

end Reader

end RobotSoccer
