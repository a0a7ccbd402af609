import Mathlib.Data.List.Forall2
import RobotSoccer.Proofs.Json.Blanks
import RobotSoccer.Proofs.Json.Scalars

/-!
# Arrays are read back

The items of an array stand with commas between them, and blanks may stand behind its opening,
around the commas and in front of its end. Reading takes them one place after the other, in arrays
of any length and in those of a fixed one.
-/

namespace RobotSoccer

namespace Json

open Reader

/-- The bytes behind an item: the other items, each behind a comma, and the end of the array. -/
def itemsBytes : List Bytes → Bytes
  | [] => [Ascii.closeBracket]
  | item :: rest => Ascii.comma :: (item ++ itemsBytes rest)

/-- The bytes of an array whose items have these bytes. -/
def arrayBytes : List Bytes → Bytes
  | [] => [Ascii.openBracket, Ascii.closeBracket]
  | item :: rest => Ascii.openBracket :: (item ++ itemsBytes rest)

/-- The items behind an item are written so. -/
theorem encodeChars_itemChars (items : List Json) :
    Utf8.encodeChars (itemChars items) = itemsBytes (items.map toBytes) := by
  induction items with
  | nil => rfl
  | cons item items ih =>
    rw [itemChars, Utf8.encodeChars_cons, Utf8.encodeChars_append, ih]
    rfl

/-- An array is written so. -/
theorem toBytes_arr (items : List Json) :
    (Json.arr items).toBytes = arrayBytes (items.map toBytes) := by
  cases items with
  | nil => rfl
  | cons item items =>
    rw [toBytes, chars, Utf8.encodeChars_cons, Utf8.encodeChars_append, encodeChars_itemChars]
    rfl

/-- The bytes behind an item of an array: the other items, each behind a comma, and the end. -/
inductive ItemsForm : List Bytes → Bytes → Prop
  /-- There are no other items. -/
  | done {gap : Bytes} (hgap : Gap gap) : ItemsForm [] (gap ++ [Ascii.closeBracket])
  /-- Another item comes, and then those behind it. -/
  | next {behind before item more : Bytes} {items : List Bytes} (hbehind : Gap behind)
    (hbefore : Gap before) (hmore : ItemsForm items more) :
    ItemsForm (item :: items) (behind ++ Ascii.comma :: (before ++ (item ++ more)))

/-- The bytes of an array of items. -/
inductive ArrayForm : List Bytes → Bytes → Prop
  /-- There are no items. -/
  | empty {gap : Bytes} (hgap : Gap gap) :
    ArrayForm [] (Ascii.openBracket :: (gap ++ [Ascii.closeBracket]))
  /-- A first item comes, and then those behind it. -/
  | items {before item more : Bytes} {items : List Bytes} (hbefore : Gap before)
    (hmore : ItemsForm items more) :
    ArrayForm (item :: items) (Ascii.openBracket :: (before ++ (item ++ more)))

/-- No array has more items than bytes behind its first one. -/
theorem ItemsForm.length_lt {items : List Bytes} {bytes : Bytes} (h : ItemsForm items bytes) :
    items.length < bytes.length := by
  induction h with
  | done hgap => simp only [List.length_nil, List.length_append, List.length_cons]; omega
  | next hbehind hbefore hmore ih =>
    simp only [List.length_cons, List.length_append]
    omega

/-- What is behind an item stands apart from it. -/
theorem ItemsForm.apart_append {items : List Bytes} {bytes : Bytes} (h : ItemsForm items bytes)
    (rest : Bytes) : Apart (bytes ++ rest) := by
  cases h with
  | done hgap =>
    rw [List.append_assoc]
    exact hgap.apart_append (apart_cons _ rfl)
  | next hbehind hbefore hmore =>
    rw [List.append_assoc]
    exact hbehind.apart_append (apart_cons _ rfl)

/-- The bytes of an array open a value. -/
theorem ArrayForm.opens {items : List Bytes} {bytes : Bytes} (h : ArrayForm items bytes) :
    Opens bytes := by
  cases h with
  | empty hgap => exact ⟨Ascii.openBracket, _, rfl, rfl, by decide⟩
  | items hbefore hmore => exact ⟨Ascii.openBracket, _, rfl, rfl, by decide⟩

/-- The compact bytes behind an item are a form of them. -/
theorem itemsForm_itemsBytes (items : List Bytes) : ItemsForm items (itemsBytes items) := by
  induction items with
  | nil => exact .done gap_nil
  | cons item items ih => exact .next gap_nil gap_nil ih

/-- The compact bytes of an array are a form of it. -/
theorem arrayForm_arrayBytes (items : List Bytes) : ArrayForm items (arrayBytes items) := by
  cases items with
  | nil => exact .empty gap_nil
  | cons item items => exact .items gap_nil (itemsForm_itemsBytes items)

end Json

namespace Reader

variable {α β γ δ : Type}

open Json

/-- A first place holds the item that is written there. -/
theorem Reads.slot_first {item : Reader α} {bytes rest : Bytes} {value : α}
    (h : Reads item bytes value) (hrest : Apart rest) :
    slot true item (bytes ++ rest) = .ok (some value, rest) := by
  have hread := h.reads rest hrest
  obtain ⟨b, more, rfl, hblank, hclose⟩ := h.opens
  rw [List.cons_append] at hread ⊢
  rw [slot, skipBlank_cons _ hblank]
  dsimp only
  rw [if_neg hclose, if_pos rfl, hread]

/-- The opening of an array or an object is taken. -/
theorem opening_cons {byte : UInt8} (rest : Bytes) (h : Ascii.isBlank byte = false) :
    opening byte (byte :: rest) = .ok rest := by
  rw [opening, skipBlank_cons _ h]
  exact if_pos rfl

/-- Blanks in front make no difference to where a value ends. -/
theorem Reads.gap_append {read : Reader α} {bytes : Bytes} {value : α}
    (h : Reads read bytes value) (hblanks : PassesBlanks read) {gap rest : Bytes}
    (hgap : Gap gap) (hrest : Apart rest) : read (gap ++ (bytes ++ rest)) = .ok (value, rest) :=
  (hblanks gap _ hgap).trans (h.reads rest hrest)

/-- Bytes that are read as a value spell that value with blanks around them. -/
theorem Reads.whole_gap {read : Reader α} {bytes : Bytes} {value : α}
    (h : Reads read bytes value) (hblanks : PassesBlanks read) {before behind : Bytes}
    (hbefore : Gap before) (hbehind : Gap behind) :
    Reader.whole read (before ++ (bytes ++ behind)) = .ok value := by
  have hapart : Apart (behind ++ []) := hbehind.apart_append apart_nil
  have hfinish : finish (behind ++ []) = .ok () := passesBlanks_finish behind [] hbehind
  rw [List.append_nil] at hapart hfinish
  rw [Reader.whole, h.gap_append hblanks hbefore hapart]
  dsimp only
  rw [hfinish]

/-- A first place holds the item that stands there behind blanks. -/
theorem Reads.slot_first_gap {item : Reader α} {bytes : Bytes} {value : α}
    (h : Reads item bytes value) {before rest : Bytes} (hbefore : Gap before)
    (hrest : Apart rest) :
    slot true item (before ++ (bytes ++ rest)) = .ok (some value, rest) :=
  (passesBlanks_slot true item before _ hbefore).trans (h.slot_first hrest)

/-- A place behind a comma holds the item that stands there, with blanks around the comma. -/
theorem Reads.slot_next_gap {item : Reader α} (hblanks : PassesBlanks item) {bytes : Bytes}
    {value : α} (h : Reads item bytes value) {behind before rest : Bytes} (hbehind : Gap behind)
    (hbefore : Gap before) (hrest : Apart rest) :
    slot false item (behind ++ Ascii.comma :: (before ++ (bytes ++ rest))) =
      .ok (some value, rest) := by
  have hread := h.gap_append hblanks hbefore hrest
  rw [passesBlanks_slot false item behind _ hbehind, slot, skipBlank_cons _ rfl]
  dsimp only
  rw [if_neg (by decide), if_neg (by decide), if_pos rfl, hread]

/-- A place at the end of an array holds nothing, and its end is left to be read. -/
theorem slot_end_gap (first : Bool) (item : Reader α) {gap : Bytes} (hgap : Gap gap)
    (rest : Bytes) :
    slot first item (gap ++ [Ascii.closeBracket] ++ rest) =
      .ok (none, Ascii.closeBracket :: rest) := by
  rw [List.append_assoc, passesBlanks_slot first item gap _ hgap, slot, List.cons_append,
    skipBlank_cons _ rfl]
  exact if_pos rfl

/-- The end of an array is found behind blanks. -/
theorem closeArray_gap {gap : Bytes} (hgap : Gap gap) (rest : Bytes) :
    closeArray (gap ++ Ascii.closeBracket :: rest) = .ok rest :=
  passesBlanks_mark Ascii.closeBracket gap _ hgap

/-- The items behind an item are read one after the other. -/
theorem itemsFrom_itemsForm {item : Reader α} (hblanks : PassesBlanks item)
    {texts : List Bytes} {values : List α} (hreads : List.Forall₂ (Reads item) texts values)
    {bytes : Bytes} (h : ItemsForm texts bytes) {count : Nat} (hcount : texts.length < count)
    (rest : Bytes) : itemsFrom item count false (bytes ++ rest) = .ok (values, rest) := by
  induction hreads generalizing bytes count with
  | nil =>
    cases count with
    | zero => exact absurd hcount (Nat.not_lt_zero _)
    | succ count =>
      cases h with
      | done hgap =>
        rw [itemsFrom, slot_end_gap false item hgap]
        rfl
  | cons hread hmoreReads ih =>
    cases count with
    | zero => exact absurd hcount (Nat.not_lt_zero _)
    | succ count =>
      cases h with
      | next hbehind hbefore hmore =>
        have hrest := ih hmore (Nat.lt_of_succ_lt_succ hcount)
        simp only [List.append_assoc, List.cons_append]
        rw [itemsFrom, hread.slot_next_gap hblanks hbehind hbefore (hmore.apart_append rest)]
        dsimp only
        rw [hrest]

/-- The items of an array are read behind its opening. -/
theorem items_arrayForm {item : Reader α} (hblanks : PassesBlanks item) {texts : List Bytes}
    {values : List α} (hreads : List.Forall₂ (Reads item) texts values) {bytes : Bytes}
    (h : ArrayForm texts bytes) (rest : Bytes) :
    ∃ inner, bytes ++ rest = Ascii.openBracket :: inner ∧
      items item inner = .ok (values, rest) := by
  cases hreads with
  | nil =>
    cases h with
    | @empty gap hgap =>
      refine ⟨gap ++ [Ascii.closeBracket] ++ rest, rfl, ?_⟩
      rw [items, itemsFrom, slot_end_gap true item hgap]
      rfl
  | @cons text value texts values hread hmoreReads =>
    cases h with
    | @items before _ more _ hbefore hmore =>
      have hlength : texts.length < (before ++ (text ++ more) ++ rest).length := by
        have hitems := hmore.length_lt
        simp only [List.length_append]
        omega
      have hmoreRead := itemsFrom_itemsForm hblanks hmoreReads hmore hlength rest
      refine ⟨before ++ (text ++ more) ++ rest, rfl, ?_⟩
      rw [items, itemsFrom]
      simp only [List.append_assoc] at hmoreRead ⊢
      rw [hread.slot_first_gap hbefore (hmore.apart_append rest)]
      dsimp only
      rw [hmoreRead]

/-- The items of an array are read as they are written, with blanks between its parts. -/
theorem reads_list {item : Reader α} (hblanks : PassesBlanks item) {texts : List Bytes}
    {values : List α} (hreads : List.Forall₂ (Reads item) texts values) {bytes : Bytes}
    (h : ArrayForm texts bytes) : Reads (list item) bytes values := by
  refine ⟨h.opens, fun rest _ => ?_⟩
  obtain ⟨inner, hinner, hitems⟩ := items_arrayForm hblanks hreads h rest
  rw [hinner, list, opening_cons _ rfl]
  exact hitems

/-- A first place that must hold an item holds the one that stands there behind blanks. -/
theorem Reads.place_first_gap {item : Reader α} {bytes : Bytes} {value : α}
    (h : Reads item bytes value) {before rest : Bytes} (hbefore : Gap before)
    (hrest : Apart rest) : place true item (before ++ (bytes ++ rest)) = .ok (value, rest) := by
  rw [place, h.slot_first_gap hbefore hrest]

/-- A further place that must hold an item holds the one that stands there. -/
theorem Reads.place_next_gap {item : Reader α} (hblanks : PassesBlanks item) {bytes : Bytes}
    {value : α} (h : Reads item bytes value) {behind before rest : Bytes} (hbehind : Gap behind)
    (hbefore : Gap before) (hrest : Apart rest) :
    place false item (behind ++ Ascii.comma :: (before ++ (bytes ++ rest))) =
      .ok (value, rest) := by
  rw [place, h.slot_next_gap hblanks hbehind hbefore hrest]

variable {first : Reader α} {second : Reader β} {third : Reader γ} {fourth : Reader δ}
  {as bs cs ds bytes : Bytes} {a : α} {b : β} {c : γ} {d : δ}

/-- An array of two items is read as it is written, with blanks between its parts. -/
theorem reads_two (hsecond : PassesBlanks second) (ha : Reads first as a)
    (hb : Reads second bs b) (h : ArrayForm [as, bs] bytes) :
    Reads (two first second) bytes (a, b) := by
  refine ⟨h.opens, fun rest _ => ?_⟩
  cases h with
  | items hbefore hmore =>
    cases hmore with
    | next hbehind hbefore' hmore =>
      cases hmore with
      | done hgap =>
        simp only [List.cons_append, List.append_assoc, List.nil_append]
        rw [two, opening_cons _ rfl]
        simp only [bind, Except.bind]
        rw [ha.place_first_gap hbefore (hbehind.apart_append (apart_cons _ rfl))]
        dsimp only
        rw [hb.place_next_gap hsecond hbehind hbefore' (hgap.apart_append (apart_cons _ rfl))]
        dsimp only
        rw [closeArray_gap hgap]
        rfl

/-- An array of three items is read as it is written, with blanks between its parts. -/
theorem reads_three (hsecond : PassesBlanks second) (hthird : PassesBlanks third)
    (ha : Reads first as a) (hb : Reads second bs b) (hc : Reads third cs c)
    (h : ArrayForm [as, bs, cs] bytes) : Reads (three first second third) bytes (a, b, c) := by
  refine ⟨h.opens, fun rest _ => ?_⟩
  cases h with
  | items hbefore hmore =>
    cases hmore with
    | next hbehindA hbeforeB hmore =>
      cases hmore with
      | next hbehindB hbeforeC hmore =>
        cases hmore with
        | done hgap =>
          simp only [List.cons_append, List.append_assoc, List.nil_append]
          rw [three, opening_cons _ rfl]
          simp only [bind, Except.bind]
          rw [ha.place_first_gap hbefore (hbehindA.apart_append (apart_cons _ rfl))]
          dsimp only
          rw [hb.place_next_gap hsecond hbehindA hbeforeB
            (hbehindB.apart_append (apart_cons _ rfl))]
          dsimp only
          rw [hc.place_next_gap hthird hbehindB hbeforeC (hgap.apart_append (apart_cons _ rfl))]
          dsimp only
          rw [closeArray_gap hgap]
          rfl

/-- An array of four items is read as it is written, with blanks between its parts. -/
theorem reads_four (hsecond : PassesBlanks second) (hthird : PassesBlanks third)
    (hfourth : PassesBlanks fourth) (ha : Reads first as a) (hb : Reads second bs b)
    (hc : Reads third cs c) (hd : Reads fourth ds d) (h : ArrayForm [as, bs, cs, ds] bytes) :
    Reads (four first second third fourth) bytes (a, b, c, d) := by
  refine ⟨h.opens, fun rest _ => ?_⟩
  cases h with
  | items hbefore hmore =>
    cases hmore with
    | next hbehindA hbeforeB hmore =>
      cases hmore with
      | next hbehindB hbeforeC hmore =>
        cases hmore with
        | next hbehindC hbeforeD hmore =>
          cases hmore with
          | done hgap =>
            simp only [List.cons_append, List.append_assoc, List.nil_append]
            rw [four, opening_cons _ rfl]
            simp only [bind, Except.bind]
            rw [ha.place_first_gap hbefore (hbehindA.apart_append (apart_cons _ rfl))]
            dsimp only
            rw [hb.place_next_gap hsecond hbehindA hbeforeB
              (hbehindB.apart_append (apart_cons _ rfl))]
            dsimp only
            rw [hc.place_next_gap hthird hbehindB hbeforeC
              (hbehindC.apart_append (apart_cons _ rfl))]
            dsimp only
            rw [hd.place_next_gap hfourth hbehindC hbeforeD (hgap.apart_append (apart_cons _ rfl))]
            dsimp only
            rw [closeArray_gap hgap]
            rfl

end Reader

end RobotSoccer
