import RobotSoccer.Proofs.Json.Cuts
import RobotSoccer.Proofs.Json.Enclosed

/-!
# Arrays and objects that are cut short

An array or an object ends with its bracket only, so whatever is cut off its compact bytes, what is
left is an end of the input: within an item or a member, since what is left of that is an end of the
input or a value with nothing behind it, and between them, since something must follow.
-/

namespace RobotSoccer

namespace Reader

variable {α β γ σ : Type} {bytes cut more back : Bytes} {limit : Nat}

/-- Whatever is cut off some bytes, what is left is an end of the input to a reader if it has fewer
bytes than a limit. -/
def SeversWithin (limit : Nat) (read : Bytes → Except Fault β) (bytes : Bytes) : Prop :=
  ∀ cut more, cut ++ more = bytes → more ≠ [] → cut.length < limit →
    read cut = .error .endOfInput

/-- Without a limit there is none for fewer bytes than any limit. -/
theorem Severs.within {read : Bytes → Except Fault β} (h : Severs read bytes) (limit : Nat) :
    SeversWithin limit read bytes := fun cut more hcut hmore _ => h cut more hcut hmore

/-- If there is no end of the input missing under any limit, none is missing. -/
theorem Severs.of_within {read : Bytes → Except Fault β}
    (h : ∀ limit, SeversWithin limit read bytes) : Severs read bytes :=
  fun cut more hcut hmore => h (cut.length + 1) cut more hcut hmore (Nat.lt_succ_self _)

/-- A smaller limit asks for less. -/
theorem SeversWithin.of_succ {read : Bytes → Except Fault β}
    (h : SeversWithin (limit + 1) read bytes) : SeversWithin limit read bytes :=
  fun cut more hcut hmore hlimit => h cut more hcut hmore (Nat.lt_succ_of_lt hlimit)

/-- Readers that do the same sever the same. -/
theorem SeversWithin.of_eq {read other : Bytes → Except Fault β}
    (h : SeversWithin limit other bytes) (heq : ∀ cut, read cut = other cut) :
    SeversWithin limit read bytes := by
  intro cut more hcut hmore hlimit
  rw [heq]
  exact h cut more hcut hmore hlimit

/-- An end of the input stays one when the value would be turned into another one. -/
theorem SeversWithin.map {read : Bytes → Except Fault β} (h : SeversWithin limit read bytes)
    (f : β → γ) : SeversWithin limit (fun cut => (read cut).map f) bytes := by
  intro cut more hcut hmore hlimit
  dsimp only
  rw [h cut more hcut hmore hlimit]
  rfl

/-- Bytes are cut before the first of them or behind it. -/
theorem SeversWithin.cons {read : Bytes → Except Fault β} {b : UInt8}
    (hnil : read [] = .error .endOfInput)
    (h : SeversWithin limit (fun cut => read (b :: cut)) bytes) :
    SeversWithin (limit + 1) read (b :: bytes) := by
  intro cut more hcut hmore hlimit
  cases cut with
  | nil => exact hnil
  | cons c cut =>
    obtain ⟨rfl, hbehind⟩ := List.cons.inj hcut
    exact h cut more hbehind hmore (Nat.lt_of_succ_lt_succ hlimit)

/-- What stands apart does so when it is cut short. -/
theorem Apart.of_append (h : Apart (cut ++ more)) : Apart cut := by
  cases cut with
  | nil => exact apart_nil
  | cons b cut => exact apart_cons cut (h b rfl)

/-- Bytes are cut within a text or a mark in front of them, or behind it. -/
theorem Severs.bind_within {read : Reader α} {front : Bytes} {value : α}
    {next : α × Bytes → Except Fault β} (hfront : Severs read front)
    (hread : ∀ rest, read (front ++ rest) = .ok (value, rest))
    (hnext : SeversWithin limit (fun rest => next (value, rest)) back) :
    SeversWithin limit (fun cut => (read cut).bind next)
      (front ++ back) := by
  intro cut more hcut hmore hlimit
  dsimp only
  have hbehind {behind : Bytes} (hcut : cut = front ++ behind) (hsplit : back = behind ++ more) :
      (read cut).bind next = .error .endOfInput := by
    have hshort : behind.length < limit := by
      rw [hcut, List.length_append] at hlimit
      omega
    rw [hcut, hread]
    exact hnext behind more hsplit.symm hmore hshort
  rcases List.append_eq_append_iff.1 hcut with ⟨left, hsplit, hrest⟩ | ⟨behind, hbytes, hsplit⟩
  · by_cases hleft : left = []
    · subst hleft
      rw [List.append_nil] at hsplit
      exact hbehind (hsplit.symm.trans (List.append_nil front).symm) hrest.symm
    · rw [hfront cut left hsplit.symm hleft]
      rfl
  · exact hbehind hbytes hsplit

/-- Bytes are cut within a value in front of them or behind it, and reading goes on with nothing
behind what is left of the value. -/
theorem Tears.bind_within {read : Reader α} {value : α} {next : α × Bytes → Except Fault β}
    (h : Tears read bytes value) (hnil : read [] = .error .endOfInput)
    (hend : 0 < limit → ∀ value, next (value, []) = .error .endOfInput)
    (hnext : SeversWithin limit (fun rest => next (value, rest)) back) (hapart : Apart back) :
    SeversWithin (limit + 1) (fun cut => (read cut).bind next)
      (bytes ++ back) := by
  intro cut more hcut hmore hlimit
  dsimp only
  have hbehind {behind : Bytes} (hcut : cut = bytes ++ behind) (hsplit : back = behind ++ more) :
      (read cut).bind next = .error .endOfInput := by
    obtain ⟨b, text, hopens, -⟩ := h.opens
    have hshort : behind.length < limit := by
      rw [hcut, hopens, List.length_append, List.length_cons] at hlimit
      omega
    rw [hsplit] at hapart
    rw [hcut, h.reads behind hapart.of_append]
    exact hnext behind more hsplit.symm hmore hshort
  rcases List.append_eq_append_iff.1 hcut with ⟨left, hsplit, hrest⟩ | ⟨behind, hbytes, hsplit⟩
  · by_cases hleft : left = []
    · subst hleft
      rw [List.append_nil] at hsplit
      exact hbehind (hsplit.symm.trans (List.append_nil bytes).symm) hrest.symm
    · cases cut with
      | nil =>
        rw [hnil]
        rfl
      | cons b cut =>
        rw [List.length_cons] at hlimit
        rcases h.breaks _ left hsplit.symm hleft with hfault | ⟨found, hfound⟩
        · rw [hfault]
          rfl
        · rw [hfound]
          exact hend (by omega) found
  · exact hbehind hbytes hsplit

/-- The same without a limit. -/
theorem Tears.bind {read : Reader α} {value : α} {next : α × Bytes → Except Fault β}
    (h : Tears read bytes value) (hnil : read [] = .error .endOfInput)
    (hend : ∀ value, next (value, []) = .error .endOfInput) (hnext : Severs (fun rest => next (value, rest)) back)
    (hapart : Apart back) :
    Severs (fun cut => (read cut).bind next) (bytes ++ back) :=
  .of_within fun limit =>
    (h.bind_within hnil (fun _ => hend) (hnext.within limit) hapart).of_succ

/-- What is read behind an opening is cut short as it is without it. -/
theorem Severs.behind_opening {next : Bytes → Except Fault β} {byte : UInt8}
    (hbyte : Ascii.isBlank byte = false) (h : Severs next bytes) :
    Severs (fun cut => (opening byte cut).bind next) (byte :: bytes) := by
  refine .cons rfl (h.of_eq fun cut => ?_)
  rw [opening_cons _ hbyte]
  rfl

variable {item : Reader α} {value : α}

/-- A first place is cut short as the item in it is. -/
theorem Tears.slot_first (h : Tears item bytes value) :
    Tears (slot true item) bytes (some value) where
  opens := h.opens
  reads _ hrest := h.toReads.slot_first hrest
  breaks := by
    intro cut more hcut hmore
    obtain ⟨b, text, rfl, hblank, hclose⟩ := h.opens
    cases cut with
    | nil => exact .inl rfl
    | cons c cut =>
      obtain ⟨rfl, -⟩ := List.cons.inj hcut
      rw [slot, skipBlank_cons _ hblank]
      dsimp only
      rw [if_neg hclose, if_pos rfl]
      rcases h.breaks _ more hcut hmore with hfault | ⟨found, hfound⟩
      · exact .inl (by rw [hfault])
      · exact .inr ⟨some found, by rw [hfound]⟩

/-- A further place is cut short as the item in it is, behind a comma. -/
theorem Tears.slot_next (hblanks : PassesBlanks item) (h : Tears item bytes value) :
    Tears (slot false item) (Ascii.comma :: bytes) (some value) where
  opens := ⟨Ascii.comma, bytes, rfl, rfl, by decide⟩
  reads _ hrest := h.toReads.slot_next_gap hblanks gap_nil gap_nil hrest
  breaks := by
    intro cut more hcut hmore
    cases cut with
    | nil => exact .inl rfl
    | cons c cut =>
      obtain ⟨rfl, hbehind⟩ := List.cons.inj hcut
      rw [slot, skipBlank_cons _ rfl]
      dsimp only
      rw [if_neg (by decide), if_neg Bool.false_ne_true, if_pos rfl]
      rcases h.breaks cut more hbehind hmore with hfault | ⟨found, hfound⟩
      · exact .inl (by rw [hfault])
      · exact .inr ⟨some found, by rw [hfound]⟩

/-- A place that must hold an item is cut short as one that may. -/
theorem Tears.place {first : Bool} (h : Tears (slot first item) bytes (some value)) :
    Tears (place first item) bytes value where
  opens := h.opens
  reads rest hrest := by rw [Reader.place, h.reads rest hrest]
  breaks := by
    intro cut more hcut hmore
    rw [Reader.place]
    rcases h.breaks cut more hcut hmore with hfault | ⟨found, hfound⟩
    · exact .inl (by rw [hfault])
    · cases found with
      | some found => exact .inr ⟨found, by rw [hfound]⟩
      | none =>
        -- The end of an array is left to be read, so it is not met with nothing behind it.
        obtain ⟨gap, -, ⟨text, -, -, hrest⟩ | ⟨_, _, _, -, hsome, -⟩ | ⟨_, _, -, hsome, -⟩⟩ :=
          slot_cases hfound
        · cases hrest
        · cases hsome
        · cases hsome

open Json

/-- The bracket that ends an array is cut off. -/
theorem severs_closeArray (value : α) :
    Severs (fun rest => (closeArray rest).map (value, ·)) [Ascii.closeBracket] :=
  .cons rfl (severs_nil _)

/-- Behind the item at a place the items of an array go on. -/
theorem itemsFrom_slot {first : Bool} {count : Nat} (bytes : Bytes) :
    itemsFrom item (count + 1) first bytes = (slot first item bytes).bind fun found =>
      match found.1 with
      | none => (closeArray found.2).map ([], ·)
      | some value =>
        (itemsFrom item count false found.2).map fun more => (value :: more.1, more.2) := by
  rw [itemsFrom]
  cases slot first item bytes with
  | error fault => rfl
  | ok found =>
    obtain ⟨found?, rest⟩ := found
    cases found? with
    | none =>
      dsimp only [Except.bind]
      cases closeArray rest <;> rfl
    | some value =>
      dsimp only [Except.bind]
      cases itemsFrom item count false rest <;> rfl

/-- An array is cut within the item at a place or behind it. -/
theorem Tears.itemsFrom {first : Bool} {count : Nat} (h : Tears (slot first item) bytes (some value))
    (hmore : SeversWithin count (itemsFrom item count false) back) (hapart : Apart back) :
    SeversWithin (count + 1) (Reader.itemsFrom item (count + 1) first) (bytes ++ back) := by
  have hend (hcount : 0 < count) (found : Option α) :
      (match found with
        | none => (closeArray []).map ([], ·)
        | some value =>
          (Reader.itemsFrom item count false []).map fun more : List α × Bytes =>
            (value :: more.1, more.2)) =
        .error .endOfInput := by
    obtain ⟨count, rfl⟩ : ∃ less, count = less + 1 := ⟨count - 1, by omega⟩
    cases found <;> rfl
  exact (h.bind_within rfl hend (hmore.map _) hapart).of_eq itemsFrom_slot

variable {texts : List Bytes} {values : List α}

/-- The items behind an item stand apart from it. -/
theorem apart_itemsBytes (items : List Bytes) : Apart (itemsBytes items) := by
  cases items with
  | nil => exact apart_cons _ rfl
  | cons item items => exact apart_cons _ rfl

/-- The items behind an item are cut short. -/
theorem severs_itemsFrom (hblanks : PassesBlanks item)
    (h : List.Forall₂ (Tears item) texts values) :
    ∀ count, SeversWithin count (Reader.itemsFrom item count false) (itemsBytes texts) := by
  induction h with
  | nil =>
    intro count
    cases count with
    | zero => exact fun _ _ _ _ hlimit => absurd hlimit (Nat.not_lt_zero _)
    | succ count => exact .cons rfl ((severs_nil _).within _)
  | cons hitem _ ih =>
    intro count
    cases count with
    | zero => exact fun _ _ _ _ hlimit => absurd hlimit (Nat.not_lt_zero _)
    | succ count =>
      refine (hitem.slot_next hblanks).itemsFrom (ih count) ?_
      exact apart_itemsBytes _

/-- An array that is cut short is an end of the input. -/
theorem severs_list (hblanks : PassesBlanks item) (h : List.Forall₂ (Tears item) texts values) :
    Severs (list item) (arrayBytes texts) := by
  cases h with
  | nil =>
    exact Severs.behind_opening rfl (.cons rfl (severs_nil _))
  | @cons _ _ texts _ hitem hitems =>
    refine Severs.behind_opening rfl fun cut more hcut hmore => ?_
    exact hitem.slot_first.itemsFrom (severs_itemsFrom hblanks hitems cut.length)
      (apart_itemsBytes texts) cut more hcut hmore (Nat.lt_succ_self _)

variable {first : Reader α} {second : Reader β} {third : Reader γ} {as bs cs : Bytes} {a : α} {b : β}
  {c : γ}

/-- An array of two items that is cut short is an end of the input. -/
theorem severs_two (hsecond : PassesBlanks second) (ha : Tears first as a) (hb : Tears second bs b) :
    Severs (two first second) (arrayBytes [as, bs]) := by
  have hmore (a : α) : Severs (fun rest => (Reader.place false second rest).bind fun found =>
      (closeArray found.2).map ((a, found.1), ·)) (itemsBytes [bs]) :=
    (hb.slot_next hsecond).place.bind rfl (fun _ => rfl) (severs_closeArray (a, b))
      (apart_cons _ rfl)
  exact Severs.behind_opening rfl (ha.slot_first.place.bind rfl (fun _ => rfl) (hmore a)
    (apart_cons _ rfl))

/-- An array of three items that is cut short is an end of the input. -/
theorem severs_three (hsecond : PassesBlanks second) (hthird : PassesBlanks third)
    (ha : Tears first as a) (hb : Tears second bs b) (hc : Tears third cs c) :
    Severs (three first second third) (arrayBytes [as, bs, cs]) := by
  have hlast (a : α) (b : β) : Severs (fun rest => (Reader.place false third rest).bind fun found =>
      (closeArray found.2).map ((a, b, found.1), ·)) (itemsBytes [cs]) :=
    (hc.slot_next hthird).place.bind rfl (fun _ => rfl) (severs_closeArray (a, b, c))
      (apart_cons _ rfl)
  have hmore (a : α) : Severs (fun rest => (Reader.place false second rest).bind fun b =>
      (Reader.place false third b.2).bind fun found =>
        (closeArray found.2).map ((a, b.1, found.1), ·)) (itemsBytes [bs, cs]) :=
    (hb.slot_next hsecond).place.bind rfl (fun _ => rfl) (hlast a b) (apart_cons _ rfl)
  exact Severs.behind_opening rfl (ha.slot_first.place.bind rfl (fun _ => rfl) (hmore a)
    (apart_cons _ rfl))

/-- The value of a member is cut short as it is without its colon. -/
theorem Tears.valueOf (hblanks : PassesBlanks item) (h : Tears item bytes value) :
    Tears (valueOf item) (Ascii.colon :: bytes) value where
  opens := ⟨Ascii.colon, bytes, rfl, rfl, by decide⟩
  reads _ hrest := h.toReads.valueOf_gap hblanks gap_nil gap_nil hrest
  breaks := by
    intro cut more hcut hmore
    cases cut with
    | nil => exact .inl rfl
    | cons c cut =>
      obtain ⟨rfl, hbehind⟩ := List.cons.inj hcut
      exact h.breaks cut more hbehind hmore

/-- Taking in members one after the other leads from what was gathered before to what is gathered
after them, and each of them may be cut short behind its name. -/
inductive Gathers (entry : σ → String → Reader σ) : σ → List (String × Bytes) → σ → Prop
  /-- There are no members. -/
  | nil (gathered : σ) : Gathers entry gathered [] gathered
  /-- A member is taken in, and then the others. -/
  | cons {before between after : σ} {name : String} {bytes : Bytes}
    {members : List (String × Bytes)} (hnil : entry before name [] = .error .endOfInput)
    (hfirst : Tears (entry before name) (Ascii.colon :: bytes) between)
    (hmore : Gathers entry between members after) :
    Gathers entry before ((name, bytes) :: members) after

variable {entry : σ → String → Reader σ} {before between after : σ} {name : String} {count : Nat}

/-- What is behind a member stands apart from it. -/
theorem apart_membersBytes (members : List (String × Bytes)) : Apart (membersBytes members) := by
  cases members with
  | nil => exact apart_cons _ rfl
  | cons member members => exact apart_cons _ rfl

/-- A member is cut within its name, behind it or behind its value. -/
theorem severs_member {first : Bool} (hnil : entry before name [] = .error .endOfInput)
    (hfirst : Tears (entry before name) (Ascii.colon :: bytes) between)
    (hmore : SeversWithin count (membersFrom quotation entry count false between) back)
    (hapart : Apart back) :
    SeversWithin (count + 1) (membersFrom quotation entry (count + 1) first before)
      ((if first then [] else [Ascii.comma]) ++
        (keyBytes name ++ Ascii.colon :: (bytes ++ back))) := by
  have hend (hcount : 0 < count) (gathered : σ) :
      membersFrom quotation entry count false gathered [] = .error .endOfInput := by
    obtain ⟨count, rfl⟩ : ∃ less, count = less + 1 := ⟨count - 1, by omega⟩
    rfl
  have hread (rest : Bytes) : quotation (Utf8.encodeChars (name.toList.flatMap escape) ++
      [Ascii.quote] ++ rest) = .ok (name, rest) := by
    rw [List.append_assoc]
    exact quotation_quotedChars name rest
  have hentry : SeversWithin count (fun rest => (entry before name rest).bind fun taken =>
      membersFrom quotation entry count false taken.1 taken.2) (Ascii.colon :: bytes ++ back) :=
    (hfirst.bind_within hnil hend hmore hapart).of_succ
  have hbehind : SeversWithin count (fun cut => (quotation cut).bind fun named =>
      (entry before named.1 named.2).bind fun taken =>
        membersFrom quotation entry count false taken.1 taken.2) _ :=
    (severs_quotation (spells_escapes name.toList)).bind_within hread hentry
  rw [keyBytes, encodeChars_quotedChars]
  cases first with
  | true =>
    refine SeversWithin.cons rfl (hbehind.of_eq fun cut => ?_)
    exact membersFrom_lead gap_nil .first cut
  | false =>
    refine SeversWithin.cons rfl (SeversWithin.cons rfl (hbehind.of_eq fun cut => ?_)).of_succ
    exact membersFrom_lead gap_nil (.next gap_nil) cut

variable {members : List (String × Bytes)}

/-- The members behind a member are cut short. -/
theorem Gathers.severs (h : Gathers entry before members after) :
    ∀ count, SeversWithin count (membersFrom quotation entry count false before)
      (membersBytes members) := by
  induction h with
  | nil gathered =>
    intro count
    cases count with
    | zero => exact fun _ _ _ _ hlimit => absurd hlimit (Nat.not_lt_zero _)
    | succ count => exact .cons rfl ((severs_nil _).within _)
  | cons hnil hfirst _ ih =>
    intro count
    cases count with
    | zero => exact fun _ _ _ _ hlimit => absurd hlimit (Nat.not_lt_zero _)
    | succ count => exact severs_member hnil hfirst (ih count) (apart_membersBytes _)

/-- The members of an object that is cut short are an end of the input. -/
theorem Gathers.severs_members (h : Gathers entry before members after) :
    Severs (Reader.members quotation entry before) (innerBytes members) := by
  cases h with
  | nil => exact .cons rfl (severs_nil _)
  | @cons _ _ _ _ _ members hnil hfirst hmore =>
    intro cut more hcut hnonempty
    exact severs_member hnil hfirst (hmore.severs cut.length) (apart_membersBytes members)
      cut more hcut hnonempty (Nat.lt_succ_self _)

end Reader

end RobotSoccer
