import RobotSoccer.Json.Record
import RobotSoccer.Proofs.Number.Received

/-!
# What readers can give

A property of everything that a reader gives, whatever the bytes are. Each combinator of readers
hands such a property on from the readers of the parts to the reader of the whole, and a reader of
doubles gives finite ones only.
-/

namespace RobotSoccer

namespace Reader

variable {α β γ κ σ : Type}

/-- Everything that a reader gives is good. -/
def Gives (read : Reader α) (good : α → Prop) : Prop :=
  ∀ bytes value rest, read bytes = .ok (value, rest) → good value

/-- A reading that goes on after another one and succeeds, succeeded at both. -/
theorem exists_ok_of_bind {first : Except Fault β} {next : β → Except Fault γ} {result : γ}
    (h : first >>= next = .ok result) : ∃ found, first = .ok found ∧ next found = .ok result := by
  cases first with
  | error fault => cases h
  | ok found => exact ⟨found, rfl, h⟩

/-- What a reader gives may be turned into something else. -/
theorem exists_ok_of_map {first : Except Fault β} {f : β → γ} {result : γ}
    (h : first.map f = .ok result) : ∃ found, first = .ok found ∧ f found = result := by
  cases first with
  | error fault => cases h
  | ok found => exact ⟨found, rfl, Except.ok.inj h⟩

/-- All bytes that spell a value are read as it from their front, with nothing left but blanks. -/
theorem exists_finish_of_whole {read : Reader α} {bytes : Bytes} {value : α}
    (h : whole read bytes = .ok value) :
    ∃ rest, read bytes = .ok (value, rest) ∧ finish rest = .ok () := by
  unfold whole at h
  cases hread : read bytes with
  | error fault => rw [hread] at h; cases h
  | ok found =>
    rw [hread] at h
    dsimp only at h
    cases hfinish : finish found.2 with
    | error fault => rw [hfinish] at h; cases h
    | ok _ =>
      rw [hfinish] at h
      exact ⟨found.2, congrArg (fun value => Except.ok (value, found.2)) (Except.ok.inj h), hfinish⟩

/-- All bytes that spell a value are read as it from their front. -/
theorem exists_ok_of_whole {read : Reader α} {bytes : Bytes} {value : α}
    (h : whole read bytes = .ok value) : ∃ rest, read bytes = .ok (value, rest) :=
  (exists_finish_of_whole h).imp fun _ hrest => hrest.1

/-- A reader that turns what another one gives into something else gives what comes of it. -/
theorem Gives.map {read : Reader α} {good : α → Prop} {better : β → Prop} {f : α → β}
    (h : Gives read good) (hf : ∀ value, good value → better (f value)) :
    Gives (fun bytes => (read bytes).map fun found => (f found.1, found.2)) better := by
  intro bytes value rest hread
  obtain ⟨found, hfound, heq⟩ := exists_ok_of_map hread
  obtain ⟨rfl, -⟩ := Prod.mk.inj heq
  exact hf _ (h bytes found.1 found.2 hfound)

/-- A number that is read has a finite value. -/
theorem gives_anyNumber : Gives anyNumber fun value => value.toFloat.isFinite = true := by
  intro bytes value rest hread
  unfold anyNumber at hread
  cases hblank : skipBlank bytes with
  | nil => rw [hblank] at hread; cases hread
  | cons b more =>
    rw [hblank] at hread
    dsimp only at hread
    by_cases hstart : startsNumber b = true
    · rw [if_pos hstart, number] at hread
      cases hnumeral : numeral .endOfInput (b :: more) with
      | error fault => rw [hnumeral] at hread; cases hread
      | ok found =>
        rw [hnumeral] at hread
        dsimp only at hread
        cases hvalue : found.1.value? with
        | none => rw [hvalue] at hread; cases hread
        | some meant =>
          rw [hvalue] at hread
          have heq : meant = value := congrArg Prod.fst (Except.ok.inj hread)
          rw [← heq]
          exact Numeral.isFinite_of_value? hvalue
    · rw [if_neg hstart] at hread
      cases hread

/-- A double that is read is finite. -/
theorem gives_double : Gives double (·.isFinite = true) := gives_anyNumber.map fun _ h => h

/-- A value that may be missing is good when it is there. -/
theorem Gives.nullable {read : Reader α} {good : α → Prop} (h : Gives read good) :
    Gives (nullable read) fun found => ∀ value ∈ found, good value := by
  intro bytes found rest hread
  unfold Reader.nullable at hread
  cases hblank : skipBlank bytes with
  | nil => rw [hblank] at hread; cases hread
  | cons b more =>
    rw [hblank] at hread
    dsimp only at hread
    by_cases hnull : b = Ascii.lowerN
    · rw [if_pos hnull] at hread
      obtain ⟨after, -, heq⟩ := exists_ok_of_map hread
      obtain ⟨rfl, -⟩ := Prod.mk.inj heq
      exact fun value hvalue => nomatch hvalue
    · rw [if_neg hnull] at hread
      obtain ⟨got, hgot, heq⟩ := exists_ok_of_map hread
      obtain ⟨rfl, -⟩ := Prod.mk.inj heq
      intro value hvalue
      rw [← Option.some.inj hvalue]
      exact h _ got.1 got.2 hgot

/-- A place in an array holds a good item or none. -/
theorem Gives.slot {item : Reader α} {good : α → Prop} (h : Gives item good) (first : Bool) :
    Gives (slot first item) fun found => ∀ value ∈ found, good value := by
  intro bytes found rest hread
  have hgood {start : Bytes} {got : α × Bytes} (hgot : item start = .ok got) :
      ∀ value ∈ some got.1, good value :=
    fun value hvalue => Option.some.inj hvalue ▸ h start got.1 got.2 hgot
  unfold Reader.slot at hread
  cases hblank : skipBlank bytes with
  | nil => rw [hblank] at hread; cases hread
  | cons b more =>
    rw [hblank] at hread
    dsimp only at hread
    by_cases hclose : b = Ascii.closeBracket
    · rw [if_pos hclose] at hread
      cases hread
      exact fun value hvalue => nomatch hvalue
    · rw [if_neg hclose] at hread
      cases first with
      | true =>
        rw [if_pos rfl] at hread
        cases hgot : item (b :: more) with
        | error fault => rw [hgot] at hread; cases hread
        | ok got =>
          rw [hgot] at hread
          cases hread
          exact hgood hgot
      | false =>
        rw [if_neg Bool.false_ne_true] at hread
        by_cases hcomma : b = Ascii.comma
        · rw [if_pos hcomma] at hread
          cases hgot : item more with
          | error fault => rw [hgot] at hread; cases hread
          | ok got =>
            rw [hgot] at hread
            cases hread
            exact hgood hgot
        · rw [if_neg hcomma] at hread
          cases hread

/-- A place that must hold an item holds a good one. -/
theorem Gives.place {item : Reader α} {good : α → Prop} (h : Gives item good) (first : Bool) :
    Gives (place first item) good := by
  intro bytes value rest hread
  unfold Reader.place at hread
  cases hslot : Reader.slot first item bytes with
  | error fault => rw [hslot] at hread; cases hread
  | ok found =>
    obtain ⟨found?, after⟩ := found
    rw [hslot] at hread
    cases found? with
    | none => cases hread
    | some got =>
      have heq : got = value := congrArg Prod.fst (Except.ok.inj hread)
      rw [← heq]
      exact h.slot first bytes (some got) after hslot got rfl

/-- An array of two good items. -/
theorem gives_two {first : Reader α} {second : Reader β} {goodA : α → Prop} {goodB : β → Prop}
    (ha : Gives first goodA) (hb : Gives second goodB) :
    Gives (two first second) fun found => goodA found.1 ∧ goodB found.2 := by
  intro bytes found rest hread
  obtain ⟨inner, -, hread⟩ := exists_ok_of_bind hread
  obtain ⟨a, hplaceA, hread⟩ := exists_ok_of_bind hread
  obtain ⟨b, hplaceB, hread⟩ := exists_ok_of_bind hread
  obtain ⟨after, -, hread⟩ := exists_ok_of_bind hread
  have heq : (a.1, b.1) = found := congrArg Prod.fst (Except.ok.inj hread)
  rw [← heq]
  exact ⟨ha.place true _ _ _ hplaceA, hb.place false _ _ _ hplaceB⟩

/-- What the members of an object gather is good when each of them keeps it so. -/
theorem gives_members {name : Reader κ} {entry : σ → κ → Reader σ} {good : σ → Prop} {start : σ}
    (hstart : good start)
    (hentry : ∀ gathered found, good gathered → Gives (entry gathered found) good) :
    Gives (members name entry start) good := by
  have hfrom (count : Nat) : ∀ (first : Bool) (gathered : σ), good gathered →
      Gives (membersFrom name entry count first gathered) good := by
    induction count with
    | zero => exact fun _ _ _ _ _ _ hread => nomatch hread
    | succ count ih =>
      intro first gathered hgood bytes value rest hread
      unfold membersFrom at hread
      cases hblank : skipBlank bytes with
      | nil => rw [hblank] at hread; cases hread
      | cons b more =>
        rw [hblank] at hread
        dsimp only at hread
        by_cases hclose : b = Ascii.closeBrace
        · rw [if_pos hclose] at hread
          have heq : gathered = value := congrArg Prod.fst (Except.ok.inj hread)
          rw [← heq]
          exact hgood
        · rw [if_neg hclose] at hread
          generalize (if first = true then key name (b :: more)
            else if b = Ascii.comma then key name more else .error .malformed) = named at hread
          cases named with
          | error fault => cases hread
          | ok found =>
            dsimp only at hread
            cases htaken : entry gathered found.1 found.2 with
            | error fault => rw [htaken] at hread; cases hread
            | ok taken =>
              rw [htaken] at hread
              have hnext := hentry gathered found.1 hgood found.2 taken.1 taken.2 htaken
              exact ih false taken.1 hnext taken.2 value rest hread
  exact fun bytes => hfrom (bytes.length + 1) true start hstart bytes

/-- The value behind a colon is good. -/
theorem Gives.valueOf {value : Reader α} {good : α → Prop} (h : Gives value good) :
    Gives (valueOf value) good := by
  intro bytes found rest hread
  unfold Reader.valueOf at hread
  cases hmark : mark Ascii.colon bytes with
  | error fault => rw [hmark] at hread; cases hread
  | ok after =>
    rw [hmark] at hread
    exact h after found rest hread

/-- All values of a map are good. -/
theorem Gives.dict {value : Reader α} {good : α → Prop} (h : Gives value good) :
    Gives (dict value) fun found => ∀ entry ∈ found.entries, good entry.2 := by
  have hmembers : Gives (members quotation (entryInto value) Dict.empty)
      fun found => ∀ entry ∈ found.entries, good entry.2 := by
    refine gives_members (fun entry hentry => absurd hentry List.not_mem_nil) ?_
    intro gathered name hgood
    refine h.valueOf.map fun value hvalue entry hentry => ?_
    rcases Entries.mem_insert hentry with heq | hentry
    · rw [heq]
      exact hvalue
    · exact hgood entry hentry
  intro bytes found rest hread
  obtain ⟨inner, -, hread⟩ := exists_ok_of_bind hread
  exact hmembers inner found rest hread

end Reader

namespace Record

open Reader

variable {σ : Type} {record : Record σ} {good : σ → Prop}

/-- Each member keeps a whole good, whatever its reader gives. -/
def Keeps (record : Record σ) (good : σ → Prop) : Prop :=
  ∀ member ∈ record.members, ∀ whole, good whole →
    Gives member.codec.read fun value => good (member.set whole value)

/-- A record written as an object is good when it starts good and its members keep it so. -/
theorem gives_readObject (hblank : good record.blank) (hkeeps : record.Keeps good) :
    Gives record.readObject good := by
  intro bytes value rest hread
  have hmembers : Gives (Reader.members quotation record.takeMember (record.blank, []))
      fun gathered => good gathered.1 := by
    refine gives_members hblank fun gathered name hgood => ?_
    intro bytes taken after htaken
    unfold takeMember at htaken
    cases hmember : record.member? name with
    | none =>
      rw [hmember] at htaken
      obtain ⟨got, -, heq⟩ := exists_ok_of_map htaken
      obtain ⟨rfl, -⟩ := Prod.mk.inj heq
      exact hgood
    | some member =>
      rw [hmember] at htaken
      dsimp only at htaken
      by_cases hcame : name ∈ gathered.2
      · rw [if_pos hcame] at htaken
        cases htaken
      · rw [if_neg hcame] at htaken
        obtain ⟨got, hgot, heq⟩ := exists_ok_of_map htaken
        obtain ⟨rfl, -⟩ := Prod.mk.inj heq
        have hmem : member ∈ record.members := List.mem_of_find?_eq_some hmember
        exact (hkeeps member hmem gathered.1 hgood).valueOf bytes got.1 got.2 hgot
  unfold readObject at hread
  cases hgathered : Reader.members quotation record.takeMember (record.blank, []) bytes with
  | error fault => rw [hgathered] at hread; cases hread
  | ok gathered =>
    obtain ⟨⟨whole, names⟩, after⟩ := gathered
    rw [hgathered] at hread
    dsimp only at hread
    by_cases hmissing : (record.complete &&
        !(record.members.all fun member => names.contains member.name)) = true
    · rw [if_pos hmissing] at hread
      cases hread
    · rw [if_neg hmissing] at hread
      have heq : whole = value := congrArg Prod.fst (Except.ok.inj hread)
      rw [← heq]
      exact hmembers bytes (whole, names) after hgathered

/-- A record written as an array is good when it starts good and its members keep it so. -/
theorem gives_readPlaces {members : List (Member σ)}
    (hkeeps : ∀ member ∈ members, ∀ whole, good whole →
      Gives member.codec.read fun value => good (member.set whole value))
    (complete first : Bool) {whole : σ} (hwhole : good whole) :
    Gives (readPlaces complete members first whole) good := by
  induction members generalizing first whole with
  | nil =>
    intro bytes value rest hread
    unfold readPlaces at hread
    obtain ⟨after, -, heq⟩ := exists_ok_of_map hread
    obtain ⟨rfl, -⟩ := Prod.mk.inj heq
    exact hwhole
  | cons member more ih =>
    intro bytes value rest hread
    have hmember := hkeeps member List.mem_cons_self
    have hmore := ih fun other hother => hkeeps other (List.mem_cons_of_mem _ hother)
    unfold readPlaces at hread
    cases hslot : slot first member.codec.read bytes with
    | error fault => rw [hslot] at hread; cases hread
    | ok found =>
      obtain ⟨found?, after⟩ := found
      rw [hslot] at hread
      cases found? with
      | none =>
        cases complete with
        | true => cases hread
        | false => exact hmore false hwhole after value rest hread
      | some got =>
        have hgot := (hmember whole hwhole).slot first bytes (some got) after hslot got rfl
        exact hmore false hgot after value rest hread

/-- A record is good in either of its two forms when it starts good and its members keep it so. -/
theorem gives_read (hblank : good record.blank) (hkeeps : record.Keeps good) :
    Gives record.read good := by
  intro bytes value rest hread
  unfold read at hread
  cases hskip : skipBlank bytes with
  | nil => rw [hskip] at hread; cases hread
  | cons b more =>
    rw [hskip] at hread
    dsimp only at hread
    by_cases hbrace : b = Ascii.openBrace
    · rw [if_pos hbrace] at hread
      exact gives_readObject hblank hkeeps more value rest hread
    · rw [if_neg hbrace] at hread
      by_cases hbracket : b = Ascii.openBracket
      · rw [if_pos hbracket] at hread
        exact gives_readPlaces hkeeps _ true hblank more value rest hread
      · rw [if_neg hbracket] at hread
        cases hread

end Record

end RobotSoccer
