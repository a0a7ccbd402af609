import RobotSoccer.Proofs.Json.Extent

/-!
# Items and members end with their bracket

The items of an array and the members of an object are taken up to the bracket that closes them, and
nothing behind it is looked at, as long as the readers of the items and of the values of the members
look no further than at the first byte behind these. The readers may be others when the bytes are
read again, which lets values be read with another bound on their depth.
-/

namespace RobotSoccer

namespace Reader

variable {α κ σ : Type} {limit : Nat} {bytes rest : Bytes}

/-- What stands at a place in an array: its end, an item, or a comma with an item behind it. -/
theorem slot_cases {first : Bool} {item : Reader α} {found : Option α}
    (h : slot first item bytes = .ok (found, rest)) : ∃ gap, Gap gap ∧
      ((∃ more, found = none ∧ bytes = gap ++ Ascii.closeBracket :: more ∧
          rest = Ascii.closeBracket :: more) ∨
        (∃ value b more, first = true ∧ found = some value ∧ bytes = gap ++ b :: more ∧
          Ascii.isBlank b = false ∧ b ≠ Ascii.closeBracket ∧
            item (b :: more) = .ok (value, rest)) ∨
        ∃ value more, first = false ∧ found = some value ∧ bytes = gap ++ Ascii.comma :: more ∧
          item more = .ok (value, rest)) := by
  obtain ⟨gap, hgap, hbytes⟩ := exists_gap bytes
  refine ⟨gap, hgap, ?_⟩
  unfold slot at h
  cases hskipped : skipBlank bytes with
  | nil => rw [hskipped] at h; cases h
  | cons b more =>
    rw [hskipped] at h hbytes
    dsimp only at h
    by_cases hclose : b = Ascii.closeBracket
    · rw [if_pos hclose] at h
      cases h
      exact .inl ⟨more, rfl, hclose ▸ hbytes, hclose ▸ rfl⟩
    · rw [if_neg hclose] at h
      cases first with
      | true =>
        rw [if_pos rfl] at h
        cases hitem : item (b :: more) with
        | error fault => rw [hitem] at h; cases h
        | ok got =>
          rw [hitem] at h
          cases h
          exact .inr (.inl ⟨got.1, b, more, rfl, rfl, hbytes, not_blank_of_skipBlank hskipped,
            hclose, hitem⟩)
      | false =>
        rw [if_neg Bool.false_ne_true] at h
        by_cases hcomma : b = Ascii.comma
        · rw [if_pos hcomma] at h
          cases hitem : item more with
          | error fault => rw [hitem] at h; cases h
          | ok got =>
            rw [hitem] at h
            cases h
            exact .inr (.inr ⟨got.1, more, rfl, rfl, hcomma ▸ hbytes, hitem⟩)
        · rw [if_neg hcomma] at h
          cases h

/-- A place in an array ends where its item does. -/
theorem ContinuesWithin.slot {item other : Reader α} (h : ContinuesWithin limit item other)
    (first : Bool) : ContinuesWithin limit (slot first item) (slot first other) := by
  intro bytes found rest hread
  obtain ⟨gap, hgap, ⟨more, rfl, hbytes, hrest⟩ | ⟨value, b, more, rfl, rfl, hbytes, hblank,
    hclose, hitem⟩ | ⟨value, more, rfl, rfl, hbytes, hitem⟩⟩ := slot_cases hread
  · refine ⟨gap, hrest ▸ hbytes, fun _ behind hbehind => ?_⟩
    rw [hrest] at hbehind
    obtain ⟨text, rfl⟩ := List.head?_eq_some_iff.1 hbehind
    rw [passesBlanks_slot first other gap _ hgap, Reader.slot, skipBlank_cons _ rfl]
    exact if_pos rfl
  · obtain ⟨taken, htakes, htaken⟩ := h _ value rest hitem
    refine ⟨gap ++ taken, ?_, fun hlimit behind hbehind => ?_⟩
    · rw [hbytes, htakes, List.append_assoc]
    · rw [List.length_append] at hlimit
      have hother := htaken (by omega) behind hbehind
      obtain ⟨text, htext⟩ := exists_cons_append htakes hbehind
      rw [List.append_assoc, passesBlanks_slot true other gap _ hgap, htext, Reader.slot,
        skipBlank_cons _ hblank]
      rw [htext] at hother
      dsimp only
      rw [if_neg hclose, if_pos rfl, hother]
  · obtain ⟨taken, rfl, htaken⟩ := h _ value rest hitem
    refine ⟨gap ++ Ascii.comma :: taken, ?_, fun hlimit behind hbehind => ?_⟩
    · rw [hbytes, List.append_assoc]
      rfl
    · rw [List.length_append, List.length_cons] at hlimit
      have hother := htaken (by omega) behind hbehind
      rw [List.append_assoc, passesBlanks_slot false other gap _ hgap, List.cons_append,
        Reader.slot, skipBlank_cons _ rfl]
      dsimp only
      rw [if_neg (by decide), if_neg Bool.false_ne_true, if_pos rfl, hother]

/-- The items of an array are read again in front of its end, with any bound on their count that
they do not reach. Each of them but the first is taken from some byte at least. -/
theorem ContinuesWithin.itemsFrom {item other : Reader α} (h : ContinuesWithin limit item other)
    (count : Nat) : ∀ (first : Bool) (bytes : Bytes) (values : List α) (rest : Bytes),
      itemsFrom item count first bytes = .ok (values, rest) →
        ∃ body, bytes = body ++ Ascii.closeBracket :: rest ∧
          values.length ≤ body.length + (if first then 1 else 0) ∧
          (body.length ≤ limit → ∀ (count : Nat) (behind : Bytes), values.length < count →
            Reader.itemsFrom other count first (body ++ Ascii.closeBracket :: behind) =
              .ok (values, behind)) := by
  induction count with
  | zero => exact fun _ _ _ _ hread => nomatch hread
  | succ count ih =>
    intro first bytes values rest hread
    unfold Reader.itemsFrom at hread
    cases hslot : Reader.slot first item bytes with
    | error fault => rw [hslot] at hread; cases hread
    | ok got =>
      obtain ⟨found, after⟩ := got
      obtain ⟨taken, hbytes, htaken⟩ := h.slot first bytes found after hslot
      rw [hslot] at hread
      cases found with
      | none =>
        dsimp only at hread
        cases hclose : closeArray after with
        | error fault => rw [hclose] at hread; cases hread
        | ok left =>
          rw [hclose] at hread
          cases hread
          obtain ⟨gap, hgap, hafter⟩ := exists_gap_of_mark hclose
          refine ⟨taken ++ gap, ?_, Nat.zero_le _, fun hlimit count behind hcount => ?_⟩
          · rw [hbytes, hafter, List.append_assoc]
          · cases count with
            | zero => exact absurd hcount (Nat.not_lt_zero _)
            | succ count =>
              rw [List.length_append] at hlimit
              have hhead : (gap ++ Ascii.closeBracket :: behind).head? = after.head? :=
                hafter ▸ head?_append_of_eq gap rfl
              rw [List.append_assoc, Reader.itemsFrom, htaken (by omega) _ hhead]
              dsimp only
              rw [closeArray_gap hgap]
      | some value =>
        dsimp only at hread
        cases hmore : Reader.itemsFrom item count false after with
        | error fault => rw [hmore] at hread; cases hread
        | ok got =>
          rw [hmore] at hread
          cases hread
          obtain ⟨body, hafter, hlength, hbody⟩ := ih false after got.1 got.2 hmore
          refine ⟨taken ++ body, ?_, ?_, fun hlimit count behind hcount => ?_⟩
          · rw [hbytes, hafter, List.append_assoc]
          · have htakes : first = false → 1 ≤ taken.length := by
              rintro rfl
              obtain ⟨gap, -, ⟨_, hnone, _⟩ | ⟨_, _, _, htrue, _⟩ | ⟨_, more, -, -, hcomma, hitem⟩⟩ :=
                slot_cases hslot
              · cases hnone
              · cases htrue
              · obtain ⟨item, hitem, -⟩ := h _ _ _ hitem
                have hsame := congrArg List.length (hbytes.symm.trans hcomma)
                have hmore := congrArg List.length hitem
                simp only [List.length_append, List.length_cons] at hsame hmore
                omega
            rw [List.length_cons, List.length_append]
            cases first with
            | true => simpa using Nat.le_trans hlength (Nat.le_add_left _ _)
            | false =>
              have hone := htakes rfl
              simp only [Bool.false_eq_true, if_false, Nat.add_zero] at hlength ⊢
              omega
          · cases count with
            | zero => exact absurd hcount (Nat.not_lt_zero _)
            | succ count =>
              rw [List.length_append] at hlimit
              have hhead : (body ++ Ascii.closeBracket :: behind).head? = after.head? :=
                hafter ▸ head?_append_of_eq body rfl
              rw [List.append_assoc, Reader.itemsFrom, htaken (by omega) _ hhead]
              dsimp only
              rw [hbody (by omega) count behind (Nat.lt_of_succ_lt_succ hcount)]

/-- The items of an array end with its bracket. -/
theorem ContinuesWithin.items {item other : Reader α} (h : ContinuesWithin limit item other)
    {values : List α} (hread : items item bytes = .ok (values, rest)) :
    ∃ body, bytes = body ++ Ascii.closeBracket :: rest ∧ (body.length ≤ limit → ∀ behind,
      Reader.items other (body ++ Ascii.closeBracket :: behind) = .ok (values, behind)) := by
  obtain ⟨body, hbytes, hlength, hbody⟩ := h.itemsFrom _ true bytes values rest hread
  refine ⟨body, hbytes, fun hlimit behind => hbody hlimit _ behind ?_⟩
  simp only [if_true, List.length_append, List.length_cons] at hlength ⊢
  omega

/-- What stands in front of the quote of a name: nothing for the first member of an object, a
comma and blanks for the others. -/
inductive Lead : Bool → Bytes → Prop
  /-- The first member. -/
  | first : Lead true []
  /-- Another member. -/
  | next {gap : Bytes} (hgap : Gap gap) : Lead false (Ascii.comma :: gap)

/-- A name stands behind blanks and a quote. -/
theorem exists_gap_of_key {name : Reader κ} {found : κ} (h : key name bytes = .ok (found, rest)) :
    ∃ gap more, Gap gap ∧ bytes = gap ++ Ascii.quote :: more ∧ name more = .ok (found, rest) := by
  obtain ⟨gap, hgap, hbytes⟩ := exists_gap bytes
  unfold key at h
  cases hskipped : skipBlank bytes with
  | nil => rw [hskipped] at h; cases h
  | cons b more =>
    rw [hskipped] at h hbytes
    dsimp only at h
    by_cases hquote : b = Ascii.quote
    · rw [if_pos hquote] at h
      exact ⟨gap, more, hgap, hquote ▸ hbytes, h⟩
    · rw [if_neg hquote] at h
      cases h

variable {name : Reader κ} {entry : σ → κ → Reader σ} {first : Bool} {count : Nat}
  {gathered final : σ}

/-- Behind the name of a member it is taken in, and then the members behind it. -/
theorem membersFrom_named (read : Reading κ) :
    (match read with
      | .error fault => .error fault
      | .ok (found, rest) =>
        match entry gathered found rest with
        | .error fault => .error fault
        | .ok (gathered, rest) => membersFrom name entry count false gathered rest) =
      read.bind fun named => (entry gathered named.1 named.2).bind fun taken =>
        membersFrom name entry count false taken.1 taken.2 := by
  cases read with
  | error fault => rfl
  | ok named =>
    dsimp only [Except.bind]
    cases entry gathered named.1 named.2 <;> rfl

/-- A member is taken in behind its lead, and then the members behind it. -/
theorem membersFrom_lead {gap lead : Bytes} (hgap : Gap gap) (hlead : Lead first lead)
    (more : Bytes) :
    membersFrom name entry (count + 1) first gathered (gap ++ (lead ++ Ascii.quote :: more)) =
      (name more).bind fun named => (entry gathered named.1 named.2).bind fun taken =>
        membersFrom name entry count false taken.1 taken.2 := by
  rw [passesBlanks_membersFrom name entry _ first gathered gap _ hgap]
  cases hlead with
  | first => exact membersFrom_named _
  | @next inner hinner =>
    have hkey : key name (inner ++ Ascii.quote :: more) = name more := by
      rw [key, hinner.skipBlank_append, skipBlank_cons _ rfl]
      exact if_pos rfl
    rw [List.cons_append, membersFrom, skipBlank_cons _ rfl]
    dsimp only
    rw [if_neg (by decide), if_neg Bool.false_ne_true, if_pos rfl, hkey]
    exact membersFrom_named _

/-- At a place in an object stands its end, or a member that is taken in with those behind it. -/
theorem membersFrom_cases
    (h : membersFrom name entry (count + 1) first gathered bytes = .ok (final, rest)) :
    ∃ gap, Gap gap ∧
      ((final = gathered ∧ bytes = gap ++ Ascii.closeBrace :: rest) ∨
        ∃ lead more named taken, Lead first lead ∧
          bytes = gap ++ (lead ++ Ascii.quote :: more) ∧ name more = .ok named ∧
          entry gathered named.1 named.2 = .ok taken ∧
          membersFrom name entry count false taken.1 taken.2 = .ok (final, rest)) := by
  obtain ⟨gap, hgap, hbytes⟩ := exists_gap bytes
  have hmember {lead more : Bytes} (hlead : Lead first lead)
      (heq : bytes = gap ++ (lead ++ Ascii.quote :: more)) :
      ∃ lead more named taken, Lead first lead ∧
          bytes = gap ++ (lead ++ Ascii.quote :: more) ∧ name more = .ok named ∧
          entry gathered named.1 named.2 = .ok taken ∧
          membersFrom name entry count false taken.1 taken.2 = .ok (final, rest) := by
    rw [heq, membersFrom_lead hgap hlead] at h
    obtain ⟨named, hname, h⟩ := exists_ok_of_bind h
    obtain ⟨taken, hentry, h⟩ := exists_ok_of_bind h
    exact ⟨lead, more, named, taken, hlead, heq, hname, hentry, h⟩
  refine ⟨gap, hgap, ?_⟩
  have hnamed {start : Bytes} {next : κ × Bytes → Reading σ}
      (hread : (key name start).bind next = .ok (final, rest)) :
      ∃ inner more, Gap inner ∧ start = inner ++ Ascii.quote :: more := by
    obtain ⟨named, hkey, -⟩ := exists_ok_of_bind hread
    obtain ⟨inner, more, hinner, hstart, -⟩ := exists_gap_of_key hkey
    exact ⟨inner, more, hinner, hstart⟩
  have hread := h
  unfold membersFrom at hread
  cases hskipped : skipBlank bytes with
  | nil => rw [hskipped] at hread; cases hread
  | cons b more =>
    rw [hskipped] at hread hbytes
    dsimp only at hread
    by_cases hclose : b = Ascii.closeBrace
    · rw [if_pos hclose] at hread
      cases hread
      exact .inl ⟨rfl, hclose ▸ hbytes⟩
    · rw [if_neg hclose] at hread
      right
      cases first with
      | true =>
        rw [if_pos rfl] at hread
        obtain ⟨inner, text, hinner, hstart⟩ := hnamed ((membersFrom_named _).symm.trans hread)
        cases inner with
        | nil => exact hmember .first (hstart ▸ hbytes)
        | cons c inner =>
          have hblank := not_blank_of_skipBlank hskipped
          rw [(List.cons.inj hstart).1, hinner c List.mem_cons_self] at hblank
          cases hblank
      | false =>
        rw [if_neg Bool.false_ne_true] at hread
        by_cases hcomma : b = Ascii.comma
        · rw [if_pos hcomma] at hread
          obtain ⟨inner, text, hinner, hstart⟩ := hnamed ((membersFrom_named _).symm.trans hread)
          have hmore : bytes = gap ++ (Ascii.comma :: inner ++ Ascii.quote :: text) := by
            rw [hbytes, hcomma, hstart]
            rfl
          exact hmember (.next hinner) hmore
        · rw [if_neg hcomma] at hread
          cases hread

/-- The members of an object are taken in again in front of its end, with any bound on their count
that they do not reach. -/
theorem closes_membersFrom {last : UInt8} {other : σ → κ → Reader σ} (hname : Closes last name name)
    (hentry : ∀ gathered found, ContinuesWithin limit (entry gathered found) (other gathered found))
    (count : Nat) : ∀ (first : Bool) (gathered : σ) (bytes : Bytes) (final : σ) (rest : Bytes),
      membersFrom name entry count first gathered bytes = .ok (final, rest) →
        ∃ body, bytes = body ++ Ascii.closeBrace :: rest ∧
          (body.length ≤ limit → ∀ (count : Nat) (behind : Bytes), body.length < count →
            membersFrom name other count first gathered (body ++ Ascii.closeBrace :: behind) =
              .ok (final, behind)) := by
  induction count with
  | zero => exact fun _ _ _ _ _ hread => nomatch hread
  | succ count ih =>
    intro first gathered bytes final rest hread
    obtain ⟨gap, hgap, ⟨rfl, hbytes⟩ | ⟨lead, more, named, taken, hlead, hbytes, hnamed, htaken,
      hrest⟩⟩ := membersFrom_cases hread
    · refine ⟨gap, hbytes, fun _ count behind hcount => ?_⟩
      have hend : membersFrom name other count first final (gap ++ [Ascii.closeBrace] ++ behind) =
          .ok (final, behind) :=
        membersFrom_end_gap (Nat.zero_lt_of_lt hcount) first final hgap behind
      rw [List.append_assoc] at hend
      exact hend
    · obtain ⟨text, hmore, htext⟩ := hname more named.1 named.2 hnamed
      obtain ⟨value, hvalue, hother⟩ := hentry gathered named.1 named.2 taken.1 taken.2 htaken
      obtain ⟨body, hbody, hmembers⟩ := ih false taken.1 taken.2 final rest hrest
      refine ⟨gap ++ (lead ++ Ascii.quote :: (text ++ last :: (value ++ body))), ?_,
        fun hlimit count behind hcount => ?_⟩
      · rw [hbytes, hmore, hvalue, hbody]
        simp only [List.append_assoc, List.cons_append]
      · simp only [List.length_append, List.length_cons] at hlimit hcount
        cases count with
        | zero => exact absurd hcount (Nat.not_lt_zero _)
        | succ count =>
          have hhead : (body ++ Ascii.closeBrace :: behind).head? = taken.2.head? :=
            hbody ▸ head?_append_of_eq body rfl
          simp only [List.append_assoc, List.cons_append]
          rw [membersFrom_lead hgap hlead, htext]
          dsimp only [bind, Except.bind]
          rw [hother (by omega) _ hhead]
          exact hmembers (by omega) count behind (by omega)

/-- The members of an object end with its bracket. -/
theorem closes_members {last : UInt8} {other : σ → κ → Reader σ} (hname : Closes last name name)
    (hentry : ∀ gathered found, ContinuesWithin limit (entry gathered found) (other gathered found))
    {start : σ} (hread : members name entry start bytes = .ok (final, rest)) :
    ∃ body, bytes = body ++ Ascii.closeBrace :: rest ∧ (body.length ≤ limit → ∀ behind,
      members name other start (body ++ Ascii.closeBrace :: behind) = .ok (final, behind)) := by
  obtain ⟨body, hbytes, hbody⟩ := closes_membersFrom hname hentry _ true start bytes final rest hread
  refine ⟨body, hbytes, fun hlimit behind => hbody hlimit _ behind ?_⟩
  rw [List.length_append]
  omega

/-- The value of a member ends where it does without its colon. -/
theorem ContinuesWithin.valueOf {value other : Reader α} (h : ContinuesWithin limit value other) :
    ContinuesWithin limit (valueOf value) (valueOf other) := by
  intro bytes found rest hread
  unfold Reader.valueOf at hread
  cases hmark : mark Ascii.colon bytes with
  | error fault => rw [hmark] at hread; cases hread
  | ok after =>
    rw [hmark] at hread
    obtain ⟨gap, hgap, rfl⟩ := exists_gap_of_mark hmark
    obtain ⟨taken, rfl, htaken⟩ := h after found rest hread
    refine ⟨gap ++ Ascii.colon :: taken, ?_, fun hlimit behind hbehind => ?_⟩
    · rw [List.append_assoc]
      rfl
    · rw [List.length_append, List.length_cons] at hlimit
      rw [List.append_assoc, List.cons_append, Reader.valueOf, mark_gap hgap rfl]
      exact htaken (by omega) behind hbehind

end Reader

end RobotSoccer
