import RobotSoccer.Proofs.Json.Enclosed

/-!
# Arrays, maps and records end with their brackets

Whatever reads a whole array or object takes it up to the bracket that closes it and looks at
nothing behind it: readers of arrays of any length and of a fixed one, of maps, of records in both of
their forms, and of the values that nobody asks for.
-/

namespace RobotSoccer

namespace Reader

variable {α β γ : Type} {bytes rest : Bytes}

/-- A scalar that nobody asks for ends as it does where it is asked for. -/
theorem exists_of_skipScalar {b : UInt8} {more : Bytes} (h : skipScalar b more = .ok rest) :
    ∃ taken, b :: more = taken ++ rest ∧ ∀ behind : Bytes, behind.head? = rest.head? →
      ∃ text, taken ++ behind = b :: text ∧ skipScalar b text = .ok behind := by
  have hword {letters : Bytes} (hstart : ∀ text, skipScalar b text = word letters text) :
      ∃ taken, b :: more = taken ++ rest ∧ ∀ behind : Bytes, behind.head? = rest.head? →
        ∃ text, taken ++ behind = b :: text ∧ skipScalar b text = .ok behind := by
    rw [hstart, word_eq_ok_iff] at h
    refine ⟨b :: letters, congrArg _ h, fun behind _ => ⟨letters ++ behind, rfl, ?_⟩⟩
    rw [hstart, word_append]
  by_cases hnull : b = Ascii.lowerN
  · exact hword fun text => if_pos hnull
  by_cases htrue : b = Ascii.lowerT
  · exact hword fun text => by rw [skipScalar, if_neg hnull, if_pos htrue]
  by_cases hfalse : b = Ascii.lowerF
  · exact hword fun text => by rw [skipScalar, if_neg hnull, if_neg htrue, if_pos hfalse]
  by_cases hquote : b = Ascii.quote
  · have hstart (text : Bytes) : skipScalar b text = skipQuotation text := by
      rw [skipScalar, if_neg hnull, if_neg htrue, if_neg hfalse, if_pos hquote]
    rw [hstart] at h
    obtain ⟨content, rfl, hcontent⟩ := exists_content_of_skipQuotation h
    refine ⟨b :: (content ++ [Ascii.quote]), ?_, fun behind _ =>
      ⟨content ++ Ascii.quote :: behind, ?_, ?_⟩⟩
    · rw [List.cons_append, List.append_assoc]
      rfl
    · rw [List.cons_append, List.append_assoc]
      rfl
    · rw [hstart]
      exact skipQuotation_quote hcontent behind
  by_cases hnumber : startsNumber b = true
  · have hstart (text : Bytes) :
        skipScalar b text = (numeral .malformed (b :: text)).map (·.2) := by
      rw [skipScalar]
      rw [if_neg hnull, if_neg htrue, if_neg hfalse, if_neg hquote, if_pos hnumber]
    rw [hstart] at h
    obtain ⟨got, hgot, rfl⟩ := exists_ok_of_map h
    obtain ⟨taken, hbytes, htaken⟩ := continues_numeral .malformed _ got.1 got.2 hgot
    refine ⟨taken, hbytes, fun behind hbehind => ?_⟩
    obtain ⟨text, htext⟩ := exists_cons_append hbytes hbehind
    refine ⟨text, htext, ?_⟩
    rw [hstart, ← htext, htaken behind hbehind]
    rfl
  · rw [skipScalar] at h
    rw [if_neg hnull, if_neg htrue, if_neg hfalse, if_neg hquote, if_neg hnumber] at h
    cases h

/-- A scalar that is passed over ends before the first byte that does not go on with it, whatever
the bound on its depth is. -/
theorem exists_of_scalar {b : UInt8} {more : Bytes} {value : Unit} {depth limit : Nat}
    (hblank : Ascii.isBlank b = false) (harray : b ≠ Ascii.openBracket)
    (hobject : b ≠ Ascii.openBrace) (h : skipFrom depth (b :: more) = .ok (value, rest)) :
    ∃ taken, b :: more = taken ++ rest ∧ (taken.length ≤ limit → ∀ behind : Bytes,
      behind.head? = rest.head? → skipFrom limit (taken ++ behind) = .ok (value, behind)) := by
  rw [skipFrom_scalar depth _ hblank harray hobject] at h
  obtain ⟨after, hscalar, heq⟩ := exists_ok_of_map h
  obtain ⟨-, rfl⟩ := Prod.mk.inj heq
  obtain ⟨taken, hbytes, htaken⟩ := exists_of_skipScalar hscalar
  refine ⟨taken, hbytes, fun _ behind hbehind => ?_⟩
  obtain ⟨text, htext, hread⟩ := htaken behind hbehind
  rw [htext, skipFrom_scalar limit _ hblank harray hobject, hread]
  rfl

/-- An array that nobody asks for is one of values that nobody asks for. -/
theorem skipFrom_array (depth : Nat) (bytes : Bytes) :
    skipFrom (depth + 1) (Ascii.openBracket :: bytes) =
      (items (skipFrom depth) bytes).map fun read => ((), read.2) := by
  rw [skipFrom.eq_def]
  dsimp only
  rw [skipBlank_cons _ rfl]
  exact if_pos rfl

/-- An object that nobody asks for is one of texts and values that nobody asks for. -/
theorem skipFrom_object (depth : Nat) (bytes : Bytes) :
    skipFrom (depth + 1) (Ascii.openBrace :: bytes) =
      members (fun bytes => (skipQuotation bytes).map ((), ·))
        (fun _ _ => valueOf (skipFrom depth)) () bytes := by
  rw [skipFrom.eq_def]
  dsimp only
  rw [skipBlank_cons _ rfl]
  dsimp only
  rw [if_neg (by decide), if_pos rfl]

/-- What is passed over with any bound on its depth is passed over with one that is its length. -/
theorem continuesWithin_skipFrom (depth : Nat) :
    ∀ limit, ContinuesWithin limit (skipFrom depth) (skipFrom limit) := by
  have hnil (depth : Nat) (found : Unit × Bytes) : skipFrom depth [] ≠ .ok found := by
    rw [skipFrom.eq_def]
    intro h
    cases h
  induction depth with
  | zero =>
    intro limit
    refine .of_skipped (passesBlanks_skipFrom _) (passesBlanks_skipFrom _) (hnil _) ?_
    intro b more value rest hblank h
    by_cases harray : b = Ascii.openBracket
    · subst harray
      rw [skipFrom.eq_def] at h
      cases h
    by_cases hobject : b = Ascii.openBrace
    · subst hobject
      rw [skipFrom.eq_def] at h
      cases h
    exact exists_of_scalar hblank harray hobject h
  | succ depth ih =>
    intro limit
    refine .of_skipped (passesBlanks_skipFrom _) (passesBlanks_skipFrom _) (hnil _) ?_
    intro b more value rest hblank h
    by_cases harray : b = Ascii.openBracket
    · subst harray
      rw [skipFrom_array] at h
      obtain ⟨got, hgot, heq⟩ := exists_ok_of_map h
      obtain ⟨-, rfl⟩ := Prod.mk.inj heq
      obtain ⟨body, hmore, hbody⟩ := (ih (limit - 1)).items hgot
      refine ⟨Ascii.openBracket :: (body ++ [Ascii.closeBracket]), ?_, fun hlimit behind _ => ?_⟩
      · rw [hmore, List.cons_append, List.append_assoc]
        rfl
      · rw [List.length_cons, List.length_append] at hlimit
        have hread := hbody (by omega) behind
        rw [List.cons_append, List.append_assoc, ← Nat.sub_add_cancel (by omega : 1 ≤ limit),
          skipFrom_array]
        exact congrArg (Except.map fun read => ((), read.2)) hread
    by_cases hobject : b = Ascii.openBrace
    · subst hobject
      rw [skipFrom_object] at h
      obtain ⟨body, hmore, hbody⟩ :=
        closes_members closes_skipQuotation (fun _ _ => (ih (limit - 1)).valueOf) h
      refine ⟨Ascii.openBrace :: (body ++ [Ascii.closeBrace]), ?_, fun hlimit behind _ => ?_⟩
      · rw [hmore, List.cons_append, List.append_assoc]
        rfl
      · rw [List.length_cons, List.length_append] at hlimit
        have hread := hbody (by omega) behind
        rw [List.cons_append, List.append_assoc, ← Nat.sub_add_cancel (by omega : 1 ≤ limit),
          skipFrom_object]
        exact hread
    exact exists_of_scalar hblank harray hobject h

/-- A value that nobody asks for ends before the first byte that does not go on with it. -/
theorem continues_skip : Continues skip skip := by
  intro bytes value rest h
  obtain ⟨taken, hbytes, -⟩ := continuesWithin_skipFrom _ 0 bytes value rest h
  refine ⟨taken, hbytes, fun behind hbehind => ?_⟩
  obtain ⟨same, hsame, htaken⟩ :=
    continuesWithin_skipFrom _ (taken ++ behind).length bytes value rest h
  obtain rfl : taken = same := List.append_cancel_right (hbytes.symm.trans hsame)
  refine htaken ?_ behind hbehind
  rw [List.length_append]
  exact Nat.le_add_right _ _

variable {first other : Reader α} {last : UInt8}

/-- What is read behind an opening closes where it did. -/
theorem Closes.behind_opening {next more : Bytes → Except Fault (α × Bytes)} (byte : UInt8)
    (hbyte : Ascii.isBlank byte = false) (h : Closes last next more) :
    Closes last (fun bytes => (opening byte bytes).bind next) fun bytes =>
      (opening byte bytes).bind more := by
  intro bytes value rest hread
  obtain ⟨inner, hopening, hnext⟩ := exists_ok_of_bind hread
  obtain ⟨body, rfl, hbody⟩ := h inner value rest hnext
  obtain ⟨gap, hgap, hbytes⟩ := exists_gap bytes
  unfold opening at hopening
  cases hskipped : skipBlank bytes with
  | nil => rw [hskipped] at hopening; cases hopening
  | cons b text =>
    rw [hskipped] at hopening hbytes
    dsimp only at hopening
    by_cases hb : b = byte
    · rw [if_pos hb] at hopening
      cases hopening
      refine ⟨gap ++ b :: body, ?_, fun behind => ?_⟩
      · rw [hbytes, List.append_assoc]
        rfl
      · dsimp only
        rw [List.append_assoc, passesBlanks_opening byte gap _ hgap, List.cons_append, hb,
          opening_cons _ hbyte]
        exact hbody behind
    · rw [if_neg hb] at hopening
      cases hopening

/-- What is read behind a value closes where it did. -/
theorem Continues.bind (h : Continues first other) (next more : α → Reader β)
    (hnext : ∀ value, Closes last (next value) (more value)) :
    Closes last (fun bytes => (first bytes).bind fun found => next found.1 found.2)
      fun bytes => (other bytes).bind fun found => more found.1 found.2 := by
  intro bytes value rest hread
  obtain ⟨found, hfirst, hread⟩ := exists_ok_of_bind hread
  obtain ⟨taken, hbytes, htaken⟩ := h bytes found.1 found.2 hfirst
  obtain ⟨body, hafter, hbody⟩ := hnext found.1 found.2 value rest hread
  refine ⟨taken ++ body, ?_, fun behind => ?_⟩
  · rw [hbytes, hafter, List.append_assoc]
  · have hhead : (body ++ last :: behind).head? = found.2.head? :=
      hafter ▸ head?_append_of_eq body rfl
    rw [List.append_assoc]
    dsimp only
    rw [htaken _ hhead]
    exact hbody behind

/-- The end of an array closes it. -/
theorem closes_closeArray (value : α) :
    Closes Ascii.closeBracket (fun bytes => (closeArray bytes).map (value, ·))
      fun bytes => (closeArray bytes).map (value, ·) := by
  intro bytes found rest h
  obtain ⟨after, hclose, heq⟩ := exists_ok_of_map h
  obtain ⟨rfl, rfl⟩ := Prod.mk.inj heq
  obtain ⟨gap, hgap, rfl⟩ := exists_gap_of_mark hclose
  refine ⟨gap, rfl, fun behind => ?_⟩
  dsimp only
  rw [closeArray_gap hgap]
  rfl

/-- A place that must hold an item ends where the item does. -/
theorem Continues.place (h : Continues first other) (isFirst : Bool) :
    Continues (place isFirst first) (place isFirst other) := by
  intro bytes value rest hread
  unfold Reader.place at hread
  cases hslot : Reader.slot isFirst first bytes with
  | error fault => rw [hslot] at hread; cases hread
  | ok got =>
    obtain ⟨found, after⟩ := got
    have hcontinues := Continues.of_within fun limit => (h.within limit).slot isFirst
    obtain ⟨taken, hbytes, htaken⟩ := hcontinues bytes found after hslot
    rw [hslot] at hread
    cases found with
    | none => cases hread
    | some got =>
      cases hread
      refine ⟨taken, hbytes, fun behind hbehind => ?_⟩
      rw [Reader.place, htaken behind hbehind]

variable {second otherB : Reader β} {third otherC : Reader γ}

/-- An array of two items ends with its bracket. -/
theorem Continues.two (ha : Continues first other) (hb : Continues second otherB) :
    Closes Ascii.closeBracket (two first second) (two other otherB) := by
  have hend (a : α) := (hb.place false).bind (fun b rest => (closeArray rest).map ((a, b), ·))
    (fun b rest => (closeArray rest).map ((a, b), ·)) fun b => closes_closeArray (a, b)
  exact Closes.behind_opening Ascii.openBracket rfl ((ha.place true).bind _ _ hend)

/-- An array of three items ends with its bracket. -/
theorem Continues.three (ha : Continues first other) (hb : Continues second otherB)
    (hc : Continues third otherC) :
    Closes Ascii.closeBracket (three first second third) (three other otherB otherC) := by
  have hend (a : α) (b : β) := (hc.place false).bind
    (fun c rest => (closeArray rest).map ((a, b, c), ·))
    (fun c rest => (closeArray rest).map ((a, b, c), ·)) fun c => closes_closeArray (a, b, c)
  have hmore (a : α) := (hb.place false).bind _ _ (hend a)
  exact Closes.behind_opening Ascii.openBracket rfl ((ha.place true).bind _ _ hmore)

/-- An array ends with its bracket. -/
theorem Continues.list (h : Continues first other) :
    Closes Ascii.closeBracket (list first) (list other) := by
  refine Closes.behind_opening Ascii.openBracket rfl fun bytes values rest hread => ?_
  obtain ⟨body, hbytes, hbody⟩ := (h.within bytes.length).items hread
  refine ⟨body, hbytes, hbody ?_⟩
  rw [hbytes, List.length_append]
  exact Nat.le_add_right _ _

/-- A map ends with its bracket. -/
theorem Continues.dict (h : Continues first other) :
    Closes Ascii.closeBrace (dict first) (dict other) := by
  refine Closes.behind_opening Ascii.openBrace rfl fun bytes found rest hread => ?_
  have hentry (gathered : Dict α) (name : String) :
      ContinuesWithin bytes.length (entryInto first gathered name)
        (entryInto other gathered name) := by
    have hvalue := Continues.of_within fun limit => (h.within limit).valueOf
    exact (hvalue.map (gathered.insert name)).within _
  obtain ⟨body, hbytes, hbody⟩ := closes_members closes_quotation hentry hread
  refine ⟨body, hbytes, hbody ?_⟩
  rw [hbytes, List.length_append]
  exact Nat.le_add_right _ _

end Reader

namespace Record

open Reader

variable {σ : Type} {record : Record σ} {bytes rest : Bytes}

/-- The values of members end where they do in the whole. -/
def Ends (members : List (Member σ)) : Prop :=
  ∀ member ∈ members, Continues member.codec.read member.codec.read

/-- A record written as an object ends with its bracket. -/
theorem closes_readObject (h : Ends record.members) :
    Closes Ascii.closeBrace record.readObject record.readObject := by
  intro bytes value rest hread
  have hentry (gathered : σ × List String) (name : String) :
      Continues (record.takeMember gathered name) (record.takeMember gathered name) := by
    intro bytes taken after htaken
    unfold takeMember at htaken ⊢
    cases hmember : record.member? name with
    | none =>
      rw [hmember] at htaken
      have hvalue := Continues.of_within fun limit => (continues_skip.within limit).valueOf
      exact (hvalue.map fun _ => gathered) bytes taken after htaken
    | some member =>
      rw [hmember] at htaken
      dsimp only at htaken ⊢
      by_cases hcame : name ∈ gathered.2
      · rw [if_pos hcame] at htaken
        cases htaken
      · rw [if_neg hcame] at htaken
        simp only [if_neg hcame]
        have hends := h member (List.mem_of_find?_eq_some hmember)
        have hvalue := Continues.of_within fun limit => (hends.within limit).valueOf
        exact (hvalue.map fun value => (member.set gathered.1 value, name :: gathered.2))
          bytes taken after htaken
  unfold readObject at hread
  cases hgathered : Reader.members quotation record.takeMember (record.blank, []) bytes with
  | error fault => rw [hgathered] at hread; cases hread
  | ok got =>
    obtain ⟨⟨whole, names⟩, after⟩ := got
    rw [hgathered] at hread
    dsimp only at hread
    by_cases hmissing : (record.complete &&
        !(record.members.all fun member => names.contains member.name)) = true
    · rw [if_pos hmissing] at hread
      cases hread
    · rw [if_neg hmissing] at hread
      cases hread
      obtain ⟨body, hbytes, hbody⟩ := closes_members closes_quotation
        (fun gathered name => (hentry gathered name).within bytes.length) hgathered
      refine ⟨body, hbytes, fun behind => ?_⟩
      have hlimit : body.length ≤ bytes.length := by
        rw [hbytes, List.length_append]
        exact Nat.le_add_right _ _
      rw [readObject, hbody hlimit behind]
      exact if_neg hmissing

/-- A record written as an array ends with its bracket. -/
theorem closes_readPlaces {members : List (Member σ)} (h : Ends members) (complete : Bool) :
    ∀ (first : Bool) (whole : σ), Closes Ascii.closeBracket
      (readPlaces complete members first whole) (readPlaces complete members first whole) := by
  induction members with
  | nil => exact fun _ whole => closes_closeArray whole
  | cons member more ih =>
    intro first whole bytes value rest hread
    have hmore := ih fun other hother => h other (List.mem_cons_of_mem _ hother)
    have hslots := Continues.of_within fun limit =>
      ((h member List.mem_cons_self).within limit).slot first
    unfold readPlaces at hread
    cases hslot : slot first member.codec.read bytes with
    | error fault => rw [hslot] at hread; cases hread
    | ok got =>
      obtain ⟨found, after⟩ := got
      obtain ⟨taken, hbytes, htaken⟩ := hslots bytes found after hslot
      have hgo {next : σ} (hnext : readPlaces complete more false next after = .ok (value, rest))
          (hstep : ∀ bytes after, slot first member.codec.read bytes = .ok (found, after) →
            readPlaces complete (member :: more) first whole bytes =
              readPlaces complete more false next after) :
          ∃ body, bytes = body ++ Ascii.closeBracket :: rest ∧ ∀ behind,
            readPlaces complete (member :: more) first whole
              (body ++ Ascii.closeBracket :: behind) = .ok (value, behind) := by
        obtain ⟨body, hafter, hbody⟩ := hmore false next after value rest hnext
        refine ⟨taken ++ body, ?_, fun behind => ?_⟩
        · rw [hbytes, hafter, List.append_assoc]
        · have hhead : (body ++ Ascii.closeBracket :: behind).head? = after.head? :=
            hafter ▸ head?_append_of_eq body rfl
          rw [List.append_assoc, hstep _ _ (htaken _ hhead)]
          exact hbody behind
      rw [hslot] at hread
      cases found with
      | none =>
        cases complete with
        | true => cases hread
        | false => exact hgo hread fun bytes after hslot => by rw [readPlaces, hslot]; rfl
      | some got => exact hgo hread fun bytes after hslot => by rw [readPlaces, hslot]

/-- The bytes that open and close a value of one kind. -/
inductive Brackets : UInt8 → UInt8 → Prop
  /-- The brackets of an array. -/
  | array : Brackets Ascii.openBracket Ascii.closeBracket
  /-- The brackets of an object. -/
  | object : Brackets Ascii.openBrace Ascii.closeBrace

/-- A record stands between its brackets, and nothing behind them matters to it. -/
theorem exists_brackets (h : Ends record.members) {value : σ}
    (hread : record.read bytes = .ok (value, rest)) :
    ∃ gap first inner last, Gap gap ∧ Brackets first last ∧
      bytes = gap ++ first :: (inner ++ last :: rest) ∧
      ∀ behind, record.read (gap ++ first :: (inner ++ last :: behind)) = .ok (value, behind) := by
  obtain ⟨gap, hgap, hbytes⟩ := exists_gap bytes
  rw [hbytes, record.passesBlanks_read gap _ hgap] at hread
  unfold read at hread
  cases hskipped : skipBlank bytes with
  | nil => rw [hskipped] at hread; cases hread
  | cons b more =>
    rw [hskipped] at hread hbytes
    rw [skipBlank_cons _ (not_blank_of_skipBlank hskipped)] at hread
    dsimp only at hread
    by_cases hobject : b = Ascii.openBrace
    · subst hobject
      rw [if_pos rfl] at hread
      obtain ⟨inner, rfl, hinner⟩ := closes_readObject h more value rest hread
      refine ⟨gap, _, inner, _, hgap, .object, hbytes, fun behind => ?_⟩
      rw [record.passesBlanks_read gap _ hgap, read, skipBlank_cons _ rfl]
      exact (if_pos rfl).trans (hinner behind)
    · rw [if_neg hobject] at hread
      by_cases harray : b = Ascii.openBracket
      · subst harray
        rw [if_pos rfl] at hread
        obtain ⟨inner, rfl, hinner⟩ := closes_readPlaces h _ _ _ more value rest hread
        refine ⟨gap, _, inner, _, hgap, .array, hbytes, fun behind => ?_⟩
        rw [record.passesBlanks_read gap _ hgap, read, skipBlank_cons _ rfl]
        exact (if_neg (by decide)).trans ((if_pos rfl).trans (hinner behind))
      · rw [if_neg harray] at hread
        cases hread

/-- A record ends with its last bracket. -/
theorem continues_read (h : Ends record.members) : Continues record.read record.read := by
  intro bytes value rest hread
  obtain ⟨gap, first, inner, last, -, -, hbytes, hother⟩ := exists_brackets h hread
  refine ⟨gap ++ first :: (inner ++ [last]), ?_, fun behind _ => ?_⟩
  · rw [hbytes, List.append_assoc, List.cons_append, List.append_assoc]
    rfl
  · rw [List.append_assoc, List.cons_append, List.append_assoc]
    exact hother behind

end Record

end RobotSoccer
