import RobotSoccer.Proofs.Json.Objects

/-!
# Values that nobody asks for

The grammar of JSON values of any shape and depth, with blanks between their parts, and that the
reader which passes over a value takes exactly the bytes of one. Its numbers may lie past every
double, and its escapes are checked for their form alone.
-/

namespace RobotSoccer

namespace Json

open Reader

/-- The bytes between the quotes of a text whose escapes are well formed. -/
inductive ContentForm : Bytes → Prop
  /-- Nothing. -/
  | nil : ContentForm []
  /-- A byte that stands for itself. -/
  | plain {b : UInt8} {more : Bytes} (hb : standsForItself b = true)
    (hmore : ContentForm more) : ContentForm (b :: more)
  /-- A short escape. -/
  | short {kind escaped : UInt8} {more : Bytes} (h : shortEscape? kind = some escaped)
    (hmore : ContentForm more) : ContentForm (Ascii.backslash :: kind :: more)
  /-- An escape by four hexadecimal digits, whatever unit they spell. -/
  | code {a b c d : UInt8} {n : Nat} {more : Bytes} (h : hex4? a b c d = some n)
    (hmore : ContentForm more) :
    ContentForm (Ascii.backslash :: Ascii.lowerU :: a :: b :: c :: d :: more)

/-- The bytes of a text whose escapes are well formed. -/
inductive QuotedForm : Bytes → Prop
  /-- A content between quotes. -/
  | quoted {content : Bytes} (h : ContentForm content) :
    QuotedForm (Ascii.quote :: (content ++ [Ascii.quote]))

/-- The bytes of a JSON value of any shape. -/
inductive ValueForm : Bytes → Prop
  /-- The value null. -/
  | null : ValueForm (Ascii.lowerN :: afterN)
  /-- The value true. -/
  | true : ValueForm (Ascii.lowerT :: afterT)
  /-- The value false. -/
  | false : ValueForm (Ascii.lowerF :: afterF)
  /-- A number, however large it is. -/
  | number {bytes : Bytes} {said : Numeral} (h : NumberForm bytes said) : ValueForm bytes
  /-- A text. -/
  | text {bytes : Bytes} (h : QuotedForm bytes) : ValueForm bytes
  /-- An array of values. -/
  | array {items : List Bytes} {bytes : Bytes} (hitems : ∀ item ∈ items, ValueForm item)
    (h : ArrayForm items bytes) : ValueForm bytes
  /-- An object whose members are texts with values. -/
  | object {members : List (Bytes × Bytes)} {bytes : Bytes}
    (hnames : ∀ member ∈ members, QuotedForm member.1)
    (hvalues : ∀ member ∈ members, ValueForm member.2) (h : ObjectForm members bytes) :
    ValueForm bytes

/-- An item of an array has fewer bytes than the array. -/
theorem ArrayForm.length_item_lt {items : List Bytes} {bytes : Bytes}
    (h : ArrayForm items bytes) {item : Bytes} (hitem : item ∈ items) :
    item.length < bytes.length := by
  have hbehind {items : List Bytes} {bytes : Bytes} (h : ItemsForm items bytes) :
      ∀ item ∈ items, item.length < bytes.length := by
    induction h with
    | done hgap => exact fun item hitem => absurd hitem List.not_mem_nil
    | next hbehind hbefore hmore ih =>
      intro item hitem
      simp only [List.length_append, List.length_cons]
      rcases List.mem_cons.1 hitem with rfl | hitem
      · omega
      · have hless := ih item hitem
        omega
  cases h with
  | empty hgap => exact absurd hitem List.not_mem_nil
  | items hbefore hmore =>
    simp only [List.length_append, List.length_cons]
    rcases List.mem_cons.1 hitem with rfl | hitem
    · omega
    · have hless := hbehind hmore item hitem
      omega

/-- The value of a member has fewer bytes than the object. -/
theorem ObjectForm.length_value_lt {members : List (Bytes × Bytes)} {bytes : Bytes}
    (h : ObjectForm members bytes) {member : Bytes × Bytes} (hmember : member ∈ members) :
    member.2.length < bytes.length := by
  have hbehind {members : List (Bytes × Bytes)} {bytes : Bytes} (h : MembersForm members bytes) :
      ∀ member ∈ members, member.2.length < bytes.length := by
    induction h with
    | done hgap => exact fun member hmember => absurd hmember List.not_mem_nil
    | next hbehind hbefore hbehindName hbeforeValue hmore ih =>
      intro member hmember
      simp only [List.length_append, List.length_cons]
      rcases List.mem_cons.1 hmember with rfl | hmember
      · simp only
        omega
      · have hless := ih member hmember
        omega
  cases h with
  | empty hgap => exact absurd hmember List.not_mem_nil
  | members hbefore hbehindName hbeforeValue hmore =>
    simp only [List.length_append, List.length_cons]
    rcases List.mem_cons.1 hmember with rfl | hmember
    · simp only
      omega
    · have hless := hbehind hmore member hmember
      omega

end Json

namespace Reader

open Json

/-- A text is passed over up to its closing quote. -/
theorem skipQuotation_quote {content : Bytes} (h : ContentForm content) (rest : Bytes) :
    skipQuotation (content ++ Ascii.quote :: rest) = .ok rest := by
  induction h with
  | nil =>
    rw [List.nil_append, skipQuotation.eq_def]
    exact if_pos rfl
  | plain hb hmore ih =>
    simp only [standsForItself, Bool.and_eq_true, bne_iff_ne, ne_eq, Bool.not_eq_true',
      decide_eq_false_iff_not] at hb
    rw [List.cons_append, skipQuotation.eq_def]
    dsimp only
    rw [if_neg hb.1.1, if_neg hb.2, if_neg hb.1.2]
    exact ih
  | short h hmore ih =>
    rw [List.cons_append, List.cons_append, skipQuotation.eq_def]
    dsimp only
    rw [if_neg (by decide), if_neg (by decide), if_pos rfl, if_neg (shortEscape?_ascii h).1, h]
    exact ih
  | code h hmore ih =>
    simp only [List.cons_append]
    rw [skipQuotation.eq_def]
    dsimp only
    rw [if_neg (by decide), if_neg (by decide), if_pos rfl, if_pos rfl, h]
    exact ih

/-- A name that nobody asks for is passed over. -/
theorem names_quotedForm {bytes : Bytes} (h : QuotedForm bytes) :
    Names (fun bytes => (skipQuotation bytes).map ((), ·)) bytes () := by
  cases h with
  | @quoted content hcontent =>
    refine ⟨content ++ [Ascii.quote], rfl, fun rest => ?_⟩
    have hskip := skipQuotation_quote hcontent rest
    rw [List.append_assoc]
    exact congrArg (Except.map ((), ·)) hskip

/-- A scalar is passed over by its first byte, at any depth. -/
theorem skipFrom_scalar {b : UInt8} (depth : Nat) (rest : Bytes) (hblank : Ascii.isBlank b = false)
    (harray : b ≠ Ascii.openBracket) (hobject : b ≠ Ascii.openBrace) :
    skipFrom depth (b :: rest) = (skipScalar b rest).map ((), ·) := by
  rw [skipFrom.eq_def]
  dsimp only
  rw [skipBlank_cons _ hblank]
  dsimp only
  rw [if_neg harray, if_neg hobject]

/-- A number is passed over, however large it is. -/
theorem reads_skipFrom_number {bytes : Bytes} {said : Numeral} (h : NumberForm bytes said)
    (depth : Nat) : Reads (skipFrom depth) bytes () := by
  obtain ⟨b, more, rfl, hb⟩ := h.exists_cons
  obtain ⟨hblank, hclose, harray, hobject, hquote, hnull, htrue, hfalse⟩ :=
    not_blank_of_startsNumber hb
  refine ⟨⟨b, more, rfl, hblank, hclose⟩, fun rest hrest => ?_⟩
  have hread := h.numeral_append .malformed hrest
  rw [List.cons_append] at hread ⊢
  rw [skipFrom_scalar depth _ hblank harray hobject, skipScalar]
  rw [if_neg hnull, if_neg htrue, if_neg hfalse, if_neg hquote, if_pos hb, hread]
  rfl

/-- A fixed word is passed over. -/
theorem reads_skipFrom_word {b : UInt8} {letters : Bytes} (depth : Nat)
    (hblank : Ascii.isBlank b = false) (hclose : b ≠ Ascii.closeBracket)
    (harray : b ≠ Ascii.openBracket) (hobject : b ≠ Ascii.openBrace)
    (hword : ∀ rest, skipScalar b rest = word letters rest) :
    Reads (skipFrom depth) (b :: letters) () := by
  refine ⟨⟨b, letters, rfl, hblank, hclose⟩, fun rest _ => ?_⟩
  rw [List.cons_append, skipFrom_scalar depth _ hblank harray hobject, hword, word_append]
  rfl

/-- A value of any shape is passed over, with any bound on its depth that its length does not
exceed. -/
theorem reads_skipFrom {bytes : Bytes} (h : ValueForm bytes) :
    ∀ {depth : Nat}, bytes.length ≤ depth → Reads (skipFrom depth) bytes () := by
  induction h with
  | null =>
    exact fun _ => reads_skipFrom_word _ rfl (by decide) (by decide) (by decide) fun _ => rfl
  | true =>
    exact fun _ => reads_skipFrom_word _ rfl (by decide) (by decide) (by decide) fun _ => rfl
  | false =>
    exact fun _ => reads_skipFrom_word _ rfl (by decide) (by decide) (by decide) fun _ => rfl
  | number h => exact fun _ => reads_skipFrom_number h _
  | text h =>
    intro depth _
    obtain ⟨content, rfl, hskip⟩ := names_quotedForm h
    refine ⟨⟨Ascii.quote, content, rfl, rfl, by decide⟩, fun rest _ => ?_⟩
    rw [List.cons_append, skipFrom_scalar depth _ rfl (by decide) (by decide)]
    exact hskip rest
  | @array items bytes hitems hform ih =>
    intro depth hdepth
    cases depth with
    | zero =>
      obtain ⟨b, more, rfl, -⟩ := hform.opens
      exact absurd hdepth (Nat.not_succ_le_zero _)
    | succ depth =>
      have hreads : List.Forall₂ (Reads (skipFrom depth)) items (items.map fun _ => ()) := by
        refine List.forall₂_map_right_iff.2 (List.forall₂_same.2 fun item hitem => ?_)
        have hless := hform.length_item_lt hitem
        exact ih item hitem (by omega)
      refine ⟨hform.opens, fun rest _ => ?_⟩
      obtain ⟨inner, hinner, hread⟩ :=
        items_arrayForm (passesBlanks_skipFrom depth) hreads hform rest
      rw [hinner, skipFrom.eq_def]
      dsimp only
      rw [skipBlank_cons _ rfl]
      dsimp only
      rw [if_pos rfl, hread]
      rfl
  | @object members bytes hnames hvalues hform ih =>
    intro depth hdepth
    cases depth with
    | zero =>
      obtain ⟨b, more, rfl, -⟩ := hform.opens
      exact absurd hdepth (Nat.not_succ_le_zero _)
    | succ depth =>
      have hcollects : ∀ listed : List (Bytes × Bytes), (∀ member ∈ listed, member ∈ members) →
          Collects (fun bytes => (skipQuotation bytes).map ((), ·))
            (fun _ _ => valueOf (skipFrom depth)) () listed () := by
        intro listed hlisted
        induction listed with
        | nil => exact .nil ()
        | cons member listed ihListed =>
          have hmember := hlisted member List.mem_cons_self
          have hless := hform.length_value_lt hmember
          have hread : Reads (skipFrom depth) member.2 () := ih member hmember (by omega)
          refine .cons (names_quotedForm (hnames member hmember))
            (fun behindName beforeValue rest hbehind hbefore hrest =>
              hread.valueOf_gap (passesBlanks_skipFrom depth) hbehind hbefore hrest)
            (ihListed fun other hother => hlisted other (List.mem_cons_of_mem _ hother))
      refine ⟨hform.opens, fun rest _ => ?_⟩
      obtain ⟨inner, hinner, hread⟩ :=
        members_objectForm (hcollects members fun _ h => h) hform rest
      rw [hinner, skipFrom.eq_def]
      dsimp only
      rw [skipBlank_cons _ rfl]
      dsimp only
      rw [if_neg (by decide), if_pos rfl, hread]

/-- The value of a member that nobody asks for is passed over, with blanks around its colon. -/
theorem valueOf_skip {bytes : Bytes} (h : ValueForm bytes) {behind before rest : Bytes}
    (hbehind : Gap behind) (hbefore : Gap before) (hrest : Apart rest) :
    valueOf skip (behind ++ Ascii.colon :: (before ++ (bytes ++ rest))) = .ok ((), rest) := by
  have hmark : mark Ascii.colon (behind ++ Ascii.colon :: (before ++ (bytes ++ rest))) =
      .ok (before ++ (bytes ++ rest)) := passesBlanks_mark Ascii.colon behind _ hbehind
  have hdepth : bytes.length ≤ (before ++ (bytes ++ rest)).length := by
    simp only [List.length_append]
    omega
  rw [valueOf, hmark]
  exact (reads_skipFrom h hdepth).gap_append (passesBlanks_skipFrom _) hbefore hrest

end Reader

end RobotSoccer
