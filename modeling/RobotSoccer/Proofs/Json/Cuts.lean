import RobotSoccer.Proofs.Json.Objects

/-!
# Texts that are cut short

Of the bytes of a value that ends of itself, such as a text or a word, every beginning but the whole
is an end of the input to the reader of the value. The beginning of a number may be a number too, but
then it is taken whole. Here are the values that have no values within.
-/

namespace RobotSoccer

namespace Reader

variable {α β : Type} {bytes cut more : Bytes}

/-- Whatever is cut off some bytes, what is left is an end of the input to a reader. -/
def Severs (read : Bytes → Except Fault β) (bytes : Bytes) : Prop :=
  ∀ cut more, cut ++ more = bytes → more ≠ [] → read cut = .error .endOfInput

/-- Whatever is cut off some bytes, what is left is an end of the input to a reader, or a value with
nothing behind it. -/
def Breaks (read : Reader α) (bytes : Bytes) : Prop :=
  ∀ cut more, cut ++ more = bytes → more ≠ [] →
    read cut = .error .endOfInput ∨ ∃ value, read cut = .ok (value, [])

/-- Bytes are read as a value, and what is left of them when they are cut short is not taken for the
beginning of anything else. -/
structure Tears (read : Reader α) (bytes : Bytes) (value : α) : Prop extends
    Reads read bytes value where
  /-- What is left of the bytes is an end of the input, or a value with nothing behind it. -/
  breaks : Breaks read bytes

/-- What is always an end of the input is no value. -/
theorem Severs.breaks {read : Reader α} (h : Severs read bytes) : Breaks read bytes :=
  fun cut more hcut hmore => .inl (h cut more hcut hmore)

/-- Nothing is cut off no bytes. -/
theorem severs_nil (read : Bytes → Except Fault β) : Severs read [] :=
  fun _ _ hcut hmore => absurd (List.append_eq_nil_iff.1 hcut).2 hmore

/-- Bytes are cut before the first of them or behind it. -/
theorem Severs.cons {read : Bytes → Except Fault β} {b : UInt8}
    (hnil : read [] = .error .endOfInput) (h : Severs (fun cut => read (b :: cut)) bytes) :
    Severs read (b :: bytes) := by
  intro cut more hcut hmore
  cases cut with
  | nil => exact hnil
  | cons c cut =>
    obtain ⟨rfl, hbehind⟩ := List.cons.inj hcut
    exact h cut more hbehind hmore

/-- Bytes are cut within their front or behind it. -/
theorem Severs.append {read : Bytes → Except Fault β} {front : Bytes} (hfront : Severs read front)
    (h : Severs (fun cut => read (front ++ cut)) bytes) : Severs read (front ++ bytes) := by
  intro cut more hcut hmore
  rcases List.append_eq_append_iff.1 hcut with ⟨left, hsplit, hmoreEq⟩ | ⟨behind, rfl, hbytes⟩
  · by_cases hleft : left = []
    · subst hleft
      have hread := h [] more hmoreEq hmore
      rw [List.append_nil] at hsplit
      dsimp only at hread
      rw [hsplit, List.append_nil] at hread
      exact hread
    · exact hfront cut left hsplit.symm hleft
  · exact h behind more hbytes.symm hmore

/-- A reader goes on behind another one with what that one has left. -/
theorem Severs.of_eq {read other : Bytes → Except Fault β} (h : Severs other bytes)
    (heq : ∀ cut, read cut = other cut) : Severs read bytes := by
  intro cut more hcut hmore
  rw [heq]
  exact h cut more hcut hmore

/-- An end of the input stays one when the value would be turned into another one. -/
theorem Severs.map {γ : Type} {read : Bytes → Except Fault β} (h : Severs read bytes) (f : β → γ) :
    Severs (fun cut => (read cut).map f) bytes := by
  intro cut more hcut hmore
  dsimp only
  rw [h cut more hcut hmore]
  rfl

/-- What is left stays an end of the input or a value when the value is turned into another one. -/
theorem Breaks.map {read : Reader α} (h : Breaks read bytes) (f : α → β) :
    Breaks (fun cut => (read cut).map fun found => (f found.1, found.2)) bytes := by
  intro cut more hcut hmore
  dsimp only
  rcases h cut more hcut hmore with hfault | ⟨value, hvalue⟩
  · exact .inl (by rw [hfault]; rfl)
  · exact .inr ⟨f value, by rw [hvalue]; rfl⟩

/-- A value that is turned into another one is cut short as it was. -/
theorem Tears.map {read : Reader α} {value : α} (h : Tears read bytes value) (f : α → β) :
    Tears (fun bytes => (read bytes).map fun found => (f found.1, found.2)) bytes (f value) where
  toReads := h.toReads.map f
  breaks := h.breaks.map f

/-- A fixed word that is cut short is no other word. -/
theorem severs_word (letters : List UInt8) : Severs (word letters) letters := by
  induction letters with
  | nil => exact severs_nil _
  | cons c letters ih =>
    refine .cons rfl (ih.of_eq fun cut => ?_)
    rw [word, expect, if_pos rfl]

/-- A truth value that is cut short is an end of the input. -/
theorem tears_boolean (b : Bool) : Tears boolean (Json.toBytes (.bool b)) b where
  toReads := reads_boolean b
  breaks := by
    cases b with
    | true => exact (Severs.cons rfl ((severs_word afterT).map (true, ·))).breaks
    | false => exact (Severs.cons rfl ((severs_word afterF).map (false, ·))).breaks

/-- A null that is cut short is an end of the input. -/
theorem tears_nullable_none (read : Reader α) : Tears (nullable read) (Json.toBytes .null) none where
  toReads := reads_nullable_none read
  breaks := (Severs.cons rfl ((severs_word afterN).map (none, ·))).breaks

/-- A value that does not start as null is cut short as it is where it may not be missing. -/
theorem Tears.nullable_some {read : Reader α} {value : α} (h : Tears read bytes value)
    (hnull : bytes.head? ≠ some Ascii.lowerN) : Tears (nullable read) bytes (some value) where
  toReads := h.toReads.nullable_some hnull
  breaks := by
    intro cut more hcut hmore
    obtain ⟨b, text, rfl, hblank, -⟩ := h.opens
    have hb : b ≠ Ascii.lowerN := fun heq => hnull (heq ▸ rfl)
    cases cut with
    | nil => exact .inl rfl
    | cons c cut =>
      obtain ⟨rfl, -⟩ := List.cons.inj hcut
      rw [nullable, skipBlank_cons _ hblank]
      dsimp only
      rw [if_neg hb]
      exact (h.breaks.map some) _ more hcut hmore

/-- Bytes put before what is read make no difference to an end of the input. -/
theorem Severs.before {read : Bytes → Reading Bytes} (h : Severs read bytes) (front : Bytes) :
    Severs (fun cut => before front (read cut)) bytes := by
  intro cut more hcut hmore
  dsimp only
  rw [h cut more hcut hmore]
  rfl

/-- A spelled character that is cut short is an end of the input. -/
theorem SpellsChar.severs {c : Char} (h : SpellsChar c bytes) : Severs quotedBytes bytes := by
  have hnil : quotedBytes [] = .error .endOfInput := by rw [quotedBytes.eq_def]
  cases h with
  | plain hquote hslash hcontrol =>
    intro cut more hcut _
    have hstands : ∀ b ∈ cut, standsForItself b = true := fun b hb =>
      standsForItself_encodeChar hquote hslash hcontrol b (hcut ▸ List.mem_append_left more hb)
    have hread := Reader.quotedBytes_append hstands []
    rw [List.append_nil, hnil] at hread
    exact hread
  | short h => exact .cons hnil (.cons rfl (severs_nil _))
  | code h hlead htrail =>
    exact .cons hnil (.cons rfl (.cons rfl (.cons rfl (.cons rfl (.cons rfl (severs_nil _))))))
  | @pair a b c d e f g _ n _ hn _ hlead _ =>
    have hfirst : isTrail n = false := by
      simp only [isLead, isTrail, Bool.and_eq_true, decide_eq_true_eq, Bool.and_eq_false_iff,
        decide_eq_false_iff_not] at hlead ⊢
      omega
    -- The first half of a pair is followed by less than the escape of the second.
    have hhalf {rest : Bytes} (hrest : rest ∈ [[], [Ascii.backslash],
        [Ascii.backslash, Ascii.lowerU], [Ascii.backslash, Ascii.lowerU, e],
        [Ascii.backslash, Ascii.lowerU, e, f], [Ascii.backslash, Ascii.lowerU, e, f, g]]) :
        quotedBytes (Ascii.backslash :: Ascii.lowerU :: a :: b :: c :: d :: rest) =
          .error .endOfInput := by
      rw [quotedBytes.eq_def]
      dsimp only
      rw [if_neg (by decide), if_neg (by decide), if_pos rfl, if_pos rfl, hn]
      dsimp only
      rw [hfirst, hlead]
      simp only [List.mem_cons, List.not_mem_nil, or_false] at hrest
      rcases hrest with rfl | rfl | rfl | rfl | rfl | rfl <;> rfl
    exact .cons hnil (.cons rfl (.cons rfl (.cons rfl (.cons rfl (.cons rfl
      (.cons (hhalf (by simp)) (.cons (hhalf (by simp)) (.cons (hhalf (by simp))
        (.cons (hhalf (by simp)) (.cons (hhalf (by simp)) (.cons (hhalf (by simp))
          (severs_nil _))))))))))))

/-- Spelled characters with a quote behind them are an end of the input when they are cut short. -/
theorem Spells.severs {cs : List Char} (h : Spells cs bytes) :
    Severs quotedBytes (bytes ++ [Ascii.quote]) := by
  induction h with
  | nil => exact .cons (by rw [quotedBytes.eq_def]) (severs_nil _)
  | cons hchar hmore ih =>
    rw [List.append_assoc]
    exact hchar.severs.append ((ih.before _).of_eq fun cut => hchar.quotedBytes_append cut)

/-- A text that is cut short is an end of the input. -/
theorem severs_quotation {s : String} {bytes : Bytes} (h : Spells s.toList bytes) :
    Severs quotation (bytes ++ [Ascii.quote]) := by
  intro cut more hcut hmore
  rw [quotation, h.severs cut more hcut hmore]

/-- A text that is cut short is an end of the input. -/
theorem tears_text (s : String) : Tears text (Json.toBytes (.str s)) s where
  toReads := reads_text s
  breaks := by
    have hbytes : Json.toBytes (.str s) = _ := encodeChars_quotedChars s
    rw [hbytes]
    refine (Severs.cons rfl ((severs_quotation (spells_escapes s.toList)).of_eq fun cut => ?_)).breaks
    rw [text, skipBlank_cons _ rfl]
    exact if_pos rfl

end Reader

end RobotSoccer
