import RobotSoccer.Json.Quotation
import RobotSoccer.Json.Value

/-!
# Texts are read back

A character may be spelled between quotes by itself or by an escape, and the reader resolves each
spelling to the bytes of that character. Every character is written in one of these ways, so the
text behind an opening quote is read as it was, whatever characters it holds.
-/

namespace RobotSoccer

namespace Reader

/-- Whether a byte stands for itself between quotes. -/
def standsForItself (b : UInt8) : Bool :=
  b != Ascii.quote && b != Ascii.backslash && !(b < 0x20 : Bool)

/-- Bytes may be put before what was read piece by piece. -/
theorem before_append (front more : Bytes) (read : Reading Bytes) :
    before (front ++ more) read = before front (before more read) := by
  cases read with
  | error fault => rfl
  | ok read => exact congrArg (fun bytes => Except.ok (bytes, read.2)) (List.append_assoc _ _ _)

/-- Bytes that stand for themselves are taken as they are. -/
theorem quotedBytes_append {front : Bytes} (h : ∀ b ∈ front, standsForItself b = true)
    (rest : Bytes) : quotedBytes (front ++ rest) = before front (quotedBytes rest) := by
  induction front with
  | nil =>
    cases hread : quotedBytes rest with
    | error fault => rw [List.nil_append, hread]; rfl
    | ok read => rw [List.nil_append, hread]; rfl
  | cons b front ih =>
    have hb := h b List.mem_cons_self
    simp only [standsForItself, Bool.and_eq_true, bne_iff_ne, ne_eq, Bool.not_eq_true',
      decide_eq_false_iff_not] at hb
    obtain ⟨⟨hquote, hslash⟩, hcontrol⟩ := hb
    have hrest := ih fun c hc => h c (List.mem_cons_of_mem _ hc)
    rw [List.cons_append, quotedBytes.eq_def]
    dsimp only
    rw [if_neg hquote, if_neg hcontrol, if_neg hslash, hrest, ← before_append]
    rfl

/-- The bytes of a character that needs no escape stand for themselves. -/
theorem standsForItself_encodeChar {c : Char} (hquote : c ≠ '"') (hslash : c ≠ '\\')
    (hcontrol : 0x20 ≤ c.toNat) : ∀ b ∈ Utf8.encodeChar c, standsForItself b = true := by
  have hbounds := Utf8.char_bounds c
  have hq : c.toNat ≠ 34 := fun h => hquote (Char.toNat_inj.1 h)
  have hs : c.toNat ≠ 92 := fun h => hslash (Char.toNat_inj.1 h)
  have hsingle {n : Nat} (hn : n < 256) (hlow : 0x20 ≤ n) (hnq : n ≠ 34) (hns : n ≠ 92) :
      standsForItself (UInt8.ofNat n) = true := by
    have hb := Utf8.toNat_ofNat_of_lt hn
    simp only [standsForItself, Bool.and_eq_true, bne_iff_ne, ne_eq, Bool.not_eq_true',
      decide_eq_false_iff_not, UInt8.lt_iff_toNat_lt, ← UInt8.toNat_inj, hb]
    exact ⟨⟨hnq, hns⟩, Nat.not_lt.2 hlow⟩
  unfold Utf8.encodeChar
  dsimp only
  generalize c.toNat = n at *
  intro b hb
  by_cases h1 : n < 0x80
  · rw [if_pos h1, List.mem_singleton] at hb
    exact hb ▸ hsingle (by omega) hcontrol hq hs
  · rw [if_neg h1] at hb
    by_cases h2 : n < 0x800
    · rw [if_pos h2] at hb
      simp only [List.mem_cons, List.not_mem_nil, or_false] at hb
      rcases hb with rfl | rfl
      · exact hsingle (by omega) (by omega) (by omega) (by omega)
      · exact hsingle (by omega) (by omega) (by omega) (by omega)
    · rw [if_neg h2] at hb
      by_cases h3 : n < 0x10000
      · rw [if_pos h3] at hb
        simp only [List.mem_cons, List.not_mem_nil, or_false] at hb
        rcases hb with rfl | rfl | rfl
        · exact hsingle (by omega) (by omega) (by omega) (by omega)
        · exact hsingle (by omega) (by omega) (by omega) (by omega)
        · exact hsingle (by omega) (by omega) (by omega) (by omega)
      · rw [if_neg h3] at hb
        simp only [List.mem_cons, List.not_mem_nil, or_false] at hb
        rcases hb with rfl | rfl | rfl | rfl
        · exact hsingle (by omega) (by omega) (by omega) (by omega)
        · exact hsingle (by omega) (by omega) (by omega) (by omega)
        · exact hsingle (by omega) (by omega) (by omega) (by omega)
        · exact hsingle (by omega) (by omega) (by omega) (by omega)

/-- The byte at a place of the four hexadecimal digits of a number. -/
def hexByte (n place : Nat) : UInt8 := (Utf8.encodeChars (Json.hex4 n)).getD place 0

/-- A control is spelled by four hexadecimal digits that are read as its number. -/
theorem exists_hex4 {n : Nat} (h : n < 0x20) :
    ∃ a b c d, Utf8.encodeChars (Json.hex4 n) = [a, b, c, d] ∧ hex4? a b c d = some n := by
  have hall : ∀ n < 0x20,
      Utf8.encodeChars (Json.hex4 n) = [hexByte n 0, hexByte n 1, hexByte n 2, hexByte n 3] ∧
        hex4? (hexByte n 0) (hexByte n 1) (hexByte n 2) (hexByte n 3) = some n := by
    decide +kernel
  exact ⟨_, _, _, _, hall n h⟩

/-- An escape by code point is resolved to the bytes of its character, unless it is half of a
pair. -/
theorem quotedBytes_codePoint {a b c d : UInt8} {n : Nat} (h : hex4? a b c d = some n)
    (hlead : isLead n = false) (htrail : isTrail n = false) (rest : Bytes) :
    quotedBytes (Ascii.backslash :: Ascii.lowerU :: a :: b :: c :: d :: rest) =
      before (codeBytes n) (quotedBytes rest) := by
  rw [quotedBytes.eq_def]
  dsimp only
  rw [if_neg (by decide), if_neg (by decide), if_pos rfl, if_pos rfl, h]
  dsimp only
  rw [htrail, hlead]
  rfl

/-- A short escape is resolved to its byte. -/
theorem quotedBytes_shortEscape {kind escaped : UInt8} (h : shortEscape? kind = some escaped)
    (hkind : kind ≠ Ascii.lowerU) (rest : Bytes) :
    quotedBytes (Ascii.backslash :: kind :: rest) = before [escaped] (quotedBytes rest) := by
  rw [quotedBytes.eq_def]
  dsimp only
  rw [if_neg (by decide), if_neg (by decide), if_pos rfl, if_neg hkind, h]

/-- An escape by code points is resolved to the bytes of the character of a pair. -/
theorem quotedBytes_pair {a b c d e f g h : UInt8} {n m : Nat} (hn : hex4? a b c d = some n)
    (hm : hex4? e f g h = some m) (hlead : isLead n = true) (htrail : isTrail m = true)
    (rest : Bytes) :
    quotedBytes (Ascii.backslash :: Ascii.lowerU :: a :: b :: c :: d ::
        Ascii.backslash :: Ascii.lowerU :: e :: f :: g :: h :: rest) =
      before (codeBytes (pairCode n m)) (quotedBytes rest) := by
  have hfirst : isTrail n = false := by
    simp only [isLead, isTrail, Bool.and_eq_true, decide_eq_true_eq, Bool.and_eq_false_iff,
      decide_eq_false_iff_not] at hlead ⊢
    omega
  rw [quotedBytes.eq_def]
  dsimp only
  rw [if_neg (by decide), if_neg (by decide), if_pos rfl, if_pos rfl, hn]
  dsimp only
  rw [hfirst, hlead]
  simp only [Bool.false_eq_true, if_false, if_true, hm, htrail]

/-- The bytes by which a character may be spelled between quotes. -/
inductive SpellsChar : Char → Bytes → Prop
  /-- A character that is no quote, no backslash and no control stands for itself. -/
  | plain {c : Char} (hquote : c ≠ '"') (hslash : c ≠ '\\') (hcontrol : 0x20 ≤ c.toNat) :
    SpellsChar c (Utf8.encodeChar c)
  /-- A short escape. -/
  | short {kind escaped : UInt8} (h : shortEscape? kind = some escaped) :
    SpellsChar (Char.ofNat escaped.toNat) [Ascii.backslash, kind]
  /-- An escape by code point. -/
  | code {a b c d : UInt8} {n : Nat} (h : hex4? a b c d = some n) (hlead : isLead n = false)
    (htrail : isTrail n = false) :
    SpellsChar (Char.ofNat n) [Ascii.backslash, Ascii.lowerU, a, b, c, d]
  /-- An escape by the two halves of a pair. -/
  | pair {a b c d e f g h : UInt8} {n m : Nat} (hn : hex4? a b c d = some n)
    (hm : hex4? e f g h = some m) (hlead : isLead n = true) (htrail : isTrail m = true) :
    SpellsChar (Char.ofNat (pairCode n m)) [Ascii.backslash, Ascii.lowerU, a, b, c, d,
      Ascii.backslash, Ascii.lowerU, e, f, g, h]

/-- A short escape stands for a byte that is a character of its own, and its letter begins no
escape by code point. -/
theorem shortEscape?_ascii {kind escaped : UInt8} (h : shortEscape? kind = some escaped) :
    kind ≠ Ascii.lowerU ∧ Utf8.encodeChar (Char.ofNat escaped.toNat) = [escaped] := by
  have hall : ∀ n < 256, ∀ found ∈ shortEscape? (UInt8.ofNat n), UInt8.ofNat n ≠ Ascii.lowerU ∧
      Utf8.encodeChar (Char.ofNat found.toNat) = [found] := by
    decide +kernel
  have hkind := hall kind.toNat kind.toNat_lt escaped
  rw [UInt8.ofNat_toNat] at hkind
  exact hkind h

/-- A character is resolved to its bytes however it is spelled. -/
theorem SpellsChar.quotedBytes_append {c : Char} {bytes : Bytes} (h : SpellsChar c bytes)
    (rest : Bytes) :
    quotedBytes (bytes ++ rest) = before (Utf8.encodeChar c) (quotedBytes rest) := by
  cases h with
  | plain hquote hslash hcontrol =>
    exact Reader.quotedBytes_append (standsForItself_encodeChar hquote hslash hcontrol) rest
  | short hescape =>
    obtain ⟨hkind, hencoded⟩ := shortEscape?_ascii hescape
    rw [hencoded]
    exact quotedBytes_shortEscape hescape hkind rest
  | code hdigits hlead htrail => exact quotedBytes_codePoint hdigits hlead htrail rest
  | pair hn hm hlead htrail => exact quotedBytes_pair hn hm hlead htrail rest

/-- Each character is written in one of the ways in which it may be spelled. -/
theorem spellsChar_escape (c : Char) :
    SpellsChar c (Utf8.encodeChars (Json.escape c)) := by
  have hshort {d : Char} (kind escaped : UInt8) (hescape : shortEscape? kind = some escaped)
      (hwritten : Utf8.encodeChars (Json.escape d) = [Ascii.backslash, kind])
      (hchar : Char.ofNat escaped.toNat = d) (hd : c = d) :
      SpellsChar c (Utf8.encodeChars (Json.escape c)) := by
    subst hd
    rw [hwritten, ← hchar]
    exact .short hescape
  by_cases hquote : c = '"'
  · exact hshort Ascii.quote Ascii.quote rfl rfl rfl hquote
  by_cases hslash : c = '\\'
  · exact hshort Ascii.backslash Ascii.backslash rfl rfl rfl hslash
  by_cases h08 : c.toNat = 0x08
  · exact hshort Ascii.lowerB 0x08 rfl rfl rfl (Char.toNat_inj.1 h08 : c = '\x08')
  by_cases h09 : c.toNat = 0x09
  · exact hshort Ascii.lowerT 0x09 rfl rfl rfl (Char.toNat_inj.1 h09 : c = '\t')
  by_cases h0A : c.toNat = 0x0A
  · exact hshort Ascii.lowerN 0x0A rfl rfl rfl (Char.toNat_inj.1 h0A : c = '\n')
  by_cases h0C : c.toNat = 0x0C
  · exact hshort Ascii.lowerF 0x0C rfl rfl rfl (Char.toNat_inj.1 h0C : c = '\x0C')
  by_cases h0D : c.toNat = 0x0D
  · exact hshort Ascii.lowerR 0x0D rfl rfl rfl (Char.toNat_inj.1 h0D : c = '\r')
  rw [Json.escape]
  rw [if_neg hquote, if_neg hslash, if_neg h08, if_neg h09, if_neg h0A, if_neg h0C, if_neg h0D]
  by_cases hcontrol : c.toNat < 0x20
  · rw [if_pos hcontrol, Utf8.encodeChars_append]
    obtain ⟨a, b, c', d, hdigits, hread⟩ := exists_hex4 hcontrol
    have hescape : Utf8.encodeChars ['\\', 'u'] = [Ascii.backslash, Ascii.lowerU] := rfl
    have hlead : isLead c.toNat = false := by
      simp only [isLead, Bool.and_eq_false_iff, decide_eq_false_iff_not]
      omega
    have htrail : isTrail c.toNat = false := by
      simp only [isTrail, Bool.and_eq_false_iff, decide_eq_false_iff_not]
      omega
    have hspelled := SpellsChar.code hread hlead htrail
    rw [Char.ofNat_toNat] at hspelled
    rw [hescape, hdigits]
    exact hspelled
  · rw [if_neg hcontrol, Utf8.encodeChars_cons, Utf8.encodeChars_nil, List.append_nil]
    exact .plain hquote hslash (by omega)

/-- The bytes by which characters may be spelled between quotes. -/
inductive Spells : List Char → Bytes → Prop
  /-- No characters. -/
  | nil : Spells [] []
  /-- A character and those that follow it. -/
  | cons {c : Char} {cs : List Char} {bytes more : Bytes} (hchar : SpellsChar c bytes)
    (hmore : Spells cs more) : Spells (c :: cs) (bytes ++ more)

/-- Characters are written in one of the ways in which they may be spelled. -/
theorem spells_escapes (cs : List Char) :
    Spells cs (Utf8.encodeChars (cs.flatMap Json.escape)) := by
  induction cs with
  | nil => exact .nil
  | cons c cs ih =>
    rw [List.flatMap_cons, Utf8.encodeChars_append]
    exact .cons (spellsChar_escape c) ih

/-- Spelled characters are read up to the quote behind them. -/
theorem Spells.quotedBytes_quote {cs : List Char} {bytes : Bytes} (h : Spells cs bytes)
    (rest : Bytes) :
    quotedBytes (bytes ++ Ascii.quote :: rest) = .ok (Utf8.encodeChars cs, rest) := by
  induction h with
  | nil =>
    rw [Utf8.encodeChars_nil, List.nil_append, quotedBytes.eq_def]
    exact if_pos rfl
  | cons hchar hmore ih =>
    rw [List.append_assoc, hchar.quotedBytes_append, ih, Utf8.encodeChars_cons]
    rfl

/-- A text is read however it is spelled. -/
theorem Spells.quotation_quote {s : String} {bytes : Bytes} (h : Spells s.toList bytes)
    (rest : Bytes) : quotation (bytes ++ Ascii.quote :: rest) = .ok (s, rest) := by
  have hutf : Utf8.decode? (Utf8.encodeChars s.toList) = some s := Utf8.decode?_encode s
  rw [quotation, h.quotedBytes_quote]
  dsimp only
  rw [hutf]

/-- A text between quotes is written with an opening quote before its escaped characters and a
closing one behind them. -/
theorem encodeChars_quotedChars (s : String) :
    Utf8.encodeChars (Json.quotedChars s) =
      Ascii.quote :: (Utf8.encodeChars (s.toList.flatMap Json.escape) ++ [Ascii.quote]) := by
  rw [Json.quotedChars, List.cons_append, Utf8.encodeChars_cons, Utf8.encodeChars_append]
  rfl

/-- A text is read as it was written. -/
theorem quotation_quotedChars (s : String) (rest : Bytes) :
    quotation (Utf8.encodeChars (s.toList.flatMap Json.escape) ++ Ascii.quote :: rest) =
      .ok (s, rest) := (spells_escapes s.toList).quotation_quote rest

end Reader

end RobotSoccer
