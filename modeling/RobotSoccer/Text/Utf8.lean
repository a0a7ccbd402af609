/-!
# UTF-8

Writing characters as bytes and reading them back. `scan` cuts bytes into characters and
pieces of damage, one piece for each longest start of a character that is not continued as it
must be; `decode?` accepts bytes without damage only, and `decodeLossy` shows a replacement
character for each piece.
-/

namespace RobotSoccer.Utf8

/-- The bytes of a character. Six bits go into each continuation byte. -/
def encodeChar (c : Char) : List UInt8 :=
  let n := c.toNat
  if n < 0x80 then [UInt8.ofNat n]
  else if n < 0x800 then [UInt8.ofNat (0xC0 + n / 0x40), UInt8.ofNat (0x80 + n % 0x40)]
  else if n < 0x10000 then
    [UInt8.ofNat (0xE0 + n / 0x1000), UInt8.ofNat (0x80 + n / 0x40 % 0x40),
      UInt8.ofNat (0x80 + n % 0x40)]
  else
    [UInt8.ofNat (0xF0 + n / 0x40000), UInt8.ofNat (0x80 + n / 0x1000 % 0x40),
      UInt8.ofNat (0x80 + n / 0x40 % 0x40), UInt8.ofNat (0x80 + n % 0x40)]

/-- The bytes of characters. -/
def encodeChars (cs : List Char) : List UInt8 := cs.flatMap encodeChar

/-- The bytes of a text. -/
def encode (s : String) : List UInt8 := encodeChars s.toList

@[simp] theorem encodeChars_nil : encodeChars [] = [] := rfl

@[simp] theorem encodeChars_cons (c : Char) (cs : List Char) :
    encodeChars (c :: cs) = encodeChar c ++ encodeChars cs := rfl

@[simp] theorem encodeChars_append (cs ds : List Char) :
    encodeChars (cs ++ ds) = encodeChars cs ++ encodeChars ds := List.flatMap_append

/-- A character that has begun: its bits so far and what may continue it. -/
structure Pending where
  /-- The bits read so far. -/
  code : Nat
  /-- How many bytes follow after the next one. -/
  owed : Nat
  /-- The least byte that may come next. -/
  low : UInt8
  /-- The greatest byte that may come next. -/
  high : UInt8

/-- Characters and pieces of damage that a byte completes, and the character it leaves open. -/
abbrev Step := List (Option Char) × Option Pending

/-- The step at the first byte of a character. The ranges of the second byte leave out
spellings that are too long, surrogates, and what lies past the last code point. -/
def begin (byte : UInt8) : Step :=
  let b := byte.toNat
  if b < 0x80 then ([some (Char.ofNat b)], none)
  else if 0xC2 ≤ b ∧ b ≤ 0xDF then ([], some ⟨b - 0xC0, 0, 0x80, 0xBF⟩)
  else if b = 0xE0 then ([], some ⟨0, 1, 0xA0, 0xBF⟩)
  else if b = 0xED then ([], some ⟨0xD, 1, 0x80, 0x9F⟩)
  else if 0xE1 ≤ b ∧ b ≤ 0xEF then ([], some ⟨b - 0xE0, 1, 0x80, 0xBF⟩)
  else if b = 0xF0 then ([], some ⟨0, 2, 0x90, 0xBF⟩)
  else if 0xF1 ≤ b ∧ b ≤ 0xF3 then ([], some ⟨b - 0xF0, 2, 0x80, 0xBF⟩)
  else if b = 0xF4 then ([], some ⟨4, 2, 0x80, 0x8F⟩)
  else ([none], none)

/-- The step at a byte when a character may be open. A byte that cannot continue it ends it as
damage and begins anew. -/
def step : Option Pending → UInt8 → Step
  | none, byte => begin byte
  | some p, byte =>
    if p.low ≤ byte ∧ byte ≤ p.high then
      let code := p.code * 0x40 + byte.toNat % 0x40
      match p.owed with
      | 0 => ([some (Char.ofNat code)], none)
      | owed + 1 => ([], some ⟨code, owed, 0x80, 0xBF⟩)
    else
      let fresh := begin byte
      (none :: fresh.1, fresh.2)

/-- The characters and pieces of damage that bytes hold, after what is open. -/
def scanFrom : Option Pending → List UInt8 → List (Option Char)
  | none, [] => []
  | some _, [] => [none]
  | open?, byte :: rest =>
    let next := step open? byte
    next.1 ++ scanFrom next.2 rest

/-- The characters and pieces of damage that bytes hold. -/
def scan (bytes : List UInt8) : List (Option Char) := scanFrom none bytes

/-- All characters, when no piece is damaged. -/
def undamaged : List (Option Char) → Option (List Char)
  | [] => some []
  | none :: _ => none
  | some c :: rest => (undamaged rest).map (c :: ·)

/-- The characters of bytes that are UTF-8 throughout. -/
def decodeChars? (bytes : List UInt8) : Option (List Char) := undamaged (scan bytes)

/-- The text of bytes that are UTF-8 throughout. -/
def decode? (bytes : List UInt8) : Option String := (decodeChars? bytes).map String.ofList

/-- The character shown for damage. -/
def replacement : Char := Char.ofNat 0xFFFD

/-- The text of any bytes, with a replacement character for each piece of damage. -/
def decodeLossy (bytes : List UInt8) : String :=
  String.ofList ((scan bytes).map fun piece => piece.getD replacement)

/-- A byte keeps a number that fits. -/
theorem toNat_ofNat_of_lt {n : Nat} (h : n < 256) : (UInt8.ofNat n).toNat = n := by
  simp only [UInt8.toNat_ofNat']
  omega

/-- No character is a surrogate or past the last code point. -/
theorem char_bounds (c : Char) : c.toNat < 0xD800 ∨ 0xDFFF < c.toNat ∧ c.toNat < 0x110000 := by
  have h := c.valid
  exact h

/-- A byte in the range that may come next goes on with the character that is open. -/
theorem scanFrom_within {p : Pending} {n : Nat} {rest : List UInt8} (hn : n < 256)
    (hlow : p.low.toNat ≤ n) (hhigh : n ≤ p.high.toNat) :
    scanFrom (some p) (UInt8.ofNat n :: rest) =
      match p.owed with
      | 0 => some (Char.ofNat (p.code * 0x40 + n % 0x40)) :: scanFrom none rest
      | owed + 1 => scanFrom (some ⟨p.code * 0x40 + n % 0x40, owed, 0x80, 0xBF⟩) rest := by
  have hb := toNat_ofNat_of_lt hn
  have hcond : p.low ≤ UInt8.ofNat n ∧ UInt8.ofNat n ≤ p.high := by
    rw [UInt8.le_iff_toNat_le, UInt8.le_iff_toNat_le, hb]
    exact ⟨hlow, hhigh⟩
  rw [scanFrom]
  simp only [step, if_pos hcond, hb]
  cases p.owed <;> rfl

/-- The bytes of a character are read as that character, whatever follows. -/
theorem scanFrom_encodeChar (c : Char) (rest : List UInt8) :
    scanFrom none (encodeChar c ++ rest) = some c :: scanFrom none rest := by
  have hc := char_bounds c
  have hself : Char.ofNat c.toNat = c := Char.ofNat_toNat c
  unfold encodeChar
  generalize c.toNat = n at *
  subst hself
  dsimp only
  split
  · have hb := toNat_ofNat_of_lt (n := n) (by omega)
    simp only [List.cons_append, List.nil_append, scanFrom, step, begin, hb]
    rw [if_pos (by omega)]
    rfl
  · split
    · have hb := toNat_ofNat_of_lt (n := 0xC0 + n / 0x40) (by omega)
      simp only [List.cons_append, List.nil_append]
      rw [scanFrom]
      simp only [step, begin, hb]
      rw [if_neg (by omega), if_pos (by omega)]
      simp only [List.nil_append]
      rw [scanFrom_within (by omega) (by simp) (by simp; omega)]
      simp only
      congr 3
      omega
    · split
      · have hb := toNat_ofNat_of_lt (n := 0xE0 + n / 0x1000) (by omega)
        simp only [List.cons_append, List.nil_append]
        rw [scanFrom]
        simp only [step, begin, hb]
        rw [if_neg (by omega), if_neg (by omega)]
        split
        · simp only [List.nil_append]
          rw [scanFrom_within (by omega) (by simp; omega) (by simp; omega)]
          simp only
          rw [scanFrom_within (by omega) (by simp) (by simp; omega)]
          simp only
          congr 3
          omega
        · split
          · simp only [List.nil_append]
            rw [scanFrom_within (by omega) (by simp) (by simp; omega)]
            simp only
            rw [scanFrom_within (by omega) (by simp) (by simp; omega)]
            simp only
            congr 3
            omega
          · rw [if_pos (by omega)]
            simp only [List.nil_append]
            rw [scanFrom_within (by omega) (by simp) (by simp; omega)]
            simp only
            rw [scanFrom_within (by omega) (by simp) (by simp; omega)]
            simp only
            congr 3
            omega
      · have hb := toNat_ofNat_of_lt (n := 0xF0 + n / 0x40000) (by omega)
        simp only [List.cons_append, List.nil_append]
        rw [scanFrom]
        simp only [step, begin, hb]
        rw [if_neg (by omega), if_neg (by omega), if_neg (by omega), if_neg (by omega),
          if_neg (by omega)]
        split
        · simp only [List.nil_append]
          rw [scanFrom_within (by omega) (by simp; omega) (by simp; omega)]
          simp only
          rw [scanFrom_within (by omega) (by simp) (by simp; omega)]
          simp only
          rw [scanFrom_within (by omega) (by simp) (by simp; omega)]
          simp only
          congr 3
          omega
        · split
          · simp only [List.nil_append]
            rw [scanFrom_within (by omega) (by simp) (by simp; omega)]
            simp only
            rw [scanFrom_within (by omega) (by simp) (by simp; omega)]
            simp only
            rw [scanFrom_within (by omega) (by simp) (by simp; omega)]
            simp only
            congr 3
            omega
          · rw [if_pos (by omega)]
            simp only [List.nil_append]
            rw [scanFrom_within (by omega) (by simp) (by simp; omega)]
            simp only
            rw [scanFrom_within (by omega) (by simp) (by simp; omega)]
            simp only
            rw [scanFrom_within (by omega) (by simp) (by simp; omega)]
            simp only
            congr 3
            omega

/-- The bytes of characters are read as those characters. -/
theorem scan_encodeChars (cs : List Char) : scan (encodeChars cs) = cs.map some := by
  unfold scan
  induction cs with
  | nil => rfl
  | cons c cs ih => rw [encodeChars_cons, scanFrom_encodeChar, ih, List.map_cons]

/-- Characters without damage are all there. -/
theorem undamaged_map_some (cs : List Char) : undamaged (cs.map some) = some cs := by
  induction cs with
  | nil => rfl
  | cons c cs ih => rw [List.map_cons, undamaged, ih, Option.map_some]

/-- The bytes of a text are read as that text. -/
theorem decode?_encode (s : String) : decode? (encode s) = some s := by
  unfold decode? decodeChars? encode
  rw [scan_encodeChars, undamaged_map_some, Option.map_some, String.ofList_toList]

end RobotSoccer.Utf8
