import RobotSoccer.Number.Layout

/-!
# Teams and robots

A robot is named by its team and its number. Four robots play: two of each team. A `Roster`
holds one thing for each of the four and nothing else.
-/

namespace RobotSoccer

/-- The two teams, blue before green. -/
inductive Team where
  /-- The blue team. -/
  | blue
  /-- The green team. -/
  | green
  deriving DecidableEq, Repr

namespace Team

/-- The word for a team. -/
def text : Team → String
  | blue => "blue"
  | green => "green"

/-- The team that a word names. -/
def ofText? (s : String) : Option Team :=
  if s = "blue" then some blue else if s = "green" then some green else none

/-- The place of a team in the order of teams. -/
def rank : Team → Nat
  | blue => 0
  | green => 1

end Team

/-- The name of a robot. Any number of a byte can be named, though only four robots play. -/
structure RobotName where
  /-- The team it plays for. -/
  team : Team
  /-- Its number in the team. -/
  number : UInt8
  deriving DecidableEq, Repr

namespace RobotName

/-- The first blue robot. -/
def blue1 : RobotName := ⟨.blue, 1⟩

/-- The second blue robot. -/
def blue2 : RobotName := ⟨.blue, 2⟩

/-- The first green robot. -/
def green1 : RobotName := ⟨.green, 1⟩

/-- The second green robot. -/
def green2 : RobotName := ⟨.green, 2⟩

/-- The robots that play, in the order of their names. -/
def all : List RobotName := [blue1, blue2, green1, green2]

/-- The digits of the number of a robot. -/
def numberText (number : UInt8) : String := String.ofList (Number.naturalText number.toNat)

/-- The text of a name: the team and then the number. -/
def text (name : RobotName) : String := name.team.text ++ numberText name.number

/-- Different numbers are written differently. -/
theorem numberText_injective {m n : UInt8} (h : numberText m = numberText n) : m = n :=
  UInt8.toNat_inj.1 (Number.naturalText_injective (String.ofList_injective h))

/-- Different robots have different texts, whether they play or not. -/
theorem text_injective {left right : RobotName} (h : left.text = right.text) :
    left = right := by
  obtain ⟨team, number⟩ := left
  obtain ⟨otherTeam, otherNumber⟩ := right
  have hchars := congrArg String.toList h
  unfold text at hchars
  rw [String.toList_append, String.toList_append] at hchars
  have hnumber (word : String) (hw : word.toList ++ (numberText number).toList =
      word.toList ++ (numberText otherNumber).toList) : number = otherNumber :=
    numberText_injective (String.toList_inj.1 (List.append_cancel_left hw))
  cases team <;> cases otherTeam
  · rw [hnumber _ hchars]
  · simp [Team.text] at hchars
  · simp [Team.text] at hchars
  · rw [hnumber _ hchars]

/-- The robot on the field whose name has this text. -/
def ofText? (s : String) : Option RobotName := all.find? fun name => name.text = s

/-- A text names a robot when it is the text of one that plays, and then it names that one. -/
theorem ofText?_eq_some_iff {s : String} {name : RobotName} :
    ofText? s = some name ↔ name ∈ all ∧ name.text = s := by
  unfold ofText?
  constructor
  · intro h
    exact ⟨List.mem_of_find?_eq_some h, of_decide_eq_true (List.find?_some h :)⟩
  · rintro ⟨hmem, htext⟩
    cases h : all.find? fun name => decide (name.text = s) with
    | none => exact absurd (decide_eq_true htext) (List.find?_eq_none.1 h name hmem)
    | some other =>
      have : other.text = s := of_decide_eq_true (List.find?_some h :)
      rw [text_injective (this.trans htext.symm)]

/-- The complaint about a text that names no robot on the field. -/
def unknownText (s : String) : String := "unknown robot: " ++ s

/-- Names are ordered by team and then by number. -/
def le (left right : RobotName) : Bool :=
  left.team.rank < right.team.rank ||
    (left.team.rank == right.team.rank && left.number ≤ right.number)

/-- Names in their order; equal names keep their places. -/
def sort (names : List RobotName) : List RobotName := names.mergeSort le

end RobotName

/-- One thing for each robot that plays. -/
structure Roster (α : Type) where
  /-- What the first blue robot has. -/
  blue1 : α
  /-- What the second blue robot has. -/
  blue2 : α
  /-- What the first green robot has. -/
  green1 : α
  /-- What the second green robot has. -/
  green2 : α
  deriving DecidableEq, Repr

namespace Roster

variable {α β : Type}

/-- The same thing for every robot. -/
def fill (value : α) : Roster α := ⟨value, value, value, value⟩

/-- What a robot has; nothing for a name that does not play. -/
def get? (roster : Roster α) (name : RobotName) : Option α :=
  if name = .blue1 then some roster.blue1
  else if name = .blue2 then some roster.blue2
  else if name = .green1 then some roster.green1
  else if name = .green2 then some roster.green2
  else none

/-- Gives a robot something else; a name that does not play changes nothing. -/
def set (roster : Roster α) (name : RobotName) (value : α) : Roster α :=
  if name = .blue1 then { roster with blue1 := value }
  else if name = .blue2 then { roster with blue2 := value }
  else if name = .green1 then { roster with green1 := value }
  else if name = .green2 then { roster with green2 := value }
  else roster

/-- Changes what each robot has, by its name. -/
def mapNamed (roster : Roster α) (f : RobotName → α → β) : Roster β :=
  ⟨f .blue1 roster.blue1, f .blue2 roster.blue2, f .green1 roster.green1,
    f .green2 roster.green2⟩

/-- What the robots have, in the order of their names. -/
def toList (roster : Roster α) : List (RobotName × α) :=
  [(.blue1, roster.blue1), (.blue2, roster.blue2), (.green1, roster.green1),
    (.green2, roster.green2)]

/-- A roster has something for the robots that play and for no others. -/
theorem isSome_get? (roster : Roster α) (name : RobotName) :
    (roster.get? name).isSome = true ↔ name ∈ RobotName.all := by
  unfold get? RobotName.all
  repeat' split
  all_goals simp_all

/-- What the list of a roster holds is what its view shows. -/
theorem mem_toList {roster : Roster α} {name : RobotName} {value : α} :
    (name, value) ∈ roster.toList ↔ roster.get? name = some value := by
  unfold get? toList
  repeat' split
  all_goals simp_all [RobotName.blue1, RobotName.blue2, RobotName.green1, RobotName.green2,
    eq_comm]

/-- What a change of every robot does to the view of a roster. -/
theorem get?_mapNamed (roster : Roster α) (f : RobotName → α → β) (name : RobotName) :
    (roster.mapNamed f).get? name = (roster.get? name).map (f name) := by
  unfold get? mapNamed
  repeat' split
  all_goals simp_all

/-- What a change of one robot does to the view of a roster. -/
theorem get?_set (roster : Roster α) (name other : RobotName) (value : α) :
    (roster.set name value).get? other =
      if name = other then (roster.get? name).map (fun _ => value) else roster.get? other := by
  by_cases h : name = other
  · subst h
    unfold set get?
    repeat' split
    all_goals simp_all
  · rw [if_neg h]
    unfold set
    repeat' split
    all_goals simp_all [get?]
    all_goals
      repeat' split
      all_goals simp_all

end Roster

end RobotSoccer
