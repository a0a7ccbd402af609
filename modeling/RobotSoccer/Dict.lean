/-!
# Text-keyed finite maps

A `Dict` keeps its entries in the strict order of their keys, so that two maps with the same
values are the same map and a map is written in one order. The view of a map is `get?`; the
lemmas say what each operation does to it, and `Dict.ext` that nothing else matters.
-/

namespace RobotSoccer

namespace Entries

variable {α β : Type}

/-- The entries stand in the strict order of their keys. -/
def Sorted (entries : List (String × α)) : Prop := entries.Pairwise (fun a b => a.1 < b.1)

/-- The value at a key. -/
def get? (key : String) : List (String × α) → Option α
  | [] => none
  | (k, v) :: rest => if k = key then some v else get? key rest

/-- Puts a value at a key, in its place in the order, over a value that stands there. -/
def insert (key : String) (value : α) : List (String × α) → List (String × α)
  | [] => [(key, value)]
  | (k, v) :: rest =>
    if key < k then (key, value) :: (k, v) :: rest
    else if k = key then (key, value) :: rest
    else (k, v) :: insert key value rest

/-- An insertion adds no key but its own. -/
theorem mem_insert {key : String} {value : α} {entry : String × α} {entries : List (String × α)}
    (h : entry ∈ insert key value entries) : entry = (key, value) ∨ entry ∈ entries := by
  induction entries with
  | nil => simpa [insert] using h
  | cons head rest ih =>
    obtain ⟨k, v⟩ := head
    simp only [insert] at h
    split at h
    · simpa using h
    · split at h
      · rcases List.mem_cons.1 h with h | h
        · exact Or.inl h
        · exact Or.inr (List.mem_cons_of_mem _ h)
      · rcases List.mem_cons.1 h with h | h
        · exact Or.inr (h ▸ List.mem_cons_self)
        · exact (ih h).imp id (List.mem_cons_of_mem _)

/-- Insertion keeps the order. -/
theorem sorted_insert {key : String} {value : α} {entries : List (String × α)}
    (h : Sorted entries) : Sorted (insert key value entries) := by
  induction entries with
  | nil => simp [insert, Sorted]
  | cons head rest ih =>
    obtain ⟨k, v⟩ := head
    obtain ⟨hhead, hrest⟩ := List.pairwise_cons.1 h
    simp only [insert]
    split
    · next hlt =>
      refine List.pairwise_cons.2 ⟨fun entry hmem => ?_, h⟩
      rcases List.mem_cons.1 hmem with rfl | hmem
      · exact hlt
      · exact String.lt_trans hlt (hhead entry hmem)
    · next hnlt =>
      split
      · next heq =>
        subst heq
        exact List.pairwise_cons.2 ⟨hhead, hrest⟩
      · next hne =>
        refine List.pairwise_cons.2 ⟨fun entry hmem => ?_, ih hrest⟩
        rcases mem_insert hmem with rfl | hmem
        · have hle : k ≤ key := String.not_lt.1 hnlt
          exact Classical.byContradiction fun hk =>
            hne (String.le_antisymm hle (String.not_lt.1 hk))
        · exact hhead entry hmem

/-- After an insertion the inserted value is found at its key, and at every other key what was
found before. -/
theorem get?_insert (key other : String) (value : α) (entries : List (String × α)) :
    get? other (insert key value entries) =
      if key = other then some value else get? other entries := by
  induction entries with
  | nil => simp [insert, get?]
  | cons head rest ih =>
    obtain ⟨k, v⟩ := head
    simp only [insert]
    split
    · simp [get?]
    · split
      · next heq =>
        subst heq
        by_cases hk : k = other <;> simp [get?, hk]
      · next hne =>
        by_cases hk : k = other
        · have : key ≠ other := fun hko => hne (hk.trans hko.symm)
          simp [get?, hk, this]
        · simp [get?, hk, ih]

/-- Takes away what stands at a key. -/
def erase (key : String) (entries : List (String × α)) : List (String × α) :=
  entries.filter fun entry => entry.1 != key

/-- Taking away keeps the order. -/
theorem sorted_erase {key : String} {entries : List (String × α)} (h : Sorted entries) :
    Sorted (erase key entries) := List.Pairwise.filter _ h

/-- After something was taken away nothing is found at its key, and at every other key what was
found before. -/
theorem get?_erase (key other : String) (entries : List (String × α)) :
    get? other (erase key entries) = if key = other then none else get? other entries := by
  induction entries with
  | nil => simp [erase, get?]
  | cons head rest ih =>
    obtain ⟨k, v⟩ := head
    unfold erase at ih ⊢
    by_cases hk : k = key
    · subst hk
      by_cases ho : k = other <;> simp_all [get?]
    · rw [List.filter_cons_of_pos (by simpa using hk)]
      by_cases ho : k = other
      · have : key ≠ other := fun h => hk (ho.trans h.symm)
        simp [get?, ho, this]
      · simp [get?, ho, ih]

/-- A key under all others is not found. -/
theorem get?_eq_none_of_forall_lt {key : String} {entries : List (String × α)}
    (h : ∀ entry ∈ entries, key < entry.1) : get? key entries = none := by
  induction entries with
  | nil => rfl
  | cons head rest ih =>
    obtain ⟨k, v⟩ := head
    have hk : k ≠ key := fun heq => String.lt_irrefl k (heq ▸ h (k, v) List.mem_cons_self)
    simp [get?, hk, ih fun entry hmem => h entry (List.mem_cons_of_mem _ hmem)]

/-- What is found at a key is the entry with that key. -/
theorem get?_eq_some_iff {key : String} {value : α} {entries : List (String × α)}
    (h : Sorted entries) : get? key entries = some value ↔ (key, value) ∈ entries := by
  induction entries with
  | nil => simp [get?]
  | cons head rest ih =>
    obtain ⟨k, v⟩ := head
    obtain ⟨hhead, hrest⟩ := List.pairwise_cons.1 h
    by_cases hk : k = key
    · subst hk
      have hnone : (k, value) ∉ rest := fun hmem => String.lt_irrefl k (hhead _ hmem)
      simp [get?, hnone, eq_comm]
    · have : key ≠ k := fun heq => hk heq.symm
      simp [get?, hk, ih hrest, this]

/-- Ordered entries with the same values are the same entries. -/
theorem eq_of_get?_eq {left right : List (String × α)} (hl : Sorted left) (hr : Sorted right)
    (h : ∀ key, get? key left = get? key right) : left = right := by
  induction left generalizing right with
  | nil =>
    cases right with
    | nil => rfl
    | cons head rest => simpa [get?] using h head.1
  | cons lhead lrest ih =>
    obtain ⟨lk, lv⟩ := lhead
    obtain ⟨hlhead, hlrest⟩ := List.pairwise_cons.1 hl
    cases right with
    | nil => simpa [get?] using h lk
    | cons rhead rrest =>
      obtain ⟨rk, rv⟩ := rhead
      obtain ⟨hrhead, hrrest⟩ := List.pairwise_cons.1 hr
      have hkeys : lk = rk := by
        refine Classical.byContradiction fun hne => ?_
        rcases String.le_total lk rk with hle | hle
        · have hlt : lk < rk := Classical.byContradiction fun hn =>
            hne (String.le_antisymm hle (String.not_lt.1 hn))
          have hnone : get? lk ((rk, rv) :: rrest) = none :=
            get?_eq_none_of_forall_lt fun entry hmem => by
              rcases List.mem_cons.1 hmem with rfl | hmem
              · exact hlt
              · exact String.lt_trans hlt (hrhead entry hmem)
          have := h lk
          rw [hnone] at this
          simp [get?] at this
        · have hlt : rk < lk := Classical.byContradiction fun hn =>
            hne (String.le_antisymm (String.not_lt.1 hn) hle)
          have hnone : get? rk ((lk, lv) :: lrest) = none :=
            get?_eq_none_of_forall_lt fun entry hmem => by
              rcases List.mem_cons.1 hmem with rfl | hmem
              · exact hlt
              · exact String.lt_trans hlt (hlhead entry hmem)
          have := h rk
          rw [hnone] at this
          simp [get?] at this
      subst hkeys
      have hvalues : lv = rv := by simpa [get?] using h lk
      subst hvalues
      congr 1
      refine ih hlrest hrrest fun key => ?_
      by_cases hk : lk = key
      · subst hk
        rw [get?_eq_none_of_forall_lt hlhead, get?_eq_none_of_forall_lt hrhead]
      · simpa [get?, hk] using h key

end Entries

/-- A finite map from texts to values, kept in the order of its keys. -/
structure Dict (α : Type) where
  /-- The keys with their values. -/
  entries : List (String × α)
  /-- The keys come in strict order, so none comes twice. -/
  sorted : Entries.Sorted entries

namespace Dict

variable {α : Type}

/-- The map without entries. -/
def empty : Dict α := ⟨[], List.Pairwise.nil⟩

instance : Inhabited (Dict α) := ⟨empty⟩

/-- Maps are equal when their keys and values are, in their common order. -/
instance [BEq α] : BEq (Dict α) := ⟨fun left right => left.entries == right.entries⟩

/-- The value at a key. -/
def get? (dict : Dict α) (key : String) : Option α := Entries.get? key dict.entries

/-- Puts a value at a key, over a value that stands there. -/
def insert (dict : Dict α) (key : String) (value : α) : Dict α :=
  ⟨Entries.insert key value dict.entries, Entries.sorted_insert dict.sorted⟩

/-- Takes away what stands at a key. -/
def erase (dict : Dict α) (key : String) : Dict α :=
  ⟨Entries.erase key dict.entries, Entries.sorted_erase dict.sorted⟩

/-- Changes the value at a key, where there is one. -/
def modify (dict : Dict α) (key : String) (change : α → α) : Dict α :=
  match dict.get? key with
  | none => dict
  | some value => dict.insert key (change value)

/-- The map with these entries; of two entries with one key the last one counts. -/
def ofList (entries : List (String × α)) : Dict α :=
  entries.foldl (fun dict entry => dict.insert entry.1 entry.2) empty

@[simp] theorem get?_empty (key : String) : (empty : Dict α).get? key = none := rfl

/-- What an insertion does to the view of a map. -/
theorem get?_insert (dict : Dict α) (key other : String) (value : α) :
    (dict.insert key value).get? other = if key = other then some value else dict.get? other :=
  Entries.get?_insert key other value dict.entries

/-- What taking away does to the view of a map. -/
theorem get?_erase (dict : Dict α) (key other : String) :
    (dict.erase key).get? other = if key = other then none else dict.get? other :=
  Entries.get?_erase key other dict.entries

/-- The view of a map holds its entries and nothing else. -/
theorem get?_eq_some_iff {dict : Dict α} {key : String} {value : α} :
    dict.get? key = some value ↔ (key, value) ∈ dict.entries :=
  Entries.get?_eq_some_iff dict.sorted

/-- What a change does to the view of a map. -/
theorem get?_modify (dict : Dict α) (key other : String) (change : α → α) :
    (dict.modify key change).get? other =
      if key = other then (dict.get? key).map change else dict.get? other := by
  unfold modify
  cases h : dict.get? key with
  | none => by_cases hk : key = other <;> simp_all
  | some value => simp [get?_insert]

/-- A map is determined by its view. -/
theorem ext {left right : Dict α} (h : ∀ key, left.get? key = right.get? key) :
    left = right := by
  obtain ⟨l, hl⟩ := left
  obtain ⟨r, hr⟩ := right
  have : l = r := Entries.eq_of_get?_eq hl hr h
  subst this
  rfl

end Dict

end RobotSoccer
