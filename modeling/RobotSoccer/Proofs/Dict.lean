import RobotSoccer.Dict

/-!
# Maps and their entries

The keys of a map come once each. So a map is gathered again from its own entries, and its
values can be changed all at once.
-/

namespace RobotSoccer

variable {α β : Type}

/-- At a key that no entry has nothing is found. -/
theorem Entries.get?_eq_none_of_not_mem {key : String} {entries : List (String × α)}
    (h : key ∉ entries.map (·.1)) : Entries.get? key entries = none := by
  induction entries with
  | nil => rfl
  | cons entry entries ih =>
    rw [List.map_cons, List.mem_cons, not_or] at h
    rw [Entries.get?, if_neg (Ne.symm h.1)]
    exact ih h.2

/-- Where the keys come once each, what is found at a key is the entry with that key. -/
theorem Entries.get?_eq_some_iff_of_nodup {key : String} {value : α}
    {entries : List (String × α)} (h : (entries.map (·.1)).Nodup) :
    Entries.get? key entries = some value ↔ (key, value) ∈ entries := by
  induction entries with
  | nil => simp [Entries.get?]
  | cons entry entries ih =>
    obtain ⟨hfirst, hmore⟩ := List.nodup_cons.1 h
    rw [Entries.get?, List.mem_cons]
    by_cases hkey : entry.1 = key
    · have hnone : (key, value) ∉ entries := fun hmem =>
        hfirst (List.mem_map.2 ⟨_, hmem, hkey.symm⟩)
      rw [if_pos hkey, or_iff_left hnone, Option.some_inj, ← hkey, eq_comm, Prod.ext_iff]
      exact (and_iff_right rfl).symm
    · have hother : (key, value) ≠ entry := fun heq => hkey (congrArg Prod.fst heq.symm)
      rw [if_neg hkey, ih hmore, or_iff_right hother]

namespace Dict

/-- The keys of a map come once each. -/
theorem nodup_keys (dict : Dict α) : (dict.entries.map (·.1)).Nodup := by
  refine List.pairwise_map.2 (dict.sorted.imp ?_)
  intro entry other hlt heq
  exact String.lt_irrefl _ (heq ▸ hlt)

/-- Taking the entries of a map into a map puts their values over those that were there. -/
theorem get?_foldl_insert (entries : List (String × α)) (hnodup : (entries.map (·.1)).Nodup)
    (dict : Dict α) (key : String) :
    (entries.foldl (fun dict entry => dict.insert entry.1 entry.2) dict).get? key =
      (Entries.get? key entries).or (dict.get? key) := by
  induction entries generalizing dict with
  | nil => rfl
  | cons entry entries ih =>
    obtain ⟨hfirst, hmore⟩ := List.nodup_cons.1 hnodup
    rw [List.foldl_cons, ih hmore, get?_insert, Entries.get?]
    by_cases hkey : entry.1 = key
    · subst hkey
      rw [if_pos rfl, if_pos rfl, Entries.get?_eq_none_of_not_mem hfirst]
      rfl
    · rw [if_neg hkey, if_neg hkey]

/-- The map with the entries of a map in any order is that map. -/
theorem ofList_perm {entries : List (String × α)} {dict : Dict α}
    (h : entries.Perm dict.entries) : ofList entries = dict := by
  have hnodup : (entries.map (·.1)).Nodup := (h.map (·.1)).nodup_iff.2 dict.nodup_keys
  refine ext fun key => Option.ext fun value => ?_
  rw [ofList, get?_foldl_insert _ hnodup, get?_empty, Option.or_none,
    Entries.get?_eq_some_iff_of_nodup hnodup, h.mem_iff, get?_eq_some_iff]

/-- The map with other values at the same keys. -/
def mapValues (f : α → β) (dict : Dict α) : Dict β where
  entries := dict.entries.map fun entry => (entry.1, f entry.2)
  sorted := List.pairwise_map.2 (dict.sorted.imp fun h => h)

/-- What a change of all values does to the view of a map. -/
theorem get?_mapValues (f : α → β) (dict : Dict α) (key : String) :
    (dict.mapValues f).get? key = (dict.get? key).map f := by
  have hview (entries : List (String × α)) :
      Entries.get? key (entries.map fun entry => (entry.1, f entry.2)) =
        (Entries.get? key entries).map f := by
    induction entries with
    | nil => rfl
    | cons entry entries ih =>
      rw [List.map_cons, Entries.get?, Entries.get?, ih]
      by_cases hkey : entry.1 = key
      · rw [if_pos hkey, if_pos hkey]
        rfl
      · rw [if_neg hkey, if_neg hkey]
  exact hview dict.entries

/-- Two changes of all values, one after the other, are one. -/
theorem mapValues_mapValues {γ : Type} (f : α → β) (g : β → γ) (dict : Dict α) :
    (dict.mapValues f).mapValues g = dict.mapValues fun value => g (f value) := by
  refine ext fun key => ?_
  rw [get?_mapValues, get?_mapValues, get?_mapValues, Option.map_map]
  rfl

/-- No change of any value is no change of the map. -/
theorem mapValues_eq_self {f : α → α} {dict : Dict α}
    (h : ∀ entry ∈ dict.entries, f entry.2 = entry.2) : dict.mapValues f = dict := by
  refine ext fun key => ?_
  rw [get?_mapValues]
  cases hget : dict.get? key with
  | none => rfl
  | some value => exact congrArg some (h (key, value) (get?_eq_some_iff.1 hget))

/-- A map stays as it is exactly when each of its values does. -/
theorem mapValues_eq_self_iff {f : α → α} {dict : Dict α} :
    dict.mapValues f = dict ↔ ∀ entry ∈ dict.entries, f entry.2 = entry.2 := by
  refine ⟨fun h entry hentry => ?_, mapValues_eq_self⟩
  have hget : dict.get? entry.1 = some entry.2 := get?_eq_some_iff.2 hentry
  have hmapped := get?_mapValues f dict entry.1
  rw [h, hget] at hmapped
  exact (Option.some.inj hmapped).symm

end Dict

end RobotSoccer
