/-!
# Tables

A table is a list of keys and values; looking up a key finds the first entry with it.
-/

namespace LanguageHub

section Tables

variable {α β : Type} [DecidableEq α] {table : List (α × β)}

theorem lookup_filter_keys (keep : α → Bool) (table : List (α × β)) (k : α) :
    List.lookup k (table.filter (keep ·.1)) = if keep k then List.lookup k table else none := by
  induction table with
  | nil => simp
  | cons entry rest ih =>
    obtain ⟨key, value⟩ := entry
    by_cases hk : k = key
    · subst hk
      cases hkeep : keep k <;> simp [hkeep, ih]
    · have hskip : (k == key) = false := by simpa using hk
      cases hkeep : keep key <;> simp [hkeep, ih, List.lookup_cons, hskip]

theorem mem_of_lookup {k : α} {v : β} (h : List.lookup k table = some v) : (k, v) ∈ table := by
  obtain ⟨before, after, rfl, -⟩ := List.lookup_eq_some_iff.mp h
  simp

theorem lookup_of_mem (hkeys : (table.map Prod.fst).Nodup) {k : α} {v : β} (h : (k, v) ∈ table) :
    List.lookup k table = some v := by
  obtain ⟨before, after, rfl⟩ := List.append_of_mem h
  rw [List.map_append, List.nodup_append] at hkeys
  refine List.lookup_eq_some_iff.mpr ⟨before, after, rfl, fun entry hentry => ?_⟩
  have hne := hkeys.2.2 entry.1 (List.mem_map_of_mem hentry) k (by simp)
  simpa using hne.symm

/-- When each key has one entry, the order of the entries does not matter. -/
theorem lookup_perm {table' : List (α × β)} (hkeys : (table.map Prod.fst).Nodup)
    (h : table.Perm table') (k : α) : List.lookup k table = List.lookup k table' := by
  have hkeys' : (table'.map Prod.fst).Nodup := (h.map Prod.fst).nodup_iff.mp hkeys
  refine Option.ext fun v => ?_
  constructor
  · intro hv
    exact lookup_of_mem hkeys' (h.mem_iff.mp (mem_of_lookup hv))
  · intro hv
    exact lookup_of_mem hkeys (h.mem_iff.mpr (mem_of_lookup hv))

end Tables

end LanguageHub
