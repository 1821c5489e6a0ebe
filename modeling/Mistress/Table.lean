import Mathlib.Data.List.AList

/-!
# Tables

A Lua table whose values all have one type: an association list without
duplicate keys, whose order is the one `pairs` happens to traverse the table in.

Beside what association lists come with, the two loops over a table used here:
replacing the values (`mapVals`) and removing some of the entries (`filter`). A
list collected while traversing a table contains, as far as one key is
concerned, what is collected at that key (`filter_flatMap_entries`).
-/

/-- A table with the keys `κ` and the values `β`. -/
abbrev Table (κ β : Type*) := AList fun _ : κ => β

namespace Table

open List

variable {κ β γ δ : Type*}

/-- Replacing every value of a table. -/
def mapVals (f : κ → β → γ) (t : Table κ β) : Table κ γ :=
  ⟨t.entries.map fun e => ⟨e.1, f e.1 e.2⟩, t.nodupKeys.map₂ f⟩

/-- Keeping the entries of a table that meet `p`. -/
def filter (p : κ → β → Bool) (t : Table κ β) : Table κ β :=
  ⟨t.entries.filter fun e => p e.1 e.2, t.nodupKeys.sublist filter_sublist⟩

variable [DecidableEq κ]

/-- `t[k] = v`, where `nil` removes the entry. -/
def assign (t : Table κ β) (k : κ) : Option β → Table κ β
  | some v => t.insert k v
  | none => t.erase k

theorem lookup_insert (t : Table κ β) (k k' : κ) (v : β) :
    (t.insert k v).lookup k' = if k' = k then some v else t.lookup k' := by
  split_ifs with h
  · rw [h, AList.lookup_insert]
  · exact AList.lookup_insert_ne h

theorem lookup_erase (t : Table κ β) (k k' : κ) :
    (t.erase k).lookup k' = if k' = k then none else t.lookup k' := by
  split_ifs with h
  · rw [h, AList.lookup_erase]
  · exact AList.lookup_erase_ne h

theorem lookup_assign (t : Table κ β) (k k' : κ) (v : Option β) :
    (t.assign k v).lookup k' = if k' = k then v else t.lookup k' := by
  cases v with
  | some v => exact t.lookup_insert k k' v
  | none => exact t.lookup_erase k k'

@[simp] theorem lookup_mapVals (f : κ → β → γ) (t : Table κ β) (k : κ) :
    (t.mapVals f).lookup k = (t.lookup k).map (f k) :=
  dlookup_map₂ k

/-- An absent key counts as a default that the replacement keeps. -/
theorem getD_lookup_mapVals {f : κ → β → γ} (t : Table κ β) (k : κ) (d : β) (d' : γ)
    (hd : f k d = d') : ((t.mapVals f).lookup k).getD d' = f k ((t.lookup k).getD d) := by
  rw [lookup_mapVals, ← hd, Option.getD_map]

theorem lookup_eq_some_iff {t : Table κ β} {k : κ} {v : β} :
    t.lookup k = some v ↔ ⟨k, v⟩ ∈ t.entries :=
  AList.mem_lookup_iff

@[simp] theorem lookup_filter (p : κ → β → Bool) (t : Table κ β) (k : κ) :
    (t.filter p).lookup k = (t.lookup k).filter (p k) := by
  ext v
  rw [Option.filter_eq_some_iff, lookup_eq_some_iff, lookup_eq_some_iff, filter, mem_filter]

/-- Among the entries traversed, only the one at the key `k` counts, when nothing
    collected at another key meets `p`. -/
theorem filter_flatMap_entries (t : Table κ β) (k : κ) (g : κ → β → List δ) (p : δ → Bool)
    (hp : ∀ k' v, t.lookup k' = some v → k' ≠ k → (g k' v).filter p = []) :
    (t.entries.flatMap fun e => g e.1 e.2).filter p =
      ((t.lookup k).map fun v => (g k v).filter p).getD [] := by
  obtain ⟨l, hl⟩ := t
  replace hp : ∀ e ∈ l, e.1 ≠ k → (g e.1 e.2).filter p = [] := fun e he =>
    hp e.1 e.2 (lookup_eq_some_iff.2 he)
  change (l.flatMap fun e => g e.1 e.2).filter p = ((l.dlookup k).map fun v => (g k v).filter p).getD []
  induction l with
  | nil => rfl
  | cons e l ih =>
    rw [nodupKeys_cons] at hl
    rw [flatMap_cons, filter_append, ih hl.2 fun e' he' => hp e' (mem_cons_of_mem _ he')]
    obtain ⟨k', v⟩ := e
    by_cases hk : k' = k
    · subst hk
      rw [dlookup_cons_eq, dlookup_eq_none.2 hl.1]
      simp
    · rw [hp ⟨k', v⟩ mem_cons_self hk, dlookup_cons_ne (β := fun _ => β) _ ⟨k', v⟩ (Ne.symm hk),
        nil_append]

/-- The same among the values themselves. -/
theorem filter_values (t : Table κ β) (k : κ) (p : β → Bool)
    (hp : ∀ k' v, t.lookup k' = some v → k' ≠ k → p v = false) :
    (t.entries.map Sigma.snd).filter p = ((t.lookup k).filter p).toList := by
  have hmap : t.entries.map Sigma.snd = t.entries.flatMap fun e => [e.2] := by
    simp [map_eq_flatMap]
  rw [hmap, filter_flatMap_entries t k (fun _ v => [v]) p fun k' v hv hk => by simp [hp k' v hv hk]]
  cases t.lookup k with
  | none => rfl
  | some v => cases h : p v <;> simp [h, Option.filter]

/-- The same among the members of a list without duplicates. -/
theorem filter_flatMap_of_nodup {l : List κ} (hl : l.Nodup) (k : κ) (g : κ → List δ) (p : δ → Bool)
    (hp : ∀ k' ∈ l, k' ≠ k → (g k').filter p = []) :
    (l.flatMap g).filter p = if k ∈ l then (g k).filter p else [] := by
  induction l with
  | nil => rfl
  | cons k' l ih =>
    rw [nodup_cons] at hl
    rw [flatMap_cons, filter_append, ih hl.2 fun k'' h => hp k'' (mem_cons_of_mem _ h)]
    by_cases hk : k' = k
    · subst hk
      simp [hl.1]
    · rw [hp k' mem_cons_self hk, nil_append]
      simp [Ne.symm hk]

end Table
