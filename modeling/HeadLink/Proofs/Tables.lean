import HeadLink.Table

/-!
# More about tables

A table is its list of entries. A value that comes in under a free key goes to the end of the list and can be
taken out again, and putting in what is there already changes nothing.

What is done for all entries, one after the other, is a fold, as is what is done for everything in a queue.

## Contents
- **Folds.** `foldl_keeps`.
- **Other values.** `Table.mapValues` keeps the keys and exchanges the values.
- **Keys.** `Table.entries_insert_of_free` and `Table.erase_insert` for free keys; `Table.mem_keys`.
- **Operations.** Exchanging the values goes along with all operations (`Table.mapValues_insert`,
  `Table.mapValues_erase`).
- **Counting.** `Table.size_eq_zero_iff`, `Table.size_erase`, `Table.total_insert_of_free`, `Table.total_le_total`.
-/

namespace HeadLink

/-! ## Folds -/

/-- What no step of a fold changes is the same after it. -/
theorem foldl_keeps {α β γ : Type} {f : β → γ} {g : β → α → β} {xs : List α} (h : ∀ a ∈ xs, ∀ b, f (g b a) = f b)
    (b : β) : f (xs.foldl g b) = f b := by
  induction xs generalizing b with
  | nil => rfl
  | cons a xs ih =>
    rw [List.forall_mem_cons] at h
    rw [List.foldl_cons, ih h.2, h.1]

namespace Table

variable {κ α β : Type}

/-! ## Other values -/

/-- Tables with the same entries are equal. -/
theorem eq_of_entries_eq {t u : Table κ α} (h : t.entries = u.entries) : t = u := by
  cases t
  cases u
  subst h
  rfl

/-- The same keys with other values. -/
def mapValues (t : Table κ α) (f : α → β) : Table κ β where
  entries := t.entries.map fun e => (e.1, f e.2)
  nodup := by
    rw [List.map_map]
    exact t.nodup

@[simp] theorem total_mapValues (t : Table κ α) (f : α → β) (g : β → Nat) :
    (t.mapValues f).total g = t.total fun a => g (f a) :=
  List.foldr_map ..

/-- The size is the total that counts each value once. -/
theorem size_eq_total (t : Table κ α) : t.size = t.total fun _ => 1 := by
  unfold size total
  induction t.entries with
  | nil => rfl
  | cons e es ih => rw [List.length_cons, List.foldr_cons, ih, Nat.add_comm]

variable [DecidableEq κ]

/-! ## Keys -/

theorem contains_eq_false {t : Table κ α} {k : κ} (h : t.get? k = none) : t.contains k = false := by
  rw [contains_eq_isSome_get?, h]
  rfl

theorem entries_insert_of_free {t : Table κ α} {k : κ} (h : t.get? k = none) (v : α) :
    (t.insert k v).entries = t.entries ++ [(k, v)] := by
  have hc := contains_eq_false h
  unfold insert
  rw [dif_neg (by rw [hc]; exact Bool.false_ne_true)]

/-- No entry has a key that is free. -/
theorem fst_ne_of_free {t : Table κ α} {k : κ} (h : t.get? k = none) : ∀ e ∈ t.entries, e.1 ≠ k := by
  intro e he hk
  have hc := contains_eq_false h
  simp only [contains, List.any_eq_false, decide_eq_true_eq] at hc
  exact hc e he hk

/-- Taking out what was put in under a free key leaves the table as it was. -/
theorem erase_insert {t : Table κ α} {k : κ} (h : t.get? k = none) (v : α) :
    (t.insert k v).erase k = t := by
  apply eq_of_entries_eq
  show ((t.insert k v).entries.filter fun e => decide (e.1 ≠ k)) = t.entries
  rw [entries_insert_of_free h, List.filter_append, List.filter_cons_of_neg (by simp),
    List.filter_nil, List.append_nil, List.filter_eq_self]
  intro e he
  exact decide_eq_true (fst_ne_of_free h e he)

/-- The keys are those that have a value. -/
theorem mem_keys {t : Table κ α} {k : κ} : k ∈ t.keys ↔ (t.get? k).isSome := by
  constructor
  · intro h
    obtain ⟨e, he, rfl⟩ := List.mem_map.mp h
    simp [get?_of_mem he]
  · intro h
    obtain ⟨v, hv⟩ := Option.isSome_iff_exists.mp h
    exact List.mem_map_of_mem (mem_of_get? hv)

/-! ## Operations -/

theorem entries_insert_of_contains {t : Table κ α} {k : κ} (h : t.contains k = true) (v : α) :
    (t.insert k v).entries = replaceEntry k v t.entries := by
  unfold insert
  rw [dif_pos h]

/-- Putting in what is there already changes nothing. -/
theorem insert_eq_self {t : Table κ α} {k : κ} {v : α} (h : t.get? k = some v) : t.insert k v = t := by
  apply eq_of_entries_eq
  rw [entries_insert_of_contains (contains_iff.mpr ⟨v, h⟩)]
  refine (List.map_congr_left ?_).trans (List.map_id _)
  intro e he
  by_cases hk : e.1 = k
  · -- a key has one entry only
    have hv : t.get? k = some e.2 := hk ▸ get?_of_mem he
    rw [if_pos hk, ← hk, Option.some.inj (h.symm.trans hv)]
    rfl
  · rw [if_neg hk]
    rfl

@[simp] theorem get?_mapValues (t : Table κ α) (f : α → β) (k : κ) :
    (t.mapValues f).get? k = (t.get? k).map f := by
  simp [get?, mapValues, List.find?_map, Function.comp_def]

@[simp] theorem contains_mapValues (t : Table κ α) (f : α → β) (k : κ) :
    (t.mapValues f).contains k = t.contains k := by
  simp [contains_eq_isSome_get?]

theorem mapValues_insert (t : Table κ α) (f : α → β) (k : κ) (v : α) :
    (t.insert k v).mapValues f = (t.mapValues f).insert k (f v) := by
  apply eq_of_entries_eq
  show (t.insert k v).entries.map (fun e => (e.1, f e.2)) = _
  cases hk : t.get? k with
  | none =>
    have hfree : (t.mapValues f).get? k = none := by simp [hk]
    rw [entries_insert_of_free hk, entries_insert_of_free hfree]
    simp [mapValues]
  | some w =>
    have hc : t.contains k = true := contains_iff.mpr ⟨w, hk⟩
    rw [entries_insert_of_contains hc, entries_insert_of_contains (by simpa using hc)]
    unfold replaceEntry mapValues
    rw [List.map_map, List.map_map]
    apply List.map_congr_left
    intro e _
    by_cases he : e.1 = k <;> simp [he]

theorem mapValues_erase (t : Table κ α) (f : α → β) (k : κ) :
    (t.erase k).mapValues f = (t.mapValues f).erase k := by
  apply eq_of_entries_eq
  simp [mapValues, erase, filterKeys, List.filter_map, Function.comp_def]

/-! ## Counting -/

/-- A table is empty exactly if no key has a value. -/
theorem size_eq_zero_iff {t : Table κ α} : t.size = 0 ↔ ∀ k, t.get? k = none := by
  constructor
  · intro h k
    have hentries : t.entries = [] := List.length_eq_zero_iff.mp h
    rw [get?, hentries]
    rfl
  · intro h
    refine List.length_eq_zero_iff.mpr (List.eq_nil_iff_forall_not_mem.mpr fun e he => ?_)
    cases (h e.1).symm.trans (get?_of_mem he)

theorem size_erase {t : Table κ α} {k : κ} {v : α} (h : t.get? k = some v) :
    (t.erase k).size + 1 = t.size := by
  rw [size_eq_total, size_eq_total]
  exact total_erase h _

theorem total_insert_of_free {t : Table κ α} {k : κ} (h : t.get? k = none) (v : α) (f : α → Nat) :
    (t.insert k v).total f = t.total f + f v := by
  unfold total
  rw [entries_insert_of_free h]
  induction t.entries with
  | nil => simp
  | cons e es ih =>
    rw [List.cons_append, List.foldr_cons, List.foldr_cons, ih]
    omega

/-- A measure that is nowhere larger does not have a larger total. -/
theorem total_le_total {t : Table κ α} {f g : α → Nat} (h : ∀ {k v}, t.get? k = some v → f v ≤ g v) :
    t.total f ≤ t.total g := by
  have hentries : ∀ e ∈ t.entries, f e.2 ≤ g e.2 := fun e he => h (get?_of_mem he)
  unfold total
  generalize t.entries = entries at hentries
  induction entries with
  | nil => exact Nat.le_refl 0
  | cons e es ih =>
    have hfirst := hentries e List.mem_cons_self
    have hrest := ih fun e' he' => hentries e' (List.mem_cons_of_mem e he')
    rw [List.foldr_cons, List.foldr_cons]
    exact Nat.add_le_add hfirst hrest

/-- A total that is positive has a value that counts. -/
theorem exists_of_total_pos {t : Table κ α} {f : α → Nat} (h : 0 < t.total f) :
    ∃ k v, t.get? k = some v ∧ 0 < f v := by
  have hentry : ∃ e ∈ t.entries, 0 < f e.2 := by
    unfold total at h
    generalize t.entries = entries at h
    induction entries with
    | nil => exact absurd h (Nat.lt_irrefl 0)
    | cons e es ih =>
      rw [List.foldr_cons] at h
      by_cases he : 0 < f e.2
      · exact ⟨e, List.mem_cons_self, he⟩
      · obtain ⟨e', he', hpos⟩ := ih (by omega)
        exact ⟨e', List.mem_cons_of_mem e he', hpos⟩
  obtain ⟨e, he, hpos⟩ := hentry
  exact ⟨e.1, e.2, get?_of_mem he, hpos⟩

end Table

end HeadLink
