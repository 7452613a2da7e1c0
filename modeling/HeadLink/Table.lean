/-!
# Tables

A table holds at most one value per key. Its entries keep the order in which the keys came in.

## Contents
- **Operations.** `get?`, `contains`, `insert`, `erase` and `filterKeys`.
- **Look-up after an operation.** `get?_insert`, `get?_erase`, `get?_filterKeys` say what each
  operation does to every key.
- **Size.** `size_insert`.
- **Totals.** `total` adds up a measure of the values; `total_insert` and `total_erase` say how it
  changes.
-/

namespace HeadLink

/-- A finite map from keys to values, as a list of entries with pairwise distinct keys. -/
structure Table (κ α : Type) where
  entries : List (κ × α) := []
  nodup : (entries.map Prod.fst).Nodup := by simp

namespace Table

variable {κ α : Type}

/-- A table without entries. -/
def empty : Table κ α := {}

instance : EmptyCollection (Table κ α) := ⟨empty⟩

/-- The number of keys. -/
def size (t : Table κ α) : Nat := t.entries.length

/-- The keys, oldest first. -/
def keys (t : Table κ α) : List κ := t.entries.map Prod.fst

/-- The sum of a measure over all values. -/
def total (t : Table κ α) (f : α → Nat) : Nat :=
  t.entries.foldr (fun e n => f e.2 + n) 0

/-- Keeps the entries whose key satisfies `p`. -/
def filterKeys (t : Table κ α) (p : κ → Bool) : Table κ α where
  entries := t.entries.filter fun e => p e.1
  nodup := (List.filter_sublist.map Prod.fst).nodup t.nodup

theorem size_filterKeys_le (t : Table κ α) (p : κ → Bool) : (t.filterKeys p).size ≤ t.size :=
  List.length_filter_le _ _

variable [DecidableEq κ]

/-- The value of a key. -/
def get? (t : Table κ α) (k : κ) : Option α :=
  (t.entries.find? fun e => e.1 = k).map Prod.snd

/-- Whether a key has a value. -/
def contains (t : Table κ α) (k : κ) : Bool :=
  t.entries.any fun e => e.1 = k

/-- Removes a key. -/
def erase (t : Table κ α) (k : κ) : Table κ α :=
  t.filterKeys fun k' => k' ≠ k

/-- Replaces the value of `k` in a list of entries. -/
def replaceEntry (k : κ) (v : α) (entries : List (κ × α)) : List (κ × α) :=
  entries.map fun e => if e.1 = k then (k, v) else e

theorem map_fst_replaceEntry (k : κ) (v : α) (entries : List (κ × α)) :
    (replaceEntry k v entries).map Prod.fst = entries.map Prod.fst := by
  rw [replaceEntry, List.map_map]
  apply List.map_congr_left
  intro e _
  by_cases h : e.1 = k <;> simp [h]

/-- Gives `k` the value `v`: in place if the key is there, else at the end. -/
def insert (t : Table κ α) (k : κ) (v : α) : Table κ α :=
  if h : t.contains k then
    { entries := replaceEntry k v t.entries
      nodup := by rw [map_fst_replaceEntry]; exact t.nodup }
  else
    { entries := t.entries ++ [(k, v)]
      nodup := by
        rw [List.map_append, List.nodup_append]
        refine ⟨t.nodup, by simp, ?_⟩
        intro a ha b hb
        simp only [List.map_cons, List.map_nil, List.mem_singleton] at hb
        subst hb
        rintro rfl
        simp only [contains, List.any_eq_true, decide_eq_true_eq, not_exists, not_and] at h
        obtain ⟨e, he, rfl⟩ := List.mem_map.mp ha
        exact h e he rfl }

/-! ## Look-up after an operation -/

@[simp] theorem get?_empty (k : κ) : (∅ : Table κ α).get? k = none := rfl

theorem contains_iff {t : Table κ α} {k : κ} : t.contains k = true ↔ ∃ v, t.get? k = some v := by
  simp only [contains, get?, List.any_eq_true, Option.map_eq_some_iff]
  constructor
  · rintro ⟨e, he, hk⟩
    obtain ⟨e', h⟩ := Option.isSome_iff_exists.mp
      (List.find?_isSome (p := fun e : κ × α => decide (e.1 = k)) |>.mpr ⟨e, he, hk⟩)
    exact ⟨e'.2, e', h, rfl⟩
  · rintro ⟨v, e, h, rfl⟩
    exact ⟨e, List.mem_of_find?_eq_some h, by simpa using List.find?_some h⟩

/-- A table contains the keys that have a value. -/
theorem contains_eq_isSome_get? (t : Table κ α) (k : κ) : t.contains k = (t.get? k).isSome := by
  rw [Bool.eq_iff_iff, contains_iff, Option.isSome_iff_exists]

theorem get?_filterKeys (t : Table κ α) (p : κ → Bool) (k : κ) :
    (t.filterKeys p).get? k = if p k then t.get? k else none := by
  simp only [get?, filterKeys, List.find?_filter]
  split
  · rename_i hp
    congr 2
    funext e
    by_cases h : e.1 = k <;> simp [h, hp]
  · rename_i hp
    rw [Option.map_eq_none_iff, List.find?_eq_none]
    intro e _
    by_cases h : e.1 = k <;> simp [h, hp]

theorem get?_erase (t : Table κ α) (k k' : κ) :
    (t.erase k).get? k' = if k' = k then none else t.get? k' := by
  rw [erase, get?_filterKeys]
  by_cases h : k' = k <;> simp [h]

theorem get?_insert (t : Table κ α) (k k' : κ) (v : α) :
    (t.insert k v).get? k' = if k' = k then some v else t.get? k' := by
  unfold insert
  split
  · rename_i hc
    simp only [get?, replaceEntry, List.find?_map]
    by_cases hk : k' = k
    · subst hk
      rw [contains, List.any_eq_true] at hc
      have hs : (t.entries.find? ((fun e : κ × α => decide (e.1 = k')) ∘
          fun e => if e.1 = k' then (k', v) else e)).isSome := by
        rw [List.find?_isSome]
        obtain ⟨e, he, h⟩ := hc
        exact ⟨e, he, by simp_all⟩
      obtain ⟨e, he⟩ := Option.isSome_iff_exists.mp hs
      have hp := List.find?_some he
      rw [he]
      by_cases h : e.1 = k' <;> simp_all
    · simp only [hk, if_false]
      have hf : ((fun e : κ × α => decide (e.1 = k')) ∘ fun e => if e.1 = k then (k, v) else e)
          = fun e : κ × α => decide (e.1 = k') := by
        funext e
        by_cases h : e.1 = k
        · simp [h]
        · simp [h]
      rw [hf]
      cases hfind : t.entries.find? (fun e => decide (e.1 = k')) with
      | none => rfl
      | some e =>
        have h := List.find?_some hfind
        have hne : e.1 ≠ k := by
          intro h'
          exact hk ((of_decide_eq_true h).symm.trans h')
        simp [hne]
  · rename_i hc
    simp only [get?, List.find?_append]
    by_cases hk : k' = k
    · subst hk
      have hn : t.entries.find? (fun e => decide (e.1 = k')) = none := by
        rw [List.find?_eq_none]
        intro e he h
        exact hc (by rw [contains, List.any_eq_true]; exact ⟨e, he, h⟩)
      simp [hn]
    · have hk' : ¬ k = k' := fun h => hk h.symm
      simp [hk, hk']

/-! ## Size -/

theorem size_insert (t : Table κ α) (k : κ) (v : α) :
    (t.insert k v).size = if t.contains k then t.size else t.size + 1 := by
  unfold insert size
  split <;> simp_all [replaceEntry]

/-! ## Totals -/

/-- Replacing a value changes the total by the difference of the measures. -/
theorem foldr_replaceEntry {f : α → Nat} {k : κ} {v w : α} {entries : List (κ × α)}
    (hn : (entries.map Prod.fst).Nodup) (hv : (k, v) ∈ entries) :
    (replaceEntry k w entries).foldr (fun e n => f e.2 + n) 0 + f v
      = entries.foldr (fun e n => f e.2 + n) 0 + f w := by
  induction entries with
  | nil => simp at hv
  | cons e es ih =>
    rw [List.map_cons, List.nodup_cons] at hn
    simp only [replaceEntry, List.map_cons, List.foldr_cons] at ih ⊢
    rcases List.mem_cons.mp hv with rfl | hv
    · have hid : es.map (fun e => if e.1 = k then (k, w) else e) = es := by
        conv => rhs; rw [← List.map_id es]
        apply List.map_congr_left
        intro e he
        have : e.1 ≠ k := fun h => hn.1 (List.mem_map.mpr ⟨e, he, h⟩)
        simp [this]
      rw [hid]
      simp only [if_true]
      omega
    · have hne : e.1 ≠ k := fun h => hn.1 (h ▸ List.mem_map_of_mem (f := Prod.fst) hv)
      have := ih hn.2 hv
      simp only [hne, if_false]
      omega

/-- Removing a key takes the measure of its value off the total. -/
theorem foldr_filter_ne {f : α → Nat} {k : κ} {v : α} {entries : List (κ × α)}
    (hn : (entries.map Prod.fst).Nodup) (hv : (k, v) ∈ entries) :
    (entries.filter fun e => decide (e.1 ≠ k)).foldr (fun e n => f e.2 + n) 0 + f v
      = entries.foldr (fun e n => f e.2 + n) 0 := by
  induction entries with
  | nil => simp at hv
  | cons e es ih =>
    rw [List.map_cons, List.nodup_cons] at hn
    rcases List.mem_cons.mp hv with rfl | hv
    · have hid : es.filter (fun e => decide (e.1 ≠ k)) = es := by
        rw [List.filter_eq_self]
        intro e he
        have : e.1 ≠ k := fun h => hn.1 (List.mem_map.mpr ⟨e, he, h⟩)
        simp [this]
      rw [List.filter_cons_of_neg (by simp), hid, List.foldr_cons, Nat.add_comm]
    · have hne : e.1 ≠ k := fun h => hn.1 (h ▸ List.mem_map_of_mem (f := Prod.fst) hv)
      have := ih hn.2 hv
      rw [List.filter_cons_of_pos (by simpa using hne), List.foldr_cons, List.foldr_cons]
      omega

theorem mem_of_get? {t : Table κ α} {k : κ} {v : α} (h : t.get? k = some v) :
    (k, v) ∈ t.entries := by
  obtain ⟨e, he, rfl⟩ := Option.map_eq_some_iff.mp h
  have hk : e.1 = k := by simpa using List.find?_some he
  exact hk ▸ List.mem_of_find?_eq_some he

/-- Among entries with distinct keys, a key finds its own entry. -/
theorem find?_of_mem {entries : List (κ × α)} {e : κ × α} (hn : (entries.map Prod.fst).Nodup)
    (he : e ∈ entries) : entries.find? (fun e' => e'.1 = e.1) = some e := by
  induction entries with
  | nil => cases he
  | cons e' es ih =>
    rw [List.map_cons, List.nodup_cons] at hn
    rcases List.mem_cons.mp he with rfl | he
    · exact List.find?_cons_of_pos (decide_eq_true rfl)
    · have hne : ¬ e'.1 = e.1 := fun h => hn.1 (h ▸ List.mem_map_of_mem he)
      rw [List.find?_cons_of_neg (by simpa using hne)]
      exact ih hn.2 he

/-- The key of an entry gives its value. -/
theorem get?_of_mem {t : Table κ α} {e : κ × α} (he : e ∈ t.entries) : t.get? e.1 = some e.2 := by
  unfold get?
  rw [find?_of_mem t.nodup he]
  rfl

theorem total_insert {t : Table κ α} {k : κ} {v : α} (h : t.get? k = some v) (w : α)
    (f : α → Nat) : (t.insert k w).total f + f v = t.total f + f w := by
  have hc : t.contains k = true := contains_iff.mpr ⟨v, h⟩
  rw [insert, dif_pos hc]
  exact foldr_replaceEntry t.nodup (mem_of_get? h)

theorem total_erase {t : Table κ α} {k : κ} {v : α} (h : t.get? k = some v) (f : α → Nat) :
    (t.erase k).total f + f v = t.total f :=
  foldr_filter_ne t.nodup (mem_of_get? h)

end Table

end HeadLink
