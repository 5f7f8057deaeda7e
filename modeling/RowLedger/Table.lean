/-!
# Tables

A finite map kept in ascending key order. The order is part of the type,
because it is visible: accounts are listed by id, net deltas are applied by
id, and row locks are taken by id. Keeping the order here means that no caller
sorts anything.

An entry list is a valid table exactly when its keys strictly ascend, so a key
occurs at most once and two tables with the same look-ups have the same
entries.

## Main definitions

* `Table`: An ascending list of key and value pairs.
* `get?`: The value under a key.
* `insert`: Add an entry, replacing the one with the same key.
* `erase`: Drop the entry under a key.
* `filter`: Keep the entries that pass a test.
* `ofList`: A table from pairs in any order; of two with one key the later
  stays.

## Theorems

* `get?_insert`: Looking up after an insertion.
* `get?_erase`: Looking up after a removal.
* `get?_mapValues`, `get?_filter`: Looking up after a change of all entries.
* `mem_entries_iff`: An entry is in the list exactly when it is looked up.
* `pairwise_keys`: The keys ascend.
* `nodup_keys`, `mem_keys_iff`: Each key that is looked up is there once.
* `mem_keys_ofList`: The keys of a table made of pairs.
-/

namespace RowLedger

/-- A finite map whose entries ascend strictly by key. -/
structure Table (κ α : Type) [LT κ] where
  entries : List (κ × α)
  ascending : entries.Pairwise (fun a b => a.1 < b.1)
  deriving DecidableEq

namespace Table

variable {κ α : Type}

/-- The value of the first entry with the key. -/
def find [DecidableEq κ] (k : κ) : List (κ × α) → Option α
  | [] => none
  | (k', v) :: rest => if k' = k then some v else find k rest

/-- Put an entry at its place in an ascending list, replacing an equal key. -/
def place [LT κ] [DecidableLT κ] (k : κ) (v : α) : List (κ × α) → List (κ × α)
  | [] => [(k, v)]
  | (k', v') :: rest =>
    if k < k' then (k, v) :: (k', v') :: rest
    else if k' < k then (k', v') :: place k v rest
    else (k, v) :: rest

section Lookup

variable [LT κ]

def empty : Table κ α := ⟨[], List.Pairwise.nil⟩

instance : Inhabited (Table κ α) := ⟨empty⟩

def keys (t : Table κ α) : List κ := t.entries.map (·.1)

def values (t : Table κ α) : List α := t.entries.map (·.2)

def size (t : Table κ α) : Nat := t.entries.length

/-- Every value changed in place; the keys stay. -/
def mapValues {β : Type} (f : κ → α → β) (t : Table κ α) : Table κ β :=
  ⟨t.entries.map (fun e => (e.1, f e.1 e.2)), by
    rw [List.pairwise_map]
    exact t.ascending⟩

/-- The entries that pass a test. -/
def filter (p : κ → α → Bool) (t : Table κ α) : Table κ α :=
  ⟨t.entries.filter (fun e => p e.1 e.2), t.ascending.filter _⟩

variable [DecidableEq κ]

def get? (t : Table κ α) (k : κ) : Option α := find k t.entries

def contains (t : Table κ α) (k : κ) : Bool := (t.get? k).isSome

def erase (t : Table κ α) (k : κ) : Table κ α :=
  ⟨t.entries.filter (fun e => !decide (e.1 = k)), t.ascending.filter _⟩

@[simp] theorem get?_empty (k : κ) : (empty : Table κ α).get? k = none := rfl

end Lookup

theorem find_filter_ne [DecidableEq κ] (k k' : κ) (l : List (κ × α)) :
    find k' (l.filter (fun e => !decide (e.1 = k))) = if k = k' then none else find k' l := by
  induction l with
  | nil => simp [find]
  | cons a rest ih =>
      by_cases ha : a.1 = k
      · rw [List.filter_cons_of_neg (by simp [ha]), ih]
        by_cases hk : k = k'
        · simp [hk]
        · have : a.1 ≠ k' := fun h => hk (ha.symm.trans h)
          simp [hk, find, this]
      · rw [List.filter_cons_of_pos (by simp [ha])]
        by_cases hk' : a.1 = k'
        · have : k ≠ k' := fun h => ha (hk'.trans h.symm)
          simp [find, hk', this]
        · simp only [find, hk', ↓reduceIte, ih]

@[simp] theorem get?_erase [LT κ] [DecidableEq κ] (t : Table κ α) (k k' : κ) :
    (t.erase k).get? k' = if k = k' then none else t.get? k' :=
  find_filter_ne k k' t.entries

/-- Two keys are one if neither is below the other. -/
theorem eq_of_not_lt [LT κ] [LE κ] [Std.IsLinearOrder κ] [Std.LawfulOrderLT κ] {a b : κ}
    (h1 : ¬ a < b) (h2 : ¬ b < a) : a = b := by
  rcases Std.lt_trichotomy a b with h | h | h
  · exact absurd h h1
  · exact h
  · exact absurd h h2

section Insertion

variable [LT κ] [DecidableLT κ]

theorem mem_place {k : κ} {v : α} {l : List (κ × α)} {e : κ × α} (h : e ∈ place k v l) :
    e = (k, v) ∨ e ∈ l := by
  induction l with
  | nil => simpa [place] using h
  | cons a rest ih =>
      simp only [place] at h
      split at h
      · simpa using h
      · split at h
        · rcases List.mem_cons.1 h with rfl | h'
          · exact Or.inr (List.mem_cons_self ..)
          · rcases ih h' with rfl | h''
            · exact Or.inl rfl
            · exact Or.inr (List.mem_cons_of_mem _ h'')
        · rcases List.mem_cons.1 h with rfl | h'
          · exact Or.inl rfl
          · exact Or.inr (List.mem_cons_of_mem _ h')

variable [LE κ] [Std.IsLinearOrder κ] [Std.LawfulOrderLT κ]

/-- A key above all others goes to the end. -/
theorem place_last {k : κ} (v : α) {l : List (κ × α)} (h : ∀ e ∈ l, e.1 < k) :
    place k v l = l ++ [(k, v)] := by
  induction l with
  | nil => rfl
  | cons a rest ih =>
      have hlt : a.1 < k := h a List.mem_cons_self
      have hnlt : ¬ k < a.1 := fun hc => Std.lt_irrefl (Std.lt_trans hlt hc)
      rw [place, if_neg hnlt, if_pos hlt, ih fun e he => h e (List.mem_cons_of_mem _ he)]
      rfl

theorem pairwise_place (k : κ) (v : α) {l : List (κ × α)}
    (h : l.Pairwise (fun a b => a.1 < b.1)) :
    (place k v l).Pairwise (fun a b => a.1 < b.1) := by
  induction l with
  | nil => simp [place]
  | cons a rest ih =>
      rcases List.pairwise_cons.1 h with ⟨hall, hrest⟩
      simp only [place]
      split
      · rename_i hlt
        refine List.pairwise_cons.2 ⟨?_, h⟩
        intro e he
        rcases List.mem_cons.1 he with rfl | he'
        · exact hlt
        · exact Std.lt_trans hlt (hall e he')
      · split
        · rename_i hlt
          refine List.pairwise_cons.2 ⟨?_, ih hrest⟩
          intro e he
          rcases mem_place he with rfl | he'
          · exact hlt
          · exact hall e he'
        · rename_i hnlt hngt
          have hk : a.1 = k := eq_of_not_lt hngt hnlt
          exact List.pairwise_cons.2 ⟨fun e he => hk ▸ hall e he, hrest⟩

def insert (t : Table κ α) (k : κ) (v : α) : Table κ α :=
  ⟨place k v t.entries, pairwise_place k v t.ascending⟩

def ofList (l : List (κ × α)) : Table κ α :=
  l.foldl (fun t e => t.insert e.1 e.2) empty

variable [DecidableEq κ]

theorem find_place (k k' : κ) (v : α) (l : List (κ × α)) :
    find k' (place k v l) = if k = k' then some v else find k' l := by
  induction l with
  | nil => simp [place, find]
  | cons a rest ih =>
      simp only [place]
      split
      · simp [find]
      · split
        · rename_i hlt
          have hne : a.1 ≠ k := fun h => absurd (h ▸ hlt) Std.lt_irrefl
          by_cases hk : a.1 = k'
          · have : k ≠ k' := fun h => hne (hk.trans h.symm)
            simp [find, hk, this]
          · simp [find, hk, ih]
        · rename_i hnlt hngt
          have hak : a.1 = k := eq_of_not_lt hngt hnlt
          by_cases hk : k = k'
          · simp [find, hk]
          · have : a.1 ≠ k' := fun h => hk (hak.symm.trans h)
            simp [find, hk, this]

@[simp] theorem get?_insert (t : Table κ α) (k k' : κ) (v : α) :
    (t.insert k v).get? k' = if k = k' then some v else t.get? k' :=
  find_place k k' v t.entries

end Insertion

theorem find_eq_some_iff [LT κ] [LE κ] [Std.IsLinearOrder κ] [Std.LawfulOrderLT κ]
    [DecidableEq κ] {l : List (κ × α)} (h : l.Pairwise (fun a b => a.1 < b.1))
    (k : κ) (v : α) : find k l = some v ↔ (k, v) ∈ l := by
  induction l with
  | nil => simp [find]
  | cons a rest ih =>
      rcases List.pairwise_cons.1 h with ⟨hall, hrest⟩
      by_cases ha : a.1 = k
      · simp only [find, ha, ↓reduceIte, Option.some.injEq, List.mem_cons]
        constructor
        · intro hv
          exact Or.inl (Prod.ext ha.symm hv.symm)
        · rintro (rfl | hmem)
          · rfl
          · exact absurd (ha ▸ hall _ hmem) Std.lt_irrefl
      · simp only [find, ha, ↓reduceIte, List.mem_cons, ih hrest]
        constructor
        · exact Or.inr
        · rintro (rfl | hmem)
          · exact absurd rfl ha
          · exact hmem

theorem mem_entries_iff [LT κ] [LE κ] [Std.IsLinearOrder κ] [Std.LawfulOrderLT κ]
    [DecidableEq κ] (t : Table κ α) (k : κ) (v : α) :
    (k, v) ∈ t.entries ↔ t.get? k = some v :=
  (find_eq_some_iff t.ascending k v).symm

theorem pairwise_keys [LT κ] (t : Table κ α) : t.keys.Pairwise (· < ·) := by
  rw [keys, List.pairwise_map]
  exact t.ascending

theorem nodup_keys [LT κ] [LE κ] [Std.IsLinearOrder κ] [Std.LawfulOrderLT κ] (t : Table κ α) :
    t.keys.Nodup := by
  refine t.pairwise_keys.imp ?_
  intro k k' hlt heq
  exact Std.lt_irrefl (heq ▸ hlt)

theorem mem_keys_iff [LT κ] [LE κ] [Std.IsLinearOrder κ] [Std.LawfulOrderLT κ]
    [DecidableEq κ] (t : Table κ α) (k : κ) : k ∈ t.keys ↔ (t.get? k).isSome = true := by
  rw [keys, List.mem_map, Option.isSome_iff_exists]
  constructor
  · rintro ⟨e, he, rfl⟩
    exact ⟨e.2, (mem_entries_iff t e.1 e.2).1 he⟩
  · rintro ⟨v, hv⟩
    exact ⟨(k, v), (mem_entries_iff t k v).2 hv, rfl⟩

/-- What is found after some pairs have been put in, one after another. -/
theorem isSome_foldl_insert [LT κ] [DecidableLT κ] [LE κ] [Std.IsLinearOrder κ]
    [Std.LawfulOrderLT κ] [DecidableEq κ] (l : List (κ × α)) (t : Table κ α) (k : κ) :
    ((l.foldl (fun t e => t.insert e.1 e.2) t).get? k).isSome = true ↔
      k ∈ l.map (·.1) ∨ (t.get? k).isSome = true := by
  induction l generalizing t with
  | nil => simp
  | cons a rest ih =>
      rw [List.foldl_cons, ih, get?_insert, List.map_cons, List.mem_cons]
      by_cases ha : a.1 = k
      · simp [ha]
      · simp [ha, show k ≠ a.1 from fun h => ha h.symm]

/-- The keys of a table made of pairs are those of the pairs. -/
theorem mem_keys_ofList [LT κ] [DecidableLT κ] [LE κ] [Std.IsLinearOrder κ]
    [Std.LawfulOrderLT κ] [DecidableEq κ] (l : List (κ × α)) (k : κ) :
    k ∈ (ofList l).keys ↔ k ∈ l.map (·.1) := by
  rw [mem_keys_iff, ofList, isSome_foldl_insert]
  simp

/-- A table in which nothing is found is empty. -/
theorem entries_eq_nil [LT κ] [LE κ] [Std.IsLinearOrder κ] [Std.LawfulOrderLT κ]
    [DecidableEq κ] {t : Table κ α} (h : ∀ k, t.get? k = none) : t.entries = [] := by
  rw [List.eq_nil_iff_forall_not_mem]
  intro e he
  have hfound := (mem_entries_iff t e.1 e.2).1 he
  rw [h] at hfound
  simp at hfound

@[simp] theorem get?_mapValues [LT κ] [DecidableEq κ] {β : Type} (f : κ → α → β)
    (t : Table κ α) (k : κ) : (t.mapValues f).get? k = (t.get? k).map (f k) := by
  change find k (t.entries.map _) = (find k t.entries).map (f k)
  induction t.entries with
  | nil => rfl
  | cons a rest ih =>
      by_cases ha : a.1 = k
      · simp [find, ha]
      · simp [find, ha, ih]

@[simp] theorem get?_filter [LT κ] [LE κ] [Std.IsLinearOrder κ] [Std.LawfulOrderLT κ]
    [DecidableEq κ] (p : κ → α → Bool) (t : Table κ α) (k : κ) :
    (t.filter p).get? k = (t.get? k).filter (p k) := by
  apply Option.ext
  intro v
  rw [← mem_entries_iff, Option.filter_eq_some_iff, ← mem_entries_iff]
  simp [filter]

end Table

end RowLedger
