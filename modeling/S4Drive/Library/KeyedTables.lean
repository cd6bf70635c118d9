import Mathlib.Data.List.Nodup

/-
  Tables whose rows have distinct keys, and what the
  statements of a database do to them: updates of the rows
  that a condition selects, inserts that replace or ignore
  a row that is there, and deletes.

  Main declarations:
    * `Table`, `Table.find`
    * `Table.updateWhere`, `Table.insertOrReplace`,
      `Table.insertOrIgnore`
    * `Table.updateWhere_updateWhere`
-/

namespace KeyedTables

------------------------------------------------------------
-- Tables
------------------------------------------------------------

@[ext] structure Table (ρ : Type) {κ : Type} (key : ρ → κ) where
  rows : List ρ
  distinct : (rows.map key).Nodup

namespace Table

variable {ρ κ : Type} {key : ρ → κ}

def empty : Table ρ key where
  rows := []
  distinct := List.nodup_nil

instance : Inhabited (Table ρ key) :=
  ⟨empty⟩

instance [DecidableEq ρ] : DecidableEq (Table ρ key) :=
  fun t u => decidable_of_iff (t.rows = u.rows)
    ⟨Table.ext, congrArg rows⟩

theorem eq_of_key
    (t : Table ρ key)
    {row other : ρ}
    (hRow : row ∈ t.rows)
    (hOther : other ∈ t.rows)
    (hKey : key row = key other) : row = other :=
  List.inj_on_of_nodup_map t.distinct hRow hOther hKey

section Find

variable [DecidableEq κ]

/- The row with a key. -/
def find (t : Table ρ key) (k : κ) : Option ρ :=
  t.rows.find? fun row => key row = k

theorem find_eq_some
    {t : Table ρ key}
    {k : κ}
    {row : ρ} :
    t.find k = some row ↔ row ∈ t.rows ∧ key row = k := by
  constructor
  · intro hFind
    exact ⟨List.mem_of_find?_eq_some hFind,
      by simpa using List.find?_some hFind⟩
  · rintro ⟨hMem, rfl⟩
    cases hFind : t.find (key row) with
    | none =>
        have hNone := List.find?_eq_none.mp hFind row hMem
        simp at hNone
    | some found =>
        have hFound : found ∈ t.rows :=
          List.mem_of_find?_eq_some hFind
        have hKey : key found = key row := by
          simpa using List.find?_some hFind
        rw [t.eq_of_key hFound hMem hKey]

theorem find_key
    {t : Table ρ key}
    {k : κ}
    {row : ρ}
    (hFind : t.find k = some row) : key row = k :=
  (find_eq_some.mp hFind).2

end Find

------------------------------------------------------------
-- Updates
------------------------------------------------------------

/- `UPDATE … SET f WHERE p`, of columns that are no key. -/
def updateWhere
    (t : Table ρ key)
    (p : ρ → Bool)
    (f : ρ → ρ)
    (hKey : ∀ row, key (f row) = key row) : Table ρ key where
  rows := t.rows.map fun row => if p row then f row else row
  distinct := by
    have hKeys :
        (t.rows.map fun row => if p row then f row else row).map
          key = t.rows.map key := by
      rw [List.map_map]
      apply List.map_congr_left
      intro row _
      by_cases hRow : p row
      · simp [hRow, hKey]
      · simp [hRow]
    rw [hKeys]
    exact t.distinct

section Update

variable {t : Table ρ key} {p q : ρ → Bool} {f g : ρ → ρ}
  {hf : ∀ row, key (f row) = key row}

@[simp] theorem rows_updateWhere :
    (t.updateWhere p f hf).rows =
      t.rows.map fun row => if p row then f row else row := rfl

theorem mem_updateWhere
    {row : ρ} :
    row ∈ (t.updateWhere p f hf).rows ↔
      ∃ old ∈ t.rows, (if p old then f old else old) = row := by
  simp

theorem find_updateWhere
    [DecidableEq κ]
    (k : κ) :
    (t.updateWhere p f hf).find k =
      (t.find k).map fun row => if p row then f row else row := by
  rw [find, rows_updateWhere, List.find?_map]
  congr 1
  apply congrArg (fun c => t.rows.find? c)
  funext row
  by_cases hRow : p row
  · simp [hRow, hf]
  · simp [hRow]

/- A row that is not selected is found as it was. -/
theorem find_updateWhere_other
    [DecidableEq κ]
    (hf : ∀ row, key (f row) = key row)
    {k : κ}
    (hOther : ∀ row, key row = k → p row = false) :
    (t.updateWhere p f hf).find k = t.find k := by
  rw [find_updateWhere]
  cases hFind : t.find k with
  | none => rfl
  | some row => simp [hOther row (find_key hFind)]

theorem updateWhere_congr
    (hf : ∀ row, key (f row) = key row)
    (hg : ∀ row, key (g row) = key row)
    (hp : ∀ row ∈ t.rows, p row = q row)
    (hSame : ∀ row ∈ t.rows, p row → f row = g row) :
    t.updateWhere p f hf = t.updateWhere q g hg := by
  apply Table.ext
  apply List.map_congr_left
  intro row hRow
  by_cases hSel : p row
  · simp [← hp row hRow, hSel, hSame row hRow hSel]
  · simp [← hp row hRow, hSel]

/- An update of exactly the rows that one before has set. -/
theorem updateWhere_updateWhere
    (hf : ∀ row, key (f row) = key row)
    (hg : ∀ row, key (g row) = key row)
    (hIn : ∀ row ∈ t.rows, p row → q (f row))
    (hOut : ∀ row ∈ t.rows, p row = false → q row = false) :
    (t.updateWhere p f hf).updateWhere q g hg =
      t.updateWhere p (g ∘ f)
        (fun row => (hg (f row)).trans (hf row)) := by
  apply Table.ext
  rw [rows_updateWhere, rows_updateWhere, rows_updateWhere,
    List.map_map]
  apply List.map_congr_left
  intro row hRow
  by_cases hSel : p row
  · simp [hSel, hIn row hRow hSel]
  · simp [hSel, hOut row hRow (by simpa using hSel)]

end Update

theorem nodup_append_row
    {rows : List ρ}
    {row : ρ}
    (hRows : (rows.map key).Nodup)
    (hNew : ∀ other ∈ rows, key other ≠ key row) :
    ((rows ++ [row]).map key).Nodup := by
  rw [List.map_append, List.map_singleton]
  refine hRows.append (List.nodup_singleton _) ?_
  intro k hMem hRow
  obtain ⟨other, hOther, rfl⟩ := List.mem_map.mp hMem
  exact hNew other hOther (List.mem_singleton.mp hRow)

variable [DecidableEq κ]

/- `INSERT OR REPLACE` -/
def insertOrReplace
    (t : Table ρ key)
    (row : ρ) : Table ρ key where
  rows := (t.rows.filter fun old => key old ≠ key row) ++ [row]
  distinct := by
    refine nodup_append_row ?_ ?_
    · exact t.distinct.sublist
        (List.Sublist.map key List.filter_sublist)
    · intro other hOther
      simpa using (List.mem_filter.mp hOther).2

/- `INSERT … ON CONFLICT DO NOTHING` -/
def insertOrIgnore
    (t : Table ρ key)
    (row : ρ) : Table ρ key :=
  if hOld : ∃ old ∈ t.rows, key old = key row then
    t
  else
    { rows := t.rows ++ [row]
      distinct := nodup_append_row t.distinct
        fun other hOther hKey => hOld ⟨other, hOther, hKey⟩ }

theorem mem_insertOrIgnore_of_mem
    {t : Table ρ key}
    {row old : ρ}
    (hOld : old ∈ t.rows) : old ∈ (t.insertOrIgnore row).rows := by
  unfold insertOrIgnore
  split
  · exact hOld
  · exact List.mem_append_left _ hOld

theorem find_insertOrReplace
    (t : Table ρ key)
    (row : ρ)
    (k : κ) :
    (t.insertOrReplace row).find k =
      if key row = k then some row else t.find k := by
  by_cases hKey : key row = k
  · rw [if_pos hKey]
    exact find_eq_some.mpr ⟨by simp [insertOrReplace], hKey⟩
  · rw [if_neg hKey]
    apply Option.ext
    intro found
    have hNot : found = row → key found ≠ k := by
      rintro rfl
      exact hKey
    simp only [find_eq_some, insertOrReplace, List.mem_append,
      List.mem_filter, List.mem_singleton, decide_eq_true_eq]
    constructor
    · rintro ⟨⟨hMem, _⟩ | hRow, hFound⟩
      · exact ⟨hMem, hFound⟩
      · exact absurd hFound (hNot hRow)
    · rintro ⟨hMem, hFound⟩
      refine ⟨Or.inl ⟨hMem, fun hSame => hKey ?_⟩, hFound⟩
      rw [← hSame, hFound]

end Table

end KeyedTables
