import Mathlib.Data.List.Dedup
import Mathlib.Logic.Function.Basic
import Mathlib.Order.Bounds.Basic

/-! Relations as lists of rows: tables with a primary key, indexes kept beside them, and the operations of a query
language (union, grouping, inner joins, the greatest value of a column), each with the rule for the rows it
yields. -/

namespace Lib

variable {ρ σ κ : Type}

/-- The rows of a table with a primary key. -/
structure Table (key : ρ → κ) where
  rows : List ρ
  nodup : (rows.map key).Nodup

namespace Table

variable {key : ρ → κ}

def empty (key : ρ → κ) : Table key := ⟨[], List.nodup_nil⟩

theorem nodup_map_snoc {α : Type} {f : ρ → α} {rows : List ρ} {row : ρ} (hrows : (rows.map f).Nodup)
    (hnew : f row ∉ rows.map f) : ((rows ++ [row]).map f).Nodup := by
  rw [List.map_append, List.map_singleton, List.nodup_append]
  refine ⟨hrows, List.nodup_singleton _, fun x hx y hy => ?_⟩
  rw [List.mem_singleton.mp hy]
  exact fun heq => hnew (heq ▸ hx)

/-- Append a row under a new key. -/
def insert (t : Table key) (row : ρ) (h : key row ∉ t.rows.map key) : Table key where
  rows := t.rows ++ [row]
  nodup := nodup_map_snoc t.nodup h

def deleteWhere (t : Table key) (p : ρ → Bool) : Table key where
  rows := t.rows.filter fun row => !p row
  nodup := t.nodup.sublist (List.filter_sublist.map key)

/-- Change the rows that satisfy `p`, but not their keys. -/
def updateWhere (t : Table key) (p : ρ → Bool) (f : ρ → ρ) (hf : ∀ row, key (f row) = key row) :
    Table key where
  rows := t.rows.map fun row => if p row then f row else row
  nodup := by
    have hkeys : key ∘ (fun row => if p row then f row else row) = key := by
      funext row
      simp only [Function.comp_apply]
      split
      · exact hf row
      · rfl
    rw [List.map_map, hkeys]
    exact t.nodup

@[simp] theorem mem_insert {t : Table key} {row row' : ρ} {h : key row ∉ t.rows.map key} :
    row' ∈ (t.insert row h).rows ↔ row' ∈ t.rows ∨ row' = row := by
  simp [insert]

/-- What a column holds it still holds after an insertion. -/
theorem mem_map_insert {α : Type} {f : ρ → α} {x : α} {t : Table key} {row : ρ}
    (h : key row ∉ t.rows.map key) (hx : x ∈ t.rows.map f) : x ∈ (t.insert row h).rows.map f := by
  rw [insert, List.map_append]
  exact List.mem_append_left _ hx

@[simp] theorem mem_deleteWhere {t : Table key} {p : ρ → Bool} {row : ρ} :
    row ∈ (t.deleteWhere p).rows ↔ row ∈ t.rows ∧ p row = false := by
  simp [deleteWhere]

theorem mem_updateWhere {t : Table key} {p : ρ → Bool} {f : ρ → ρ} {hf : ∀ row, key (f row) = key row}
    {row : ρ} (h : row ∈ (t.updateWhere p f hf).rows) :
    row ∈ t.rows ∨ ∃ old ∈ t.rows, p old = true ∧ row = f old := by
  obtain ⟨old, hold, rfl⟩ := List.mem_map.mp h
  by_cases hp : p old = true
  · rw [if_pos hp]
    exact Or.inr ⟨old, hold, hp, rfl⟩
  · rw [if_neg hp]
    exact Or.inl hold

/-- A row the update does not apply to. -/
theorem mem_updateWhere_of_not {t : Table key} {p : ρ → Bool} {f : ρ → ρ} {hf : ∀ row, key (f row) = key row}
    {row : ρ} (h : row ∈ t.rows) (hp : p row = false) : row ∈ (t.updateWhere p f hf).rows := by
  refine List.mem_map.mpr ⟨row, h, ?_⟩
  rw [hp]
  rfl

theorem insert_ne {t : Table key} {row : ρ} (h : key row ∉ t.rows.map key) : t.insert row h ≠ t := by
  intro heq
  have hlength := congrArg (fun t : Table key => t.rows.length) heq
  simp [insert] at hlength

theorem key_mem_insert {t : Table key} {row : ρ} (h : key row ∉ t.rows.map key) :
    key row ∈ (t.insert row h).rows.map key :=
  List.mem_map.mpr ⟨row, mem_insert.mpr (Or.inr rfl), rfl⟩

theorem forall_mem_insert {Q : ρ → Prop} {t : Table key} {row : ρ} (h : key row ∉ t.rows.map key)
    (hold : ∀ old ∈ t.rows, Q old) (hnew : Q row) : ∀ row' ∈ (t.insert row h).rows, Q row' := by
  intro row' hrow
  rcases mem_insert.mp hrow with hin | rfl
  · exact hold row' hin
  · exact hnew

theorem forall_mem_updateWhere {Q : ρ → Prop} {t : Table key} {p : ρ → Bool} {f : ρ → ρ}
    {hf : ∀ row, key (f row) = key row} (hold : ∀ old ∈ t.rows, Q old) (hQ : ∀ row, Q row → Q (f row)) :
    ∀ row ∈ (t.updateWhere p f hf).rows, Q row := by
  intro row hrow
  rcases mem_updateWhere hrow with hin | ⟨old, hin, -, rfl⟩
  · exact hold row hin
  · exact hQ old (hold old hin)

/-- A column that an update leaves alone. -/
theorem map_updateWhere {α : Type} {g : ρ → α} {t : Table key} {p : ρ → Bool} {f : ρ → ρ}
    {hf : ∀ row, key (f row) = key row} (hg : ∀ row, g (f row) = g row) :
    (t.updateWhere p f hf).rows.map g = t.rows.map g := by
  rw [updateWhere, List.map_map]
  apply List.map_congr_left
  intro row _
  simp only [Function.comp_apply]
  split
  · exact hg row
  · rfl

/-- A column keeps its values distinct when the one row that may change it is the only one to hold the new
value. -/
theorem nodup_map_updateWhere [DecidableEq κ] {α : Type} {g : ρ → α} {t : Table key} {k : κ} {f : ρ → ρ}
    {hf : ∀ row, key (f row) = key row} {x : α} (ht : (t.rows.map g).Nodup) (hg : ∀ row, key row = k → g (f row) = x)
    (hx : ∀ row ∈ t.rows, g row = x → key row = k) :
    ((t.updateWhere (fun row => key row = k) f hf).rows.map g).Nodup := by
  rw [updateWhere, List.map_map]
  refine List.Nodup.map_on ?_ (List.Nodup.of_map g ht)
  intro row hrow other hother heq
  simp only [Function.comp_apply, decide_eq_true_eq] at heq
  by_cases hkey : key row = k <;> by_cases hkey' : key other = k
  · exact List.inj_on_of_nodup_map t.nodup hrow hother (hkey.trans hkey'.symm)
  · rw [if_pos hkey, if_neg hkey', hg row hkey] at heq
    exact absurd (hx other hother heq.symm) hkey'
  · rw [if_neg hkey, if_pos hkey', hg other hkey'] at heq
    exact absurd (hx row hrow heq) hkey
  · rw [if_neg hkey, if_neg hkey'] at heq
    exact List.inj_on_of_nodup_map ht hrow hother heq

/-- A deletion that cascades keeps the references that are left. -/
theorem refers_deleteWhere {τ μ : Type} {keyOf : τ → μ} {s : Table keyOf} [DecidableEq κ] {t : Table key}
    {ref : τ → κ} {k : κ} (h : ∀ row ∈ s.rows, ref row ∈ t.rows.map key) :
    ∀ row ∈ (s.deleteWhere fun row => ref row = k).rows,
      ref row ∈ (t.deleteWhere fun row => key row = k).rows.map key := by
  intro row hrow
  obtain ⟨hold, hne⟩ := mem_deleteWhere.mp hrow
  obtain ⟨target, htarget, heq⟩ := List.mem_map.mp (h row hold)
  refine List.mem_map.mpr ⟨target, mem_deleteWhere.mpr ⟨htarget, ?_⟩, heq⟩
  rw [heq]
  exact hne

theorem deleteWhere_none {t : Table key} {p : ρ → Bool} (h : ∀ row ∈ t.rows, p row = false) :
    t.deleteWhere p = t := by
  obtain ⟨rows, hrows⟩ := t
  have hfilter : rows.filter (fun row => !p row) = rows := by
    rw [List.filter_eq_self]
    intro row hrow
    rw [h row hrow]
    rfl
  simp only [deleteWhere, hfilter]

theorem updateWhere_none {t : Table key} {p : ρ → Bool} {f : ρ → ρ} {hf : ∀ row, key (f row) = key row}
    (h : ∀ row ∈ t.rows, p row = false) : t.updateWhere p f hf = t := by
  obtain ⟨rows, hrows⟩ := t
  have hmap : (rows.map fun row => if p row then f row else row) = rows := by
    rw [List.map_congr_left fun row hrow => if_neg (Bool.eq_false_iff.mp (h row hrow)), List.map_id']
  simp only [updateWhere, hmap]

/-- Deleting the row just inserted is as if it never was. -/
theorem deleteWhere_insert [DecidableEq κ] {t : Table key} {row : ρ} (h : key row ∉ t.rows.map key) :
    (t.insert row h).deleteWhere (fun other => key other = key row) = t := by
  obtain ⟨rows, hrows⟩ := t
  have hfilter : (rows ++ [row]).filter (fun other => !decide (key other = key row)) = rows := by
    rw [List.filter_append, List.filter_eq_self.mpr, List.filter_singleton]
    · simp
    · intro other hother
      have hne : key other ≠ key row := fun heq => h (List.mem_map.mpr ⟨other, hother, heq⟩)
      simpa using hne
  simp only [deleteWhere, insert, hfilter]

/-- A row is what is found under its key. -/
theorem find_key [DecidableEq κ] (t : Table key) {row : ρ} (h : row ∈ t.rows) :
    (t.rows.find? fun other => key other = key row) = some row := by
  cases hfind : t.rows.find? fun other => key other = key row with
  | none =>
      rw [List.find?_eq_none] at hfind
      exact absurd (by simp) (hfind row h)
  | some found =>
      have hkey : key found = key row := by simpa using List.find?_some hfind
      rw [List.inj_on_of_nodup_map t.nodup (List.mem_of_find?_eq_some hfind) h hkey]

/-- The row just inserted is what is found under its key. -/
theorem find_insert [DecidableEq κ] {t : Table key} {row : ρ} (h : key row ∉ t.rows.map key) :
    ((t.insert row h).rows.find? fun other => key other = key row) = some row :=
  find_key _ (mem_insert.mpr (Or.inr rfl))

/-- A row is still found after its update. -/
theorem isSome_find_updateWhere [DecidableEq κ] {t : Table key} {p : ρ → Bool} {f : ρ → ρ} {k : κ}
    (hf : ∀ row, key (f row) = key row) (h : ∃ row ∈ t.rows, key row = k) :
    ((t.updateWhere p f hf).rows.find? fun row => key row = k).isSome := by
  have hmem : k ∈ (t.updateWhere p f hf).rows.map key := by
    rw [map_updateWhere hf]
    exact List.mem_map.mpr h
  obtain ⟨row, hrow, hkey⟩ := List.mem_map.mp hmem
  exact List.find?_isSome.mpr ⟨row, hrow, decide_eq_true hkey⟩

end Table

/-- The rows under one key, when keys do not repeat. -/
theorem filter_key_eq [DecidableEq κ] {key : ρ → κ} {rows : List ρ} (h : (rows.map key).Nodup) (k : κ) :
    rows.filter (fun row => key row = k) = (rows.find? fun row => key row = k).toList := by
  induction rows with
  | nil => rfl
  | cons row rows ih =>
      rw [List.map_cons, List.nodup_cons] at h
      by_cases hkey : key row = k
      · have hrest : rows.filter (fun row => key row = k) = [] := by
          rw [List.filter_eq_nil_iff]
          intro other hother heq
          have hother' : key other = k := by simpa using heq
          exact h.1 (List.mem_map.mpr ⟨other, hother, hother'.trans hkey.symm⟩)
        rw [List.filter_cons_of_pos (by simpa using hkey), List.find?_cons_of_pos (by simpa using hkey), hrest]
        rfl
      · rw [List.filter_cons_of_neg (by simpa using hkey), List.find?_cons_of_neg (by simpa using hkey)]
        exact ih h.2

section Index

variable {β : Type} [DecidableEq κ]

/-- A map that holds, under the keys of some rows and no others, what the rows are worth. -/
structure Indexes (key : ρ → κ) (value : ρ → Option β) (rows : List ρ) (index : κ → Option β) : Prop where
  held : ∀ row ∈ rows, ∃ b, value row = some b ∧ index (key row) = some b
  others : ∀ k, k ∉ rows.map key → index k = none

/-- Put what a row is worth under its key. -/
def enter (key : ρ → κ) (value : ρ → Option β) (index : κ → Option β) (row : ρ) : κ → Option β :=
  match value row with
  | some b => Function.update index (key row) (some b)
  | none => index

namespace Indexes

variable {key : ρ → κ} {value : ρ → Option β} {index : κ → Option β} {t : Table key}
  {rows : List ρ}

omit [DecidableEq κ] in
theorem empty : Indexes key value [] fun _ => none where
  held := fun _ h => absurd h List.not_mem_nil
  others := fun _ _ => rfl

theorem insert (h : Indexes key value t.rows index) {row : ρ} {b : β} (hvalue : value row = some b)
    (hnew : key row ∉ t.rows.map key) :
    Indexes key value (t.insert row hnew).rows (Function.update index (key row) (some b)) where
  held := by
    refine Table.forall_mem_insert hnew (Q := fun row' => ∃ c, value row' = some c ∧
      Function.update index (key row) (some b) (key row') = some c) ?_ ?_
    · intro old hold
      have hne : key old ≠ key row := fun heq => hnew (heq ▸ List.mem_map_of_mem hold)
      rw [Function.update_of_ne hne]
      exact h.held old hold
    · rw [Function.update_self]
      exact ⟨b, hvalue, rfl⟩
  others := by
    intro k hk
    have hne : k ≠ key row := fun heq => hk (heq ▸ Table.key_mem_insert hnew)
    rw [Function.update_of_ne hne]
    exact h.others k fun hold => hk (Table.mem_map_insert hnew hold)

theorem deleteWhere (h : Indexes key value t.rows index) (k : κ) :
    Indexes key value (t.deleteWhere fun row => key row = k).rows (Function.update index k none) where
  held := by
    intro row hrow
    obtain ⟨hold, hne⟩ := Table.mem_deleteWhere.mp hrow
    rw [Function.update_of_ne (of_decide_eq_false hne)]
    exact h.held row hold
  others := by
    intro other hother
    by_cases hk : other = k
    · rw [hk, Function.update_self]
    · rw [Function.update_of_ne hk]
      apply h.others
      intro hmem
      obtain ⟨row, hrow, rfl⟩ := List.mem_map.mp hmem
      exact hother (List.mem_map_of_mem (Table.mem_deleteWhere.mpr ⟨hrow, decide_eq_false hk⟩))

omit [DecidableEq κ] in
/-- An update that leaves the worth of a row as it is. -/
theorem updateWhere (h : Indexes key value t.rows index) {p : ρ → Bool} {f : ρ → ρ}
    {hf : ∀ row, key (f row) = key row} (hvalue : ∀ row, value (f row) = value row) :
    Indexes key value (t.updateWhere p f hf).rows index where
  held := by
    apply Table.forall_mem_updateWhere h.held
    intro row hrow
    rw [hvalue, hf]
    exact hrow
  others := by
    rw [Table.map_updateWhere hf]
    exact h.others

/-- What an index answers is what the row under the key is worth. -/
theorem find (h : Indexes key value rows index) (k : κ) :
    index k = (rows.find? fun row => key row = k).bind value := by
  cases hfind : rows.find? fun row => key row = k with
  | none =>
      apply h.others
      intro hmem
      obtain ⟨row, hrow, hkey⟩ := List.mem_map.mp hmem
      rw [List.find?_eq_none] at hfind
      exact hfind row hrow (decide_eq_true hkey)
  | some row =>
      have hkey : key row = k := by simpa using List.find?_some hfind
      obtain ⟨b, hvalue, hindex⟩ := h.held row (List.mem_of_find?_eq_some hfind)
      rw [← hkey, hindex, Option.bind_some, hvalue]

omit [DecidableEq κ] in
theorem isSome_iff (h : Indexes key value rows index) (k : κ) : (index k).isSome ↔ k ∈ rows.map key := by
  constructor
  · intro hsome
    by_contra hk
    rw [h.others k hk] at hsome
    cases hsome
  · intro hk
    obtain ⟨row, hrow, rfl⟩ := List.mem_map.mp hk
    obtain ⟨b, -, hindex⟩ := h.held row hrow
    rw [hindex]
    rfl

/-- Entering the rows one after another restores the index, over whatever was there under their keys. -/
theorem enter_all {start : κ → Option β}
    (hrows : ∀ row ∈ rows, ∃ b, value row = some b ∧ index (key row) = some b)
    (hstart : ∀ k, k ∉ rows.map key → start k = index k) : rows.foldl (enter key value) start = index := by
  induction rows generalizing start with
  | nil => exact funext fun k => hstart k List.not_mem_nil
  | cons row rows ih =>
      rw [List.foldl_cons]
      obtain ⟨b, hvalue, hindex⟩ := hrows row List.mem_cons_self
      apply ih (fun other hother => hrows other (List.mem_cons_of_mem row hother))
      intro k hk
      have henter : enter key value start row = Function.update start (key row) (some b) := by
        rw [enter, hvalue]
      rw [henter]
      by_cases heq : k = key row
      · rw [heq, hindex, Function.update_self]
      · rw [Function.update_of_ne heq]
        apply hstart
        rw [List.map_cons, List.mem_cons]
        exact fun hor => hor.elim heq hk

/-- An index can be rebuilt from its rows. -/
theorem rebuild (h : Indexes key value rows index) :
    rows.foldl (enter key value) (fun _ => none) = index :=
  enter_all h.held fun k hk => (h.others k hk).symm

end Indexes

end Index

/-! ### Queries -/

/-- The rows of either query, each once. -/
def union [DecidableEq ρ] (left right : List ρ) : List ρ := (left ++ right).dedup

@[simp] theorem mem_union [DecidableEq ρ] {left right : List ρ} {row : ρ} :
    row ∈ union left right ↔ row ∈ left ∨ row ∈ right := by
  simp [union]

/-- The greatest value of a column; there is none over no rows. -/
def greatest (values : List Nat) : Option Nat := values.max?

theorem greatest_eq_some {values : List Nat} {n : Nat} :
    greatest values = some n ↔ IsGreatest {m | m ∈ values} n := by
  rw [greatest, List.max?_eq_some_iff]
  rfl

theorem greatest_eq_none {values : List Nat} : greatest values = none ↔ values = [] :=
  List.max?_eq_none_iff

/-- The greatest value depends only on which values there are. -/
theorem greatest_congr {left right : List Nat} (h : ∀ n, n ∈ left ↔ n ∈ right) :
    greatest left = greatest right := by
  have hset : {m | m ∈ left} = {m | m ∈ right} := Set.ext h
  apply Option.ext
  intro n
  rw [greatest_eq_some, greatest_eq_some, hset]

/-- The groups of rows that agree on a key. -/
def groupBy [DecidableEq κ] (key : ρ → κ) (rows : List ρ) : List (κ × List ρ) :=
  (rows.map key).dedup.map fun k => (k, rows.filter fun row => key row = k)

theorem groupBy_keys [DecidableEq κ] (key : ρ → κ) (rows : List ρ) :
    (groupBy key rows).map Prod.fst = (rows.map key).dedup := by
  rw [groupBy, List.map_map]
  exact List.map_id _

/-- The group of one key is the rows under it, if there are any. -/
theorem find_groupBy [DecidableEq κ] (key : ρ → κ) (rows : List ρ) (k : κ) :
    ((groupBy key rows).find? fun group => group.1 = k) =
      if rows.filter (fun row => key row = k) = [] then none
      else some (k, rows.filter fun row => key row = k) := by
  by_cases hempty : rows.filter (fun row => key row = k) = []
  · rw [if_pos hempty, List.find?_eq_none]
    intro group hgroup hk
    obtain ⟨k', hk', rfl⟩ := List.mem_map.mp hgroup
    obtain ⟨row, hrow, hkey⟩ := List.mem_map.mp (List.mem_dedup.mp hk')
    have heq : k' = k := by simpa using hk
    rw [List.filter_eq_nil_iff] at hempty
    exact hempty row hrow (by simpa using hkey.trans heq)
  · rw [if_neg hempty]
    obtain ⟨row, hrow⟩ := List.exists_mem_of_ne_nil _ hempty
    obtain ⟨hmem, hkey⟩ := List.mem_filter.mp hrow
    have hkey' : key row = k := by simpa using hkey
    have hgroup : (k, rows.filter fun row => key row = k) ∈ groupBy key rows :=
      List.mem_map.mpr ⟨k, List.mem_dedup.mpr (List.mem_map.mpr ⟨row, hmem, hkey'⟩), rfl⟩
    cases hfind : (groupBy key rows).find? fun group => group.1 = k with
    | none =>
        rw [List.find?_eq_none] at hfind
        exact absurd (by simp) (hfind _ hgroup)
    | some found =>
        have hfound := List.find?_some hfind
        obtain ⟨k', hk', rfl⟩ := List.mem_map.mp (List.mem_of_find?_eq_some hfind)
        have heq : k' = k := by simpa using hfound
        subst heq
        rfl

/-- The pairs of rows that match. -/
def innerJoin (on : ρ → σ → Bool) (left : List ρ) (right : List σ) : List (ρ × σ) :=
  left.flatMap fun row => (right.filter (on row)).map fun other => (row, other)

theorem filter_innerJoin (on : ρ → σ → Bool) (p : ρ → Bool) (left : List ρ) (right : List σ) :
    (innerJoin on left right).filter (fun pair => p pair.1) = innerJoin on (left.filter p) right := by
  induction left with
  | nil => rfl
  | cons row left ih =>
      have hcons : innerJoin on (row :: left) right =
          (right.filter (on row)).map (fun other => (row, other)) ++ innerJoin on left right := rfl
      rw [hcons, List.filter_append, ih, List.filter_map]
      by_cases hp : p row = true
      · have hall : (right.filter (on row)).filter ((fun pair : ρ × σ => p pair.1) ∘ fun other => (row, other)) =
            right.filter (on row) := List.filter_eq_self.mpr fun other _ => hp
        rw [hall, List.filter_cons_of_pos hp]
        rfl
      · have hnone : (right.filter (on row)).filter ((fun pair : ρ × σ => p pair.1) ∘ fun other => (row, other)) =
            [] := List.filter_eq_nil_iff.mpr fun other _ => hp
        rw [hnone, List.filter_cons_of_neg hp]
        rfl

end Lib
