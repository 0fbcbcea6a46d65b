import Mathlib.Data.List.Sort
import Mathlib.Data.List.Pairwise

/-!
# Ordered maps

Rust's `BTreeMap` as the list of its entries in strictly ascending key order.  The order is
a field of the structure, so every map the model builds is sorted and its keys are
distinct.  Only what the modelled code uses is here: `new`, `get`, `insert`, which replaces
the value of a key already present, and iteration in key order (`iter`, `values`,
`into_iter`), which reads the entries as they are stored.

A map is determined by what `get` returns (`BTreeMap.ext`): however a map was built, only
its final contents matter, never the order of the insertions.
-/

/-- A `BTreeMap`: its entries in strictly ascending key order. -/
structure BTreeMap (K V : Type) [LinearOrder K] where
  entries : List (K × V)
  sorted : entries.Pairwise fun a b => a.1 < b.1

namespace BTreeMap

variable {K V : Type} [LinearOrder K]

/-! ### Entry lists -/

/-- The value of the first entry of key `k`. -/
def lookupEntry (k : K) : List (K × V) → Option V
  | [] => none
  | e :: rest => if e.1 = k then some e.2 else lookupEntry k rest

/-- The entries with `(k, v)` in its place in key order, replacing the entry of key `k`. -/
def insertEntry (k : K) (v : V) : List (K × V) → List (K × V)
  | [] => [(k, v)]
  | e :: rest =>
    if e.1 < k then e :: insertEntry k v rest
    else if e.1 = k then (k, v) :: rest
    else (k, v) :: e :: rest

@[simp]
theorem lookupEntry_insertEntry_self (k : K) (v : V) (l : List (K × V)) :
  lookupEntry k (insertEntry k v l) = some v
  := by
  induction l with
  | nil => simp [insertEntry, lookupEntry]
  | cons e rest ih =>
    unfold insertEntry
    split_ifs with hlt
    · simp [lookupEntry, hlt.ne, ih]
    · simp [lookupEntry]
    · simp [lookupEntry]

theorem lookupEntry_insertEntry_of_ne {k k' : K} (v : V) (l : List (K × V)) (h : k ≠ k') :
  lookupEntry k' (insertEntry k v l) = lookupEntry k' l
  := by
  induction l with
  | nil => simp [insertEntry, lookupEntry, h]
  | cons e rest ih =>
    unfold insertEntry
    split_ifs with hlt heq
    · simp only [lookupEntry, ih]
    · simp [lookupEntry, h, heq]
    · simp [lookupEntry, h]

theorem mem_insertEntry {k : K} {v : V} {l : List (K × V)} {x : K × V}
    (hx : x ∈ insertEntry k v l) :
  x.1 = k ∨ x ∈ l
  := by
  induction l with
  | nil => simp_all [insertEntry]
  | cons e rest ih =>
    simp only [insertEntry] at hx
    split_ifs at hx <;> simp only [List.mem_cons] at hx ⊢ <;> aesop

theorem sorted_insertEntry (k : K) (v : V) {l : List (K × V)}
    (h : l.Pairwise fun a b => a.1 < b.1) :
  (insertEntry k v l).Pairwise fun a b => a.1 < b.1
  := by
  induction l with
  | nil => exact List.pairwise_singleton _ _
  | cons e rest ih =>
    obtain ⟨he, hr⟩ := List.pairwise_cons.mp h
    simp only [insertEntry]
    split_ifs with hlt heq
    · refine List.Pairwise.cons (fun x hx => ?_) (ih hr)
      rcases mem_insertEntry hx with hx | hx
      · exact hx ▸ hlt
      · exact he x hx
    · exact List.Pairwise.cons (fun x hx => heq ▸ he x hx) hr
    · have hgt : k < e.1 := lt_of_le_of_ne (not_lt.mp hlt) (Ne.symm heq)
      exact List.Pairwise.cons (fun x hx => (List.mem_cons.mp hx).elim (fun h => h ▸ hgt)
        fun hx => hgt.trans (he x hx)) h

theorem lookupEntry_append (k : K) (l₁ l₂ : List (K × V)) :
  lookupEntry k (l₁ ++ l₂) = (lookupEntry k l₁).or (lookupEntry k l₂)
  := by
  induction l₁ with
  | nil => rfl
  | cons e rest ih =>
    by_cases he : e.1 = k <;> simp [lookupEntry, he, ih]

theorem mem_of_lookupEntry_eq_some {k : K} {v : V} {l : List (K × V)}
    (h : lookupEntry k l = some v) :
  (k, v) ∈ l
  := by
  induction l with
  | nil => cases h
  | cons e rest ih =>
    by_cases he : e.1 = k
    · simp only [lookupEntry, he, if_true, Option.some.injEq] at h
      exact h ▸ he ▸ List.mem_cons_self e rest
    · simp only [lookupEntry, he, if_false] at h
      exact List.mem_cons_of_mem e (ih h)

/-- In a list whose entries of key `k` all hold `v`, the key `k` looks up `v`. -/
theorem lookupEntry_eq_some_of_mem {k : K} {v : V} {l : List (K × V)}
    (hf : ∀ v', (k, v') ∈ l → v' = v) (h : (k, v) ∈ l) :
  lookupEntry k l = some v
  := by
  induction l with
  | nil => cases h
  | cons e rest ih =>
    by_cases he : e.1 = k
    · simp only [lookupEntry, he, if_true, hf e.2 (by rw [← he]; exact List.mem_cons_self e rest)]
    · have hr : (k, v) ∈ rest := (List.mem_cons.mp h).resolve_left fun h => he (h ▸ rfl)
      simp only [lookupEntry, he, if_false]
      exact ih (fun v' hv' => hf v' (List.mem_cons_of_mem e hv')) hr

/-! ### Maps -/

/-- `BTreeMap::new`: the empty map. -/
def new : BTreeMap K V :=
  ⟨[], .nil⟩

/-- `BTreeMap::get`: the value of a key. -/
def get (m : BTreeMap K V) (k : K) : Option V :=
  lookupEntry k m.entries

/-- `BTreeMap::insert`: the map with `v` at `k`, replacing any value of `k`. -/
def insert (m : BTreeMap K V) (k : K) (v : V) : BTreeMap K V :=
  ⟨insertEntry k v m.entries, sorted_insertEntry k v m.sorted⟩

/-- `BTreeMap::keys`, in ascending order. -/
def keys (m : BTreeMap K V) : List K :=
  m.entries.map Prod.fst

/-- `BTreeMap::values`, in the order of their keys. -/
def values (m : BTreeMap K V) : List V :=
  m.entries.map Prod.snd

@[simp]
theorem get_new (k : K) :
  (new : BTreeMap K V).get k = none
  := rfl

@[simp]
theorem get_insert (m : BTreeMap K V) (k k' : K) (v : V) :
  (m.insert k v).get k' = if k = k' then some v else m.get k'
  := by
  by_cases h : k = k'
  · subst h
    simp [get, insert]
  · simp [get, insert, h, lookupEntry_insertEntry_of_ne]

theorem get_eq_some {m : BTreeMap K V} {k : K} {v : V} :
  m.get k = some v ↔ (k, v) ∈ m.entries
  := by
  refine ⟨mem_of_lookupEntry_eq_some, fun h => lookupEntry_eq_some_of_mem (fun v' hv' => ?_) h⟩
  by_contra hne
  exact (m.sorted.imp ne_of_lt).forall (fun _ _ h => h.symm) hv' h (by simpa using hne) rfl

/-- Inserting a list of entries: each key holds its last value in the list, or else its
value before. -/
theorem get_foldl_insert (l : List (K × V)) (m : BTreeMap K V) (k : K) :
  (l.foldl (fun m e => m.insert e.1 e.2) m).get k = (lookupEntry k l.reverse).or (m.get k)
  := by
  induction l generalizing m with
  | nil => rfl
  | cons e rest ih =>
    by_cases he : e.1 = k <;>
      simp [ih, lookupEntry_append, lookupEntry, he, Option.or_assoc]

theorem keys_sorted (m : BTreeMap K V) :
  m.keys.Sorted (· < ·)
  := List.pairwise_map.mpr m.sorted

theorem nodup_entries (m : BTreeMap K V) :
  m.entries.Nodup
  := m.sorted.imp fun h e => by subst e; exact lt_irrefl _ h

theorem mem_values {m : BTreeMap K V} {v : V} :
  v ∈ m.values ↔ ∃ k, m.get k = some v
  := by
  simp [values, get_eq_some]

/-- A map is determined by what `get` returns. -/
theorem ext {m₁ m₂ : BTreeMap K V} (h : ∀ k, m₁.get k = m₂.get k) :
  m₁ = m₂
  := by
  have hmem : ∀ x : K × V, x ∈ m₁.entries ↔ x ∈ m₂.entries := fun ⟨k, v⟩ => by
    rw [← get_eq_some, ← get_eq_some, h]
  have : IsAntisymm (K × V) fun a b => a.1 < b.1 := ⟨fun _ _ h h' => (lt_asymm h h').elim⟩
  have he := List.eq_of_perm_of_sorted
    ((List.perm_ext_iff_of_nodup m₁.nodup_entries m₂.nodup_entries).mpr hmem) m₁.sorted m₂.sorted
  cases m₁
  cases m₂
  simp only at he
  subst he
  rfl

end BTreeMap
