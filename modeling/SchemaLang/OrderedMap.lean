import SchemaLang.Entries

/-!
# Ordered maps

A finite map that remembers the order in which its keys came in.  A new key goes
to the end, and a value that replaces another stands where its key first stood.
The objects of a schema and the properties of an object are such maps.

The view is `entries`, a list of entries with distinct keys.

* `get?_eq_some_iff`: finding is containing.
* `get?_insert`, `keys_insert_of_mem`, `entries_insert_of_not_mem`: what inserting
  does to the view.
-/

namespace SchemaLang

/-- A finite map with the order of first insertion. -/
structure OrderedMap (κ α : Type) where
  entries : List (κ × α)
  nodup_keys : (Entries.keys entries).Nodup
deriving DecidableEq

namespace OrderedMap

variable {κ α : Type}

@[ext] theorem ext {m n : OrderedMap κ α} (h : m.entries = n.entries) : m = n := by
  cases m; cases n; cases h; rfl

def empty : OrderedMap κ α := ⟨[], List.nodup_nil⟩

instance : EmptyCollection (OrderedMap κ α) := ⟨empty⟩

@[simp] theorem entries_empty : (∅ : OrderedMap κ α).entries = [] := rfl

def keys (m : OrderedMap κ α) : List κ := Entries.keys m.entries

def values (m : OrderedMap κ α) : List α := m.entries.map Prod.snd

def size (m : OrderedMap κ α) : Nat := m.entries.length

variable [DecidableEq κ]

def get? (m : OrderedMap κ α) (k : κ) : Option α := Entries.get? k m.entries

def contains (m : OrderedMap κ α) (k : κ) : Bool := (m.get? k).isSome

/-- The map with `a` at `k`. -/
def insert (m : OrderedMap κ α) (k : κ) (a : α) : OrderedMap κ α :=
  ⟨Entries.put k a m.entries, Entries.nodup_keys_put m.nodup_keys⟩

def insertAll (m : OrderedMap κ α) (l : List (κ × α)) : OrderedMap κ α :=
  l.foldl (fun m e => m.insert e.1 e.2) m

/-- The map that a list of entries builds from left to right. -/
def ofList (l : List (κ × α)) : OrderedMap κ α := (∅ : OrderedMap κ α).insertAll l

/-- **Finding is containing.** -/
theorem get?_eq_some_iff {m : OrderedMap κ α} {k : κ} {a : α} :
    m.get? k = some a ↔ (k, a) ∈ m.entries :=
  Entries.get?_eq_some_iff m.nodup_keys

theorem contains_iff_mem_keys {m : OrderedMap κ α} {k : κ} : m.contains k = true ↔ k ∈ m.keys :=
  Entries.isSome_get?

theorem get?_eq_none_iff {m : OrderedMap κ α} {k : κ} : m.get? k = none ↔ k ∉ m.keys :=
  Entries.get?_eq_none_iff

theorem get?_insert {m : OrderedMap κ α} {k j : κ} {a : α} :
    (m.insert k a).get? j = if k = j then some a else m.get? j :=
  Entries.get?_put

@[simp] theorem get?_insert_self {m : OrderedMap κ α} {k : κ} {a : α} :
    (m.insert k a).get? k = some a := by
  rw [get?_insert, if_pos rfl]

theorem keys_insert_of_mem {m : OrderedMap κ α} {k : κ} {a : α} (h : k ∈ m.keys) :
    (m.insert k a).keys = m.keys :=
  Entries.keys_put_of_mem h

theorem entries_insert_of_not_mem {m : OrderedMap κ α} {k : κ} {a : α} (h : k ∉ m.keys) :
    (m.insert k a).entries = m.entries ++ [(k, a)] :=
  Entries.put_of_not_mem h

theorem keys_insert_of_not_mem {m : OrderedMap κ α} {k : κ} {a : α} (h : k ∉ m.keys) :
    (m.insert k a).keys = m.keys ++ [k] := by
  rw [keys, entries_insert_of_not_mem h, Entries.keys_append]; rfl

/-- **A map is determined** by its keys, in order, and by what is found. -/
theorem ext_get? {m n : OrderedMap κ α} (hk : m.keys = n.keys) (h : ∀ k, m.get? k = n.get? k) :
    m = n :=
  ext (Entries.ext_get? hk m.nodup_keys h)

theorem insert_of_get? {m : OrderedMap κ α} {k : κ} {a : α} (h : m.get? k = some a) :
    m.insert k a = m := by
  have hk : k ∈ m.keys := contains_iff_mem_keys.1 (by rw [contains, h]; rfl)
  refine ext_get? (keys_insert_of_mem hk) fun j => ?_
  rw [get?_insert]
  split
  · next e => rw [← e, h]
  · rfl

theorem mem_values_iff {m : OrderedMap κ α} {a : α} :
    a ∈ m.values ↔ ∃ k, m.get? k = some a := by
  rw [values, List.mem_map]
  constructor
  · rintro ⟨e, he, rfl⟩
    exact ⟨e.1, get?_eq_some_iff.2 he⟩
  · rintro ⟨k, hk⟩
    exact ⟨(k, a), get?_eq_some_iff.1 hk, rfl⟩

/-- What is said of the values of two maps with the same keys, value by value, is said of
the lists of their values. -/
theorem map_values_eq {β : Type} {f : α → β} {m n : OrderedMap κ α} (hk : m.keys = n.keys)
    (h : ∀ k a b, m.get? k = some a → n.get? k = some b → f a = f b) :
    m.values.map f = n.values.map f := by
  have hvalues : ∀ m : OrderedMap κ α,
      (m.values.map f).map some = m.keys.map fun k => (m.get? k).map f := fun m => by
    rw [values, keys, Entries.keys, List.map_map, List.map_map, List.map_map]
    refine List.map_congr_left fun e he => ?_
    show some (f e.2) = (m.get? e.1).map f
    rw [get?_eq_some_iff.2 he]
    rfl
  rw [← List.map_inj_right (f := some) fun a b e => Option.some.inj e, hvalues, hvalues, ← hk]
  refine List.map_congr_left fun k hkm => ?_
  obtain ⟨a, ha⟩ := Option.isSome_iff_exists.1 (contains_iff_mem_keys.2 hkm)
  obtain ⟨b, hb⟩ := Option.isSome_iff_exists.1 (contains_iff_mem_keys.2 (hk ▸ hkm))
  rw [ha, hb, Option.map_some, Option.map_some, h k a b ha hb]

theorem insertAll_of_new : ∀ {l : List (κ × α)} {m : OrderedMap κ α},
    (Entries.keys (m.entries ++ l)).Nodup → (m.insertAll l).entries = m.entries ++ l
  | [], m, _ => (List.append_nil m.entries).symm
  | e :: l, m, h => by
    have hkey : e.1 ∉ m.keys := fun hm => by
      rw [Entries.keys_append, Entries.keys_cons] at h
      exact (List.nodup_append.1 h).2.2 _ hm _ List.mem_cons_self rfl
    have hinsert := entries_insert_of_not_mem (a := e.2) hkey
    have happend : m.entries ++ e :: l = (m.insert e.1 e.2).entries ++ l := by
      rw [hinsert, List.append_assoc]; rfl
    rw [happend] at h ⊢
    exact insertAll_of_new h

theorem entries_ofList {l : List (κ × α)} (h : (Entries.keys l).Nodup) :
    (ofList l).entries = l :=
  insertAll_of_new (m := ∅) h

end OrderedMap
end SchemaLang
