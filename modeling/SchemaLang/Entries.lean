/-!
# Entries

Keyed data as a list of entries, a key and its value each.  The ordered map
keeps such a list in the order in which its keys came in, the code map in
ascending order of its keys; what both need of a plain list of entries is here.

* `get?` finds the value of the first entry with a key.
* `put` replaces a value where its key stands, and puts a new key last.
* `get?_eq_some_iff`: with distinct keys, finding and containing are the same.
* `get?_put`: what is found after a `put`.
* `keys_put_of_mem`, `put_of_not_mem`: what `put` does to the keys.
* `ext_get?`: keys and look-ups determine the entries.
-/

namespace SchemaLang.Entries

variable {κ α : Type}

def keys (entries : List (κ × α)) : List κ := entries.map Prod.fst

@[simp] theorem keys_nil : keys ([] : List (κ × α)) = [] := rfl

@[simp] theorem keys_cons (e : κ × α) (r : List (κ × α)) : keys (e :: r) = e.1 :: keys r := rfl

@[simp] theorem keys_append (s t : List (κ × α)) : keys (s ++ t) = keys s ++ keys t :=
  List.map_append

theorem mem_keys {k : κ} {entries : List (κ × α)} : k ∈ keys entries ↔ ∃ a, (k, a) ∈ entries := by
  simp [keys]

variable [DecidableEq κ]

/-- The value of the first entry with key `k`. -/
def get? (k : κ) : List (κ × α) → Option α
  | [] => none
  | (j, a) :: r => if j = k then some a else get? k r

/-- The entries with `a` at key `k`: in place when the key is there, last when it
is not. -/
def put (k : κ) (a : α) : List (κ × α) → List (κ × α)
  | [] => [(k, a)]
  | (j, b) :: r => if j = k then (k, a) :: r else (j, b) :: put k a r

@[simp] theorem get?_nil (k : κ) : get? k ([] : List (κ × α)) = none := rfl

theorem get?_cons (k : κ) (e : κ × α) (r : List (κ × α)) :
    get? k (e :: r) = if e.1 = k then some e.2 else get? k r := rfl

theorem get?_eq_none_iff {k : κ} {entries : List (κ × α)} :
    get? k entries = none ↔ k ∉ keys entries := by
  induction entries with
  | nil => simp
  | cons e r ih =>
    rw [get?_cons, keys_cons, List.mem_cons]
    by_cases h : e.1 = k
    · simp [h]
    · simp [h, ih, Ne.symm h]

theorem isSome_get? {k : κ} {entries : List (κ × α)} :
    (get? k entries).isSome = true ↔ k ∈ keys entries := by
  rw [← Option.ne_none_iff_isSome, ne_eq, get?_eq_none_iff, Decidable.not_not]

theorem mem_of_get? {k : κ} {a : α} {entries : List (κ × α)} (h : get? k entries = some a) :
    (k, a) ∈ entries := by
  induction entries with
  | nil => simp at h
  | cons e r ih =>
    rw [get?_cons] at h
    split at h
    · next hk => cases h; exact hk ▸ List.mem_cons_self
    · exact List.mem_cons_of_mem e (ih h)

/-- **With distinct keys, finding and containing are the same.** -/
theorem get?_eq_some_iff {k : κ} {a : α} {entries : List (κ × α)} (hd : (keys entries).Nodup) :
    get? k entries = some a ↔ (k, a) ∈ entries := by
  refine ⟨mem_of_get?, fun h => ?_⟩
  induction entries with
  | nil => simp at h
  | cons e r ih =>
    rw [keys_cons, List.nodup_cons] at hd
    rw [get?_cons]
    rcases List.mem_cons.1 h with rfl | h
    · simp
    · rw [if_neg, ih hd.2 h]
      exact fun e' => hd.1 (e' ▸ mem_keys.2 ⟨a, h⟩)

theorem get?_put {k j : κ} {a : α} {entries : List (κ × α)} :
    get? j (put k a entries) = if k = j then some a else get? j entries := by
  induction entries with
  | nil => rfl
  | cons e r ih =>
    rw [put]
    by_cases he : e.1 = k
    · rw [if_pos he, get?_cons, get?_cons]
      by_cases hj : k = j
      · simp [hj]
      · simp [hj, he]
    · rw [if_neg he, get?_cons, ih, get?_cons]
      by_cases hj : k = j
      · subst hj; simp [he]
      · simp [hj]

theorem keys_put_of_mem {k : κ} {a : α} {entries : List (κ × α)} (h : k ∈ keys entries) :
    keys (put k a entries) = keys entries := by
  induction entries with
  | nil => simp at h
  | cons e r ih =>
    rw [put]
    by_cases he : e.1 = k
    · simp [he]
    · rw [keys_cons, List.mem_cons] at h
      rw [if_neg he, keys_cons, keys_cons, ih (h.resolve_left (Ne.symm he))]

theorem put_of_not_mem {k : κ} {a : α} {entries : List (κ × α)} (h : k ∉ keys entries) :
    put k a entries = entries ++ [(k, a)] := by
  induction entries with
  | nil => rfl
  | cons e r ih =>
    rw [keys_cons, List.mem_cons, not_or] at h
    rw [put, if_neg (Ne.symm h.1), ih h.2, List.cons_append]

theorem nodup_keys_put {k : κ} {a : α} {entries : List (κ × α)} (hd : (keys entries).Nodup) :
    (keys (put k a entries)).Nodup := by
  by_cases h : k ∈ keys entries
  · rw [keys_put_of_mem h]; exact hd
  · rw [put_of_not_mem h, keys_append]
    refine List.nodup_append.2 ⟨hd, List.pairwise_singleton _ k, ?_⟩
    intro b hb c hc e
    have hbk : b = k := e.trans (List.mem_singleton.1 hc)
    exact h (hbk ▸ hb)

/-- **Entries are determined** by their keys, in order, and by what is found. -/
theorem ext_get? : ∀ {s t : List (κ × α)}, keys s = keys t → (keys s).Nodup →
    (∀ k, get? k s = get? k t) → s = t
  | [], [], _, _, _ => rfl
  | (k, a) :: s, (j, b) :: t, hkeys, hd, h => by
    rw [keys_cons, keys_cons, List.cons.injEq] at hkeys
    obtain ⟨rfl, hkeys⟩ := hkeys
    rw [keys_cons, List.nodup_cons] at hd
    have hab : some a = some b := by
      have hk := h k
      rwa [get?_cons, get?_cons, if_pos rfl, if_pos rfl] at hk
    have hrest : ∀ i, get? i s = get? i t := fun i => by
      by_cases hi : k = i
      · subst hi
        rw [get?_eq_none_iff.2 hd.1, eq_comm, get?_eq_none_iff, ← hkeys]
        exact hd.1
      · have hk := h i
        rwa [get?_cons, get?_cons, if_neg hi, if_neg hi] at hk
    rw [Option.some.inj hab, ext_get? hkeys hd.2 hrest]

end SchemaLang.Entries
