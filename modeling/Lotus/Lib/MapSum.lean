import Mathlib

/-!
# Finite maps and the sums kept beside them

A Go `map[K]V` with `m[k] = v`, `delete(m, k)`, `v, ok := m[k]` and `len(m)` is an `AList` with
`insert`, `erase`, `lookup` and the length of its key list.  A component that keeps a running
total beside such a map (a counter of entries, a sum of amounts) is correct when the total is
`sumValues` of the map; this file gives the two facts every such proof needs: deleting a present
key takes exactly its value off the sum (`sumValues_eq_add_erase`), and assigning a key first
deletes whatever was there (`sumValues_insert`).

Nothing here names the program being modelled; the map's values are arbitrary and the sum is in
any additive commutative monoid.
-/

namespace AList

variable {α β M : Type*} [AddCommMonoid M]

/-- The sum of `f` over the values of the map, in the map's own order (which does not matter). -/
def sumValues (f : β → M) (s : AList (fun _ : α => β)) : M :=
  (s.entries.map fun e => f e.2).sum

/-- `len(m)`: the number of keys. -/
def size (s : AList (fun _ : α => β)) : ℕ :=
  s.keys.length

@[simp] lemma sumValues_empty (f : β → M) : sumValues f (∅ : AList (fun _ : α => β)) = 0 := rfl

@[simp] lemma size_empty : size (∅ : AList (fun _ : α => β)) = 0 := rfl

variable [DecidableEq α]

/-- A map with natural keys cannot hold all of `n, n + 1, …, n + size`: that is one key more than
it has.  This is why a scan upward for a free key stops within `size` steps. -/
lemma exists_notMem_of_le_size (s : AList (fun _ : ℕ => β)) (n : ℕ) :
    ∃ i ≤ size s, n + i ∉ s := by
  by_contra hall
  push Not at hall
  have hsub : List.range' n (size s + 1) ⊆ s.keys := by
    intro j hj
    rw [List.mem_range'_1] at hj
    have := hall (j - n) (by omega)
    rw [show n + (j - n) = j by omega] at this
    exact mem_keys.mp this
  have := List.Nodup.length_le_of_subset List.nodup_range' hsub
  simp only [List.length_range', size] at this
  omega

/-- Deleting an absent key changes nothing. -/
lemma erase_of_notMem {a : α} {s : AList (fun _ : α => β)} (h : a ∉ s) : s.erase a = s :=
  ext (List.kerase_of_notMem_keys fun hk => h (mem_keys.mpr hk))

/-- A present key's value splits off the sum; the rest is the sum of the map without it. -/
lemma sumValues_eq_add_erase (f : β → M) {a : α} {b : β} {s : AList (fun _ : α => β)}
    (h : s.lookup a = some b) : sumValues f s = f b + sumValues f (s.erase a) := by
  have hmem : a ∈ s.keys := mem_keys.mp (lookup_isSome.mp (by simp [h]))
  obtain ⟨b', l₁, l₂, -, hl, hker⟩ := List.exists_of_kerase hmem
  -- the entry found by `kerase` is the one `lookup` returns, by uniqueness of keys
  have hb : b' = b := by
    have hin : (⟨a, b'⟩ : Sigma fun _ : α => β) ∈ s.entries := by rw [hl]; simp
    have := List.mem_dlookup s.nodupKeys hin
    simp only [lookup] at h
    rw [h] at this
    exact (Option.some.inj this).symm
  simp only [sumValues, erase, hker]
  rw [hl, hb]
  simp only [List.map_append, List.map_cons, List.sum_append, List.sum_cons]
  exact add_left_comm _ _ _

/-- Assigning `m[a] = b` deletes the old entry and adds the new value. -/
lemma sumValues_insert (f : β → M) (a : α) (b : β) (s : AList (fun _ : α => β)) :
    sumValues f (s.insert a b) = f b + sumValues f (s.erase a) := by
  simp [sumValues, entries_insert, erase]

/-- Deleting a present key takes one off the size. -/
lemma size_erase_of_mem {a : α} {s : AList (fun _ : α => β)} (h : a ∈ s) :
    size (s.erase a) + 1 = size s := by
  simp only [size, keys_erase]
  rw [List.length_erase_of_mem (mem_keys.mp h)]
  have : 0 < s.keys.length := List.length_pos_of_mem (mem_keys.mp h)
  omega

/-- Assigning `m[k(x)] = x` for each `x` in turn, with keys that tell the `x`s apart: a key holds
the `x` with that key, or what it held before when no `x` has it. -/
lemma lookup_foldl_insert (k : β → α) : ∀ (X : List β) (s : AList (fun _ : α => β)),
    (∀ x ∈ X, ∀ y ∈ X, k x = k y → x = y) → ∀ c b,
      (X.foldl (fun s x => s.insert (k x) x) s).lookup c = some b ↔
        (b ∈ X ∧ k b = c) ∨ ((∀ x ∈ X, k x ≠ c) ∧ s.lookup c = some b)
  | [], s, _, c, b => by simp
  | x :: X, s, hinj, c, b => by
    rw [List.foldl_cons, lookup_foldl_insert k X _ (fun y hy z hz => hinj y
      (List.mem_cons_of_mem _ hy) z (List.mem_cons_of_mem _ hz))]
    by_cases hc : c = k x
    · subst hc
      rw [lookup_insert]
      -- the key of `x` holds `x`, or a later `x'` with the same key, which is `x` again
      constructor
      · rintro (⟨hb, hkb⟩ | ⟨-, hxb⟩)
        · exact .inl ⟨List.mem_cons_of_mem _ hb, hkb⟩
        · cases hxb
          exact .inl ⟨List.mem_cons_self, rfl⟩
      · rintro (⟨hb, hkb⟩ | ⟨hall, -⟩)
        · rcases List.mem_cons.1 hb with rfl | hb
          · by_cases hX : ∀ y ∈ X, k y ≠ k b
            · exact .inr ⟨hX, rfl⟩
            · push Not at hX
              obtain ⟨y, hy, hky⟩ := hX
              have := hinj y (List.mem_cons_of_mem _ hy) b List.mem_cons_self hky
              subst this
              exact .inl ⟨hy, rfl⟩
          · exact .inl ⟨hb, hkb⟩
        · exact absurd rfl (hall x List.mem_cons_self)
    · rw [lookup_insert_ne hc]
      constructor
      · rintro (⟨hb, hkb⟩ | ⟨hall, hs⟩)
        · exact .inl ⟨List.mem_cons_of_mem _ hb, hkb⟩
        · exact .inr ⟨fun y hy => (List.mem_cons.1 hy).elim (fun h => h ▸ Ne.symm hc) (hall y), hs⟩
      · rintro (⟨hb, hkb⟩ | ⟨hall, hs⟩)
        · rcases List.mem_cons.1 hb with rfl | hb
          · exact absurd hkb.symm hc
          · exact .inl ⟨hb, hkb⟩
        · exact .inr ⟨fun y hy => hall y (List.mem_cons_of_mem _ hy), hs⟩

/-- Deleting `m[k(x)]` for each `x` in turn: a key keeps its value unless some `x` has it. -/
lemma lookup_foldl_erase {γ : Type*} (k : γ → α) : ∀ (X : List γ) (s : AList (fun _ : α => β)) (c : α)
    (b : β), (X.foldl (fun s x => s.erase (k x)) s).lookup c = some b ↔
      (∀ x ∈ X, k x ≠ c) ∧ s.lookup c = some b
  | [], s, c, b => by simp
  | x :: X, s, c, b => by
    rw [List.foldl_cons, lookup_foldl_erase k X _ c b, List.forall_mem_cons]
    by_cases hc : c = k x
    · subst hc
      simp [lookup_erase]
    · rw [lookup_erase_ne hc]
      exact ⟨fun h => ⟨⟨Ne.symm hc, h.1⟩, h.2⟩, fun h => ⟨h.1.2, h.2⟩⟩

/-- After deleting the keys of `X`, a key is absent if `X` names it and as it was otherwise. -/
lemma lookup_foldl_erase_eq {γ : Type*} (k : γ → α) (X : List γ) (s : AList (fun _ : α => β))
    (c : α) : (X.foldl (fun s x => s.erase (k x)) s).lookup c =
      if c ∈ X.map k then none else s.lookup c := by
  apply Option.ext
  intro b
  rw [lookup_foldl_erase]
  split_ifs with hc
  · obtain ⟨x, hx, rfl⟩ := List.mem_map.1 hc
    simp only [iff_false, not_and]
    exact fun h => absurd rfl (h x hx)
  · simp only [List.mem_map, not_exists, not_and] at hc
    exact ⟨fun h => h.2, fun h => ⟨hc, h⟩⟩

/-- Assigning a key that is absent adds one to the size, and one that is present keeps it. -/
lemma size_insert (a : α) (b : β) (s : AList (fun _ : α => β)) :
    size (s.insert a b) = if a ∈ s then size s else size s + 1 := by
  split_ifs with h
  · have := size_erase_of_mem h
    simp only [size, keys_insert, List.length_cons] at this ⊢
    simp only [keys_erase] at this
    omega
  · simp [size, keys_insert, List.erase_of_not_mem (mt mem_keys.mpr h)]

/-- Building a map from the entries of a list with distinct keys, last first, gives those
entries back, each value mapped by `f`. -/
lemma entries_foldr_insert {γ : Type*} (f : γ → β) : ∀ (l : List (Σ _ : α, γ)), l.NodupKeys →
    (l.foldr (fun e s => s.insert e.1 (f e.2)) (∅ : AList (fun _ : α => β))).entries =
      l.map fun e => ⟨e.1, f e.2⟩
  | [], _ => rfl
  | e :: l, h => by
    rw [List.nodupKeys_cons] at h
    have ih := entries_foldr_insert f l h.2
    -- the first key is new to the map built from the rest
    have hnew : e.1 ∉ l.foldr (fun e s => s.insert e.1 (f e.2)) (∅ : AList (fun _ : α => β)) := by
      rw [mem_keys, keys, ih]
      simpa [List.keys, Function.comp_def] using h.1
    rw [List.foldr_cons, entries_insert_of_notMem hnew, ih, List.map_cons]

end AList
