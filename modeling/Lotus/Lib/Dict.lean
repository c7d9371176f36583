import Mathlib

/-!
# Dictionary compression of groups of keys

Groups of keys are sent as one dictionary of distinct keys, in the order they first appear, and
for each group the list of its keys' indices in the dictionary.  A `Table` is the dictionary with
a map from each key to its index; `Table.add` gives a key its index, the next one if the key is
new, and `groupLoop` does so for the keys of a group in order.  An `Encoder` keeps the include
lists of the groups done.

**Reading back.**  While the map and the dictionary are each other's inverse (`Table.Inv`), the
dictionary only grows at its end, so an index keeps pointing at its key; every group's include
list then reads back its keys (`Encodes`, `encodes_encode`), every index is in range, and the
dictionary has no key twice (`Table.Inv.nodup`) and no key that is in no group
(`mem_encode_keys`).
-/

namespace Dict

variable {κ : Type*}

/-- The dictionary so far, and each key's index in it. -/
structure Table (κ : Type*) where
  keys : List κ
  index : κ → Option ℕ

/-- The empty dictionary. -/
def Table.empty : Table κ := ⟨[], fun _ => none⟩

/-- The dictionary, and the include list of each group done. -/
structure Encoder (κ : Type*) where
  table : Table κ
  includes : List (List ℕ)

/-- Nothing encoded. -/
def Encoder.empty : Encoder κ := ⟨Table.empty, []⟩

/-- An include list read back from the dictionary: `[keys[i] for i in idx]`. -/
def readBack (keys : List κ) (idx : List ℕ) : List (Option κ) :=
  idx.map (keys[·]?)

/-- The map gives each key of the dictionary its index, and no other key one. -/
def Table.Inv (t : Table κ) : Prop :=
  ∀ m i, t.index m = some i ↔ t.keys[i]? = some m

/-- The include lists read back the groups. -/
def Encodes (e : Encoder κ) (groups : List (List κ)) : Prop :=
  e.table.Inv ∧ e.includes.map (readBack e.table.keys) = groups.map (·.map some)

/-! ## Reading back -/

lemma inv_empty : (Table.empty : Table κ).Inv := by
  intro m i
  simp [Table.empty]

/-- A key has at most one index. -/
lemma Table.Inv.nodup {t : Table κ} (h : t.Inv) : t.keys.Nodup := by
  refine List.nodup_iff_getElem?_ne_getElem?.mpr fun i j hij hj heq => ?_
  obtain ⟨m, hm⟩ : ∃ m, t.keys[j]? = some m := ⟨t.keys[j], List.getElem?_eq_getElem hj⟩
  have hi := (h m i).mpr (heq.trans hm)
  rw [(h m j).mpr hm, Option.some.injEq] at hi
  omega

/-- A dictionary that grows at its end keeps its indices. -/
lemma getElem?_of_prefix {keys keys' : List κ} (hp : keys <+: keys') {i : ℕ} {m : κ}
    (h : keys[i]? = some m) : keys'[i]? = some m := by
  obtain ⟨rest, rfl⟩ := hp
  rw [List.getElem?_append_left (List.getElem?_eq_some_iff.mp h).1]
  exact h

lemma readBack_of_prefix {keys keys' : List κ} (hp : keys <+: keys') {idx : List ℕ}
    {ms : List κ} (h : readBack keys idx = ms.map some) : readBack keys' idx = ms.map some := by
  rw [← h]
  unfold readBack
  refine List.map_congr_left fun i hi => ?_
  obtain ⟨m, hm⟩ : ∃ m, keys[i]? = some m := by
    have : keys[i]? ∈ ms.map some := h ▸ List.mem_map_of_mem hi
    obtain ⟨m, -, hm⟩ := List.mem_map.mp this
    exact ⟨m, hm.symm⟩
  rw [hm, getElem?_of_prefix hp hm]

lemma encodes_empty : Encodes (Encoder.empty : Encoder κ) [] :=
  ⟨inv_empty, rfl⟩

/-! ## Building the dictionary -/

variable [DecidableEq κ]

/-- A key's index, or the next index, the key joining the dictionary. -/
def Table.add (t : Table κ) (m : κ) : Table κ × ℕ :=
  match t.index m with
  | some i => (t, i)
  | none => (⟨t.keys ++ [m], Function.update t.index m (some t.keys.length)⟩, t.keys.length)

/-- The keys of a group, each given its index, appended to `idx`. -/
def groupLoop : List κ → Table κ → List ℕ → Table κ × List ℕ
  | [], t, idx => (t, idx)
  | m :: ms, t, idx => groupLoop ms (t.add m).1 (idx ++ [(t.add m).2])

/-- One more group. -/
def Encoder.addGroup (e : Encoder κ) (group : List κ) : Encoder κ :=
  let r := groupLoop group e.table []
  ⟨r.1, e.includes ++ [r.2]⟩

/-- Groups one after another. -/
def encode (groups : List (List κ)) : Encoder κ :=
  groups.foldl Encoder.addGroup Encoder.empty

/-- **`Table.add` keeps the invariant**, only appends, and the index it gives reads the key. -/
lemma Table.Inv.add {t : Table κ} (h : t.Inv) (m : κ) :
    (t.add m).1.Inv ∧ t.keys <+: (t.add m).1.keys ∧ (t.add m).1.keys[(t.add m).2]? = some m := by
  unfold Table.add
  cases hm : t.index m with
  | some i => exact ⟨h, List.prefix_refl _, (h m i).mp hm⟩
  | none =>
    refine ⟨fun m' i => ?_, List.prefix_append _ _, List.getElem?_concat_length⟩
    dsimp only
    by_cases hm' : m' = m
    · -- the new key: its index is the old length, and it is nowhere before
      subst hm'
      simp only [Function.update_self, Option.some.injEq]
      constructor
      · rintro rfl
        exact List.getElem?_concat_length
      · intro hi
        by_contra hne
        rcases Nat.lt_or_gt_of_ne hne with hgt | hlt
        · rw [List.getElem?_eq_none (by simp; omega)] at hi
          cases hi
        · rw [List.getElem?_append_left hlt] at hi
          rw [(h m' i).mpr hi] at hm
          cases hm
    · -- an old key keeps its index
      rw [Function.update_of_ne hm', h m' i]
      constructor
      · intro hi
        rw [List.getElem?_append_left (List.getElem?_eq_some_iff.mp hi).1]
        exact hi
      · intro hi
        by_cases hlt : i < t.keys.length
        · rwa [List.getElem?_append_left hlt] at hi
        · rw [List.getElem?_append_right (by omega)] at hi
          have hz : i - t.keys.length = 0 := by
            by_contra hz
            rw [List.getElem?_eq_none (by simp; omega)] at hi
            cases hi
          rw [hz, List.getElem?_cons_zero, Option.some.injEq] at hi
          exact absurd hi.symm hm'

/-- **A group's loop keeps the invariant**, only appends, and its new indices read back the
group. -/
lemma Table.Inv.groupLoop {t : Table κ} (h : t.Inv) (ms : List κ) (idx : List ℕ) :
    (Dict.groupLoop ms t idx).1.Inv ∧ t.keys <+: (Dict.groupLoop ms t idx).1.keys ∧
      readBack (Dict.groupLoop ms t idx).1.keys (Dict.groupLoop ms t idx).2 =
        readBack (Dict.groupLoop ms t idx).1.keys idx ++ ms.map some := by
  induction ms generalizing t idx with
  | nil => exact ⟨h, List.prefix_refl _, by simp [Dict.groupLoop]⟩
  | cons m ms ih =>
    obtain ⟨hinv, hpre, hget⟩ := h.add m
    obtain ⟨hinv', hpre', hread⟩ := ih hinv (idx ++ [(t.add m).2])
    refine ⟨hinv', hpre.trans hpre', ?_⟩
    rw [Dict.groupLoop, hread]
    -- the key's index still reads it in the final dictionary
    simp [readBack, getElem?_of_prefix hpre' hget]

/-- **One more group is encoded.** -/
lemma Encodes.addGroup {e : Encoder κ} {groups : List (List κ)} (h : Encodes e groups)
    (group : List κ) : Encodes (e.addGroup group) (groups ++ [group]) := by
  obtain ⟨hinv, hread⟩ := h
  obtain ⟨hinv', hpre, hgroup⟩ := hinv.groupLoop group []
  refine ⟨hinv', ?_⟩
  simp only [Encoder.addGroup, List.map_append, List.map_cons, List.map_nil]
  congr 1
  · -- the earlier lists read back as before
    have hold : ∀ idx ∈ e.includes, ∃ g : List κ, readBack e.table.keys idx = g.map some := by
      intro idx hidx
      have : readBack e.table.keys idx ∈ groups.map (·.map some) :=
        hread ▸ List.mem_map_of_mem hidx
      obtain ⟨g, -, hg⟩ := List.mem_map.mp this
      exact ⟨g, hg.symm⟩
    rw [← hread]
    refine List.map_congr_left fun idx hidx => ?_
    obtain ⟨g, hg⟩ := hold idx hidx
    rw [hg, readBack_of_prefix hpre hg]
  · rw [hgroup]
    simp [readBack]

/-- Only a group's keys join the dictionary. -/
lemma Table.mem_add_keys {t : Table κ} {m k : κ} (h : k ∈ (t.add m).1.keys) :
    k ∈ t.keys ∨ k = m := by
  unfold Table.add at h
  cases hm : t.index m with
  | some i =>
    rw [hm] at h
    exact .inl h
  | none =>
    rw [hm] at h
    simpa using h

lemma mem_groupLoop_keys {k : κ} :
    ∀ (ms : List κ) (t : Table κ) (idx : List ℕ), k ∈ (groupLoop ms t idx).1.keys →
      k ∈ t.keys ∨ k ∈ ms
  | [], _, _, h => .inl h
  | m :: ms, t, idx, h => by
    rcases mem_groupLoop_keys ms _ _ h with hk | hk
    · rcases Table.mem_add_keys hk with hk | rfl
      · exact .inl hk
      · exact .inr List.mem_cons_self
    · exact .inr (List.mem_cons_of_mem m hk)

/-- Every key of the dictionary is a key of some group. -/
lemma mem_encode_keys {k : κ} (groups : List (List κ)) (h : k ∈ (encode groups).table.keys) :
    ∃ g ∈ groups, k ∈ g := by
  induction groups using List.reverseRecOn with
  | nil => simp [encode, Encoder.empty, Table.empty] at h
  | append_singleton groups g ih =>
    rw [encode, List.foldl_append, List.foldl_cons, List.foldl_nil] at h
    rcases mem_groupLoop_keys g _ [] h with hk | hk
    · obtain ⟨g', hg', hk'⟩ := ih hk
      exact ⟨g', List.mem_append_left _ hg', hk'⟩
    · exact ⟨g, List.mem_append_right _ List.mem_cons_self, hk⟩

/-- **Every group reads back from the encoding.** -/
theorem encodes_encode (groups : List (List κ)) : Encodes (encode groups) groups := by
  induction groups using List.reverseRecOn with
  | nil => exact encodes_empty
  | append_singleton groups g ih =>
    rw [encode, List.foldl_append, List.foldl_cons, List.foldl_nil]
    exact ih.addGroup g

end Dict
