import Mathlib.Algebra.BigOperators.Group.List.Basic
import Mathlib.Data.List.Basic

-- Facts about ordered maps and sets with a default value at missing keys, the reading that
-- `operator[]` gives to a `std::map`.
namespace OrderedMap

open Std

variable {κ ν : Type} [Ord κ] [TransOrd κ] [LawfulEqOrd κ]

@[simp] theorem getD_insert_eq (map : TreeMap κ ν) (key other : κ) (value fallback : ν)
    [Decidable (key = other)] :
    (map.insert key value).getD other fallback =
      if key = other then value else map.getD other fallback := by
  rw [TreeMap.getD_insert]
  by_cases h : key = other <;> simp [h]

@[simp] theorem getD_erase_eq (map : TreeMap κ ν) (key other : κ) (fallback : ν)
    [Decidable (key = other)] :
    (map.erase key).getD other fallback =
      if key = other then fallback else map.getD other fallback := by
  rw [TreeMap.getD_erase]
  by_cases h : key = other <;> simp [h]

theorem get_insert_eq (map : TreeMap κ ν) (key other : κ) (value : ν)
    [Decidable (key = other)] :
    (map.insert key value)[other]? = if key = other then some value else map[other]? := by
  rw [TreeMap.getElem?_insert]
  by_cases h : key = other <;> simp [h]

theorem get_erase_eq (map : TreeMap κ ν) (key other : κ) [Decidable (key = other)] :
    (map.erase key)[other]? = if key = other then none else map[other]? := by
  rw [TreeMap.getElem?_erase]
  by_cases h : key = other <;> simp [h]

omit [LawfulEqOrd κ] in
@[simp] theorem getD_empty (key : κ) (fallback : ν) :
    (∅ : TreeMap κ ν).getD key fallback = fallback :=
  TreeMap.getD_emptyc

omit [LawfulEqOrd κ] in
theorem mem_of_getD_ne (map : TreeMap κ ν) (key : κ) (fallback : ν)
    (h : map.getD key fallback ≠ fallback) : key ∈ map := by
  by_contra hn
  exact h (TreeMap.getD_eq_fallback hn)

-- Every pair of the iteration order is a reading of the map, and every key is met.
theorem mem_toList_getD (map : TreeMap κ ν) (key : κ) (value fallback : ν)
    (h : (key, value) ∈ map.toList) : map.getD key fallback = value := by
  rw [TreeMap.mem_toList_iff_getElem?_eq_some] at h
  rw [TreeMap.getD_eq_getD_getElem?, h, Option.getD_some]

theorem getD_mem_toList (map : TreeMap κ ν) (key : κ) (fallback : ν) (h : key ∈ map) :
    (key, map.getD key fallback) ∈ map.toList := by
  rw [TreeMap.mem_toList_iff_getElem?_eq_some, TreeMap.getD_eq_getD_getElem?,
    TreeMap.getElem?_eq_some_getElem h, Option.getD_some]

-- Adding `fallback` under new keys changes no reading.
theorem getD_foldl_insertIfNew (map : TreeMap κ ν) (keys : List κ) (fallback : ν) (key : κ) :
    (keys.foldl (fun m k => m.insertIfNew k fallback) map).getD key fallback =
      map.getD key fallback := by
  induction keys generalizing map with
  | nil => rfl
  | cons head tail ih =>
      rw [List.foldl_cons, ih, TreeMap.getD_insertIfNew]
      split
      · rename_i h
        have he : head = key := by simpa using h.1
        exact (TreeMap.getD_eq_fallback (he ▸ h.2)).symm
      · rfl

omit [LawfulEqOrd κ] in
theorem mem_foldl_insertIfNew (map : TreeMap κ ν) (keys : List κ) (fallback : ν) (key : κ)
    (h : key ∈ map) : key ∈ keys.foldl (fun m k => m.insertIfNew k fallback) map := by
  induction keys generalizing map with
  | nil => exact h
  | cons head tail ih =>
      exact ih _ (TreeMap.mem_insertIfNew.mpr (Or.inr h))

-- A map rebuilt key by key from a function of the key.
theorem getD_foldl_insert (map : TreeMap κ ν) (keys : List κ) (f : κ → ν) (fallback : ν)
    (key : κ) [DecidableEq κ] :
    (keys.foldl (fun m k => m.insert k (f k)) map).getD key fallback =
      if key ∈ keys then f key else map.getD key fallback := by
  induction keys generalizing map with
  | nil => simp
  | cons head tail ih =>
      rw [List.foldl_cons, ih, getD_insert_eq]
      by_cases ht : key ∈ tail
      · simp [ht]
      · by_cases he : head = key
        · subst he; simp [ht]
        · simp [ht, he, Ne.symm he]

-- The same value, or nothing, at every key of a list.
theorem get_foldl_insert (map : TreeMap κ ν) (keys : List κ) (value : ν) (key : κ)
    [DecidableEq κ] :
    (keys.foldl (fun m k => m.insert k value) map)[key]? =
      if key ∈ keys then some value else map[key]? := by
  induction keys generalizing map with
  | nil => simp
  | cons head tail ih =>
      rw [List.foldl_cons, ih, get_insert_eq]
      by_cases ht : key ∈ tail
      · simp [ht]
      · by_cases he : head = key
        · subst he; simp [ht]
        · simp [ht, he, Ne.symm he]

theorem get_foldl_erase (map : TreeMap κ ν) (keys : List κ) (key : κ) [DecidableEq κ] :
    (keys.foldl (fun m k => m.erase k) map)[key]? = if key ∈ keys then none else map[key]? := by
  induction keys generalizing map with
  | nil => simp
  | cons head tail ih =>
      rw [List.foldl_cons, ih, get_erase_eq]
      by_cases ht : key ∈ tail
      · simp [ht]
      · by_cases he : head = key
        · subst he; simp [ht]
        · simp [ht, he, Ne.symm he]

-- A set that takes every list element accepted by a test.
theorem mem_foldl_insert_if (set : TreeSet κ) (elems : List κ) (p : κ → Bool) (x : κ) :
    x ∈ elems.foldl (fun s e => if p e then s.insert e else s) set ↔
      x ∈ set ∨ (x ∈ elems ∧ p x = true) := by
  induction elems generalizing set with
  | nil => simp
  | cons head tail ih =>
      rw [List.foldl_cons, ih]
      by_cases hp : p head = true
      · simp only [hp, ite_true, TreeSet.mem_insert, Std.compare_eq_iff_eq, List.mem_cons]
        constructor
        · rintro ((rfl | h) | h)
          · exact Or.inr ⟨Or.inl rfl, hp⟩
          · exact Or.inl h
          · exact Or.inr ⟨Or.inr h.1, h.2⟩
        · rintro (h | ⟨rfl | h, hx⟩)
          · exact Or.inl (Or.inr h)
          · exact Or.inl (Or.inl rfl)
          · exact Or.inr ⟨h, hx⟩
      · simp only [hp, Bool.false_eq_true, ite_false, List.mem_cons]
        constructor
        · rintro (h | h)
          · exact Or.inl h
          · exact Or.inr ⟨Or.inr h.1, h.2⟩
        · rintro (h | ⟨rfl | h, hx⟩)
          · exact Or.inl h
          · exact absurd hx hp
          · exact Or.inr ⟨h, hx⟩

@[simp] theorem mem_insert_iff (set : TreeSet κ) (elem x : κ) :
    x ∈ set.insert elem ↔ elem = x ∨ x ∈ set := by
  rw [TreeSet.mem_insert, Std.compare_eq_iff_eq]

theorem nodup_toList (map : TreeMap κ ν) : map.toList.Nodup := by
  refine (TreeMap.distinct_keys_toList (t := map)).imp fun hne heq => ?_
  rw [heq] at hne
  simp at hne

-- A sum over a map changes by what the one entry changes, where a missing entry counts nothing.
theorem sum_toList_insert {M : Type} [AddCommGroup M] (map : TreeMap κ ν) (key : κ)
    (value fallback : ν) (f : ν → M) (hfallback : f fallback = 0) :
    ((map.insert key value).toList.map fun x => f x.2).sum =
      (map.toList.map fun x => f x.2).sum - f (map.getD key fallback) + f value := by
  classical
  have hinsert (value : ν) : ((map.insert key value).toList.map fun x => f x.2).sum =
      f value + ((map.toList.filter (¬key == ·.1)).map fun x => f x.2).sum := by
    rw [(TreeMap.toList_insert_perm.map _).sum_eq, List.map_cons, List.sum_cons]
  have hsame : (map.toList.map fun x => f x.2).sum =
      f (map.getD key fallback) + ((map.toList.filter (¬key == ·.1)).map fun x => f x.2).sum := by
    by_cases hkey : key ∈ map
    · rw [← hinsert]
      refine List.Perm.sum_eq (List.Perm.map _ ?_)
      refine (List.perm_ext_iff_of_nodup (nodup_toList _) (nodup_toList _)).mpr ?_
      rintro ⟨k, v⟩
      rw [TreeMap.mem_toList_iff_getElem?_eq_some, TreeMap.mem_toList_iff_getElem?_eq_some,
        get_insert_eq]
      split
      · rename_i heq
        subst heq
        rw [TreeMap.getD_eq_getD_getElem?, TreeMap.getElem?_eq_some_getElem hkey, Option.getD_some]
      · rfl
    · have hall : ∀ x ∈ map.toList, decide (¬(key == x.1) = true) = true := by
        rintro ⟨k, v⟩ hx
        rw [decide_eq_true_iff, beq_iff_eq]
        rintro rfl
        rw [TreeMap.mem_toList_iff_getElem?_eq_some] at hx
        exact hkey (TreeMap.mem_iff_isSome_getElem?.mpr (by rw [hx]; rfl))
      rw [TreeMap.getD_eq_fallback hkey, hfallback, zero_add, List.filter_eq_self.mpr hall]
  rw [hinsert, hsame, add_sub_cancel_left, add_comm]

end OrderedMap
