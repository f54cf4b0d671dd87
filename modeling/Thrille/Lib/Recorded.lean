import Mathlib.Data.List.Nodup
import Mathlib.Data.Set.Lattice

-- Lists that grow by the records that are not there yet, up to a key that two records may share.
namespace Recorded

variable {α κ ε : Type}

-- The list `found` holds each of the keys of the set, and none of them twice.
structure Holds (key : α → κ) (found : List α) (keys : Set κ) : Prop where
  mem : ∀ k, k ∈ found.map key ↔ k ∈ keys
  nodup : (found.map key).Nodup

variable {key : α → κ} {found : List α} {keys : Set κ}

theorem Holds.nil : Holds key [] (∅ : Set κ) := by
  refine ⟨fun k => ?_, List.nodup_nil⟩
  simp

-- The search through the list has to tell the records apart as the key does.
theorem Holds.push (h : Holds key found keys) (same : α → α → Bool)
    (hsame : ∀ a b, same a b = true ↔ key a = key b) (a : α) :
    Holds key (if found.any (same · a) then found else found ++ [a]) (insert (key a) keys) := by
  have hany : found.any (same · a) = true ↔ key a ∈ keys := by
    rw [← h.mem, List.any_eq_true, List.mem_map]
    simp only [hsame]
  split
  · rename_i hfound
    rw [Set.insert_eq_of_mem (hany.mp hfound)]
    exact h
  · rename_i hfound
    rw [hany, ← h.mem] at hfound
    refine ⟨fun k => ?_, ?_⟩
    · rw [List.map_append, List.mem_append, h.mem, Set.mem_insert_iff]
      simp [or_comm]
    · rw [List.map_append, List.map_singleton]
      exact h.nodup.append (List.nodup_singleton _) (by simpa using hfound)

-- A loop whose step adds certain keys adds those of all its elements.
theorem Holds.foldl (step : List α → ε → List α) (adds : ε → Set κ) (elements : List ε)
    (hstep : ∀ e ∈ elements, ∀ found keys, Holds key found keys →
      Holds key (step found e) (keys ∪ adds e))
    (h : Holds key found keys) :
    Holds key (elements.foldl step found) (keys ∪ {k | ∃ e ∈ elements, k ∈ adds e}) := by
  induction elements generalizing found keys with
  | nil => simpa using h
  | cons e elements ih =>
      have hhead := hstep e List.mem_cons_self found keys h
      have htail := ih (fun e' he' => hstep e' (List.mem_cons_of_mem e he')) hhead
      rw [List.foldl_cons]
      convert htail using 1
      ext k
      simp only [Set.mem_union, Set.mem_ofPred_eq, List.exists_mem_cons_iff]
      tauto

-- Two lists that hold the same keys have them in some order or other.
theorem Holds.perm {other : List α} (h : Holds key found keys) (hother : Holds key other keys) :
    (found.map key).Perm (other.map key) := by
  refine (List.perm_ext_iff_of_nodup h.nodup hother.nodup).mpr fun k => ?_
  rw [h.mem, hother.mem]

end Recorded
