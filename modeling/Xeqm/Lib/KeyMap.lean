import Xeqm.Lib.OrdSet

/-!
# Maps with ranked keys

Maps as ordered sets of pairs. The order of the keys is given by an injective
rank, so that byte strings and machine integers can be keys alike.
-/

namespace Xeqm.Lib

/-- A type whose elements are told apart, and ordered, by a number. -/
class Ranked (K : Type) where
  /-- The number of a key. -/
  rank : K → ℕ
  /-- Different keys have different numbers. -/
  rank_injective : Function.Injective rank

instance : Ranked ℕ := ⟨id, Function.injective_id⟩

instance {w : ℕ} : Ranked (BitVec w) := ⟨BitVec.toNat, fun _ _ => BitVec.eq_of_toNat_eq⟩

instance : Ranked UInt64 := ⟨UInt64.toNat, fun _ _ => UInt64.toNat_inj.mp⟩

/-- A map from `K` to `V`, kept in the order of its keys. -/
abbrev KeyMap (K V : Type) [Ranked K] := OrdSet (fun e : K × V => Ranked.rank e.1)

namespace KeyMap

variable {K V : Type} [Ranked K]

/-- The value stored under a key. -/
def get? (m : KeyMap K V) (k : K) : Option V := (m.find? (Ranked.rank k)).map Prod.snd

/-- Whether a key is present. -/
def contains (m : KeyMap K V) (k : K) : Bool := (m.get? k).isSome

/-- Store a value under a key, replacing the one that is there. -/
def set (m : KeyMap K V) (k : K) (v : V) : KeyMap K V :=
  (OrdSet.erase m (Ranked.rank k)).insert (k, v)

/-- Store a value under a key unless the key is present. -/
def emplace (m : KeyMap K V) (k : K) (v : V) : KeyMap K V := OrdSet.insert (k, v) m

/-- Remove a key. -/
def remove (m : KeyMap K V) (k : K) : KeyMap K V := OrdSet.erase m (Ranked.rank k)

/-- Apply a function to the value stored under a key. -/
def adjust (m : KeyMap K V) (k : K) (f : V → V) : KeyMap K V :=
  OrdSet.modify (Ranked.rank k) (fun e => (e.1, f e.2)) (fun _ => rfl) m

/-- The keys in order. -/
def keys (m : KeyMap K V) : List K := m.toList.map Prod.fst

variable {m : KeyMap K V} {k : K} {v : V}

theorem get?_eq_some_iff : m.get? k = some v ↔ (k, v) ∈ m := by
  constructor
  · intro h
    obtain ⟨⟨k', v'⟩, hfind, rfl⟩ := Option.map_eq_some_iff.mp h
    obtain ⟨hmem, hrank⟩ := OrdSet.find?_eq_some_iff.mp hfind
    rwa [← Ranked.rank_injective hrank]
  · intro h
    simp only [get?, OrdSet.find?_eq_some_iff.mpr ⟨h, rfl⟩, Option.map_some]

theorem get?_eq_none_iff : m.get? k = none ↔ ∀ v, (k, v) ∉ m := by
  constructor
  · intro h v hv
    rw [get?_eq_some_iff.mpr hv] at h
    cases h
  · intro h
    cases hget : m.get? k with
    | none => rfl
    | some v => exact absurd (get?_eq_some_iff.mp hget) (h v)

/-- A key has one value. -/
theorem value_unique {v' : V} (h : (k, v) ∈ m) (h' : (k, v') ∈ m) : v = v' := by
  have heq := (get?_eq_some_iff.mpr h).symm.trans (get?_eq_some_iff.mpr h')
  exact Option.some.inj heq

variable {e : K × V}

@[simp]
theorem mem_remove : e ∈ m.remove k ↔ e ∈ m ∧ e.1 ≠ k := by
  simp only [remove, OrdSet.mem_erase, ne_eq, Ranked.rank_injective.eq_iff]

@[simp]
theorem mem_set : e ∈ m.set k v ↔ e = (k, v) ∨ (e ∈ m ∧ e.1 ≠ k) := by
  have hfresh : ∀ c ∈ OrdSet.erase m (Ranked.rank k), Ranked.rank c.1 ≠ Ranked.rank k :=
    fun c hc => (OrdSet.mem_erase.mp hc).2
  simp only [set, OrdSet.mem_insert, OrdSet.mem_erase, ne_eq, Ranked.rank_injective.eq_iff]
  constructor
  · rintro (h | ⟨rfl, _⟩)
    · exact .inr h
    · exact .inl rfl
  · rintro (rfl | h)
    · exact .inr ⟨rfl, fun c hc => hc.2⟩
    · exact .inl h

/-- What is stored after one key was set. -/
theorem get?_set (m : KeyMap K V) (k : K) (v : V) (k' : K) [Decidable (k' = k)] :
    (m.set k v).get? k' = if k' = k then some v else m.get? k' := by
  apply Option.ext
  intro v'
  rw [get?_eq_some_iff, mem_set]
  split
  · rename_i heq
    simp [heq, eq_comm]
  · rename_i hne
    simp [hne, get?_eq_some_iff]

/-- The keys of a map are different. -/
theorem keys_nodup {m : KeyMap K V} : m.keys.Nodup :=
  List.pairwise_map.mpr (m.sorted.imp (fun hlt heq => absurd (congrArg Ranked.rank heq) hlt.ne))

/-- A pair of a map and the others. -/
theorem toList_perm_cons_remove (h : (k, v) ∈ m) : m.toList.Perm ((k, v) :: (m.remove k).toList) :=
  OrdSet.toList_perm_cons_erase h

/-- A pair that is stored and the others. -/
theorem toList_set_perm (m : KeyMap K V) (k : K) (v : V) :
    (m.set k v).toList.Perm ((k, v) :: (m.remove k).toList) :=
  OrdSet.toList_insert_perm fun _ hc => (OrdSet.mem_erase.mp hc).2

/-- Nothing is removed under a key that is not there. -/
theorem remove_eq_self (h : ∀ v, (k, v) ∉ m) : m.remove k = m := by
  apply OrdSet.ext
  intro e
  rw [mem_remove]
  refine and_iff_left_of_imp ?_
  rintro hmem rfl
  exact h e.2 hmem

end KeyMap

end Xeqm.Lib
