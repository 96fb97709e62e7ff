import Mathlib.Data.Finmap

/-!
# Retention and traversal of finite maps

Mathlib's `Finmap` supplies lookup, insertion and erasure up to the order of the
entries. Two operations of hash maps are added: keeping the entries that satisfy
a test, and visiting all entries in some order. The order of a visit is not part
of the map, so a traversal is any list of its entries, each exactly once.
-/

namespace FiniteMaps

universe u v
variable {K : Type u} {V : Type v}

/-- A finite map whose values do not depend on the key. -/
abbrev FiniteMap (K : Type u) (V : Type v) : Type (max u v) := Finmap (fun _ : K => V)

/-- Keep exactly the entries that satisfy the test. -/
def retain (keep : K → V → Bool) (map : FiniteMap K V) : FiniteMap K V where
  entries := map.entries.filter (fun entry => keep entry.1 entry.2)
  nodupKeys := Multiset.nodup_keys.mp
    (Multiset.nodup_of_le (Multiset.map_le_map (Multiset.filter_le _ _))
      (Multiset.nodup_keys.mpr map.nodupKeys))

variable [DecidableEq K]

/-- A retained value is an original value that passed the test. -/
theorem lookup_retain_some (keep : K → V → Bool) (map : FiniteMap K V) (key : K) (value : V) :
    (retain keep map).lookup key = some value ↔
      map.lookup key = some value ∧ keep key value = true := by
  rw [Finmap.lookup_eq_some_iff, Finmap.lookup_eq_some_iff]
  exact Multiset.mem_filter

/-- Lookup after retention filters the original lookup. -/
theorem lookup_retain (keep : K → V → Bool) (map : FiniteMap K V) (key : K) :
    (retain keep map).lookup key = (map.lookup key).filter (keep key) := by
  apply Option.ext
  intro value
  simp only [lookup_retain_some, Option.filter_eq_some_iff]

/-- Lookup after insertion distinguishes the written key from every other key. -/
theorem lookup_insert_eq (map : FiniteMap K V) (written key : K) (value : V) :
    (map.insert written value).lookup key =
      if key = written then some value else map.lookup key := by
  by_cases same : key = written
  · subst same
    simp only [Finmap.lookup_insert, if_true]
  · simp only [Finmap.lookup_insert_of_ne map same, if_neg same]

/-- Lookup after erasure distinguishes the erased key from every other key. -/
theorem lookup_erase_eq (map : FiniteMap K V) (erased key : K) :
    (map.erase erased).lookup key = if key = erased then none else map.lookup key := by
  by_cases same : key = erased
  · subst same
    simp only [Finmap.lookup_erase, if_true]
  · simp only [Finmap.lookup_erase_ne same, if_neg same]

/-- A map without values is empty. -/
theorem empty_of_lookup {map : FiniteMap K V}
    (nothing : ∀ key value, map.lookup key ≠ some value) : map = ∅ := by
  apply Finmap.ext_lookup
  intro key
  rw [Finmap.lookup_empty]
  exact Option.eq_none_iff_forall_ne_some.mpr (nothing key)

/-- One visit of all entries: some order of the map's entries, each once. -/
structure Traversal (map : FiniteMap K V) where
  order : List (Σ _ : K, V)
  exact : (order : Multiset (Σ _ : K, V)) = map.entries

omit [DecidableEq K] in
/-- Every map can be visited. -/
theorem traversal_exists (map : FiniteMap K V) : Nonempty (Traversal map) :=
  ⟨⟨map.entries.toList, Multiset.coe_toList _⟩⟩

omit [DecidableEq K] in
/-- A traversal visits no key twice. -/
theorem traversal_nodup {map : FiniteMap K V} (visit : Traversal map) :
    (visit.order.map Sigma.fst).Nodup := by
  have distinct := map.nodupKeys
  rw [← visit.exact, Multiset.coe_nodupKeys] at distinct
  exact distinct

/-- A traversal visits a key with a value exactly when lookup returns it. -/
theorem traversal_lookup {map : FiniteMap K V} (visit : Traversal map) (key : K) (value : V) :
    ⟨key, value⟩ ∈ visit.order ↔ map.lookup key = some value := by
  rw [Finmap.lookup_eq_some_iff, ← visit.exact, Multiset.mem_coe]

end FiniteMaps
