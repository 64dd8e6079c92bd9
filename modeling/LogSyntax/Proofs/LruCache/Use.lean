import LogSyntax.LruCache
import LogSyntax.Proofs.LruCache.Recent
/-!
# Using an entry

There are three ways to bring an entry into a cache or to the end of it, and each of them makes
room at its own moment: after the entry has come in, before it does, or not at all. On a cache that
keeps to its capacity and holds no key twice they come to the same (`use`): the entry is the most
recently used one, and of the others the least recently used ones go as far as it needs room. So a
cache that holds the keys that came last holds them after a use as well (`keys_use_of_recent`).
-/

namespace LogSyntax.LruCache

variable {κ ν : Type}

/-- The cache keeps to its capacity and holds no key twice. -/
structure Sound (c : LruCache κ ν) : Prop where
  nodup : c.keys.Nodup
  size : c.size ≤ c.capacity

theorem length_keys (c : LruCache κ ν) : c.keys.length = c.size := List.length_map _

theorem keys_of_empty {c : LruCache κ ν} (h : c.entries = []) : c.keys = [] := by
  rw [keys, h, List.map_nil]

theorem sound_of_empty {c : LruCache κ ν} (h : c.entries = []) : c.Sound := by
  constructor
  · rw [keys_of_empty h]
    exact .nil
  · rw [← length_keys, keys_of_empty h]
    exact Nat.zero_le _

theorem sound_clear (c : LruCache κ ν) : c.clear.Sound := sound_of_empty rfl

theorem mem_keys_of_mem {c : LruCache κ ν} {x : κ × ν} (h : x ∈ c.entries) : x.1 ∈ c.keys :=
  List.mem_map_of_mem h

variable [DecidableEq κ] {c : LruCache κ ν} {k : κ} {v : ν}

/-- The cache after the use of an entry. -/
def use (c : LruCache κ ν) (k : κ) (v : ν) : LruCache κ ν :=
  { c with entries := (c.others k).rtake (c.capacity - 1) ++ [(k, v)] }

/-! ## What a cache holds -/

/-- The value of a key is that of its only entry. -/
theorem peek?_eq_some_iff (hc : c.Sound) : c.peek? k = some v ↔ (k, v) ∈ c.entries := by
  have hnodup := hc.nodup
  unfold keys at hnodup
  unfold peek?
  generalize c.entries = entries at hnodup ⊢
  induction entries with
  | nil => simp
  | cons x entries ih =>
    obtain ⟨k', v'⟩ := x
    rw [List.map_cons, List.nodup_cons] at hnodup
    by_cases hk : k = k'
    · subst hk
      have habsent : (k, v) ∉ entries := fun h => hnodup.1 (List.mem_map.2 ⟨(k, v), h, rfl⟩)
      simp [habsent, eq_comm]
    · have hlookup : List.lookup k ((k', v') :: entries) = List.lookup k entries := by
        rw [List.lookup_cons, beq_false_of_ne hk]
      rw [hlookup]
      exact (ih hnodup.2).trans (by simp [hk])

theorem peek?_eq_none_iff : c.peek? k = none ↔ k ∉ c.keys := by
  rw [peek?, List.lookup_eq_none_iff, keys, List.mem_map]
  constructor
  · rintro hall ⟨x, hx, rfl⟩
    simpa using hall x hx
  · intro hnone x hx
    have hne : k ≠ x.1 := fun hk => hnone ⟨x, hx, hk.symm⟩
    simpa using hne

theorem contains_iff : c.contains k = true ↔ k ∈ c.keys := by
  rw [contains, Option.isSome_iff_ne_none, ne_eq, peek?_eq_none_iff, not_not]

theorem exists_peek? (h : k ∈ c.keys) : ∃ v, c.peek? k = some v :=
  Option.isSome_iff_exists.1 (contains_iff.2 h)

theorem map_fst_others (c : LruCache κ ν) (k : κ) :
    (c.others k).map (·.1) = c.keys.filter (· ≠ k) := by
  rw [keys, List.filter_map]
  rfl

/-- Where a key is absent, all entries are others. -/
theorem others_of_notMem (h : k ∉ c.keys) : c.others k = c.entries := by
  rw [others, List.filter_eq_self]
  intro x hx
  have hne : x.1 ≠ k := fun hk => h (hk ▸ mem_keys_of_mem hx)
  simpa using hne

/-- Where a key is held, there is one entry less among the others. -/
theorem length_others_lt (h : k ∈ c.keys) : (c.others k).length < c.size := by
  obtain ⟨x, hx, rfl⟩ := List.mem_map.1 h
  refine List.length_filter_lt_length_iff_exists.2 ⟨x, hx, ?_⟩
  simp

theorem length_others_le (c : LruCache κ ν) (k : κ) : (c.others k).length ≤ c.size :=
  List.length_filter_le _ _

theorem length_keys_filter (c : LruCache κ ν) (k : κ) :
    (c.keys.filter (· ≠ k)).length = (c.others k).length := by
  rw [← map_fst_others, List.length_map]

/-- All entries but one are others. -/
theorem size_le_length_others (hc : c.Sound) (k : κ) : c.size ≤ (c.others k).length + 1 := by
  rw [← length_keys, ← length_keys_filter]
  exact length_le_filter_ne hc.nodup k

/-! ## What is left after a use -/

theorem keys_use (c : LruCache κ ν) (k : κ) (v : ν) :
    (c.use k v).keys = (c.keys.filter (· ≠ k)).rtake (c.capacity - 1) ++ [k] := by
  rw [← map_fst_others, keys, use, List.map_append, List.rtake, List.map_drop, List.rtake,
    List.length_map]
  rfl

/-- A cache that holds what came last goes on to do so when a key is used. -/
theorem keys_use_of_recent {l : List κ} (h : c.keys = recent c.capacity l) (k : κ) (v : ν) :
    (c.use k v).keys = recent c.capacity (l ++ [k]) := by
  obtain ⟨n, hn⟩ := Nat.exists_eq_succ_of_ne_zero c.capacity_pos.ne'
  rw [keys_use, h, hn]
  exact (recent_concat n l k).symm

theorem mem_entries_use {x : κ × ν} (h : x ∈ (c.use k v).entries) :
    x = (k, v) ∨ x ∈ c.entries ∧ x.1 ≠ k := by
  rcases List.mem_append.1 h with hothers | hlast
  · have hmem : x ∈ c.others k := List.mem_of_mem_drop hothers
    rw [others, List.mem_filter] at hmem
    exact .inr ⟨hmem.1, by simpa using hmem.2⟩
  · exact .inl (List.mem_singleton.1 hlast)

theorem size_use (c : LruCache κ ν) (k : κ) (v : ν) :
    (c.use k v).size = min (c.others k).length (c.capacity - 1) + 1 := by
  rw [size, use, List.length_append, List.rtake, List.length_drop, List.length_singleton]
  omega

theorem sound_use (hc : c.Sound) (k : κ) (v : ν) : (c.use k v).Sound := by
  constructor
  · rw [keys_use]
    have hothers : ((c.keys.filter (· ≠ k)).rtake (c.capacity - 1)).Nodup :=
      (hc.nodup.filter _).sublist (List.drop_sublist _ _)
    refine hothers.append (List.nodup_singleton k) ?_
    rw [List.disjoint_singleton]
    intro hmem
    simpa using (List.mem_filter.1 (List.mem_of_mem_drop hmem)).2
  · have hpos := c.capacity_pos
    have hcapacity : (c.use k v).capacity = c.capacity := rfl
    rw [size_use]
    omega

/-! ## The ways to use an entry -/

/-- An entry comes in, and the least recently used one goes if that is one too many. -/
theorem insert_eq (hc : c.Sound) (k : κ) (v : ν) : c.insert k v = (c.peek? k, c.use k v) := by
  have hpos := c.capacity_pos
  have hsize := hc.size
  have hle := c.length_others_le k
  unfold insert use
  simp only [List.length_append, List.length_singleton]
  by_cases hfull : c.capacity < (c.others k).length + 1
  · have hlength : (c.others k).length - (c.capacity - 1) = 1 := by omega
    have hne : c.others k ≠ [] := by
      rw [← List.length_pos_iff]
      omega
    rw [if_pos hfull, List.rtake, hlength, List.drop_one, List.tail_append_of_ne_nil hne]
  · rw [if_neg hfull, rtake_of_length_le (by omega)]

/-- A look-up that finds a key uses its entry. -/
theorem get?_of_some (hc : c.Sound) (h : c.peek? k = some v) : c.get? k = (some v, c.use k v) := by
  have hmem : k ∈ c.keys := by
    rw [← contains_iff, contains, h]
    rfl
  have hlt := length_others_lt hmem
  have hsize := hc.size
  rw [get?, h, use, rtake_of_length_le (by omega)]

/-- A look-up that finds nothing changes nothing. -/
theorem get?_of_none (h : c.peek? k = none) : c.get? k = (none, c) := by
  rw [get?, h]

section Build

variable {m : Type → Type} [Monad m]

theorem getOrBuild_of_some (hc : c.Sound) (h : c.peek? k = some v) (build : m ν) :
    c.getOrBuild k build = pure (v, c.use k v) := by
  rw [getOrBuild, get?_of_some hc h]

/-- The least recently used entry makes room, if there is none, and then the new one comes in. -/
theorem getOrBuild_of_none (hc : c.Sound) (h : c.peek? k = none) (build : m ν) :
    c.getOrBuild k build = build >>= fun v => pure (v, c.use k v) := by
  have hsize := hc.size
  have hpos := c.capacity_pos
  rw [getOrBuild, get?_of_none h]
  have hkept : (if c.isFull then c.entries.tail else c.entries) =
      c.entries.rtake (c.capacity - 1) := by
    unfold isFull size at *
    by_cases hfull : c.capacity ≤ c.entries.length
    · have hlength : c.entries.length - (c.capacity - 1) = 1 := by omega
      rw [List.rtake, hlength, List.drop_one, if_pos (by simpa using hfull)]
    · rw [rtake_of_length_le (by omega), if_neg (by simpa using hfull)]
  simp only [hkept, use, others_of_notMem (peek?_eq_none_iff.1 h)]

end Build

end LogSyntax.LruCache
