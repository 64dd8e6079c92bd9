import LogSyntax.Proofs.LruCache.History
/-!
# Building a value, or inserting it

A cache that is asked for a key and a builder makes room first, if it is full, and then takes the
new value in. Whoever looks the key up and inserts a new value where there was none lets the cache
make room afterwards, if there is one entry too many. On every cache that requests can lead to, the
two leave the same entries in the same order (`getOrBuild_agrees`): it holds no more than it may, so
one entry goes in both cases or none does, and since it holds at least one, that is never the new
one.
-/

namespace LogSyntax.LruCache

variable {κ ν : Type} [DecidableEq κ]

/-- A builder that counts how often it runs. -/
def counting (v : ν) : StateM Nat ν := do
  modify (· + 1)
  return v

/-- The value of a key, which is looked up, and if that fails, built and inserted. -/
def getOrInsert {m : Type → Type} [Monad m] (c : LruCache κ ν) (k : κ) (build : m ν) :
    m (ν × LruCache κ ν) :=
  match c.get? k with
  | (some v, c') => return (v, c')
  | (none, c') => do
    let v ← build
    return (v, (c'.insert k v).2)

variable {c : LruCache κ ν}

theorem getOrBuild_eq_getOrInsert {m : Type → Type} [Monad m] (hc : c.Sound) (k : κ)
    (build : m ν) : c.getOrBuild k build = c.getOrInsert k build := by
  unfold getOrInsert
  cases hpeek : c.peek? k with
  | none =>
    rw [getOrBuild_of_none hc hpeek, get?_of_none hpeek]
    simp only [insert_eq hc]
  | some v => rw [getOrBuild_of_some hc hpeek, get?_of_some hc hpeek]

/-- The builder runs once where the key is absent, and not at all where it is held. -/
theorem run_counting (hc : c.Sound) (k : κ) (v : ν) (n : Nat) :
    ((c.getOrBuild k (counting v)).run n).2 = if c.contains k then n else n + 1 := by
  unfold contains
  cases hpeek : c.peek? k with
  | none =>
    rw [getOrBuild_of_none hc hpeek]
    rfl
  | some v' =>
    rw [getOrBuild_of_some hc hpeek]
    rfl

/-- Whatever a new cache was asked for, asking it for a key and a builder comes to the same as a
look-up with an insertion behind it where it fails: the same value, the same entries in the same
order, and all that the builder does besides. It runs exactly where the key is absent. -/
theorem getOrBuild_agrees (capacity : Nat) (hpos : 0 < capacity) :
    ∃ fresh : LruCache κ ν, ofCapacity capacity = .ok fresh ∧ ∀ requests k,
      let c := (fresh.run requests).2
      (∀ {m : Type → Type} [Monad m] (build : m ν),
        c.getOrBuild k build = c.getOrInsert k build) ∧
      ∀ v n, ((c.getOrBuild k (counting v)).run n).2 = if c.contains k then n else n + 1 := by
  refine ⟨⟨[], capacity, hpos⟩, dif_neg (Nat.ne_of_gt hpos), fun requests k => ?_⟩
  have hsound := (keeps_run (c := ⟨[], capacity, hpos⟩) rfl requests).1.sound
  exact ⟨getOrBuild_eq_getOrInsert hsound k, run_counting hsound k⟩

/-- A cache of one entry gives it up for the new one in both ways, and builds the value once. -/
theorem getOrBuild_agrees_single :
    ∃ fresh : LruCache Char Nat, ofCapacity 1 = .ok fresh ∧
      let c := (fresh.run [.insert 'a' 1]).2
      (c.getOrBuild 'b' (counting 2)).run 0 = (c.getOrInsert 'b' (counting 2)).run 0 ∧
        ((c.getOrInsert 'b' (counting 2)).run 0).1.2.entries = [('b', 2)] ∧
        ((c.getOrBuild 'b' (counting 2)).run 0).2 = 1 ∧
        ((c.getOrBuild 'a' (counting 2)).run 0).2 = 0 := by
  obtain ⟨fresh, hfresh, hall⟩ := getOrBuild_agrees (κ := Char) (ν := Nat) 1 (by decide)
  obtain ⟨hsame, habsent⟩ := hall [.insert 'a' 1] 'b'
  obtain ⟨-, hheld⟩ := hall [.insert 'a' 1] 'a'
  refine ⟨fresh, hfresh, congrArg (·.run 0) (hsame (counting 2)), ?_, ?_, ?_⟩
  · cases hfresh
    rfl
  · rw [habsent]
    cases hfresh
    rfl
  · rw [hheld]
    cases hfresh
    rfl

end LogSyntax.LruCache
