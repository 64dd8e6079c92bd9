import LogSyntax.Proofs.LruCache.History
/-!
# A larger cache keeps more

Two caches serve the same requests, and one of them may hold more entries than the other. A look-up
that finds a key in the larger one alone makes it the most recently used one there, so the keys of
the smaller one need not be those that the larger one used last. But all of them are held by the
larger one, in the same order (`keys_run_sublist`). What carries this from request to request is
that both hold the same as long as the smaller one has room (`Within.room`): so when the larger one
gives up a key, the smaller one is full and gives up one as well.
-/

namespace LogSyntax.LruCache

variable {κ ν : Type}

/-- The key that is asked for. -/
def Request.key? : Request κ ν → Option κ
  | .insert k _ | .get k | .peek k | .contains k | .getOrBuild k _ => some k
  | .clear => none

/-- The answer tells that the key was held. -/
def Answer.isHit : Answer ν → Bool
  | .value v => v.isSome
  | .held b => b
  | .built _ fresh => !fresh
  | .done => false

/-- Two caches got the same request, and if the first one held the key, so did the second one. -/
structure Event.Outdone (e e' : Event κ ν) : Prop where
  request : e.request = e'.request
  hit : e.answer.isHit = true → e'.answer.isHit = true

/-- What a smaller cache holds is held by a larger one, in the same order, and nothing else is, as
long as the smaller one has room. -/
structure Within (small large : LruCache κ ν) : Prop where
  sound : small.Sound
  sound_large : large.Sound
  capacity : small.capacity ≤ large.capacity
  keys : small.keys.Sublist large.keys
  room : small.size < small.capacity → small.keys = large.keys

variable [DecidableEq κ] {c small large : LruCache κ ν} {k : κ} {v : ν}

/-! ## Hits -/

theorem isHit_serve (hc : c.Sound) (request : Request κ ν) :
    (c.serve request).1.isHit = request.key?.any c.contains := by
  cases request with
  | insert k v =>
    rw [serve_insert hc]
    rfl
  | get k =>
    show _ = (c.peek? k).isSome
    cases hpeek : c.peek? k with
    | none =>
      rw [serve_get_of_none hpeek]
      rfl
    | some v =>
      rw [serve_get_of_some hc hpeek]
      rfl
  | peek k => rfl
  | contains k => rfl
  | getOrBuild k v =>
    show _ = (c.peek? k).isSome
    cases hpeek : c.peek? k with
    | none =>
      rw [serve_getOrBuild_of_none hc hpeek]
      rfl
    | some v' =>
      rw [serve_getOrBuild_of_some hc hpeek]
      rfl
  | clear => rfl

/-- Whether its value was held or is built, the key is used. -/
theorem exists_serve_getOrBuild (hc : c.Sound) (k : κ) (v : ν) :
    ∃ v', (c.serve (.getOrBuild k v)).2 = c.use k v' := by
  cases hpeek : c.peek? k with
  | none => exact ⟨v, congrArg Prod.snd (serve_getOrBuild_of_none hc hpeek v)⟩
  | some v' => exact ⟨v', congrArg Prod.snd (serve_getOrBuild_of_some hc hpeek v)⟩

/-! ## One request -/

namespace Within

/-- Where the larger cache gives up a key to make room, the smaller one gives up a key as well. -/
theorem cut_le (h : Within small large) (k : κ) :
    (large.others k).length - (large.capacity - 1) ≤
      (small.others k).length - (small.capacity - 1) := by
  have hsize := h.sound_large.size
  have hcapacity := h.capacity
  have hpos := small.capacity_pos
  by_cases hk : k ∈ large.keys
  · have hlt := length_others_lt hk
    omega
  · have hk' : k ∉ small.keys := fun hmem => hk (h.keys.subset hmem)
    rw [others_of_notMem hk, others_of_notMem hk']
    by_cases hroom : small.size < small.capacity
    · have hlength := congrArg List.length (h.room hroom)
      rw [length_keys, length_keys] at hlength
      unfold size at *
      omega
    · -- the smaller cache is full, so it gives up a key in any case
      unfold size at *
      omega

/-- Both caches use a key, each with a value of its own. -/
theorem use (h : Within small large) (k : κ) (v w : ν) :
    Within (small.use k v) (large.use k w) := by
  have hcut := h.cut_le k
  refine ⟨sound_use h.sound k v, sound_use h.sound_large k w, h.capacity, ?_, fun hroom => ?_⟩
  · rw [← length_keys_filter, ← length_keys_filter] at hcut
    rw [keys_use, keys_use]
    exact (sublist_rtake (h.keys.filter _) hcut).append (List.Sublist.refl [k])
  · -- there was room before, and neither cache had to make any
    have hothers : (small.others k).length < small.capacity - 1 := by
      rw [size_use] at hroom
      have hcapacity : (small.use k v).capacity = small.capacity := rfl
      omega
    have hle := size_le_length_others h.sound k
    have hkeys := h.room (by omega)
    rw [← length_keys_filter] at hothers
    have hcapacity := h.capacity
    rw [keys_use, keys_use, rtake_of_length_le (by omega), hkeys,
      rtake_of_length_le (by rw [← hkeys]; omega)]

/-- The larger cache alone holds the key that is looked up. -/
theorem refresh (h : Within small large) (hsmall : k ∉ small.keys) (hlarge : k ∈ large.keys)
    (w : ν) : Within small (large.use k w) := by
  refine ⟨h.sound, sound_use h.sound_large k w, h.capacity, ?_, fun hroom => ?_⟩
  · have hothers : small.keys.filter (· ≠ k) = small.keys := by
      rw [← map_fst_others, others_of_notMem hsmall]
      rfl
    have hlt := length_others_lt hlarge
    have hsize := h.sound_large.size
    rw [keys_use, rtake_of_length_le (by rw [length_keys_filter]; omega), ← hothers]
    exact (h.keys.filter _).trans (List.sublist_append_left _ _)
  · -- with room left, the smaller cache would hold the key as well
    rw [h.room hroom] at hsmall
    exact absurd hlarge hsmall

omit [DecidableEq κ] in
theorem clear (h : Within small large) : Within small.clear large.clear :=
  ⟨sound_clear small, sound_clear large, h.capacity, List.Sublist.refl [], fun _ => rfl⟩

theorem serve (h : Within small large) (request : Request κ ν) :
    Within (small.serve request).2 (large.serve request).2 := by
  cases request with
  | insert k v =>
    rw [serve_insert h.sound, serve_insert h.sound_large]
    exact h.use k v v
  | get k =>
    by_cases hlarge : k ∈ large.keys
    · obtain ⟨w, hw⟩ := exists_peek? hlarge
      rw [serve_get_of_some h.sound_large hw]
      by_cases hsmall : k ∈ small.keys
      · obtain ⟨v, hv⟩ := exists_peek? hsmall
        rw [serve_get_of_some h.sound hv]
        exact h.use k v w
      · rw [serve_get_of_none (peek?_eq_none_iff.2 hsmall)]
        exact h.refresh hsmall hlarge w
    · have hsmall : k ∉ small.keys := fun hmem => hlarge (h.keys.subset hmem)
      rw [serve_get_of_none (peek?_eq_none_iff.2 hsmall),
        serve_get_of_none (peek?_eq_none_iff.2 hlarge)]
      exact h
  | peek k => exact h
  | contains k => exact h
  | getOrBuild k v =>
    obtain ⟨v', hsmall⟩ := exists_serve_getOrBuild h.sound k v
    obtain ⟨w, hlarge⟩ := exists_serve_getOrBuild h.sound_large k v
    rw [hsmall, hlarge]
    exact h.use k v' w
  | clear => exact h.clear

theorem outdone (h : Within small large) (request : Request κ ν) :
    Event.Outdone ⟨request, (small.serve request).1⟩ ⟨request, (large.serve request).1⟩ := by
  refine ⟨rfl, fun hhit => ?_⟩
  rw [isHit_serve h.sound, Option.any_eq_true] at hhit
  rw [isHit_serve h.sound_large, Option.any_eq_true]
  obtain ⟨k, hk, hcontains⟩ := hhit
  exact ⟨k, hk, contains_iff.2 (h.keys.subset (contains_iff.1 hcontains))⟩

/-! ## A whole history -/

theorem run (h : Within small large) (requests : List (Request κ ν)) :
    Within (small.run requests).2 (large.run requests).2 ∧
      List.Forall₂ Event.Outdone (small.run requests).1 (large.run requests).1 := by
  induction requests using List.reverseRecOn with
  | nil => exact ⟨h, .nil⟩
  | append_singleton requests request ih =>
    obtain ⟨hwithin, hevents⟩ := ih
    rw [run_concat, run_concat]
    exact ⟨hwithin.serve request,
      List.rel_append hevents (.cons (hwithin.outdone request) .nil)⟩

end Within

/-- Whatever is asked of two new caches, after each request the keys of the smaller one stand in the
same order among those of the larger one, and what the smaller one held when it was asked for, the
larger one held as well. -/
theorem keys_run_sublist (capacity capacity' : Nat) (hpos : 0 < capacity)
    (hle : capacity ≤ capacity') :
    ∃ small large : LruCache κ ν, ofCapacity capacity = .ok small ∧
      ofCapacity capacity' = .ok large ∧ ∀ requests,
        (small.run requests).2.keys.Sublist (large.run requests).2.keys ∧
          List.Forall₂ Event.Outdone (small.run requests).1 (large.run requests).1 := by
  have hpos' : 0 < capacity' := Nat.lt_of_lt_of_le hpos hle
  refine ⟨⟨[], capacity, hpos⟩, ⟨[], capacity', hpos'⟩, dif_neg (Nat.ne_of_gt hpos),
    dif_neg (Nat.ne_of_gt hpos'), fun requests => ?_⟩
  have hfresh : Within (⟨[], capacity, hpos⟩ : LruCache κ ν) ⟨[], capacity', hpos'⟩ :=
    ⟨sound_of_empty rfl, sound_of_empty rfl, hle, List.Sublist.refl [], fun _ => rfl⟩
  obtain ⟨hwithin, hevents⟩ := hfresh.run requests
  exact ⟨hwithin.keys, hevents⟩

/-- Only the larger cache finds `a`, which then stands between the keys of the smaller one. -/
theorem keys_run_sublist_found :
    ∃ small large : LruCache Char Nat, ofCapacity 2 = .ok small ∧ ofCapacity 3 = .ok large ∧
      let requests := [.insert 'a' 1, .insert 'b' 2, .insert 'c' 3, .get 'a', .insert 'd' 4]
      (small.run requests).2.keys.Sublist (large.run requests).2.keys ∧
        List.Forall₂ Event.Outdone (small.run requests).1 (large.run requests).1 ∧
        (small.run requests).2.keys = ['c', 'd'] ∧
        (large.run requests).2.keys = ['c', 'a', 'd'] := by
  obtain ⟨small, large, hsmall, hlarge, hall⟩ :=
    keys_run_sublist (κ := Char) (ν := Nat) 2 3 (by decide) (by decide)
  refine ⟨small, large, hsmall, hlarge, (hall _).1, (hall _).2, ?_⟩
  cases hsmall
  cases hlarge
  exact ⟨rfl, rfl⟩

end LogSyntax.LruCache
