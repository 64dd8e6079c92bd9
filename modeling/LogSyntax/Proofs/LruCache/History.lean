import LogSyntax.Proofs.LruCache.Use
/-!
# What the history of a cache tells

Requests to a cache and its answers make up its history. A history touches a key by inserting it, by
asking for its value or a new one, and by a look-up that finds it. Nothing more than the history is
needed to say what the cache holds (`recounts_run`): the keys that were touched last since the cache
was cleared, in the order in which they were, each with the value that it was given last. Every
answer of the history follows from what came before it.
-/

namespace LogSyntax.LruCache

variable {κ ν : Type}

/-! ## Requests and answers -/

/-- What may be asked of a cache. -/
inductive Request (κ ν : Type) where
  | insert (k : κ) (v : ν)
  | get (k : κ)
  | peek (k : κ)
  | contains (k : κ)
  /-- The value of a key, or this one for an absent key. -/
  | getOrBuild (k : κ) (v : ν)
  | clear
deriving DecidableEq, Repr

/-- What a cache answers. -/
inductive Answer (ν : Type) where
  /-- The value of a key, if it is held; for a new value, the one before it. -/
  | value (v : Option ν)
  /-- Whether a key is held. -/
  | held (b : Bool)
  /-- The value of a key, and whether it had to be built. -/
  | built (v : ν) (fresh : Bool)
  | done
deriving DecidableEq, Repr

/-- A request with its answer. -/
structure Event (κ ν : Type) where
  request : Request κ ν
  answer : Answer ν
deriving DecidableEq, Repr

/-- A builder that leaves a mark when it runs. -/
def marking (v : ν) : StateM Bool ν := do
  set true
  return v

section Run

variable [DecidableEq κ]

/-- The answer to a request, and the cache behind it. -/
def serve (c : LruCache κ ν) : Request κ ν → Answer ν × LruCache κ ν
  | .insert k v =>
    let (previous, c') := c.insert k v
    (.value previous, c')
  | .get k =>
    let (value, c') := c.get? k
    (.value value, c')
  | .peek k => (.value (c.peek? k), c)
  | .contains k => (.held (c.contains k), c)
  | .getOrBuild k v =>
    let ((value, c'), fresh) := (c.getOrBuild k (marking v)).run false
    (.built value fresh, c')
  | .clear => (.done, c.clear)

/-- The history of a cache that serves requests one after the other, and the cache behind it. -/
def run (c : LruCache κ ν) (requests : List (Request κ ν)) : List (Event κ ν) × LruCache κ ν :=
  requests.foldl
    (fun (events, c) request =>
      let (answer, c') := c.serve request
      (events ++ [⟨request, answer⟩], c'))
    ([], c)

theorem run_concat (c : LruCache κ ν) (requests : List (Request κ ν)) (request : Request κ ν) :
    c.run (requests ++ [request]) =
      ((c.run requests).1 ++ [⟨request, ((c.run requests).2.serve request).1⟩],
        ((c.run requests).2.serve request).2) := by
  rw [run, List.foldl_append]
  rfl

end Run

/-! ## What is read off a history -/

namespace Event

/-- The cache was cleared. -/
def isClear (e : Event κ ν) : Bool :=
  match e.request with
  | .clear => true
  | _ => false

/-- The key that the event touches. -/
def touched? (e : Event κ ν) : Option κ :=
  match e.request, e.answer with
  | .insert k _, _ => some k
  | .getOrBuild k _, _ => some k
  | .get k, .value (some _) => some k
  | _, _ => none

/-- The value that the event gives to a key. -/
def given? [DecidableEq κ] (k : κ) (e : Event κ ν) : Option ν :=
  match e.request, e.answer with
  | .insert k' v, _ => if k' = k then some v else none
  | .getOrBuild k' v, .built _ true => if k' = k then some v else none
  | _, _ => none

end Event

/-- The keys that were touched since the last clearing, one touch after the other. -/
def touches (events : List (Event κ ν)) : List κ :=
  (events.rtakeWhile (!·.isClear)).filterMap Event.touched?

theorem touches_concat {events : List (Event κ ν)} {e : Event κ ν} (he : e.isClear = false) :
    touches (events ++ [e]) = touches events ++ e.touched?.toList := by
  rw [touches, List.rtakeWhile_concat_pos _ _ _ (by simp [he]), List.filterMap_append, touches]
  cases htouched : e.touched? <;> simp [htouched]

theorem touches_clear (events : List (Event κ ν)) {e : Event κ ν} (he : e.isClear = true) :
    touches (events ++ [e]) = [] := by
  rw [touches, List.rtakeWhile_concat_neg _ _ _ (by simp [he])]
  rfl

variable [DecidableEq κ]

/-- The value that a key was given last. -/
def lastGiven (k : κ) (events : List (Event κ ν)) : Option ν :=
  (events.filterMap (Event.given? k)).getLast?

theorem lastGiven_concat (k : κ) (events : List (Event κ ν)) (e : Event κ ν) :
    lastGiven k (events ++ [e]) = (e.given? k).or (lastGiven k events) := by
  rw [lastGiven, List.filterMap_append, lastGiven]
  cases hgiven : e.given? k <;> simp [hgiven]

/-- The value that a cache holds for a key after a history. -/
def heldValue (capacity : Nat) (events : List (Event κ ν)) (k : κ) : Option ν :=
  if k ∈ recent capacity (touches events) then lastGiven k events else none

/-- The answer that a history calls for. -/
def answerTo (capacity : Nat) (past : List (Event κ ν)) : Request κ ν → Answer ν
  | .insert k _ | .get k | .peek k => .value (heldValue capacity past k)
  | .contains k => .held (heldValue capacity past k).isSome
  | .getOrBuild k v =>
    .built ((heldValue capacity past k).getD v) (heldValue capacity past k).isNone
  | .clear => .done

/-- The history tells what the cache holds, and how it came to its answers. -/
structure Recounts (capacity : Nat) (events : List (Event κ ν)) (c : LruCache κ ν) : Prop where
  keys : c.keys = recent capacity (touches events)
  nodup : c.keys.Nodup
  size : c.size = min capacity (touches events).dedup.length
  value : ∀ k v, (k, v) ∈ c.entries → lastGiven k events = some v
  answers : ∀ past e later, events = past ++ e :: later →
    e.answer = answerTo capacity past e.request

/-! ## One request -/

variable {c : LruCache κ ν} {events : List (Event κ ν)} {e : Event κ ν} {k : κ} {v : ν}

theorem serve_insert (hc : c.Sound) (k : κ) (v : ν) :
    c.serve (.insert k v) = (.value (c.peek? k), c.use k v) := by
  rw [serve, insert_eq hc]

theorem serve_get_of_some (hc : c.Sound) (h : c.peek? k = some v) :
    c.serve (.get k) = (.value (some v), c.use k v) := by
  rw [serve, get?_of_some hc h]

theorem serve_get_of_none (h : c.peek? k = none) : c.serve (.get k) = (.value none, c) := by
  rw [serve, get?_of_none h]

theorem serve_getOrBuild_of_some {v' : ν} (hc : c.Sound) (h : c.peek? k = some v') (v : ν) :
    c.serve (.getOrBuild k v) = (.built v' false, c.use k v') := by
  rw [serve, getOrBuild_of_some hc h]
  rfl

theorem serve_getOrBuild_of_none (hc : c.Sound) (h : c.peek? k = none) (v : ν) :
    c.serve (.getOrBuild k v) = (.built v true, c.use k v) := by
  rw [serve, getOrBuild_of_none hc h]
  rfl

/-- What is kept of a history while it goes on. -/
structure Keeps (events : List (Event κ ν)) (c : LruCache κ ν) : Prop where
  sound : c.Sound
  keys : c.keys = recent c.capacity (touches events)
  value : ∀ x ∈ c.entries, lastGiven x.1 events = some x.2

namespace Keeps

theorem heldValue_eq (h : Keeps events c) (k : κ) : heldValue c.capacity events k = c.peek? k := by
  rw [heldValue, ← h.keys]
  cases hpeek : c.peek? k with
  | none => rw [if_neg (peek?_eq_none_iff.1 hpeek)]
  | some v =>
    have hmem := (peek?_eq_some_iff h.sound).1 hpeek
    rw [if_pos (mem_keys_of_mem hmem)]
    exact h.value _ hmem

theorem lastGiven_of_peek? (h : Keeps events c) (hpeek : c.peek? k = some v) :
    lastGiven k events = some v :=
  h.value _ ((peek?_eq_some_iff h.sound).1 hpeek)

/-- An event that touches no key and gives no value leaves the cache as it is. -/
theorem idle (h : Keeps events c) (hclear : e.isClear = false) (htouched : e.touched? = none)
    (hgiven : ∀ k, e.given? k = none) : Keeps (events ++ [e]) c := by
  refine ⟨h.sound, ?_, fun x hx => ?_⟩
  · rw [touches_concat hclear, htouched, h.keys]
    simp
  · rw [lastGiven_concat, hgiven, Option.none_or, h.value x hx]

/-- An event that touches a key uses its entry, whose value is given by the event or was before. -/
theorem use (h : Keeps events c) (hclear : e.isClear = false) (htouched : e.touched? = some k)
    (hgiven : ∀ k', k' ≠ k → e.given? k' = none)
    (hvalue : (e.given? k).or (lastGiven k events) = some v) :
    Keeps (events ++ [e]) (c.use k v) := by
  refine ⟨sound_use h.sound k v, ?_, fun x hx => ?_⟩
  · rw [touches_concat hclear, htouched]
    exact keys_use_of_recent h.keys k v
  · rw [lastGiven_concat]
    rcases mem_entries_use hx with rfl | ⟨hmem, hne⟩
    · exact hvalue
    · rw [hgiven _ hne, Option.none_or, h.value x hmem]

theorem clear (hclear : e.isClear = true) : Keeps (events ++ [e]) c.clear := by
  refine ⟨sound_clear c, ?_, by simp [LruCache.clear]⟩
  rw [touches_clear events hclear, recent_nil]
  rfl

/-- A request is answered as the history calls for, and what is kept of the history goes on. -/
theorem serve (h : Keeps events c) (request : Request κ ν) :
    (c.serve request).1 = answerTo c.capacity events request ∧
      Keeps (events ++ [⟨request, (c.serve request).1⟩]) (c.serve request).2 ∧
      (c.serve request).2.capacity = c.capacity := by
  cases request with
  | insert k v =>
    rw [serve_insert h.sound, answerTo, h.heldValue_eq]
    refine ⟨rfl, h.use rfl rfl (fun k' hk' => if_neg hk'.symm) ?_, rfl⟩
    simp [Event.given?]
  | get k =>
    rw [answerTo, h.heldValue_eq]
    cases hpeek : c.peek? k with
    | none =>
      rw [serve_get_of_none hpeek]
      exact ⟨rfl, h.idle rfl rfl fun _ => rfl, rfl⟩
    | some v =>
      rw [serve_get_of_some h.sound hpeek]
      exact ⟨rfl, h.use rfl rfl (fun _ _ => rfl) (h.lastGiven_of_peek? hpeek), rfl⟩
  | peek k =>
    rw [answerTo, h.heldValue_eq]
    exact ⟨rfl, h.idle rfl rfl fun _ => rfl, rfl⟩
  | contains k =>
    rw [answerTo, h.heldValue_eq]
    exact ⟨rfl, h.idle rfl rfl fun _ => rfl, rfl⟩
  | getOrBuild k v =>
    rw [answerTo, h.heldValue_eq]
    cases hpeek : c.peek? k with
    | none =>
      rw [serve_getOrBuild_of_none h.sound hpeek]
      refine ⟨rfl, h.use rfl rfl (fun k' hk' => if_neg hk'.symm) ?_, rfl⟩
      simp [Event.given?]
    | some v' =>
      rw [serve_getOrBuild_of_some h.sound hpeek]
      exact ⟨rfl, h.use rfl rfl (fun _ _ => rfl) (h.lastGiven_of_peek? hpeek), rfl⟩
  | clear => exact ⟨rfl, .clear rfl, rfl⟩

end Keeps

/-! ## A whole history -/

theorem keeps_run (hempty : c.entries = []) (requests : List (Request κ ν)) :
    Keeps (c.run requests).1 (c.run requests).2 ∧ (c.run requests).2.capacity = c.capacity := by
  induction requests using List.reverseRecOn with
  | nil =>
    refine ⟨⟨sound_of_empty hempty, ?_, ?_⟩, rfl⟩
    · show c.keys = recent c.capacity []
      rw [recent_nil, keys_of_empty hempty]
    · show ∀ x ∈ c.entries, _
      simp [hempty]
  | append_singleton requests request ih =>
    obtain ⟨hkeeps, hcapacity⟩ := ih
    obtain ⟨-, hnext, hsame⟩ := hkeeps.serve request
    rw [run_concat]
    exact ⟨hnext, hsame.trans hcapacity⟩

/-- Every answer is the one that what came before it calls for. -/
theorem answers_run (hempty : c.entries = []) (requests : List (Request κ ν)) :
    ∀ past e later, (c.run requests).1 = past ++ e :: later →
      e.answer = answerTo c.capacity past e.request := by
  induction requests using List.reverseRecOn with
  | nil =>
    intro past e later heq
    have hnil : ([] : List (Event κ ν)) = past ++ e :: later := heq
    simp at hnil
  | append_singleton requests request ih =>
    intro past e later heq
    rw [run_concat] at heq
    rcases List.eq_nil_or_concat' later with rfl | ⟨later, last, rfl⟩
    · obtain ⟨rfl, he⟩ := List.append_inj' heq rfl
      obtain rfl := (List.cons.inj he).1
      obtain ⟨hkeeps, hcapacity⟩ := keeps_run hempty requests
      rw [← hcapacity]
      exact (hkeeps.serve request).1
    · rw [← List.cons_append, ← List.append_assoc] at heq
      exact ih past e later (List.append_inj' heq rfl).1

/-- From the history of a new cache follows what it holds: the keys that were touched last, as many
of them as it may hold, each with the value that it was given last. And so do all its answers, that
of an insertion among them, which is the value that the key had before. -/
theorem recounts_run (capacity : Nat) (hpos : 0 < capacity) :
    ∃ fresh : LruCache κ ν, ofCapacity capacity = .ok fresh ∧
      ∀ requests, Recounts capacity (fresh.run requests).1 (fresh.run requests).2 := by
  refine ⟨⟨[], capacity, hpos⟩, dif_neg (Nat.ne_of_gt hpos), fun requests => ?_⟩
  obtain ⟨hkeeps, hcapacity⟩ := keeps_run (c := ⟨[], capacity, hpos⟩) rfl requests
  have hkeys := hkeeps.keys
  rw [hcapacity] at hkeys
  refine ⟨hkeys, hkeeps.sound.nodup, ?_, fun k v hmem => hkeeps.value (k, v) hmem,
    answers_run rfl requests⟩
  rw [← length_keys, hkeys, length_recent]

/-- The second of three keys is the one that was used least recently when the third one came. -/
theorem recounts_run_evicts :
    ∃ fresh : LruCache Char Nat, ofCapacity 2 = .ok fresh ∧
      let requests := [.insert 'a' 1, .insert 'b' 2, .get 'a', .insert 'c' 3, .insert 'a' 4]
      Recounts 2 (fresh.run requests).1 (fresh.run requests).2 ∧
        (fresh.run requests).2.entries = [('c', 3), ('a', 4)] ∧
        (fresh.run requests).1.getLast? = some ⟨.insert 'a' 4, .value (some 1)⟩ := by
  obtain ⟨fresh, hfresh, hall⟩ := recounts_run (κ := Char) (ν := Nat) 2 (by decide)
  refine ⟨fresh, hfresh, hall _, ?_⟩
  cases hfresh
  exact ⟨rfl, rfl⟩

end LogSyntax.LruCache
