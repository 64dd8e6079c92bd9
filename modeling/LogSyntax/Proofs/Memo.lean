import LogSyntax.Memo
import LogSyntax.Proofs.LruCache.Use
/-!
# Remembered answers are right

Both ways to bring a new answer into the cache come to one (`request_eq`, for both kinds of
requests): the reply is what the function says, and the key is used with it. So nobody can tell
remembered answers from fresh ones but by the note that they were held, and which keys are held
follows from the requests alone (`transparent`).
-/

namespace LogSyntax.Memo

variable {κ ν : Type} {f : κ → ν}

/-! ## Requests in a row -/

/-- What may be asked of remembered answers. -/
inductive Action (κ : Type) where
  | request (k : κ)
  | clear
deriving DecidableEq, Repr

namespace Action

def isClear : Action κ → Bool
  | clear => true
  | request _ => false

def key? : Action κ → Option κ
  | request k => some k
  | clear => none

end Action

/-- The keys that were requested since the last clearing. -/
def requested (actions : List (Action κ)) : List κ :=
  (actions.rtakeWhile (!·.isClear)).filterMap Action.key?

theorem requested_request (actions : List (Action κ)) (k : κ) :
    requested (actions ++ [.request k]) = requested actions ++ [k] := by
  rw [requested, List.rtakeWhile_concat_pos _ _ _ rfl, List.filterMap_append]
  rfl

theorem requested_clear (actions : List (Action κ)) : requested (actions ++ [.clear]) = [] := by
  rw [requested, List.rtakeWhile_concat_neg _ _ _ (by simp [Action.isClear])]
  rfl

/-- What is remembered after some actions, when requests are answered in this way. -/
def after (request : Memo f → κ → Reply ν × Memo f) (m : Memo f) (actions : List (Action κ)) :
    Memo f :=
  actions.foldl
    (fun m action =>
      match action with
      | .request k => (request m k).2
      | .clear => m.clear)
    m

variable [DecidableEq κ]

/-- Remembered answers cannot be told from fresh ones, and which of them are held follows from the
requests. -/
structure Transparent (request : Memo f → κ → Reply ν × Memo f) (capacity : Nat) (fresh : Memo f) :
    Prop where
  value : ∀ actions k, (request (after request fresh actions) k).1.value = f k
  hit : ∀ actions k, (request (after request fresh actions) k).1.hit = true ↔
    k ∈ recent capacity (requested actions)
  evicted : ∀ actions k, (request (after request fresh actions) k).1.evicted = true ↔
    k ∉ recent capacity (requested actions) ∧ capacity ≤ (requested actions).dedup.length
  size : ∀ actions, (after request fresh actions).answers.size =
    min capacity (requested actions).dedup.length

/-! ## One request -/

/-- The answers that are held are what the function says. -/
structure Sound (m : Memo f) : Prop where
  answers : m.answers.Sound
  right : ∀ x ∈ m.answers.entries, x.2 = f x.1

/-- What a request comes to: the key is used with what the function says. -/
def replied (m : Memo f) (k : κ) : Reply ν × Memo f :=
  (⟨f k, m.answers.contains k, !m.answers.contains k && m.answers.isFull⟩,
    ⟨m.answers.use k (f k)⟩)

variable {m : Memo f} {k : κ}

namespace Sound

theorem eq_of_peek? (hm : m.Sound) {v : ν} (h : m.answers.peek? k = some v) : v = f k :=
  hm.right _ ((LruCache.peek?_eq_some_iff hm.answers).1 h)

theorem replied (hm : m.Sound) (k : κ) : (m.replied k).2.Sound := by
  refine ⟨LruCache.sound_use hm.answers k (f k), fun x hx => ?_⟩
  rcases LruCache.mem_entries_use hx with rfl | ⟨hmem, -⟩
  · rfl
  · exact hm.right x hmem

omit [DecidableEq κ] in
theorem clear (m : Memo f) : m.clear.Sound :=
  ⟨LruCache.sound_clear m.answers, by simp [Memo.clear, LruCache.clear]⟩

end Sound

theorem request_eq (hm : m.Sound) (k : κ) : m.request k = m.replied k := by
  unfold request replied
  cases hpeek : m.answers.peek? k with
  | none => rw [LruCache.getOrBuild_of_none hm.answers hpeek]; rfl
  | some v =>
    obtain rfl := hm.eq_of_peek? hpeek
    rw [LruCache.getOrBuild_of_some hm.answers hpeek]
    rfl

/-! ## All requests -/

section All

variable {request : Memo f → κ → Reply ν × Memo f}

theorem keys_after (hrequest : ∀ m : Memo f, m.Sound → ∀ k, request m k = m.replied k)
    {fresh : Memo f} (hfresh : fresh.answers.entries = []) (actions : List (Action κ)) :
    let m := after request fresh actions
    m.Sound ∧ m.answers.capacity = fresh.answers.capacity ∧
      m.answers.keys = recent fresh.answers.capacity (requested actions) := by
  induction actions using List.reverseRecOn with
  | nil =>
    refine ⟨⟨LruCache.sound_of_empty hfresh, ?_⟩, rfl, ?_⟩
    · show ∀ x ∈ fresh.answers.entries, _
      simp [hfresh]
    · exact (LruCache.keys_of_empty hfresh).trans (recent_nil _).symm
  | append_singleton actions action ih =>
    obtain ⟨hsound, hcapacity, hkeys⟩ := ih
    cases action with
    | request k =>
      have hnext : after request fresh (actions ++ [.request k]) =
          ((after request fresh actions).replied k).2 := by
        rw [after, List.foldl_append]
        exact congrArg Prod.snd (hrequest _ hsound k)
      simp only [hnext]
      refine ⟨hsound.replied k, hcapacity, ?_⟩
      rw [requested_request, ← hcapacity]
      exact LruCache.keys_use_of_recent (hcapacity ▸ hkeys) k (f k)
    | clear =>
      have hnext : after request fresh (actions ++ [.clear]) =
          (after request fresh actions).clear := by
        rw [after, List.foldl_append]
        rfl
      simp only [hnext]
      refine ⟨.clear _, hcapacity, ?_⟩
      rw [requested_clear, recent_nil]
      rfl

theorem transparent_of_replied
    (hrequest : ∀ m : Memo f, m.Sound → ∀ k, request m k = m.replied k) (fresh : Memo f)
    (hfresh : fresh.answers.entries = []) :
    Transparent request fresh.answers.capacity fresh := by
  have hall := keys_after hrequest hfresh
  have hsize (actions : List (Action κ)) : (after request fresh actions).answers.size =
      min fresh.answers.capacity (requested actions).dedup.length := by
    rw [← LruCache.length_keys, (hall actions).2.2, length_recent]
  have hheld (actions : List (Action κ)) (k : κ) :
      (after request fresh actions).answers.contains k = true ↔
        k ∈ recent fresh.answers.capacity (requested actions) := by
    rw [LruCache.contains_iff, (hall actions).2.2]
  refine ⟨fun actions k => ?_, fun actions k => ?_, fun actions k => ?_, hsize⟩
  · rw [hrequest _ (hall actions).1]
    rfl
  · rw [hrequest _ (hall actions).1]
    exact hheld actions k
  · have hfull : (after request fresh actions).answers.isFull = true ↔
        fresh.answers.capacity ≤ (requested actions).dedup.length := by
      rw [LruCache.isFull, hsize, (hall actions).2.1, decide_eq_true_iff]
      omega
    rw [hrequest _ (hall actions).1, replied, Bool.and_eq_true, hfull, Bool.not_eq_true',
      ← Bool.not_eq_true, hheld]

end All

end Memo

/-- Working out an answer behind a failed look-up comes to the same as having it built. -/
theorem ContextMemo.request_eq {m : ContextMemo} (hm : m.Sound) (key : Text × Nat) :
    ContextMemo.request m key = Memo.replied m key := by
  unfold ContextMemo.request Memo.replied LruCache.contains
  cases hpeek : m.answers.peek? key with
  | none =>
    rw [LruCache.get?_of_none hpeek]
    simp only [LruCache.insert_eq hm.answers]
    rfl
  | some context =>
    obtain rfl := hm.eq_of_peek? hpeek
    rw [LruCache.get?_of_some hm.answers hpeek]
    rfl

namespace Memo

/-- Remembered contexts and remembered properties are those of the line and of the template,
whatever was requested before and forgotten since. A request is answered from what is held if its
key is one of those that were requested last since the answers were cleared, as many as may be held,
and that many are held. -/
theorem transparent (capacity : Nat) (hpos : 0 < capacity) :
    (∃ fresh : ContextMemo, ofCapacity capacity = .ok fresh ∧
      Transparent ContextMemo.request capacity fresh) ∧
    ∃ fresh : PropertyMemo, ofCapacity capacity = .ok fresh ∧
      Transparent request capacity fresh := by
  have hcapacity {κ ν : Type} {f : κ → ν} :
      (ofCapacity capacity : Except ConfigError (Memo f)) = .ok ⟨⟨[], capacity, hpos⟩⟩ := by
    rw [ofCapacity, LruCache.ofCapacity, dif_neg (Nat.ne_of_gt hpos)]
    rfl
  constructor
  · let fresh : ContextMemo := ⟨⟨[], capacity, hpos⟩⟩
    exact ⟨fresh, hcapacity,
      transparent_of_replied (fun m hm k => ContextMemo.request_eq hm k) fresh rfl⟩
  · let fresh : PropertyMemo := ⟨⟨[], capacity, hpos⟩⟩
    exact ⟨fresh, hcapacity, transparent_of_replied (fun m hm k => request_eq hm k) fresh rfl⟩

/-- The properties of `{B}` are forgotten when those of `{C}` come in, and read again; the context
is held. -/
theorem transparent_forgotten :
    (∃ fresh : ContextMemo, ofCapacity 2 = .ok fresh ∧
      let key := (['.', 'W', 'h', 'e', 'n', '(', '"'], 6)
      let reply := (ContextMemo.request (after ContextMemo.request fresh [.request key]) key).1
      reply.value = .conditionalExpression ∧ reply.hit = true) ∧
    ∃ fresh : PropertyMemo, ofCapacity 2 = .ok fresh ∧
      let t := ['{', 'B', '}']
      let actions := [.request ['{', 'A', '}'], .request t, .request ['{', 'A', '}'],
        .request ['{', 'C', '}']]
      let reply := (request (after request fresh actions) t).1
      reply.value = [⟨0, 2, none, ⟨['B'], 1⟩, none, none⟩] ∧ reply.hit = false := by
  obtain ⟨⟨contexts, hcontexts, hcontext⟩, properties, hproperties, hproperty⟩ :=
    transparent 2 (by decide)
  refine ⟨⟨contexts, hcontexts, ?_, ?_⟩, properties, hproperties, ?_, ?_⟩
  · rw [hcontext.value]
    decide +kernel
  · rw [hcontext.hit]
    decide
  · rw [hproperty.value]
    decide +kernel
  · rw [← Bool.not_eq_true, hproperty.hit]
    decide

end Memo

end LogSyntax
