import LogSyntax.CallSite
import LogSyntax.LruCache
import LogSyntax.MessageTemplate.Properties
/-!
# Remembered answers

An editor asks for the same line or template again with every key that is pressed. In front of a
function stands a cache of its latest answers: a request whose key is held is answered from it, and
any other is answered by the function and held from then on. What is answered is in both cases what
the function says. A new answer comes into the cache in one of two ways: the cache has it built when
it misses the key, or it is worked out after a look-up has failed, and then inserted.
-/

namespace LogSyntax

/-- A function and its latest answers. -/
structure Memo {κ ν : Type} (f : κ → ν) where
  answers : LruCache κ ν

namespace Memo

variable {κ ν : Type} {f : κ → ν}

/-- The answer to a request, and what it did to the cache. -/
structure Reply (ν : Type) where
  value : ν
  /-- The key was held. -/
  hit : Bool
  /-- The answer took the place of the least recently used one. -/
  evicted : Bool
deriving DecidableEq, Repr

/-- Nothing is remembered yet. -/
def ofCapacity (capacity : Nat) : Except ConfigError (Memo f) :=
  (LruCache.ofCapacity capacity).map (⟨·⟩)

/-- Nothing is remembered yet, and the capacity is the standard one. -/
def standard : Memo f := ⟨.standard⟩

/-- Forgets all answers. -/
def clear (m : Memo f) : Memo f := ⟨m.answers.clear⟩

/-- Answers a request, which becomes the most recent one. An answer that is not held is built. -/
def request [DecidableEq κ] (m : Memo f) (k : κ) : Reply ν × Memo f :=
  let hit := m.answers.contains k
  let (value, answers) := Id.run (m.answers.getOrBuild k (pure (f k)))
  (⟨value, hit, !hit && m.answers.isFull⟩, ⟨answers⟩)

end Memo

/-- Remembered contexts, by line and offset. -/
abbrev ContextMemo := Memo fun (key : Text × Nat) => Context.ofLine key.1 key.2

/-- Answers a request for a context, which becomes the most recent one. An answer that is not held
is worked out and inserted. -/
def ContextMemo.request (m : ContextMemo) (key : Text × Nat) : Memo.Reply Context × ContextMemo :=
  match m.answers.get? key with
  | (some context, answers) => (⟨context, true, false⟩, ⟨answers⟩)
  | (none, answers) =>
    let context := Context.ofLine key.1 key.2
    (⟨context, false, answers.isFull⟩, ⟨(answers.insert key context).2⟩)

/-- Remembered properties, by message template. -/
abbrev PropertyMemo := Memo MessageTemplate.parse

end LogSyntax
