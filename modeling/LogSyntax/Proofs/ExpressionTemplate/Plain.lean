import Mathlib.Data.List.Basic
import LogSyntax.ExpressionTemplate.Scan
import LogSyntax.Proofs.Text.Brackets
/-!
# The plain search

The search for the end of a segment that keeps nothing: whenever it meets a nested group, it looks
for the end of that group anew. `closing?` says in one pass where a group closes, by counting braces
outside quotes, and the plain search of a group finds that place (`plainRun_reading`).
-/

namespace LogSyntax.ExpressionTemplate.Segment

/-- Where a segment ends from a place on, `length` characters of which are read, when nothing is
kept. -/
def plainRun (formats : Bool) (length : Nat) (s : Search) (p : Place) : Option End :=
  match _h : p.rest with
  | [] => none
  | c :: _ =>
    if s.mode = .code ∧ c = '{' then
      match plainRun false 0 (.start ∅) (p.advance 1) with
      | none => none
      | some e => plainRun formats (length + e.length + 2) s (p.advance (e.length + 2))
    else
      match s.step formats p.offset c with
      | .next s' => plainRun formats (length + 1) s' (p.advance 1)
      | .ends colon => some ⟨length, p.offset, c, colon⟩
      | .fails => none
termination_by p.rest.length
decreasing_by
  all_goals exact Place.length_rest_advance_lt (by simp [_h]) (Nat.succ_ne_zero _)

/-- Where the segment ends whose opening brace the text `t` follows, at this offset, when nothing is
kept. -/
def plainEnd? (offset : Nat) (t : Text) : Option End :=
  plainRun (!isDirective t) 0 (.start ∅) ⟨offset, t⟩

/-- The finder that keeps nothing. -/
def plain : Finder := fun _ offset t => (plainEnd? offset t, ∅)

/-! ## Where a group closes -/

/-- Whether a string is open behind a character. -/
def quotes (quoted : Bool) (c : Char) : Bool :=
  if c = '\'' then !quoted else quoted

/-- What a character does to the quote and to the number of open groups, unless it closes the group
in question. -/
def turn (quoted : Bool) (depth : Nat) (c : Char) : Option (Bool × Nat) :=
  if quoted = false ∧ c = '{' then some (false, depth + 1)
  else if quoted = false ∧ c = '}' then
    match depth with
    | 0 => none
    | depth + 1 => some (false, depth)
  else some (quotes quoted c, depth)

/-- The number of characters before the brace that closes a group, when `depth` groups inside it are
open. -/
def closing? (quoted : Bool) (depth : Nat) : Text → Option Nat
  | [] => none
  | c :: cs =>
    match turn quoted depth c with
    | none => some 0
    | some (quoted', depth') => (closing? quoted' depth' cs).map (· + 1)

variable {q q' : Bool} {c : Char} {k k' n : Nat} {t : Text}

theorem turn_open : turn false k '{' = some (false, k + 1) := rfl

theorem turn_close : turn false (k + 1) '}' = some (false, k) := rfl

theorem turn_other (hopen : ¬ (q = false ∧ c = '{')) (hclose : ¬ (q = false ∧ c = '}')) :
    turn q k c = some (quotes q c, k) := by
  unfold turn
  rw [if_neg hopen, if_neg hclose]

theorem turn_eq_none (h : turn q k c = none) : q = false ∧ c = '}' ∧ k = 0 := by
  unfold turn at h
  split at h
  · contradiction
  · split at h
    · next hclose =>
      split at h
      · exact ⟨hclose.1, hclose.2, rfl⟩
      · contradiction
    · contradiction

/-- Further groups around do not matter. -/
theorem turn_add (h : turn q k c = some (q', k')) (n : Nat) :
    turn q (k + n) c = some (q', k' + n) := by
  by_cases hopen : q = false ∧ c = '{'
  · obtain ⟨rfl, rfl⟩ := hopen
    cases h
    rw [turn_open, Nat.add_right_comm]
  · by_cases hclose : q = false ∧ c = '}'
    · obtain ⟨rfl, rfl⟩ := hclose
      cases k with
      | zero => contradiction
      | succ k =>
        cases h
        rw [Nat.add_right_comm, turn_close]
    · rw [turn_other hopen hclose] at h ⊢
      cases h
      rfl

theorem closing?_cons (h : turn q k c = some (q', k')) (cs : Text) :
    closing? q k (c :: cs) = (closing? q' k' cs).map (· + 1) := by
  rw [closing?, h]

theorem closing?_close (cs : Text) : closing? false 0 ('}' :: cs) = some 0 := rfl

/-- The brace that closes a group is one. -/
theorem drop_of_closing? (h : closing? q k t = some n) : t.drop n = '}' :: t.drop (n + 1) := by
  induction t generalizing q k n with
  | nil => contradiction
  | cons c cs ih =>
    rw [closing?] at h
    split at h
    · next hturn =>
      cases h
      rw [(turn_eq_none hturn).2.1]
      rfl
    · obtain ⟨m, hm, rfl⟩ := Option.map_eq_some_iff.1 h
      exact ih hm

/-- A group closes behind the innermost of the groups that are open in it. -/
theorem closing?_add (q : Bool) (a b : Nat) (t : Text) :
    closing? q (a + b + 1) t = (closing? q a t).bind fun n =>
      (closing? false b (t.drop (n + 1))).map (n + 1 + ·) := by
  induction t generalizing q a with
  | nil => rfl
  | cons c cs ih =>
    cases h : turn q a c with
    | none =>
      obtain ⟨rfl, rfl, rfl⟩ := turn_eq_none h
      rw [Nat.zero_add, closing?_cons turn_close, closing?_close]
      simp [Nat.add_comm 1]
    | some next =>
      obtain ⟨q', a'⟩ := next
      rw [closing?_cons h, Nat.add_assoc, closing?_cons (turn_add h (b + 1)), ← Nat.add_assoc, ih]
      cases closing? q' a' cs with
      | none => rfl
      | some n => simp [Function.comp_def, Nat.add_right_comm]

theorem closing?_succ (q : Bool) (k : Nat) (t : Text) :
    closing? q (k + 1) t = (closing? q 0 t).bind fun n =>
      (closing? false k (t.drop (n + 1))).map (n + 1 + ·) := by
  rw [← closing?_add, Nat.zero_add]

/-! ## What a character means outside formats and known groups -/

namespace Search

/-- A search in code or in a string. -/
def reading (quoted : Bool) (depth : Nat) (groups : List Nat) (outcomes : Outcomes) : Search :=
  ⟨if quoted then .string else .code, depth, groups, outcomes⟩

variable {formats : Bool} {d offset : Nat}

/-- In a nested group only quotes and braces count. -/
theorem step_reading_nested (hopen : ¬ (q = false ∧ c = '{')) (hclose : ¬ (q = false ∧ c = '}'))
    (group : Nat) (groups : List Nat) (outcomes : Outcomes) :
    (reading q d (group :: groups) outcomes).step formats offset c =
      .next (reading (quotes q c) d (group :: groups) outcomes) := by
  cases q with
  | true => by_cases hquote : c = '\'' <;> simp [reading, step, quotes, hquote]
  | false =>
    have hopen : c ≠ '{' := fun hc => hopen ⟨rfl, hc⟩
    have hclose : c ≠ '}' := fun hc => hclose ⟨rfl, hc⟩
    by_cases hquote : c = '\'' <;>
      simp [reading, step, stepCode, withDepth, quotes, hquote, hopen, hclose]

/-- In the segment itself a colon outside quotes and brackets begins a format. -/
theorem step_reading_colon (offset : Nat) (outcomes : Outcomes) :
    (reading false 0 [] outcomes).step true offset ':' =
      .next ⟨.format offset, 0, [], outcomes⟩ := rfl

/-- Any other character of the segment itself may open or close a quote or a bracket. -/
theorem step_reading (hopen : ¬ (q = false ∧ c = '{')) (hclose : ¬ (q = false ∧ c = '}'))
    (hcolon : ¬ (formats = true ∧ q = false ∧ d = 0 ∧ c = ':')) (outcomes : Outcomes) :
    (reading q d [] outcomes).step formats offset c =
      .next
        (reading (quotes q c) (Brackets.straight.depth d (Text.outside q [c])) [] outcomes) := by
  cases q with
  | true => by_cases hquote : c = '\'' <;> simp [reading, step, quotes, Text.outside, hquote]
  | false =>
    have hopen : c ≠ '{' := fun hc => hopen ⟨rfl, hc⟩
    have hclose : c ≠ '}' := fun hc => hclose ⟨rfl, hc⟩
    by_cases hquote : c = '\''
    · simp [reading, step, stepCode, quotes, Text.outside, hquote]
    · rw [Text.outside_plain hquote, Text.outside_nil, Brackets.depth_cons, Brackets.depth_nil]
      by_cases hbegin : c = '(' ∨ c = '['
      · simp [reading, step, stepCode, withDepth, quotes, Brackets.turn, Brackets.straight, hquote,
          hbegin]
      · by_cases hend : c = ')' ∨ c = ']'
        · simp [reading, step, stepCode, withDepth, quotes, Brackets.turn, Brackets.straight,
            hquote, hbegin, hend]
        · have hturn : Brackets.straight.turn d c = d := by
            simp [Brackets.turn, Brackets.straight, hbegin, hend]
          rw [hturn]
          by_cases hmark : c = ':'
          · have hno : ¬ (formats = true ∧ d = 0) := fun h => hcolon ⟨h.1, rfl, h.2, hmark⟩
            simp [reading, step, stepCode, quotes, hmark, hno]
          · simp [reading, step, stepCode, quotes, hquote, hbegin, hend, hmark, hopen, hclose]

end Search

/-! ## The plain search, character by character -/

open Search

variable {formats : Bool} {length offset d : Nat} {s s' : Search} {colon : Option Nat} {cs : Text}

theorem plainRun_nil : plainRun formats length s ⟨offset, []⟩ = none := by
  rw [plainRun]

theorem plainRun_next (hs : ¬ (s.mode = .code ∧ c = '{'))
    (hstep : s.step formats offset c = .next s') :
    plainRun formats length s ⟨offset, c :: cs⟩ =
      plainRun formats (length + 1) s' ⟨offset + c.utf8Size, cs⟩ := by
  rw [plainRun]
  simp [hs, hstep]

theorem plainRun_ends (hs : ¬ (s.mode = .code ∧ c = '{'))
    (hstep : s.step formats offset c = .ends colon) :
    plainRun formats length s ⟨offset, c :: cs⟩ = some ⟨length, offset, c, colon⟩ := by
  rw [plainRun]
  simp [hs, hstep]

theorem plainRun_fails (hs : ¬ (s.mode = .code ∧ c = '{'))
    (hstep : s.step formats offset c = .fails) :
    plainRun formats length s ⟨offset, c :: cs⟩ = none := by
  rw [plainRun]
  simp [hs, hstep]

theorem plainRun_open (hs : s.mode = .code) :
    plainRun formats length s ⟨offset, '{' :: cs⟩ =
      (plainRun false 0 (.start ∅) ⟨offset + 1, cs⟩).bind fun e =>
        plainRun formats (length + e.length + 2) s
          ((⟨offset + 1, cs⟩ : Place).advance (e.length + 1)) := by
  rw [plainRun]
  simp only [hs, and_self, if_true]
  rw [Place.advance_succ, Place.advance_zero]
  show (match plainRun false 0 (.start ∅) ⟨offset + 1, cs⟩ with
    | none => none
    | some e => plainRun formats (length + e.length + 2) s
        ((⟨offset, '{' :: cs⟩ : Place).advance (e.length + 2))) = _
  cases plainRun false 0 (.start ∅) ⟨offset + 1, cs⟩ with
  | none => rfl
  | some e => simp only [Option.bind_some, Place.advance_succ]; rfl

theorem mode_reading (hopen : ¬ (q = false ∧ c = '{')) (groups : List Nat) (outcomes : Outcomes) :
    ¬ ((reading q d groups outcomes).mode = .code ∧ c = '{') := by
  cases q with
  | true => simp [reading]
  | false => simpa [reading] using hopen

/-! ## Nested groups -/

/-- How a nested group ends that closes behind `n` characters. -/
def closed (length : Nat) (p : Place) (n : Nat) : End :=
  ⟨length + n, (p.advance n).offset, '}', none⟩

theorem plainRun_reading (q : Bool) (d length : Nat) (p : Place) :
    plainRun false length (reading q d [] ∅) p = (closing? q 0 p.rest).map (closed length p) := by
  obtain ⟨o, t⟩ := p
  -- behind a nested group the search goes on further on, so the induction is on the length
  induction hn : t.length using Nat.strongRecOn generalizing q d length o t with
  | ind n ih =>
    cases t with
    | nil => exact plainRun_nil
    | cons c cs =>
      have hlt : cs.length < n := by simp [← hn]
      have hclosed (length m : Nat) : closed length ⟨o, c :: cs⟩ (m + 1) =
          closed (length + 1) ⟨o + c.utf8Size, cs⟩ m := by
        simp only [closed, Place.advance_succ, End.mk.injEq, and_true]
        omega
      by_cases hopen : q = false ∧ c = '{'
      · obtain ⟨rfl, rfl⟩ := hopen
        show plainRun false length (reading false d [] ∅) ⟨o, '{' :: cs⟩ =
          (closing? false 0 ('{' :: cs)).map _
        rw [plainRun_open rfl, closing?_cons turn_open, closing?_succ,
          show Search.start ∅ = reading false 0 [] ∅ from rfl, ih _ hlt false 0 0 _ cs rfl]
        cases hgroup : closing? false 0 cs with
        | none => rfl
        | some m =>
          have hdrop : (cs.drop (m + 1)).length < n := by
            rw [List.length_drop]
            omega
          have hlength : (closed 0 ⟨o + 1, cs⟩ m).length = m := Nat.zero_add m
          rw [Option.map_some, Option.bind_some, Option.bind_some, hlength, Option.map_map,
            Option.map_map]
          refine (ih _ hdrop false d _ _ _ rfl).trans ?_
          congr 1
          funext r
          -- the search goes on behind the group, `m + 2` characters further on
          show closed (length + m + 2) ((⟨o + 1, cs⟩ : Place).advance (m + 1)) r =
            closed length ⟨o, '{' :: cs⟩ (m + 1 + r + 1)
          rw [hclosed]
          simp only [closed, Place.advance_advance, End.mk.injEq, and_true]
          exact ⟨by omega, rfl⟩
      · by_cases hclose : q = false ∧ c = '}'
        · obtain ⟨rfl, rfl⟩ := hclose
          exact plainRun_ends (mode_reading (by simp) _ _) rfl
        · have hstep : (reading q d [] ∅).step false o c = _ :=
            step_reading hopen hclose (by simp) ∅
          rw [plainRun_next (mode_reading hopen _ _) hstep, ih _ hlt _ _ _ _ cs rfl]
          show _ = (closing? q 0 (c :: cs)).map _
          rw [closing?_cons (turn_other hopen hclose), Option.map_map]
          congr 1
          funext m
          exact (hclosed length m).symm

end LogSyntax.ExpressionTemplate.Segment
