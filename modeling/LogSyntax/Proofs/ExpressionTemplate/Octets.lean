import LogSyntax.Proofs.ExpressionTemplate.Indexed
import LogSyntax.Proofs.Text.Octets
/-!
# Scans of octets

The colon of a hole, the quote that closes a key and the end of a segment are all marked by
characters of ASCII, so a scan of octets finds them too, and comes upon their offsets without
knowing where characters begin. A search for the end of a segment also looks for known offsets, and
these it meets only where a character begins (`Fits.le_stop`).
-/

namespace LogSyntax.ExpressionTemplate

variable {q : Bool} {d n o : Nat} {b c : Char} {s t cs : Text}

/-! ## The colon of a hole -/

namespace Hole

/-- Nothing beyond ASCII counts. -/
theorem colonFrom?_beyond (hs : ∀ b ∈ s, ¬ IsAscii b) :
    colonFrom? q d n (s ++ t) = colonFrom? q d (n + s.length) t := by
  induction s generalizing n with
  | nil => rfl
  | cons b s ih =>
    rw [List.forall_mem_cons] at hs
    have hne {c : Char} (hc : IsAscii c) : b ≠ c := ne_of_not_isAscii hs.1 hc
    have hquote : b ≠ '\'' := hne (by decide)
    have hopen : ¬ (b = '(' ∨ b = '[' ∨ b = '{') :=
      not_or.2 ⟨hne (by decide), not_or.2 ⟨hne (by decide), hne (by decide)⟩⟩
    have hclose : ¬ (b = ')' ∨ b = ']' ∨ b = '}') :=
      not_or.2 ⟨hne (by decide), not_or.2 ⟨hne (by decide), hne (by decide)⟩⟩
    have hcolon : ¬ (b = ':' ∧ d = 0) := fun h => hne (by decide) h.1
    rw [List.cons_append, colonFrom?, if_neg hquote, if_neg hopen, if_neg hclose, if_neg hcolon,
      ite_self, ih hs.2, List.length_cons, Nat.add_assoc, Nat.add_comm 1]

theorem colonFrom?_octets (q : Bool) (d n : Nat) (t : Text) : colonFrom? q d n (Text.octets t) =
    (colonFrom? q d 0 t).map fun k => n + Text.bytes (t.take k) := by
  induction t generalizing q d n with
  | nil => rfl
  | cons c t ih =>
    have hbytes (k : Nat) : Text.bytes ((c :: t).take (1 + k)) =
        c.utf8Size + Text.bytes (t.take k) := by
      rw [Nat.add_comm, List.take_succ_cons, Text.bytes_cons]
    rw [Text.octets_cons]
    rcases Text.octetsOf_cases c with hc | ⟨hc, hbeyond⟩
    · have hsize : c.utf8Size = 1 := by
        rw [← Text.length_octetsOf, hc, List.length_singleton]
      rw [hc, List.singleton_append]
      by_cases hcolon : q = false ∧ d = 0 ∧ c = ':'
      · obtain ⟨rfl, rfl, rfl⟩ := hcolon
        rfl
      · rw [colonFrom?_cons hcolon, colonFrom?_cons hcolon, ih, colonFrom?_eq_map _ _ (0 + 1),
          Option.map_map]
        congr 1
        funext k
        rw [Function.comp_apply, Nat.zero_add, hbytes, hsize, Nat.add_assoc]
    · have hone : colonFrom? q d 0 (c :: t) = colonFrom? q d 1 t :=
        colonFrom?_beyond (s := [c]) (by simpa using hc)
      rw [colonFrom?_beyond hbeyond, ih, hone, colonFrom?_eq_map _ _ 1, Option.map_map,
        Text.length_octetsOf]
      congr 1
      funext k
      rw [Function.comp_apply, hbytes, Nat.add_assoc]

/-- The colon that a scan of the octets finds has the offset of the one that is found among the
characters. -/
theorem colon?_octets (t : Text) :
    colon? (Text.octets t) = (colon? t).map fun n => Text.bytes (t.take n) := by
  rw [colon?, colonFrom?_octets]
  simp only [Nat.zero_add]
  rfl

end Hole

/-! ## The end of a segment -/

namespace Segment

variable {formats : Bool} {r : Option End} {length : Nat}

namespace Search

/-- Where the search comes to an end among octets, of which the first has this offset, and what is
known then. -/
def endOffset? (formats : Bool) (offset : Nat) (s : Search) : Text → Option Nat × Outcomes
  | [] => (none, s.learned)
  | b :: bs =>
    match s.step formats offset b with
    | .next s' => s'.endOffset? formats (offset + 1) bs
    | .ends _ => (some offset, s.learned)
    | .fails => (none, s.learned)

variable {s : Search}

/-- Beyond ASCII only the offset counts, and only in a known group. -/
theorem step_beyond (hb : ¬ IsAscii b) : s.step formats o b =
    .next (if s.mode = .group o then { s with mode := .code } else s) := by
  have hne {c : Char} (hc : IsAscii c) : b ≠ c := ne_of_not_isAscii hb hc
  obtain ⟨mode, depth, groups, outcomes⟩ := s
  cases mode with
  | code =>
    simp [step, stepCode, hne (c := '\'') (by decide), hne (c := '(') (by decide),
      hne (c := '[') (by decide), hne (c := ')') (by decide), hne (c := ']') (by decide),
      hne (c := ':') (by decide), hne (c := '{') (by decide), hne (c := '}') (by decide)]
  | string => simp [step, hne (c := '\'') (by decide)]
  | format colon =>
    simp [step, hne (c := '}') (by decide), hne (c := ']') (by decide),
      hne (c := '{') (by decide)]
  | group stop => simp [step, eq_comm]

theorem endOffset?_beyond {bs : Text} (hbs : ∀ b ∈ bs, ¬ IsAscii b)
    (hstop : ∀ stop, s.mode = .group stop → o + bs.length ≤ stop) :
    s.endOffset? formats o (bs ++ cs) = s.endOffset? formats (o + bs.length) cs := by
  induction bs generalizing o with
  | nil => rfl
  | cons b bs ih =>
    rw [List.forall_mem_cons] at hbs
    have hmode : s.mode ≠ .group o := by
      intro hgroup
      have hle := hstop o hgroup
      rw [List.length_cons] at hle
      omega
    rw [List.length_cons, Nat.add_comm bs.length, ← Nat.add_assoc] at hstop ⊢
    rw [List.cons_append, endOffset?, step_beyond hbs.1, if_neg hmode]
    exact ih hbs.2 hstop

end Search

variable {s : Search} {p : Place}

/-- A known group that a search passes over ends ahead of it. -/
theorem Fits.le_stop {stop : Nat} (h : Fits t formats r length s p) (hmode : s.mode = .group stop) :
    p.offset ≤ stop := by
  cases h with
  | @reading _ _ _ q hcode =>
    rw [hmode] at hcode
    cases q <;> contradiction
  | format hformat =>
    rw [hmode] at hformat
    contradiction
  | @group _ _ _ n hgroup =>
    rw [hmode] at hgroup
    obtain rfl := Mode.group.inj hgroup
    exact Nat.le_add_right _ _

/-- A search of octets ends where the search of the characters does, and learns the same. -/
theorem Fits.endOffset? (h : Fits t formats r length s ⟨o, cs⟩) :
    s.endOffset? formats o (Text.octets cs) =
      ((s.run formats length o cs).1.map (·.offset), (s.run formats length o cs).2) := by
  induction cs generalizing length o s with
  | nil => rfl
  | cons c cs ih =>
    have hkeeps := h.step
    rw [Text.octets_cons, Search.run]
    rcases Text.octetsOf_cases c with hc | ⟨hc, hbeyond⟩
    · have hsize : c.utf8Size = 1 := by
        rw [← Text.length_octetsOf, hc, List.length_singleton]
      rw [hsize]
      rw [hc, List.singleton_append, Search.endOffset?]
      cases hstep : s.step formats o c with
      | next s' =>
        rw [hstep, Keeps, hsize] at hkeeps
        exact ih hkeeps
      | ends colon => rfl
      | fails => rfl
    · -- the first octet means what the character means, and the others nothing
      obtain ⟨b, bs, hoctets⟩ := List.exists_cons_of_ne_nil (Text.octetsOf_ne_nil c)
      have hlength : 1 + bs.length = c.utf8Size := by
        rw [← Text.length_octetsOf, hoctets, List.length_cons, Nat.add_comm]
      rw [hoctets, List.forall_mem_cons] at hbeyond
      rw [Search.step_beyond hc] at hkeeps ⊢
      rw [hoctets, List.cons_append, Search.endOffset?, Search.step_beyond hbeyond.1]
      dsimp only
      rw [Search.endOffset?_beyond hbeyond.2]
      · rw [Nat.add_assoc, hlength]
        exact ih hkeeps
      · intro stop hmode
        rw [Nat.add_assoc, hlength]
        exact hkeeps.le_stop hmode

/-- The end of a segment that a search of the octets finds with a sound table. -/
theorem endOffset?_eq {outcomes : Outcomes} (hp : (⟨o, cs⟩ : Place).In t)
    (hsound : Sound t outcomes) :
    (Search.start outcomes).endOffset? (!isDirective cs) o (Text.octets cs) =
      ((end? outcomes o cs).1.map (·.offset), (end? outcomes o cs).2) :=
  (fits_start hp hsound).endOffset?

end Segment

end LogSyntax.ExpressionTemplate
