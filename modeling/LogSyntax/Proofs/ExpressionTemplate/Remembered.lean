import LogSyntax.Proofs.ExpressionTemplate.Outcomes
import LogSyntax.Proofs.ExpressionTemplate.Step
/-!
# Reading with a memory and without

A reader of an expression template keeps what its searches learn of nested groups. It reads the same
regions as one that keeps nothing, and in every state that it comes to, what it knows is sound
(`classify_eq_plain`).
-/

namespace LogSyntax.ExpressionTemplate

open Segment

variable {h : Heuristics} {t : Text} {s : Scan} {cs : Text}

/-- The states that a reader of the text comes to. -/
inductive Scan.Reachable (h : Heuristics) (t : Text) : Scan → Prop
  | start : Reachable h t (.start h t)
  | next {s s' : Scan} {regions : List Region} (hs : Reachable h t s)
      (hnext : s.next? end? = some (regions, s')) : Reachable h t s'

/-- The searches that a reader of the text may be in, the places where they are, and whether they
look for a format. -/
inductive Searching (h : Heuristics) (t : Text) : Bool → Search → Place → Prop
  | start {s : Scan} {cs : Text} (hs : s.Reachable h t) (hrest : s.place.rest = '{' :: cs) :
      Searching h t (!isDirective cs) (.start s.outcomes) ⟨s.place.offset + 1, cs⟩
  | next {formats : Bool} {s s' : Search} {o : Nat} {c : Char} {cs : Text}
      (hs : Searching h t formats s ⟨o, c :: cs⟩) (hstep : s.step formats o c = .next s') :
      Searching h t formats s' ⟨o + c.utf8Size, cs⟩

/-- The finder that searches with an empty table every time. -/
def forgetful : Finder := fun _ offset t => ((end? ∅ offset t).1, ∅)

theorem forgetful_eq_plain : forgetful = plain := by
  have hbytes (n : Nat) : Text.bytes (List.replicate n ' ') = n := by
    induction n with
    | zero => rfl
    | succ n ih => rw [List.replicate_succ, Text.bytes_cons, ih, Nat.add_comm]; rfl
  funext outcomes offset t
  have hp : (⟨offset, t⟩ : Place).In (List.replicate offset ' ' ++ t) :=
    ⟨_, rfl, hbytes offset⟩
  rw [forgetful, plain, (end?_sound hp (sound_empty _)).1]

namespace Scan

/-- The reader without what it knows. -/
def forget (s : Scan) : Scan := { s with outcomes := ∅ }

/-- The reader is in the text, and what it knows is sound. -/
def Knows (t : Text) (s : Scan) : Prop := s.place.In t ∧ Sound t s.outcomes

theorem readSegment_forget (hs : s.Knows t) (hrest : s.place.rest = '{' :: cs) :
    s.forget.readSegment plain cs =
        ((s.readSegment end? cs).1, (s.readSegment end? cs).2.forget) ∧
      (s.readSegment end? cs).2.Knows t := by
  obtain ⟨hp, hsound⟩ := hs
  have hbehind : (⟨s.place.offset + 1, cs⟩ : Place).In t := by
    obtain ⟨⟨o, rest⟩, _, _, _⟩ := s
    obtain rfl : rest = '{' :: cs := hrest
    exact hp.next
  obtain ⟨hend, hlearned⟩ := end?_sound hbehind hsound
  unfold readSegment
  cases readBare : Directive.readBare? cs with
  | some found => exact ⟨rfl, hp.advance _, hsound⟩
  | none =>
    rw [show plain s.forget.outcomes (s.forget.place.offset + 1) cs =
      ((end? s.outcomes (s.place.offset + 1) cs).1, ∅) from congrArg (·, _) hend.symm]
    generalize end? s.outcomes (s.place.offset + 1) cs = found at hlearned ⊢
    obtain ⟨_ | e, outcomes⟩ := found
    · exact ⟨rfl, hp.advance _, hlearned⟩
    · exact ⟨rfl, hp.advance _, hlearned⟩

theorem next?_forget (hs : s.Knows t) :
    s.forget.next? plain = (s.next? end?).map fun (regions, s') => (regions, s'.forget) := by
  obtain ⟨place, heuristics, names, outcomes⟩ := s
  obtain ⟨o, _ | ⟨c, cs⟩⟩ := place
  · rfl
  · unfold next?
    simp only [forget]
    split
    · rfl
    · split
      · next hc =>
        subst hc
        exact congrArg some (readSegment_forget hs rfl).1
      · rfl

theorem Knows.next {regions : List Region} {s' : Scan} (hs : s.Knows t)
    (hnext : s.next? end? = some (regions, s')) : s'.Knows t := by
  rcases next?_cases hnext with ⟨cs, hopens, hread⟩ | ⟨-, -, n, rfl⟩
  · have hknows := (readSegment_forget hs hopens.1).2
    rwa [hread] at hknows
  · exact ⟨hs.1.advance n, hs.2⟩

theorem knows_start (h : Heuristics) (t : Text) : (start h t).Knows t :=
  ⟨Place.start_in t, sound_empty t⟩

theorem Reachable.knows (hs : Reachable h t s) : s.Knows t := by
  induction hs with
  | start => exact knows_start h t
  | next _ hnext ih => exact ih.next hnext

end Scan

theorem Searching.fits {formats : Bool} {s : Search} {p : Place} (hs : Searching h t formats s p) :
    ∃ r length, Fits t formats r length s p := by
  induction hs with
  | @start s cs hs hrest =>
    obtain ⟨⟨o, rest⟩, _, _, _⟩ := s
    obtain rfl : rest = '{' :: cs := hrest
    exact ⟨_, _, fits_start hs.knows.1.next hs.knows.2⟩
  | next _ hstep ih =>
    obtain ⟨r, length, hfits⟩ := ih
    have hkeeps := hfits.step
    rw [hstep] at hkeeps
    exact ⟨r, length + 1, hkeeps⟩

/-- What a reader keeps of nested groups changes nothing about the regions that it reads: they are
those of the plain search, and those of a search that begins with an empty table each time. Between
two steps and in the middle of every search, each entry of the table says whether and where the
plain search of its group ends. -/
theorem classify_eq_plain (h : Heuristics) (t : Text) :
    classify h t = classifyWith plain h t ∧ classify h t = classifyWith forgetful h t ∧
      (∀ s, Scan.Reachable h t s → Sound t s.outcomes) ∧
      ∀ formats s p, Searching h t formats s p → Sound t s.outcomes := by
  have hplain : classify h t = classifyWith plain h t := by
    have hsteps : (Scan.start h t).steps plain = (Scan.start h t).steps end? :=
      drain_map Scan.forget (Scan.Knows t) (fun _ => Scan.next?_forget)
        (fun _ _ _ hs => hs.next) _ (Scan.knows_start h t)
    rw [classify, classifyWith, classifyWith, hsteps]
  refine ⟨hplain, forgetful_eq_plain ▸ hplain, fun s hs => hs.knows.2, fun formats s p hs => ?_⟩
  obtain ⟨r, length, hfits⟩ := hs.fits
  exact hfits.sound

/-- Behind an opening brace that never closes, the group inside it is known to close, and so it is
at the end of the search. -/
theorem classify_eq_plain_unclosed :
    (∃ s, Scan.Reachable .standard ['{', 'a', '{', 'b', '}'] s ∧ s.place.offset = 1 ∧
      s.outcomes[2]? = some (some 4) ∧ Closes ['{', 'a', '{', 'b', '}'] 2 (some 4)) ∧
    ∃ formats s p, Searching .standard ['{', 'a', '{', 'b', '}'] formats s p ∧ p.rest = [] ∧
      s.outcomes[2]? = some (some 4) ∧ Closes ['{', 'a', '{', 'b', '}'] 2 (some 4) := by
  obtain ⟨-, -, hreach, hsearch⟩ := classify_eq_plain .standard ['{', 'a', '{', 'b', '}']
  have hbehind : Scan.Reachable .standard ['{', 'a', '{', 'b', '}']
      ((Scan.start .standard ['{', 'a', '{', 'b', '}']).readSegment end? ['a', '{', 'b', '}']).2 :=
    .next .start rfl
  have hend : Searching .standard ['{', 'a', '{', 'b', '}'] true
      ⟨.code, 0, [], (∅ : Outcomes).insert 2 (some 4)⟩ ⟨5, []⟩ :=
    .next (.next (.next (.next (.start .start rfl) rfl) rfl) rfl) rfl
  constructor
  · exact ⟨_, hbehind, rfl, rfl, hreach _ hbehind 2 (some 4) rfl⟩
  · exact ⟨_, _, _, hend, rfl, rfl, hsearch _ _ _ hend 2 (some 4) rfl⟩

end LogSyntax.ExpressionTemplate
