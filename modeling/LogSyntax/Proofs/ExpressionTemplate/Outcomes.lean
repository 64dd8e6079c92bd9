import LogSyntax.Proofs.ExpressionTemplate.Plain
import LogSyntax.Proofs.Text.Laid
/-!
# What is known of nested groups

A table of outcomes is sound for a text when every entry says what the plain search of that group
says. A search that begins with a sound table answers what the plain search answers, and its table
is sound whenever it is looked at (`Fits.step`): an open group closes where the braces around it are
balanced, whichever search has come upon it and in whatever mode that search goes on.
-/

namespace LogSyntax

/-- Only one place of a text has a given offset. -/
theorem Place.In.rest_eq {t s₁ s₂ : Text} {n : Nat} (h₁ : (⟨n, s₁⟩ : Place).In t)
    (h₂ : (⟨n, s₂⟩ : Place).In t) : s₁ = s₂ := by
  have hrest {s : Text} (h : (⟨n, s⟩ : Place).In t) : s = Text.dropBytes n t := by
    obtain ⟨behind, rfl, rfl⟩ := h
    have hdrop := Text.dropBytes_append behind s 0
    rw [Nat.add_zero] at hdrop
    exact (hdrop.trans (by rw [Text.dropBytes])).symm
  rw [hrest h₁, hrest h₂]

theorem Place.In.next {o : Nat} {c : Char} {cs t : Text} (h : (⟨o, c :: cs⟩ : Place).In t) :
    (⟨o + c.utf8Size, cs⟩ : Place).In t := h.advance 1

namespace ExpressionTemplate.Segment

open Search

/-- The plain search of the group whose brace stands at an offset of the text comes to this end. -/
def Closes (t : Text) (group : Nat) (outcome : Option Nat) : Prop :=
  ∃ cs, (⟨group, '{' :: cs⟩ : Place).In t ∧
    outcome = (plainRun false 0 (.start ∅) ⟨group + 1, cs⟩).map (·.offset)

/-- Every entry of the table says whether and where its group closes. -/
def Sound (t : Text) (outcomes : Outcomes) : Prop :=
  ∀ group outcome, outcomes[group]? = some outcome → Closes t group outcome

theorem sound_empty (t : Text) : Sound t ∅ := by
  intro group outcome h
  rw [Std.TreeMap.getElem?_emptyc] at h
  contradiction

theorem Sound.insert {t : Text} {outcomes : Outcomes} (h : Sound t outcomes) {group : Nat}
    {outcome : Option Nat} (hclose : Closes t group outcome) :
    Sound t (outcomes.insert group outcome) := by
  intro g r hr
  rw [Std.TreeMap.getElem?_insert] at hr
  split at hr
  · next heq =>
    cases Nat.compare_eq_eq.1 heq
    cases hr
    exact hclose
  · exact h g r hr

variable {t : Text} {formats : Bool} {length o d k : Nat} {q q' : Bool} {c : Char} {k' : Nat}
  {cs : Text} {groups : List Nat} {outcomes : Outcomes}

theorem Sound.learned {s : Search} (h : Sound t s.outcomes)
    (hgroups : ∀ group ∈ s.groups, Closes t group none) : Sound t s.learned := by
  unfold Search.learned
  generalize s.outcomes = outcomes at h ⊢
  generalize s.groups = groups at hgroups ⊢
  induction groups generalizing outcomes with
  | nil => exact h
  | cons group groups ih =>
    rw [List.forall_mem_cons] at hgroups
    exact ih _ (h.insert hgroups.1) hgroups.2

/-! ## Open groups -/

/-- Where the group closes inside of which `depth` groups are open at a place. -/
def closesAt (quoted : Bool) (depth : Nat) (p : Place) : Option Nat :=
  (closing? quoted depth p.rest).map fun n => (p.advance n).offset

theorem closesAt_turn (h : turn q k c = some (q', k')) (o : Nat) (cs : Text) :
    closesAt q k ⟨o, c :: cs⟩ = closesAt q' k' ⟨o + c.utf8Size, cs⟩ := by
  simp only [closesAt, closing?_cons h, Option.map_map]
  congr 1
  funext n
  simp

theorem closesAt_succ (q : Bool) (k : Nat) (p : Place) :
    closesAt q (k + 1) p =
      (closing? q 0 p.rest).bind fun n => closesAt false k (p.advance (n + 1)) := by
  rw [closesAt, closing?_succ, Option.map_bind]
  congr 1
  funext n
  simp only [closesAt, Function.comp_apply, Option.map_map, Place.advance_advance]
  rfl

theorem closes_iff {group : Nat} {outcome : Option Nat} :
    Closes t group outcome ↔ ∃ cs, (⟨group, '{' :: cs⟩ : Place).In t ∧
      outcome = closesAt false 0 ⟨group + 1, cs⟩ := by
  have hplain (cs : Text) : (plainRun false 0 (.start ∅) ⟨group + 1, cs⟩).map (·.offset) =
      closesAt false 0 ⟨group + 1, cs⟩ := by
    rw [show Search.start ∅ = reading false 0 [] ∅ from rfl, plainRun_reading, Option.map_map]
    rfl
  simp only [Closes, hplain]

/-- Each of the open groups, the innermost first, closes where the braces inside it are balanced. -/
def Open (t : Text) (quoted : Bool) (groups : List Nat) (p : Place) : Prop :=
  ∀ k group, groups[k]? = some group → Closes t group (closesAt quoted k p)

theorem open_nil (q : Bool) (p : Place) : Open t q [] p := by
  intro k group h
  rw [List.getElem?_nil] at h
  contradiction

theorem Open.other (h : Open t q groups ⟨o, c :: cs⟩) (hopen : ¬ (q = false ∧ c = '{'))
    (hclose : ¬ (q = false ∧ c = '}')) : Open t (quotes q c) groups ⟨o + c.utf8Size, cs⟩ := by
  intro k group hgroup
  rw [← closesAt_turn (turn_other hopen hclose)]
  exact h k group hgroup

theorem Open.push (h : Open t false groups ⟨o, '{' :: cs⟩) (hp : (⟨o, '{' :: cs⟩ : Place).In t) :
    Open t false (o :: groups) ⟨o + 1, cs⟩ := by
  intro k group hgroup
  cases k with
  | zero =>
    cases hgroup
    exact closes_iff.2 ⟨cs, hp, rfl⟩
  | succ k =>
    have hk := h k group hgroup
    rwa [closesAt_turn turn_open] at hk

theorem Open.pop {group : Nat} (h : Open t false (group :: groups) ⟨o, '}' :: cs⟩) :
    Closes t group (some o) ∧ Open t false groups ⟨o + 1, cs⟩ := by
  constructor
  · exact h 0 group rfl
  · intro k g hg
    have hk := h (k + 1) g hg
    rwa [closesAt_turn turn_close] at hk

/-- Behind a group that closes, the groups around it are as they were. -/
theorem Open.jump (h : Open t false groups ⟨o, '{' :: cs⟩) {n : Nat}
    (hn : closing? false 0 cs = some n) :
    Open t false groups ((⟨o + 1, cs⟩ : Place).advance (n + 1)) := by
  intro k group hgroup
  have hk := h k group hgroup
  rw [closesAt_turn turn_open] at hk
  rwa [show closesAt false (k + 1) ⟨o + '{'.utf8Size, cs⟩ =
    closesAt false k ((⟨o + 1, cs⟩ : Place).advance (n + 1)) by rw [closesAt_succ, hn]; rfl] at hk

/-- Groups around one that never closes never close either. -/
theorem Open.never (h : Open t false groups ⟨o, '{' :: cs⟩) (hn : closing? false 0 cs = none) :
    ∀ group ∈ groups, Closes t group none := by
  intro group hgroup
  obtain ⟨k, hk⟩ := List.getElem?_of_mem hgroup
  have hclose := h k group hk
  rwa [closesAt_turn turn_open, closesAt_succ, show closing? false 0 _ = none from hn] at hclose

theorem Open.end (h : Open t q groups ⟨o, []⟩) : ∀ group ∈ groups, Closes t group none := by
  intro group hgroup
  obtain ⟨k, hk⟩ := List.getElem?_of_mem hgroup
  exact h k group hk

/-! ## The end of the segment -/

/-- Where the plain search ends the segment, when `depth` nested groups are open at a place: behind
them it goes on in the segment itself. -/
def resume (formats : Bool) (length : Nat) (quoted : Bool) (d : Nat) : Nat → Place → Option End
  | 0, p => plainRun formats length (reading quoted d [] ∅) p
  | depth + 1, p =>
    (closing? quoted depth p.rest).bind fun n =>
      plainRun formats (length + n + 1) (reading false d [] ∅) (p.advance (n + 1))

theorem resume_turn (h : turn q k c = some (q', k')) (o : Nat) (cs : Text) :
    resume formats length q d (k + 1) ⟨o, c :: cs⟩ =
      resume formats (length + 1) q' d (k' + 1) ⟨o + c.utf8Size, cs⟩ := by
  simp only [resume, closing?_cons h, Option.bind_map, Place.advance_succ, Function.comp_def]
  congr 1
  funext n
  rw [show length + (n + 1) + 1 = length + 1 + n + 1 by omega]

theorem resume_succ (k : Nat) (p : Place) :
    resume formats length q d (k + 1) p = (closing? q 0 p.rest).bind fun n =>
      resume formats (length + n + 1) false d k (p.advance (n + 1)) := by
  cases k with
  | zero => rfl
  | succ k =>
    simp only [resume, closing?_succ, Option.bind_assoc, Option.bind_map, Function.comp_def,
      Place.advance_advance]
    congr 1
    funext n
    show _ = (closing? false k (p.rest.drop (n + 1))).bind _
    congr 1
    funext m
    rw [show length + (n + 1 + m) + 1 = length + n + 1 + m + 1 by omega]
    rfl

theorem resume_open (o : Nat) (cs : Text) :
    resume formats length false d k ⟨o, '{' :: cs⟩ =
      resume formats (length + 1) false d (k + 1) ⟨o + 1, cs⟩ := by
  cases k with
  | zero =>
    rw [resume, plainRun_open rfl, show Search.start ∅ = reading false 0 [] ∅ from rfl,
      plainRun_reading, Option.bind_map]
    simp only [resume, closed, Function.comp_def, Nat.zero_add]
    congr 1
    funext n
    rw [show length + n + 2 = length + 1 + n + 1 by omega]
  | succ k => exact resume_turn turn_open o cs

theorem resume_close (o : Nat) (cs : Text) :
    resume formats length false d (k + 1) ⟨o, '}' :: cs⟩ =
      resume formats (length + 1) false d k ⟨o + 1, cs⟩ := by
  cases k with
  | zero => rfl
  | succ k => exact resume_turn turn_close o cs

/-! ## What a step does to the groups -/

namespace Search

variable {s s' : Search}

@[simp] theorem groups_withDepth (s : Search) (f : Nat → Nat) :
    (s.withDepth f).groups = s.groups := by
  unfold withDepth
  split <;> rfl

@[simp] theorem outcomes_withDepth (s : Search) (f : Nat → Nat) :
    (s.withDepth f).outcomes = s.outcomes := by
  unfold withDepth
  split <;> rfl

/-- What a character at an offset may do to the groups and to what is known of them. -/
inductive Turns (o : Nat) (c : Char) (s s' : Search) : Prop
  | keeps (hgroups : s'.groups = s.groups) (houtcomes : s'.outcomes = s.outcomes)
  | opens (hmode : s.mode = .code) (hc : c = '{') (hunknown : o ∉ s.outcomes)
      (hgroups : s'.groups = o :: s.groups) (houtcomes : s'.outcomes = s.outcomes)
  | closes {group : Nat} (hgroups : s.groups = group :: s'.groups)
      (houtcomes : s'.outcomes = s.outcomes.insert group (some o))

theorem turns_stepCode (hmode : s.mode = .code) (h : s.stepCode formats o c = .next s') :
    Turns o c s s' := by
  unfold stepCode at h
  split at h
  · cases h
    exact .keeps rfl rfl
  split at h
  · cases h
    exact .keeps (by simp) (by simp)
  split at h
  · cases h
    exact .keeps (by simp) (by simp)
  split at h
  · split at h <;> cases h <;> exact .keeps rfl rfl
  split at h
  · next hc =>
    split at h
    · cases h
      exact .keeps rfl rfl
    · contradiction
    · next hknown =>
      cases h
      refine .opens hmode hc ?_ rfl rfl
      rw [Std.TreeMap.mem_iff_isSome_getElem?, hknown]
      exact Bool.false_ne_true
  split at h
  · split at h
    · contradiction
    · next hgroups =>
      cases h
      exact .closes hgroups rfl
  · cases h
    exact .keeps rfl rfl

theorem turns_step (h : s.step formats o c = .next s') : Turns o c s s' := by
  unfold step at h
  split at h
  · next hmode => exact turns_stepCode hmode h
  · cases h
    split <;> exact .keeps rfl rfl
  · split at h
    · contradiction
    · split at h
      · contradiction
      · cases h
        exact .keeps rfl rfl
  · cases h
    split <;> exact .keeps rfl rfl

end Search

/-! ## A search on its way -/

/-- A search on its way fits the text: its table is sound, the groups that it has open are open, and
`r` is where the plain search ends the segment. -/
inductive Fits (t : Text) (formats : Bool) (r : Option End) : Nat → Search → Place → Prop
  | reading {length : Nat} {s : Search} {p : Place} {q : Bool}
      (hmode : s.mode = if q then .string else .code) (hp : p.In t) (hsound : Sound t s.outcomes)
      (hopen : Open t q s.groups p) (hr : r = resume formats length q s.depth s.groups.length p) :
      Fits t formats r length s p
  | format {length : Nat} {s : Search} {p : Place} {colon : Nat} (hmode : s.mode = .format colon)
      (hsound : Sound t s.outcomes) (hgroups : s.groups = [])
      (hr : r = plainRun formats length ⟨.format colon, s.depth, [], ∅⟩ p) :
      Fits t formats r length s p
  | group {length : Nat} {s : Search} {p : Place} {n : Nat}
      (hmode : s.mode = .group (p.advance n).offset) (hn : n < p.rest.length)
      (hbehind : Fits t formats r (length + n + 1) { s with mode := .code } (p.advance (n + 1))) :
      Fits t formats r length s p

variable {r : Option End} {s : Search} {p : Place}

/-- What a step may lead to: a search that fits, or the answer of the plain search and a sound
table. -/
def Keeps (t : Text) (formats : Bool) (r : Option End) (length o : Nat) (c : Char) (cs : Text)
    (s : Search) : Step → Prop
  | .next s' => Fits t formats r (length + 1) s' ⟨o + c.utf8Size, cs⟩
  | .ends colon => r = some ⟨length, o, c, colon⟩ ∧ Sound t s.learned
  | .fails => r = none ∧ Sound t s.learned

/-! At a brace that opens a group the table gives one of three answers: nothing is known of the
group, it closes, or it never closes. -/

theorem keeps_open (hp : (⟨o, '{' :: cs⟩ : Place).In t) (hsound : Sound t outcomes)
    (hopen : Open t false groups ⟨o, '{' :: cs⟩)
    (hr : r = resume formats length false d groups.length ⟨o, '{' :: cs⟩) :
    Keeps t formats r length o '{' cs ⟨.code, d, groups, outcomes⟩
      (Search.step formats o '{' ⟨.code, d, groups, outcomes⟩) := by
  rw [resume_open] at hr
  cases hknown : outcomes[o]? with
  | none =>
    have hstep : Search.step formats o '{' ⟨.code, d, groups, outcomes⟩ =
        .next ⟨.code, d, o :: groups, outcomes⟩ := by
      simp [Search.step, Search.stepCode, hknown]
    rw [hstep]
    exact .reading rfl hp.next hsound (hopen.push hp) hr
  | some outcome =>
    obtain ⟨cs', hp', houtcome⟩ := closes_iff.1 (hsound o outcome hknown)
    obtain rfl : cs' = cs := (List.cons.inj (hp'.rest_eq hp)).2
    rw [resume_succ] at hr
    cases hn : closing? false 0 cs' with
    | none =>
      -- neither the groups around this one nor the segment close
      obtain rfl : outcome = none := by rw [houtcome, closesAt, hn]; rfl
      have hstep : Search.step formats o '{' ⟨.code, d, groups, outcomes⟩ = .fails := by
        simp [Search.step, Search.stepCode, hknown]
      rw [hstep]
      rw [hn] at hr
      exact ⟨hr, hsound.learned (hopen.never hn)⟩
    | some n =>
      obtain rfl : outcome = some ((⟨o + 1, cs'⟩ : Place).advance n).offset := by
        rw [houtcome, closesAt, hn]; rfl
      have hstep : Search.step formats o '{' ⟨.code, d, groups, outcomes⟩ =
          .next ⟨.group ((⟨o + 1, cs'⟩ : Place).advance n).offset, d, groups, outcomes⟩ := by
        simp [Search.step, Search.stepCode, hknown]
      have hlt : n < cs'.length := by
        have hdrop := congrArg List.length (drop_of_closing? hn)
        rw [List.length_drop, List.length_cons] at hdrop
        omega
      rw [hstep]
      rw [hn] at hr
      exact .group rfl hlt (.reading rfl (hp.next.advance _) hsound (hopen.jump hn) hr)

theorem keeps_close (hp : (⟨o, '}' :: cs⟩ : Place).In t) (hsound : Sound t outcomes)
    (hopen : Open t false groups ⟨o, '}' :: cs⟩)
    (hr : r = resume formats length false d groups.length ⟨o, '}' :: cs⟩) :
    Keeps t formats r length o '}' cs ⟨.code, d, groups, outcomes⟩
      (Search.step formats o '}' ⟨.code, d, groups, outcomes⟩) := by
  cases groups with
  | nil =>
    refine ⟨?_, hsound⟩
    rw [hr]
    exact plainRun_ends (mode_reading (by simp) _ _) rfl
  | cons group groups =>
    obtain ⟨hclose, hrest⟩ := hopen.pop
    rw [List.length_cons, resume_close] at hr
    exact .reading rfl hp.next (hsound.insert hclose) hrest hr

theorem keeps_other (hbrace : ¬ (q = false ∧ c = '{')) (hclose : ¬ (q = false ∧ c = '}'))
    (hp : (⟨o, c :: cs⟩ : Place).In t) (hsound : Sound t outcomes)
    (hopen : Open t q groups ⟨o, c :: cs⟩)
    (hr : r = resume formats length q d groups.length ⟨o, c :: cs⟩) :
    Keeps t formats r length o c cs (.reading q d groups outcomes)
      ((Search.reading q d groups outcomes).step formats o c) := by
  cases groups with
  | nil =>
    -- the plain search takes the same step, since it does not look at the table
    have hplain : r = plainRun formats length (.reading q d [] ∅) ⟨o, c :: cs⟩ := hr
    by_cases hcolon : formats = true ∧ q = false ∧ d = 0 ∧ c = ':'
    · obtain ⟨rfl, rfl, rfl, rfl⟩ := hcolon
      rw [plainRun_next (mode_reading hbrace _ _) (step_reading_colon o ∅)] at hplain
      rw [step_reading_colon]
      exact .format rfl hsound rfl hplain
    · rw [plainRun_next (mode_reading hbrace _ _) (step_reading hbrace hclose hcolon ∅)] at hplain
      rw [step_reading hbrace hclose hcolon]
      exact .reading rfl hp.next hsound (open_nil _ _) hplain
  | cons group groups =>
    rw [List.length_cons, resume_turn (turn_other hbrace hclose)] at hr
    rw [step_reading_nested hbrace hclose]
    exact .reading rfl hp.next hsound (hopen.other hbrace hclose) hr

theorem keeps_format {colon : Nat} (hsound : Sound t outcomes)
    (hr : r = plainRun formats length ⟨.format colon, d, [], ∅⟩ ⟨o, c :: cs⟩) :
    Keeps t formats r length o c cs ⟨.format colon, d, [], outcomes⟩
      (Search.step formats o c ⟨.format colon, d, [], outcomes⟩) := by
  have hmode {outcomes : Outcomes} : ¬ ((⟨.format colon, d, [], outcomes⟩ : Search).mode = .code ∧
      c = '{') := by simp
  by_cases hends : c = '}' ∨ c = ']'
  · have hstep (outcomes : Outcomes) :
        Search.step formats o c ⟨.format colon, d, [], outcomes⟩ = .ends (some colon) := by
      simp [Search.step, hends]
    rw [plainRun_ends hmode (hstep ∅)] at hr
    rw [hstep]
    exact ⟨hr, hsound⟩
  · by_cases hopen : c = '{'
    · have hstep (outcomes : Outcomes) :
          Search.step formats o c ⟨.format colon, d, [], outcomes⟩ = .fails := by
        simp [Search.step, hopen]
      rw [plainRun_fails hmode (hstep ∅)] at hr
      rw [hstep]
      exact ⟨hr, hsound⟩
    · have hstep (outcomes : Outcomes) :
          Search.step formats o c ⟨.format colon, d, [], outcomes⟩ =
            .next ⟨.format colon, d, [], outcomes⟩ := by
        simp [Search.step, hends, hopen]
      rw [plainRun_next hmode (hstep ∅)] at hr
      rw [hstep]
      exact .format rfl hsound rfl hr

/-- In a known group only the offset counts. -/
theorem step_group (stop : Nat) :
    Search.step formats o c ⟨.group stop, d, groups, outcomes⟩ =
      .next (if o = stop then ⟨.code, d, groups, outcomes⟩
        else ⟨.group stop, d, groups, outcomes⟩) := rfl

theorem keeps_group {n : Nat} (hn : n < (c :: cs).length)
    (hbehind : Fits t formats r (length + n + 1) ⟨.code, d, groups, outcomes⟩
      ((⟨o, c :: cs⟩ : Place).advance (n + 1))) :
    Keeps t formats r length o c cs
      ⟨.group ((⟨o, c :: cs⟩ : Place).advance n).offset, d, groups, outcomes⟩
      (Search.step formats o c
        ⟨.group ((⟨o, c :: cs⟩ : Place).advance n).offset, d, groups, outcomes⟩) := by
  rw [step_group]
  rw [Place.advance_succ] at hbehind
  cases n with
  | zero =>
    rw [Place.advance_zero] at hbehind ⊢
    rw [if_pos rfl]
    exact hbehind
  | succ n =>
    have hne : o ≠ ((⟨o, c :: cs⟩ : Place).advance (n + 1)).offset := by
      have hpos := c.utf8Size_pos
      simp only [Place.advance, List.take_succ_cons, Text.bytes_cons]
      omega
    rw [if_neg hne, Place.advance_succ]
    rw [show length + (n + 1) + 1 = length + 1 + n + 1 by omega] at hbehind
    exact .group rfl (Nat.lt_of_succ_lt_succ hn) hbehind

theorem Fits.step (h : Fits t formats r length s ⟨o, c :: cs⟩) :
    Keeps t formats r length o c cs s (s.step formats o c) := by
  obtain ⟨mode, d, groups, outcomes⟩ := s
  cases h with
  | @reading _ _ _ q hmode hp hsound hopen hr =>
    obtain rfl : mode = if q then .string else .code := hmode
    by_cases hbrace : q = false ∧ c = '{'
    · obtain ⟨rfl, rfl⟩ := hbrace
      exact keeps_open hp hsound hopen hr
    · by_cases hclose : q = false ∧ c = '}'
      · obtain ⟨rfl, rfl⟩ := hclose
        exact keeps_close hp hsound hopen hr
      · exact keeps_other hbrace hclose hp hsound hopen hr
  | @format _ _ _ colon hmode hsound hgroups hr =>
    obtain rfl : mode = .format colon := hmode
    obtain rfl : groups = [] := hgroups
    exact keeps_format hsound hr
  | @group _ _ _ n hmode hn hbehind =>
    obtain rfl : mode = .group ((⟨o, c :: cs⟩ : Place).advance n).offset := hmode
    exact keeps_group hn hbehind

/-- At the end of the text no segment ends, and no group that is still open closes. -/
theorem Fits.end (h : Fits t formats r length s ⟨o, []⟩) : r = none ∧ Sound t s.learned := by
  cases h with
  | reading _ _ hsound hopen hr =>
    refine ⟨?_, hsound.learned hopen.end⟩
    rw [hr]
    cases s.groups.length with
    | zero => exact plainRun_nil
    | succ k => rfl
  | format _ hsound hgroups hr =>
    refine ⟨hr.trans plainRun_nil, hsound.learned ?_⟩
    intro group hgroup
    rw [hgroups] at hgroup
    exact absurd hgroup List.not_mem_nil
  | group _ hn _ => exact absurd hn (Nat.not_lt_zero _)

/-- A search that fits ends where the plain search does, and what is known then is sound. -/
theorem Fits.run (h : Fits t formats r length s ⟨o, cs⟩) :
    (s.run formats length o cs).1 = r ∧ Sound t (s.run formats length o cs).2 := by
  induction cs generalizing length o s with
  | nil =>
    obtain ⟨hr, hsound⟩ := h.end
    exact ⟨hr.symm, hsound⟩
  | cons c cs ih =>
    have hstep := h.step
    rw [Search.run]
    cases hs : s.step formats o c with
    | next s' =>
      rw [hs] at hstep
      exact ih hstep
    | ends colon =>
      rw [hs] at hstep
      exact ⟨hstep.1.symm, hstep.2⟩
    | fails =>
      rw [hs] at hstep
      exact ⟨hstep.1.symm, hstep.2⟩

theorem Fits.sound (h : Fits t formats r length s p) : Sound t s.outcomes := by
  induction h with
  | reading _ _ hsound _ _ => exact hsound
  | format _ hsound _ _ => exact hsound
  | group _ _ _ ih => exact ih

theorem fits_start (hp : (⟨o, cs⟩ : Place).In t) (hsound : Sound t outcomes) :
    Fits t formats (plainRun formats 0 (.start ∅) ⟨o, cs⟩) 0 (.start outcomes) ⟨o, cs⟩ :=
  .reading (q := false) rfl hp hsound (open_nil _ _) rfl

/-- With a sound table a segment ends where the plain search ends it, and the table stays sound. -/
theorem end?_sound (hp : (⟨o, cs⟩ : Place).In t) (hsound : Sound t outcomes) :
    (end? outcomes o cs).1 = plainEnd? o cs ∧ Sound t (end? outcomes o cs).2 :=
  (fits_start hp hsound).run

end ExpressionTemplate.Segment

end LogSyntax
