import LogSyntax.Proofs.ExpressionTemplate.Resuming
/-!
# No group is searched twice

What is known of nested groups only grows, and no entry is ever changed: a search opens a group only
at a brace that nothing is known of, and every group that it has opened has an entry when it ends.
So in a whole run of a reader no group is opened a second time (`Scan.Passes.opens_once`).
-/

namespace LogSyntax.ExpressionTemplate

namespace Segment

/-! ## What the entries say -/

/-- Every entry is of an opening brace, and where it says that the group closes stands a closing
brace further on. -/
def Placed (t : Text) (known : Outcomes) : Prop :=
  ∀ (group : Nat) (outcome : Option Nat), known[group]? = some outcome →
    Text.StandsAt ['{'] t group ∧
      ∀ stop, outcome = some stop → group < stop ∧ Text.StandsAt ['}'] t stop

theorem standsAt_of_in {t cs : Text} {c : Char} {o : Nat} (h : (⟨o, c :: cs⟩ : Place).In t) :
    Text.StandsAt [c] t o := by
  obtain ⟨behind, happend, hbytes⟩ := h
  exact ⟨behind, cs, happend.symm, hbytes⟩

theorem Sound.placed {t : Text} {known : Outcomes} (h : Sound t known) : Placed t known := by
  intro group outcome hknown
  obtain ⟨cs, hp, rfl⟩ := closes_iff.1 (h group outcome hknown)
  refine ⟨standsAt_of_in hp, fun stop hstop => ?_⟩
  obtain ⟨n, hn, rfl⟩ := Option.map_eq_some_iff.1 hstop
  have hclose : ((⟨group + 1, cs⟩ : Place).advance n).In t := hp.next.advance n
  have hrest : ((⟨group + 1, cs⟩ : Place).advance n).rest = '}' :: cs.drop (n + 1) :=
    drop_of_closing? hn
  constructor
  · simp only [Place.advance]
    omega
  · obtain ⟨behind, happend, hbytes⟩ := hclose
    exact ⟨behind, cs.drop (n + 1), by rw [← happend, hrest]; rfl, hbytes⟩

/-! ## Growing -/

/-- What is known stays as it is when more is learned. -/
def Extends (known known' : Outcomes) : Prop :=
  ∀ (group : Nat) (outcome : Option Nat), known[group]? = some outcome →
    known'[group]? = some outcome

namespace Extends

variable {known known' known'' : Outcomes} {group : Nat}

theorem refl (known : Outcomes) : Extends known known := fun _ _ h => h

theorem trans (h : Extends known known') (h' : Extends known' known'') : Extends known known'' :=
  fun group outcome hknown => h' group outcome (h group outcome hknown)

theorem mem (h : Extends known known') (hgroup : group ∈ known) : group ∈ known' := by
  rw [Std.TreeMap.mem_iff_isSome_getElem?, Option.isSome_iff_exists] at hgroup ⊢
  exact hgroup.imp (h group)

/-- A group of which nothing is known may be learned of. -/
theorem insert (hgroup : group ∉ known) (outcome : Option Nat) :
    Extends known (known.insert group outcome) := by
  intro other _ hother
  rw [Std.TreeMap.getElem?_insert, if_neg, hother]
  intro heq
  obtain rfl := Nat.compare_eq_eq.1 heq
  rw [Std.TreeMap.getElem?_eq_none hgroup] at hother
  contradiction

end Extends

theorem mem_insert_iff {known : Outcomes} {group other : Nat} {outcome : Option Nat} :
    other ∈ known.insert group outcome ↔ group = other ∨ other ∈ known := by
  rw [Std.TreeMap.mem_insert, Nat.compare_eq_eq]

theorem extends_foldl {groups : List Nat} (known : Outcomes) (hnodup : groups.Nodup)
    (hunknown : ∀ group ∈ groups, group ∉ known) :
    let known' := groups.foldl (fun known group => known.insert group none) known
    Extends known known' ∧ ∀ group ∈ groups, group ∈ known' := by
  induction groups generalizing known with
  | nil => exact ⟨.refl known, by simp⟩
  | cons group groups ih =>
    rw [List.nodup_cons] at hnodup
    rw [List.forall_mem_cons] at hunknown
    have hgroups : ∀ other ∈ groups, other ∉ known.insert group none := by
      intro other hother hmem
      rcases mem_insert_iff.1 hmem with rfl | hmem
      · exact hnodup.1 hother
      · exact hunknown.2 other hother hmem
    obtain ⟨hextends, hmem⟩ := ih (known.insert group none) hnodup.2 hgroups
    refine ⟨(Extends.insert hunknown.1 none).trans hextends, ?_⟩
    rw [List.forall_mem_cons]
    exact ⟨hextends.mem (mem_insert_iff.2 (.inl rfl)), hmem⟩

namespace Search

variable {formats : Bool} {o length : Nat} {c : Char} {cs : Text} {s s' : Search}

/-! ## What a search does -/

/-- The groups that a search opens, by their offsets, when it goes on from an offset over a text. -/
def opened (formats : Bool) (offset : Nat) (s : Search) : Text → List Nat
  | [] => []
  | c :: cs =>
    match s.step formats offset c with
    | .next s' =>
      let more := s'.opened formats (offset + c.utf8Size) cs
      if s'.groups = offset :: s.groups then offset :: more else more
    | .ends _ => []
    | .fails => []

/-- The open groups are different ones in front of an offset, and nothing is known of them yet. -/
structure Fresh (o : Nat) (s : Search) : Prop where
  front : ∀ group ∈ s.groups, group < o
  nodup : s.groups.Nodup
  unknown : ∀ group ∈ s.groups, group ∉ s.outcomes

theorem fresh_start (o : Nat) (known : Outcomes) : Fresh o (.start known) :=
  ⟨nofun, .nil, nofun⟩

namespace Turns

theorem fresh (h : Turns o c s s') (hs : Fresh o s) : Fresh (o + c.utf8Size) s' := by
  have hpos := c.utf8Size_pos
  have hfront : ∀ group ∈ s.groups, group < o + c.utf8Size := fun group hgroup =>
    Nat.lt_add_right _ (hs.front group hgroup)
  cases h with
  | keeps hgroups houtcomes =>
    exact ⟨hgroups ▸ hfront, hgroups ▸ hs.nodup, by rw [hgroups, houtcomes]; exact hs.unknown⟩
  | opens _ _ hunknown hgroups houtcomes =>
    have ho : o ∉ s.groups := fun hmem => Nat.lt_irrefl o (hs.front o hmem)
    constructor
    · rw [hgroups, List.forall_mem_cons]
      exact ⟨Nat.lt_add_of_pos_right hpos, hfront⟩
    · rw [hgroups]
      exact List.nodup_cons.2 ⟨ho, hs.nodup⟩
    · rw [hgroups, houtcomes, List.forall_mem_cons]
      exact ⟨hunknown, hs.unknown⟩
  | @closes group hgroups houtcomes =>
    obtain ⟨_, hnodup, hunknown⟩ := hs
    rw [hgroups, List.nodup_cons] at hnodup
    rw [hgroups] at hfront hunknown
    rw [List.forall_mem_cons] at hfront hunknown
    refine ⟨hfront.2, hnodup.2, fun other hother hmem => ?_⟩
    rw [houtcomes] at hmem
    rcases mem_insert_iff.1 hmem with rfl | hmem
    · exact hnodup.1 hother
    · exact hunknown.2 other hother hmem

theorem grows (h : Turns o c s s') (hs : Fresh o s) : Extends s.outcomes s'.outcomes := by
  cases h with
  | keeps _ houtcomes => exact houtcomes ▸ .refl _
  | opens _ _ _ _ houtcomes => exact houtcomes ▸ .refl _
  | @closes group hgroups houtcomes =>
    rw [houtcomes]
    exact .insert (hs.unknown group (hgroups ▸ List.mem_cons_self)) _

/-- A group that is no longer open is known. -/
theorem mem_groups (h : Turns o c s s') {group : Nat} (hgroup : group ∈ s.groups) :
    group ∈ s'.groups ∨ group ∈ s'.outcomes := by
  cases h with
  | keeps hgroups _ => exact .inl (hgroups ▸ hgroup)
  | opens _ _ _ hgroups _ => exact .inl (hgroups ▸ List.mem_cons_of_mem o hgroup)
  | closes hgroups houtcomes =>
    rw [hgroups, List.mem_cons] at hgroup
    rcases hgroup with rfl | hgroup
    · exact .inr (houtcomes ▸ mem_insert_iff.2 (.inl rfl))
    · exact .inl hgroup

theorem not_mem_of_opens (h : Turns o c s s') (hopens : s'.groups = o :: s.groups) :
    o ∉ s.outcomes := by
  cases h with
  | keeps hgroups _ => simp [hgroups] at hopens
  | opens _ _ hunknown _ _ => exact hunknown
  | closes hgroups _ =>
    rw [hgroups] at hopens
    have hlength := congrArg List.length hopens
    simp at hlength
    omega

end Turns

/-- A search opens its groups one behind the other, and nothing is known of them before. -/
theorem Fresh.opened (hs : Fresh o s) (formats : Bool) (cs : Text) :
    (∀ group ∈ s.opened formats o cs, o ≤ group ∧ group ∉ s.outcomes) ∧
      (s.opened formats o cs).Pairwise (· < ·) := by
  induction cs generalizing o s with
  | nil => exact ⟨nofun, .nil⟩
  | cons c cs ih =>
    rw [Search.opened]
    cases hstep : s.step formats o c with
    | ends => exact ⟨nofun, .nil⟩
    | fails => exact ⟨nofun, .nil⟩
    | next s' =>
      have hturns := turns_step hstep
      have hpos := c.utf8Size_pos
      obtain ⟨hbehind, hsorted⟩ := ih (hturns.fresh hs)
      have hmore : ∀ group ∈ s'.opened formats (o + c.utf8Size) cs,
          o < group ∧ group ∉ s.outcomes := by
        intro group hgroup
        obtain ⟨hle, hunknown⟩ := hbehind group hgroup
        -- nothing is forgotten, so what is not known behind the step is not known in front of it
        exact ⟨by omega, fun hmem => hunknown ((hturns.grows hs).mem hmem)⟩
      have hfront : ∀ group ∈ s'.opened formats (o + c.utf8Size) cs,
          o ≤ group ∧ group ∉ s.outcomes := fun group hgroup =>
        (hmore group hgroup).imp_left Nat.le_of_lt
      dsimp only
      split
      · next hopens =>
        constructor
        · exact List.forall_mem_cons.2 ⟨⟨Nat.le_refl o, hturns.not_mem_of_opens hopens⟩, hfront⟩
        · exact List.pairwise_cons.2 ⟨fun group hgroup => (hmore group hgroup).1, hsorted⟩
      · exact ⟨hfront, hsorted⟩

theorem Fresh.learned (hs : Fresh o s) :
    Extends s.outcomes s.learned ∧ ∀ group ∈ s.groups, group ∈ s.learned :=
  extends_foldl s.outcomes hs.nodup hs.unknown

/-- When a search ends, what was known is known as it was, and so are the groups that were open and
those that it has opened. -/
theorem Fresh.run (hs : Fresh o s) (length : Nat) (cs : Text) :
    Extends s.outcomes (s.run formats length o cs).2 ∧
      ∀ group ∈ s.groups ++ s.opened formats o cs, group ∈ (s.run formats length o cs).2 := by
  induction cs generalizing o s length with
  | nil =>
    rw [Search.opened, List.append_nil]
    exact hs.learned
  | cons c cs ih =>
    rw [Search.opened, Search.run]
    cases hstep : s.step formats o c with
    | ends => simpa using hs.learned
    | fails => simpa using hs.learned
    | next s' =>
      have hturns := turns_step hstep
      obtain ⟨hextends, hmem⟩ := ih (hturns.fresh hs) (length + 1)
      simp only [List.mem_append] at hmem ⊢
      refine ⟨(hturns.grows hs).trans hextends, fun group hgroup => ?_⟩
      -- an open group stays open or is known, and one that the step opens is open behind it
      rcases hgroup with hgroup | hgroup
      · rcases hturns.mem_groups hgroup with hopen | hknown
        · exact hmem group (.inl hopen)
        · exact hextends.mem hknown
      · split at hgroup
        · next hopens =>
          rcases List.mem_cons.1 hgroup with rfl | hgroup
          · exact hmem _ (.inl (hopens ▸ List.mem_cons_self))
          · exact hmem group (.inr hgroup)
        · exact hmem group (.inr hgroup)

end Search

end Segment

open Segment

variable {h : Heuristics} {t : Text}

theorem Searching.fresh {formats : Bool} {s : Search} {p : Place} (hs : Searching h t formats s p) :
    s.Fresh p.offset := by
  induction hs with
  | start => exact Search.fresh_start _ _
  | next _ hstep ih => exact (Search.turns_step hstep).fresh ih

namespace Scan

variable {history : List Scan} {s s' : Scan} {regions : List Region}

/-! ## What a reader does -/

/-- The groups that are opened by the search in the next step of a reader, if it makes one. -/
def opened (s : Scan) : List Nat :=
  match s.place.rest with
  | [] => []
  | c :: cs =>
    if c = '{' ∧ cs.head? ≠ some '{' ∧ (Directive.readBare? cs).isNone then
      (Search.start s.outcomes).opened (!isDirective cs) (s.place.offset + 1) cs
    else []

theorem opened_of_not_opens (hs : ∀ cs, ¬ s.Opens cs) : s.opened = [] := by
  unfold opened
  split
  · rfl
  · next c cs hrest =>
    rw [if_neg]
    rintro ⟨rfl, hhead, -⟩
    exact hs cs ⟨hrest, hhead⟩

theorem opened_of_opens {cs : Text} (hopens : s.Opens cs) : s.opened =
    if (Directive.readBare? cs).isNone then
      (Search.start s.outcomes).opened (!isDirective cs) (s.place.offset + 1) cs
    else [] := by
  rw [opened, hopens.1]
  simp [hopens.2]

/-- A step opens each of its groups once, and nothing is known of them before. -/
theorem opened_fresh (s : Scan) : s.opened.Nodup ∧ ∀ group ∈ s.opened, group ∉ s.outcomes := by
  unfold opened
  split
  · exact ⟨.nil, nofun⟩
  · next c cs _ =>
    split
    · obtain ⟨hunknown, hsorted⟩ :=
        (Search.fresh_start (s.place.offset + 1) s.outcomes).opened (!isDirective cs) cs
      exact ⟨hsorted.imp Nat.ne_of_lt, fun group hgroup => (hunknown group hgroup).2⟩
    · exact ⟨.nil, nofun⟩

theorem outcomes_readSegment (find : Finder) (s : Scan) (cs : Text) :
    (s.readSegment find cs).2.outcomes =
      if (Directive.readBare? cs).isNone then (find s.outcomes (s.place.offset + 1) cs).2
      else s.outcomes := by
  unfold readSegment
  cases Directive.readBare? cs with
  | some found => rfl
  | none =>
    obtain ⟨_ | e, known⟩ := find s.outcomes (s.place.offset + 1) cs
    · rfl
    · rfl

/-- Behind a step everything is known that was known before, and the groups that it has opened. -/
theorem next?_knows (hnext : s.next? end? = some (regions, s')) :
    Extends s.outcomes s'.outcomes ∧ ∀ group ∈ s.opened, group ∈ s'.outcomes := by
  rcases next?_cases hnext with ⟨cs, hopens, hread⟩ | ⟨hs, -, n, rfl⟩
  · obtain rfl : (s.readSegment end? cs).2 = s' := congrArg Prod.snd hread
    rw [opened_of_opens hopens, outcomes_readSegment]
    split
    · exact (Search.fresh_start (s.place.offset + 1) s.outcomes).run 0 cs
    · exact ⟨.refl _, nofun⟩
  · rw [opened_of_not_opens hs]
    exact ⟨.refl _, nofun⟩

namespace Passes

/-- What was known in an earlier state is known as it was, and so are the groups opened since. -/
theorem knows (hs : Passes h t history s) :
    ∀ x ∈ history, Extends x.outcomes s.outcomes ∧ ∀ group ∈ x.opened, group ∈ s.outcomes := by
  induction hs with
  | start => exact nofun
  | @next history s s' _ _ hnext ih =>
    obtain ⟨hextends, hopened⟩ := next?_knows hnext
    intro x hx
    rcases List.mem_append.1 hx with hx | hx
    · exact ⟨(ih x hx).1.trans hextends, fun group hgroup =>
        hextends.mem ((ih x hx).2 group hgroup)⟩
    · obtain rfl := List.mem_singleton.1 hx
      exact ⟨hextends, hopened⟩

theorem nodup_opened (hs : Passes h t history s) : ((history ++ [s]).flatMap opened).Nodup := by
  induction hs with
  | start => simpa using (opened_fresh _).1
  | @next history s s' _ hs hnext ih =>
    rw [List.flatMap_append, List.flatMap_singleton, List.nodup_append]
    refine ⟨ih, (opened_fresh s').1, ?_⟩
    rintro group hbefore other hother rfl
    -- an earlier step has opened the group, so something is known of it
    obtain ⟨x, hx, hgroup⟩ := List.mem_flatMap.1 hbefore
    exact (opened_fresh s').2 group hother (((hs.next hnext).knows x hx).2 group hgroup)

/-- No group is searched twice. In every state of a run, and in the middle of every search, each
entry of the table is of an opening brace and names, if any, a closing brace further on. No step of
a reader or of a search changes an entry, nor does the end of a search, which leaves an entry for
every group that the search has opened. So the steps of a run together open no group twice. -/
theorem opens_once (hs : Passes h t history s) :
    Placed t s.outcomes ∧
      (∀ x ∈ history, Extends x.outcomes s.outcomes ∧ ∀ group ∈ x.opened, group ∈ s.outcomes) ∧
      ((history ++ [s]).flatMap opened).Nodup ∧
      ∀ formats search o cs, Searching h t formats search ⟨o, cs⟩ →
        Placed t search.outcomes ∧
          (∀ c cs' search', cs = c :: cs' → search.step formats o c = .next search' →
            Extends search.outcomes search'.outcomes) ∧
          ∀ length, Extends search.outcomes (search.run formats length o cs).2 ∧
            ∀ group ∈ search.groups ++ search.opened formats o cs,
              group ∈ (search.run formats length o cs).2 := by
  refine ⟨hs.reachable.knows.2.placed, hs.knows, hs.nodup_opened, ?_⟩
  intro formats search o cs hsearching
  obtain ⟨r, length, hfits⟩ := hsearching.fits
  refine ⟨hfits.sound.placed, ?_, fun length => ?_⟩
  · intro c cs' search' _ hstep
    exact (Search.turns_step hstep).grows hsearching.fresh
  · exact hsearching.fresh.run length cs

/-- The first search opens both groups. The second one, which begins at the first of them, jumps
over the other one, and the reader comes to its brace. -/
theorem opens_once_unclosed :
    (∃ history s, Passes .standard ['{', 'a', '{', 'b', '{', 'c', '}'] history s ∧
      s.place.offset = 4 ∧ (history ++ [s]).flatMap opened = [2, 4] ∧
      ((history ++ [s]).flatMap opened).Nodup ∧
      Placed ['{', 'a', '{', 'b', '{', 'c', '}'] s.outcomes ∧ s.outcomes[4]? = some (some 6)) ∧
    ∃ search, Searching .standard ['{', 'a', '{', 'b', '{', 'c', '}'] true search ⟨5, ['c', '}']⟩ ∧
      search.groups = [4, 2] ∧
      ∀ group ∈ search.groups, group ∈ (search.run true 4 5 ['c', '}']).2 := by
  let template := ['{', 'a', '{', 'b', '{', 'c', '}']
  let first := Scan.start .standard template
  let second := (first.readSegment end? template.tail).2
  let third := second.pass 1
  let fourth := (third.readSegment end? (template.drop 3)).2
  let last := fourth.pass 1
  have hsecond : Passes .standard template [first] second := .next .start rfl
  have hthird : Passes .standard template [first, second] third := .next hsecond rfl
  have hfourth : Passes .standard template [first, second, third] fourth := .next hthird rfl
  have hlast : Passes .standard template [first, second, third, fourth] last := .next hfourth rfl
  have hsearching : Searching .standard template true ⟨.code, 0, [4, 2], ∅⟩ ⟨5, ['c', '}']⟩ :=
    .next (.next (.next (.next (.start .start rfl) rfl) rfl) rfl) rfl
  have hopened : ([first, second, third, fourth] ++ [last]).flatMap opened = [2, 4] := by
    decide +kernel
  have hknown : last.outcomes[4]? = some (some 6) := by decide +kernel
  obtain ⟨hplaced, -, hnodup, hsearch⟩ := hlast.opens_once
  refine ⟨⟨_, _, hlast, rfl, hopened, hnodup, hplaced, hknown⟩, _, hsearching, rfl, ?_⟩
  intro group hgroup
  exact ((hsearch _ _ _ _ hsearching).2.2 4).2 group (List.mem_append_left _ hgroup)

end Passes

end Scan

end LogSyntax.ExpressionTemplate
