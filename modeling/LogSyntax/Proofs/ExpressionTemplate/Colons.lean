import Mathlib.Data.List.Infix
import LogSyntax.Proofs.ExpressionTemplate.Remembered
import LogSyntax.Proofs.Text.Trim
/-!
# The colon of a hole

Two scans look for the colon that begins the format of a hole. The search for the end of a segment
keeps nested groups apart from the segment and counts the brackets of the segment alone; the scan of
the body counts brackets and braces together. As long as the brackets of every nested group have
their partners in the group, a group leaves no trace in the one count, and both find the same colon
(`plainRun_colon`). A bracket without partner does leave one, and the scans disagree.
-/

namespace LogSyntax.ExpressionTemplate

open Brackets (straight curly both)

variable {q q' : Bool} {c : Char} {d k k' m n : Nat} {s t : Text}

/-! ## The scan of the body -/

namespace Hole

theorem colonFrom?_colon : colonFrom? false 0 n (':' :: t) = some n := rfl

theorem colonFrom?_cons (hcolon : ¬ (q = false ∧ d = 0 ∧ c = ':')) :
    colonFrom? q d n (c :: t) =
      colonFrom? (Text.quotedAfter q [c]) (both.depth d (Text.outside q [c])) (n + 1) t := by
  by_cases hquote : c = '\''
  · simp [colonFrom?, Text.quotedAfter, Text.outside, hquote]
  · cases q with
    | true => simp [colonFrom?, Text.quotedAfter, Text.outside, hquote]
    | false =>
      have hafter : Text.quotedAfter false [c] = false := by simp [Text.quotedAfter, hquote]
      rw [hafter, Text.outside_plain hquote, Text.outside_nil, Brackets.depth_cons,
        Brackets.depth_nil]
      by_cases hopen : c = '(' ∨ c = '[' ∨ c = '{'
      · have hturn : both.turn d c = d + 1 :=
          Brackets.turn_opening (by simpa [both, straight, curly, or_assoc] using hopen)
        simp [colonFrom?, hquote, hopen, hturn]
      · by_cases hclose : c = ')' ∨ c = ']' ∨ c = '}'
        · have hturn : both.turn d c = d - 1 :=
            Brackets.turn_closing (by simpa [both, straight, curly, or_assoc] using hclose)
          simp [colonFrom?, hquote, hopen, hclose, hturn]
        · have hturn : both.turn d c = d :=
            Brackets.turn_other (by simpa [both, straight, curly, and_assoc] using hopen)
              (by simpa [both, straight, curly, and_assoc] using hclose)
          have hno : ¬ (c = ':' ∧ d = 0) := fun h => hcolon ⟨rfl, h.2, h.1⟩
          simp [colonFrom?, hquote, hopen, hclose, hno, hturn]

/-- A stretch in which no colon stands outside brackets is passed over. -/
theorem colonFrom?_pass (hcolon : both.HidesColons d (Text.outside q s)) :
    colonFrom? q d n (s ++ t) =
      colonFrom? (Text.quotedAfter q s) (both.depth d (Text.outside q s)) (n + s.length) t := by
  induction s generalizing q d n with
  | nil => rfl
  | cons c s ih =>
    rw [show c :: s = [c] ++ s from rfl, Text.outside_append] at hcolon ⊢
    rw [Brackets.hidesColons_append] at hcolon
    have hhead : ¬ (q = false ∧ d = 0 ∧ c = ':') := by
      rintro ⟨rfl, rfl, rfl⟩
      exact hcolon.1 [] (by simp [Text.outside]) rfl
    rw [Text.quotedAfter_append, Brackets.depth_append, List.append_assoc, List.singleton_append,
      colonFrom?_cons hhead, ih hcolon.2, List.length_append, List.length_singleton, Nat.add_assoc]

/-- The colon that is found is one. -/
theorem drop_of_colonFrom? (h : colonFrom? q d k t = some n) :
    ∃ m, n = k + m ∧ t.drop m = ':' :: t.drop (m + 1) := by
  induction t generalizing q d k with
  | nil => contradiction
  | cons c t ih =>
    by_cases hcolon : q = false ∧ d = 0 ∧ c = ':'
    · obtain ⟨rfl, rfl, rfl⟩ := hcolon
      cases h
      exact ⟨0, rfl, rfl⟩
    · rw [colonFrom?_cons hcolon] at h
      obtain ⟨m, hn, hdrop⟩ := ih h
      exact ⟨m + 1, by omega, hdrop⟩

theorem drop_of_colon? (h : colon? t = some n) : t.drop n = ':' :: t.drop (n + 1) := by
  obtain ⟨m, hn, hdrop⟩ := drop_of_colonFrom? h
  rw [Nat.zero_add] at hn
  rwa [hn]

theorem lt_length_of_colon? (h : colon? t = some n) : n < t.length := by
  have hlength := congrArg List.length (drop_of_colon? h)
  rw [List.length_drop, List.length_cons] at hlength
  omega

/-- A hole is split at its colon: the format begins behind it. -/
theorem regions_of_colon? (h : Heuristics) (names : LoopNames) (offset : Nat)
    (hn : colon? t = some n) :
    regions h names offset t =
      expressionRegions h names offset (Text.trimEnd (t.take n)) ++
        Region.visible .formatSpecifier (offset + Text.bytes (t.take n) + 1) (t.drop (n + 1)) := by
  have htake : t.take (n + 1) = t.take n ++ [':'] := by
    rw [List.take_add, drop_of_colon? hn]
    rfl
  rw [regions, hn]
  simp only [htake, Text.bytes_append, Nat.add_assoc]
  rfl

/-- Where no brace stands, the scan finds no colon that brackets hide. -/
theorem colon?_eq_none (hbrace : Text.BraceFree (Text.outside false s))
    (hcolon : straight.HidesColons 0 (Text.outside false s)) : colon? s = none := by
  have hpass := colonFrom?_pass (q := false) (d := 0) (n := 0) (t := [])
    (Brackets.hidesColons_both_of_braceFree hbrace hcolon)
  rwa [List.append_nil] at hpass

/-- The scan finds the colon behind a text in which brackets hide every colon and none is left
open. -/
theorem colon?_append (hquoted : Text.quotedAfter false s = false)
    (hbrace : Text.BraceFree (Text.outside false s))
    (hcolon : straight.HidesColons 0 (Text.outside false s))
    (hdepth : straight.depth 0 (Text.outside false s) = 0) :
    colon? (s ++ ':' :: t) = some s.length := by
  rw [colon?, colonFrom?_pass (Brackets.hidesColons_both_of_braceFree hbrace hcolon), hquoted,
    Brackets.depth_both_of_braceFree hbrace, hdepth, Nat.zero_add, colonFrom?_colon]

theorem colonFrom?_add (q : Bool) (d m n : Nat) (t : Text) :
    colonFrom? q d (m + n) t = (colonFrom? q d n t).map (m + ·) := by
  induction t generalizing q d n with
  | nil => rfl
  | cons c t ih =>
    by_cases hcolon : q = false ∧ d = 0 ∧ c = ':'
    · obtain ⟨rfl, rfl, rfl⟩ := hcolon
      rfl
    · rw [colonFrom?_cons hcolon, colonFrom?_cons hcolon, Nat.add_assoc, ih]

theorem colonFrom?_eq_map (q : Bool) (d n : Nat) (t : Text) :
    colonFrom? q d n t = (colonFrom? q d 0 t).map (n + ·) :=
  colonFrom?_add q d n 0 t

/-- White space opens and closes nothing. -/
theorem outside_blanks (hs : s.all isBlank) :
    Text.outside false s = s ∧ Text.quotedAfter false s = false ∧ both.depth d s = d ∧
      ':' ∉ s := by
  have hmark (c : Char) (hc : isBlank c = false) : c ∉ s := by
    intro hmem
    rw [List.all_eq_true.1 hs c hmem] at hc
    contradiction
  obtain ⟨hout, hafter⟩ := Text.outside_of_not_mem (hmark '\'' (by decide))
  refine ⟨hout, hafter, Brackets.depth_of_forall ?_, hmark ':' (by decide)⟩
  intro c hc
  have hne (x : Char) (hx : isBlank x = false) : c ≠ x := by
    rintro rfl
    exact hmark c hx hc
  simp [both, straight, curly, hne '(' (by decide), hne '[' (by decide), hne '{' (by decide),
    hne ')' (by decide), hne ']' (by decide), hne '}' (by decide)]

/-- White space at the end holds no colon. -/
theorem colonFrom?_blanks (q : Bool) (d n : Nat) (t : Text) (hs : s.all isBlank) :
    colonFrom? q d n (t ++ s) = colonFrom? q d n t := by
  have hblanks (q : Bool) (d n : Nat) : colonFrom? q d n s = none := by
    induction s generalizing q d n with
    | nil => rfl
    | cons c s ih =>
      rw [List.all_cons, Bool.and_eq_true] at hs
      have hcolon : ¬ (q = false ∧ d = 0 ∧ c = ':') := by
        rintro ⟨-, -, rfl⟩
        exact absurd hs.1 (by decide)
      rw [colonFrom?_cons hcolon, ih hs.2]
  induction t generalizing q d n with
  | nil => exact hblanks q d n
  | cons c t ih =>
    by_cases hcolon : q = false ∧ d = 0 ∧ c = ':'
    · obtain ⟨rfl, rfl, rfl⟩ := hcolon
      rfl
    · rw [List.cons_append, colonFrom?_cons hcolon, colonFrom?_cons hcolon, ih]

/-- Trimming moves the colon by the white space at the start. -/
theorem colon?_trim (t : Text) :
    colon? t = (colon? (Text.trim t)).map ((t.takeWhile isBlank).length + ·) := by
  obtain ⟨trail, htrail, htext⟩ := Text.exists_trim t
  obtain ⟨hout, hafter, hdepth, hcolon⟩ :=
    outside_blanks (d := 0) (s := t.takeWhile isBlank) List.all_takeWhile
  have hpass := colonFrom?_pass (q := false) (d := 0) (n := 0) (t := Text.trim t ++ trail)
    (s := t.takeWhile isBlank) (Brackets.hidesColons_of_not_mem (by rwa [hout]))
  rw [hout, hafter, hdepth, Nat.zero_add, ← htext, colonFrom?_blanks _ _ _ _ htrail,
    colonFrom?_eq_map false 0 (t.takeWhile isBlank).length] at hpass
  rw [colon?, hpass, colon?]

end Hole

/-! ## Nested groups -/

/-- In every group in braces the brackets are balanced. -/
def GroupsBalanced (t : Text) : Prop :=
  ∀ group, '{' :: (group ++ ['}']) <:+: t → curly.Balanced group → straight.Balanced group

theorem GroupsBalanced.of_append (h : GroupsBalanced (s ++ t)) : GroupsBalanced t := by
  intro group hgroup
  exact h group (hgroup.trans (List.suffix_append s t).isInfix)

instance (t : Text) : Decidable (GroupsBalanced t) :=
  decidable_of_iff
    (∀ s ∈ t.tails, ∀ braced ∈ s.inits, braced = '{' :: (braced.tail.dropLast ++ ['}']) →
      curly.Balanced braced.tail.dropLast → straight.Balanced braced.tail.dropLast) <| by
    constructor
    · intro h group hgroup
      obtain ⟨s, hprefix, hsuffix⟩ := List.infix_iff_prefix_suffix.1 hgroup
      have hbraced := h s ((List.mem_tails _ _).2 hsuffix) _ ((List.mem_inits _ _).2 hprefix)
      simpa using hbraced
    · intro h s hs braced hbraced heq
      refine h _ (heq ▸ ?_)
      exact (((List.mem_inits _ _).1 hbraced).isInfix).trans ((List.mem_tails _ _).1 hs).isInfix

namespace Segment

open Search

theorem turn_eq_some (h : turn q k c = some (q', k')) :
    q' = Text.quotedAfter q [c] ∧ k' = curly.depth k (Text.outside q [c]) ∧
      curly.Within k (Text.outside q [c]) := by
  by_cases hopen : q = false ∧ c = '{'
  · obtain ⟨rfl, rfl⟩ := hopen
    cases h
    exact ⟨rfl, rfl, Brackets.within_cons.2 ⟨by simp [curly], by simp [Brackets.Within]⟩⟩
  · by_cases hclose : q = false ∧ c = '}'
    · obtain ⟨rfl, rfl⟩ := hclose
      cases k with
      | zero => contradiction
      | succ k =>
        cases h
        exact ⟨rfl, rfl, Brackets.within_cons.2 ⟨by simp, by simp [Brackets.Within]⟩⟩
    · rw [turn_other hopen hclose] at h
      cases h
      have hout : ∀ x ∈ Text.outside q [c], curly.opening x = false ∧ curly.closing x = false := by
        intro x hx
        by_cases hquote : c = '\''
        · simp [Text.outside, hquote] at hx
        · cases q with
          | true => simp [Text.outside, hquote] at hx
          | false =>
            obtain rfl : x = c := by simpa [Text.outside, hquote] using hx
            exact ⟨by simpa [curly] using hopen, by simpa [curly] using hclose⟩
      refine ⟨rfl, (Brackets.depth_of_forall hout).symm, ?_⟩
      intro s hs
      have hnone : s.countP curly.closing = 0 := by
        rw [List.countP_eq_zero]
        intro x hx
        simp [(hout x (hs.subset hx)).2]
      omega

/-- Behind a group no quote is open, and its braces have their partners in it. -/
theorem closing?_eq_some (h : closing? q k t = some n) :
    Text.quotedAfter q (t.take n) = false ∧ curly.Within k (Text.outside q (t.take n)) ∧
      curly.depth k (Text.outside q (t.take n)) = 0 := by
  induction t generalizing q k n with
  | nil => contradiction
  | cons c t ih =>
    rw [closing?] at h
    split at h
    · next hturn =>
      cases h
      obtain ⟨rfl, -, rfl⟩ := turn_eq_none hturn
      exact ⟨rfl, by simp [Brackets.Within], rfl⟩
    · next q' k' hturn =>
      obtain ⟨n, hn, rfl⟩ := Option.map_eq_some_iff.1 h
      obtain ⟨rfl, rfl, hwithin⟩ := turn_eq_some hturn
      obtain ⟨hquoted, hrest, hdepth⟩ := ih hn
      rw [List.take_succ_cons, show c :: t.take n = [c] ++ t.take n from rfl,
        Text.quotedAfter_append, Text.outside_append, Brackets.within_append,
        Brackets.depth_append]
      exact ⟨hquoted, ⟨hwithin, hrest⟩, hdepth⟩

theorem balanced_of_closing? (h : closing? false 0 t = some n) :
    curly.Balanced (Text.outside false (t.take n)) := by
  obtain ⟨-, hwithin, hdepth⟩ := closing?_eq_some h
  have := hwithin.depth_eq
  exact ⟨hwithin, by omega⟩

/-- What stands outside quotes in a text that begins with a group. -/
theorem outside_group (h : closing? false 0 t = some m) (n : Nat) :
    Text.outside false ('{' :: t.take (m + 1 + n)) =
      '{' :: (Text.outside false (t.take m) ++
        '}' :: Text.outside false ((t.drop (m + 1)).take n)) := by
  obtain ⟨hquoted, -, -⟩ := closing?_eq_some h
  have hsplit : t.take (m + 1 + n) = t.take m ++ '}' :: (t.drop (m + 1)).take n := by
    rw [Nat.add_assoc, List.take_add, drop_of_closing? h, Nat.add_comm 1, List.take_succ_cons]
  rw [hsplit, Text.outside_plain (by decide), Text.outside_append, hquoted,
    Text.outside_plain (by decide)]

theorem groupsBalanced_group (h : closing? false 0 t = some m)
    (hbalanced : GroupsBalanced (Text.outside false ('{' :: t.take (m + 1 + n)))) :
    straight.Balanced (Text.outside false (t.take m)) ∧
      GroupsBalanced (Text.outside false ((t.drop (m + 1)).take n)) := by
  rw [outside_group h] at hbalanced
  constructor
  · refine hbalanced _ ?_ (balanced_of_closing? h)
    exact ⟨[], Text.outside false ((t.drop (m + 1)).take n), by simp⟩
  · refine GroupsBalanced.of_append (s := '{' :: (Text.outside false (t.take m) ++ ['}'])) ?_
    simpa using hbalanced

/-- A group with balanced brackets leaves no trace in the count of the scan of the body. -/
theorem colonFrom?_group (h : closing? false 0 t = some m)
    (hbalanced : straight.Balanced (Text.outside false (t.take m))) (d n : Nat) :
    Hole.colonFrom? false d 0 ('{' :: t.take (m + 1 + n)) =
      (Hole.colonFrom? false d 0 ((t.drop (m + 1)).take n)).map (m + 2 + ·) := by
  obtain ⟨hquoted, hwithin, hdepth⟩ := closing?_eq_some h
  have hcounts {s : Text} (hs : s <+: Text.outside false (t.take m)) :
      both.depth (d + 1) s = straight.depth (d + 1) s + curly.depth 0 s :=
    Brackets.depth_both ((hbalanced.closed.of_prefix hs).mono (Nat.zero_le _))
      (hwithin.of_prefix hs)
  have hcolon : both.HidesColons (d + 1) (Text.outside false (t.take m)) := by
    intro s hs
    have hprefix : s <+: Text.outside false (t.take m) := (List.prefix_append s [':']).trans hs
    have := hbalanced.le_depth hprefix (d + 1)
    rw [hcounts hprefix]
    omega
  have hafter : both.depth (d + 1) (Text.outside false (t.take m)) = d + 1 := by
    rw [hcounts List.prefix_rfl, hbalanced.depth_eq, hdepth]
  have hsplit : t.take (m + 1 + n) = t.take m ++ '}' :: (t.drop (m + 1)).take n := by
    rw [Nat.add_assoc, List.take_add, drop_of_closing? h, Nat.add_comm 1, List.take_succ_cons]
  have hlength : (t.take m).length = m := by
    have hdrop := congrArg List.length (drop_of_closing? h)
    rw [List.length_drop, List.length_cons] at hdrop
    rw [List.length_take]
    omega
  have hopen : Hole.colonFrom? false d 0 ('{' :: t.take (m + 1 + n)) =
      Hole.colonFrom? false (d + 1) 1 (t.take (m + 1 + n)) := Hole.colonFrom?_cons (by simp)
  rw [hopen, hsplit, Hole.colonFrom?_pass hcolon, hquoted, hafter, hlength,
    Hole.colonFrom?_cons (by simp)]
  show Hole.colonFrom? false d (1 + m + 1) _ = _
  rw [Hole.colonFrom?_eq_map, show 1 + m + 1 = m + 2 by omega]

/-! ## Where the two scans meet -/

variable {formats : Bool} {length o colon : Nat} {cs : Text} {e : End}

/-- A format ends with the colon that began it. -/
theorem plainRun_format
    (h : plainRun formats length ⟨.format colon, d, [], ∅⟩ ⟨o, t⟩ = some e) :
    ∃ n, e.length = length + n ∧ e.colon = some colon := by
  induction t generalizing length o with
  | nil =>
    rw [plainRun_nil] at h
    contradiction
  | cons c t ih =>
    have hmode : ¬ ((⟨.format colon, d, [], ∅⟩ : Search).mode = .code ∧ c = '{') := by simp
    by_cases hends : c = '}' ∨ c = ']'
    · have hstep : Search.step formats o c ⟨.format colon, d, [], ∅⟩ = .ends (some colon) := by
        simp [Search.step, hends]
      rw [plainRun_ends hmode hstep] at h
      cases h
      exact ⟨0, rfl, rfl⟩
    · by_cases hopen : c = '{'
      · have hstep : Search.step formats o c ⟨.format colon, d, [], ∅⟩ = .fails := by
          simp [Search.step, hopen]
        rw [plainRun_fails hmode hstep] at h
        contradiction
      · have hstep : Search.step formats o c ⟨.format colon, d, [], ∅⟩ =
            .next ⟨.format colon, d, [], ∅⟩ := by
          simp [Search.step, hends, hopen]
        rw [plainRun_next hmode hstep] at h
        obtain ⟨n, hn, hcolon⟩ := ih h
        exact ⟨n + 1, by omega, hcolon⟩

/-- Outside braces the two counts take the same turn. -/
theorem depth_both_eq (hopen : ¬ (q = false ∧ c = '{')) (hclose : ¬ (q = false ∧ c = '}')) :
    both.depth d (Text.outside q [c]) = straight.depth d (Text.outside q [c]) :=
  Brackets.depth_both_of_braceFree (Text.braceFree_outside hopen hclose)

/-- The offset of the colon that the scan of the body finds in the next `n` characters. -/
def colonAt (q : Bool) (d n : Nat) (p : Place) : Option Nat :=
  (Hole.colonFrom? q d 0 (p.rest.take n)).map fun r => (p.advance r).offset

theorem colonAt_colon : colonAt false 0 (n + 1) ⟨o, ':' :: t⟩ = some o := by
  rw [colonAt, List.take_succ_cons, Hole.colonFrom?_colon]
  simp

theorem colonAt_cons (hopen : ¬ (q = false ∧ c = '{')) (hclose : ¬ (q = false ∧ c = '}'))
    (hcolon : ¬ (q = false ∧ d = 0 ∧ c = ':')) :
    colonAt q d (n + 1) ⟨o, c :: t⟩ =
      colonAt (quotes q c) (straight.depth d (Text.outside q [c])) n ⟨o + c.utf8Size, t⟩ := by
  rw [colonAt, List.take_succ_cons, Hole.colonFrom?_cons hcolon, depth_both_eq hopen hclose,
    Hole.colonFrom?_eq_map _ _ (0 + 1), Option.map_map]
  show (Hole.colonFrom? (quotes q c) _ 0 _).map _ = _
  rw [colonAt]
  congr 1
  funext r
  rw [Function.comp_apply, Nat.add_comm (0 + 1), Place.advance_succ]

theorem colonAt_group (h : closing? false 0 t = some m)
    (hbalanced : straight.Balanced (Text.outside false (t.take m))) :
    colonAt false d (m + 1 + n + 1) ⟨o, '{' :: t⟩ =
      colonAt false d n ((⟨o + 1, t⟩ : Place).advance (m + 1)) := by
  rw [colonAt, List.take_succ_cons, colonFrom?_group h hbalanced, Option.map_map, colonAt]
  congr 1
  funext r
  rw [Function.comp_apply, show m + 2 + r = m + 1 + r + 1 by omega, Place.advance_succ,
    Place.advance_advance]
  rfl

/-- The colon at which the plain search begins a format is the one that the scan of the body
finds. -/
theorem plainRun_colon (h : plainRun true length (reading q d [] ∅) ⟨o, t⟩ = some e) :
    ∃ n, e.length = length + n ∧ (e.colon = none → e.mark = '}') ∧
      (GroupsBalanced (Text.outside q (t.take n)) → e.colon = colonAt q d n ⟨o, t⟩) := by
  -- as in `plainRun_reading`, the search jumps over nested groups
  induction hlen : t.length using Nat.strongRecOn generalizing q d length o t with
  | ind len ih =>
    subst hlen
    cases t with
    | nil =>
      rw [plainRun_nil] at h
      contradiction
    | cons c t =>
      by_cases hopen : q = false ∧ c = '{'
      · obtain ⟨rfl, rfl⟩ := hopen
        rw [plainRun_open rfl, show Search.start ∅ = reading false 0 [] ∅ from rfl,
          plainRun_reading] at h
        cases hgroup : closing? false 0 t with
        | none => simp [hgroup] at h
        | some m =>
          have hend : (closed 0 ⟨o + 1, t⟩ m).length = m := Nat.zero_add m
          rw [hgroup, Option.map_some, Option.bind_some, hend] at h
          have hlt : (t.drop (m + 1)).length < ('{' :: t).length := by
            rw [List.length_drop, List.length_cons]
            omega
          obtain ⟨n, hlength, hmark, hcolon⟩ :=
            ih _ hlt (o := o + 1 + Text.bytes (t.take (m + 1))) (t := t.drop (m + 1)) h rfl
          refine ⟨m + 1 + n + 1, by omega, hmark, ?_⟩
          intro hbalanced
          rw [List.take_succ_cons] at hbalanced
          obtain ⟨hstraight, hbehind⟩ := groupsBalanced_group hgroup hbalanced
          rw [hcolon hbehind, colonAt_group hgroup hstraight]
          rfl
      · by_cases hclose : q = false ∧ c = '}'
        · obtain ⟨rfl, rfl⟩ := hclose
          rw [plainRun_ends (mode_reading (by simp) _ _) rfl] at h
          cases h
          exact ⟨0, rfl, fun _ => rfl, fun _ => rfl⟩
        · by_cases hcolon : q = false ∧ d = 0 ∧ c = ':'
          · obtain ⟨rfl, rfl, rfl⟩ := hcolon
            rw [plainRun_next (mode_reading hopen _ _) (step_reading_colon o ∅)] at h
            obtain ⟨n, hlength, hformat⟩ := plainRun_format h
            refine ⟨n + 1, by omega, by simp [hformat], ?_⟩
            intro _
            rw [hformat, colonAt_colon]
          · have hstep : (reading q d [] ∅).step true o c = _ :=
              step_reading hopen hclose (by simpa using hcolon) ∅
            rw [plainRun_next (mode_reading hopen _ _) hstep] at h
            obtain ⟨n, hlength, hmark, hfound⟩ := ih _ (by simp) h rfl
            refine ⟨n + 1, by omega, hmark, ?_⟩
            intro hbalanced
            rw [List.take_succ_cons, show c :: t.take n = [c] ++ t.take n from rfl,
              Text.outside_append] at hbalanced
            rw [hfound hbalanced.of_append, colonAt_cons hopen hclose hcolon]

/-- What stands between the braces of a segment, without the white space around it. -/
def End.body (e : End) (t : Text) : Text :=
  Text.trim (t.take e.length)

/-- The offset of the body, when the text behind the opening brace stands at `offset`. -/
def End.bodyOffset (e : End) (offset : Nat) (t : Text) : Nat :=
  offset + Text.bytes ((t.take e.length).takeWhile isBlank)

/-- The colon of the trimmed body is that of the text between the braces. -/
theorem colonAt_body (e : End) (o : Nat) (t : Text) :
    colonAt false 0 e.length ⟨o, t⟩ = (Hole.colon? (e.body t)).map
      fun n => e.bodyOffset o t + Text.bytes ((e.body t).take n) := by
  rw [colonAt, ← Hole.colon?, Hole.colon?_trim, Option.map_map, ← End.body]
  apply Option.map_congr
  intro n hn
  obtain ⟨trail, -, htext⟩ := Text.exists_trim (t.take e.length)
  have hlt : n < (Text.trim (t.take e.length)).length := Hole.lt_length_of_colon? hn
  generalize hblank : (t.take e.length).takeWhile isBlank = blank at htext ⊢
  -- what is taken of the text ends in its trimmed part
  have htake : t.take (blank.length + n) = blank ++ (e.body t).take n := by
    have hle : blank.length + n ≤ e.length := by
      have hlength := congrArg List.length htext
      rw [List.length_append, List.length_append, List.length_take] at hlength
      omega
    rw [← Nat.min_eq_left hle, ← List.take_take, htext, List.take_length_add_append,
      List.take_append_of_le_length hlt.le, End.body]
  simp only [Function.comp_apply, Place.advance, htake, Text.bytes_append, End.bodyOffset, hblank,
    Nat.add_assoc]

end Segment

namespace Scan

open Segment

variable {h : Heuristics} {s : Scan}

/-- The search for the end of a segment that is no directive begins a format if and only if the scan
of the body finds a colon, and it does so at that colon, as long as the brackets of every nested
group have their partners in it. A segment that a bracket ends has a format, then, and the hole is
split at the colon that began it. -/
theorem segment_colon (hs : s.Reachable h t) (hrest : s.place.rest = '{' :: cs)
    (hdirective : isDirective cs = false)
    (hend : (end? s.outcomes (s.place.offset + 1) cs).1 = some e)
    (hgroups : GroupsBalanced (Text.outside false (cs.take e.length))) :
    let offset := e.bodyOffset (s.place.offset + 1) cs
    let body := e.body cs
    e.colon = (Hole.colon? body).map (fun n => offset + Text.bytes (body.take n)) ∧
      (e.mark = ']' → ∃ n colon, Hole.colon? body = some n ∧ e.colon = some colon ∧
        body.drop n = ':' :: body.drop (n + 1) ∧
        ∀ names, Hole.regions s.heuristics names offset body =
          Hole.expressionRegions s.heuristics names offset (Text.trimEnd (body.take n)) ++
            Region.visible .formatSpecifier (colon + 1) (body.drop (n + 1))) := by
  intro offset body
  have hbehind : (⟨s.place.offset + 1, cs⟩ : Place).In t := by
    have hin := hs.knows.1
    obtain ⟨⟨o, rest⟩, _, _, _⟩ := s
    obtain rfl : rest = '{' :: cs := hrest
    exact hin.next
  have hplain : plainRun true 0 (.reading false 0 [] ∅) ⟨s.place.offset + 1, cs⟩ = some e := by
    rw [(end?_sound hbehind hs.knows.2).1, plainEnd?, hdirective] at hend
    exact hend
  obtain ⟨n, hlength, hmark, hcolon⟩ := plainRun_colon hplain
  obtain rfl : e.length = n := by omega
  have hsame : e.colon = (Hole.colon? body).map fun n => offset + Text.bytes (body.take n) := by
    rw [hcolon hgroups, colonAt_body]
  refine ⟨hsame, ?_⟩
  intro hbracket
  cases hfound : Hole.colon? body with
  | none =>
    rw [hfound] at hsame
    rw [hmark hsame] at hbracket
    contradiction
  | some n =>
    rw [hfound] at hsame
    exact ⟨n, _, rfl, hsame, Hole.drop_of_colon? hfound,
      fun names => Hole.regions_of_colon? s.heuristics names offset hfound⟩

/-- In `{a{(b)}:x]` the format begins behind the group. -/
theorem segment_colon_behind_group :
    (Segment.end? ∅ 1 ['a', '{', '(', 'b', ')', '}', ':', 'x', ']']).1 =
        some ⟨8, 9, ']', some 7⟩ ∧
      Hole.colon? ['a', '{', '(', 'b', ')', '}', ':', 'x'] = some 6 ∧
      Hole.regions .standard [] 1 ['a', '{', '(', 'b', ')', '}', ':', 'x'] =
        Hole.expressionRegions .standard [] 1 ['a', '{', '(', 'b', ')', '}'] ++
          [⟨.formatSpecifier, 8, ['x']⟩] := by
  have hend : (Segment.end? ∅ 1 ['a', '{', '(', 'b', ')', '}', ':', 'x', ']']).1 =
      some ⟨8, 9, ']', some 7⟩ := rfl
  have hcolon : Hole.colon? ['a', '{', '(', 'b', ')', '}', ':', 'x'] = some 6 := rfl
  have hstart : Reachable .standard ['{', 'a', '{', '(', 'b', ')', '}', ':', 'x', ']'] _ := .start
  obtain ⟨-, hbracket⟩ := segment_colon hstart rfl rfl hend (by decide)
  obtain ⟨n, colon, hn, hbegins, -, hregions⟩ := hbracket rfl
  cases hbegins
  obtain rfl : n = 6 := Option.some.inj (hn.symm.trans hcolon)
  exact ⟨hend, hcolon, hregions []⟩

/-- A bracket without partner in a group misleads the scan of the body. In `{a{(}:x]` it misses the
colon at which the search begins a format, and in `{({)}:x}` it finds one though the search begins
none. -/
theorem segment_colon_unbalanced :
    (∃ e, (Segment.end? ∅ 1 ['a', '{', '(', '}', ':', 'x', ']']).1 = some e ∧ e.mark = ']' ∧
        e.colon = some 5 ∧ Hole.colon? (e.body ['a', '{', '(', '}', ':', 'x', ']']) = none) ∧
      ∃ e, (Segment.end? ∅ 1 ['(', '{', ')', '}', ':', 'x', '}']).1 = some e ∧ e.colon = none ∧
        Hole.colon? (e.body ['(', '{', ')', '}', ':', 'x', '}']) = some 4 := by
  constructor
  · exact ⟨⟨6, 7, ']', some 5⟩, rfl, rfl, rfl, rfl⟩
  · exact ⟨⟨6, 7, '}', none⟩, rfl, rfl, rfl⟩

end Scan

end LogSyntax.ExpressionTemplate
