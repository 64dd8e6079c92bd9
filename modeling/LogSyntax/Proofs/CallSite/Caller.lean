import Mathlib.Data.List.DropRight
import Mathlib.Data.List.Nodup
import LogSyntax.Proofs.CallSite.Spelling
import LogSyntax.Proofs.Text.Laid
/-!
# The caller of a literal

Read backwards from the last quote of an opening, the text tells what is called there. Quotes, marks
and blanks are passed over up to the bracket or the comma, and blanks again. What comes then is the
end of a method's name, or of its first argument, and no two patterns have a last letter of their
names in common. So the text in front of a quote decides what the literal behind it holds
(`Pattern.Occurs.contextOf_callerOf`), and two patterns never share a quote.
-/

namespace LogSyntax

theorem Text.rdropWhile_append {f : Char → Bool} {s t : Text} (ht : t.all f) :
    (s ++ t).rdropWhile f = s.rdropWhile f := by
  induction t using List.reverseRecOn with
  | nil => rw [List.append_nil]
  | append_singleton t c ih =>
    obtain ⟨ht, hc⟩ : t.all f ∧ f c := by simpa using ht
    rw [← List.append_assoc, List.rdropWhile_concat_pos _ _ _ hc, ih ht]

namespace CallSite

/-- A character that may stand between the bracket or the comma in front of a literal and the last
of the quotes that open it. -/
def isOpening (c : Char) : Bool :=
  isBlank c || isMark c || c == '"'

/-- The character in front of the bracket or the comma that the text ends with, when what opens a
literal is passed over. -/
def callerOf (t : Text) : Option Char :=
  ((t.rdropWhile isOpening).dropLast.rdropWhile isBlank).getLast?

/-- What a literal holds whose caller ends with a character. -/
def contextOf : Option Char → Context
  | some 'g' | some 'y' => .filterExpression
  | some 'e' => .expressionTemplate
  | some '"' => .computedProperty
  | _ => .conditionalExpression

theorem callerOf_append {t blanks opening : Text} {c d : Char} (hd : isBlank d = false)
    (hblanks : blanks.all isBlank) (hc : isOpening c = false) (hopening : opening.all isOpening) :
    callerOf (t ++ [d] ++ blanks ++ [c] ++ opening) = some d := by
  rw [callerOf, Text.rdropWhile_append hopening, List.rdropWhile_concat_neg _ _ _ (by simp [hc]),
    List.dropLast_concat, Text.rdropWhile_append hblanks,
    List.rdropWhile_concat_neg _ _ _ (by simp [hd]), List.getLast?_concat]

/-- Blanks, marks and quotes are an opening. -/
theorem exists_opening {t : Text} (h : Spells [.blanks, .marks, .quotes] t) :
    ∃ opening, t = opening ++ ['"'] ∧ opening.all isOpening := by
  obtain ⟨opening, hconcat⟩ := h.exists_concat rfl
  obtain ⟨blanks, _, rfl, hblanks, marks, _, rfl, hmarks, quotes, _, rfl, ⟨-, hquotes⟩, rfl⟩ := h
  have hread {f : Char → Bool} {s : Text} (hf : ∀ c, f c → isOpening c) (hs : s.all f) :
      s.all isOpening := List.all_eq_true.2 fun c hc => hf c (List.all_eq_true.1 hs c hc)
  have hall : (blanks ++ (marks ++ (quotes ++ []))).all isOpening := by
    simp only [List.append_nil, List.all_append, Bool.and_eq_true]
    exact ⟨hread (fun c hc => by simp [isOpening, hc]) hblanks,
      hread (fun c hc => by simp [isOpening, hc]) hmarks,
      hread (fun c hc => by simp [isOpening, hc]) hquotes⟩
  rw [hconcat, List.all_append, Bool.and_eq_true] at hall
  exact ⟨opening, hconcat, hall.1⟩

/-- In front of a literal behind a bracket or a comma, the caller is what is spelled before. -/
theorem callerOf_of_spells (parts : List Part) (part : Part) (c : Char) {before call : Text}
    (h : Spells (parts ++ part :: [.blanks, .oneOf [c.toString], .blanks, .marks, .quotes])
      (call ++ ['"'])) (hc : isOpening c = false) :
    ∃ s, part.Reads s ∧
      ∀ d, s.getLast? = some d → isBlank d = false → callerOf (before ++ call) = some d := by
  obtain ⟨front, _, hsplit, -, s, _, rfl, hs, blanks, _, rfl, hblanks, _, u, rfl,
    ⟨_, hw, rfl⟩, hu⟩ := spells_append.1 h
  obtain rfl := List.mem_singleton.1 hw
  obtain ⟨opening, rfl, hopening⟩ := exists_opening hu
  refine ⟨s, hs, fun d hlast hd => ?_⟩
  obtain ⟨s, rfl⟩ := List.getLast?_eq_some_iff.1 hlast
  have hcall : call = front ++ s ++ [d] ++ blanks ++ [c] ++ opening :=
    List.append_cancel_right (by simpa using hsplit)
  have hcaller := callerOf_append (t := before ++ (front ++ s)) hd hblanks hc hopening
  simpa [hcall] using hcaller

theorem Pattern.OccursAt.contextOf_callerOf {pattern : Pattern} (hpattern : pattern ∈ patterns)
    {line before call after : Text} (h : pattern.OccursAt line before call after) :
    contextOf (callerOf (before ++ call)) = pattern.context := by
  simp only [patterns, List.mem_cons, List.not_mem_nil, or_false] at hpattern
  rcases hpattern with rfl | rfl | rfl | rfl
  · obtain ⟨_, ⟨w, hw, rfl⟩, hcaller⟩ :=
      callerOf_of_spells [.oneOf ["Filter"], .blanks, .oneOf ["."], .blanks] _ '(' h.spells
        (by decide)
    rcases List.mem_pair.1 hw with rfl | rfl
    · exact congrArg contextOf (hcaller 'g' rfl (by decide))
    · exact congrArg contextOf (hcaller 'y' rfl (by decide))
  · obtain ⟨_, ⟨w, hw, rfl⟩, hcaller⟩ := callerOf_of_spells [] _ '(' h.spells (by decide)
    obtain rfl := List.mem_singleton.1 hw
    exact congrArg contextOf (hcaller 'e' rfl (by decide))
  · obtain ⟨_, ⟨content, -, rfl⟩, hcaller⟩ :=
      callerOf_of_spells [.oneOf ["WithComputed"], .blanks, .oneOf ["("], .blanks, .marks] _ ','
        h.spells (by decide)
    have hlast : ('"' :: (content ++ ['"'])).getLast? = some '"' := by
      rw [← List.cons_append, List.getLast?_concat]
    exact congrArg contextOf (hcaller '"' hlast (by decide))
  · obtain ⟨_, ⟨w, hw, rfl⟩, hcaller⟩ :=
      callerOf_of_spells [.oneOf ["."], .blanks] _ '(' h.spells (by decide)
    rcases List.mem_pair.1 hw with rfl | rfl
    · exact congrArg contextOf (hcaller 'l' rfl (by decide))
    · exact congrArg contextOf (hcaller 'n' rfl (by decide))

/-- The text in front of a last quote decides what the literal behind it holds. -/
theorem Pattern.Occurs.contextOf_callerOf {pattern : Pattern} (hpattern : pattern ∈ patterns)
    {line : Text} {quote : Nat} (h : pattern.Occurs line quote) :
    contextOf (callerOf (Text.takeBytes quote line)) = pattern.context := by
  obtain ⟨before, call, after, hoccurs, rfl⟩ := h
  rw [hoccurs.line_eq, ← List.append_assoc, Text.takeBytes_append,
    hoccurs.contextOf_callerOf hpattern]

/-- No two patterns share a last quote. -/
theorem Pattern.Occurs.unique {pattern other : Pattern} (hpattern : pattern ∈ patterns)
    (hother : other ∈ patterns) {line : Text} {quote : Nat} (h : pattern.Occurs line quote)
    (h' : other.Occurs line quote) : pattern = other := by
  have hnodup : (patterns.map (·.context)).Nodup := by decide
  apply List.inj_on_of_nodup_map hnodup hpattern hother
  rw [← h.contextOf_callerOf hpattern, h'.contextOf_callerOf hother]

end CallSite

end LogSyntax
