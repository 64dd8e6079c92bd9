import Mathlib.Data.List.Basic
import LogSyntax.Proofs.Text.Laid
/-!
# Octets

The octets of a text are the bytes of its UTF-8 form, each taken for the character of its number. So
a reader of characters can be let loose on bytes, and then it counts offsets. It comes upon a
character of ASCII where one stands in the text, and nowhere else: every octet of another character
is beyond ASCII (`octetsOf_cases`).
-/

namespace LogSyntax

/-- The character is in ASCII. -/
abbrev IsAscii (c : Char) : Prop := c.toNat < 128

theorem ne_of_not_isAscii {b c : Char} (hb : ¬ IsAscii b) (hc : IsAscii c) : b ≠ c := by
  rintro rfl
  exact hb hc

namespace Text

variable {t : Text} {c : Char} {p : Char → Bool}

/-- The octets of a character. -/
def octetsOf (c : Char) : Text := (String.utf8EncodeChar c).map fun b => Char.ofNat b.toNat

/-- The octets of a text. -/
def octets (t : Text) : Text := t.flatMap octetsOf

@[simp] theorem octets_nil : octets [] = [] := rfl

theorem octets_cons (c : Char) (t : Text) : octets (c :: t) = octetsOf c ++ octets t := rfl

theorem octets_append (s t : Text) : octets (s ++ t) = octets s ++ octets t := List.flatMap_append

theorem length_octetsOf (c : Char) : (octetsOf c).length = c.utf8Size := by
  rw [octetsOf, List.length_map, String.length_utf8EncodeChar]

theorem octetsOf_ne_nil (c : Char) : octetsOf c ≠ [] := by
  rw [← List.length_pos_iff, length_octetsOf]
  exact c.utf8Size_pos

/-- There are as many octets as the text has bytes. -/
theorem length_octets (t : Text) : (octets t).length = bytes t := by
  induction t with
  | nil => rfl
  | cons c t ih => rw [octets_cons, List.length_append, length_octetsOf, ih, bytes_cons]

theorem toNat_octet {n : Nat} (hn : n < 256) : (Char.ofNat (UInt8.ofNat n).toNat).toNat = n := by
  have hvalid : n.isValidChar := .inl (by omega)
  rw [UInt8.toNat_ofNat_of_lt' hn, Char.ofNat, dif_pos hvalid]
  rfl

/-- A character of ASCII is its only octet, and no octet of any other is in ASCII. -/
theorem octetsOf_cases (c : Char) :
    octetsOf c = [c] ∨ ¬ IsAscii c ∧ ∀ b ∈ octetsOf c, ¬ IsAscii b := by
  have hbeyond {n : Nat} (hle : 128 ≤ n) (hlt : n < 256) :
      ¬ IsAscii (Char.ofNat (UInt8.ofNat n).toNat) := by
    rw [IsAscii, toNat_octet hlt]
    omega
  have htoNat : c.val.toNat = c.toNat := rfl
  unfold octetsOf String.utf8EncodeChar
  dsimp only
  split
  · left
    have hlt : c.val.toNat < 256 := by omega
    have hoctet : Char.ofNat (UInt8.ofNat c.val.toNat).toNat = c := by
      rw [UInt8.toNat_ofNat_of_lt' hlt]
      exact Char.ofNat_toNat c
    rw [List.map_singleton, hoctet]
  · refine .inr ⟨by omega, ?_⟩
    split
    · simp only [List.map_cons, List.map_nil, List.forall_mem_cons]
      exact ⟨hbeyond (by omega) (by omega), hbeyond (by omega) (by omega), by simp⟩
    split
    · simp only [List.map_cons, List.map_nil, List.forall_mem_cons]
      exact ⟨hbeyond (by omega) (by omega), hbeyond (by omega) (by omega),
        hbeyond (by omega) (by omega), by simp⟩
    · simp only [List.map_cons, List.map_nil, List.forall_mem_cons]
      exact ⟨hbeyond (by omega) (by omega), hbeyond (by omega) (by omega),
        hbeyond (by omega) (by omega), hbeyond (by omega) (by omega), by simp⟩

theorem octetsOf_ascii (hc : IsAscii c) : octetsOf c = [c] :=
  (octetsOf_cases c).resolve_right fun hbeyond => hbeyond.1 hc

theorem utf8Size_ascii (hc : IsAscii c) : c.utf8Size = 1 := by
  rw [← length_octetsOf, octetsOf_ascii hc, List.length_singleton]

/-- An octet of ASCII at the head of a text is the character that stands there. -/
theorem head?_octets (hc : IsAscii c) : (octets t).head? = some c ↔ t.head? = some c := by
  cases t with
  | nil => exact Iff.rfl
  | cons d t =>
    rw [octets_cons]
    rcases octetsOf_cases d with hd | ⟨hd, hbeyond⟩
    · rw [hd, List.singleton_append, List.head?_cons, List.head?_cons]
    · have hhead : (octetsOf d ++ octets t).head? ≠ some c := by
        rw [List.head?_append_of_ne_nil _ (octetsOf_ne_nil d)]
        exact fun hhead => hbeyond c (List.mem_of_head? hhead) hc
      refine iff_of_false hhead ?_
      rintro ⟨⟩
      exact hd hc

/-- An octet of ASCII is a character that stands there. -/
theorem standsAt_of_octet {n : Nat} (hc : IsAscii c) (hoctet : (octets t)[n]? = some c) :
    StandsAt [c] t n := by
  induction t generalizing n with
  | nil => simp at hoctet
  | cons d t ih =>
    rw [octets_cons] at hoctet
    by_cases hn : n < d.utf8Size
    · rw [List.getElem?_append_left (by rwa [length_octetsOf])] at hoctet
      have hmem := List.mem_of_getElem? hoctet
      rcases octetsOf_cases d with hd | ⟨-, hbeyond⟩
      · rw [hd, List.mem_singleton] at hmem
        subst hmem
        obtain rfl : n = 0 := by
          rw [utf8Size_ascii hc] at hn
          omega
        exact ⟨[], t, rfl, rfl⟩
      · exact absurd hc (hbeyond c hmem)
    · rw [List.getElem?_append_right (by rw [length_octetsOf]; omega), length_octetsOf] at hoctet
      obtain ⟨before, after, ht, hbytes⟩ := ih hoctet
      exact ⟨d :: before, after, by rw [ht]; rfl, by rw [bytes_cons, hbytes]; omega⟩

/-- The octet at the offset of a place begins what is ahead there. -/
theorem getElem?_octets (s t : Text) : (octets (s ++ t))[bytes s]? = (octets t).head? := by
  rw [octets_append, ← length_octets, List.getElem?_append_right (Nat.le_refl _), Nat.sub_self,
    List.head?_eq_getElem?]

/-- Everywhere in a character beyond ASCII stands an octet beyond ASCII. -/
theorem octet_beyond {p : Place} {s : Text} {k : Nat} (hp : p.In t) (hrest : p.rest = c :: s)
    (hc : ¬ IsAscii c) (hk : k < c.utf8Size) :
    ∃ b, (octets t)[p.offset + k]? = some b ∧ ¬ IsAscii b := by
  obtain ⟨behind, rfl, hoffset⟩ := hp
  have hlt : k < (octetsOf c).length := by rwa [length_octetsOf]
  have hbeyond : ∀ b ∈ octetsOf c, ¬ IsAscii b := by
    rcases octetsOf_cases c with hself | ⟨-, hbeyond⟩
    · rw [hself]
      simpa using hc
    · exact hbeyond
  refine ⟨(octetsOf c)[k], ?_, hbeyond _ (List.getElem_mem hlt)⟩
  rw [hrest, octets_append, octets_cons, ← hoffset, ← length_octets,
    List.getElem?_append_right (Nat.le_add_right _ _), Nat.add_sub_cancel_left,
    List.getElem?_append_left hlt, List.getElem?_eq_getElem hlt]

/-- A run of octets that only a character of ASCII can end is the octets of a run. -/
theorem takeWhile_octets (hp : ∀ b, ¬ IsAscii b → p b) (t : Text) :
    (octets t).takeWhile p = octets (t.takeWhile p) := by
  induction t with
  | nil => rfl
  | cons c t ih =>
    rw [octets_cons]
    rcases octetsOf_cases c with hc | ⟨hc, hbeyond⟩
    · rw [hc, List.singleton_append, List.takeWhile_cons, List.takeWhile_cons, ih]
      split
      · rw [octets_cons, hc, List.singleton_append]
      · rfl
    · rw [List.takeWhile_append_of_pos fun b hb => hp b (hbeyond b hb), ih,
        List.takeWhile_cons_of_pos (hp c hc), octets_cons]

end Text

end LogSyntax
