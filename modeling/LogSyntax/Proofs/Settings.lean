import Mathlib.Data.Nat.Digits.Defs
import LogSyntax.Heuristics
import LogSyntax.Proofs.Text.Trim
/-!
# Settings

Which texts are numbers (`Denotes`), and what comes of the settings that an environment holds:
limits exactly if each of them is absent or a number of 64 bits and literals may have a character
(`Heuristics.ofEnvironment_eq_iff`). Otherwise the first reason counts: the literal limit is no
number, the operator window is none, the literal limit is zero.
-/

namespace LogSyntax

/-! ## Numbers -/

/-- A text denotes a number: decimal digits, the last of which counts units, behind an optional plus
sign, and white space around them. -/
def Denotes (raw : Text) (n : Nat) : Prop :=
  ∃ lead sign digits trail, raw = lead ++ (sign ++ digits ++ trail) ∧
    lead.all isBlank ∧ trail.all isBlank ∧ (sign = [] ∨ sign = ['+']) ∧
    digits ≠ [] ∧ digits.all Char.isDigit ∧
    n = Nat.ofDigits 10 (digits.reverse.map fun d => d.toNat - '0'.toNat)

theorem isBlank_of_isDigit {c : Char} (hc : c.isDigit) : isBlank c = false := by
  have hpoints : ∀ n ∈ blankRanges.points, ¬ (48 ≤ n ∧ n ≤ 57) := by decide
  rw [Char.isDigit_iff_toNat] at hc
  rw [Bool.eq_false_iff]
  exact fun hblank => hpoints _ (CodeRanges.mem_points_of_covers hblank) hc

namespace Heuristics

variable {raw digits : Text} {n : Nat}

theorem decimalValue_eq (digits : Text) :
    decimalValue digits = Nat.ofDigits 10 (digits.reverse.map fun d => d.toNat - '0'.toNat) := by
  induction digits using List.reverseRecOn with
  | nil => rfl
  | append_singleton digits d ih =>
    have hfold : decimalValue (digits ++ [d]) =
        10 * decimalValue digits + (d.toNat - '0'.toNat) := by
      simp only [decimalValue, List.foldl_append, List.foldl_cons, List.foldl_nil]
    rw [hfold, ih, List.reverse_append, List.reverse_singleton, List.singleton_append,
      List.map_cons, Nat.ofDigits_cons, Nat.add_comm]

/-- The sign in front of the digits is taken off. -/
theorem unsigned_append {sign : Text} (hsign : sign = [] ∨ sign = ['+'])
    (hdigits : digits.all Char.isDigit) :
    (if (sign ++ digits).head? = some '+' then (sign ++ digits).tail else sign ++ digits) =
      digits := by
  rcases hsign with rfl | rfl
  · rw [List.nil_append, if_neg]
    intro hhead
    exact absurd (List.all_eq_true.1 hdigits '+' (List.mem_of_head? hhead)) (by decide)
  · rfl

theorem exists_sign (t : Text) : ∃ sign, (sign = [] ∨ sign = ['+']) ∧
    t = sign ++ (if t.head? = some '+' then t.tail else t) := by
  split
  · next hhead =>
    obtain ⟨digits, rfl⟩ := List.head?_eq_some_iff.1 hhead
    exact ⟨['+'], .inr rfl, rfl⟩
  · exact ⟨[], .inl rfl, rfl⟩

theorem readSetting?_eq_some_iff :
    readSetting? raw = some n ↔ Denotes raw n ∧ n < UInt64.size := by
  unfold readSetting?
  dsimp only
  rw [Option.ite_none_right_eq_some, Option.some.injEq]
  constructor
  · rintro ⟨⟨hne, hdigits, hlt⟩, rfl⟩
    obtain ⟨sign, hsign, heq⟩ := exists_sign (Text.trim raw)
    obtain ⟨trail, htrail, hraw⟩ := Text.exists_trim raw
    refine ⟨⟨raw.takeWhile isBlank, sign, _, trail, ?_, List.all_takeWhile, htrail, hsign, hne,
      hdigits, decimalValue_eq _⟩, hlt⟩
    rwa [← heq]
  · rintro ⟨⟨lead, sign, digits, trail, rfl, hlead, htrail, hsign, hne, hdigits, rfl⟩, hlt⟩
    have hplain : ∀ c ∈ sign ++ digits, isBlank c = false := by
      intro c hc
      rcases List.mem_append.1 hc with hc | hc
      · rcases hsign with rfl | rfl
        · exact absurd hc List.not_mem_nil
        · rw [List.mem_singleton.1 hc]
          decide
      · exact isBlank_of_isDigit (List.all_eq_true.1 hdigits c hc)
    rw [Text.trim_surrounded hlead htrail hplain, unsigned_append hsign hdigits, decimalValue_eq]
    exact ⟨⟨hne, hdigits, hlt⟩, rfl⟩

theorem override_some_eq_ok_iff {setting : Setting} {standardValue : Nat} {raw : String} :
    override setting standardValue (some raw) = .ok n ↔ readSetting? raw.toList = some n := by
  simp only [override]
  split
  · next hread => rw [hread, Except.ok.injEq, Option.some.injEq]
  · next hread => simp [hread]

theorem override_some_eq_error_iff {setting : Setting} {standardValue : Nat} {raw : String}
    {error : ConfigError} : override setting standardValue (some raw) = .error error ↔
      readSetting? raw.toList = none ∧ error = .invalidValue setting raw := by
  simp only [override]
  split
  · next hread => simp [hread]
  · next hread => simp [hread, eq_comm]

/-- The limit for a setting. -/
def get (h : Heuristics) : Setting → Nat
  | .runawayLiteralLimit => h.runawayLiteralLimit
  | .operatorWindow => h.operatorWindow

end Heuristics

/-! ## One setting -/

namespace Setting

variable {environment : Environment} {setting : Setting} {raw : String} {n : Nat}

/-- An environment gives a setting this number: the standard one if it holds no UTF-8 text for the
setting, else the one that the text denotes. -/
inductive Gives (environment : Environment) (setting : Setting) : Nat → Prop
  | standard (habsent : ∀ raw : String, environment setting.key ≠ some raw.toUTF8) :
      Gives environment setting (Heuristics.standard.get setting)
  | number {raw : String} {n : Nat} (hraw : environment setting.key = some raw.toUTF8)
      (hn : Denotes raw.toList n) (hlt : n < UInt64.size) : Gives environment setting n

/-- An environment holds this text for a setting, and it is no number of 64 bits. -/
def Malformed (environment : Environment) (setting : Setting) (raw : String) : Prop :=
  environment setting.key = some raw.toUTF8 ∧ ∀ n, Denotes raw.toList n → UInt64.size ≤ n

theorem find?_eq_some_iff :
    setting.find? environment = some raw ↔ environment setting.key = some raw.toUTF8 := by
  have hbytes (b : ByteArray) : String.fromUTF8? b = some raw ↔ b = raw.toUTF8 := by
    unfold String.fromUTF8?
    split
    · next hvalid => rw [Option.some.injEq]; exact String.toByteArray_inj.symm
    · next hvalid =>
      constructor
      · exact nofun
      · rintro rfl
        exact absurd raw.isValidUTF8 hvalid
  rw [find?, Option.bind_eq_some_iff]
  simp only [hbytes, exists_eq_right]

theorem find?_eq_none_iff :
    setting.find? environment = none ↔
      ∀ raw : String, environment setting.key ≠ some raw.toUTF8 := by
  rw [Option.eq_none_iff_forall_ne_some]
  simp only [ne_eq, find?_eq_some_iff]

/-- What is read for a setting of an environment. -/
def read (environment : Environment) (setting : Setting) : Except ConfigError Nat :=
  Heuristics.override setting (Heuristics.standard.get setting) (setting.find? environment)

theorem read_eq_ok_iff : setting.read environment = .ok n ↔ setting.Gives environment n := by
  unfold read
  cases hfind : setting.find? environment with
  | none =>
    have habsent := find?_eq_none_iff.1 hfind
    constructor
    · rintro ⟨⟩
      exact .standard habsent
    · rintro (_ | ⟨hraw, -, -⟩)
      · rfl
      · exact absurd hraw (habsent _)
  | some raw =>
    have hraw := find?_eq_some_iff.1 hfind
    rw [Heuristics.override_some_eq_ok_iff, Heuristics.readSetting?_eq_some_iff]
    constructor
    · rintro ⟨hn, hlt⟩
      exact .number hraw hn hlt
    · rintro (habsent | ⟨hraw', hn, hlt⟩)
      · exact absurd hraw (habsent raw)
      · obtain rfl := Option.some.inj (hfind.symm.trans (find?_eq_some_iff.2 hraw'))
        exact ⟨hn, hlt⟩

theorem read_eq_error_iff {error : ConfigError} : setting.read environment = .error error ↔
    ∃ raw, setting.Malformed environment raw ∧ error = .invalidValue setting raw := by
  unfold read
  cases hfind : setting.find? environment with
  | none =>
    constructor
    · exact nofun
    · rintro ⟨raw, ⟨hraw, -⟩, -⟩
      exact absurd hraw (find?_eq_none_iff.1 hfind raw)
  | some raw =>
    have hmalformed : setting.Malformed environment raw ↔
        Heuristics.readSetting? raw.toList = none := by
      rw [Malformed, ← find?_eq_some_iff, hfind, Option.eq_none_iff_forall_ne_some]
      simp only [true_and, ne_eq, Heuristics.readSetting?_eq_some_iff, not_and, Nat.not_lt]
    rw [Heuristics.override_some_eq_error_iff, ← hmalformed]
    constructor
    · rintro ⟨hraw, rfl⟩
      exact ⟨raw, hraw, rfl⟩
    · rintro ⟨raw', hraw', rfl⟩
      obtain rfl := Option.some.inj (hfind.symm.trans (find?_eq_some_iff.2 hraw'.1))
      exact ⟨hraw', rfl⟩

end Setting

/-! ## All settings -/

section Bind

variable {ε α β : Type} {x : Except ε α} {f : α → Except ε β}

theorem bind_eq_ok_iff {b : β} : x >>= f = .ok b ↔ ∃ a, x = .ok a ∧ f a = .ok b := by
  cases x <;> simp [bind, Except.bind]

theorem bind_eq_error_iff {e : ε} :
    x >>= f = .error e ↔ x = .error e ∨ ∃ a, x = .ok a ∧ f a = .error e := by
  cases x <;> simp [bind, Except.bind]

end Bind

namespace Heuristics

variable {limit window : Nat}

theorem ofLimits_eq_ok_iff {h : Heuristics} :
    ofLimits limit window = .ok h ↔ 1 ≤ limit ∧ h = ⟨limit, window⟩ := by
  unfold ofLimits
  split
  · next hzero => simp [hzero]
  · next hzero => simp [Nat.one_le_iff_ne_zero.2 hzero, eq_comm]

theorem ofLimits_eq_error_iff {error : ConfigError} :
    ofLimits limit window = .error error ↔
      limit = 0 ∧ error = .outOfRange .runawayLiteralLimit 1 0 := by
  unfold ofLimits
  split
  · next hzero => simp [hzero, eq_comm]
  · next hzero => simp [hzero]

/-- Why an environment gives no limits: the first reason counts. -/
inductive Refuses (environment : Environment) : ConfigError → Prop
  | limit {raw : String} (hraw : Setting.Malformed environment .runawayLiteralLimit raw) :
      Refuses environment (.invalidValue .runawayLiteralLimit raw)
  | window {limit : Nat} {raw : String}
      (hlimit : Setting.Gives environment .runawayLiteralLimit limit)
      (hraw : Setting.Malformed environment .operatorWindow raw) :
      Refuses environment (.invalidValue .operatorWindow raw)
  | range {window : Nat} (hlimit : Setting.Gives environment .runawayLiteralLimit 0)
      (hwindow : Setting.Gives environment .operatorWindow window) :
      Refuses environment (.outOfRange .runawayLiteralLimit 1 0)

/-- An environment gives limits exactly if it gives a number for each setting, and one of at least 1
for the length of literals; they are these numbers. It is refused for one reason alone: a literal
limit that is no number, else an operator window that is none, else a literal limit of zero. -/
theorem ofEnvironment_eq_iff (environment : Environment) :
    (∀ h, ofEnvironment environment = .ok h ↔
      (∀ setting, Setting.Gives environment setting (h.get setting)) ∧
        1 ≤ h.runawayLiteralLimit) ∧
    ∀ error, ofEnvironment environment = .error error ↔ Refuses environment error := by
  have hreads : ofEnvironment environment =
      (Setting.read environment .runawayLiteralLimit >>= fun limit =>
        Setting.read environment .operatorWindow >>= fun window => ofLimits limit window) := rfl
  rw [hreads]
  constructor
  · intro h
    simp only [bind_eq_ok_iff, Setting.read_eq_ok_iff, ofLimits_eq_ok_iff]
    constructor
    · rintro ⟨limit, hlimit, window, hwindow, hpos, rfl⟩
      refine ⟨fun setting => ?_, hpos⟩
      cases setting with
      | runawayLiteralLimit => exact hlimit
      | operatorWindow => exact hwindow
    · rintro ⟨hgives, hpos⟩
      exact ⟨_, hgives .runawayLiteralLimit, _, hgives .operatorWindow, hpos, rfl⟩
  · intro error
    simp only [bind_eq_error_iff, Setting.read_eq_ok_iff, Setting.read_eq_error_iff,
      ofLimits_eq_error_iff]
    constructor
    · rintro (⟨raw, hraw, rfl⟩ | ⟨limit, hlimit, ⟨raw, hraw, rfl⟩ | ⟨window, hwindow, rfl, rfl⟩⟩)
      · exact .limit hraw
      · exact .window hlimit hraw
      · exact .range hlimit hwindow
    · rintro (hraw | ⟨hlimit, hraw⟩ | ⟨hlimit, hwindow⟩)
      · exact .inl ⟨_, hraw, rfl⟩
      · exact .inr ⟨_, hlimit, .inl ⟨_, hraw, rfl⟩⟩
      · exact .inr ⟨_, hlimit, .inr ⟨_, hwindow, rfl, rfl⟩⟩

end Heuristics

end LogSyntax
