import YieldMachine.Number.Integer

/-!
Canonical decimal forms. Each integer has exactly one: the digits of its absolute value without a leading
zero, after a minus sign if it is negative. `intText` writes it (`canonical_intText`), and `canonicalInt?`
reads it and nothing else (`canonicalInt?_eq_some_iff`).
-/

namespace YieldMachine

/-- Digits, the first of which is not 0. -/
structure PositiveNumeral (ds : List Char) : Prop where
  nonempty : ds ≠ []
  leading : ds.head? ≠ some '0'
  digits : ∀ d ∈ ds, d.isDigit = true

/-- The canonical decimal form of an integer. -/
inductive Canonical : List Char → Int → Prop where
  | zero : Canonical ['0'] 0
  | positive {ds : List Char} (h : PositiveNumeral ds) : Canonical ds (Nat.ofDigitChars 10 ds 0)
  | negative {ds : List Char} (h : PositiveNumeral ds) :
      Canonical ('-' :: ds) (-Nat.ofDigitChars 10 ds 0)

/-! ### Digits and their value -/

theorem digitsValue_eq (ds : List Char) : digitsValue ds = Nat.ofDigitChars 10 ds 0 := rfl

theorem toNat_of_isDigit {d : Char} (h : d.isDigit = true) : 48 ≤ d.toNat ∧ d.toNat ≤ 57 := by
  simpa [Char.isDigit, UInt32.le_iff_toNat_le] using h

theorem digitChar_of_isDigit {d : Char} (h : d.isDigit = true) :
    d.toNat - 48 < 10 ∧ Nat.digitChar (d.toNat - 48) = d := by
  have hrange := toNat_of_isDigit h
  have hlt : d.toNat - 48 < 10 := by omega
  refine ⟨hlt, Char.toNat_inj.mp ?_⟩
  rw [Nat.toNat_digitChar_of_lt_ten hlt]
  omega

/-- Digits read on after a positive number are written after it. -/
theorem toDigits_ofDigitChars {ds : List Char} (hd : ∀ d ∈ ds, d.isDigit = true) {a : Nat} (ha : 0 < a) :
    Nat.toDigits 10 (Nat.ofDigitChars 10 ds a) = Nat.toDigits 10 a ++ ds := by
  induction ds generalizing a with
  | nil => simp
  | cons d ds ih =>
    obtain ⟨hlt, hchar⟩ := digitChar_of_isDigit (hd d List.mem_cons_self)
    have hstep : Nat.toDigits 10 a ++ [d] = Nat.toDigits 10 (10 * a + (d.toNat - 48)) := by
      rw [← Nat.toDigits_append_toDigits (by decide) ha hlt, Nat.toDigits_of_lt_base hlt, hchar]
    have hrest := ih (fun c hc => hd c (List.mem_cons_of_mem _ hc))
      (show 0 < 10 * a + (d.toNat - 48) by omega)
    calc
      _ = Nat.toDigits 10 (10 * a + (d.toNat - 48)) ++ ds := hrest
      _ = Nat.toDigits 10 a ++ d :: ds := by rw [← hstep, List.append_assoc, List.singleton_append]

namespace PositiveNumeral

theorem toDigits_value {ds : List Char} (h : PositiveNumeral ds) :
    0 < Nat.ofDigitChars 10 ds 0 ∧ Nat.toDigits 10 (Nat.ofDigitChars 10 ds 0) = ds := by
  obtain ⟨hne, hlead, hd⟩ := h
  cases ds with
  | nil => exact absurd rfl hne
  | cons d ds =>
    obtain ⟨hlt, hchar⟩ := digitChar_of_isDigit (hd d List.mem_cons_self)
    have hpos : 0 < d.toNat - 48 := by
      apply Nat.pos_of_ne_zero
      intro hzero
      rw [hzero] at hchar
      exact hlead (by rw [← hchar]; rfl)
    have hwritten := toDigits_ofDigitChars (fun c hc => hd c (List.mem_cons_of_mem _ hc)) hpos
    rw [Nat.toDigits_of_lt_base hlt, hchar] at hwritten
    have hvalue : Nat.ofDigitChars 10 (d :: ds) 0 = Nat.ofDigitChars 10 ds (d.toNat - 48) := by
      simp [Nat.ofDigitChars_cons]
    rw [hvalue]
    refine ⟨Nat.pos_of_ne_zero fun hzero => ?_, hwritten⟩
    rw [hzero] at hwritten
    exact hlead (by rw [← List.singleton_append, ← hwritten]; rfl)

theorem toDigits {n : Nat} (hn : 0 < n) : PositiveNumeral (Nat.toDigits 10 n) where
  nonempty := Nat.toDigits_ne_nil
  digits _ hd := Nat.isDigit_of_mem_toDigits (by decide) (by decide) hd
  leading := by
    induction n using Nat.strongRecOn with
    | ind n ih =>
      rw [Nat.toDigits_eq_if (by decide)]
      split
      · next hlt =>
        intro hzero
        have hchar := congrArg (Option.map Char.toNat) hzero
        simp only [List.head?_cons, Option.map_some, Option.some.injEq] at hchar
        rw [Nat.toNat_digitChar_of_lt_ten hlt] at hchar
        have : '0'.toNat = 48 := rfl
        omega
      · next hlt =>
        have hprefix := ih (n / 10) (by omega) (by omega)
        obtain ⟨c, cs, hcs⟩ := List.exists_cons_of_ne_nil (Nat.toDigits_ne_nil (n := n / 10) (b := 10))
        rw [hcs] at hprefix ⊢
        exact hprefix

end PositiveNumeral

/-! ### Writing -/

theorem canonical_intText (n : Int64) : Canonical (intText n).toList n.toInt := by
  unfold intText natText
  split
  · next hneg =>
    have hcanonical := Canonical.negative (PositiveNumeral.toDigits (n := n.toInt.natAbs) (by omega))
    have hvalue : -(n.toInt.natAbs : Int) = n.toInt := by omega
    rw [Nat.ofDigitChars_ten_toDigits, hvalue] at hcanonical
    simpa using hcanonical
  · next hneg =>
    by_cases hzero : n.toInt = 0
    · rw [hzero]
      exact .zero
    · have hcanonical := Canonical.positive (PositiveNumeral.toDigits (n := n.toInt.natAbs) (by omega))
      have hvalue : (n.toInt.natAbs : Int) = n.toInt := by omega
      rw [Nat.ofDigitChars_ten_toDigits, hvalue] at hcanonical
      simpa using hcanonical

/-- No integer has two canonical forms. -/
theorem Canonical.unique {cs ds : List Char} {n : Int} (h : Canonical cs n) (h' : Canonical ds n) :
    cs = ds := by
  suffices hform : ∀ {es : List Char}, Canonical es n →
      es = if n < 0 then '-' :: Nat.toDigits 10 n.natAbs else Nat.toDigits 10 n.natAbs from
    (hform h).trans (hform h').symm
  intro es hes
  cases hes with
  | zero => rfl
  | positive hds =>
    obtain ⟨-, hwritten⟩ := hds.toDigits_value
    rw [if_neg (by omega), Int.natAbs_natCast, hwritten]
  | negative hds =>
    obtain ⟨hpos, hwritten⟩ := hds.toDigits_value
    rw [if_pos (by omega), Int.natAbs_neg, Int.natAbs_natCast, hwritten]

/-! ### Reading -/

theorem isPlainNumeral_iff {ds : List Char} :
    isPlainNumeral ds = true ↔ ds = ['0'] ∨ PositiveNumeral ds := by
  unfold isPlainNumeral
  split
  · refine ⟨nofun, ?_⟩
    rintro (hds | hds)
    · cases hds
    · exact absurd rfl hds.nonempty
  · exact ⟨fun _ => .inl rfl, fun _ => rfl⟩
  · next c cs hne =>
    have hne : c :: cs ≠ ['0'] := fun heq => hne (List.cons.inj heq).1 (List.cons.inj heq).2
    rw [Bool.and_eq_true, bne_iff_ne, List.all_eq_true]
    constructor
    · rintro ⟨hc, hd⟩
      exact .inr ⟨List.cons_ne_nil c cs, by simpa using hc, hd⟩
    · rintro (hds | hds)
      · exact absurd hds hne
      · exact ⟨by simpa using hds.leading, hds.digits⟩

theorem int64?_eq_some_iff {m : Int} {n : Int64} : int64? m = some n ↔ m = n.toInt := by
  have hmin : Int64.minValue.toInt = -2 ^ 63 := rfl
  have hmax : Int64.maxValue.toInt = 2 ^ 63 - 1 := rfl
  unfold int64?
  split
  · next h =>
    have hback : (Int64.ofInt m).toInt = m := Int64.toInt_ofInt_of_le (by omega) (by omega)
    rw [Option.some.injEq, ← Int64.toInt_inj, hback]
  · next h =>
    have hle := n.le_toInt
    have hlt := n.toInt_lt
    refine ⟨nofun, ?_⟩
    rintro rfl
    omega

theorem not_positiveNumeral_zero : ¬ PositiveNumeral ['0'] := fun h => h.leading rfl

theorem not_positiveNumeral_minus (ds : List Char) : ¬ PositiveNumeral ('-' :: ds) := fun h => by
  have hminus := h.digits '-' List.mem_cons_self
  cases hminus

theorem canonical_minus_iff {ds : List Char} {n : Int} :
    Canonical ('-' :: ds) n ↔ PositiveNumeral ds ∧ -(Nat.ofDigitChars 10 ds 0 : Int) = n := by
  constructor
  · intro h
    generalize hcs : '-' :: ds = cs at h
    cases h with
    | zero => cases hcs
    | positive h => exact absurd (hcs ▸ h) (not_positiveNumeral_minus ds)
    | negative h =>
      obtain ⟨-, rfl⟩ := List.cons.inj hcs
      exact ⟨h, rfl⟩
  · rintro ⟨h, rfl⟩
    exact .negative h

theorem canonical_plain_iff {cs : List Char} {n : Int} (hcs : ∀ ds, cs ≠ '-' :: ds) :
    Canonical cs n ↔ (cs = ['0'] ∨ PositiveNumeral cs) ∧ (Nat.ofDigitChars 10 cs 0 : Int) = n := by
  constructor
  · intro h
    cases h with
    | zero => exact ⟨.inl rfl, rfl⟩
    | positive h => exact ⟨.inr h, rfl⟩
    | negative h => exact absurd rfl (hcs _)
  · rintro ⟨rfl | h, rfl⟩
    · exact .zero
    · exact .positive h

/-- The reader accepts the canonical form of each 64-bit integer, as that integer, and nothing else. -/
theorem canonicalInt?_eq_some_iff {cs : List Char} {n : Int64} :
    canonicalInt? cs = some n ↔ Canonical cs n.toInt := by
  unfold canonicalInt?
  split
  · next ds =>
    have hnumeral : (isPlainNumeral ds && ds != ['0']) = true ↔ PositiveNumeral ds := by
      rw [Bool.and_eq_true, isPlainNumeral_iff, bne_iff_ne]
      constructor
      · rintro ⟨hplain, hzero⟩
        exact hplain.resolve_left hzero
      · exact fun h => ⟨.inr h, fun hzero => not_positiveNumeral_zero (hzero ▸ h)⟩
    rw [canonical_minus_iff, Option.ite_none_right_eq_some, hnumeral, int64?_eq_some_iff, digitsValue_eq]
  · next hminus =>
    rw [canonical_plain_iff hminus, Option.ite_none_right_eq_some, isPlainNumeral_iff, int64?_eq_some_iff,
      digitsValue_eq]

end YieldMachine
