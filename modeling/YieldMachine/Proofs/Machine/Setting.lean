import Mathlib.Algebra.Group.Nat.Defs
import Mathlib.Data.List.Induction
import Mathlib.Data.List.TakeWhile
import YieldMachine.Machine.Config

/-!
The budget setting. A setting is a numeral of 64 bits, with blanks around it if need be: decimal digits, leading zeros
allowed, after at most one plus sign (`Numeral`). Such a setting gives its number as the budget, and any other
setting, or none, gives the standard limits (`budget_read_from_setting`).
-/

namespace YieldMachine

/-! ### Blanks around a text -/

namespace Text

/-- The code points with the property White_Space. -/
def blankPoints : List Nat :=
  [0x09, 0x0a, 0x0b, 0x0c, 0x0d, 0x20, 0x85, 0xa0, 0x1680, 0x2000, 0x2001, 0x2002, 0x2003, 0x2004, 0x2005,
   0x2006, 0x2007, 0x2008, 0x2009, 0x200a, 0x2028, 0x2029, 0x202f, 0x205f, 0x3000]

def Blank (c : Char) : Prop := c.toNat ∈ blankPoints

instance (c : Char) : Decidable (Blank c) := inferInstanceAs (Decidable (c.toNat ∈ blankPoints))

/-- Without the blanks at both of its ends, the first text is the second. -/
structure Trims (cs core : List Char) : Prop where
  around : ∃ before after, cs = before ++ core ++ after ∧ (∀ c ∈ before, Blank c) ∧ ∀ c ∈ after, Blank c
  first : ∀ c, core.head? = some c → ¬ Blank c
  last : ∀ c, core.getLast? = some c → ¬ Blank c

theorem isBlank_iff (c : Char) : isBlank c = true ↔ Blank c := by
  simp only [isBlank, blankRanges, Blank, blankPoints, List.any_cons, List.any_nil, List.mem_cons,
    List.not_mem_nil, or_false, Bool.or_false, Bool.or_eq_true, Bool.and_eq_true, decide_eq_true_eq]
  omega

/-- The blanks at the beginning of a text, and the rest of it. -/
theorem dropWhile_blank (cs : List Char) :
    ∃ before, cs = before ++ cs.dropWhile isBlank ∧ ∀ c ∈ before, Blank c := by
  refine ⟨cs.takeWhile isBlank, List.takeWhile_append_dropWhile.symm, ?_⟩
  intro c hc
  exact (isBlank_iff c).mp (List.mem_takeWhile_imp hc)

theorem dropWhile_blank_append {before rest : List Char} (hbefore : ∀ c ∈ before, Blank c)
    (hrest : ∀ c, rest.head? = some c → ¬ Blank c) : (before ++ rest).dropWhile isBlank = rest := by
  induction before with
  | nil =>
    cases rest with
    | nil => rfl
    | cons c cs =>
      have hc : isBlank c ≠ true := fun hblank => hrest c rfl ((isBlank_iff c).mp hblank)
      simp [hc]
  | cons c before ih =>
    have hc : isBlank c = true := (isBlank_iff c).mpr (hbefore c List.mem_cons_self)
    have htail := ih fun d hd => hbefore d (List.mem_cons_of_mem c hd)
    simp [hc, htail]

theorem head_dropWhile_blank {cs : List Char} {c : Char} (h : (cs.dropWhile isBlank).head? = some c) :
    ¬ Blank c := by
  intro hblank
  have hnot := List.head?_dropWhile_not isBlank cs
  simp only [h, (isBlank_iff c).mpr hblank] at hnot
  cases hnot

theorem trims_trim (cs : List Char) : Trims cs (trim cs) := by
  obtain ⟨before, hbefore, hblank⟩ := dropWhile_blank cs
  obtain ⟨after, hafter, hblank'⟩ := dropWhile_blank (cs.dropWhile isBlank).reverse
  have hback : cs.dropWhile isBlank = trim cs ++ after.reverse := by
    rw [trim, ← List.reverse_append, ← hafter, List.reverse_reverse]
  refine ⟨⟨before, after.reverse, ?_, hblank, ?_⟩, ?_, ?_⟩
  · rw [List.append_assoc, ← hback]
    exact hbefore
  · intro c hc
    exact hblank' c (List.mem_reverse.mp hc)
  · intro c hc
    -- What is left begins as the text does behind its first blanks.
    have hfirst : (cs.dropWhile isBlank).head? = some c := by
      rw [hback, List.head?_append, hc]
      rfl
    exact head_dropWhile_blank hfirst
  · intro c hc
    rw [trim, List.getLast?_reverse] at hc
    exact head_dropWhile_blank hc

theorem trims_iff {cs core : List Char} : Trims cs core ↔ trim cs = core := by
  constructor
  · rintro ⟨⟨before, after, rfl, hbefore, hafter⟩, hfirst, hlast⟩
    cases core with
    | nil =>
      have hall : ∀ c ∈ before ++ [] ++ after, Blank c := by
        intro c hc
        simp only [List.append_nil, List.mem_append] at hc
        exact hc.elim (hbefore c) (hafter c)
      have hnone : ((before ++ [] ++ after) ++ []).dropWhile isBlank = [] := dropWhile_blank_append hall (by simp)
      rw [List.append_nil] at hnone
      rw [trim, hnone]
      rfl
    | cons d core =>
      have hfront : (before ++ (d :: core) ++ after).dropWhile isBlank = d :: core ++ after := by
        rw [List.append_assoc]
        apply dropWhile_blank_append hbefore
        intro c hc
        exact hfirst c hc
      have hrear : (after.reverse ++ (d :: core).reverse).dropWhile isBlank = (d :: core).reverse := by
        apply dropWhile_blank_append
        · intro c hc
          exact hafter c (List.mem_reverse.mp hc)
        · intro c hc
          rw [List.head?_reverse] at hc
          exact hlast c hc
      rw [trim, hfront, List.reverse_append, hrear, List.reverse_reverse]
  · rintro rfl
    exact trims_trim cs

end Text

/-! ### Numerals -/

/-- One or more decimal digits, and their value. -/
inductive Digits : List Char → Nat → Prop where
  | single (d : Fin 10) : Digits [Nat.digitChar d] d
  | more {cs : List Char} {n : Nat} (h : Digits cs n) (d : Fin 10) :
      Digits (cs ++ [Nat.digitChar d]) (10 * n + d)

/-- Digits after at most one plus sign, and their value. -/
inductive Numeral : List Char → Nat → Prop where
  | plain {cs : List Char} {n : Nat} (h : Digits cs n) : Numeral cs n
  | plus {cs : List Char} {n : Nat} (h : Digits cs n) : Numeral ('+' :: cs) n

theorem digitChar_cases (d : Fin 10) :
    isDigit (Nat.digitChar d) = true ∧ (Nat.digitChar d).toNat - '0'.toNat = d ∧
      ¬ Text.Blank (Nat.digitChar d) ∧ Nat.digitChar d ≠ '+' := by
  revert d
  decide

theorem exists_digit {c : Char} (h : isDigit c = true) : ∃ d : Fin 10, c = Nat.digitChar d := by
  have hrange : 48 ≤ c.toNat ∧ c.toNat ≤ 57 := by
    simpa [isDigit, Char.le_def, UInt32.le_iff_toNat_le] using h
  have hlt : c.toNat - 48 < 10 := by omega
  refine ⟨⟨c.toNat - 48, hlt⟩, ?_⟩
  apply Char.toNat_inj.mp
  rw [Nat.toNat_digitChar_of_lt_ten hlt]
  omega

theorem digitsValue_concat (cs : List Char) (c : Char) :
    digitsValue (cs ++ [c]) = 10 * digitsValue cs + (c.toNat - '0'.toNat) := by
  simp [digitsValue]

theorem digits_iff {cs : List Char} {n : Nat} :
    Digits cs n ↔ cs ≠ [] ∧ cs.all isDigit = true ∧ digitsValue cs = n := by
  constructor
  · intro h
    induction h with
    | single d =>
      obtain ⟨hdigit, hvalue, -⟩ := digitChar_cases d
      simp only [digitsValue, List.foldl_cons, List.foldl_nil, List.all_cons, hdigit, hvalue]
      simp
    | more h d ih =>
      obtain ⟨-, hall, hn⟩ := ih
      obtain ⟨hdigit, hvalue, -⟩ := digitChar_cases d
      rw [digitsValue_concat, hn, hvalue]
      simp [hall, hdigit]
  · rintro ⟨hne, hall, rfl⟩
    induction cs using List.reverseRecOn with
    | nil => exact absurd rfl hne
    | append_singleton cs c ih =>
      simp only [List.all_append, List.all_cons, List.all_nil, Bool.and_true, Bool.and_eq_true] at hall
      obtain ⟨hcs, hc⟩ := hall
      obtain ⟨d, rfl⟩ := exists_digit hc
      obtain ⟨-, hvalue, -⟩ := digitChar_cases d
      rw [digitsValue_concat, hvalue]
      by_cases hempty : cs = []
      · subst hempty
        simpa [digitsValue] using Digits.single d
      · exact .more (ih hempty hcs) d

theorem digits_toDigits (n : Nat) : Digits (Nat.toDigits 10 n) n := by
  induction n using Nat.strongRecOn with
  | ind n ih =>
    rw [Nat.toDigits_eq_if (by decide)]
    split
    · next hlt => exact .single ⟨n, hlt⟩
    · next hge =>
      have hmore := (ih (n / 10) (by omega)).more ⟨n % 10, by omega⟩
      simp only [Nat.div_add_mod] at hmore
      exact hmore

/-- A numeral neither begins nor ends with a blank. -/
theorem Digits.ends {cs : List Char} {n : Nat} (h : Digits cs n) :
    (∃ d : Fin 10, cs.head? = some (Nat.digitChar d)) ∧ ∃ d : Fin 10, cs.getLast? = some (Nat.digitChar d) := by
  induction h with
  | single d => exact ⟨⟨d, rfl⟩, d, rfl⟩
  | more h d ih =>
    obtain ⟨⟨first, hfirst⟩, -⟩ := ih
    refine ⟨⟨first, ?_⟩, d, by simp⟩
    rw [List.head?_append, hfirst]
    rfl

theorem Digits.trims {cs before after : List Char} {n : Nat} (h : Digits cs n)
    (hbefore : ∀ c ∈ before, Text.Blank c) (hafter : ∀ c ∈ after, Text.Blank c) :
    Text.Trims (before ++ cs ++ after) cs := by
  obtain ⟨⟨first, hfirst⟩, last, hlast⟩ := h.ends
  refine ⟨⟨before, after, rfl, hbefore, hafter⟩, ?_, ?_⟩
  · intro c hc
    obtain rfl := Option.some.inj (hfirst.symm.trans hc)
    exact (digitChar_cases first).2.2.1
  · intro c hc
    obtain rfl := Option.some.inj (hlast.symm.trans hc)
    exact (digitChar_cases last).2.2.1

/-- Digits do not begin with a plus sign, so the sign is told apart from them. -/
theorem numeral_plus_iff {cs : List Char} {n : Nat} : Numeral ('+' :: cs) n ↔ Digits cs n := by
  constructor
  · intro h
    generalize hds : '+' :: cs = ds at h
    cases h with
    | plain h =>
      obtain ⟨⟨d, hd⟩, -⟩ := h.ends
      rw [← hds] at hd
      exact absurd (Option.some.inj hd).symm (digitChar_cases d).2.2.2
    | plus h =>
      obtain ⟨-, rfl⟩ := List.cons.inj hds
      exact h
  · exact .plus

theorem numeral_plain_iff {cs : List Char} {n : Nat} (hcs : ∀ ds, cs ≠ '+' :: ds) :
    Numeral cs n ↔ Digits cs n := by
  constructor
  · intro h
    cases h with
    | plain h => exact h
    | plus h => exact absurd rfl (hcs _)
  · exact .plain

namespace Config

theorem readWord?_eq_some_iff {cs : List Char} {n : Nat} :
    readWord? cs = some n ↔ Numeral cs n ∧ n < 2 ^ 64 := by
  have hread (ds : List Char) :
      (if !ds.isEmpty && ds.all isDigit && digitsValue ds ≤ wordMax then some (digitsValue ds) else none) =
        some n ↔ Digits ds n ∧ n < 2 ^ 64 := by
    rw [Option.ite_none_right_eq_some, digits_iff]
    simp only [Bool.and_eq_true, Bool.not_eq_true', List.isEmpty_eq_false_iff, decide_eq_true_eq,
      Option.some.injEq]
    have hmax : wordMax = 2 ^ 64 - 1 := rfl
    constructor
    · rintro ⟨⟨⟨hne, hall⟩, hle⟩, rfl⟩
      exact ⟨⟨hne, hall, rfl⟩, by omega⟩
    · rintro ⟨⟨hne, hall, rfl⟩, hlt⟩
      exact ⟨⟨⟨hne, hall⟩, by omega⟩, rfl⟩
  unfold readWord?
  split
  · next ds => rw [numeral_plus_iff, hread]
  · next hplus => rw [numeral_plain_iff fun ds hds => hplus ds hds, hread]

end Config

open Config in
/-- A setting gives the budget `n` just when, without the blanks around it, it is a numeral of value `n` below
2 ^ 64. All other settings, and a missing one, give the standard limits; the depth of calls is the standard one
anyhow. Every number of 64 bits can be set, in its decimal form with any blanks around it. -/
theorem budget_read_from_setting :
    (∀ (s : String) n, (ofSetting (some s)).mode = .bounded n ↔
      n < 2 ^ 64 ∧ ∃ core, Text.Trims s.toList core ∧ Numeral core n) ∧
    (∀ s : String, (∀ n core, Text.Trims s.toList core → Numeral core n → 2 ^ 64 ≤ n) →
      ofSetting (some s) = standard) ∧
    ofSetting none = standard ∧
    (∀ setting, (ofSetting setting).maxCallDepth = standard.maxCallDepth) ∧
    ∀ n (before after : String), n < 2 ^ 64 → (∀ c ∈ before.toList, Text.Blank c) →
      (∀ c ∈ after.toList, Text.Blank c) →
        ofSetting (some (before ++ natText n ++ after)) = { standard with mode := .bounded n } := by
  have hread (s : String) (n : Nat) : readWord? (Text.trim s.toList) = some n ↔
      n < 2 ^ 64 ∧ ∃ core, Text.Trims s.toList core ∧ Numeral core n := by
    rw [readWord?_eq_some_iff]
    constructor
    · rintro ⟨hnumeral, hlt⟩
      exact ⟨hlt, _, Text.trims_trim _, hnumeral⟩
    · rintro ⟨hlt, core, htrims, hnumeral⟩
      rw [Text.trims_iff.mp htrims]
      exact ⟨hnumeral, hlt⟩
  have hset (s : String) (n : Nat) (h : readWord? (Text.trim s.toList) = some n) :
      ofSetting (some s) = { standard with mode := .bounded n } := by
    simp [ofSetting, h]
  have hignored (s : String) (h : readWord? (Text.trim s.toList) = none) : ofSetting (some s) = standard := by
    simp [ofSetting, h]
  refine ⟨?_, ?_, rfl, ?_, ?_⟩
  · intro s n
    rw [← hread]
    cases h : readWord? (Text.trim s.toList) with
    | none => simp [hignored s h, standard]
    | some k => simp [hset s k h]
  · intro s hbeyond
    apply hignored
    rw [Option.eq_none_iff_forall_ne_some]
    intro n h
    obtain ⟨hlt, core, htrims, hnumeral⟩ := (hread s n).mp h
    have hle := hbeyond n core htrims hnumeral
    omega
  · intro setting
    unfold ofSetting
    split <;> rfl
  · intro n before after hlt hbefore hafter
    apply hset
    rw [hread]
    have hdigits := digits_toDigits n
    refine ⟨hlt, Nat.toDigits 10 n, ?_, .plain hdigits⟩
    have htrims := hdigits.trims hbefore hafter
    simpa [natText] using htrims

open Config in
/-- A signed numeral between blanks, the least number that is too great, and the greatest one that is not. -/
theorem budget_read_from_setting_at_bounds :
    Text.Trims " +007\u3000".toList ['+', '0', '0', '7'] ∧ Numeral ['+', '0', '0', '7'] 7 ∧
      (ofSetting (some " +007\u3000")).mode = .bounded 7 ∧
      ofSetting (some "18446744073709551616") = standard ∧
      ofSetting (some ("\t" ++ natText (2 ^ 64 - 1) ++ " ")) = { standard with mode := .bounded (2 ^ 64 - 1) } := by
  obtain ⟨hread, hignored, -, -, hpadded⟩ := budget_read_from_setting
  have htrims : Text.Trims " +007\u3000".toList ['+', '0', '0', '7'] := Text.trims_iff.mpr (by decide)
  have hnumeral : Numeral ['+', '0', '0', '7'] 7 := .plus (digits_iff.mpr (by decide))
  refine ⟨htrims, hnumeral, ?_, ?_, ?_⟩
  · exact (hread _ 7).mpr ⟨by decide, _, htrims, hnumeral⟩
  · apply hignored
    intro n core htrims hnumeral
    have hcore : Text.trim "18446744073709551616".toList = "18446744073709551616".toList := by decide
    rw [← Text.trims_iff.mp htrims, hcore, numeral_plain_iff (by simp)] at hnumeral
    obtain ⟨-, -, rfl⟩ := digits_iff.mp hnumeral
    decide
  · apply hpadded _ "\t" " " (by decide)
    · exact List.forall_mem_singleton.mpr (by decide)
    · exact List.forall_mem_singleton.mpr (by decide)

end YieldMachine
