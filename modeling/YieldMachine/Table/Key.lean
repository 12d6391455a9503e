import Std.Data.TreeMap
import YieldMachine.Number.Integer
import YieldMachine.Text.Quoted

/-!
Keys of table entries: integers and texts. A text that is the canonical decimal form of a 64-bit integer
stands for that integer. Integers come before texts, and texts are ordered by code points.
-/

namespace YieldMachine

inductive Key where
  | int (n : Int64)
  | text (s : String)
  deriving DecidableEq, Repr

namespace Key

instance : Ord Key where
  compare
    | .int a, .int b => compare a b
    | .int _, .text _ => .lt
    | .text _, .int _ => .gt
    | .text a, .text b => compare a b

theorem compare_int (a b : Int64) : compare (Key.int a) (.int b) = compare a b := rfl

theorem compare_text (a b : String) : compare (Key.text a) (.text b) = compare a b := rfl

instance : Std.TransOrd Key where
  eq_swap {a b} := by
    cases a <;> cases b
    · rw [compare_int, compare_int]; exact Std.OrientedCmp.eq_swap
    · rfl
    · rfl
    · rw [compare_text, compare_text]; exact Std.OrientedCmp.eq_swap
  isLE_trans {a b c} hab hbc :=
    match a, b, c, hab, hbc with
    | .int _, .int _, .int _, hab, hbc => by
      rw [compare_int] at *; exact Std.TransCmp.isLE_trans hab hbc
    | .text _, .text _, .text _, hab, hbc => by
      rw [compare_text] at *; exact Std.TransCmp.isLE_trans hab hbc
    | .int _, .int _, .text _, _, _ => rfl
    | .int _, .text _, .text _, _, _ => rfl

instance : Std.LawfulEqOrd Key where
  eq_of_compare {a b} h := by
    cases a <;> cases b
    · rw [compare_int] at h; rw [Std.LawfulEqCmp.eq_of_compare h]
    · cases h
    · cases h
    · rw [compare_text] at h; rw [Std.LawfulEqCmp.eq_of_compare h]

/-- The key a text stands for. -/
def ofString (s : String) : Key :=
  match canonicalInt? s.toList with
  | some n => .int n
  | none => .text s

def display : Key → String
  | .int n => intText n
  | .text s => s

def inspect : Key → String
  | .int n => intText n
  | .text s => Text.quote s

end Key

end YieldMachine
