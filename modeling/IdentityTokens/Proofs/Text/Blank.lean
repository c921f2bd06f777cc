import IdentityTokens.Text.Blank
import Mathlib.Data.List.TakeWhile

/-! # Blanks around a text

Blanks at the ends of a text do not count, and a text that ends with no blank on either side stays
as it is. -/
namespace IdentityTokens

namespace Text

variable {before s after : List Char}

theorem trimChars_append_left (hbefore : ∀ c ∈ before, isBlank c = true) :
    trimChars (before ++ s) = trimChars s := by
  rw [trimChars, List.dropWhile_append_of_pos hbefore]
  rfl

theorem trimChars_append_right (hafter : ∀ c ∈ after, isBlank c = true) :
    trimChars (s ++ after) = trimChars s := by
  have hreverse : ∀ c ∈ after.reverse, isBlank c = true :=
    fun c hc => hafter c (List.mem_reverse.mp hc)
  rw [trimChars, List.dropWhile_append]
  split
  · rename_i hs
    rw [trimChars, List.isEmpty_iff.mp hs, List.dropWhile_eq_nil_iff.mpr hafter]
  · rw [List.reverse_append, List.dropWhile_append_of_pos hreverse]
    rfl

/-- Blanks around a text do not count. -/
theorem trim_append {before s after : String} (hbefore : ∀ c ∈ before.toList, isBlank c = true)
    (hafter : ∀ c ∈ after.toList, isBlank c = true) : trim (before ++ s ++ after) = trim s := by
  rw [trim, String.toList_append, String.toList_append, trimChars_append_right hafter,
    trimChars_append_left hbefore]
  rfl

/-- Where there are no blanks at the ends, nothing is taken off. -/
theorem trimChars_of_ends {a b : Char} (ha : isBlank a = false) (hb : isBlank b = false) :
    trimChars (a :: (s ++ [b])) = a :: (s ++ [b]) := by
  have hreverse : (a :: (s ++ [b])).reverse = b :: (a :: s).reverse := by simp
  rw [trimChars, List.dropWhile_cons_of_neg (by simp [ha]), hreverse,
    List.dropWhile_cons_of_neg (by simp [hb]), ← hreverse, List.reverse_reverse]

/-- A text without blanks stays as it is. -/
theorem trimChars_of_forall (hs : ∀ c ∈ s, isBlank c = false) : trimChars s = s := by
  have hself : ∀ {l : List Char}, (∀ c ∈ l, isBlank c = false) → l.dropWhile isBlank = l := by
    intro l hl
    cases l with
    | nil => rfl
    | cons c l => exact List.dropWhile_cons_of_neg (by simp [hl c List.mem_cons_self])
  rw [trimChars, hself hs, hself fun c hc => hs c (List.mem_reverse.mp hc), List.reverse_reverse]

/-- All that is taken off a text without blanks is what stands around it. -/
theorem trimChars_around (hbefore : ∀ c ∈ before, isBlank c = true)
    (hs : ∀ c ∈ s, isBlank c = false) (hafter : ∀ c ∈ after, isBlank c = true) :
    trimChars (before ++ s ++ after) = s := by
  rw [trimChars_append_right hafter, trimChars_append_left hbefore, trimChars_of_forall hs]

theorem isBlank_of_ascii {c : Char} (hlo : 0x20 < c.toNat) (hhi : c.toNat < 0x80) :
    isBlank c = false := by
  simp only [isBlank, Bool.or_eq_false_iff, Bool.and_eq_false_iff, decide_eq_false_iff_not,
    beq_eq_false_iff_ne]
  omega

end Text

end IdentityTokens
