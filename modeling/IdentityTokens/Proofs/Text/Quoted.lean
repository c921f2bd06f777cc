import IdentityTokens.Text.Quoted

/-! # Quoting what needs no escapes

Between the blank and the tilde every character is printed as it is, but for the quote and the
backslash. A text of such characters is quoted by putting quotes around it. -/
namespace IdentityTokens.Text

/-- A character that stands for itself between quotes. -/
def IsPlain (c : Char) : Prop := 32 ≤ c.toNat ∧ c.toNat ≤ 126 ∧ c ≠ '"' ∧ c ≠ '\\'

instance (c : Char) : Decidable (IsPlain c) :=
  inferInstanceAs (Decidable (_ ∧ _ ∧ _ ∧ _))

theorem plain_of_all {s : String} (h : s.toList.all (IsPlain ·) = true) :
    ∀ c ∈ s.toList, IsPlain c := fun c hc =>
  of_decide_eq_true (List.all_eq_true.mp h c hc)

theorem unprintableRanges_around :
    ∀ r ∈ unprintableRanges, r.2 < 32 ∨ 126 < r.1 := by
  decide +kernel

theorem IsPlain.isUnprintable_eq_false {c : Char} (h : IsPlain c) : isUnprintable c = false := by
  obtain ⟨hlo, hhi, -⟩ := h
  rw [isUnprintable, List.any_eq_false]
  intro r hr
  have haround := unprintableRanges_around r hr
  simp only [Bool.and_eq_true, decide_eq_true_eq]
  omega

theorem IsPlain.escape_eq {c : Char} (h : IsPlain c) : escape c = [c] := by
  have hlo : 32 ≤ c.toNat := h.1
  unfold escape
  split
  · exact absurd rfl h.2.2.1
  · exact absurd rfl h.2.2.2
  · exact absurd hlo (by decide)
  · exact absurd hlo (by decide)
  · exact absurd hlo (by decide)
  · exact absurd hlo (by decide)
  · rw [h.isUnprintable_eq_false]
    rfl

theorem quoted_of_plain {s : String} (h : ∀ c ∈ s.toList, IsPlain c) :
    quoted s = "\"" ++ s ++ "\"" := by
  have hescape : ∀ l : List Char, (∀ c ∈ l, IsPlain c) → l.flatMap escape = l := by
    intro l hl
    induction l with
    | nil => rfl
    | cons c l ih =>
      rw [List.flatMap_cons, (hl c List.mem_cons_self).escape_eq,
        ih fun d hd => hl d (List.mem_cons_of_mem c hd)]
      rfl
  apply String.toList_injective
  rw [quoted, hescape _ h, String.toList_ofList, String.toList_append, String.toList_append]
  rfl

/-- A text that is put together of plain ones is plain. -/
theorem plain_intercalate {separator : String} {items : List String}
    (hseparator : ∀ c ∈ separator.toList, IsPlain c)
    (hitems : ∀ s ∈ items, ∀ c ∈ s.toList, IsPlain c) :
    ∀ c ∈ (separator.intercalate items).toList, IsPlain c := by
  induction items with
  | nil =>
    rw [String.intercalate_nil]
    exact fun c hc => absurd hc List.not_mem_nil
  | cons s items ih =>
    have hs := hitems s List.mem_cons_self
    have hrest := ih fun t ht => hitems t (List.mem_cons_of_mem s ht)
    cases items with
    | nil =>
      rw [String.intercalate_singleton]
      exact hs
    | cons t items =>
      rw [String.intercalate_cons_cons, String.toList_append, String.toList_append]
      exact List.forall_mem_append.mpr ⟨List.forall_mem_append.mpr ⟨hs, hseparator⟩, hrest⟩

end IdentityTokens.Text
