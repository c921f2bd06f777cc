/-! Cutting a text at marks. The pieces between the marks are never fewer than one,
and joined with the marks they give the text back. -/
namespace IdentityTokens.Text

def cut (isMark : Char → Bool) : List Char → List (List Char)
  | [] => [[]]
  | c :: rest =>
    if isMark c then [] :: cut isMark rest
    else
      match cut isMark rest with
      | piece :: pieces => (c :: piece) :: pieces
      | [] => [[c]]

theorem cut_ne_nil (isMark : Char → Bool) (s : List Char) : cut isMark s ≠ [] := by
  cases s with
  | nil => simp [cut]
  | cons c rest =>
    rw [cut]
    split
    · simp
    · split <;> simp

theorem intercalate_cut (mark : Char) (s : List Char) :
    [mark].intercalate (cut (· = mark) s) = s := by
  induction s with
  | nil => rfl
  | cons c rest ih =>
    rw [cut]
    obtain ⟨piece, pieces, h⟩ := List.exists_cons_of_ne_nil (cut_ne_nil (· = mark) rest)
    rw [h] at ih ⊢
    by_cases hc : c = mark
    · subst hc
      rw [← ih]
      simp [List.intercalate]
    · rw [← ih]
      cases pieces <;> simp [hc, List.intercalate, List.intersperse]

theorem cut_of_forall {isMark : Char → Bool} {s : List Char} (h : ∀ c ∈ s, isMark c = false) :
    cut isMark s = [s] := by
  induction s with
  | nil => rfl
  | cons c rest ih =>
    rw [cut, h c List.mem_cons_self, ih fun d hd => h d (List.mem_cons_of_mem c hd)]
    rfl

theorem cut_of_not_mem {mark : Char} {s : List Char} (h : mark ∉ s) :
    cut (· = mark) s = [s] :=
  cut_of_forall fun _ hc => decide_eq_false fun heq => h (heq ▸ hc)

theorem cut_append {isMark : Char → Bool} {c : Char} (hc : isMark c = true) (s t : List Char) :
    cut isMark (s ++ c :: t) = cut isMark s ++ cut isMark t := by
  induction s with
  | nil => simp [cut, hc]
  | cons d s ih =>
    obtain ⟨piece, pieces, hs⟩ := List.exists_cons_of_ne_nil (cut_ne_nil isMark s)
    rw [List.cons_append, cut, cut, ih, hs]
    cases isMark d <;> rfl

/-- The first piece ends at the first mark. -/
theorem cut_append_mark {mark : Char} {piece : List Char} (h : mark ∉ piece) (rest : List Char) :
    cut (· = mark) (piece ++ mark :: rest) = piece :: cut (· = mark) rest := by
  rw [cut_append (decide_eq_true rfl), cut_of_not_mem h]
  rfl

/-- Pieces without marks are got back from what they are joined to. -/
theorem cut_intercalate {mark : Char} {pieces : List (List Char)} (hne : pieces ≠ [])
    (h : ∀ p ∈ pieces, mark ∉ p) : cut (· = mark) ([mark].intercalate pieces) = pieces := by
  induction pieces with
  | nil => exact absurd rfl hne
  | cons piece pieces ih =>
    have hpiece : mark ∉ piece := h piece List.mem_cons_self
    cases pieces with
    | nil => simpa [List.intercalate] using cut_of_not_mem hpiece
    | cons next pieces =>
      have hrest := ih (List.cons_ne_nil _ _) fun p hp => h p (List.mem_cons_of_mem _ hp)
      have hjoin : [mark].intercalate (piece :: next :: pieces) =
          piece ++ mark :: [mark].intercalate (next :: pieces) := by
        simp [List.intercalate]
      rw [hjoin, cut_append_mark hpiece, hrest]

theorem not_mem_of_mem_cut {mark : Char} {s piece : List Char}
    (h : piece ∈ cut (· = mark) s) : mark ∉ piece := by
  induction s generalizing piece with
  | nil => simp_all [cut]
  | cons c rest ih =>
    rw [cut] at h
    obtain ⟨first, pieces, hc⟩ := List.exists_cons_of_ne_nil (cut_ne_nil (· = mark) rest)
    rw [hc] at h ih
    by_cases hm : c = mark
    · rw [if_pos (by simpa using hm)] at h
      rcases List.mem_cons.mp h with rfl | hp
      · exact List.not_mem_nil
      · exact ih hp
    · rw [if_neg (by simpa using hm)] at h
      rcases List.mem_cons.mp h with rfl | hp
      · rw [List.mem_cons, not_or]
        exact ⟨Ne.symm hm, ih List.mem_cons_self⟩
      · exact ih (List.mem_cons_of_mem _ hp)

theorem length_cut (mark : Char) (s : List Char) :
    (cut (· = mark) s).length = s.count mark + 1 := by
  induction s with
  | nil => rfl
  | cons c rest ih =>
    rw [cut]
    obtain ⟨first, pieces, hc⟩ := List.exists_cons_of_ne_nil (cut_ne_nil (· = mark) rest)
    rw [hc] at ih ⊢
    by_cases hm : c = mark <;> simp_all

end IdentityTokens.Text
