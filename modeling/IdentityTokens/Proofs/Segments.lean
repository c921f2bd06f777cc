import IdentityTokens.Jwt

/-! # Tokens of three segments

A token can be cut into segments exactly when it has two dots, and the segments are then
the three dotless texts that give the token back when they are joined with dots. -/
namespace IdentityTokens.Segments

/-- The token that the segments come from. -/
def joined (s : Segments) : String := s.header ++ "." ++ s.payload ++ "." ++ s.signature

/-- No segment goes beyond a dot. -/
structure Dotless (s : Segments) : Prop where
  header : '.' ∉ s.header.toList
  payload : '.' ∉ s.payload.toList
  signature : '.' ∉ s.signature.toList

theorem toList_joined (s : Segments) :
    s.joined.toList =
      s.header.toList ++ '.' :: (s.payload.toList ++ '.' :: s.signature.toList) := by
  simp [joined, String.toList_append]

theorem split_joined {s : Segments} (h : s.Dotless) : split s.joined = .ok s := by
  have hc : cut s.joined = [s.header.toList, s.payload.toList, s.signature.toList] := by
    rw [cut, toList_joined, Text.cut_append_mark h.header, Text.cut_append_mark h.payload,
      Text.cut_of_not_mem h.signature]
  simp [split, hc]

/-- What can be split is what was joined. -/
theorem of_split {token : String} {s : Segments} (h : split token = .ok s) :
    token = s.joined ∧ s.Dotless := by
  rw [split] at h
  split at h
  · rename_i header payload signature hc
    cases h
    have hm : ∀ piece ∈ cut token, '.' ∉ piece := fun _ => Text.not_mem_of_mem_cut
    rw [hc] at hm
    refine ⟨?_, by simp [hm], by simp [hm], by simp [hm]⟩
    have hj : ['.'].intercalate (cut token) = token.toList := Text.intercalate_cut '.' _
    rw [hc] at hj
    apply String.toList_injective
    rw [toList_joined, ← hj]
    simp [List.intercalate, List.intersperse]
  · cases h

theorem split_eq_ok_iff {token : String} {s : Segments} :
    split token = .ok s ↔ token = s.joined ∧ s.Dotless :=
  ⟨of_split, fun ⟨ht, hs⟩ => ht ▸ split_joined hs⟩

/-- Two dots decide whether there are three segments. -/
theorem split_cases (token : String) :
    (token.toList.count '.' = 2 ∧ ∃ s, split token = .ok s) ∨
      (token.toList.count '.' ≠ 2 ∧ split token = .error .segments) := by
  have hl : (cut token).length = token.toList.count '.' + 1 := Text.length_cut '.' _
  rw [split]
  split
  · rename_i header payload signature hc
    rw [hc] at hl
    exact .inl ⟨by simpa using hl.symm, _, rfl⟩
  · rename_i hc
    refine .inr ⟨?_, rfl⟩
    intro h2
    rw [h2] at hl
    match hs : cut token, hl with
    | [header, payload, signature], _ => exact hc _ _ _ hs

end IdentityTokens.Segments
