import IdentityTokens.Json.Basic

/-! # Repeated members, settled

Settling leaves each name once, with the last value that was given to it. So what is looked up in
settled members is what comes first from the back of the unsettled ones. -/
namespace IdentityTokens.Json

variable {α : Type} {name : String} {ms : List (String × α)}

theorem lookup_put (n : String) (v : α) (ms : List (String × α)) :
    lookup name (put n v ms) = if n = name then some v else lookup name ms := by
  induction ms with
  | nil => rfl
  | cons m ms ih =>
    obtain ⟨k, w⟩ := m
    by_cases hk : k = n
    · subst hk
      rw [put, if_pos rfl, lookup, lookup]
      split <;> rfl
    · rw [put, if_neg hk, lookup, lookup, ih]
      by_cases hname : k = name
      · rw [if_pos hname, if_pos hname, if_neg (fun h => hk (hname.trans h.symm))]
      · rw [if_neg hname, if_neg hname]

theorem lookup_append (ms ns : List (String × α)) :
    lookup name (ms ++ ns) = (lookup name ms).or (lookup name ns) := by
  induction ms with
  | nil => rfl
  | cons m ms ih =>
    obtain ⟨k, w⟩ := m
    rw [List.cons_append, lookup, lookup, ih]
    split <;> rfl

theorem lookup_foldl_put (ms done : List (String × α)) :
    lookup name (ms.foldl (fun done m => put m.1 m.2 done) done) =
      (lookup name ms.reverse).or (lookup name done) := by
  induction ms generalizing done with
  | nil => rfl
  | cons m ms ih =>
    obtain ⟨k, w⟩ := m
    have hlast : lookup name [(k, w)] = if k = name then some w else none := rfl
    rw [List.foldl_cons, ih, lookup_put, List.reverse_cons, lookup_append, hlast]
    by_cases hk : k = name
    · rw [if_pos hk, if_pos hk, Option.or_assoc, Option.some_or]
    · rw [if_neg hk, if_neg hk, Option.or_none]

/-- **The last value counts.** -/
theorem lookup_settleMembers (name : String) (ms : List (String × α)) :
    lookup name (settleMembers ms) = lookup name ms.reverse := by
  rw [settleMembers, lookup_foldl_put]
  exact Option.or_none

theorem mem_of_lookup {v : α} (h : lookup name ms = some v) : (name, v) ∈ ms := by
  induction ms with
  | nil => cases h
  | cons m ms ih =>
    obtain ⟨k, w⟩ := m
    rw [lookup] at h
    split at h
    · rename_i hk
      cases h
      rw [hk]
      exact List.mem_cons_self
    · exact List.mem_cons_of_mem _ (ih h)

/-- Of distinct names each is looked up where it stands. -/
theorem lookup_eq_some_iff (hnodup : (names ms).Nodup) {v : α} :
    lookup name ms = some v ↔ (name, v) ∈ ms := by
  refine ⟨mem_of_lookup, fun h => ?_⟩
  induction ms with
  | nil => cases h
  | cons m ms ih =>
    obtain ⟨k, w⟩ := m
    obtain ⟨hk, hnodup⟩ := List.nodup_cons.mp hnodup
    rw [lookup]
    rcases List.mem_cons.mp h with heq | h
    · cases heq
      exact if_pos rfl
    · have hne : k ≠ name := by
        rintro rfl
        exact hk (List.mem_map.mpr ⟨_, h, rfl⟩)
      rw [if_neg hne]
      exact ih hnodup h

theorem lookup_eq_none_iff : lookup name ms = none ↔ name ∉ names ms := by
  induction ms with
  | nil => exact iff_of_true rfl List.not_mem_nil
  | cons m ms ih =>
    obtain ⟨k, w⟩ := m
    rw [lookup, names, List.map_cons, List.mem_cons]
    split
    · rename_i hk
      exact iff_of_false nofun (fun h => h (.inl hk.symm))
    · rename_i hk
      rw [ih, not_or]
      exact ⟨fun h => ⟨fun he => hk he.symm, h⟩, fun h => h.2⟩

theorem names_put (n : String) (v : α) (ms : List (String × α)) :
    names (put n v ms) = if n ∈ names ms then names ms else names ms ++ [n] := by
  induction ms with
  | nil => rfl
  | cons m ms ih =>
    obtain ⟨k, w⟩ := m
    have hcons : ∀ (u : α) (l : List (String × α)), names ((k, u) :: l) = k :: names l :=
      fun _ _ => rfl
    rw [put]
    by_cases hk : k = n
    · subst hk
      rw [if_pos rfl, hcons, hcons, if_pos List.mem_cons_self]
    · rw [if_neg hk, hcons, hcons, ih]
      by_cases hn : n ∈ names ms
      · rw [if_pos hn, if_pos (List.mem_cons_of_mem k hn)]
      · rw [if_neg hn, if_neg, List.cons_append]
        rw [List.mem_cons, not_or]
        exact ⟨fun he => hk he.symm, hn⟩

theorem nodup_names_put (n : String) (v : α) (h : (names ms).Nodup) :
    (names (put n v ms)).Nodup := by
  rw [names_put]
  split
  · exact h
  · rename_i hn
    rw [List.nodup_append]
    refine ⟨h, List.nodup_cons.mpr ⟨List.not_mem_nil, List.nodup_nil⟩, ?_⟩
    rintro a ha b hb rfl
    rw [List.mem_singleton] at hb
    exact hn (hb ▸ ha)

theorem nodup_names_settleMembers (ms : List (String × α)) : (names (settleMembers ms)).Nodup := by
  have hfold : ∀ done : List (String × α), (names done).Nodup →
      (names (ms.foldl (fun done m => put m.1 m.2 done) done)).Nodup := by
    induction ms with
    | nil => exact fun _ h => h
    | cons m ms ih => exact fun done h => ih _ (nodup_names_put m.1 m.2 h)
  exact hfold [] List.nodup_nil

/-- No name is lost and none comes in. -/
theorem mem_names_settleMembers : name ∈ names (settleMembers ms) ↔ name ∈ names ms := by
  rw [← Decidable.not_iff_not, ← lookup_eq_none_iff, lookup_settleMembers, lookup_eq_none_iff,
    names, names, List.map_reverse, List.mem_reverse]

theorem mem_settleMembers {v : α} :
    (name, v) ∈ settleMembers ms ↔ lookup name ms.reverse = some v := by
  rw [← lookup_eq_some_iff (nodup_names_settleMembers ms), lookup_settleMembers]

/-- What is looked up stands first among the members of its name. -/
theorem lookup_eq_filter (name : String) (ms : List (String × α)) :
    lookup name ms = ((ms.filter fun m => m.1 = name).head?).map (·.2) := by
  induction ms with
  | nil => rfl
  | cons m ms ih =>
    obtain ⟨k, w⟩ := m
    rw [lookup, List.filter_cons]
    by_cases hk : k = name
    · simp [hk]
    · simp [hk, ih]

theorem lookup_filter (keep : String → Bool) (name : String)
    (ms : List (String × α)) :
    lookup name (ms.filter fun m => keep m.1) = if keep name then lookup name ms else none := by
  induction ms with
  | nil => exact (ite_self none).symm
  | cons m ms ih =>
    obtain ⟨n, w⟩ := m
    rw [List.filter_cons, lookup]
    by_cases hn : n = name
    · subst hn
      by_cases hkeep : keep n = true
      · simp [hkeep, lookup]
      · simp [hkeep, ih]
    · by_cases hkeep : keep n = true <;> simp [hkeep, lookup, hn, ih]

/-! ## Taking out -/

theorem getLast?_append_dropLast_perm {β : Type} (l : List β) :
    (l.getLast?.toList ++ l.dropLast).Perm l := by
  rcases List.eq_nil_or_concat l with rfl | ⟨init, last, rfl⟩
  · exact .refl _
  · rw [List.concat_eq_append, List.getLast?_concat, List.dropLast_concat]
    exact List.perm_append_comm

/-- The others stay, in whatever order. -/
theorem swapErase_perm (hnodup : (names ms).Nodup) (name : String) :
    (swapErase name ms).Perm (ms.filter fun m => m.1 ≠ name) := by
  induction ms with
  | nil => exact .refl _
  | cons m ms ih =>
    obtain ⟨k, w⟩ := m
    obtain ⟨hk, hnodup⟩ := List.nodup_cons.mp hnodup
    rw [swapErase]
    by_cases hname : k = name
    · subst hname
      have hothers : ms.filter (fun m => decide (m.1 ≠ k)) = ms := by
        refine List.filter_eq_self.mpr fun m hm => decide_eq_true ?_
        rintro rfl
        exact hk (List.mem_map.mpr ⟨m, hm, rfl⟩)
      rw [if_pos rfl, List.filter_cons_of_neg (by simp), hothers]
      exact getLast?_append_dropLast_perm ms
    · rw [if_neg hname, List.filter_cons_of_pos (by simpa using hname)]
      exact (ih hnodup).cons _

/-- All but the names that are taken out one after the other stay. -/
theorem swapEraseAll_perm (hnodup : (names ms).Nodup) (taken : List String) :
    (swapEraseAll taken ms).Perm
      (ms.filter fun m => !taken.contains m.1) := by
  induction taken generalizing ms with
  | nil => exact .of_eq (List.filter_eq_self.mpr fun _ _ => rfl).symm
  | cons n taken ih =>
    have hperm := swapErase_perm hnodup n
    have hnodup' : (names (swapErase n ms)).Nodup :=
      ((hperm.map _).nodup_iff).mpr (hnodup.sublist (List.filter_sublist.map _))
    refine (ih hnodup').trans ((hperm.filter _).trans (.of_eq ?_))
    rw [List.filter_filter]
    refine List.filter_congr fun m _ => ?_
    rw [List.contains_cons]
    by_cases hm : m.1 = n <;> simp [hm]

theorem lookup_of_perm {ns : List (String × α)} (hnodup : (names ms).Nodup) (h : ms.Perm ns) :
    lookup name ms = lookup name ns := by
  have hnodup' : (names ns).Nodup := (h.map _).nodup_iff.mp hnodup
  refine Option.ext fun v => ?_
  rw [lookup_eq_some_iff hnodup, lookup_eq_some_iff hnodup', h.mem_iff]

/-- Nothing is found under the names that were taken out, and all else is found as before. -/
theorem lookup_swapEraseAll (hnodup : (names ms).Nodup) (taken : List String) (name : String) :
    lookup name (swapEraseAll taken ms) =
      if taken.contains name then none else lookup name ms := by
  have hperm := swapEraseAll_perm hnodup taken
  have hkept : (names (ms.filter fun m => !taken.contains m.1)).Nodup :=
    hnodup.sublist (List.filter_sublist.map _)
  rw [← lookup_of_perm hkept hperm.symm, lookup_filter fun n => !taken.contains n]
  cases taken.contains name <;> rfl

/-! ## Settled values -/

theorem settledMembers_eq (ms : List (String × Json)) :
    settledMembers ms = ms.map fun m => (m.1, m.2.settled) := by
  induction ms with
  | nil => rfl
  | cons m ms ih =>
    obtain ⟨k, w⟩ := m
    rw [settledMembers, ih]
    rfl

theorem settledItems_eq (items : List Json) : settledItems items = items.map settled := by
  induction items with
  | nil => rfl
  | cons v items ih =>
    rw [settledItems, ih]
    rfl

end IdentityTokens.Json
