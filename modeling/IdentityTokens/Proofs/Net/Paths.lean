import IdentityTokens.Net.Url
import IdentityTokens.Proofs.Net.Percent

/-! # Paths that go on

What becomes of a path when segments are written behind it. Each segment is encoded by itself, and
one is read as dots after that only if it was before. The path that was there is resolved by
itself, and segments that are no dots come to stand behind what is left of it. -/
namespace IdentityTokens.Url

variable {s t written : List Char} {segments rest done : List (List Char)} {c : Char}

/-! ## Segments -/

/-- Segments, with a slash before each. -/
def joined (segments : List (List Char)) : List Char := segments.flatMap fun s => '/' :: s

/-- A segment that stands for the same place, or for the one above. -/
def IsDots (s : List Char) : Prop := dots s = ['.'] ∨ dots s = ['.', '.']

instance (s : List Char) : Decidable (IsDots s) := inferInstanceAs (Decidable (_ ∨ _))

/-- A segment as it is sent. -/
def sent (s : List Char) : List Char := Percent.encode (Percent.isPlain pathMarks) s

theorem joined_cons (s : List Char) (segments : List (List Char)) :
    joined (s :: segments) = '/' :: (s ++ joined segments) :=
  List.flatMap_cons

theorem joined_append (segments rest : List (List Char)) :
    joined (segments ++ rest) = joined segments ++ joined rest :=
  List.flatMap_append

theorem sent_append (s t : List Char) : sent (s ++ t) = sent s ++ sent t :=
  Percent.encode_append _ s t

theorem sent_cons (hc : Percent.isPlain pathMarks c = true) (s : List Char) :
    sent (c :: s) = c :: sent s :=
  Percent.encode_cons_of_stays hc s

theorem sent_joined (segments : List (List Char)) :
    sent (joined segments) = joined (segments.map sent) := by
  induction segments with
  | nil => rfl
  | cons s segments ih =>
    rw [joined_cons, sent_cons (by decide), sent_append, ih, List.map_cons, joined_cons]

theorem isSlash_sent (h : ∀ c ∈ s, isSlash c = false) : ∀ c ∈ sent s, isSlash c = false := by
  have hdigit : ∀ n < 16, isSlash (Percent.upperDigit n) = false := by decide
  intro c hc
  rcases Percent.mem_encode hc with hmem | rfl | ⟨n, hn, rfl⟩
  · exact h c hmem
  · rfl
  · exact hdigit n hn

theorem cut_joined (h : ∀ s ∈ segments, ∀ c ∈ s, isSlash c = false) (t : List Char) :
    Text.cut isSlash (t ++ joined segments) = Text.cut isSlash t ++ segments := by
  induction segments generalizing t with
  | nil =>
    rw [List.append_nil]
    exact congrArg _ (List.append_nil t)
  | cons s segments ih =>
    obtain ⟨hs, hsegments⟩ := List.forall_mem_cons.mp h
    rw [joined_cons, Text.cut_append rfl, ih hsegments, Text.cut_of_forall hs, List.singleton_append]

/-! ## Dots -/

theorem dots_cons (hc : c ≠ '%') (s : List Char) : dots (c :: s) = c :: dots s := by
  rw [dots]
  exact fun _ _ h => absurd h hc

/-- A `%` is read as itself where no dot is encoded. -/
theorem dots_percent (h : ∀ d t, s = '2' :: d :: t → d ≠ 'e' ∧ d ≠ 'E') :
    ∃ t, dots ('%' :: s) = '%' :: t := by
  by_cases hs : ∃ d t, s = '2' :: d :: t
  · obtain ⟨d, t, rfl⟩ := hs
    have hd : ¬ (decide (d = 'e') || decide (d = 'E')) = true := by simpa using h d t rfl
    exact ⟨_, by rw [dots, if_neg hd]⟩
  · exact ⟨_, by rw [dots]; exact fun d t _ hdt => hs ⟨d, t, hdt⟩⟩

/-- Neither a byte of any other character nor its code is read as a dot. -/
theorem dots_encodeByte {b : UInt8} (hb : b.toNat ≠ 46) (s : List Char) :
    ∃ t, dots (Percent.encodeByte b ++ s) = '%' :: t := by
  have hhigh : ∀ n < 16, Percent.upperDigit n = '2' → n = 2 := by decide
  have hlow : ∀ n < 16, Percent.upperDigit n = 'E' → n = 14 := by decide
  have hsmall : ∀ n < 16, Percent.upperDigit n ≠ 'e' := by decide
  have hlt : b.toNat < 256 := b.toNat_lt
  refine dots_percent fun d t ht => ?_
  obtain ⟨h2, hd, -⟩ : Percent.upperDigit (b.toNat / 16) = '2' ∧
      Percent.upperDigit (b.toNat % 16) = d ∧ s = t := by simpa using ht
  have htwo := hhigh _ (by omega) h2
  rw [← hd]
  refine ⟨hsmall _ (by omega), fun he => hb ?_⟩
  have hfourteen := hlow _ (by omega) he
  omega

/-- A character is sent as it is, or as bytes that are none of a dot. -/
theorem sent_cons_cases (c : Char) (s : List Char) :
    sent (c :: s) = c :: sent s ∨
      ∃ b t, b.toNat ≠ 46 ∧ sent (c :: s) = Percent.encodeByte b ++ t := by
  cases hc : Percent.isPlain pathMarks c with
  | true => exact .inl (sent_cons hc s)
  | false =>
    have hsent : sent (c :: s) = (String.utf8EncodeChar c).flatMap Percent.encodeByte ++ sent s := by
      rw [sent, Percent.encode, List.flatMap_cons, hc]
      rfl
    obtain ⟨b, bs, hbs⟩ : ∃ b bs, String.utf8EncodeChar c = b :: bs := by
      refine List.exists_cons_of_ne_nil fun hnil => ?_
      have hlength := congrArg List.length hnil
      rw [String.length_utf8EncodeChar] at hlength
      exact absurd hlength (Nat.ne_of_gt c.utf8Size_pos)
    refine .inr ⟨b, bs.flatMap Percent.encodeByte ++ sent s, ?_, ?_⟩
    · rcases Nat.lt_or_ge c.toNat 0x80 with hlo | hhi
      · rw [Utf8.utf8EncodeChar_of_lt hlo] at hbs
        obtain ⟨rfl, -⟩ := List.cons.inj hbs
        rw [Utf8.toNat_toUInt8 hlo]
        intro hdot
        obtain rfl : c = '.' := by
          rw [← Char.ofNat_toNat c, hdot]
        cases hc
      · have hb := Utf8.le_of_mem_utf8EncodeChar hhi (hbs ▸ List.mem_cons_self)
        omega
    · rw [hsent, hbs, List.flatMap_cons, List.append_assoc]

theorem sent_eq_cons (h : sent s = c :: t) : (∃ r, s = c :: r ∧ sent r = t) ∨ c = '%' := by
  cases s with
  | nil => cases h
  | cons d s =>
    rcases sent_cons_cases d s with hsent | ⟨b, r, -, hsent⟩
    all_goals
      rw [hsent] at h
      obtain ⟨rfl, rfl⟩ := List.cons.inj h
    · exact .inl ⟨s, rfl, rfl⟩
    · exact .inr rfl

/-- No dot is encoded behind a `%` that was none before. -/
theorem dots_percent_sent (h : ∀ d t, s = '2' :: d :: t → d ≠ 'e' ∧ d ≠ 'E') :
    ∃ t, dots ('%' :: sent s) = '%' :: t := by
  refine dots_percent fun d t hdt => ?_
  rcases sent_eq_cons hdt with ⟨s', rfl, hs'⟩ | hpercent
  · rcases sent_eq_cons hs' with ⟨s'', rfl, -⟩ | rfl
    · exact h d s'' rfl
    · decide
  · cases hpercent

theorem dots_ne_replicate {k : Nat} (h : dots s = '%' :: t) : dots s ≠ List.replicate k '.' := by
  rw [h]
  cases k with
  | zero => exact nofun
  | succ k => exact fun heq => absurd (List.cons.inj heq).1 (by decide)

/-- Induction on what is read as dots: whatever is sent with a `%` of its own is none of it. -/
theorem dots_of_sent {k : Nat} (h : dots (sent s) = List.replicate k '.') :
    dots s = List.replicate k '.' := by
  induction s using dots.induct generalizing k with
  | case1 c rest hc ih =>
    have hplain : Percent.isPlain pathMarks c = true := by
      rcases (by simpa using hc : c = 'e' ∨ c = 'E') with rfl | rfl <;> decide
    rw [sent_cons (by decide), sent_cons (by decide), sent_cons hplain, dots, if_pos hc] at h
    rw [dots, if_pos hc]
    cases k with
    | zero => cases h
    | succ k => rw [List.replicate_succ, ih (List.cons.inj h).2]
  | case2 c rest hc =>
    have hno : ∀ d t, '2' :: c :: rest = '2' :: d :: t → d ≠ 'e' ∧ d ≠ 'E' := by
      rintro d t ⟨⟩
      simpa using hc
    obtain ⟨t, ht⟩ := dots_percent_sent hno
    rw [sent_cons (by decide)] at h
    exact absurd h (dots_ne_replicate ht)
  | case3 c rest hrest ih =>
    rcases sent_cons_cases c rest with hsent | ⟨b, r, hb, hsent⟩
    · rw [hsent] at h
      by_cases hc : c = '%'
      · subst hc
        obtain ⟨t, ht⟩ := dots_percent_sent fun d t hdt => (hrest d t rfl hdt).elim
        exact absurd h (dots_ne_replicate ht)
      · rw [dots_cons hc] at h ⊢
        cases k with
        | zero => cases h
        | succ k =>
          rw [List.replicate_succ] at h ⊢
          obtain ⟨rfl, hdots⟩ := List.cons.inj h
          rw [ih hdots]
    · rw [hsent] at h
      obtain ⟨t, ht⟩ := dots_encodeByte hb r
      exact absurd h (dots_ne_replicate ht)
  | case4 =>
    cases k with
    | zero => rfl
    | succ k => cases h

theorem isDots_of_sent (h : IsDots (sent s)) : IsDots s :=
  h.imp (fun h => dots_of_sent (k := 1) h) (fun h => dots_of_sent (k := 2) h)

/-- The segments so far, the last one first, with one more behind them. -/
def walk (done : List (List Char)) (s : List Char) : List (List Char) :=
  if dots s = ['.', '.'] then done.drop 1 else if dots s = ['.'] then done else s :: done

theorem resolve_cons (hrest : rest ≠ []) (done : List (List Char)) (s : List Char) :
    resolve done (s :: rest) = resolve (walk done s) rest := by
  have hempty : rest.isEmpty = false := List.isEmpty_eq_false_iff.mpr hrest
  rw [resolve, walk, hempty]
  split
  · rfl
  · split <;> rfl

theorem resolve_append (hrest : rest ≠ []) (done segments : List (List Char)) :
    resolve done (segments ++ rest) = resolve (segments.foldl walk done) rest := by
  induction segments generalizing done with
  | nil => rfl
  | cons s segments ih =>
    rw [List.cons_append, resolve_cons (List.append_ne_nil_of_right_ne_nil _ hrest), ih,
      List.foldl_cons]

theorem resolve_of_forall (h : ∀ s ∈ segments, ¬ IsDots s) (done : List (List Char)) :
    resolve done segments = done.reverse ++ segments := by
  induction segments generalizing done with
  | nil => rw [resolve, List.append_nil]
  | cons s segments ih =>
    obtain ⟨hs, hsegments⟩ := List.forall_mem_cons.mp h
    rw [IsDots, not_or] at hs
    rw [resolve, if_neg hs.2, if_neg hs.1, ih hsegments, List.reverse_cons, List.append_assoc]
    rfl

/-- What is left of the segments of a path when others follow it. -/
def stem (path : List Char) : List (List Char) :=
  ((Text.cut isSlash (sent path)).foldl walk []).reverse

/-- **Segments that are no dots stand behind what is left of the path before them.** -/
theorem normalPath_append (hc : isSlash c = true) (hne : segments ≠ [])
    (hslash : ∀ s ∈ segments, ∀ c ∈ s, isSlash c = false)
    (hdots : ∀ s ∈ segments, ¬ IsDots s) :
    normalPath (c :: (written ++ joined segments)) =
      String.ofList (joined (stem written ++ segments.map sent)) := by
  have hne' : segments.map sent ≠ [] := by simpa using hne
  have hslash' : ∀ s ∈ segments.map sent, ∀ c ∈ s, isSlash c = false :=
    List.forall_mem_map.mpr fun s hs => isSlash_sent (hslash s hs)
  have hdots' : ∀ s ∈ segments.map sent, ¬ IsDots s :=
    List.forall_mem_map.mpr fun s hs h => hdots s hs (isDots_of_sent h)
  have hresolved : resolve [] (Text.cut isSlash (sent (written ++ joined segments))) =
      stem written ++ segments.map sent := by
    rw [sent_append, sent_joined, cut_joined hslash', resolve_append hne',
      resolve_of_forall hdots', stem]
  have hhead : ((c :: (written ++ joined segments)).head?.map isSlash).getD false = true := hc
  have hempty : (stem written ++ segments.map sent).isEmpty = false :=
    List.isEmpty_eq_false_iff.mpr (List.append_ne_nil_of_right_ne_nil _ hne')
  rw [normalPath]
  simp only [hhead, if_true, List.drop_one, List.tail_cons]
  rw [← sent, hresolved, hempty]
  rfl

end IdentityTokens.Url
