import Mathlib.Data.List.TakeWhile
import IdentityTokens.Proofs.Net.Paths

/-! # Addresses that go on

Where an address has come to its path, what is written behind it changes nothing but the path:
scheme, login, host and number are read as before, and no query or fragment begins. So an address
that can be read before can be read then, and its path is the one that goes on. -/
namespace IdentityTokens.Url

variable {s t r rest : List Char} {segments : List (List Char)} {scheme base : String} {c : Char}

/-! ## What goes on -/

/-- No query begins in it, and no fragment. -/
def Unmarked (s : List Char) : Prop := '?' ∉ s ∧ '#' ∉ s

instance (s : List Char) : Decidable (Unmarked s) := inferInstanceAs (Decidable (_ ∧ _))

theorem unmarked_append : Unmarked (s ++ t) ↔ Unmarked s ∧ Unmarked t := by
  simp only [Unmarked, List.mem_append, not_or]
  exact and_and_and_comm

theorem Unmarked.of_subset (h : Unmarked s) (ht : ∀ c ∈ t, c ∈ s) : Unmarked t :=
  ⟨fun hc => h.1 (ht _ hc), fun hc => h.2 (ht _ hc)⟩

/-- A segment that is one, however it is read. -/
structure IsName (s : List Char) : Prop where
  noSlash : ∀ c ∈ s, isSlash c = false
  noBreak : ∀ c ∈ s, isBreak c = false
  unmarked : Unmarked s
  noDots : ¬ IsDots s

theorem isName_of_all (h : s.all (fun c => !isSlash c && !isBreak c) = true)
    (hmarks : Unmarked s) (hdots : ¬ IsDots s) : IsName s := by
  simp only [List.all_eq_true, Bool.and_eq_true, Bool.not_eq_true'] at h
  exact ⟨fun c hc => (h c hc).1, fun c hc => (h c hc).2, hmarks, hdots⟩

/-- Segments that may follow a path, the last one without a blank at the end. -/
structure Follows (segments : List (List Char)) : Prop where
  ne_nil : segments ≠ []
  names : ∀ s ∈ segments, IsName s
  ends : ∀ c ∈ (joined segments).getLast?, ¬ c ≤ ' '

theorem Follows.joined_eq (h : Follows segments) : ∃ r, joined segments = '/' :: r := by
  obtain ⟨s, rest, rfl⟩ := List.exists_cons_of_ne_nil h.ne_nil
  exact ⟨_, joined_cons s rest⟩

theorem Follows.unmarked (h : Follows segments) : Unmarked (joined segments) := by
  constructor <;> intro hmark
  all_goals
    obtain ⟨s, hs, hc⟩ := List.mem_flatMap.mp hmark
    rcases List.mem_cons.mp hc with hslash | hc
    · cases hslash
  · exact (h.names s hs).unmarked.1 hc
  · exact (h.names s hs).unmarked.2 hc

theorem Follows.noBreak (h : Follows segments) : ∀ c ∈ joined segments, isBreak c = false := by
  intro c hc
  obtain ⟨s, hs, hmem⟩ := List.mem_flatMap.mp hc
  rcases List.mem_cons.mp hmem with rfl | hmem
  · rfl
  · exact (h.names s hs).noBreak c hmem

/-! ## Reading on -/

theorem dropWhile_append_of_head {p : Char → Bool} (hc : p c = false) (s t : List Char) :
    (s ++ c :: t).dropWhile p = s.dropWhile p ++ c :: t := by
  induction s with
  | nil => simp [hc]
  | cons d s ih =>
    rw [List.cons_append, List.dropWhile_cons, List.dropWhile_cons, ih]
    split <;> rfl

theorem takeWhile_append_of_head {p : Char → Bool} (hc : p c = false) (s t : List Char) :
    (s ++ c :: t).takeWhile p = s.takeWhile p := by
  induction s with
  | nil => simp [hc]
  | cons d s ih => rw [List.cons_append, List.takeWhile_cons, List.takeWhile_cons, ih]

/-- The beginning of an address, without blanks and controls before it and without breaks. -/
def opening (s : List Char) : List Char :=
  (s.dropWhile fun c => decide (c ≤ ' ')).filter fun c => !isBreak c

theorem opening_append (s t : List Char) :
    opening (s ++ '/' :: t) = opening s ++ '/' :: t.filter fun c => !isBreak c := by
  rw [opening, dropWhile_append_of_head (by decide), List.filter_append,
    List.filter_cons_of_pos (by decide), opening]

theorem cleaned_append (h : Follows segments) (s : List Char) :
    cleaned (s ++ joined segments) = opening s ++ joined segments := by
  obtain ⟨r, hr⟩ := h.joined_eq
  obtain ⟨init, last, hlast⟩ := List.eq_nil_or_concat (joined segments) |>.resolve_left
    (by rw [hr]; exact List.cons_ne_nil _ _)
  have hend : decide (last ≤ ' ') = false := decide_eq_false (h.ends last (by simp [hlast]))
  have hback (d : List Char) : ((d ++ joined segments).reverse.dropWhile
      fun c => decide (c ≤ ' ')).reverse = d ++ joined segments := by
    rw [hlast, List.concat_eq_append, List.reverse_append, List.reverse_append,
      List.reverse_singleton, List.singleton_append, List.cons_append, List.dropWhile_cons, hend]
    simp
  have hfront : (s ++ joined segments).dropWhile (fun c => decide (c ≤ ' ')) =
      (s.dropWhile fun c => decide (c ≤ ' ')) ++ joined segments := by
    rw [hr]
    exact dropWhile_append_of_head (by decide) s r
  have hbreaks : (joined segments).filter (fun c => !isBreak c) = joined segments := by
    refine List.filter_eq_self.mpr fun c hc => ?_
    rw [h.noBreak c hc]
    rfl
  rw [cleaned, hfront, hback, List.filter_append, hbreaks, opening]

/-- The scheme ends before any slash. -/
theorem scheme?_append (s t : List Char) :
    scheme? (s ++ '/' :: t) = (scheme? s).map fun p => (p.1, p.2 ++ '/' :: t) := by
  cases s with
  | nil => rfl
  | cons c s =>
    rw [scheme?, scheme?, dropWhile_append_of_head (by decide),
      takeWhile_append_of_head (by decide)]
    generalize (c :: s).dropWhile _ = behind
    rw [List.cons_append, List.head?_cons, List.head?_cons, Option.map_some]
    cases c.isAlpha with
    | false => rfl
    | true =>
      cases behind with
      | nil => rfl
      | cons d behind =>
        by_cases hd : d = ':'
        · subst hd
          rfl
        · simp [hd]

theorem mem_of_scheme? (h : scheme? s = some (scheme, rest)) (hc : c ∈ rest) : c ∈ s := by
  rw [scheme?] at h
  split at h
  · rename_i hdrop
    cases h
    exact (List.dropWhile_suffix _).subset (hdrop ▸ List.mem_cons_of_mem _ hc)
  · cases h

theorem mem_of_mem_opening (hc : c ∈ opening s) : c ∈ s :=
  (List.dropWhile_suffix _).subset (List.mem_filter.mp hc).1

/-- The address has come to its path, and to nothing behind it. -/
structure InPath (s : List Char) : Prop where
  unmarked : Unmarked s
  path : ∀ scheme rest, scheme? (opening s) = some (scheme, rest) →
    ∃ c ∈ rest.dropWhile isSlash, isSlash c = true

/-- An address of the web from what stands before its path, and the path. -/
def ofPlace? (scheme : String) (place : List Char) (path : String) : Option Url := do
  let (login, place) := atLast place
  let (host, number) := Host.atColon place
  let host ← Host.normal? host
  let number ← portNumber? number
  return {
    scheme := scheme
    login := login.bind login?
    host := host
    portNumber := number.filter fun n => impliedPortNumber? scheme ≠ some n
    path := path
    query := none
    fragment := none }

theorem webParts?_eq {place written : List Char}
    (hrest : rest.dropWhile isSlash = place ++ c :: written)
    (hplace : ∀ d ∈ place, isSlash d = false) (hc : isSlash c = true)
    (hmarks : Unmarked (place ++ c :: written)) (scheme : String) :
    webParts? scheme rest = ofPlace? scheme place (normalPath (c :: written)) := by
  obtain ⟨hplaceMarks, hpathMarks⟩ := unmarked_append.mp hmarks
  have hends : ∀ d ∈ place, (!(isSlash d || decide (d = '?') || decide (d = '#'))) = true := by
    intro d hd
    have hq : d ≠ '?' := fun heq => hplaceMarks.1 (heq ▸ hd)
    have hf : d ≠ '#' := fun heq => hplaceMarks.2 (heq ▸ hd)
    simp [hplace d hd, hq, hf]
  have hq : ∀ d ∈ c :: written, decide (d ≠ '?') = true := fun d hd =>
    decide_eq_true fun heq => hpathMarks.1 (heq ▸ hd)
  have hf : ∀ d ∈ c :: written, decide (d ≠ '#') = true := fun d hd =>
    decide_eq_true fun heq => hpathMarks.2 (heq ▸ hd)
  have hstart : (place ++ c :: written).takeWhile
      (fun c => !(isSlash c || decide (c = '?') || decide (c = '#'))) = place := by
    rw [takeWhile_append_of_head (by simp [hc]), List.takeWhile_eq_self_iff.mpr hends]
  have htail : (place ++ c :: written).dropWhile
      (fun c => !(isSlash c || decide (c = '?') || decide (c = '#'))) = c :: written := by
    rw [dropWhile_append_of_head (by simp [hc]), List.dropWhile_eq_nil_iff.mpr hends,
      List.nil_append]
  rw [webParts?, hrest, ofPlace?]
  dsimp only
  rw [hstart, htail, List.takeWhile_eq_self_iff.mpr hf, List.takeWhile_eq_self_iff.mpr hq,
    List.dropWhile_eq_nil_iff.mpr hf, List.dropWhile_eq_nil_iff.mpr hq]
  rfl

theorem ofPlace?_eq (scheme : String) (place : List Char) :
    (∀ path, ofPlace? scheme place path = none) ∨
      ∃ u : Url, u.query = none ∧ ∀ path, ofPlace? scheme place path = some { u with path := path } := by
  unfold ofPlace?
  rcases atLast place with ⟨login, place⟩
  dsimp only
  rcases Host.atColon place with ⟨host, number⟩
  dsimp only
  rcases Host.normal? host with _ | host
  · exact .inl fun _ => rfl
  rcases portNumber? number with _ | number
  · exact .inl fun _ => rfl
  · exact .inr ⟨⟨scheme, login.bind login?, host,
      number.filter fun n => impliedPortNumber? scheme ≠ some n, "", none, none⟩,
      rfl, fun _ => rfl⟩

theorem exists_first {p : Char → Bool} (h : ∃ c ∈ s, p c = true) : ∃ before c after,
    (∀ d ∈ before, p d = false) ∧ p c = true ∧ s = before ++ c :: after := by
  have hsplit := List.takeWhile_append_dropWhile (p := fun c => !p c) (l := s)
  rcases hdrop : s.dropWhile (fun c => !p c) with _ | ⟨c, after⟩
  · obtain ⟨c, hc, hp⟩ := h
    have hnone := List.dropWhile_eq_nil_iff.mp hdrop c hc
    rw [hp] at hnone
    cases hnone
  · have hc := List.head?_dropWhile_not (fun c => !p c) s
    rw [hdrop] at hc hsplit
    refine ⟨_, c, after, fun d hd => ?_, by simpa using hc, hsplit.symm⟩
    simpa using List.mem_takeWhile_imp hd

/-- The address with other segments for its path. -/
def withPath (u : Url) (segments : List (List Char)) : Url :=
  { u with path := String.ofList (joined segments) }

theorem webParts?_append (hmarks : Unmarked rest)
    (hpath : ∃ c ∈ rest.dropWhile isSlash, isSlash c = true) (scheme : String) :
    (∀ segments, Follows segments → webParts? scheme (rest ++ joined segments) = none) ∨
    ∃ (u : Url) (written : List Char), u.query = none ∧ ∀ segments, Follows segments →
      webParts? scheme (rest ++ joined segments) =
        some (u.withPath (stem written ++ segments.map sent)) := by
  obtain ⟨place, c, written, hplace, hc, hrest⟩ := exists_first hpath
  have hread (segments : List (List Char)) (h : Follows segments) :
      webParts? scheme (rest ++ joined segments) = ofPlace? scheme place
        (String.ofList (joined (stem written ++ segments.map sent))) := by
    have hdrop : (rest ++ joined segments).dropWhile isSlash =
        place ++ c :: (written ++ joined segments) := by
      rw [List.dropWhile_append, hrest, if_neg (by simp), List.append_assoc, List.cons_append]
    have hmarks' : Unmarked (place ++ c :: (written ++ joined segments)) := by
      rw [← List.cons_append, ← List.append_assoc, ← hrest, unmarked_append]
      exact ⟨hmarks.of_subset (List.dropWhile_suffix _).subset, h.unmarked⟩
    rw [webParts?_eq hdrop hplace hc hmarks', normalPath_append hc h.ne_nil
      (fun s hs => (h.names s hs).noSlash) fun s hs => (h.names s hs).noDots]
  rcases ofPlace?_eq scheme place with hnone | ⟨u, hquery, hu⟩
  · exact .inl fun segments h => (hread segments h).trans (hnone _)
  · exact .inr ⟨u, written, hquery, fun segments h => (hread segments h).trans (hu _)⟩

/-- **Whatever follows the path of an address changes nothing but the path**, if the address can be
read at all. -/
theorem parse_append (h : InPath base.toList) :
    (∀ segments, Follows segments →
      ∃ f, parse (base ++ String.ofList (joined segments)) = .error f) ∨
    ∃ (u : Url) (written : List Char), u.query = none ∧ ∀ segments, Follows segments →
      parse (base ++ String.ofList (joined segments)) =
        .ok (u.withPath (stem written ++ segments.map sent)) := by
  have hscheme (segments : List (List Char)) (hf : Follows segments) :
      scheme? (cleaned (base ++ String.ofList (joined segments)).toList) =
        (scheme? (opening base.toList)).map fun p => (p.1, p.2 ++ joined segments) := by
    obtain ⟨r, hr⟩ := hf.joined_eq
    rw [String.toList_append, String.toList_ofList, cleaned_append hf, hr, scheme?_append]
  unfold parse
  rcases hs : scheme? (opening base.toList) with _ | ⟨scheme, rest⟩
  · refine .inl fun segments hf => ⟨.unreadable, ?_⟩
    rw [hscheme segments hf, hs]
    rfl
  have hmarks : Unmarked rest := h.unmarked.of_subset fun c hc =>
    mem_of_mem_opening (mem_of_scheme? hs hc)
  rcases webParts?_append hmarks (h.path scheme rest hs) scheme with hnone | ⟨u, written, hquery, hu⟩
  · refine .inl fun segments hf => ?_
    rw [hscheme segments hf, hs, Option.map_some]
    dsimp only
    rw [hnone segments hf]
    split
    · exact ⟨_, rfl⟩
    · exact ⟨_, rfl⟩
  by_cases hweb : (impliedPortNumber? scheme).isSome = true ∧
      (scheme = "http" || scheme = "https") = true
  · refine .inr ⟨u, written, hquery, fun segments hf => ?_⟩
    rw [hscheme segments hf, hs, Option.map_some]
    dsimp only
    rw [if_pos hweb.1, hu segments hf]
    exact if_pos hweb.2
  · refine .inl fun segments hf => ?_
    rw [hscheme segments hf, hs, Option.map_some]
    dsimp only
    rw [hu segments hf]
    split
    · rename_i himplied
      exact ⟨_, if_neg fun hhttp => hweb ⟨himplied, hhttp⟩⟩
    · exact ⟨_, rfl⟩

theorem target_withPath_inj {u : Url} (h : u.query = none) {names names' : List (List Char)} :
    (u.withPath names).target = (u.withPath names').target ↔ joined names = joined names' := by
  refine ⟨fun heq => ?_, fun heq => by rw [withPath, withPath, heq]⟩
  have hlist := congrArg String.toList heq
  simp only [target, withPath, h, String.toList_append, String.toList_ofList] at hlist
  exact List.append_cancel_left (List.append_cancel_right hlist)

end IdentityTokens.Url
