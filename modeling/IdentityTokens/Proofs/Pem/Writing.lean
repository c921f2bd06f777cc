import IdentityTokens.Pem.Armor
import IdentityTokens.Pem.Strict
import IdentityTokens.Proofs.Base64
import IdentityTokens.Proofs.Text.Blank

/-! # Armored documents, written

A document is written between two marks with its label, its bytes in lines of 64 symbols. It is
read as it was written, in the strict way and in the lenient one: no mark begins within a label or a
line, and lines are joined again. -/
namespace IdentityTokens

theorem Text.bytes_append (s t : String) : bytes (s ++ t) = bytes s ++ bytes t := by
  rw [bytes, String.toList_append, Utf8.encode_append]
  rfl

/-- A text that is read strictly or not is the same text. -/
theorem Text.ofBytesLossy_bytes (s : String) : ofBytesLossy (bytes s) = s := by
  have hsame : s.toList.map ((·.getD '\ufffd') ∘ some) = s.toList := List.map_id _
  rw [ofBytesLossy, bytes, Utf8.decodeLossy, Utf8.pieces_encode, List.map_map, hsame,
    String.ofList_toList]

namespace Pem

open Document

/-- Symbols in lines, all full but the last. -/
def lines {α : Type} (lineEnd : α) (s : List α) : List α :=
  if s.length ≤ lineLength then s
  else s.take lineLength ++ lineEnd :: lines lineEnd (s.drop lineLength)
termination_by s.length
decreasing_by
  simp only [List.length_drop, lineLength] at *
  omega

/-- A document as a text. -/
def armored (label : String) (content : Bytes) : String :=
  "-----BEGIN " ++ label ++ "-----\n" ++
    String.ofList (lines '\n' (Base64.encode Base64.standard content)) ++
    "\n-----END " ++ label ++ "-----"

section Lines

variable {α β : Type} {lineEnd : α} {s : List α}

theorem lines_of_le (h : s.length ≤ lineLength) : lines lineEnd s = s := by
  rw [lines, if_pos h]

theorem lines_of_lt (h : ¬ s.length ≤ lineLength) :
    lines lineEnd s = s.take lineLength ++ lineEnd :: lines lineEnd (s.drop lineLength) := by
  rw [lines, if_neg h]

theorem map_lines (f : α → β) (s : List α) :
    (lines lineEnd s).map f = lines (f lineEnd) (s.map f) := by
  induction s using lines.induct with
  | case1 s h => rw [lines_of_le h, lines_of_le (by rwa [List.length_map])]
  | case2 s h ih =>
    have hmap : ¬ (s.map f).length ≤ lineLength := by rwa [List.length_map]
    rw [lines_of_lt h, lines_of_lt hmap, List.map_append, List.map_cons, ih, List.map_take,
      List.map_drop]

theorem mem_lines {x : α} (h : x ∈ lines lineEnd s) : x = lineEnd ∨ x ∈ s := by
  induction s using lines.induct with
  | case1 s hs =>
    rw [lines_of_le hs] at h
    exact .inr h
  | case2 s hs ih =>
    rw [lines_of_lt hs, List.mem_append, List.mem_cons] at h
    rcases h with h | h | h
    · exact .inr (List.mem_of_mem_take h)
    · exact .inl h
    · exact (ih h).imp_right List.mem_of_mem_drop

theorem exists_lines_cons (lineEnd x : α) (s : List α) :
    ∃ more, lines lineEnd (x :: s) = x :: more := by
  rw [lines]
  split
  · exact ⟨s, rfl⟩
  · exact ⟨_, rfl⟩

theorem lines_ne_nil (h : s ≠ []) : lines lineEnd s ≠ [] := by
  obtain ⟨x, s, rfl⟩ := List.exists_cons_of_ne_nil h
  obtain ⟨more, hmore⟩ := exists_lines_cons lineEnd x s
  rw [hmore]
  exact List.cons_ne_nil x more

/-- Without the line ends there are the symbols. -/
theorem filter_lines {p : α → Bool} (hend : p lineEnd = false) (hs : ∀ x ∈ s, p x = true) :
    (lines lineEnd s).filter p = s := by
  induction s using lines.induct with
  | case1 s h => rw [lines_of_le h, List.filter_eq_self.mpr hs]
  | case2 s h ih =>
    have htake : (s.take lineLength).filter p = s.take lineLength :=
      List.filter_eq_self.mpr fun x hx => hs x (List.mem_of_mem_take hx)
    have hdrop := ih fun x hx => hs x (List.mem_of_mem_drop hx)
    rw [lines_of_lt h, List.filter_append, htake, List.filter_cons_of_neg (by simp [hend]), hdrop,
      List.take_append_drop]

end Lines

/-- Lines are joined again. -/
theorem symbols_lines {fuel : Nat} {s : Bytes} (hs : s ≠ []) (hfuel : (lines lf s).length ≤ fuel) :
    symbols fuel (lines lf s) = some s := by
  induction fuel generalizing s with
  | zero => exact absurd (List.length_eq_zero_iff.mp (Nat.le_zero.mp hfuel)) (lines_ne_nil hs)
  | succ fuel ih =>
    by_cases h : s.length ≤ lineLength
    · rw [lines_of_le h, symbols, if_pos h]
    · have htake : (s.take lineLength).length = lineLength := by
        rw [List.length_take]
        omega
      have hmore : s.drop lineLength ≠ [] := by
        intro hnil
        rw [List.drop_eq_nil_iff] at hnil
        exact h hnil
      rw [lines_of_lt h, List.length_append, List.length_cons, htake] at hfuel
      have hrest := ih hmore (by omega)
      have hlong : ¬ (s.take lineLength ++ lf :: lines lf (s.drop lineLength)).length ≤
          lineLength := by
        rw [List.length_append, List.length_cons, htake]
        omega
      rw [lines_of_lt h, symbols, if_neg hlong, List.drop_left' htake, List.take_left' htake]
      simp only [dropLineEnd?, if_true, bind, Option.bind, hrest, List.take_append_drop]

/-! ## The bytes of a document -/

/-- The symbols of a document's bytes. -/
def inSymbols (content : Bytes) : Bytes := (Base64.encode Base64.standard content).map Char.toUInt8

/-- Bytes that no symbol is: spaces, line ends and dashes. -/
def breaks : Bytes := [' '.toUInt8, '\t'.toUInt8, lf, cr, '-'.toUInt8]

section Symbols

variable {label : String} {content : Bytes} {x : UInt8}

theorem symbol_not_mem_breaks : ∀ n < 64, (Base64.standard.symbol n).toUInt8 ∉ breaks := by decide

theorem isBlank_symbol : ∀ n < 64, Text.isBlank (Base64.standard.symbol n) = false := by decide

theorem not_mem_breaks (h : x ∈ inSymbols content) : x ∉ breaks := by
  obtain ⟨c, hc, rfl⟩ := List.mem_map.mp h
  rcases Base64.mem_encode hc with rfl | ⟨n, hn, rfl⟩
  · decide
  · exact symbol_not_mem_breaks n hn

theorem isBlank_of_mem_encode {c : Char} (h : c ∈ Base64.encode Base64.standard content) :
    Text.isBlank c = false := by
  rcases Base64.mem_encode h with rfl | ⟨n, hn, rfl⟩
  · decide
  · exact isBlank_symbol n hn

theorem decode_inSymbols (content : Bytes) :
    Base64.decode Base64.standard (inSymbols content) = .ok content := by
  rw [inSymbols, ← Base64.bytes_encodeText Base64.sound_standard]
  exact Base64.decodeText_encodeText Base64.sound_standard content

theorem inSymbols_ne_nil (h : content ≠ []) : inSymbols content ≠ [] := by
  obtain ⟨b, rest, rfl⟩ := List.exists_cons_of_ne_nil h
  rw [inSymbols, Ne, List.map_eq_nil_iff]
  exact Base64.encode_ne_nil

theorem encode_lines (content : Bytes) :
    Utf8.encode (lines '\n' (Base64.encode Base64.standard content)) =
      lines lf (inSymbols content) := by
  have hascii : ∀ c ∈ lines '\n' (Base64.encode Base64.standard content), c.toNat < 0x80 := by
    intro c hc
    rcases mem_lines hc with rfl | hc
    · decide
    · exact Base64.ascii_of_mem_encode Base64.sound_standard hc
  rw [Utf8.encode_of_ascii hascii, map_lines]
  rfl

/-- Of the bytes that no symbol is, lines hold line ends alone. -/
theorem not_mem_lines (hx : x ∈ breaks) (hlf : x ≠ lf) : x ∉ lines lf (inSymbols content) := by
  intro h
  rcases mem_lines h with rfl | h
  · exact hlf rfl
  · exact not_mem_breaks h hx

theorem not_mem_lines_lf (hx : x ∈ breaks) (hlf : x ≠ lf) :
    x ∉ lines lf (inSymbols content) ++ [lf] := by
  intro h
  rcases List.mem_append.mp h with h | h
  · exact not_mem_lines hx hlf h
  · exact hlf (List.mem_singleton.mp h)

/-- There are no blanks around a document. -/
theorem trim_armored (label : String) (content : Bytes) :
    Text.trim (armored label content) = armored label content := by
  have hends : ∃ s, (armored label content).toList = '-' :: (s ++ ['-']) := by
    have hbegin : "-----BEGIN ".toList = '-' :: "----BEGIN ".toList := rfl
    have hend : "-----".toList = "----".toList ++ ['-'] := rfl
    delta armored
    simp only [String.toList_append, hbegin, hend, List.cons_append, ← List.append_assoc]
    exact ⟨_, rfl⟩
  obtain ⟨s, hs⟩ := hends
  have hdash : Text.isBlank '-' = false := by decide
  rw [Text.trim, hs, Text.trimChars_of_ends hdash hdash, ← hs, String.ofList_toList]

/-- Where the marks stand. -/
theorem bytes_armored (label : String) (content : Bytes) :
    Text.bytes (armored label content) =
      opening ++ (Text.bytes label ++ (dashes ++ lf :: (lines lf (inSymbols content) ++
        lf :: (closing ++ (Text.bytes label ++ dashes))))) := by
  have hbegin : Text.bytes "-----\n" = dashes ++ [lf] := rfl
  have hend : Text.bytes "\n-----END " = lf :: closing := rfl
  have hlines : Text.bytes (String.ofList (lines '\n' (Base64.encode Base64.standard content))) =
      lines lf (inSymbols content) := by
    rw [Text.bytes, String.toList_ofList, encode_lines]
  delta armored
  simp only [Text.bytes_append, hbegin, hend, hlines, List.append_assoc, List.cons_append,
    List.nil_append]
  rfl

end Symbols

/-! ## Strict reading -/

namespace Document

section Strict

variable {part r : Bytes} {l : Bytes} {content : Bytes}

theorem isPrefixOf_append (part r : Bytes) : part.isPrefixOf (part ++ r) = true :=
  List.isPrefixOf_iff_prefix.mpr (List.prefix_append part r)

theorem dropLast?_append : dropLast? part (part.reverse ++ r) = some r := by
  rw [dropLast?, if_pos (isPrefixOf_append _ _), List.drop_left' List.length_reverse]

theorem dropLastLineEnd?_lf (h : cr ∉ r) : dropLastLineEnd? (lf :: r) = some r := by
  cases r with
  | nil => rfl
  | cons c r =>
    have hc : c ≠ cr := fun hc => h (hc ▸ List.mem_cons_self)
    simp [dropLastLineEnd?, hc]

/-- The label is read up to the dashes behind it. -/
def IsLabel (l : Bytes) : Prop :=
  ∀ rest, labelFrom true false (l ++ '-'.toUInt8 :: rest) = some (l, '-'.toUInt8 :: rest)

theorem takeLabel_append (hl : IsLabel l) : takeLabel (l ++ (dashes ++ lf :: r)) = .ok (l, r) := by
  have hdashes : dashes ++ lf :: r =
      '-'.toUInt8 :: (Text.bytes "----" ++ lf :: r) := rfl
  have hlabel := hl (Text.bytes "----" ++ lf :: r)
  rw [← hdashes] at hlabel
  rw [takeLabel, hlabel]
  simp only [isPrefixOf_append, if_true, List.drop_left, dropLineEnd?]

theorem body_append (h : cr ∉ r) :
    body l (r ++ lf :: (closing ++ (l ++ dashes))) = .ok r := by
  have hreverse : (r ++ lf :: (closing ++ (l ++ dashes))).reverse =
      dashes.reverse ++ (l.reverse ++ (closing.reverse ++ lf :: r.reverse)) := by
    simp only [List.reverse_append, List.reverse_cons, List.append_assoc, List.singleton_append]
  have hlast : dropLastLineEnd?
      (dashes.reverse ++ (l.reverse ++ (closing.reverse ++ lf :: r.reverse))) = none := rfl
  have hline : dropLastLineEnd? (lf :: r.reverse) = some r.reverse :=
    dropLastLineEnd?_lf (by rwa [List.mem_reverse])
  rw [body, hreverse, hlast]
  simp only [Option.getD_none, dropLast?_append, Option.bind_some, hline, List.reverse_reverse]

theorem decodeBody_lines (h : content ≠ []) :
    decodeBody (lines lf (inSymbols content)) = .ok content := by
  have hsome := inSymbols_ne_nil h
  have hlines : (lines lf (inSymbols content)).isEmpty = false := by
    rw [List.isEmpty_eq_false_iff]
    exact lines_ne_nil hsome
  rw [decodeBody, hlines, symbols_lines hsome (Nat.le_refl _)]
  simp only [Bool.false_eq_true, if_false, Option.bind_some, decode_inSymbols, Except.toOption]

/-- **A document is read strictly as it was written.** -/
theorem ofBytes_armored {label : String} (hlabel : IsLabel (Text.bytes label))
    (h : content ≠ []) : ofBytes (Text.bytes (armored label content)) = .ok ⟨label, content⟩ := by
  have hcr : cr ∉ lines lf (inSymbols content) := not_mem_lines (by decide) (by decide)
  have hstart : ∀ r, start (opening ++ r) = .ok r := by
    intro r
    rw [start, if_pos (isPrefixOf_append _ _), List.drop_left]
  rw [ofBytes, bytes_armored, hstart]
  simp only [bind, Except.bind, takeLabel_append hlabel, body_append hcr, decodeBody_lines h,
    Text.ofBytesLossy_bytes, Except.mapError]

end Strict

end Document

/-! ## Lenient reading -/

namespace Armor

section Cuts

variable {mark s rest before : Bytes}

/-- What cannot begin a mark is passed over. -/
theorem cutFrom_append (hmark : mark ≠ []) (hs : ∀ x ∈ s, mark[0]? ≠ some x) :
    cutFrom mark 0 before (s ++ rest) = cutFrom mark 0 (s.reverse ++ before) rest := by
  induction s generalizing before with
  | nil => rfl
  | cons x s ih =>
    have hempty : ¬ 0 = mark.length := fun h => hmark (List.length_eq_zero_iff.mp h.symm)
    rw [List.cons_append, cutFrom, if_neg (hs x List.mem_cons_self), if_neg hempty,
      ih fun y hy => hs y (List.mem_cons_of_mem x hy), List.reverse_cons, List.append_assoc]
    rfl

/-- A mark of which the beginning has been seen is seen to its end. -/
theorem cutFrom_mark (seen : Bytes) {more : Bytes} (h : more ≠ []) :
    cutFrom (seen ++ more) seen.length (seen.reverse ++ before) (more ++ rest) =
      some (before.reverse, rest) := by
  induction more generalizing seen with
  | nil => exact absurd rfl h
  | cons x more ih =>
    have hnext : (seen ++ x :: more)[seen.length]? = some x := by simp
    have hlength : (x :: (seen.reverse ++ before)).drop (seen.length + 1) = before := by
      rw [List.drop_succ_cons, List.drop_left' List.length_reverse]
    rw [List.cons_append, cutFrom, if_pos hnext]
    cases more with
    | nil =>
      rw [if_pos (by simp), hlength]
      rfl
    | cons y more =>
      have hgrown := ih (seen ++ [x]) (by simp)
      rw [if_neg (by simp)]
      simpa using hgrown

/-- A text is cut at a mark that cannot begin before. -/
theorem cut_append {mark : String} (hmark : Text.bytes mark ≠ [])
    (hs : ∀ x ∈ s, (Text.bytes mark)[0]? ≠ some x) :
    cut mark (s ++ (Text.bytes mark ++ rest)) = some (s, rest) := by
  rw [cut, cutFrom_append hmark hs, List.append_nil]
  have hfound : cutFrom ([] ++ Text.bytes mark) 0 ([] ++ s.reverse) (Text.bytes mark ++ rest) =
      some (s.reverse.reverse, rest) := cutFrom_mark [] hmark
  rwa [List.nil_append, List.nil_append, List.reverse_reverse] at hfound

theorem cut_eq_none {mark : String} (hmark : Text.bytes mark ≠ [])
    (hs : ∀ x ∈ s, (Text.bytes mark)[0]? ≠ some x) : cut mark s = none := by
  have h : cutFrom (Text.bytes mark) 0 [] (s ++ []) = _ := cutFrom_append hmark hs
  rw [List.append_nil] at h
  rw [cut, h]
  rfl

end Cuts

section Lenient

variable {content : Bytes} {before s : Bytes}

/-- After the first symbol of a line nothing of an empty line is seen, up to the line's end. -/
theorem cutFrom_line {found : Nat} {rest : Bytes} (hfound : found ≤ 1) (hs : s ≠ [])
    (hlf : lf ∉ s) :
    cutFrom [lf, lf] found before (s ++ lf :: rest) =
      cutFrom [lf, lf] 1 (lf :: (s.reverse ++ before)) rest := by
  obtain ⟨x, line, rfl⟩ := List.exists_cons_of_ne_nil hs
  have hx : lf ≠ x := fun h => hlf (h ▸ List.mem_cons_self)
  have hmore : ∀ y ∈ line, ([lf, lf] : Bytes)[0]? ≠ some y := by
    intro y hy h
    exact hlf (Option.some.inj h ▸ List.mem_cons_of_mem x hy)
  have hfirst : ([lf, lf] : Bytes)[found]? ≠ some x := by
    intro h
    rcases Nat.le_one_iff_eq_zero_or_eq_one.mp hfound with rfl | rfl
    all_goals exact hx (Option.some.inj h)
  rw [List.cons_append, cutFrom, if_neg hfirst, if_neg (by simp), cutFrom_append (by simp) hmore,
    List.reverse_cons, List.append_assoc]
  rfl

/-- There is no empty line where there are symbols in every line. -/
theorem cutFrom_lines {found : Nat} (hfound : found ≤ 1) (hs : s ≠ []) (hlf : lf ∉ s) :
    cutFrom [lf, lf] found before (lines lf s ++ [lf]) = none := by
  induction s using lines.induct generalizing found before with
  | case1 s h =>
    rw [lines_of_le h, cutFrom_line hfound hs hlf]
    rfl
  | case2 s h ih =>
    have htake : s.take lineLength ≠ [] := by
      rw [Ne, List.take_eq_nil_iff]
      simp [hs, lineLength]
    have hdrop : s.drop lineLength ≠ [] := fun hnil => h (List.drop_eq_nil_iff.mp hnil)
    rw [lines_of_lt h, List.append_assoc, List.cons_append,
      cutFrom_line hfound htake fun hmem => hlf (List.mem_of_mem_take hmem)]
    exact ih (Nat.le_refl 1) hdrop fun hmem => hlf (List.mem_of_mem_drop hmem)

/-- The lines of symbols, with no headers before them. -/
theorem headersAndData_lines (h : content ≠ []) :
    headersAndData (lines lf (inSymbols content) ++ [lf]) =
      ([], lines lf (inSymbols content) ++ [lf]) := by
  have hlf : lf ∉ inSymbols content := fun hmem => not_mem_breaks hmem (by decide)
  have hunix : cut "\n\n" (lines lf (inSymbols content) ++ [lf]) = none :=
    cutFrom_lines (Nat.zero_le 1) (inSymbols_ne_nil h) hlf
  have hdos : cut "\r\n\r\n" (lines lf (inSymbols content) ++ [lf]) = none := by
    refine cut_eq_none (by decide) fun x hx hcr => ?_
    obtain rfl : cr = x := Option.some.inj hcr
    exact not_mem_lines_lf (by decide) (by decide) hx
  rw [headersAndData, hunix, hdos]
  rfl

theorem dropWhile_lines {rest : Bytes} (h : content ≠ []) :
    (lf :: (lines lf (inSymbols content) ++ rest)).dropWhile isSpace =
      lines lf (inSymbols content) ++ rest := by
  have hspace : isSpace lf = true := by decide
  obtain ⟨x, s, hs⟩ := List.exists_cons_of_ne_nil (inSymbols_ne_nil h)
  have hx : isSpace x = false := by
    have hmem : x ∈ inSymbols content := hs ▸ List.mem_cons_self
    have hbreaks := not_mem_breaks hmem
    simp only [breaks, List.mem_cons, List.not_mem_nil, or_false, not_or] at hbreaks
    obtain ⟨hblank, htab, hlf, hcr, -⟩ := hbreaks
    simp only [isSpace, Bool.or_eq_false_iff, beq_eq_false_iff_ne]
    exact ⟨⟨⟨hblank, htab⟩, hlf⟩, hcr⟩
  obtain ⟨more, hmore⟩ := exists_lines_cons lf x s
  rw [hs, hmore, List.dropWhile_cons_of_pos hspace, List.cons_append,
    List.dropWhile_cons_of_neg (by simp [hx])]

/-- The symbols are all that is left of the lines without blanks. -/
theorem filter_text (content : Bytes) :
    (lines '\n' (Base64.encode Base64.standard content) ++ ['\n']).filter
      (fun c => !Text.isBlank c) = Base64.encode Base64.standard content := by
  rw [List.filter_append, filter_lines (by decide) fun c hc => ?_]
  · exact List.append_nil _
  · rw [isBlank_of_mem_encode hc]
    rfl

theorem decode?_lines (content : Bytes) :
    Utf8.decode? (lines lf (inSymbols content) ++ [lf]) =
      some (lines '\n' (Base64.encode Base64.standard content) ++ ['\n']) := by
  have hencoded : lines lf (inSymbols content) ++ [lf] =
      Utf8.encode (lines '\n' (Base64.encode Base64.standard content) ++ ['\n']) := by
    rw [Utf8.encode_append, encode_lines]
    rfl
  rw [hencoded, Utf8.decode?_encode]

theorem cut_label {label : Bytes} (hdash : '-'.toUInt8 ∉ label) (r : Bytes) :
    cut "-----" (label ++ (dashes ++ r)) = some (label, r) := by
  refine cut_append (by decide) fun x hx hfirst => ?_
  obtain rfl : '-'.toUInt8 = x := Option.some.inj hfirst
  exact hdash hx

theorem cut_closing (content r : Bytes) :
    cut "-----END " (lines lf (inSymbols content) ++ lf :: (closing ++ r)) =
      some (lines lf (inSymbols content) ++ [lf], r) := by
  have hlines : ∀ x ∈ lines lf (inSymbols content) ++ [lf],
      (Text.bytes "-----END ")[0]? ≠ some x := by
    intro x hx hfirst
    obtain rfl : '-'.toUInt8 = x := Option.some.inj hfirst
    exact not_mem_lines_lf (by decide) (by decide) hx
  have hfound : cut "-----END " (lines lf (inSymbols content) ++ [lf] ++ (closing ++ r)) = _ :=
    cut_append (by decide) hlines
  rwa [List.append_assoc] at hfound

/-- **A document is read leniently as it was written.** -/
theorem ofBytes?_armored {label : String} (hlabel : label ≠ "")
    (hdash : '-'.toUInt8 ∉ Text.bytes label) (h : content ≠ []) :
    ofBytes? (Text.bytes (armored label content)) = some ⟨label, content⟩ := by
  have hopening : ∀ r, cut "-----BEGIN " (opening ++ r) = some ([], r) :=
    fun r => cut_append (s := []) (by decide) (by simp)
  have hlast := cut_label hdash []
  rw [List.append_nil] at hlast
  have hsymbols : Utf8.encode (Base64.encode Base64.standard content) = inSymbols content :=
    Utf8.encode_of_ascii fun c hc => Base64.ascii_of_mem_encode Base64.sound_standard hc
  have hheaders : areHeaders [] = true := rfl
  rw [ofBytes?, bytes_armored]
  simp only [bind, Option.bind, hopening, cut_label hdash, dropWhile_lines h, cut_closing, hlast,
    Text.ofBytes?_bytes, headersAndData_lines h, decode?_lines, filter_text, hsymbols, hheaders,
    decode_inSymbols, Except.toOption, ne_eq, hlabel, not_false_eq_true, and_self, if_true]

end Lenient

end Armor

end Pem

end IdentityTokens
