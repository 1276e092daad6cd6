import ModelLabels.Proofs.Template.LongestMatch
import ModelLabels.Proofs.Template.WarningPlaces
/-! # Ranges of characters

A report underlines characters, while a warning is placed by bytes.  A span of bytes that begins and ends
between characters is turned into a range of characters that selects the same text, and no other range
does.  A span that begins or ends within a character has no such range.  The spans of warnings are all of
the first kind, as each of them marks a part of the template.

* `Span.characters`, `Span.toBytes`: what is in a range, and its bytes; `toChars_toBytes`,
  `Marks.toBytes_toChars`.
* `Span.Selects`: a range selects what is under a span.
* `Span.exists_marks_iff`: a span marks a part of a text where it begins and ends between characters.
* `Span.selects_iff`: which ranges select what is under a span.
* `Template.check_selected`: the property.
-/

namespace ModelLabels
set_option autoImplicit false

/-! ## Bytes of a part of a text -/

section Bytes
variable {text : String} {before part after : List Char}

theorem size_toByteArray_ofList (cs : List Char) :
    (String.ofList cs).toByteArray.size = utf8Length cs := by
  rw [String.size_toByteArray, utf8ByteSize_eq, String.toList_ofList]

/-- Where a text is divided in three, the bytes of the middle part are those under its span. -/
theorem extract_toByteArray (htext : text.toList = before ++ (part ++ after)) :
    text.toByteArray.extract (utf8Length before) (utf8Length before + utf8Length part) =
      (String.ofList part).toByteArray := by
  have hparts : text = String.ofList before ++ (String.ofList part ++ String.ofList after) := by
    rw [← String.ofList_append, ← String.ofList_append, ← htext, String.ofList_toList]
  have hbytes : text.toByteArray = (String.ofList before).toByteArray ++
      ((String.ofList part).toByteArray ++ (String.ofList after).toByteArray) := by
    rw [← String.toByteArray_append, ← String.toByteArray_append, ← hparts]
  calc text.toByteArray.extract (utf8Length before) (utf8Length before + utf8Length part)
    _ = ((String.ofList part).toByteArray ++ (String.ofList after).toByteArray).extract 0
        (utf8Length part) := by
      rw [hbytes]
      exact ByteArray.extract_append_size_add' (i := 0) (size_toByteArray_ofList before).symm
    _ = (String.ofList part).toByteArray :=
      ByteArray.extract_append_eq_left (size_toByteArray_ofList part).symm

theorem extract_toByteArray_start (htext : text.toList = part ++ after) :
    text.toByteArray.extract 0 (utf8Length part) = (String.ofList part).toByteArray := by
  have hbytes := extract_toByteArray (htext.trans (List.nil_append _).symm)
  rwa [utf8Length_nil, Nat.zero_add] at hbytes

end Bytes

namespace Span

/-! ## Ranges and their bytes -/

/-- The characters of a text in a range. -/
def characters (range : Span) (cs : List Char) : List Char :=
  (cs.drop range.start).take (range.stop - range.start)

/-- The span of bytes of a range of characters. -/
def toBytes (range : Span) (cs : List Char) : Span :=
  ⟨utf8Length (cs.take range.start),
    utf8Length (cs.take range.start) + utf8Length (range.characters cs)⟩

section Ranges
variable {range s : Span} {cs part : List Char}

/-- A range divides a text in three. -/
theorem append_characters (hle : range.start ≤ range.stop) (cs : List Char) :
    cs = cs.take range.start ++ (range.characters cs ++ cs.drop range.stop) := by
  have hrest : (cs.drop range.start).drop (range.stop - range.start) = cs.drop range.stop := by
    rw [List.drop_drop, Nat.add_sub_cancel' hle]
  rw [characters, ← hrest, List.take_append_drop, List.take_append_drop]

theorem characters_append (before part after : List Char) :
    characters ⟨before.length, before.length + part.length⟩ (before ++ (part ++ after)) = part := by
  rw [characters, List.drop_left, Nat.add_sub_cancel_left, List.take_left]

theorem toChars_append (before part after : List Char) :
    toChars ⟨utf8Length before, utf8Length before + utf8Length part⟩ (before ++ (part ++ after)) =
      ⟨before.length, before.length + part.length⟩ := by
  have hstart := charIndex_append before (part ++ after) 0
  have hstop := charIndex_append (before ++ part) after 0
  rw [Nat.zero_add] at hstart hstop
  rw [utf8Length_append, List.append_assoc, List.length_append] at hstop
  rw [toChars, hstart, hstop]

theorem marks_toBytes (hle : range.start ≤ range.stop) (cs : List Char) :
    (range.toBytes cs).Marks 0 cs (range.characters cs) := by
  refine ⟨_, _, append_characters hle cs, ?_⟩
  rw [Nat.zero_add]
  rfl

/-- The bytes of a range are turned back into the range. -/
theorem toChars_toBytes (hle : range.start ≤ range.stop) (hstop : range.stop ≤ cs.length) :
    (range.toBytes cs).toChars cs = range := by
  have hstart : (cs.take range.start).length = range.start :=
    List.length_take_of_le (Nat.le_trans hle hstop)
  have hcount : (range.characters cs).length = range.stop - range.start := by
    rw [characters, List.length_take, List.length_drop]
    omega
  have hparts := toChars_append (cs.take range.start) (range.characters cs) (cs.drop range.stop)
  rwa [← append_characters hle, hstart, hcount, Nat.add_sub_cancel' hle] at hparts

/-- The range that the span of a part is turned into lies in the text. -/
theorem Marks.toChars_le (h : s.Marks 0 cs part) :
    (s.toChars cs).start ≤ (s.toChars cs).stop ∧ (s.toChars cs).stop ≤ cs.length := by
  obtain ⟨before, after, rfl, rfl⟩ := h
  rw [Nat.zero_add, toChars_append, List.length_append, List.length_append, ← Nat.add_assoc]
  exact ⟨Nat.le_add_right _ _, Nat.le_add_right _ _⟩

/-- The range that the span of a part is turned into has the bytes of the span. -/
theorem Marks.toBytes_toChars (h : s.Marks 0 cs part) : (s.toChars cs).toBytes cs = s := by
  obtain ⟨before, after, rfl, rfl⟩ := h
  rw [Nat.zero_add, toChars_append, toBytes, characters_append, List.take_left]

end Ranges

/-! ## What a range selects -/

/-- A range of characters selects what is under a span of bytes: the range lies in the text and the span
in its bytes, the characters of the range have the bytes under the span, and the characters before it have
the bytes before the span. -/
structure Selects (range : Span) (text : String) (s : Span) : Prop where
  start_le_stop : range.start ≤ range.stop
  stop_le : range.stop ≤ text.length
  span_le : s.start ≤ s.stop ∧ s.stop ≤ text.utf8ByteSize
  before : (String.ofList (text.toList.take range.start)).toByteArray =
    text.toByteArray.extract 0 s.start
  selected : (String.ofList (range.characters text.toList)).toByteArray =
    text.toByteArray.extract s.start s.stop

section Selects
variable {range s : Span} {text : String} {part : List Char}

/-- A range that lies in a text selects what is under its bytes. -/
theorem selects_toBytes (hle : range.start ≤ range.stop) (hstop : range.stop ≤ text.length) :
    range.Selects text (range.toBytes text.toList) := by
  have htext := append_characters hle text.toList
  have hmarks := marks_toBytes hle text.toList
  exact {
    start_le_stop := hle
    stop_le := hstop
    span_le := ⟨hmarks.start_le_stop, hmarks.stop_le⟩
    before := (extract_toByteArray_start htext).symm
    selected := (extract_toByteArray htext).symm }

/-- A range selects what is under no other span than that of its bytes. -/
theorem Selects.span_eq (h : range.Selects text s) : s = range.toBytes text.toList := by
  -- The bytes before the span and those under it are as many as those of the characters.
  have hbefore := congrArg ByteArray.size h.before
  have hselected := congrArg ByteArray.size h.selected
  rw [size_toByteArray_ofList, ByteArray.size_extract, String.size_toByteArray] at hbefore hselected
  obtain ⟨hle, hsize⟩ := h.span_le
  obtain ⟨start, stop⟩ := s
  dsimp only at hbefore hselected hle hsize
  rw [toBytes]
  congr 1
  all_goals omega

/-- A range that selects what is under a span is the one that the span is turned into. -/
theorem Selects.eq_toChars (h : range.Selects text s) : range = s.toChars text.toList := by
  rw [h.span_eq, toChars_toBytes h.start_le_stop (h.stop_le.trans_eq String.length_toList.symm)]

theorem Marks.selects (h : s.Marks 0 text.toList part) : (s.toChars text.toList).Selects text s := by
  obtain ⟨hle, hstop⟩ := h.toChars_le
  have hselects := selects_toBytes hle (hstop.trans_eq String.length_toList)
  rwa [h.toBytes_toChars] at hselects

end Selects

/-! ## Spans between characters -/

section Boundaries
variable {range s : Span} {text : String}

/-- A span marks a part of a text if it begins and ends between characters. -/
theorem exists_marks_iff : (∃ part, s.Marks 0 text.toList part) ↔ s.start ≤ s.stop ∧
    String.Pos.Raw.IsValid text ⟨s.start⟩ ∧ String.Pos.Raw.IsValid text ⟨s.stop⟩ := by
  constructor
  · rintro ⟨part, hpart⟩
    exact ⟨hpart.start_le_stop, hpart.isValid⟩
  · rintro ⟨hle, hstart, hstop⟩
    obtain ⟨start, stop⟩ := s
    dsimp only at hle hstart hstop
    obtain ⟨before, behind, htext, rfl⟩ := exists_append_of_isValid hstart
    obtain ⟨upTo, after, hupTo, rfl⟩ := exists_append_of_isValid hstop
    -- What is before the end of the span begins with what is before its start.
    obtain ⟨part, rfl⟩ : before <+: upTo := by
      rcases List.append_eq_append_iff.1 (htext.symm.trans hupTo) with ⟨part, rfl, -⟩ | ⟨more, rfl, -⟩
      · exact ⟨part, rfl⟩
      · rw [utf8Length_append] at hle
        obtain rfl : more = [] := utf8Length_eq_zero.1 (by omega)
        exact ⟨[], by rw [List.append_nil, List.append_nil]⟩
    refine ⟨part, before, after, by rw [hupTo, List.append_assoc], ?_⟩
    rw [Nat.zero_add, utf8Length_append]

/-- What is under a span is selected by no other range than the one that the span is turned into, and by
that one just if the span begins and ends between characters. -/
theorem selects_iff : range.Selects text s ↔ range = s.toChars text.toList ∧ s.start ≤ s.stop ∧
    String.Pos.Raw.IsValid text ⟨s.start⟩ ∧ String.Pos.Raw.IsValid text ⟨s.stop⟩ := by
  constructor
  · intro h
    refine ⟨h.eq_toChars, exists_marks_iff.1 ?_⟩
    rw [h.span_eq]
    exact ⟨_, marks_toBytes h.start_le_stop _⟩
  · rintro ⟨rfl, hbounds⟩
    obtain ⟨part, hmarks⟩ := exists_marks_iff.2 hbounds
    exact hmarks.selects

/-- Nothing selects the second byte of a character. -/
example : ¬ ∃ range : Span, range.Selects "é" ⟨1, 2⟩ := by
  rintro ⟨range, h⟩
  exact absurd (selects_iff.1 h).2.2.1 (by decide +kernel)

end Boundaries
end Span

/-! ## The property -/

namespace Template

/-- The range of characters that the span of a warning is turned into selects what is under the span, and
it is the only one that does. -/
theorem check_selected (text : String) : ∀ w ∈ check text,
    (w.span.toChars text.toList).Selects text w.span ∧
      ∀ range : Span, range.Selects text w.span → range = w.span.toChars text.toList := by
  intro w hw
  obtain ⟨part, hmarks, -⟩ := marks_of_mem_check hw
  have hselects (range : Span) : range.Selects text w.span ↔ range = w.span.toChars text.toList :=
    Span.selects_iff.trans (and_iff_left ⟨hmarks.start_le_stop, hmarks.isValid⟩)
  exact ⟨(hselects _).2 rfl, fun range => (hselects range).1⟩

/-- Characters of one to four bytes are before a warning, and some of two bytes within it. -/
theorem check_selected_braces :
    let text := "😀→é $\x7bцвет\x7d"
    Warning.malformed .invalidAttribute ⟨11, 21⟩ ∈ check text ∧
      (⟨5, 11⟩ : Span).characters text.toList = "\x7bцвет\x7d".toList ∧
      (⟨5, 11⟩ : Span).Selects text ⟨11, 21⟩ := by
  intro text
  have hmem : Warning.malformed .invalidAttribute ⟨11, 21⟩ ∈ check text := by
    rw [check_eq]
    decide +kernel
  have hchars : Span.toChars ⟨11, 21⟩ text.toList = ⟨5, 11⟩ := by decide +kernel
  obtain ⟨hselects, -⟩ := check_selected text _ hmem
  exact ⟨hmem, by decide +kernel, hchars ▸ hselects⟩

end Template

end ModelLabels
