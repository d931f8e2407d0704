/-
# Reports in a stream

Which reports of the engine get through from one of its output streams.  The stream is read in
lines, and a line that is not UTF-8 ends the reading: it has no report itself (`reportOf`), and what
stands behind it is not read (`ofStream_eq`).

So no report of a line is lost exactly if no line behind the first one that is not UTF-8 has a
report, and one odd byte in a log line can hide that a payload has been applied
(`not_ofStream_eq`).
-/
import FleetAgent.Update.Engine
import FleetAgent.Proofs.Text.Encoding
import FleetAgent.Proofs.Text.Pieces
import Mathlib.Data.List.TakeWhile

namespace FleetAgent.Update.Engine

open Text.Utf8 (encode decode? decode?_eq_some_iff)

variable {stream : List UInt8} {line : List UInt8} {lines : List (List UInt8)} {text : String}

/-! ## Lines of bytes -/

/-- A line of bytes that is a line of text. -/
def IsText (line : List UInt8) : Prop := ∃ text, line = encode text

lemma isSome_decode?_iff : (decode? line).isSome = true ↔ IsText line := by
  rw [Option.isSome_iff_exists]
  exact exists_congr fun text => decode?_eq_some_iff

instance (line : List UInt8) : Decidable (IsText line) :=
  decidable_of_iff _ isSome_decode?_iff

/-- The report in a line of bytes: that of its text, if it is one. -/
def reportOf (line : List UInt8) : Option Event :=
  (decode? line).bind Event.ofLine?

lemma reportOf_encode (text : String) : reportOf (encode text) = Event.ofLine? text := by
  rw [reportOf, decode?_eq_some_iff.mpr rfl, Option.bind_some]

lemma reportOf_eq_none (h : ¬IsText line) : reportOf line = none := by
  rw [reportOf, Option.not_isSome_iff_eq_none.mp (mt isSome_decode?_iff.mp h), Option.bind_none]

/-! ## What gets through -/

lemma filterMap_decode? (lines : List (List UInt8)) :
    (((lines.map decode?).takeWhile Option.isSome).filterMap id).filterMap Event.ofLine?
      = (lines.takeWhile fun line => decide (IsText line)).filterMap reportOf := by
  have htext : (Option.isSome ∘ decode?) = fun line => decide (IsText line) :=
    funext fun line => by rw [Function.comp_apply, Bool.eq_iff_iff, decide_eq_true_iff,
      isSome_decode?_iff]
  rw [List.takeWhile_map, htext, List.filterMap_map, List.filterMap_filterMap]
  rfl

/-- The reports in a stream are those of the lines in front of the first one that is no text. -/
lemma ofStream_eq (h : Text.Lines 0x0A 0x0D stream lines) :
    Event.ofStream stream
      = (lines.takeWhile fun line => decide (IsText line)).filterMap reportOf := by
  rw [Event.ofStream, readableLines, (Text.linesBy_eq_iff (by decide)).mpr h, filterMap_decode?]

/-- The first line that is no text, and what stands in front of it. -/
lemma takeWhile_isText {front behind : List (List UInt8)} (hfront : ∀ line ∈ front, IsText line)
    (hline : ¬IsText line) :
    (front ++ line :: behind).takeWhile (fun line => decide (IsText line)) = front := by
  have hall : ∀ line ∈ front, decide (IsText line) = true := fun line hmem =>
    decide_eq_true (hfront line hmem)
  rw [List.takeWhile_append_of_pos hall, List.takeWhile_cons_of_neg (by simpa using hline),
    List.append_nil]

/-- **Reports that get through.**  From a stream that is written of lines, each ended by a line feed
or by a carriage return and a line feed, the reports of the lines in front of the first one that is
no text get through, in order and each of them once.  If all lines are texts, these are all reports;
otherwise they are all of them exactly if no line behind that first one has a report. -/
theorem ofStream_spec (h : Text.Lines 0x0A 0x0D stream lines) :
    ((∀ line ∈ lines, IsText line) → Event.ofStream stream = lines.filterMap reportOf) ∧
    ∀ front line behind, lines = front ++ line :: behind → (∀ line ∈ front, IsText line) →
      ¬IsText line →
      Event.ofStream stream = front.filterMap reportOf ∧
      (Event.ofStream stream = lines.filterMap reportOf ↔
        ∀ line ∈ behind, reportOf line = none) := by
  refine ⟨fun hall => ?_, ?_⟩
  · have hself : (lines.takeWhile fun line => decide (IsText line)) = lines :=
      List.takeWhile_eq_self_iff.mpr fun line hmem => decide_eq_true (hall line hmem)
    rw [ofStream_eq h, hself]
  · rintro front line behind rfl hfront hline
    rw [ofStream_eq h, takeWhile_isText hfront hline, List.filterMap_append,
      List.filterMap_cons_none (reportOf_eq_none hline)]
    refine ⟨rfl, ?_⟩
    rw [List.self_eq_append_right, List.filterMap_eq_nil_iff]

/-! ## One odd byte -/

/-- The engine is idle. -/
def idleLine : List UInt8 := encode "onStatusUpdate(UPDATE_STATUS_IDLE (0), 0)"

/-- The payload has been applied. -/
def appliedLine : List UInt8 := encode "onPayloadApplicationComplete(ErrorCode::kSuccess (0))"

/-- A line of one byte stands between two reports. -/
def oddStream : List UInt8 := idleLine ++ 0x0A :: ([0xFF] ++ 0x0A :: appliedLine)

lemma lines_oddStream : Text.Lines 0x0A 0x0D oddStream [idleLine, [0xFF], appliedLine] := by
  refine .fed _ _ _ (by decide +kernel) (by decide +kernel) ?_
  refine .fed _ _ _ (by decide) (by decide) ?_
  exact .last _ (by decide +kernel) (by decide +kernel)

lemma isText_idleLine : ∀ line ∈ [idleLine], IsText line := by
  intro line hmem
  exact ⟨_, List.mem_singleton.mp hmem⟩

lemma not_isText_odd : ¬IsText [0xFF] := by decide

/-- The report in front of the odd line gets through. -/
theorem ofStream_sample :
    Text.Lines 0x0A 0x0D oddStream [idleLine, [0xFF], appliedLine] ∧
    (∀ line ∈ [idleLine], IsText line) ∧ ¬IsText [0xFF] ∧
    Event.ofStream oddStream = [idleLine].filterMap reportOf :=
  ⟨lines_oddStream, isText_idleLine, not_isText_odd,
    ((ofStream_spec lines_oddStream).2 [idleLine] [0xFF] [appliedLine] rfl isText_idleLine
      not_isText_odd).1⟩

/-- **An odd byte hides what comes behind.**  Not all reports of lines that are texts get
through. -/
theorem not_ofStream_eq :
    ¬∀ (stream : List UInt8) (lines : List (List UInt8)), Text.Lines 0x0A 0x0D stream lines →
      Event.ofStream stream = lines.filterMap reportOf := by
  intro h
  have hidle : reportOf idleLine = some (.status .idle Numeral.Single.zero) :=
    (reportOf_encode _).trans (by decide +kernel)
  have happlied : reportOf appliedLine = some (.complete 0) :=
    (reportOf_encode _).trans (by decide +kernel)
  have hread : Event.ofStream oddStream = [idleLine].filterMap reportOf := by
    rw [ofStream_eq lines_oddStream]
    exact congrArg _ (takeWhile_isText isText_idleLine not_isText_odd)
  have hall := h _ _ lines_oddStream
  rw [hread, List.filterMap_cons_some hidle, List.filterMap_cons_some hidle,
    List.filterMap_cons_none (reportOf_eq_none not_isText_odd),
    List.filterMap_cons_some happlied] at hall
  exact nomatch hall

end FleetAgent.Update.Engine
