/-
# Reports in lines

Which lines carry a report of the engine, and which one.  A line is searched for the name of the
status callback first, and for that of the completion callback only if the former does not occur.
Behind the name, the first parentheses that follow a space hold a number; the text between the name
and them is free, as is the text in front of the name (`IsCompletion`).

So a status line as the engine writes it gives the state with its number and the progress, and
nothing if no state has the number, and a completion line gives its number.  A line without the
name of a callback gives nothing.  All this is `ofLine?_spec`; the names cannot begin in what
stands in front of them, since each ends with a parenthesis, the only one in it.
-/
import FleetAgent.Update.Engine
import FleetAgent.Proofs.Numeral.Integer
import FleetAgent.Proofs.Text.Blank
import FleetAgent.Proofs.Text.Pieces
import Mathlib.Data.List.Infix

namespace FleetAgent.Update.Engine

variable {line s u v x q rest : List Char} {n c : Int}

/-! ## Numbers of states -/

lemma ofCode?_code (s : State) : State.ofCode? s.code = some s := by
  cases s <;> rfl

lemma code_of_ofCode? {s : State} (h : State.ofCode? n = some s) : (s.code : Int) = n := by
  rw [State.ofCode?] at h
  simpa using List.find?_some h

/-- The numbers of states are those from 0 to 10. -/
lemma exists_code_iff (n : Int) : (∃ s : State, (s.code : Int) = n) ↔ 0 ≤ n ∧ n ≤ 10 := by
  constructor
  · rintro ⟨s, rfl⟩
    cases s <;> decide
  · rintro ⟨hnonneg, hle⟩
    have hall : ∀ k : Fin 11, ∃ s : State, s.code = k := by
      intro k
      exact ⟨State.all[k], by revert k; decide⟩
    obtain ⟨k, rfl⟩ := Int.eq_ofNat_of_zero_le hnonneg
    obtain ⟨s, hs⟩ := hall ⟨k, by omega⟩
    exact ⟨s, congrArg Int.ofNat hs⟩

lemma ofCode?_eq_none (h : ¬(0 ≤ n ∧ n ≤ 10)) : State.ofCode? n = none := by
  rw [Option.eq_none_iff_forall_ne_some]
  exact fun s hs => h ((exists_code_iff n).mp ⟨s, code_of_ofCode? hs⟩)

/-! ## The number in parentheses -/

/-- A space and an opening parenthesis. -/
def opening : List Char := [' ', '(']

lemma cut?_opening_eq_some_iff {after : List Char} :
    Text.cut? [' ', '('] s = some (v, after) ↔ s = v ++ opening ++ after ∧ ¬opening <:+: v :=
  Text.cut?_eq_some_iff [' '] (by decide)

lemma cutAt?_closing_eq_some_iff :
    Text.cutAt? ')' s = some (x, rest) ↔ s = x ++ [')'] ++ rest ∧ ')' ∉ x := by
  rw [← List.singleton_infix_iff]
  exact Text.cut?_eq_some_iff [] List.not_mem_nil

/-- The number is in the first parentheses that follow a space. -/
lemma parenthesizedCode?_eq_some_iff :
    parenthesizedCode? s = some (n, rest) ↔
      ∃ v x, s = v ++ opening ++ (x ++ [')'] ++ rest) ∧ ¬opening <:+: v ∧ ')' ∉ x ∧
        Numeral.int32? (Text.trimChars x) = some n := by
  constructor
  · intro h
    rw [parenthesizedCode?] at h
    split at h
    · next v after hcut =>
      obtain ⟨rfl, hv⟩ := cut?_opening_eq_some_iff.mp hcut
      split at h
      · next x rest' hcut' =>
        obtain ⟨rfl, hx⟩ := cutAt?_closing_eq_some_iff.mp hcut'
        obtain ⟨m, hm, heq⟩ := Option.map_eq_some_iff.mp h
        obtain ⟨rfl, rfl⟩ := Prod.mk.inj heq
        exact ⟨v, x, rfl, hv, hx, hm⟩
      · exact nomatch h
    · exact nomatch h
  · rintro ⟨v, x, rfl, hv, hx, hn⟩
    rw [parenthesizedCode?, cut?_opening_eq_some_iff.mpr ⟨rfl, hv⟩]
    dsimp only
    rw [cutAt?_closing_eq_some_iff.mpr ⟨rfl, hx⟩]
    dsimp only
    rw [hn]
    rfl

/-- A written number is read behind its opening parenthesis. -/
lemma parenthesizedCode?_toString (hv : ¬opening <:+: v) (hn : Numeral.IsInt32 n) :
    parenthesizedCode? (v ++ opening ++ ((toString n).toList ++ [')'] ++ rest))
      = some (n, rest) := by
  have hblank {c : Char} (hc : c ∈ (toString n).toList) : Text.isBlank c = false := by
    rcases Numeral.isDigit_or_of_mem_toString hc with hc | rfl
    · exact Text.isBlank_of_isDigit hc
    · rfl
  have htrim : Text.trimChars (toString n).toList = (toString n).toList :=
    Text.trimChars_eq_self (fun c hc => hblank (List.mem_of_head? hc))
      fun c hc => hblank (List.mem_of_getLast? hc)
  refine parenthesizedCode?_eq_some_iff.mpr ⟨v, _, rfl, hv, fun hclosed => ?_, ?_⟩
  · rcases Numeral.isDigit_or_of_mem_toString hclosed with h | h
    · exact nomatch h
    · exact nomatch h
  · rw [htrim]
    exact Numeral.int32?_eq_some_iff.mpr ⟨Numeral.isDecimal_toString n, hn⟩

/-! ## The progress -/

/-- The text of a progress: it does not begin with a blank, and does not end with a blank or a
closing parenthesis. -/
structure IsProgress (q : List Char) : Prop where
  head : ∀ c, q.head? = some c → Text.isBlank c = false
  last : ∀ c, q.getLast? = some c → Text.isBlank c = false ∧ c ≠ ')'

/-- The number that a progress text stands for: zero if it is none. -/
def progressOf (q : List Char) : Numeral.Single :=
  (Numeral.Single.ofChars? q).getD Numeral.Single.zero

/-- The progress is read between the comma and the last parenthesis. -/
lemma progress_eq (h : IsProgress q) : progress (", ".toList ++ q ++ [')']) = progressOf q := by
  have hinner : Text.trimChars (' ' :: (q ++ [')'])) = q ++ [')'] := by
    have hhead : ∀ c, (q ++ [')']).head? = some c → Text.isBlank c = false := by
      intro c hc
      cases q with
      | nil => exact Option.some.inj hc ▸ rfl
      | cons d q => exact h.head c hc
    have hlast : ∀ c, (q ++ [')']).getLast? = some c → Text.isBlank c = false := by
      intro c hc
      rw [List.getLast?_concat] at hc
      exact Option.some.inj hc ▸ rfl
    rw [Text.trimChars, List.dropWhile_cons_of_pos rfl]
    exact Text.trimChars_eq_self hhead hlast
  have hclosed : Text.dropWhileEnd (· == ')') (q ++ [')']) = q := by
    rw [Text.dropWhileEnd_concat (p := (· == ')')) rfl]
    exact Text.dropWhileEnd_eq_self fun c hc => beq_eq_false_iff_ne.mpr (h.last c hc).2
  have htrim : Text.trimChars q = q :=
    Text.trimChars_eq_self h.head fun c hc => (h.last c hc).1
  have hcomma : (", ".toList ++ q ++ [')']).dropWhile (· == ',') = ' ' :: (q ++ [')']) := rfl
  rw [progress, hcomma, hinner, hclosed, htrim, progressOf]

/-! ## The names of the callbacks -/

/-- The name of the status callback. -/
def statusName : List Char := "onStatusUpdate".toList

/-- The name of the completion callback. -/
def completeName : List Char := "onPayloadApplicationComplete".toList

lemma completeCall_eq : completeCall = completeName ++ ['('] := rfl

lemma cut?_statusCall_eq_some_iff :
    Text.cut? statusCall line = some (u, rest) ↔
      line = u ++ statusCall ++ rest ∧ ¬statusCall <:+: u :=
  Text.cut?_eq_some_iff statusName (by decide)

lemma cut?_completeCall_eq_some_iff :
    Text.cut? completeCall line = some (u, rest) ↔
      line = u ++ completeCall ++ rest ∧ ¬completeCall <:+: u :=
  Text.cut?_eq_some_iff completeName (by decide)

lemma cut?_statusCall_eq_none_iff : Text.cut? statusCall line = none ↔ ¬statusCall <:+: line :=
  Text.cut?_eq_none_iff (by decide)

lemma cut?_completeCall_eq_none_iff :
    Text.cut? completeCall line = none ↔ ¬completeCall <:+: line :=
  Text.cut?_eq_none_iff (by decide)

/-- The name of the status callback does not come about where that of the completion callback
meets other text. -/
lemma not_statusCall_append (hu : ¬statusCall <:+: u) (hv : ¬statusCall <:+: v) :
    ¬statusCall <:+: u ++ completeCall ++ v := by
  have hname : ¬statusCall <:+: u ++ completeName :=
    Text.not_infix_append statusName (by decide) hu
  have hcall : ¬statusCall <:+: u ++ completeName ++ ['('] := by
    intro hin
    rcases List.infix_concat_iff.mp hin with hin | hin
    · -- it would be the end of the other name
      have hother : completeCall <:+ u ++ completeName ++ ['('] :=
        ⟨u, by rw [completeCall_eq, List.append_assoc]⟩
      have hend := List.suffix_of_suffix_length_le hin hother (by decide)
      exact absurd hend (by decide)
    · exact hname hin
  have hrest := Text.not_infix_append_concat statusName (by decide) hcall hv
  rwa [completeCall_eq, ← List.append_assoc]

/-! ## Reports -/

/-- A line with the name of the status callback, and a number behind it. -/
lemma ofChars?_status {after : List Char} (hu : ¬statusCall <:+: u)
    (hafter : parenthesizedCode? after = some (n, rest)) :
    Event.ofChars? (u ++ statusCall ++ after)
      = (State.ofCode? n).map fun s => .status s (progress rest) := by
  rw [Event.ofChars?, cut?_statusCall_eq_some_iff.mpr ⟨rfl, hu⟩]
  dsimp only
  rw [hafter]

/-- A line with the name of the completion callback alone. -/
lemma ofChars?_complete {after : List Char}
    (hline : ¬statusCall <:+: u ++ completeCall ++ after) (hu : ¬completeCall <:+: u) :
    Event.ofChars? (u ++ completeCall ++ after)
      = (parenthesizedCode? after).map fun c => .complete c.1 := by
  rw [Event.ofChars?, cut?_statusCall_eq_none_iff.mpr hline]
  dsimp only
  rw [cut?_completeCall_eq_some_iff.mpr ⟨rfl, hu⟩]

lemma ofChars?_none (hstatus : ¬statusCall <:+: line) (hcomplete : ¬completeCall <:+: line) :
    Event.ofChars? line = none := by
  rw [Event.ofChars?, cut?_statusCall_eq_none_iff.mpr hstatus]
  dsimp only
  rw [cut?_completeCall_eq_none_iff.mpr hcomplete]

/-- A line completes with a number: the name of the status callback does not occur in it, and
behind the first name of the completion callback the first parentheses that follow a space hold
the number, with blanks around it. -/
def IsCompletion (line : List Char) (c : Int) : Prop :=
  ¬statusCall <:+: line ∧ ∃ u v x rest,
    line = u ++ completeCall ++ (v ++ opening ++ (x ++ [')'] ++ rest)) ∧
      ¬completeCall <:+: u ∧ ¬opening <:+: v ∧ ')' ∉ x ∧
      Numeral.IsDecimal (Text.trimChars x) c ∧ Numeral.IsInt32 c

lemma ofChars?_eq_complete_iff :
    Event.ofChars? line = some (.complete c) ↔ IsCompletion line c := by
  constructor
  · intro h
    rw [Event.ofChars?] at h
    split at h
    · next u after hcut =>
      split at h
      · next n rest hcode =>
        obtain ⟨s, -, hs⟩ := Option.map_eq_some_iff.mp h
        exact nomatch hs
      · exact nomatch h
    · next hnone =>
      split at h
      · next u after hcut =>
        obtain ⟨⟨m, rest⟩, hcode, heq⟩ := Option.map_eq_some_iff.mp h
        obtain rfl : m = c := Event.complete.inj heq
        obtain ⟨rfl, hu⟩ := cut?_completeCall_eq_some_iff.mp hcut
        obtain ⟨v, x, rfl, hv, hx, hn⟩ := parenthesizedCode?_eq_some_iff.mp hcode
        exact ⟨cut?_statusCall_eq_none_iff.mp hnone, u, v, x, rest, rfl, hu, hv, hx,
          Numeral.int32?_eq_some_iff.mp hn⟩
      · exact nomatch h
  · rintro ⟨hstatus, u, v, x, rest, rfl, hu, hv, hx, hn⟩
    have hcode : parenthesizedCode? (v ++ opening ++ (x ++ [')'] ++ rest)) = some (c, rest) :=
      parenthesizedCode?_eq_some_iff.mpr
        ⟨v, x, rfl, hv, hx, Numeral.int32?_eq_some_iff.mpr hn⟩
    rw [ofChars?_complete hstatus hu, hcode]
    rfl

/-! ## Written reports -/

/-- The characters of a status line. -/
lemma toList_statusLine (u v q : String) (n : Int) :
    (u ++ "onStatusUpdate(" ++ v ++ " (" ++ toString n ++ "), " ++ q ++ ")").toList
      = u.toList ++ statusCall ++ (v.toList ++ opening
        ++ ((toString n).toList ++ [')'] ++ (", ".toList ++ q.toList ++ [')']))) := by
  have hcall : "onStatusUpdate(".toList = statusCall := rfl
  have hopening : " (".toList = opening := rfl
  have hcomma : "), ".toList = [')'] ++ ", ".toList := rfl
  have hclosing : ")".toList = [')'] := rfl
  simp only [String.toList_append, hcall, hopening, hcomma, hclosing, List.append_assoc]

/-- The characters of a completion line. -/
lemma toList_completeLine (u v : String) (n : Int) :
    (u ++ "onPayloadApplicationComplete(" ++ v ++ " (" ++ toString n ++ "))").toList
      = u.toList ++ completeCall ++ (v.toList ++ opening
        ++ ((toString n).toList ++ [')'] ++ [')'])) := by
  have hcall : "onPayloadApplicationComplete(".toList = completeCall := rfl
  have hopening : " (".toList = opening := rfl
  have hclosing : "))".toList = [')'] ++ [')'] := rfl
  simp only [String.toList_append, hcall, hopening, hclosing, List.append_assoc]

/-- A number in parentheses is not the name of the status callback. -/
lemma not_statusCall_number (n : Int) :
    ¬statusCall <:+: '(' :: ((toString n).toList ++ [')'] ++ [')']) := by
  intro hin
  have hmem : 'S' ∈ '(' :: ((toString n).toList ++ [')'] ++ [')']) := hin.subset (by decide)
  simp only [List.mem_cons, List.mem_append, List.not_mem_nil, or_false, Char.reduceEq,
    false_or] at hmem
  rcases Numeral.isDigit_or_of_mem_toString hmem with h | h
  · exact nomatch h
  · exact nomatch h

/-! ## Main result -/

/-- **Reports.**  A status line, with any text in front of the callback and any name of the state,
gives the state with its number and the progress, and nothing if there is no such state; a
completion line gives its number.  A line without the name of a callback gives nothing, and a line
gives a completion exactly if it `IsCompletion`. -/
theorem ofLine?_spec :
    (∀ (u v q : String) (n : Int), Numeral.IsInt32 n → ¬statusCall <:+: u.toList →
      ¬opening <:+: v.toList → IsProgress q.toList →
      let line := u ++ "onStatusUpdate(" ++ v ++ " (" ++ toString n ++ "), " ++ q ++ ")"
      (0 ≤ n ∧ n ≤ 10 → ∃ s : State, (s.code : Int) = n ∧
        Event.ofLine? line = some (.status s (progressOf q.toList))) ∧
      (¬(0 ≤ n ∧ n ≤ 10) → Event.ofLine? line = none)) ∧
    (∀ (u v : String) (n : Int), Numeral.IsInt32 n → ¬statusCall <:+: u.toList →
      ¬completeCall <:+: u.toList → ¬statusCall <:+: v.toList → ¬opening <:+: v.toList →
      Event.ofLine? (u ++ "onPayloadApplicationComplete(" ++ v ++ " (" ++ toString n ++ "))")
        = some (.complete n)) ∧
    (∀ line : String, ¬statusCall <:+: line.toList → ¬completeCall <:+: line.toList →
      Event.ofLine? line = none) ∧
    ∀ (line : String) (c : Int),
      Event.ofLine? line = some (.complete c) ↔ IsCompletion line.toList c := by
  refine ⟨fun u v q n hn hu hv hq => ?_, fun u v n hn hu hu' hv hv' => ?_,
    fun line => ofChars?_none, fun line c => ofChars?_eq_complete_iff⟩
  · intro line
    have hline : Event.ofLine? line
        = (State.ofCode? n).map fun s => .status s (progressOf q.toList) := by
      rw [Event.ofLine?, toList_statusLine, ofChars?_status hu (parenthesizedCode?_toString hv hn),
        progress_eq hq]
    refine ⟨fun hcode => ?_, fun hcode => ?_⟩
    · obtain ⟨s, rfl⟩ := (exists_code_iff n).mpr hcode
      exact ⟨s, rfl, by rw [hline, ofCode?_code]; rfl⟩
    · rw [hline, ofCode?_eq_none hcode]
      rfl
  · have hrest : ¬statusCall <:+: v.toList ++ opening
        ++ ((toString n).toList ++ [')'] ++ [')']) := by
      rw [List.append_assoc]
      exact Text.not_infix_append_cons (by decide) hv (not_statusCall_number n)
    rw [Event.ofLine?, toList_completeLine, ofChars?_complete (not_statusCall_append hu hrest) hu',
      parenthesizedCode?_toString hv' hn]
    rfl

/-- Parentheses in front of the callback and in the name of the state do not matter, and a negative
number completes. -/
theorem ofLine?_sample :
    let status := "[W (7)] " ++ "onStatusUpdate(" ++ "DOWN(LOADING)" ++ " (" ++ toString (3 : Int)
      ++ "), " ++ "0.25" ++ ")"
    let complete := "[W (7)] " ++ "onPayloadApplicationComplete(" ++ "kError" ++ " ("
      ++ toString (-1 : Int) ++ "))"
    (Numeral.IsInt32 3 ∧ ¬statusCall <:+: "[W (7)] ".toList ∧
      ¬opening <:+: "DOWN(LOADING)".toList ∧ IsProgress "0.25".toList ∧
      ∃ s : State, (s.code : Int) = 3 ∧
        Event.ofLine? status = some (.status s (progressOf "0.25".toList))) ∧
    Numeral.IsInt32 (-1) ∧ ¬completeCall <:+: "[W (7)] ".toList ∧
      ¬statusCall <:+: "kError".toList ∧ ¬opening <:+: "kError".toList ∧
      Event.ofLine? complete = some (.complete (-1)) ∧ IsCompletion complete.toList (-1) := by
  intro status complete
  have hint : Numeral.IsInt32 3 := by simp [Numeral.IsInt32]
  have hint' : Numeral.IsInt32 (-1) := by simp [Numeral.IsInt32]
  have hfront : ¬statusCall <:+: "[W (7)] ".toList := by decide
  have hfront' : ¬completeCall <:+: "[W (7)] ".toList := by decide
  have hname : ¬opening <:+: "DOWN(LOADING)".toList := by decide
  have hname' : ¬opening <:+: "kError".toList := by decide
  have hother : ¬statusCall <:+: "kError".toList := by decide
  have hprogress : IsProgress "0.25".toList := by
    refine ⟨fun c hc => ?_, fun c hc => ?_⟩
    · obtain rfl := Option.some.inj (show some '0' = some c from hc)
      rfl
    · obtain rfl := Option.some.inj (show some '5' = some c from hc)
      exact ⟨rfl, by decide⟩
  obtain ⟨hstatus, hcomplete, -, hcompletion⟩ := ofLine?_spec
  have hdone := hcomplete _ _ (-1) hint' hfront hfront' hother hname'
  refine ⟨⟨hint, hfront, hname, hprogress, ?_⟩, hint', hfront', hother, hname', hdone, ?_⟩
  · exact (hstatus _ _ _ 3 hint hfront hname hprogress).1 ⟨by decide, by decide⟩
  · exact (hcompletion _ _).mp hdone

end FleetAgent.Update.Engine
