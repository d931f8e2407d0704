/-
# The entries that a walk passes

Where the entries of an archive stand does not depend on what they hold.  `Passes` is the way of a
walk along entries that can be read and whose data lies inside the archive, whether or not what they
hold is refused.  A walk that gets that far has visited these entries in their order
(`Passes.walk_eq`), so a search either fails at one of them, with what its visit tells, or goes on
from there (`Passes.find_eq`).
-/
import FleetAgent.Proofs.Update.Faultless

namespace FleetAgent.Update.Payload

open FleetAgent.Archive

/-- The entries from one position to another, as they are read one after the other. -/
inductive Passes (archive : List UInt8) (directory : Except Failure Directory) :
    Nat → List Entry → Nat → Prop where
  | nil (pos : Nat) : Passes archive directory pos [] pos
  | cons (pos : Nat) (e : Entry) (es : List Entry) (stop : Nat) (hbegins : BeginsAt archive pos)
      (hentry : Entry.ofArchive archive directory pos = .ok e)
      (hinside : e.dataOffset + e.storedSize ≤ archive.length)
      (hlater : Passes archive directory (e.dataOffset + e.storedSize + e.descriptorSize archive)
        es stop) :
      Passes archive directory pos (e :: es) stop

/-- What has been found once entries have been visited. -/
def visitAll (archive : List UInt8) (es : List Entry) (found : Found) : Except Failure Found :=
  es.foldlM (fun found e => found.visit archive e) found

variable {archive : List UInt8} {directory : Except Failure Directory} {pos stop : Nat} {e : Entry}
  {es : List Entry} {found : Found}

lemma visitAll_cons (archive : List UInt8) (e : Entry) (es : List Entry) (found : Found) :
    visitAll archive (e :: es) found = found.visit archive e >>= visitAll archive es :=
  List.foldlM_cons

lemma visitAll_append (archive : List UInt8) (es es' : List Entry) (found : Found) :
    visitAll archive (es ++ es') found = visitAll archive es found >>= visitAll archive es' :=
  List.foldlM_append

/-! ## Steps -/

lemma entryBegins_of_beginsAt (hfile : archive.length < Numeral.signed64End)
    (h : BeginsAt archive pos) : entryBegins archive pos = .ok true := by
  obtain ⟨hroom, hsignature⟩ := h
  have hread : read32 archive pos = .ok entrySignature :=
    hsignature ▸ read32_eq_numberAt hroom (by omega)
  simp [entryBegins, add_eq_ok_of_le hroom hfile, Nat.not_lt.mpr hroom, hread, bind, Except.bind,
    pure, Except.pure]

/-- Behind an entry there may be anything else. -/
lemma entryBegins_of_not_beginsAt (hfile : archive.length < Numeral.signed64End) (hpos : 0 < pos)
    (hle : pos ≤ archive.length + 24) (h : ¬ BeginsAt archive pos) :
    entryBegins archive pos = .ok false := by
  have hadd : add pos 4 = .ok (pos + 4) := add_eq_ok_of_near (by omega) hfile
  by_cases hroom : pos + 4 ≤ archive.length
  · have hother : numberAt archive pos 4 ≠ entrySignature := fun hbegins => h ⟨hroom, hbegins⟩
    simp [entryBegins, hadd, Nat.not_lt.mpr hroom, read32_eq_numberAt hroom (by omega), hother,
      Nat.ne_of_gt hpos, bind, Except.bind, pure, Except.pure]
  · simp [entryBegins, hadd, Nat.lt_of_not_le hroom, bind, Except.bind, pure, Except.pure]

/-- A step visits the entry that is read and goes on behind it. -/
lemma step_of_ofArchive (hfile : archive.length < Numeral.signed64End)
    (he : Entry.ofArchive archive directory pos = .ok e)
    (hinside : e.dataOffset + e.storedSize ≤ archive.length) :
    step archive directory pos found = (found.visit archive e).map
      fun found => (e.dataOffset + e.storedSize + e.descriptorSize archive, found) := by
  simp only [step, he, Nat.not_lt.mpr hinside, if_false, stop_eq hfile hinside, bind, Except.bind,
    pure, Except.pure]
  rfl

/-- A walk ends where no entry begins. -/
lemma walk_of_stop (hstop : entryBegins archive stop = .ok false) (fuel : Nat) :
    walk archive directory (fuel + 1) stop = .ok := by
  funext found
  rw [walk, hstop]
  rfl

/-! ## Walks -/

namespace Passes

lemma le_stop (h : Passes archive directory pos es stop) :
    pos + headerLength * es.length ≤ stop := by
  induction h with
  | nil pos => exact Nat.le_refl _
  | cons pos e es stop hbegins hentry hinside hlater ih =>
    have hoffset := (standsAt_of_ofArchive hentry).dataOffset_eq
    rw [List.length_cons, Nat.mul_succ]
    omega

/-- If there are entries, the last one does not stop far behind the archive. -/
lemma stop_le (h : Passes archive directory pos es stop) (hpos : pos ≤ archive.length + 24) :
    stop ≤ archive.length + 24 := by
  induction h with
  | nil pos => exact hpos
  | cons pos e es stop hbegins hentry hinside hlater ih =>
    have hdescriptor := descriptorSize_le e archive
    exact ih (by omega)

lemma inside (h : Passes archive directory pos es stop) (he : e ∈ es) :
    e.dataOffset + e.storedSize ≤ archive.length := by
  induction h with
  | nil pos => exact absurd he List.not_mem_nil
  | cons pos e' es stop hbegins hentry hinside hlater ih =>
    rcases List.mem_cons.mp he with rfl | he
    · exact hinside
    · exact ih he

/-- A walk visits the entries that it passes, and goes on behind them. -/
lemma walk_eq (hfile : archive.length < Numeral.signed64End)
    (h : Passes archive directory pos es stop) (fuel : Nat) (found : Found) :
    walk archive directory (fuel + es.length) pos found =
      visitAll archive es found >>= walk archive directory fuel stop := by
  induction h generalizing found with
  | nil pos => rfl
  | cons pos e es stop hbegins hentry hinside hlater ih =>
    rw [List.length_cons, ← Nat.add_assoc, walk, entryBegins_of_beginsAt hfile hbegins,
      visitAll_cons]
    simp only [bind, Except.bind, if_true, step_of_ofArchive hfile hentry hinside]
    cases found.visit archive e with
    | error failure => rfl
    | ok visited => exact ih visited

/-- A search visits the entries in front of a position that is not far behind the archive. -/
lemma find_eq (hfile : archive.length < Numeral.signed64End)
    (h : Passes archive (Directory.ofArchive archive) 0 es stop) :
    ∃ fuel, find archive =
      visitAll archive es ⟨none, none⟩ >>=
        walk archive (Directory.ofArchive archive) (fuel + 1) stop := by
  have hle := h.le_stop
  have hend := h.stop_le (Nat.zero_le _)
  simp only [headerLength] at hle
  refine ⟨archive.length - es.length, ?_⟩
  rw [← h.walk_eq hfile, find]
  exact congrArg (fun fuel => walk archive _ fuel 0 _) (by omega)

/-- A search that passes entries up to where no entry begins finds what their visits find. -/
lemma find_eq_visitAll (hfile : archive.length < Numeral.signed64End)
    (h : Passes archive (Directory.ofArchive archive) 0 es stop)
    (hbehind : ¬BeginsAt archive stop) (hes : es ≠ []) :
    find archive = visitAll archive es ⟨none, none⟩ := by
  have hle := h.le_stop
  have hpos := List.length_pos_iff.mpr hes
  simp only [headerLength] at hle
  have hstop := entryBegins_of_not_beginsAt hfile (by omega) (h.stop_le (Nat.zero_le _)) hbehind
  obtain ⟨fuel, hfind⟩ := h.find_eq hfile
  rw [hfind, walk_of_stop hstop]
  exact bind_pure _

end Passes

end FleetAgent.Update.Payload
