/-
# What passes through a session

The world around a session is what arrives on its web socket and what its process writes.  In a
`Course` of events the listener, whenever it is ready, takes what arrives next; the pump reads any
front piece of what the process has written and it has not read, and meets the end of it when there
is no more; everything else may happen at any moment.

On the way in, what the process has been given and what is being written to it are together the
payloads of what has been taken (`Given`).  On the way out, the pieces sent are a front of what has
been read, all of it as long as the pump runs, and a close frame is what the pump sends when it
stops (`Pumped`).
-/
import FleetAgent.Proofs.Shell.Session

namespace FleetAgent

/-- Whether a listener stops at what arrives. -/
def Channel.Inbound.isLast : Channel.Inbound → Bool
  | .frame (.close _) | .failed | .ended | .silence => true
  | .frame _ => false

/-- What a process is to be given of what arrives. -/
def Channel.Inbound.payload : Channel.Inbound → List UInt8
  | .frame (.binary bytes) => bytes
  | _ => []

namespace Shell.Session

open Channel (Inbound Frame CloseFrame)

/-! ## Courses -/

/-- Whether an event takes neither what arrives nor what the process has written. -/
def Event.isFree : Event → Bool
  | received _ | read _ | sendFailed _ => false
  | _ => true

/-- A course of events of a new session, with what is left of what arrives and of what the process
writes. -/
inductive Course (inbound : List Inbound) (produced : List UInt8) :
    List Event → List Inbound → List UInt8 → Prop where
  | start : Course inbound produced [] inbound produced
  | received {events : List Event} {i : Inbound} {arriving : List Inbound} {left : List UInt8}
      (h : Course inbound produced events (i :: arriving) left)
      (hready : (initial.run events).isListening = true) :
      Course inbound produced (events ++ [.received i]) arriving left
  | read {events : List Event} {arriving : List Inbound} {bytes left : List UInt8}
      (h : Course inbound produced events arriving (bytes ++ left))
      (hpump : .pump ∈ (initial.run events).running) (hpos : 0 < bytes.length)
      (hle : bytes.length ≤ chunkSize) :
      Course inbound produced (events ++ [.read bytes]) arriving left
  | sendFailed {events : List Event} {arriving : List Inbound} {bytes left : List UInt8}
      (h : Course inbound produced events arriving (bytes ++ left))
      (hpump : .pump ∈ (initial.run events).running) (hpos : 0 < bytes.length)
      (hle : bytes.length ≤ chunkSize) :
      Course inbound produced (events ++ [.sendFailed bytes]) arriving left
  /-- No bytes are read at the end of what the process writes. -/
  | endOfFile {events : List Event} {arriving : List Inbound}
      (h : Course inbound produced events arriving [])
      (hpump : .pump ∈ (initial.run events).running) :
      Course inbound produced (events ++ [.read []]) arriving []
  | free {events : List Event} {arriving : List Inbound} {left : List UInt8}
      (h : Course inbound produced events arriving left) (e : Event) (he : e.isFree = true) :
      Course inbound produced (events ++ [e]) arriving left

/-- Whether an event is one of the pump's. -/
def Event.isPump : Event → Bool
  | read _ | sendFailed _ | readFailed | drained | crashed .pump => true
  | _ => false

lemma run_concat (s : Session) (events : List Event) (e : Event) :
    s.run (events ++ [e]) = (s.run events).step e := by
  rw [run, List.foldl_append]
  rfl

/-- No flow runs twice. -/
lemma nodup_running (events : List Event) : (initial.run events).running.Nodup := by
  have hsound : Sound events (initial.run events) := Sound.initial.run events
  have hflows : [Flow.listener, .pump, .waiter].Nodup := by decide
  exact (List.nodup_append.mp (List.nodup_append.mp (hsound.flows.nodup_iff.mpr hflows)).1).1

/-! ## Flows that stop -/

section

variable {s : Session} {f g : Flow}

@[simp] lemma input_finish (s : Session) (f : Flow) : (s.finish f).input = s.input := by
  unfold finish
  split <;> rfl

@[simp] lemma writing_finish (s : Session) (f : Flow) : (s.finish f).writing = s.writing := by
  unfold finish
  split <;> rfl

@[simp] lemma output_finish (s : Session) (f : Flow) : (s.finish f).output = s.output := by
  unfold finish
  split <;> rfl

@[simp] lemma sent_finish (s : Session) (f : Flow) : (s.finish f).sent = s.sent := by
  unfold finish
  split <;> rfl

lemma running_finish (s : Session) (f : Flow) : (s.finish f).running = s.running.erase f := by
  unfold finish
  split
  · rfl
  · next hf => exact (List.erase_of_not_mem (mt List.contains_iff_mem.mpr hf)).symm

lemma mem_running_of_finish (h : g ∈ (s.finish f).running) : g ∈ s.running := by
  rw [running_finish] at h
  exact List.mem_of_mem_erase h

lemma mem_running_finish (hne : g ≠ f) : g ∈ (s.finish f).running ↔ g ∈ s.running := by
  rw [running_finish, List.mem_erase_of_ne hne]

lemma not_mem_running_finish (h : s.running.Nodup) : f ∉ (s.finish f).running := by
  rw [running_finish]
  exact h.not_mem_erase

end

/-! ## To the process -/

/-- What the process has been given, and is being given, is the payload of what has been taken.
Nothing is taken after the listener has stopped. -/
structure Given (taken : List Inbound) (s : Session) : Prop where
  bytes : s.input ++ s.writing = taken.flatMap Inbound.payload
  front : ∀ i ∈ taken.dropLast, i.isLast = false
  running : .listener ∈ s.running → ∀ i ∈ taken, i.isLast = false

/-- Between two sessions nothing has been taken. -/
structure Steady (s s' : Session) : Prop where
  bytes : s'.input ++ s'.writing = s.input ++ s.writing
  running : .listener ∈ s'.running → .listener ∈ s.running

section

variable {s s' : Session} {taken : List Inbound} {i : Inbound}

lemma Steady.refl (s : Session) : Steady s s := ⟨rfl, id⟩

lemma steady_finish (s : Session) (f : Flow) : Steady s (s.finish f) where
  bytes := by simp
  running := mem_running_of_finish

lemma steady_stopPump (s : Session) : Steady s s.stopPump where
  bytes := by simp [stopPump]
  running h := by
    have hmem := mem_running_of_finish h
    exact hmem

/-- Nothing but what arrives is taken. -/
lemma steady_step (s : Session) {e : Event} (he : ∀ i, e ≠ .received i) : Steady s (s.step e) := by
  cases e with
  | received i => exact absurd rfl (he i)
  | wrote n =>
    rw [step]
    split
    · refine ⟨?_, id⟩
      simp only [List.append_assoc, List.take_append_drop]
    · exact .refl s
  | writeFailed | listenerCancelled =>
    rw [step]
    split
    · exact steady_finish s .listener
    · exact .refl s
  | read bytes =>
    rw [step]
    split
    · split
      · exact steady_stopPump s
      · split
        · exact .refl s
        · exact ⟨rfl, id⟩
    · exact .refl s
  | sendFailed bytes =>
    rw [step]
    split
    · exact ⟨(steady_stopPump _).bytes, (steady_stopPump _).running⟩
    · exact .refl s
  | readFailed | drained =>
    rw [step]
    split
    · exact steady_stopPump s
    · exact .refl s
  | exited => exact steady_finish s .waiter
  | crashed f => exact steady_finish s f
  | left f =>
    rw [step, leave]
    split
    · exact ⟨rfl, id⟩
    · exact .refl s
  | noticed =>
    rw [step]
    split
    · exact ⟨rfl, id⟩
    · exact .refl s
  | close | cancel | cancelParent | looked | listened => exact ⟨rfl, id⟩

lemma payload_of_isLast (h : i.isLast = true) : i.payload = [] := by
  cases i with
  | frame f =>
    cases f with
    | close f => rfl
    | text t | binary bytes | ping | pong => cases h
  | failed | ended | silence => rfl

lemma Given.initial : Given [] initial := ⟨rfl, nofun, nofun⟩

lemma Given.steady (h : Given taken s) (hs : Steady s s') : Given taken s' where
  bytes := hs.bytes.trans h.bytes
  front := h.front
  running hrunning := h.running (hs.running hrunning)

/-- What a ready listener takes is added behind what has been taken. -/
lemma Given.received (h : Given taken s) (hready : s.isListening = true)
    (hnodup : s.running.Nodup) : Given (taken ++ [i]) (s.step (.received i)) := by
  rw [step, if_pos hready]
  rw [isListening, Bool.and_eq_true, List.contains_iff_mem, List.isEmpty_iff] at hready
  obtain ⟨hrunning, hwriting⟩ := hready
  have hinput : s.input = taken.flatMap Inbound.payload := by
    rw [← h.bytes, hwriting, List.append_nil]
  have hfront : ∀ j ∈ (taken ++ [i]).dropLast, j.isLast = false := by
    rw [List.dropLast_concat]
    exact h.running hrunning
  -- at the last frame the listener stops, with nothing on its way
  have hlast (hi : i.isLast = true) : Given (taken ++ [i]) (s.finish .listener) := by
    refine ⟨?_, hfront, fun hmem => absurd hmem (not_mem_running_finish hnodup)⟩
    simp [hinput, hwriting, payload_of_isLast hi]
  have hnext (hi : i.isLast = false) : ∀ j ∈ taken ++ [i], j.isLast = false := by
    intro j hj
    rcases List.mem_append.mp hj with hj | hj
    · exact h.running hrunning j hj
    · exact (List.mem_singleton.mp hj) ▸ hi
  -- a frame that is not binary is passed over
  have hpassed (hi : i.isLast = false) (hpayload : i.payload = []) : Given (taken ++ [i]) s := by
    refine ⟨?_, hfront, fun _ => hnext hi⟩
    simp [h.bytes, hpayload]
  cases i with
  | frame f =>
    cases f with
    | binary bytes =>
      refine ⟨?_, hfront, fun _ => hnext rfl⟩
      simp [listen, hinput, Inbound.payload]
    | close f => exact hlast rfl
    | text t | ping | pong => exact hpassed rfl rfl
  | failed | ended | silence => exact hlast rfl

/-- What comes before the first item at which the listener stops has all payloads taken. -/
lemma Given.input_prefix (h : Given taken s) (arriving : List Inbound) :
    s.input <+: ((taken ++ arriving).takeWhile fun i => !i.isLast).flatMap Inbound.payload := by
  have hbefore {front rest : List Inbound} (hfront : ∀ i ∈ front, i.isLast = false) :
      front.flatMap Inbound.payload <+:
        ((front ++ rest).takeWhile fun i => !i.isLast).flatMap Inbound.payload := by
    rw [List.takeWhile_append_of_pos fun i hi => by simp [hfront i hi], List.flatMap_append]
    exact List.prefix_append _ _
  have hinput : s.input <+: taken.flatMap Inbound.payload := h.bytes ▸ List.prefix_append _ _
  refine hinput.trans ?_
  rcases List.eq_nil_or_concat' taken with rfl | ⟨front, last, rfl⟩
  · exact List.nil_prefix
  · have hfront : ∀ i ∈ front, i.isLast = false := by
      simpa using h.front
    cases hlast : last.isLast with
    | true =>
      rw [List.flatMap_append, List.flatMap_singleton, payload_of_isLast hlast, List.append_nil,
        List.append_assoc]
      exact hbefore hfront
    | false =>
      refine hbefore fun i hi => ?_
      rcases List.mem_append.mp hi with hi | hi
      · exact hfront i hi
      · exact (List.mem_singleton.mp hi) ▸ hlast

end

/-! ## From the process -/

/-- The frame that the pump sends when it stops. -/
def closing : Frame := .close (some CloseFrame.normal)

/-- What the pump has read and sent.  Of what the process writes, `left` has not been read. -/
structure Pumped (produced : List UInt8) (events : List Event) (s : Session) (left : List UInt8)
    (chunks : List (List UInt8)) : Prop where
  read : s.output ++ left = produced
  sizes : ∀ chunk ∈ chunks, 0 < chunk.length ∧ chunk.length ≤ chunkSize
  front : chunks.flatten <+: s.output
  sent : s.sent = chunks.map .binary ∨ s.sent = chunks.map .binary ++ [closing]
  running : .pump ∈ s.running → s.sent = chunks.map .binary ∧ chunks.flatten = s.output
  stopped : .pump ∉ s.running → .crashed .pump ∉ events → s.sent = chunks.map .binary ++ [closing]
  /-- At the end of its output, all that the process has written has been sent. -/
  whole : .read [] ∈ events → .pump ∉ s.running ∧ chunks.flatten = produced

/-- Between two sessions the pump has done nothing. -/
structure Quiet (s s' : Session) : Prop where
  output : s'.output = s.output
  sent : s'.sent = s.sent
  running : .pump ∈ s'.running ↔ .pump ∈ s.running

section

variable {s s' : Session} {e : Event} {events : List Event} {produced bytes left : List UInt8}
  {chunks : List (List UInt8)}

lemma Quiet.refl (s : Session) : Quiet s s := ⟨rfl, rfl, .rfl⟩

lemma quiet_finish (s : Session) {f : Flow} (hf : .pump ≠ f) : Quiet s (s.finish f) where
  output := output_finish s f
  sent := sent_finish s f
  running := mem_running_finish hf

lemma quiet_listen (s : Session) (i : Inbound) : Quiet s (s.listen i) := by
  cases i with
  | frame f =>
    cases f with
    | close f => exact quiet_finish s (by decide)
    | text t | binary bytes | ping | pong => exact ⟨rfl, rfl, .rfl⟩
  | failed | ended | silence => exact quiet_finish s (by decide)

/-- What the others do leaves the pump alone, and nothing makes one run that has stopped. -/
lemma quiet_step (s : Session) (he : e.isPump = true → .pump ∉ s.running) :
    Quiet s (s.step e) := by
  have hcontains (hpump : .pump ∉ s.running) : ¬s.running.contains .pump = true :=
    mt List.contains_iff_mem.mp hpump
  cases e with
  | received i =>
    rw [step]
    split
    · exact quiet_listen s i
    · exact .refl s
  | wrote n =>
    rw [step]
    split
    · exact ⟨rfl, rfl, .rfl⟩
    · exact .refl s
  | writeFailed | listenerCancelled =>
    rw [step]
    split
    · exact quiet_finish s (by decide)
    · exact .refl s
  | read bytes | sendFailed bytes | readFailed =>
    rw [step, if_neg (hcontains (he rfl))]
    exact .refl s
  | drained =>
    rw [step, if_neg fun h => hcontains (he rfl) (Bool.and_eq_true _ _ ▸ h).1]
    exact .refl s
  | exited => exact quiet_finish s (by decide)
  | crashed f =>
    cases f with
    | pump =>
      rw [step, finish, if_neg (hcontains (he rfl))]
      exact .refl s
    | listener | waiter => exact quiet_finish s (by decide)
  | left f =>
    rw [step, leave]
    split
    · exact ⟨rfl, rfl, .rfl⟩
    · exact .refl s
  | noticed =>
    rw [step]
    split
    · exact ⟨rfl, rfl, .rfl⟩
    · exact .refl s
  | close | cancel | cancelParent | looked | listened => exact ⟨rfl, rfl, .rfl⟩

/-- A pump that has stopped sends nothing any more. -/
lemma sent_run_of_not_mem (hpump : .pump ∉ s.running) (later : List Event) :
    (s.run later).sent = s.sent := by
  induction later generalizing s with
  | nil => rfl
  | cons e later ih =>
    have hquiet : Quiet s (s.step e) := quiet_step s fun _ => hpump
    exact (ih (mt hquiet.running.mp hpump)).trans hquiet.sent

lemma Pumped.initial (produced : List UInt8) : Pumped produced [] initial produced [] where
  read := rfl
  sizes := nofun
  front := List.nil_prefix
  sent := .inl rfl
  running _ := ⟨rfl, rfl⟩
  stopped h := absurd (by decide) h
  whole := nofun

lemma Pumped.quiet (h : Pumped produced events s left chunks) (hs : Quiet s s')
    (he : e ≠ .read []) : Pumped produced (events ++ [e]) s' left chunks where
  read := by rw [hs.output, h.read]
  sizes := h.sizes
  front := by
    rw [hs.output]
    exact h.front
  sent := by
    rw [hs.sent]
    exact h.sent
  running hpump := by
    rw [hs.sent, hs.output]
    exact h.running (hs.running.mp hpump)
  stopped hpump hcrash := by
    rw [hs.sent]
    exact h.stopped (mt hs.running.mpr hpump) fun hmem => hcrash (List.mem_append_left _ hmem)
  whole hend := by
    rcases List.mem_append.mp hend with hend | hend
    · exact ⟨mt hs.running.mp (h.whole hend).1, (h.whole hend).2⟩
    · exact absurd (List.mem_singleton.mp hend).symm he

/-- A pump that runs has not met the end of the output. -/
lemma Pumped.not_mem_of_running (h : Pumped produced events s left chunks)
    (hpump : .pump ∈ s.running) : .read [] ∉ events :=
  fun hend => (h.whole hend).1 hpump

/-- A pump that crashes sends no close frame. -/
lemma Pumped.crashed (h : Pumped produced events s left chunks) (hpump : .pump ∈ s.running)
    (hnodup : s.running.Nodup) :
    Pumped produced (events ++ [.crashed .pump]) (s.finish .pump) left chunks := by
  obtain ⟨hsent, hall⟩ := h.running hpump
  have hstopped : .pump ∉ (s.finish .pump).running := not_mem_running_finish hnodup
  refine ⟨?_, h.sizes, ?_, .inl ?_, fun hmem => absurd hmem hstopped, ?_, ?_⟩
  · rw [output_finish, h.read]
  · rw [output_finish]
    exact h.front
  · rw [sent_finish, hsent]
  · intro _ hcrash
    exact absurd (List.mem_append_right _ (List.mem_singleton_self _)) hcrash
  · intro hend
    have hmem : .read [] ∈ events := by simpa using hend
    exact absurd hmem (h.not_mem_of_running hpump)

/-- A pump that stops, be it with bytes that could not be sent, sends the close frame. -/
lemma Pumped.stop (h : Pumped produced events s (bytes ++ left) chunks)
    (hpump : .pump ∈ s.running) (hnodup : s.running.Nodup)
    (hend : e = .read [] → bytes = [] ∧ left = []) :
    Pumped produced (events ++ [e]) { s with output := s.output ++ bytes }.stopPump left
      chunks := by
  obtain ⟨hsent, hall⟩ := h.running hpump
  have hstopped : .pump ∉ ({ s with output := s.output ++ bytes }.stopPump).running :=
    not_mem_running_finish hnodup
  have houtput : ({ s with output := s.output ++ bytes }.stopPump).output = s.output ++ bytes :=
    output_finish _ _
  have hclosed : ({ s with output := s.output ++ bytes }.stopPump).sent =
      chunks.map .binary ++ [closing] := by
    rw [← hsent]
    exact sent_finish _ _
  refine ⟨?_, h.sizes, ?_, .inr hclosed, fun hmem => absurd hmem hstopped, fun _ _ => hclosed, ?_⟩
  · rw [houtput, List.append_assoc, h.read]
  · rw [houtput, hall]
    exact List.prefix_append _ _
  · intro hmem
    rcases List.mem_append.mp hmem with hmem | hmem
    · exact absurd hmem (h.not_mem_of_running hpump)
    · obtain ⟨rfl, rfl⟩ := hend (List.mem_singleton.mp hmem).symm
      refine ⟨hstopped, ?_⟩
      rw [hall, ← h.read, List.append_nil, List.append_nil]

/-- A pump that stops with nothing in its hands. -/
lemma Pumped.halt (h : Pumped produced events s left chunks) (hpump : .pump ∈ s.running)
    (hnodup : s.running.Nodup) (hend : e = .read [] → left = []) :
    Pumped produced (events ++ [e]) s.stopPump left chunks := by
  have hstopped : Pumped produced (events ++ [e]) { s with output := s.output ++ [] }.stopPump left
      chunks := Pumped.stop h hpump hnodup fun he => ⟨rfl, hend he⟩
  rw [List.append_nil] at hstopped
  exact hstopped

/-- A piece that is read and sent. -/
lemma Pumped.chunk (h : Pumped produced events s (bytes ++ left) chunks)
    (hpump : .pump ∈ s.running) (hpos : 0 < bytes.length) (hle : bytes.length ≤ chunkSize) :
    Pumped produced (events ++ [.read bytes]) (s.step (.read bytes)) left (chunks ++ [bytes]) := by
  have hempty : ¬bytes.isEmpty = true := by
    rw [List.isEmpty_iff]
    exact List.ne_nil_of_length_pos hpos
  have hstep : s.step (.read bytes) =
      { s with output := s.output ++ bytes, sent := s.sent ++ [.binary bytes] } := by
    rw [step, if_pos (List.contains_iff_mem.mpr hpump), if_neg hempty, if_neg (Nat.not_lt.mpr hle)]
  obtain ⟨hsent, hall⟩ := h.running hpump
  have hmap : s.sent ++ [.binary bytes] = (chunks ++ [bytes]).map Frame.binary := by
    rw [hsent, List.map_append, List.map_singleton]
  have hflatten : (chunks ++ [bytes]).flatten = s.output ++ bytes := by
    rw [List.flatten_append, List.flatten_singleton, hall]
  rw [hstep]
  refine ⟨?_, ?_, ?_, .inl hmap, fun _ => ⟨hmap, hflatten⟩, fun hmem => absurd hpump hmem, ?_⟩
  · rw [List.append_assoc, h.read]
  · intro chunk hchunk
    rcases List.mem_append.mp hchunk with hchunk | hchunk
    · exact h.sizes chunk hchunk
    · obtain rfl := List.mem_singleton.mp hchunk
      exact ⟨hpos, hle⟩
  · exact ⟨[], (List.append_nil _).trans hflatten⟩
  · intro hmem
    rcases List.mem_append.mp hmem with hmem | hmem
    · exact absurd hmem (h.not_mem_of_running hpump)
    · obtain rfl : [] = bytes := Event.read.inj (List.mem_singleton.mp hmem)
      exact absurd hpos (Nat.lt_irrefl 0)

/-- Besides reading, the pump does nothing, or it crashes or stops. -/
lemma Pumped.free (h : Pumped produced events s left chunks) (hnodup : s.running.Nodup)
    (he : e.isFree = true) : Pumped produced (events ++ [e]) (s.step e) left chunks := by
  have hread : e ≠ .read [] := by
    rintro rfl
    cases he
  by_cases hidle : e.isPump = true → .pump ∉ s.running
  · exact h.quiet (quiet_step s hidle) hread
  · rw [Classical.not_imp, not_not] at hidle
    obtain ⟨hown, hpump⟩ := hidle
    have hcontains : s.running.contains .pump = true := List.contains_iff_mem.mpr hpump
    have hstop : Pumped produced (events ++ [e]) s.stopPump left chunks :=
      h.halt hpump hnodup fun hend => absurd hend hread
    cases e with
    | readFailed =>
      rw [step, if_pos hcontains]
      exact hstop
    | drained =>
      rw [step]
      split
      · exact hstop
      · exact h.quiet (.refl s) hread
    | crashed f =>
      cases f with
      | pump => exact h.crashed hpump hnodup
      | listener | waiter => cases hown
    | read bytes | sendFailed bytes => cases he
    | _ => cases hown

end

/-! ## Whole courses -/

section

variable {inbound arriving : List Inbound} {produced left : List UInt8} {events : List Event}

lemma Course.given (h : Course inbound produced events arriving left) :
    ∃ taken, inbound = taken ++ arriving ∧ Given taken (initial.run events) := by
  induction h with
  | start => exact ⟨[], rfl, .initial⟩
  | @received events i arriving left _ hready ih =>
    obtain ⟨taken, htaken, hgiven⟩ := ih
    refine ⟨taken ++ [i], by simp [htaken], ?_⟩
    rw [run_concat]
    exact hgiven.received hready (nodup_running events)
  | read _ _ _ _ ih | sendFailed _ _ _ _ ih | endOfFile _ _ ih =>
    obtain ⟨taken, htaken, hgiven⟩ := ih
    refine ⟨taken, htaken, ?_⟩
    rw [run_concat]
    exact hgiven.steady (steady_step _ nofun)
  | free _ e he ih =>
    obtain ⟨taken, htaken, hgiven⟩ := ih
    refine ⟨taken, htaken, ?_⟩
    rw [run_concat]
    refine hgiven.steady (steady_step _ ?_)
    rintro i rfl
    cases he

lemma Course.pumped (h : Course inbound produced events arriving left) :
    ∃ chunks, Pumped produced events (initial.run events) left chunks := by
  induction h with
  | start => exact ⟨[], .initial produced⟩
  | received _ _ ih =>
    obtain ⟨chunks, hpumped⟩ := ih
    refine ⟨chunks, ?_⟩
    rw [run_concat]
    exact hpumped.quiet (quiet_step _ fun he => by cases he) (by rintro ⟨⟩)
  | @read events arriving bytes left _ hpump hpos hle ih =>
    obtain ⟨chunks, hpumped⟩ := ih
    refine ⟨chunks ++ [bytes], ?_⟩
    rw [run_concat]
    exact hpumped.chunk hpump hpos hle
  | @sendFailed events arriving bytes left _ hpump _ _ ih =>
    obtain ⟨chunks, hpumped⟩ := ih
    refine ⟨chunks, ?_⟩
    rw [run_concat, step, if_pos (List.contains_iff_mem.mpr hpump)]
    exact hpumped.stop hpump (nodup_running events) (by rintro ⟨⟩)
  | @endOfFile events arriving _ hpump ih =>
    obtain ⟨chunks, hpumped⟩ := ih
    refine ⟨chunks, ?_⟩
    rw [run_concat, step, if_pos (List.contains_iff_mem.mpr hpump), if_pos (List.isEmpty_nil)]
    exact hpumped.halt hpump (nodup_running events) fun _ => rfl
  | free _ e he ih =>
    obtain ⟨chunks, hpumped⟩ := ih
    refine ⟨chunks, ?_⟩
    rw [run_concat]
    exact hpumped.free (nodup_running _) he

end

/-- **Bytes pass in order.**  What has been taken from the web socket is a front of what arrives,
none of it after a close frame, a failure, the end of the stream or too long a silence; and what the
process has been given, with what is still to be written to it, is the payloads of the binary frames
in it, in order.  So the process has been given a front of the payloads that come before the first
of those.  What the pump has read and what is left are all that the process writes.  The pump sends
what it has read in pieces of 1 to 4096 bytes, each in a binary frame, and they make up a front of
that; all of it, once the pump has met its end, whoever closed the session before.  As long as the
pump runs it has sent nothing else, and all that it has read; when it has stopped it has sent one
close frame with code 1000 behind the pieces, unless it has crashed, and nothing is sent after it. -/
theorem bytes_pass_in_order {inbound arriving : List Inbound} {produced left : List UInt8}
    {events : List Event} (h : Course inbound produced events arriving left) :
    let s := initial.run events
    (∃ taken, inbound = taken ++ arriving ∧ (∀ i ∈ taken.dropLast, i.isLast = false) ∧
      s.input ++ s.writing = taken.flatMap Inbound.payload) ∧
    s.input <+: (inbound.takeWhile fun i => !i.isLast).flatMap Inbound.payload ∧
    s.output ++ left = produced ∧
    ∃ chunks : List (List UInt8),
      (∀ chunk ∈ chunks, 1 ≤ chunk.length ∧ chunk.length ≤ 4096) ∧
      chunks.flatten <+: produced ∧
      (.read [] ∈ events → chunks.flatten = produced) ∧
      (s.sent = chunks.map .binary ∨
        s.sent = chunks.map .binary ++ [.close (some ⟨1000, "shell connection closed"⟩)]) ∧
      (.pump ∈ s.running → s.sent = chunks.map .binary ∧ chunks.flatten = s.output) ∧
      (.pump ∉ s.running → (.crashed .pump ∉ events →
          s.sent = chunks.map .binary ++ [.close (some ⟨1000, "shell connection closed"⟩)]) ∧
        ∀ later, (s.run later).sent = s.sent) := by
  intro s
  obtain ⟨taken, htaken, hgiven⟩ := h.given
  obtain ⟨chunks, hpumped⟩ := h.pumped
  refine ⟨⟨taken, htaken, hgiven.front, hgiven.bytes⟩, ?_, hpumped.read, chunks, hpumped.sizes, ?_,
    ?_, hpumped.sent, hpumped.running, ?_⟩
  · rw [htaken]
    exact hgiven.input_prefix arriving
  · rw [← hpumped.read]
    exact hpumped.front.trans (List.prefix_append _ _)
  · intro hend
    exact (hpumped.whole hend).2
  · intro hpump
    exact ⟨hpumped.stopped hpump, fun later => sent_run_of_not_mem hpump later⟩

/-- The process exits while a frame is written to it; the pump goes on to the end of the output. -/
theorem bytes_pass_in_order_sample :
    let inbound : List Inbound :=
      [.frame (.binary [1, 2]), .frame .ping, .frame (.binary [3]), .frame (.close none)]
    let events : List Event :=
      [.received (.frame (.binary [1, 2])), .wrote 1, .read [7], .wrote 1, .received (.frame .ping),
        .received (.frame (.binary [3])), .exited, .listenerCancelled, .read [8, 9], .read []]
    let s := initial.run events
    Course inbound [7, 8, 9] events [.frame (.close none)] [] ∧ s.input <+: [1, 2, 3] ∧
      ∃ chunks : List (List UInt8), chunks.flatten = [7, 8, 9] ∧
        s.sent = chunks.map .binary ++ [.close (some ⟨1000, "shell connection closed"⟩)] := by
  intro inbound events s
  have hcourse : Course inbound [7, 8, 9] events [.frame (.close none)] [] := by
    have hstart : Course inbound [7, 8, 9] [] inbound ([7] ++ [8, 9]) := .start
    have hpiece : Course inbound [7, 8, 9] (events.take 3) inbound.tail ([8, 9] ++ []) :=
      ((hstart.received rfl).free (.wrote 1) rfl).read (by decide) (by decide) (by decide)
    have hsecond := ((hpiece.free (.wrote 1) rfl).received rfl).received rfl
    have hexited := (hsecond.free .exited rfl).free .listenerCancelled rfl
    exact (hexited.read (by decide) (by decide) (by decide)).endOfFile (by decide)
  obtain ⟨-, hinput, -, chunks, -, -, hwhole, -, -, hstopped⟩ := bytes_pass_in_order hcourse
  have hpump : .pump ∉ s.running := by decide
  have hcrashed : .crashed .pump ∉ events := by decide
  exact ⟨hcourse, hinput, chunks, hwhole (by decide), (hstopped hpump).1 hcrashed⟩

end Shell.Session

end FleetAgent
