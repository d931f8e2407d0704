/-
# Addresses of tunnels

The texts of a request go into the address of its tunnel as they were given.  Which texts are
accepted is told by the spellings of identifiers and hardware addresses (`Request.IsAccepted`), and
all of these are harmless in a path (`IsSegment`): they are long, so that they are no dots, and none
of their characters ends a segment or the path, or can stand for such a character.

So the address of an accepted request leads below the base address to the place that the handler
means, and to no other (`Request.url_spec`).  A request that is not accepted is counted, and nothing
else happens about it.
-/
import FleetAgent.Proofs.Device.Mac
import FleetAgent.Proofs.Shell.Spelling
import FleetAgent.Proofs.Uuid
import FleetAgent.Shell.Request

namespace FleetAgent.Shell

open Text.Hex (IsDigit)

variable {text base : String} {r : Request} {c : Char}

/-! ## Segments -/

/-- The characters that end a segment or a path, or can stand for one that does. -/
def reserved : List Char := ['/', '\\', '?', '#', '%', '@']

lemma forall_reserved {p : Char → Prop} :
    (∀ c ∈ reserved, p c) ↔ p '/' ∧ p '\\' ∧ p '?' ∧ p '#' ∧ p '%' ∧ p '@' := by
  simp [reserved]

/-- A segment of a path that stands for nothing but itself. -/
structure IsSegment (text : String) : Prop where
  ne_empty : text ≠ ""
  ne_dot : text ≠ "."
  ne_dots : text ≠ ".."
  plain : ∀ c ∈ text.toList, c ∉ reserved

lemma isSegment_of_length (hlength : 3 ≤ text.toList.length)
    (hplain : ∀ c ∈ text.toList, c ∉ reserved) : IsSegment text where
  ne_empty := by
    rintro rfl
    exact absurd hlength (by decide)
  ne_dot := by
    rintro rfl
    exact absurd hlength (by decide)
  ne_dots := by
    rintro rfl
    exact absurd hlength (by decide)
  plain := hplain

lemma isSegment_mac (h : Device.Mac.IsSpelling text.toList) : IsSegment text := by
  have hreserved : ∀ c ∈ reserved,
      ¬(Text.isBlank c = true ∨ IsDigit c ∨ Device.Mac.isSeparator c = true) :=
    forall_reserved.mpr (by decide)
  exact isSegment_of_length (by have := h.le_length; omega)
    fun c hc hmem => hreserved c hmem (h.mem hc)

lemma isSegment_session (h : Uuid.IsSpelling text.toList) : IsSegment text := by
  have hreserved : ∀ c ∈ reserved, ¬(IsDigit c ∨ c ∈ ['-', '\x7b', '\x7d'] ++ Uuid.urn) :=
    forall_reserved.mpr (by decide)
  exact isSegment_of_length (by have := h.le_length; omega)
    fun c hc hmem => hreserved c hmem (h.mem hc)

/-! ## Accepted requests -/

/-- The session is a spelling of an identifier, and the address one of a hardware address. -/
structure Request.IsAccepted (r : Request) : Prop where
  session : Uuid.IsSpelling r.session.toList
  mac : Device.Mac.IsSpelling r.mac.toList

lemma Request.validate_eq_ok_iff : r.validate = .ok () ↔ r.IsAccepted := by
  have huuid : Uuid.ofString? r.session ≠ none ↔ Uuid.IsSpelling r.session.toList :=
    Option.isSome_iff_ne_none.symm.trans Uuid.isSome_ofChars?_iff
  have hmac : Device.Mac.ofString? r.mac ≠ none ↔ Device.Mac.IsSpelling r.mac.toList :=
    Option.isSome_iff_ne_none.symm.trans (Device.Mac.isSome_ofString?_iff r.mac)
  rw [Request.validate]
  constructor
  · intro h
    split_ifs at h with hsession haddress
    exact ⟨huuid.mp (by simpa using hsession), hmac.mp (by simpa using haddress)⟩
  · rintro ⟨hsession, haddress⟩
    rw [if_neg (by simpa using huuid.mpr hsession), if_neg (by simpa using hmac.mpr haddress)]

/-! ## Paths -/

/-- The path of the tunnel for a request. -/
def Request.path (r : Request) : String :=
  "/api/v1/devices/" ++ r.mac ++ "/shell/attach/" ++ r.session

lemma Request.url_eq (base : String) (r : Request) :
    r.url base = Server.withoutSlashes base ++ r.path := by
  have happend (a b c d e : String) : a ++ b ++ c ++ d ++ e = a ++ (b ++ c ++ d ++ e) := by
    simp only [String.append_assoc]
  exact happend _ _ _ _ _

/-- The segments of the path. -/
def Request.segments (r : Request) : List String :=
  ["", "api", "v1", "devices", r.mac, "shell", "attach", r.session]

lemma Request.toList_path (r : Request) :
    r.path.toList = ['/'].intercalate (r.segments.map String.toList) := by
  have hdevices : "/api/v1/devices/".toList
      = "".toList ++ '/' :: ("api".toList ++ '/' :: ("v1".toList ++ '/' ::
        ("devices".toList ++ ['/']))) := rfl
  have hattach : "/shell/attach/".toList
      = '/' :: ("shell".toList ++ '/' :: ("attach".toList ++ ['/'])) := rfl
  unfold Request.path Request.segments
  rw [String.toList_append, String.toList_append, String.toList_append, hdevices, hattach]
  simp only [List.map_cons, List.map_nil, List.intercalate_cons_cons, List.intercalate_singleton,
    List.append_assoc, List.cons_append, List.nil_append]

/-- The path consists of the segments, and nothing else cuts it. -/
lemma Request.separated_path (hmac : '/' ∉ r.mac.toList) (hsession : '/' ∉ r.session.toList) :
    Text.Separated (· == '/') r.path.toList (r.segments.map String.toList) := by
  have hfixed : ∀ text ∈ ["", "api", "v1", "devices", "shell", "attach"], '/' ∉ text.toList := by
    decide
  have hsegments : ∀ text ∈ r.segments, '/' ∉ text.toList := by
    simp only [segments, List.forall_mem_cons] at hfixed ⊢
    tauto
  rw [r.toList_path]
  refine Text.separated_intercalate (beq_self_eq_true '/') ?_ (List.cons_ne_nil _ _)
  rintro _ hpiece c hc
  obtain ⟨text, htext, rfl⟩ := List.mem_map.mp hpiece
  exact beq_eq_false_iff_ne.mpr (ne_of_mem_of_not_mem hc (hsegments text htext))

/-- No segment, and so no part of the path, has one of the other reserved characters. -/
lemma Request.not_mem_path (hmac : c ∉ r.mac.toList) (hsession : c ∉ r.session.toList)
    (hc : c ∈ reserved) (hslash : c ≠ '/') : c ∉ r.path.toList := by
  have hfixed : ∀ c ∈ reserved,
      c = '/' ∨ c ∉ "/api/v1/devices/".toList ∧ c ∉ "/shell/attach/".toList :=
    forall_reserved.mpr (by decide)
  obtain ⟨hdevices, hattach⟩ := (hfixed c hc).resolve_left hslash
  unfold Request.path
  rw [String.toList_append, String.toList_append, String.toList_append]
  simp only [List.mem_append]
  rintro (((h | h) | h) | h)
  · exact hdevices h
  · exact hmac h
  · exact hattach h
  · exact hsession h

lemma Request.IsAccepted.splitOn_path (h : r.IsAccepted) :
    (r.path.toList.splitOn '/').map String.ofList = r.segments := by
  have hslash {text : String} (h : IsSegment text) : '/' ∉ text.toList := fun hmem =>
    h.plain _ hmem (by decide)
  have hsplit := (r.separated_path (hslash (isSegment_mac h.mac))
    (hslash (isSegment_session h.session))).splitOnP_eq
  rw [List.splitOn, hsplit, List.map_map]
  simp

lemma Request.IsAccepted.plain_path (h : r.IsAccepted) (hc : c ∈ r.path.toList) :
    c ∈ reserved → c = '/' := by
  intro hreserved
  by_contra hslash
  exact not_mem_path (fun hmem => (isSegment_mac h.mac).plain c hmem hreserved)
    (fun hmem => (isSegment_session h.session).plain c hmem hreserved) hreserved hslash hc

/-- A base address ends with slashes, or with none. -/
lemma exists_slashes (base : String) :
    ∃ slashes, base.toList = (Server.withoutSlashes base).toList ++ slashes ∧
      (∀ c ∈ slashes, c = '/') ∧ (Server.withoutSlashes base).toList.getLast? ≠ some '/' := by
  obtain ⟨slashes, hbase, hslashes⟩ := Text.exists_dropWhileEnd (· == '/') base.toList
  rw [Server.withoutSlashes, String.toList_ofList]
  exact ⟨slashes, hbase, fun c hc => eq_of_beq (hslashes c hc),
    fun hlast => absurd (Text.getLast?_dropWhileEnd hlast) (by decide)⟩

/-! ## Main result -/

namespace Desk

lemma step_request_of_not_accepted (d : Desk) (h : ¬r.IsAccepted) :
    d.step (.request r) = { d with requests := d.requests + 1 } := by
  have hvalid : r.validate ≠ .ok () := mt Request.validate_eq_ok_iff.mp h
  rw [step]
  split
  · next hok => exact absurd hok hvalid
  · rfl

end Desk

/-- **The address of a tunnel.**  A request is valid exactly if its texts are spellings of an
identifier and of a hardware address.  Below any base address, the address for it consists of the
base address without the slashes at its end and of a path with eight segments, two of which are the
texts of the request; these are no dots, and neither they nor the path have a character that would
end the path.  A request that is not valid changes nothing but the number of requests: no token is
fetched and no slot is taken for it, so whatever happens, the requests that have got so far are
valid ones. -/
theorem Request.url_spec :
    (∀ r : Request, r.validate = .ok () ↔ r.IsAccepted) ∧
    (∀ (base : String) (r : Request), r.IsAccepted →
      IsSegment r.mac ∧ IsSegment r.session ∧
      ∃ front path : String, r.url base = front ++ path ∧
        (∃ slashes, base.toList = front.toList ++ slashes ∧ ∀ c ∈ slashes, c = '/') ∧
        front.toList.getLast? ≠ some '/' ∧
        (path.toList.splitOn '/').map String.ofList
          = ["", "api", "v1", "devices", r.mac, "shell", "attach", r.session] ∧
        ∀ c ∈ path.toList, c ∈ reserved → c = '/') ∧
    (∀ (d : Desk) (r : Request), ¬r.IsAccepted →
      d.step (.request r) = { d with requests := d.requests + 1 }) ∧
    ∀ (maxSessions : Nat) (events : List Desk.Event),
      let d := (Desk.ofMax maxSessions).run events
      (∀ p ∈ d.fetching, p.request.IsAccepted) ∧ ∀ s ∈ d.sessions, s.request.IsAccepted := by
  refine ⟨fun r => validate_eq_ok_iff, fun base r h => ?_,
    fun d r h => d.step_request_of_not_accepted h, fun maxSessions events => ?_⟩
  · obtain ⟨slashes, hbase, hslashes, hlast⟩ := exists_slashes base
    exact ⟨isSegment_mac h.mac, isSegment_session h.session, _, r.path, r.url_eq base,
      ⟨slashes, hbase, hslashes⟩, hlast, h.splitOn_path, fun c hc => h.plain_path hc⟩
  · have hdrawn : ((Desk.ofMax maxSessions).run events).Drawn Set.univ :=
      (Desk.drawn_ofMax maxSessions).run fun r _ => Set.mem_univ r.session
    exact ⟨fun p hp => validate_eq_ok_iff.mp (hdrawn.fetching p hp).1,
      fun s hs => validate_eq_ok_iff.mp (hdrawn.sessions s hs).1⟩

/-- A request with blanks, both separators and a resource name. -/
def mixedRequest : Request :=
  ⟨" 02-00:00:aa-BB:Cc\t", "urn:uuid:0b4f5a36-8f1e-4b0e-9d55-3f3c7d1c2a10"⟩

/-- A request whose address would lead elsewhere. -/
def strayRequest : Request := ⟨"02:00:00:AA:BB:CC", "../../../other?x#y"⟩

theorem Request.url_spec_sample :
    mixedRequest.IsAccepted ∧
    (∃ front path : String, mixedRequest.url "wss://fleet.example//" = front ++ path ∧
      (path.toList.splitOn '/').map String.ofList
        = ["", "api", "v1", "devices", " 02-00:00:aa-BB:Cc\t", "shell", "attach",
          "urn:uuid:0b4f5a36-8f1e-4b0e-9d55-3f3c7d1c2a10"]) ∧
    (∃ p ∈ ((Desk.ofMax 2).run [.request mixedRequest]).fetching, p.request.IsAccepted) ∧
    ¬strayRequest.IsAccepted ∧
    (Desk.ofMax 2).step (.request strayRequest) = { Desk.ofMax 2 with requests := 1 } := by
  obtain ⟨hvalid, haddress, hrefused, hrun⟩ := Request.url_spec
  have hmixed : mixedRequest.validate = .ok () := by decide +kernel
  have hstray : strayRequest.validate ≠ .ok () := by decide +kernel
  have haccepted := (hvalid _).mp hmixed
  have hnot := mt (hvalid _).mpr hstray
  obtain ⟨-, -, front, path, hurl, -, -, hsegments, -⟩ :=
    haddress "wss://fleet.example//" mixedRequest haccepted
  have hfetching : ⟨0, mixedRequest⟩ ∈ ((Desk.ofMax 2).run [.request mixedRequest]).fetching := by
    decide +kernel
  exact ⟨haccepted, ⟨front, path, hurl, hsegments⟩,
    ⟨_, hfetching, (hrun 2 [.request mixedRequest]).1 _ hfetching⟩, hnot, hrefused _ _ hnot⟩

end FleetAgent.Shell
