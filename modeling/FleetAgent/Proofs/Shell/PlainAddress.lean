/-
# Blanks in addresses of tunnels

A request is checked by its hardware address without the blanks around it, while the address of its
tunnel gets the text as it was given.  So the address for a request that is accepted has a blank in
it exactly if there are blanks around the hardware address; the identifier of the session never
brings one, and everything else is plain if the base address is (`plain_url_iff`).

Without such blanks the path can stand behind any address that a connection can be made to.  With a
blank of ASCII the request is accepted all the same, takes a token and a slot, and then its session
cannot be started.
-/
import FleetAgent.Proofs.Channel.Address
import FleetAgent.Proofs.Shell.Address
import FleetAgent.Shell.Attach

namespace FleetAgent.Shell

open Text (isBlank trim trimChars)
open Text.Hex (IsDigit)

variable {text base : String} {r : Request} {c : Char}

/-! ## Plain characters -/

/-- A control character: one below the blank of ASCII, or one of the thirty-three from `DEL` on. -/
def IsControl (c : Char) : Prop := c.toNat < 0x20 ∨ 0x7F ≤ c.toNat ∧ c.toNat ≤ 0x9F

instance (c : Char) : Decidable (IsControl c) :=
  inferInstanceAs (Decidable (c.toNat < 0x20 ∨ 0x7F ≤ c.toNat ∧ c.toNat ≤ 0x9F))

/-- A character of ASCII that is neither a blank nor a control character. -/
structure IsPlain (c : Char) : Prop where
  not_blank : isBlank c = false
  not_control : ¬IsControl c
  ascii : c.toNat < 0x80

lemma isPlain_iff : IsPlain c ↔ 0x21 ≤ c.toNat ∧ c.toNat < 0x7F := by
  constructor
  · intro h
    have hblank := h.not_blank
    have hcontrol := h.not_control
    have hascii := h.ascii
    simp only [isBlank, Bool.or_eq_false_iff, beq_eq_false_iff_ne] at hblank
    rw [IsControl] at hcontrol
    omega
  · intro h
    refine ⟨?_, ?_, by omega⟩
    · simp only [isBlank, Bool.or_eq_false_iff, Bool.and_eq_false_iff, decide_eq_false_iff_not,
        beq_eq_false_iff_ne]
      omega
    · rw [IsControl]
      omega

lemma isPlain_of_mem {cs : List Char}
    (hcs : (cs.all fun c => decide (0x21 ≤ c.toNat ∧ c.toNat < 0x7F)) = true) (hc : c ∈ cs) :
    IsPlain c :=
  isPlain_iff.mpr (List.all_iff_forall_prop.mp hcs c hc)

lemma isPlain_of_isDigit (h : IsDigit c) : IsPlain c := by
  have hrange (a b : Char) : a ≤ c ∧ c ≤ b ↔ a.toNat ≤ c.toNat ∧ c.toNat ≤ b.toNat := Iff.rfl
  rw [IsDigit, hrange, hrange, hrange] at h
  simp only [Char.reduceToNat] at h
  rw [isPlain_iff]
  omega

lemma isPlain_of_isSeparator (h : Device.Mac.isSeparator c = true) : IsPlain c := by
  simp only [Device.Mac.isSeparator, Bool.or_eq_true, beq_iff_eq] at h
  have hmem : c ∈ [':', '-'] := by simpa using h
  exact isPlain_of_mem (by decide) hmem

/-- A plain character may stand in a path and in a query, unless it is one of the few that may
not. -/
lemma isPathChar_of_isPlain (h : IsPlain c) (hc : c ∉ ['"', '#', '<', '>', '?', '\x60']) :
    Channel.isPathChar c = true ∧ Channel.isQueryChar c = true := by
  have hrange := (isPlain_iff.mp h).1
  simp only [List.mem_cons, List.not_mem_nil, or_false, not_or] at hc
  simp only [Channel.isPathChar, Channel.isQueryChar, Bool.and_eq_true, decide_eq_true_eq,
    bne_iff_ne]
  tauto

/-! ## The texts of a request -/

/-- A text without blanks is as it is without the blanks around it. -/
lemma trim_eq_self (h : ∀ c ∈ text.toList, isBlank c = false) : trim text = text := by
  have htrimmed : trimChars text.toList = text.toList :=
    Text.trimChars_eq_self (fun c hc => h c (List.mem_of_head? hc))
      fun c hc => h c (List.mem_of_getLast? hc)
  rw [trim, htrimmed, String.ofList_toList]

/-- A hardware address without blanks around it is made of digits and separators. -/
lemma mem_of_trim_eq (h : Device.Mac.IsSpelling text.toList) (htrim : trim text = text)
    (hc : c ∈ text.toList) : IsDigit c ∨ Device.Mac.isSeparator c = true := by
  have htrimmed : trimChars text.toList = text.toList := by
    rw [← String.toList_ofList (l := trimChars text.toList)]
    exact congrArg String.toList htrim
  exact h.mem_trimChars (htrimmed.symm ▸ hc)

/-- The characters that are in the path of every request. -/
def pathMarks : List Char := "/api/v1/devices/".toList ++ "/shell/attach/".toList

/-- A character of the path is one of the fixed ones, or one of the texts of the request. -/
lemma Request.mem_path_iff :
    c ∈ r.path.toList ↔ c ∈ pathMarks ∨ c ∈ r.mac.toList ∨ c ∈ r.session.toList := by
  unfold Request.path pathMarks
  simp only [String.toList_append, List.mem_append]
  tauto

/-- Without blanks around the hardware address, the path is plain. -/
lemma Request.IsAccepted.isPlain_path (h : r.IsAccepted) (htrim : trim r.mac = r.mac)
    (hc : c ∈ r.path.toList) : IsPlain c := by
  rcases Request.mem_path_iff.mp hc with hc | hc | hc
  · exact isPlain_of_mem (by decide) hc
  · rcases mem_of_trim_eq h.mac htrim hc with hc | hc
    · exact isPlain_of_isDigit hc
    · exact isPlain_of_isSeparator hc
  · rcases h.session.mem hc with hc | hc
    · exact isPlain_of_isDigit hc
    · exact isPlain_of_mem (by decide) hc

/-- Without blanks around the hardware address, the path may stand in an address, also behind a
query. -/
lemma Request.IsAccepted.isPathChar_path (h : r.IsAccepted) (htrim : trim r.mac = r.mac)
    (hc : c ∈ r.path.toList) : Channel.isPathChar c = true ∧ Channel.isQueryChar c = true := by
  have hforbidden : ∀ c ∈ ['"', '#', '<', '>', '?', '\x60'],
      c ∉ pathMarks ∧ ¬IsDigit c ∧ Device.Mac.isSeparator c = false ∧
        c ∉ ['-', '\x7b', '\x7d'] ++ Uuid.urn :=
    List.all_iff_forall_prop.mp (by decide)
  refine isPathChar_of_isPlain (h.isPlain_path htrim hc) ?_
  intro hmem
  obtain ⟨hmarks, hdigit, hsep, hletters⟩ := hforbidden c hmem
  rcases Request.mem_path_iff.mp hc with hc | hc | hc
  · exact hmarks hc
  · rcases mem_of_trim_eq h.mac htrim hc with hc | hc
    · exact hdigit hc
    · exact absurd hc (Bool.eq_false_iff.mp hsep)
  · rcases h.session.mem hc with hc | hc
    · exact hdigit hc
    · exact hletters hc

/-! ## The address -/

/-- A character of the base address stands in the address too, or it is a slash. -/
lemma mem_withoutSlashes_or (hc : c ∈ base.toList) :
    c ∈ (Server.withoutSlashes base).toList ∨ c = '/' := by
  obtain ⟨slashes, hbase, hslashes, -⟩ := exists_slashes base
  rw [hbase] at hc
  rcases List.mem_append.mp hc with hc | hc
  · exact .inl hc
  · exact .inr (hslashes c hc)

lemma mem_of_mem_withoutSlashes (hc : c ∈ (Server.withoutSlashes base).toList) :
    c ∈ base.toList := by
  obtain ⟨slashes, hbase, -, -⟩ := exists_slashes base
  rw [hbase]
  exact List.mem_append_left _ hc

lemma Request.mem_url_iff : c ∈ (r.url base).toList ↔
    c ∈ (Server.withoutSlashes base).toList ∨ c ∈ r.path.toList := by
  rw [r.url_eq, String.toList_append, List.mem_append]

lemma Request.head_path (r : Request) : r.path.toList.head? = some '/' := by
  unfold Request.path
  simp [String.toList_append]

lemma Request.IsAccepted.isPlain_url_iff (h : r.IsAccepted)
    (hbase : ∀ c ∈ base.toList, isBlank c = false ∧ ¬IsControl c) :
    (∀ c ∈ (r.url base).toList, IsPlain c) ↔
      trim r.mac = r.mac ∧ ∀ c ∈ base.toList, c.toNat < 0x80 := by
  constructor
  · intro hplain
    constructor
    · refine trim_eq_self fun c hc => (hplain c ?_).not_blank
      exact Request.mem_url_iff.mpr (.inr (Request.mem_path_iff.mpr (.inr (.inl hc))))
    · intro c hc
      rcases mem_withoutSlashes_or hc with hc | rfl
      · exact (hplain c (Request.mem_url_iff.mpr (.inl hc))).ascii
      · decide
  · rintro ⟨htrim, hascii⟩ c hc
    rcases Request.mem_url_iff.mp hc with hc | hc
    · have hmem := mem_of_mem_withoutSlashes hc
      exact ⟨(hbase c hmem).1, (hbase c hmem).2, hascii c hmem⟩
    · exact h.isPlain_path htrim hc

/-- With a blank of ASCII in its hardware address, no connection can be made to the address. -/
lemma Request.IsAccepted.isAddress_url_eq_false (h : r.IsAccepted) (hbase : '#' ∉ base.toList)
    (hc : c ∈ r.mac.toList) (hblank : c.toNat ≤ 0x20) :
    Channel.isAddress (r.url base) = false := by
  have hfragment : '#' ∉ (r.url base).toList := by
    intro hmem
    rcases Request.mem_url_iff.mp hmem with hmem | hmem
    · exact hbase (mem_of_mem_withoutSlashes hmem)
    · exact absurd (h.plain_path hmem (by decide)) (by decide)
  have hurl : c ∈ (r.url base).toList :=
    Request.mem_url_iff.mpr (.inr (Request.mem_path_iff.mpr (.inr (.inl hc))))
  rw [Bool.eq_false_iff]
  intro haddress
  have hle := Channel.le_toNat_of_isAddress haddress hfragment hurl
  omega

lemma start_of_not_isAddress {url : String} (h : Channel.isAddress url = false)
    (launch : Machine.Launcher) (settings : Settings.ShellSection) (token : String)
    (peer : Channel.Peer) :
    start launch settings url token peer = .error (.connection .transport) := by
  simp [start, Channel.authorization, h]

/-- **Blanks in the address of a tunnel.**  Let a request be accepted.  If the base address has no
blanks and control characters, the address for the request has no blanks, control characters and
characters beyond ASCII exactly if there are no blanks around the hardware address and the base
address is one of ASCII.  If there are no blanks around the hardware address, a base address that a
connection can be made to gives an address that one can be made to.  But if the hardware address
has a blank of ASCII, the session cannot be started, whatever the token, the program and the peer:
it has its token and its slot, and the connection fails. -/
theorem Request.plain_url_iff (base : String) (r : Request) (hvalid : r.validate = .ok ()) :
    ((∀ c ∈ base.toList, isBlank c = false ∧ ¬IsControl c) →
      ((∀ c ∈ (r.url base).toList, IsPlain c) ↔
        trim r.mac = r.mac ∧ ∀ c ∈ base.toList, c.toNat < 0x80)) ∧
    (trim r.mac = r.mac →
      (Channel.isAddress (Server.withoutSlashes base) = true →
        Channel.isAddress (r.url base) = true) ∧
      (Channel.isSocketAddress (Server.withoutSlashes base) = true →
        Channel.isSocketAddress (r.url base) = true)) ∧
    ('#' ∉ base.toList → (∃ c ∈ r.mac.toList, c.toNat ≤ 0x20) →
      ∀ (launch : Machine.Launcher) (settings : Settings.ShellSection) (token : String)
        (peer : Channel.Peer),
        start launch settings (r.url base) token peer = .error (.connection .transport)) := by
  have h := validate_eq_ok_iff.mp hvalid
  refine ⟨?_, ?_, ?_⟩
  · intro hbase
    exact h.isPlain_url_iff hbase
  · intro htrim
    rw [r.url_eq]
    constructor
    · intro haddress
      exact Channel.isAddress_append haddress r.head_path fun c hc => h.isPathChar_path htrim hc
    · intro hsocket
      exact Channel.isSocketAddress_append hsocket r.path
  · rintro hbase ⟨c, hc, hblank⟩ launch settings token peer
    have haddress := h.isAddress_url_eq_false hbase hc hblank
    exact start_of_not_isAddress haddress launch settings token peer

/-- A request with a blank in front of the hardware address. -/
def blankRequest : Request :=
  ⟨" 02:00:00:AA:BB:CC", "0b4f5a36-8f1e-4b0e-9d55-3f3c7d1c2a10"⟩

/-- A request without blanks. -/
def plainRequest : Request :=
  ⟨"02:00:00:AA:BB:CC", "0b4f5a36-8f1e-4b0e-9d55-3f3c7d1c2a10"⟩

/-- A base address. -/
def plainBase : String := "wss://fleet.example"

lemma validate_blankRequest : blankRequest.validate = .ok () := by decide +kernel

lemma not_blank_plainBase : ∀ c ∈ plainBase.toList, isBlank c = false ∧ ¬IsControl c :=
  List.all_iff_forall_prop.mp (by decide +kernel)

/-- The one address is plain.  The other request gets a token and the only slot, and no session. -/
theorem Request.plain_url_iff_sample :
    (∀ c ∈ (plainRequest.url plainBase).toList, IsPlain c) ∧
    Channel.isAddress (plainRequest.url plainBase) = true ∧
    ((Desk.ofMax 1).run [.request blankRequest, .token 0 (.ok "tok")]).sessions
      = [⟨0, blankRequest, "tok"⟩] ∧
    ∀ (launch : Machine.Launcher) (settings : Settings.ShellSection) (peer : Channel.Peer),
      start launch settings (blankRequest.url plainBase) "tok" peer
        = .error (.connection .transport) := by
  have hvalid : plainRequest.validate = .ok () := by decide +kernel
  obtain ⟨hplain, haddress, -⟩ := Request.plain_url_iff plainBase plainRequest hvalid
  obtain ⟨-, -, hfails⟩ := Request.plain_url_iff plainBase blankRequest validate_blankRequest
  have htrim : trim plainRequest.mac = plainRequest.mac := by decide +kernel
  have hascii : ∀ c ∈ plainBase.toList, c.toNat < 0x80 :=
    List.all_iff_forall_prop.mp (by decide +kernel)
  refine ⟨(hplain not_blank_plainBase).mpr ⟨htrim, hascii⟩,
    (haddress htrim).1 (by decide +kernel), by decide +kernel, ?_⟩
  intro launch settings peer
  exact hfails (by decide +kernel) ⟨' ', by decide +kernel, by decide⟩ launch settings "tok" peer

/-- **The address for an accepted request may have a blank in it.**  It stands in front of the
hardware address. -/
theorem Request.not_plain_url :
    ¬∀ (base : String) (r : Request), r.validate = .ok () →
      (∀ c ∈ base.toList, isBlank c = false ∧ ¬IsControl c) →
      ∀ c ∈ (r.url base).toList, isBlank c = false ∧ ¬IsControl c ∧ c.toNat < 0x80 := by
  intro h
  have hblank : ' ' ∈ (blankRequest.url plainBase).toList := by decide +kernel
  have hplain := h plainBase blankRequest validate_blankRequest not_blank_plainBase ' ' hblank
  exact absurd hplain.1 (by decide)

end FleetAgent.Shell
