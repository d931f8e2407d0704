/-
# The network interface that names a device

Which interfaces are usable, and as which candidates, is told by their files (`Offers`).  The order
of preference is the lexicographic order of the triples "not up, name, address" (`rank`), so the
preferred candidate is the least of those on offer, wherever it stands in the listing
(`first?_eq_some_iff`).

What is found depends on the usable interfaces alone (`discoverMac_least`): two listings that agree
on these give the same address, whatever their order and whatever else they hold.
-/
import FleetAgent.Device.Interfaces
import FleetAgent.Proofs.Device.Canonical
import Mathlib.Data.Prod.Lex
import Mathlib.Data.String.Basic
import Mathlib.Order.Bounds.Basic

namespace FleetAgent.Device

variable {i : Interface} {interfaces : List Interface} {c : Candidate} {cs : List Candidate}
  {mac : String}

/-! ## Usable interfaces -/

/-- Whether a device is up, as its state tells. -/
def Interface.IsUp (i : Interface) : Prop :=
  ∃ state, i.operState = some state ∧ Text.trim state = "up"

/-- An interface offers a candidate: it is not the loopback interface, its address can be read and
is not zero, and the candidate has its name, this address in canonical form, and its state. -/
structure Offers (i : Interface) (c : Candidate) : Prop where
  ne_loopback : i.name ≠ "lo"
  address : ∃ text, i.address = some text ∧ normalizeMac text = .ok c.mac
  ne_zero : c.mac ≠ "00:00:00:00:00:00"
  name_eq : c.name = i.name
  down_iff : c.down = true ↔ ¬i.IsUp

/-- The address of all zero octets. -/
def Mac.zero : Mac := ⟨List.replicate 6 0, rfl⟩

lemma Mac.isZero_iff {m : Mac} : m.IsZero ↔ m.render = "00:00:00:00:00:00" := by
  have hzero : Mac.zero.render = "00:00:00:00:00:00" := by decide
  rw [← hzero, Mac.render_inj]
  constructor
  · intro h
    have hoctets : m.octets = List.replicate 6 0 := List.eq_replicate_iff.mpr ⟨m.size_eq, h⟩
    cases m
    cases hoctets
    rfl
  · rintro rfl b hb
    exact List.eq_of_mem_replicate hb

lemma normalizeMac_eq_ok_iff {text : String} :
    normalizeMac text = .ok mac ↔ ∃ m, Mac.ofString? text = some m ∧ m.render = mac := by
  rw [normalizeMac]
  cases Mac.ofString? text <;> simp

lemma isUp_iff : i.IsUp ↔ (i.operState.map Text.trim != some "up") = false := by
  rw [Interface.IsUp, bne_eq_false_iff_eq, Option.map_eq_some_iff]

namespace Candidate

/-- The candidates of interfaces are those that they offer. -/
lemma ofInterface?_eq_some_iff : ofInterface? i = some c ↔ Offers i c := by
  have hdown :
      (c.down = true ↔ ¬i.IsUp) ↔ c.down = (i.operState.map Text.trim != some "up") := by
    rw [isUp_iff]
    cases c.down <;> cases i.operState.map Text.trim != some "up" <;> simp
  rw [ofInterface?]
  constructor
  · intro h
    split_ifs at h with hname
    split at h
    · next m hm =>
      obtain ⟨text, htext, hread⟩ := Option.bind_eq_some_iff.mp hm
      split_ifs at h with hzero
      obtain rfl := Option.some.inj h
      exact ⟨hname, ⟨text, htext, normalizeMac_eq_ok_iff.mpr ⟨m, hread, rfl⟩⟩,
        mt Mac.isZero_iff.mpr hzero, rfl, hdown.mpr rfl⟩
    · exact nomatch h
  · rintro ⟨hname, ⟨text, htext, hmac⟩, hzero, hnames, hstate⟩
    obtain ⟨m, hread, hrender⟩ := normalizeMac_eq_ok_iff.mp hmac
    have hm : i.address.bind Mac.ofString? = some m := by rw [htext, Option.bind_some, hread]
    have hnonzero : ¬m.IsZero := by rwa [Mac.isZero_iff, hrender]
    rw [if_neg hname, hm]
    dsimp only
    rw [if_neg hnonzero, ← hdown.mp hstate, ← hnames, hrender]

/-! ## The order of preference -/

/-- What candidates are ordered by: up before not up, then the name, then the address. -/
def rank (c : Candidate) : Bool ×ₗ String ×ₗ String := toLex (c.down, toLex (c.name, c.mac))

lemma before_iff {a b : Candidate} : Before a b ↔ a.rank < b.rank := by
  rw [rank, rank, Prod.Lex.toLex_lt_toLex, Prod.Lex.toLex_lt_toLex, Bool.lt_iff]
  exact Iff.rfl

lemma rank_injective : Function.Injective rank := by
  intro a b h
  have hparts := toLex.injective h
  obtain ⟨hdown, hrest⟩ := Prod.mk.inj hparts
  obtain ⟨hname, hmac⟩ := Prod.mk.inj (toLex.injective hrest)
  cases a
  cases b
  exact Candidate.mk.injEq .. ▸ ⟨hdown, hname, hmac⟩

/-- The least of some candidates. -/
structure IsFirst (cs : List Candidate) (c : Candidate) : Prop where
  mem : c ∈ cs
  least : ∀ d ∈ cs, c.rank ≤ d.rank

lemma IsFirst.unique {d : Candidate} (hc : IsFirst cs c) (hd : IsFirst cs d) : c = d :=
  rank_injective (le_antisymm (hc.least d hd.mem) (hd.least c hc.mem))

lemma pick_eq_or (a b : Candidate) : pick a b = a ∨ pick a b = b := by
  rw [pick]
  split_ifs
  · exact .inr rfl
  · exact .inl rfl

/-- The one that is kept is not behind the other. -/
lemma rank_pick_le (a b : Candidate) : (pick a b).rank ≤ a.rank ∧ (pick a b).rank ≤ b.rank := by
  rw [pick]
  split_ifs with h
  · exact ⟨(before_iff.mp h).le, le_refl _⟩
  · exact ⟨le_refl _, not_lt.mp (mt before_iff.mpr h)⟩

lemma isFirst_foldl (c : Candidate) (cs : List Candidate) :
    IsFirst (c :: cs) (cs.foldl pick c) := by
  induction cs generalizing c with
  | nil => exact ⟨List.mem_singleton_self c, by simp⟩
  | cons d cs ih =>
    obtain ⟨hmem, hleast⟩ := ih (pick c d)
    have hpick := hleast (pick c d) List.mem_cons_self
    rw [List.foldl_cons]
    constructor
    · rcases List.mem_cons.mp hmem with hmem | hmem
      · rw [hmem]
        rcases pick_eq_or c d with h | h <;> simp [h]
      · exact List.mem_cons_of_mem _ (List.mem_cons_of_mem _ hmem)
    · intro e he
      rcases List.mem_cons.mp he with rfl | he
      · exact hpick.trans (rank_pick_le _ d).1
      rcases List.mem_cons.mp he with rfl | he
      · exact hpick.trans (rank_pick_le c _).2
      · exact hleast e (List.mem_cons_of_mem _ he)

lemma first?_eq_none_iff : first? cs = none ↔ cs = [] := by
  cases cs <;> simp [first?]

/-- The first candidate is the least one. -/
lemma first?_eq_some_iff : first? cs = some c ↔ IsFirst cs c := by
  cases cs with
  | nil => exact ⟨nofun, fun h => absurd h.mem List.not_mem_nil⟩
  | cons d cs =>
    rw [first?, Option.some.injEq]
    exact ⟨fun h => h ▸ isFirst_foldl d cs, (isFirst_foldl d cs).unique⟩

end Candidate

/-! ## Listings -/

/-- The candidates that the interfaces of a listing offer. -/
def offered (interfaces : List Interface) : Set Candidate :=
  {c | ∃ i ∈ interfaces, Offers i c}

lemma mem_filterMap_iff :
    c ∈ interfaces.filterMap Candidate.ofInterface? ↔ c ∈ offered interfaces := by
  rw [List.mem_filterMap]
  exact exists_congr fun i => and_congr_right fun _ => Candidate.ofInterface?_eq_some_iff

/-- The preferred candidate is the least one on offer. -/
lemma isFirst_iff : Candidate.IsFirst (interfaces.filterMap Candidate.ofInterface?) c ↔
    IsLeast (Candidate.rank '' offered interfaces) c.rank := by
  constructor
  · rintro ⟨hmem, hleast⟩
    refine ⟨⟨c, mem_filterMap_iff.mp hmem, rfl⟩, ?_⟩
    rintro _ ⟨d, hd, rfl⟩
    exact hleast d (mem_filterMap_iff.mpr hd)
  · rintro ⟨⟨d, hd, hrank⟩, hleast⟩
    obtain rfl := Candidate.rank_injective hrank
    exact ⟨mem_filterMap_iff.mpr hd, fun e he => hleast ⟨e, mem_filterMap_iff.mp he, rfl⟩⟩

lemma discoverMac_eq_ok_iff : discoverMac interfaces = .ok mac ↔
    ∃ c : Candidate, IsLeast (Candidate.rank '' offered interfaces) c.rank ∧ c.mac = mac := by
  simp only [← isFirst_iff, ← Candidate.first?_eq_some_iff]
  rw [discoverMac]
  cases Candidate.first? (interfaces.filterMap Candidate.ofInterface?) <;> simp

lemma discoverMac_eq_error_iff {e : IdentityError} : discoverMac interfaces = .error e ↔
    e = .noMacAddress ∧ offered interfaces = ∅ := by
  have hempty : offered interfaces = ∅ ↔
      Candidate.first? (interfaces.filterMap Candidate.ofInterface?) = none := by
    simp only [Set.eq_empty_iff_forall_notMem, ← mem_filterMap_iff,
      Candidate.first?_eq_none_iff, List.eq_nil_iff_forall_not_mem]
  rw [hempty, discoverMac]
  cases Candidate.first? (interfaces.filterMap Candidate.ofInterface?) <;> simp [eq_comm]

/-- What is found depends on what is on offer. -/
lemma discoverMac_congr {others : List Interface} (h : offered interfaces = offered others) :
    discoverMac interfaces = discoverMac others := by
  cases hfound : discoverMac interfaces with
  | ok mac =>
    rw [discoverMac_eq_ok_iff, h] at hfound
    exact (discoverMac_eq_ok_iff.mpr hfound).symm
  | error e =>
    rw [discoverMac_eq_error_iff, h] at hfound
    exact (discoverMac_eq_error_iff.mpr hfound).symm

/-- The directory of an interface that offers something. -/
def InterfaceDirectory.IsUsable (d : InterfaceDirectory) : Prop :=
  ∃ c, Offers (.ofDirectory d) c

lemma offered_congr {directories others : List InterfaceDirectory}
    (h : ∀ d, d.IsUsable → (d ∈ directories ↔ d ∈ others)) :
    offered (directories.map .ofDirectory) = offered (others.map .ofDirectory) := by
  ext c
  constructor
  · rintro ⟨_, hi, hc⟩
    obtain ⟨d, hd, rfl⟩ := List.mem_map.mp hi
    exact ⟨_, List.mem_map_of_mem ((h d ⟨c, hc⟩).mp hd), hc⟩
  · rintro ⟨_, hi, hc⟩
    obtain ⟨d, hd, rfl⟩ := List.mem_map.mp hi
    exact ⟨_, List.mem_map_of_mem ((h d ⟨c, hc⟩).mpr hd), hc⟩

/-- **The address of a device.**  For every listing of interface directories the address found is
that of the least triple "not up, name, address" among the usable interfaces, and none is found
exactly if there is no usable interface.  Every listing that has the same usable ones, in any
order and with any others, gives the same. -/
theorem discoverMac_least (directories : List InterfaceDirectory) :
    (∀ mac, discoverMac (directories.map .ofDirectory) = .ok mac ↔
      ∃ c : Candidate,
        IsLeast (Candidate.rank '' offered (directories.map .ofDirectory)) c.rank ∧ c.mac = mac) ∧
    (∀ e, discoverMac (directories.map .ofDirectory) = .error e ↔
      e = .noMacAddress ∧ ∀ d ∈ directories, ¬d.IsUsable) ∧
    ∀ others : List InterfaceDirectory,
      (∀ d, d.IsUsable → (d ∈ directories ↔ d ∈ others)) →
        discoverMac (others.map .ofDirectory) = discoverMac (directories.map .ofDirectory) := by
  refine ⟨fun mac => discoverMac_eq_ok_iff, ?_, ?_⟩
  · intro e
    rw [discoverMac_eq_error_iff, Set.eq_empty_iff_forall_notMem]
    refine and_congr_right fun _ => ⟨?_, ?_⟩
    · rintro hnone d hd ⟨c, hc⟩
      exact hnone c ⟨_, List.mem_map_of_mem hd, hc⟩
    · rintro hnone c ⟨_, hi, hc⟩
      obtain ⟨d, hd, rfl⟩ := List.mem_map.mp hi
      exact hnone d hd ⟨c, hc⟩
  · intro others h
    exact (discoverMac_congr (offered_congr h)).symm

/-- The directory of an interface with text files. -/
def directoryOf (name address state : String) : InterfaceDirectory :=
  ⟨Text.Utf8.encode name, some (Text.Utf8.encode address), some (Text.Utf8.encode state)⟩

/-- A listing with the loopback interface, one without an address, one that is down, and two that
are up. -/
def sampleListing : List InterfaceDirectory :=
  [directoryOf "lo" "02:00:00:00:00:01" "up",
    directoryOf "wlan0" "de:ad:be:ef:00:01\n" "up\n",
    ⟨Text.Utf8.encode "tun0", none, some (Text.Utf8.encode "up")⟩,
    directoryOf "eth0" "02:42:ac:11:00:02\n" "down\n",
    directoryOf "eth1" "02-42-AC-11-00-03\n" " up\n"]

/-- The interface that is found is the first of those that are up; the others are not in its way,
wherever they stand. -/
theorem discoverMac_least_sample :
    discoverMac (sampleListing.map .ofDirectory) = .ok "02:42:AC:11:00:03" ∧
    discoverMac (sampleListing.reverse.map .ofDirectory) = .ok "02:42:AC:11:00:03" := by
  have hfound : discoverMac (sampleListing.map .ofDirectory) = .ok "02:42:AC:11:00:03" := by
    decide +kernel
  obtain ⟨-, -, hsame⟩ := discoverMac_least sampleListing
  refine ⟨hfound, ?_⟩
  rw [hsame _ fun d _ => List.mem_reverse.symm, hfound]

end FleetAgent.Device
