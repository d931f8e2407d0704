/-
# Canonical texts of hardware addresses

A text that has the six groups of an address (`HasGroups`) is read as the octets that the groups
stand for (`ofString?_eq_some_iff`).  The canonical text of these octets is that of the groups, in
capitals and with colons between them (`render_eq`).  It is read back as the same octets
(`ofString?_render`): so it is its own canonical text, and the canonical texts of two addresses are
the same only if their octets are.
-/
import FleetAgent.Proofs.Device.Mac

namespace FleetAgent.Device

namespace Mac

open Text (Separated isBlank trimChars)
open Text.Hex (IsDigit digit digitValue ofByte)

variable {s : List Char} {group : List Char} {groups : List (List Char)} {octets : List UInt8}
  {b : UInt8} {c : Char}

/-- The groups of a text: between the blanks around it stand six groups of two digits, with a
colon or a hyphen between any two. -/
structure HasGroups (s : List Char) (groups : List (List Char)) : Prop where
  separated : Separated isSeparator (trimChars s) groups
  length_eq : groups.length = 6
  isGroup : ∀ group ∈ groups, IsGroup group

lemma isSpelling_iff : IsSpelling s ↔ ∃ groups, HasGroups s groups :=
  ⟨fun ⟨groups, h, hsix, hgroups⟩ => ⟨groups, h, hsix, hgroups⟩,
    fun ⟨groups, h⟩ => ⟨groups, h.separated, h.length_eq, h.isGroup⟩⟩

lemma HasGroups.unique {groups' : List (List Char)} (h : HasGroups s groups)
    (h' : HasGroups s groups') : groups = groups' :=
  (Text.splitAt_eq_iff.mpr h.separated).symm.trans (Text.splitAt_eq_iff.mpr h'.separated)

/-! ## Octets -/

/-- The number that a group of digits stands for. -/
def octetValue (group : List Char) : Nat :=
  group.foldl (fun n c => 16 * n + digitValue c) 0

lemma octetValue_pair (a c : Char) : octetValue [a, c] = 16 * digitValue a + digitValue c := by
  simp [octetValue]

lemma toNat_ofNat_pair {x y : Nat} (hx : x < 16) (hy : y < 16) :
    (UInt8.ofNat (16 * x + y)).toNat = 16 * x + y :=
  UInt8.toNat_ofNat_of_lt' (by rw [UInt8.size]; omega)

lemma octet?_eq_some_iff : octet? group = some b ↔ IsGroup group ∧ octetValue group = b.toNat := by
  have hvalue : ∀ b, octet? group = some b → octetValue group = b.toNat := by
    fun_cases octet? group with
    | case1 a c y x hc ha =>
      obtain ⟨hfirst, rfl⟩ := Text.Hex.value?_eq_some_iff.mp ha
      obtain ⟨hsecond, rfl⟩ := Text.Hex.value?_eq_some_iff.mp hc
      rintro b ⟨⟩
      rw [octetValue_pair, toNat_ofNat_pair (Text.Hex.digitValue_lt hfirst)
        (Text.Hex.digitValue_lt hsecond)]
    | case2 =>
      intro b h
      cases h
    | case3 =>
      intro b h
      cases h
  constructor
  · intro h
    exact ⟨isSome_octet?_iff.mp (h ▸ rfl), hvalue b h⟩
  · rintro ⟨hgroup, hb⟩
    obtain ⟨b', hb'⟩ := Option.isSome_iff_exists.mp (isSome_octet?_iff.mpr hgroup)
    rw [hb', UInt8.toNat_inj.mp ((hvalue b' hb').symm.trans hb)]

/-- Groups are read one by one. -/
lemma map_octet?_eq_iff : groups.map octet? = octets.map some ↔
    (∀ group ∈ groups, IsGroup group) ∧ groups.map octetValue = octets.map UInt8.toNat := by
  induction groups generalizing octets with
  | nil => cases octets <;> simp
  | cons group groups ih =>
    cases octets with
    | nil => simp
    | cons b octets =>
      simp only [List.map_cons, List.cons.injEq, List.forall_mem_cons, octet?_eq_some_iff, ih]
      tauto

/-- **Reading.**  A text is read as the octets that its groups stand for. -/
theorem ofString?_eq_some_iff {text : String} {m : Mac} : ofString? text = some m ↔
    ∃ groups, HasGroups text.toList groups ∧ groups.map octetValue = m.octets.map UInt8.toNat := by
  rw [ofString?]
  constructor
  · intro h
    split at h
    · next octets hoctets =>
      split_ifs at h with hsix
      obtain rfl := Option.some.inj h
      have hmap := Text.mapM_eq_some_iff.mp hoctets
      obtain ⟨hgroups, hvalues⟩ := map_octet?_eq_iff.mp hmap
      have hlength := congrArg List.length hmap
      simp only [List.length_map] at hlength
      exact ⟨_, ⟨Text.splitAt_eq_iff.mp rfl, hlength.trans hsix, hgroups⟩, hvalues⟩
    · cases h
  · rintro ⟨groups, h, hvalues⟩
    rw [Text.splitAt_eq_iff.mpr h.separated,
      Text.mapM_eq_some_iff.mpr (map_octet?_eq_iff.mpr ⟨h.isGroup, hvalues⟩)]
    exact dif_pos m.size_eq

lemma ofString?_eq_none_iff {text : String} :
    ofString? text = none ↔ ¬∃ groups, HasGroups text.toList groups := by
  rw [← isSpelling_iff, ← isSome_ofString?_iff, Option.not_isSome_iff_eq_none]

/-! ## Canonical texts -/

/-- The text of groups in capitals, with colons between them. -/
def canonicalText (groups : List (List Char)) : String :=
  Text.join ":" (groups.map fun group => String.ofList (group.map Char.toUpper))

/-- The capital digits of an octet. -/
def capitalGroup (b : UInt8) : List Char := (ofByte b).map Char.toUpper

lemma capitalGroup_eq (h : IsGroup group) (hb : octetValue group = b.toNat) :
    capitalGroup b = group.map Char.toUpper := by
  obtain ⟨hlength, hdigits⟩ := h
  obtain ⟨a, c, rfl⟩ := List.length_eq_two.mp hlength
  have ha : IsDigit a := hdigits a (by simp)
  have hc : IsDigit c := hdigits c (by simp)
  have hc16 := Text.Hex.digitValue_lt hc
  rw [octetValue_pair] at hb
  have hhigh : b.toNat / 16 = digitValue a := by omega
  have hlow : b.toNat % 16 = digitValue c := by omega
  rw [capitalGroup, ofByte, hhigh, hlow, List.map_cons, List.map_cons, List.map_nil,
    Text.Hex.toUpper_digit_digitValue ha, Text.Hex.toUpper_digit_digitValue hc]
  rfl

lemma map_capitalGroup_eq (hgroups : ∀ group ∈ groups, IsGroup group)
    (hvalues : groups.map octetValue = octets.map UInt8.toNat) :
    octets.map capitalGroup = groups.map fun group => group.map Char.toUpper := by
  induction groups generalizing octets with
  | nil =>
    have hnil : octets = [] := by simpa using hvalues.symm
    rw [hnil, List.map_nil, List.map_nil]
  | cons group groups ih =>
    cases octets with
    | nil => simp at hvalues
    | cons b octets =>
      simp only [List.map_cons, List.cons.injEq] at hvalues
      obtain ⟨hgroup, hgroups⟩ := List.forall_mem_cons.mp hgroups
      rw [List.map_cons, List.map_cons, capitalGroup_eq hgroup hvalues.1, ih hgroups hvalues.2]

/-- The canonical text of the octets is that of the groups that they were read from. -/
lemma render_eq {m : Mac} (hgroups : ∀ group ∈ groups, IsGroup group)
    (hvalues : groups.map octetValue = m.octets.map UInt8.toNat) :
    m.render = canonicalText groups := by
  have hrender : m.octets.map octetText = (m.octets.map capitalGroup).map String.ofList := by
    rw [List.map_map]
    rfl
  rw [render, canonicalText, hrender, map_capitalGroup_eq hgroups hvalues, List.map_map]
  rfl

lemma isGroup_capitalGroup (b : UInt8) : IsGroup (capitalGroup b) := by
  have hb := b.toNat_lt
  refine ⟨rfl, ?_⟩
  intro c hc
  simp only [capitalGroup, ofByte, List.map_cons, List.map_nil, List.mem_cons,
    List.not_mem_nil, or_false] at hc
  rcases hc with rfl | rfl
  · exact (Text.Hex.isDigit_toUpper_digit _ (by omega)).1
  · exact (Text.Hex.isDigit_toUpper_digit _ (by omega)).1

lemma octetValue_capitalGroup (b : UInt8) : octetValue (capitalGroup b) = b.toNat := by
  have hb := b.toNat_lt
  show octetValue [(digit (b.toNat / 16)).toUpper, (digit (b.toNat % 16)).toUpper] = b.toNat
  rw [octetValue_pair, (Text.Hex.isDigit_toUpper_digit _ (by omega)).2,
    (Text.Hex.isDigit_toUpper_digit _ (by omega)).2]
  omega

lemma toList_render (m : Mac) :
    m.render.toList = [':'].intercalate (m.octets.map capitalGroup) := by
  rw [render, Text.join, String.toList_intercalate, List.map_map]
  refine congrArg (List.intercalate [':']) (List.map_congr_left fun b _ => ?_)
  exact String.toList_ofList

/-- The canonical text of an address has the capital digits of its octets as groups. -/
lemma hasGroups_render (m : Mac) :
    HasGroups m.render.toList (m.octets.map capitalGroup) := by
  have hne : m.octets.map capitalGroup ≠ [] := by
    intro hnil
    have hlength := congrArg List.length hnil
    rw [List.length_map, m.size_eq] at hlength
    exact absurd hlength (by decide)
  have hgroups : ∀ group ∈ m.octets.map capitalGroup, IsGroup group := by
    intro group hgroup
    obtain ⟨b, -, rfl⟩ := List.mem_map.mp hgroup
    exact isGroup_capitalGroup b
  have hplain {c : Char} (h : IsDigit c) : isSeparator c = false ∧ isBlank c = false :=
    h.forall (P := fun c => isSeparator c = false ∧ isBlank c = false) (by decide)
  have hseparated : Separated isSeparator m.render.toList (m.octets.map capitalGroup) := by
    rw [toList_render]
    exact Text.separated_intercalate rfl
      (fun group hgroup c hc => (hplain ((hgroups group hgroup).2 c hc)).1) hne
  -- the text holds digits and separators only, so there is nothing to trim
  have hblank : ∀ c ∈ m.render.toList, isBlank c = false := by
    intro c hc
    by_cases hsep : isSeparator c = true
    · simp only [isSeparator, Bool.or_eq_true, beq_iff_eq] at hsep
      rcases hsep with rfl | rfl <;> rfl
    · obtain ⟨group, hgroup, hc⟩ :=
        List.mem_flatten.mp (hseparated.mem_flatten hc (Bool.eq_false_iff.mpr hsep))
      exact (hplain ((hgroups group hgroup).2 c hc)).2
  have htrim : trimChars m.render.toList = m.render.toList :=
    Text.trimChars_eq_self (fun c hc => hblank c (List.mem_of_head? hc))
      fun c hc => hblank c (List.mem_of_getLast? hc)
  exact ⟨htrim.symm ▸ hseparated, (List.length_map _).trans m.size_eq, hgroups⟩

/-- **Canonical texts.**  An address is read back from its canonical text. -/
theorem ofString?_render (m : Mac) : ofString? m.render = some m := by
  refine ofString?_eq_some_iff.mpr ⟨_, hasGroups_render m, ?_⟩
  rw [List.map_map]
  refine List.map_congr_left fun b _ => ?_
  rw [Function.comp_apply, octetValue_capitalGroup]

lemma render_inj {m m' : Mac} : m.render = m'.render ↔ m = m' := by
  constructor
  · intro h
    have hread := ofString?_render m
    rw [h, ofString?_render] at hread
    exact (Option.some.inj hread).symm
  · rintro rfl
    rfl

lemma eq_iff_values {m m' : Mac} :
    m = m' ↔ m.octets.map UInt8.toNat = m'.octets.map UInt8.toNat := by
  rw [(List.map_injective_iff.mpr fun _ _ h => UInt8.toNat_inj.mp h).eq_iff]
  cases m
  cases m'
  simp

end Mac

/-! ## Normalisation -/

open Mac (HasGroups canonicalText octetValue ofString?)

variable {s t : String} {groups : List (List Char)}

/-- A text with the groups of an address is that of an address with their octets. -/
lemma exists_mac (h : HasGroups s.toList groups) : ∃ m : Mac, normalizeMac s = .ok m.render ∧
    m.render = canonicalText groups ∧ groups.map octetValue = m.octets.map UInt8.toNat := by
  have hsome := (Mac.isSome_ofString?_iff s).mpr (Mac.isSpelling_iff.mpr ⟨groups, h⟩)
  obtain ⟨m, hm⟩ := Option.isSome_iff_exists.mp hsome
  obtain ⟨groups', h', hvalues⟩ := Mac.ofString?_eq_some_iff.mp hm
  obtain rfl := h.unique h'
  refine ⟨m, ?_, Mac.render_eq h.isGroup hvalues, hvalues⟩
  rw [normalizeMac, hm]

lemma normalizeMac_eq_ok (h : HasGroups s.toList groups) :
    normalizeMac s = .ok (canonicalText groups) := by
  obtain ⟨m, hm, hrender, -⟩ := exists_mac h
  rw [hm, hrender]

lemma normalizeMac_eq_error (h : ¬∃ groups, HasGroups s.toList groups) :
    normalizeMac s = .error (.invalidMac s) := by
  rw [normalizeMac, Mac.ofString?_eq_none_iff.mpr h]

lemma exists_groups {r : String} (h : normalizeMac s = .ok r) :
    ∃ groups, HasGroups s.toList groups := by
  by_contra hno
  rw [normalizeMac_eq_error hno] at h
  exact nomatch h

/-- **The canonical text of a hardware address.**  A text has one exactly if it consists of six
groups of two hexadecimal digits, but for blanks around them, with a colon or a hyphen between any
two; it is then that of the groups in their order, in capitals and with colons.  Any other text is
refused as it was given.  A canonical text is its own, and two addresses have the same one exactly
if their octets have the same values. -/
theorem normalizeMac_canonical (s t : String) :
    ((∃ r, normalizeMac s = .ok r) ↔ ∃ groups, HasGroups s.toList groups) ∧
    (∀ groups, HasGroups s.toList groups → normalizeMac s = .ok (canonicalText groups)) ∧
    ((¬∃ groups, HasGroups s.toList groups) → normalizeMac s = .error (.invalidMac s)) ∧
    (∀ r, normalizeMac s = .ok r → normalizeMac r = .ok r) ∧
    ∀ groups groups', HasGroups s.toList groups → HasGroups t.toList groups' →
      (normalizeMac s = normalizeMac t ↔ groups.map octetValue = groups'.map octetValue) := by
  refine ⟨?_, fun _ => normalizeMac_eq_ok, normalizeMac_eq_error, ?_, ?_⟩
  · constructor
    · rintro ⟨r, h⟩
      exact exists_groups h
    · rintro ⟨groups, h⟩
      exact ⟨_, normalizeMac_eq_ok h⟩
  · intro r h
    obtain ⟨groups, hgroups⟩ := exists_groups h
    obtain ⟨m, hm, -, -⟩ := exists_mac hgroups
    obtain rfl := Except.ok.inj (h.symm.trans hm)
    rw [normalizeMac, Mac.ofString?_render]
  · intro groups groups' h h'
    obtain ⟨m, hm, -, hvalues⟩ := exists_mac h
    obtain ⟨m', hm', -, hvalues'⟩ := exists_mac h'
    rw [hm, hm', hvalues, hvalues', ← Mac.eq_iff_values, ← Mac.render_inj]
    exact ⟨Except.ok.inj, congrArg _⟩

/-- The groups of an address in two spellings. -/
def mixedGroups : List (List Char) := ["aA", "Bb", "cc", "00", "1f", "22"].map String.toList

/-- The same octets. -/
def plainGroups : List (List Char) := ["aa", "bb", "cc", "00", "1F", "22"].map String.toList

/-- An address with both separators between blanks, and the same with colons alone. -/
theorem normalizeMac_canonical_sample :
    HasGroups "\t aA-Bb:cc-00:1f-22\n".toList mixedGroups ∧
    HasGroups "aa:bb:cc:00:1F:22".toList plainGroups ∧
    normalizeMac "\t aA-Bb:cc-00:1f-22\n" = .ok "AA:BB:CC:00:1F:22" ∧
    normalizeMac "\t aA-Bb:cc-00:1f-22\n" = normalizeMac "aa:bb:cc:00:1F:22" ∧
    normalizeMac "AA:BB:CC:00:1F:22" = .ok "AA:BB:CC:00:1F:22" := by
  have hgroups : ∀ group ∈ mixedGroups ++ plainGroups, Mac.IsGroup group := by
    simp only [← Mac.isSome_octet?_iff]
    decide
  obtain ⟨hmixedGroups, hplainGroups⟩ := List.forall_mem_append.mp hgroups
  have hmixed : HasGroups "\t aA-Bb:cc-00:1f-22\n".toList mixedGroups :=
    ⟨Text.splitAt_eq_iff.mp (by decide), rfl, hmixedGroups⟩
  have hplain : HasGroups "aa:bb:cc:00:1F:22".toList plainGroups :=
    ⟨Text.splitAt_eq_iff.mp (by decide), rfl, hplainGroups⟩
  obtain ⟨-, hwritten, -, hself, hsame⟩ :=
    normalizeMac_canonical "\t aA-Bb:cc-00:1f-22\n" "aa:bb:cc:00:1F:22"
  have htext : canonicalText mixedGroups = "AA:BB:CC:00:1F:22" := by decide +kernel
  have hcanonical := htext ▸ hwritten _ hmixed
  exact ⟨hmixed, hplain, hcanonical, (hsame _ _ hmixed hplain).mpr (by decide),
    hself _ hcanonical⟩

end FleetAgent.Device
