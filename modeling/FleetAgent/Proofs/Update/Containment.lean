/-
# Downloads stay in the folder of packages

However URLs are read, the name of a package is the last piece of the path of its address that is
not empty, and it is the name of an entry of a folder (`IsEntryName`): it has no slash and does not
mean the folder itself or the one above.  So a download, at whatever stage it is (`Stage`), has
changed nothing but the entry of that name, which lies directly in the folder of packages, or made
that folder (`Stage.confined`).

A link under that name would be followed when the file is opened for writing.  Downloads make no
links (`Confined.links`), so where there was none in the folder of packages there is none after any
row of searches for updates, and every file that has been made, written or removed lies directly in
the folder (`packages_stay_inside`).
-/
import FleetAgent.Proofs.Update.Download
import FleetAgent.Proofs.Url.Path

namespace FleetAgent

open Storage (Path Folder Node)

/-! ## Names and paths -/

/-- The name of an entry of a folder. -/
structure Storage.IsEntryName (name : String) : Prop where
  ne_empty : name ≠ ""
  no_slash : '/' ∉ name.toList
  ne_dot : name ≠ "."
  ne_dots : name ≠ ".."

namespace Update.Checker

/-- The text of a path is cut into the names on the path. -/
lemma components_join {p : Path} (hne : p ≠ []) (h : ∀ name ∈ p, '/' ∉ name.toList) :
    Folder.components (Text.join "/" p) = p := by
  have hpieces : ∀ piece ∈ p.map String.toList, ∀ c ∈ piece, (c == '/') = false := by
    intro piece hpiece c hc
    obtain ⟨name, hname, rfl⟩ := List.mem_map.mp hpiece
    exact beq_eq_false_iff_ne.mpr (ne_of_mem_of_not_mem hc (h name hname))
  have hcut : Text.Separated (· == '/') (Text.join "/" p).toList (p.map String.toList) := by
    rw [Text.join, String.toList_intercalate]
    exact Text.separated_intercalate (beq_self_eq_true '/') hpieces (by simpa using hne)
  rw [Folder.components, Text.splitAt_eq_iff.mpr hcut]
  simp

/-- The name that stands in a URL is that of an entry of a folder. -/
lemma names_iff {u : Url} {name : String} : u.Names name ↔ Storage.IsEntryName name ∧
    ∃ rest, u.path = "/" ++ rest ∧ Url.IsLastOf (Url.pieces rest) name := by
  constructor
  · rintro ⟨hdot, hdots, rest, hrest, hlast⟩
    have hpiece := Url.piece_of_mem hlast.mem
    exact ⟨⟨hlast.1, hpiece.1, hdot, hdots⟩, rest, hrest, hlast⟩
  · rintro ⟨hentry, hpath⟩
    exact ⟨hentry.ne_dot, hentry.ne_dots, hpath⟩

lemma isEntryName_of_packageName? {c : Checker} {uri name : String}
    (h : c.packageName? uri = some name) : Storage.IsEntryName name := by
  obtain ⟨u, -, hname⟩ := packageName?_eq_some_iff.mp h
  exact (names_iff.mp hname).1

/-- The name of a package stands in the path of its address. -/
lemma packageName?_infix {c : Checker} {uri name : String} {u : Url} (hu : c.readUrl uri = some u)
    (h : c.packageName? uri = some name) : name.toList <:+: u.path.toList := by
  obtain ⟨other, hother, -, -, rest, hrest, hlast⟩ := packageName?_eq_some_iff.mp h
  obtain rfl := Option.some.inj (hother.symm.trans hu)
  rw [hrest, String.toList_append]
  exact (Url.piece_of_mem hlast.mem).2.trans (List.suffix_append _ _).isInfix

/-! ## What is changed -/

/-- From one folder to another, only paths of a kind have changed, apart from a folder that may
have been made where nothing was, and no link has been made. -/
structure Confined (dir : Path) (P : Path → Prop) (f g : Folder) : Prop where
  changed : ∀ q, g.get? q ≠ f.get? q →
    (q = dir ∧ f.get? q = none ∧ g.get? q = some .folder) ∨ P q
  links : ∀ q target, g.get? q = some (.link target) → f.get? q = some (.link target)

section

variable {dir : Path} {P Q : Path → Prop} {f g k : Folder} {p : Path}

lemma Confined.refl (dir : Path) (P : Path → Prop) (f : Folder) : Confined dir P f f where
  changed _ h := absurd rfl h
  links _ _ h := h

lemma Confined.trans (h : Confined dir P f g) (h' : Confined dir P g k) : Confined dir P f k where
  changed q hq := by
    by_cases hg : g.get? q = f.get? q
    · rw [← hg]
      exact h'.changed q (hg ▸ hq)
    · rcases h.changed q hg with ⟨hdir, hnone, hfolder⟩ | hP
      · by_cases hk : k.get? q = g.get? q
        · exact .inl ⟨hdir, hnone, hk.trans hfolder⟩
        · rcases h'.changed q hk with ⟨-, hnone', -⟩ | hP
          · rw [hfolder] at hnone'
            cases hnone'
          · exact .inr hP
      · exact .inr hP
  links q target hq := h.links q target (h'.links q target hq)

lemma Confined.imp (h : Confined dir P f g) (hP : ∀ q, P q → Q q) : Confined dir Q f g where
  changed q hq := (h.changed q hq).imp_right (hP q)
  links := h.links

lemma confined_put {n : Node} (hn : ∀ target, n ≠ .link target) :
    Confined dir (· = p) f (f.put p n) where
  changed q hq := by
    refine .inr ?_
    by_contra hne
    exact hq (by rw [Folder.get?_put, if_neg hne])
  links q target hq := by
    rw [Folder.get?_put] at hq
    split at hq
    · exact absurd (Option.some.inj hq) (hn target)
    · exact hq

lemma confined_discard (f : Folder) (p : Path) : Confined dir (· = p) f (discard f p) := by
  rw [discard]
  split
  · exact .refl _ _ f
  · constructor
    · intro q hq
      refine .inr ?_
      by_contra hne
      exact hq (by rw [Folder.get?_remove, if_neg hne])
    · intro q target hq
      rw [Folder.get?_remove] at hq
      split at hq
      · cases hq
      · exact hq

lemma confined_prepare {c : Checker} (P : Path → Prop) (h : c.preparePackageDir f = .ok g) :
    Confined c.packageDir P f g := by
  rw [preparePackageDir] at h
  split at h
  · obtain rfl := Except.ok.inj h
    exact .refl _ _ f
  · split at h
    · cases h
    · next hnone =>
      obtain rfl := Except.ok.inj h
      have hmade : Confined c.packageDir (· = c.packageDir) f (f.put c.packageDir .folder) :=
        confined_put fun target htarget => by cases htarget
      refine ⟨fun q hq => .inl ?_, hmade.links⟩
      rcases hmade.changed q hq with hdir | rfl
      · exact hdir
      · exact ⟨rfl, hnone, by rw [Folder.get?_put, if_pos rfl]⟩

lemma confined_receive (f : Folder) (p : Path) (reply : Http.Reply) :
    Confined dir (fun q => f.create p = .ok q) f (receive f p reply).2 := by
  cases reply with
  | unreachable => exact .refl _ _ f
  | hangUp => exact .refl _ _ f
  | response answer =>
    rw [receive]
    split
    · exact .refl _ _ f
    · split
      · exact .refl _ _ f
      · next file hfile =>
        have hwritten : Confined dir (fun q => f.create p = .ok q) f
            (writeChunks f file answer.chunks) := by
          rw [writeChunks_eq]
          refine (confined_put fun target htarget => by cases htarget).imp ?_
          rintro q rfl
          exact hfile
        dsimp only
        split
        · exact hwritten
        · exact hwritten

lemma confined_fetchTo (c : Checker) (f : Folder) (p : Path) (uri : String)
    (server : Http.Request → Http.Reply) :
    Confined dir (fun q => q = p ∨ f.create p = .ok q) f (c.fetchTo f p uri server).1.2 := by
  have hdiscard (g : Folder) :
      Confined dir (fun q => q = p ∨ f.create p = .ok q) g (discard g p) :=
    (confined_discard g p).imp fun q hq => .inl hq
  rw [fetchTo]
  split
  · exact hdiscard f
  · next request hrequest =>
    have hreceive : Confined dir (fun q => q = p ∨ f.create p = .ok q) f
        (receive f p (server request)).2 :=
      (confined_receive f p (server request)).imp fun q hq => .inr hq
    dsimp only
    split
    · next left hleft =>
      rw [hleft] at hreceive
      exact hreceive
    · next e left hleft =>
      rw [hleft] at hreceive
      exact hreceive.trans (hdiscard left)

lemma confined_verify (f : Folder) (p : Path) (expected : String) :
    Confined dir (· = p) f (verify f p expected).2 := by
  rw [verify]
  split
  · exact .refl _ _ f
  · dsimp only
    split
    · exact .refl _ _ f
    · exact confined_discard f p

end

/-! ## Downloads -/

/-- The folders that a download goes through.  While a file is received, part of an answer has been
written, so any answer gives such a folder. -/
inductive Stage (c : Checker) (folder : Folder) (offer : Offer)
    (server : Http.Request → Http.Reply) : Folder → Prop where
  | prepared (g : Folder) (h : c.preparePackageDir folder = .ok g) : Stage c folder offer server g
  | receiving (g : Folder) (h : c.preparePackageDir folder = .ok g) (name : String)
      (hname : c.packageName? offer.uri = some name) (reply : Http.Reply) :
      Stage c folder offer server (receive g (c.packageDir ++ [name]) reply).2
  | fetched (g : Folder) (h : c.preparePackageDir folder = .ok g) (name : String)
      (hname : c.packageName? offer.uri = some name) :
      Stage c folder offer server (c.fetchTo g (c.packageDir ++ [name]) offer.uri server).1.2
  | finished : Stage c folder offer server (c.download folder offer server).folder

/-- The paths at which a download may make, write or remove a file: the entry under the name of the
package, and what a link there leads to. -/
inductive Touches (c : Checker) (folder : Folder) (offer : Offer) : Path → Prop where
  | entry (name : String) (hname : c.packageName? offer.uri = some name) :
      Touches c folder offer (c.packageDir ++ [name])
  | linked (name : String) (hname : c.packageName? offer.uri = some name) (target : Path)
      (hlink : folder.get? (c.packageDir ++ [name]) = some (.link target)) (g : Folder)
      (h : c.preparePackageDir folder = .ok g) (q : Path)
      (hq : g.create (c.packageDir ++ [name]) = .ok q) : Touches c folder offer q

section

variable {c : Checker} {folder g : Folder} {offer : Offer} {name : String}
  {server : Http.Request → Http.Reply}

/-- Where no link stands, a file is made at the path itself. -/
lemma eq_of_create {f : Folder} {p q : Path} (h : f.create p = .ok q)
    (hlink : ∀ target, f.get? p ≠ some (.link target)) : q = p := by
  obtain ⟨hfollow, -⟩ := Folder.admits_of_create h
  rw [Folder.follow] at hfollow
  split at hfollow
  · next target htarget => exact absurd htarget (hlink target)
  · exact (Except.ok.inj hfollow).symm

/-- The path of the package, and that of the file which is opened there, may be changed. -/
lemma touches_of_create (hg : c.preparePackageDir folder = .ok g)
    (hname : c.packageName? offer.uri = some name) {q : Path}
    (hq : q = c.packageDir ++ [name] ∨ g.create (c.packageDir ++ [name]) = .ok q) :
    c.Touches folder offer q := by
  rcases hq with rfl | hq
  · exact .entry name hname
  · by_cases hlink : ∃ target, g.get? (c.packageDir ++ [name]) = some (.link target)
    · obtain ⟨target, htarget⟩ := hlink
      exact .linked name hname target ((confined_prepare (fun _ => True) hg).links _ _ htarget) g hg q hq
    · have hplain := eq_of_create hq fun target htarget => hlink ⟨target, htarget⟩
      exact hplain ▸ .entry name hname

lemma confined_fetched (hg : c.preparePackageDir folder = .ok g)
    (hname : c.packageName? offer.uri = some name) :
    Confined c.packageDir (c.Touches folder offer) folder
      (c.fetchTo g (c.packageDir ++ [name]) offer.uri server).1.2 :=
  (confined_prepare _ hg).trans ((confined_fetchTo c g _ offer.uri server).imp
    fun _ hq => touches_of_create hg hname hq)

lemma confined_download (c : Checker) (folder : Folder) (offer : Offer)
    (server : Http.Request → Http.Reply) :
    Confined c.packageDir (c.Touches folder offer) folder (c.download folder offer server).folder := by
  rw [download]
  split
  · exact .refl _ _ folder
  · next name hname =>
    split
    · exact .refl _ _ folder
    · next g hg =>
      have hfetched : Confined c.packageDir (c.Touches folder offer) folder
          (c.fetchTo g (c.packageDir ++ [name]) offer.uri server).1.2 := confined_fetched hg hname
      dsimp only
      split
      · next e left requests hleft =>
        rw [hleft] at hfetched
        exact hfetched
      · next left requests hleft =>
        rw [hleft] at hfetched
        refine hfetched.trans ((confined_verify left _ offer.sha256).imp ?_)
        rintro q rfl
        exact .entry name hname

/-- **A download changes what it may change.** -/
theorem Stage.confined (h : c.Stage folder offer server g) :
    Confined c.packageDir (c.Touches folder offer) folder g := by
  cases h with
  | prepared _ hg => exact confined_prepare _ hg
  | receiving g hg name hname reply =>
    exact (confined_prepare _ hg).trans ((confined_receive g _ reply).imp
      fun _ hq => touches_of_create hg hname (.inr hq))
  | fetched g hg name hname => exact confined_fetched hg hname
  | finished => exact confined_download c folder offer server

/-! ## Searches -/

/-- No link stands directly in the folder of packages. -/
def HasNoLinks (c : Checker) (folder : Folder) : Prop :=
  ∀ name target, folder.get? (c.packageDir ++ [name]) ≠ some (.link target)

/-- Directly in the folder of packages. -/
def IsInside (c : Checker) (q : Path) : Prop :=
  ∃ name, Storage.IsEntryName name ∧ q = c.packageDir ++ [name]

/-- The folder after a row of searches for updates, each with its token and what the server says. -/
def searched (c : Checker) (folder : Folder)
    (searches : List (Except Auth.TokenError String × (Http.Request → Http.Reply))) : Folder :=
  searches.foldl (fun f search => (c.fetchUpdate f search.1 search.2).folder) folder

lemma HasNoLinks.of_confined (h : c.HasNoLinks folder) {dir : Path} {P : Path → Prop}
    (hconfined : Confined dir P folder g) : c.HasNoLinks g := by
  intro name target hlink
  exact h name target (hconfined.links _ _ hlink)

/-- Where there is no link to follow, what a download changes is inside. -/
lemma HasNoLinks.isInside (h : c.HasNoLinks folder) {q : Path}
    (hq : c.Touches folder offer q) : c.IsInside q := by
  cases hq with
  | entry name hname =>
    exact ⟨name, isEntryName_of_packageName? hname, rfl⟩
  | linked name hname target hlink => exact absurd hlink (h name target)

lemma HasNoLinks.confined_stage (h : c.HasNoLinks folder) (hstage : c.Stage folder offer server g) :
    Confined c.packageDir c.IsInside folder g :=
  hstage.confined.imp fun _ hq => h.isInside hq

lemma HasNoLinks.confined_fetchUpdate (h : c.HasNoLinks folder)
    (token : Except Auth.TokenError String) (server : Http.Request → Http.Reply) :
    Confined c.packageDir c.IsInside folder (c.fetchUpdate folder token server).folder := by
  rcases hcheck : (c.check token server).1 with e | _ | offer
  · rw [(fetchUpdate_of_check_error folder hcheck).2]
    exact .refl _ _ folder
  · rw [(fetchUpdate_of_check_none folder hcheck).2]
    exact .refl _ _ folder
  · rw [(fetchUpdate_of_check_some folder hcheck).2]
    exact h.confined_stage .finished

lemma HasNoLinks.confined_searched (h : c.HasNoLinks folder)
    (searches : List (Except Auth.TokenError String × (Http.Request → Http.Reply))) :
    Confined c.packageDir c.IsInside folder (c.searched folder searches) := by
  induction searches generalizing folder with
  | nil => exact .refl _ _ folder
  | cons search searches ih =>
    have hfirst := h.confined_fetchUpdate search.1 search.2
    exact hfirst.trans (ih (h.of_confined hfirst))

end

/-- **Packages stay in their folder**, however URLs are read.  A name is taken from an address
exactly if the address is a URL whose path begins with a slash, the name is the last of the pieces
between the slashes behind it that is not empty, and it has no slash and is neither `.` nor `..`.
All of it stands in the path, and so nothing of it comes from a query or a fragment.  The text of
the path to that entry has this one name behind those of the folder.  At every stage of a download,
whatever the server offers and sends, the only paths at which a file has been made, written or
removed are the entry of that name in the folder of packages and, if that was a link, the file that
it led to; apart from that, the folder of packages may have been made where there was nothing.  Where
no links were in that folder, there are none after any row of searches, and every file that these
and one more download have made, written or removed lies directly in it. -/
theorem packages_stay_inside :
    (∀ (c : Checker) uri name, c.packageName? uri = some name ↔
      ∃ u rest, c.readUrl uri = some u ∧ u.path = "/" ++ rest ∧
        name ≠ "" ∧ '/' ∉ name.toList ∧ name ≠ "." ∧ name ≠ ".." ∧
        ∃ front back, (rest.toList.splitOn '/').map String.ofList = front ++ name :: back ∧
          ∀ piece ∈ back, piece = "") ∧
    (∀ (c : Checker) uri u name, c.readUrl uri = some u → c.packageName? uri = some name →
      name.toList <:+: u.path.toList) ∧
    (∀ (c : Checker) uri name, c.packageName? uri = some name →
      (∀ folder ∈ c.packageDir, '/' ∉ folder.toList) →
      Folder.components (Text.join "/" (c.packageDir ++ [name])) = c.packageDir ++ [name]) ∧
    (∀ (c : Checker) folder offer server g, c.Stage folder offer server g →
      ∀ q, g.get? q ≠ folder.get? q →
        (q = c.packageDir ∧ folder.get? q = none ∧ g.get? q = some .folder) ∨
          c.Touches folder offer q) ∧
    ∀ (c : Checker) folder searches, c.HasNoLinks folder →
      ∀ offer server g, c.Stage (c.searched folder searches) offer server g →
        c.HasNoLinks g ∧ ∀ q, g.get? q ≠ folder.get? q →
          (q = c.packageDir ∧ folder.get? q = none ∧ g.get? q = some .folder) ∨
            ∃ name, Storage.IsEntryName name ∧ q = c.packageDir ++ [name] := by
  refine ⟨?_, ?_, ?_, ?_, ?_⟩
  · intro c uri name
    rw [packageName?_eq_some_iff]
    constructor
    · rintro ⟨u, hu, hname⟩
      obtain ⟨hentry, rest, hrest, -, hsplit⟩ := names_iff.mp hname
      exact ⟨u, rest, hu, hrest, hentry.ne_empty, hentry.no_slash, hentry.ne_dot, hentry.ne_dots,
        hsplit⟩
    · rintro ⟨u, rest, hu, hrest, hempty, -, hdot, hdots, hsplit⟩
      exact ⟨u, hu, hdot, hdots, rest, hrest, hempty, hsplit⟩
  · intro c uri u name hu hname
    exact packageName?_infix hu hname
  · intro c uri name hname hdir
    refine components_join (by simp) ?_
    intro n hn
    rcases List.mem_append.mp hn with hn | hn
    · exact hdir n hn
    · obtain rfl := List.mem_singleton.mp hn
      exact (isEntryName_of_packageName? hname).no_slash
  · intro c folder offer server g hstage
    exact hstage.confined.changed
  · intro c folder searches h offer server g hstage
    have hsearched := h.confined_searched searches
    have hlast := (h.of_confined hsearched).confined_stage hstage
    exact ⟨h.of_confined (hsearched.trans hlast), (hsearched.trans hlast).changed⟩

/-- An offer whose address tries to leave the folder. -/
def strayOffer : Offer :=
  ⟨"http://a/x/../%2e%2E/..\\..//ota%2f.zip//?name=/../y#/..", "00"⟩

/-- The name of the package is taken from the path, and only the entry of that name is changed. -/
theorem packages_stay_inside_sample :
    sampleChecker.packageName? strayOffer.uri = some "ota%2f.zip" ∧
    (∃ u, sampleChecker.readUrl strayOffer.uri = some u ∧
      "ota%2f.zip".toList <:+: u.path.toList) ∧
    Folder.components (Text.join "/" (sampleChecker.packageDir ++ ["ota%2f.zip"]))
      = ["packages", "ota%2f.zip"] ∧
    ∀ q, (sampleChecker.download (.empty "/data") strayOffer sampleServer).folder.get? q
        ≠ (Folder.empty "/data").get? q →
      q = ["packages"] ∨ ∃ name, Storage.IsEntryName name ∧ q = ["packages", name] := by
  obtain ⟨hname, hinfix, hcomponents, -, hinside⟩ := packages_stay_inside
  have hstray : sampleChecker.packageName? strayOffer.uri = some "ota%2f.zip" := by
    decide +kernel
  have hdir : ∀ folder ∈ sampleChecker.packageDir, '/' ∉ folder.toList := by decide +kernel
  obtain ⟨u, -, hu, -⟩ := (hname _ _ _).mp hstray
  have hlinks : sampleChecker.HasNoLinks (.empty "/data") := nofun
  have hdownload := (hinside sampleChecker (.empty "/data") [] hlinks strayOffer sampleServer _
    .finished).2
  exact ⟨hstray, ⟨u, hu, hinfix _ _ u _ hu hstray⟩, hcomponents _ _ _ hstray hdir,
    fun q hq => (hdownload q hq).imp_left And.left⟩

end Update.Checker

end FleetAgent
