import WorktreeTracker.Locate
import WorktreeTracker.Proofs.FileTree.Refusal
import WorktreeTracker.Proofs.Path.Collapse
import WorktreeTracker.Proofs.Results
import WorktreeTracker.Tracker

/-!
# How located directories are written

The directories that are located on disk are plain paths, so two of them with the same components are
the same path.
-/

namespace WorktreeTracker

/-! ## Roots -/

open WorktreeTracker.Path

namespace FileTree

variable {t : FileTree}

/-- A canonical path is plain. -/
theorem plain_canonicalPath {p q : Path} (h : t.canonicalPath p = .ok q) : q.Plain := by
  obtain ⟨found, hfound, rfl⟩ := map_eq_ok.1 h
  rw [resolve_of_text (isPlainText_of_resolve hfound)] at hfound
  exact plain_ofLocation (isEntryName_of_entryAt? (entryAt?_of_followLinks hfound))

/-- A directory is found again with a slash at the end of its path. -/
theorem followLinks_slash {links left : Nat} {here place : Location} {parts : List String}
    {entry : Entry} (h : t.followLinks true links here parts = .ok (place, entry)) {part : String}
    {found : Found} (hpart : t.followLinks true left place [part] = .ok found) :
    ∃ again, t.followLinks true links here (parts ++ [""]) = .ok again := by
  have hdirectory := directory_of_followLinks (List.cons_ne_nil part []) hpart
  have hgoes := t.goesOn links here parts [""]
  rw [h] at hgoes
  obtain ⟨-, left, hlong⟩ := hgoes.ok
  have hturn : t.turn place "" = .ok (.reach place) := by
    rw [turn, hdirectory]
    rfl
  rw [hlong, followLinks_cons, hturn]
  dsimp only
  rw [followLinks_nil, hdirectory]
  exact ⟨_, rfl⟩

/-- A path is there when something in it is. -/
theorem canonicalPath_of_entry {p : Path} {part : String} {entry : Entry} (hpart : IsPart part)
    (hne : p.text ≠ "") (h : t.entry (p / part) = .ok entry) : ∃ q, t.canonicalPath p = .ok q := by
  have hrelative := hpart.relative
  obtain ⟨found, hfound, -⟩ := map_eq_ok.1 h
  by_cases hend : Text.endsWith "/" p.text = true
  · have hplain := isPlainText_of_resolve hfound
    have htext : (p / part).text = p.text ++ part := by
      rw [text_div p hrelative, if_neg (by simpa using hne), if_pos hend]
    have hshort : IsPlainText p.text := by
      obtain ⟨-, hzero, hlong⟩ := hplain
      rw [htext] at hzero hlong
      rw [String.toList_append, List.mem_append, not_or] at hzero
      rw [String.utf8ByteSize_append] at hlong
      exact ⟨hne, hzero.1, by omega⟩
    obtain ⟨a, ha⟩ := exists_of_endsWith hend
    have hpieces : p.pieces = p.stem ++ [""] := by
      have hsplit := pieces_of_endsWith (a := a)
      rw [stem, if_neg (by simpa using hne), if_pos hend, pieces, ha]
      rw [pieces] at hsplit
      rw [hsplit, List.dropLast_concat]
    have hstart : t.start (p / part) = t.start p := by
      rw [start, start, isAbsolute_div p hrelative]
    rw [resolve_of_text hplain, pieces_div p hrelative, hpart.pieces, hstart] at hfound
    obtain ⟨fault, -, hfault⟩ | ⟨place, _, left, hplace, -, hlong⟩ :=
      t.goesOn linkLimit (t.start p) p.stem [part]
    · cases hfound.symm.trans hfault
    · obtain ⟨again, hagain⟩ := followLinks_slash hplace (hlong.symm.trans hfound)
      rw [← hpieces, ← resolve_of_text hshort] at hagain
      exact ⟨_, map_eq_ok.2 ⟨_, hagain, rfl⟩⟩
  · rcases resolve_div (t := t) hrelative hne (Bool.eq_false_iff.2 hend) with
      ⟨fault, -, hfault⟩ | ⟨fault, -, hfault⟩ | ⟨place, entry, -, hshort, -⟩
    · cases hfound.symm.trans hfault
    · cases hfound.symm.trans hfault
    · exact ⟨_, map_eq_ok.2 ⟨_, hshort, rfl⟩⟩

end FileTree

namespace Tracker

variable {t : FileTree}

/-- The path that names are put after is plain with them. -/
theorem plain_nearestCanonical? {reversed : List Component} {p : Path}
    (hnames : ∀ text, .name text ∈ reversed → IsPart text)
    (h : nearestCanonical? t reversed = some p) : p.Plain := by
  fun_induction nearestCanonical? t reversed generalizing p with
  | case1 text rest path hpath =>
    obtain rfl := Option.some.inj h
    exact FileTree.plain_canonicalPath hpath
  | case2 text rest fault hpath ih =>
    obtain ⟨nearest, hnearest, rfl⟩ := Option.map_eq_some_iff.1 h
    exact (ih (fun other hother => hnames other (List.mem_cons_of_mem _ hother)) hnearest).div
      (hnames text List.mem_cons_self)
  | case3 reversed hreversed =>
    cases hpath : t.canonicalPath (.ofComponents reversed.reverse) with
    | error fault =>
      rw [hpath] at h
      cases h
    | ok path =>
      rw [hpath] at h
      obtain rfl := Option.some.inj h
      exact FileTree.plain_canonicalPath hpath

/-- The names among the components of a path have no slash in them. -/
theorem isPart_of_mem_components {p : Path} {text : String} (h : .name text ∈ p.components) :
    IsPart text := by
  have hinner : .name text ∈ p.inner := by
    rcases p.components_cases with ⟨-, hp⟩ | ⟨-, hp | hp⟩
    · exact (List.mem_cons.1 (hp ▸ h)).resolve_left (by simp)
    · exact (List.mem_cons.1 (hp ▸ h)).resolve_left (by simp)
    · exact hp ▸ h
  exact (isInner_of_mem_inner hinner).isPart

/-- A root is registered under a plain path, or under the path that was given when that leads
nowhere. -/
theorem normalizeRoot_cases (t : FileTree) (p : Path) :
    (normalizeRoot t p).Plain ∨
      normalizeRoot t p = p ∧ ∃ fault, t.canonicalPath p = .error fault := by
  unfold normalizeRoot
  cases hpath : t.canonicalPath p with
  | ok path => exact .inl (FileTree.plain_canonicalPath hpath)
  | error fault =>
    dsimp only
    split
    next text rest hreversed =>
      have hparts : ∀ other, .name other ∈ .name text :: rest → IsPart other := by
        intro other hother
        rw [← hreversed, List.mem_reverse] at hother
        exact isPart_of_mem_components hother
      cases hnearest : nearestCanonical? t rest with
      | none => exact .inr ⟨rfl, fault, rfl⟩
      | some path =>
        refine .inl (Plain.div (plain_nearestCanonical? ?_ hnearest)
          (hparts text List.mem_cons_self))
        exact fun other hother => hparts other (List.mem_cons_of_mem _ hother)
    next => exact .inr ⟨rfl, fault, rfl⟩

end Tracker

/-! ## Located directories -/

/-- A registered path that leads to a marker is plain. -/
theorem Tracker.plain_normalizeRoot {t : FileTree} {root : Path} {part : String} {entry : Entry}
    (hpart : IsPart part) (h : t.entry (normalizeRoot t root / part) = .ok entry) :
    (normalizeRoot t root).Plain := by
  rcases normalizeRoot_cases t root with hplain | ⟨hsame, fault, hfault⟩
  · exact hplain
  · rw [hsame] at h ⊢
    by_cases hempty : root.text = ""
    · exact ⟨[], by simp, .inr hempty⟩
    · obtain ⟨q, hq⟩ := FileTree.canonicalPath_of_entry hpart hempty h
      cases hfault.symm.trans hq

/-- A marker file is read when its text names a directory that is there. -/
theorem Locate.readMarker_eq_ok {t : FileTree} {root marker gitDir : Path} :
    readMarker t root marker = .ok gitDir ↔
      ∃ text target, t.readText marker = .ok text ∧ gitDirTarget? text = some target ∧
        t.isDirectory (resolveTarget root target) = true ∧ gitDir = resolveTarget root target := by
  rw [readMarker, bind_eq_ok]
  refine exists_congr fun text => ?_
  rw [mapError_eq_ok, exists_and_left]
  refine and_congr_right fun _ => ?_
  cases htarget : gitDirTarget? text with
  | none =>
    constructor
    · rintro ⟨⟩
    · rintro ⟨target, h, -⟩
      cases h
  | some target =>
    simp only [Option.some.injEq, exists_eq_left']
    cases t.isDirectory (resolveTarget root target) with
    | false =>
      constructor
      · rintro ⟨⟩
      · rintro ⟨h, -⟩
        cases h
    | true =>
      show (Except.ok (resolveTarget root target) : Except ReadError Path) = .ok gitDir ↔ _
      rw [eq_self, true_and]
      exact ⟨fun h => (Except.ok.inj h).symm, fun h => congrArg Except.ok h.symm⟩

/-- The shared directory is the one of the worktree when that has no file `commondir`, and otherwise
the directory that the file names. That one is normalized before it is looked for, so it is given as
it was found. -/
theorem Locate.readCommonDir_eq_ok {t : FileTree} {gitDir commonDir : Path} :
    readCommonDir t gitDir = .ok commonDir ↔
      (t.readText (gitDir / "commondir") = .error .notFound ∧ commonDir = gitDir) ∨
        ∃ text, t.readText (gitDir / "commondir") = .ok text ∧ Text.trim text ≠ "" ∧
          t.isDirectory (resolveTarget gitDir (Text.trim text)) = true ∧
          commonDir = resolveTarget gitDir (Text.trim text) := by
  have hok (found : Path) : (Except.ok found : Except ReadError Path) = .ok commonDir ↔
      commonDir = found :=
    ⟨fun h => (Except.ok.inj h).symm, fun h => congrArg Except.ok h.symm⟩
  unfold readCommonDir
  dsimp only
  cases htext : t.readText (gitDir / "commondir") with
  | error fault =>
    cases fault with
    | notFound => simp [hok]
    | _ => simp
  | ok text =>
    have hagain : (resolveTarget gitDir (Text.trim text)).normalize =
        resolveTarget gitDir (Text.trim text) := normalize_normalize _
    dsimp only
    rw [hagain]
    by_cases hempty : Text.trim text = ""
    · simp [hempty]
    · cases hdirectory : t.isDirectory (resolveTarget gitDir (Text.trim text)) <;>
        simp [hok, hempty, hdirectory]

/-- What locating a root gives: a primary clone has its marker for a directory, a linked worktree has
the directories that its files name. -/
theorem locate_eq_ok {t : FileTree} {root : Path} {l : Layout} :
    locate t root = .ok l ↔
      (t.entry (root / Locate.markerName) = .ok .directory ∧
          l = ⟨root, root / Locate.markerName, root / Locate.markerName⟩) ∨
        ∃ gitDir commonDir, Locate.readMarker t root (root / Locate.markerName) = .ok gitDir ∧
          Locate.readCommonDir t gitDir = .ok commonDir ∧ l = ⟨root, gitDir, commonDir⟩ := by
  -- a marker file is no directory and is there
  have hfile {gitDir : Path}
      (h : Locate.readMarker t root (root / Locate.markerName) = .ok gitDir) :
      ∃ contents, t.entry (root / Locate.markerName) = .ok (.file contents) := by
    obtain ⟨text, -, htext, -⟩ := Locate.readMarker_eq_ok.1 h
    exact FileTree.entry_of_readText htext
  unfold locate
  dsimp only
  cases hentry : t.entry (root / Locate.markerName) with
  | error fault =>
    have hnone : ∀ gitDir, Locate.readMarker t root (root / Locate.markerName) ≠ .ok gitDir := by
      intro gitDir h
      obtain ⟨contents, hcontents⟩ := hfile h
      cases hentry.symm.trans hcontents
    cases fault <;> simp [hnone]
  | ok entry =>
    cases entry with
    | directory =>
      have hnone : ∀ gitDir, Locate.readMarker t root (root / Locate.markerName) ≠ .ok gitDir := by
        intro gitDir h
        obtain ⟨contents, hcontents⟩ := hfile h
        cases hentry.symm.trans hcontents
      simp [hnone, eq_comm]
    | _ => simp [bind_eq_ok, pure, Except.pure, @eq_comm _ l]

/-- The directory that a marker file names is plain. -/
theorem plain_of_readMarker {t : FileTree} {root marker gitDir : Path}
    (h : Locate.readMarker t root marker = .ok gitDir) : gitDir.Plain := by
  obtain ⟨text, target, -, -, -, rfl⟩ := Locate.readMarker_eq_ok.1 h
  exact plain_normalize _

/-- The shared directory that the metadata in a plain directory names is plain. -/
theorem plain_of_readCommonDir {t : FileTree} {gitDir commonDir : Path} (hgitDir : gitDir.Plain)
    (h : Locate.readCommonDir t gitDir = .ok commonDir) : commonDir.Plain := by
  rcases Locate.readCommonDir_eq_ok.1 h with ⟨-, hsame⟩ | ⟨text, -, -, -, htarget⟩
  · rw [hsame]
    exact hgitDir
  · rw [htarget]
    exact plain_normalize _

/-- The name of the marker is a component. -/
theorem Locate.isPart_markerName : IsPart markerName := ⟨by decide, by decide⟩

/-- The shared directory of a root that is located under its registered path is plain. -/
theorem plain_commonDir_of_locate {t : FileTree} {root : Path} {l : Layout}
    (h : locate t (Tracker.normalizeRoot t root) = .ok l) : l.commonDir.Plain := by
  have hmarker := Locate.isPart_markerName
  rcases locate_eq_ok.1 h with ⟨hentry, rfl⟩ | ⟨gitDir, commonDir, hgitDir, hcommonDir, rfl⟩
  · exact (Tracker.plain_normalizeRoot hmarker hentry).div hmarker
  · exact plain_of_readCommonDir (plain_of_readMarker hgitDir) hcommonDir

/-- Shared directories that are located on disk are the same when their components are. -/
theorem commonDir_eq_of_same {t t' : FileTree} {root root' : Path} {l l' : Layout}
    (h : locate t (Tracker.normalizeRoot t root) = .ok l)
    (h' : locate t' (Tracker.normalizeRoot t' root') = .ok l')
    (hsame : l.commonDir.same l'.commonDir = true) : l.commonDir = l'.commonDir :=
  (plain_commonDir_of_locate h).eq_of_same (plain_commonDir_of_locate h') hsame

end WorktreeTracker
