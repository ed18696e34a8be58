import WorktreeTracker.Proofs.Locate

/-!
# Why a root is not located

A root is no repository when its marker is not found. That is meant to say that the root has no
marker, and two things come between: a root without a marker can be refused for another reason than a
missing name, such as a root that is a regular file, and a marker that is a link can lead nowhere.
Every other failure is about a marker that is there, or about a directory that it leads to.
-/

namespace WorktreeTracker

open FileTree WorktreeTracker.Path

namespace Locate

/-! ## Roots without a marker -/

section

variable (t : FileTree) (root : Path)

/-- A marker is in the directory that a root leads to. It may be a link, wherever that leads. -/
def HasMarker : Prop :=
  ∃ place, t.anchor root = .ok (place, .directory) ∧ t.entryAt? (place ++ [markerName]) ≠ none

/-- Why no marker is found for a root that has none. -/
inductive Unmarked : Fault → Prop where
  /-- The path of the marker is refused for its text, whatever there is on disk. -/
  | refused {fault : Fault} (hnone : ¬ HasMarker t root)
      (htext : ∀ t' : FileTree, t'.resolve (root / markerName) true = .error fault) :
      Unmarked fault
  /-- The root leads nowhere. -/
  | lost {fault : Fault} (htext : IsPlainText (root / markerName).text)
      (hroot : t.anchor root = .error fault) : Unmarked fault
  /-- The root is there and no directory. -/
  | outside {place : Location} {entry : Entry} (htext : IsPlainText (root / markerName).text)
      (hroot : t.anchor root = .ok (place, entry)) (hentry : entry ≠ .directory) :
      Unmarked .notADirectory
  /-- The root is a directory in which there is no marker. -/
  | missing {place : Location} (htext : IsPlainText (root / markerName).text)
      (hroot : t.anchor root = .ok (place, .directory))
      (hnone : t.entryAt? (place ++ [markerName]) = none) : Unmarked .notFound

/-- The marker is a link that leads nowhere. -/
def Dangling : Prop :=
  (∃ place target, t.anchor root = .ok (place, .directory) ∧
    t.entryAt? (place ++ [markerName]) = some (.link target)) ∧
      t.entry (root / markerName) = .error .notFound

end

variable {t : FileTree} {root : Path} {fault : Fault}

/-- The path of a marker can be looked up, or it is refused for another reason than a missing name. -/
theorem refused_or_text_marker (root : Path) :
    (∃ fault, fault ≠ .notFound ∧
      ∀ t : FileTree, t.resolve (root / markerName) true = .error fault) ∨
      IsPlainText (root / markerName).text := by
  have hne : (root / markerName).text ≠ "" := by
    rw [text_div root isPart_markerName.relative]
    split
    next => decide
    next => split <;> simp [markerName]
  exact (refused_or_text (root / markerName)).imp_left
    fun ⟨fault, hfault, hrefused⟩ => ⟨fault, hfault hne, hrefused⟩

/-- The marker is looked for where the root leads. -/
theorem goesOn_marker (htext : IsPlainText (root / markerName).text) :
    t.GoesOn [markerName] (t.anchor root) (t.resolve (root / markerName) true) := by
  have hgoes := goesOn_anchor (t := t) isPart_markerName.relative htext
  rwa [isPart_markerName.pieces] at hgoes

/-- From a directory the name of the marker leads to what is there. -/
theorem turn_marker {place : Location} (hplace : t.entryAt? place = some .directory) :
    t.turn place markerName =
      match t.entryAt? (place ++ [markerName]) with
      | none => .error .notFound
      | some (.link target) =>
        .ok (.link (if Text.startsWith "/" target then [] else place) (Text.splitOn '/' target))
      | some _ => .ok (.reach (place ++ [markerName])) :=
  turn_name hplace (by decide) (by decide)

/-- A root that has no marker has none for one of the reasons. -/
theorem exists_unmarked (h : ¬ HasMarker t root) : ∃ fault, Unmarked t root fault := by
  rcases refused_or_text_marker root with ⟨fault, -, hrefused⟩ | htext
  · exact ⟨fault, .refused h hrefused⟩
  cases hroot : t.anchor root with
  | error fault => exact ⟨fault, .lost htext hroot⟩
  | ok found =>
    obtain ⟨place, entry⟩ := found
    by_cases hentry : entry = .directory
    · subst hentry
      exact ⟨_, .missing htext hroot (by_contra fun hsome => h ⟨place, hroot, hsome⟩)⟩
    · exact ⟨_, .outside htext hroot hentry⟩

/-- For each of the reasons the root has no marker. -/
theorem Unmarked.not_hasMarker (h : Unmarked t root fault) : ¬ HasMarker t root := by
  rintro ⟨place, hplace, hmarker⟩
  cases h with
  | refused hnone htext => exact hnone ⟨place, hplace, hmarker⟩
  | lost htext hroot => cases hroot.symm.trans hplace
  | outside htext hroot hentry =>
    exact hentry (Prod.mk.inj (Except.ok.inj (hroot.symm.trans hplace))).2
  | missing htext hroot hnone =>
    obtain ⟨rfl, -⟩ := Prod.mk.inj (Except.ok.inj (hroot.symm.trans hplace))
    exact hmarker hnone

/-- The reason is what looking for the marker is refused with. -/
theorem Unmarked.entry_eq (h : Unmarked t root fault) :
    t.entry (root / markerName) = .error fault := by
  rw [entry, map_eq_error]
  cases h with
  | refused hnone htext => exact htext t
  | lost htext hroot => exact (hroot ▸ goesOn_marker htext).error
  | outside htext hroot hentry =>
    obtain ⟨hplace, left, hlong⟩ := (hroot ▸ goesOn_marker htext).ok
    rw [hlong, followLinks_of_ne_directory hplace hentry]
  | missing htext hroot hnone =>
    obtain ⟨hplace, left, hlong⟩ := (hroot ▸ goesOn_marker htext).ok
    rw [hlong, followLinks_cons, turn_marker hplace, hnone]

/-- A marker that is there and not found is a link. -/
theorem HasMarker.dangling (h : HasMarker t root)
    (hentry : t.entry (root / markerName) = .error .notFound) : Dangling t root := by
  refine ⟨?_, hentry⟩
  obtain ⟨place, hroot, hmarker⟩ := h
  rcases refused_or_text_marker root with ⟨fault, hfault, hrefused⟩ | htext
  · rw [entry, map_eq_error, hrefused t] at hentry
    exact absurd (Except.error.inj hentry) hfault
  obtain ⟨hplace, left, hlong⟩ := (hroot ▸ goesOn_marker htext).ok
  rw [entry, map_eq_error, hlong, followLinks_cons, turn_marker hplace] at hentry
  obtain ⟨found, hfound⟩ := Option.ne_none_iff_exists'.1 hmarker
  cases found with
  | link target => exact ⟨place, target, hroot, hfound⟩
  | directory =>
    rw [hfound] at hentry
    dsimp only at hentry
    rw [followLinks_nil, hfound] at hentry
    cases hentry
  | file contents =>
    rw [hfound] at hentry
    dsimp only at hentry
    rw [followLinks_nil, hfound] at hentry
    cases hentry

/-- A marker that leads nowhere is there. -/
theorem Dangling.hasMarker (h : Dangling t root) : HasMarker t root := by
  obtain ⟨⟨place, target, hroot, hlink⟩, -⟩ := h
  exact ⟨place, hroot, by rw [hlink]; simp⟩

/-- No marker is found when there is none and its name is what is missing, or when it is a link that
leads nowhere. -/
theorem entry_marker_eq_notFound_iff :
    t.entry (root / markerName) = .error .notFound ↔
      Unmarked t root .notFound ∨ Dangling t root := by
  constructor
  · intro hentry
    by_cases h : HasMarker t root
    · exact .inr (h.dangling hentry)
    · obtain ⟨fault, hunmarked⟩ := exists_unmarked h
      obtain rfl := Except.error.inj (hunmarked.entry_eq.symm.trans hentry)
      exact .inl hunmarked
  · rintro (hunmarked | ⟨-, hentry⟩)
    · exact hunmarked.entry_eq
    · exact hentry

/-! ## Markers that are broken -/

variable (t root) in
/-- Why a root is not located although its marker is not missing. -/
inductive Broken : ReadError → Prop where
  /-- The marker is no directory and cannot be read. -/
  | unread {fault : Fault} (hfile : t.entry (root / markerName) ≠ .ok .directory)
      (htext : t.readText (root / markerName) = .error fault) (hfault : fault ≠ .notFound) :
      Broken (.ofFault (root / markerName) fault)
  /-- The marker file names no directory. -/
  | unnamed {text : String} (htext : t.readText (root / markerName) = .ok text)
      (htarget : gitDirTarget? text = none) :
      Broken (.corrupt (root / markerName) "expected 'gitdir: <path>'")
  /-- The directory that the marker file names is not there. -/
  | gitDir {text target : String} (htext : t.readText (root / markerName) = .ok text)
      (htarget : gitDirTarget? text = some target)
      (hgitDir : t.isDirectory (resolveTarget root target) = false) :
      Broken (.corrupt (root / markerName)
        s!"gitdir does not exist: {resolveTarget root target}")
  /-- The file `commondir` cannot be read. -/
  | shared {gitDir : Path} {fault : Fault}
      (hgitDir : readMarker t root (root / markerName) = .ok gitDir)
      (htext : t.readText (gitDir / "commondir") = .error fault) (hfault : fault ≠ .notFound) :
      Broken (.ofFault (gitDir / "commondir") fault)
  /-- The file `commondir` names no directory. -/
  | sharedUnnamed {gitDir : Path} {text : String}
      (hgitDir : readMarker t root (root / markerName) = .ok gitDir)
      (htext : t.readText (gitDir / "commondir") = .ok text) (htarget : Text.trim text = "") :
      Broken (.corrupt (gitDir / "commondir") "empty commondir")
  /-- The directory that the file `commondir` names is not there. -/
  | commonDir {gitDir : Path} {text : String}
      (hgitDir : readMarker t root (root / markerName) = .ok gitDir)
      (htext : t.readText (gitDir / "commondir") = .ok text) (htarget : Text.trim text ≠ "")
      (hcommonDir : t.isDirectory (resolveTarget gitDir (Text.trim text)) = false) :
      Broken (.corrupt (gitDir / "commondir")
        s!"commondir does not exist: {resolveTarget gitDir (Text.trim text)}")

/-- A marker file is not read when its text cannot be had, names no directory, or names one that is
not there. -/
theorem readMarker_eq_error {marker : Path} {e : ReadError} :
    readMarker t root marker = .error e ↔
      (∃ fault, t.readText marker = .error fault ∧ e = .ofFault marker fault) ∨
        ∃ text, t.readText marker = .ok text ∧
          ((gitDirTarget? text = none ∧ e = .corrupt marker "expected 'gitdir: <path>'") ∨
            ∃ target, gitDirTarget? text = some target ∧
              t.isDirectory (resolveTarget root target) = false ∧
              e = .corrupt marker s!"gitdir does not exist: {resolveTarget root target}") := by
  rw [readMarker, bind_eq_error, mapError_eq_error]
  refine or_congr (exists_congr fun fault => and_congr_right fun _ => eq_comm)
    (exists_congr fun text => and_congr mapError_eq_ok ?_)
  cases htarget : gitDirTarget? text with
  | none => simp [throw, throwThe, MonadExceptOf.throw, @eq_comm _ e]
  | some target =>
    cases hgitDir : t.isDirectory (resolveTarget root target) <;>
      simp [hgitDir, throw, throwThe, MonadExceptOf.throw, pure, Except.pure, bind, Except.bind,
        @eq_comm _ e]

/-- The file `commondir` is not read when it is there and cannot be had, names no directory, or names
one that is not there. -/
theorem readCommonDir_eq_error {gitDir : Path} {e : ReadError} :
    readCommonDir t gitDir = .error e ↔
      (∃ fault, t.readText (gitDir / "commondir") = .error fault ∧ fault ≠ .notFound ∧
          e = .ofFault (gitDir / "commondir") fault) ∨
        ∃ text, t.readText (gitDir / "commondir") = .ok text ∧
          ((Text.trim text = "" ∧ e = .corrupt (gitDir / "commondir") "empty commondir") ∨
            Text.trim text ≠ "" ∧
              t.isDirectory (resolveTarget gitDir (Text.trim text)) = false ∧
              e = .corrupt (gitDir / "commondir")
                s!"commondir does not exist: {resolveTarget gitDir (Text.trim text)}") := by
  unfold readCommonDir
  dsimp only
  cases htext : t.readText (gitDir / "commondir") with
  | error fault => cases fault <;> simp [@eq_comm _ e]
  | ok text =>
    dsimp only
    by_cases hempty : Text.trim text = ""
    · simp [hempty, @eq_comm _ e]
    · cases hcommonDir : t.isDirectory (resolveTarget gitDir (Text.trim text)) <;>
        simp [hempty, hcommonDir, @eq_comm _ e]

/-- A marker that is no directory is read as a marker file. -/
theorem locate_of_entry {found : Entry} (hentry : t.entry (root / markerName) = .ok found)
    (hfile : found ≠ .directory) :
    locate t root = readMarker t root (root / markerName) >>= fun gitDir =>
      readCommonDir t gitDir >>= fun commonDir => .ok ⟨root, gitDir, commonDir⟩ := by
  unfold locate
  dsimp only
  rw [hentry]
  cases found with
  | directory => exact absurd rfl hfile
  | file contents => rfl
  | link target => rfl

/-- A marker that is found and is no marker file that can be followed is broken. -/
theorem Broken.of_readMarker {e : ReadError} {found : Entry}
    (hentry : t.entry (root / markerName) = .ok found) (hfile : found ≠ .directory)
    (h : readMarker t root (root / markerName) = .error e) : Broken t root e := by
  rcases readMarker_eq_error.1 h with ⟨fault, htext, rfl⟩ |
    ⟨text, htext, ⟨htarget, rfl⟩ | ⟨target, htarget, hgitDir, rfl⟩⟩
  · refine .unread (by simpa [hentry] using hfile) htext ?_
    rintro rfl
    -- something is found, so the text is not missing
    obtain ⟨found', hfound, -⟩ := map_eq_ok.1 hentry
    cases hfound.symm.trans (readText_eq_notFound_iff.1 htext)
  · exact .unnamed htext htarget
  · exact .gitDir htext htarget hgitDir

/-- What a marker file leads to is broken when its file `commondir` cannot be followed. -/
theorem Broken.of_readCommonDir {e : ReadError} {gitDir : Path}
    (hgitDir : readMarker t root (root / markerName) = .ok gitDir)
    (h : readCommonDir t gitDir = .error e) : Broken t root e := by
  rcases readCommonDir_eq_error.1 h with ⟨fault, htext, hfault, rfl⟩ |
    ⟨text, htext, ⟨htarget, rfl⟩ | ⟨htarget, hcommonDir, rfl⟩⟩
  · exact .shared hgitDir htext hfault
  · exact .sharedUnnamed hgitDir htext htarget
  · exact .commonDir hgitDir htext htarget hcommonDir

/-- A root with a marker whose text is there is not located when the marker file is not read. -/
theorem locate_of_readMarker {text : String} {e : ReadError}
    (htext : t.readText (root / markerName) = .ok text)
    (h : readMarker t root (root / markerName) = .error e) : locate t root = .error e := by
  obtain ⟨contents, hentry⟩ := entry_of_readText htext
  rw [locate_of_entry hentry (by simp), h]
  rfl

/-- A root with a marker file is not located when the file `commondir` is not read. -/
theorem locate_of_readCommonDir {gitDir : Path} {e : ReadError}
    (hgitDir : readMarker t root (root / markerName) = .ok gitDir)
    (h : readCommonDir t gitDir = .error e) : locate t root = .error e := by
  obtain ⟨text, -, htext, -⟩ := readMarker_eq_ok.1 hgitDir
  obtain ⟨contents, hentry⟩ := entry_of_readText htext
  rw [locate_of_entry hentry (by simp), hgitDir]
  show readCommonDir t gitDir >>= _ = _
  rw [h]
  rfl

/-- A root with a broken marker is not located. -/
theorem Broken.locate_eq {e : ReadError} (h : Broken t root e) : locate t root = .error e := by
  cases h with
  | @unread fault hfile htext hfault =>
    cases hentry : t.entry (root / markerName) with
    | error other =>
      obtain rfl := Except.error.inj ((readText_of_entry hentry).symm.trans htext)
      unfold locate
      dsimp only
      rw [hentry]
      cases other with
      | notFound => exact absurd rfl hfault
      | _ => rfl
    | ok found =>
      have hmarker : readMarker t root (root / markerName) =
          .error (.ofFault (root / markerName) fault) :=
        readMarker_eq_error.2 (.inl ⟨fault, htext, rfl⟩)
      rw [locate_of_entry hentry (fun hdirectory => hfile (hdirectory ▸ hentry)), hmarker]
      rfl
  | unnamed htext htarget =>
    exact locate_of_readMarker htext
      (readMarker_eq_error.2 (.inr ⟨_, htext, .inl ⟨htarget, rfl⟩⟩))
  | gitDir htext htarget hgitDir =>
    exact locate_of_readMarker htext
      (readMarker_eq_error.2 (.inr ⟨_, htext, .inr ⟨_, htarget, hgitDir, rfl⟩⟩))
  | shared hgitDir htext hfault =>
    exact locate_of_readCommonDir hgitDir (readCommonDir_eq_error.2 (.inl ⟨_, htext, hfault, rfl⟩))
  | sharedUnnamed hgitDir htext htarget =>
    exact locate_of_readCommonDir hgitDir
      (readCommonDir_eq_error.2 (.inr ⟨_, htext, .inl ⟨htarget, rfl⟩⟩))
  | commonDir hgitDir htext htarget hcommonDir =>
    exact locate_of_readCommonDir hgitDir
      (readCommonDir_eq_error.2 (.inr ⟨_, htext, .inr ⟨htarget, hcommonDir, rfl⟩⟩))

end Locate

open Locate

variable {t : FileTree} {root : Path}

/-- A root is not located when no marker is found, or when the marker is broken. -/
theorem locate_eq_error_iff {e : ReadError} :
    locate t root = .error e ↔
      (t.entry (root / markerName) = .error .notFound ∧ e = .notARepository root) ∨
        Broken t root e := by
  constructor
  · intro h
    cases hentry : t.entry (root / markerName) with
    | error fault =>
      by_cases hfault : fault = .notFound
      · subst hfault
        unfold locate at h
        dsimp only at h
        rw [hentry] at h
        exact .inl ⟨rfl, (Except.error.inj h).symm⟩
      · have hbroken : Broken t root (.ofFault (root / markerName) fault) :=
          .unread (by rw [hentry]; simp) (readText_of_entry hentry) hfault
        obtain rfl := Except.error.inj (hbroken.locate_eq.symm.trans h)
        exact .inr hbroken
    | ok found =>
      refine .inr ?_
      by_cases hfile : found = .directory
      · subst hfile
        cases (locate_eq_ok.2 (.inl ⟨hentry, rfl⟩)).symm.trans h
      · rw [locate_of_entry hentry hfile] at h
        rcases bind_eq_error.1 h with hmarker | ⟨gitDir, hgitDir, h⟩
        · exact .of_readMarker hentry hfile hmarker
        · rcases bind_eq_error.1 h with hcommonDir | ⟨commonDir, -, h⟩
          · exact .of_readCommonDir hgitDir hcommonDir
          · cases h
  · rintro (⟨hentry, rfl⟩ | h)
    · unfold locate
      dsimp only
      rw [hentry]
    · exact h.locate_eq

/-- What is wrong with a marker never says that there is none. -/
theorem Locate.Broken.ne_notARepository {e : ReadError} (h : Broken t root e) (p : Path) :
    e ≠ .notARepository p := by
  cases h <;> simp [ReadError.ofFault]

/-- A broken marker is there, or the root has none for another reason than a missing name. -/
theorem Locate.Broken.hasMarker_or {e : ReadError} (h : Broken t root e) :
    HasMarker t root ∨ ∃ fault, fault ≠ .notFound ∧ Unmarked t root fault := by
  by_contra hneither
  obtain ⟨hnone, hother⟩ := not_or.1 hneither
  obtain ⟨fault, hunmarked⟩ := exists_unmarked hnone
  refine hother ⟨fault, ?_, hunmarked⟩
  rintro rfl
  have hmissing : locate t root = .error (.notARepository root) :=
    locate_eq_error_iff.2 (.inl ⟨hunmarked.entry_eq, rfl⟩)
  exact h.ne_notARepository root (Except.error.inj (h.locate_eq.symm.trans hmissing))

end WorktreeTracker
