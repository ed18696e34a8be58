import WorktreeTracker.Proofs.Locate.Failure
import WorktreeTracker.Proofs.Tracker.Registration

/-!
# Failed registrations

A registration that fails says which of three things is wrong: no marker is found in the root, a
marker is broken, or the settings of the repository cannot be used. It changes nothing. That the first
is said of exactly the roots that have no marker holds for the roots that are missing or directories;
it fails when the root is refused for another reason, as a regular file is, and when the marker is a
link that leads nowhere.
-/

namespace WorktreeTracker.Tracker

open Locate

variable {k : Tracker} {w : World} {root : Path}

/-! ## Handles that are not made -/

/-- A handle is not made when the settings of the repository cannot be used, or choose a store that is
not available. -/
theorem makeHandle_eq_error {t : FileTree} {l : Layout} {e : TrackError} :
    k.makeHandle t l = .error e ↔
      (∃ problem, RepositorySettings.load t l.trackerSettings = .error problem ∧
          e = .settings problem) ∨
        ∃ settings, RepositorySettings.load t l.trackerSettings = .ok settings ∧
          storeFor k.settings.backend settings ≠ k.settings.backend ∧
          k.stores.has (storeFor k.settings.backend settings) = false ∧
          e = .unknownBackend (storeFor k.settings.backend settings).name := by
  unfold makeHandle
  rw [bind_eq_error, mapError_eq_error]
  refine or_congr (exists_congr fun problem => and_congr_right fun _ => eq_comm)
    (exists_congr fun settings => and_congr mapError_eq_ok ?_)
  dsimp only
  unfold storeFor
  cases (settings.getD .empty).backend.bind StoreKind.ofName? with
  | none =>
    refine iff_of_false (fun h => by cases h) fun h => h.1 rfl
  | some kind =>
    rw [Option.getD_some]
    dsimp only
    by_cases hsame : kind = k.settings.backend
    · rw [if_pos hsame]
      refine iff_of_false (fun h => by cases h) fun h => h.1 hsame
    · rw [if_neg hsame, requireStore]
      cases hhas : k.stores.has kind with
      | true =>
        refine iff_of_false (fun h => by cases h) fun h => Bool.false_ne_true h.2.1.symm
      | false =>
        rw [if_neg Bool.false_ne_true]
        constructor
        · intro h
          rcases bind_eq_error.1 h with h | ⟨store, h, -⟩
          · exact ⟨hsame, rfl, (Except.error.inj h).symm⟩
          · cases h
        · rintro ⟨-, -, rfl⟩
          rfl

/-! ## Registrations that fail -/

/-- A failed read that finds metadata names the root and tells its message. -/
theorem ofStore_ofRead {key : Path} {e : ReadError} (h : ∀ p, e ≠ .notARepository p) :
    TrackError.ofStore key (.ofRead e) = .unreadable key e.message := by
  cases e with
  | notARepository p => exact absurd rfl (h p)
  | _ => rfl

/-- Why a root that is not registered is refused. -/
inductive Refused (k : Tracker) (t : FileTree) (key : Path) : TrackError → Prop where
  /-- The root has no marker: the root or the marker is missing. -/
  | unmarked (h : Unmarked t key .notFound) : Refused k t key (.notARepository key)
  /-- The marker is a link that leads nowhere. -/
  | dangling (h : Dangling t key) : Refused k t key (.notARepository key)
  /-- The marker is broken, or the root is refused with it. -/
  | broken {e : ReadError} (h : Broken t key e) : Refused k t key (.unreadable key e.message)
  /-- The root is located, and the settings of its repository cannot be used. -/
  | settings {l : Layout} {problem : SettingsError} (hlocate : locate t key = .ok l)
      (hload : RepositorySettings.load t l.trackerSettings = .error problem) :
      Refused k t key (.settings problem)
  /-- The root is located, and its repository chooses a store that is not available. -/
  | backend {l : Layout} {settings : Option RepositorySettings} (hlocate : locate t key = .ok l)
      (hload : RepositorySettings.load t l.trackerSettings = .ok settings)
      (hother : storeFor k.settings.backend settings ≠ k.settings.backend)
      (hmissing : k.stores.has (storeFor k.settings.backend settings) = false) :
      Refused k t key (.unknownBackend (storeFor k.settings.backend settings).name)

/-- The handle that is made of a root which is located on disk, or the refusal. -/
def handleOnDisk (k : Tracker) (t : FileTree) (key : Path) : Except TrackError Handle :=
  (locate t key).mapError (fun e => .ofStore key (.ofRead e)) >>= k.makeHandle t

/-- A root that is not registered is located on disk, and the handle that is made of it is put in
place. -/
theorem register_of_new (hdisk : k.settings.backend.isConfigurable = true)
    (hstore : k.stores.has k.settings.backend = true)
    (hnew : k.registered.find? (reuseKey w.tree root) = none) :
    k.register w root =
      match k.handleOnDisk w.tree (normalizeRoot w.tree root) with
      | .error e => (.error e, k, w)
      | .ok handle => (.ok (k.insertHandle (normalizeRoot w.tree root) handle).1,
          (k.insertHandle (normalizeRoot w.tree root) handle).2, w) := by
  have hfind : k.find? w.tree (normalizeRoot w.tree root) = none := hnew
  have hlocate : k.settings.backend.locate w (normalizeRoot w.tree root) =
      ((locate w.tree (normalizeRoot w.tree root)).mapError StoreError.ofRead, w) := by
    cases hkind : k.settings.backend with
    | libgit => rfl
    | files => rfl
    | memory =>
      rw [hkind] at hdisk
      cases hdisk
  unfold register handleOnDisk
  simp only [hfind, requireStore, hstore, if_true, hlocate]
  cases locate w.tree (normalizeRoot w.tree root) with
  | error e => rfl
  | ok l =>
    cases hmake : k.makeHandle w.tree l <;>
      simp [Except.mapError, bind, Except.bind, hmake]

/-- No handle is made of a root exactly when it is refused. -/
theorem handleOnDisk_eq_error {t : FileTree} {key : Path} {e : TrackError} :
    k.handleOnDisk t key = .error e ↔ Refused k t key e := by
  rw [handleOnDisk, bind_eq_error, mapError_eq_error]
  constructor
  · rintro (⟨read, hread, rfl⟩ | ⟨l, hlocate, hmake⟩)
    · rcases locate_eq_error_iff.1 hread with ⟨hentry, rfl⟩ | hbroken
      · rcases entry_marker_eq_notFound_iff.1 hentry with hunmarked | hdangling
        · exact .unmarked hunmarked
        · exact .dangling hdangling
      · rw [ofStore_ofRead (hbroken.ne_notARepository)]
        exact .broken hbroken
    · rw [mapError_eq_ok] at hlocate
      rcases makeHandle_eq_error.1 hmake with ⟨problem, hload, rfl⟩ |
        ⟨settings, hload, hother, hmissing, rfl⟩
      · exact .settings hlocate hload
      · exact .backend hlocate hload hother hmissing
  · intro h
    cases h with
    | unmarked h =>
      have hentry := entry_marker_eq_notFound_iff.2 (.inl h)
      exact .inl ⟨_, locate_eq_error_iff.2 (.inl ⟨hentry, rfl⟩), rfl⟩
    | dangling h =>
      have hentry := entry_marker_eq_notFound_iff.2 (.inr h)
      exact .inl ⟨_, locate_eq_error_iff.2 (.inl ⟨hentry, rfl⟩), rfl⟩
    | broken h =>
      exact .inl ⟨_, h.locate_eq, ofStore_ofRead h.ne_notARepository⟩
    | settings hlocate hload =>
      exact .inr ⟨_, mapError_eq_ok.2 hlocate, makeHandle_eq_error.2 (.inl ⟨_, hload, rfl⟩)⟩
    | backend hlocate hload hother hmissing =>
      exact .inr ⟨_, mapError_eq_ok.2 hlocate,
        makeHandle_eq_error.2 (.inr ⟨_, hload, hother, hmissing, rfl⟩)⟩

/-- A registration fails when the root is not registered and refused. -/
theorem register_eq_error_iff (hdisk : k.settings.backend.isConfigurable = true)
    (hstore : k.stores.has k.settings.backend = true) {e : TrackError} :
    (k.register w root).1 = .error e ↔
      k.registered.find? (reuseKey w.tree root) = none ∧
        Refused k w.tree (normalizeRoot w.tree root) e := by
  rcases register_cases k w root with ⟨id, hfound, heq⟩ | ⟨hnew, -⟩
  · rw [heq, hfound]
    simp
  · rw [and_iff_right hnew, register_of_new hdisk hstore hnew, ← handleOnDisk_eq_error]
    cases k.handleOnDisk w.tree (normalizeRoot w.tree root) with
    | error e => simp
    | ok handle => simp

/-- A registration that fails changes nothing. -/
theorem register_of_error (hdisk : k.settings.backend.isConfigurable = true)
    (hstore : k.stores.has k.settings.backend = true) {e : TrackError}
    (h : (k.register w root).1 = .error e) : (k.register w root).2 = (k, w) := by
  obtain ⟨hnew, -⟩ := (register_eq_error_iff hdisk hstore).1 h
  rw [register_of_new hdisk hstore hnew] at h ⊢
  cases hmade : k.handleOnDisk w.tree (normalizeRoot w.tree root) with
  | error e => rfl
  | ok handle =>
    rw [hmade] at h
    cases h

/-! ## Failures and markers -/

/-- A registration tells by its failure whether there is a marker: the root is no repository when it
has none, and unreadable only when it has one. -/
def ToldByMarker (k : Tracker) (w : World) (root : Path) : Prop :=
  ((k.register w root).1 = .error (.notARepository (normalizeRoot w.tree root)) ↔
      ¬ HasMarker w.tree (normalizeRoot w.tree root)) ∧
    ∀ problem,
      (k.register w root).1 = .error (.unreadable (normalizeRoot w.tree root) problem) →
        HasMarker w.tree (normalizeRoot w.tree root)

/-- The root is no repository when it has no marker and a name is missing, or when the marker is a
link that leads nowhere. -/
theorem refused_notARepository_iff {t : FileTree} {key : Path} :
    Refused k t key (.notARepository key) ↔ Unmarked t key .notFound ∨ Dangling t key := by
  constructor
  · rintro (h | h)
    · exact .inl h
    · exact .inr h
  · rintro (h | h)
    · exact .unmarked h
    · exact .dangling h

/-- The metadata of the root is unreadable when the marker is broken. -/
theorem refused_unreadable_iff {t : FileTree} {key : Path} {problem : String} :
    Refused k t key (.unreadable key problem) ↔ ∃ e, Broken t key e ∧ problem = e.message := by
  constructor
  · rintro (_ | _ | h)
    exact ⟨_, h, rfl⟩
  · rintro ⟨e, h, rfl⟩
    exact .broken h

/-- The failure tells of the marker exactly when a root without one is refused for a missing name and
a marker that is a link leads somewhere. -/
theorem toldByMarker_iff (hdisk : k.settings.backend.isConfigurable = true)
    (hstore : k.stores.has k.settings.backend = true)
    (hnew : k.registered.find? (reuseKey w.tree root) = none) :
    k.ToldByMarker w root ↔
      (∀ fault, Unmarked w.tree (normalizeRoot w.tree root) fault → fault = .notFound) ∧
        ¬ Dangling w.tree (normalizeRoot w.tree root) := by
  have herror {e : TrackError} : (k.register w root).1 = .error e ↔
      Refused k w.tree (normalizeRoot w.tree root) e := by
    rw [register_eq_error_iff hdisk hstore, and_iff_right hnew]
  unfold ToldByMarker
  simp only [herror, refused_notARepository_iff, refused_unreadable_iff]
  generalize normalizeRoot w.tree root = key
  constructor
  · rintro ⟨hnone, hsome⟩
    constructor
    · intro fault hunmarked
      by_contra hfault
      have hbroken : Broken w.tree key (.ofFault (key / markerName) fault) :=
        .unread (by rw [hunmarked.entry_eq]; simp)
          (FileTree.readText_of_entry hunmarked.entry_eq) hfault
      exact hunmarked.not_hasMarker (hsome _ ⟨_, hbroken, rfl⟩)
    · intro hdangling
      exact hnone.1 (.inr hdangling) hdangling.hasMarker
  · rintro ⟨hmissing, hdangling⟩
    constructor
    · rw [or_iff_left hdangling]
      refine ⟨Unmarked.not_hasMarker, fun hnone => ?_⟩
      obtain ⟨fault, hunmarked⟩ := exists_unmarked hnone
      obtain rfl := hmissing fault hunmarked
      exact hunmarked
    · rintro problem ⟨e, hbroken, -⟩
      rcases hbroken.hasMarker_or with hmarker | ⟨fault, hfault, hunmarked⟩
      · exact hmarker
      · exact absurd (hmissing fault hunmarked) hfault

/-- What the failures of a registration say, for a tracker that reads from disk. The root is looked for
under its canonical path when it has one. The registration fails when the root is not registered and
refused for one of the reasons, and then nothing has changed. For a root that is not registered the
failure tells of the marker exactly when a root without one is refused for a missing name and a marker
that is a link leads somewhere. -/
theorem register_failures (k : Tracker) (w : World) (root : Path)
    (hdisk : k.settings.backend.isConfigurable = true)
    (hstore : k.stores.has k.settings.backend = true) :
    (∀ q, w.tree.canonicalPath root = .ok q → normalizeRoot w.tree root = q) ∧
      (∀ e, (k.register w root).1 = .error e ↔
        k.registered.find? (reuseKey w.tree root) = none ∧
          Refused k w.tree (normalizeRoot w.tree root) e) ∧
      (∀ e, (k.register w root).1 = .error e → (k.register w root).2 = (k, w)) ∧
      (k.registered.find? (reuseKey w.tree root) = none →
        (k.ToldByMarker w root ↔
          (∀ fault, Unmarked w.tree (normalizeRoot w.tree root) fault → fault = .notFound) ∧
            ¬ Dangling w.tree (normalizeRoot w.tree root))) := by
  refine ⟨fun q hq => ?_, fun e => register_eq_error_iff hdisk hstore,
    fun e he => register_of_error hdisk hstore he, toldByMarker_iff hdisk hstore⟩
  rw [normalizeRoot, hq]

/-! ## Roots without metadata -/

/-- Roots without metadata: an ordinary directory, a marker file that names nothing, a regular file,
and a marker that leads nowhere. -/
def bareRoots : FileTree where
  entries := [(["plain"], .directory), (["broken"], .directory),
    (["broken", ".git"], .file "nothing\n".toUTF8), (["file"], .file "".toUTF8),
    (["dangling"], .directory), (["dangling", ".git"], .link "gone")]
  workingDirectory := []
  named := by decide

/-- A tracker that has no roots yet. -/
def newTracker : Tracker := create .standard ⟨.files, 64⟩

/-- A directory without a marker is no repository, which tells of the marker, and a marker file that
names nothing cannot be read. -/
theorem register_failures_plain :
    (newTracker.register ⟨bareRoots, .empty⟩ ⟨"/plain"⟩).1 = .error (.notARepository ⟨"/plain"⟩) ∧
      newTracker.ToldByMarker ⟨bareRoots, .empty⟩ ⟨"/plain"⟩ ∧
      (newTracker.register ⟨bareRoots, .empty⟩ ⟨"/broken"⟩).1 = .error (.unreadable ⟨"/broken"⟩
        "corrupt repository metadata at /broken/.git: expected 'gitdir: <path>'") := by
  have hplain : normalizeRoot bareRoots ⟨"/plain"⟩ = ⟨"/plain"⟩ := by decide +kernel
  have hbroken : normalizeRoot bareRoots ⟨"/broken"⟩ = ⟨"/broken"⟩ := by decide +kernel
  have hunmarked : Unmarked bareRoots ⟨"/plain"⟩ .notFound :=
    .missing ⟨by decide +kernel, by decide +kernel, by decide +kernel⟩ rfl rfl
  obtain ⟨-, hfails, -, htold⟩ :=
    register_failures newTracker ⟨bareRoots, .empty⟩ ⟨"/plain"⟩ rfl rfl
  obtain ⟨-, hfails', -, -⟩ :=
    register_failures newTracker ⟨bareRoots, .empty⟩ ⟨"/broken"⟩ rfl rfl
  rw [hplain] at hfails htold
  rw [hbroken] at hfails'
  refine ⟨(hfails _).2 ⟨rfl, .unmarked hunmarked⟩, (htold rfl).2 ⟨fun fault hfault => ?_, ?_⟩,
    (hfails' _).2 ⟨rfl, .broken (.unnamed rfl rfl)⟩⟩
  · exact Except.error.inj (hfault.entry_eq.symm.trans hunmarked.entry_eq)
  · exact fun hdangling => hunmarked.not_hasMarker hdangling.hasMarker

/-- A regular file is unreadable although it has no marker, and a root whose marker leads nowhere is no
repository although it has one. -/
theorem failure_untold :
    (¬ HasMarker bareRoots ⟨"/file"⟩ ∧
        (newTracker.register ⟨bareRoots, .empty⟩ ⟨"/file"⟩).1 = .error (.unreadable ⟨"/file"⟩
          "repository access error: /file/.git: Not a directory (os error 20)")) ∧
      HasMarker bareRoots ⟨"/dangling"⟩ ∧
        (newTracker.register ⟨bareRoots, .empty⟩ ⟨"/dangling"⟩).1 =
          .error (.notARepository ⟨"/dangling"⟩) := by
  refine ⟨⟨?_, by decide +kernel⟩, ⟨["dangling"], rfl, ?_⟩, by decide +kernel⟩
  · have htext : FileTree.IsPlainText (Path.mk "/file" / markerName).text :=
      ⟨by decide +kernel, by decide +kernel, by decide +kernel⟩
    exact Unmarked.not_hasMarker (.outside htext rfl (by simp))
  · exact Option.some_ne_none (Entry.link "gone")

end WorktreeTracker.Tracker
