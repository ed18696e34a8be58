import WorktreeTracker.Program
import WorktreeTracker.Proofs.Tracker.Origin

/-!
# The backend of a root

A backend can be named by a flag of the command line, in the settings of the repository and in those
of the user. The documented order lets a flag win over the settings of the repository. The tracker
is made with one backend, chosen from the flag and the settings of the user, and a registration lets
the settings of the repository replace it, wherever it came from. So the settings of a repository
win over a flag. The two orders differ exactly when both are given and name different backends.
-/

namespace WorktreeTracker

/-! ## Names of backends -/

namespace StoreKind

/-- A backend that may be named is accepted: one of the configurable kinds in any case. -/
def Accepted (name : Option String) : Prop := ∀ given ∈ name, ∃ kind, choose given = .ok kind

theorem accepted_none : Accepted none := by
  intro given hgiven
  cases hgiven

/-- The backend that is named, when one is. -/
def named? (name : Option String) : Option StoreKind := name.bind ofName?

theorem choose_eq_ok {name : String} {kind : StoreKind} :
    choose name = .ok kind ↔ ofName? name = some kind ∧ kind.isConfigurable = true := by
  unfold choose
  rw [← Option.filter_eq_some_iff]
  cases (ofName? name).filter isConfigurable with
  | none => simp
  | some found => simp

/-- An accepted name that is given names a configurable backend. -/
theorem Accepted.named?_cases {name : Option String} (h : Accepted name) :
    name = none ∧ named? name = none ∨
      ∃ given kind, name = some given ∧ named? name = some kind ∧ kind.isConfigurable = true := by
  cases name with
  | none => exact .inl ⟨rfl, rfl⟩
  | some given =>
    obtain ⟨kind, hkind⟩ := h given rfl
    obtain ⟨hname, hconfigurable⟩ := choose_eq_ok.1 hkind
    exact .inr ⟨given, kind, rfl, hname, hconfigurable⟩

theorem Accepted.named?_eq_none {name : Option String} (h : Accepted name) :
    named? name = none ↔ name = none := by
  rcases h.named?_cases with ⟨rfl, heq⟩ | ⟨given, kind, rfl, heq, -⟩ <;> simp [heq]

end StoreKind

open StoreKind (Accepted accepted_none named?)

/-- The check of a backend in settings is that its name is accepted. -/
theorem checkBackend_eq_ok {name : Option String} : checkBackend name = .ok () ↔ Accepted name := by
  cases name with
  | none => simp [checkBackend, Accepted]
  | some given =>
    simp only [checkBackend, map_eq_ok, mapError_eq_ok, Accepted, Option.mem_some_iff, and_true,
      forall_eq']

/-- The backend in settings of a user that were loaded is accepted. -/
theorem Configuration.loadFrom_accepted {t : FileTree} {path : Path} {c : Configuration}
    (h : Configuration.loadFrom t path = .ok c) : Accepted c.settings.backend := by
  obtain ⟨settings, -, h⟩ := bind_eq_ok.1 h
  obtain ⟨⟨⟩, hvalid, h⟩ := bind_eq_ok.1 h
  obtain rfl := Except.ok.inj h
  obtain ⟨⟨⟩, hbackend, -⟩ := bind_eq_ok.1 hvalid
  exact checkBackend_eq_ok.1 hbackend

/-- The backend in settings of a repository that were loaded is accepted. -/
theorem RepositorySettings.load_accepted {t : FileTree} {path : Path}
    {settings : Option RepositorySettings} (h : RepositorySettings.load t path = .ok settings) :
    Accepted (settings.getD .empty).backend := by
  unfold RepositorySettings.load at h
  split at h
  next =>
    obtain rfl := Except.ok.inj h
    exact accepted_none
  next =>
    obtain ⟨read, -, h⟩ := bind_eq_ok.1 h
    obtain ⟨⟨⟩, hvalid, h⟩ := bind_eq_ok.1 h
    obtain rfl := Except.ok.inj h
    obtain ⟨⟨⟩, hbackend, -⟩ := bind_eq_ok.1 hvalid
    exact checkBackend_eq_ok.1 hbackend

/-! ## Orders -/

/-- The backends named for a root. -/
structure NamedBackends where
  /-- By the flag of the command line. -/
  flag : Option StoreKind
  /-- In the settings of the repository. -/
  repository : Option StoreKind
  /-- In the settings of the user. -/
  user : Option StoreKind
deriving DecidableEq

namespace NamedBackends

/-- The names given for a root, as backends. -/
def ofNames (i : Invocation) (c : Configuration) (settings : Option RepositorySettings) :
    NamedBackends :=
  ⟨named? i.backend, named? (settings.getD .empty).backend, named? c.settings.backend⟩

/-- The documented order: later ones win among the default, the settings of the user, those of the
repository and the flag. -/
def documented (n : NamedBackends) : StoreKind := ((n.flag.or n.repository).or n.user).getD .libgit

/-- The order in force: the settings of the repository win over the flag. -/
def effective (n : NamedBackends) : StoreKind := ((n.repository.or n.flag).or n.user).getD .libgit

/-- The orders differ when both the flag and the settings of the repository name a backend, and not
the same one. -/
theorem effective_eq_documented_iff (n : NamedBackends) :
    n.effective = n.documented ↔ n.flag = none ∨ n.repository = none ∨ n.repository = n.flag := by
  obtain ⟨_ | flag, _ | repository, _ | user⟩ := n <;> simp [effective, documented]

end NamedBackends

/-! ## The context of a command -/

/-- The configuration that an invocation loads. -/
def Invocation.configuration (i : Invocation) (p : Process) : Except SettingsError Configuration :=
  match i.config with
  | some path => Configuration.loadFrom p.tree path
  | none => Configuration.load p.tree p.environment

/-- The backend in the settings that an invocation loads is accepted. -/
theorem Invocation.configuration_accepted {i : Invocation} {p : Process} {c : Configuration}
    (h : i.configuration p = .ok c) : Accepted c.settings.backend := by
  unfold Invocation.configuration at h
  split at h
  next => exact Configuration.loadFrom_accepted h
  next =>
    unfold Configuration.load at h
    split at h
    next => exact Configuration.loadFrom_accepted h
    next =>
      obtain rfl := Except.ok.inj h
      exact accepted_none

/-- An accepted flag wins over the configuration. -/
theorem chooseBackend_of_accepted {flag : Option String} (h : Accepted flag) (c : Configuration) :
    chooseBackend flag c = .ok (((named? flag).or (named? c.settings.backend)).getD .libgit) := by
  cases flag with
  | none => rfl
  | some given =>
    obtain ⟨kind, hkind⟩ := h given rfl
    have hnamed : named? (some given) = some kind := (StoreKind.choose_eq_ok.1 hkind).1
    rw [hnamed]
    exact hkind

/-- An invocation whose configuration is loaded and whose flag is accepted has a context. -/
theorem contextOf_of_accepted {p : Process} {i : Invocation} {configuration : Configuration}
    (hload : i.configuration p = .ok configuration) (hflag : Accepted i.backend) :
    ∃ c, contextOf p i = .ok c ∧ c.configuration = configuration ∧
      c.backend = ((named? i.backend).or (named? configuration.settings.backend)).getD .libgit := by
  refine ⟨⟨i.cwd.getD (.ofLocation p.tree.workingDirectory), .ofFlags i.quiet i.debug,
    configuration, _⟩, ?_, rfl, rfl⟩
  unfold contextOf
  refine bind_eq_ok.2 ⟨configuration, mapError_eq_ok.2 hload, ?_⟩
  exact bind_eq_ok.2 ⟨_, mapError_eq_ok.2 (chooseBackend_of_accepted hflag configuration), rfl⟩

/-! ## Registrations -/

/-- The store of a root is the backend by the order in force. -/
theorem storeFor_eq_effective (i : Invocation) (c : Configuration)
    (settings : Option RepositorySettings) :
    Tracker.storeFor (((named? i.backend).or (named? c.settings.backend)).getD .libgit) settings =
      (NamedBackends.ofNames i c settings).effective := by
  unfold Tracker.storeFor NamedBackends.effective NamedBackends.ofNames named?
  generalize (settings.getD .empty).backend.bind StoreKind.ofName? = repository
  cases repository <;> rfl

/-- The stores that read from disk are those that settings may choose. -/
theorem has_standard (kind : StoreKind) :
    StoreRegistry.standard.has kind = kind.isConfigurable := by
  cases kind <;> rfl

/-- The backend chosen from accepted names is configurable. -/
theorem chosen_configurable {first second : Option String} (hfirst : Accepted first)
    (hsecond : Accepted second) {backend : StoreKind} (h : backend.isConfigurable = true) :
    (((named? first).or (named? second)).getD backend).isConfigurable = true := by
  rcases hfirst.named?_cases with ⟨-, heq⟩ | ⟨-, kind, -, heq, hkind⟩
  · rw [heq, Option.none_or]
    rcases hsecond.named?_cases with ⟨-, heq⟩ | ⟨-, kind, -, heq, hkind⟩
    · rw [heq]
      exact h
    · rw [heq]
      exact hkind
  · rw [heq]
    exact hkind

namespace Tracker

/-- A root that is located, with acceptable settings, is registered by a tracker over the stores
that read from disk. -/
theorem registered_of_located {k : Tracker} {w : World} {root : Path} {l : Layout}
    {settings : Option RepositorySettings} (hstores : k.stores = .standard)
    (hbackend : k.settings.backend.isConfigurable = true)
    (hnew : k.registered.find? (keyOf w.tree root) = none)
    (hnewer : k.registered.find? (reuseKey w.tree root) = none)
    (hlocate : locate w.tree (normalizeRoot w.tree root) = .ok l)
    (hload : RepositorySettings.load w.tree l.trackerSettings = .ok settings) :
    ∃ id handle, (k.perform w (.register root)).1 = .registered id ∧
      (k.perform w (.register root)).2.handle? id = some handle ∧ handle.layout = l ∧
        handle.store = storeFor k.settings.backend settings := by
  have hlocated : (k.settings.backend.locate w (normalizeRoot w.tree root)).1 = .ok l := by
    rw [locate_of_configurable hbackend, hlocate]
    rfl
  have hstore : (storeFor k.settings.backend settings).isConfigurable = true := by
    have h := chosen_configurable (RepositorySettings.load_accepted hload) accepted_none hbackend
    rwa [named?, named?, Option.bind_none, Option.or_none] at h
  -- nothing stands in the way of making a handle
  have havailable : k.stores.has (storeFor k.settings.backend settings) = true := by
    rw [hstores, has_standard, hstore]
  have hmade : k.makeHandle w.tree l = .ok ⟨l, storeFor k.settings.backend settings,
      ⟨(settings.getD .empty).remotes⟩, .stale l⟩ :=
    makeHandle_eq_ok.2 ⟨settings, hload, .inr havailable, rfl⟩
  have hpossible : ∃ handle, k.Makes w root handle := ⟨⟨l, _, _, .stale l⟩, hlocated, hmade⟩
  have hlocator : k.stores.has k.settings.backend = true := by
    rw [hstores, has_standard, hbackend]
  rcases perform_register_cases k w root with
    ⟨id, hfound, -⟩ | ⟨-, ⟨e, -, hnone⟩ | ⟨handle, hmakes, heq⟩⟩
  · rw [hnewer] at hfound
    cases hfound
  · exact absurd ⟨hlocator, hpossible⟩ hnone
  · rcases insertHandle_cases k (normalizeRoot w.tree root) handle with
      ⟨id, hfound, -⟩ | ⟨-, hinsert⟩
    · rw [show k.registered.find? (normalizeRoot w.tree root).components = none from hnew] at hfound
      cases hfound
    · have hlayout : handle.layout = l := Except.ok.inj (hmakes.located.symm.trans hlocated)
      have heq' : handle = _ := Except.ok.inj
        (hmakes.made.symm.trans (hlayout ▸ hmade))
      refine ⟨k.handles.length, handle, ?_, ?_, hlayout, ?_⟩
      · rw [heq, hinsert]
      · rw [heq, hinsert]
        exact List.getElem?_concat_length
      · rw [heq']

/-- The backend of a root, for every invocation whose configuration is loaded and whose flag is
accepted. In every run of the tracker of its context, each handle goes back to a registration and
has the backend that comes first in the order in force for the settings read then. This is the one
that the documented order gives exactly when no flag is given, the repository names no backend, or
both name the same one. Every root that is located with acceptable settings is registered with that
backend. -/
theorem run_backend {p : Process} {i : Invocation} {configuration : Configuration}
    (hload : i.configuration p = .ok configuration) (hflag : Accepted i.backend) :
    ∃ c, contextOf p i = .ok c ∧ c.configuration = configuration ∧
      ∀ asked : List (World × Request),
        let k := (Run.of c.tracker asked).tracker
        (∀ id handle, k.handle? id = some handle → ∃ settings,
          ReadIn asked .standard c.backend settings handle ∧
            handle.store = (NamedBackends.ofNames i configuration settings).effective ∧
            (handle.store = (NamedBackends.ofNames i configuration settings).documented ↔
              i.backend = none ∨ (settings.getD .empty).backend = none ∨
                named? (settings.getD .empty).backend = named? i.backend)) ∧
          ∀ w root l settings,
            k.registered.find? (keyOf w.tree root) = none →
            k.registered.find? (reuseKey w.tree root) = none →
            locate w.tree (normalizeRoot w.tree root) = .ok l →
            RepositorySettings.load w.tree l.trackerSettings = .ok settings →
            ∃ id handle, (k.perform w (.register root)).1 = .registered id ∧
              (k.perform w (.register root)).2.handle? id = some handle ∧ handle.layout = l ∧
                handle.store = (NamedBackends.ofNames i configuration settings).effective := by
  obtain ⟨c, hcontext, rfl, hbackend⟩ := contextOf_of_accepted hload hflag
  have huser := Invocation.configuration_accepted hload
  refine ⟨c, hcontext, rfl, fun asked => ?_⟩
  obtain ⟨hstores, hsettings, hhandles⟩ := origin_of_run .standard
    ⟨c.backend, c.configuration.eventCapacity⟩ (.create c.configuration.eventCapacity) asked
  rw [show onBus .standard ⟨c.backend, c.configuration.eventCapacity⟩
    (.create c.configuration.eventCapacity) = c.tracker from rfl] at hstores hsettings hhandles
  constructor
  · intro id handle hhandle
    obtain ⟨settings, hread⟩ := hhandles id handle hhandle
    obtain ⟨w, root, hasked, hread⟩ := hread
    have hstore : handle.store =
        (NamedBackends.ofNames i c.configuration settings).effective := by
      rw [hread.store, ← storeFor_eq_effective, ← hbackend]
    refine ⟨settings, ⟨w, root, hasked, hread⟩, hstore, ?_⟩
    rw [hstore, NamedBackends.effective_eq_documented_iff]
    exact or_congr hflag.named?_eq_none
      (or_congr_left (RepositorySettings.load_accepted hread.loaded).named?_eq_none)
  · intro w root l settings hnew hnewer hlocate hread
    have hconfigurable : c.backend.isConfigurable = true := by
      rw [hbackend]
      exact chosen_configurable hflag huser rfl
    have hregistered := registered_of_located (k := (Run.of c.tracker asked).tracker) hstores
      (hsettings ▸ hconfigurable) hnew hnewer hlocate hread
    rwa [hsettings, hbackend, storeFor_eq_effective] at hregistered

/-! ## A flag with and without settings of the repository -/

/-- A clone without settings. -/
def unconfiguredClone : FileTree :=
  FileTree.empty.place ["r", ".git", "HEAD"] (.file "ref: refs/heads/main\n".toUTF8)

/-- The same clone with settings that name the backend `libgit`. -/
def libgitClone : FileTree :=
  unconfiguredClone.place ["r", ".git", "worktrack", "config.toml"]
    (.file "backend = \"libgit\"\n".toUTF8)

/-- A report on the current directory, to be read through the backend `files`. -/
def readFiles : Invocation := ⟨none, false, false, some "files", none, .status [] false⟩

/-- The program started over the given files with the arguments of that report. -/
def startedOver (t : FileTree) : Process :=
  ⟨t, ⟨none, none, none⟩, ["--backend", "files", "status"]⟩

/-- Without settings the clone is registered with the backend of the flag. -/
theorem run_backend_flag :
    readFiles.configuration (startedOver unconfiguredClone) = .ok .default ∧ Accepted readFiles.backend ∧
      ∃ c id handle, contextOf (startedOver unconfiguredClone) readFiles = .ok c ∧
        (c.tracker.perform ⟨unconfiguredClone, .empty⟩ (.register ⟨"/r"⟩)).1 = .registered id ∧
        (c.tracker.perform ⟨unconfiguredClone, .empty⟩ (.register ⟨"/r"⟩)).2.handle? id = some handle ∧
        handle.store = .files := by
  have hload : readFiles.configuration (startedOver unconfiguredClone) = .ok .default := by decide +kernel
  have hflag : Accepted readFiles.backend := fun given hgiven =>
    ⟨.files, by rw [← Option.some.inj hgiven]; decide +kernel⟩
  obtain ⟨c, hcontext, -, hrun⟩ := run_backend hload hflag
  obtain ⟨id, handle, hanswer, hhandle, -, hstore⟩ := (hrun []).2 ⟨unconfiguredClone, .empty⟩ ⟨"/r"⟩
    ⟨⟨"/r"⟩, ⟨"/r/.git"⟩, ⟨"/r/.git"⟩⟩ none rfl rfl (by decide +kernel) (by decide +kernel)
  exact ⟨hload, hflag, c, id, handle, hcontext, hanswer, hhandle, hstore.trans (by decide +kernel)⟩

/-- With settings that name another backend the flag is not followed. The arguments are those of the
report, and the documented order gives `files`. -/
theorem flag_not_followed :
    CommandLine.parse (startedOver libgitClone).arguments = .ok readFiles ∧
      RepositorySettings.load libgitClone ⟨"/r/.git/worktrack/config.toml"⟩ =
        .ok (some ⟨some "libgit", none⟩) ∧
      (NamedBackends.ofNames readFiles .default (some ⟨some "libgit", none⟩)).documented = .files ∧
      (contextOf (startedOver libgitClone) readFiles).toOption.map (fun c =>
        (c.configuration, (Run.of c.tracker
          [(⟨libgitClone, .empty⟩, .register ⟨"/r"⟩)]).tracker.handles.map Handle.store)) =
        some (.default, [.libgit]) := by
  refine ⟨?_, ?_, ?_, ?_⟩ <;> decide +kernel

end Tracker

end WorktreeTracker
