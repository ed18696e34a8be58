import Mathlib.Data.Set.Function
import WorktreeTracker.Proofs.Snapshot
import WorktreeTracker.Proofs.Tracker.Registration

/-!
# The flag of a change event

An event says whether the snapshot differs from the one it replaced. The flag compares fingerprints,
so it is right exactly when a change of the branches, HEAD or the operation is also shown in the
texts that are hashed. It never reports a change that did not happen.
-/

namespace WorktreeTracker.Tracker

/-! ## Events and updates -/

/-- An event is that of an update, and the snapshot it replaced was read by an earlier one. -/
theorem mem_publications {updates : List Update} {previous : Option Snapshot}
    {e : RepositoryChanged} (h : (previous, e) ∈ publications updates) :
    (∃ u ∈ updates, u.result = .ok e.state) ∧
      (∀ s, previous = some s → ∃ u ∈ updates, u.result = .ok s) ∧
      e.changed = previous.all (·.changed e.state) := by
  induction updates with
  | nil => cases h
  | cons u earlier ih =>
    -- an event of the earlier updates is one of all, whatever the last update gave
    have hearlier (h : (previous, e) ∈ publications earlier) :
        (∃ v ∈ u :: earlier, v.result = .ok e.state) ∧
          (∀ s, previous = some s → ∃ v ∈ u :: earlier, v.result = .ok s) ∧
          e.changed = previous.all (·.changed e.state) := by
      obtain ⟨⟨v, hv, hresult⟩, hprevious, hchanged⟩ := ih h
      refine ⟨⟨v, List.mem_cons_of_mem _ hv, hresult⟩, fun s hs => ?_, hchanged⟩
      obtain ⟨v, hv, hresult⟩ := hprevious s hs
      exact ⟨v, List.mem_cons_of_mem _ hv, hresult⟩
    cases hresult : u.result with
    | error error =>
      simp only [publications, hresult] at h
      exact hearlier h
    | ok next =>
      simp only [publications, hresult] at h
      rcases List.mem_append.1 h with h | h
      · exact hearlier h
      · obtain ⟨rfl, rfl⟩ := Prod.mk.inj (List.mem_singleton.1 h)
        refine ⟨⟨u, List.mem_cons_self, hresult⟩, fun s hs => ?_, rfl⟩
        obtain ⟨v, hv, hlatest⟩ := latest?_eq_some hs
        exact ⟨v, List.mem_cons_of_mem _ hv, hlatest⟩

/-- An event of a run reports a change exactly when the digest of what is hashed differs. -/
theorem changed_iff_digest_ne {bus : EventBus} {r : Run} (hk : Keeps bus r.updates r.tracker)
    {p : Snapshot} {e : RepositoryChanged} (h : (some p, e) ∈ publications r.updates) :
    e.changed = true ↔ Digest.Sha256.digest p.hashed ≠ Digest.Sha256.digest e.state.hashed := by
  obtain ⟨⟨u, hu, hresult⟩, hprevious, hchanged⟩ := mem_publications h
  obtain ⟨v, hv, hread⟩ := hprevious p rfl
  rw [hchanged, Option.all_some, Snapshot.changed, decide_eq_true_iff, hk.read v hv p hread,
    hk.read u hu _ hresult, ne_eq, ne_eq, not_iff_not, Option.some_inj]
  constructor
  · exact fun heq => congrArg Fingerprint.text heq
  · exact fun heq => congrArg Fingerprint.mk heq

/-- Two snapshots with one view hash to the same bytes. -/
theorem hashed_eq_of_view_eq {p q : Snapshot} (h : p.view = q.view) : p.hashed = q.hashed := by
  obtain ⟨hbranches, hrest⟩ := Prod.mk.inj h
  obtain ⟨hhead, hstate⟩ := Prod.mk.inj hrest
  rw [Snapshot.hashed, Snapshot.hashed, hbranches, hhead, hstate]

/-- The bytes that are hashed for the events of a run. -/
def hashedIn (r : Run) : Set (List UInt8) :=
  {bytes | ∃ e ∈ published r.updates, bytes = e.state.hashed}

/-- Every snapshot that was read is that of an event. -/
theorem mem_hashedIn {r : Run} {u : Update} {s : Snapshot} (hu : u ∈ r.updates)
    (h : u.result = .ok s) : s.hashed ∈ hashedIn r := by
  have hpair : (u.root, s) ∈ r.updates.reverse.filterMap Update.success? :=
    List.mem_filterMap.2 ⟨u, List.mem_reverse.2 hu, by rw [Update.success?, h]; rfl⟩
  rw [← published_map] at hpair
  obtain ⟨e, he, heq⟩ := List.mem_map.1 hpair
  exact ⟨e, he, by rw [(Prod.mk.inj heq).2]⟩

/-! ## The flag -/

/-- What is known of the flag of every event of a run, as far as the digest tells apart what is
hashed in it. An event that replaces the stale snapshot reports a change. Any other reports one
exactly when the hashed bytes differ, and then the snapshots do differ. So the flag is right exactly
when snapshots with the same bytes are the same; where no remote is named with a mark that separates
the texts, these are the snapshots that are shown in the same way. -/
theorem run_changed (stores : StoreRegistry) (settings : TrackerSettings) (bus : EventBus)
    (asked : List (World × Request))
    (hinj : Set.InjOn Digest.Sha256.digest (hashedIn (Run.of (onBus stores settings bus) asked))) :
    let r := Run.of (onBus stores settings bus) asked
    r.tracker.bus = bus.publishAll ((publications r.updates).map Prod.snd) ∧
      ∀ previous e, (previous, e) ∈ publications r.updates →
        (previous = none → e.changed = true) ∧
          ∀ p, previous = some p →
            (e.changed = true ↔ p.hashed ≠ e.state.hashed) ∧
              (e.changed = true → p.view ≠ e.state.view) ∧
              ((e.changed = true ↔ p.view ≠ e.state.view) ↔
                (p.hashed = e.state.hashed → p.view = e.state.view)) ∧
              (p.Plain → e.state.Plain → (p.hashed = e.state.hashed ↔ p.LooksLike e.state)) := by
  intro r
  have hkeeps : Keeps bus r.updates r.tracker := Keeps.run stores settings bus asked
  refine ⟨hkeeps.bus, ?_⟩
  intro previous e hmem
  obtain ⟨⟨u, hu, hresult⟩, hprevious, hchanged⟩ := mem_publications hmem
  refine ⟨?_, ?_⟩
  · rintro rfl
    exact hchanged
  · rintro p rfl
    obtain ⟨v, hv, hread⟩ := hprevious p rfl
    have hflag : e.changed = true ↔ p.hashed ≠ e.state.hashed := by
      rw [changed_iff_digest_ne hkeeps hmem]
      exact (hinj.eq_iff (mem_hashedIn hv hread) (mem_hashedIn hu hresult)).not
    have hview : e.changed = true → p.view ≠ e.state.view :=
      fun h heq => hflag.1 h (hashed_eq_of_view_eq heq)
    refine ⟨hflag, hview, ?_, Snapshot.hashed_eq_iff⟩
    constructor
    · intro hright hsame
      by_contra hdiffer
      exact hflag.1 (hright.2 hdiffer) hsame
    · intro htold
      refine ⟨hview, fun hdiffer => ?_⟩
      rw [hflag]
      exact fun hsame => hdiffer (htold hsame)

/-! ## Two runs

A checkout of another branch is reported. A step of a rebase is not, as long as the number of steps
is unknown: the count of the current step is not shown without it.
-/

/-- A clone without commits whose HEAD is on the given branch. -/
def unbornOn (branch : String) : FileTree :=
  FileTree.empty.place ["r", ".git", "HEAD"] (.file ("ref: refs/heads/" ++ branch ++ "\n").toUTF8)

/-- The requests that read a clone twice, with the given files. -/
def readTwice (before after : FileTree) : List (World × Request) :=
  [(⟨before, .empty⟩, .register ⟨"/r"⟩), (⟨before, .empty⟩, .update 0),
    (⟨after, .empty⟩, .update 0)]

/-- The run in which a clone is read twice through the plain reader. -/
def readTwiceRun (before after : FileTree) : Run :=
  .of (onBus .standard ⟨.files, 64⟩ (.create 64)) (readTwice before after)

/-- The HEAD on `main`, without commits. -/
def onMain : Head := ⟨some ⟨"main", by decide⟩, none⟩

/-- The HEAD on `side`, without commits. -/
def onSide : Head := ⟨some ⟨"side", by decide⟩, none⟩

/-- The bytes that are hashed for a clean worktree without branches. -/
def hashedUnborn (h : Head) : List UInt8 :=
  [("HEAD", h.fingerprintValue), ("STATE", "clean")].flatMap Fingerprint.encodeEntry

theorem hashed_unborn {s : Snapshot} (h : s.branches = .empty ∧ s.state = .clean) :
    s.hashed = hashedUnborn s.head := by
  rw [Snapshot.hashed_of_empty h.1, h.2]
  rfl

/-- Checking out another branch is reported, and the digest tells apart what is hashed. -/
theorem checkout_reported :
    Set.InjOn Digest.Sha256.digest (hashedIn (readTwiceRun (unbornOn "main") (unbornOn "side"))) ∧
      ∃ p e, (some p, e) ∈
          publications (readTwiceRun (unbornOn "main") (unbornOn "side")).updates ∧
        p.view ≠ e.state.view ∧ e.changed = true := by
  have hread : ∀ e ∈ published (readTwiceRun (unbornOn "main") (unbornOn "side")).updates,
      (e.state.branches = .empty ∧ e.state.state = .clean) ∧
        (e.state.head = onMain ∨ e.state.head = onSide) := by
    decide +kernel
  have hpair : ((publications (readTwiceRun (unbornOn "main") (unbornOn "side")).updates).any
      fun x => x.1.any fun p => decide ((p.branches = .empty ∧ p.state = .clean) ∧
        p.head = onMain ∧ x.2.state.head = onSide)) = true := by
    decide +kernel
  have hdigest : Digest.Sha256.digest (hashedUnborn onMain) ≠
      Digest.Sha256.digest (hashedUnborn onSide) := by
    decide +kernel
  have hinj : Set.InjOn Digest.Sha256.digest
      (hashedIn (readTwiceRun (unbornOn "main") (unbornOn "side"))) := by
    -- there are two texts in the run, and their digests differ
    rintro _ ⟨a, ha, rfl⟩ _ ⟨b, hb, rfl⟩ heq
    rw [hashed_unborn (hread a ha).1, hashed_unborn (hread b hb).1] at heq ⊢
    rcases (hread a ha).2 with hahead | hahead <;> rcases (hread b hb).2 with hbhead | hbhead <;>
      rw [hahead, hbhead] at heq ⊢
    · exact absurd heq hdigest
    · exact absurd heq.symm hdigest
  refine ⟨hinj, ?_⟩
  obtain ⟨⟨previous, e⟩, hmem, hx⟩ := List.any_eq_true.1 hpair
  obtain ⟨p, rfl, hp⟩ := (Option.any_eq_true _ _).1 hx
  obtain ⟨hunborn, hmain, hside⟩ := of_decide_eq_true hp
  have he := hread e (List.mem_map.2 ⟨_, hmem, rfl⟩)
  obtain ⟨hflag, hview, -⟩ := ((run_changed .standard ⟨.files, 64⟩ (.create 64)
    (readTwice (unbornOn "main") (unbornOn "side")) hinj).2 _ e hmem).2 p rfl
  have hchanged : e.changed = true := by
    rw [hflag, hashed_unborn hunborn, hashed_unborn he.1, hmain, hside]
    exact fun heq => hdigest (congrArg _ heq)
  exact ⟨p, e, hmem, hview hchanged, hchanged⟩

/-- The clone with a rebase in progress. -/
def rebasing (t : FileTree) : FileTree := t.place ["r", ".git", "rebase-merge"] .directory

/-- The rebase with the number of its current step. -/
def atStep (t : FileTree) (step : String) : FileTree :=
  t.place ["r", ".git", "rebase-merge", "msgnum"] (.file (step ++ "\n").toUTF8)

/-- The requests that read the clone before and after the first step of a rebase. -/
def rebaseRun : Run :=
  readTwiceRun (rebasing (unbornOn "main")) (atStep (rebasing (unbornOn "main")) "1")

/-- A step of a rebase with an unknown number of steps is reported as no change. -/
theorem rebase_step_unreported :
    ∃ p e, (some p, e) ∈ publications rebaseRun.updates ∧ p.view ≠ e.state.view ∧
      e.changed = false := by
  have hpair : ((publications rebaseRun.updates).any fun x => x.1.any fun p =>
      decide ((p.branches = x.2.state.branches ∧ p.head = x.2.state.head) ∧
        p.state = .rebase none none ∧ x.2.state.state = .rebase (some 1) none)) = true := by
    decide +kernel
  obtain ⟨⟨previous, e⟩, hmem, hx⟩ := List.any_eq_true.1 hpair
  obtain ⟨p, rfl, hp⟩ := (Option.any_eq_true _ _).1 hx
  obtain ⟨⟨hbranches, hhead⟩, hbefore, hafter⟩ := of_decide_eq_true hp
  refine ⟨p, e, hmem, ?_, ?_⟩
  · intro heq
    have hstate := (Prod.mk.inj (Prod.mk.inj heq).2).2
    rw [hbefore, hafter] at hstate
    cases hstate
  · -- both operations are displayed without counts
    have hhashed : p.hashed = e.state.hashed := by
      rw [Snapshot.hashed, Snapshot.hashed, hbranches, hhead, hbefore, hafter]
      rfl
    have hkeeps : Keeps (.create 64) rebaseRun.updates rebaseRun.tracker :=
      Keeps.run .standard ⟨.files, 64⟩ (.create 64) _
    rw [← Bool.not_eq_true, changed_iff_digest_ne hkeeps hmem, hhashed, not_not]

end WorktreeTracker.Tracker
