import WorktreeTracker.Proofs.Catalog
import WorktreeTracker.Proofs.MemoryStore.Calls

/-!
# The history of a shared directory

Most calls change nothing that worktrees share, and the others change it in one of eight ways. What
is shared after any number of calls can be told from the changes alone: the commit a branch has is
the one that it was last given, and the same goes for the branch it tracks, for remote-tracking
branches and for remotes. No change lists a branch besides those that are kept by name. Histories are
kept newest first.
-/

namespace WorktreeTracker

/-! ## Changes -/

/-- A change of what worktrees share. -/
inductive Change where
  /-- A branch is given a commit. -/
  | give (b : BranchName) (oid : Oid)
  /-- A branch is made where a HEAD points. -/
  | branch (b : BranchName) (head : Option MemoryHead)
  /-- A branch is made where a HEAD points, unless it is there. -/
  | branchNew (b : BranchName) (head : Option MemoryHead)
  /-- A branch is deleted. -/
  | delete (b : BranchName)
  /-- A branch that is there is pushed to a remote. -/
  | push (remote : String) (b : BranchName)
  /-- A remote-tracking branch is given a commit. -/
  | track (r : RemoteBranch) (oid : Oid)
  /-- A remote is configured. -/
  | addRemote (name url : String)
  /-- A remote is taken out of the configuration. -/
  | removeRemote (name : String)
deriving DecidableEq

/-- The commit that a HEAD points at when the branches have the given commits. -/
def headOid (oid? : BranchName → Option Oid) : Option MemoryHead → Option Oid
  | none => none
  | some (.detached oid) => some oid
  | some (.attached b) => oid? b

namespace Change

/-- The commit that a branch was last given and did not lose since. -/
def lastOid : List Change → BranchName → Option Oid
  | [], _ => none
  | .give b oid :: earlier, name => if name = b then some oid else lastOid earlier name
  | .branch b head :: earlier, name =>
    if name = b then (headOid (lastOid earlier) head).or (lastOid earlier name)
    else lastOid earlier name
  | .branchNew b head :: earlier, name =>
    if name = b then (lastOid earlier name).or (headOid (lastOid earlier) head)
    else lastOid earlier name
  | .delete b :: earlier, name => if name = b then none else lastOid earlier name
  | _ :: earlier, name => lastOid earlier name

/-- The branch that a branch was last pushed to, unless it was made anew or deleted since. -/
def upstream : List Change → BranchName → Option Tracking
  | [], _ => none
  | .branch b head :: earlier, name =>
    if name = b ∧ headOid (lastOid earlier) head ≠ none then none else upstream earlier name
  | .delete b :: earlier, name => if name = b then none else upstream earlier name
  | .push remote b :: earlier, name =>
    if name = b ∧ lastOid earlier name ≠ none then some ⟨remote, b⟩ else upstream earlier name
  | _ :: earlier, name => upstream earlier name

/-- The commit that a remote-tracking branch was last given. -/
def trackedOid : List Change → RemoteBranch → Option Oid
  | [], _ => none
  | .push remote b :: earlier, r =>
    if r = ⟨remote, b⟩ then (lastOid earlier b).or (trackedOid earlier r) else trackedOid earlier r
  | .track r' oid :: earlier, r => if r = r' then some oid else trackedOid earlier r
  | _ :: earlier, r => trackedOid earlier r

/-- Whether a remote was configured and not taken out since. -/
def hasRemote : List Change → String → Bool
  | [], _ => false
  | .addRemote added _ :: earlier, name => name = added || hasRemote earlier name
  | .removeRemote removed :: earlier, name => name ≠ removed && hasRemote earlier name
  | _ :: earlier, name => hasRemote earlier name

/-- What is shared after a change. -/
def apply (r : SharedRefs) : Change → SharedRefs
  | .give b oid => r.moveBranch b oid
  | .branch b head =>
    match headOid r.commit? head with
    | some oid => { r with locals := r.locals.insert b (oid, none) }
    | none => r
  | .branchNew b head =>
    match headOid r.commit? head with
    | some oid => { r with locals := r.locals.insertIfNew b (oid, none) }
    | none => r
  | .delete b => { r with locals := r.locals.erase b }
  | .push remote b =>
    match r.commit? b with
    | some oid =>
      { r with
        locals := r.locals.insert b (oid, some ⟨remote, b⟩)
        tracked := r.tracked.insert ⟨remote, b⟩ oid }
    | none => r
  | .track tracking oid => { r with tracked := r.tracked.insert tracking oid }
  | .addRemote name url =>
    { r with remotes := (r.remotes.filter fun remote => remote.name ≠ name) ++ [⟨name, [url]⟩] }
  | .removeRemote name => { r with remotes := r.remotes.filter fun remote => remote.name ≠ name }

/-- A change lists no branch besides those that are kept by name. -/
theorem extra_apply (c : Change) (r : SharedRefs) : (c.apply r).extra = r.extra := by
  cases c with
  | branch b head =>
    simp only [apply]
    cases headOid r.commit? head <;> rfl
  | branchNew b head =>
    simp only [apply]
    cases headOid r.commit? head <;> rfl
  | push remote b =>
    simp only [apply]
    cases r.commit? b <;> rfl
  | _ => rfl

/-- A branch that is not there tracks nothing. -/
theorem upstream_eq_none {changes : List Change} {name : BranchName}
    (h : lastOid changes name = none) : upstream changes name = none := by
  induction changes with
  | nil => rfl
  | cons change earlier ih =>
    cases change with
    | give b oid =>
      rw [lastOid] at h
      split at h
      · cases h
      · exact ih h
    | branch b head =>
      rw [lastOid] at h
      rw [upstream]
      split at h
      next hname =>
        obtain ⟨hhead, hearlier⟩ := Option.or_eq_none_iff.1 h
        rw [if_neg fun h => h.2 hhead]
        exact ih hearlier
      next hname =>
        rw [if_neg fun h => hname h.1]
        exact ih h
    | branchNew b head =>
      rw [lastOid] at h
      split at h
      · exact ih (Option.or_eq_none_iff.1 h).1
      · exact ih h
    | delete b =>
      rw [lastOid] at h
      rw [upstream]
      split at h
      next hname => rw [if_pos hname]
      next hname =>
        rw [if_neg hname]
        exact ih h
    | push remote b =>
      change lastOid earlier name = none at h
      rw [upstream, if_neg fun hpushed => hpushed.2 h]
      exact ih h
    | track r oid => exact ih h
    | addRemote added url => exact ih h
    | removeRemote removed => exact ih h

end Change

/-! ## One directory -/

open Change (lastOid upstream trackedOid hasRemote)

/-- What is shared is what the changes tell. -/
structure Account (changes : List Change) (r : SharedRefs) : Prop where
  /-- A local branch has the commit that it was last given and tracks what it was last pushed to. -/
  locals : ∀ b, r.locals.find? b = (lastOid changes b).map (·, upstream changes b)
  /-- A remote-tracking branch has the commit that it was last given. -/
  tracked : ∀ branch, r.tracked.find? branch = trackedOid changes branch
  /-- The remotes are those that were configured and not taken out since. -/
  remotes : ∀ name, name ∈ r.remotes.map Remote.name ↔ hasRemote changes name = true

namespace Account

variable {changes : List Change} {r : SharedRefs}

theorem empty : Account [] .empty where
  locals _ := rfl
  tracked _ := rfl
  remotes _ := by simp [SharedRefs.empty, hasRemote]

theorem commit? (h : Account changes r) (b : BranchName) : r.commit? b = lastOid changes b := by
  rw [SharedRefs.commit?, h.locals]
  cases lastOid changes b <;> rfl

theorem tracking? (h : Account changes r) (b : BranchName) :
    r.tracking? b = upstream changes b := by
  rw [SharedRefs.tracking?, h.locals]
  cases hoid : lastOid changes b with
  | none => exact (Change.upstream_eq_none hoid).symm
  | some oid => rfl

theorem headOid_eq (h : Account changes r) (head : Option MemoryHead) :
    headOid r.commit? head = headOid (lastOid changes) head := by
  rw [funext h.commit?]

/-- A change of the local branches alone. -/
theorem of_locals {after : List Change} (h : Account changes r)
    {locals : OrderedMap BranchName (Oid × Option Tracking)}
    (hlocals : ∀ b, locals.find? b = (lastOid after b).map (·, upstream after b))
    (htracked : ∀ tracking, trackedOid after tracking = trackedOid changes tracking)
    (hremotes : ∀ name, hasRemote after name = hasRemote changes name) :
    Account after { r with locals } where
  locals := hlocals
  tracked tracking := (h.tracked tracking).trans (htracked tracking).symm
  remotes name := by
    rw [hremotes]
    exact h.remotes name

/-- A branch that is given a commit keeps what it tracks. -/
theorem give (h : Account changes r) (b : BranchName) (oid : Oid) :
    Account (.give b oid :: changes) ((Change.give b oid).apply r) := by
  refine h.of_locals (fun name => ?_) (fun _ => rfl) fun _ => rfl
  rw [OrderedMap.find?_insert, h.tracking?, lastOid]
  split
  next hname =>
    rw [hname]
    rfl
  next => exact h.locals name

/-- A branch that is made where HEAD points tracks nothing. -/
theorem branch (h : Account changes r) (b : BranchName) (head : Option MemoryHead) :
    Account (.branch b head :: changes) ((Change.branch b head).apply r) := by
  rw [Change.apply, h.headOid_eq]
  cases hhead : headOid (lastOid changes) head with
  | none =>
    refine h.of_locals (fun name => ?_) (fun _ => rfl) fun _ => rfl
    rw [h.locals, lastOid, upstream, hhead, Option.none_or, ite_self, if_neg fun hne => hne.2 rfl]
  | some oid =>
    refine h.of_locals (fun name => ?_) (fun _ => rfl) fun _ => rfl
    rw [OrderedMap.find?_insert, lastOid, upstream, hhead, Option.some_or]
    by_cases hname : name = b
    · simp [hname]
    · simp [hname, h.locals]

/-- A branch that is there keeps its commit and what it tracks. -/
theorem branchNew (h : Account changes r) (b : BranchName) (head : Option MemoryHead) :
    Account (.branchNew b head :: changes) ((Change.branchNew b head).apply r) := by
  rw [Change.apply, h.headOid_eq]
  cases hhead : headOid (lastOid changes) head with
  | none =>
    refine h.of_locals (fun name => ?_) (fun _ => rfl) fun _ => rfl
    rw [h.locals, lastOid, hhead, Option.or_none, ite_self]
    rfl
  | some oid =>
    refine h.of_locals (fun name => ?_) (fun _ => rfl) fun _ => rfl
    rw [OrderedMap.find?_insertIfNew, lastOid, hhead]
    change _ = Option.map (·, upstream changes name) _
    split
    next hname =>
      rw [← hname, h.locals]
      cases hoid : lastOid changes name with
      | none =>
        rw [Change.upstream_eq_none hoid]
        rfl
      | some old => rfl
    next => exact h.locals name

/-- A branch that is pushed keeps its commit, and the remote-tracking branch has it, too. -/
theorem push (h : Account changes r) (remote : String) (b : BranchName) :
    Account (.push remote b :: changes) ((Change.push remote b).apply r) := by
  have hupstream (name : BranchName) : upstream (.push remote b :: changes) name =
      if name = b ∧ lastOid changes name ≠ none then some ⟨remote, b⟩
      else upstream changes name := by
    rw [upstream]
  have hsame (name : BranchName) :
      lastOid (.push remote b :: changes) name = lastOid changes name := rfl
  rw [Change.apply, h.commit?]
  cases hoid : lastOid changes b with
  | none =>
    refine ⟨fun name => ?_, fun tracking => ?_, h.remotes⟩
    · have hnot : ¬ (name = b ∧ lastOid changes name ≠ none) := by
        rintro ⟨rfl, hne⟩
        exact hne hoid
      rw [hupstream, hsame, if_neg hnot]
      exact h.locals name
    · rw [h.tracked, trackedOid, hoid, Option.none_or, ite_self]
  | some oid =>
    refine ⟨fun name => ?_, fun tracking => ?_, h.remotes⟩
    · rw [OrderedMap.find?_insert, hupstream, hsame]
      by_cases hname : name = b
      · simp [hname, hoid]
      · simp [hname, h.locals]
    · rw [OrderedMap.find?_insert, trackedOid, hoid, Option.some_or, h.tracked]

/-- Taking a remote out of the configuration leaves the others. -/
theorem mem_names_filter {remotes : List Remote} {removed name : String} :
    name ∈ (remotes.filter fun remote => remote.name ≠ removed).map Remote.name ↔
      name ≠ removed ∧ name ∈ remotes.map Remote.name := by
  simp only [List.mem_map, List.mem_filter, decide_eq_true_eq]
  constructor
  · rintro ⟨remote, ⟨hremote, hne⟩, rfl⟩
    exact ⟨hne, remote, hremote, rfl⟩
  · rintro ⟨hne, remote, hremote, rfl⟩
    exact ⟨remote, ⟨hremote, hne⟩, rfl⟩

/-- A remote is there once it is configured, and the others are as they were. -/
theorem addRemote (h : Account changes r) (added url : String) :
    Account (.addRemote added url :: changes) ((Change.addRemote added url).apply r) := by
  refine ⟨h.locals, h.tracked, fun name => ?_⟩
  rw [Change.apply, List.map_append, List.mem_append, mem_names_filter, h.remotes, hasRemote]
  by_cases hname : name = added <;> simp [hname]

/-- A remote that is taken out is gone, and the others are as they were. -/
theorem removeRemote (h : Account changes r) (removed : String) :
    Account (.removeRemote removed :: changes) ((Change.removeRemote removed).apply r) := by
  refine ⟨h.locals, h.tracked, fun name => ?_⟩
  rw [Change.apply, mem_names_filter, h.remotes, hasRemote]
  simp

/-- One more change keeps the account. -/
theorem apply (h : Account changes r) (change : Change) :
    Account (change :: changes) (change.apply r) := by
  cases change with
  | give b oid => exact h.give b oid
  | branch b head => exact h.branch b head
  | branchNew b head => exact h.branchNew b head
  | delete b =>
    refine h.of_locals (fun name => ?_) (fun _ => rfl) fun _ => rfl
    rw [OrderedMap.find?_erase, lastOid, upstream]
    split
    next => rfl
    next => exact h.locals name
  | push remote b => exact h.push remote b
  | track tracking oid =>
    refine ⟨h.locals, fun branch => ?_, h.remotes⟩
    rw [trackedOid, ← h.tracked]
    exact OrderedMap.find?_insert _ _ _ _
  | addRemote added url => exact h.addRemote added url
  | removeRemote removed => exact h.removeRemote removed

end Account

/-! ## Calls -/

/-- A change of what the worktrees with the given shared directory share. -/
structure Deed where
  /-- The shared directory. -/
  dir : Path.Key
  /-- The change. -/
  change : Change
deriving DecidableEq

/-- What is shared in a directory after a deed, if there is one. -/
def Deed.applyAt (deed : Option Deed) (dir : Path.Key) (r : SharedRefs) : SharedRefs :=
  match deed with
  | none => r
  | some d => if dir = d.dir then d.change.apply r else r

/-- The changes of one directory. -/
def historyAt (dir : Path.Key) (deeds : List Deed) : List Change :=
  (deeds.filter fun d => d.dir = dir).map Deed.change

/-- One more deed keeps the accounts of all directories. -/
theorem Account.applyAt {dir : Path.Key} {deeds : List Deed} {r : SharedRefs}
    (h : Account (historyAt dir deeds) r) (deed : Option Deed) :
    Account (historyAt dir (deed.toList ++ deeds)) (Deed.applyAt deed dir r) := by
  cases deed with
  | none => exact h
  | some d =>
    unfold Deed.applyAt historyAt
    dsimp only [Option.toList_some, List.singleton_append]
    split
    next hdir =>
      rw [List.filter_cons_of_pos (by simp [hdir])]
      exact h.apply d.change
    next hdir =>
      rw [List.filter_cons_of_neg (by simpa using Ne.symm hdir)]
      exact h

namespace MemoryStore

variable (m : MemoryStore)

/-- What is shared in a directory. -/
def refsAt (dir : Path.Key) : SharedRefs := (m.shared.find? dir).getD .empty

/-- What a change of the shared directory of the worktree at `root` does, if it makes sense. -/
def deedAt (root : Path) (change : MemoryWorktree → Option Change) : Option Deed :=
  match m.worktree root with
  | .error _ => none
  | .ok w => (change w).map fun c => ⟨w.layout.commonDir.components, c⟩

/-- The same for a change that is made for a named branch. -/
def deedNamed (root : Path) (name : String) (change : MemoryWorktree → BranchName → Change) :
    Option Deed :=
  m.deedAt root fun w => (branchNamed name).toOption.map (change w)

/-- What a call does to a shared directory, told from the worktrees, their HEADs and the number of
commits. -/
def deed? : Call → Option Deed
  | .addWorktree primary _ name => m.deedNamed primary name fun w b => .branchNew b w.head
  | .commit root => m.deedAt root fun w =>
    match w.head with
    | some (.attached b) => some (.give b (Oid.ofNumber (m.commits + 1)))
    | _ => none
  | .setBranch root name oid => m.deedNamed root name fun _ b => .give b oid
  | .deleteBranch root name => m.deedNamed root name fun _ b => .delete b
  | .checkoutNewBranch root name => m.deedNamed root name fun w b => .branch b w.head
  | .addRemote root name url => m.deedAt root fun _ => some (.addRemote name url)
  | .removeRemote root name => m.deedAt root fun _ => some (.removeRemote name)
  | .setRemoteBranch root remote name oid => m.deedNamed root name fun _ b => .track ⟨remote, b⟩ oid
  | .push root remote name => m.deedNamed root name fun _ b => .push remote b
  | _ => none

variable {m}

theorem worktree_eq_ok {root : Path} {w : MemoryWorktree} :
    m.worktree root = .ok w ↔ m.worktrees.find? root.components = some w := by
  unfold worktree
  cases m.worktrees.find? root.components <;> simp

/-- A read that is not refused is for the worktree at the root. -/
theorem worktree_of_checkRead {kind : ReadKind} {root : Path} {w : MemoryWorktree}
    (h : m.checkRead kind root = .ok w) : m.worktree root = .ok w := by
  unfold checkRead at h
  split at h
  next => cases h
  next hfound => rw [worktree_eq_ok, hfound, Except.ok.inj h]
  next => cases h

theorem refsAt_updateShared (commonDir : Path) (f : SharedRefs → SharedRefs) (dir : Path.Key) :
    (m.updateShared commonDir f).refsAt dir =
      if dir = commonDir.components then f (m.refsAt dir) else m.refsAt dir := by
  unfold refsAt updateShared
  rw [OrderedMap.find?_insert]
  split
  next h =>
    rw [h]
    rfl
  next => rfl

/-- Changing what a worktree shares is a deed. -/
theorem refsAt_updateShared_deed (w : MemoryWorktree) {f : SharedRefs → SharedRefs} {c : Change}
    (hf : f (m.sharedOf w.layout.commonDir) = c.apply (m.sharedOf w.layout.commonDir))
    (dir : Path.Key) :
    (m.updateShared w.layout.commonDir f).refsAt dir =
      Deed.applyAt (some ⟨w.layout.commonDir.components, c⟩) dir (m.refsAt dir) := by
  rw [refsAt_updateShared, Deed.applyAt]
  split
  next h =>
    rw [h]
    exact hf
  next => rfl

/-- Changing what the worktree at a root shares is a deed, unless it makes no sense. -/
theorem refsAt_updateSharedOf (root : Path) {f : SharedRefs → SharedRefs} {c : Change}
    (hf : ∀ r, f r = c.apply r) (dir : Path.Key) :
    (m.after (m.updateSharedOf root f)).refsAt dir =
      Deed.applyAt (m.deedAt root fun _ => some c) dir (m.refsAt dir) := by
  unfold updateSharedOf deedAt
  cases m.worktree root with
  | error e => rfl
  | ok w => exact refsAt_updateShared_deed w (hf _) dir

/-- So is a change that is made for a named branch. -/
theorem refsAt_named (root : Path) (name : String)
    {result : MemoryWorktree → BranchName → Except FixtureError MemoryStore}
    {change : MemoryWorktree → BranchName → Change} {dir : Path.Key}
    (hresult : ∀ w b, (m.after (result w b)).refsAt dir =
      Deed.applyAt (some ⟨w.layout.commonDir.components, change w b⟩) dir (m.refsAt dir)) :
    (m.after (do
      let w ← m.worktree root
      let b ← branchNamed name
      result w b)).refsAt dir =
      Deed.applyAt (m.deedNamed root name change) dir (m.refsAt dir) := by
  unfold deedNamed deedAt
  cases m.worktree root with
  | error e => rfl
  | ok w =>
    cases hb : branchNamed name with
    | error e => rfl
    | ok b => exact hresult w b

/-- So is a change of what the worktree at a root shares that is made for a named branch. -/
theorem refsAt_updateNamed (root : Path) (name : String) {f : BranchName → SharedRefs → SharedRefs}
    {change : BranchName → Change} (hf : ∀ b r, f b r = (change b).apply r) (dir : Path.Key) :
    (m.after (do
      let w ← m.worktree root
      let b ← branchNamed name
      return m.updateShared w.layout.commonDir (f b))).refsAt dir =
      Deed.applyAt (m.deedNamed root name fun _ => change) dir (m.refsAt dir) := by
  refine refsAt_named root name fun w b => ?_
  exact refsAt_updateShared_deed w (hf b _) dir

/-- Changing a worktree leaves what is shared alone. -/
theorem refsAt_updateWorktree (root : Path) (f : MemoryWorktree → MemoryWorktree) (dir : Path.Key) :
    (m.after (m.updateWorktree root f)).refsAt dir = m.refsAt dir := by
  unfold updateWorktree
  cases m.worktree root <;> rfl

/-- A commit is given to the branch that is checked out. -/
theorem refsAt_commit (root : Path) (dir : Path.Key) :
    (m.perform (.commit root)).refsAt dir =
      Deed.applyAt (m.deed? (.commit root)) dir (m.refsAt dir) := by
  have hcounted : ({ m with commits := m.commits + 1 } : MemoryStore).worktree root =
      m.worktree root := rfl
  simp only [perform, commit, deed?, deedAt, hcounted]
  cases m.worktree root with
  | error e => rfl
  | ok w =>
    dsimp only
    cases w.head with
    | none => rfl
    | some head =>
      cases head with
      | detached oid => rfl
      | attached b =>
        exact refsAt_updateShared_deed (m := { m with commits := m.commits + 1 }) w rfl dir

/-- The commit that the HEAD of a worktree leads to is that of what it shares. -/
theorem revision_eq (w : MemoryWorktree) :
    m.revision w = headOid (m.sharedOf w.layout.commonDir).commit? w.head := by
  unfold revision headOid
  cases w.head with
  | none => rfl
  | some head => cases head <;> rfl

/-- A deed that leaves what is shared as it is. -/
theorem applyAt_of_eq (w : MemoryWorktree) {c : Change}
    (hc : c.apply (m.sharedOf w.layout.commonDir) = m.sharedOf w.layout.commonDir)
    (dir : Path.Key) :
    Deed.applyAt (some ⟨w.layout.commonDir.components, c⟩) dir (m.refsAt dir) = m.refsAt dir := by
  rw [Deed.applyAt]
  split
  next h =>
    rw [h]
    exact hc
  next => rfl

/-- The branch of a new worktree is made where the HEAD of the primary points. -/
theorem refsAt_addWorktree (primary root : Path) (name : String) (dir : Path.Key) :
    (m.perform (.addWorktree primary root name)).refsAt dir =
      Deed.applyAt (m.deed? (.addWorktree primary root name)) dir (m.refsAt dir) := by
  simp only [perform, addWorktree, deed?, deedNamed, deedAt]
  cases hb : branchNamed name with
  | error e => cases m.worktree primary <;> rfl
  | ok b =>
    cases m.worktree primary with
    | error e => rfl
    | ok w =>
      have hmade := refsAt_updateShared_deed (m := m) w (c := .branchNew b w.head) (f := fun r =>
        match m.revision w with
        | some oid => { r with locals := r.locals.insertIfNew b (oid, none) }
        | none => r) (by rw [revision_eq, Change.apply]) dir
      exact hmade

/-- A branch that is made and checked out is made where HEAD points. -/
theorem refsAt_checkoutNewBranch (root : Path) (name : String) (dir : Path.Key) :
    (m.perform (.checkoutNewBranch root name)).refsAt dir =
      Deed.applyAt (m.deed? (.checkoutNewBranch root name)) dir (m.refsAt dir) := by
  refine refsAt_named root name fun w b => ?_
  cases hrevision : m.revision w with
  | none =>
    have hsame := applyAt_of_eq (m := m) w (c := .branch b w.head)
      (by rw [Change.apply, ← revision_eq, hrevision]) dir
    exact hsame.symm
  | some oid =>
    have hmade := refsAt_updateShared_deed (m := m) w (c := .branch b w.head)
      (f := fun r => { r with locals := r.locals.insert b (oid, none) })
      (by rw [Change.apply, ← revision_eq, hrevision]) dir
    exact hmade

/-- A branch that is pushed has a commit. -/
theorem refsAt_push (root : Path) (remote name : String) (dir : Path.Key) :
    (m.perform (.push root remote name)).refsAt dir =
      Deed.applyAt (m.deed? (.push root remote name)) dir (m.refsAt dir) := by
  refine refsAt_named root name fun w b => ?_
  cases hcommit : (m.sharedOf w.layout.commonDir).commit? b with
  | none =>
    have hsame := applyAt_of_eq (m := m) w (c := .push remote b)
      (by rw [Change.apply, hcommit]) dir
    exact hsame.symm
  | some oid =>
    have hmade := refsAt_updateShared_deed (m := m) w (c := .push remote b)
      (f := fun r =>
        { r with
          locals := r.locals.insert b (oid, some ⟨remote, b⟩)
          tracked := r.tracked.insert ⟨remote, b⟩ oid }) (by rw [Change.apply, hcommit]) dir
    exact hmade

/-- What is shared after a call is told by its deed, unless it lists a branch besides. -/
theorem refsAt_perform {c : Call} (hc : c.isRaw = false) (dir : Path.Key) :
    (m.perform c).refsAt dir = Deed.applyAt (m.deed? c) dir (m.refsAt dir) := by
  cases c with
  | addRepository root =>
    have hsame := refsAt_updateShared (m := m) (root / ".git") id dir
    rw [id, ite_self] at hsame
    exact hsame
  | addWorktree primary root name => exact refsAt_addWorktree primary root name dir
  | commit root => exact refsAt_commit root dir
  | setBranch root name oid =>
    exact refsAt_updateNamed root name (by intro b r; rfl) dir
  | deleteBranch root name =>
    exact refsAt_updateNamed root name (by intro b r; rfl) dir
  | pushRawLocal root name oid => cases hc
  | checkoutNewBranch root name => exact refsAt_checkoutNewBranch root name dir
  | checkout root name =>
    simp only [perform, checkout]
    cases branchNamed name with
    | error e => rfl
    | ok b => exact refsAt_updateWorktree root _ dir
  | detachHead root => exact refsAt_updateWorktree root _ dir
  | removeHead root => exact refsAt_updateWorktree root _ dir
  | setState root state => exact refsAt_updateWorktree root _ dir
  | addRemote root name url => exact refsAt_updateSharedOf root (by intro r; rfl) dir
  | removeRemote root name => exact refsAt_updateSharedOf root (by intro r; rfl) dir
  | setRemoteBranch root remote name oid =>
    exact refsAt_updateNamed root name (by intro b r; rfl) dir
  | push root remote name => exact refsAt_push root remote name dir
  | failOn kind error => rfl
  | clearFailure => rfl
  | locate root => rfl
  | readRefs l =>
    simp only [perform, readRefs]
    cases m.checkRead .refs l.workDir <;> rfl
  | readHead l => rfl
  | readState l => rfl

/-! ## Branches listed once -/

/-- No branch is listed besides the others when none is in any directory. -/
theorem noExtra_iff : NoExtra m ↔ ∀ dir, (m.refsAt dir).extra = [] := by
  constructor
  · intro h dir
    unfold refsAt
    cases hfound : m.shared.find? dir with
    | none => rfl
    | some refs => exact h _ (OrderedMap.find?_eq_some_iff.1 hfound)
  · intro h e he
    have hfound : m.shared.find? e.1 = some e.2 := OrderedMap.find?_eq_some_iff.2 he
    have hextra := h e.1
    rwa [refsAt, hfound] at hextra

/-- What worktrees share lists no branch besides. -/
theorem NoExtra.sharedOf (h : NoExtra m) (commonDir : Path) :
    (m.sharedOf commonDir).extra = [] :=
  noExtra_iff.1 h commonDir.components

/-- A call keeps every branch listed once, unless it is the one that lists a branch besides. -/
theorem NoExtra.perform (h : NoExtra m) {c : Call} (hc : c.isRaw = false) :
    NoExtra (m.perform c) := by
  rw [noExtra_iff] at h ⊢
  intro dir
  rw [refsAt_perform hc]
  cases m.deed? c with
  | none => exact h dir
  | some d =>
    unfold Deed.applyAt
    dsimp only
    split
    next => exact (d.change.extra_apply _).trans (h dir)
    next => exact h dir

end MemoryStore

end WorktreeTracker
