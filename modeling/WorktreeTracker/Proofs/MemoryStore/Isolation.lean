import WorktreeTracker.Proofs.MemoryStore.History
import WorktreeTracker.Proofs.MemoryStore.Refresh

/-!
# Worktrees are apart from each other

A fixture call is made on one root. It changes the worktree at that root, what is shared in the
directory of that worktree, or both, and nothing else. So every other worktree keeps its HEAD and its
operation, worktrees with another shared directory keep their listing, and the commit that another
HEAD leads to changes only with the branch that the call is about.
-/

namespace WorktreeTracker

/-- The root that a fixture call is made on. A new worktree is made at its own root; reads and
injected failures are no fixture calls. -/
def Call.root? : Call → Option Path
  | .addRepository root => some root
  | .addWorktree _ root _ => some root
  | .commit root => some root
  | .setBranch root _ _ => some root
  | .deleteBranch root _ => some root
  | .pushRawLocal root _ _ => some root
  | .checkoutNewBranch root _ => some root
  | .checkout root _ => some root
  | .detachHead root => some root
  | .removeHead root => some root
  | .setState root _ => some root
  | .addRemote root _ _ => some root
  | .removeRemote root _ => some root
  | .setRemoteBranch root _ _ _ => some root
  | .push root _ _ => some root
  | .failOn _ _ => none
  | .clearFailure => none
  | .locate _ => none
  | .readRefs _ => none
  | .readHead _ => none
  | .readState _ => none

/-- What a HEAD holds, without the commit that its branch leads to. -/
def HeadTarget.value : HeadTarget → MemoryHead
  | .branch name _ => .attached name
  | .detached oid => .detached oid

/-- The local branch that a change creates, moves or deletes. -/
def Change.branch? : Change → Option BranchName
  | .give b _ => some b
  | .branch b _ => some b
  | .branchNew b _ => some b
  | .delete b => some b
  | .push _ _ => none
  | .track _ _ => none
  | .addRemote _ _ => none
  | .removeRemote _ => none

/-- A change keeps the commit of every branch but the one that it creates, moves or deletes. -/
theorem Change.commit?_apply {c : Change} {b : BranchName} (h : c.branch? ≠ some b)
    (r : SharedRefs) : (c.apply r).commit? b = r.commit? b := by
  have hne {other : BranchName} (hother : some other ≠ some b) : b ≠ other :=
    fun heq => hother (congrArg some heq.symm)
  cases c with
  | give other oid =>
    simp only [apply, SharedRefs.moveBranch, SharedRefs.commit?]
    rw [OrderedMap.find?_insert_of_ne _ (hne h)]
  | branch other head =>
    simp only [apply]
    cases headOid r.commit? head with
    | none => rfl
    | some oid => simp only [SharedRefs.commit?, OrderedMap.find?_insert_of_ne _ (hne h)]
  | branchNew other head =>
    simp only [apply]
    cases headOid r.commit? head with
    | none => rfl
    | some oid =>
      simp only [SharedRefs.commit?, OrderedMap.find?_insertIfNew, if_neg (hne h)]
  | delete other => simp only [apply, SharedRefs.commit?, OrderedMap.find?_erase_of_ne _ (hne h)]
  | push remote other =>
    -- a branch that is pushed is put in place again with the commit that it has
    simp only [apply]
    cases hcommit : r.commit? other with
    | none => rfl
    | some oid =>
      simp only [SharedRefs.commit?, OrderedMap.find?_insert]
      split
      next heq =>
        rw [heq]
        exact hcommit.symm
      next => rfl
  | track branch oid => rfl
  | addRemote name url => rfl
  | removeRemote name => rfl

namespace MemoryStore

/-! ## What a call leaves alone -/

/-- The store `m'` differs from `m` at most in the worktree at `root`, in what is shared in the
directory of that worktree, and in what it counts and records. -/
structure Confined (root : Path) (m m' : MemoryStore) : Prop where
  /-- The other worktrees are the same. -/
  worktrees : ∀ key, key ≠ root.components → m'.worktrees.find? key = m.worktrees.find? key
  /-- What is shared in other directories is the same. -/
  shared : ∀ dir, (∀ w, m'.worktree root = .ok w → w.layout.commonDir.components ≠ dir) →
    m'.refsAt dir = m.refsAt dir
  /-- The kind of read that fails is the same. -/
  failing : m'.failing = m.failing

variable {m : MemoryStore} {root : Path}

theorem worktree_setWorktree (m : MemoryStore) (root : Path) (w : MemoryWorktree) :
    (m.setWorktree root w).worktree root = .ok w :=
  worktree_eq_ok.2 (OrderedMap.find?_insert_self _ _ _)

/-- What a call on a root makes of a store: it is confined to the root, and the worktree there is a
new one under its own name or has the directories that it had. -/
structure Worked (root : Path) (m m' : MemoryStore) : Prop extends Confined root m m' where
  /-- The worktree at the root is new, or its directories are the same. -/
  layout : ∀ w, m'.worktree root = .ok w → w.layout.workDir.components = root.components ∨
    ∃ v, m.worktree root = .ok v ∧ w.layout = v.layout

namespace Worked

theorem refl (root : Path) (m : MemoryStore) : Worked root m m :=
  ⟨⟨fun _ _ => rfl, fun _ _ => rfl, rfl⟩, fun w hw => .inr ⟨w, hw, rfl⟩⟩

/-- Putting a worktree at the root after a change of what it shares. -/
theorem setWorktree {changed : MemoryStore} {w : MemoryWorktree}
    (hworktrees : changed.worktrees = m.worktrees) (hfailing : changed.failing = m.failing)
    (hshared : ∀ dir, dir ≠ w.layout.commonDir.components → changed.refsAt dir = m.refsAt dir)
    (hlayout : w.layout.workDir.components = root.components ∨
      ∃ v, m.worktree root = .ok v ∧ w.layout = v.layout) :
    Worked root m (changed.setWorktree root w) := by
  refine ⟨⟨fun key hkey => ?_, fun dir hdir => ?_, hfailing⟩, fun other hother => ?_⟩
  · rw [← hworktrees]
    exact OrderedMap.find?_insert_of_ne _ hkey w
  · exact hshared dir (Ne.symm (hdir w (worktree_setWorktree changed root w)))
  · obtain rfl := Except.ok.inj ((worktree_setWorktree changed root w).symm.trans hother)
    exact hlayout

/-- Changing what the worktree at the root shares. -/
theorem updateShared {w : MemoryWorktree} (hw : m.worktree root = .ok w)
    (f : SharedRefs → SharedRefs) : Worked root m (m.updateShared w.layout.commonDir f) := by
  refine ⟨⟨fun _ _ => rfl, fun dir hdir => ?_, rfl⟩, fun other hother => .inr ⟨other, hother, rfl⟩⟩
  rw [refsAt_updateShared, if_neg (Ne.symm (hdir w hw))]

/-- A call that may make no sense does nothing when it makes none. -/
theorem after {result : Except FixtureError MemoryStore}
    (h : ∀ changed, result = .ok changed → Worked root m changed) :
    Worked root m (m.after result) := by
  cases result with
  | error e => exact refl root m
  | ok changed => exact h changed rfl

theorem updateWorktree {f : MemoryWorktree → MemoryWorktree} (hf : ∀ w, (f w).layout = w.layout) :
    Worked root m (m.after (m.updateWorktree root f)) := by
  apply after
  intro changed hchanged
  obtain ⟨w, hw, rfl⟩ := map_eq_ok.1 hchanged
  exact setWorktree rfl rfl (fun _ _ => rfl) (.inr ⟨w, hw, hf w⟩)

theorem updateSharedOf (f : SharedRefs → SharedRefs) :
    Worked root m (m.after (m.updateSharedOf root f)) := by
  apply after
  intro changed hchanged
  obtain ⟨w, hw, rfl⟩ := map_eq_ok.1 hchanged
  exact updateShared hw f

/-- A change that is made for a named branch of the root. -/
theorem named (name : String)
    {result : MemoryWorktree → BranchName → Except FixtureError MemoryStore}
    (h : ∀ w b changed, m.worktree root = .ok w → result w b = .ok changed →
      Worked root m changed) :
    Worked root m (m.after (do
      let w ← m.worktree root
      let branch ← branchNamed name
      result w branch)) := by
  apply after
  intro changed hchanged
  obtain ⟨w, hw, hchanged⟩ := bind_eq_ok.1 hchanged
  obtain ⟨b, -, hchanged⟩ := bind_eq_ok.1 hchanged
  exact h w b changed hw hchanged

/-- A change of what the root shares that is made for a named branch. -/
theorem updateNamed (name : String) (f : BranchName → SharedRefs → SharedRefs) :
    Worked root m (m.after (do
      let w ← m.worktree root
      let branch ← branchNamed name
      return m.updateShared w.layout.commonDir (f branch))) := by
  refine named name fun w b changed hw hchanged => ?_
  obtain rfl := Except.ok.inj hchanged
  exact updateShared hw (f b)

/-- A commit moves the branch of the root or the HEAD of the root. -/
theorem commit (root : Path) : Worked root m (m.perform (.commit root)) := by
  have hcounted : ({ m with commits := m.commits + 1 } : MemoryStore).worktree root =
      m.worktree root := rfl
  have hsame := refl root m
  simp only [perform, MemoryStore.commit, hcounted]
  cases hw : m.worktree root with
  | error e => exact ⟨⟨hsame.worktrees, hsame.shared, hsame.failing⟩, hsame.layout⟩
  | ok w =>
    dsimp only
    cases w.head with
    | none => exact setWorktree rfl rfl (fun _ _ => rfl) (.inr ⟨w, hw, rfl⟩)
    | some head =>
      cases head with
      | detached oid => exact setWorktree rfl rfl (fun _ _ => rfl) (.inr ⟨w, hw, rfl⟩)
      | attached b =>
        have hupdated := updateShared (hcounted.trans hw)
          fun r => r.moveBranch b (Oid.ofNumber (m.commits + 1))
        exact ⟨⟨hupdated.worktrees, hupdated.shared, hupdated.failing⟩, hupdated.layout⟩

/-- A new worktree shares what the primary shares. -/
theorem addWorktree (primary root : Path) (name : String) :
    Worked root m (m.perform (.addWorktree primary root name)) := by
  apply after
  intro changed hchanged
  obtain ⟨⟨l, added⟩, hadded, rfl⟩ := map_eq_ok.1 hchanged
  obtain ⟨b, -, hadded⟩ := bind_eq_ok.1 hadded
  obtain ⟨w, -, hadded⟩ := bind_eq_ok.1 hadded
  obtain ⟨-, rfl⟩ := Prod.mk.inj (Except.ok.inj hadded)
  refine setWorktree rfl rfl (fun dir hdir => ?_) (.inl rfl)
  rw [refsAt_updateShared, if_neg hdir]

/-- A branch that is made and checked out is one of the root, and so is the HEAD. -/
theorem checkoutNewBranch (root : Path) (name : String) :
    Worked root m (m.perform (.checkoutNewBranch root name)) := by
  refine named name fun w b changed hw hchanged => ?_
  obtain rfl := Except.ok.inj hchanged
  cases m.revision w with
  | none => exact setWorktree rfl rfl (fun _ _ => rfl) (.inr ⟨w, hw, rfl⟩)
  | some oid =>
    refine setWorktree rfl rfl (fun dir hdir => ?_) (.inr ⟨w, hw, rfl⟩)
    rw [refsAt_updateShared, if_neg hdir]

/-- A branch that is pushed is one of the root, and so is the remote-tracking branch. -/
theorem push (root : Path) (remote name : String) :
    Worked root m (m.perform (.push root remote name)) := by
  refine named name fun w b changed hw hchanged => ?_
  cases hcommit : (m.sharedOf w.layout.commonDir).commit? b with
  | none =>
    rw [hcommit] at hchanged
    cases hchanged
  | some oid =>
    rw [hcommit] at hchanged
    obtain rfl := Except.ok.inj hchanged
    exact updateShared hw _

/-- Every fixture call changes its root and what that shares, and nothing else. -/
theorem perform {c : Call} (h : c.root? = some root) : Worked root m (m.perform c) := by
  cases c with
  | addRepository root =>
    obtain rfl := Option.some.inj h
    refine setWorktree rfl rfl (fun dir hdir => ?_) (.inl rfl)
    rw [refsAt_updateShared, if_neg hdir]
  | addWorktree primary root name =>
    obtain rfl := Option.some.inj h
    exact addWorktree primary root name
  | commit root =>
    obtain rfl := Option.some.inj h
    exact commit root
  | setBranch root name oid =>
    obtain rfl := Option.some.inj h
    exact updateNamed name _
  | deleteBranch root name =>
    obtain rfl := Option.some.inj h
    exact updateNamed name _
  | pushRawLocal root name oid =>
    obtain rfl := Option.some.inj h
    exact updateNamed name _
  | checkoutNewBranch root name =>
    obtain rfl := Option.some.inj h
    exact checkoutNewBranch root name
  | checkout root name =>
    obtain rfl := Option.some.inj h
    simp only [MemoryStore.perform, checkout]
    cases branchNamed name with
    | error e => exact refl root m
    | ok b => exact updateWorktree fun _ => rfl
  | detachHead root =>
    obtain rfl := Option.some.inj h
    exact updateWorktree fun _ => rfl
  | removeHead root =>
    obtain rfl := Option.some.inj h
    exact updateWorktree fun _ => rfl
  | setState root state =>
    obtain rfl := Option.some.inj h
    exact updateWorktree fun _ => rfl
  | addRemote root name url =>
    obtain rfl := Option.some.inj h
    exact updateSharedOf _
  | removeRemote root name =>
    obtain rfl := Option.some.inj h
    exact updateSharedOf _
  | setRemoteBranch root remote name oid =>
    obtain rfl := Option.some.inj h
    exact updateNamed name _
  | push root remote name =>
    obtain rfl := Option.some.inj h
    exact push root remote name
  | failOn kind error => cases h
  | clearFailure => cases h
  | locate root => cases h
  | readRefs l => cases h
  | readHead l => cases h
  | readState l => cases h

end Worked

/-- A call that is made on no root leaves the worktrees alone. -/
theorem worktrees_perform_of_root?_eq_none {c : Call} (h : c.root? = none) :
    (m.perform c).worktrees = m.worktrees := by
  cases c with
  | failOn kind error => rfl
  | clearFailure => rfl
  | locate root => rfl
  | readRefs l =>
    simp only [MemoryStore.perform, MemoryStore.readRefs]
    cases m.checkRead .refs l.workDir <;> rfl
  | readHead l => rfl
  | readState l => rfl
  | _ => cases h

/-- A branch that is listed besides the others is none of those that are kept by name. -/
theorem commit?_pushRawLocal (root : Path) (name : String) (oid : Oid) (dir : Path.Key)
    (b : BranchName) :
    ((m.perform (.pushRawLocal root name oid)).refsAt dir).commit? b = (m.refsAt dir).commit? b := by
  simp only [perform, pushRawLocal]
  cases m.worktree root with
  | error e => rfl
  | ok w =>
    cases branchNamed name with
    | error e => rfl
    | ok branch =>
      have hlisted := refsAt_updateShared (m := m) w.layout.commonDir
        (fun r => { r with extra := r.extra ++ [⟨branch, oid, none⟩] }) dir
      refine (congrArg (SharedRefs.commit? · b) hlisted).trans ?_
      split <;> rfl

/-- A call keeps the commit of every branch but the one that it creates, moves or deletes. -/
theorem commit?_perform {c : Call} {dir : Path.Key} {b : BranchName}
    (h : ∀ d, m.deed? c = some d → d.dir = dir → d.change.branch? ≠ some b) :
    ((m.perform c).refsAt dir).commit? b = (m.refsAt dir).commit? b := by
  cases hraw : c.isRaw with
  | true =>
    cases c with
    | pushRawLocal root name oid => exact commit?_pushRawLocal root name oid dir b
    | _ => cases hraw
  | false =>
    rw [refsAt_perform hraw]
    cases hdeed : m.deed? c with
    | none => rfl
    | some d =>
      unfold Deed.applyAt
      dsimp only
      split
      next hdir => exact Change.commit?_apply (h d hdeed hdir.symm) _
      next => rfl

/-! ## Worktrees under their own roots -/

/-- Every worktree is kept under the root that its layout names. -/
def Placed (m : MemoryStore) : Prop :=
  ∀ key w, m.worktrees.find? key = some w → w.layout.workDir.components = key

theorem placed_empty : Placed empty := by
  intro key w hw
  cases hw

namespace Placed

/-- What a call on a root does keeps the worktrees under their own roots. -/
theorem of_worked {m' : MemoryStore} (h : Placed m) (hworked : Worked root m m') : Placed m' := by
  intro key w hw
  by_cases hkey : key = root.components
  · subst hkey
    rcases hworked.layout w (worktree_eq_ok.2 hw) with hnew | ⟨v, hv, hsame⟩
    · exact hnew
    · rw [hsame]
      exact h _ v (worktree_eq_ok.1 hv)
  · exact h key w ((hworked.worktrees key hkey).symm.trans hw)

/-- Every call keeps the worktrees under their own roots. -/
theorem perform (h : Placed m) (c : Call) : Placed (m.perform c) := by
  cases hroot : c.root? with
  | none =>
    intro key w hw
    rw [worktrees_perform_of_root?_eq_none hroot] at hw
    exact h key w hw
  | some root => exact h.of_worked (.perform hroot)

/-- So they are after any calls. -/
theorem foldl_perform (h : Placed m) (calls : List Call) :
    Placed (calls.foldl MemoryStore.perform m) := by
  induction calls generalizing m with
  | nil => exact h
  | cons c calls ih => exact ih (h.perform c)

end Placed

/-! ## Reads of another root -/

section Reads

variable {m' : MemoryStore} {kind : ReadKind} {l : Layout}

/-- Where HEAD points, read for the worktree `w`. -/
def headTarget (m : MemoryStore) (l : Layout) (w : MemoryWorktree) : Except StoreError HeadTarget :=
  match w.head with
  | none => .error (.missingHead s!"{l.head} does not exist")
  | some (.detached oid) => .ok (.detached oid)
  | some (.attached name) => .ok (.branch name ((m.sharedOf w.layout.commonDir).commit? name))

/-- HEAD is read for the worktree at the root. -/
theorem readHead_eq (m : MemoryStore) (l : Layout) :
    (m.readHead l).1 = m.checkRead .head l.workDir >>= m.headTarget l := by
  rfl

/-- What HEAD holds does not depend on what is shared. -/
theorem headTarget_value (m m' : MemoryStore) (l : Layout) (w : MemoryWorktree) :
    (m'.headTarget l w).map HeadTarget.value = (m.headTarget l w).map HeadTarget.value := by
  unfold headTarget
  cases w.head with
  | none => rfl
  | some head => cases head <;> rfl

/-- A HEAD that leads elsewhere than before is attached to a branch with another commit. -/
theorem attached_of_headTarget_ne {w : MemoryWorktree} (h : m'.headTarget l w ≠ m.headTarget l w) :
    ∃ b, w.head = some (.attached b) ∧
      (m'.sharedOf w.layout.commonDir).commit? b ≠ (m.sharedOf w.layout.commonDir).commit? b := by
  unfold headTarget at h
  cases hhead : w.head with
  | none =>
    rw [hhead] at h
    exact absurd rfl h
  | some head =>
    rw [hhead] at h
    cases head with
    | detached oid => exact absurd rfl h
    | attached b => exact ⟨b, rfl, fun hsame => h (congrArg (Except.ok ∘ HeadTarget.branch b) hsame)⟩

/-- A read of another root is for the worktree that it was for, or fails as it did. -/
theorem Confined.checkRead (h : Confined root m m') (hl : l.workDir.components ≠ root.components) :
    m'.checkRead kind l.workDir = m.checkRead kind l.workDir := by
  unfold MemoryStore.checkRead injected?
  rw [h.failing, h.worktrees _ hl]

/-- The operation read for another root is the same. -/
theorem Confined.readState (h : Confined root m m') (hl : l.workDir.components ≠ root.components) :
    (m'.readState l).1 = (m.readState l).1 := by
  simp only [MemoryStore.readState, h.checkRead hl]

/-- The listing read for another root is the same when it is that of another directory. -/
theorem Confined.readRefs (h : Confined root m m') (hl : l.workDir.components ≠ root.components)
    (hdir : ∀ w, m'.worktree root = .ok w →
      w.layout.commonDir.components ≠ l.commonDir.components) :
    (m'.readRefs l).1 = (m.readRefs l).1 := by
  have hshared : m'.sharedOf l.commonDir = m.sharedOf l.commonDir := h.shared _ hdir
  simp only [MemoryStore.readRefs, h.checkRead hl, hshared]
  cases m.checkRead .refs l.workDir <;> rfl

/-- What HEAD holds, read for another root, is the same. -/
theorem Confined.readHead_value (h : Confined root m m')
    (hl : l.workDir.components ≠ root.components) :
    (m'.readHead l).1.map HeadTarget.value = (m.readHead l).1.map HeadTarget.value := by
  rw [readHead_eq, readHead_eq, h.checkRead hl]
  cases m.checkRead .head l.workDir with
  | error e => rfl
  | ok w => exact headTarget_value m m' l w

/-- When the commit that another HEAD leads to changes, so does that of the branch it is attached
to. -/
theorem Confined.attached_of_readHead_ne (h : Confined root m m')
    (hl : l.workDir.components ≠ root.components) {w : MemoryWorktree}
    (hw : m.worktrees.find? l.workDir.components = some w)
    (hne : (m'.readHead l).1 ≠ (m.readHead l).1) :
    ∃ b, w.head = some (.attached b) ∧
      (m'.sharedOf w.layout.commonDir).commit? b ≠ (m.sharedOf w.layout.commonDir).commit? b := by
  rw [readHead_eq, readHead_eq, h.checkRead hl, MemoryStore.checkRead, hw] at hne
  cases hfailing : m.injected? .head with
  | some e =>
    rw [hfailing] at hne
    exact absurd rfl hne
  | none =>
    rw [hfailing] at hne
    exact attached_of_headTarget_ne hne

end Reads

/-- A fixture call on one root, made after any calls: every other known root stays known and keeps
its worktree under its own name. Read for it under any layout, HEAD holds what it held and the
operation in progress is the same; so is the listing of a directory that is not shared with the root
of the call. The commit that HEAD leads to changes only when HEAD is attached to the branch that the
call creates, moves or deletes in the shared directory of the worktree. -/
theorem reads_of_other_root (calls : List Call) (c : Call) (r s : Path) (hr : c.root? = some r)
    (hother : s.same r = false) (w : MemoryWorktree)
    (hw : (calls.foldl perform empty).worktree s = .ok w) :
    let m := calls.foldl perform empty
    let m' := m.perform c
    m'.worktree s = .ok w ∧ w.layout.workDir.same s = true ∧
      ∀ l : Layout, l.workDir.same s = true →
        (m'.readHead l).1.map HeadTarget.value = (m.readHead l).1.map HeadTarget.value ∧
        (m'.readState l).1 = (m.readState l).1 ∧
        ((∀ v, m'.worktree r = .ok v → v.layout.commonDir.same l.commonDir = false) →
          (m'.readRefs l).1 = (m.readRefs l).1) ∧
        ((m'.readHead l).1 ≠ (m.readHead l).1 →
          ∃ b d, w.head = some (.attached b) ∧ m.deed? c = some d ∧
            d.dir = w.layout.commonDir.components ∧ d.change.branch? = some b) := by
  intro m m'
  have hconfined : Confined r m m' := (Worked.perform hr).toConfined
  have hne : s.components ≠ r.components := of_decide_eq_false hother
  have hplaced : w.layout.workDir.components = s.components :=
    placed_empty.foldl_perform calls _ _ (worktree_eq_ok.1 hw)
  refine ⟨?_, decide_eq_true hplaced, fun l hl => ?_⟩
  · rw [worktree_eq_ok, hconfined.worktrees _ hne]
    exact worktree_eq_ok.1 hw
  have hl : l.workDir.components = s.components := of_decide_eq_true hl
  have hlne : l.workDir.components ≠ r.components := by
    rw [hl]
    exact hne
  refine ⟨hconfined.readHead_value hlne, hconfined.readState hlne, fun hdir => ?_, fun hread => ?_⟩
  · exact hconfined.readRefs hlne fun v hv => of_decide_eq_false (hdir v hv)
  have hfound : m.worktrees.find? l.workDir.components = some w := by
    rw [hl]
    exact worktree_eq_ok.1 hw
  obtain ⟨b, hhead, hcommit⟩ := hconfined.attached_of_readHead_ne hlne hfound hread
  -- a call that is about no such branch leaves its commit alone
  by_contra hnone
  apply hcommit
  apply commit?_perform
  intro d hdeed hdir hbranch
  exact hnone ⟨b, d, hhead, hdeed, hdir, hbranch⟩

/-- A commit of a clone moves the branch that a worktree of it has checked out, too. HEAD of the
worktree leads to another commit and is attached to the same branch. -/
theorem reads_of_worktree_at_commit :
    let m := linked
    let m' := m.perform (.commit ⟨"/a"⟩)
    (m'.readHead linkedLayout).1 ≠ (m.readHead linkedLayout).1 ∧
      (m'.readHead linkedLayout).1.map HeadTarget.value =
        (m.readHead linkedLayout).1.map HeadTarget.value ∧
      (m'.readState linkedLayout).1 = (m.readState linkedLayout).1 ∧
      ∃ w b d, m.worktree ⟨"/w"⟩ = .ok w ∧ w.head = some (.attached b) ∧
        m.deed? (.commit ⟨"/a"⟩) = some d ∧ d.dir = w.layout.commonDir.components ∧
        d.change.branch? = some b := by
  intro m m'
  have hne : (m'.readHead linkedLayout).1 ≠ (m.readHead linkedLayout).1 := by
    decide +kernel
  have hw : m.worktree ⟨"/w"⟩ = .ok ⟨linkedLayout, some (.attached .master), .clean⟩ := by
    decide +kernel
  obtain ⟨-, -, hreads⟩ := reads_of_other_root
    [.addRepository ⟨"/a"⟩, .commit ⟨"/a"⟩, .addWorktree ⟨"/a"⟩ ⟨"/w"⟩ "master"] (.commit ⟨"/a"⟩)
    ⟨"/a"⟩ ⟨"/w"⟩ rfl (by decide +kernel) _ hw
  obtain ⟨hvalue, hstate, -, hbranch⟩ := hreads linkedLayout (by decide +kernel)
  obtain ⟨b, d, hhead, hdeed, hdir, hchange⟩ := hbranch hne
  exact ⟨hne, hvalue, hstate, _, b, d, hw, hhead, hdeed, hdir, hchange⟩

end MemoryStore

end WorktreeTracker
