import WorktreeTracker.Proofs.MemoryStore.Isolation

/-!
# What calls tell

Which directory a worktree shares, where its HEAD is, how many commits there are and what happened
to each shared directory can be told from the calls alone, without a store: a root is what it was
last added as, its HEAD is where it was last put, and a commit goes to the branch that is checked
out. This module says so and shows that the store follows: after any calls its worktrees are as the
calls tell, and what is shared in a directory has the account of the changes that the calls made
there. Calls are kept newest first.
-/

namespace WorktreeTracker

namespace Call

/-- Whether a call is about a worktree, and not only about what is shared or about reads. -/
def isOfWorktree : Call → Bool
  | .addRepository _ => true
  | .addWorktree _ _ _ => true
  | .commit _ => true
  | .checkoutNewBranch _ _ => true
  | .checkout _ _ => true
  | .detachHead _ => true
  | .removeHead _ => true
  | .setState _ _ => true
  | _ => false

/-- The number of commits; a call that makes no sense uses its number up. -/
def commitCount : List Call → Nat
  | [] => 0
  | .commit _ :: earlier => commitCount earlier + 1
  | _ :: earlier => commitCount earlier

/-- The branch of a name, unless it is no name of a branch. -/
def branch? (name : String) : Option BranchName :=
  (BranchName.create name).toOption

/-- The shared directory of the worktree that was last added at a root: that of a new clone, or that
of the primary of a new worktree. -/
def dir? : List Call → Path.Key → Option Path.Key
  | [], _ => none
  | .addRepository added :: earlier, root =>
    if root = added.components then some (added / ".git").components else dir? earlier root
  | .addWorktree primary added name :: earlier, root =>
    if root = added.components ∧ (branch? name).isSome then
      (dir? earlier primary.components).or (dir? earlier root)
    else dir? earlier root
  | _ :: earlier, root => dir? earlier root

/-- The worktree whose shared directory a call changes, and the change, when HEADs are as given and
the next commit has the given id. -/
def change? (head? : Path.Key → Option MemoryHead) (next : Oid) : Call → Option (Path × Change)
  | .addWorktree primary _ name =>
    (branch? name).map fun b => (primary, .branchNew b (head? primary.components))
  | .commit root =>
    match head? root.components with
    | some (.attached b) => some (root, .give b next)
    | _ => none
  | .setBranch root name oid => (branch? name).map fun b => (root, .give b oid)
  | .deleteBranch root name => (branch? name).map fun b => (root, .delete b)
  | .checkoutNewBranch root name =>
    (branch? name).map fun b => (root, .branch b (head? root.components))
  | .addRemote root name url => some (root, .addRemote name url)
  | .removeRemote root name => some (root, .removeRemote name)
  | .setRemoteBranch root remote name oid =>
    (branch? name).map fun b => (root, .track ⟨remote, b⟩ oid)
  | .push root remote name => (branch? name).map fun b => (root, .push remote b)
  | _ => none

/-- What a call does to a shared directory, when those of worktrees are as given as well. -/
def deed? (dir? : Path.Key → Option Path.Key) (head? : Path.Key → Option MemoryHead) (next : Oid)
    (call : Call) : Option Deed :=
  (call.change? head? next).bind fun (root, change) =>
    (dir? root.components).map fun dir => ⟨dir, change⟩

/-- Where a commit of the given id puts a HEAD: one on a branch stays there. -/
def committedHead (oid : Oid) : Option MemoryHead → Option MemoryHead
  | some (.attached b) => some (.attached b)
  | _ => some (.detached oid)

mutual

/-- The HEAD that was last put at a root: on a branch that was checked out, or on a commit. -/
def head? : List Call → Path.Key → Option MemoryHead
  | [], _ => none
  | .addRepository added :: earlier, root =>
    if root = added.components then some (.attached .master) else head? earlier root
  | .addWorktree primary added name :: earlier, root =>
    if root = added.components ∧ (dir? earlier primary.components).isSome then
      ((branch? name).map .attached).or (head? earlier root)
    else head? earlier root
  | .commit committed :: earlier, root =>
    if root = committed.components then
      committedHead (.ofNumber (commitCount earlier + 1)) (head? earlier root)
    else head? earlier root
  | .checkoutNewBranch changed name :: earlier, root =>
    if root = changed.components then ((branch? name).map .attached).or (head? earlier root)
    else head? earlier root
  | .checkout changed name :: earlier, root =>
    if root = changed.components then ((branch? name).map .attached).or (head? earlier root)
    else head? earlier root
  | .detachHead changed :: earlier, root =>
    if root = changed.components then
      (dir? earlier root).bind fun dir =>
        (headOid (Change.lastOid (historyAt dir (deeds earlier))) (head? earlier root)).map .detached
    else head? earlier root
  | .removeHead changed :: earlier, root =>
    if root = changed.components then none else head? earlier root
  | _ :: earlier, root => head? earlier root

/-- What happened to shared directories, the newest first: a call changes that of its worktree, if
there is one. -/
def deeds : List Call → List Deed
  | [] => []
  | call :: earlier =>
    (call.deed? (dir? earlier) (head? earlier) (.ofNumber (commitCount earlier + 1))).toList ++
      deeds earlier

end

end Call

/-! ## The store follows -/

/-- The worktree at a root is as told: there is none, or it shares the directory and has the HEAD.
-/
inductive AsTold : Option MemoryWorktree → Option Path.Key → Option MemoryHead → Prop where
  | absent (head : Option MemoryHead) : AsTold none none head
  | present (w : MemoryWorktree) : AsTold (some w) (some w.layout.commonDir.components) w.head

/-- A worktree is as told when its HEAD is put where it is told to be. -/
theorem AsTold.map {w? : Option MemoryWorktree} {dir : Option Path.Key}
    {head head' : Option MemoryHead} (h : AsTold w? dir head) {f : MemoryWorktree → MemoryWorktree}
    (hlayout : ∀ w, (f w).layout = w.layout) (hhead : ∀ w, w? = some w → (f w).head = head') :
    AsTold (w?.map f) dir head' := by
  cases h with
  | absent => exact .absent head'
  | present w =>
    rw [← hhead w rfl, ← hlayout w]
    exact .present (f w)

namespace MemoryStore

/-- The store is as the calls tell. -/
structure Accounted (m : MemoryStore) (calls : List Call) : Prop where
  /-- There are as many commits. -/
  commits : m.commits = Call.commitCount calls
  /-- The worktrees are as told. -/
  worktree : ∀ root,
    AsTold (m.worktrees.find? root) (Call.dir? calls root) (Call.head? calls root)
  /-- Every worktree is under its own root. -/
  placed : m.Placed
  /-- What is shared in a directory has the account of its history. -/
  account : ∀ dir, Account (historyAt dir (Call.deeds calls)) (m.refsAt dir)
  /-- No branch is listed besides those kept by name. -/
  noExtra : m.NoExtra

theorem accounted_empty : Accounted empty [] where
  commits := rfl
  worktree _ := .absent none
  placed := placed_empty
  account _ := .empty
  noExtra := noExtra_empty

variable {m : MemoryStore} {calls : List Call}

theorem toOption_branchNamed (name : String) : (branchNamed name).toOption = Call.branch? name := by
  unfold branchNamed Call.branch?
  cases BranchName.create name <;> rfl

/-! ### What a call does -/

/-- The worktree at a root has the directory and the HEAD that the calls tell. -/
theorem Accounted.told_of_worktree (h : m.Accounted calls) {root : Path} {w : MemoryWorktree}
    (hw : m.worktree root = .ok w) :
    Call.dir? calls root.components = some w.layout.commonDir.components ∧
      Call.head? calls root.components = w.head := by
  have htold := h.worktree root.components
  rw [worktree_eq_ok.1 hw] at htold
  generalize Call.dir? calls root.components = dir at htold
  generalize Call.head? calls root.components = head at htold
  cases htold
  exact ⟨rfl, rfl⟩

/-- The directories that are located for a root are those that the calls tell. -/
theorem Accounted.told_of_locate (h : m.Accounted calls) {root : Path} {l : Layout}
    (hl : (m.locate root).1 = .ok l) :
    l.workDir.components = root.components ∧
      Call.dir? calls root.components = some l.commonDir.components := by
  obtain ⟨w, hread, rfl⟩ := map_eq_ok.1 hl
  have hw := worktree_of_checkRead hread
  exact ⟨h.placed _ w (worktree_eq_ok.1 hw), (h.told_of_worktree hw).1⟩

/-- Where there is no worktree, the calls tell of none. -/
theorem Accounted.dir?_eq_none (h : m.Accounted calls) {root : Path} {e : FixtureError}
    (hnone : m.worktree root = .error e) : Call.dir? calls root.components = none := by
  have htold := h.worktree root.components
  have hfind : m.worktrees.find? root.components = none := by
    refine Option.eq_none_iff_forall_ne_some.2 fun w hw => ?_
    rw [worktree_eq_ok.2 hw] at hnone
    cases hnone
  rw [hfind] at htold
  generalize Call.dir? calls root.components = dir at htold
  cases htold
  rfl

/-- A change made through a root goes to the directory that the calls tell. -/
theorem Accounted.deedAt_eq (h : m.Accounted calls) {root : Path}
    {change : MemoryWorktree → Option Change} {told : Option Change}
    (hchange : ∀ w, m.worktree root = .ok w → change w = told) :
    m.deedAt root change = (told.map (root, ·)).bind fun (root, change) =>
      (Call.dir? calls root.components).map fun dir => ⟨dir, change⟩ := by
  rw [Option.bind_map]
  change _ = told.bind fun change =>
    (Call.dir? calls root.components).map fun dir => (⟨dir, change⟩ : Deed)
  unfold deedAt
  cases hw : m.worktree root with
  | error e =>
    rw [h.dir?_eq_none hw]
    cases told <;> rfl
  | ok w =>
    dsimp only
    rw [hchange w hw, (h.told_of_worktree hw).1]
    cases told <;> rfl

/-- So does a change made for a named branch. -/
theorem Accounted.deedNamed_eq (h : m.Accounted calls) {root : Path} (name : String)
    {change : MemoryWorktree → BranchName → Change} {told : BranchName → Change}
    (hchange : ∀ w, m.worktree root = .ok w → change w = told) :
    m.deedNamed root name change =
      ((Call.branch? name).map fun b => (root, told b)).bind fun (root, change) =>
        (Call.dir? calls root.components).map fun dir => ⟨dir, change⟩ := by
  have hnamed : ∀ w, m.worktree root = .ok w →
      (branchNamed name).toOption.map (change w) = (Call.branch? name).map told := by
    intro w hw
    rw [hchange w hw, toOption_branchNamed]
  refine (h.deedAt_eq hnamed).trans ?_
  rw [Option.map_map]
  rfl

/-- What a call does to a shared directory is what the calls before it tell. -/
theorem Accounted.deed?_eq (h : m.Accounted calls) (c : Call) :
    m.deed? c = c.deed? (Call.dir? calls) (Call.head? calls)
      (.ofNumber (Call.commitCount calls + 1)) := by
  cases c with
  | addWorktree primary root name =>
    exact h.deedNamed_eq name fun w hw => by rw [(h.told_of_worktree hw).2]
  | commit root =>
    have hchange : ∀ w, m.worktree root = .ok w →
        (match w.head with
          | some (.attached b) => some (Change.give b (.ofNumber (m.commits + 1)))
          | _ => none) =
        match Call.head? calls root.components with
        | some (.attached b) => some (.give b (.ofNumber (Call.commitCount calls + 1)))
        | _ => none := by
      intro w hw
      rw [(h.told_of_worktree hw).2, h.commits]
    refine (h.deedAt_eq hchange).trans ?_
    unfold Call.deed? Call.change?
    dsimp only
    cases Call.head? calls root.components with
    | none => rfl
    | some head => cases head <;> rfl
  | setBranch root name oid => exact h.deedNamed_eq name fun _ _ => rfl
  | deleteBranch root name => exact h.deedNamed_eq name fun _ _ => rfl
  | checkoutNewBranch root name =>
    exact h.deedNamed_eq name fun w hw => by rw [(h.told_of_worktree hw).2]
  | addRemote root name url => exact h.deedAt_eq fun _ _ => rfl
  | removeRemote root name => exact h.deedAt_eq fun _ _ => rfl
  | setRemoteBranch root remote name oid => exact h.deedNamed_eq name fun _ _ => rfl
  | push root remote name => exact h.deedNamed_eq name fun _ _ => rfl
  | _ => rfl

/-! ### Where HEADs are -/

/-- The worktree at one root is another one, and the others stay. -/
def Moves (changed : Path) (f : MemoryWorktree → MemoryWorktree) (m m' : MemoryStore) : Prop :=
  ∀ root, m'.worktrees.find? root =
    if root = changed.components then (m.worktrees.find? root).map f else m.worktrees.find? root

theorem moves_setWorktree {changed : Path} {w : MemoryWorktree} (hw : m.worktree changed = .ok w)
    (f : MemoryWorktree → MemoryWorktree) {m' : MemoryStore} (hm' : m'.worktrees = m.worktrees) :
    Moves changed f m (m'.setWorktree changed (f w)) := by
  intro root
  rw [setWorktree, OrderedMap.find?_insert, hm']
  split
  next hroot => rw [hroot, worktree_eq_ok.1 hw]; rfl
  next => rfl

/-- Where the worktree is the same, or there is none, all of them stay. -/
theorem moves_of_eq {changed : Path} {f : MemoryWorktree → MemoryWorktree}
    (hf : ∀ w, m.worktree changed = .ok w → f w = w) {m' : MemoryStore}
    (hm' : m'.worktrees = m.worktrees) : Moves changed f m m' := by
  intro root
  rw [hm']
  split
  next hroot =>
    subst hroot
    cases hfind : m.worktrees.find? changed.components with
    | none => rfl
    | some w => rw [Option.map_some, hf w (worktree_eq_ok.2 hfind)]
  next => rfl

theorem moves_of_error {changed : Path} {e : FixtureError} (hnone : m.worktree changed = .error e)
    (f : MemoryWorktree → MemoryWorktree) : Moves changed f m m :=
  moves_of_eq (fun w hw => by rw [hw] at hnone; cases hnone) rfl

theorem moves_updateWorktree (changed : Path) (f : MemoryWorktree → MemoryWorktree) :
    Moves changed f m (m.after (m.updateWorktree changed f)) := by
  unfold updateWorktree
  cases hw : m.worktree changed with
  | error e => exact moves_of_error hw f
  | ok w => exact moves_setWorktree hw f rfl

/-- When a HEAD is put where the calls tell, the worktrees are as told. -/
theorem Accounted.asTold_of_moves (h : m.Accounted calls) {m' : MemoryStore} {changed : Path}
    {f : MemoryWorktree → MemoryWorktree} (hmoves : Moves changed f m m')
    (hlayout : ∀ w, (f w).layout = w.layout) (head : Path.Key → Option MemoryHead)
    (hhead : ∀ w, m.worktree changed = .ok w → (f w).head = head changed.components)
    (root : Path.Key) :
    AsTold (m'.worktrees.find? root) (Call.dir? calls root)
      (if root = changed.components then head root else Call.head? calls root) := by
  rw [hmoves root]
  split
  next hroot =>
    subst hroot
    exact (h.worktree _).map hlayout fun w hw => hhead w (worktree_eq_ok.2 hw)
  next => exact h.worktree root

/-- Neither the worktrees nor the number of commits change. -/
def Beside (m m' : MemoryStore) : Prop :=
  m'.worktrees = m.worktrees ∧ m'.commits = m.commits

theorem beside_updateSharedOf (root : Path) (f : SharedRefs → SharedRefs) :
    Beside m (m.after (m.updateSharedOf root f)) := by
  unfold updateSharedOf
  cases m.worktree root <;> exact ⟨rfl, rfl⟩

theorem beside_updateNamed (root : Path) (name : String) (f : BranchName → SharedRefs → SharedRefs) :
    Beside m (m.after (do
      let w ← m.worktree root
      let b ← branchNamed name
      return m.updateShared w.layout.commonDir (f b))) := by
  cases m.worktree root with
  | error e => exact ⟨rfl, rfl⟩
  | ok w => cases branchNamed name <;> exact ⟨rfl, rfl⟩

theorem beside_push (root : Path) (remote name : String) :
    Beside m (m.perform (.push root remote name)) := by
  simp only [perform, push]
  cases m.worktree root with
  | error e => exact ⟨rfl, rfl⟩
  | ok w =>
    cases branchNamed name with
    | error e => exact ⟨rfl, rfl⟩
    | ok b =>
      dsimp only [bind, Except.bind]
      cases (m.sharedOf w.layout.commonDir).commit? b <;> exact ⟨rfl, rfl⟩

/-- A call that is about no worktree leaves the worktrees and the number of commits alone. -/
theorem beside_perform {c : Call} (hc : c.isOfWorktree = false) : Beside m (m.perform c) := by
  cases c with
  | setBranch root name oid => exact beside_updateNamed root name _
  | deleteBranch root name => exact beside_updateNamed root name _
  | pushRawLocal root name oid => exact beside_updateNamed root name _
  | addRemote root name url => exact beside_updateSharedOf root _
  | removeRemote root name => exact beside_updateSharedOf root _
  | setRemoteBranch root remote name oid => exact beside_updateNamed root name _
  | push root remote name => exact beside_push root remote name
  | failOn kind error => exact ⟨rfl, rfl⟩
  | clearFailure => exact ⟨rfl, rfl⟩
  | locate root => exact ⟨rfl, rfl⟩
  | readRefs l =>
    simp only [perform, readRefs]
    cases m.checkRead .refs l.workDir <;> exact ⟨rfl, rfl⟩
  | readHead l => exact ⟨rfl, rfl⟩
  | readState l => exact ⟨rfl, rfl⟩
  | _ => cases hc

/-- A new worktree shares the directory of its primary. -/
theorem Accounted.asTold_addWorktree (h : m.Accounted calls) (primary added : Path) (name : String)
    (root : Path.Key) :
    AsTold ((m.perform (.addWorktree primary added name)).worktrees.find? root)
      (Call.dir? (.addWorktree primary added name :: calls) root)
      (Call.head? (.addWorktree primary added name :: calls) root) := by
  have hsame := h.worktree root
  have hbranch := toOption_branchNamed name
  rw [Call.dir?, Call.head?, ← hbranch]
  cases hb : branchNamed name with
  | error e =>
    have hperform : m.perform (.addWorktree primary added name) = m := by
      simp only [perform, addWorktree, hb]
      rfl
    rw [hperform]
    simpa [Except.toOption] using hsame
  | ok b =>
    cases hw : m.worktree primary with
    | error e =>
      have hperform : m.perform (.addWorktree primary added name) = m := by
        simp only [perform, addWorktree, hb, hw]
        rfl
      rw [hperform, h.dir?_eq_none hw]
      simpa [Except.toOption] using hsame
    | ok w =>
      rw [(h.told_of_worktree hw).1]
      simp only [perform, addWorktree, hb, hw]
      change AsTold (((m.updateShared _ _).setWorktree added _).worktrees.find? root) _ _
      rw [setWorktree, OrderedMap.find?_insert]
      by_cases hroot : root = added.components
      · simp only [hroot, if_true]
        exact .present _
      · simp only [hroot, false_and, if_false]
        exact hsame

/-- A commit puts a HEAD that is on no branch on the commit. -/
theorem Accounted.asTold_commit (h : m.Accounted calls) (committed : Path) (root : Path.Key) :
    AsTold ((m.perform (.commit committed)).worktrees.find? root)
      (Call.dir? (.commit committed :: calls) root)
      (Call.head? (.commit committed :: calls) root) := by
  let oid := Oid.ofNumber (m.commits + 1)
  let f (w : MemoryWorktree) : MemoryWorktree := { w with head := Call.committedHead oid w.head }
  have hcounted : ({ m with commits := m.commits + 1 } : MemoryStore).worktree committed =
      m.worktree committed := rfl
  have hmoves : Moves committed f m (m.perform (.commit committed)) := by
    simp only [perform, commit, hcounted]
    cases hw : m.worktree committed with
    | error e => exact moves_of_eq (fun w hw' => by rw [hw] at hw'; cases hw') rfl
    | ok w =>
      obtain ⟨l, head, state⟩ := w
      rcases head with _ | ⟨b | detached⟩
      · exact moves_setWorktree hw f rfl
      · refine moves_of_eq (fun w hw' => ?_) rfl
        rw [← Except.ok.inj (hw.symm.trans hw')]
        rfl
      · exact moves_setWorktree hw f rfl
  have htold := h.asTold_of_moves hmoves (fun _ => rfl)
    (fun root => Call.committedHead oid (Call.head? calls root))
    (fun w hw => by rw [(h.told_of_worktree hw).2]) root
  have hoid : oid = .ofNumber (Call.commitCount calls + 1) := by rw [← h.commits]
  rw [hoid] at htold
  exact htold

/-- A branch that is checked out is where HEAD is put. -/
theorem Accounted.asTold_of_attached (h : m.Accounted calls) {m' : MemoryStore} {changed : Path}
    {name : String} {b : BranchName} (hb : branchNamed name = .ok b)
    (hmoves : Moves changed (fun w => { w with head := some (.attached b) }) m m')
    (root : Path.Key) :
    AsTold (m'.worktrees.find? root) (Call.dir? calls root)
      (if root = changed.components then
        ((Call.branch? name).map .attached).or (Call.head? calls root)
      else Call.head? calls root) := by
  have hbranch : Call.branch? name = some b := by
    rw [← toOption_branchNamed, hb]
    rfl
  rw [hbranch]
  exact h.asTold_of_moves hmoves (fun _ => rfl) (fun _ => some (.attached b)) (fun _ _ => rfl) root

/-- A name that is none of a branch is not checked out. -/
theorem Accounted.asTold_of_invalid (h : m.Accounted calls) {name : String} {e : FixtureError}
    (hb : branchNamed name = .error e) (changed : Path) (root : Path.Key) :
    AsTold (m.worktrees.find? root) (Call.dir? calls root)
      (if root = changed.components then
        ((Call.branch? name).map .attached).or (Call.head? calls root)
      else Call.head? calls root) := by
  have hbranch : Call.branch? name = none := by
    rw [← toOption_branchNamed, hb]
    rfl
  rw [hbranch, Option.map_none, Option.none_or, ite_self]
  exact h.worktree root

theorem Accounted.asTold_checkout (h : m.Accounted calls) (changed : Path) (name : String)
    (root : Path.Key) :
    AsTold ((m.perform (.checkout changed name)).worktrees.find? root)
      (Call.dir? (.checkout changed name :: calls) root)
      (Call.head? (.checkout changed name :: calls) root) := by
  simp only [perform, checkout]
  cases hb : branchNamed name with
  | error e => exact h.asTold_of_invalid hb changed root
  | ok b => exact h.asTold_of_attached hb (moves_updateWorktree changed _) root

theorem Accounted.asTold_checkoutNewBranch (h : m.Accounted calls) (changed : Path) (name : String)
    (root : Path.Key) :
    AsTold ((m.perform (.checkoutNewBranch changed name)).worktrees.find? root)
      (Call.dir? (.checkoutNewBranch changed name :: calls) root)
      (Call.head? (.checkoutNewBranch changed name :: calls) root) := by
  cases hb : branchNamed name with
  | error e =>
    have hperform : m.perform (.checkoutNewBranch changed name) = m := by
      simp only [perform, checkoutNewBranch, hb]
      cases m.worktree changed <;> rfl
    rw [hperform]
    exact h.asTold_of_invalid hb changed root
  | ok b =>
    refine h.asTold_of_attached hb ?_ root
    simp only [perform, checkoutNewBranch, hb]
    cases hw : m.worktree changed with
    | error e => exact moves_of_error hw _
    | ok w =>
      refine moves_setWorktree hw (fun w => { w with head := some (.attached b) }) ?_
      cases m.revision w <;> rfl

/-- A HEAD is detached at the commit that its branch has by the history of the directory. -/
theorem Accounted.asTold_detachHead (h : m.Accounted calls) (changed : Path) (root : Path.Key) :
    AsTold ((m.perform (.detachHead changed)).worktrees.find? root)
      (Call.dir? (.detachHead changed :: calls) root)
      (Call.head? (.detachHead changed :: calls) root) := by
  have hmoves : Moves changed (fun w => { w with head := (m.revision w).map .detached }) m
      (m.perform (.detachHead changed)) :=
    moves_updateWorktree changed _
  refine h.asTold_of_moves hmoves (fun _ => rfl)
    (fun root => (Call.dir? calls root).bind fun dir =>
      (headOid (Change.lastOid (historyAt dir (Call.deeds calls))) (Call.head? calls root)).map
        .detached) (fun w hw => ?_) root
  obtain ⟨hdir, hhead⟩ := h.told_of_worktree hw
  have haccount := h.account w.layout.commonDir.components
  rw [hdir, hhead, Option.bind_some, ← haccount.headOid_eq, revision_eq]
  rfl

/-- Whatever is called, the worktrees are as told. -/
theorem Accounted.asTold_perform (h : m.Accounted calls) (c : Call) (root : Path.Key) :
    AsTold ((m.perform c).worktrees.find? root) (Call.dir? (c :: calls) root)
      (Call.head? (c :: calls) root) := by
  cases c with
  | addRepository added =>
    simp only [perform, addRepository, setWorktree, OrderedMap.find?_insert, Call.dir?, Call.head?]
    split
    next => exact .present _
    next => exact h.worktree root
  | addWorktree primary added name => exact h.asTold_addWorktree primary added name root
  | commit committed => exact h.asTold_commit committed root
  | checkout changed name => exact h.asTold_checkout changed name root
  | checkoutNewBranch changed name => exact h.asTold_checkoutNewBranch changed name root
  | detachHead changed => exact h.asTold_detachHead changed root
  | removeHead changed =>
    have hmoves : Moves changed (fun w => { w with head := none }) m
        (m.perform (.removeHead changed)) :=
      moves_updateWorktree changed _
    exact h.asTold_of_moves hmoves (fun _ => rfl) (fun _ => none) (fun _ _ => rfl) root
  | setState changed state =>
    have hmoves : Moves changed (fun w => { w with state }) m
        (m.perform (.setState changed state)) :=
      moves_updateWorktree changed _
    have htold := h.asTold_of_moves hmoves (fun _ => rfl) (Call.head? calls)
      (fun w hw => (h.told_of_worktree hw).2.symm) root
    rw [ite_self] at htold
    exact htold
  | _ =>
    rw [(beside_perform rfl).1]
    exact h.worktree root

theorem commits_updateWorktree (root : Path) (f : MemoryWorktree → MemoryWorktree) :
    (m.after (m.updateWorktree root f)).commits = m.commits := by
  unfold updateWorktree
  cases m.worktree root <;> rfl

/-- Only a commit is counted as one. -/
theorem Accounted.commits_perform (h : m.Accounted calls) (c : Call) :
    (m.perform c).commits = Call.commitCount (c :: calls) := by
  cases c with
  | addRepository added => exact h.commits
  | addWorktree primary added name =>
    refine Eq.trans ?_ h.commits
    simp only [perform, addWorktree]
    cases branchNamed name with
    | error e => rfl
    | ok b => cases m.worktree primary <;> rfl
  | commit committed =>
    refine Eq.trans ?_ (congrArg (· + 1) h.commits)
    simp only [perform, commit]
    split
    next => rfl
    next w _ => rcases w.head with _ | ⟨b | oid⟩ <;> rfl
  | checkoutNewBranch changed name =>
    refine Eq.trans ?_ h.commits
    simp only [perform, checkoutNewBranch]
    cases m.worktree changed with
    | error e => rfl
    | ok w =>
      cases branchNamed name with
      | error e => rfl
      | ok b =>
        dsimp only [bind, Except.bind]
        cases m.revision w <;> rfl
  | checkout changed name =>
    refine Eq.trans ?_ h.commits
    simp only [perform, checkout]
    cases branchNamed name with
    | error e => rfl
    | ok b => exact commits_updateWorktree changed _
  | detachHead changed => exact (commits_updateWorktree changed _).trans h.commits
  | removeHead changed => exact (commits_updateWorktree changed _).trans h.commits
  | setState changed state => exact (commits_updateWorktree changed _).trans h.commits
  | _ => exact (beside_perform rfl).2.trans h.commits

/-- Whatever is called, the store is as the calls tell, unless a branch is listed besides. -/
theorem Accounted.perform (h : m.Accounted calls) {c : Call} (hc : c.isRaw = false) :
    (m.perform c).Accounted (c :: calls) where
  commits := h.commits_perform c
  worktree := h.asTold_perform c
  placed := h.placed.perform c
  account dir := by
    rw [refsAt_perform hc, h.deed?_eq c]
    exact (h.account dir).applyAt _
  noExtra := h.noExtra.perform hc

end MemoryStore

end WorktreeTracker
