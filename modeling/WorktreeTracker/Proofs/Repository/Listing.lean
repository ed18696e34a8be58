import WorktreeTracker.Proofs.Name
import WorktreeTracker.Proofs.Results
import WorktreeTracker.Proofs.Text
import WorktreeTracker.Repository.Library

/-!
# Listings from the answers of a library

Which branches are listed from the answers of a git library: the local branches are the references
that it hands out below `refs/heads/`, symbolic ones too, and the remote-tracking branches are those
that are not symbolic and have an owner. Each has the commit that its reference leads to. The
remotes are those that the library names, each with the one address that it gives.
-/

namespace WorktreeTracker

/-- A reference is for the branch whose name follows the lead in its own. -/
theorem FoundRef.branchBelow?_eq_some_iff {lead : String} {found : FoundRef} {name : String}
    {branch : BranchName} :
    found.branchBelow? lead = some (name, branch) ↔
      found.name = some name ∧ name = lead ++ branch.text := by
  unfold branchBelow?
  constructor
  · intro h
    obtain ⟨name', hname, h⟩ := Option.bind_eq_some_iff.1 h
    obtain ⟨short, hshort, h⟩ := Option.bind_eq_some_iff.1 h
    obtain ⟨branch', hbranch, h⟩ := Option.bind_eq_some_iff.1 h
    obtain ⟨rfl, rfl⟩ := Prod.mk.inj (Option.some.inj h)
    rw [BranchName.toOption_ofRef_eq_some_iff] at hbranch
    rw [Text.after?_eq_some_iff, hbranch] at hshort
    exact ⟨hname, hshort⟩
  · rintro ⟨hname, rfl⟩
    have hafter : Text.after? lead (lead ++ branch.text) = some branch.text :=
      Text.after?_append _ _
    simp only [hname, hafter, BranchName.toOption_ofRef_eq_some_iff.2 rfl, Option.bind_eq_bind,
      Option.bind_some, Option.pure_def]

namespace GitLibrary

variable {g : GitLibrary}

/-- What is made of the branches of a kind comes from one of them, and something is made of each. -/
theorem mem_collect_iff {α : Type} {kind : BranchKind}
    {make : FoundRef → Except ReadError (Option α)} {made : List α}
    (h : g.collect kind make = .ok made) :
    ∃ entries, g.branches kind = .ok entries ∧
      (∀ found, .ok found ∈ entries → ∃ a?, make found = .ok a?) ∧
      ∀ a, a ∈ made ↔ ∃ found, .ok found ∈ entries ∧ make found = .ok (some a) := by
  obtain ⟨entries, hentries, h⟩ := bind_eq_ok.1 h
  obtain ⟨results, hresults, h⟩ := bind_eq_ok.1 h
  obtain rfl := Except.ok.inj h
  refine ⟨entries, mapError_eq_ok.1 hentries, fun found hfound => ?_, fun a => ?_⟩
  · obtain ⟨a?, -, hmade⟩ := exists_of_mapM hresults hfound
    exact ⟨a?, hmade⟩
  · rw [mem_filterMap_of_mapM hresults]
    constructor
    · rintro ⟨entry, hentry, hmade⟩
      obtain ⟨found, hfound, hmade⟩ := bind_eq_ok.1 hmade
      rw [mapError_eq_ok.1 hfound] at hentry
      exact ⟨found, hentry, hmade⟩
    · rintro ⟨found, hentry, hmade⟩
      exact ⟨.ok found, hentry, hmade⟩

/-- What is made of the only branch of a kind. -/
theorem collect_singleton {α : Type} {kind : BranchKind}
    {make : FoundRef → Except ReadError (Option α)} {found : FoundRef} {a : α}
    (h : g.branches kind = .ok [.ok found]) (hmade : make found = .ok (some a)) :
    g.collect kind make = .ok [a] := by
  refine bind_eq_ok.2 ⟨_, mapError_eq_ok.2 h, bind_eq_ok.2 ⟨[some a], ?_, rfl⟩⟩
  rw [List.mapM_cons, List.mapM_nil]
  exact bind_eq_ok.2 ⟨some a, hmade, rfl⟩

/-! ## Local branches -/

/-- A listed reference is that of a local branch when its name is, and it leads to the commit. -/
theorem localBranch_eq_ok_iff {found : FoundRef} {e : LocalRef} :
    g.localBranch found = .ok (some e) ↔
      found.name = some (RefName.ofBranch e.name).text ∧ g.peel found.target = .ok e.oid ∧
        g.tracking (RefName.ofBranch e.name).text = .ok e.tracking := by
  unfold localBranch
  constructor
  · intro h
    split at h
    next => cases h
    next name branch hbranch =>
      obtain ⟨hname, rfl⟩ := FoundRef.branchBelow?_eq_some_iff.1 hbranch
      obtain ⟨oid, hoid, h⟩ := bind_eq_ok.1 h
      obtain ⟨tracking, htracking, h⟩ := bind_eq_ok.1 h
      obtain rfl := Option.some.inj (Except.ok.inj h)
      exact ⟨hname, mapError_eq_ok.1 hoid, htracking⟩
  · rintro ⟨hname, hoid, htracking⟩
    rw [FoundRef.branchBelow?_eq_some_iff.2 ⟨hname, rfl⟩]
    exact bind_eq_ok.2 ⟨_, mapError_eq_ok.2 hoid, bind_eq_ok.2 ⟨_, htracking, rfl⟩⟩

/-- What is listed of a reference of a local branch is that branch. -/
theorem exists_of_localBranch {found : FoundRef} {e? : Option LocalRef} {b : BranchName}
    (h : g.localBranch found = .ok e?) (hname : found.name = some (RefName.ofBranch b).text) :
    ∃ e, e? = some e ∧ e.name = b := by
  unfold localBranch at h
  rw [FoundRef.branchBelow?_eq_some_iff.2 ⟨hname, rfl⟩] at h
  obtain ⟨oid, -, h⟩ := bind_eq_ok.1 h
  obtain ⟨tracking, -, h⟩ := bind_eq_ok.1 h
  exact ⟨_, (Except.ok.inj h).symm, rfl⟩

/-- The library hands out a reference of a branch that leads to a commit. -/
def LeadsTo (g : GitLibrary) (kind : BranchKind) (name : RefName) (oid : Oid) : Prop :=
  ∃ entries target, g.branches kind = .ok entries ∧ .ok ⟨some name.text, target⟩ ∈ entries ∧
    g.peel target = .ok oid

/-- A local branch is listed when its reference leads to its commit and it is set to track what is
listed. -/
theorem mem_localBranches_iff {locals : List LocalRef} (h : g.localBranches = .ok locals)
    {e : LocalRef} :
    e ∈ locals ↔ g.LeadsTo .own (.ofBranch e.name) e.oid ∧
      g.tracking (RefName.ofBranch e.name).text = .ok e.tracking := by
  obtain ⟨entries, hentries, -, hmem⟩ := mem_collect_iff h
  simp only [hmem, localBranch_eq_ok_iff]
  constructor
  · rintro ⟨⟨name, target⟩, hentry, rfl, hpeel, htracking⟩
    exact ⟨⟨entries, target, hentries, hentry, hpeel⟩, htracking⟩
  · rintro ⟨⟨others, target, hothers, hentry, hpeel⟩, htracking⟩
    obtain rfl := Except.ok.inj (hentries.symm.trans hothers)
    exact ⟨_, hentry, rfl, hpeel, htracking⟩

/-- Every reference of a local branch is listed. -/
theorem exists_mem_localBranches {locals : List LocalRef} (h : g.localBranches = .ok locals)
    {entries : List (Except String FoundRef)} (hentries : g.branches .own = .ok entries)
    {b : BranchName} {target : RefTarget}
    (hentry : .ok ⟨some (RefName.ofBranch b).text, target⟩ ∈ entries) :
    ∃ e ∈ locals, e.name = b ∧ g.peel target = .ok e.oid := by
  obtain ⟨others, hothers, hmade, hmem⟩ := mem_collect_iff h
  obtain rfl := Except.ok.inj (hentries.symm.trans hothers)
  obtain ⟨e?, he?⟩ := hmade _ hentry
  obtain ⟨e, rfl, hname⟩ := exists_of_localBranch he? rfl
  exact ⟨e, (hmem e).2 ⟨_, hentry, he?⟩, hname, (localBranch_eq_ok_iff.1 he?).2.1⟩

/-! ## Remote-tracking branches -/

/-- A reference is for a branch of a remote when it is not symbolic and the remote owns it. -/
theorem trackedName?_eq_some_iff {found : FoundRef} {name remote : String} {branch : BranchName} :
    g.trackedName? found = some (name, remote, branch) ↔
      found.target.symbolic? = none ∧ found.name = some name ∧
        name = (RefName.ofRemoteBranch remote branch).text ∧ g.owner name = some remote := by
  unfold trackedName?
  constructor
  · intro h
    obtain ⟨⟨⟩, hdirect, h⟩ := Option.bind_eq_some_iff.1 h
    obtain ⟨name', hname, h⟩ := Option.bind_eq_some_iff.1 h
    obtain ⟨owner, howner, h⟩ := Option.bind_eq_some_iff.1 h
    obtain ⟨⟨name'', branch'⟩, hbranch, h⟩ := Option.bind_eq_some_iff.1 h
    obtain ⟨rfl, hparts⟩ := Prod.mk.inj (Option.some.inj h)
    obtain ⟨rfl, rfl⟩ := Prod.mk.inj hparts
    obtain ⟨hname', rfl⟩ := FoundRef.branchBelow?_eq_some_iff.1 hbranch
    obtain rfl := Option.some.inj (hname.symm.trans hname')
    refine ⟨?_, hname, rfl, howner⟩
    by_contra hsome
    rw [guard, if_neg (by simpa using hsome)] at hdirect
    cases hdirect
  · rintro ⟨hdirect, hname, rfl, howner⟩
    have hbranch : found.branchBelow? (RefName.remotes ++ remote ++ "/") =
        some ((RefName.ofRemoteBranch remote branch).text, branch) :=
      FoundRef.branchBelow?_eq_some_iff.2 ⟨hname, rfl⟩
    simp only [hdirect, hname, howner, hbranch, guard, Option.isNone_none, if_true,
      Option.bind_eq_bind, Option.bind_some, Option.pure_def]

/-- A listed reference is that of a remote-tracking branch when it is for one, and it leads to the
commit. -/
theorem trackedBranch_eq_ok_iff {found : FoundRef} {e : RemoteRef} :
    g.trackedBranch found = .ok (some e) ↔
      found.target.symbolic? = none ∧
        found.name = some (RefName.ofRemoteBranch e.remote e.name).text ∧
        g.owner (RefName.ofRemoteBranch e.remote e.name).text = some e.remote ∧
        g.peel found.target = .ok e.oid := by
  unfold trackedBranch
  constructor
  · intro h
    split at h
    next => cases h
    next name remote branch htracked =>
      obtain ⟨hdirect, hname, rfl, howner⟩ := trackedName?_eq_some_iff.1 htracked
      obtain ⟨oid, hoid, heq⟩ := map_eq_ok.1 h
      obtain rfl := Option.some.inj heq
      exact ⟨hdirect, hname, howner, mapError_eq_ok.1 hoid⟩
  · rintro ⟨hdirect, hname, howner, hoid⟩
    rw [trackedName?_eq_some_iff.2 ⟨hdirect, hname, rfl, howner⟩]
    exact map_eq_ok.2 ⟨_, mapError_eq_ok.2 hoid, rfl⟩

end GitLibrary

/-! ## Remotes -/

namespace GitRemotes

variable {g : GitRemotes}

/-- A remote is listed when the library names it, with the address that it gives. -/
theorem mem_remotes_iff {remotes : List Remote} (h : g.remotes = .ok remotes) :
    ∃ names, g.names = .ok names ∧ (∀ name, some name ∈ names → ∃ url, g.url name = .ok url) ∧
      ∀ e, e ∈ remotes ↔ some e.name ∈ names ∧ ∃ url, g.url e.name = .ok url ∧
        e.urls = url.toList := by
  obtain ⟨names, hnames, h⟩ := bind_eq_ok.1 h
  have hremote {name : String} {e : Remote} :
      g.remote name = .ok e ↔ name = e.name ∧ ∃ url, g.url name = .ok url ∧ e.urls = url.toList := by
    unfold remote
    obtain ⟨own, urls⟩ := e
    cases g.url name with
    | error failure => simp
    | ok url => simp [eq_comm]
  have hnamed (name : String) : name ∈ names.filterMap id ↔ some name ∈ names := by
    rw [List.mem_filterMap]
    simp
  refine ⟨names, mapError_eq_ok.1 hnames, fun name hname => ?_, fun e => ?_⟩
  · obtain ⟨e, -, he⟩ := exists_of_mapM h ((hnamed name).2 hname)
    obtain ⟨-, url, hurl, -⟩ := hremote.1 he
    exact ⟨url, hurl⟩
  · constructor
    · intro he
      obtain ⟨name, hname, hfound⟩ := exists_of_forall₂ (mapM_eq_ok h) he
      obtain ⟨rfl, hurl⟩ := hremote.1 hfound
      exact ⟨(hnamed _).1 hname, hurl⟩
    · rintro ⟨hname, hurl⟩
      obtain ⟨other, hother, hfound⟩ := exists_of_mapM h ((hnamed _).2 hname)
      obtain rfl := Except.ok.inj (hfound.symm.trans (hremote.2 ⟨rfl, hurl⟩))
      exact hother

/-- The library names the given remotes, and gives to each the addresses that it has: one, or none
that is text. -/
structure Gives (g : GitRemotes) (remotes : List Remote) : Prop where
  /-- The names are those of the remotes. -/
  names : ∀ names, g.names = .ok names →
    ∀ name, some name ∈ names ↔ name ∈ remotes.map Remote.name
  /-- A remote has the one address that it is given. -/
  urls : ∀ e ∈ remotes, ∃ url, g.url e.name = .ok url ∧ e.urls = url.toList

/-- The remotes of the library are the given ones exactly when it names those with their
addresses. -/
theorem remotes_same_iff {remotes remotes' : List Remote} (h : g.remotes = .ok remotes') :
    (∀ e, e ∈ remotes ↔ e ∈ remotes') ↔ g.Gives remotes := by
  obtain ⟨names, hnames, hnamed, hmem⟩ := mem_remotes_iff h
  constructor
  · intro hsame
    refine ⟨fun others hothers name => ?_, fun e he => ((hmem e).1 ((hsame e).1 he)).2⟩
    obtain rfl := Except.ok.inj (hnames.symm.trans hothers)
    constructor
    · intro hname
      obtain ⟨url, hurl⟩ := hnamed name hname
      exact List.mem_map.2 ⟨⟨name, url.toList⟩, (hsame _).2 ((hmem _).2 ⟨hname, url, hurl, rfl⟩), rfl⟩
    · intro hname
      obtain ⟨e, he, rfl⟩ := List.mem_map.1 hname
      exact ((hmem e).1 ((hsame e).1 he)).1
  · rintro ⟨hgiven, hurls⟩ e
    constructor
    · exact fun he => (hmem e).2 ⟨(hgiven names hnames _).2 (List.mem_map_of_mem he), hurls e he⟩
    · intro he
      obtain ⟨hname, url, hurl, heq⟩ := (hmem e).1 he
      obtain ⟨⟨name, urls⟩, hother, rfl⟩ := List.mem_map.1 ((hgiven names hnames _).1 hname)
      obtain ⟨url', hurl', rfl⟩ : ∃ url', g.url e.name = .ok url' ∧ urls = url'.toList :=
        hurls _ hother
      obtain rfl := Except.ok.inj (hurl.symm.trans hurl')
      obtain ⟨name', urls'⟩ := e
      obtain rfl : urls' = url.toList := heq
      exact hother

end GitRemotes

end WorktreeTracker
