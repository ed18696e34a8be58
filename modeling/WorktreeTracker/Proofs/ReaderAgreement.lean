import WorktreeTracker.Locate
import WorktreeTracker.Proofs.PlainReader.Stored
import WorktreeTracker.Proofs.Remotes
import WorktreeTracker.Proofs.Repository.Listing
import WorktreeTracker.Proofs.Repository.References

/-!
# Agreement of the two readers

When the plain reader and the repository reader list the same branches and remotes. Nothing is known
of the library that the repository reader asks but what it answers about the references on disk: it
hands out every reference of a branch, also a symbolic one, and follows one with an id to the commit
of that id. The listings are the same exactly when no local branch is symbolic, the library answers
with what the plain reader finds in the configuration about tracked branches and remotes, and every
remote-tracking branch belongs to the longest remote that fits it. Each of these is needed.
-/

namespace WorktreeTracker

/-- Two listings have the same members, in any order. -/
structure Listing.Same (a b : Listing) : Prop where
  /-- The local branches are the same. -/
  locals : ∀ e, e ∈ a.locals ↔ e ∈ b.locals
  /-- The remote-tracking branches are the same. -/
  tracked : ∀ e, e ∈ a.tracked ↔ e ∈ b.tracked
  /-- The remotes are the same. -/
  remotes : ∀ e, e ∈ a.remotes ↔ e ∈ b.remotes

theorem Listing.same_iff (a b : Listing) :
    a.Same b ↔ (∀ e, e ∈ a.locals ↔ e ∈ b.locals) ∧ (∀ e, e ∈ a.tracked ↔ e ∈ b.tracked) ∧
      ∀ e, e ∈ a.remotes ↔ e ∈ b.remotes :=
  ⟨fun h => ⟨h.locals, h.tracked, h.remotes⟩, fun h => ⟨h.1, h.2.1, h.2.2⟩⟩

theorem RefName.text_ofRemoteBranch (remote : String) (b : BranchName) :
    (ofRemoteBranch remote b).text = BranchKind.tracked.lead ++ (remote ++ "/" ++ b.text) := by
  simp [ofRemoteBranch, BranchKind.lead, String.append_assoc]

namespace GitLibrary

open PlainReader (Lists ListsStored Longest)

variable {t : FileTree} {l : Layout} {g : GitLibrary}

/-! ## Local branches -/

section

variable {upstream : PlainReader.Upstream} {locals locals' : List LocalRef}

/-- The local branches are the same exactly when the listed references are those that the library
leads to a commit, and it answers with what each branch is looked up to track. -/
theorem locals_same_iff (hplain : PlainReader.localBranchesOf t l upstream = .ok locals)
    (hfull : g.localBranches = .ok locals') :
    (∀ e, e ∈ locals ↔ e ∈ locals') ↔
      (∀ b oid, Lists t l .own (.ofBranch b) oid ↔ g.LeadsTo .own (.ofBranch b) oid) ∧
        ∀ e ∈ locals, g.tracking (RefName.ofBranch e.name).text = .ok e.tracking := by
  obtain ⟨entries, hentries, -, -⟩ := mem_collect_iff hfull
  have hlisted {b : BranchName} {oid : Oid} :
      Lists t l .own (.ofBranch b) oid ↔ ∃ e ∈ locals, e.name = b ∧ e.oid = oid :=
    PlainReader.lists_ofBranch_iff hplain
  have hleads {b : BranchName} {oid : Oid} :
      g.LeadsTo .own (.ofBranch b) oid ↔ ∃ e ∈ locals', e.name = b ∧ e.oid = oid := by
    constructor
    · rintro ⟨others, target, hothers, hentry, hpeel⟩
      obtain ⟨e, he, rfl, hoid⟩ := exists_mem_localBranches hfull hothers hentry
      exact ⟨e, he, rfl, Except.ok.inj (hoid.symm.trans hpeel)⟩
    · rintro ⟨e, he, rfl, rfl⟩
      exact ((mem_localBranches_iff hfull).1 he).1
  simp only [hlisted, hleads]
  constructor
  · intro hsame
    refine ⟨fun b oid => exists_congr fun e => and_congr_left fun _ => hsame e, fun e he => ?_⟩
    exact ((mem_localBranches_iff hfull).1 ((hsame e).1 he)).2
  · rintro ⟨hsame, htracking⟩ e
    constructor
    · intro he
      exact (mem_localBranches_iff hfull).2
        ⟨hleads.2 ((hsame _ _).1 ⟨e, he, rfl, rfl⟩), htracking e he⟩
    · intro he
      obtain ⟨other, hother, hname, hoid⟩ := (hsame e.name e.oid).2 ⟨e, he, rfl, rfl⟩
      -- both track what the library answers
      have htracked := htracking other hother
      rw [hname, ((mem_localBranches_iff hfull).1 he).2] at htracked
      obtain ⟨name, oid, tracking⟩ := e
      obtain ⟨name', oid', tracking'⟩ := other
      obtain rfl : name' = name := hname
      obtain rfl : oid' = oid := hoid
      obtain rfl : tracking = tracking' := Except.ok.inj htracked
      exact hother

/-- Where the plain reader lists what is stored, the listed references are those that the library
leads to a commit exactly when none is symbolic. -/
theorem Reads.lists_iff_leadsTo (h : g.Reads t l) (hlists : ListsStored t l)
    (hfull : g.localBranches = .ok locals') :
    (∀ b oid, Lists t l .own (.ofBranch b) oid ↔ g.LeadsTo .own (.ofBranch b) oid) ↔
      ∀ b, ¬ IsRef t l (RefName.ofBranch b).text none := by
  obtain ⟨entries, hentries, -, -⟩ := mem_collect_iff hfull
  have hlisted (b : BranchName) (oid : Oid) :
      Lists t l .own (.ofBranch b) oid ↔ IsRef t l (RefName.ofBranch b).text (some oid) :=
    hlists .own b.text oid
  have hfound (b : BranchName) (found : Option Oid) :
      (∃ target, .ok ⟨some (RefName.ofBranch b).text, target⟩ ∈ entries ∧ target.oid? = found) ↔
        IsRef t l (RefName.ofBranch b).text found :=
    h.iterator .own entries hentries b.text found
  constructor
  · intro hsame b hsymbolic
    -- the library lists the symbolic branch, so something else is stored under its name
    obtain ⟨target, hentry, -⟩ := (hfound b none).2 hsymbolic
    obtain ⟨e, -, -, hpeel⟩ := exists_mem_localBranches hfull hentries hentry
    have hstored := (hlisted b e.oid).1 ((hsame b e.oid).2 ⟨_, _, hentries, hentry, hpeel⟩)
    cases hsymbolic.stored.unique hstored.stored
  · intro hnone b oid
    rw [hlisted]
    constructor
    · intro href
      obtain ⟨target, hentry, hoid⟩ := (hfound b (some oid)).2 href
      obtain ⟨e, -, -, hpeel⟩ := exists_mem_localBranches hfull hentries hentry
      obtain rfl := h.peels .own entries hentries _ hentry oid e.oid hoid hpeel
      exact ⟨_, _, hentries, hentry, hpeel⟩
    · rintro ⟨others, target, hothers, hentry, hpeel⟩
      obtain rfl := Except.ok.inj (hentries.symm.trans hothers)
      cases htarget : target.oid? with
      | none => exact absurd ((hfound b none).1 ⟨target, hentry, htarget⟩) (hnone b)
      | some found =>
        obtain rfl := h.peels .own entries hentries _ hentry found oid htarget hpeel
        exact (hfound b _).1 ⟨target, hentry, htarget⟩

end

/-! ## Remote-tracking branches -/

section

variable {remotes : List Remote} {tracked tracked' : List RemoteRef}

/-- The library lists a remote-tracking branch when its id is stored under its name and its remote
owns it. -/
theorem Reads.mem_trackedBranches_iff (h : g.Reads t l) (hfull : g.trackedBranches = .ok tracked')
    {e : RemoteRef} :
    e ∈ tracked' ↔ IsRef t l (RefName.ofRemoteBranch e.remote e.name).text (some e.oid) ∧
      g.owner (RefName.ofRemoteBranch e.remote e.name).text = some e.remote := by
  obtain ⟨entries, hentries, hmade, hmem⟩ := mem_collect_iff hfull
  have hfound : (∃ target, .ok ⟨some (RefName.ofRemoteBranch e.remote e.name).text, target⟩ ∈
      entries ∧ target.oid? = some e.oid) ↔
        IsRef t l (RefName.ofRemoteBranch e.remote e.name).text (some e.oid) := by
    rw [RefName.text_ofRemoteBranch]
    exact h.iterator .tracked entries hentries _ _
  rw [hmem, ← hfound]
  constructor
  · rintro ⟨⟨name, target⟩, hentry, hlisted⟩
    obtain ⟨hdirect, rfl, howner, hpeel⟩ := trackedBranch_eq_ok_iff.1 hlisted
    refine ⟨⟨target, hentry, ?_⟩, howner⟩
    cases htarget : target.oid? with
    | none =>
      have hsymbolic := h.symbolic .tracked entries hentries _ hentry htarget
      rw [show target.symbolic? = none from hdirect] at hsymbolic
      cases hsymbolic
    | some oid =>
      rw [h.peels .tracked entries hentries _ hentry oid e.oid htarget hpeel]
  · rintro ⟨⟨target, hentry, hoid⟩, howner⟩
    have hdirect : target.symbolic? = none := by
      cases target with
      | symbolic name => cases hoid
      | direct oid peeled => rfl
    -- something was listed for the reference, so it leads to a commit
    obtain ⟨a?, ha⟩ := hmade _ hentry
    have hname : g.trackedName? ⟨some (RefName.ofRemoteBranch e.remote e.name).text, target⟩ = _ :=
      trackedName?_eq_some_iff.2 ⟨hdirect, rfl, rfl, howner⟩
    have hpeel : ∃ commit, g.peel target = .ok commit := by
      unfold trackedBranch at ha
      rw [hname] at ha
      obtain ⟨commit, hcommit, -⟩ := map_eq_ok.1 ha
      exact ⟨commit, mapError_eq_ok.1 hcommit⟩
    obtain ⟨commit, hcommit⟩ := hpeel
    obtain rfl := h.peels .tracked entries hentries _ hentry e.oid commit hoid hcommit
    exact ⟨⟨_, target⟩, hentry, trackedBranch_eq_ok_iff.2 ⟨hdirect, rfl, howner, hcommit⟩⟩

/-- The remote-tracking branches are the same exactly when a listed reference belongs to the longest
remote that fits it where the stored one has that remote for its owner. -/
theorem Reads.tracked_same_iff (h : g.Reads t l)
    (hplain : PlainReader.trackedBranchesOf t l remotes = .ok tracked)
    (hfull : g.trackedBranches = .ok tracked') :
    (∀ e, e ∈ tracked ↔ e ∈ tracked') ↔
      ∀ remote b oid, (Lists t l .tracked (.ofRemoteBranch remote b) oid ∧
          Longest remotes (.ofRemoteBranch remote b) remote) ↔
        (IsRef t l (RefName.ofRemoteBranch remote b).text (some oid) ∧
          g.owner (RefName.ofRemoteBranch remote b).text = some remote) := by
  simp only [PlainReader.mem_trackedBranchesOf_iff hplain, h.mem_trackedBranches_iff hfull]
  exact ⟨fun hsame remote b oid => hsame ⟨remote, b, oid⟩, fun hsame e => hsame _ _ _⟩

theorem lists_ofRemoteBranch_iff (hlists : ListsStored t l) {remote : String} {b : BranchName}
    {oid : Oid} :
    Lists t l .tracked (.ofRemoteBranch remote b) oid ↔
      IsRef t l (RefName.ofRemoteBranch remote b).text (some oid) := by
  have hname : RefName.ofRemoteBranch remote b =
      ⟨BranchKind.tracked.lead ++ (remote ++ "/" ++ b.text)⟩ :=
    congrArg RefName.mk (RefName.text_ofRemoteBranch remote b)
  rw [hname]
  exact hlists .tracked _ oid

/-- Where the plain reader lists what is stored, the references belong to the same remotes exactly
when the longest remote that fits a stored one is its owner. -/
theorem longest_iff_owner (hlists : ListsStored t l) :
    (∀ remote b oid, (Lists t l .tracked (.ofRemoteBranch remote b) oid ∧
          Longest remotes (.ofRemoteBranch remote b) remote) ↔
        (IsRef t l (RefName.ofRemoteBranch remote b).text (some oid) ∧
          g.owner (RefName.ofRemoteBranch remote b).text = some remote)) ↔
      ∀ remote b oid, IsRef t l (RefName.ofRemoteBranch remote b).text (some oid) →
        (Longest remotes (.ofRemoteBranch remote b) remote ↔
          g.owner (RefName.ofRemoteBranch remote b).text = some remote) := by
  simp only [lists_ofRemoteBranch_iff hlists, and_congr_right_iff]

end

/-! ## Listings -/

/-- A listing is made of what the library is asked for. -/
theorem listing_eq_ok {listing : Listing} (h : g.listing = .ok listing) :
    g.localBranches = .ok listing.locals ∧ g.trackedBranches = .ok listing.tracked ∧
      g.remotes = .ok listing.remotes := by
  obtain ⟨locals, hlocals, h⟩ := bind_eq_ok.1 h
  obtain ⟨tracked, htracked, h⟩ := bind_eq_ok.1 h
  obtain ⟨remotes, hremotes, h⟩ := bind_eq_ok.1 h
  obtain rfl := Except.ok.inj h
  exact ⟨hlocals, htracked, hremotes⟩

/-- The two readers list the same exactly when the listed references of local branches are those
that the library leads to a commit, it answers with what they track, the references of remotes
belong to the same remotes, and the library gives the listed remotes. Where the plain reader lists
what is stored, exactly when no local branch is symbolic, the library answers with what they track,
the longest remote that fits a stored reference owns it, and the library gives the listed remotes.
-/
theorem listing_same_iff (h : g.Reads t l) {plain full : Listing}
    (hplain : PlainReader.listing t l = .ok plain) (hfull : g.listing = .ok full) :
    (plain.Same full ↔
      (∀ b oid, Lists t l .own (.ofBranch b) oid ↔ g.LeadsTo .own (.ofBranch b) oid) ∧
      (∀ e ∈ plain.locals, g.tracking (RefName.ofBranch e.name).text = .ok e.tracking) ∧
      (∀ remote b oid, (Lists t l .tracked (.ofRemoteBranch remote b) oid ∧
          Longest plain.remotes (.ofRemoteBranch remote b) remote) ↔
        (IsRef t l (RefName.ofRemoteBranch remote b).text (some oid) ∧
          g.owner (RefName.ofRemoteBranch remote b).text = some remote)) ∧
      g.Gives plain.remotes) ∧
    (ListsStored t l → (plain.Same full ↔
      (∀ b, ¬ IsRef t l (RefName.ofBranch b).text none) ∧
      (∀ e ∈ plain.locals, g.tracking (RefName.ofBranch e.name).text = .ok e.tracking) ∧
      (∀ remote b oid, IsRef t l (RefName.ofRemoteBranch remote b).text (some oid) →
        (Longest plain.remotes (.ofRemoteBranch remote b) remote ↔
          g.owner (RefName.ofRemoteBranch remote b).text = some remote)) ∧
      g.Gives plain.remotes)) := by
  obtain ⟨settings, -, hlocals, htracked, -⟩ := PlainReader.listing_eq_ok hplain
  obtain ⟨hlocals', htracked', hremotes'⟩ := listing_eq_ok hfull
  have hsame := Listing.same_iff plain full
  rw [locals_same_iff hlocals hlocals', h.tracked_same_iff htracked htracked',
    GitRemotes.remotes_same_iff hremotes', and_assoc] at hsame
  refine ⟨hsame, fun hlists => ?_⟩
  rw [hsame, h.lists_iff_leadsTo hlists hlocals', longest_iff_owner hlists]

end GitLibrary

/-! ## Answers of a configuration -/

namespace PlainReader

variable {l : Layout}

/-- A value of the configuration that is read is the last one set, as text. -/
theorem configValue_eq_ok {settings : List GitConfig.Setting} {key : String} {value : Option String}
    (h : configValue l settings key = .ok value) :
    value = OpenRepository.valueOf? settings key := by
  unfold configValue at h
  unfold OpenRepository.valueOf?
  split at h
  next hlast =>
    rw [hlast, ← Except.ok.inj h]
    rfl
  next bytes hlast =>
    rw [hlast, Option.bind_some]
    split at h
    next text htext => rw [htext, ← Except.ok.inj h]
    next => cases h

/-- What a local branch tracks is told by its two settings. -/
theorem tracking_eq_ok {settings : List GitConfig.Setting} {branch : BranchName}
    {found : Option Tracking} (h : tracking l settings branch = .ok found) :
    found = Tracking.ofSettings? (OpenRepository.valueOf? settings s!"branch.{branch}.remote")
      (OpenRepository.valueOf? settings s!"branch.{branch}.merge") := by
  obtain ⟨remote, hremote, h⟩ := bind_eq_ok.1 h
  obtain ⟨merge, hmerge, h⟩ := bind_eq_ok.1 h
  rw [← configValue_eq_ok hremote, ← configValue_eq_ok hmerge]
  exact (Except.ok.inj h).symm

end PlainReader

/-- A local branch is set to track a branch of a remote without a name. -/
def TracksNameless (settings : List GitConfig.Setting) (branch : BranchName) : Prop :=
  OpenRepository.valueOf? settings s!"branch.{branch}.remote" = some "" ∧
    ∃ merge, OpenRepository.valueOf? settings s!"branch.{branch}.merge" = some merge ∧
      (mergeBranch? merge).isSome

/-- Leaving out empty settings makes a difference for a remote without a name alone: no branch has
an empty name. -/
theorem ofSettings?_filter_iff {remote merge : Option String} :
    Tracking.ofSettings? remote merge =
        Tracking.ofSettings? (remote.filter (!·.isEmpty)) (merge.filter (!·.isEmpty)) ↔
      ¬ (remote = some "" ∧ ∃ text, merge = some text ∧ (mergeBranch? text).isSome) := by
  have hfilter {s : String} (hs : s ≠ "") : (some s).filter (!·.isEmpty) = some s := by
    simp [Option.filter, hs]
  have hnone (remote : Option String) : Tracking.ofSettings? remote none = none := by
    cases remote <;> rfl
  cases remote with
  | none => simp [Tracking.ofSettings?]
  | some remote =>
    by_cases hremote : remote = ""
    · subst hremote
      cases merge with
      | none => simp [hnone]
      | some text =>
        have hleft : Tracking.ofSettings? (some "") (some text) =
            (mergeBranch? text).map (Tracking.mk "") := by
          cases hbranch : mergeBranch? text <;> simp [Tracking.ofSettings?, guard, hbranch]
        have hright : Tracking.ofSettings? ((some "").filter (!·.isEmpty))
            ((some text).filter (!·.isEmpty)) = none := rfl
        rw [hleft, hright]
        simp
    · rw [hfilter hremote]
      cases merge with
      | none => simp [hremote]
      | some text =>
        by_cases htext : text = ""
        · subst htext
          have hempty : mergeBranch? "" = none := by decide
          have hleft : Tracking.ofSettings? (some remote) (some "") = none := by
            simp [Tracking.ofSettings?, hempty]
          change Tracking.ofSettings? _ _ = Tracking.ofSettings? _ none ↔ _
          simp [hleft, hnone, hremote]
        · simp [hfilter htext, hremote]

section

variable {settings : List GitConfig.Setting}

/-- A setting of a local branch is answered when it is not empty. -/
theorem RepositoryReader.optional_branchSetting (b : BranchName) {key ending : String}
    (hending : "." ++ key = ending) :
    GitRemotes.optional (RefName.ofBranch b).text
        (branchSetting settings key (RefName.ofBranch b).text) =
      .ok ((setting? settings ("branch." ++ b.text ++ ending)).map some) := by
  have hafter : Text.after? RefName.heads (RefName.ofBranch b).text = some b.text :=
    Text.after?_append _ _
  have hkey : s!"branch.{b.text}.{key}" = "branch." ++ b.text ++ ending := by
    rw [← hending, ← String.append_assoc]
    rfl
  unfold branchSetting
  rw [hafter]
  dsimp only
  rw [hkey]
  cases setting? settings ("branch." ++ b.text ++ ending) <;> rfl

/-- The configuration answers with the branch that the two settings of a local branch name, those
that are not empty. -/
theorem RepositoryReader.tracking_answers (settings : List GitConfig.Setting) (b : BranchName) :
    (answers settings).tracking (RefName.ofBranch b).text =
      .ok (Tracking.ofSettings? (setting? settings s!"branch.{b}.remote")
        (setting? settings s!"branch.{b}.merge")) := by
  have hremote : GitRemotes.optional (RefName.ofBranch b).text
      ((answers settings).upstreamRemote (RefName.ofBranch b).text) =
        .ok ((setting? settings s!"branch.{b}.remote").map some) :=
    optional_branchSetting b (by decide)
  have hmerge : GitRemotes.optional (RefName.ofBranch b).text
      ((answers settings).upstreamMerge (RefName.ofBranch b).text) =
        .ok ((setting? settings s!"branch.{b}.merge").map some) :=
    optional_branchSetting b (by decide)
  unfold GitRemotes.tracking
  rw [hremote, hmerge]
  cases setting? settings s!"branch.{b}.remote" with
  | none => rfl
  | some remote => cases setting? settings s!"branch.{b}.merge" <;> rfl

/-- The configuration answers with what the plain reader finds that a local branch tracks, unless
that is a branch of a remote without a name. -/
theorem RepositoryReader.tracking_answers_iff {l : Layout} {e : LocalRef}
    (h : PlainReader.tracking l settings e.name = .ok e.tracking) :
    (answers settings).tracking (RefName.ofBranch e.name).text = .ok e.tracking ↔
      ¬ TracksNameless settings e.name := by
  rw [tracking_answers, PlainReader.tracking_eq_ok h, Except.ok.injEq, eq_comm]
  exact ofSettings?_filter_iff

end

namespace GitLibrary

open PlainReader (Lists ListsStored Longest)

variable {t : FileTree} {l : Layout} {g : GitLibrary} {settings : List GitConfig.Setting}

/-- Where the plain reader lists what is stored and the library answers from the configuration, the
remote-tracking branches are the same exactly when each is owned by the remote that it is listed
for. -/
theorem Reads.tracked_same_iff_owned (h : g.Reads t l) (hlists : ListsStored t l)
    (hanswers : g.toGitRemotes = RepositoryReader.answers settings)
    {tracked tracked' : List RemoteRef}
    (hplain : PlainReader.trackedBranchesOf t l (PlainReader.remotesOf settings) = .ok tracked)
    (hfull : g.trackedBranches = .ok tracked') :
    (∀ e, e ∈ tracked ↔ e ∈ tracked') ↔ ∀ e ∈ tracked,
      RemoteTable.owner? settings (RefName.ofRemoteBranch e.remote e.name).text = some e.remote := by
  have howner (name : String) : g.owner name = RemoteTable.owner? settings name :=
    congrArg (GitRemotes.owner · name) hanswers
  have hmem {e : RemoteRef} := h.mem_trackedBranches_iff hfull (e := e)
  simp only [howner, ← lists_ofRemoteBranch_iff hlists] at hmem
  constructor
  · exact fun hsame e he => (hmem.1 ((hsame e).1 he)).2
  · intro howned e
    constructor
    · intro he
      exact hmem.2 ⟨((PlainReader.mem_trackedBranchesOf_iff hplain).1 he).1, howned e he⟩
    · intro he
      obtain ⟨hlisted, hown⟩ := hmem.1 he
      -- the plain reader lists the reference for some remote, and that is the owner
      obtain ⟨other, hother, heq⟩ :=
        PlainReader.exists_trackedRef hplain hlisted (RepositoryReader.owner?_eq_some hown)
      have hname : RefName.ofRemoteBranch other.remote other.name =
          .ofRemoteBranch e.remote e.name :=
        (Prod.mk.inj heq).1
      have hotherOwn := howned other hother
      rw [hname, hown] at hotherOwn
      exact PlainReader.eq_of_trackedRef heq (Option.some.inj hotherOwn).symm ▸ hother

/-- Where the plain reader lists what is stored and the library answers from the configuration, the
two readers list the same exactly when no local branch is symbolic, none tracks a remote without a
name, every remote-tracking branch is owned by the remote that it is listed for, and every remote
has the one address that the library gives it. -/
theorem Reads.same_iff_of_answers (h : g.Reads t l) (hlists : ListsStored t l)
    (hconfig : PlainReader.config t l = .ok settings)
    (hanswers : g.toGitRemotes = RepositoryReader.answers settings) {plain full : Listing}
    (hplain : PlainReader.listing t l = .ok plain) (hfull : g.listing = .ok full) :
    plain.Same full ↔
      (∀ b, ¬ IsRef t l (RefName.ofBranch b).text none) ∧
      (∀ e ∈ plain.locals, ¬ TracksNameless settings e.name) ∧
      (∀ e ∈ plain.tracked,
        RemoteTable.owner? settings (RefName.ofRemoteBranch e.remote e.name).text =
          some e.remote) ∧
      ∀ e ∈ plain.remotes, e.urls = RepositoryReader.addresses settings e.name := by
  obtain ⟨others, hothers, hlocals, htracked, hremotes⟩ := PlainReader.listing_eq_ok hplain
  obtain rfl := Except.ok.inj (hconfig.symm.trans hothers)
  obtain ⟨hlocals', htracked', hremotes'⟩ := listing_eq_ok hfull
  have htracks : (∀ e ∈ plain.locals,
      g.tracking (RefName.ofBranch e.name).text = .ok e.tracking) ↔
        ∀ e ∈ plain.locals, ¬ TracksNameless settings e.name := by
    rw [hanswers]
    exact forall₂_congr fun e he =>
      RepositoryReader.tracking_answers_iff (PlainReader.upstream_of_mem hlocals he)
  rw [hremotes] at htracked
  rw [hanswers] at hremotes'
  rw [Listing.same_iff, locals_same_iff hlocals hlocals', h.lists_iff_leadsTo hlists hlocals',
    htracks, h.tracked_same_iff_owned hlists hanswers htracked htracked',
    GitRemotes.remotes_same_iff hremotes', hremotes, RepositoryReader.gives_iff hremotes', and_assoc]

end GitLibrary

/-! ## References as git writes them -/

section

variable {t : FileTree} {l : Layout} {r : OpenRepository}

/-- The configuration that the plain reader loads is that of the opened repository. -/
theorem PlainReader.SharesFiles.config_eq {root : Path} (h : PlainReader.SharesFiles t l r)
    (hopen : RepositoryReader.openAt t root = .ok r) : PlainReader.config t l = .ok r.settings := by
  have hload := RepositoryReader.settings_of_openAt hopen
  rw [h.load] at hload
  unfold PlainReader.config
  split
  next => rw [hload, Except.mapError]
  next hfile =>
    -- what is no regular file cannot be read, so it has no settings
    cases hread : t.readFile l.config with
    | ok contents =>
      obtain ⟨place, hplace⟩ := FileTree.readFile_eq_ok_iff.1 hread
      rw [FileTree.isFile, FileTree.entry, hplace] at hfile
      exact absurd rfl hfile
    | error fault =>
      rw [GitConfig.load, hread] at hload
      rw [← Except.ok.inj hload]

/-- In a repository whose references are as git writes them, and whose branches with an id lead to
the commit of that id, the two readers list the same exactly when no local branch is symbolic, none
tracks a remote without a name, every remote-tracking branch is owned by the remote that it is
listed for, and every remote has the one address that it is answered with. -/
theorem RepositoryReader.same_iff_of_written {root : Path} (hopen : openAt t root = .ok r)
    (hshared : PlainReader.SharesFiles t l r) (hwritten : PlainReader.RefsWritten t l)
    (hpeels : ∀ kind entries, branches t r kind = .ok entries → ∀ found, .ok found ∈ entries →
      ∀ oid commit, found.target.oid? = some oid →
        RefDatabase.peelToCommit t r.gitDir r.commonDir found.target = .ok commit → commit = oid)
    {plain full : Listing} (hplain : PlainReader.listing t l = .ok plain)
    (hfull : listing t r = .ok full) :
    plain.Same full ↔
      (∀ b, ¬ IsRef t l (RefName.ofBranch b).text none) ∧
      (∀ e ∈ plain.locals, ¬ TracksNameless r.settings e.name) ∧
      (∀ e ∈ plain.tracked,
        RemoteTable.owner? r.settings (RefName.ofRemoteBranch e.remote e.name).text =
          some e.remote) ∧
      ∀ e ∈ plain.remotes, e.urls = addresses r.settings e.name := by
  obtain ⟨refs, hrefs⟩ := PlainReader.exists_listRefs hplain .own
  obtain ⟨packed, hpacked, -⟩ := PlainReader.leads_heads.mem_listRefs_iff hrefs
  exact (hwritten.reads hshared hpacked hpeels).same_iff_of_answers (hwritten.listsStored hplain)
    (hshared.config_eq hopen) rfl hplain hfull

end

/-! ## A clone that both readers list -/

/-- The id of a commit without parents. -/
def firstCommit : Oid := ⟨"09e5311d88c4416dd08c8755b5e4e79060fa99f5", by decide⟩

/-- The file of the commit, in one block that is not compressed. -/
def firstCommitFile : ByteArray :=
  ⟨#[0x78, 1, 1, 0x4f, 0, 0xb0, 0xff]⟩ ++
    ("commit 69\x00tree 1111111111111111111111111111111111111111\n" ++
      "author <>\ncommitter <>\n").toUTF8 ++
    ⟨#[0x1c, 0xe6, 0x14, 0x4a]⟩

/-- The packed reference of a clone. -/
def cloneRecord : PackedRefs.Record where
  name := "refs/remotes/origin/stable"
  oid := firstCommit
  peeled := none
  acceptable := NameProblem.find?_eq_none_iff.1 (by decide)
  unblanked := by
    have hnone : "refs/remotes/origin/stable".toList.any Text.isBlank = false := by decide
    exact fun c hc => Bool.eq_false_iff.2 (List.any_eq_false.1 hnone c hc)
  length := by decide
  peeledLength := by simp

/-- The packed file of a clone. -/
def clonePacked : ByteArray :=
  (linesText (["# pack-refs with: peeled "] ++
    [cloneRecord].flatMap PackedRefs.Record.lines)).toUTF8

/-- A clone with a packed branch of the remote and a loose one of its own, whose file is given. -/
def cloneWith (branch : String) (contents : ByteArray) : FileTree :=
  ((((FileTree.empty.place ["r", ".git", "HEAD"] (.file "ref: refs/heads/stable\n".toUTF8)).place
    ["r", ".git", "config"] (.file ("[remote \"origin\"]\n\turl = /o\n" ++
      "\tfetch = +refs/heads/*:refs/remotes/origin/*\n" ++
      "[branch \"stable\"]\n\tremote = origin\n\tmerge = refs/heads/stable\n").toUTF8)).place
    ["r", ".git", "packed-refs"] (.file clonePacked)).place
    ["r", ".git", "refs", "heads", branch] (.file contents)).place
    ["r", ".git", "objects", "09", "e5311d88c4416dd08c8755b5e4e79060fa99f5"] (.file firstCommitFile)

/-- The clone on a branch that tracks the one of the remote. -/
def stableClone : FileTree := cloneWith "stable" (linesText [firstCommit.text]).toUTF8

/-- The directories of the clone. -/
def clonedLayout : Layout := ⟨⟨"/r"⟩, ⟨"/r/.git"⟩, ⟨"/r/.git"⟩⟩

/-- The clone as an opened repository. -/
def clonedRepository : OpenRepository where
  gitDir := ⟨"/r/.git/"⟩
  commonDir := ⟨"/r/.git/"⟩
  workDir := ⟨"/r/"⟩
  settings :=
    [⟨Text.encode "remote.origin.url", some (Text.encode "/o")⟩,
      ⟨Text.encode "remote.origin.fetch", some (Text.encode "+refs/heads/*:refs/remotes/origin/*")⟩,
      ⟨Text.encode "branch.stable.remote", some (Text.encode "origin")⟩,
      ⟨Text.encode "branch.stable.merge", some (Text.encode "refs/heads/stable")⟩]

/-- The listing of a clone with the given local branches. -/
def clonedListing (locals : List LocalRef) : Listing where
  locals := locals
  tracked := [⟨"origin", ⟨"stable", by decide⟩, firstCommit⟩]
  remotes := [⟨"origin", ["/o"]⟩]

/-- The branch that tracks the one of the remote. -/
def clonedBranch : LocalRef :=
  ⟨⟨"stable", by decide⟩, firstCommit, some ⟨"origin", ⟨"stable", by decide⟩⟩⟩

/-- The clone with a branch that names the one of the remote. -/
def aliasClone : FileTree :=
  cloneWith "alias" (linesText ["ref: refs/remotes/origin/stable"]).toUTF8

/-- The symbolic branch with the commit that it leads to. -/
def clonedAlias : LocalRef := ⟨⟨"alias", by decide⟩, firstCommit, none⟩

/-- Where the file of the commit is, and there are no packs, the id stands for that commit. -/
theorem ObjectStore.commitOf_firstCommit {t : FileTree} {commonDir : Path}
    (hpacks : packs t (commonDir / "objects") = [])
    (h : t.readFile (objectFile (commonDir / "objects") firstCommit) = .ok firstCommitFile) :
    commitOf t commonDir firstCommit = .ok firstCommit := by
  have hloose : (readLoose t (commonDir / "objects") firstCommit).map (fun o =>
      (o.kind, isCommit o.body, decide (Digest.Sha1.digest o.bytes = firstCommit.text))) =
      .ok (.commit, true, true) := by
    unfold readLoose
    rw [h]
    decide +kernel
  obtain ⟨⟨kind, body⟩, hobject, heq⟩ := map_eq_ok.1 hloose
  obtain ⟨rfl, heq⟩ : kind = .commit ∧ _ := Prod.mk.inj heq
  obtain ⟨hcommit, hdigest⟩ := Prod.mk.inj heq
  have hfound : firstFound firstCommit (readers t commonDir) = .ok ⟨.commit, body⟩ := by
    have hpacked : readPacked t (commonDir / "objects") firstCommit = .error .notFound := by
      rw [readPacked, hpacks]
      rfl
    unfold readers
    simp only [List.cons_append, List.nil_append, firstFound, hpacked, hobject]
  have hread : readObject t commonDir firstCommit = .ok ⟨.commit, body⟩ := by
    have hzero : firstCommit.isZero = false := by decide
    rw [readObject, hzero, hfound]
    exact if_pos (of_decide_eq_true hdigest)
  unfold commitOf
  rw [hread]
  change (if isCommit body = true then Except.ok firstCommit else _) = _
  rw [if_pos hcommit]

theorem written_clonePacked : PackedRefs.Written clonePacked [cloneRecord] :=
  ⟨⟨_, by simp [IsLine, Text.startsWith, Text.after?, Text.charsAfter?], rfl⟩, by decide⟩

/-- What is found in a clone that has one branch of its own. -/
structure Cloned (t : FileTree) (branch : LocalRef) (target : RefTarget) : Prop where
  /-- The repository can be opened. -/
  opens : RepositoryReader.openAt t ⟨"/r"⟩ = .ok clonedRepository
  /-- The references are as git writes them. -/
  written : PlainReader.RefsWritten t clonedLayout
  /-- The packed file has the branch of the remote. -/
  packed : t.readFile clonedLayout.packedRefs = .ok clonePacked
  /-- There is no other branch of a remote. -/
  loose : PlainReader.looseFiles t clonedLayout RefName.remotes = []
  /-- There are no packs of objects. -/
  packs : ObjectStore.packs t (clonedRepository.commonDir / "objects") = []
  /-- The file of the commit is there. -/
  object : t.readFile (ObjectStore.objectFile (clonedRepository.commonDir / "objects")
    firstCommit) = .ok firstCommitFile
  /-- The reference of its own branch is handed out. -/
  own : RepositoryReader.branches t clonedRepository .own =
    .ok [.ok ⟨some (RefName.ofBranch branch.name).text, target⟩]
  /-- The reference of the branch of the remote is handed out. -/
  tracked : RepositoryReader.branches t clonedRepository .tracked =
    .ok [.ok ⟨some cloneRecord.name, .direct firstCommit none⟩]
  /-- Its own branch leads to the commit. -/
  resolved : RefDatabase.resolveTarget t clonedRepository.gitDir clonedRepository.commonDir target =
    .ok (firstCommit, none)

section

variable {t : FileTree} {branch : LocalRef} {target : RefTarget}

/-- A target that leads to the commit is followed to it. -/
theorem Cloned.peel (h : Cloned t branch target) {other : RefTarget}
    (hother : RefDatabase.resolveTarget t clonedRepository.gitDir clonedRepository.commonDir other =
      .ok (firstCommit, none)) :
    (RepositoryReader.library t clonedRepository).peel other = .ok firstCommit :=
  bind_eq_ok.2 ⟨_, hother, ObjectStore.commitOf_firstCommit h.packs h.object⟩

/-- The plain reader finds the packed reference of a clone. -/
theorem Cloned.packedRefs (h : Cloned t branch target) :
    PlainReader.packedRefs t clonedLayout = .ok [(cloneRecord.name, firstCommit)] := by
  obtain ⟨text, htext, hparse⟩ := written_clonePacked.parse clonedLayout.packedRefs
  have hread : t.readText clonedLayout.packedRefs = .ok text := bind_eq_ok.2 ⟨_, h.packed, htext⟩
  rw [PlainReader.packedRefs, PlainReader.readOptional, hread]
  exact hparse

/-- What is handed out of a clone is what is stored in it. -/
theorem Cloned.reads (h : Cloned t branch target) :
    (RepositoryReader.library t clonedRepository).Reads t clonedLayout := by
  have hshared : PlainReader.SharesFiles t clonedLayout clonedRepository :=
    PlainReader.sharesFiles_of_asDirectory (by decide) (by decide)
  refine h.written.reads hshared h.packedRefs fun kind entries hentries found hfound oid commit
    hoid hpeel => ?_
  -- every branch leads to the one commit, and one with an id has that of the commit
  have htarget : found.target = target ∨ found.target = .direct firstCommit none := by
    cases kind with
    | own =>
      obtain rfl := Except.ok.inj (h.own.symm.trans hentries)
      exact .inl (by rw [Except.ok.inj (List.mem_singleton.1 hfound)])
    | tracked =>
      obtain rfl := Except.ok.inj (h.tracked.symm.trans hentries)
      exact .inr (by rw [Except.ok.inj (List.mem_singleton.1 hfound)])
  have hresolved : RefDatabase.resolveTarget t clonedRepository.gitDir clonedRepository.commonDir
      found.target = .ok (firstCommit, none) := by
    rcases htarget with htarget | htarget
    · rw [htarget, h.resolved]
    · rw [htarget]
      rfl
  obtain rfl := Except.ok.inj ((h.peel hresolved).symm.trans hpeel)
  cases hdirect : found.target with
  | symbolic name => rw [hdirect] at hoid; cases hoid
  | direct other peeled =>
    rw [hdirect] at hoid hresolved
    obtain rfl := Option.some.inj hoid
    exact (Prod.mk.inj (Except.ok.inj hresolved)).1.symm

/-- The plain reader lists the packed reference of a clone. -/
theorem Cloned.plain (h : Cloned t branch target) {locals : List LocalRef}
    (hlocals : PlainReader.localBranchesOf t clonedLayout
      (PlainReader.tracking clonedLayout clonedRepository.settings) = .ok locals) :
    PlainReader.listing t clonedLayout = .ok (clonedListing locals) := by
  have hshared : PlainReader.SharesFiles t clonedLayout clonedRepository :=
    PlainReader.sharesFiles_of_asDirectory (by decide) (by decide)
  have hremotes : PlainReader.remotesOf clonedRepository.settings = [⟨"origin", ["/o"]⟩] := by
    decide +kernel
  have htracked : PlainReader.trackedBranchesOf t clonedLayout [⟨"origin", ["/o"]⟩] =
      .ok [⟨"origin", ⟨"stable", by decide⟩, firstCommit⟩] := by
    refine bind_eq_ok.2 ⟨_, PlainReader.listRefs_of_packed h.packedRefs h.loose, ?_⟩
    decide +kernel
  unfold PlainReader.listing PlainReader.listingOf
  rw [hshared.config_eq h.opens]
  change (PlainReader.localBranchesOf t clonedLayout
    (PlainReader.tracking clonedLayout clonedRepository.settings) >>= _) = _
  rw [hlocals, hremotes, htracked]
  rfl

/-- The repository reader lists both branches of a clone. -/
theorem Cloned.full (h : Cloned t branch target) (hoid : branch.oid = firstCommit)
    (htracking : (RepositoryReader.answers clonedRepository.settings).tracking
      (RefName.ofBranch branch.name).text = .ok branch.tracking) :
    RepositoryReader.listing t clonedRepository = .ok (clonedListing [branch]) := by
  have hlocals : (RepositoryReader.library t clonedRepository).localBranches = .ok [branch] :=
    GitLibrary.collect_singleton h.own
      (GitLibrary.localBranch_eq_ok_iff.2 ⟨rfl, hoid ▸ h.peel h.resolved, htracking⟩)
  have howner : RemoteTable.owner? clonedRepository.settings cloneRecord.name = some "origin" := by
    decide +kernel
  have htracked : (RepositoryReader.library t clonedRepository).trackedBranches =
      .ok [⟨"origin", ⟨"stable", by decide⟩, firstCommit⟩] :=
    GitLibrary.collect_singleton h.tracked
      (GitLibrary.trackedBranch_eq_ok_iff.2 ⟨rfl, rfl, howner, h.peel rfl⟩)
  have hremotes : (RepositoryReader.answers clonedRepository.settings).remotes =
      .ok [⟨"origin", ["/o"]⟩] := by
    decide +kernel
  exact bind_eq_ok.2 ⟨_, hlocals, bind_eq_ok.2 ⟨_, htracked, bind_eq_ok.2 ⟨_, hremotes, rfl⟩⟩⟩

end

/-- The references of a clone are as git writes them. -/
theorem refsWritten_cloned {t : FileTree} (names : List String) {contents : ByteArray}
    (hlinks : ∀ e ∈ t.entries, PlainReader.isLink e.2 = false)
    (hdirectory : t.resolve (PlainReader.looseDirectory clonedLayout "refs/") true =
      .ok (["r", ".git", "refs"], .directory))
    (hfiles : t.filesBelow ["r", ".git", "refs"] = [(names, contents)])
    (hpacked : t.readFile clonedLayout.packedRefs = .ok clonePacked)
    (hwritten : PlainReader.LooseWritten clonedLayout ("refs/" ++ PlainReader.along names)
      contents) : PlainReader.RefsWritten t clonedLayout := by
  refine ⟨PlainReader.unlinked_of_entries hlinks,
    fun location found contents' hfound hleaf => ?_, fun contents' hread => ?_⟩
  · obtain ⟨rfl, -⟩ := Prod.mk.inj (Except.ok.inj (hfound.symm.trans hdirectory))
    have hmem := FileTree.mem_filesBelow_iff.2 hleaf
    rw [hfiles, List.mem_singleton] at hmem
    obtain ⟨rfl, rfl⟩ := Prod.mk.inj hmem
    exact .inr hwritten
  · obtain rfl := Except.ok.inj (hread.symm.trans hpacked)
    exact ⟨[cloneRecord], written_clonePacked⟩

theorem cloned_stableClone : Cloned stableClone clonedBranch (.direct firstCommit none) where
  opens := by decide +kernel
  written := refsWritten_cloned ["heads", "stable"] (by decide +kernel) rfl (by decide +kernel) rfl
    ⟨NameProblem.find?_eq_none_iff.1 (by decide), by decide, _, .direct firstCommit (by decide)⟩
  packed := rfl
  loose := by decide +kernel
  packs := rfl
  object := rfl
  own := by decide +kernel
  tracked := by decide +kernel
  resolved := rfl

theorem cloned_aliasClone :
    Cloned aliasClone clonedAlias (.symbolic (Text.encode cloneRecord.name)) where
  opens := by decide +kernel
  written := refsWritten_cloned ["heads", "alias"] (by decide +kernel) rfl (by decide +kernel) rfl
    ⟨NameProblem.find?_eq_none_iff.1 (by decide), by decide, _,
      .symbolic "remotes/origin/stable" (NameProblem.find?_eq_none_iff.1 (by decide))⟩
  packed := rfl
  loose := by decide +kernel
  packs := rfl
  object := rfl
  own := by decide +kernel
  tracked := by decide +kernel
  resolved := by decide +kernel

/-- Both readers list the clone, whose library answers what is stored: no branch is symbolic, and
the library gives the remote that is listed. -/
theorem GitLibrary.listing_same_stableClone :
    (RepositoryReader.library stableClone clonedRepository).Reads stableClone clonedLayout ∧
      PlainReader.ListsStored stableClone clonedLayout ∧
      PlainReader.listing stableClone clonedLayout = .ok (clonedListing [clonedBranch]) ∧
      (RepositoryReader.library stableClone clonedRepository).listing =
        .ok (clonedListing [clonedBranch]) ∧
      (∀ b, ¬ IsRef stableClone clonedLayout (RefName.ofBranch b).text none) ∧
      (RepositoryReader.library stableClone clonedRepository).Gives
        (clonedListing [clonedBranch]).remotes := by
  have hreads := cloned_stableClone.reads
  have hlocals : PlainReader.localBranchesOf stableClone clonedLayout
      (PlainReader.tracking clonedLayout clonedRepository.settings) = .ok [clonedBranch] := by
    have hloose : (PlainReader.looseFiles stableClone clonedLayout RefName.heads).mapM
        (fun file => PlainReader.looseEntry? clonedLayout file.1 file.2) =
        .ok [some ("refs/heads/stable", some firstCommit)] := by
      decide +kernel
    refine bind_eq_ok.2
      ⟨_, PlainReader.listRefs_of_loose cloned_stableClone.packedRefs hloose, ?_⟩
    decide +kernel
  have hplain := cloned_stableClone.plain hlocals
  have hlists := cloned_stableClone.written.listsStored hplain
  have hfull : (RepositoryReader.library stableClone clonedRepository).listing =
      .ok (clonedListing [clonedBranch]) :=
    cloned_stableClone.full rfl (by decide +kernel)
  obtain ⟨-, hstored⟩ := GitLibrary.listing_same_iff hreads hplain hfull
  obtain ⟨hdirect, -, -, hgives⟩ := (hstored hlists).1 ⟨fun _ => .rfl, fun _ => .rfl, fun _ => .rfl⟩
  exact ⟨hreads, hlists, hplain, hfull, hdirect, hgives⟩

/-! ## A symbolic branch -/

/-- A library that answers what is stored is followed to the commit of a symbolic branch, which the
plain reader passes over. -/
theorem GitLibrary.listing_not_same_aliasClone :
    ∃ plain full, locate aliasClone ⟨"/r"⟩ = .ok clonedLayout ∧
      PlainReader.listing aliasClone clonedLayout = .ok plain ∧
      RepositoryReader.openAt aliasClone ⟨"/r"⟩ = .ok clonedRepository ∧
      (RepositoryReader.library aliasClone clonedRepository).Reads aliasClone clonedLayout ∧
      (RepositoryReader.library aliasClone clonedRepository).listing = .ok full ∧
      plain.locals = [] ∧ full.locals = [clonedAlias] ∧ ¬ plain.Same full := by
  have hlocate : locate aliasClone ⟨"/r"⟩ = .ok clonedLayout := by decide +kernel
  have hlocals : PlainReader.localBranchesOf aliasClone clonedLayout
      (PlainReader.tracking clonedLayout clonedRepository.settings) = .ok [] := by
    have hloose : (PlainReader.looseFiles aliasClone clonedLayout RefName.heads).mapM
        (fun file => PlainReader.looseEntry? clonedLayout file.1 file.2) =
        .ok [some ("refs/heads/alias", none)] := by
      decide +kernel
    refine bind_eq_ok.2
      ⟨_, PlainReader.listRefs_of_loose cloned_aliasClone.packedRefs hloose, ?_⟩
    decide +kernel
  refine ⟨_, _, hlocate, cloned_aliasClone.plain hlocals, cloned_aliasClone.opens,
    cloned_aliasClone.reads, cloned_aliasClone.full rfl (by decide +kernel), rfl, rfl,
    fun hsame => ?_⟩
  exact List.not_mem_nil ((hsame.locals clonedAlias).2 List.mem_cons_self)

end WorktreeTracker
