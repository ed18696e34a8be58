import Mathlib.Data.List.Nodup
import WorktreeTracker.Proofs.Catalog.Lookup
import WorktreeTracker.Proofs.PlainReader.References

/-!
# Listings of the plain reader

A listing names every reference that was found once: the local branches are the references below
`refs/heads/`, the remote-tracking branches those below `refs/remotes/` that a configured remote
fits. The longest remote that fits owns the reference, and the rest of the name is always a branch
name. So the collection built from a listing has each of these references and no other branch.
-/

namespace WorktreeTracker.PlainReader

/-! ## The remote that owns a reference -/

/-- Whether a reference is one of a remote: its name goes on with that of the remote. -/
def fits (name : RefName) (remote : String) : Bool :=
  Text.startsWith (RefName.remotes ++ remote ++ "/") name.text

/-- A remote fits the names that go on with a slash after it. -/
theorem fits_iff {name : RefName} {rest remote : String}
    (hname : name.text = RefName.remotes ++ rest) :
    fits name remote = true ↔ ∃ short, rest = remote ++ "/" ++ short := by
  rw [fits, Text.startsWith, Option.isSome_iff_exists]
  refine exists_congr fun short => ?_
  rw [Text.after?_eq_some_iff, hname, String.append_assoc, String.append_assoc, String.append_assoc,
    String.append_right_inj]

/-- The names of the remotes come by decreasing length. -/
theorem pairwise_byLength (remotes : List Remote) :
    (byLength remotes).Pairwise fun a b => b.utf8ByteSize ≤ a.utf8ByteSize := by
  have hsorted : (byLength remotes).Pairwise
      fun a b => decide (b.utf8ByteSize ≤ a.utf8ByteSize) = true := by
    refine List.pairwise_mergeSort (fun a b c hab hbc => ?_) (fun a b => ?_) _
    · simp only [decide_eq_true_eq] at hab hbc ⊢
      exact Nat.le_trans hbc hab
    · simp only [Bool.or_eq_true, decide_eq_true_eq]
      exact Nat.le_total _ _
  exact hsorted.imp of_decide_eq_true

theorem mem_byLength {remotes : List Remote} {name : String} :
    name ∈ byLength remotes ↔ name ∈ remotes.map Remote.name :=
  List.mem_mergeSort

/-- The owner of a reference is the longest of the remotes that fit it. -/
theorem owner?_eq_some {remotes : List Remote} {rest remote short : String}
    (h : owner? (byLength remotes) rest = some (remote, short)) :
    rest = remote ++ "/" ++ short ∧ remote ∈ remotes.map Remote.name ∧
      ∀ other ∈ remotes.map Remote.name, (∃ short, rest = other ++ "/" ++ short) →
        other.utf8ByteSize ≤ remote.utf8ByteSize := by
  obtain ⟨longer, first, shorter, hsplit, hfirst, hlonger⟩ := List.findSome?_eq_some_iff.1 h
  obtain ⟨found, hfound, heq⟩ := Option.map_eq_some_iff.1 hfirst
  obtain ⟨rfl, rfl⟩ := Prod.mk.inj heq
  have hsorted := pairwise_byLength remotes
  rw [hsplit] at hsorted
  refine ⟨Text.after?_bind_after?_eq_some_iff.1 hfound, ?_, ?_⟩
  · rw [← mem_byLength, hsplit]
    exact List.mem_append_right _ List.mem_cons_self
  · rintro other hother ⟨otherShort, hfits⟩
    rw [← mem_byLength, hsplit, List.mem_append, List.mem_cons] at hother
    rcases hother with hother | rfl | hother
    · -- a longer remote that fits would have been taken first
      have hnone := hlonger other hother
      rw [Text.after?_bind_after?_eq_some_iff.2 hfits] at hnone
      cases hnone
    · exact Nat.le_refl _
    · exact (List.pairwise_cons.1 (List.pairwise_append.1 hsorted).2.1).1 other hother

/-- A reference without an owner is one that no remote fits. -/
theorem owner?_eq_none {remotes : List Remote} {rest : String}
    (h : owner? (byLength remotes) rest = none) :
    ∀ remote ∈ remotes.map Remote.name, ¬ ∃ short, rest = remote ++ "/" ++ short := by
  rintro remote hremote ⟨short, hfits⟩
  have hnone := List.findSome?_eq_none_iff.1 h remote (mem_byLength.2 hremote)
  rw [Text.after?_bind_after?_eq_some_iff.2 hfits] at hnone
  cases hnone

/-! ## Branches of listed references -/

/-- The reference of a listed local branch, with its commit. -/
def localRef (e : LocalRef) : RefName × Oid := (.ofBranch e.name, e.oid)

/-- The reference of a listed remote-tracking branch, with its commit. -/
def trackedRef (e : RemoteRef) : RefName × Oid := (.ofRemoteBranch e.remote e.name, e.oid)

/-- A text that keeps the rules is the name of a branch. -/
theorem toOption_ofRef {name : String} (h : NameProblem.Keeps name) :
    (BranchName.ofRef name).toOption = some ⟨name, NameProblem.find?_eq_none_iff.2 h⟩ := by
  rw [BranchName.ofRef_eq_ok]
  rfl

/-- A reference below `refs/heads/` is listed as the branch of the rest of its name. -/
theorem localBranch_eq_ok {upstream : Upstream} {name : RefName} {oid : Oid} {rest : String}
    {found : Option LocalRef} (hname : name.text = RefName.heads ++ rest)
    (hrest : NameProblem.Keeps rest) (h : localBranch upstream name oid = .ok found) :
    found.map localRef = some (name, oid) := by
  unfold localBranch RefName.after? at h
  rw [hname, Text.after?_append, Option.bind_some, toOption_ofRef hrest] at h
  obtain ⟨tracking, -, rfl⟩ := map_eq_ok.1 h
  obtain ⟨text⟩ := name
  obtain rfl : text = RefName.heads ++ rest := hname
  rfl

/-- A reference below `refs/remotes/` is listed when a remote fits it, as the branch of the rest of
its name on the longest such remote. -/
theorem trackedBranch?_cases (remotes : List Remote) {name : RefName} (oid : Oid) {rest : String}
    (hname : name.text = RefName.remotes ++ rest) (hrest : NameProblem.Keeps rest) :
    (trackedBranch? (byLength remotes) name oid = none ∧
        ∀ remote ∈ remotes.map Remote.name, fits name remote = false) ∨
      ∃ e, trackedBranch? (byLength remotes) name oid = some e ∧ trackedRef e = (name, oid) ∧
        e.remote ∈ remotes.map Remote.name ∧ fits name e.remote = true ∧
        ∀ remote ∈ remotes.map Remote.name, fits name remote = true →
          remote.utf8ByteSize ≤ e.remote.utf8ByteSize := by
  have hafter : name.after? RefName.remotes = some rest := by
    rw [RefName.after?, hname, Text.after?_append]
  unfold trackedBranch?
  rw [hafter, Option.bind_eq_bind, Option.bind_some]
  cases howner : owner? (byLength remotes) rest with
  | none =>
    refine .inl ⟨rfl, fun remote hremote => ?_⟩
    rw [← Bool.not_eq_true, fits_iff hname]
    exact owner?_eq_none howner remote hremote
  | some found =>
    obtain ⟨remote, short⟩ := found
    obtain ⟨rfl, hmem, hlongest⟩ := owner?_eq_some howner
    refine .inr ⟨⟨remote, ⟨short, NameProblem.find?_eq_none_iff.2 hrest.of_join⟩, oid⟩, ?_, ?_, hmem,
      (fits_iff hname).2 ⟨short, rfl⟩, ?_⟩
    · show (BranchName.ofRef short).toOption.bind _ = _
      rw [toOption_ofRef hrest.of_join]
      rfl
    · obtain ⟨text⟩ := name
      obtain rfl : text = RefName.remotes ++ (remote ++ "/" ++ short) := hname
      simp [trackedRef, RefName.ofRemoteBranch, String.append_assoc]
    · exact fun other hother hfits => hlongest other hother ((fits_iff hname).1 hfits)

/-! ## Listings -/

/-- The names of references start with `lead`, and what comes after is a branch name. -/
def Named (lead : String) (refs : List (RefName × Oid)) : Prop :=
  ∀ r ∈ refs, ∃ rest, r.1.text = lead ++ rest ∧ NameProblem.Keeps rest

/-- Every reference below `refs/heads/` gives a local branch. -/
theorem map_localRef {upstream : Upstream} {refs : List (RefName × Oid)}
    {branches : List (Option LocalRef)} (hnamed : Named RefName.heads refs)
    (h : List.Forall₂ (fun r found => localBranch upstream r.1 r.2 = .ok found) refs branches) :
    (branches.filterMap id).map localRef = refs := by
  induction h with
  | nil => rfl
  | @cons r found refs branches hfound _ ih =>
    obtain ⟨rest, hrest, hkeeps⟩ := hnamed r List.mem_cons_self
    obtain ⟨e, rfl, he⟩ := Option.map_eq_some_iff.1 (localBranch_eq_ok hrest hkeeps hfound)
    have hsome : id (some e) = some e := rfl
    rw [List.filterMap_cons_some hsome, List.map_cons, he,
      ih fun other hother => hnamed other (List.mem_cons_of_mem _ hother)]

/-- Every reference below `refs/remotes/` that a remote fits gives a remote-tracking branch. -/
theorem map_trackedRef {remotes : List Remote} {refs : List (RefName × Oid)}
    (hnamed : Named RefName.remotes refs) :
    (refs.filterMap fun r => trackedBranch? (byLength remotes) r.1 r.2).map trackedRef =
      refs.filter fun r => (remotes.map Remote.name).any (fits r.1) := by
  induction refs with
  | nil => rfl
  | cons r refs ih =>
    obtain ⟨rest, hrest, hkeeps⟩ := hnamed r List.mem_cons_self
    have hlater := ih fun other hother => hnamed other (List.mem_cons_of_mem _ hother)
    rcases trackedBranch?_cases remotes r.2 hrest hkeeps with
      ⟨hnone, hfits⟩ | ⟨e, hsome, he, hmem, hfits, -⟩
    · simp only [List.filterMap_cons, hnone]
      rw [List.filter_cons_of_neg, hlater]
      rw [Bool.not_eq_true, List.any_eq_false]
      exact fun remote hremote => Bool.not_eq_true _ ▸ hfits remote hremote
    · simp only [List.filterMap_cons, hsome]
      rw [List.filter_cons_of_pos, List.map_cons, he, hlater]
      exact List.any_eq_true.2 ⟨e.remote, hmem, hfits⟩

variable {t : FileTree} {l : Layout}

/-- The references that are found have names to make branches of. -/
theorem Leads.named_listRefs {dir lead : String} (h : Leads dir lead) {refs : List (RefName × Oid)}
    (hlist : listRefs t l lead = .ok refs) : Named lead refs := by
  rintro ⟨name, oid⟩ hmem
  obtain ⟨rest, hrest, -, hkeeps⟩ := h.mem_listRefs hlist hmem
  exact ⟨rest, hrest, hkeeps⟩

/-- The references that are found are different. -/
theorem nodup_listRefs {lead : String} {refs : List (RefName × Oid)}
    (h : listRefs t l lead = .ok refs) : (refs.map Prod.fst).Nodup := by
  obtain ⟨entries, -, rfl⟩ := listRefs_eq_ok h
  exact nodup_directRefs _

/-- The local branches of a listing are the references below `refs/heads/`. -/
theorem localBranchesOf_eq_ok {upstream : Upstream} {locals : List LocalRef}
    (h : localBranchesOf t l upstream = .ok locals) :
    listRefs t l RefName.heads = .ok (locals.map localRef) := by
  obtain ⟨refs, hrefs, h⟩ := bind_eq_ok.1 h
  obtain ⟨branches, hbranches, h⟩ := bind_eq_ok.1 h
  obtain rfl := Except.ok.inj h
  rw [hrefs, map_localRef (leads_heads.named_listRefs hrefs) (mapM_eq_ok hbranches)]

/-- No local branch is listed twice. -/
theorem nodup_localBranchesOf {upstream : Upstream} {locals : List LocalRef}
    (h : localBranchesOf t l upstream = .ok locals) : (locals.map Catalog.localKey).Nodup := by
  have hnodup := nodup_listRefs (localBranchesOf_eq_ok h)
  have hfactor : Prod.fst ∘ localRef =
      (fun b : LocalBranch => RefName.ofBranch b.name) ∘ Catalog.localKey := rfl
  rw [List.map_map, hfactor, ← List.map_map] at hnodup
  exact List.Nodup.of_map _ hnodup

/-- The remote-tracking branches of a listing are the references below `refs/remotes/` that a remote
fits, each of the longest such remote. -/
theorem trackedBranchesOf_eq_ok {remotes : List Remote} {tracked : List RemoteRef}
    (h : trackedBranchesOf t l remotes = .ok tracked) :
    ∃ refs, listRefs t l RefName.remotes = .ok refs ∧
      tracked.map trackedRef =
        refs.filter (fun r => (remotes.map Remote.name).any (fits r.1)) ∧
      ∀ e ∈ tracked, e.remote ∈ remotes.map Remote.name ∧
        ∀ remote ∈ remotes.map Remote.name, fits (trackedRef e).1 remote = true →
          remote.utf8ByteSize ≤ e.remote.utf8ByteSize := by
  obtain ⟨refs, hrefs, h⟩ := bind_eq_ok.1 h
  obtain rfl := Except.ok.inj h
  have hnamed := leads_remotes.named_listRefs hrefs
  refine ⟨refs, hrefs, map_trackedRef hnamed, fun e he => ?_⟩
  obtain ⟨r, hmem, hsome⟩ := List.mem_filterMap.1 he
  obtain ⟨rest, hrest, hkeeps⟩ := hnamed r hmem
  rcases trackedBranch?_cases remotes r.2 hrest hkeeps with
    ⟨hnone, -⟩ | ⟨e', hsome', he', hmem', -, hlongest⟩
  · cases hnone.symm.trans hsome
  · obtain rfl := Option.some.inj (hsome'.symm.trans hsome)
    rw [he']
    exact ⟨hmem', hlongest⟩

/-- No two remote-tracking branches of a listing have one reference. -/
theorem nodup_trackedBranchesOf {remotes : List Remote} {tracked : List RemoteRef}
    (h : trackedBranchesOf t l remotes = .ok tracked) :
    (tracked.map fun e => (trackedRef e).1).Nodup := by
  obtain ⟨refs, hrefs, hmap, -⟩ := trackedBranchesOf_eq_ok h
  have hnodup : ((tracked.map trackedRef).map Prod.fst).Nodup := by
    rw [hmap]
    exact (nodup_listRefs hrefs).sublist (List.filter_sublist.map _)
  rwa [List.map_map] at hnodup

/-- No remote-tracking branch is listed twice. -/
theorem nodup_trackedKey {remotes : List Remote} {tracked : List RemoteRef}
    (h : trackedBranchesOf t l remotes = .ok tracked) :
    (tracked.map Catalog.trackedKey).Nodup := by
  have hnodup := nodup_trackedBranchesOf h
  have hfactor : (fun e => (trackedRef e).1) =
      (fun b : RemoteBranch => RefName.ofRemoteBranch b.remote b.name) ∘ Catalog.trackedKey := rfl
  rw [hfactor, ← List.map_map] at hnodup
  exact List.Nodup.of_map _ hnodup

/-- The collection built from a listing never has a conflict. Its local branches are the references
below `refs/heads/`, and its remote-tracking branches those below `refs/remotes/` that a configured
remote fits, with the same commits; each belongs to the longest remote that fits it and is named by
the rest. No reference is lost and no branch comes from anywhere else, whatever remotes and tracked
branches the configuration names. -/
theorem build_listing {remotes : List Remote} {upstream : Upstream} {listing : Listing}
    (h : listingOf t l remotes upstream = .ok listing) (root : Path) :
    ∃ heads tracked c, listRefs t l RefName.heads = .ok heads ∧
      listRefs t l RefName.remotes = .ok tracked ∧
      Catalog.build .unrestricted root listing = .ok c ∧
      (c.locals.entries.map fun e => (RefName.ofBranch e.1.name, e.2.oid)).Perm heads ∧
      (c.tracked.entries.map fun e => (RefName.ofRemoteBranch e.1.remote e.1.name, e.2)).Perm
        (tracked.filter fun r => (remotes.map Remote.name).any (fits r.1)) ∧
      ∀ e ∈ c.tracked.entries, e.1.remote ∈ remotes.map Remote.name ∧
        ∀ remote ∈ remotes.map Remote.name,
          fits (RefName.ofRemoteBranch e.1.remote e.1.name) remote = true →
            remote.utf8ByteSize ≤ e.1.remote.utf8ByteSize := by
  obtain ⟨locals, hlocals, h⟩ := bind_eq_ok.1 h
  obtain ⟨trackedRefs, htracked, h⟩ := bind_eq_ok.1 h
  obtain rfl := Except.ok.inj h
  have hheads := localBranchesOf_eq_ok hlocals
  obtain ⟨refs, hrefs, hmap, howner⟩ := trackedBranchesOf_eq_ok htracked
  -- the references are different, so the branches made of them are
  obtain ⟨c, hc, hpermLocals, hpermTracked⟩ := Catalog.build_of_nodup root
    ⟨locals, trackedRefs, remotes⟩ (fun e he => (howner e he).1) (nodup_trackedKey htracked)
    (nodup_localBranchesOf hlocals)
  refine ⟨_, refs, c, hheads, hrefs, hc, ?_, ?_, ?_⟩
  · have hperm := hpermLocals.map fun e => (RefName.ofBranch e.1.name, e.2)
    rwa [List.map_map, List.map_map] at hperm
  · have hperm := hpermTracked.map fun e => (RefName.ofRemoteBranch e.1.remote e.1.name, e.2)
    rw [List.map_map] at hperm
    exact hmap ▸ hperm
  · intro e he
    obtain ⟨r, hr, rfl⟩ := List.mem_map.1 (hpermTracked.mem_iff.1 he)
    exact howner r hr

/-- The reference of a remote-tracking branch is told by how the branch is shown. -/
theorem trackedRef_fst (e : RemoteRef) :
    (trackedRef e).1 = ⟨RefName.remotes ++ (Catalog.trackedKey e).display⟩ := by
  simp [trackedRef, RefName.ofRemoteBranch, Catalog.trackedKey, RemoteBranch.display,
    String.append_assoc]

/-- Every branch of a listing is reached under its name, whatever remotes the options leave in: a
reference belongs to one remote only, so no two remote-tracking branches are shown alike. -/
theorem lookups_of_listing {remotes : List Remote} {upstream : Upstream} {listing : Listing}
    (h : listingOf t l remotes upstream = .ok listing) (options : CatalogOptions) (root : Path) :
    ∃ c, Catalog.build options root listing = .ok c ∧
      (∀ b ∈ c.locals.keys, c.findLocal? b.display = some b ∧
        c.localCommit? b.display = c.commit? (.ofLocal b)) ∧
      ∀ r ∈ c.tracked.keys, c.findRemote? r.display = some r ∧
        c.remoteCommit? r.display = c.commit? (.ofRemote r) := by
  obtain ⟨locals, hlocals, h⟩ := bind_eq_ok.1 h
  obtain ⟨tracked, htracked, h⟩ := bind_eq_ok.1 h
  obtain rfl := Except.ok.inj h
  have hconsistent : Catalog.Consistent options ⟨locals, tracked, remotes⟩ := by
    constructor
    · intro e he e' he' _ _ hkey
      rw [List.inj_on_of_nodup_map (nodup_trackedKey htracked) he he' hkey]
    · intro e he e' he' hkey
      rw [List.inj_on_of_nodup_map (nodup_localBranchesOf hlocals) he he' hkey]
  have honce : Catalog.ShownOnce options ⟨locals, tracked, remotes⟩ := by
    intro e he e' he' _ _ hdisplay
    have hsame : (trackedRef e).1 = (trackedRef e').1 := by
      rw [trackedRef_fst, trackedRef_fst, hdisplay]
    exact congrArg Catalog.trackedKey
      (List.inj_on_of_nodup_map (nodup_trackedBranchesOf htracked) he he' hsame)
  obtain ⟨c, hc⟩ := Catalog.exists_build_iff.2 hconsistent
  have honce' := (Catalog.shownOnce_of_build hc).2 honce
  refine ⟨c, hc, fun b hb => ⟨?_, ?_⟩, fun r hr => honce'.reached hr⟩
  · exact BranchCollection.findLocal?_eq_some_iff.2 ⟨hb, rfl⟩
  · exact BranchCollection.localCommit?_display hb

/-! ## A clone with nested remotes -/

/-- The tree with a loose reference to the commit of the given number. -/
def withRef (t : FileTree) (names : Location) (n : Nat) : FileTree :=
  t.place (["r", ".git"] ++ names) (.file ((Oid.ofNumber n).text ++ "\n").toUTF8)

/-- A clone with a local branch, a branch of `team/eu` and a reference of an unknown remote. -/
def sharedClone : FileTree :=
  withRef (withRef (withRef .empty ["refs", "heads", "main"] 1)
    ["refs", "remotes", "team", "eu", "main"] 2) ["refs", "remotes", "gone", "main"] 3

/-- The directories of the clone. -/
def sharedLayout : Layout := ⟨⟨"/r"⟩, ⟨"/r/.git"⟩, ⟨"/r/.git"⟩⟩

/-- A remote, and another one in it. -/
def nestedRemotes : List Remote := [⟨"team", []⟩, ⟨"team/eu", []⟩]

/-- The branch belongs to the inner remote, and the reference of the unknown remote is no branch. -/
theorem build_listing_nested_remotes :
    ∃ listing c,
      listingOf sharedClone sharedLayout nestedRemotes (fun _ => .ok none) =
        .ok listing ∧
      Catalog.build .unrestricted ⟨"/r"⟩ listing = .ok c ∧
      (c.locals.entries.map fun e => (RefName.ofBranch e.1.name, e.2.oid)) =
        [(⟨"refs/heads/main"⟩, .ofNumber 1)] ∧
      (c.tracked.entries.map fun e => (RefName.ofRemoteBranch e.1.remote e.1.name, e.2)) =
        [(⟨"refs/remotes/team/eu/main"⟩, .ofNumber 2)] ∧
      ∀ e ∈ c.tracked.entries, e.1.remote = "team/eu" := by
  have hheads : listRefs sharedClone sharedLayout RefName.heads =
      .ok [(⟨"refs/heads/main"⟩, .ofNumber 1)] := by
    decide +kernel
  have htracked : listRefs sharedClone sharedLayout RefName.remotes =
      .ok [(⟨"refs/remotes/gone/main"⟩, .ofNumber 3),
        (⟨"refs/remotes/team/eu/main"⟩, .ofNumber 2)] := by
    decide +kernel
  have hlocals : localBranchesOf sharedClone sharedLayout (fun _ => .ok none) =
      .ok [⟨⟨"main", by decide⟩, .ofNumber 1, none⟩] := by
    decide +kernel
  obtain ⟨branches, hbranches⟩ : ∃ branches, trackedBranchesOf sharedClone sharedLayout
      nestedRemotes = .ok branches := ⟨_, bind_eq_ok.2 ⟨_, htracked, rfl⟩⟩
  have hlisting : listingOf sharedClone sharedLayout nestedRemotes (fun _ => .ok none) =
      .ok ⟨_, branches, nestedRemotes⟩ :=
    bind_eq_ok.2 ⟨_, hlocals, bind_eq_ok.2 ⟨_, hbranches, rfl⟩⟩
  obtain ⟨heads, tracked, c, hheads', htracked', hc, hpermLocals, hpermTracked, howner⟩ :=
    build_listing hlisting ⟨"/r"⟩
  obtain rfl := Except.ok.inj (hheads.symm.trans hheads')
  obtain rfl := Except.ok.inj (htracked.symm.trans htracked')
  have hfits : ([(⟨"refs/remotes/gone/main"⟩, .ofNumber 3),
      (⟨"refs/remotes/team/eu/main"⟩, .ofNumber 2)] : List (RefName × Oid)).filter
        (fun r => (nestedRemotes.map Remote.name).any (fits r.1)) =
      [(⟨"refs/remotes/team/eu/main"⟩, .ofNumber 2)] := by
    decide +kernel
  rw [hfits] at hpermTracked
  refine ⟨_, c, hlisting, hc, List.perm_singleton.1 hpermLocals,
    List.perm_singleton.1 hpermTracked, ?_⟩
  intro e he
  have hname : RefName.ofRemoteBranch e.1.remote e.1.name = ⟨"refs/remotes/team/eu/main"⟩ :=
    (Prod.mk.inj (List.mem_singleton.1 (hpermTracked.mem_iff.1 (List.mem_map_of_mem he)))).1
  -- of the two remotes that fit the name, the shorter one is not its owner
  obtain ⟨hmem, hlongest⟩ := howner e he
  have hsize := hlongest "team/eu" (by decide) (by rw [hname]; decide +kernel)
  rcases List.mem_pair.1 hmem with hteam | hteam
  · rw [hteam] at hsize
    exact absurd hsize (by decide)
  · exact hteam

end WorktreeTracker.PlainReader
