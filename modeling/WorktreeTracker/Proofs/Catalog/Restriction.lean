import WorktreeTracker.Proofs.Catalog.Conflict

/-!
# Narrowing the remotes

Options only take remotes away. Whether a branch has two commits, which entry of a branch counts and
what a local branch tracks are all decided after that. So a catalog built with options is the one
built without them, less the remote-tracking branches of the remotes that are not left in and the
links to these.
-/

namespace WorktreeTracker

namespace Catalog

variable {options : CatalogOptions} {root : Path} {listing : Listing} {c c' : BranchCollection}

/-! ## What the options leave in -/

theorem isAllowed_unrestricted (remote : String) : isAllowed .unrestricted remote = true := rfl

theorem isAllowed_some_iff {allowed : List String} {remote : String} :
    isAllowed ⟨some allowed⟩ remote = true ↔ remote ∈ allowed :=
  List.contains_iff_mem

/-- A listing without conflicts has none when fewer remotes count. -/
theorem Consistent.restricted (h : Consistent .unrestricted listing) (options : CatalogOptions) :
    Consistent options listing where
  tracked e he e' he' hremote _ := h.tracked e he e' he' hremote (isAllowed_unrestricted e.remote)
  locals := h.locals

/-- A catalog that is built without options is built with any. -/
theorem exists_build_restricted (h : build .unrestricted root listing = .ok c)
    (options : CatalogOptions) : ∃ c', build options root listing = .ok c' :=
  exists_build_iff.2 ((exists_build_iff.1 ⟨c, h⟩).restricted options)

/-! ## What is left in -/

/-- The local branches keep their commits. -/
theorem commit?_ofLocal_restricted (h : build .unrestricted root listing = .ok c)
    (h' : build options root listing = .ok c') (b : LocalBranch) :
    c'.commit? (.ofLocal b) = c.commit? (.ofLocal b) := by
  refine Option.ext fun oid => ?_
  rw [commit?_ofLocal_of_build h, commit?_ofLocal_of_build h']

/-- The remote-tracking branches of the remotes that are left in keep their commits, and the others
are gone. -/
theorem commit?_ofRemote_restricted (h : build .unrestricted root listing = .ok c)
    (h' : build options root listing = .ok c') (r : RemoteBranch) :
    c'.commit? (.ofRemote r) =
      if isAllowed options r.remote = true then c.commit? (.ofRemote r) else none := by
  refine Option.ext fun oid => ?_
  rw [commit?_ofRemote_of_build h']
  split
  next hallowed =>
    rw [commit?_ofRemote_of_build h]
    constructor
    · rintro ⟨e, he, hremote, -, hkey, hoid⟩
      exact ⟨e, he, hremote, isAllowed_unrestricted e.remote, hkey, hoid⟩
    · rintro ⟨e, he, hremote, -, rfl, hoid⟩
      exact ⟨e, he, hremote, hallowed, rfl, hoid⟩
  next hnot =>
    constructor
    · rintro ⟨e, -, -, hallowed, rfl, -⟩
      exact absurd hallowed hnot
    · intro hnone
      cases hnone

/-- The narrowed collection has the branches of the other one whose remotes are left in. -/
theorem contains_restricted (h : build .unrestricted root listing = .ok c)
    (h' : build options root listing = .ok c') (r : RemoteBranch) :
    c'.tracked.contains r = (c.tracked.contains r && isAllowed options r.remote) := by
  have hcommit : c'.tracked.find? r =
      if isAllowed options r.remote = true then c.tracked.find? r else none :=
    commit?_ofRemote_restricted h h' r
  rw [OrderedMap.contains, OrderedMap.contains, hcommit]
  split
  next hallowed => rw [hallowed, Bool.and_true]
  next hnot =>
    rw [Bool.eq_false_iff.2 hnot, Bool.and_false]
    rfl

/-- The local branches track what they did when its remote is left in, and nothing otherwise. -/
theorem tracking?_restricted (h : build .unrestricted root listing = .ok c)
    (h' : build options root listing = .ok c') (b : LocalBranch) :
    c'.tracking? b = (c.tracking? b).filter fun r => isAllowed options r.remote := by
  rw [tracking?_of_build h, tracking?_of_build h']
  -- the same entry of the branch counts in both, so only its own link is compared
  cases listing.locals.find? fun e => localKey e = b with
  | none => rfl
  | some e =>
    rw [Option.bind_some, Option.bind_some, linked?, linked?, Option.filter_filter]
    exact congrArg (Option.filter · _) (funext fun r => contains_restricted h h' r)

/-- Naming the remotes that count is a filter on what is built without naming them: whenever that is
built, the narrowed collection is built too, and it has the same local branches with their commits,
the remote-tracking branches of the named remotes with theirs and no others, and of the links from
local branches those to branches of the named remotes. A listing that is refused when the remotes
are named is refused without. -/
theorem build_restricted (root : Path) (listing : Listing) (allowed : List String) :
    (∀ c, build .unrestricted root listing = .ok c →
      ∃ c', build ⟨some allowed⟩ root listing = .ok c' ∧
        (∀ b, c'.commit? (.ofLocal b) = c.commit? (.ofLocal b)) ∧
        (∀ r, c'.commit? (.ofRemote r) =
          if r.remote ∈ allowed then c.commit? (.ofRemote r) else none) ∧
        ∀ b, c'.tracking? b = (c.tracking? b).filter fun r => decide (r.remote ∈ allowed)) ∧
      ∀ err, build ⟨some allowed⟩ root listing = .error err →
        ∃ err', build .unrestricted root listing = .error err' := by
  constructor
  · intro c h
    obtain ⟨c', h'⟩ := exists_build_restricted h ⟨some allowed⟩
    refine ⟨c', h', commit?_ofLocal_restricted h h', fun r => ?_, fun b => ?_⟩
    · rw [commit?_ofRemote_restricted h h']
      exact if_congr isAllowed_some_iff rfl rfl
    · rw [tracking?_restricted h h']
      refine congrArg (Option.filter · _) (funext fun r => ?_)
      rw [Bool.eq_iff_iff, isAllowed_some_iff, decide_eq_true_iff]
  · intro err herr
    cases h : build .unrestricted root listing with
    | error err' => exact ⟨err', rfl⟩
    | ok c =>
      obtain ⟨c', h'⟩ := exists_build_restricted h ⟨some allowed⟩
      cases h'.symm.trans herr

/-- A listing with a branch of each of two remotes, one of them listed twice, and a local branch
that tracks that one. -/
def twoRemotes : Listing where
  locals := [⟨.master, .ofNumber 1, some ⟨"origin", .master⟩⟩]
  tracked := [⟨"origin", .master, .ofNumber 2⟩, ⟨"upstream", .master, .ofNumber 3⟩,
    ⟨"origin", .master, .ofNumber 2⟩]
  remotes := [⟨"origin", []⟩, ⟨"upstream", []⟩]

/-- With the other remote alone the local branch stays and tracks nothing. -/
theorem build_restricted_twoRemotes :
    ∃ c c', build .unrestricted ⟨"/r"⟩ twoRemotes = .ok c ∧
      c.tracking? ⟨.master⟩ = some ⟨"origin", .master⟩ ∧
      build ⟨some ["upstream"]⟩ ⟨"/r"⟩ twoRemotes = .ok c' ∧
      c'.commit? (.ofLocal ⟨.master⟩) = some (.ofNumber 1) ∧
      c'.commit? (.ofRemote ⟨"origin", .master⟩) = none ∧
      c'.commit? (.ofRemote ⟨"upstream", .master⟩) = some (.ofNumber 3) ∧
      c'.tracking? ⟨.master⟩ = none := by
  have h : build .unrestricted ⟨"/r"⟩ twoRemotes = .ok
      ⟨.ofList [(⟨.master⟩, ⟨.ofNumber 1, some ⟨"origin", .master⟩⟩)],
        .ofList [(⟨"origin", .master⟩, .ofNumber 2), (⟨"upstream", .master⟩, .ofNumber 3)]⟩ := by
    decide +kernel
  obtain ⟨c', h', hlocal, hremote, htracking⟩ :=
    (build_restricted ⟨"/r"⟩ twoRemotes ["upstream"]).1 _ h
  refine ⟨_, c', h, by decide, h', ?_, ?_, ?_, ?_⟩
  · rw [hlocal]
    decide
  · rw [hremote]
    decide
  · rw [hremote]
    decide
  · rw [htracking]
    decide

end Catalog

end WorktreeTracker
