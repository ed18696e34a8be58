import WorktreeTracker.Proofs.Fingerprint
import WorktreeTracker.Proofs.Name
import WorktreeTracker.Proofs.ObjectId
import WorktreeTracker.Proofs.OrderedMap
import WorktreeTracker.Snapshot

/-!
# What a fingerprint shows of a snapshot

A fingerprint is made from texts, and not everything in a snapshot has a text of its own. A tracked
branch is shown with its remote in front, so `a/b` with `c` and `a` with `b/c` look the same. The
counts of a rebase are shown only when both are known. Everything else is told apart, unless the
name of a remote holds one of the marks that separate the texts.
-/

namespace WorktreeTracker

/-! ## Texts after a blank -/

/-- A text with another one after a blank, when there is one. -/
def spaced (a : String) (b : Option String) : String :=
  a ++ (b.map (" " ++ ·)).getD ""

theorem toList_spaced_some (a b : String) :
    (spaced a (some b)).toList = a.toList ++ ' ' :: b.toList := by
  simp [spaced]

theorem toList_spaced_none (a : String) : (spaced a none).toList = a.toList := by
  simp [spaced]

/-- Without a blank in it the first text is told from the second. -/
theorem spaced_inj {a a' : String} {b b' : Option String} (ha : ' ' ∉ a.toList)
    (ha' : ' ' ∉ a'.toList) : spaced a b = spaced a' b' ↔ a = a' ∧ b = b' := by
  refine ⟨fun h => ?_, fun ⟨h, h'⟩ => by rw [h, h']⟩
  rw [← String.toList_inj] at h
  cases b with
  | none =>
    cases b' with
    | none =>
      rw [toList_spaced_none, toList_spaced_none] at h
      exact ⟨String.toList_inj.1 h, rfl⟩
    | some d' =>
      rw [toList_spaced_none, toList_spaced_some] at h
      exact absurd (h ▸ List.mem_append_right _ List.mem_cons_self) ha
  | some d =>
    cases b' with
    | none =>
      rw [toList_spaced_none, toList_spaced_some] at h
      exact absurd (h ▸ List.mem_append_right _ List.mem_cons_self) ha'
    | some d' =>
      rw [toList_spaced_some, toList_spaced_some] at h
      obtain ⟨hfirst, hsecond⟩ := Fingerprint.append_cons_inj ha ha' h
      exact ⟨String.toList_inj.1 hfirst, congrArg some (String.toList_inj.1 hsecond)⟩

/-- An id that may be missing is told from its text, which is empty when it is. -/
theorem textOrEmpty_inj {a b : Option Oid}
    (h : (a.map Oid.text).getD "" = (b.map Oid.text).getD "") : a = b := by
  cases a with
  | none =>
    cases b with
    | none => rfl
    | some b => exact absurd h.symm b.text_ne_empty
  | some a =>
    cases b with
    | none => exact absurd h a.text_ne_empty
    | some b => rw [Oid.text_inj h]

namespace Head

/-- A HEAD on a branch is recorded as the branch and its commit. -/
theorem fingerprintValue_of_branch (b : BranchName) (revision : Option Oid) :
    fingerprintValue ⟨some b, revision⟩ = "ref: " ++ spaced b.text (revision.map Oid.text) := by
  cases revision with
  | none => simp [fingerprintValue, spaced, toString]
  | some oid => simp [fingerprintValue, spaced, toString, String.append_assoc]

/-- What is recorded of HEAD tells it. -/
theorem fingerprintValue_inj {h h' : Head} (heq : h.fingerprintValue = h'.fingerprintValue) :
    h = h' := by
  have mark (b : BranchName) (revision : Option Oid) :
      'r' ∈ (fingerprintValue ⟨some b, revision⟩).toList := by
    rw [fingerprintValue_of_branch, String.toList_append]
    exact List.mem_append_left _ (by decide)
  have nomark (revision : Option Oid) : 'r' ∉ (fingerprintValue ⟨none, revision⟩).toList := by
    cases revision with
    | none => simp [fingerprintValue]
    | some oid => exact oid.not_mem_of_not_isHexDigit (by decide)
  obtain ⟨branch, revision⟩ := h
  obtain ⟨branch', revision'⟩ := h'
  cases branch with
  | none =>
    cases branch' with
    | none =>
      have htext : (revision.map Oid.text).getD "" = (revision'.map Oid.text).getD "" := by
        cases revision <;> cases revision' <;> exact heq
      rw [textOrEmpty_inj htext]
    | some b' => exact absurd (heq ▸ mark b' revision') (nomark revision)
  | some b =>
    cases branch' with
    | none => exact absurd (heq ▸ mark b revision) (nomark revision')
    | some b' =>
      rw [fingerprintValue_of_branch, fingerprintValue_of_branch, String.append_right_inj] at heq
      obtain ⟨hname, hrevision⟩ := (spaced_inj b.space_not_mem b'.space_not_mem).1 heq
      rw [BranchName.text_inj hname, Option.map_injective (fun _ _ => Oid.text_inj) hrevision]

end Head

/-! ## What is shown -/

namespace Snapshot

/-- The branches, HEAD and the operation in progress: what a change event is about. -/
def view (s : Snapshot) : BranchCollection × Head × OperationState :=
  (s.branches, s.head, s.state)

/-- The bytes that the fingerprint of a refreshed snapshot is the digest of. -/
def hashed (s : Snapshot) : List UInt8 :=
  Fingerprint.encoding (fingerprintEntries s.branches s.head s.state)

/-- What is shown of a local branch: its commit and the branch it tracks, as displayed. -/
def shownLocal (e : LocalEntry) : Oid × Option String :=
  (e.oid, e.tracking.map RemoteBranch.display)

/-- The commits of the remote-tracking branches that are displayed as `name`, in the order of the
collection. -/
def shownTracked (s : Snapshot) (name : String) : List Oid :=
  (s.branches.tracked.entries.filter fun e => e.1.display = name).map Prod.snd

/-- Two snapshots are shown in the same way: they have the same local branches with the same commits
and the same displayed upstreams, the same commits under each displayed remote-tracking branch, the
same HEAD and the same displayed operation. -/
structure LooksLike (p q : Snapshot) : Prop where
  /-- The local branches are shown in the same way. -/
  locals : ∀ b, (p.branches.locals.find? b).map shownLocal =
    (q.branches.locals.find? b).map shownLocal
  /-- The remote-tracking branches are shown in the same way. -/
  tracked : ∀ name, p.shownTracked name = q.shownTracked name
  /-- HEAD is the same. -/
  head : p.head = q.head
  /-- The operation is displayed in the same way. -/
  state : p.state.display = q.state.display

/-- No remote is named with a mark that separates the texts of a fingerprint. -/
structure Plain (s : Snapshot) : Prop where
  /-- The remotes of remote-tracking branches are named without zero characters. -/
  tracked : ∀ e ∈ s.branches.tracked.entries, '\x00' ∉ e.1.remote.toList
  /-- The remotes of tracked branches are named without newlines. -/
  upstream : ∀ e ∈ s.branches.locals.entries, ∀ b, e.2.tracking = some b → '\n' ∉ b.remote.toList

/-! ## The entries of a fingerprint by name -/

open Fingerprint (named)

/-- The entry of a local branch is told by what is shown of it. -/
theorem localFingerprint_eq (b : LocalBranch) (e : LocalEntry) :
    localFingerprint (b, e) =
      ((RefName.ofBranch b.name).text, spaced (shownLocal e).1.text (shownLocal e).2) := by
  obtain ⟨oid, tracking⟩ := e
  cases tracking with
  | none => simp [localFingerprint, spaced, shownLocal]
  | some u => simp [localFingerprint, spaced, shownLocal]

/-- The entry of a remote-tracking branch is told by how it is displayed. -/
theorem trackedFingerprint_eq (e : RemoteBranch × Oid) :
    trackedFingerprint e = (RefName.remotes ++ e.1.display, e.2.text) := by
  simp only [trackedFingerprint, RefName.ofRemoteBranch, RemoteBranch.display, String.append_assoc]

/-- Local branches of one name have the same entry when the same is shown of them. -/
theorem map_localFingerprint_eq_iff {b : LocalBranch} {x y : Option LocalEntry} :
    (x.map fun e => localFingerprint (b, e)) = (y.map fun e => localFingerprint (b, e)) ↔
      x.map shownLocal = y.map shownLocal := by
  let entryOf (shown : Oid × Option String) : String × String :=
    ((RefName.ofBranch b.name).text, spaced shown.1.text shown.2)
  have hentry (z : Option LocalEntry) :
      (z.map fun e => localFingerprint (b, e)) = (z.map shownLocal).map entryOf := by
    rw [Option.map_map]
    exact congrArg (Option.map · z) (funext fun e => localFingerprint_eq b e)
  have hinj : Function.Injective entryOf := by
    rintro ⟨oid, tracking⟩ ⟨oid', tracking'⟩ h
    have hspace (oid : Oid) : ' ' ∉ oid.text.toList := oid.not_mem_of_not_isHexDigit (by decide)
    obtain ⟨hoid, htracking⟩ := (spaced_inj (hspace oid) (hspace oid')).1 (Prod.mk.inj h).2
    exact Prod.ext (Oid.text_inj hoid) htracking
  rw [hentry, hentry]
  exact (Option.map_injective hinj).eq_iff

theorem ofBranch_text_inj {a b : LocalBranch}
    (h : (RefName.ofBranch a.name).text = (RefName.ofBranch b.name).text) : a = b := by
  have hname : a.name = b.name := BranchName.text_inj ((String.append_right_inj _).1 h)
  cases a
  cases b
  simpa using hname

/-- The references of local branches and of remote-tracking branches are told apart by their sixth
character. -/
theorem ofBranch_text_ne (b : BranchName) (display : String) :
    (RefName.ofBranch b).text ≠ RefName.remotes ++ display := by
  intro heq
  have hsixth := congrArg (fun s => s.toList[5]?) heq
  simp only [RefName.ofBranch, String.toList_append] at hsixth
  rw [List.getElem?_append_left (by decide), List.getElem?_append_left (by decide)] at hsixth
  exact absurd hsixth (by decide)

theorem length_ofBranch_text (b : BranchName) : 5 < (RefName.ofBranch b).text.toList.length := by
  have hheads : RefName.heads.toList.length = 11 := by decide
  rw [RefName.ofBranch, String.toList_append, List.length_append]
  omega

theorem length_remotes_append (x : String) : 5 < (RefName.remotes ++ x).toList.length := by
  have hremotes : RefName.remotes.toList.length = 13 := by decide
  rw [String.toList_append, List.length_append]
  omega

/-- The local part of the entries. -/
theorem named_map_localFingerprint (c : BranchCollection) (b : LocalBranch) :
    named (RefName.ofBranch b.name).text (c.locals.entries.map localFingerprint) =
      ((c.locals.find? b).map fun e => localFingerprint (b, e)).toList := by
  have hkey (e : LocalBranch × LocalEntry) :
      (localFingerprint e).1 = (RefName.ofBranch b.name).text ↔ e.1 = b :=
    ⟨ofBranch_text_inj, fun h => h ▸ rfl⟩
  rw [named, List.filter_map]
  simp only [Function.comp_def, hkey]
  rw [OrderedMap.filter_key]
  cases c.locals.find? b <;> rfl

theorem named_map_localFingerprint_of_ne (c : BranchCollection) {name : String}
    (h : ∀ b : LocalBranch, name ≠ (RefName.ofBranch b.name).text) :
    named name (c.locals.entries.map localFingerprint) = [] := by
  rw [named, List.filter_eq_nil_iff]
  intro entry hentry heq
  obtain ⟨e, -, rfl⟩ := List.mem_map.1 hentry
  exact h e.1 (of_decide_eq_true heq).symm

/-- The remote-tracking part of the entries. -/
theorem named_map_trackedFingerprint (s : Snapshot) (display : String) :
    named (RefName.remotes ++ display) (s.branches.tracked.entries.map trackedFingerprint) =
      (s.shownTracked display).map fun oid => (RefName.remotes ++ display, oid.text) := by
  have hkey (e : RemoteBranch × Oid) :
      (trackedFingerprint e).1 = RefName.remotes ++ display ↔ e.1.display = display := by
    rw [trackedFingerprint_eq]
    exact String.append_right_inj _
  rw [named, List.filter_map, shownTracked, List.map_map]
  simp only [Function.comp_def, hkey]
  refine List.map_congr_left fun e he => ?_
  rw [trackedFingerprint_eq, of_decide_eq_true (List.mem_filter.1 he).2]

theorem named_map_trackedFingerprint_of_ne (c : BranchCollection) {name : String}
    (h : ∀ display, name ≠ RefName.remotes ++ display) :
    named name (c.tracked.entries.map trackedFingerprint) = [] := by
  rw [named, List.filter_eq_nil_iff]
  intro entry hentry heq
  obtain ⟨e, -, rfl⟩ := List.mem_map.1 hentry
  rw [trackedFingerprint_eq] at heq
  exact h _ (of_decide_eq_true heq).symm

/-- The other entries have names of at most five characters. -/
theorem named_others_of_length {name : String} (h : 5 < name.toList.length) (x y : String) :
    named name [("HEAD", x), ("STATE", y)] = [] := by
  have hhead : "HEAD" ≠ name := by
    rintro rfl
    exact absurd h (by decide)
  have hstate : "STATE" ≠ name := by
    rintro rfl
    exact absurd h (by decide)
  simp [named, hhead, hstate]

/-- The entries of one name, part by part. -/
theorem named_fingerprintEntries (s : Snapshot) (name : String) :
    named name (fingerprintEntries s.branches s.head s.state) =
      named name (s.branches.locals.entries.map localFingerprint) ++
        named name (s.branches.tracked.entries.map trackedFingerprint) ++
        named name [("HEAD", s.head.fingerprintValue), ("STATE", s.state.display)] := by
  simp only [fingerprintEntries, named, List.filter_append]

/-- The entries under the reference of a local branch. -/
theorem named_heads (s : Snapshot) (b : LocalBranch) :
    named (RefName.ofBranch b.name).text (fingerprintEntries s.branches s.head s.state) =
      ((s.branches.locals.find? b).map fun e => localFingerprint (b, e)).toList := by
  rw [named_fingerprintEntries, named_map_localFingerprint,
    named_map_trackedFingerprint_of_ne _ (ofBranch_text_ne b.name),
    named_others_of_length (length_ofBranch_text b.name), List.append_nil, List.append_nil]

/-- The entries under the reference of a displayed remote-tracking branch. -/
theorem named_remotes (s : Snapshot) (display : String) :
    named (RefName.remotes ++ display) (fingerprintEntries s.branches s.head s.state) =
      (s.shownTracked display).map fun oid => (RefName.remotes ++ display, oid.text) := by
  rw [named_fingerprintEntries, named_map_trackedFingerprint,
    named_map_localFingerprint_of_ne _ fun b => (ofBranch_text_ne b.name display).symm,
    named_others_of_length (length_remotes_append display), List.append_nil, List.nil_append]

/-- The entries under a short name are that of HEAD or of the operation. -/
theorem named_others (s : Snapshot) {name : String} (h : name.toList.length ≤ 5) :
    named name (fingerprintEntries s.branches s.head s.state) =
      named name [("HEAD", s.head.fingerprintValue), ("STATE", s.state.display)] := by
  have hlocal (b : LocalBranch) : name ≠ (RefName.ofBranch b.name).text := by
    rintro rfl
    exact absurd h (Nat.not_le.2 (length_ofBranch_text b.name))
  have htracked (display : String) : name ≠ RefName.remotes ++ display := by
    rintro rfl
    exact absurd h (Nat.not_le.2 (length_remotes_append display))
  rw [named_fingerprintEntries, named_map_localFingerprint_of_ne _ hlocal,
    named_map_trackedFingerprint_of_ne _ htracked, List.append_nil, List.nil_append]

/-- The entries of every name are the same exactly when the snapshots are shown in the same way. -/
theorem named_eq_iff_looksLike {p q : Snapshot} :
    (∀ name, named name (fingerprintEntries p.branches p.head p.state) =
        named name (fingerprintEntries q.branches q.head q.state)) ↔ p.LooksLike q := by
  constructor
  · intro h
    constructor
    case locals =>
      intro b
      have hb := h (RefName.ofBranch b.name).text
      rw [named_heads, named_heads] at hb
      have hfirst := congrArg List.head? hb
      rw [Option.head?_toList, Option.head?_toList] at hfirst
      exact map_localFingerprint_eq_iff.1 hfirst
    case tracked =>
      intro display
      have hd := h (RefName.remotes ++ display)
      rw [named_remotes, named_remotes] at hd
      exact List.map_injective_iff.2 (fun _ _ heq => Oid.text_inj (Prod.mk.inj heq).2) hd
    case head =>
      have hh := h "HEAD"
      rw [named_others p (by decide), named_others q (by decide)] at hh
      simp only [named, List.filter_cons] at hh
      exact Head.fingerprintValue_inj (by simpa using hh)
    case state =>
      have hs := h "STATE"
      rw [named_others p (by decide), named_others q (by decide)] at hs
      simp only [named, List.filter_cons] at hs
      simpa using hs
  · intro h name
    rw [named_fingerprintEntries, named_fingerprintEntries, h.head, h.state]
    -- the parts for HEAD and the operation agree, so the other two are left
    congr 2
    · by_cases hname : ∃ b : LocalBranch, name = (RefName.ofBranch b.name).text
      · obtain ⟨b, rfl⟩ := hname
        rw [named_map_localFingerprint, named_map_localFingerprint,
          map_localFingerprint_eq_iff.2 (h.locals b)]
      · rw [not_exists] at hname
        rw [named_map_localFingerprint_of_ne _ hname, named_map_localFingerprint_of_ne _ hname]
    · by_cases hname : ∃ display, name = RefName.remotes ++ display
      · obtain ⟨display, rfl⟩ := hname
        rw [named_map_trackedFingerprint, named_map_trackedFingerprint, h.tracked]
      · rw [not_exists] at hname
        rw [named_map_trackedFingerprint_of_ne _ hname, named_map_trackedFingerprint_of_ne _ hname]

/-! ## What is hashed -/

theorem not_mem_display {b : RemoteBranch} {c : Char} (hcontrol : Text.isControl c = true)
    (hremote : c ∉ b.remote.toList) : c ∉ b.display.toList := by
  have hslash : c ∉ "/".toList := by
    intro hc
    obtain rfl := List.mem_singleton.1 hc
    exact absurd hcontrol (by decide)
  simp only [RemoteBranch.display, String.toList_append, List.mem_append, not_or]
  exact ⟨⟨hremote, hslash⟩, b.name.not_mem_of_isControl hcontrol⟩

theorem newline_not_mem_spaced {a : String} {b : Option String} (ha : '\n' ∉ a.toList)
    (hb : ∀ d, b = some d → '\n' ∉ d.toList) : '\n' ∉ (spaced a b).toList := by
  cases b with
  | none => rwa [toList_spaced_none]
  | some d =>
    rw [toList_spaced_some, List.mem_append, List.mem_cons, not_or, not_or]
    exact ⟨ha, by decide, hb d rfl⟩

theorem newline_not_mem_oid (oid : Oid) : '\n' ∉ oid.text.toList :=
  oid.not_mem_of_not_isHexDigit (by decide)

/-- What is recorded of HEAD is one line. -/
theorem newline_not_mem_fingerprintValue (h : Head) : '\n' ∉ h.fingerprintValue.toList := by
  obtain ⟨branch, revision⟩ := h
  cases branch with
  | none =>
    cases revision with
    | none => exact List.not_mem_nil
    | some oid => exact newline_not_mem_oid oid
  | some b =>
    rw [Head.fingerprintValue_of_branch, String.toList_append, List.mem_append, not_or]
    refine ⟨by decide, newline_not_mem_spaced (b.not_mem_of_isControl (by decide)) ?_⟩
    intro d hd
    obtain ⟨oid, -, rfl⟩ := Option.map_eq_some_iff.1 hd
    exact newline_not_mem_oid oid

theorem newline_not_mem_toString (n : Nat) : '\n' ∉ (toString n).toList := by
  intro hc
  have hdigit := Nat.isDigit_of_mem_toDigits (by decide) (by decide) (Nat.toList_repr ▸ hc)
  exact absurd hdigit (by decide)

/-- An operation is displayed in one line. -/
theorem newline_not_mem_display (state : OperationState) : '\n' ∉ state.display.toList := by
  have hname : '\n' ∉ "rebase".toList := by decide
  cases state with
  | rebase current total =>
    cases current with
    | none => exact hname
    | some current =>
      cases total with
      | none => exact hname
      | some total =>
        have hdisplay : (OperationState.rebase (some current) (some total)).display =
            "rebase (" ++ toString current ++ "/" ++ toString total ++ ")" := by
          simp [OperationState.display, toString, String.append_assoc]
        rw [hdisplay]
        simp only [String.toList_append, List.mem_append, not_or]
        exact ⟨⟨⟨⟨by decide, newline_not_mem_toString current⟩, by decide⟩,
          newline_not_mem_toString total⟩, by decide⟩
  | _ => decide

/-- The entries of a snapshot with plain remotes are plain. -/
theorem Plain.fingerprintEntries {s : Snapshot} (h : s.Plain) :
    Fingerprint.Plain (Snapshot.fingerprintEntries s.branches s.head s.state) := by
  intro entry hentry
  rw [Snapshot.fingerprintEntries, List.mem_append, List.mem_append] at hentry
  rcases hentry with (hlocal | htracked) | hother
  · obtain ⟨⟨b, e⟩, he, rfl⟩ := List.mem_map.1 hlocal
    rw [localFingerprint_eq]
    refine ⟨?_, newline_not_mem_spaced (newline_not_mem_oid _) ?_⟩
    · rw [RefName.ofBranch, String.toList_append, List.mem_append, not_or]
      exact ⟨by decide, b.name.not_mem_of_isControl (by decide)⟩
    · intro d hd
      obtain ⟨u, hu, rfl⟩ := Option.map_eq_some_iff.1 hd
      exact not_mem_display (by decide) (h.upstream _ he u hu)
  · obtain ⟨e, he, rfl⟩ := List.mem_map.1 htracked
    rw [trackedFingerprint_eq]
    refine ⟨?_, newline_not_mem_oid _⟩
    rw [String.toList_append, List.mem_append, not_or]
    exact ⟨by decide, not_mem_display (by decide) (h.tracked e he)⟩
  · rcases List.mem_cons.1 hother with rfl | hstate
    · have hname : '\x00' ∉ "HEAD".toList := by decide
      exact ⟨hname, newline_not_mem_fingerprintValue _⟩
    · obtain rfl := List.mem_singleton.1 hstate
      have hname : '\x00' ∉ "STATE".toList := by decide
      exact ⟨hname, newline_not_mem_display _⟩

/-- Without branches the two other entries are hashed, in their order. -/
theorem hashed_of_empty {s : Snapshot} (h : s.branches = .empty) :
    s.hashed = [("HEAD", s.head.fingerprintValue), ("STATE", s.state.display)].flatMap
      Fingerprint.encodeEntry := by
  rw [hashed, h, Fingerprint.encoding]
  show (Fingerprint.sorted [("HEAD", _), ("STATE", _)]).flatMap _ = _
  have hle : "HEAD" ≤ "STATE" := by decide
  rw [Fingerprint.sorted_of_pairwise (List.pairwise_pair.2 hle)]

/-- The same bytes are hashed for snapshots with plain remotes exactly when they are shown in the
same way. -/
theorem hashed_eq_iff {p q : Snapshot} (hp : p.Plain) (hq : q.Plain) :
    p.hashed = q.hashed ↔ p.LooksLike q :=
  (Fingerprint.encoding_eq_iff hp.fingerprintEntries hq.fingerprintEntries).trans
    named_eq_iff_looksLike

end Snapshot

end WorktreeTracker
