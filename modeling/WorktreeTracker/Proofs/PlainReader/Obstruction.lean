import WorktreeTracker.Proofs.FileTree.Refusal
import WorktreeTracker.Proofs.PlainReader.SymbolicChain

/-!
# Branches that are listed and not resolved

A listing walks the regular files below a directory, and a lookup opens the path of one. Whatever
else is at the path or on the way to it does not concern the walk, and the lookup falls back to the
packed references only when something is missing. So a branch that is listed, or could be created,
cannot be resolved when a directory has the place of its file, when a regular file has the place of
a directory on the way, or when a name is too long.
-/

namespace WorktreeTracker.PlainReader

variable {t : FileTree} {l : Layout} {b : BranchName} {place : Location}

/-! ## Names of a reference -/

theorem keeps_ofBranch (b : BranchName) : NameProblem.Keeps (RefName.ofBranch b).text :=
  NameProblem.find?_eq_none_iff.1 (find?_ofBranch b)

theorem relative_ofBranch (b : BranchName) : Path.Relative (RefName.ofBranch b).text :=
  relative_of_keeps (keeps_ofBranch b)

/-- The names that lead from the shared directory to the file of a branch. -/
theorem splitOn_ofBranch (b : BranchName) :
    Text.splitOn '/' (RefName.ofBranch b).text = "refs" :: "heads" :: branchNames b := by
  have hdirectory : Text.splitOn '/' "refs/heads" = ["refs", "heads"] := by decide
  have hname : (RefName.ofBranch b).text = "refs/heads" ++ "/" ++ b.text := by
    have hlead : "refs/heads" ++ "/" = RefName.heads := leads_heads.joined
    rw [hlead]
    rfl
  rw [hname, Text.splitOn_append, hdirectory]
  rfl

/-- The name of a reference goes on after its first names. -/
theorem exists_append_along {front back : List String} (hne : front ≠ [])
    (hsplit : Text.splitOn '/' (RefName.ofBranch b).text = front ++ back) :
    ∃ more, (RefName.ofBranch b).text = along front ++ more := by
  have hname := Text.intercalate_splitOn (RefName.ofBranch b).text
  rw [hsplit] at hname
  rw [← hname]
  by_cases hback : back = []
  · exact ⟨"", by rw [hback, List.append_nil, String.append_empty]⟩
  · exact ⟨"/" ++ along back, by rw [Text.intercalate_append hne hback, String.append_assoc]⟩

/-! ## The shared directory -/

theorem text_div_ne_empty {rel : String} (p : Path) (hrel : Path.Relative rel) (hne : rel ≠ "") :
    (p / rel).text ≠ "" := by
  obtain ⟨lead, htext⟩ := FileTree.exists_text_div p
  rw [htext rel hrel]
  simp [hne]

/-- When the packed file is read or missing, the shared directory is there or missing. -/
theorem anchor_of_packedRefs (hfree : t.LinkFree) {packed : List (String × Oid)}
    (h : packedRefs t l = .ok packed) :
    FileTree.IsPlainText l.packedRefs.text ∧
      (t.anchor l.commonDir = .error .notFound ∨
        ∃ place, t.anchor l.commonDir = .ok (place, .directory)) := by
  have hread {fault : Fault} (hfault : t.resolve l.packedRefs true = .error fault) :
      fault = .notFound := by
    obtain ⟨text?, hread, -⟩ := bind_eq_ok.1 h
    rcases readOptional_eq_ok hread with ⟨text, htext, -⟩ | ⟨hmissing, -⟩
    · obtain ⟨place, contents, hresolve, -⟩ := FileTree.readText_eq_ok_iff.1 htext
      cases hresolve.symm.trans hfault
    · rw [FileTree.readText_eq_notFound_iff, hfault] at hmissing
      exact Except.error.inj hmissing
  have hrel : Path.Relative "packed-refs" := by decide
  have hplain : FileTree.IsPlainText l.packedRefs.text := by
    have hne : l.packedRefs.text ≠ "" := text_div_ne_empty l.commonDir hrel (by decide)
    rcases FileTree.text_of_resolve (t := t) hne with ⟨fault, hfault, hrefused⟩ | hplain
    · exact absurd (hread hrefused) hfault
    · exact hplain
  refine ⟨hplain, ?_⟩
  rcases FileTree.goesOn_anchor (t := t) hrel hplain with
    ⟨fault, hshort, hlong⟩ | ⟨place, entry, left, hshort, hentry, hlong⟩
  · obtain rfl := hread hlong
    exact .inl hshort
  · cases entry with
    | directory => exact .inr ⟨place, hshort⟩
    | link target => exact absurd hentry (hfree place target)
    | file contents =>
      -- a file in its place would have been reported for the packed file
      have hstops : t.Stops left place ([] ++ (Path.mk "packed-refs").pieces) .notADirectory :=
        .atFile (Text.splitOn_ne_nil _) (by rw [FileTree.followLinks_nil, hentry])
      cases hread (hlong.trans hstops.followLinks_eq)

/-- Nothing is found in a shared directory that is missing. -/
theorem resolve_ne_ok_of_anchor {p : Path} {fault : Fault} (h : t.anchor p = .error fault)
    {rel : String} (hrel : Path.Relative rel) (found : FileTree.Found) :
    t.resolve (p / rel) true ≠ .ok found := by
  intro hfound
  have hgoes := FileTree.goesOn_anchor (t := t) hrel (FileTree.isPlainText_of_resolve hfound)
  rw [h] at hgoes
  cases hgoes.error.symm.trans hfound

/-- The path of the file of a branch can be looked up unless it is too long. -/
theorem isPlainText_branchFile (hplain : FileTree.IsPlainText l.packedRefs.text)
    (hsize : (branchFile l b).text.utf8ByteSize < FileTree.pathLengthLimit) :
    FileTree.IsPlainText (branchFile l b).text := by
  have hrel := relative_ofBranch b
  refine ⟨text_div_ne_empty _ hrel (by simp [RefName.ofBranch, RefName.heads]), ?_, hsize⟩
  obtain ⟨lead, htext⟩ := FileTree.exists_text_div l.commonDir
  have hzero := hplain.2.1
  rw [Layout.packedRefs, htext _ (by decide), String.toList_append, List.mem_append] at hzero
  rw [branchFile, Layout.looseRef, htext _ hrel, String.toList_append, List.mem_append]
  rintro (hlead | hname)
  · exact hzero (.inl hlead)
  · exact absurd ((keeps_ofBranch b).control _ hname) (by decide)

/-- The first names of a reference are followed from the shared directory. -/
theorem resolve_along (hfree : t.LinkFree) {entry : Entry}
    (hanchor : t.anchor l.commonDir = .ok (place, entry))
    (hplain : FileTree.IsPlainText (branchFile l b).text) {front back : List String}
    (hne : front ≠ []) (hsplit : Text.splitOn '/' (RefName.ofBranch b).text = front ++ back) :
    t.resolve (l.looseRef (along front)) true =
      t.followLinks true FileTree.linkLimit place front := by
  have hpieces : (Path.mk (along front)).pieces = front := by
    refine Text.splitOn_intercalate (fun part hpart => ?_) hne
    have hmem : part ∈ Text.splitOn '/' (RefName.ofBranch b).text := by
      rw [hsplit]
      exact List.mem_append_left _ hpart
    exact Text.not_mem_of_mem_splitOn hmem
  obtain ⟨more, hmore⟩ := exists_append_along hne hsplit
  have hnonempty : along front ≠ "" := by
    intro hempty
    have hfirst : front = [""] := by
      rw [← hpieces, hempty]
      rfl
    rw [splitOn_ofBranch, hfirst] at hsplit
    exact absurd (List.head_eq_of_cons_eq hsplit) (by decide)
  have hrel : Path.Relative (along front ++ more) := hmore ▸ relative_ofBranch b
  rw [branchFile, Layout.looseRef, hmore] at hplain
  rw [Layout.looseRef, hfree.resolve_div hanchor (FileTree.relative_of_append hrel)
    (FileTree.isPlainText_of_append hnonempty hrel hplain), hpieces]

/-! ## What obstructs a lookup -/

variable (t l b) in
/-- The first names of a reference are those of a regular file, and its own file would be below
that. -/
def BelowFile : Prop :=
  ∃ front back, (RefName.ofBranch b).text = front ++ "/" ++ back ∧
    t.isFile (l.looseRef front) = true

variable (t l b) in
/-- The path of the file of a reference is too long, or one of the names is that is looked up in a
directory. -/
def TooLong : Prop :=
  FileTree.pathLengthLimit ≤ (branchFile l b).text.utf8ByteSize ∨
    ∃ front part back, Text.splitOn '/' (RefName.ofBranch b).text = front ++ part :: back ∧
      maxNameLength < part.utf8ByteSize ∧ t.isDirectory (l.looseRef (along front)) = true

/-- A name that is too long is not the first of a reference. -/
theorem front_ne_nil {front back : List String} {part : String}
    (hsplit : Text.splitOn '/' (RefName.ofBranch b).text = front ++ part :: back)
    (hlong : maxNameLength < part.utf8ByteSize) : front ≠ [] := by
  rintro rfl
  rw [splitOn_ofBranch] at hsplit
  obtain rfl : "refs" = part := List.head_eq_of_cons_eq hsplit
  exact absurd hlong (by decide)

/-- The names of a reference lead to a place where they stop exactly when a regular file or a name
that is too long is on the way. -/
theorem stops_iff (hfree : t.LinkFree)
    (hanchor : t.anchor l.commonDir = .ok (place, .directory))
    (hplain : FileTree.IsPlainText (branchFile l b).text) :
    (∃ fault, t.Stops FileTree.linkLimit place (Text.splitOn '/' (RefName.ofBranch b).text) fault) ↔
      BelowFile t l b ∨ TooLong t l b := by
  constructor
  · rintro ⟨fault, hstops⟩
    generalize hnames : Text.splitOn '/' (RefName.ofBranch b).text = names at hstops
    cases hstops with
    | @atFile front back found contents hback hfront =>
      have hne : front ≠ [] := by
        rintro rfl
        have hplace : t.entryAt? place = some .directory := FileTree.entryAt?_of_followLinks hanchor
        rw [FileTree.followLinks_nil, hplace] at hfront
        cases hfront
      refine .inl ⟨along front, along back, ?_, ?_⟩
      · rw [← Text.intercalate_append hne hback, ← hnames, Text.intercalate_splitOn]
      · rw [FileTree.isFile_iff, resolve_along hfree hanchor hplain hne hnames]
        exact ⟨found, contents, hfront⟩
    | @atLongName front back part found hlong hfront =>
      refine .inr (.inr ⟨front, part, back, hnames, hlong, ?_⟩)
      rw [FileTree.isDirectory_iff,
        resolve_along hfree hanchor hplain (front_ne_nil hnames hlong) hnames]
      exact ⟨found, hfront⟩
  · rintro (⟨front, back, hname, hfile⟩ | hsize | ⟨front, part, back, hnames, hlong, hdirectory⟩)
    · have hnames : Text.splitOn '/' (RefName.ofBranch b).text =
          Text.splitOn '/' front ++ Text.splitOn '/' back := by
        rw [hname, Text.splitOn_append]
      have hresolve := resolve_along hfree hanchor hplain (Text.splitOn_ne_nil front) hnames
      rw [along_splitOn] at hresolve
      obtain ⟨found, contents, hfound⟩ := FileTree.isFile_iff.1 hfile
      rw [hnames]
      exact ⟨_, .atFile (Text.splitOn_ne_nil back) (hresolve.symm.trans hfound)⟩
    · exact absurd hplain.2.2 (Nat.not_lt_of_le hsize)
    · have hresolve := resolve_along hfree hanchor hplain (front_ne_nil hnames hlong) hnames
      obtain ⟨found, hfound⟩ := FileTree.isDirectory_iff.1 hdirectory
      rw [hnames]
      exact ⟨_, .atLongName hlong (hresolve.symm.trans hfound)⟩

/-- Without links the path of the file of a branch is refused, other than for a missing name,
exactly when a regular file or a name that is too long is on the way. -/
theorem refused_iff (hfree : t.LinkFree) {packed : List (String × Oid)}
    (hpacked : packedRefs t l = .ok packed) :
    (∃ fault, t.resolve (branchFile l b) true = .error fault ∧ fault ≠ .notFound) ↔
      BelowFile t l b ∨ TooLong t l b := by
  have hrel := relative_ofBranch b
  obtain ⟨hpackedPlain, hanchor⟩ := anchor_of_packedRefs hfree hpacked
  by_cases hsize : FileTree.pathLengthLimit ≤ (branchFile l b).text.utf8ByteSize
  · refine iff_of_true ?_ (.inr (.inl hsize))
    have hne : (branchFile l b).text ≠ "" := text_div_ne_empty _ hrel (by simp [RefName.ofBranch,
      RefName.heads])
    rcases FileTree.text_of_resolve (t := t) hne with ⟨fault, hfault, hrefused⟩ | hplain
    · exact ⟨fault, hrefused, hfault⟩
    · exact absurd hplain.2.2 (Nat.not_lt_of_le hsize)
  have hplain := isPlainText_branchFile hpackedPlain (Nat.lt_of_not_le hsize)
  rcases hanchor with hmissing | ⟨place, hanchor⟩
  · -- nothing is found in the shared directory, so nothing stands in the way either
    refine iff_of_false ?_ ?_
    · rintro ⟨fault, hfault, hne⟩
      have hgoes := FileTree.goesOn_anchor (t := t) hrel hplain
      rw [hmissing] at hgoes
      exact hne (Except.error.inj (hfault.symm.trans hgoes.error))
    · rintro (⟨front, back, hname, hfile⟩ | hlong | ⟨front, part, back, hnames, hlong, hdirectory⟩)
      · obtain ⟨found, contents, hfound⟩ := FileTree.isFile_iff.1 hfile
        rw [hname, String.append_assoc] at hrel
        exact resolve_ne_ok_of_anchor hmissing (FileTree.relative_of_append hrel) _ hfound
      · exact hsize hlong
      · obtain ⟨found, hfound⟩ := FileTree.isDirectory_iff.1 hdirectory
        obtain ⟨more, hmore⟩ := exists_append_along (front_ne_nil hnames hlong) hnames
        rw [hmore] at hrel
        exact resolve_ne_ok_of_anchor hmissing (FileTree.relative_of_append hrel) _ hfound
  · have hresolve : t.resolve (branchFile l b) true = t.followLinks true FileTree.linkLimit place
        (Text.splitOn '/' (RefName.ofBranch b).text) := hfree.resolve_div hanchor hrel hplain
    rw [← stops_iff hfree hanchor hplain, hresolve]
    exact exists_congr fun fault => hfree.followLinks_eq_error_iff

/-- Without links the file of a branch cannot be read, other than because it is missing, exactly
when a directory is at its path or its path is refused. -/
theorem readFile_refused_iff (hfree : t.LinkFree) {packed : List (String × Oid)}
    (hpacked : packedRefs t l = .ok packed) :
    (∃ fault, t.readFile (branchFile l b) = .error fault ∧ fault ≠ .notFound) ↔
      t.isDirectory (branchFile l b) = true ∨ BelowFile t l b ∨ TooLong t l b := by
  rw [← refused_iff hfree hpacked]
  simp only [hfree.readFile_eq_error_iff, or_and_right, exists_or]
  rw [or_comm]
  simp

/-! ## Resolving a branch of a listing -/

/-- A file that is read for a branch was read for the listing, too, and found well-formed. -/
theorem said_of_listed (hfree : t.LinkFree) {loose : List (Option (String × Option Oid))}
    (hloose : List.Forall₂ (fun file found => looseEntry? l file.1 file.2 = .ok found)
      (looseFiles t l RefName.heads) loose) {contents : ByteArray}
    (hfile : t.readFile (branchFile l b) = .ok contents) :
    ∃ text value, t.readText (branchFile l b) = .ok text ∧
      RefFile.parse (branchFile l b) text = .ok value := by
  obtain ⟨place, hresolve⟩ := FileTree.readFile_eq_ok_iff.1 hfile
  have hlisted : IsFile t l RefName.heads b.text contents := leads_heads.isFile_of_resolve b.keeps
    (fun location _ front _ target _ => hfree (location ++ front) target) hresolve
  obtain ⟨text, value, htext, hvalue, -⟩ := exists_entry_of_isFile hloose hlisted
  exact ⟨text, value, by rw [FileTree.readText, hfile]; exact htext, hvalue⟩

/-- How a branch is resolved where the listing succeeds: by what is at the path of its file. -/
theorem resolveRef_cases (hfree : t.LinkFree) {refs : List (RefName × Oid)}
    (hlist : listRefs t l RefName.heads = .ok refs) (hdirect : IsDirect t l b) :
    (∀ contents, t.readFile (branchFile l b) = .ok contents → ∃ oid, looseOid? t l b = some oid ∧
      resolveRef t l (RefName.ofBranch b).text = .ok (some oid)) ∧
    (t.readFile (branchFile l b) = .error .notFound → ∃ packed, packedRefs t l = .ok packed ∧
      resolveRef t l (RefName.ofBranch b).text = .ok (packed.lookup (RefName.ofBranch b).text)) ∧
    ∀ fault, fault ≠ .notFound → t.readFile (branchFile l b) = .error fault →
      resolveRef t l (RefName.ofBranch b).text = .error (.ofFault (branchFile l b) fault) := by
  obtain ⟨entries, hentries, -⟩ := listRefs_eq_ok hlist
  obtain ⟨packed, loose, hpacked, hloose, -⟩ := refEntries_eq_ok hentries
  refine ⟨fun contents hfile => ?_, fun hmissing => ?_, fun fault hne hfault => ?_⟩
  · obtain ⟨text, value, htext, hvalue⟩ := said_of_listed hfree hloose hfile
    cases value with
    | symbolic target => exact absurd hvalue (hdirect text target htext)
    | direct oid =>
      have hholds : Holds t l (RefName.ofBranch b).text (some oid) :=
        .loose htext (RefFile.parse_eq_direct_iff.1 hvalue)
      exact ⟨oid, looseOid?_eq_some htext hvalue, hholds.resolveRef_eq_ok⟩
  · have hholds : Holds t l (RefName.ofBranch b).text (packed.lookup (RefName.ofBranch b).text) :=
      .packed (readFile_eq_notFound_iff.1 hmissing) hpacked
    exact ⟨packed, hpacked, hholds.resolveRef_eq_ok⟩
  · have htext : t.readText (l.looseRef (RefName.ofBranch b).text) = .error fault := by
      rw [FileTree.readText, ← branchFile, hfault]
      rfl
    simp only [resolveRef, symbolicLimit, resolveFrom, readOptional_of_fault htext hne, bind,
      Except.bind]
    rfl

/-- Where the branches are listed, in a tree without links, a branch whose loose file is not
symbolic has the id of that file, and without a file the one that is packed, if any. It cannot be
resolved exactly when its path is that of a directory, lies below a regular file or has a name that
is too long, although the listing is not concerned with these. What is reported then is the refusal
of that path. -/
theorem resolveRef_of_listed (hfree : t.LinkFree) {refs : List (RefName × Oid)}
    (hlist : listRefs t l RefName.heads = .ok refs) (hdirect : IsDirect t l b) :
    (t.isFile (branchFile l b) = true → ∃ oid, looseOid? t l b = some oid ∧
      resolveRef t l (RefName.ofBranch b).text = .ok (some oid)) ∧
    (t.readFile (branchFile l b) = .error .notFound → ∃ packed, packedRefs t l = .ok packed ∧
      resolveRef t l (RefName.ofBranch b).text = .ok (packed.lookup (RefName.ofBranch b).text)) ∧
    ((∃ err, resolveRef t l (RefName.ofBranch b).text = .error err) ↔
      t.isDirectory (branchFile l b) = true ∨ BelowFile t l b ∨ TooLong t l b) ∧
    ∀ err, resolveRef t l (RefName.ofBranch b).text = .error err →
      ∃ fault, fault ≠ .notFound ∧ err = .ofFault (branchFile l b) fault := by
  obtain ⟨hfile, hmissing, hfault⟩ := resolveRef_cases hfree hlist hdirect
  obtain ⟨entries, hentries, -⟩ := listRefs_eq_ok hlist
  obtain ⟨packed, loose, hpacked, -, -⟩ := refEntries_eq_ok hentries
  -- an error is that of reading the file
  have herror {err : ReadError} (h : resolveRef t l (RefName.ofBranch b).text = .error err) :
      ∃ fault, t.readFile (branchFile l b) = .error fault ∧ fault ≠ .notFound := by
    cases hread : t.readFile (branchFile l b) with
    | ok contents =>
      obtain ⟨oid, -, hoid⟩ := hfile contents hread
      cases h.symm.trans hoid
    | error fault =>
      refine ⟨fault, rfl, ?_⟩
      rintro rfl
      obtain ⟨packed, -, hlookup⟩ := hmissing hread
      cases h.symm.trans hlookup
  refine ⟨fun h => ?_, hmissing, ?_, fun err h => ?_⟩
  · obtain ⟨place, contents, hresolve⟩ := FileTree.isFile_iff.1 h
    exact hfile contents (FileTree.readFile_eq_ok_iff.2 ⟨place, hresolve⟩)
  · rw [← readFile_refused_iff hfree hpacked]
    constructor
    · exact fun ⟨err, h⟩ => herror h
    · exact fun ⟨fault, hread, hne⟩ => ⟨_, hfault fault hne hread⟩
  · obtain ⟨fault, hread, hne⟩ := herror h
    exact ⟨fault, hne, Except.error.inj (h.symm.trans (hfault fault hne hread))⟩

/-! ## A directory that is left over -/

/-- A clone with a loose branch, and a packed one that has an empty directory in the place of its
file. -/
def leftoverClone : FileTree :=
  ((withRef onTopic ["refs", "heads", "main"] 1).place ["r", ".git", "packed-refs"]
    (.file ((Oid.ofNumber 2).text ++ " refs/heads/topic\n").toUTF8)).place
      ["r", ".git", "refs", "heads", "topic"] .directory

theorem linkFree_leftoverClone : leftoverClone.LinkFree :=
  linkFree_of_entries (by decide +kernel)

theorem listRefs_leftoverClone : listRefs leftoverClone sharedLayout RefName.heads =
    .ok [(⟨"refs/heads/main"⟩, .ofNumber 1), (⟨"refs/heads/topic"⟩, .ofNumber 2)] := by
  decide +kernel

/-- The loose branch is resolved, and one that nothing is known of has no commit. -/
theorem resolveRef_leftoverClone :
    leftoverClone.LinkFree ∧
      listRefs leftoverClone sharedLayout RefName.heads =
        .ok [(⟨"refs/heads/main"⟩, .ofNumber 1), (⟨"refs/heads/topic"⟩, .ofNumber 2)] ∧
      (∃ oid, looseOid? leftoverClone sharedLayout ⟨"main", by decide⟩ = some oid ∧
        resolveRef leftoverClone sharedLayout "refs/heads/main" = .ok (some oid)) ∧
      resolveRef leftoverClone sharedLayout "refs/heads/other" = .ok none := by
  have hloose : (looseOid? leftoverClone sharedLayout ⟨"main", by decide⟩).isSome := by
    decide +kernel
  have hmissing : leftoverClone.readText (branchFile sharedLayout ⟨"other", by decide⟩) =
      .error .notFound := by
    decide +kernel
  obtain ⟨hfile, -, -, -⟩ := resolveRef_of_listed linkFree_leftoverClone listRefs_leftoverClone
    (isDirect_of_isSome hloose)
  obtain ⟨-, hpacked, -, -⟩ := resolveRef_of_listed linkFree_leftoverClone listRefs_leftoverClone
    (isDirect_of_error hmissing)
  obtain ⟨packed, hread, hlookup⟩ := hpacked (readFile_eq_notFound_iff.2 hmissing)
  have hnone : (packedLookup leftoverClone sharedLayout "refs/heads/other") = .ok none := by
    decide +kernel
  rw [packedLookup, hread] at hnone
  refine ⟨linkFree_leftoverClone, listRefs_leftoverClone, hfile (by decide +kernel), ?_⟩
  exact hlookup.trans hnone

/-- A packed branch that is listed cannot be resolved for the empty directory in the place of its
file, and a branch below another one cannot be for the file of that one, although nothing is known
of it. -/
theorem resolveRef_obstructed :
    ∃ topic sub : BranchName, topic.text = "topic" ∧ sub.text = "main/sub" ∧
      leftoverClone.LinkFree ∧
      IsDirect leftoverClone sharedLayout topic ∧ IsDirect leftoverClone sharedLayout sub ∧
      listRefs leftoverClone sharedLayout RefName.heads =
        .ok [(⟨"refs/heads/main"⟩, .ofNumber 1), (⟨"refs/heads/topic"⟩, .ofNumber 2)] ∧
      resolveRef leftoverClone sharedLayout (RefName.ofBranch topic).text =
        .error (.access "/r/.git/refs/heads/topic: Is a directory (os error 21)") ∧
      resolveRef leftoverClone sharedLayout (RefName.ofBranch sub).text =
        .error (.access "/r/.git/refs/heads/main/sub: Not a directory (os error 20)") := by
  have htopic : leftoverClone.readText (branchFile sharedLayout topic) = .error .isADirectory := by
    decide +kernel
  have hsub : leftoverClone.readText (branchFile sharedLayout ⟨"main/sub", by decide⟩) =
      .error .notADirectory := by
    decide +kernel
  exact ⟨topic, ⟨"main/sub", by decide⟩, rfl, rfl, linkFree_leftoverClone,
    isDirect_of_error htopic, isDirect_of_error hsub, listRefs_leftoverClone,
    by decide +kernel, by decide +kernel⟩

end WorktreeTracker.PlainReader
