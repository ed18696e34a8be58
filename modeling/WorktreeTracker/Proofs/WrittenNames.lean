import WorktreeTracker.Proofs.WrittenRefs

/-!
# Names as git writes them

The rules of reference names refuse the blanks of ASCII and no others, while the plain reader trims
lines by the blanks of Unicode. So it undoes what git writes exactly for the names that no such blank
stands at the ends of: in the packed file a name loses the blanks at both ends, and in HEAD those
after it.
-/

namespace WorktreeTracker

open PackedRefs (Row)

variable {t : FileTree} {l : Layout}

/-- The packed references are found under their own names exactly when no name starts or ends with a
blank. -/
theorem PackedRefs.parse_rows_same_iff {comments : List String} {rows : List Row}
    (hcomments : ∀ line ∈ comments, IsLine line ∧ Text.startsWith "#" line = true)
    (hrows : ∀ e ∈ rows, NameProblem.Keeps e.name) {path : Path} :
    parse path (linesText (comments ++ rows.flatMap Row.lines)) =
        .ok (rows.map fun e => (e.name, e.oid)) ↔
      ∀ e ∈ rows, ∀ c, e.name.toList.head? = some c ∨ e.name.toList.getLast? = some c →
        Text.isBlank c = false := by
  rw [parse_rows_eq_ok_iff hcomments fun e he => isLine_of_keeps (hrows e he)]
  simp only [← Text.trim_eq_self_iff, List.map_inj_left, Prod.mk.injEq, and_true]
  constructor
  · rintro ⟨-, hnames⟩ e he
    exact (hnames e he).symm
  · intro hnames
    refine ⟨fun e he => ?_, fun e he => (hnames e he).symm⟩
    obtain ⟨first, rest, hfirst⟩ := List.exists_cons_of_ne_nil (hrows e he).nonempty
    exact ⟨first, by simp [hfirst],
      Text.trim_eq_self_iff.1 (hnames e he) first (.inl (by simp [hfirst]))⟩

/-- HEAD is attached to the branch that is written in it exactly when the name does not end in a
blank and the branch can be followed. -/
theorem PlainReader.head_linesText_iff {b : BranchName} {found : Option Oid}
    (htext : t.readText l.head = .ok (linesText ["ref: " ++ (RefName.ofBranch b).text])) :
    head t l = .ok (.branch b found) ↔
      (∀ c, b.text.toList.getLast? = some c → Text.isBlank c = false) ∧
        resolveRef t l (RefName.ofBranch b).text = .ok found := by
  have hread : readOptional t l.head =
      .ok (some (linesText ["ref: " ++ (RefName.ofBranch b).text])) := by
    rw [readOptional, htext]
  have hchars : (RefName.ofBranch b).text.toList = RefName.heads.toList ++ b.text.toList := by
    rw [RefName.ofBranch, String.toList_append]
  have hline : IsLine (RefName.ofBranch b).text := by
    obtain ⟨hnewline, hreturn⟩ := isLine_of_keeps b.keeps
    constructor
    · simpa [hchars, RefName.heads] using hnewline
    · simpa [hchars, RefName.heads] using hreturn
  have hlast (c : Char) : (RefName.ofBranch b).text.toList.getLast? = some c ↔
      b.text.toList.getLast? = some c := by
    rw [hchars, List.getLast?_append, List.getLast?_eq_some_getLast b.keeps.nonempty,
      Option.some_or]
  have hsays := RefFile.saysRef_linesText_iff hline
    (by simp [RefName.ofBranch, RefName.heads]) (by simp [hchars, RefName.heads]; decide)
  simp only [hlast] at hsays
  rw [← hsays]
  constructor
  · intro h
    obtain ⟨text, hsome, hparse, hfound⟩ := said_of_head h
    obtain rfl := Option.some.inj (Except.ok.inj (hread.symm.trans hsome))
    exact ⟨RefFile.saysRef_of_parse hparse, hfound⟩
  · rintro ⟨hsaid, hfound⟩
    exact head_of_symbolic hread (RefFile.parse_of_saysRef hsaid l.head) hfound

/-- Reading undoes what git writes except for blanks at the ends of names. A packed file of comments
and lines with acceptable names is read when no name is all blank, and then every name is found
without the blanks at its ends: the names that are found are those that were written exactly when
none starts or ends with a blank. A HEAD that names a branch is attached to that branch exactly when
the name does not end in a blank and the branch can be followed. -/
theorem written_names_read (path : Path) {comments : List String} {rows : List Row}
    (hcomments : ∀ line ∈ comments, IsLine line ∧ Text.startsWith "#" line = true)
    (hrows : ∀ e ∈ rows, NameProblem.Keeps e.name) :
    (∀ packed,
      PackedRefs.parse path (linesText (comments ++ rows.flatMap Row.lines)) = .ok packed ↔
        (∀ e ∈ rows, ∃ c ∈ e.name.toList, Text.isBlank c = false) ∧
          packed = rows.map fun e => (Text.trim e.name, e.oid)) ∧
      (PackedRefs.parse path (linesText (comments ++ rows.flatMap Row.lines)) =
          .ok (rows.map fun e => (e.name, e.oid)) ↔
        ∀ e ∈ rows, ∀ c, e.name.toList.head? = some c ∨ e.name.toList.getLast? = some c →
          Text.isBlank c = false) ∧
      ∀ (t : FileTree) (l : Layout) (b : BranchName) (found : Option Oid),
        t.readText l.head = .ok (linesText ["ref: " ++ (RefName.ofBranch b).text]) →
        (PlainReader.head t l = .ok (.branch b found) ↔
          (∀ c, b.text.toList.getLast? = some c → Text.isBlank c = false) ∧
            PlainReader.resolveRef t l (RefName.ofBranch b).text = .ok found) := by
  refine ⟨fun packed => ?_, ?_, ?_⟩
  · exact PackedRefs.parse_rows_eq_ok_iff hcomments fun e he => isLine_of_keeps (hrows e he)
  · exact PackedRefs.parse_rows_same_iff hcomments hrows
  · exact fun t l b found htext => PlainReader.head_linesText_iff htext

/-! ## Names with a blank in them -/

/-- The line at the top of a packed file. -/
def packedHeader : String := "# pack-refs with: peeled fully-peeled sorted "

/-- A tag whose name has a blank in the middle, with what it stands for. -/
def inner : Row := ⟨"refs/tags/v1\u00a0beta", .ofNumber 1, some (.ofNumber 2)⟩

/-- A branch whose name ends in a blank. -/
def padded : BranchName := ⟨"main\u3000", by decide⟩

/-- A clone whose HEAD names a branch. -/
def cloneOn (b : BranchName) : FileTree :=
  FileTree.empty.place ["r", ".git", "HEAD"]
    (.file (linesText ["ref: " ++ (RefName.ofBranch b).text]).toUTF8)

/-- A blank in the middle of a name is kept. -/
theorem written_names_read_inner :
    PackedRefs.parse ⟨"/r/.git/packed-refs"⟩
        (linesText ([packedHeader] ++ [inner].flatMap Row.lines)) =
        .ok [("refs/tags/v1\u00a0beta", .ofNumber 1)] ∧
      PlainReader.head (cloneOn .master) PlainReader.sharedLayout = .ok (.branch .master none) := by
  have hcomments : ∀ line ∈ [packedHeader], IsLine line ∧ Text.startsWith "#" line = true := by
    intro line hline
    rw [List.mem_singleton.1 hline]
    exact ⟨⟨by decide, by decide⟩, by decide⟩
  have hrows : ∀ e ∈ [inner], NameProblem.Keeps e.name := by
    intro e he
    rw [List.mem_singleton.1 he, ← NameProblem.find?_eq_none_iff]
    decide
  obtain ⟨-, hpacked, hhead⟩ := written_names_read ⟨"/r/.git/packed-refs"⟩ hcomments hrows
  constructor
  · refine hpacked.2 ?_
    intro e he c hc
    rw [List.mem_singleton.1 he] at hc
    rcases hc with hfirst | hlast
    · obtain rfl : 'r' = c := Option.some.inj hfirst
      decide
    · obtain rfl : 'a' = c := Option.some.inj hlast
      decide
  · have htext : (cloneOn .master).readText PlainReader.sharedLayout.head =
        .ok (linesText ["ref: " ++ (RefName.ofBranch .master).text]) := by
      decide +kernel
    refine (hhead _ _ _ _ htext).2 ⟨?_, by decide +kernel⟩
    intro c hc
    obtain rfl : 'r' = c := Option.some.inj hc
    decide

/-- A name that ends in a blank is found without it, in the packed file and in HEAD, although the
name is acceptable. -/
theorem padded_name_lost :
    NameProblem.Keeps (RefName.ofBranch padded).text ∧
      PackedRefs.parse ⟨"/r/.git/packed-refs"⟩
          (linesText ([packedHeader] ++
            [Row.mk (RefName.ofBranch padded).text (.ofNumber 1) none].flatMap Row.lines)) =
        .ok [("refs/heads/main", .ofNumber 1)] ∧
      PlainReader.head (cloneOn padded) PlainReader.sharedLayout =
        .ok (.branch ⟨"main", by decide⟩ none) := by
  refine ⟨?_, by decide +kernel, by decide +kernel⟩
  rw [← NameProblem.find?_eq_none_iff]
  decide

end WorktreeTracker
