import Mathlib.Data.List.TakeWhile
import Mathlib.Data.Option.Basic
import WorktreeTracker.Proofs.Name
import WorktreeTracker.Proofs.PlainReader.Exactness
import WorktreeTracker.Repository.RefDatabase

/-!
# Reference files as git writes them

The two readers have parsers of their own for the file of a loose reference and for the packed file,
and accept different texts. On the files that git itself writes both find the same: a loose file
with an id of forty digits on its line or with the name of another reference, and a packed file with
one line for each name.
-/

namespace WorktreeTracker

/-- The digits of an id are in ASCII. -/
theorem Oid.ascii (oid : Oid) {c : Char} (hc : c ∈ oid.text.toList) : c.toNat < 0x80 := by
  by_contra hbeyond
  exact oid.not_mem_of_not_isHexDigit (isHexDigit_of_le (Nat.le_of_not_lt hbeyond)) hc

/-- No digit is a blank. -/
theorem isBlank_of_isHexDigit {c : Char} (h : isHexDigit c = true) : Text.isBlank c = false := by
  refine Text.forall_char (p := fun c => isHexDigit c = true → Text.isBlank c = false) (by decide)
    (fun c hc hdigit => ?_) c h
  rw [Oid.isHexDigit_of_le hc] at hdigit
  cases hdigit

theorem Oid.isBlank_of_mem (oid : Oid) {c : Char} (hc : c ∈ oid.text.toList) :
    Text.isBlank c = false :=
  isBlank_of_isHexDigit (oid.isWritten_text.2 c hc)

/-- A text that neither starts nor ends with a blank stays what it is when it is trimmed. -/
theorem Text.trim_of_ends {s : String} {first last : Char} (hfirst : s.toList.head? = some first)
    (hlast : s.toList.getLast? = some last) (h : isBlank first = false ∧ isBlank last = false) :
    trim s = s := by
  have hchars : trimChars (s.toList ++ []) = s.toList ++ dropTrailing isBlank [] :=
    trimChars_append hfirst hlast h
  have hnil : dropTrailing isBlank [] = [] := rfl
  rw [List.append_nil, hnil, List.append_nil] at hchars
  rw [trim, hchars, String.ofList_toList]

/-- A text stays what it is when it is trimmed, if and only if it neither starts nor ends with a
blank. -/
theorem Text.trim_eq_self_iff {s : String} : trim s = s ↔
    ∀ c, s.toList.head? = some c ∨ s.toList.getLast? = some c → isBlank c = false := by
  constructor
  · intro htrim c hc
    have hchars : trimChars s.toList = s.toList := by
      rw [← String.toList_ofList (l := trimChars s.toList), ← trim, htrim]
    rcases hc with hfirst | hlast
    · -- a blank at the start would be missing
      obtain ⟨rest, hrest⟩ := List.head?_eq_some_iff.1 hfirst
      rw [hrest] at hchars
      by_contra hblank
      have hlength := length_trimChars_le rest
      rw [trimChars, List.dropWhile_cons_of_pos (by simpa using hblank), ← trimChars] at hchars
      rw [hchars, List.length_cons] at hlength
      omega
    · rw [← hchars, trimChars] at hlast
      exact of_getLast?_dropTrailing hlast
  · intro h
    by_cases hne : s.toList = []
    · have hempty : s = "" := by simpa using hne
      rw [hempty]
      rfl
    · have hfirst := List.head?_eq_some_head hne
      have hlast := List.getLast?_eq_some_getLast hne
      exact trim_of_ends hfirst hlast ⟨h _ (.inl hfirst), h _ (.inr hlast)⟩

/-- A text without blanks stays what it is when it is trimmed. -/
theorem Text.trim_of_unblanked {s : String} (h : ∀ c ∈ s.toList, isBlank c = false) : trim s = s :=
  trim_eq_self_iff.2 fun c hc => h c (hc.elim List.mem_of_head? List.mem_of_getLast?)

/-- The text with the given lines, each ended by a newline. -/
def linesText : List String → String
  | [] => ""
  | line :: rest => line ++ "\n" ++ linesText rest

/-- A line has neither a newline nor a carriage return in it. -/
def IsLine (line : String) : Prop :=
  '\n' ∉ line.toList ∧ '\r' ∉ line.toList

/-- An id is a line. -/
theorem isLine_oid (oid : Oid) : IsLine oid.text :=
  ⟨oid.not_mem_of_not_isHexDigit (by decide), oid.not_mem_of_not_isHexDigit (by decide)⟩

/-- A name that keeps the rules is a line. -/
theorem isLine_of_keeps {name : String} (h : NameProblem.Keeps name) : IsLine name := by
  have hcontrol {c : Char} (hc : Text.isControl c = true) : c ∉ name.toList := by
    intro hmem
    rw [h.control c hmem] at hc
    cases hc
  exact ⟨hcontrol (by decide), hcontrol (by decide)⟩

theorem toList_linesText (lines : List String) :
    (linesText lines).toList = (lines.map String.toList).flatMap (· ++ ['\n']) := by
  induction lines with
  | nil => rfl
  | cons line rest ih => simp [linesText, ih]

theorem encode_linesText (lines : List String) :
    Text.encode (linesText lines) = (lines.map Text.encode).flatMap (· ++ ['\n']) := by
  induction lines with
  | nil => rfl
  | cons line rest ih =>
    have hnewline : Text.encode "\n" = ['\n'] := by decide
    rw [linesText, Text.encode_append, Text.encode_append, hnewline, ih]
    rfl

/-- A line without a carriage return stays what it is. -/
theorem dropReturn_of_not_mem {cs : List Char} (h : '\r' ∉ cs) : Text.dropReturn cs = cs :=
  if_neg fun hlast => h (List.mem_of_getLast? hlast)

/-- The lines of a text are those that it was made of. -/
theorem lines_linesText {lines : List String} (h : ∀ line ∈ lines, IsLine line) :
    Text.lines (linesText lines) = lines := by
  have hpieces (ls : List (List Char)) (hls : ∀ cs ∈ ls, '\r' ∉ cs) :
      Text.linesOfPieces (ls ++ [[]]) = ls := by
    induction ls with
    | nil => rfl
    | cons cs rest ih =>
      obtain ⟨next, more, hnext⟩ :=
        List.exists_cons_of_ne_nil (List.append_ne_nil_of_right_ne_nil rest (by simp : [[]] ≠ []))
      have hrest := ih fun other hother => hls other (List.mem_cons_of_mem _ hother)
      rw [List.cons_append, hnext, Text.linesOfPieces, ← hnext, hrest,
        dropReturn_of_not_mem (hls cs List.mem_cons_self)]
      simp
  have hid : String.ofList ∘ String.toList = id := funext fun s => String.ofList_toList
  have hchars {cs : List Char} (hcs : cs ∈ lines.map String.toList) : '\n' ∉ cs ∧ '\r' ∉ cs := by
    obtain ⟨line, hline, rfl⟩ := List.mem_map.1 hcs
    exact h line hline
  rw [Text.lines, toList_linesText, Text.splitOn_flatMap fun cs hcs => (hchars hcs).1,
    hpieces _ fun cs hcs => (hchars hcs).2, List.map_map, hid, List.map_id]

/-! ## Loose files -/

namespace RefFile

/-- What git writes into the file of a loose reference: an id of forty digits, or the name of
another reference. -/
inductive Written : ByteArray → Option Oid → Prop where
  /-- The file has the id. -/
  | direct (oid : Oid) (length : oid.text.toList.length = 40) :
    Written (linesText [oid.text]).toUTF8 (some oid)
  /-- The file names the reference. -/
  | symbolic (rest : String) (acceptable : NameProblem.Keeps ("refs/" ++ rest)) :
    Written (linesText ["ref: refs/" ++ rest]).toUTF8 none

variable {contents : ByteArray} {found : Option Oid}

theorem decodeText_toUTF8 (text : String) : FileTree.decodeText text.toUTF8 = .ok text := by
  rw [FileTree.decodeText, Text.fromUTF8?_toUTF8]

theorem line_linesText {text : String} (h : IsLine text) :
    line (linesText [text]) = Text.trim text := by
  rw [line, Text.firstLine, lines_linesText (by simpa using h)]
  rfl

theorem line_oid (oid : Oid) : line (linesText [oid.text]) = oid.text := by
  rw [line_linesText (isLine_oid oid),
    Text.trim_of_unblanked fun c hc => oid.isBlank_of_mem hc]

/-- A file with an id on its line has that id. -/
theorem saysId_linesText (oid : Oid) : SaysId (linesText [oid.text]) oid := by
  rw [SaysId, line_oid, oid.lower_text]
  exact ⟨oid.isWritten_text, rfl⟩

/-- A file that names a reference names it as it is written, unless the name ends in a blank: that is
taken away with the end of the line. -/
theorem saysRef_linesText_iff {name : String} (hname : IsLine name) (hne : name ≠ "")
    (hfirst : ∀ c, name.toList.head? = some c → Text.isBlank c = false) :
    SaysRef (linesText ["ref: " ++ name]) name ↔
      ∀ c, name.toList.getLast? = some c → Text.isBlank c = false := by
  have hline : line (linesText ["ref: " ++ name]) = Text.trim ("ref: " ++ name) := by
    refine line_linesText ?_
    simpa [IsLine] using hname
  rw [SaysRef, hline]
  constructor
  · rintro ⟨rest, -, hrest⟩ c hc
    rw [← hrest, Text.trim, String.toList_ofList, Text.trimChars] at hc
    exact Text.of_getLast?_dropTrailing hc
  · intro hends
    have hchars : name.toList ≠ [] := by simpa using hne
    have hhead := List.head?_eq_some_head hchars
    have hlast := List.getLast?_eq_some_getLast hchars
    have hfull : ("ref: " ++ name).toList.getLast? = some (name.toList.getLast hchars) := by
      rw [String.toList_append, List.getLast?_append, hlast, Option.some_or]
    have hstart : ("ref: " ++ name).toList.head? = some 'r' := by simp
    refine ⟨" " ++ name, ?_, ?_⟩
    · have hlead : "ref: " = symbolicLead ++ " " := by decide
      rw [Text.trim_of_ends hstart hfull ⟨by decide, hends _ hlast⟩, hlead, String.append_assoc]
    · have hspace : (" " ++ name).toList = ' ' :: name.toList := by simp
      have htrim : Text.trim (" " ++ name) = Text.trim name := by
        rw [Text.trim, Text.trim, hspace, Text.trimChars, List.dropWhile_cons_of_pos (by decide),
          ← Text.trimChars]
      rw [htrim, Text.trim_of_ends hhead hlast ⟨hfirst _ hhead, hends _ hlast⟩]

/-- The plain reader finds in the file of a loose reference what is written there. -/
theorem Written.decodeText (h : Written contents found) :
    ∃ text, FileTree.decodeText contents = .ok text ∧
      ∀ path, ∃ value, parse path text = .ok value ∧ value.oid? = found := by
  cases h with
  | direct oid length =>
    exact ⟨_, decodeText_toUTF8 _, fun path => ⟨_, parse_of_saysId (saysId_linesText oid) path, rfl⟩⟩
  | symbolic rest acceptable =>
    have hplain : IsLine ("ref: refs/" ++ rest) := by
      simpa [IsLine] using isLine_of_keeps acceptable
    -- what the line starts with stays when it is trimmed, and is no digit
    have hline : line (linesText ["ref: refs/" ++ rest]) = symbolicLead ++
        String.ofList (" refs/".toList ++ Text.dropTrailing Text.isBlank rest.toList) := by
      have hends : "ref: refs/".toList.head? = some 'r' ∧ "ref: refs/".toList.getLast? = some '/' := by
        decide
      rw [line_linesText hplain, Text.trim, ← String.toList_inj, String.toList_ofList,
        String.toList_append, Text.trimChars_append hends.1 hends.2 (by decide)]
      simp [symbolicLead]
    exact ⟨_, decodeText_toUTF8 _, fun path => ⟨_, parse_of_saysRef ⟨_, hline, rfl⟩ path, rfl⟩⟩

/-- An opened repository finds the id that is written in the file of a loose reference. -/
theorem Written.parseLoose_of_some {oid : Oid} (h : Written contents (some oid)) :
    RefDatabase.parseLoose (Text.byteChars contents.data.toList) = .ok (.direct oid none) := by
  cases h with
  | direct _ length =>
    change RefDatabase.parseLoose (Text.encode _) = _
    have hchars : Text.encode (linesText [oid.text]) = oid.text.toList ++ ['\n'] := by
      rw [encode_linesText, List.map_singleton, Text.encode_of_ascii fun c hc => oid.ascii hc]
      simp
    have hnone : Text.charsAfter? "ref: ".toList (oid.text.toList ++ ['\n']) = none := by
      refine Option.eq_none_iff_forall_ne_some.2 fun rest hrest => ?_
      have hmem : 'r' ∈ oid.text.toList ++ ['\n'] := by
        rw [Text.charsAfter?_eq_some_iff.1 hrest]
        exact List.mem_append_left _ (by decide)
      rcases List.mem_append.1 hmem with hmem | hmem
      · exact oid.not_mem_of_not_isHexDigit (by decide) hmem
      · exact absurd hmem (by decide)
    rw [hchars, RefDatabase.parseLoose, hnone]
    dsimp only
    rw [List.take_left' length, List.drop_left' length, String.ofList_toList, Oid.create_text]
    rfl

/-- The bytes of a name that keeps the rules have no blank and no zero in them. -/
theorem not_isSpace_of_keeps {name : String} (h : NameProblem.Keeps name) {c : Char}
    (hc : c ∈ Text.encode name) : Text.isSpace c = false ∧ c ≠ '\x00' := by
  have hplain : 0x20 < c.toNat := by
    by_contra hlow
    have hmem := Text.mem_of_mem_encode hc (by omega)
    rcases Nat.lt_or_ge c.toNat 0x20 with hcontrol | hspace
    · have hnone := h.control c hmem
      simp [Text.isControl, hcontrol] at hnone
    · have hnumber : c.toNat = ' '.toNat := Nat.le_antisymm (Nat.le_of_not_lt hlow) hspace
      obtain rfl := Char.toNat_inj.1 hnumber
      exact h.characters ' ' hmem (by decide)
  have hne {other : Char} (hother : other.toNat ≤ 0x20) : c ≠ other := by
    rintro rfl
    exact absurd hplain (Nat.not_lt.2 hother)
  refine ⟨?_, hne (by decide)⟩
  have hspace : c ≠ ' ' := hne (by decide)
  have hrange : ¬ (9 ≤ c.toNat ∧ c.toNat ≤ 13) := by omega
  simp only [Text.isSpace, hspace, Bool.or_eq_false_iff, beq_eq_false_iff_ne, ne_eq,
    not_false_eq_true, true_and]
  simpa using hrange

/-- An opened repository finds the name of a reference that is written in the file. -/
theorem Written.parseLoose_of_none (h : Written contents none) :
    ∃ name, RefDatabase.parseLoose (Text.byteChars contents.data.toList) =
      .ok (.symbolic (Text.encode name)) := by
  cases h with
  | symbolic rest acceptable =>
    refine ⟨"refs/" ++ rest, ?_⟩
    change RefDatabase.parseLoose (Text.encode _) = _
    have hlead : Text.encode "ref: refs/" = "ref: ".toList ++ Text.encode "refs/" := by decide
    have hchars : Text.encode (linesText ["ref: refs/" ++ rest]) =
        "ref: ".toList ++ (Text.encode ("refs/" ++ rest) ++ ['\n']) := by
      rw [encode_linesText, List.map_singleton, Text.encode_append, hlead, Text.encode_append]
      simp
    have hne : Text.encode ("refs/" ++ rest) ≠ [] := by
      rw [Text.encode_append]
      exact List.append_ne_nil_of_left_ne_nil (by decide) _
    have hlast := List.getLast?_eq_some_getLast hne
    -- neither a blank nor a zero ends the name early
    have hname : (Text.dropTrailing Text.isSpace (Text.encode ("refs/" ++ rest) ++ ['\n'])).takeWhile
        (· ≠ '\x00') = Text.encode ("refs/" ++ rest) := by
      rw [Text.dropTrailing_append hlast
          (not_isSpace_of_keeps acceptable (List.mem_of_getLast? hlast)).1,
        show Text.dropTrailing Text.isSpace ['\n'] = [] by decide, List.append_nil,
        List.takeWhile_eq_self_iff]
      exact fun c hc => decide_eq_true (not_isSpace_of_keeps acceptable hc).2
    rw [hchars, RefDatabase.parseLoose, Text.charsAfter?_eq_some_iff.2 rfl]
    dsimp only
    rw [hname]
    obtain ⟨first, more, hfirst⟩ := List.exists_cons_of_ne_nil hne
    rw [hfirst]

end RefFile

/-! ## The packed file -/

namespace PackedRefs

/-- A name and its id on a line, and on the next one the id that a tag stands for. -/
structure Row where
  /-- The name. -/
  name : String
  /-- The id. -/
  oid : Oid
  /-- The id that a tag stands for. -/
  peeled : Option Oid

namespace Row

/-- The line with the name. -/
def line (e : Row) : String := e.oid.text ++ " " ++ e.name

/-- The line with the name, and the one with what the tag stands for. -/
def lines (e : Row) : List String := e.line :: (e.peeled.map fun id => "^" ++ id.text).toList

/-- The lines with a name are lines when the name has no line break in it. -/
theorem isLine_of_mem {e : Row} (hname : IsLine e.name) {l : String} (hl : l ∈ e.lines) :
    IsLine l := by
  rcases List.mem_cons.1 hl with rfl | hl
  · simp [IsLine, line, hname.1, hname.2, (isLine_oid e.oid).1, (isLine_oid e.oid).2]
  · obtain ⟨id, -, rfl⟩ : ∃ id, e.peeled = some id ∧ "^" ++ id.text = l := by simpa using hl
    simp [IsLine, (isLine_oid id).1, (isLine_oid id).2]

end Row

/-- A packed reference as git writes it: an id of forty digits with an acceptable name that has no
blank in it, and the id of forty digits that it stands for when it is that of a tag. -/
structure Record where
  /-- The name. -/
  name : String
  /-- The id. -/
  oid : Oid
  /-- The id that a tag stands for. -/
  peeled : Option Oid
  /-- The name keeps the rules. -/
  acceptable : NameProblem.Keeps name
  /-- The name has no blank in it. -/
  unblanked : ∀ c ∈ name.toList, Text.isBlank c = false
  /-- The id has forty digits. -/
  length : oid.text.toList.length = 40
  /-- The id that a tag stands for has forty digits. -/
  peeledLength : ∀ id ∈ peeled, id.text.toList.length = 40

namespace Record

/-- The line with the name. -/
def line (e : Record) : String := e.oid.text ++ " " ++ e.name

/-- The line with the name, and the one with what the tag stands for. -/
def lines (e : Record) : List String := e.line :: (e.peeled.map fun id => "^" ++ id.text).toList

/-- The name, the id and what the tag stands for. -/
def row (e : Record) : Row := ⟨e.name, e.oid, e.peeled⟩

/-- The lines of a reference are lines. -/
theorem isLine_of_mem (e : Record) {l : String} (hl : l ∈ e.lines) : IsLine l :=
  Row.isLine_of_mem (e := e.row) (isLine_of_keeps e.acceptable) hl

end Record

/-- What git writes into the packed file: comments and then the references, each name once. -/
structure Written (contents : ByteArray) (records : List Record) : Prop where
  /-- The lines are comments and then those of the references. -/
  text : ∃ comments, (∀ line ∈ comments, IsLine line ∧ Text.startsWith "#" line = true) ∧
    contents = (linesText (comments ++ records.flatMap Record.lines)).toUTF8
  /-- No name is there twice. -/
  names : (records.map Record.name).Nodup

/-! ### The plain reader -/

/-- Lines that carry no reference are passed over. -/
theorem parseLines_append {path : Path} {skipped rest : List String}
    (h : ∀ line ∈ skipped, isSkipped (Text.trim line) = true) (number : Nat) :
    parseLines path number (skipped ++ rest) = parseLines path (number + skipped.length) rest := by
  induction skipped generalizing number with
  | nil => rfl
  | cons line skipped ih =>
    rw [List.cons_append, parseLines, h line List.mem_cons_self, if_pos rfl,
      ih (fun other hother => h other (List.mem_cons_of_mem _ hother)), List.length_cons,
      Nat.add_right_comm, Nat.add_assoc]

/-- A line that starts with a mark is passed over. -/
theorem isSkipped_of_startsWith {line mark : String} (hmark : mark = "#" ∨ mark = "^")
    (h : Text.startsWith mark line = true) : isSkipped (Text.trim line) = true := by
  obtain ⟨rest, hrest⟩ := Option.isSome_iff_exists.1 h
  have hstays {c : Char} (hc : Text.isBlank c = false) (hchars : line.toList = [c] ++ rest.toList) :
      Text.trim line =
        String.ofList [c] ++ String.ofList (Text.dropTrailing Text.isBlank rest.toList) := by
    rw [Text.trim, hchars, Text.trimChars_append rfl rfl ⟨hc, hc⟩, String.ofList_append]
  rw [Text.after?_eq_some_iff] at hrest
  rcases hmark with rfl | rfl
  · rw [hstays (c := '#') (by decide) (by simp [hrest]), isSkipped]
    simp [Text.startsWith, Text.after?, Text.charsAfter?]
  · rw [hstays (c := '^') (by decide) (by simp [hrest]), isSkipped]
    simp [Text.startsWith, Text.after?, Text.charsAfter?]

/-- A line that starts with a digit is not passed over. -/
theorem isSkipped_of_digit {line : String} {c : Char} (hhead : line.toList.head? = some c)
    (hdigit : isHexDigit c = true) : isSkipped line = false := by
  have hmark {mark : Char} (hnot : isHexDigit mark = false) :
      Text.startsWith (String.ofList [mark]) line = false := by
    rw [← Bool.not_eq_true, Text.startsWith_iff, String.toList_ofList]
    rintro ⟨rest, hrest⟩
    rw [← hrest] at hhead
    obtain rfl : mark = c := Option.some.inj hhead
    cases hnot.symm.trans hdigit
  have hne : line ≠ "" := by
    rintro rfl
    cases hhead
  have hcomment : Text.startsWith "#" line = false := hmark (by decide)
  have htag : Text.startsWith "^" line = false := hmark (by decide)
  simp [isSkipped, hcomment, htag, hne]

/-- Trimming the line of a name takes the blanks after the name away, and the one before it when
nothing is left of the name. -/
theorem Row.trim_line (e : Row) : Text.trim e.line =
    e.oid.text ++ String.ofList (Text.dropTrailing Text.isBlank (' ' :: e.name.toList)) := by
  have hne : e.oid.text.toList ≠ [] := by simpa using e.oid.text_ne_empty
  have hfirst := List.head?_eq_some_head hne
  have hlast := List.getLast?_eq_some_getLast hne
  have hline : e.line.toList = e.oid.text.toList ++ ' ' :: e.name.toList := by
    simp [line]
  rw [Text.trim, hline, Text.trimChars_append hfirst hlast
    ⟨e.oid.isBlank_of_mem (List.mem_of_head? hfirst),
      e.oid.isBlank_of_mem (List.mem_of_getLast? hlast)⟩,
    String.ofList_append, String.ofList_toList]

/-- The line of a name is not passed over. -/
theorem Row.isSkipped_line (e : Row) : isSkipped (Text.trim e.line) = false := by
  obtain ⟨first, digits, hdigits⟩ := List.exists_cons_of_ne_nil (l := e.oid.text.toList)
    (by simpa using e.oid.text_ne_empty)
  refine isSkipped_of_digit (c := first) ?_ (e.oid.isWritten_text.2 first (by simp [hdigits]))
  simp [e.trim_line, hdigits]

/-- A name that is not all blank is read without the blanks at its ends. -/
theorem Row.parse_line {e : Row} (hname : ∃ c ∈ e.name.toList, Text.isBlank c = false) :
    parseLine (Text.trim e.line) = .ok (Text.trim e.name, e.oid) := by
  obtain ⟨back, hsplit, hback⟩ := Text.dropTrailing_split Text.isBlank e.name.toList
  have hkept : Text.dropTrailing Text.isBlank e.name.toList ≠ [] := by
    obtain ⟨c, hc, hblank⟩ := hname
    intro hnil
    rw [hsplit, hnil, List.nil_append] at hc
    cases (hback c hc).symm.trans hblank
  have hlast := List.getLast?_eq_some_getLast hkept
  have hends := Text.of_getLast?_dropTrailing hlast
  generalize Text.dropTrailing Text.isBlank e.name.toList = kept at hsplit hkept hlast hends
  have htrimmed : Text.dropTrailing Text.isBlank (' ' :: e.name.toList) = ' ' :: kept := by
    have hcons : (' ' :: kept).getLast? = some (kept.getLast hkept) := by
      rw [List.getLast?_cons, hlast, Option.getD_some]
    rw [hsplit, ← List.cons_append, Text.dropTrailing_append hcons hends,
      Text.dropTrailing, ← List.rdropWhile, List.rdropWhile_eq_nil_iff.2 hback, List.append_nil]
  rw [e.trim_line, htrimmed]
  refine parseLine_eq_ok_iff.2
    ⟨e.oid.text, String.ofList kept, ?_, e.oid.isWritten_text, e.oid.lower_text.symm, ?_⟩
  · rw [String.append_assoc, ← String.ofList_append]
    rfl
  · rw [Text.trim, Text.trim, hsplit, Text.trimChars_append_of_blank hback, String.toList_ofList]

/-- Nothing is left of a name that is all blank, and then the line is refused. -/
theorem Row.refused_line {e : Row} (hname : ∀ c ∈ e.name.toList, Text.isBlank c = true) :
    parseLine (Text.trim e.line) = .error "expected '<oid> <refname>'" := by
  have hblank : Text.dropTrailing Text.isBlank (' ' :: e.name.toList) = [] := by
    refine List.rdropWhile_eq_nil_iff.2 fun c hc => ?_
    rcases List.mem_cons.1 hc with rfl | hc
    · decide
    · exact hname c hc
  have hcut : Text.cut? ' ' e.oid.text = none := by
    refine Option.eq_none_iff_forall_ne_some.2 fun ⟨left, right⟩ hcut => ?_
    have hmem : ' ' ∈ e.oid.text.toList := by
      rw [(Text.cut?_space.1 hcut).1]
      simp
    exact e.oid.not_mem_of_not_isHexDigit (by decide) hmem
  rw [e.trim_line, hblank, String.ofList_nil, String.append_empty, parseLine, hcut]

/-- A packed file of comments and lines with names is read when no name is all blank, and then every
name is found without the blanks at its ends. -/
theorem parse_rows_eq_ok_iff {comments : List String} {rows : List Row}
    (hcomments : ∀ line ∈ comments, IsLine line ∧ Text.startsWith "#" line = true)
    (hrows : ∀ e ∈ rows, IsLine e.name) {path : Path} {packed : List (String × Oid)} :
    parse path (linesText (comments ++ rows.flatMap Row.lines)) = .ok packed ↔
      (∀ e ∈ rows, ∃ c ∈ e.name.toList, Text.isBlank c = false) ∧
        packed = rows.map fun e => (Text.trim e.name, e.oid) := by
  have hlines : ∀ line ∈ comments ++ rows.flatMap Row.lines, IsLine line := by
    intro line hline
    rcases List.mem_append.1 hline with hline | hline
    · exact (hcomments line hline).1
    · obtain ⟨e, he, hmem⟩ := List.mem_flatMap.1 hline
      exact Row.isLine_of_mem (hrows e he) hmem
  rw [parse, lines_linesText hlines, parseLines_append fun line hline =>
    isSkipped_of_startsWith (.inl rfl) (hcomments line hline).2]
  generalize 1 + comments.length = number
  clear hlines
  induction rows generalizing number packed with
  | nil =>
    rw [List.flatMap_nil, parseLines, Except.ok.injEq, List.map_nil, eq_comm]
    simp
  | cons e rest ih =>
    have hpeeled : ∀ line ∈ (e.peeled.map fun id => "^" ++ id.text).toList,
        isSkipped (Text.trim line) = true := by
      intro line hline
      obtain ⟨id, -, rfl⟩ : ∃ id, e.peeled = some id ∧ "^" ++ id.text = line := by simpa using hline
      refine isSkipped_of_startsWith (.inr rfl) ?_
      rw [Text.startsWith, Text.after?_append]
      rfl
    rw [List.flatMap_cons, Row.lines, List.cons_append, parseLines, e.isSkipped_line,
      if_neg Bool.false_ne_true, List.forall_mem_cons, List.map_cons]
    by_cases hname : ∃ c ∈ e.name.toList, Text.isBlank c = false
    · rw [Row.parse_line hname, parseLines_append hpeeled]
      dsimp only
      rw [map_eq_ok]
      simp only [ih fun other hother => hrows other (List.mem_cons_of_mem _ hother)]
      constructor
      · rintro ⟨others, ⟨hnames, rfl⟩, rfl⟩
        exact ⟨⟨hname, hnames⟩, rfl⟩
      · rintro ⟨⟨-, hnames⟩, rfl⟩
        exact ⟨_, ⟨hnames, rfl⟩, rfl⟩
    · have hblank : ∀ c ∈ e.name.toList, Text.isBlank c = true := by
        intro c hc
        by_contra hnot
        exact hname ⟨c, hc, Bool.not_eq_true _ ▸ hnot⟩
      rw [Row.refused_line hblank]
      exact iff_of_false (by simp) fun h => hname h.1.1

/-- The plain reader finds in the packed file the references that are written there. -/
theorem Written.parse {contents : ByteArray} {records : List Record} (h : Written contents records)
    (path : Path) : ∃ text, FileTree.decodeText contents = .ok text ∧
      parse path text = .ok (records.map fun e => (e.name, e.oid)) := by
  obtain ⟨comments, hcomments, rfl⟩ := h.text
  refine ⟨_, RefFile.decodeText_toUTF8 _, ?_⟩
  have hrows : records.flatMap Record.lines = (records.map Record.row).flatMap Row.lines := by
    rw [List.flatMap_map]
    rfl
  rw [hrows, parse_rows_eq_ok_iff hcomments]
  · constructor
    · intro e he
      obtain ⟨record, -, rfl⟩ := List.mem_map.1 he
      obtain ⟨c, cs, hcs⟩ := List.exists_cons_of_ne_nil record.acceptable.nonempty
      have hc : c ∈ record.name.toList := by simp [hcs]
      exact ⟨c, hc, record.unblanked c hc⟩
    · rw [List.map_map]
      refine List.map_congr_left fun record _ => ?_
      exact congrArg (·, record.oid)
        (Text.trim_of_unblanked record.unblanked).symm
  · intro e he
    obtain ⟨record, -, rfl⟩ := List.mem_map.1 he
    exact isLine_of_keeps record.acceptable

/-! ### An opened repository -/

open RefDatabase

/-- The bytes of a line have no newline, no carriage return and no zero in them. -/
theorem not_mem_encode_of_isControl {s : String} {c : Char} (hc : c.toNat < 0x20)
    (h : c ∉ s.toList) : c ∉ Text.encode s :=
  fun hmem => h (Text.mem_of_mem_encode hmem (Nat.lt_trans hc (by decide)))

/-- An id of forty digits is read at the front of a line. -/
theorem leadingId?_append {oid : Oid} (hlength : oid.text.toList.length = 40) (rest : List Char) :
    leadingId? (oid.text.toList ++ rest) = some oid := by
  have htext : oid.text.length = 40 := by
    rw [← hlength, String.length_toList]
  rw [leadingId?, List.take_left' hlength, String.ofList_toList, oid.create_text]
  simp [Except.toOption, htext]

/-- The bytes of a line are the digits of the id and, after a blank, those of the name. -/
theorem Record.encode_line (e : Record) :
    Text.encode e.line = e.oid.text.toList ++ ' ' :: Text.encode e.name := by
  have hspace : Text.encode " " = [' '] := by decide
  rw [line, Text.encode_append, Text.encode_append, hspace,
    Text.encode_of_ascii fun c hc => e.oid.ascii hc]
  simp

/-- The first of the lines of references, with the empty one at their end, starts with a digit or is
empty. -/
theorem exists_first (records : List Record) :
    ∃ first more, (records.flatMap Record.lines).map Text.encode ++ [[]] = first :: more ∧
      ∀ mark, isHexDigit mark = false → first.head? ≠ some mark := by
  cases records with
  | nil => exact ⟨[], [], rfl, by simp⟩
  | cons e rest =>
    refine ⟨Text.encode e.line, _, rfl, fun mark hmark hhead => ?_⟩
    obtain ⟨c, digits, hdigits⟩ := List.exists_cons_of_ne_nil (l := e.oid.text.toList)
      (by simpa using e.oid.text_ne_empty)
    rw [e.encode_line, hdigits] at hhead
    obtain rfl : c = mark := Option.some.inj hhead
    exact e.oid.not_mem_of_not_isHexDigit hmark (by simp [hdigits])

/-- The line of a reference is read as that. -/
theorem Record.packedLine?_encode (e : Record) :
    packedLine? (Text.encode e.line) = some (Text.encode e.name, e.oid) := by
  have hcontrol {c : Char} (hc : Text.isControl c = true) (hlow : c.toNat < 0x20) :
      c ∉ Text.encode e.name := by
    refine not_mem_encode_of_isControl hlow fun hmem => ?_
    rw [e.acceptable.control c hmem] at hc
    cases hc
  have hname : (Text.dropReturn (Text.encode e.name)).takeWhile (· ≠ '\x00') =
      Text.encode e.name := by
    rw [dropReturn_of_not_mem (hcontrol (by decide) (by decide)), List.takeWhile_eq_self_iff]
    intro c hc
    refine decide_eq_true ?_
    rintro rfl
    exact hcontrol (by decide) (by decide) hc
  rw [packedLine?, e.encode_line, leadingId?_append e.length, List.drop_left' e.length]
  exact congrArg (fun name => some (name, e.oid)) hname

/-- The table after more references. -/
def addRecords (table : PackedTable) (records : List Record) : PackedTable :=
  records.foldl (fun table e => addPacked table (Text.encode e.name) e.oid e.peeled) table

/-- A line that no line with a caret follows gives a reference. -/
theorem parsePackedLines_cons {table : PackedTable} {line next : List Char}
    {more : List (List Char)} {name : List Char} {oid : Oid}
    (hline : packedLine? line = some (name, oid)) (h : next.head? ≠ some '^') :
    parsePackedLines table (line :: next :: more) =
      parsePackedLines (addPacked table name oid none) (next :: more) := by
  cases next with
  | nil => simp [parsePackedLines, hline]
  | cons c cs =>
    have hc : c ≠ '^' := by simpa using h
    simp [parsePackedLines, hline, hc]

/-- A line that a line with a caret follows gives a reference with what its tag stands for. -/
theorem parsePackedLines_cons_caret {table : PackedTable} {line id : List Char}
    {rest : List (List Char)} {name : List Char} {oid peeled : Oid}
    (hline : packedLine? line = some (name, oid)) (hid : leadingId? id = some peeled)
    (hrest : rest ≠ []) :
    parsePackedLines table (line :: ('^' :: id) :: rest) =
      parsePackedLines (addPacked table name oid (some peeled)) rest := by
  have hmore : (guard ((!rest.isEmpty || decide (id.length = 40)) = true) : Option Unit) =
      some () :=
    if_pos (by simp [hrest])
  rw [parsePackedLines, hline, hid]
  simp only [Option.bind_eq_bind, Option.bind_some, hmore]

/-- The lines of references are read as those. -/
theorem parsePackedLines_records (table : PackedTable) (records : List Record) :
    parsePackedLines table ((records.flatMap Record.lines).map Text.encode ++ [[]]) =
      some (addRecords table records) := by
  induction records generalizing table with
  | nil => rfl
  | cons e rest ih =>
    have hlines : ((e :: rest).flatMap Record.lines).map Text.encode ++ [[]] =
        Text.encode e.line :: ((e.peeled.map fun id => Text.encode ("^" ++ id.text)).toList ++
          ((rest.flatMap Record.lines).map Text.encode ++ [[]])) := by
      cases hpeeled : e.peeled <;> simp [Record.lines, hpeeled]
    rw [hlines]
    cases hpeeled : e.peeled with
    | some id =>
      have hcaret : Text.encode ("^" ++ id.text) = '^' :: Text.encode id.text := by
        rw [Text.encode_append]
        rfl
      have hid : leadingId? (Text.encode id.text) = some id := by
        have hleading := leadingId?_append (e.peeledLength id (by simp [hpeeled])) []
        rwa [List.append_nil, ← Text.encode_of_ascii fun c hc => id.ascii hc] at hleading
      rw [Option.map_some, Option.toList_some, List.singleton_append, hcaret,
        parsePackedLines_cons_caret e.packedLine?_encode hid (by simp), ih, addRecords, addRecords,
        List.foldl_cons, hpeeled]
    | none =>
      obtain ⟨first, more, hfirst, hmark⟩ := exists_first rest
      rw [Option.map_none, Option.toList_none, List.nil_append, hfirst,
        parsePackedLines_cons e.packedLine?_encode (hmark _ (by decide)), ← hfirst, ih, addRecords,
        addRecords, List.foldl_cons, hpeeled]

/-- Names with the same bytes are the same. -/
theorem encode_inj {a b : String} (h : Text.encode a = Text.encode b) : a = b := by
  have hdecode := congrArg Text.decode? h
  rw [Text.decode?_encode, Text.decode?_encode] at hdecode
  exact Option.some.inj hdecode

/-- Adding references with new names puts them to the others. -/
theorem entries_addRecords {table : PackedTable} {records : List Record}
    (hnames : (records.map Record.name).Nodup)
    (hnew : ∀ e ∈ records, table.find? (Text.encode e.name) = none) :
    (addRecords table records).entries.Perm
      (records.map (fun e => (Text.encode e.name, e.oid, e.peeled)) ++ table.entries) := by
  induction records generalizing table with
  | nil => exact .refl _
  | cons e rest ih =>
    obtain ⟨hfirst, hrest⟩ := List.nodup_cons.1 hnames
    have hadd : addPacked table (Text.encode e.name) e.oid e.peeled =
        table.insert (Text.encode e.name) (e.oid, e.peeled) := by
      rw [addPacked, OrderedMap.alter, hnew e List.mem_cons_self]
      simp
    have hnewRest : ∀ other ∈ rest, (addPacked table (Text.encode e.name) e.oid e.peeled).find?
        (Text.encode other.name) = none := by
      intro other hother
      rw [hadd, OrderedMap.find?_insert_of_ne, hnew other (List.mem_cons_of_mem _ hother)]
      intro heq
      exact hfirst (List.mem_map.2 ⟨other, hother, encode_inj heq⟩)
    refine (ih hrest hnewRest).trans ?_
    rw [hadd]
    exact ((OrderedMap.insert_perm table _ (hnew e List.mem_cons_self)).append_left _).trans
      List.perm_middle

/-- An opened repository finds in the packed file the references that are written there. -/
theorem Written.parsePacked? {contents : ByteArray} {records : List Record}
    (h : Written contents records) :
    ∃ table, parsePacked? (Text.byteChars contents.data.toList) = some table ∧
      table.entries.Perm (records.map fun e => (Text.encode e.name, e.oid, e.peeled)) := by
  obtain ⟨comments, hcomments, rfl⟩ := h.text
  refine ⟨addRecords .empty records, ?_, ?_⟩
  · change RefDatabase.parsePacked? (Text.encode _) = _
    have hlines : ∀ line ∈ (comments ++ records.flatMap Record.lines).map Text.encode,
        '\n' ∉ line := by
      intro line hline
      obtain ⟨text, htext, rfl⟩ := List.mem_map.1 hline
      refine not_mem_encode_of_isControl (by decide) ?_
      rcases List.mem_append.1 htext with htext | htext
      · exact (hcomments text htext).1.1
      · obtain ⟨e, -, he⟩ := List.mem_flatMap.1 htext
        exact (e.isLine_of_mem he).1
    have hcomment : ∀ line ∈ comments.map Text.encode, decide (line.head? = some '#') = true := by
      intro line hline
      obtain ⟨text, htext, rfl⟩ := List.mem_map.1 hline
      obtain ⟨rest, hrest⟩ := Option.isSome_iff_exists.1 (hcomments text htext).2
      rw [Text.after?_eq_some_iff.1 hrest, Text.encode_append]
      rfl
    obtain ⟨first, more, hfirst, hmark⟩ := exists_first records
    rw [RefDatabase.parsePacked?, encode_linesText, Text.splitOn_flatMap hlines, List.map_append,
      List.append_assoc, List.dropWhile_append_of_pos hcomment, hfirst,
      List.dropWhile_cons_of_neg (by simpa using hmark '#' (by decide)), ← hfirst]
    have hsome := parsePackedLines_records .empty records
    have hmore : (guard ((!((records.flatMap Record.lines).map Text.encode ++ [[]]).isEmpty) =
        true) : Option Unit) = some () :=
      if_pos (by simp)
    simp only [hsome, hmore, Option.bind_eq_bind, Option.bind_some]
  · have hperm : (addRecords .empty records).entries.Perm _ :=
      entries_addRecords h.names fun e _ => rfl
    rwa [show (OrderedMap.empty : PackedTable).entries = [] from rfl, List.append_nil] at hperm

end PackedRefs

end WorktreeTracker
