import WorktreeTracker.JsonText
import WorktreeTracker.Proofs.Name
import WorktreeTracker.Proofs.ObjectId

/-!
# Identifiers that are read back

An identifier is written as a JSON text and read back through the check of new identifiers. Ids and
ref names pass it again, those of branches and of remote-tracking branches included, and so do the
names of branches that were made under it. The name of a branch that exists was accepted under fewer
rules, and passes exactly when it could be that of a new branch.
-/

namespace WorktreeTracker

/-! ## JSON texts -/

namespace JsonText

/-- The character that a letter after a backslash stands for. -/
def escaped? : Char → Option Char
  | '"' => some '"'
  | '\\' => some '\\'
  | '/' => some '/'
  | 'b' => some '\x08'
  | 'f' => some '\x0C'
  | 'n' => some '\n'
  | 'r' => some '\r'
  | 't' => some '\t'
  | _ => none

/-- The number that four hexadecimal digits write. -/
def codeOf? (a b c d : Char) : Option Nat := do
  let a ← Text.hexValue? a
  let b ← Text.hexValue? b
  let c ← Text.hexValue? c
  let d ← Text.hexValue? d
  return ((a * 16 + b) * 16 + c) * 16 + d

/-- The characters before the quote at the end, escapes replaced by what they stand for. Two escapes
that stand for one character together are not joined: they are not written. -/
def unquoteChars : List Char → Option (List Char)
  | [] => none
  | ['"'] => some []
  | '"' :: _ :: _ => none
  | '\\' :: 'u' :: a :: b :: c :: d :: rest => do
    let code ← codeOf? a b c d
    let chars ← unquoteChars rest
    return Char.ofNat code :: chars
  | '\\' :: letter :: rest => do
    let c ← escaped? letter
    let chars ← unquoteChars rest
    return c :: chars
  | ['\\'] => none
  | c :: rest => if c.toNat < 0x20 then none else (unquoteChars rest).map (c :: ·)

/-- The text that a JSON text writes, when it is a text in quotes. -/
def readText (json : String) : Option Value :=
  match json.toList with
  | '"' :: rest => (unquoteChars rest).map fun chars => .text (String.ofList chars)
  | _ => none

theorem codeOf?_hexByte : ∀ n < 0x20,
    codeOf? '0' '0' (Text.hexDigit (n / 16)) (Text.hexDigit (n % 16)) = some n := by
  decide

/-- An escape of one letter is read as what it stands for. -/
theorem unquoteChars_letter {letter c : Char} (h : escaped? letter = some c) (rest : List Char) :
    unquoteChars ('\\' :: letter :: rest) = (unquoteChars rest).map (c :: ·) := by
  have hne : letter ≠ 'u' := by
    rintro rfl
    cases h
  rw [unquoteChars.eq_def]
  cases hrest : unquoteChars rest <;> simp [h, hne, hrest]

/-- A character is written as an escape of one letter, as one of four digits when it is another
control character, or else as itself. -/
theorem escapeChar_cases (c : Char) :
    (∃ letter, escapeChar c = ['\\', letter] ∧ escaped? letter = some c) ∨
      (c.toNat < 0x20 ∧ escapeChar c =
        ['\\', 'u', '0', '0', Text.hexDigit (c.toNat / 16), Text.hexDigit (c.toNat % 16)]) ∨
      c ≠ '"' ∧ c ≠ '\\' ∧ ¬ c.toNat < 0x20 ∧ escapeChar c = [c] := by
  by_cases hletter : c ∈ ['"', '\\', '\n', '\r', '\t', '\x08', '\x0C']
  · simp only [List.mem_cons, List.not_mem_nil, or_false] at hletter
    rcases hletter with rfl | rfl | rfl | rfl | rfl | rfl | rfl <;> exact .inl ⟨_, rfl, rfl⟩
  · right
    simp only [List.mem_cons, List.not_mem_nil, or_false, not_or] at hletter
    obtain ⟨hquote, hslash, hnewline, hreturn, htab, hback, hfeed⟩ := hletter
    rw [escapeChar, if_neg hquote, if_neg hslash, if_neg hnewline, if_neg hreturn, if_neg htab,
      if_neg hback, if_neg hfeed]
    by_cases hcontrol : c.toNat < 0x20
    · have hbyte : (UInt8.ofNat c.toNat).toNat = c.toNat :=
        UInt8.toNat_ofNat_of_lt (Nat.lt_trans hcontrol (by decide))
      rw [if_pos hcontrol, Text.hexByte, hbyte]
      exact .inl ⟨hcontrol, rfl⟩
    · rw [if_neg hcontrol]
      exact .inr ⟨hquote, hslash, hcontrol, rfl⟩

/-- A character is read as it is written. -/
theorem unquoteChars_escapeChar (c : Char) (rest : List Char) :
    unquoteChars (escapeChar c ++ rest) = (unquoteChars rest).map (c :: ·) := by
  rcases escapeChar_cases c with
    ⟨letter, hchars, hletter⟩ | ⟨hcontrol, hchars⟩ | ⟨hquote, hslash, hcontrol, hchars⟩
  · rw [hchars]
    exact unquoteChars_letter hletter rest
  · simp only [hchars, List.cons_append, List.nil_append, unquoteChars,
      codeOf?_hexByte c.toNat hcontrol]
    cases unquoteChars rest <;> simp [Char.ofNat_toNat]
  · rw [hchars, List.singleton_append, unquoteChars, if_neg hcontrol]
    -- the character is neither the quote at the end nor the start of an escape
    all_goals intros; contradiction

/-- A text in quotes is read as the text. -/
theorem readText_format (s : String) : readText (format (.text s)) = some (.text s) := by
  have hchars (cs : List Char) : unquoteChars (cs.flatMap escapeChar ++ ['"']) = some cs := by
    induction cs with
    | nil => rfl
    | cons c rest ih =>
      rw [List.flatMap_cons, List.append_assoc, unquoteChars_escapeChar, ih, Option.map_some]
  rw [format, write, quote, readText, String.toList_ofList]
  show (unquoteChars (s.toList.flatMap escapeChar ++ ['"'])).map _ = _
  rw [hchars, Option.map_some, String.ofList_toList]

end JsonText

/-! ## Identifiers -/

section

variable (read : String → Option Value)

/-- What is read back of a value that is written as JSON. -/
def readBack {α : Type} (decode : Value → Except DecodeError α) (v : Value) : Option α :=
  (read (JsonText.format v)).bind fun found => (decode found).toOption

variable {read}

/-- A text is read back through the check of its kind. -/
theorem readBack_ofCheck_iff (hread : ∀ s, read (JsonText.format (.text s)) = some (.text s))
    {α : Type} {check : String → Except InvalidIdentifier α} {s : String} {a : α} :
    readBack read (DecodeError.ofCheck check) (.text s) = some a ↔ check s = .ok a := by
  rw [readBack, hread, Option.bind_some, DecodeError.ofCheck, toOption_eq_some_iff, mapError_eq_ok]

/-- Identifiers are read back from JSON by any reader of JSON that reads texts back: ids, ref names,
the references of branches and those of the branches of remotes with an acceptable name, and the
names of branches that were made as new ones. The name of a branch that exists is read back exactly
when it is not `@` and does not start with a dash, and then as it was; else it is refused. -/
theorem identifiers_read_back
    (hread : ∀ s, read (JsonText.format (.text s)) = some (.text s)) :
    (∀ s b, BranchName.create s = .ok b →
        readBack read BranchName.ofValue b.toValue = some b) ∧
      (∀ s b, BranchName.ofRef s = .ok b →
        ∀ c, readBack read BranchName.ofValue b.toValue = some c ↔
          c = b ∧ s ≠ "@" ∧ ¬ ['-'] <+: s.toList) ∧
      (∀ s oid, Oid.create s = .ok oid → readBack read Oid.ofValue oid.toValue = some oid) ∧
      (∀ s name, RefName.create s = .ok name →
        readBack read RefName.ofValue name.toValue = some name) ∧
      (∀ b, readBack read RefName.ofValue (RefName.ofBranch b).toValue =
        some (RefName.ofBranch b)) ∧
      ∀ remote r b, BranchName.ofRef remote = .ok r →
        readBack read RefName.ofValue (RefName.ofRemoteBranch remote b).toValue =
          some (RefName.ofRemoteBranch remote b) := by
  refine ⟨?_, ?_, ?_, ?_, ?_, ?_⟩
  · intro s b hb
    obtain ⟨rfl, hnew⟩ := BranchName.create_eq_ok_iff.1 hb
    exact (readBack_ofCheck_iff hread).2 hb
  · intro s b hb c
    obtain rfl := BranchName.ofRef_eq_ok_iff.1 hb
    rw [BranchName.toValue, BranchName.ofValue, readBack_ofCheck_iff hread,
      BranchName.create_eq_ok_iff]
    exact and_congr_left' ⟨BranchName.text_inj, congrArg BranchName.text⟩
  · intro s oid _
    exact (readBack_ofCheck_iff hread).2 oid.create_text
  · intro s name hname
    obtain ⟨rfl, hkeeps⟩ := RefName.create_eq_ok_iff.1 hname
    exact (readBack_ofCheck_iff hread).2 hname
  · intro b
    exact (readBack_ofCheck_iff hread).2
      (RefName.create_eq_ok_iff.2 ⟨rfl, RefName.keeps_ofBranch b⟩)
  · intro remote r b hremote
    obtain rfl := BranchName.ofRef_eq_ok_iff.1 hremote
    exact (readBack_ofCheck_iff hread).2
      (RefName.create_eq_ok_iff.2 ⟨rfl, RefName.keeps_ofRemoteBranch r.keeps b⟩)

end

/-! ## Names that need not be read back -/

/-- The reader of quoted texts reads back the names of a new branch and of its references. -/
theorem identifiers_read_back_quoted :
    readBack JsonText.readText BranchName.ofValue
          (BranchName.mk "caf\u00e9/\"x\"" (by decide)).toValue =
        some ⟨"caf\u00e9/\"x\"", by decide⟩ ∧
      readBack JsonText.readText RefName.ofValue
          (RefName.ofRemoteBranch "team/eu" .master).toValue =
        some ⟨"refs/remotes/team/eu/master"⟩ := by
  obtain ⟨hnew, -, -, -, -, hremote⟩ := identifiers_read_back JsonText.readText_format
  exact ⟨hnew "caf\u00e9/\"x\"" _ (by decide),
    hremote "team/eu" ⟨"team/eu", by decide⟩ .master (by decide)⟩

/-- The name of a branch that exists can be refused when it is read back. -/
theorem dashed_name_refused :
    BranchName.ofRef "-wip" = .ok ⟨"-wip", by decide⟩ ∧
      readBack JsonText.readText BranchName.ofValue (BranchName.mk "-wip" (by decide)).toValue =
        none ∧
      BranchName.ofRef "@" = .ok ⟨"@", by decide⟩ ∧
      readBack JsonText.readText BranchName.ofValue (BranchName.mk "@" (by decide)).toValue =
        none := by
  refine ⟨by decide, ?_, by decide, ?_⟩
  · decide +kernel
  · decide +kernel

end WorktreeTracker
