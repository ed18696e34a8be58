import Mathlib.Data.List.DropRight
import WorktreeTracker.Text

/-!
# Facts about text

What a text starts with, ends in and contains is told by its characters. The bytes of a text tell
its characters too and come in the same order, and a byte in ASCII stands for its own character
only.
-/

namespace WorktreeTracker.Text

/-! ## Leading, trailing and inner parts -/

theorem charsAfter?_eq_some_iff {lead cs rest : List Char} :
    charsAfter? lead cs = some rest ↔ cs = lead ++ rest := by
  induction lead generalizing cs with
  | nil => simp [charsAfter?, eq_comm]
  | cons l lead ih =>
    cases cs with
    | nil => simp [charsAfter?]
    | cons c cs =>
      rw [charsAfter?]
      split
      next h => simp [h, ih]
      next h => simp [Ne.symm h]

/-- What precedes an ending is what the list is made of before it. -/
theorem charsAfter?_reverse_eq_some_iff {ending cs front : List Char} :
    charsAfter? ending.reverse cs.reverse = some front.reverse ↔ cs = front ++ ending := by
  rw [charsAfter?_eq_some_iff, ← List.reverse_append, List.reverse_inj]

/-- What follows a lead is what the text is made of after it. -/
theorem after?_eq_some_iff {lead s rest : String} : after? lead s = some rest ↔ s = lead ++ rest := by
  rw [after?, Option.map_eq_some_iff]
  constructor
  · rintro ⟨cs, hcs, rfl⟩
    rw [← String.toList_inj, charsAfter?_eq_some_iff.1 hcs, String.toList_append,
      String.toList_ofList]
  · rintro rfl
    exact ⟨rest.toList, charsAfter?_eq_some_iff.2 String.toList_append, String.ofList_toList⟩

theorem after?_append (lead rest : String) : after? lead (lead ++ rest) = some rest :=
  after?_eq_some_iff.2 rfl

/-- What comes after a lead and a slash. -/
theorem after?_bind_after?_eq_some_iff {lead s rest : String} :
    (after? lead s).bind (after? "/") = some rest ↔ s = lead ++ "/" ++ rest := by
  rw [Option.bind_eq_some_iff]
  constructor
  · rintro ⟨more, hmore, hrest⟩
    rw [after?_eq_some_iff.1 hmore, after?_eq_some_iff.1 hrest, String.append_assoc]
  · rintro rfl
    rw [String.append_assoc]
    exact ⟨_, after?_append _ _, after?_append _ _⟩

/-- A text with a slash in two places has more between them. -/
theorem eq_or_longer_of_append_eq {a b x y : String} (h : a ++ "/" ++ x = b ++ "/" ++ y) :
    a = b ∨ (∃ more, b = a ++ "/" ++ more) ∨ ∃ more, a = b ++ "/" ++ more := by
  have hlonger {a b : String} {c : Char} {cs back : List Char} {y : String}
      (hb : b.toList = a.toList ++ c :: cs) (hc : '/' :: back = c :: cs ++ '/' :: y.toList) :
      b = a ++ "/" ++ String.ofList cs := by
    obtain rfl : '/' = c := List.head_eq_of_cons_eq hc
    simp [← String.toList_inj, hb]
  have hchars : a.toList ++ '/' :: x.toList = b.toList ++ '/' :: y.toList := by
    simpa [← String.toList_inj] using h
  rcases List.append_eq_append_iff.1 hchars with ⟨between, hb, hback⟩ | ⟨between, ha, hback⟩
  · cases between with
    | nil => exact .inl (String.toList_inj.1 (by simpa using hb.symm))
    | cons c cs => exact .inr (.inl ⟨_, hlonger hb hback⟩)
  · cases between with
    | nil => exact .inl (String.toList_inj.1 (by simpa using ha))
    | cons c cs => exact .inr (.inr ⟨_, hlonger ha hback⟩)

theorem startsWith_iff {lead s : String} : startsWith lead s = true ↔ lead.toList <+: s.toList := by
  rw [startsWith, Option.isSome_iff_exists]
  constructor
  · rintro ⟨rest, h⟩
    rw [after?_eq_some_iff.1 h, String.toList_append]
    exact List.prefix_append _ _
  · rintro ⟨cs, h⟩
    refine ⟨String.ofList cs, after?_eq_some_iff.2 ?_⟩
    rw [← String.toList_inj, String.toList_append, String.toList_ofList, h]

theorem endsWith_iff {tail s : String} : endsWith tail s = true ↔ tail.toList <:+ s.toList := by
  rw [endsWith, before?, Option.isSome_map, Option.isSome_iff_exists, ← List.reverse_prefix]
  constructor
  · rintro ⟨cs, h⟩
    exact ⟨cs, (charsAfter?_eq_some_iff.1 h).symm⟩
  · rintro ⟨cs, h⟩
    exact ⟨cs, charsAfter?_eq_some_iff.2 h.symm⟩

theorem occursIn_iff {part cs : List Char} : occursIn part cs = true ↔ part <:+: cs := by
  induction cs with
  | nil => simp [occursIn]
  | cons c cs ih =>
    rw [occursIn, Bool.or_eq_true, ih, List.infix_cons_iff, Option.isSome_iff_exists]
    refine or_congr_left ⟨?_, ?_⟩
    · rintro ⟨rest, h⟩
      exact ⟨rest, (charsAfter?_eq_some_iff.1 h).symm⟩
    · rintro ⟨rest, h⟩
      exact ⟨rest, charsAfter?_eq_some_iff.2 h.symm⟩

/-! ## Blanks at the ends -/

/-- Nothing is dropped before a character that stays. -/
theorem dropTrailing_append {p : Char → Bool} {front back : List Char} {last : Char}
    (hlast : front.getLast? = some last) (h : p last = false) :
    dropTrailing p (front ++ back) = front ++ dropTrailing p back := by
  obtain ⟨init, rfl⟩ := List.getLast?_eq_some_iff.1 hlast
  rw [dropTrailing, dropTrailing, List.reverse_append, List.dropWhile_append]
  split
  next hempty =>
    rw [List.isEmpty_iff.1 hempty]
    simp [h]
  next => simp

/-- A part of a list that neither starts nor ends with a blank stays when what is around is
trimmed. -/
theorem trimChars_append {front back : List Char} {first last : Char}
    (hfirst : front.head? = some first) (hlast : front.getLast? = some last)
    (h : isBlank first = false ∧ isBlank last = false) :
    trimChars (front ++ back) = front ++ dropTrailing isBlank back := by
  obtain ⟨rest, rfl⟩ := List.head?_eq_some_iff.1 hfirst
  rw [trimChars, List.cons_append, List.dropWhile_cons_of_neg (by simp [h.1]),
    ← List.cons_append, dropTrailing_append hlast h.2]

/-- What is dropped at the end are the last characters of a list. -/
theorem dropTrailing_split (p : Char → Bool) (cs : List Char) :
    ∃ back, cs = dropTrailing p cs ++ back ∧ ∀ c ∈ back, p c = true :=
  ⟨cs.rtakeWhile p, List.rdropWhile_append_rtakeWhile.symm, fun _ => List.mem_rtakeWhile_imp⟩

/-- What is left of a list does not end in a character that is dropped. -/
theorem of_getLast?_dropTrailing {p : Char → Bool} {cs : List Char} {c : Char}
    (h : (dropTrailing p cs).getLast? = some c) : p c = false := by
  have hne : cs.rdropWhile p ≠ [] := by
    intro hnil
    rw [dropTrailing, ← List.rdropWhile, hnil] at h
    cases h
  have hlast := List.rdropWhile_last_not p cs hne
  obtain rfl : (cs.rdropWhile p).getLast hne = c :=
    Option.some.inj ((List.getLast?_eq_some_getLast hne).symm.trans h)
  simpa using hlast

/-- Blanks at the end do not count when a text is trimmed. -/
theorem trimChars_append_of_blank {cs back : List Char} (h : ∀ c ∈ back, isBlank c = true) :
    trimChars (cs ++ back) = trimChars cs := by
  have hback : back.reverse.dropWhile isBlank = [] :=
    List.dropWhile_eq_nil_iff.2 fun c hc => h c (List.mem_reverse.1 hc)
  rw [trimChars, trimChars, List.dropWhile_append]
  split
  next hempty => rw [List.isEmpty_iff.1 hempty, List.dropWhile_eq_nil_iff.2 h]
  next =>
    rw [dropTrailing, List.reverse_append, List.dropWhile_append, hback]
    rfl

/-- Trimming never makes a list longer. -/
theorem length_trimChars_le (cs : List Char) : (trimChars cs).length ≤ cs.length :=
  (List.rdropWhile_prefix isBlank _).length_le.trans (List.dropWhile_suffix isBlank).length_le

/-! ## Parts between separators -/

/-- Two texts with a separator between them have the parts of both. -/
theorem splitOn_append (a b : String) : splitOn '/' (a ++ "/" ++ b) = splitOn '/' a ++ splitOn '/' b := by
  have hlist : (a ++ "/" ++ b).toList = a.toList ++ '/' :: b.toList := by
    simp
  rw [splitOn, hlist, List.splitOn_append_cons_self, List.map_append]
  rfl

/-- The parts of a text make it up. -/
theorem intercalate_splitOn (s : String) : "/".intercalate (splitOn '/' s) = s := by
  rw [← String.toList_inj, String.toList_intercalate, splitOn, List.map_map]
  have hid : String.toList ∘ String.ofList = id := funext fun cs => String.toList_ofList
  rw [hid, List.map_id]
  exact List.intercalate_splitOn '/'

/-- Every text has a part, the empty one an empty part. -/
theorem splitOn_ne_nil (s : String) : splitOn '/' s ≠ [] := by
  intro hnil
  have htext := intercalate_splitOn s
  rw [hnil] at htext
  rw [← htext] at hnil
  exact absurd hnil (by decide)

/-- Texts without separators are the parts of the text made of them. -/
theorem splitOn_intercalate {c : Char} {parts : List String}
    (hparts : ∀ part ∈ parts, c ∉ part.toList) (hne : parts ≠ []) :
    splitOn c ((String.singleton c).intercalate parts) = parts := by
  have hlists : ∀ cs ∈ parts.map String.toList, c ∉ cs := by
    intro cs hcs
    obtain ⟨part, hpart, rfl⟩ := List.mem_map.1 hcs
    exact hparts part hpart
  have hid : String.ofList ∘ String.toList = id := funext fun s => String.ofList_toList
  rw [splitOn, String.toList_intercalate, String.toList_singleton,
    List.splitOn_intercalate c hlists (by simpa using hne), List.map_map, hid, List.map_id]

/-- A list without separators is its only part. -/
theorem splitOn_of_not_mem {c : Char} {cs : List Char} (h : c ∉ cs) : cs.splitOn c = [cs] := by
  have hsplit : ([c].intercalate [cs]).splitOn c = [cs] :=
    List.splitOn_intercalate c (by simpa using h) (by simp)
  rwa [List.intercalate_singleton] at hsplit

/-- Lists that are each ended by a separator are the parts, with an empty one after the last. -/
theorem splitOn_flatMap {c : Char} {lines : List (List Char)} (h : ∀ line ∈ lines, c ∉ line) :
    (lines.flatMap (· ++ [c])).splitOn c = lines ++ [[]] := by
  induction lines with
  | nil => rfl
  | cons line rest ih =>
    rw [List.flatMap_cons, List.append_assoc, List.singleton_append, List.splitOn_append_cons_self,
      splitOn_of_not_mem (h line List.mem_cons_self),
      ih fun other hother => h other (List.mem_cons_of_mem _ hother)]
    rfl

/-- The parts have no separator in them. -/
theorem not_mem_of_mem_splitOn {part s : String} (h : part ∈ splitOn '/' s) : '/' ∉ part.toList := by
  obtain ⟨cs, hcs, rfl⟩ := List.mem_map.1 h
  rw [String.toList_ofList]
  generalize s.toList = text at hcs
  -- the text before the first separator is a part, and what comes after it is shorter
  induction hlength : text.length using Nat.strongRecOn generalizing text with
  | ind n ih =>
    by_cases hmem : '/' ∈ text
    · obtain ⟨front, back, rfl, hfront⟩ := List.eq_append_cons_of_mem hmem
      rw [List.splitOn_append_cons_self, splitOn_of_not_mem hfront, List.singleton_append,
        List.mem_cons] at hcs
      rcases hcs with rfl | hcs
      · exact hfront
      · exact ih back.length (by simp [← hlength]; omega) back hcs rfl
    · rw [splitOn_of_not_mem hmem, List.mem_singleton] at hcs
      rwa [hcs]

/-- Texts joined by separators go on with a separator. -/
theorem intercalate_append {front back : List String} (hfront : front ≠ []) (hback : back ≠ []) :
    "/".intercalate (front ++ back) = "/".intercalate front ++ "/" ++ "/".intercalate back := by
  induction front with
  | nil => exact absurd rfl hfront
  | cons part rest ih =>
    cases rest with
    | nil =>
      obtain ⟨next, more, rfl⟩ := List.exists_cons_of_ne_nil hback
      rw [String.intercalate_singleton, List.cons_append, List.nil_append,
        String.intercalate_cons_cons]
    | cons next rest =>
      rw [List.cons_append, List.cons_append, String.intercalate_cons_cons, ← List.cons_append,
        ih (by simp), String.intercalate_cons_cons]
      simp [String.append_assoc]

/-- A text starts with its first part, and goes on with a separator when there is more. -/
theorem exists_first_part (s : String) :
    ∃ first ∈ splitOn '/' s, s = first ∨ ∃ rest, s = first ++ "/" ++ rest := by
  obtain ⟨first, more, hsplit⟩ := List.exists_cons_of_ne_nil (splitOn_ne_nil s)
  refine ⟨first, by simp [hsplit], ?_⟩
  have htext := intercalate_splitOn s
  cases more with
  | nil =>
    rw [hsplit, String.intercalate_singleton] at htext
    exact .inl htext.symm
  | cons next rest =>
    rw [hsplit, String.intercalate_cons_cons] at htext
    exact .inr ⟨_, htext.symm⟩

/-- A text ends in its last part, with a separator before it when there is more. -/
theorem exists_last_part (s : String) :
    ∃ last ∈ splitOn '/' s, s = last ∨ ∃ front, s = front ++ "/" ++ last := by
  obtain ⟨front, last, hsplit⟩ := (List.eq_nil_or_concat (splitOn '/' s)).resolve_left
    (splitOn_ne_nil s)
  rw [List.concat_eq_append] at hsplit
  refine ⟨last, by simp [hsplit], ?_⟩
  have htext := intercalate_splitOn s
  by_cases hfront : front = []
  · rw [hsplit, hfront, List.nil_append, String.intercalate_singleton] at htext
    exact .inl htext.symm
  · rw [hsplit, intercalate_append hfront (by simp), String.intercalate_singleton] at htext
    exact .inr ⟨_, htext.symm⟩

/-! ## Bytes -/

/-- The bytes of a text are those of its characters. -/
theorem bytes_eq (s : String) : bytes s = s.toList.flatMap String.utf8EncodeChar := by
  have hencode : s.toByteArray = s.toList.utf8Encode := String.utf8Encode_toList.symm
  rw [bytes, String.toUTF8_eq_toByteArray, hencode, List.utf8Encode, List.data_toByteArray]

/-- Texts with the same bytes are equal. -/
theorem bytes_inj {s t : String} (h : bytes s = bytes t) : s = t := by
  refine String.toByteArray_inj.1 (ByteArray.ext ?_)
  exact Array.toList_inj.1 h

/-- A byte in ASCII among those of a character is the number of the character. -/
theorem ofNat_of_mem_utf8EncodeChar {b : UInt8} {c : Char} (h : b ∈ String.utf8EncodeChar c)
    (hb : b.toNat < 0x80) : Char.ofNat b.toNat = c := by
  have hchar : c.val.toNat = b.toNat := by
    simp only [String.utf8EncodeChar] at h
    -- a character takes one to four bytes, and all of several bytes are above ASCII
    split at h
    · rw [List.mem_singleton.1 h, UInt8.toNat_ofNat']
      omega
    · split at h
      · simp only [List.mem_cons, List.not_mem_nil, or_false] at h
        rcases h with rfl | rfl <;> rw [UInt8.toNat_ofNat'] at hb <;> omega
      · split at h
        · simp only [List.mem_cons, List.not_mem_nil, or_false] at h
          rcases h with rfl | rfl | rfl <;> rw [UInt8.toNat_ofNat'] at hb <;> omega
        · simp only [List.mem_cons, List.not_mem_nil, or_false] at h
          rcases h with rfl | rfl | rfl | rfl <;> rw [UInt8.toNat_ofNat'] at hb <;> omega
  rw [← hchar]
  exact Char.ofNat_toNat c

/-- A byte in ASCII is there only for its own character. -/
theorem mem_toList_of_mem_bytes {b : UInt8} {s : String} (h : b ∈ bytes s) (hb : b.toNat < 0x80) :
    Char.ofNat b.toNat ∈ s.toList := by
  rw [bytes_eq] at h
  obtain ⟨c, hc, hbc⟩ := List.mem_flatMap.1 h
  rw [ofNat_of_mem_utf8EncodeChar hbc hb]
  exact hc

/-! ## Bytes as characters -/

/-- The text that the bytes of a text stand for. -/
theorem fromUTF8?_toUTF8 (s : String) : String.fromUTF8? s.toUTF8 = some s := by
  have hvalid : s.toUTF8.IsValidUTF8 := s.isValidUTF8
  rw [String.fromUTF8?, dif_pos hvalid]
  rfl

theorem encode_append (s t : String) : encode (s ++ t) = encode s ++ encode t := by
  rw [encode, encode, encode, bytes_eq, bytes_eq, bytes_eq, String.toList_append,
    List.flatMap_append, byteChars, List.map_append]
  rfl

theorem toNat_byteChar (b : UInt8) : (Char.ofNat b.toNat).toNat = b.toNat := by
  have hvalid : b.toNat.isValidChar := .inl (Nat.lt_trans b.toNat_lt (by decide))
  rw [Char.ofNat, dif_pos hvalid]
  rfl

/-- Bytes as characters stand for the text that they came from. -/
theorem decode?_encode (s : String) : decode? (encode s) = some s := by
  have hbytes : (encode s).map (fun c => UInt8.ofNat c.toNat) = bytes s := by
    rw [encode, byteChars, List.map_map]
    refine (List.map_congr_left fun b _ => ?_).trans (List.map_id _)
    simp [toNat_byteChar]
  rw [decode?, hbytes]
  exact fromUTF8?_toUTF8 s

/-- A character in ASCII is among the bytes of a text only when it is in the text. -/
theorem mem_of_mem_encode {c : Char} {s : String} (h : c ∈ encode s) (hc : c.toNat < 0x80) :
    c ∈ s.toList := by
  obtain ⟨b, hb, rfl⟩ := List.mem_map.1 h
  rw [toNat_byteChar] at hc
  exact mem_toList_of_mem_bytes hb hc

/-- A text in ASCII has its own characters as its bytes. -/
theorem encode_of_ascii {s : String} (h : ∀ c ∈ s.toList, c.toNat < 0x80) :
    encode s = s.toList := by
  have hone (c : Char) (hc : c ∈ s.toList) : byteChars (String.utf8EncodeChar c) = [c] := by
    have hval : c.val.toNat ≤ 0x7f := Nat.le_of_lt_succ (h c hc)
    rw [String.utf8EncodeChar, if_pos hval, byteChars, List.map_singleton, UInt8.toNat_ofNat',
      Nat.mod_eq_of_lt (by omega)]
    exact congrArg ([·]) (Char.ofNat_toNat c)
  rw [encode, bytes_eq, byteChars, List.map_flatMap]
  change s.toList.flatMap (fun c => byteChars (String.utf8EncodeChar c)) = s.toList
  rw [List.flatMap_congr hone]
  exact List.flatMap_singleton' _

/-! ## ASCII -/

/-- A text of ASCII characters takes one byte for each of them. -/
theorem utf8ByteSize_of_ascii {s : String} (h : ∀ c ∈ s.toList, c.toNat < 0x80) :
    s.utf8ByteSize = s.toList.length := by
  have hbytes : s.utf8ByteSize = (bytes s).length := rfl
  have hone (c : Char) (hc : c ∈ s.toList) : (String.utf8EncodeChar c).length = 1 := by
    have hval : c.val.toNat ≤ 0x7f := Nat.le_of_lt_succ (h c hc)
    rw [String.utf8EncodeChar, if_pos hval, List.length_singleton]
  rw [hbytes, bytes_eq, List.length_flatMap, List.map_congr_left hone, List.map_const']
  simp

/-- A property of characters that holds in ASCII and beyond it holds of every character. -/
theorem forall_char {p : Char → Prop} (hascii : ∀ n < 0x80, p (Char.ofNat n))
    (hbeyond : ∀ c : Char, 0x80 ≤ c.toNat → p c) (c : Char) : p c := by
  by_cases hc : c.toNat < 0x80
  · rw [← Char.ofNat_toNat c]
    exact hascii _ hc
  · exact hbeyond c (Nat.le_of_not_lt hc)

/-- A character beyond ASCII is above every ASCII character. -/
theorem decide_le_of_le {c d : Char} (hc : 0x80 ≤ c.toNat) (hd : d.toNat < 0x80) :
    decide (c ≤ d) = false := by
  rw [decide_eq_false_iff_not, Char.le_def, UInt32.le_iff_toNat_le]
  exact Nat.not_le_of_lt (Nat.lt_of_lt_of_le hd hc)

theorem lowerAscii_of_le {c : Char} (h : 0x80 ≤ c.toNat) : lowerAscii c = c := by
  rw [lowerAscii, decide_le_of_le h (by decide), Bool.and_false, if_neg Bool.false_ne_true]

/-! ## Order of bytes -/

/-- Two lists of bytes are ordered by their first bytes, and when these are equal by the rest. -/
theorem ofNat_cons_lt {m n : Nat} {front back : List UInt8} (hle : m ≤ n) (hn : n < 256)
    (hrest : m = n → front < back) : UInt8.ofNat m :: front < UInt8.ofNat n :: back := by
  rw [List.cons_lt_cons_iff]
  rcases Nat.lt_or_eq_of_le hle with hlt | heq
  · left
    rw [UInt8.lt_iff_toNat_lt, UInt8.toNat_ofNat', UInt8.toNat_ofNat']
    omega
  · right
    exact ⟨congrArg UInt8.ofNat heq, hrest heq⟩

/-- The bytes of a lower character come before those of a higher one, whatever follows. -/
theorem utf8EncodeChar_append_lt {c d : Char} (h : c < d) (front back : List UInt8) :
    String.utf8EncodeChar c ++ front < String.utf8EncodeChar d ++ back := by
  have hval : c.val.toNat < d.val.toNat := h
  have hvalid : d.val.toNat < 0xd800 ∨ 0xdfff < d.val.toNat ∧ d.val.toNat < 0x110000 := d.valid
  have hbound : d.val.toNat < 0x110000 := by omega
  clear hvalid
  unfold String.utf8EncodeChar
  dsimp only
  generalize c.val.toNat = v at hval
  generalize d.val.toNat = w at hval hbound
  -- more bytes have a higher first byte, and bytes as many are compared one after the other
  split
  next =>
    split
    · exact ofNat_cons_lt (by omega) (by omega) fun heq => by omega
    split
    · exact ofNat_cons_lt (by omega) (by omega) fun heq => by omega
    split
    · exact ofNat_cons_lt (by omega) (by omega) fun heq => by omega
    · exact ofNat_cons_lt (by omega) (by omega) fun heq => by omega
  next =>
    rw [if_neg (by omega : ¬ w ≤ 127)]
    split
    next =>
      split
      · refine ofNat_cons_lt (by omega) (by omega) fun hfirst => ?_
        exact ofNat_cons_lt (by omega) (by omega) fun heq => by omega
      split
      · exact ofNat_cons_lt (by omega) (by omega) fun heq => by omega
      · exact ofNat_cons_lt (by omega) (by omega) fun heq => by omega
    next =>
      rw [if_neg (by omega : ¬ w ≤ 2047)]
      split
      next =>
        split
        · refine ofNat_cons_lt (by omega) (by omega) fun hfirst => ?_
          refine ofNat_cons_lt (by omega) (by omega) fun hsecond => ?_
          exact ofNat_cons_lt (by omega) (by omega) fun heq => by omega
        · exact ofNat_cons_lt (by omega) (by omega) fun heq => by omega
      next =>
        rw [if_neg (by omega : ¬ w ≤ 65535)]
        refine ofNat_cons_lt (by omega) (by omega) fun hfirst => ?_
        refine ofNat_cons_lt (by omega) (by omega) fun hsecond => ?_
        refine ofNat_cons_lt (by omega) (by omega) fun hthird => ?_
        exact ofNat_cons_lt (by omega) (by omega) fun heq => by omega

/-- UTF-8 keeps the order: a text before another one has its bytes before those of the other. -/
theorem bytes_lt_of_lt {s t : String} (h : s < t) : bytes s < bytes t := by
  replace h : s.toList < t.toList := h
  rw [bytes_eq, bytes_eq]
  generalize s.toList = cs at h
  generalize t.toList = ds at h
  induction cs generalizing ds with
  | nil =>
    cases ds with
    | nil => exact absurd h (List.lt_irrefl _)
    | cons d ds =>
      obtain ⟨b, bs, hbytes⟩ := List.exists_cons_of_ne_nil (String.utf8EncodeChar_ne_nil (c := d))
      rw [List.flatMap_nil, List.flatMap_cons, hbytes]
      exact List.nil_lt_cons _ _
  | cons c cs ih =>
    cases ds with
    | nil => exact absurd h (List.not_lt_nil _)
    | cons d ds =>
      rw [List.flatMap_cons, List.flatMap_cons]
      rcases List.cons_lt_cons_iff.1 h with hlt | ⟨rfl, hrest⟩
      · exact utf8EncodeChar_append_lt hlt _ _
      · exact List.append_left_lt (ih ds hrest)

end WorktreeTracker.Text
