import Mathlib.Data.List.Basic
import ChatRelay.Options
import ChatRelay.Proofs.Lines
import ChatRelay.Proofs.Substrings
import ChatRelay.Proofs.Tables

/-!
# Settings files read back

A settings file holds pairs of a key and a value, each quoted on a line of its own. How the lines
look besides is free: the word `export`, blanks, comments, and lines that say nothing.

* `Bytes.trim_padded` -- trimming takes off exactly the blanks that were put around a text;
* `Options.Layout` -- the free part of a line, and `Layout.line` the line of a pair;
* `Options.settingOfLine_line` -- a line reads back as its pair;
* `Options.readSettings_of_writes` -- a file reads back as the map of its pairs, in which the last
  value of a key counts.
-/

namespace ChatRelay

/-! ## 1. Blanks around a text, and lines of a file -/

namespace Bytes

variable {s t before after : Bytes}

/-- The text is not empty, and neither its first byte nor its last one is a blank. -/
structure Unpadded (s : Bytes) : Prop where
  ne_nil : s ≠ []
  head : s.head?.any isBlank = false
  last : s.getLast?.any isBlank = false

/-- Only the ends matter. -/
theorem Unpadded.append (hs : Unpadded s) (ht : Unpadded t) (between : Bytes) :
    Unpadded (s ++ between ++ t) where
  ne_nil h := ht.ne_nil (List.append_eq_nil_iff.mp h).2
  head := by
    rw [List.append_assoc, List.head?_append_of_ne_nil _ hs.ne_nil]
    exact hs.head
  last := by
    rw [List.getLast?_append_of_ne_nil _ ht.ne_nil]
    exact ht.last

theorem dropWhile_isBlank (hbefore : ∀ b ∈ before, isBlank b = true) (hne : s ≠ [])
    (hhead : s.head?.any isBlank = false) (t : Bytes) :
    (before ++ (s ++ t)).dropWhile isBlank = s ++ t := by
  obtain ⟨b, rest, rfl⟩ := List.exists_cons_of_ne_nil hne
  have hb : ¬ isBlank b = true := Bool.eq_false_iff.mp hhead
  rw [List.dropWhile_append_of_pos hbefore, List.cons_append, List.dropWhile_cons_of_neg hb]

/-- **Trimming takes off the blanks that were put around a text**, and nothing of the text. -/
theorem trim_padded (hbefore : ∀ b ∈ before, isBlank b = true)
    (hafter : ∀ b ∈ after, isBlank b = true) (hs : Unpadded s) :
    trim (before ++ s ++ after) = s := by
  have hback : (after.reverse ++ (s.reverse ++ [])).dropWhile isBlank = s.reverse ++ [] :=
    dropWhile_isBlank (fun b hb => hafter b (List.mem_reverse.mp hb))
      (fun h => hs.ne_nil (List.reverse_eq_nil_iff.mp h))
      (by rw [List.head?_reverse]; exact hs.last) []
  rw [List.append_nil, ← List.reverse_append] at hback
  rw [trim, List.append_assoc, dropWhile_isBlank hbefore hs.ne_nil hs.head, hback,
    List.reverse_reverse]

/-- A text that is no blank throughout begins, when trimmed, with its first byte that is none. -/
theorem head?_trim {b : UInt8} (hbefore : ∀ b ∈ before, isBlank b = true)
    (hb : isBlank b = false) (text : Bytes) : (trim (before ++ b :: text)).head? = some b := by
  have hb' : ¬ isBlank b = true := Bool.eq_false_iff.mp hb
  rw [trim, List.dropWhile_append_of_pos hbefore, List.dropWhile_cons_of_neg hb',
    List.reverse_cons, List.dropWhile_append]
  split
  · rw [List.dropWhile_cons_of_neg hb']
    rfl
  · rw [List.reverse_append]
    rfl

theorem mem_of_mem_trim {b : UInt8} (h : b ∈ trim s) : b ∈ s := by
  have hback := (List.dropWhile_suffix isBlank).mem (List.mem_reverse.mp h)
  exact (List.dropWhile_suffix isBlank).mem (List.mem_reverse.mp hback)

/-- Joined lines come apart again. -/
theorem splitAtByte_joinLines {lines : List Bytes} (hne : lines ≠ [])
    (h : ∀ line ∈ lines, 0x0A ∉ line) : splitAtByte 0x0A (joinLines lines) = lines := by
  induction lines with
  | nil => exact absurd rfl hne
  | cons line lines ih =>
    obtain ⟨hline, hlines⟩ := List.forall_mem_cons.mp h
    cases lines with
    | nil =>
      have hjoin : joinLines [line] = line := by simp [joinLines]
      rw [hjoin, splitAtByte_of_notMem hline]
    | cons next lines =>
      have hjoin : joinLines (line :: next :: lines) =
          line ++ 0x0A :: joinLines (next :: lines) := by simp [joinLines]
      rw [hjoin, splitAtByte_append_sep hline, ih (List.cons_ne_nil _ _) hlines]

end Bytes

namespace Options

variable {key value rest : Bytes} {c : UInt8}

/-! ## 2. Pairs on their lines -/

/-- Blanks within a line: spaces, tabs and carriage returns. -/
def Padding (s : Bytes) : Prop :=
  ∀ b ∈ s, b = 0x20 ∨ b = 0x09 ∨ b = 0x0D

instance (s : Bytes) : Decidable (Padding s) :=
  List.decidableBAll _ s

theorem Padding.isBlank {s : Bytes} (h : Padding s) : ∀ b ∈ s, Bytes.isBlank b = true := by
  intro b hb
  obtain rfl | rfl | rfl := h b hb <;> rfl

/-- The padding has no such byte. -/
theorem Padding.notMem {s : Bytes} (h : Padding s) (hc : c ≠ 0x20 ∧ c ≠ 0x09 ∧ c ≠ 0x0D) :
    c ∉ s := by
  intro hmem
  obtain rfl | rfl | rfl := h c hmem
  · exact hc.1 rfl
  · exact hc.2.1 rfl
  · exact hc.2.2 rfl

/-- The word that may stand before a key. -/
def exportWord : Bytes := "export"

/-- **A key that a line can hold.** -/
structure IsKey (key : Bytes) : Prop where
  unpadded : key.Unpadded
  no_equals : 0x3D ∉ key
  no_newline : 0x0A ∉ key
  /-- A line that begins with a number sign is a comment. -/
  no_comment : key.head? ≠ some 0x23
  ne_export : key ≠ exportWord
  not_exported : ¬ exportWord ++ [0x20] <+: key

/-- **How a pair stands on its line**, all blanks being free. -/
structure Layout where
  before : Bytes := []
  /-- What stands between `export ` and the key, where that word stands before the key. -/
  exported : Option Bytes := none
  beforeEquals : Bytes := []
  afterEquals : Bytes := []
  quote : UInt8 := 0x22
  after : Bytes := []
  padding : ∀ s ∈ [before, exported.getD [], beforeEquals, afterEquals, after], Padding s := by
    decide
  isQuote_quote : isQuote quote = true := by decide

def quoted (quote : UInt8) (value : Bytes) : Bytes :=
  quote :: (value ++ [quote])

namespace Layout

variable (l : Layout)

/-- The word before the key. -/
def mark : Bytes :=
  match l.exported with
  | some gap => exportWord ++ [0x20] ++ gap
  | none => []

/-- The line from the key on. -/
def pair (key value : Bytes) : Bytes :=
  key ++ (l.beforeEquals ++ 0x3D :: l.afterEquals) ++ quoted l.quote value

/-- The line of a pair. -/
def line (key value : Bytes) : Bytes :=
  l.before ++ (l.mark ++ l.pair key value) ++ l.after

theorem padding_before : Padding l.before := l.padding _ (by simp)

theorem padding_beforeEquals : Padding l.beforeEquals := l.padding _ (by simp)

theorem padding_afterEquals : Padding l.afterEquals := l.padding _ (by simp)

theorem padding_after : Padding l.after := l.padding _ (by simp)

theorem padding_exported {gap : Bytes} (h : l.exported = some gap) : Padding gap :=
  l.padding _ (by simp [h])

theorem quote_eq : l.quote = 0x22 ∨ l.quote = 0x27 := by
  have h := l.isQuote_quote
  rw [isQuote, Bool.or_eq_true, beq_iff_eq, beq_iff_eq] at h
  exact h

theorem unpadded_quoted (value : Bytes) : (quoted l.quote value).Unpadded := by
  have hquote : Bytes.isBlank l.quote = false := by
    obtain h | h := l.quote_eq <;> rw [h] <;> rfl
  refine ⟨List.cons_ne_nil _ _, hquote, ?_⟩
  rw [quoted, ← List.cons_append, List.getLast?_concat]
  exact hquote

theorem unpadded_pair (hkey : IsKey key) (value : Bytes) : (l.pair key value).Unpadded :=
  hkey.unpadded.append (l.unpadded_quoted value) _

/-! ### The word before the key -/

/-- **A line without the word does not begin with it**, whatever the key and what follows it. -/
theorem not_exported_pair (hkey : IsKey key) (value : Bytes) :
    ¬ exportWord ++ [0x20] <+: l.pair key value := by
  -- behind the key there is a blank or the equals sign, and neither is in the word
  obtain ⟨c, rest, hrest, hc⟩ : ∃ c rest, l.pair key value = key ++ c :: rest ∧ c ∉ exportWord := by
    rw [pair, List.append_assoc]
    cases hblanks : l.beforeEquals with
    | nil => exact ⟨0x3D, _, rfl, by decide⟩
    | cons b bs =>
      refine ⟨b, _, rfl, ?_⟩
      obtain rfl | rfl | rfl := l.padding_beforeEquals b (hblanks ▸ List.mem_cons_self) <;> decide
  rintro ⟨later, hlater⟩
  rw [hrest, List.append_assoc] at hlater
  obtain ⟨more, hmore, hbehind⟩ | ⟨more, hmore, hbehind⟩ := List.append_eq_append_iff.mp hlater
  · cases more with
    | nil => exact hkey.ne_export (hmore.trans (List.append_nil _))
    | cons d more =>
      obtain ⟨rfl, -⟩ := List.cons_eq_cons.mp hbehind
      exact hkey.not_exported ⟨more, by rw [hmore, List.append_assoc]; rfl⟩
  · cases more with
    | nil => exact hkey.ne_export (hmore.trans (List.append_nil _)).symm
    | cons d more =>
      obtain ⟨rfl, -⟩ := List.cons_eq_cons.mp hbehind
      exact hc (hmore ▸ List.mem_append_right key List.mem_cons_self)

theorem unpadded_mark_append (hkey : IsKey key) (value : Bytes) :
    (l.mark ++ l.pair key value).Unpadded := by
  rw [mark]
  split
  · rename_i gap _
    have hword : Bytes.Unpadded exportWord := by
      constructor <;> decide
    have hall := hword.append (l.unpadded_pair hkey value) ([0x20] ++ gap)
    rwa [← List.append_assoc exportWord] at hall
  · exact l.unpadded_pair hkey value

theorem trim_line (hkey : IsKey key) (value : Bytes) :
    (l.line key value).trim = l.mark ++ l.pair key value :=
  Bytes.trim_padded l.padding_before.isBlank l.padding_after.isBlank
    (l.unpadded_mark_append hkey value)

theorem head?_line_ne (hkey : IsKey key) (value : Bytes) :
    (l.mark ++ l.pair key value).head? ≠ some 0x23 := by
  rw [mark]
  split
  · exact fun h => absurd (Option.some.inj h) (by decide)
  · rw [List.nil_append, pair, List.append_assoc,
      List.head?_append_of_ne_nil _ hkey.unpadded.ne_nil]
    exact hkey.no_comment

/-- **The word is taken off**, with the blanks behind it. -/
theorem withoutMark (hkey : IsKey key) (value : Bytes) :
    (if (l.mark ++ l.pair key value).startsWith "export " then
      Bytes.trim ((l.mark ++ l.pair key value).drop 7) else l.mark ++ l.pair key value) =
        l.pair key value := by
  have hword : Bytes.ofString "export " = exportWord ++ [0x20] := by decide
  rw [Bytes.startsWith, hword]
  cases hexported : l.exported with
  | none =>
    have hmark : l.mark = [] := by rw [mark, hexported]
    rw [hmark, List.nil_append, if_neg]
    exact fun h => l.not_exported_pair hkey value (List.isPrefixOf_iff_prefix.mp h)
  | some gap =>
    have hmark : l.mark = exportWord ++ [0x20] ++ gap := by rw [mark, hexported]
    have hlength : (exportWord ++ [0x20]).length = 7 := by decide
    have htrim : Bytes.trim (gap ++ l.pair key value ++ []) = l.pair key value :=
      Bytes.trim_padded (l.padding_exported hexported).isBlank (by simp)
        (l.unpadded_pair hkey value)
    rw [List.append_nil] at htrim
    rw [hmark, List.append_assoc, ← hlength, List.drop_left, htrim, if_pos]
    exact List.isPrefixOf_iff_prefix.mpr (List.prefix_append _ _)

end Layout

/-! ### The quotes -/

theorem unquote_quoted {quote : UInt8} (h : isQuote quote = true) (value : Bytes) :
    unquote (quoted quote value) = value := by
  have hlast : (value ++ [quote]).getLast? = some quote := List.getLast?_concat
  rw [unquote, quoted]
  simp only [List.head?_cons, List.tail_cons, Option.any_some, h, if_true, hlast,
    List.dropLast_concat]

/-- **A line reads back as its pair.** -/
theorem settingOfLine_line (l : Layout) (hkey : IsKey key) (value : Bytes) :
    settingOfLine (l.line key value) = some (key, value) := by
  have hcut : Bytes.cut? 0x3D (l.pair key value) =
      some (key ++ l.beforeEquals, l.afterEquals ++ quoted l.quote value) := by
    have hno : 0x3D ∉ key ++ l.beforeEquals := fun h =>
      (List.mem_append.mp h).elim hkey.no_equals (l.padding_beforeEquals.notMem (by decide))
    have hpair : l.pair key value =
        key ++ l.beforeEquals ++ 0x3D :: (l.afterEquals ++ quoted l.quote value) := by
      simp only [Layout.pair, List.append_assoc, List.cons_append]
    rw [hpair, Bytes.cut?_append_sep hno]
  have hleft : Bytes.trim ([] ++ key ++ l.beforeEquals) = key :=
    Bytes.trim_padded (by simp) l.padding_beforeEquals.isBlank hkey.unpadded
  have hright : Bytes.trim (l.afterEquals ++ quoted l.quote value ++ []) = quoted l.quote value :=
    Bytes.trim_padded l.padding_afterEquals.isBlank (by simp) (l.unpadded_quoted value)
  rw [List.nil_append] at hleft
  rw [List.append_nil] at hright
  rw [settingOfLine, l.trim_line hkey value, if_neg (l.head?_line_ne hkey value)]
  dsimp only
  rw [l.withoutMark hkey value, hcut, Option.map_some, hleft, hright,
    unquote_quoted l.isQuote_quote]

/-! ## 3. Files -/

/-- **The lines of a settings file that is written for these pairs**, in this order. A file that
    ends in a line feed has an empty line behind it. -/
inductive Writes : List (Bytes × Bytes) → List Bytes → Prop where
  | done : Writes [] []
  | pair {key value : Bytes} {pairs : List (Bytes × Bytes)} {lines : List Bytes}
      (isKey : IsKey key) (no_newline : 0x0A ∉ value) (layout : Layout)
      (rest : Writes pairs lines) : Writes ((key, value) :: pairs) (layout.line key value :: lines)
  | comment {blanks text : Bytes} {pairs : List (Bytes × Bytes)} {lines : List Bytes}
      (padding : Padding blanks) (no_newline : 0x0A ∉ text) (rest : Writes pairs lines) :
      Writes pairs ((blanks ++ 0x23 :: text) :: lines)
  /-- A line that says nothing, such as a blank one. -/
  | other {line : Bytes} {pairs : List (Bytes × Bytes)} {lines : List Bytes}
      (no_equals : 0x3D ∉ line) (no_newline : 0x0A ∉ line) (rest : Writes pairs lines) :
      Writes pairs (line :: lines)

theorem notMem_line (l : Layout) (hkey : IsKey key) (hvalue : 0x0A ∉ value) :
    0x0A ∉ l.line key value := by
  have hquote : l.quote ≠ 0x0A := by
    obtain h | h := l.quote_eq <;> rw [h] <;> decide
  have hpair : 0x0A ∉ l.pair key value := by
    simp only [Layout.pair, quoted, List.mem_append, List.mem_cons, not_or]
    exact ⟨⟨hkey.no_newline, l.padding_beforeEquals.notMem (by decide), by decide,
      l.padding_afterEquals.notMem (by decide)⟩, hquote.symm, hvalue, hquote.symm,
      List.not_mem_nil⟩
  have hmark : 0x0A ∉ l.mark := by
    rw [Layout.mark]
    split
    · rename_i gap hexported
      refine fun h => (List.mem_append.mp h).elim (by decide) ?_
      exact (l.padding_exported hexported).notMem (by decide)
    · exact List.not_mem_nil
  simp only [Layout.line, List.mem_append, not_or]
  exact ⟨⟨l.padding_before.notMem (by decide), hmark, hpair⟩, l.padding_after.notMem (by decide)⟩

theorem settingOfLine_comment {blanks : Bytes} (h : Padding blanks) (text : Bytes) :
    settingOfLine (blanks ++ 0x23 :: text) = none :=
  if_pos (Bytes.head?_trim h.isBlank rfl text)

theorem settingOfLine_other {line : Bytes} (h : 0x3D ∉ line) : settingOfLine line = none := by
  have htrim : 0x3D ∉ line.trim := fun hmem => h (Bytes.mem_of_mem_trim hmem)
  have hdrop : 0x3D ∉ Bytes.trim (line.trim.drop 7) := fun hmem =>
    htrim (List.mem_of_mem_drop (Bytes.mem_of_mem_trim hmem))
  rw [settingOfLine]
  dsimp only
  split
  · rfl
  · split
    · rw [Bytes.cut?_of_notMem hdrop]
      rfl
    · rw [Bytes.cut?_of_notMem htrim]
      rfl

theorem Writes.notMem {pairs : List (Bytes × Bytes)} {lines : List Bytes} (h : Writes pairs lines) :
    ∀ line ∈ lines, 0x0A ∉ line := by
  induction h with
  | done => exact List.forall_mem_nil _
  | pair isKey no_newline layout _ ih =>
    exact List.forall_mem_cons.mpr ⟨notMem_line layout isKey no_newline, ih⟩
  | comment padding no_newline _ ih =>
    refine List.forall_mem_cons.mpr ⟨fun h => ?_, ih⟩
    obtain h | h := List.mem_append.mp h
    · exact padding.notMem (by decide) h
    · exact (List.mem_cons.mp h).elim (by decide) no_newline
  | other _ no_newline _ ih => exact List.forall_mem_cons.mpr ⟨no_newline, ih⟩

/-- **The lines read back as the pairs**, one by one, and the others say nothing. -/
theorem Writes.filterMap_eq {pairs : List (Bytes × Bytes)} {lines : List Bytes}
    (h : Writes pairs lines) : lines.filterMap settingOfLine = pairs := by
  induction h with
  | done => rfl
  | pair isKey _ layout _ ih =>
    rw [List.filterMap_cons_some (settingOfLine_line layout isKey _), ih]
  | comment padding _ _ ih =>
    rw [List.filterMap_cons_none (settingOfLine_comment padding _), ih]
  | other no_equals _ _ ih => rw [List.filterMap_cons_none (settingOfLine_other no_equals), ih]

theorem readSettings_joinLines {lines : List Bytes} (h : ∀ line ∈ lines, 0x0A ∉ line) :
    readSettings (Bytes.joinLines lines) = Table.ofList (lines.filterMap settingOfLine) := by
  cases lines with
  | nil => rfl
  | cons line lines =>
    rw [readSettings, Bytes.splitAtByte_joinLines (List.cons_ne_nil _ _) h]

/-- **A settings file reads back as the map of its pairs**: a table in which a key has the last
    value that is written for it, and no other keys. That holds for every list of pairs whose keys
    fit on a line and whose values have no line feed, whatever else is in the values, however the
    pairs stand on their lines, and whatever lines say nothing. -/
theorem readSettings_of_writes {pairs : List (Bytes × Bytes)} {lines : List Bytes}
    (h : Writes pairs lines) :
    Table.Sorted (readSettings (Bytes.joinLines lines)) ∧
      ∀ key, Table.find? (readSettings (Bytes.joinLines lines)) key =
        (pairs.filter (·.1 = key)).getLast?.map (·.2) := by
  rw [readSettings_joinLines h.notMem, h.filterMap_eq]
  refine ⟨Table.sorted_ofList pairs, fun key => ?_⟩
  exact (Table.find?_foldl_insert_eq pairs).trans Option.or_none

/-- A file with comments, quotes and equals signs in values, blanks of each kind and a key that is
    written twice. -/
theorem readSettings_of_writes_twice :
    let pairs : List (Bytes × Bytes) :=
      [("A", " #1=\"2\" "), ("LOG LEVEL", "debug"), ("A", "'last'")]
    let lines : List Bytes :=
      ["# relay settings", "A=\" #1=\"2\" \"", "not a pair", " export \tLOG LEVEL = 'debug'\t\r",
        "", "\t# A=\"none\"", "A\t=\"'last'\"", ""]
    Writes pairs lines ∧
    Table.find? (readSettings (Bytes.joinLines lines)) "A" = some "'last'" ∧
    readSettings (Bytes.joinLines lines) =
      ([("A", "'last'"), ("LOG LEVEL", "debug")] : Table Bytes Bytes) := by
  intro pairs lines
  have hA : IsKey "A" := ⟨⟨by decide, by decide, by decide⟩, by decide, by decide, by decide,
    by decide, by decide⟩
  have hlevel : IsKey "LOG LEVEL" := ⟨⟨by decide, by decide, by decide⟩, by decide, by decide,
    by decide, by decide, by decide⟩
  have hwrites : Writes pairs lines :=
    .other (by decide) (by decide) <|
    .pair hA (by decide) {} <|
    .other (by decide) (by decide) <|
    .pair hlevel (by decide)
      { before := " ", exported := some "\t", beforeEquals := " ", afterEquals := " ",
        quote := 0x27, after := "\t\r" } <|
    .other (by decide) (by decide) <|
    .comment (by decide) (by decide) <|
    .pair hA (by decide) { beforeEquals := "\t" } <|
    .other (by decide) (by decide) .done
  exact ⟨hwrites, ((readSettings_of_writes hwrites).2 _).trans (by decide), by decide⟩

end Options

end ChatRelay
