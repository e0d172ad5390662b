import ProjectsApi.Domain.Validation

/-!
# Ticket files

`parse` of `seed_issues.py`: the front matter of a ticket file, line by line, and the body that
follows it.
-/

namespace ProjectsApi.Seeding

/-! ## Texts -/

/-- `path.read_text()` reads the line ends `\r\n` and `\r` as `\n`. -/
def universalNewlines : List Char → List Char
  | [] => []
  | '\r' :: '\n' :: cs => '\n' :: universalNewlines cs
  | '\r' :: cs => '\n' :: universalNewlines cs
  | c :: cs => c :: universalNewlines cs

/-- The characters at which `str.splitlines` ends a line. -/
def isLineBreak (c : Char) : Bool :=
  let n := c.toNat
  (0x0A ≤ n && n ≤ 0x0D) || (0x1C ≤ n && n ≤ 0x1E) || n == 0x85 || n == 0x2028 || n == 0x2029

/-- A character in front of the first line. -/
def consLine (c : Char) : List (List Char) → List (List Char)
  | [] => [[c]]
  | line :: lines => (c :: line) :: lines

/-- `str.splitlines()` -/
def splitlines : List Char → List (List Char)
  | [] => []
  | '\r' :: '\n' :: cs => [] :: splitlines cs
  | c :: cs => if isLineBreak c then [] :: splitlines cs else consLine c (splitlines cs)

/-- The text before the first occurrence of a separator, and the text after it. -/
def breakAt (separator : List Char) : List Char → Option (List Char × List Char)
  | [] => none
  | c :: cs =>
      if separator.isPrefixOf (c :: cs) then some ([], (c :: cs).drop separator.length)
      else (breakAt separator cs).map fun parts => (c :: parts.1, parts.2)

/-- `line.partition(":")`, without the separator. -/
def partitionColon (line : List Char) : List Char × List Char :=
  (line.takeWhile (· ≠ ':'), (line.dropWhile (· ≠ ':')).drop 1)

/-- `.strip('"')` -/
def stripQuotes (cs : List Char) : List Char :=
  (cs.dropWhile (· == '"')).rdropWhile (· == '"')

/-! ## Tickets -/

/-- A ticket file: its name and its text, as it is stored. -/
structure TicketFile where
  name : String
  text : String

structure Ticket where
  name : String
  title : String
  labels : List String
  milestone : String
  status : String
  body : String
  deriving DecidableEq

/-- Why the script stops. -/
inductive SeedError where
  /-- `SystemExit`: the file has no front matter -/
  | missingFrontMatter (name : String)
  | keyError (key : String)
  /-- `CalledProcessError` -/
  | calledProcess
  deriving DecidableEq

/-- `re.match(r"^---\n(.*?)\n---\n(.*)$", text, re.S)` -/
def frontMatter? (text : List Char) : Option (List Char × List Char) :=
  if "---\n".toList.isPrefixOf text then breakAt "\n---\n".toList (text.drop "---\n".length)
  else none

/-- The key and the value of a line. -/
def field (line : List Char) : String × String :=
  let parts := partitionColon line
  (String.ofList (strip parts.1), String.ofList (stripQuotes (strip parts.2)))

/-- `meta[key]`: of a key that is repeated, the last value counts. -/
def metaValue (fields : List (String × String)) (key : String) : Except SeedError String :=
  match fields.reverse.lookup key with
  | some value => .ok value
  | none => .error (.keyError key)

/-- The labels of a comma-separated list. -/
def labelsOf (value : String) : List String :=
  ((value.toList.splitOn ',').map strip).filterMap fun label =>
    if label.isEmpty then none else some (String.ofList label)

/-- The slice label, from the prefix of the file name. -/
def sliceLabel (name : String) : String :=
  "slice:" ++ String.ofList ((name.toList.splitOn '-').headD [])

/-- `parse` -/
def parse (file : TicketFile) : Except SeedError Ticket :=
  match frontMatter? (universalNewlines file.text.toList) with
  | none => .error (.missingFrontMatter file.name)
  | some (front, body) => do
      let fields := (splitlines front).map field
      let labels := labelsOf (← metaValue fields "labels")
      let slice := sliceLabel file.name
      return {
        name := file.name
        labels := if labels.contains slice then labels else labels ++ [slice]
        title := ← metaValue fields "title"
        milestone := ← metaValue fields "milestone"
        status := (fields.reverse.lookup "status").getD "open"
        body := String.ofList (strip body)
      }

/-- `TICKETS[0]`, shortened. -/
def sampleFile : TicketFile where
  name := "S0-001-repo-scaffold.md"
  text := "---\ntitle: \"S0-001 Repo scaffold: uv\"\nlabels: type:chore, pillar:operations\n" ++
    "milestone: S0 Foundation\nstatus: done\n---\n## Description\nCreate the project.\n"

example : parse sampleFile = .ok
    { name := "S0-001-repo-scaffold.md", title := "S0-001 Repo scaffold: uv"
      labels := ["type:chore", "pillar:operations", "slice:S0"], milestone := "S0 Foundation"
      status := "done", body := "## Description\nCreate the project." } := by
  decide +kernel

/-! ## Written tickets -/

/-- A line of the front matter. -/
def writtenLine (key : String) (value : List Char) : List Char :=
  key.toList ++ ':' :: ' ' :: value

def quoted (value : List Char) : List Char := '"' :: (value ++ ['"'])

/-- The lines of the front matter, in the order of the files of `docs/tickets`. -/
def Ticket.frontMatter (t : Ticket) : List (List Char) :=
  [writtenLine "title" (quoted t.title.toList),
    writtenLine "labels" (", ".toList.intercalate (t.labels.map String.toList)),
    writtenLine "milestone" t.milestone.toList, writtenLine "status" t.status.toList]

/-- Lines, each ended by a line break. -/
def joinLines (lines : List (List Char)) : List Char := lines.flatMap (· ++ ['\n'])

/-- A ticket as a file. -/
def Ticket.written (t : Ticket) : TicketFile where
  name := t.name
  text := String.ofList ("---\n".toList ++ joinLines t.frontMatter ++ "---\n".toList ++
    t.body.toList ++ ['\n'])

/-- A text without such a character at either end. -/
def Trimmed (p : Char → Bool) (cs : List Char) : Prop :=
  (∀ c ∈ cs.head?, p c = false) ∧ ∀ c ∈ cs.getLast?, p c = false

/-- A value that stands in one line as it is. -/
structure IsPlainValue (value : List Char) : Prop where
  line : ∀ c ∈ value, isLineBreak c = false
  spaces : Trimmed isSpace value
  quotes : Trimmed (· == '"') value

/-- A ticket whose parts can be written. -/
structure Ticket.IsWritable (t : Ticket) : Prop where
  title_line : ∀ c ∈ t.title.toList, isLineBreak c = false
  title_quotes : Trimmed (· == '"') t.title.toList
  labels : ∀ label ∈ t.labels, label ≠ "" ∧ IsPlainValue label.toList ∧ ',' ∉ label.toList
  slice : sliceLabel t.name ∈ t.labels
  milestone : IsPlainValue t.milestone.toList
  status : IsPlainValue t.status.toList
  body : Trimmed isSpace t.body.toList

section Texts

variable {p : Char → Bool} {cs : List Char}

theorem universalNewlines_cons {c : Char} (hc : c ≠ '\r') (cs : List Char) :
    universalNewlines (c :: cs) = c :: universalNewlines cs := by
  rw [universalNewlines]
  · rintro cs' rfl -
    exact hc rfl
  · exact hc

theorem universalNewlines_eq_self (h : '\r' ∉ cs) : universalNewlines cs = cs := by
  induction cs with
  | nil => rfl
  | cons c cs ih =>
      rw [List.mem_cons, not_or] at h
      rw [universalNewlines_cons (Ne.symm h.1), ih h.2]

/-- No carriage return is read. -/
theorem not_mem_universalNewlines (cs : List Char) : '\r' ∉ universalNewlines cs := by
  fun_induction universalNewlines cs with
  | case1 => exact List.not_mem_nil
  | case2 cs ih => exact fun h => ih (List.mem_of_ne_of_mem (by decide) h)
  | case3 cs hnot ih => exact fun h => ih (List.mem_of_ne_of_mem (by decide) h)
  | case4 c cs hpair hne ih => exact fun h => ih (List.mem_of_ne_of_mem (Ne.symm hne) h)

theorem line_of_all (h : (cs.all fun c => !isLineBreak c) = true) :
    ∀ c ∈ cs, isLineBreak c = false := by
  intro c hc
  simpa using List.all_eq_true.mp h c hc

/-- What is trimmed can be seen at the ends. -/
theorem trimmed_of_ends (h : (cs.head?.all fun c => !p c) = true)
    (h' : (cs.getLast?.all fun c => !p c) = true) : Trimmed p cs := by
  constructor
  · intro c hc
    rw [Option.mem_def.mp hc] at h
    simpa using h
  · intro c hc
    rw [Option.mem_def.mp hc] at h'
    simpa using h'

theorem dropWhile_of_trimmed (h : Trimmed p cs) : cs.dropWhile p = cs := by
  cases cs with
  | nil => rfl
  | cons c cs => rw [List.dropWhile_cons_of_neg (by simp [h.1 c rfl])]

theorem rdropWhile_of_trimmed (h : Trimmed p cs) : cs.rdropWhile p = cs := by
  rw [List.rdropWhile_eq_self_iff]
  intro hne hp
  have hlast := h.2 _ (List.getLast?_eq_some_getLast hne)
  rw [hlast] at hp
  cases hp

theorem trim_of_trimmed (h : Trimmed p cs) : (cs.dropWhile p).rdropWhile p = cs := by
  rw [dropWhile_of_trimmed h, rdropWhile_of_trimmed h]

theorem strip_space (h : Trimmed isSpace cs) : strip (' ' :: cs) = cs := by
  rw [strip, List.dropWhile_cons_of_pos (by decide)]
  exact trim_of_trimmed h

theorem strip_newline (h : Trimmed isSpace cs) : strip (cs ++ ['\n']) = cs := by
  cases cs with
  | nil => decide
  | cons c cs =>
      have hfirst : isSpace c = false := h.1 c rfl
      rw [strip, List.cons_append, List.dropWhile_cons_of_neg (by simp [hfirst]),
        ← List.cons_append, List.rdropWhile_concat_pos _ _ _ (by decide)]
      exact rdropWhile_of_trimmed h

theorem stripQuotes_quoted (h : Trimmed (· == '"') cs) : stripQuotes (quoted cs) = cs := by
  rw [stripQuotes, quoted, List.dropWhile_cons_of_pos (by decide)]
  cases cs with
  | nil => decide
  | cons c cs =>
      have hfirst : (c == '"') = false := h.1 c rfl
      rw [List.cons_append, List.dropWhile_cons_of_neg (by simp [hfirst]), ← List.cons_append,
        List.rdropWhile_concat_pos _ _ _ (by decide)]
      exact rdropWhile_of_trimmed h

theorem trimmed_quoted (cs : List Char) : Trimmed isSpace (quoted cs) := by
  constructor
  · intro c hc
    obtain rfl := Option.some.inj hc
    decide
  · intro c hc
    rw [quoted, ← List.cons_append, List.getLast?_concat] at hc
    obtain rfl := Option.some.inj hc
    decide

end Texts

/-! ### Lines -/

/-- The line that closes the front matter, with the break before it. -/
def closing : List Char := "\n---\n".toList

section Lines

variable {line : List Char} {lines : List (List Char)}

theorem breakAt_closing (rest : List Char) :
    breakAt closing (closing ++ rest) = some ([], rest) := by
  have hcons : closing ++ rest = '\n' :: ("---\n".toList ++ rest) := rfl
  have hopens : closing.isPrefixOf (closing ++ rest) = true :=
    List.isPrefixOf_iff_prefix.mpr (List.prefix_append closing rest)
  rw [hcons, breakAt, ← hcons, if_pos hopens, List.drop_left]

/-- What follows a separator is the end of the text. -/
theorem breakAt_suffix {separator cs front rest : List Char}
    (h : breakAt separator cs = some (front, rest)) : rest <:+ cs := by
  induction cs generalizing front with
  | nil => cases h
  | cons c cs ih =>
      rw [breakAt] at h
      split_ifs at h
      · obtain ⟨-, rfl⟩ := Prod.mk.inj (Option.some.inj h)
        exact List.drop_suffix _ _
      · obtain ⟨parts, hparts, hsame⟩ := Option.map_eq_some_iff.mp h
        obtain ⟨-, rfl⟩ := Prod.mk.inj hsame
        exact (ih hparts).trans (List.suffix_cons c cs)

/-- Within a line there is no closing line. -/
theorem breakAt_line (h : '\n' ∉ line) (rest : List Char) :
    breakAt closing (line ++ rest) =
      (breakAt closing rest).map fun parts => (line ++ parts.1, parts.2) := by
  induction line with
  | nil =>
      rw [List.nil_append]
      cases breakAt closing rest <;> rfl
  | cons c line ih =>
      rw [List.mem_cons, not_or] at h
      have hopens : closing.isPrefixOf (c :: (line ++ rest)) = false := by
        simp [closing, List.isPrefixOf, h.1]
      rw [List.cons_append, breakAt, if_neg (by simp [hopens]), ih h.2, Option.map_map]
      rfl

/-- A line with a colon does not close the front matter. -/
theorem breakAt_colon (hcolon : ':' ∈ line) (h : '\n' ∉ line) (rest : List Char) :
    breakAt closing ('\n' :: (line ++ '\n' :: rest)) =
      (breakAt closing (line ++ '\n' :: rest)).map fun parts => ('\n' :: parts.1, parts.2) := by
  rw [breakAt, if_neg]
  intro hopens
  obtain ⟨tail, htail⟩ := List.isPrefixOf_iff_prefix.mp hopens
  have hline : (line ++ '\n' :: rest).takeWhile (· ≠ '\n') = line := by
    have hnot : ∀ c ∈ line, decide (c ≠ '\n') = true :=
      fun c hc => decide_eq_true fun heq : c = '\n' => h (heq ▸ hc)
    rw [List.takeWhile_append_of_pos hnot, List.takeWhile_cons_of_neg (by simp), List.append_nil]
  -- the line would be the three dashes
  have hsame : "---\n".toList ++ tail = line ++ '\n' :: rest := (List.cons.inj htail).2
  rw [← hsame] at hline
  have hdashes : line = "---".toList := hline.symm
  rw [hdashes] at hcolon
  exact absurd hcolon (by decide)

/-- The front matter ends with the last of its lines. -/
theorem breakAt_joinLines (h : ∀ l ∈ line :: lines, ':' ∈ l ∧ '\n' ∉ l) (rest : List Char) :
    breakAt closing (joinLines (line :: lines) ++ "---\n".toList ++ rest) =
      some (['\n'].intercalate (line :: lines), rest) := by
  have hline := h line List.mem_cons_self
  induction lines generalizing line with
  | nil =>
      have htext : joinLines [line] ++ "---\n".toList ++ rest =
          line ++ (closing ++ rest) := by
        simp [joinLines, closing]
      rw [htext, breakAt_line hline.2, List.intercalate_singleton, breakAt_closing,
        Option.map_some, List.append_nil]
  | cons line' lines ih =>
      have hlines : ∀ l ∈ line' :: lines, ':' ∈ l ∧ '\n' ∉ l :=
        fun l hl => h l (List.mem_cons_of_mem _ hl)
      have hnext := hlines line' List.mem_cons_self
      have hcons : ∀ (l : List Char) (ls : List (List Char)), joinLines (l :: ls) ++
          "---\n".toList ++ rest = l ++ '\n' :: (joinLines ls ++ "---\n".toList ++ rest) := by
        intro l ls
        simp [joinLines]
      rw [hcons, breakAt_line hline.2, hcons, breakAt_colon hnext.1 hnext.2, ← hcons,
        ih hlines hnext, Option.map_some, Option.map_some, List.intercalate_cons_cons,
        List.append_assoc]
      rfl

theorem splitlines_cons {c : Char} (h : isLineBreak c = false) (cs : List Char) :
    splitlines (c :: cs) = consLine c (splitlines cs) := by
  have hc : c ≠ '\r' := by
    rintro rfl
    exact absurd h (by decide)
  rw [splitlines, if_neg (by simp [h])]
  intro cs' heq
  exact absurd heq hc

/-- A line is split off a text. -/
theorem splitlines_line (h : ∀ c ∈ line, isLineBreak c = false) (rest : List Char) :
    splitlines (line ++ '\n' :: rest) = line :: splitlines rest := by
  induction line with
  | nil => rfl
  | cons c line ih =>
      rw [List.forall_mem_cons] at h
      rw [List.cons_append, splitlines_cons h.1, ih h.2]
      rfl

/-- The last line needs no break. -/
theorem splitlines_last (h : ∀ c ∈ line, isLineBreak c = false) (hne : line ≠ []) :
    splitlines line = [line] := by
  induction line with
  | nil => exact absurd rfl hne
  | cons c line ih =>
      rw [List.forall_mem_cons] at h
      rw [splitlines_cons h.1]
      cases line with
      | nil => rfl
      | cons d line =>
          rw [ih h.2 (List.cons_ne_nil d line)]
          rfl

/-- A text of lines is split into them. -/
theorem splitlines_intercalate (h : ∀ l ∈ line :: lines, l ≠ [] ∧ ∀ c ∈ l, isLineBreak c = false) :
    splitlines (['\n'].intercalate (line :: lines)) = line :: lines := by
  have hline := h line List.mem_cons_self
  induction lines generalizing line with
  | nil =>
      rw [List.intercalate_singleton]
      exact splitlines_last hline.2 hline.1
  | cons line' lines ih =>
      have hlines := fun l hl => h l (List.mem_cons_of_mem line hl)
      rw [List.intercalate_cons_cons, List.append_assoc]
      show splitlines (line ++ '\n' :: ['\n'].intercalate (line' :: lines)) = _
      rw [splitlines_line hline.2, ih hlines (hlines line' List.mem_cons_self)]

end Lines

/-! ### Fields -/

theorem field_writtenLine {key : String} {value : List Char} (hcolon : ':' ∉ key.toList)
    (hkey : Trimmed isSpace key.toList) :
    field (writtenLine key value) = (key, String.ofList (stripQuotes (strip (' ' :: value)))) := by
  have hnot : ∀ c ∈ key.toList, decide (c ≠ ':') = true :=
    fun c hc => decide_eq_true fun heq : c = ':' => hcolon (heq ▸ hc)
  have hparts : partitionColon (writtenLine key value) = (key.toList, ' ' :: value) := by
    rw [partitionColon, writtenLine, List.takeWhile_append_of_pos hnot,
      List.takeWhile_cons_of_neg (by simp), List.append_nil, List.dropWhile_append_of_pos hnot,
      List.dropWhile_cons_of_neg (by simp)]
    rfl
  rw [field, hparts]
  dsimp only
  rw [strip, trim_of_trimmed hkey, String.ofList_toList]

/-- A plain value is read back. -/
theorem field_plain {key : String} {value : List Char} (hcolon : ':' ∉ key.toList)
    (hkey : Trimmed isSpace key.toList) (hvalue : IsPlainValue value) :
    field (writtenLine key value) = (key, String.ofList value) := by
  rw [field_writtenLine hcolon hkey, strip_space hvalue.spaces, stripQuotes,
    trim_of_trimmed hvalue.quotes]

/-- So is a quoted one. -/
theorem field_quoted {key : String} {value : List Char} (hcolon : ':' ∉ key.toList)
    (hkey : Trimmed isSpace key.toList) (hvalue : Trimmed (· == '"') value) :
    field (writtenLine key (quoted value)) = (key, String.ofList value) := by
  rw [field_writtenLine hcolon hkey, strip_space (trimmed_quoted value),
    stripQuotes_quoted hvalue]

/-- A separator of two characters, read as the first of them. -/
theorem intercalate_space (text : List Char) (texts : List (List Char)) :
    ", ".toList.intercalate (text :: texts) =
      [','].intercalate (text :: texts.map fun text => ' ' :: text) := by
  induction texts generalizing text with
  | nil => rfl
  | cons next texts ih =>
      have hstep : ∀ separator : List Char, separator.intercalate (text :: next :: texts) =
          text ++ separator ++ separator.intercalate (next :: texts) :=
        fun _ => List.intercalate_cons_cons
      rw [hstep, ih, List.map_cons, List.intercalate_cons_cons]
      cases texts with
      | nil => simp
      | cons other texts => simp [List.intercalate_cons_cons]

/-- Labels are read back from their list. -/
theorem labelsOf_intercalate {labels : List String}
    (h : ∀ label ∈ labels, label ≠ "" ∧ IsPlainValue label.toList ∧ ',' ∉ label.toList) :
    labelsOf (String.ofList (", ".toList.intercalate (labels.map String.toList))) = labels := by
  have hparts : ((", ".toList.intercalate (labels.map String.toList)).splitOn ',').map strip =
      if labels = [] then [[]] else labels.map String.toList := by
    cases labels with
    | nil => rfl
    | cons label labels =>
        rw [if_neg (List.cons_ne_nil label labels), List.map_cons, intercalate_space,
          List.splitOn_intercalate ',' _ (List.cons_ne_nil _ _)]
        · have hlabels := (List.forall_mem_cons.mp h).2
          rw [List.map_cons, strip, trim_of_trimmed (h label List.mem_cons_self).2.1.spaces,
            List.map_map, List.map_map]
          refine congrArg _ (List.map_congr_left fun next hnext => ?_)
          exact strip_space (hlabels next hnext).2.1.spaces
        · intro text htext
          rcases List.mem_cons.mp htext with rfl | htext
          · exact (h label List.mem_cons_self).2.2
          · simp only [List.map_map, List.mem_map] at htext
            obtain ⟨next, hnext, rfl⟩ := htext
            have hcomma := (h next (List.mem_cons_of_mem _ hnext)).2.2
            simp [hcomma]
  rw [labelsOf, String.toList_ofList, hparts]
  cases labels with
  | nil => rfl
  | cons label labels =>
      rw [if_neg (List.cons_ne_nil label labels), List.filterMap_map]
      refine (List.filterMap_congr fun next hnext => ?_).trans List.filterMap_some
      have hne : next.toList.isEmpty = false := by
        simpa using (h next hnext).1
      show (if next.toList.isEmpty then none else some (String.ofList next.toList)) = some next
      rw [hne, String.ofList_toList]
      rfl

/-- A text whose ends are those of two trimmed parts. -/
theorem trimmed_append {p : Char → Bool} {first last : List Char} (between : List Char)
    (hfirst : Trimmed p first) (hne : first ≠ []) (hlast : Trimmed p last) (hne' : last ≠ []) :
    Trimmed p (first ++ between ++ last) := by
  constructor
  · intro c hc
    rw [List.append_assoc, List.head?_append_of_ne_nil _ hne] at hc
    exact hfirst.1 c hc
  · intro c hc
    rw [List.getLast?_append_of_ne_nil _ hne'] at hc
    exact hlast.2 c hc

/-- Plain values make a plain list. -/
theorem isPlainValue_intercalate {texts : List (List Char)}
    (h : ∀ text ∈ texts, text ≠ [] ∧ IsPlainValue text) :
    IsPlainValue (", ".toList.intercalate texts) ∧
      (texts ≠ [] → ", ".toList.intercalate texts ≠ []) := by
  induction texts with
  | nil => exact ⟨⟨by simp, by simp [Trimmed], by simp [Trimmed]⟩, fun hne => absurd rfl hne⟩
  | cons text texts ih =>
      obtain ⟨⟨hne, hplain⟩, hrest⟩ := List.forall_mem_cons.mp h
      obtain ⟨hlist, hlistne⟩ := ih hrest
      cases texts with
      | nil =>
          rw [List.intercalate_singleton]
          exact ⟨hplain, fun _ => hne⟩
      | cons next texts =>
          have hlistne := hlistne (List.cons_ne_nil _ _)
          rw [List.intercalate_cons_cons]
          refine ⟨⟨?_, ?_, ?_⟩, fun _ => by simp [hne]⟩
          · intro c hc
            rw [List.mem_append, List.mem_append] at hc
            rcases hc with (hc | hc) | hc
            · exact hplain.line c hc
            · exact line_of_all (by decide) c hc
            · exact hlist.line c hc
          · exact trimmed_append _ hplain.spaces hne hlist.spaces hlistne
          · exact trimmed_append _ hplain.quotes hne hlist.quotes hlistne

/-! ## Main result -/

section Main

variable {t : Ticket}

theorem Ticket.IsWritable.labels_plain (h : t.IsWritable) :
    IsPlainValue (", ".toList.intercalate (t.labels.map String.toList)) := by
  refine (isPlainValue_intercalate ?_).1
  intro text htext
  obtain ⟨label, hlabel, rfl⟩ := List.mem_map.mp htext
  obtain ⟨hne, hplain, -⟩ := h.labels label hlabel
  exact ⟨by simpa using hne, hplain⟩

/-- The lines of the front matter are lines with a colon. -/
theorem Ticket.IsWritable.lines (h : t.IsWritable) :
    ∀ line ∈ t.frontMatter, ':' ∈ line ∧ line ≠ [] ∧ ∀ c ∈ line, isLineBreak c = false := by
  have hline : ∀ (key : String) (value : List Char), key ≠ "" →
      (key.toList.all fun c => !isLineBreak c) = true → (∀ c ∈ value, isLineBreak c = false) →
      ':' ∈ writtenLine key value ∧ writtenLine key value ≠ [] ∧
        ∀ c ∈ writtenLine key value, isLineBreak c = false := by
    intro key value hkey hbreak hvalue
    refine ⟨by simp [writtenLine], by simp [writtenLine], fun c hc => ?_⟩
    rw [writtenLine, List.mem_append, List.mem_cons, List.mem_cons] at hc
    rcases hc with hc | rfl | rfl | hc
    · exact line_of_all hbreak c hc
    · decide
    · decide
    · exact hvalue c hc
  have hquoted : ∀ c ∈ quoted t.title.toList, isLineBreak c = false := by
    intro c hc
    rw [quoted, List.mem_cons, List.mem_append, List.mem_singleton] at hc
    rcases hc with rfl | hc | rfl
    · decide
    · exact h.title_line c hc
    · decide
  intro line hmem
  simp only [Ticket.frontMatter, List.mem_cons, List.not_mem_nil, or_false] at hmem
  rcases hmem with rfl | rfl | rfl | rfl
  · exact hline _ _ (by decide) (by decide) hquoted
  · exact hline _ _ (by decide) (by decide) h.labels_plain.line
  · exact hline _ _ (by decide) (by decide) h.milestone.line
  · exact hline _ _ (by decide) (by decide) h.status.line

theorem Ticket.IsWritable.fields (h : t.IsWritable) :
    t.frontMatter.map field = [("title", t.title),
      ("labels", String.ofList (", ".toList.intercalate (t.labels.map String.toList))),
      ("milestone", t.milestone), ("status", t.status)] := by
  have hkey : ∀ key ∈ ["title", "labels", "milestone", "status"],
      ':' ∉ key.toList ∧ (key.toList.head?.all fun c => !isSpace c) = true ∧
        (key.toList.getLast?.all fun c => !isSpace c) = true := by
    decide +kernel
  have hplain : ∀ (key : String) (value : List Char), key ∈ ["title", "labels", "milestone",
      "status"] → IsPlainValue value →
      field (writtenLine key value) = (key, String.ofList value) := by
    intro key value hmem hvalue
    obtain ⟨hcolon, hhead, hlast⟩ := hkey key hmem
    exact field_plain hcolon (trimmed_of_ends hhead hlast) hvalue
  have htitle : field (writtenLine "title" (quoted t.title.toList)) =
      ("title", String.ofList t.title.toList) := by
    obtain ⟨hcolon, hhead, hlast⟩ := hkey "title" (by simp)
    exact field_quoted hcolon (trimmed_of_ends hhead hlast) h.title_quotes
  simp only [Ticket.frontMatter, List.map_cons, List.map_nil]
  rw [htitle, hplain "labels" _ (by simp) h.labels_plain, hplain "milestone" _ (by simp)
    h.milestone, hplain "status" _ (by simp) h.status]
  simp only [String.ofList_toList]

theorem Ticket.IsWritable.text (h : t.IsWritable) (hbody : '\r' ∉ t.body.toList) :
    universalNewlines t.written.text.toList = "---\n".toList ++ (joinLines t.frontMatter ++
      "---\n".toList ++ (t.body.toList ++ ['\n'])) := by
  have htext : t.written.text.toList = "---\n".toList ++ (joinLines t.frontMatter ++
      "---\n".toList ++ (t.body.toList ++ ['\n'])) := by
    rw [Ticket.written, String.toList_ofList]
    simp only [List.append_assoc]
  have hlines : '\r' ∉ joinLines t.frontMatter := by
    intro hmem
    obtain ⟨line, hline, hmem⟩ := List.mem_flatMap.mp hmem
    rcases List.mem_append.mp hmem with hmem | hmem
    · exact absurd ((h.lines line hline).2.2 _ hmem) (by decide)
    · exact absurd hmem (by decide)
  rw [htext]
  apply universalNewlines_eq_self
  simp only [List.mem_append, not_or]
  exact ⟨by decide, ⟨hlines, by decide⟩, hbody, by decide⟩

/-- A ticket is read back from the file that is written for it. -/
theorem parse_written (h : t.IsWritable) (hbody : '\r' ∉ t.body.toList) :
    parse t.written = .ok t := by
  have hfront : frontMatter? (universalNewlines t.written.text.toList) =
      some (['\n'].intercalate t.frontMatter, t.body.toList ++ ['\n']) := by
    have hlines : ∀ line ∈ t.frontMatter, ':' ∈ line ∧ '\n' ∉ line := by
      intro line hline
      obtain ⟨hcolon, -, hbreak⟩ := h.lines line hline
      exact ⟨hcolon, fun hmem => absurd (hbreak _ hmem) (by decide)⟩
    rw [h.text hbody, frontMatter?,
      if_pos (List.isPrefixOf_iff_prefix.mpr (List.prefix_append _ _))]
    exact breakAt_joinLines hlines _
  have hsplit : splitlines (['\n'].intercalate t.frontMatter) = t.frontMatter :=
    splitlines_intercalate fun line hline => (h.lines line hline).2
  have hslice : t.labels.contains (sliceLabel t.written.name) = true :=
    List.contains_iff_mem.mpr h.slice
  rw [parse, hfront]
  simp only [hsplit, h.fields, strip_newline h.body, String.ofList_toList]
  show (do
    let labels := labelsOf (← Except.ok _)
    let slice := sliceLabel t.written.name
    return {
      name := t.written.name
      labels := if labels.contains slice then labels else labels ++ [slice]
      title := ← Except.ok t.title
      milestone := ← Except.ok t.milestone
      status := t.status
      body := t.body } : Except SeedError Ticket) = _
  simp only [bind, Except.bind, labelsOf_intercalate h.labels, hslice, if_true]
  rfl

/-- What succeeds after a step does so with the value of the step. -/
theorem exists_of_bind_eq_ok {α β : Type} {e : Except SeedError α} {f : α → Except SeedError β}
    {b : β} (h : e >>= f = .ok b) : ∃ a, f a = .ok b := by
  cases e with
  | error err => cases h
  | ok a => exact ⟨a, h⟩

/-- A body that is read has no carriage return. -/
theorem not_mem_body_of_parse {file : TicketFile} (h : parse file = .ok t) :
    '\r' ∉ t.body.toList := by
  unfold parse at h
  cases hfront : frontMatter? (universalNewlines file.text.toList) with
  | none =>
      rw [hfront] at h
      cases h
  | some parts =>
      obtain ⟨front, body⟩ := parts
      have hbody : '\r' ∉ body := by
        unfold frontMatter? at hfront
        split_ifs at hfront
        intro hmem
        exact not_mem_universalNewlines _
          (List.mem_of_mem_drop ((breakAt_suffix hfront).mem hmem))
      have htrimmed : '\r' ∉ strip body := fun hmem => hbody
        ((List.dropWhile_sublist _).subset ((List.rdropWhile_prefix _ _).subset hmem))
      -- the fields are looked up one after the other
      rw [hfront] at h
      obtain ⟨labels, h⟩ := exists_of_bind_eq_ok h
      obtain ⟨title, h⟩ := exists_of_bind_eq_ok h
      obtain ⟨milestone, h⟩ := exists_of_bind_eq_ok h
      obtain rfl := Except.ok.inj h
      rwa [String.toList_ofList]

/-- A ticket is read back from the file that is written for it exactly if its body has no carriage
return. -/
theorem parse_written_iff (h : t.IsWritable) :
    parse t.written = .ok t ↔ '\r' ∉ t.body.toList :=
  ⟨not_mem_body_of_parse, parse_written h⟩

end Main

/-! ## A ticket -/

/-- `docs/tickets/S0-001-repo-scaffold.md`, shortened. -/
def sampleTicket : Ticket where
  name := "S0-001-repo-scaffold.md"
  title := "S0-001 Repo scaffold: uv"
  labels := ["type:chore", "slice:S0"]
  milestone := "S0 Foundation"
  status := "done"
  body := "## Description\nCreate the project."

theorem isWritable_sampleTicket : sampleTicket.IsWritable := by
  have htrimmed : ∀ p : Char → Bool, p = isSpace ∨ p = (· == '"') →
      ∀ text ∈ ["S0-001 Repo scaffold: uv", "type:chore", "slice:S0", "S0 Foundation", "done",
        "## Description\nCreate the project."], Trimmed p text.toList := by
    rintro p (rfl | rfl) text htext
    all_goals
      simp only [List.mem_cons, List.not_mem_nil, or_false] at htext
      rcases htext with rfl | rfl | rfl | rfl | rfl | rfl
      all_goals exact trimmed_of_ends (by decide) (by decide)
  have hplain : ∀ text ∈ ["type:chore", "slice:S0", "S0 Foundation", "done"],
      IsPlainValue text.toList := by
    intro text htext
    refine ⟨?_, htrimmed _ (Or.inl rfl) _ ?_, htrimmed _ (Or.inr rfl) _ ?_⟩
    · simp only [List.mem_cons, List.not_mem_nil, or_false] at htext
      rcases htext with rfl | rfl | rfl | rfl
      all_goals exact line_of_all (by decide)
    all_goals
      simp only [List.mem_cons, List.not_mem_nil, or_false] at htext ⊢
      tauto
  refine ⟨line_of_all (by decide), htrimmed _ (Or.inr rfl) _ (by simp [sampleTicket]), ?_,
    by decide +kernel, hplain _ (by simp [sampleTicket]), hplain _ (by simp [sampleTicket]),
    htrimmed _ (Or.inl rfl) _ (by simp [sampleTicket])⟩
  intro label hlabel
  simp only [sampleTicket, List.mem_cons, List.not_mem_nil, or_false] at hlabel
  rcases hlabel with rfl | rfl
  all_goals exact ⟨by decide, hplain _ (by simp), by decide⟩

theorem parse_written_sampleTicket : parse sampleTicket.written = .ok sampleTicket :=
  (parse_written_iff isWritable_sampleTicket).mpr (by decide)

end ProjectsApi.Seeding
