import FitSession.Naming.CallText
import Mathlib.Data.List.Forall2
import Mathlib.Data.List.TakeWhile
import Mathlib.Data.String.Basic

/-!
# Calls that a text shows

A text may show a call on its first line, behind blanks, or on the line after one with an ellipsis.
Its arguments may have types before their names, other symbols at their names and defaults behind
them. Their names are read in order, and whatever is read stands between the parentheses of such a
line.

* `words_append_blank`, `getLast?_words`: the words of a text, and the last one;
* `textLines_append`, `exists_textLines`: the lines of a text, and the first one;
* `ShowsArgument`, `argumentName_of_shows`: an argument as it may be shown, and its name;
* `Preamble`, `callLine_append`, `exists_of_callLine`: what may precede the line that is read;
* **`calls_are_read`**: calls that are shown are read, and what is read was shown.
-/

namespace FitSession

/-! ## Words -/

section Words

variable {l r before word gap : List Char}

/-- Words end at a blank. -/
theorem words_append_blank {b : Char} (hb : isBlank b = true) (l r : List Char) :
    words (l ++ b :: r) = words l ++ words r := by
  unfold words
  rw [List.splitOnP_append_cons l r hb, List.filter_append]

theorem words_of_unbroken (h : ∀ c ∈ word, isBlank c = false) (hne : word ≠ []) :
    words word = [word] := by
  unfold words
  rw [List.splitOnP_eq_singleton h]
  simp [hne]

theorem words_of_blanks (h : ∀ c ∈ gap, isBlank c = true) : words gap = [] := by
  induction gap with
  | nil => rfl
  | cons b gap ih =>
    obtain ⟨hb, hgap⟩ := List.forall_mem_cons.mp h
    rw [← List.nil_append (b :: gap), words_append_blank hb, ih hgap]
    rfl

/-- The last word stands behind a blank or at the start, and before blanks. -/
theorem getLast?_words (hbefore : ∀ b ∈ before.getLast?, isBlank b = true)
    (hword : ∀ c ∈ word, isBlank c = false) (hne : word ≠ [])
    (hgap : ∀ c ∈ gap, isBlank c = true) :
    (words (before ++ (word ++ gap))).getLast? = some word := by
  have hrest : words (word ++ gap) = [word] := by
    cases gap with
    | nil => rw [List.append_nil, words_of_unbroken hword hne]
    | cons b gap =>
      obtain ⟨hb, hgap⟩ := List.forall_mem_cons.mp hgap
      rw [words_append_blank hb, words_of_unbroken hword hne, words_of_blanks hgap]
      rfl
  rcases before.eq_nil_or_concat with rfl | ⟨before, b, rfl⟩
  · rw [List.nil_append, hrest]
    rfl
  · have hb : isBlank b = true := hbefore b (by simp)
    rw [List.concat_eq_append, List.append_assoc, List.singleton_append, words_append_blank hb,
      hrest, List.getLast?_concat]

theorem sublist_of_mem_splitOnP {p : Char → Bool} (h : word ∈ l.splitOnP p) : word.Sublist l := by
  induction l generalizing word with
  | nil =>
    obtain rfl : word = [] := by simpa using h
    exact .refl _
  | cons x l ih =>
    rw [List.splitOnP_cons_eq_if_modifyHead] at h
    split_ifs at h
    · rcases List.mem_cons.mp h with rfl | h
      · exact List.nil_sublist _
      · exact (ih h).cons x
    · obtain ⟨first, rest, hsplit⟩ := List.exists_cons_of_ne_nil (List.splitOnP_ne_nil p l)
      rw [hsplit, List.modifyHead_cons] at h
      rcases List.mem_cons.mp h with rfl | h
      · exact (ih (hsplit ▸ List.mem_cons_self)).cons_cons x
      · exact (ih (hsplit ▸ List.mem_cons_of_mem _ h)).cons x

theorem sublist_of_mem_words (h : word ∈ words l) : word.Sublist l :=
  sublist_of_mem_splitOnP (List.mem_filter.mp h).1

end Words

/-! ## Lines -/

section Lines

variable {cs line : List Char} {lines : List (List Char)}

/-- A line without a carriage return at its end. -/
def stripReturn (line : List Char) : List Char :=
  if line.getLast? = some '\r' then line.dropLast else line

theorem ne_feed (h : '\n' ∉ line) : ∀ c ∈ line, (c == '\n') = false := by
  intro c hc
  refine beq_eq_false_iff_ne.mpr ?_
  rintro rfl
  exact h hc

/-- What stands between line feeds, without an empty piece at the end. -/
def linePieces (cs : List Char) : List (List Char) :=
  let pieces := cs.splitOn '\n'
  if pieces.getLast? = some [] then pieces.dropLast else pieces

theorem textLines_eq (cs : List Char) :
    textLines cs = (linePieces cs).zipIdx.map fun (line, i) =>
      if (cs.getLast? = some '\n' || i + 1 < (linePieces cs).length) && line.getLast? = some '\r'
      then line.dropLast else line := rfl

theorem linePieces_append (h : '\n' ∉ line) (rest : List Char) :
    linePieces (line ++ '\n' :: rest) = line :: linePieces rest := by
  have hsplit : (line ++ '\n' :: rest).splitOn '\n' = line :: rest.splitOn '\n' :=
    List.splitOnP_append_cons_of_forall_mem (ne_feed h) _ (beq_self_eq_true _) _
  unfold linePieces
  dsimp only
  rw [hsplit]
  cases hrest : rest.splitOn '\n' with
  | nil => exact absurd hrest (List.splitOnP_ne_nil _ _)
  | cons piece pieces =>
    rw [List.getLast?_cons_cons, List.dropLast_cons_cons]
    split_ifs <;> rfl

theorem linePieces_ne_nil (h : cs ≠ []) : linePieces cs ≠ [] := by
  intro hnil
  have hjoin : ['\n'].intercalate (cs.splitOn '\n') = cs := List.intercalate_splitOn '\n'
  unfold linePieces at hnil
  dsimp only at hnil
  split_ifs at hnil with hlast
  · rcases (cs.splitOn '\n').eq_nil_or_concat with heq | ⟨before, last, heq⟩
    · exact List.splitOnP_ne_nil _ _ heq
    · rw [heq, List.concat_eq_append, List.dropLast_concat] at hnil
      rw [heq, List.concat_eq_append, List.getLast?_concat, Option.some.injEq] at hlast
      rw [heq, hnil, hlast] at hjoin
      exact h hjoin.symm
  · exact List.splitOnP_ne_nil _ _ hnil

theorem textLines_of_unbroken (h : '\n' ∉ line) (hne : line ≠ []) : textLines line = [line] := by
  have hpieces : linePieces line = [line] := by
    unfold linePieces
    rw [show line.splitOn '\n' = [line] from List.splitOnP_eq_singleton (ne_feed h)]
    simp [hne]
  have hended : ¬line.getLast? = some '\n' := fun heq => h (List.mem_of_getLast? heq)
  rw [textLines_eq, hpieces]
  simp [hended]

/-- A line feed ends the first line. -/
theorem textLines_append (h : '\n' ∉ line) (rest : List Char) :
    textLines (line ++ '\n' :: rest) = stripReturn line :: textLines rest := by
  rw [textLines_eq, textLines_eq, linePieces_append h]
  by_cases hrest : rest = []
  · subst hrest
    simp [linePieces, stripReturn]
  · have hended : (line ++ '\n' :: rest).getLast? = rest.getLast? := by
      rw [List.getLast?_append_cons, List.getLast?_cons_of_ne_nil hrest]
    have hcount : 0 < (linePieces rest).length :=
      List.length_pos_iff.mpr (linePieces_ne_nil hrest)
    rw [hended, List.zipIdx_cons, List.map_cons]
    congr 1
    · simp [stripReturn, hcount]
    · rw [List.zipIdx_succ, List.map_map]
      simp [Function.comp_def]

theorem stripReturn_append {c : Char} (hc : c ≠ '\r') (l tail : List Char) :
    stripReturn (l ++ c :: tail) = l ++ c :: stripReturn tail := by
  unfold stripReturn
  rcases tail.eq_nil_or_concat with rfl | ⟨tail, last, rfl⟩
  · simp [hc]
  · have hassoc : l ++ c :: (tail ++ [last]) = (l ++ c :: tail) ++ [last] := by simp
    rw [List.concat_eq_append, hassoc, List.getLast?_concat, List.getLast?_concat]
    split_ifs
    · rw [List.dropLast_concat, List.dropLast_concat]
    · exact hassoc.symm

/-- A line may only have lost a carriage return. -/
theorem stripReturn_cases (line : List Char) :
    line = stripReturn line ∨ line = stripReturn line ++ ['\r'] := by
  unfold stripReturn
  split_ifs with h
  · right
    obtain ⟨front, rfl⟩ := List.getLast?_eq_some_iff.mp h
    rw [List.dropLast_concat]
  · exact .inl rfl

/-- The first line begins as the text does, if this goes on to a character in the line. -/
theorem exists_textLines {c : Char} (hc : c ≠ '\r') {l : List Char} (h : '\n' ∉ l ++ [c])
    (after : List Char) :
    ∃ tail lines, textLines (l ++ c :: after) = (l ++ c :: tail) :: lines := by
  by_cases hfeed : '\n' ∈ after
  · obtain ⟨tail, more, rfl, htail⟩ := List.eq_append_cons_of_mem hfeed
    have hline : '\n' ∉ l ++ c :: tail := by
      rw [← List.singleton_append, ← List.append_assoc, List.mem_append]
      exact fun hmem => hmem.elim h htail
    refine ⟨stripReturn tail, textLines more, ?_⟩
    rw [← stripReturn_append hc, ← textLines_append hline]
    simp
  · have hline : '\n' ∉ l ++ c :: after := by
      rw [← List.singleton_append, ← List.append_assoc, List.mem_append]
      exact fun hmem => hmem.elim h hfeed
    exact ⟨after, [], textLines_of_unbroken hline (by simp)⟩

/-- What may follow a line: a line feed, also with a carriage return before it, or nothing. -/
inductive EndsLine : List Char → List Char → Prop
  | feed (more : List Char) : EndsLine ('\n' :: more) more
  | returned (more : List Char) : EndsLine ('\r' :: '\n' :: more) more
  | nothing : EndsLine [] []

/-- The first line, and the lines of what follows. -/
theorem exists_of_textLines (h : textLines cs = line :: lines) :
    ∃ rest more, cs = line ++ rest ∧ '\n' ∉ line ∧ EndsLine rest more ∧ lines = textLines more := by
  by_cases hfeed : '\n' ∈ cs
  · obtain ⟨first, more, rfl, hfirst⟩ := List.eq_append_cons_of_mem hfeed
    rw [textLines_append hfirst] at h
    obtain ⟨rfl, rfl⟩ := List.cons.inj h
    rcases stripReturn_cases first with heq | heq
    · exact ⟨'\n' :: more, more, by rw [← heq], heq ▸ hfirst, .feed more, rfl⟩
    · refine ⟨'\r' :: '\n' :: more, more, ?_, fun hmem => hfirst ?_, .returned more, rfl⟩
      · conv_lhs => rw [heq]
        simp
      · rw [heq]
        exact List.mem_append_left _ hmem
  · by_cases hne : cs = []
    · subst hne
      cases h
    · rw [textLines_of_unbroken hfeed hne] at h
      obtain ⟨rfl, rfl⟩ := List.cons.inj h
      exact ⟨[], [], (List.append_nil cs).symm, hfeed, .nothing, rfl⟩

end Lines

/-! ## Arguments -/

/-- A text that shows an argument with this name: it may have types before it, which end in a blank,
other symbols in the word of the name, and a default behind it. -/
inductive ShowsArgument (name : String) : List Char → Prop
  | intro {before word gap default : List Char}
      (types : ∀ b ∈ before.getLast?, isBlank b = true)
      (unbroken : ∀ c ∈ word, isBlank c = false)
      (named : word.filter isNameChar = name.toList)
      (blanks : ∀ c ∈ gap, isBlank c = true)
      (equals : ∀ c ∈ default.head?, c = '=')
      (noEquals : '=' ∉ before ++ word)
      (plain : ∀ c ∈ before ++ (word ++ gap) ++ default, c ∉ [',', '(', ')', '\n']) :
      ShowsArgument name (before ++ (word ++ gap) ++ default)

theorem not_isBlank_equals : isBlank '=' = false := by decide

/-- An argument that is shown has its name. -/
theorem argumentName_of_shows {name : String} {text : List Char} (h : ShowsArgument name text)
    (hne : name ≠ "") : argumentName text = some name := by
  obtain @⟨before, word, gap, default, htypes, hword, hnamed, hgap, hequals, hno, -⟩ := h
  have hkept : word.filter isNameChar ≠ [] := by
    rw [hnamed]
    exact fun hnil => hne (String.toList_inj.mp (hnil.trans String.toList_empty.symm))
  have hwordne : word ≠ [] := by
    rintro rfl
    exact hkept rfl
  have hfree : ∀ c ∈ before ++ (word ++ gap), decide (c ≠ '=') = true := by
    intro c hc
    refine decide_eq_true ?_
    rintro rfl
    rw [← List.append_assoc, List.mem_append] at hc
    rcases hc with hc | hc
    · exact hno hc
    · exact Bool.false_ne_true (not_isBlank_equals.symm.trans (hgap _ hc))
  have hstop : default.takeWhile (· ≠ '=') = [] := by
    cases default with
    | nil => rfl
    | cons c value =>
      obtain rfl : c = '=' := hequals c (by simp)
      rfl
  unfold argumentName
  rw [List.takeWhile_append_of_pos hfree, hstop, List.append_nil,
    getLast?_words htypes hword hwordne hgap]
  dsimp only
  rw [if_neg (by simpa using hkept), hnamed, String.ofList_toList]

/-- A name is the name characters of a word. -/
theorem exists_of_argumentName {part : List Char} {name : String}
    (h : argumentName part = some name) : name ≠ "" ∧ (∀ c ∈ name.toList, isNameChar c = true) ∧
      ∃ word ∈ words (part.takeWhile (· ≠ '=')), name.toList = word.filter isNameChar := by
  unfold argumentName at h
  cases hlast : (words (part.takeWhile (· ≠ '='))).getLast? with
  | none =>
    rw [hlast] at h
    cases h
  | some word =>
    rw [hlast] at h
    dsimp only at h
    split_ifs at h with hempty
    cases h
    have hlist : (String.ofList (word.filter isNameChar)).toList = word.filter isNameChar :=
      String.toList_ofList
    refine ⟨fun hnil => hempty ?_, fun c hc => ?_, word, List.mem_of_getLast? hlast, hlist⟩
    · rw [← hlist, hnil]
      rfl
    · rw [hlist] at hc
      exact (List.mem_filter.mp hc).2

/-! ## The line that is read -/

/-- What may precede the line of a call: blanks, or a line that begins with an ellipsis. -/
inductive Preamble : List Char → Prop
  | blanks {lead : List Char} (blank : ∀ c ∈ lead, isBlank c = true) : Preamble lead
  | ellipsis {lead text : List Char} (blank : ∀ c ∈ lead, isBlank c = true)
      (oneLine : '\n' ∉ text) : Preamble (lead ++ ("('...',)".toList ++ text ++ ['\n']))

/-- What may stand before the parenthesis of a call. -/
structure IsCallHead (head : List Char) : Prop where
  starts : ∃ c ∈ head.head?, isBlank c = false
  allowed : ∀ c ∈ head, isHeadChar c = true
  oneLine : '\n' ∉ head

theorem not_isHeadChar_open : isHeadChar '(' = false := by decide +kernel

theorem dropBlanks_append {lead text : List Char} (hlead : ∀ c ∈ lead, isBlank c = true)
    (htext : ∃ c ∈ text.head?, isBlank c = false) : dropBlanks (lead ++ text) = text := by
  obtain ⟨c, hc, hblank⟩ := htext
  obtain ⟨rest, rfl⟩ := List.head?_eq_some_iff.mp hc
  rw [dropBlanks, List.dropWhile_append_of_pos hlead]
  exact List.dropWhile_cons_of_neg (by simp [hblank])

/-- The line that is read is that of the head, up to where it ends. -/
theorem exists_callLine {lead head l : List Char} {c : Char} (hlead : Preamble lead)
    (hhead : IsCallHead head) (hc : c ≠ '\r') (hl : '\n' ∉ l ++ [c]) (after : List Char) :
    ∃ tail, callLine (lead ++ (head ++ l ++ c :: after)) = some (head ++ l ++ c :: tail) := by
  have hfirst : '\n' ∉ head ++ l ++ [c] := by
    rw [List.append_assoc, List.mem_append]
    exact fun hmem => hmem.elim hhead.oneLine hl
  obtain ⟨tail, lines, hlines⟩ := exists_textLines hc hfirst after
  obtain ⟨first, hstart, hblank⟩ := hhead.starts
  obtain ⟨rest, rfl⟩ := List.head?_eq_some_iff.mp hstart
  refine ⟨tail, ?_⟩
  unfold callLine
  cases hlead with
  | blanks hlead =>
    have hopen : first ≠ '(' := by
      rintro rfl
      exact Bool.false_ne_true
        (not_isHeadChar_open.symm.trans (hhead.allowed '(' List.mem_cons_self))
    rw [dropBlanks_append hlead ⟨first, rfl, hblank⟩, hlines]
    dsimp only
    exact if_neg (by simp [List.isPrefixOf, hopen.symm])
  | @ellipsis lead text hlead htext =>
    have hline : '\n' ∉ "('...',)".toList ++ text := by
      rw [List.mem_append]
      exact fun hmem => hmem.elim (by decide) htext
    have hstripped : stripReturn ("('...',)".toList ++ text) =
        "('...',)".toList ++ stripReturn text :=
      stripReturn_append (c := ')') (by decide) "('...',".toList text
    have hwhole : lead ++ ("('...',)".toList ++ text ++ ['\n']) ++
        (first :: rest ++ l ++ c :: after) =
        lead ++ ("('...',)".toList ++ text ++ '\n' :: (first :: rest ++ l ++ c :: after)) := by
      simp
    rw [hwhole, dropBlanks_append hlead ⟨'(', rfl, by decide⟩, textLines_append hline, hstripped,
      hlines]
    dsimp only
    rw [if_pos (List.isPrefixOf_iff_prefix.mpr (List.prefix_append _ _))]
    rfl

/-- The line that is read stands behind what may precede it, and ends there. -/
theorem exists_of_callLine {cs line : List Char} (h : callLine cs = some line) :
    ∃ lead rest more, cs = lead ++ (line ++ rest) ∧ Preamble lead ∧ '\n' ∉ line ∧
      EndsLine rest more := by
  have hblanks : ∀ c ∈ cs.takeWhile isBlank, isBlank c = true := fun c hc =>
    List.mem_takeWhile_imp hc
  have hcs : cs.takeWhile isBlank ++ dropBlanks cs = cs := List.takeWhile_append_dropWhile
  unfold callLine at h
  cases hlines : textLines (dropBlanks cs) with
  | nil =>
    rw [hlines] at h
    cases h
  | cons first lines =>
    rw [hlines] at h
    obtain ⟨rest, more, hfirst, hfeed, hends, rfl⟩ := exists_of_textLines hlines
    dsimp only at h
    split_ifs at h with hellipsis
    · obtain ⟨text, rfl⟩ := List.isPrefixOf_iff_prefix.mp hellipsis
      obtain ⟨lines, hmore⟩ := List.head?_eq_some_iff.mp h
      obtain ⟨rest', more', hnext, hfeed', hends', -⟩ := exists_of_textLines hmore
      have htext : '\n' ∉ text := fun hmem => hfeed (List.mem_append_right _ hmem)
      cases hends with
      | feed =>
        refine ⟨_, rest', more', ?_, .ellipsis hblanks htext, hfeed', hends'⟩
        conv_lhs => rw [← hcs, hfirst, hnext]
        simp
      | returned =>
        have hreturn : '\n' ∉ text ++ ['\r'] := by simp [htext]
        refine ⟨_, rest', more', ?_, .ellipsis hblanks hreturn, hfeed', hends'⟩
        conv_lhs => rw [← hcs, hfirst, hnext]
        simp
      | nothing => cases hmore
    · cases h
      exact ⟨_, rest, more, by rw [← hfirst, hcs], .blanks hblanks, hfeed, hends⟩

/-! ## Calls -/

section Calls

variable {head inside rest line : List Char} {names : List String} {x : Char}

theorem decide_ne_of_notMem (h : x ∉ head) : ∀ c ∈ head, decide (c ≠ x) = true :=
  fun _ hc => decide_eq_true (ne_of_mem_of_not_mem hc h)

theorem takeWhile_ne_append (h : x ∉ head) (rest : List Char) :
    (head ++ x :: rest).takeWhile (· ≠ x) = head := by
  rw [List.takeWhile_append_of_pos (decide_ne_of_notMem h), List.takeWhile_cons_of_neg (by simp),
    List.append_nil]

theorem dropWhile_ne_append (h : x ∉ head) (rest : List Char) :
    (head ++ x :: rest).dropWhile (· ≠ x) = x :: rest := by
  rw [List.dropWhile_append_of_pos (decide_ne_of_notMem h), List.dropWhile_cons_of_neg (by simp)]

/-- **The names in a line** are those of the parts between the parentheses. -/
theorem argumentsOfLine_eq_some : argumentsOfLine line = some names ↔
    ∃ head inside tail, line = head ++ '(' :: (inside ++ ')' :: tail) ∧ '(' ∉ head ∧
      ')' ∉ inside ∧ head ≠ [] ∧ (∀ c ∈ head, isHeadChar c = true) ∧ names ≠ [] ∧
      names = (inside.splitOn ',').filterMap argumentName := by
  by_cases hopen : '(' ∈ line
  · obtain ⟨head, rest, rfl, hhead⟩ := List.eq_append_cons_of_mem hopen
    unfold argumentsOfLine
    rw [takeWhile_ne_append hhead, dropWhile_ne_append hhead]
    dsimp only
    constructor
    · intro h
      split_ifs at h with hbad hclose hempty
      have hmem : ')' ∈ rest := by simpa using hclose
      obtain ⟨inside, tail, rfl, hinside⟩ := List.eq_append_cons_of_mem hmem
      rw [takeWhile_ne_append hinside] at h hempty
      cases h
      obtain ⟨hne, hallowed⟩ : head ≠ [] ∧ ∀ c ∈ head, isHeadChar c = true := by simpa using hbad
      exact ⟨head, inside, tail, rfl, hhead, hinside, hne, hallowed, by simpa using hempty, rfl⟩
    · rintro ⟨head', inside, tail, hline, hhead', hinside, hne, hallowed, hnames, rfl⟩
      obtain ⟨rfl, hrest⟩ : head = head' ∧ rest = inside ++ ')' :: tail := by
        have htake := congrArg (List.takeWhile (· ≠ '(')) hline
        rw [takeWhile_ne_append hhead, takeWhile_ne_append hhead'] at htake
        subst htake
        exact ⟨rfl, (List.cons.inj (List.append_cancel_left hline)).2⟩
      subst hrest
      rw [takeWhile_ne_append hinside, if_neg (by simpa using ⟨hne, hallowed⟩),
        if_neg (by simp), if_neg (by simpa using hnames)]
  · refine iff_of_false (fun h => ?_) ?_
    · have hnone : line.dropWhile (· ≠ '(') = [] :=
        List.dropWhile_eq_nil_iff.mpr (decide_ne_of_notMem hopen)
      unfold argumentsOfLine at h
      rw [hnone] at h
      cases h
    · rintro ⟨head, inside, tail, rfl, -⟩
      exact hopen (by simp)

/-- What is read of parts stands in them. -/
theorem sublist_of_filterMap (parts : List (List Char)) :
    ((parts.filterMap argumentName).flatMap String.toList).Sublist parts.flatten := by
  induction parts with
  | nil => exact .refl _
  | cons part parts ih =>
    cases hname : argumentName part with
    | none =>
      rw [List.filterMap_cons_none hname]
      exact ih.trans (List.sublist_append_right _ _)
    | some name =>
      obtain ⟨-, -, word, hword, hkept⟩ := exists_of_argumentName hname
      have hpart : name.toList.Sublist part := hkept ▸ List.filter_sublist.trans
        ((sublist_of_mem_words hword).trans (List.takeWhile_sublist _))
      rw [List.filterMap_cons_some hname]
      exact hpart.append ih

theorem flatten_sublist_intercalate (sep : List Char) (parts : List (List Char)) :
    parts.flatten.Sublist (sep.intercalate parts) := by
  induction parts with
  | nil => exact .refl _
  | cons part parts ih =>
    cases parts with
    | nil => exact .refl _
    | cons next parts =>
      rw [List.flatten_cons, List.intercalate_cons_cons, List.append_assoc]
      exact (ih.trans (List.sublist_append_right _ _)).append_left part

theorem mem_intercalate {parts : List (List Char)} {sep c : Char}
    (h : c ∈ [sep].intercalate parts) : c = sep ∨ ∃ part ∈ parts, c ∈ part := by
  induction parts with
  | nil => cases h
  | cons part parts ih =>
    cases parts with
    | nil => exact .inr ⟨part, List.mem_cons_self, by simpa using h⟩
    | cons next parts =>
      rw [List.intercalate_cons_cons, List.mem_append, List.mem_append, List.mem_singleton] at h
      rcases h with (h | h) | h
      · exact .inr ⟨part, List.mem_cons_self, h⟩
      · exact .inl h
      · exact (ih h).imp_right fun ⟨other, hother, hc⟩ => ⟨other, List.mem_cons_of_mem _ hother, hc⟩

end Calls

/-! ## Calls that are shown -/

section Shown

variable {names : List String} {texts : List (List Char)}
  (hshows : List.Forall₂ ShowsArgument names texts)
include hshows

theorem plain_of_shows : ∀ text ∈ texts, ∀ c ∈ text, c ∉ [',', '(', ')', '\n'] := by
  induction hshows with
  | nil => exact nofun
  | cons hshow _ ih =>
    obtain ⟨-, -, -, -, -, -, hplain⟩ := hshow
    exact List.forall_mem_cons.mpr ⟨hplain, ih⟩

theorem filterMap_of_shows (hnames : ∀ name ∈ names, name ≠ "") :
    texts.filterMap argumentName = names := by
  induction hshows with
  | nil => rfl
  | cons hshow _ ih =>
    obtain ⟨hname, hnames⟩ := List.forall_mem_cons.mp hnames
    rw [List.filterMap_cons_some (argumentName_of_shows hshow hname), ih hnames]

/-- **Calls that are shown are read.** Behind what may precede it, a head with arguments in
parentheses, each shown in any way, gives exactly their names in order, whatever follows. -/
theorem argumentsOfCall_of_shows {lead head after : List Char} (hnonempty : names ≠ [])
    (hnames : ∀ name ∈ names, name ≠ "") (hlead : Preamble lead) (hhead : IsCallHead head) :
    argumentsOfCall (String.ofList
      (lead ++ (head ++ '(' :: ([','].intercalate texts ++ ')' :: after)))) = some names := by
  have hplain := plain_of_shows hshows
  have hinside : ∀ c ∈ [','].intercalate texts, c ≠ ')' ∧ c ≠ '\n' := by
    intro c hc
    rcases mem_intercalate hc with rfl | ⟨text, htext, hc⟩
    · decide
    · have hnot := hplain text htext c hc
      simp only [List.mem_cons, List.not_mem_nil, or_false, not_or] at hnot
      exact ⟨hnot.2.2.1, hnot.2.2.2⟩
  have hline : '\n' ∉ ('(' :: [','].intercalate texts) ++ [')'] := by
    simp only [List.cons_append, List.mem_cons, List.mem_append, List.not_mem_nil, or_false, not_or]
    exact ⟨by decide, fun hmem => (hinside _ hmem).2 rfl, by decide⟩
  have hopen : '(' ∉ head := fun hmem =>
    Bool.false_ne_true (not_isHeadChar_open.symm.trans (hhead.allowed '(' hmem))
  have hne : head ≠ [] := by
    rintro rfl
    obtain ⟨c, hc, -⟩ := hhead.starts
    cases hc
  have htexts : texts ≠ [] := by
    rintro rfl
    exact hnonempty (List.forall₂_nil_right_iff.mp hshows)
  have hcomma : ∀ text ∈ texts, ',' ∉ text := fun text htext hmem =>
    hplain text htext ',' hmem (by simp)
  have hsplit : ([','].intercalate texts).splitOn ',' = texts :=
    List.splitOn_intercalate ',' hcomma htexts
  obtain ⟨tail, hcall⟩ := exists_callLine hlead hhead (c := ')') (by decide) hline after
  have hsame : lead ++ (head ++ '(' :: ([','].intercalate texts ++ ')' :: after)) =
      lead ++ (head ++ ('(' :: [','].intercalate texts) ++ ')' :: after) := by simp
  rw [argumentsOfCall, String.toList_ofList, hsame, hcall, Option.bind_some]
  refine argumentsOfLine_eq_some.mpr ⟨head, [','].intercalate texts, tail, by simp, hopen,
    fun hmem => (hinside _ hmem).1 rfl, hne, hhead.allowed, hnonempty, ?_⟩
  rw [hsplit, filterMap_of_shows hshows hnames]

end Shown

/-- The codes of the blanks. -/
def blankCodes : List ℕ :=
  [9, 10, 11, 12, 13, 0x20, 0x85, 0xA0, 0x1680, 0x2000, 0x2001, 0x2002, 0x2003, 0x2004, 0x2005,
    0x2006, 0x2007, 0x2008, 0x2009, 0x200A, 0x2028, 0x2029, 0x202F, 0x205F, 0x3000]

/-- No blank may stand in a name. -/
theorem not_isBlank_of_isNameChar {c : Char} (h : isNameChar c = true) : isBlank c = false := by
  have hcodes : ∀ n ∈ blankCodes, (letterRanges.any fun r => r.1 ≤ n && n ≤ r.2) = false := by
    decide +kernel
  refine Bool.eq_false_iff.mpr fun hblank => ?_
  have hmem : c.toNat ∈ blankCodes := by
    simp only [isBlank, Bool.or_eq_true, Bool.and_eq_true, decide_eq_true_eq] at hblank
    simp only [blankCodes, List.mem_cons, List.not_mem_nil, or_false]
    omega
  change ((letterRanges.any fun r => r.1 ≤ c.toNat && c.toNat ≤ r.2) || c = '_') = true at h
  rw [hcodes _ hmem, Bool.false_or, decide_eq_true_eq] at h
  subst h
  exact absurd hblank (by decide)

/-- Every name shows an argument with this name. -/
theorem showsArgument_self {name : String} (h : ∀ c ∈ name.toList, isNameChar c = true) :
    ShowsArgument name name.toList := by
  have hother : (['=', ',', '(', ')', '\n'].all fun c => !isNameChar c) = true := by decide +kernel
  have hnot : ∀ c ∈ name.toList, c ∉ ['=', ',', '(', ')', '\n'] := by
    intro c hc hmem
    have hcannot := List.all_eq_true.mp hother c hmem
    rw [h c hc] at hcannot
    cases hcannot
  have hshows := @ShowsArgument.intro name [] name.toList [] [] (by simp)
    (fun c hc => not_isBlank_of_isNameChar (h c hc)) (List.filter_eq_self.mpr h) (by simp) (by simp)
    (fun hmem => hnot _ hmem (by simp)) (fun c hc hmem => hnot c (by simpa using hc)
      (List.mem_cons_of_mem _ hmem))
  simpa using hshows

/-- **Calls in a text.** For any names that are made of letters, numbers and underscores, any way to
show each of them as an argument, any head, anything behind the call and blanks or a line with an
ellipsis before it, the names of the arguments are read in order. Conversely, whatever is read from
a text are such names, of which there is one at least. They stand, in order, between the first
opening parenthesis and the next closing one of the line that is read, before which there is a head
of the characters that are allowed. -/
theorem calls_are_read :
    (∀ {names : List String} {texts : List (List Char)} {lead head after : List Char}, names ≠ [] →
      (∀ name ∈ names, name ≠ "" ∧ ∀ c ∈ name.toList, isNameChar c = true) →
      List.Forall₂ ShowsArgument names texts → Preamble lead → IsCallHead head →
      argumentsOfCall (String.ofList
        (lead ++ (head ++ '(' :: ([','].intercalate texts ++ ')' :: after)))) = some names) ∧
    (∀ {name : String}, (∀ c ∈ name.toList, isNameChar c = true) →
      ShowsArgument name name.toList) ∧
    ∀ {doc : String} {names : List String}, argumentsOfCall doc = some names →
      ∃ lead head inside tail rest more,
        doc.toList = lead ++ (head ++ '(' :: (inside ++ ')' :: tail) ++ rest) ∧ Preamble lead ∧
        callLine doc.toList = some (head ++ '(' :: (inside ++ ')' :: tail)) ∧
        '\n' ∉ head ++ '(' :: (inside ++ ')' :: tail) ∧ EndsLine rest more ∧
        '(' ∉ head ∧ ')' ∉ inside ∧ head ≠ [] ∧ (∀ c ∈ head, isHeadChar c = true) ∧
        names ≠ [] ∧ (∀ name ∈ names, name ≠ "" ∧ ∀ c ∈ name.toList, isNameChar c = true) ∧
        names = (inside.splitOn ',').filterMap argumentName ∧
        (names.flatMap String.toList).Sublist inside := by
  refine ⟨fun hnonempty hnames hshows hlead hhead => argumentsOfCall_of_shows hshows hnonempty
    (fun name hname => (hnames name hname).1) hlead hhead, showsArgument_self, ?_⟩
  intro doc names h
  obtain ⟨line, hline, hargs⟩ := Option.bind_eq_some_iff.mp h
  obtain ⟨lead, rest, more, hdoc, hlead, hfeed, hends⟩ := exists_of_callLine hline
  obtain ⟨head, inside, tail, rfl, hopen, hclose, hne, hallowed, hnonempty, rfl⟩ :=
    argumentsOfLine_eq_some.mp hargs
  refine ⟨lead, head, inside, tail, rest, more, hdoc, hlead, hline, hfeed, hends, hopen, hclose,
    hne, hallowed, hnonempty, fun name hname => ?_, rfl, ?_⟩
  · obtain ⟨part, -, hpart⟩ := List.mem_filterMap.mp hname
    obtain ⟨hname, hchars, -⟩ := exists_of_argumentName hpart
    exact ⟨hname, hchars⟩
  · have hjoin := flatten_sublist_intercalate [','] (inside.splitOn ',')
    rw [List.intercalate_splitOn] at hjoin
    exact (sublist_of_filterMap _).trans hjoin

/-- Types, brackets and defaults, and a second line. -/
theorem calls_are_read_migrad : argumentsOfCall
    "Minuit.migrad(self[, int ncall_me =10000, resume=True])\nmore text" =
      some ["self", "ncall_me", "resume"] := by
  have hself : ShowsArgument "self" "self[".toList :=
    @ShowsArgument.intro "self" [] "self[".toList [] [] (by simp) (by simp [isBlank])
      (by decide +kernel) (by simp) (by simp) (by simp) (by simp)
  have hcount : ShowsArgument "ncall_me" " int ncall_me =10000".toList :=
    @ShowsArgument.intro "ncall_me" " int ".toList "ncall_me".toList [' '] "=10000".toList
      (by simp [isBlank]) (by simp [isBlank]) (by decide +kernel) (by simp [isBlank]) (by simp)
      (by simp) (by simp)
  have hresume : ShowsArgument "resume" " resume=True]".toList :=
    @ShowsArgument.intro "resume" [' '] "resume".toList [] "=True]".toList (by simp [isBlank])
      (by simp [isBlank]) (by decide +kernel) (by simp) (by simp) (by simp) (by simp)
  have hhead : IsCallHead "Minuit.migrad".toList :=
    ⟨⟨'M', rfl, by decide⟩, List.all_eq_true.mp (by decide +kernel), by decide⟩
  have hnames : ∀ name ∈ ["self", "ncall_me", "resume"],
      name ≠ "" ∧ ∀ c ∈ name.toList, isNameChar c = true := by
    intro name hname
    have hall : (["self", "ncall_me", "resume"].all fun name =>
        name ≠ "" && name.toList.all isNameChar) = true := by decide +kernel
    simpa using List.all_eq_true.mp hall name hname
  have hdoc : "Minuit.migrad(self[, int ncall_me =10000, resume=True])\nmore text" =
      String.ofList ([] ++ ("Minuit.migrad".toList ++ '(' :: ([','].intercalate
        ["self[".toList, " int ncall_me =10000".toList, " resume=True]".toList] ++
          ')' :: "\nmore text".toList))) := by
    decide +kernel
  rw [hdoc]
  exact calls_are_read.1 (by decide) hnames
    (.cons hself (.cons hcount (.cons hresume .nil))) (.blanks nofun) hhead

end FitSession
