import Mathlib.Data.List.Basic
import PhpFrontEnd.Name

/-!
# How qualified names are written

A qualified name is read as the segments between the separators of a text, where nothing between two
separators is no segment, and written as its segments with a separator between them. So a name that
can be written at all, without empty names and without separators in them, is read back as it was
(`QualifiedName.parse_toString`). A text that is read and written again loses the separators that
separate nothing, and stays the same if there are none (`QualifiedName.IsTidy`).

A name and the name of a namespace differ in where the last segment is kept: apart from the others,
or behind them. A namespace is written without a leading separator.
-/

namespace PhpFrontEnd

namespace QualifiedName

variable {name : QualifiedName} {names : List Name} {text : List Char}

/-! ## Segments -/

/-- The pieces of a text are those between its separators. -/
theorem pieces_eq_splitOn (text : List Char) : pieces text = text.splitOn namespaceSeparator := by
  induction text with
  | nil => rfl
  | cons c rest ih =>
    rw [pieces, List.splitOn_cons_eq_if_modifyHead, ih]
    simp only [beq_iff_eq]
    split
    · rfl
    · obtain ⟨piece, more, eq⟩ := List.exists_cons_of_ne_nil
        (List.splitOn_ne_nil namespaceSeparator rest)
      rw [eq]
      rfl

/-- No piece between separators has one in it. -/
theorem separator_not_mem {piece : List Char} (mem : piece ∈ text.splitOn namespaceSeparator) :
    namespaceSeparator ∉ piece := by
  induction text generalizing piece with
  | nil =>
    rw [List.splitOn_nil, List.mem_singleton] at mem
    rw [mem]
    exact List.not_mem_nil
  | cons c rest ih =>
    rw [List.splitOn_cons_eq_if_modifyHead] at mem
    split at mem
    · rcases List.mem_cons.1 mem with rfl | mem
      · exact List.not_mem_nil
      · exact ih mem
    · rename_i other
      obtain ⟨first, more, eq⟩ := List.exists_cons_of_ne_nil
        (List.splitOn_ne_nil namespaceSeparator rest)
      rw [eq] at ih mem
      rcases List.mem_cons.1 mem with rfl | mem
      · refine List.not_mem_cons_of_ne_of_not_mem ?_ (ih List.mem_cons_self)
        rintro rfl
        exact other (beq_self_eq_true _)
      · exact ih (List.mem_cons_of_mem _ mem)

/-- What is read as one segment: it is not empty, and no separator is in it. -/
def IsSegment (segment : List Char) : Prop := segment ≠ [] ∧ namespaceSeparator ∉ segment

/-- The segments are the pieces between separators, without the empty ones. -/
theorem segments_eq (text : List Char) :
    segments text = ((text.splitOn namespaceSeparator).filter (· ≠ [])).map
      fun segment => ⟨String.ofList segment⟩ := by
  rw [segments, pieces_eq_splitOn]
  congr 2
  funext segment
  cases segment <;> rfl

theorem isSegment_of_mem_segments {segment : Name} (mem : segment ∈ segments text) :
    IsSegment segment.value.toList := by
  rw [segments_eq] at mem
  obtain ⟨piece, found, rfl⟩ := List.mem_map.1 mem
  obtain ⟨found, ne⟩ := List.mem_filter.1 found
  rw [String.toList_ofList]
  exact ⟨of_decide_eq_true ne, separator_not_mem found⟩

/-- Segments with separators between them are read as these segments. -/
theorem segments_intercalate (h : ∀ part ∈ names, IsSegment part.value.toList) :
    segments (List.intercalate [namespaceSeparator] (names.map (·.value.toList))) = names := by
  have noSeparator : ∀ part ∈ names.map (·.value.toList), namespaceSeparator ∉ part :=
    List.forall_mem_map.2 fun part mem => (h part mem).2
  have noneEmpty : (names.map (·.value.toList)).filter (· ≠ []) = names.map (·.value.toList) :=
    List.filter_eq_self.2
      (List.forall_mem_map.2 fun part mem => decide_eq_true (h part mem).1)
  rcases names with _ | ⟨first, more⟩
  · rfl
  · rw [segments_eq, List.splitOn_intercalate namespaceSeparator noSeparator (by simp), noneEmpty,
      List.map_map]
    simp [Function.comp_def, String.ofList_toList]

/-! ## What is written -/

/-- A leading separator, or nothing. -/
def lead (fullyQualified : Bool) : List Char := if fullyQualified then [namespaceSeparator] else []

/-- The names of a qualified name, the last of which is the name itself. -/
def parts (name : QualifiedName) : List Name := name.namespaces ++ [name.name]

theorem toList_toString (name : QualifiedName) : name.toString.toList =
    lead name.fullyQualified ++
      List.intercalate [namespaceSeparator] (name.parts.map (·.value.toList)) := by
  have joined (names : List Name) (last : List Char) :
      names.flatMap (fun part => part.value.toList ++ [namespaceSeparator]) ++ last =
        List.intercalate [namespaceSeparator] (names.map (·.value.toList) ++ [last]) := by
    induction names with
    | nil => simp
    | cons first more ih =>
      rw [List.flatMap_cons, List.append_assoc, ih, List.map_cons, List.cons_append,
        List.intercalate_cons_of_ne_nil (by simp)]
  rw [QualifiedName.toString, String.toList_ofList, List.append_assoc, joined, parts,
    List.map_append]
  rfl

theorem segments_lead (fullyQualified : Bool) (text : List Char) :
    segments (lead fullyQualified ++ text) = segments text := by
  cases fullyQualified with
  | false => rfl
  | true =>
    rw [segments_eq, segments_eq, lead, if_pos rfl, List.singleton_append,
      List.splitOn_cons_eq_if_modifyHead]
    simp

/-- A text whose segments are the names of a qualified name is read as that name. -/
theorem parse_eq {text : String} (segments_eq : segments text.toList = name.parts)
    (leads : (text.toList.head? == some namespaceSeparator) = name.fullyQualified) :
    parse text = name := by
  rw [parse, segments_eq, leads, parts, List.getLast?_concat, List.dropLast_concat]
  rfl

/-- A name that can be written: its names are segments. -/
def IsWritable (name : QualifiedName) : Prop := ∀ part ∈ name.parts, IsSegment part.value.toList

/-- What can be written can be read. -/
theorem parse_toString (h : name.IsWritable) : parse name.toString = name := by
  have parts_eq : segments name.toString.toList = name.parts := by
    rw [toList_toString, segments_lead, segments_intercalate h]
  refine parse_eq parts_eq ?_
  rw [toList_toString]
  cases name.fullyQualified with
  | true => rfl
  | false =>
    -- the first character is that of the first segment
    rcases eq : name.parts with _ | ⟨first, more⟩
    · rw [parts] at eq
      exact absurd eq (by simp)
    · obtain ⟨ne, noSeparator⟩ := h first (by rw [eq]; exact List.mem_cons_self)
      obtain ⟨c, rest, text⟩ := List.exists_cons_of_ne_nil ne
      have other : c ≠ namespaceSeparator := by
        rintro rfl
        exact noSeparator (by rw [text]; exact List.mem_cons_self)
      cases more <;> simp [lead, text, other]

/-! ## What is read -/

/-- Without segments nothing but the leading separator is read. -/
theorem parse_of_nil {text : String} (nil : segments text.toList = []) :
    parse text = { fullyQualified := text.toList.head? == some namespaceSeparator } := by
  rw [parse, nil]
  rfl

/-- The parts of a name that is read are the segments of its text. -/
theorem parts_parse {text : String} (ne : segments text.toList ≠ []) :
    (parse text).parts = segments text.toList := by
  change (segments text.toList).dropLast ++ [(segments text.toList).getLast?.getD .empty] = _
  rw [List.getLast?_eq_some_getLast ne, Option.getD_some, List.dropLast_concat_getLast]

/-- A name that is read can be written. -/
theorem isWritable_parse {text : String} (ne : segments text.toList ≠ []) :
    (parse text).IsWritable := by
  rw [IsWritable, parts_parse ne]
  exact fun part mem => isSegment_of_mem_segments mem

/-- What was read is read again when it is written. -/
theorem parse_toString_parse (text : String) : parse (parse text).toString = parse text := by
  by_cases nil : segments text.toList = []
  · rw [parse_of_nil nil]
    generalize (text.toList.head? == some namespaceSeparator) = fullyQualified
    cases fullyQualified <;> rfl
  · exact parse_toString (isWritable_parse nil)

/-- The text after a leading separator, or all of it if there is none. -/
def afterLead (text : List Char) : List Char :=
  if text.head? = some namespaceSeparator then text.tail else text

/-- No segment is empty, apart from the one before a leading separator. -/
def IsTidy (text : List Char) : Prop := [] ∉ (afterLead text).splitOn namespaceSeparator

theorem lead_append_afterLead (text : List Char) :
    lead (text.head? == some namespaceSeparator) ++ afterLead text = text := by
  rcases text with _ | ⟨c, rest⟩
  · rfl
  · by_cases separator : c = namespaceSeparator
    · simp [lead, afterLead, separator]
    · simp [lead, afterLead, separator]

/-- A separator in front is no segment. -/
theorem segments_afterLead (text : List Char) : segments (afterLead text) = segments text := by
  calc
    segments (afterLead text) =
        segments (lead (text.head? == some namespaceSeparator) ++ afterLead text) :=
      (segments_lead _ _).symm
    _ = segments text := by rw [lead_append_afterLead]

theorem map_toList_segments (text : List Char) :
    (segments text).map (·.value.toList) =
      (text.splitOn namespaceSeparator).filter (· ≠ []) := by
  rw [segments_eq, List.map_map]
  simp [Function.comp_def]

/-- Segments make up the text that they are read from if nothing between separators is left out. -/
theorem intercalate_segments_iff (ne : segments text ≠ []) :
    List.intercalate [namespaceSeparator] ((segments text).map (·.value.toList)) = text ↔
      [] ∉ text.splitOn namespaceSeparator := by
  constructor
  · intro eq mem
    have noSeparator : ∀ part ∈ (segments text).map (·.value.toList), namespaceSeparator ∉ part :=
      List.forall_mem_map.2 fun part mem => (isSegment_of_mem_segments mem).2
    rw [← eq, List.splitOn_intercalate namespaceSeparator noSeparator (by simpa using ne)] at mem
    obtain ⟨part, mem, nil⟩ := List.mem_map.1 mem
    exact (isSegment_of_mem_segments mem).1 nil
  · intro noneEmpty
    have all : (text.splitOn namespaceSeparator).filter (· ≠ []) =
        text.splitOn namespaceSeparator := by
      refine List.filter_eq_self.2 fun piece mem => decide_eq_true ?_
      rintro rfl
      exact noneEmpty mem
    rw [map_toList_segments, all, List.intercalate_splitOn]

/-- A text without segments has nothing but empty pieces. -/
theorem nil_mem_of_segments_eq_nil (nil : segments text = []) :
    [] ∈ text.splitOn namespaceSeparator := by
  have none : (text.splitOn namespaceSeparator).filter (· ≠ []) = [] := by
    rw [← map_toList_segments, nil]
    rfl
  obtain ⟨piece, mem⟩ := List.exists_mem_of_ne_nil _ (List.splitOn_ne_nil namespaceSeparator text)
  have empty : piece = [] := by simpa using List.filter_eq_nil_iff.1 none piece mem
  exact empty ▸ mem

/-- A text is written as it was read if no segment is empty, or if there is nothing but a leading
separator. -/
theorem toString_parse_iff (text : String) :
    (parse text).toString = text ↔ IsTidy text.toList ∨ text = "" ∨ text = "\\" := by
  have whole := lead_append_afterLead text.toList
  by_cases nil : segments text.toList = []
  · have untidy : ¬IsTidy text.toList := by
      have mem := nil_mem_of_segments_eq_nil (nil ▸ segments_afterLead text.toList)
      exact fun tidy => tidy mem
    rw [or_iff_right untidy, parse_of_nil nil]
    constructor
    · intro eq
      generalize (text.toList.head? == some namespaceSeparator) = fullyQualified at eq
      cases fullyQualified with
      | true => exact .inr eq.symm
      | false => exact .inl eq.symm
    · rintro (rfl | rfl)
      · rfl
      · rfl
  · have empty : ¬(text = "" ∨ text = "\\") := by
      rintro (rfl | rfl)
      · exact nil rfl
      · exact nil rfl
    have ne : segments (afterLead text.toList) ≠ [] := by
      rw [segments_afterLead]
      exact nil
    rw [or_iff_left empty, IsTidy, ← intercalate_segments_iff ne, segments_afterLead,
      ← String.toList_inj, toList_toString, parts_parse nil]
    constructor
    · intro eq
      refine List.append_cancel_left (eq.trans whole.symm)
    · intro eq
      rw [eq]
      exact whole

/-! ## Namespaces -/

/-- All segments of the name of a namespace are namespaces, and no name is left. -/
theorem parseNamespace_eq (text : String) : parseNamespace text =
    { parse text with name := .empty, namespaces := segments text.toList } := by
  rw [parseNamespace]
  by_cases nil : segments text.toList = []
  · rw [parse_of_nil nil, nil]
    rfl
  · have last := isWritable_parse nil (parse text).name (by simp [parts])
    have notEmpty : (parse text).name.isEmpty = false := by
      simpa [Name.isEmpty] using last.1
    dsimp only
    rw [notEmpty, if_neg Bool.false_ne_true, ← parts_parse nil, parts]

/-- The namespaces of the name of a namespace are read again when they are written. -/
theorem segments_namespaceText (text : String) :
    segments (parseNamespace text).namespaceText.toList = segments text.toList := by
  rw [parseNamespace_eq, namespaceText, String.toList_ofList]
  exact segments_intercalate fun part mem => isSegment_of_mem_segments mem

/-! ## Reading and writing -/

/-- **Names are written as they are read.** Reading a name, writing it and reading it again changes
nothing, and a text is written again as it is if it has no empty segment, apart from the one before
a leading separator; a lone separator and the empty text are the only others. Every name that can be
written is read back. The name of a namespace has the segments of its text for namespaces, in order,
and they are kept when the namespaces are written and read. -/
theorem reads_what_is_written :
    (∀ text, parse (parse text).toString = parse text) ∧
    (∀ text : String,
      (parse text).toString = text ↔ IsTidy text.toList ∨ text = "" ∨ text = "\\") ∧
    (∀ name : QualifiedName, name.IsWritable → parse name.toString = name) ∧
    ∀ text : String, (parseNamespace text).name = .empty ∧
      (parseNamespace text).namespaces =
        ((text.toList.splitOn namespaceSeparator).filter (· ≠ [])).map (⟨String.ofList ·⟩) ∧
      (parseNamespace (parseNamespace text).namespaceText).namespaces =
        (parseNamespace text).namespaces := by
  refine ⟨parse_toString_parse, toString_parse_iff, fun name h => parse_toString h, fun text => ?_⟩
  have namespaces (text : String) : (parseNamespace text).namespaces = segments text.toList := by
    rw [parseNamespace_eq]
  refine ⟨by rw [parseNamespace_eq], ?_, ?_⟩
  · rw [namespaces]
    exact segments_eq text.toList
  · rw [namespaces, segments_namespaceText, namespaces]

/-- A name of three segments. -/
theorem reads_what_is_written_baz :
    (⟨⟨"baz"⟩, [⟨"Foo"⟩, ⟨"Bar"⟩], true⟩ : QualifiedName).IsWritable ∧
    parse (⟨⟨"baz"⟩, [⟨"Foo"⟩, ⟨"Bar"⟩], true⟩ : QualifiedName).toString =
      ⟨⟨"baz"⟩, [⟨"Foo"⟩, ⟨"Bar"⟩], true⟩ := by
  have writable : (⟨⟨"baz"⟩, [⟨"Foo"⟩, ⟨"Bar"⟩], true⟩ : QualifiedName).IsWritable := by
    intro part mem
    simp only [parts, List.cons_append, List.nil_append, List.mem_cons, List.not_mem_nil,
      or_false] at mem
    rcases mem with rfl | rfl | rfl
    · exact ⟨by decide, by decide⟩
    · exact ⟨by decide, by decide⟩
    · exact ⟨by decide, by decide⟩
  exact ⟨writable, reads_what_is_written.2.2.1 _ writable⟩

/-- Empty segments are left out, wherever they are. -/
example : toString (parse "\\\\Foo\\\\bar\\") = "\\Foo\\bar" := by rfl

end QualifiedName

end PhpFrontEnd
