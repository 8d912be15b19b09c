import CampusQuery.CommandLine
import CampusQuery.Proofs.Number.Integer

namespace CampusQuery

open Numeral Outcome

def FileSource.argument (s : FileSource) : String := s.id ++ "=" ++ s.path

/-- The argument is taken apart where it was put together. -/
structure FileSource.IsArgument (s : FileSource) : Prop where
  id_ne : s.id ≠ ""
  id_plain : '=' ∉ s.id.toList
  path_ne : s.path ≠ ""

namespace Arguments

def optionText (o : String × String) : String := "--" ++ o.1 ++ "=" ++ o.2

theorem takeWhile_equals {cs : List Char} (h : '=' ∉ cs) (rest : List Char) :
    (cs ++ '=' :: rest).takeWhile (· ≠ '=') = cs ∧
      (cs ++ '=' :: rest).dropWhile (· ≠ '=') = '=' :: rest := by
  have hcs : ∀ c ∈ cs, decide (c ≠ '=') = true := fun c hc => decide_eq_true fun he => h (he ▸ hc)
  constructor
  · rw [List.takeWhile_append_of_pos hcs]
    simp
  · rw [List.dropWhile_append_of_pos hcs]
    simp

theorem source?_argument {s : FileSource} (h : s.IsArgument) : source? s.argument = some s := by
  have hlist : s.argument.toList = s.id.toList ++ '=' :: s.path.toList := by
    simp [FileSource.argument]
  obtain ⟨htake, hdrop⟩ := takeWhile_equals h.id_plain s.path.toList
  have hid : s.id.toList.isEmpty = false := by simpa using h.id_ne
  have hpath : s.path.toList.isEmpty = false := by simpa using h.path_ne
  simp only [source?, hlist, htake, hdrop, List.drop_one, List.tail_cons, hid, hpath,
    String.ofList_toList]
  exact if_neg (by simp)

theorem sort?_option {known : List String} {o : String × String} (hname : o.1 ∈ known)
    (hplain : '=' ∉ o.1.toList) (rest : List String) :
    sort? known (optionText o :: rest) = (sort? known rest).map (.addOption o.1 o.2) := by
  have hlist : (optionText o).toList = '-' :: '-' :: (o.1.toList ++ '=' :: o.2.toList) := by
    simp [optionText]
  obtain ⟨htake, hdrop⟩ := takeWhile_equals hplain o.2.toList
  have hequals : '=' ∈ (optionText o).toList := by simp [hlist]
  have hbare : optionText o ≠ "--" := by
    intro h
    rw [h] at hequals
    exact absurd hequals (by decide)
  have hhelp : asksHelp (optionText o) = false := by
    have hlong : optionText o ≠ "--help" := by
      intro h
      rw [h] at hequals
      exact absurd hequals (by decide)
    simp [asksHelp, isCluster, hlist, hlong]
  have hsplit : splitOption? (optionText o) = some (o.1, some o.2) := by
    simp only [splitOption?, hlist, htake, hdrop, String.ofList_toList]
  rw [sort?, hhelp, if_neg Bool.false_ne_true, hsplit]
  · simp only [List.contains_iff_mem.mpr hname, if_true]
  · exact hbare

/-- Behind the options two dashes announce the file, whatever its name. -/
theorem sort?_options {known : List String} {options : List (String × String)}
    (h : ∀ o ∈ options, o.1 ∈ known ∧ '=' ∉ o.1.toList) (file : String) :
    sort? known (options.map optionText ++ ["--", file]) =
      some { options, positional := [file] } := by
  induction options with
  | nil => rfl
  | cons o options ih =>
    rw [List.forall_mem_cons] at h
    rw [List.map_cons, List.cons_append, sort?_option h.1.1 h.1.2, ih h.2]
    rfl

theorem limits?_digitText {l : QueryLimits} (h : l.maxRows ≤ Settings.maxSize) :
    limits? (some (String.ofList (Layout.digitText l.maxRows))) = some l := by
  rw [limits?, Settings.number, String.toList_ofList, Integer.natural_digitText, if_pos h]
  rfl

end Arguments

namespace QueryCommand

def options (c : QueryCommand) : List (String × String) :=
  c.sections.map (fun s => ("sections", s.argument)) ++
    c.rooms.map (fun s => ("rooms", s.argument)) ++
    [("max-rows", String.ofList (Layout.digitText c.limits.maxRows))]

def arguments (c : QueryCommand) : List String :=
  "query" :: (c.options.map Arguments.optionText ++ ["--", c.queryFile])

/-- What arguments can ask for. -/
structure IsGivable (c : QueryCommand) : Prop where
  sections : ∀ s ∈ c.sections, s.IsArgument
  rooms : ∀ s ∈ c.rooms, s.IsArgument
  queryFile_ne : c.queryFile ≠ ""
  maxRows_le : c.limits.maxRows ≤ Settings.maxSize

theorem mapM_source? {sources : List FileSource} (h : ∀ s ∈ sources, s.IsArgument) :
    (sources.map FileSource.argument).mapM Arguments.source? = some sources := by
  rw [mapM_eq_some, List.forall₂_map_left_iff, List.forall₂_same]
  exact fun s hs => Arguments.source?_argument (h s hs)

theorem options_known (c : QueryCommand) :
    ∀ o ∈ c.options, o.1 ∈ ["sections", "rooms", "max-rows"] ∧ '=' ∉ o.1.toList := by
  have hplain : ∀ name ∈ ["sections", "rooms", "max-rows"], '=' ∉ name.toList := by decide
  intro o ho
  have hname : o.1 ∈ ["sections", "rooms", "max-rows"] := by
    simp only [options, List.mem_append, List.mem_map, List.mem_singleton] at ho
    rcases ho with (⟨s, -, rfl⟩ | ⟨s, -, rfl⟩) | rfl <;> simp
  exact ⟨hname, hplain o.1 hname⟩

def sorted (c : QueryCommand) : Arguments.Sorted :=
  { options := c.options, positional := [c.queryFile] }

theorem valuesOf_sorted (c : QueryCommand) :
    Arguments.valuesOf "sections" c.sorted = c.sections.map FileSource.argument ∧
    Arguments.valuesOf "rooms" c.sorted = c.rooms.map FileSource.argument ∧
    Arguments.valuesOf "max-rows" c.sorted =
      [String.ofList (Layout.digitText c.limits.maxRows)] := by
  simp [Arguments.valuesOf, sorted, options, List.filter_map, Function.comp_def]

theorem IsGivable.ofArgs?_arguments {c : QueryCommand} (h : c.IsGivable)
    (env : String → Option String) : Command.ofArgs? c.arguments env = some (.query c) := by
  obtain ⟨hsections, hrooms, hmaxRows⟩ := c.valuesOf_sorted
  have hsort : Arguments.sort? _ _ = some c.sorted :=
    Arguments.sort?_options c.options_known c.queryFile
  have hpath : Arguments.path? c.sorted = some (some c.queryFile) := by
    simp [Arguments.path?, sorted, Arguments.single?, h.queryFile_ne]
  have hlimits : Arguments.limits? (some (String.ofList (Layout.digitText c.limits.maxRows)) <|>
      env Arguments.limitVariable) = some c.limits := Arguments.limits?_digitText h.maxRows_le
  have hhelp : c.sorted.help = false := rfl
  change Arguments.query? (c.options.map Arguments.optionText ++ ["--", c.queryFile]) env = _
  simp only [Arguments.query?, hsort, hsections, hrooms, hmaxRows, hpath, mapM_source? h.sections,
    mapM_source? h.rooms, Option.bind_eq_bind, Option.bind_some, Arguments.single?, hhelp,
    Bool.false_eq_true, if_false, hlimits]
  rfl

end QueryCommand

end CampusQuery
