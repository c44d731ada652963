import Mathlib.Tactic.SplitIfs
import Lookahead.CommandLine.Run

/-!
# Flags and positional arguments

What arguments ask for depends on their flags and on their positional arguments, each in order,
and not on how the two are mixed (`Request.ofItems?_eq_map`). So the positional arguments of a
command can be exchanged for others. An argument that does not start with a dash is positional
wherever it stands (`readArguments_concat`), and behind `--` every argument is.

* `ofArguments?_concat` : one more positional argument.
* `ofPositional_eq_ok_iff` : positional arguments make sense exactly if they are names of outputs
  and then at most one that is none.
-/

namespace Lookahead.CommandLine

variable {items items' : List Item} {arguments : List String} {argument : String}

/-! ## Names of outputs -/

namespace Output

/-- The name of an output. -/
def name : Output → String
  | productions => "prod"
  | first => "first"
  | follow => "follow"
  | summary => "ff"

@[simp] theorem ofName?_name (o : Output) : ofName? o.name = some o := by
  cases o <;> rfl

theorem ofName?_eq_some_iff {o : Output} {name : String} :
    ofName? name = some o ↔ name = o.name := by
  constructor
  · intro h
    unfold ofName? at h
    split_ifs at h with h1 h2 h3 h4 <;> obtain rfl := Option.some.inj h <;> assumption
  · rintro rfl
    exact ofName?_name o

theorem name_injective : Function.Injective name := fun o o' h =>
  Option.some.inj (by rw [← ofName?_name o, h, ofName?_name])

/-- Arguments that all name outputs. -/
theorem exists_map_name_eq {values : List String} (h : ∀ value ∈ values, (ofName? value).isSome) :
    ∃ outputs : List Output, values = outputs.map name := by
  induction values with
  | nil => exact ⟨[], rfl⟩
  | cons value values ih =>
    obtain ⟨hvalue, hvalues⟩ := List.forall_mem_cons.mp h
    obtain ⟨outputs, rfl⟩ := ih hvalues
    obtain ⟨o, ho⟩ := Option.isSome_iff_exists.mp hvalue
    exact ⟨o :: outputs, by rw [List.map_cons, ofName?_eq_some_iff.mp ho]⟩

end Output

/-- The names of outputs. -/
def outputNames : List String :=
  ["prod", "first", "follow", "ff"]

theorem mem_outputNames_iff {name : String} :
    name ∈ outputNames ↔ (Output.ofName? name).isSome := by
  unfold Output.ofName?
  split_ifs <;> simp_all [outputNames]

/-- An argument that can only be the name of a grammar file: it does not start with a dash, and it
names no output. -/
def IsFileName (argument : String) : Prop :=
  argument.toList.head? ≠ some '-' ∧ Output.ofName? argument = none

instance (argument : String) : Decidable (IsFileName argument) :=
  inferInstanceAs (Decidable (_ ∧ _))

/-! ## Flags and values -/

namespace Item

/-- The items that are not positional, in order. -/
def flags (items : List Item) : List Item :=
  items.filter (·.value?.isNone)

/-- The positional arguments, in order. -/
def values (items : List Item) : List String :=
  items.filterMap value?

@[simp] theorem value?_positional (value : String) : (positional value).value? = some value := rfl

@[simp] theorem value?_ofFlag? (f? : Option Flag) : (ofFlag? f?).value? = none := by
  cases f? <;> rfl

@[simp] theorem flags_append (items items' : List Item) :
    flags (items ++ items') = flags items ++ flags items' :=
  List.filter_append _ _

@[simp] theorem values_append (items items' : List Item) :
    values (items ++ items') = values items ++ values items' :=
  List.filterMap_append

theorem count_flags (items : List Item) (f : Flag) :
    (flags items).count (.flag f) = items.count (.flag f) :=
  List.count_filter rfl

theorem find?_isDecisive_flags (items : List Item) :
    (flags items).find? Request.isDecisive = items.find? Request.isDecisive := by
  rw [flags, List.find?_filter]
  refine congrArg (List.find? · items) (funext fun item => ?_)
  cases item <;> simp [value?, Request.isDecisive]

/-- An argument that does not start with a dash is positional. -/
theorem ofArgument_of_head?_ne (h : argument.toList.head? ≠ some '-') :
    ofArgument argument = [positional argument] := by
  unfold ofArgument
  split
  · next hl => simp [hl] at h
  · next hl => simp [hl] at h
  · rfl

end Item

/-! ## Requests -/

/-- The request with other positional arguments. -/
def Request.withPositional (values : List String) : Request → Request
  | version => version
  | help => help
  | run options => run { options with positional := values }

theorem Options.ofItems?_eq_map (h : Item.flags items = Item.flags items') :
    Options.ofItems? items' =
      (Options.ofItems? items).map ({ · with positional := Item.values items' }) := by
  have hcount (f : Flag) : items'.count (.flag f) = items.count (.flag f) := by
    rw [← Item.count_flags items', ← h, Item.count_flags]
  unfold Options.ofItems?
  simp only [hcount]
  split <;> rfl

/-- Items with the same flags make the same request, but for the positional arguments. -/
theorem Request.ofItems?_eq_map (h : Item.flags items = Item.flags items') :
    ofItems? items' = (ofItems? items).map (withPositional (Item.values items')) := by
  have hfind : items'.find? isDecisive = items.find? isDecisive := by
    rw [← Item.find?_isDecisive_flags items', ← h, Item.find?_isDecisive_flags]
  unfold ofItems?
  rw [hfind]
  split
  · rfl
  · rfl
  · rfl
  · rw [Options.ofItems?_eq_map h, Option.map_map, Option.map_map]
    rfl

theorem Request.positional_of_ofItems? {options : Options}
    (h : ofItems? items = some (.run options)) : options.positional = Item.values items := by
  have hself : ofItems? items = (ofItems? items).map (withPositional (Item.values items)) :=
    ofItems?_eq_map rfl
  rw [h] at hself
  exact congrArg Options.positional (Request.run.inj (Option.some.inj hself))

/-! ## Reading arguments -/

/-- One more argument that does not start with a dash is one more positional argument. -/
theorem readArguments_concat (h : argument.toList.head? ≠ some '-') :
    readArguments (arguments ++ [argument]) =
      readArguments arguments ++ [.positional argument] := by
  have hend : argument ≠ endOfFlags := by
    rintro rfl
    exact h rfl
  induction arguments with
  | nil => simp [readArguments, hend, Item.ofArgument_of_head?_ne h]
  | cons first rest ih =>
    rw [List.cons_append, readArguments, readArguments]
    split
    · rw [List.map_append, List.map_singleton]
    · rw [ih, List.append_assoc]

theorem ofArguments?_concat {options : Options} (h : argument.toList.head? ≠ some '-')
    (hrun : Request.ofArguments? arguments = some (.run options)) :
    Request.ofArguments? (arguments ++ [argument]) =
      some (.run { options with positional := options.positional ++ [argument] }) := by
  have hflags : Item.flags (readArguments arguments) =
      Item.flags (readArguments (arguments ++ [argument])) := by
    rw [readArguments_concat h, Item.flags_append]
    exact (List.append_nil _).symm
  rw [Request.ofArguments?] at hrun
  rw [Request.ofArguments?, Request.ofItems?_eq_map hflags, hrun, readArguments_concat h,
    Item.values_append, ← Request.positional_of_ofItems? hrun]
  rfl

namespace Targets

variable {outputs : List Output} {values : List String}

theorem splitOutputs_map_name_append (outputs : List Output)
    (h : ∀ value ∈ values.head?, Output.ofName? value = none) :
    splitOutputs (outputs.map Output.name ++ values) = (outputs, values) := by
  induction outputs with
  | nil =>
    cases values with
    | nil => rfl
    | cons value rest => simp [splitOutputs, h value rfl]
  | cons o outputs ih => simp [splitOutputs, ih]

theorem splitOutputs_map_name_append_toList (outputs : List Output) {file? : Option String}
    (h : ∀ path ∈ file?, Output.ofName? path = none) :
    splitOutputs (outputs.map Output.name ++ file?.toList) = (outputs, file?.toList) :=
  splitOutputs_map_name_append outputs (by rwa [Option.head?_toList])

theorem eq_of_splitOutputs (values : List String) :
    values = (splitOutputs values).1.map Output.name ++ (splitOutputs values).2 ∧
      ∀ value ∈ (splitOutputs values).2.head?, Output.ofName? value = none := by
  induction values with
  | nil => simp [splitOutputs]
  | cons value rest ih =>
    cases ho : Output.ofName? value with
    | none => simp [splitOutputs, ho]
    | some o =>
      obtain rfl := Output.ofName?_eq_some_iff.mp ho
      simpa [splitOutputs] using ih

/-- The outputs to print: without any, the summary. -/
def orSummary (outputs : List Output) : List Output :=
  if outputs.isEmpty then [.summary] else outputs

/-- The place of the grammar, from what comes behind the names of outputs. -/
def sourceOf : Option String → Source
  | none => .input
  | some path => .file path

/-- Positional arguments make sense exactly if they are names of outputs and then at most one that
names no output. -/
theorem ofPositional_eq_ok_iff {targets : Targets} : ofPositional values = .ok targets ↔
    ∃ outputs file?, values = outputs.map Output.name ++ file?.toList ∧
      (∀ path ∈ file?, Output.ofName? path = none) ∧
      targets = ⟨orSummary outputs, sourceOf file?⟩ := by
  constructor
  · intro h
    obtain ⟨hsplit, hhead⟩ := eq_of_splitOutputs values
    unfold ofPositional at h
    split at h
    · next hrest =>
      rw [hrest] at hsplit
      exact ⟨_, none, hsplit, by simp, (Except.ok.inj h).symm⟩
    · next path hrest =>
      rw [hrest] at hsplit hhead
      exact ⟨_, some path, hsplit, hhead, (Except.ok.inj h).symm⟩
    · simp at h
  · rintro ⟨outputs, file?, rfl, hfile, rfl⟩
    rw [ofPositional, splitOutputs_map_name_append_toList outputs hfile]
    cases file? <;> rfl

end Targets

end Lookahead.CommandLine
