import Lookahead.Proofs.CommandLine.Run
import Lookahead.Proofs.Report.Columns

/-!
# What is printed

A name of an output stands for one report, which has a text in each format (`IsReport`). Of a
grammar that was loaded, all these texts can be printed, but for the plain list of productions if a
left side is too wide (`text?_eq_none_iff`). So the outputs are all printed, or there is a first one
of this kind and those in front of it are printed (`exists_texts_of_not_stops`,
`exists_texts_of_stops`).
-/

namespace Lookahead.CommandLine

variable {lines : List (List Char)} {format : Format} {outputs front : List Output}
  {texts : List String} {g : Grammar} {a : Analysis} {o : Output} {text : String}

/-! ## Reports by name -/

/-- Texts one after the other, each with a feed behind it. -/
def withFeeds (texts : List String) : String :=
  String.join (texts.map (· ++ "\n"))

theorem withFeeds_cons (text : String) (texts : List String) :
    withFeeds (text :: texts) = text ++ "\n" ++ withFeeds texts := by
  rw [withFeeds, List.map_cons, String.join_cons, withFeeds]

/-- The only output that may be too wide is the plain list of productions. -/
theorem text?_eq_none_iff (h : Grammar.ofLines lines = .ok g) :
    o.text? format g a = none ↔ o = .productions ∧ format = .plain ∧ g.HasWideLeft := by
  obtain ⟨hwide, hnarrow⟩ := Grammar.plain?_productionReport h
  have hplain : g.productionReport.plain? = none ↔ g.HasWideLeft := by
    by_cases hleft : g.HasWideLeft
    · simp [hwide hleft, hleft]
    · simp [hnarrow hleft, hleft]
  cases o <;> cases format <;>
    simp [Output.text?, Printable.print?, Printable.plain?, hplain]

/-- The texts that the outputs are printed as. -/
def AreTexts (g : Grammar) (a : Analysis) (format : Format) (outputs : List Output)
    (texts : List String) : Prop :=
  List.Forall₂ (fun o text => o.text? format g a = some text) outputs texts

theorem exists_areTexts (h : ∀ o ∈ outputs, o.text? format g a ≠ none) :
    ∃ texts, AreTexts g a format outputs texts := by
  induction outputs with
  | nil => exact ⟨[], .nil⟩
  | cons o outputs ih =>
    obtain ⟨ho, houtputs⟩ := List.forall_mem_cons.mp h
    obtain ⟨text, htext⟩ := Option.ne_none_iff_exists'.mp ho
    obtain ⟨texts, htexts⟩ := ih houtputs
    exact ⟨text :: texts, .cons htext htexts⟩

/-- What can be printed is printed, whatever becomes of the outputs behind it. -/
theorem AreTexts.printAll_append (h : AreTexts g a format front texts) (rest : List Output) :
    printAll format g a (front ++ rest) =
      ⟨withFeeds texts ++ (printAll format g a rest).output,
        (printAll format g a rest).result⟩ := by
  induction h with
  | nil => exact congrArg (Printout.mk · _) String.empty_append.symm
  | cons htext _ ih =>
    rw [List.cons_append, printAll_cons htext, ih, withFeeds_cons]
    exact congrArg (Printout.mk · _) String.append_assoc.symm

theorem AreTexts.printAll_eq (h : AreTexts g a format outputs texts) :
    printAll format g a outputs = .ofText (withFeeds texts) := by
  have happend := h.printAll_append []
  rw [List.append_nil] at happend
  rw [happend, printAll, Printout.ofText, String.append_empty, Printout.ofText]

/-- Printing the outputs comes upon a plain list of productions that is too wide. -/
def Stops (g : Grammar) (format : Format) (outputs : List Output) : Prop :=
  format = .plain ∧ .productions ∈ outputs ∧ g.HasWideLeft

theorem exists_texts_of_not_stops (h : Grammar.ofLines lines = .ok g)
    (hstops : ¬ Stops g format outputs) : ∃ texts, AreTexts g a format outputs texts ∧
      printAll format g a outputs = .ofText (withFeeds texts) := by
  obtain ⟨texts, htexts⟩ : ∃ texts, AreTexts g a format outputs texts :=
    exists_areTexts fun o ho hnone => by
      obtain ⟨rfl, hformat, hwide⟩ := (text?_eq_none_iff h).mp hnone
      exact hstops ⟨hformat, ho, hwide⟩
  exact ⟨texts, htexts, htexts.printAll_eq⟩

/-- The outputs in front of the first list of productions are printed. -/
theorem exists_texts_of_stops (h : Grammar.ofLines lines = .ok g) (hwide : g.HasWideLeft)
    (hfront : .productions ∉ front) (rest : List Output) : ∃ texts,
      AreTexts g a .plain front texts ∧ printAll .plain g a (front ++ .productions :: rest) =
        ⟨withFeeds texts, .error .columnTooWide⟩ := by
  obtain ⟨texts, htexts⟩ : ∃ texts, AreTexts g a .plain front texts :=
    exists_areTexts fun o ho hnone => by
      obtain ⟨rfl, -, -⟩ := (text?_eq_none_iff h).mp hnone
      exact hfront ho
  have hnone : Output.productions.text? .plain g a = none :=
    (text?_eq_none_iff h).mpr ⟨rfl, rfl, hwide⟩
  have hstop : printAll .plain g a (.productions :: rest) = .failed .columnTooWide := by
    rw [printAll, hnone]
  refine ⟨texts, htexts, ?_⟩
  rw [htexts.printAll_append, hstop, Printout.failed, String.append_empty]

/-- Printing the outputs comes to an end, or it stops at a list that is too wide. -/
theorem result_printAll (h : Grammar.ofLines lines = .ok g) (a : Analysis) (format : Format)
    (outputs : List Output) :
    (¬ Stops g format outputs ∧ (printAll format g a outputs).result = .ok ()) ∨
      (Stops g format outputs ∧
        (printAll format g a outputs).result = .error .columnTooWide) := by
  by_cases hstops : Stops g format outputs
  · obtain ⟨rfl, hmem, hwide⟩ := id hstops
    obtain ⟨front, rest, rfl, hfront⟩ := List.eq_append_cons_of_mem hmem
    obtain ⟨texts, -, hprint⟩ := exists_texts_of_stops (a := a) h hwide hfront rest
    exact .inr ⟨hstops, by rw [hprint]⟩
  · obtain ⟨texts, -, hprint⟩ := exists_texts_of_not_stops (a := a) h hstops
    exact .inl ⟨hstops, by rw [hprint]; rfl⟩

end Lookahead.CommandLine
