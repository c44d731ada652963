import Lookahead.Proofs.CommandLine.Run
import Lookahead.Proofs.Text.Encoding

/-!
# Standard input and grammar files

Standard input is read line by line up to the first blank line, and a grammar file as a whole. What
stands in front of the first blank line (`beforeBlank`) decides what is read from standard input,
and is read as it would be from a file (`inputLines?_eq_fileLines?`). If it is not UTF-8, it has a
line that is not, and standard input cannot be read.

`run_input_eq_run_file` : a command comes to the same for the input and for a file with the bytes in
front of its first blank line.
-/

namespace Lookahead.CommandLine

open Text

variable {bytes line rest : List UInt8} {arguments : List String} {options : Options}

/-! ## In front of the first blank line -/

/-- A line that is UTF-8 and blank. -/
def IsBlankLine (line : List UInt8) : Prop :=
  ∃ cs, decode? line = some cs ∧ isBlankText cs = true

theorem isBlankLine_iff : IsBlankLine line ↔ (decode? line).any isBlankText = true := by
  rw [IsBlankLine]
  cases decode? line <;> simp

instance (line : List UInt8) : Decidable (IsBlankLine line) :=
  decidable_of_iff _ isBlankLine_iff.symm

/-- The bytes of the pieces between feeds up to the first that is blank. -/
def beforeBlankPiece : List (List UInt8) → List UInt8
  | [] => []
  | [last] => if IsBlankLine last then [] else last
  | line :: next :: pieces =>
    if IsBlankLine line then [] else line ++ 0x0a :: beforeBlankPiece (next :: pieces)

/-- The bytes in front of the first blank line, or all of them if there is none. -/
def beforeBlank (bytes : List UInt8) : List UInt8 :=
  beforeBlankPiece (bytes.splitOn 0x0a)

theorem beforeBlank_nil : beforeBlank [] = [] := by
  simp [beforeBlank, beforeBlankPiece]

theorem beforeBlank_of_not_mem (h : 0x0a ∉ line) :
    beforeBlank line = if IsBlankLine line then [] else line := by
  rw [beforeBlank, List.splitOn_eq_singleton h, beforeBlankPiece]

theorem beforeBlank_append_cons (h : 0x0a ∉ line) (rest : List UInt8) :
    beforeBlank (line ++ 0x0a :: rest) =
      if IsBlankLine line then [] else line ++ 0x0a :: beforeBlank rest := by
  rw [beforeBlank, List.splitOn_append_cons_self_of_not_mem h, beforeBlank]
  cases hrest : rest.splitOn 0x0a with
  | nil => exact absurd hrest (List.splitOn_ne_nil 0x0a rest)
  | cons piece pieces => rfl

/-- A return at the end does not change whether a line is blank. -/
theorem isBlankLine_dropReturn : IsBlankLine (dropReturn 0x0d line) ↔ IsBlankLine line := by
  have hblank (cs : List Char) : isBlankText (dropReturn '\r' cs) = isBlankText cs := by
    rcases List.eq_nil_or_concat' cs with rfl | ⟨front, c, rfl⟩
    · rfl
    · by_cases hc : c = '\r'
      · subst hc
        rw [dropReturn_concat_self, isBlankText, isBlankText, List.all_append]
        simp [show isBlank '\r' = true by decide]
      · rw [dropReturn_concat_of_ne hc]
  rw [isBlankLine_iff, isBlankLine_iff, decode?_dropReturn]
  cases decode? line <;> simp [hblank]

theorem not_isBlankLine_cons {lines : List (List UInt8)} (h : ¬IsBlankLine line)
    (hlines : ∀ line ∈ lines, ¬IsBlankLine line) :
    ∀ l ∈ dropReturn 0x0d line :: lines, ¬IsBlankLine l :=
  List.forall_mem_cons.mpr ⟨isBlankLine_dropReturn.not.mpr h, hlines⟩

/-- `front` is what stands in front of the first blank line of the bytes, or all of them. -/
structure IsBeforeBlank (bytes front : List UInt8) : Prop where
  not_isBlankLine : ∀ line ∈ byteLines front, ¬IsBlankLine line
  /-- Where the bytes are cut, a line begins, and it is blank. -/
  eq_or : front = bytes ∨ (front = [] ∨ front.getLast? = some 0x0a) ∧
    ∃ blank rest, bytes = front ++ blank ++ rest ∧ IsBlankLine blank ∧ 0x0a ∉ blank ∧
      (rest = [] ∨ rest.head? = some 0x0a)

theorem isBeforeBlank_beforeBlank (bytes : List UInt8) :
    IsBeforeBlank bytes (beforeBlank bytes) := by
  induction bytes using lines_induct (0x0a : UInt8) with
  | nil => exact ⟨by simp [beforeBlank_nil, byteLines], Or.inl beforeBlank_nil⟩
  | last line hne hfeed =>
    rw [beforeBlank_of_not_mem hfeed]
    split
    · next hblank =>
      exact ⟨by simp [byteLines], Or.inr ⟨Or.inl rfl, line, [], by simp, hblank, hfeed, Or.inl rfl⟩⟩
    · next hblank =>
      refine ⟨?_, Or.inl rfl⟩
      rw [byteLines, linesBy_of_not_mem hne hfeed]
      simpa using hblank
  | line line rest hfeed ih =>
    rw [beforeBlank_append_cons hfeed]
    split
    · next hblank =>
      exact ⟨by simp [byteLines], Or.inr ⟨Or.inl rfl, line, 0x0a :: rest, by simp, hblank, hfeed,
        Or.inr rfl⟩⟩
    · next hblank =>
      refine ⟨?_, ?_⟩
      · rw [byteLines, linesBy_append_cons hfeed]
        exact not_isBlankLine_cons hblank ih.not_isBlankLine
      · refine ih.eq_or.imp (fun h => by rw [h]) ?_
        rintro ⟨hend, blank, tail, hrest, hblank'⟩
        refine ⟨Or.inr ?_, blank, tail, ?_, hblank'⟩
        · rcases hend with hend | hend <;> simp [List.getLast?_cons, hend]
        · conv_lhs => rw [hrest]
          simp

/-! ## What is read -/

theorem rulesBeforeBlank?_cons (line : List UInt8) (lines : List (List UInt8)) :
    rulesBeforeBlank? (line :: lines) = if IsBlankLine line then some [] else
      (decode? line).bind fun cs => (rulesBeforeBlank? lines).map (cs :: ·) := by
  rw [rulesBeforeBlank?]
  simp only [isBlankLine_iff]
  cases decode? line <;> simp

theorem rulesBeforeBlank?_eq_mapM {lines : List (List UInt8)}
    (h : ∀ line ∈ lines, ¬IsBlankLine line) : rulesBeforeBlank? lines = lines.mapM decode? := by
  induction lines with
  | nil => rfl
  | cons line lines ih =>
    obtain ⟨hline, hlines⟩ := List.forall_mem_cons.mp h
    rw [rulesBeforeBlank?_cons, if_neg hline, ih hlines, List.mapM_cons]
    cases decode? line <;> cases lines.mapM decode? <;> rfl

/-- What is read from the input is what is read in front of its first blank line. -/
theorem inputLines?_beforeBlank (bytes : List UInt8) :
    inputLines? (beforeBlank bytes) = inputLines? bytes := by
  unfold inputLines? byteLines
  induction bytes using lines_induct (0x0a : UInt8) with
  | nil => rw [beforeBlank_nil]
  | last line hne hfeed =>
    rw [beforeBlank_of_not_mem hfeed, linesBy_of_not_mem hne hfeed, rulesBeforeBlank?_cons]
    split
    · rfl
    · next hblank =>
      rw [linesBy_of_not_mem hne hfeed, rulesBeforeBlank?_cons, if_neg hblank]
  | line line rest hfeed ih =>
    rw [beforeBlank_append_cons hfeed, linesBy_append_cons hfeed, rulesBeforeBlank?_cons]
    simp only [isBlankLine_dropReturn]
    split
    · rfl
    · next hblank =>
      rw [linesBy_append_cons hfeed, rulesBeforeBlank?_cons, ih]
      simp only [isBlankLine_dropReturn, if_neg hblank]

/-- Standard input is read like a file with the bytes in front of its first blank line. -/
theorem inputLines?_eq_fileLines? (bytes : List UInt8) :
    inputLines? bytes = fileLines? (beforeBlank bytes) := by
  rw [← inputLines?_beforeBlank, inputLines?, rulesBeforeBlank?_eq_mapM
    (isBeforeBlank_beforeBlank bytes).not_isBlankLine, mapM_decode?_byteLines]

/-! ## Input and file -/

variable {input : List UInt8} {files files' : String → Option (List UInt8)} {path : String}

theorem readLines_beforeBlank (input : List UInt8) (files : String → Option (List UInt8))
    (source : Source) :
    readLines ⟨beforeBlank input, files⟩ source = readLines ⟨input, files⟩ source := by
  cases source with
  | file path => rfl
  | input => simp only [readLines, inputLines?_beforeBlank]

theorem run_beforeBlank (input : List UInt8) (files : String → Option (List UInt8))
    (arguments : List String) :
    run ⟨beforeBlank input, files⟩ arguments = run ⟨input, files⟩ arguments := by
  simp only [run, runLogged, readLines_beforeBlank]

theorem readLines_input_eq_file (hutf8 : (decode? (beforeBlank input)).isSome)
    (hfile : files' path = some (beforeBlank input)) (input' : List UInt8) :
    readLines ⟨input, files⟩ .input = readLines ⟨input', files'⟩ (.file path) := by
  obtain ⟨cs, hcs⟩ := Option.isSome_iff_exists.mp hutf8
  simp only [readLines, hfile, Option.bind_some, inputLines?_eq_fileLines?, fileLines?, hcs,
    Option.map_some]

theorem readLines_input_eq_error (h : decode? (beforeBlank input) = none) :
    readLines ⟨input, files⟩ .input = .error .unreadableInput := by
  simp only [readLines, inputLines?_eq_fileLines?, fileLines?, h, Option.map_none]

/-- What decides about a command is what stands in front of the first blank line of standard input,
and no byte behind it. If these bytes are UTF-8, any command without a grammar file comes to the
same, in what it logs, in what it prints and in how it fails, as it does with a file appended that
holds them. If they are not, it fails and says that standard input cannot be read. -/
theorem run_input_eq_run_file (input : List UInt8) :
    IsBeforeBlank input (beforeBlank input) ∧
    (∀ files arguments, run ⟨beforeBlank input, files⟩ arguments = run ⟨input, files⟩ arguments) ∧
    ∀ arguments options, Request.ofArguments? arguments = some (.run options) →
      (∀ value ∈ options.positional, (Output.ofName? value).isSome) →
      ((decode? (beforeBlank input)).isSome → ∀ path files files' input', IsFileName path →
        files' path = some (beforeBlank input) →
        run ⟨input, files⟩ arguments = run ⟨input', files'⟩ (arguments ++ [path])) ∧
      (decode? (beforeBlank input) = none → ∀ files,
        (run ⟨input, files⟩ arguments).exitCode = 1 ∧ (run ⟨input, files⟩ arguments).output = "" ∧
        (run ⟨input, files⟩ arguments).failure? = some .unreadableInput) := by
  refine ⟨isBeforeBlank_beforeBlank input, run_beforeBlank input,
    fun arguments options hrun houtputs => ?_⟩
  obtain ⟨outputs, hpositional⟩ := Output.exists_map_name_eq houtputs
  have htargets : Targets.ofPositional options.positional =
      .ok ⟨Targets.orSummary outputs, .input⟩ :=
    Targets.ofPositional_eq_ok_iff.mpr ⟨outputs, none, by simpa using hpositional, by simp, rfl⟩
  constructor
  · intro hutf8 path files files' input' hpath hfile
    have htargets' : Targets.ofPositional (options.positional ++ [path]) =
        .ok ⟨Targets.orSummary outputs, .file path⟩ :=
      Targets.ofPositional_eq_ok_iff.mpr
        ⟨outputs, some path, by rw [hpositional]; rfl, by simpa using hpath.2, rfl⟩
    rw [run_of_ofArguments? hrun, run_of_ofArguments? (ofArguments?_concat hpath.1 hrun)]
    simp only [runLogged, htargets, htargets', readLines_input_eq_file hutf8 hfile input']
  · intro hutf8 files
    have hprintout : (run ⟨input, files⟩ arguments).toPrintout = .failed .unreadableInput := by
      rw [toPrintout_run hrun htargets, load, readLines_input_eq_error hutf8]
      rfl
    rw [hprintout]
    exact ⟨rfl, rfl, rfl⟩

/-- A rule, a blank line with a return, and a byte that is not UTF-8. -/
def cutInput : List UInt8 :=
  encode "S -> a\r\n \r\n" ++ [0xff]

/-- A byte that is not UTF-8 where there should be a rule. -/
def brokenInput : List UInt8 :=
  0xff :: encode "\n\n"

/-- The byte behind the blank line does not matter, and the one in front of it does. -/
theorem run_input_eq_run_file_cut :
    run ⟨cutInput, fun _ => none⟩ ["-v", "--", "ff"] =
      run ⟨[], fun _ => some (encode "S -> a\r\n")⟩ (["-v", "--", "ff"] ++ ["g"]) ∧
    (run ⟨brokenInput, fun _ => none⟩ []).failure? = some .unreadableInput := by
  obtain ⟨-, -, hcut⟩ := run_input_eq_run_file cutInput
  obtain ⟨-, -, hbroken⟩ := run_input_eq_run_file brokenInput
  refine ⟨(hcut ["-v", "--", "ff"] _ rfl (by decide)).1 ?_ "g" _ _ _ (by decide) ?_,
    ((hbroken [] _ rfl (by decide)).2 ?_ _).2.2⟩
  · decide +kernel
  · decide +kernel
  · decide +kernel

end Lookahead.CommandLine
