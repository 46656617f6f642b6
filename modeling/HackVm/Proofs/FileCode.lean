import HackVm.Proofs.Layout
import Mathlib.Data.List.Forall2

/-!
# The code of a file

The code of a file starts anew: it depends on the file's name and its commands, and on nothing that was
emitted before, but for the numbers that its comparisons and calls go on from.

* `Numbers` : the numbers that the next comparison and the next call get; `Numbers.behind` counts on;
* `Command.lines`, `fileLines` : the lines of a command in a place, and of a file;
* `Emitter.listing_file` : an emitter that goes through a file adds these lines;
* `Renumbered` : two lines that differ at most in the number of a generated label;
* `Emitter.file_renumbered` : two emitters add the same lines for a file, up to numbers.
-/

namespace HackVm
open Instruction

/-! ## The lines of a file -/

/-- The numbers that the next comparison and the next call get. -/
structure Numbers where
  comparisons : Nat
  calls : Nat

/-- The numbers behind commands: each comparison and each call takes one. -/
def Numbers.behind (n : Numbers) (before : List Command) : Numbers where
  comparisons := n.comparisons + before.countP fun c => (Origin.command c).compares
  calls := n.calls + before.countP fun c => (Origin.command c).calls

/-- The function that one is in behind the commands at the start of a file. -/
def functionBehind (before : List Command) : Option String :=
  before.foldl (fun function c => (Origin.command c).functionFrom function) none

namespace Emitter

def numbers (e : Emitter) : Numbers := ⟨e.comparisons, e.calls⟩

def blank (file : String) (function : Option String) (n : Numbers) : Emitter :=
  { file, function, comparisons := n.comparisons, calls := n.calls }

end Emitter

/-- The lines of a command in this place: its comment, if comments are asked for, and its code. -/
def Command.lines (annotate : Bool) (file : String) (function : Option String) (n : Numbers)
    (c : Command) : List Instruction :=
  (if annotate then [.comment c.text] else []) ++
    ((Emitter.blank file function n).code c).2.toOption.getD []

/-- The lines of the commands of a file that stand behind the commands `before`. -/
def linesBehind (annotate : Bool) (file : String) (n : Numbers) (before : List Command) :
    List Command → List Instruction
  | [] => []
  | c :: cs => c.lines annotate file (functionBehind before) (n.behind before) ++
      linesBehind annotate file n (before ++ [c]) cs

def fileLines (annotate : Bool) (file : String) (n : Numbers) (cs : List Command) :
    List Instruction := linesBehind annotate file n [] cs

/-! ## Emitting a file -/

namespace Emitter

theorem code_blank_push (file : String) (function : Option String) (n : Numbers) (s : Segment) (i : Int) :
    ((blank file function n).code (.push s i)).2 = Block.push s i file :=
  withSegment_of_no_labels rfl s i _

theorem code_blank_pop (file : String) (function : Option String) (n : Numbers) (s : Segment) (i : Int) :
    ((blank file function n).code (.pop s i)).2 = Block.pop s i file :=
  withSegment_of_no_labels rfl s i _

/-- A command that is carried out adds the lines that it has in the emitter's place. -/
theorem listing_command {e : Emitter} {c : Command} (h : (e.run (.command c)).2 = none) :
    (e.run (.command c)).1.listing.toList =
      e.listing.toList ++ c.lines e.options.annotate e.file e.function e.numbers := by
  obtain ⟨code, hcode, hemits⟩ := emits_of_none rfl h
  have hblank : ((blank e.file e.function e.numbers).code c).2 = .ok code :=
    code_of_place hcode rfl rfl rfl rfl rfl
  rw [hemits.listing, Command.lines, hblank]
  rfl

/-- The emitter `w` has entered `file` and emitted the commands `before`, which has left it as `e`. -/
structure Behind (w : Emitter) (file : String) (before : List Command) (e : Emitter) : Prop where
  options : e.options = w.options
  file : e.file = file
  function : e.function = functionBehind before
  numbers : e.numbers = w.numbers.behind before

theorem behind_enter (w : Emitter) (file : String) : Behind w file [] (w.run (.enter file)).1 :=
  ⟨rfl, rfl, rfl, rfl⟩

theorem Behind.run {w e : Emitter} {file : String} {before : List Command}
    (h : Behind w file before e) (c : Command) :
    Behind w file (before ++ [c]) (e.run (.command c)).1 := by
  have hmoved : e.Moved (.command c) (e.run (.command c)).1 := run_moved rfl
  refine ⟨by rw [options_run, h.options], by rw [hmoved.file, h.file], ?_, ?_⟩
  · rw [hmoved.function, h.function, functionBehind, functionBehind, List.foldl_append]
    rfl
  · obtain ⟨hcomparisons, hcalls⟩ := Numbers.mk.inj h.numbers
    show Numbers.mk _ _ = Numbers.mk _ _
    rw [hmoved.comparisons, hmoved.calls, hcomparisons, hcalls]
    simp only [List.countP_append, List.countP_singleton, Nat.add_assoc]

/-- An emitter that has come this far in a file adds the lines of the commands that follow. -/
theorem Behind.listing_after {w e : Emitter} {file : String} {before cs : List Command}
    (h : Behind w file before e) (hcs : e.Completes (cs.map .command)) :
    (e.after (cs.map .command)).listing.toList =
      e.listing.toList ++ linesBehind w.options.annotate file w.numbers before cs := by
  induction cs generalizing e before with
  | nil => rw [linesBehind, List.append_nil]; rfl
  | cons c cs ih =>
    rw [List.map_cons, completes_cons] at hcs
    rw [List.map_cons, after_cons, ih (h.run c) hcs.2, listing_command hcs.1, h.options, h.file,
      h.function, h.numbers, linesBehind, List.append_assoc]

/-- Going through a file adds its lines to the listing. -/
theorem listing_file {w : Emitter} {file : String} {cs : List Command}
    (h : ((w.run (.enter file)).1.runAll cs).2 = none) :
    ((w.run (.enter file)).1.runAll cs).1.listing.toList =
      w.listing.toList ++ fileLines w.options.annotate file w.numbers cs := by
  rcases (w.run (.enter file)).1.runAll_cases cs with ⟨hcompletes, hrun⟩ | ⟨_, _, _, f, _, _, _, hf⟩
  · rw [hrun]
    exact (behind_enter w file).listing_after hcompletes
  · rw [h] at hf
    cases hf

end Emitter

/-! ## Numbers of generated labels -/

/-- The label with its number counted from `n`. Labels of the program have none. -/
def Label.countedFrom (n : Numbers) : Label → Label
  | .returnTo f k => .returnTo f (n.calls + k)
  | .whenTrue k => .whenTrue (n.comparisons + k)
  | .whenDone k => .whenDone (n.comparisons + k)
  | l => l

/-- Two instructions that are the same, or use the same generated label with its number counted from `n`
in the first and from `n'` in the second. -/
inductive Renumbered (n n' : Numbers) : Instruction → Instruction → Prop
  | same (i : Instruction) : Renumbered n n' i i
  | load (l : Label) : Renumbered n n' (symbol (l.countedFrom n).text) (symbol (l.countedFrom n').text)
  | define (l : Label) : Renumbered n n' (.label (l.countedFrom n).text) (.label (l.countedFrom n').text)

namespace Renumbered

variable {n n' : Numbers}

theorem refl (code : List Instruction) : List.Forall₂ (Renumbered n n') code code :=
  List.forall₂_same.2 fun i _ => .same i

theorem append {code code' more more' : List Instruction}
    (h : List.Forall₂ (Renumbered n n') code code') (hmore : List.Forall₂ (Renumbered n n') more more') :
    List.Forall₂ (Renumbered n n') (code ++ more) (code' ++ more') := List.rel_append h hmore

theorem compare (n n' : Numbers) (c : Comparison) (k : Nat) :
    List.Forall₂ (Renumbered n n') (Block.compare c (some (n.comparisons + k : Nat)))
      (Block.compare c (some (n'.comparisons + k : Nat))) := by
  have hloadTrue : Renumbered n n' _ _ := .load (.whenTrue k)
  have hloadDone : Renumbered n n' _ _ := .load (.whenDone k)
  have hdefineTrue : Renumbered n n' _ _ := .define (.whenTrue k)
  have hdefineDone : Renumbered n n' _ _ := .define (.whenDone k)
  refine append (refl [_, _, _, _, _]) (.cons hloadTrue ?_)
  refine append (refl [_, _, _, _]) (.cons hloadDone ?_)
  refine append (refl [_]) (.cons hdefineTrue ?_)
  exact append (refl [_, _, _]) (.cons hdefineDone .nil)

theorem call (n n' : Numbers) (f : String) (a : Int) (k : Nat) :
    List.Forall₂ (Renumbered n n') (Block.call f a (some (n.calls + k : Nat)))
      (Block.call f a (some (n'.calls + k : Nat))) := by
  have hload : Renumbered n n' _ _ := .load (.returnTo f k)
  have hdefine : Renumbered n n' _ _ := .define (.returnTo f k)
  refine append ?_ (append (refl [_, _]) (.cons hdefine .nil))
  exact append (append (append (append (.cons hload (refl [_])) (refl _)) (refl _)) (refl _)) (refl _)

/-- In the lines of a command only the numbers of its own labels depend on what was before. -/
theorem command (n n' : Numbers) (annotate : Bool) (file : String) (function : Option String)
    (before : List Command) (c : Command) :
    List.Forall₂ (Renumbered n n') (c.lines annotate file function (n.behind before))
      (c.lines annotate file function (n'.behind before)) := by
  refine append (refl _) ?_
  cases c with
  | push s i =>
    rw [Emitter.code_blank_push, Emitter.code_blank_push]
    exact refl _
  | pop s i =>
    rw [Emitter.code_blank_pop, Emitter.code_blank_pop]
    exact refl _
  | operate o =>
    cases o with
    | unary u => exact refl _
    | binary b => exact refl _
    | compare c => exact compare n n' c _
  | call f a => exact call n n' f a _
  | _ => exact refl _

theorem linesBehind (n n' : Numbers) (annotate : Bool) (file : String) (before cs : List Command) :
    List.Forall₂ (Renumbered n n') (linesBehind annotate file n before cs)
      (linesBehind annotate file n' before cs) := by
  induction cs generalizing before with
  | nil => exact .nil
  | cons c cs ih => exact append (command n n' annotate file _ before c) (ih (before ++ [c]))

end Renumbered

namespace Emitter

/-- Two emitters, whatever they have emitted before, go through the same file. Each adds the lines of the
file with its numbers counted on, and the lines are the same but for the numbers: the labels of a
comparison, and of a call, count from where each emitter was. -/
theorem file_renumbered (w w' : Emitter) (file : String) (cs : List Command)
    (ha : w'.options.annotate = w.options.annotate)
    (h : ((w.run (.enter file)).1.runAll cs).2 = none)
    (h' : ((w'.run (.enter file)).1.runAll cs).2 = none) :
    let lines := fileLines w.options.annotate file w.numbers cs
    let lines' := fileLines w.options.annotate file w'.numbers cs
    ((w.run (.enter file)).1.runAll cs).1.listing.toList = w.listing.toList ++ lines ∧
    ((w'.run (.enter file)).1.runAll cs).1.listing.toList = w'.listing.toList ++ lines' ∧
    List.Forall₂ (Renumbered w.numbers w'.numbers) lines lines' := by
  intro lines lines'
  refine ⟨listing_file h, ?_, Renumbered.linesBehind _ _ _ file [] cs⟩
  rw [listing_file h', ha]

def countdown : List Command :=
  [.function "Main.down" 0, .label "LOOP", .push .static 0, .push .constant 0,
    .operate (.compare .gt), .ifGoto "LOOP", .call "Main.down" 0, .ret]

def earlier : List Order :=
  [.bootstrap, .enter "Other", .command (.function "Other.f" 1), .command (.operate (.compare .eq)),
    .command (.label "ret.1"), .command (.call "Other.f" 0)]

theorem file_renumbered_countdown :
    (({} : Emitter).after earlier).numbers = ⟨1, 2⟩ ∧
    List.Forall₂ (Renumbered ⟨0, 0⟩ ⟨1, 2⟩) (fileLines false "Main" ⟨0, 0⟩ countdown)
      (fileLines false "Main" ⟨1, 2⟩ countdown) := by
  have hnumbers : (({} : Emitter).after earlier).numbers = ⟨1, 2⟩ := rfl
  obtain ⟨-, -, hlines⟩ := file_renumbered {} (({} : Emitter).after earlier) "Main" countdown rfl
    (by decide) (by decide)
  exact ⟨hnumbers, hlines⟩

end Emitter

end HackVm
