import StampScript.Proofs.Steps

/-!
# Frames of faults

A fault collects a frame for each statement and each file that it leaves.  A line behind a line goes
to the level that is there, and all else is a level around the fault, so a fault that leaves many
calls does not nest deeply.  How the frames are spread over levels cannot be seen: the text and the
root of a fault are those of a fault with a level for each frame.

* `Fault.Frame`, `Failure.add` — frames, and how a failure gets one.
* `Fault.frames`, `Fault.message_eq` — the text of a fault is that of its root and of its frames.
* `Fault.Adds` — a way to add frames: keeping them flat is one, wrapping in each is another.
* `Fault.nested`, `Fault.nesting` — a level for each frame, and the levels that there are.
* **`Failure.frames_stay_flat`** — flat frames show what nested ones would.
* `Session.fault_located` — a fault that is reported has the line of a statement of the program.
-/

namespace StampScript

namespace Fault

/-- What a fault collects: where it left a statement, or a file. -/
inductive Frame where
  | line (line : Nat)
  /-- The line is that of the inclusion. -/
  | file (path : String) (line : Nat)
  deriving DecidableEq, Repr

namespace Frame

/-- The text of a frame. -/
def text : Frame → String
  | line l => " (line " ++ toString l ++ ")"
  | file path l => " (in file " ++ path ++ ", externally included at line " ++ toString l ++ ")"

/-- The frame is that of a statement. -/
def isLine : Frame → Bool
  | line _ => true
  | file .. => false

/-- The levels that frames add to a fault, which may end in lines: one for each file, and one for
each line that does not follow another. -/
def levels : Bool → List Frame → Nat
  | _, [] => 0
  | true, line _ :: rest => levels true rest
  | false, line _ :: rest => 1 + levels true rest
  | _, file .. :: rest => 1 + levels false rest

end Frame

/-! ## Faults and their frames -/

/-- The frames of a fault, from the inside out. -/
def frames : Fault → List Frame
  | lines f ls => f.frames ++ ls.toList.map .line
  | file f path l => f.frames ++ [.file path l]
  | _ => []

/-- How many levels of frames there are around the root of a fault. -/
def nesting : Fault → Nat
  | lines f _ => f.nesting + 1
  | file f _ _ => f.nesting + 1
  | _ => 0

/-- The outermost level of a fault is one of lines. -/
def endsInLines : Fault → Bool
  | lines .. => true
  | _ => false

/-- The fault with one more frame, which goes to the outermost level where that is possible. -/
def add (f : Fault) : Frame → Fault
  | .line l => f.atLine l
  | .file path l => .file f path l

/-- The fault with more frames, one after the other. -/
def addAll (f : Fault) (fs : List Frame) : Fault := fs.foldl add f

/-- The fault in one more frame, which gets a level of its own. -/
def wrap (f : Fault) : Frame → Fault
  | .line l => .lines f #[l]
  | .file path l => .file f path l

/-- The fault with a level of its own for each of its frames. -/
def nested (f : Fault) : Fault := f.frames.foldl wrap f.root

/-- Induction along the levels of frames, down to a fault without any. -/
@[elab_as_elim]
lemma levelsInduction {P : Fault → Prop}
    (root : ∀ f : Fault, f.root = f → f.frames = [] → P f)
    (lines : ∀ f ls, P f → P (.lines f ls)) (file : ∀ f path l, P f → P (.file f path l))
    (f : Fault) : P f := by
  induction f with
  | lines f ls ih => exact lines f ls ih
  | file f path l ih => exact file f path l ih
  | _ => exact root _ rfl rfl

lemma message_lines (f : Fault) (ls : Array Nat) : (lines f ls).message
    = f.message ++ String.join (ls.toList.map fun l => (Frame.line l).text) := rfl

lemma message_file (f : Fault) (path : String) (l : Nat) :
    (file f path l).message = f.message ++ (Frame.file path l).text := by
  simp only [Frame.text, ← String.append_assoc]
  rfl

/-- The text of a fault is that of its root, with the texts of its frames behind it. -/
lemma message_eq (f : Fault) :
    f.message = f.root.message ++ String.join (f.frames.map Frame.text) := by
  induction f using levelsInduction with
  | root f hroot hframes => rw [hroot, hframes, List.map_nil, String.join_nil, String.append_empty]
  | lines f ls ih =>
    rw [message_lines, ih, frames, List.map_append, List.map_map, String.join_append,
      ← String.append_assoc]
    rfl
  | file f path l ih =>
    rw [message_file, ih, frames, List.map_append, String.join_append, List.map_singleton,
      String.join_cons, String.join_nil, String.append_empty, ← String.append_assoc]
    rfl

/-! ## Ways to add frames -/

/-- A way to add a frame to a fault: the root stays, and the frame comes outermost. -/
structure Adds (put : Fault → Frame → Fault) : Prop where
  root : ∀ f fr, (put f fr).root = f.root
  frames : ∀ f fr, (put f fr).frames = f.frames ++ [fr]

namespace Adds

variable {put : Fault → Frame → Fault}

lemma root_foldl (h : Adds put) (fs : List Frame) (f : Fault) :
    (fs.foldl put f).root = f.root := by
  induction fs generalizing f with
  | nil => rfl
  | cons fr fs ih => rw [List.foldl_cons, ih, h.root]

lemma frames_foldl (h : Adds put) (fs : List Frame) (f : Fault) :
    (fs.foldl put f).frames = f.frames ++ fs := by
  induction fs generalizing f with
  | nil => exact (List.append_nil _).symm
  | cons fr fs ih => rw [List.foldl_cons, ih, h.frames, List.append_assoc, List.singleton_append]

/-- Whichever way frames are added, their texts come behind that of the fault. -/
lemma message_foldl (h : Adds put) (fs : List Frame) (f : Fault) :
    (fs.foldl put f).message = f.message ++ String.join (fs.map Frame.text) := by
  rw [message_eq, h.root_foldl, h.frames_foldl, List.map_append, String.join_append,
    ← String.append_assoc, ← message_eq]

end Adds

/-- Where a line goes: to the lines that a fault ends in, or on a new level. -/
lemma atLine_cases (f : Fault) (l : Nat) :
    (∃ g ls, f = .lines g ls ∧ f.atLine l = .lines g (ls.push l))
      ∨ f.endsInLines = false ∧ f.atLine l = .lines f #[l] := by
  cases f with
  | lines g ls => exact .inl ⟨g, ls, rfl, rfl⟩
  | _ => exact .inr ⟨rfl, rfl⟩

/-- Wrapping in frames adds them. -/
lemma wrap_adds : Adds wrap where
  root f fr := by cases fr <;> rfl
  frames f fr := by cases fr <;> rfl

/-- Keeping frames flat adds them. -/
lemma add_adds : Adds add where
  root f fr := by
    cases fr with
    | file path l => rfl
    | line l =>
      rcases f.atLine_cases l with ⟨g, ls, rfl, hline⟩ | ⟨-, hline⟩ <;> rw [add, hline] <;> rfl
  frames f fr := by
    cases fr with
    | file path l => rfl
    | line l =>
      rcases f.atLine_cases l with ⟨g, ls, rfl, hline⟩ | ⟨-, hline⟩
      · rw [add, hline, frames, frames, Array.toList_push, List.map_append, List.append_assoc]
        rfl
      · rw [add, hline]
        rfl

/-! ## A level for each frame -/

lemma root_root (f : Fault) : f.root.root = f.root := by
  induction f using levelsInduction with
  | root f hroot _ => rw [hroot, hroot]
  | lines f ls ih => exact ih
  | file f path l ih => exact ih

/-- A level for each frame does not change the root. -/
lemma root_nested (f : Fault) : f.nested.root = f.root := by
  rw [nested, wrap_adds.root_foldl, root_root]

/-- A level for each frame does not change the text. -/
lemma message_nested (f : Fault) : f.nested.message = f.message := by
  rw [nested, wrap_adds.message_foldl, ← message_eq]

/-- Keeping frames flat comes to wrapping in one after the other, the levels apart. -/
lemma nested_addAll (f : Fault) (fs : List Frame) :
    (f.addAll fs).nested = fs.foldl wrap f.nested := by
  rw [nested, addAll, add_adds.root_foldl, add_adds.frames_foldl, List.foldl_append, nested]

/-! ## Levels -/

lemma endsInLines_add (f : Fault) (fr : Frame) : (f.add fr).endsInLines = fr.isLine := by
  cases fr with
  | file path l => rfl
  | line l =>
    rcases f.atLine_cases l with ⟨g, ls, rfl, hline⟩ | ⟨-, hline⟩ <;> rw [add, hline] <;> rfl

lemma nesting_add (f : Fault) (fr : Frame) :
    (f.add fr).nesting = f.nesting + Frame.levels f.endsInLines [fr] := by
  cases fr with
  | file path l => cases h : f.endsInLines <;> rfl
  | line l =>
    rcases f.atLine_cases l with ⟨g, ls, rfl, hline⟩ | ⟨hends, hline⟩
    · rw [add, hline]
      rfl
    · rw [add, hline, hends]
      rfl

lemma Frame.levels_cons (b : Bool) (fr : Frame) (fs : List Frame) :
    levels b (fr :: fs) = levels b [fr] + levels fr.isLine fs := by
  cases fr <;> cases b <;> simp [levels, isLine]

/-- Frames add a level for each file, and one for each line that does not follow another. -/
lemma nesting_addAll (f : Fault) (fs : List Frame) :
    (f.addAll fs).nesting = f.nesting + Frame.levels f.endsInLines fs := by
  induction fs generalizing f with
  | nil => rfl
  | cons fr fs ih =>
    calc (f.addAll (fr :: fs)).nesting
        = (f.add fr).nesting + Frame.levels (f.add fr).endsInLines fs := ih (f.add fr)
      _ = f.nesting + Frame.levels f.endsInLines [fr] + Frame.levels fr.isLine fs := by
          rw [nesting_add, endsInLines_add]
      _ = f.nesting + Frame.levels f.endsInLines (fr :: fs) := by
          rw [Frame.levels_cons _ fr fs, Nat.add_assoc]

/-- Lines behind a line add no level. -/
lemma Frame.levels_lines (ls : List Nat) (fs : List Frame) :
    levels true (ls.map line ++ fs) = levels true fs := by
  induction ls with
  | nil => rfl
  | cons l ls ih => exact ih

/-- Lines behind a line may be left out, where only levels count. -/
lemma nesting_lines (f : Fault) (before after : List Frame) (l : Nat) (ls : List Nat) :
    (f.addAll (before ++ .line l :: (ls.map .line ++ after))).nesting
      = (f.addAll (before ++ .line l :: after)).nesting := by
  have hsplit (fs : List Frame) : f.addAll (before ++ fs) = (f.addAll before).addAll fs :=
    List.foldl_append
  -- Behind the line `l` the fault ends in lines, whatever it ended in before.
  rw [hsplit, hsplit, nesting_addAll, nesting_addAll _ (_ :: after), Frame.levels_cons,
    Frame.levels_cons _ _ after, Frame.isLine, Frame.levels_lines]

/-- What a fault is when another one got more frames: it shows what wrapping would, on fewer
levels. -/
structure Collects (f : Fault) (fs : List Frame) (g : Fault) : Prop where
  /-- The text gets one suffix for each frame, in the order in which the frames came. -/
  message : g.message = f.message ++ String.join (fs.map Frame.text)
  root : g.root = f.root
  /-- With a level for each frame, it is the fault before, wrapped in one frame after the other. -/
  nested : g.nested = fs.foldl wrap f.nested
  /-- With a level for each frame, it shows the same. -/
  shown : g.nested.message = g.message ∧ g.nested.root = g.root
  nesting : g.nesting = f.nesting + Frame.levels f.endsInLines fs

lemma collects_addAll (f : Fault) (fs : List Frame) : f.Collects fs (f.addAll fs) where
  message := add_adds.message_foldl fs f
  root := add_adds.root_foldl fs f
  nested := f.nested_addAll fs
  shown := ⟨message_nested _, root_nested _⟩
  nesting := f.nesting_addAll fs

end Fault

/-! ## Failures -/

namespace Failure

/-- The failure with one more frame. -/
def add (e : Failure) : Fault.Frame → Failure
  | .line l => e.atLine l
  | .file path l => e.included path l

/-- The failure with more frames, one after the other. -/
def addAll (e : Failure) (fs : List Fault.Frame) : Failure := fs.foldl add e

lemma add_fault (f : Fault) (fr : Fault.Frame) : (fault f).add fr = fault (f.add fr) := by
  cases fr <;> rfl

lemma add_raised (v : Value) (fr : Fault.Frame) : (raised v).add fr = raised v := by
  cases fr <;> rfl

lemma addAll_fault (f : Fault) (fs : List Fault.Frame) :
    (fault f).addAll fs = fault (f.addAll fs) := by
  induction fs generalizing f with
  | nil => rfl
  | cons fr fs ih =>
    calc (fault f).addAll (fr :: fs)
        = ((fault f).add fr).addAll fs := rfl
      _ = (fault (f.add fr)).addAll fs := by rw [add_fault]
      _ = fault (f.addAll (fr :: fs)) := ih (f.add fr)

lemma addAll_raised (v : Value) (fs : List Fault.Frame) : (raised v).addAll fs = raised v := by
  induction fs with
  | nil => rfl
  | cons fr fs ih =>
    calc (raised v).addAll (fr :: fs)
        = ((raised v).add fr).addAll fs := rfl
      _ = raised v := by rw [add_raised, ih]

/-- **Flat frames show what nested ones would.**  Whatever frames a fault has, more of them, in any
order, put their texts behind its text one after the other, leave its root, and come to the same as
wrapping it in one after the other.  Lines that follow each other add no level for this.  A raised
value gets no frames. -/
theorem frames_stay_flat :
    (∀ (f : Fault) (fs : List Fault.Frame),
      (fault f).addAll fs = fault (f.addAll fs) ∧ f.Collects fs (f.addAll fs))
    ∧ (∀ (f : Fault) (before after : List Fault.Frame) (l : Nat) (ls : List Nat),
      (f.addAll (before ++ .line l :: (ls.map .line ++ after))).nesting
        = (f.addAll (before ++ .line l :: after)).nesting)
    ∧ ∀ (v : Value) (fs : List Fault.Frame), (raised v).addAll fs = raised v :=
  ⟨fun f fs => ⟨addAll_fault f fs, f.collects_addAll fs⟩, Fault.nesting_lines, addAll_raised⟩

/-- Two lines, a file and another line are on three levels. -/
example :
    let f := Fault.addAll (.iterationLimit 5) [.line 2, .line 9, .file "lib.nk" 4, .line 4]
    f.message = "loop iteration limit of 5 reached (line 2) (line 9)"
        ++ " (in file lib.nk, externally included at line 4) (line 4)"
      ∧ f.nesting = 3 := by
  decide +kernel

end Failure

/-! ## Frames of a program -/

namespace Eval

variable {host : Host} {c : Context} {s s' : State} {e : Failure}

/-- A failure that leaves statements is that of one of them, with its line. -/
lemma exists_of_stmts_failure {scope : Scope} :
    ∀ {body : List Stmt} {last : Value} {line : Nat} {s : State},
      stmts host body scope last line c s = .failure e s' →
      ∃ st ∈ body, ∃ s₁ e₁, stmt host st scope c s₁ = .failure e₁ s' ∧ e = e₁.add (.line st.line)
  | [], _, _, _, h => by cases h
  | st :: rest, _, _, s, h => by
    rw [stmts] at h
    rcases of_bind_failure h with hst | ⟨v, s₁, -, h⟩
    · obtain ⟨e₁, he₁, rfl⟩ := of_mapFailure_failure hst
      exact ⟨st, List.mem_cons_self, s, e₁, he₁, rfl⟩
    · -- The first statement went well, and the others run unless it started a jump.
      simp only [bind_apply, machine] at h
      split at h
      · cases h
      · obtain ⟨st', hmem, hst'⟩ := exists_of_stmts_failure h
        exact ⟨st', List.mem_cons_of_mem st hmem, hst'⟩

/-- A failure of a program is that of one of its statements, with its line. -/
lemma exists_of_runProgram_failure {program : List Stmt}
    (h : runProgram host program c s = .failure e s') :
    ∃ st ∈ program, ∃ s₁ e₁, stmt host st s.machine.globals c s₁ = .failure e₁ s'
      ∧ e = e₁.add (.line st.line) := by
  rw [runProgram, bind_of_success (show machine c s = .success s.machine s from rfl)] at h
  rcases of_bind_failure h with h | ⟨_, _, -, h⟩
  · exact exists_of_stmts_failure h
  · cases h

end Eval

/-- **A reported fault says where it is from.**  A fault that ends a program was the fault of one of
its statements, and got the line of this statement as its last frame. -/
theorem Session.fault_located {s s' : Session} {source : String} {g : Fault}
    (h : s.evaluate source = .ok (.error (.fault g), s')) :
    ∃ program, parseProgram source = .ok program ∧ ∃ st ∈ program, ∃ s₁ s₂ f,
      Eval.stmt s.host st s.globals ⟨s.settings, reply s.host s.settings s.settings.budget.depth⟩ s₁
        = .failure (.fault f) s₂ ∧ f.Collects [.line st.line] g := by
  rw [evaluate] at h
  split at h
  · cases h
  · next program hprogram =>
    refine ⟨program, hprogram, ?_⟩
    rw [run, Eval.run] at h
    rcases hrun : Eval.runProgram s.host program
        ⟨s.settings, reply s.host s.settings s.settings.budget.depth⟩ s.state
      with ⟨v, s₂⟩ | ⟨e, s₂⟩ | why
    · rw [hrun] at h; cases h
    · rw [hrun] at h
      obtain ⟨st, hst, s₁, e₁, hfails, rfl⟩ := Eval.exists_of_runProgram_failure hrun
      cases e₁ with
      | fault f =>
        cases h
        exact ⟨st, hst, s₁, s₂, f, hfails, f.collects_addAll [.line st.line]⟩
      | raised v => cases h
    · rw [hrun] at h; cases h

end StampScript
