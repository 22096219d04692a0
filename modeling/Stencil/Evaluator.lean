import Stencil.Cache
import Stencil.Function.Table
import Stencil.Pipe.Basic
import Stencil.Program

/-!
# Evaluators

Work that needs the compiled forms of texts.

## Main definitions

* `Evaluator` — a function table with caches of compiled texts
* `Evaluation` — work with an evaluator, `Evaluation.value` — what it gives
* `Evaluation.program`, `Evaluation.pipe` — the compiled form of a text, kept from its first use on

## Design notes

That a kept form is the compiled form of its text is part of the type of evaluators, and that a
result depends on the functions alone is part of the type of evaluations. So whether a text was met
before can never be told from a result, and `Evaluation.value` need not mention an evaluator.
-/

namespace Stencil

/-- The program of a text, or the error of an expression. -/
def compiled (source : String) : Except Fault Program :=
  (Program.compile source).mapError fun e => .expression source (.syntactic e)

/-- A function table with the compiled forms of texts met so far. That each form is the one of its
text is part of the type, so that no caller has to keep it. -/
structure Evaluator where
  functions : FunctionTable
  programs : Cache Program
  pipes : Cache Pipe
  programs_hold : programs.Holds fun source p => compiled source = .ok p
  pipes_hold : pipes.Holds fun source p => p = Pipe.parse source

/-- An evaluator that has met no text yet. -/
def Evaluator.ofFunctions (functions : FunctionTable) : Evaluator :=
  ⟨functions, .empty, .empty, Cache.holds_empty, Cache.holds_empty⟩

/-- Work with an evaluator. It may compile texts, but its result does not depend on those that are
compiled already. -/
structure Evaluation (α : Type) where
  run : Evaluator → Except Fault α × Evaluator
  run_congr : ∀ ev ev', ev.functions = ev'.functions → (run ev).1 = (run ev').1
  functions_run : ∀ ev, (run ev).2.functions = ev.functions

namespace Evaluation

variable {α β : Type}

/-- What an evaluation gives with some functions: its result where no text is compiled yet. -/
def value (act : Evaluation α) (functions : FunctionTable) : Except Fault α :=
  (act.run (.ofFunctions functions)).1

/-- What an evaluation gives does not depend on the texts met before it. -/
theorem run_fst (act : Evaluation α) (ev : Evaluator) : (act.run ev).1 = act.value ev.functions :=
  act.run_congr ev (.ofFunctions ev.functions) rfl

/-! ### Building evaluations -/

/-- A result that may be a failure. -/
def ofExcept (result : Except Fault α) : Evaluation α :=
  ⟨fun ev => (result, ev), fun _ _ _ => rfl, fun _ => rfl⟩

/-- Fails. -/
def fail (fault : Fault) : Evaluation α := ofExcept (.error fault)

/-- How two evaluations run one after the other. -/
def runBind (act : Evaluation α) (next : α → Evaluation β) (ev : Evaluator) :
    Except Fault β × Evaluator :=
  match act.run ev with
  | (.ok a, ev) => (next a).run ev
  | (.error fault, ev) => (.error fault, ev)

theorem runBind_fst (act : Evaluation α) (next : α → Evaluation β) (ev : Evaluator) :
    (runBind act next ev).1 =
      (act.value ev.functions).bind fun a => (next a).value ev.functions := by
  have hv := act.run_fst ev
  have hf := act.functions_run ev
  unfold runBind
  rcases h : act.run ev with ⟨_ | a, ev₁⟩
  · rw [← hv, h]
    rfl
  · rw [← hv, h]
    rw [h] at hf
    change ((next a).run ev₁).1 = (next a).value ev.functions
    rw [run_fst, hf]

theorem functions_runBind (act : Evaluation α) (next : α → Evaluation β) (ev : Evaluator) :
    (runBind act next ev).2.functions = ev.functions := by
  have hf := act.functions_run ev
  unfold runBind
  rcases h : act.run ev with ⟨_ | a, ev₁⟩
  · rw [h] at hf
    exact hf
  · rw [h] at hf
    exact ((next a).functions_run ev₁).trans hf

instance : Monad Evaluation where
  pure a := ofExcept (.ok a)
  bind act next :=
    { run := runBind act next
      run_congr := fun ev ev' h => by rw [runBind_fst, runBind_fst, h]
      functions_run := functions_runBind act next }

/-- An evaluation after one that ends well. -/
theorem run_bind_of_ok {act : Evaluation α} {ev ev₁ : Evaluator} {a : α}
    (h : act.run ev = (.ok a, ev₁)) (next : α → Evaluation β) :
    (act >>= next).run ev = (next a).run ev₁ := by
  change runBind act next ev = _
  rw [runBind, h]

/-- An evaluation after one that fails does nothing. -/
theorem run_bind_of_error {act : Evaluation α} {ev ev₁ : Evaluator} {fault : Fault}
    (h : act.run ev = (.error fault, ev₁)) (next : α → Evaluation β) :
    (act >>= next).run ev = (.error fault, ev₁) := by
  change runBind act next ev = _
  rw [runBind, h]

/-- What an evaluation gives, a failure included. -/
def attempt (act : Evaluation α) : Evaluation (Except Fault α) where
  run ev :=
    let (result, ev) := act.run ev
    (.ok result, ev)
  run_congr ev ev' h := congrArg Except.ok (act.run_congr ev ev' h)
  functions_run := act.functions_run

/-- The functions that can be called. -/
def functions : Evaluation FunctionTable :=
  ⟨fun ev => (.ok ev.functions, ev), fun _ _ h => congrArg Except.ok h, fun _ => rfl⟩

/-- The program of a text. -/
def program (source : String) : Evaluation Program where
  run ev :=
    let found := ev.programs.getOrTryInsert source fun _ => compiled source
    (found.1, { ev with
      programs := found.2
      programs_hold := ev.programs_hold.getOrTryInsert source })
  run_congr ev ev' _ :=
    (Cache.getOrTryInsert_fst ev.programs_hold source).trans
      (Cache.getOrTryInsert_fst ev'.programs_hold source).symm
  functions_run _ := rfl

/-- The pipe of a text; every text is one. -/
def pipe (source : String) : Evaluation Pipe where
  run ev :=
    let found := ev.pipes.getOrInsert source fun _ => Pipe.parse source
    (.ok found.1, { ev with
      pipes := found.2
      pipes_hold := ev.pipes_hold.getOrInsert source })
  run_congr ev ev' _ :=
    congrArg Except.ok ((Cache.getOrInsert_fst ev.pipes_hold source).trans
      (Cache.getOrInsert_fst ev'.pipes_hold source).symm)
  functions_run _ := rfl

/-! ### What evaluations give -/

variable (functions : FunctionTable)

@[simp] theorem value_ofExcept (result : Except Fault α) :
    (ofExcept result).value functions = result := rfl

@[simp] theorem value_pure (a : α) : (pure a : Evaluation α).value functions = .ok a := rfl

@[simp] theorem value_fail (fault : Fault) :
    (fail fault : Evaluation α).value functions = .error fault := rfl

@[simp] theorem value_bind (act : Evaluation α) (next : α → Evaluation β) :
    (act >>= next).value functions =
      (act.value functions).bind fun a => (next a).value functions :=
  runBind_fst act next (.ofFunctions functions)

/-- If two evaluations after each other give something, so does each of them. -/
theorem exists_of_value_bind {act : Evaluation α} {next : α → Evaluation β} {b : β}
    (h : (act >>= next).value functions = .ok b) :
    ∃ a, act.value functions = .ok a ∧ (next a).value functions = .ok b := by
  rw [value_bind] at h
  cases ha : act.value functions with
  | error fault =>
      rw [ha] at h
      exact nomatch h
  | ok a =>
      rw [ha] at h
      exact ⟨a, rfl, h⟩

@[simp] theorem value_attempt (act : Evaluation α) :
    act.attempt.value functions = .ok (act.value functions) := rfl

@[simp] theorem value_functions : Evaluation.functions.value functions = .ok functions := rfl

@[simp] theorem value_program (source : String) :
    (program source).value functions = compiled source :=
  Cache.getOrTryInsert_fst Cache.holds_empty source

@[simp] theorem value_pipe (source : String) :
    (pipe source).value functions = .ok (Pipe.parse source) := rfl

end Evaluation
end Stencil
