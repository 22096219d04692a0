import Stencil.Error

/-!
# Acts

Work on a state that may halt.

## Main definitions

* `Halt` — why work stops
* `Act` — work on a state; a halt keeps the state

## Design notes

What an act does is told by one equation for each way of building acts, of which `Act.run_bind` is
the only one with a case split.
-/

namespace Stencil

/-- Why work stops. Running out of depth is not an error of a template: it has neither a wording nor
files. -/
inductive Halt where
  | error (e : RenderError)
  /-- Templates are nested too deeply. -/
  | depth

/-- Work on a state that may halt. The state is kept when it does, so what was loaded and compiled
until then is not lost. -/
abbrev Act (σ : Type) := ExceptT Halt (StateM σ)

namespace Act

variable {σ α β : Type}

/-- What an act that does nothing gives. -/
theorem of_run_pure {a b : α} {s s' : σ} (h : (pure a : Act σ α).run s = (.ok b, s')) :
    a = b ∧ s = s' :=
  ⟨Except.ok.inj (congrArg Prod.fst h), congrArg Prod.snd h⟩

/-- The second of two acts runs where the first one has ended, unless that halts. -/
theorem run_bind (act : Act σ α) (next : α → Act σ β) (s : σ) :
    (act >>= next).run s =
      match act.run s with
      | (.ok a, s₁) => (next a).run s₁
      | (.error h, s₁) => (.error h, s₁) := by
  change (ExceptT.bindCont (m := StateM σ) next (act.run s).1).run (act.run s).2 = _
  rcases act.run s with ⟨_ | a, s₁⟩ <;> rfl

theorem run_get (s : σ) : (get : Act σ σ).run s = (.ok s, s) := rfl

theorem run_modifyGet (f : σ → α × σ) (s : σ) :
    (modifyGet f : Act σ α).run s = (.ok (f s).1, (f s).2) := rfl

/-- Reading the state before an act. -/
theorem run_get_bind (next : σ → Act σ β) (s : σ) : (get >>= next).run s = (next s).run s := by
  rw [run_bind, run_get]

/-- An act after one that ends well. -/
theorem run_bind_of_ok {act : Act σ α} {s s₁ : σ} {a : α} (h : act.run s = (.ok a, s₁))
    (next : α → Act σ β) : (act >>= next).run s = (next a).run s₁ := by
  rw [run_bind, h]

/-- An act after one that halts does nothing. -/
theorem run_bind_of_error {act : Act σ α} {s s₁ : σ} {halt : Halt}
    (h : act.run s = (.error halt, s₁)) (next : α → Act σ β) :
    (act >>= next).run s = (.error halt, s₁) := by
  rw [run_bind, h]

/-- If two acts one after the other end well, so does each of them. -/
theorem exists_of_run_bind {act : Act σ α} {next : α → Act σ β} {s s₂ : σ} {b : β}
    (h : (act >>= next).run s = (.ok b, s₂)) :
    ∃ a s₁, act.run s = (.ok a, s₁) ∧ (next a).run s₁ = (.ok b, s₂) := by
  rcases ha : act.run s with ⟨halt | a, s₁⟩
  · exact nomatch (run_bind_of_error ha next).symm.trans h
  · exact ⟨a, s₁, rfl, (run_bind_of_ok ha next).symm.trans h⟩

end Act
end Stencil
