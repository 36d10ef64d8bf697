/-!
Loops without a result to fail with. Each loop of the engine is a step on an explicit
state, taken by `repeatM` until it gives a result; nothing bounds how often.
-/
namespace CssSelect

/-- Takes a step again and again until it gives a result. -/
def iterate {σ ρ : Type} [Inhabited ρ] (step : σ → σ ⊕ ρ) (start : σ) : ρ :=
  Id.run (repeatM (fun state => pure (step state)) start)

end CssSelect
