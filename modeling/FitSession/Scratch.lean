/-!
# Scratch vectors

Work that asks a function at one vector after another, which are all written into the same scratch
vector.

* `Scratch.write`: an entry of the scratch vector is written over;
* `Scratch.ask`: the function is asked at the scratch vector.
-/

namespace FitSession

namespace Scratch

variable {β γ : Type} {m : Type → Type} [Monad m]

/-- Writes `x` over the entry at `i`. -/
def write (i : Nat) (x : β) : StateT (List β) m PUnit := modify (·.set i x)

/-- What the function gives for the vector as it stands. -/
def ask (f : List β → m γ) : StateT (List β) m γ := do
  let point ← get
  f point

end Scratch
end FitSession
