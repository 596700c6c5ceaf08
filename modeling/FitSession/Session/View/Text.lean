import FitSession.Numeral.Written
import FitSession.Session.View
import FitSession.Text.Quoted

/-!
# Texts of limits and views

* `Limit.write`: a limit as a pair of numbers;
* `Column.render`: the names of the parameters with the items of a column.
-/

namespace FitSession

/-- A limit as a pair of numbers. -/
def Limit.write (l : Limit Float) : String :=
  "(" ++ Layout.plain.write l.lower ++ ", " ++ Layout.plain.write l.upper ++ ")"

/-- A limit with the names of its bounds, as an item of a view. -/
def Limit.describe (l : Limit Float) : String :=
  "Limit \x7b lower: " ++ Layout.tagged.write l.lower ++ ", upper: "
    ++ Layout.tagged.write l.upper ++ " \x7d"

/-- The names of the parameters with the items of a column. -/
def Column.render {α Item Input : Type} (c : Column α Item Input) (item : Item → String)
    (registry : Registry) (s : ParameterState α) : String :=
  let pairs := (registry.names.zip (c.items s)).map fun (name, x) => quote name ++ ": " ++ item x
  "\x7b" ++ ", ".intercalate pairs ++ "\x7d"

end FitSession
